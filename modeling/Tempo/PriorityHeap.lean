import Mathlib.Data.List.Basic
import Mathlib.Data.Nat.Basic
import Mathlib.Order.Lattice

/-!
# A binary heap in a list

Entry `i` of the list has the parent `(i - 1) / 2`.  An entry that is pushed goes to the
end and up until its parent is no greater; on the way its place is a hole that every
entry around may fill (`Hole`).  The heap stays ordered (`Ordered.push`), it has the
entries of before and the new one (`push_perm`), and its first entry is the least
(`Ordered.le_of_mem`).
-/

namespace PriorityHeap

variable {α : Type*} [LinearOrder α] {heap : List α} {item x y : α} {i j pos : Nat}

/-- The item goes from `pos` up to its place; as many turns as `pos` are enough. -/
def siftDown (item : α) : Nat → Nat → List α → List α
  | 0, pos, heap => heap.set pos item
  | turns + 1, pos, heap =>
      if pos = 0 then heap.set pos item
      else
        match heap[(pos - 1) / 2]? with
        | none => heap.set pos item
        | some parent =>
            if item < parent then siftDown item turns ((pos - 1) / 2) (heap.set pos parent)
            else heap.set pos item

def push (heap : List α) (item : α) : List α :=
  siftDown item heap.length heap.length (heap ++ [item])

/-- No entry is less than its parent. -/
def Ordered (heap : List α) : Prop :=
  ∀ i x y, 0 < i → heap[i]? = some x → heap[(i - 1) / 2]? = some y → y ≤ x

/-- The heap is ordered but for the entry at `pos`, and the item may stand there as far as
the entries below are concerned. -/
structure Hole (item : α) (pos : Nat) (heap : List α) : Prop where
  lt_length : pos < heap.length
  apart : ∀ i x y, 0 < i → i ≠ pos → (i - 1) / 2 ≠ pos → heap[i]? = some x →
    heap[(i - 1) / 2]? = some y → y ≤ x
  below : ∀ i x, 0 < i → (i - 1) / 2 = pos → heap[i]? = some x → item ≤ x
  around : ∀ i x y, 0 < i → 0 < pos → (i - 1) / 2 = pos → heap[i]? = some x →
    heap[(pos - 1) / 2]? = some y → y ≤ x

theorem parent_lt (hi : 0 < i) : (i - 1) / 2 < i := by omega

/-- The item stands where its parent is no greater. -/
theorem Hole.set (h : Hole item pos heap)
    (hparent : ∀ y, 0 < pos → heap[(pos - 1) / 2]? = some y → y ≤ item) :
    Ordered (heap.set pos item) := by
  intro i x y hi hx hy
  have hparentLt := parent_lt hi
  by_cases hpos : i = pos
  · subst hpos
    rw [List.getElem?_set_self h.lt_length] at hx
    obtain rfl := Option.some.inj hx
    rw [List.getElem?_set_ne (by omega)] at hy
    exact hparent y hi hy
  · rw [List.getElem?_set_ne (Ne.symm hpos)] at hx
    by_cases hchild : (i - 1) / 2 = pos
    · rw [hchild, List.getElem?_set_self h.lt_length] at hy
      obtain rfl := Option.some.inj hy
      exact h.below i x hi hchild hx
    · rw [List.getElem?_set_ne (Ne.symm hchild)] at hy
      exact h.apart i x y hi hpos hchild hx hy

/-- A greater parent comes down, and leaves the hole in its place. -/
theorem Hole.up (h : Hole item pos heap) (hpos : 0 < pos) {parent : α}
    (hparent : heap[(pos - 1) / 2]? = some parent) (hless : item < parent) :
    Hole item ((pos - 1) / 2) (heap.set pos parent) := by
  have hlt := parent_lt hpos
  have hlength := h.lt_length
  -- the entries that are no hole and not moved
  have hother : ∀ i, i ≠ pos → (heap.set pos parent)[i]? = heap[i]? :=
    fun i hi => List.getElem?_set_ne (Ne.symm hi)
  have hmoved : (heap.set pos parent)[pos]? = some parent := List.getElem?_set_self hlength
  have hsibling : ∀ i x, 0 < i → i ≠ pos → (i - 1) / 2 = (pos - 1) / 2 → heap[i]? = some x →
      parent ≤ x := by
    intro i x hi hne hsame hx
    refine h.apart i x parent hi hne (by omega) hx ?_
    rw [hsame, hparent]
  have hgrand : ∀ y, 0 < (pos - 1) / 2 → heap[((pos - 1) / 2 - 1) / 2]? = some y →
      y ≤ parent :=
    fun y hup hy => h.apart _ parent y hup (by omega) (by omega) hparent hy
  refine ⟨by rw [List.length_set]; omega, ?_, ?_, ?_⟩
  · intro i x y hi hhole hchild hx hy
    have hnot : i ≠ pos := by
      rintro rfl
      exact hchild rfl
    rw [hother i hnot] at hx
    by_cases hunder : (i - 1) / 2 = pos
    · rw [hunder, hmoved] at hy
      obtain rfl := Option.some.inj hy
      exact h.around i x parent hi hpos hunder hx hparent
    · rw [hother _ hunder] at hy
      exact h.apart i x y hi hnot hunder hx hy
  · intro i x hi hchild hx
    by_cases hi' : i = pos
    · rw [hi', hmoved] at hx
      obtain rfl := Option.some.inj hx
      exact hless.le
    · rw [hother i hi'] at hx
      exact hless.le.trans (hsibling i x hi hi' hchild hx)
  · intro i x y hi hup hchild hx hy
    rw [hother _ (by omega)] at hy
    by_cases hi' : i = pos
    · rw [hi', hmoved] at hx
      obtain rfl := Option.some.inj hx
      exact hgrand y hup hy
    · rw [hother i hi'] at hx
      exact (hgrand y hup hy).trans (hsibling i x hi hi' hchild hx)

theorem Hole.ordered (turns : Nat) :
    ∀ {pos : Nat} {heap : List α}, pos ≤ turns → Hole item pos heap →
      Ordered (siftDown item turns pos heap) := by
  induction turns with
  | zero =>
      intro pos heap hturns h
      exact h.set fun y hpos => absurd hpos (by omega)
  | succ turns ih =>
      intro pos heap hturns h
      unfold siftDown
      split
      next hzero => exact h.set fun y hpos => absurd hpos (by omega)
      next hpos =>
        split
        next hnone =>
          refine h.set fun y _ hy => ?_
          rw [hnone] at hy
          cases hy
        next parent hparent =>
          split
          next hless => exact ih (by omega) (h.up (by omega) hparent hless)
          next hmore =>
            refine h.set fun y _ hy => ?_
            obtain rfl := Option.some.inj (hparent.symm.trans hy)
            exact not_lt.mp hmore

/-- **A push keeps the order.** -/
theorem Ordered.push (h : Ordered heap) (item : α) : Ordered (push heap item) := by
  refine Hole.ordered heap.length le_rfl
    { lt_length := by simp
      apart := fun i x y hi hne _ hx hy => ?_
      below := fun i x hi hchild hx => ?_
      around := fun i x y hi _ hchild hx _ => ?_ }
  · have hi' : i < heap.length := by
      have hlt := (List.getElem?_eq_some_iff.mp hx).1
      rw [List.length_append, List.length_singleton] at hlt
      omega
    have hparent := parent_lt hi
    rw [List.getElem?_append_left hi'] at hx
    rw [List.getElem?_append_left (by omega)] at hy
    exact h i x y hi hx hy
  all_goals
    have hlt := (List.getElem?_eq_some_iff.mp hx).1
    rw [List.length_append, List.length_singleton] at hlt
    omega

theorem siftDown_perm (turns : Nat) :
    ∀ {pos : Nat} {heap : List α}, pos < heap.length →
      (siftDown item turns pos heap).Perm (heap.set pos item) := by
  induction turns with
  | zero => exact fun _ => .refl _
  | succ turns ih =>
      intro pos heap hpos
      unfold siftDown
      split
      · exact .refl _
      · split
        · exact .refl _
        next parent hparent =>
          split
          next =>
            obtain ⟨hlt, hget⟩ := List.getElem?_eq_some_iff.mp hparent
            have hup : (pos - 1) / 2 < (heap.set pos parent).length := by
              rwa [List.length_set]
            refine (ih hup).trans ?_
            have hpos' : pos < (heap.set pos item).length := by rwa [List.length_set]
            have hlt' : (pos - 1) / 2 < (heap.set pos item).length := by rwa [List.length_set]
            have hne : pos ≠ (pos - 1) / 2 := by omega
            have hswap := List.set_set_perm hpos' hlt'
            rw [List.getElem_set_ne hne, List.getElem_set_self, hget, List.set_set] at hswap
            exact hswap
          next => exact .refl _

/-- **A push adds its item.** -/
theorem push_perm (heap : List α) (item : α) : (push heap item).Perm (item :: heap) := by
  have hlast : heap.length < (heap ++ [item]).length := by simp
  have hperm := (siftDown_perm heap.length hlast : (siftDown item _ _ _).Perm _)
  rw [List.set_append_right _ _ le_rfl, Nat.sub_self] at hperm
  exact hperm.trans List.perm_append_comm

/-- **The first entry is the least.** -/
theorem Ordered.le_of_mem (h : Ordered heap) (hfirst : heap[0]? = some y) (hx : x ∈ heap) :
    y ≤ x := by
  obtain ⟨i, hi⟩ := List.mem_iff_getElem?.mp hx
  induction i using Nat.strong_induction_on generalizing x with
  | _ i ih =>
      rcases Nat.eq_zero_or_pos i with rfl | hpos
      · exact (Option.some.inj (hfirst.symm.trans hi)).le
      · have hlt := (List.getElem?_eq_some_iff.mp hi).1
        have hparent := parent_lt hpos
        have hget : heap[(i - 1) / 2]? = some heap[(i - 1) / 2] :=
          List.getElem?_eq_getElem (by omega)
        have hup := ih _ hparent (List.getElem_mem _) hget
        exact hup.trans (h i x _ hpos hi hget)

theorem ordered_nil : Ordered ([] : List α) := fun _ _ _ _ hx => by cases hx

end PriorityHeap
