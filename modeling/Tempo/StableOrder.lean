import Mathlib.Data.Finset.Card
import Mathlib.Data.Fintype.Basic
import Mathlib.Data.List.FinRange
import Mathlib.Data.List.Sort
import Mathlib.Order.Basic

/-!
# Positions in a stable order

The indices below `n` sorted by a key, equal keys in the order of the indices.
The position of an index is the number of indices that come before it
(`position_eq_card`), so it depends on the order of the keys only.
-/

namespace StableOrder

variable {n : Nat} {K : Type*} [LinearOrder K] (key : Fin n → K)

/-- The indices in the order of their keys, by a stable sort. -/
def sorted : List (Fin n) :=
  (List.finRange n).insertionSort fun i j => key i ≤ key j

/-- Where an index stands in the sorted list. -/
def position (i : Fin n) : Nat := (sorted key).idxOf i

/-- An index comes before another: its key is smaller, or its number is. -/
def Before (i j : Fin n) : Prop := key i < key j ∨ key i = key j ∧ i < j

instance Before.decidable (i j : Fin n) : Decidable (Before key i j) :=
  inferInstanceAs (Decidable (_ ∨ _))

theorem sorted_perm : (sorted key).Perm (List.finRange n) :=
  List.perm_insertionSort _ _

theorem sorted_nodup : (sorted key).Nodup :=
  (sorted_perm key).nodup_iff.mpr (List.nodup_finRange n)

theorem mem_sorted (i : Fin n) : i ∈ sorted key :=
  (sorted_perm key).mem_iff.mpr (List.mem_finRange i)

theorem length_sorted : (sorted key).length = n :=
  (sorted_perm key).length_eq.trans (List.length_finRange)

theorem position_lt (i : Fin n) : position key i < n := by
  have hlt := List.idxOf_lt_length_of_mem (mem_sorted key i)
  rwa [length_sorted] at hlt

theorem position_injective : Function.Injective (position key) := by
  intro i j h
  exact (List.idxOf_inj (mem_sorted key i)).mp h

theorem Before.asymm {i j : Fin n} (h : Before key i j) :
    ¬ Before key j i := by
  rintro (hlt | ⟨heq, hlt⟩)
  · rcases h with hlt' | ⟨heq', -⟩
    · exact lt_asymm hlt hlt'
    · exact hlt.ne' heq'
  · rcases h with hlt' | ⟨-, hlt'⟩
    · exact hlt'.ne' heq
    · exact lt_asymm hlt hlt'

/-- Inserting an index below all those of an ordered list keeps it ordered. -/
theorem pairwise_orderedInsert {i : Fin n} {l : List (Fin n)}
    (hl : l.Pairwise (Before key)) (hi : ∀ j ∈ l, i < j) :
    (l.orderedInsert (fun i j => key i ≤ key j) i).Pairwise (Before key) := by
  induction l with
  | nil => exact List.pairwise_singleton _ _
  | cons j l ih =>
      obtain ⟨hj, hrest⟩ := List.pairwise_cons.mp hl
      rw [List.orderedInsert_cons]
      split
      next hle =>
        refine List.pairwise_cons.mpr ⟨fun k hk => ?_, hl⟩
        have hjk : key j ≤ key k := by
          rcases List.mem_cons.mp hk with rfl | hk'
          · exact le_refl _
          · exact (hj k hk').elim le_of_lt fun h => h.1.le
        rcases (hle.trans hjk).lt_or_eq with hlt | heq
        · exact .inl hlt
        · exact .inr ⟨heq, hi k hk⟩
      next hlt =>
        refine List.pairwise_cons.mpr ⟨fun k hk => ?_, ih hrest ?_⟩
        · rcases (List.mem_orderedInsert _).mp hk with rfl | hk'
          · exact .inl (not_le.mp hlt)
          · exact hj k hk'
        · exact fun k hk => hi k (List.mem_cons_of_mem _ hk)

theorem pairwise_sorted : (sorted key).Pairwise (Before key) := by
  have hsort : ∀ l : List (Fin n), l.Pairwise (· < ·) →
      (l.insertionSort fun i j => key i ≤ key j).Pairwise (Before key) := by
    intro l hl
    induction l with
    | nil => exact List.Pairwise.nil
    | cons i l ih =>
        obtain ⟨hi, hrest⟩ := List.pairwise_cons.mp hl
        refine pairwise_orderedInsert key (ih hrest) fun j hj => hi j ?_
        exact (List.mem_insertionSort _).mp hj
  exact hsort _ (List.pairwise_lt_finRange n)

theorem before_of_position_lt {i j : Fin n}
    (h : position key i < position key j) : Before key i j := by
  have hpair := List.pairwise_iff_getElem.mp (pairwise_sorted key) _ _
    (List.idxOf_lt_length_of_mem (mem_sorted key i))
    (List.idxOf_lt_length_of_mem (mem_sorted key j)) h
  rwa [List.getElem_idxOf, List.getElem_idxOf] at hpair

/-- Positions are in the order of the keys, and for equal keys of the
indices. -/
theorem position_lt_iff (i j : Fin n) :
    position key i < position key j ↔ Before key i j := by
  refine ⟨before_of_position_lt key, fun h => ?_⟩
  rcases lt_trichotomy (position key i) (position key j) with hlt | heq | hgt
  · exact hlt
  · obtain rfl := position_injective key heq
    exact absurd h h.asymm
  · exact absurd (before_of_position_lt key hgt) h.asymm

/-- As many indices come before an index as its position says. -/
theorem position_eq_card (i : Fin n) :
    position key i = (Finset.univ.filter fun j => Before key j i).card := by
  have hfill : ∀ p < n, ∃ j, position key j = p := by
    intro p hp
    have hlength : p < (sorted key).length := by rwa [length_sorted]
    refine ⟨(sorted key)[p], ?_⟩
    exact (sorted_nodup key).idxOf_getElem p hlength
  have himage : ((Finset.univ.filter fun j => Before key j i).image
      (position key)) = Finset.range (position key i) := by
    ext p
    simp only [Finset.mem_image, Finset.mem_filter, Finset.mem_univ, true_and,
      Finset.mem_range]
    constructor
    · rintro ⟨j, hj, rfl⟩
      exact (position_lt_iff key j i).mpr hj
    · intro hp
      obtain ⟨j, rfl⟩ := hfill p (hp.trans (position_lt key i))
      exact ⟨j, (position_lt_iff key j i).mp hp, rfl⟩
  rw [← Finset.card_image_of_injective _ (position_injective key), himage,
    Finset.card_range]

end StableOrder
