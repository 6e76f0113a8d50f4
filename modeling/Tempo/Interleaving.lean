import Mathlib.Data.List.Basic

/-!
# Interleaved updates of a table

Events that each change one entry of a table, in any order: what an entry ends as
depends on the events of that entry only, taken in their order.
-/

namespace Interleaving

variable {α ε : Type*} {apply : α → ε → α}

/-- The events of one entry. -/
def ofIndex (i : Nat) (events : List (Nat × ε)) : List ε :=
  (events.filter fun e => e.1 = i).map Prod.snd

/-- The table after an event. -/
def update (apply : α → ε → α) (table : List α) (e : Nat × ε) : List α :=
  table.modify e.1 fun a => apply a e.2

theorem ofIndex_cons_self {i : Nat} {e : ε} {events : List (Nat × ε)} :
    ofIndex i ((i, e) :: events) = e :: ofIndex i events := by
  simp [ofIndex]

theorem ofIndex_cons_of_ne {i j : Nat} (hne : j ≠ i) {e : ε} {events : List (Nat × ε)} :
    ofIndex i ((j, e) :: events) = ofIndex i events := by
  simp [ofIndex, hne]

/-- An entry sees its own events only. -/
theorem getElem?_foldl_update (events : List (Nat × ε)) (table : List α) (i : Nat) :
    (events.foldl (update apply) table)[i]? =
      table[i]?.map fun a => (ofIndex i events).foldl apply a := by
  induction events generalizing table with
  | nil => simp [ofIndex]
  | cons e events ih =>
      obtain ⟨j, e⟩ := e
      rw [List.foldl_cons, ih, update, List.getElem?_modify]
      by_cases heq : j = i
      · subst heq
        rw [ofIndex_cons_self]
        cases table[j]? <;> simp
      · rw [ofIndex_cons_of_ne heq]
        cases table[i]? <;> simp [heq]

end Interleaving
