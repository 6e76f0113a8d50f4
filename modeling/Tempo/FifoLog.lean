import Mathlib.Data.List.Infix
import Tempo.Runs

/-!
# An unbounded queue with its history

The abstract queue that a concurrent one is compared with.  It keeps everything
ever pushed and everything ever popped; what it holds is the difference.  A
pop takes the oldest element that has not been popped, so the popped elements
are a prefix of the pushed ones in every state reached.
-/

/-- The history of a queue. -/
structure FifoLog (α : Type*) where
  pushed : List α := []
  popped : List α := []

namespace FifoLog

variable {α : Type*}

inductive Op (α : Type*)
  | push (a : α)
  | pop

/-- What the queue holds. -/
def pending (q : FifoLog α) : List α := q.pushed.drop q.popped.length

/-- An element keeps its place in a longer history. -/
theorem getElem?_of_prefix {l m : List α} (h : l <+: m) {q : Nat} {a : α}
    (hq : l[q]? = some a) : m[q]? = some a := by
  obtain ⟨more, rfl⟩ := h
  have hlt := (List.getElem?_eq_some_iff.mp hq).1
  rw [List.getElem?_append_left hlt, hq]

/-- A push is always possible, a pop when something is pending. -/
def step (q : FifoLog α) : Op α → Option (FifoLog α)
  | .push a => some { q with pushed := q.pushed ++ [a] }
  | .pop =>
      (q.pushed[q.popped.length]?).map fun a =>
        { q with popped := q.popped ++ [a] }

theorem step_pop {q : FifoLog α} {a : α}
    (h : q.pushed[q.popped.length]? = some a) :
    step q .pop = some { q with popped := q.popped ++ [a] } := by
  simp [step, h]

/-- One operation keeps the popped elements a prefix of the pushed ones. -/
theorem prefix_step {q r : FifoLog α} {op : Op α}
    (hq : q.popped <+: q.pushed) (hstep : step q op = some r) :
    r.popped <+: r.pushed := by
  cases op with
  | push a =>
      obtain rfl := Option.some.inj hstep
      exact hq.trans (List.prefix_append _ _)
  | pop =>
      obtain ⟨a, ha, rfl⟩ := Option.map_eq_some_iff.mp hstep
      obtain ⟨rest, hrest⟩ := hq
      rw [← hrest, List.getElem?_append_right (le_refl _)] at ha
      cases rest with
      | nil => simp at ha
      | cons b rest =>
          obtain rfl : b = a := by simpa using ha
          exact ⟨rest, by simpa using hrest⟩

/-- **First in, first out.** -/
theorem popped_prefix {q : FifoLog α} (hrun : Runs.Reachable step {} q) :
    q.popped <+: q.pushed :=
  hrun.invariant (List.prefix_refl _) fun _ _ _ hq _ => prefix_step hq

end FifoLog
