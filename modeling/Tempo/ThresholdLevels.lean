import Mathlib.Data.List.Count
import Mathlib.Order.Lattice

/-!
# Levels by thresholds

The level of a value is the number of thresholds that it reaches.  It does not fall
when the value rises, and it is the same for two values exactly where no threshold is
above the one and reached by the other (`level_eq_iff`).
-/

namespace ThresholdLevels

variable {K : Type*} [LinearOrder K] {thresholds : List K} {x y : K}

def level (thresholds : List K) (x : K) : Nat :=
  thresholds.countP fun t => t ≤ x

theorem level_mono (h : x ≤ y) : level thresholds x ≤ level thresholds y := by
  apply List.countP_mono_left
  intro t _ ht
  exact decide_eq_true ((of_decide_eq_true ht).trans h)

theorem level_cons (t : K) : level (t :: thresholds) x =
    level thresholds x + if t ≤ x then 1 else 0 := by
  simp [level, List.countP_cons]

theorem level_eq_iff (h : x ≤ y) : level thresholds x = level thresholds y ↔
    ∀ t ∈ thresholds, t ≤ y → t ≤ x := by
  induction thresholds with
  | nil => simp [level]
  | cons t thresholds ih =>
      have hmono : level thresholds x ≤ level thresholds y := level_mono h
      rw [List.forall_mem_cons, ← ih, level_cons, level_cons]
      by_cases hx : t ≤ x
      · have hy : t ≤ y := hx.trans h
        simp [hx, hy]
      · by_cases hy : t ≤ y
        · simp only [hx, hy, if_true, if_false]
          constructor
          · intro hsame
            omega
          · intro hboth
            exact absurd (hboth.1 trivial) id
        · simp [hx, hy]

/-- Cutting a value at a bound that no threshold is above changes no level. -/
theorem level_min {bound : K} (hbound : ∀ t ∈ thresholds, t ≤ bound) :
    level thresholds (min bound x) = level thresholds x := by
  rw [level_eq_iff (min_le_right bound x)]
  intro t ht hx
  exact le_min (hbound t ht) hx

end ThresholdLevels
