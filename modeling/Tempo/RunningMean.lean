import Mathlib.Algebra.BigOperators.Group.List.Basic
import Mathlib.Algebra.Order.Field.Basic
import Mathlib.Tactic.FieldSimp
import Mathlib.Tactic.Ring

/-!
# Running means

A mean that is kept without the samples: each one moves it by its distance from it, over
the number of samples so far.  The mean times that number is the sum of the samples
(`Means.sum_eq`).
-/

namespace RunningMean

variable {K : Type*} [Field K] [CharZero K] {mean : K} {n : Nat} {xs : List K}

/-- The mean after one more sample, where there were `n`. -/
def push (mean : K) (n : Nat) (x : K) : K := mean + (x - mean) / (n + 1 : Nat)

/-- `mean` is what has been kept of the samples, and `n` is their number. -/
structure Means (mean : K) (n : Nat) (xs : List K) : Prop where
  length_eq : xs.length = n
  sum_eq : mean * n = xs.sum

omit [CharZero K] in
theorem means_nil (mean : K) : Means mean 0 [] where
  length_eq := rfl
  sum_eq := by simp

theorem Means.push (h : Means mean n xs) (x : K) :
    Means (push mean n x) (n + 1) (xs ++ [x]) where
  length_eq := by simp [h.length_eq]
  sum_eq := by
    have hne : ((n + 1 : Nat) : K) ≠ 0 := Nat.cast_ne_zero.mpr (Nat.succ_ne_zero n)
    calc RunningMean.push mean n x * (n + 1 : Nat)
        = mean * (n + 1 : Nat) + (x - mean) := by
          rw [RunningMean.push, add_mul, div_mul_cancel₀ _ hne]
      _ = mean * n + x := by
          push_cast
          ring
      _ = (xs ++ [x]).sum := by rw [h.sum_eq, List.sum_append, List.sum_singleton]

end RunningMean
