import Mathlib.Algebra.BigOperators.Field
import Mathlib.Algebra.Order.BigOperators.Ring.Finset
import Mathlib.Algebra.Order.Field.Basic
import Mathlib.Data.Fintype.BigOperators
import Mathlib.Tactic.Linarith

/-!
# Weights that sum to one

Of weights that are not negative and sum to one, few are large (`card_mul_le`), and those
above all others have at least their share (`card_div_le`).  A softmax makes such weights
(`softmax_sum`).
-/

namespace TopWeights

variable {ι K : Type*} [Fintype ι] [DecidableEq ι] [Field K] [LinearOrder K]
  [IsStrictOrderedRing K] {w : ι → K} {A : Finset ι} {c : K}

omit [DecidableEq ι] in
/-- **No more than `1 / c` weights reach `c`.** -/
theorem card_mul_le (hnonneg : ∀ i, 0 ≤ w i) (hsum : ∑ i, w i = 1) (hA : ∀ i ∈ A, c ≤ w i) :
    A.card * c ≤ 1 := by
  calc (A.card : K) * c = A.card • c := (nsmul_eq_mul _ _).symm
    _ ≤ ∑ i ∈ A, w i := Finset.card_nsmul_le_sum _ _ _ hA
    _ ≤ ∑ i, w i := Finset.sum_le_univ_sum_of_nonneg hnonneg
    _ = 1 := hsum

/-- **The weights above all others have at least their share.** -/
theorem card_div_le (hsum : ∑ i, w i = 1) (hA : ∀ i ∈ A, ∀ j, j ∉ A → w j ≤ w i) :
    (A.card : K) / Fintype.card ι ≤ ∑ i ∈ A, w i := by
  have hpairs : (A.card : K) * ∑ j ∈ Aᶜ, w j ≤ (Aᶜ.card : K) * ∑ i ∈ A, w i := by
    calc (A.card : K) * ∑ j ∈ Aᶜ, w j = ∑ _i ∈ A, ∑ j ∈ Aᶜ, w j := by
          rw [Finset.sum_const, nsmul_eq_mul]
      _ ≤ ∑ i ∈ A, ∑ _j ∈ Aᶜ, w i := by
          refine Finset.sum_le_sum fun i hi => Finset.sum_le_sum fun j hj => ?_
          exact hA i hi j (Finset.mem_compl.mp hj)
      _ = (Aᶜ.card : K) * ∑ i ∈ A, w i := by
          simp only [Finset.sum_const, nsmul_eq_mul]
          rw [← Finset.mul_sum]
  have hparts : ∑ i ∈ A, w i + ∑ j ∈ Aᶜ, w j = 1 := by
    rw [Finset.sum_add_sum_compl, hsum]
  have hcards : (A.card : K) + Aᶜ.card = Fintype.card ι := by
    rw [← Nat.cast_add, Finset.card_add_card_compl]
  rcases isEmpty_or_nonempty ι with hempty | hne
  · simp at hsum
  · have hpos : (0 : K) < Fintype.card ι := Nat.cast_pos.mpr Fintype.card_pos
    rw [div_le_iff₀ hpos, ← hcards, mul_add, mul_comm _ (Aᶜ.card : K), ← sub_nonneg]
    have hsplit : (A.card : K) * (∑ i ∈ A, w i + ∑ j ∈ Aᶜ, w j) = A.card := by
      rw [hparts, mul_one]
    rw [mul_add] at hsplit
    linarith

omit [DecidableEq ι] [LinearOrder K] [IsStrictOrderedRing K] in
theorem softmax_sum {z : ι → K} (hne : ∑ i, z i ≠ 0) : ∑ i, z i / ∑ j, z j = 1 := by
  rw [← Finset.sum_div, div_self hne]

/-- What is left out where every weight left out is below `c`. -/
theorem one_sub_sum_le (hsum : ∑ i, w i = 1) (hout : ∀ j, j ∉ A → w j ≤ c) :
    1 - ∑ i ∈ A, w i ≤ (Fintype.card ι - A.card : K) * c := by
  have hparts : ∑ i ∈ A, w i + ∑ j ∈ Aᶜ, w j = 1 := by
    rw [Finset.sum_add_sum_compl, hsum]
  have hcards : (A.card : K) + Aᶜ.card = Fintype.card ι := by
    rw [← Nat.cast_add, Finset.card_add_card_compl]
  have hrest : ∑ j ∈ Aᶜ, w j ≤ (Aᶜ.card : K) * c := by
    rw [← nsmul_eq_mul]
    exact Finset.sum_le_card_nsmul _ _ _ fun j hj => hout j (Finset.mem_compl.mp hj)
  calc 1 - ∑ i ∈ A, w i = ∑ j ∈ Aᶜ, w j := by linarith
    _ ≤ (Aᶜ.card : K) * c := hrest
    _ = (Fintype.card ι - A.card : K) * c := by rw [← hcards]; ring

end TopWeights
