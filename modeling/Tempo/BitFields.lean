import Mathlib.Data.Nat.Bitwise

/-!
# Numbers packed into fields of bits

A field is a run of bits of a word.  `put` places a number there, cut to the width of
the field, `get` reads it back; words made of several fields are put together by `or`.
A field reads back what was put into it (`get_put`), nothing of what was put beside it
(`get_put_of_apart`), and what was put further up inside it shifted (`get_put_inner`).
-/

namespace BitFields

/-- The bits from `lo` on. -/
structure Slot where
  lo : Nat
  width : Nat

namespace Slot

/-- The number in the field. -/
def get (f : Slot) (word : Nat) : Nat :=
  (word >>> f.lo) % 2 ^ f.width

/-- A word with a number in the field and nothing else. -/
def put (f : Slot) (v : Nat) : Nat :=
  (v % 2 ^ f.width) <<< f.lo

/-- No bit belongs to both. -/
def Apart (f g : Slot) : Prop :=
  f.lo + f.width ≤ g.lo ∨ g.lo + g.width ≤ f.lo

variable {f g : Slot} {v i a b : Nat}

theorem testBit_get :
    (f.get v).testBit i = (decide (i < f.width) && v.testBit (f.lo + i)) := by
  rw [get, Nat.testBit_mod_two_pow, Nat.testBit_shiftRight]

theorem testBit_put : (f.put v).testBit i =
    (decide (f.lo ≤ i) && (decide (i - f.lo < f.width) && v.testBit (i - f.lo))) := by
  rw [put, Nat.testBit_shiftLeft, Nat.testBit_mod_two_pow]

/-- Fields of a word put together. -/
theorem get_or : f.get (a ||| b) = f.get a ||| f.get b := by
  apply Nat.eq_of_testBit_eq
  intro i
  simp only [testBit_get, Nat.testBit_or, Bool.and_or_distrib_left]

theorem get_put : f.get (f.put v) = v % 2 ^ f.width := by
  apply Nat.eq_of_testBit_eq
  intro i
  rw [testBit_get, testBit_put, Nat.testBit_mod_two_pow, Nat.add_sub_cancel_left]
  by_cases hi : i < f.width <;> simp [hi]

theorem get_put_of_apart (h : f.Apart g) : f.get (g.put v) = 0 := by
  apply Nat.eq_of_testBit_eq
  intro i
  rw [testBit_get, testBit_put, Nat.zero_testBit]
  unfold Apart at h
  by_cases hi : i < f.width
  · have hout : ¬ (g.lo ≤ f.lo + i ∧ f.lo + i - g.lo < g.width) := by omega
    rw [not_and] at hout
    by_cases hlo : g.lo ≤ f.lo + i
    · simp [hout hlo]
    · simp [hlo]
  · simp [hi]

/-- A field that lies within another. -/
theorem get_put_inner (hlo : f.lo ≤ g.lo) (hhi : g.lo + g.width ≤ f.lo + f.width) :
    f.get (g.put v) = (v % 2 ^ g.width) * 2 ^ (g.lo - f.lo) := by
  rw [← Nat.shiftLeft_eq]
  apply Nat.eq_of_testBit_eq
  intro i
  rw [testBit_get, testBit_put, Nat.testBit_shiftLeft, Nat.testBit_mod_two_pow]
  by_cases hi : g.lo ≤ f.lo + i
  · have hstart : g.lo - f.lo ≤ i := by omega
    have hplace : f.lo + i - g.lo = i - (g.lo - f.lo) := by omega
    rw [hplace]
    by_cases hin : i - (g.lo - f.lo) < g.width
    · have hwide : i < f.width := by omega
      simp [hi, hstart, hin, hwide]
    · simp [hin]
  · have hstart : ¬ g.lo - f.lo ≤ i := by omega
    simp [hi, hstart]

/-- A word of one field ends where the field does. -/
theorem put_lt : f.put v < 2 ^ (f.lo + f.width) := by
  have hv : v % 2 ^ f.width < 2 ^ f.width := Nat.mod_lt _ (Nat.two_pow_pos _)
  rw [put, Nat.shiftLeft_eq, Nat.add_comm, Nat.pow_add]
  exact Nat.mul_lt_mul_of_pos_right hv (Nat.two_pow_pos _)

end Slot

end BitFields
