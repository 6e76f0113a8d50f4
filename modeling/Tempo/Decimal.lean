import Std.Data.String.ToNat
import Std.Data.String.ToInt
import Mathlib.Data.List.Basic

/-!
# Zero-padded decimal numerals

Decimal numerals padded with zeros on the left to a minimal width, for natural
numbers and, with the sign counted in the width, for integers.  Padding does
not change the value the digits denote, so a padded numeral still determines
its number; this is what names built from numerals rest on.
-/

namespace Decimal

/-- The digits of `n`, padded with zeros to at least `width` characters. -/
def zeroPadded (width n : Nat) : String :=
  String.ofList (List.replicate (width - (Nat.repr n).length) '0') ++
    Nat.repr n

/-- The numeral of `z`, sign first, padded with zeros to at least `width`
characters in all. -/
def intPadded (width : Nat) (z : Int) : String :=
  if z < 0 then "-" ++ zeroPadded (width - 1) z.natAbs
  else zeroPadded width z.natAbs

theorem toList_zeroPadded (width n : Nat) :
    (zeroPadded width n).toList =
      List.replicate (width - (Nat.repr n).length) '0' ++
        Nat.toDigits 10 n := by
  simp [zeroPadded, String.toList_append]

/-- The digits of a padded numeral still denote its number. -/
theorem ofDigitChars_zeroPadded (width n : Nat) :
    Nat.ofDigitChars 10 (zeroPadded width n).toList 0 = n := by
  rw [toList_zeroPadded, Nat.ofDigitChars_append,
    Nat.ofDigitChars_replicate_zero, Nat.mul_zero,
    Nat.ofDigitChars_ten_toDigits]

theorem zeroPadded_injective (width : Nat) {m n : Nat}
    (h : zeroPadded width m = zeroPadded width n) : m = n := by
  rw [← ofDigitChars_zeroPadded width m, h, ofDigitChars_zeroPadded]

/-- Every character of a padded numeral is a digit. -/
theorem isDigit_of_mem_zeroPadded {width n : Nat} {c : Char}
    (hc : c ∈ (zeroPadded width n).toList) : c.isDigit = true := by
  rw [toList_zeroPadded, List.mem_append] at hc
  rcases hc with hz | hd
  · obtain rfl := List.eq_of_mem_replicate hz
    decide
  · exact Nat.isDigit_of_mem_toDigits (by omega) (by omega) hd

/-- An unsigned numeral is not a numeral with a minus sign. -/
theorem zeroPadded_ne_neg (width width' m n : Nat) :
    zeroPadded width m ≠ "-" ++ zeroPadded width' n := by
  intro h
  have hmem : '-' ∈ (zeroPadded width m).toList := by
    rw [h, String.toList_append]
    simp
  exact absurd (isDigit_of_mem_zeroPadded hmem) (by decide)

theorem intPadded_injective (width : Nat) {a b : Int}
    (h : intPadded width a = intPadded width b) : a = b := by
  unfold intPadded at h
  by_cases ha : a < 0 <;> by_cases hb : b < 0 <;>
    simp only [ha, hb, if_true, if_false] at h
  · have habs : a.natAbs = b.natAbs := by
      apply zeroPadded_injective (width - 1)
      have hl := congrArg String.toList h
      rw [String.toList_append, String.toList_append,
        List.append_cancel_left_eq] at hl
      exact String.toList_inj.mp hl
    omega
  · exact absurd h.symm (zeroPadded_ne_neg _ _ _ _)
  · exact absurd h (zeroPadded_ne_neg _ _ _ _)
  · have habs := zeroPadded_injective width h
    omega

/-- A text is cut in one way where a character stands for the first time. -/
theorem append_cons_inj {a : Char} {x₁ x₂ z₁ z₂ : List Char} (h₁ : a ∉ x₁)
    (h₂ : a ∉ x₂) (h : x₁ ++ a :: z₁ = x₂ ++ a :: z₂) : x₁ = x₂ ∧ z₁ = z₂ := by
  induction x₁ generalizing x₂ with
  | nil =>
      cases x₂ with
      | nil => exact ⟨rfl, (List.cons.inj h).2⟩
      | cons c x₂ => exact absurd (by simp [(List.cons.inj h).1]) h₂
  | cons c x₁ ih =>
      cases x₂ with
      | nil => exact absurd (by simp [(List.cons.inj h).1]) h₁
      | cons d x₂ =>
          obtain ⟨rfl, hrest⟩ := List.cons.inj h
          obtain ⟨rfl, rfl⟩ := ih (by simp_all) (by simp_all) hrest
          exact ⟨rfl, rfl⟩

end Decimal
