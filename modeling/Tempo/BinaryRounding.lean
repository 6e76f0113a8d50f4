import Mathlib.Algebra.Order.Floor.Ring
import Mathlib.Algebra.Order.Round
import Mathlib.Data.Int.Log
import Mathlib.Data.Rat.Floor
import Mathlib.Tactic.Linarith

/-!
# Rounding to a binary format

A floating-point format with a fixed number of significant bits and a smallest
step, and the rounding of a number to the nearest multiple of its step, with
ties to the even multiple.  Rounding keeps the order of the numbers
(`Format.round_mono`): the steps grow with the numbers, and where the step
changes stands a power of two, which both steps divide.

The exponents are not bounded above, so numbers do not overflow.
-/

namespace BinaryRounding

variable {K : Type*} [Field K] [LinearOrder K] [IsStrictOrderedRing K]
  [FloorRing K]

/-- The nearest integer, and of two the even one. -/
def roundEven (x : K) : ℤ :=
  if Int.fract x < 1 / 2 then ⌊x⌋
  else if 1 / 2 < Int.fract x ∨ ⌊x⌋ % 2 = 1 then ⌊x⌋ + 1
  else ⌊x⌋

structure Format where
  /-- The bits of the significand, with the leading one. -/
  precision : Nat
  /-- The exponent of the smallest step. -/
  minExp : Int
  deriving DecidableEq, Repr

omit [IsStrictOrderedRing K] in
theorem floor_le_roundEven (x : K) : ⌊x⌋ ≤ roundEven x := by
  unfold roundEven
  split
  · exact le_refl _
  · split <;> omega

omit [IsStrictOrderedRing K] in
theorem roundEven_le_floor_add_one (x : K) : roundEven x ≤ ⌊x⌋ + 1 := by
  unfold roundEven
  split
  · omega
  · split <;> omega

theorem roundEven_le_add_half (x : K) : (roundEven x : K) ≤ x + 1 / 2 := by
  have hx : (⌊x⌋ : K) + Int.fract x = x := Int.floor_add_fract x
  have hpos := Int.fract_nonneg x
  unfold roundEven
  split
  · linarith
  · split
    · push_cast
      linarith
    · linarith

theorem roundEven_mono {x y : K} (h : x ≤ y) : roundEven x ≤ roundEven y := by
  rcases (Int.floor_mono h).lt_or_eq with hlt | heq
  · calc roundEven x ≤ ⌊x⌋ + 1 := roundEven_le_floor_add_one x
      _ ≤ ⌊y⌋ := hlt
      _ ≤ roundEven y := floor_le_roundEven y
  · have hfract : Int.fract x ≤ Int.fract y := by
      unfold Int.fract
      rw [heq]
      exact sub_le_sub_right h _
    unfold roundEven
    rw [heq]
    by_cases hlow : Int.fract x < 1 / 2
    · rw [if_pos hlow]
      have hle := floor_le_roundEven y
      rwa [roundEven] at hle
    · rw [if_neg hlow, if_neg fun hy => hlow (hfract.trans_lt hy)]
      by_cases hup : 1 / 2 < Int.fract x ∨ ⌊y⌋ % 2 = 1
      · rw [if_pos hup, if_pos (hup.imp_left fun hx => hx.trans_le hfract)]
      · rw [if_neg hup]
        split <;> omega

@[simp] theorem roundEven_intCast (n : ℤ) : roundEven (n : K) = n := by
  simp [roundEven]

theorem roundEven_le {x : K} {n : ℤ} (h : x ≤ n) : roundEven x ≤ n := by
  simpa using roundEven_mono h

theorem le_roundEven {x : K} {n : ℤ} (h : (n : K) ≤ x) : n ≤ roundEven x := by
  simpa using roundEven_mono h

namespace Format

variable (F : Format) {x y : K}

/-- The exponent of the step at a number. -/
def exponent (x : K) : ℤ :=
  max F.minExp (Int.log 2 |x| + 1 - F.precision)

/-- The step at a number. -/
def ulp (x : K) : K := 2 ^ F.exponent x

/-- The nearest number of the format. -/
def round (x : K) : K := roundEven (x / F.ulp x) * F.ulp x

theorem ulp_pos (x : K) : 0 < F.ulp x := zpow_pos two_pos _

@[simp] theorem round_zero : F.round (0 : K) = 0 := by
  simp [round, show roundEven (0 : K) = 0 from mod_cast roundEven_intCast 0]

/-- Below a multiple of the step a number is not rounded beyond it. -/
theorem round_le {n : ℤ} (h : x ≤ n * F.ulp x) : F.round x ≤ n * F.ulp x := by
  have hscaled : x / F.ulp x ≤ n := (div_le_iff₀ (F.ulp_pos x)).mpr h
  have hround : (roundEven (x / F.ulp x) : K) ≤ n := by
    exact_mod_cast roundEven_le hscaled
  exact mul_le_mul_of_nonneg_right hround (F.ulp_pos x).le

theorem le_round {n : ℤ} (h : n * F.ulp x ≤ x) : n * F.ulp x ≤ F.round x := by
  have hscaled : (n : K) ≤ x / F.ulp x := (le_div_iff₀ (F.ulp_pos x)).mpr h
  have hround : (n : K) ≤ roundEven (x / F.ulp x) := by
    exact_mod_cast le_roundEven hscaled
  exact mul_le_mul_of_nonneg_right hround (F.ulp_pos x).le

theorem round_le_of_exponent_eq (h : x ≤ y)
    (heq : F.exponent x = F.exponent y) : F.round x ≤ F.round y := by
  have hulp : F.ulp x = F.ulp y := by
    unfold ulp
    rw [heq]
  have hscaled : x / F.ulp y ≤ y / F.ulp y :=
    div_le_div_of_nonneg_right h (F.ulp_pos y).le
  have hround : (roundEven (x / F.ulp y) : K) ≤ roundEven (y / F.ulp y) := by
    exact_mod_cast roundEven_mono hscaled
  unfold round
  rw [hulp]
  exact mul_le_mul_of_nonneg_right hround (F.ulp_pos y).le

omit [FloorRing K] in
/-- A power of two is a multiple of smaller ones. -/
theorem zpow_eq_mul {d e : ℤ} (h : d ≤ e) :
    (2 : K) ^ e = ((2 ^ (e - d).toNat : ℤ) : K) * 2 ^ d := by
  obtain ⟨k, rfl⟩ := Int.le.dest h
  rw [zpow_add₀ two_ne_zero, mul_comm]
  simp

/-- A power of two between two numbers that the steps of both divide is also
between the rounded numbers. -/
theorem round_le_of_zpow {e : ℤ} (hx : x ≤ 2 ^ e) (hy : (2 : K) ^ e ≤ y)
    (hdx : F.exponent x ≤ e) (hdy : F.exponent y ≤ e) :
    F.round x ≤ F.round y := by
  have hbelow : F.round x ≤ 2 ^ e := by
    rw [zpow_eq_mul hdx] at hx ⊢
    exact F.round_le hx
  have habove : 2 ^ e ≤ F.round y := by
    rw [zpow_eq_mul hdy] at hy ⊢
    exact F.le_round hy
  exact hbelow.trans habove

/-- **Rounding keeps the order.** -/
theorem round_mono (hprec : 0 < F.precision) (hx : 0 ≤ x) (h : x ≤ y) :
    F.round x ≤ F.round y := by
  rcases eq_or_ne (F.exponent x) (F.exponent y) with heq | hne
  · exact F.round_le_of_exponent_eq h heq
  rcases hx.eq_or_lt with rfl | hpos
  · rw [round_zero]
    have hround : 0 ≤ roundEven (y / F.ulp y) := by
      apply le_roundEven
      simpa using div_nonneg h (F.ulp_pos y).le
    exact mul_nonneg (by exact_mod_cast hround) (F.ulp_pos y).le
  have hypos : 0 < y := hpos.trans_le h
  have hlog : Int.log 2 x ≤ Int.log 2 y := Int.log_mono_right hpos h
  have hexpx : F.exponent x = max F.minExp (Int.log 2 x + 1 - F.precision) := by
    rw [exponent, abs_of_pos hpos]
  have hexpy : F.exponent y = max F.minExp (Int.log 2 y + 1 - F.precision) := by
    rw [exponent, abs_of_pos hypos]
  -- the step is larger at `y`, so a power of two lies between
  have hgap : Int.log 2 x + 1 ≤ Int.log 2 y := by omega
  refine F.round_le_of_zpow (e := Int.log 2 y) ?_ ?_ (by omega) (by omega)
  · have hlt : x < 2 ^ (Int.log 2 x + 1) := by
      simpa using Int.lt_zpow_succ_log_self one_lt_two x
    exact hlt.le.trans (zpow_le_zpow_right₀ one_le_two hgap)
  · simpa using Int.zpow_log_le_self (b := 2) one_lt_two hypos

/-- A multiple of its step is not rounded. -/
theorem round_eq_self {n : ℤ} (h : x = n * F.ulp x) : F.round x = x := by
  have hscaled : x / F.ulp x = n := (div_eq_iff (F.ulp_pos x).ne').mpr h
  rw [round, hscaled, roundEven_intCast, ← h]

theorem exponent_le {e : ℤ} (hx : x ≠ 0) (hmin : F.minExp ≤ e)
    (h : |x| < 2 ^ (e + F.precision)) : F.exponent x ≤ e := by
  have hlog : Int.log 2 |x| < e + F.precision :=
    (Int.lt_zpow_iff_log_lt one_lt_two (abs_pos.mpr hx)).mp (by exact_mod_cast h)
  unfold exponent
  omega

/-- Nor is a number that the significand has room for. -/
theorem round_mul_zpow (hprec : 0 < F.precision) {m e : ℤ} (hmin : F.minExp ≤ e)
    (hm : |m| ≤ 2 ^ F.precision) : F.round (m * 2 ^ e : K) = m * 2 ^ e := by
  have hstep : ∀ {k d : ℤ}, F.minExp ≤ d → |k| < 2 ^ F.precision →
      F.round (k * 2 ^ d : K) = k * 2 ^ d := by
    intro k d hd hk
    rcases eq_or_ne k 0 with rfl | hne
    · rw [Int.cast_zero, zero_mul, round_zero]
    have hsize : |(k * 2 ^ d : K)| < 2 ^ (d + F.precision) := by
      rw [abs_mul, abs_of_pos (zpow_pos (two_pos (α := K)) d), zpow_add₀ two_ne_zero,
        mul_comm ((2 : K) ^ d), zpow_natCast]
      refine mul_lt_mul_of_pos_right ?_ (zpow_pos two_pos d)
      exact_mod_cast hk
    have hne' : (k * 2 ^ d : K) ≠ 0 :=
      mul_ne_zero (Int.cast_ne_zero.mpr hne) (zpow_pos two_pos d).ne'
    have hexp := F.exponent_le hne' hd hsize
    refine F.round_eq_self (n := k * 2 ^ (d - F.exponent (k * 2 ^ d : K)).toNat) ?_
    rw [ulp, Int.cast_mul, mul_assoc, ← zpow_eq_mul hexp]
  rcases hm.lt_or_eq with hlt | heq
  · exact hstep hmin hlt
  -- the power itself has a shorter significand one step up
  obtain ⟨p, hp⟩ : ∃ p, F.precision = p + 1 := ⟨F.precision - 1, by omega⟩
  rw [hp] at heq
  obtain ⟨k, rfl, hk⟩ : ∃ k : ℤ, m = 2 * k ∧ |k| = 2 ^ p := by
    rcases abs_eq (by positivity) |>.mp heq with rfl | rfl
    · exact ⟨2 ^ p, by ring, abs_of_pos (by positivity)⟩
    · exact ⟨-2 ^ p, by ring, by rw [abs_neg]; exact abs_of_pos (by positivity)⟩
  have hshift : ((2 * k : ℤ) * 2 ^ e : K) = k * 2 ^ (e + 1) := by
    rw [zpow_add_one₀ two_ne_zero]
    push_cast
    ring
  rw [hshift]
  refine hstep (by omega) ?_
  rw [hk, hp]
  exact pow_lt_pow_right₀ (by norm_num) (by omega)

/-- Rounding twice is rounding once. -/
theorem round_round (hprec : 0 < F.precision) (x : K) : F.round (F.round x) = F.round x := by
  have hulp : (2 : K) ^ (Int.log 2 |x| + 1) ≤ 2 ^ F.precision * F.ulp x := by
    rw [ulp, ← zpow_natCast, ← zpow_add₀ two_ne_zero]
    refine zpow_le_zpow_right₀ one_le_two ?_
    unfold exponent
    omega
  have habs : |x| < 2 ^ F.precision * F.ulp x := by
    have hlog := Int.lt_zpow_succ_log_self (b := 2) one_lt_two |x|
    push_cast at hlog
    exact hlog.trans_le hulp
  rw [abs_lt, ← neg_mul, ← lt_div_iff₀ (F.ulp_pos x), ← div_lt_iff₀ (F.ulp_pos x)] at habs
  refine F.round_mul_zpow hprec (le_max_left _ _) (abs_le.mpr ⟨?_, ?_⟩)
  · apply le_roundEven
    push_cast
    exact habs.1.le
  · apply roundEven_le
    push_cast
    exact habs.2.le

/-- Nor is an integer that the significand has room for. -/
theorem round_natCast (hprec : 0 < F.precision) (hmin : F.minExp ≤ 0) {m : Nat}
    (hm : m < 2 ^ F.precision) : F.round (m : K) = m := by
  have hsize : |(m : ℤ)| ≤ 2 ^ F.precision := by
    rw [Nat.abs_cast]
    exact_mod_cast hm.le
  have hround := F.round_mul_zpow (K := K) hprec hmin hsize
  rwa [zpow_zero, mul_one, Int.cast_natCast] at hround

/-- A number below such an integer is not rounded beyond it. -/
theorem round_le_natCast (hprec : 0 < F.precision) (hmin : F.minExp ≤ 0) {m : Nat}
    (hm : m < 2 ^ F.precision) (hx : 0 ≤ x) (h : x ≤ m) : F.round x ≤ m :=
  (F.round_mono hprec hx h).trans_eq (F.round_natCast hprec hmin hm)

theorem natCast_le_round (hprec : 0 < F.precision) (hmin : F.minExp ≤ 0) {m : Nat}
    (hm : m < 2 ^ F.precision) (h : m ≤ x) : m ≤ F.round x :=
  (F.round_natCast hprec hmin hm).symm.trans_le
    (F.round_mono hprec (Nat.cast_nonneg m) h)

/-- A number at a power of two is rounded to a multiple of the step there. -/
theorem exists_round_eq_mul {k : ℤ} (hx : 2 ^ k ≤ |x|) :
    ∃ z : ℤ, F.round x = z * 2 ^ (k + 1 - F.precision) := by
  have hpos : 0 < |x| := (zpow_pos two_pos k).trans_le hx
  have hlog : k ≤ Int.log 2 |x| :=
    (Int.zpow_le_iff_le_log one_lt_two hpos).mp (by exact_mod_cast hx)
  have hexp : k + 1 - F.precision ≤ F.exponent x := by
    unfold exponent
    omega
  refine ⟨roundEven (x / F.ulp x) * 2 ^ (F.exponent x - (k + 1 - F.precision)).toNat, ?_⟩
  rw [round, Int.cast_mul, mul_assoc, ← zpow_eq_mul hexp]
  rfl

/-- A number above a negative power of two is not rounded below it. -/
theorem neg_zpow_le_round {e : ℤ} (hexp : F.exponent x ≤ e) (hx : -2 ^ e ≤ x) :
    -2 ^ e ≤ F.round x := by
  have hmul : (-2 ^ e : K) = ((-2 ^ (e - F.exponent x).toNat : ℤ) : K) * F.ulp x := by
    rw [Int.cast_neg, neg_mul, ulp, ← zpow_eq_mul hexp]
  rw [hmul] at hx ⊢
  exact F.le_round hx

theorem round_le_add_half (x : K) : F.round x ≤ x + F.ulp x / 2 := by
  have hscaled := mul_le_mul_of_nonneg_right (roundEven_le_add_half (x / F.ulp x))
    (F.ulp_pos x).le
  rw [add_mul, div_mul_cancel₀ _ (F.ulp_pos x).ne', one_div_mul_eq_div] at hscaled
  exact hscaled

/-- The numbers of the format above one of them are a step away at least. -/
theorem add_ulp_le (hx : 0 < x) (hfx : F.round x = x) (hfy : F.round y = y) (h : x < y) :
    x + F.ulp x ≤ y := by
  have hexp : F.exponent x ≤ F.exponent y := by
    have hlog : Int.log 2 x ≤ Int.log 2 y := Int.log_mono_right hx h.le
    rw [exponent, exponent, abs_of_pos hx, abs_of_pos (hx.trans h)]
    omega
  have hpos := F.ulp_pos x
  obtain ⟨k, hk⟩ : ∃ k : ℤ, x = k * F.ulp x := ⟨_, hfx.symm⟩
  obtain ⟨m, hm⟩ : ∃ m : ℤ, y = m * F.ulp x :=
    ⟨roundEven (y / F.ulp y) * 2 ^ (F.exponent y - F.exponent x).toNat, by
      unfold ulp
      rw [Int.cast_mul, mul_assoc, ← zpow_eq_mul hexp]
      exact hfy.symm⟩
  have hkm : k + 1 ≤ m := by
    rw [hk, hm] at h
    exact_mod_cast lt_of_mul_lt_mul_right h hpos.le
  calc x + F.ulp x = ((k + 1 : ℤ) : K) * F.ulp x := by
        push_cast
        linarith
    _ ≤ m * F.ulp x := mul_le_mul_of_nonneg_right (by exact_mod_cast hkm) hpos.le
    _ = y := hm.symm

/-- Divided and multiplied again, a number stays below the next one of the format. -/
theorem round_div_mul_lt {d : K} {j : Nat} (hlow : 2 ^ j ≤ d) (hhigh : d < 2 ^ (j + 1))
    (hx : 0 < x) (hmin : F.minExp ≤ Int.log 2 x - j + 1 - F.precision)
    (hfx : F.round x = x) (hfy : F.round y = y) (h : x < y) : F.round (x / d) * d < y := by
  have hpow : (0 : K) < 2 ^ j := by positivity
  have hd : 0 < d := hpow.trans_le hlow
  have hquot : 0 < x / d := div_pos hx hd
  have hlog : Int.log 2 (x / d) ≤ Int.log 2 x - j := by
    have hlt : x / d < 2 ^ (Int.log 2 x - j + 1) := by
      have hlog := Int.lt_zpow_succ_log_self (b := 2) one_lt_two x
      rw [div_lt_iff₀ hd]
      calc x < (2 : K) ^ (Int.log 2 x + 1) := by exact_mod_cast hlog
        _ = 2 ^ (Int.log 2 x - j + 1) * 2 ^ j := by
          rw [← zpow_natCast, ← zpow_add₀ two_ne_zero]
          congr 1
          omega
        _ ≤ 2 ^ (Int.log 2 x - j + 1) * d :=
          mul_le_mul_of_nonneg_left hlow (zpow_pos two_pos _).le
    have hlt' := (Int.lt_zpow_iff_log_lt one_lt_two hquot).mp (by exact_mod_cast hlt)
    omega
  have hexp : F.exponent (x / d) + j ≤ F.exponent x := by
    rw [exponent, exponent, abs_of_pos hquot, abs_of_pos hx]
    omega
  have hulp : F.ulp (x / d) * 2 ^ j ≤ F.ulp x := by
    rw [ulp, ulp, ← zpow_natCast, ← zpow_add₀ two_ne_zero]
    exact zpow_le_zpow_right₀ one_le_two hexp
  have herror : F.ulp (x / d) / 2 * d < F.ulp x := by
    have hstep : F.ulp (x / d) / 2 * d < F.ulp (x / d) / 2 * 2 ^ (j + 1) :=
      mul_lt_mul_of_pos_left hhigh (half_pos (F.ulp_pos _))
    rw [pow_succ] at hstep
    linarith
  calc F.round (x / d) * d ≤ (x / d + F.ulp (x / d) / 2) * d :=
        mul_le_mul_of_nonneg_right (F.round_le_add_half _) hd.le
    _ = x + F.ulp (x / d) / 2 * d := by rw [add_mul, div_mul_cancel₀ _ hd.ne']
    _ < x + F.ulp x := by linarith
    _ ≤ y := F.add_ulp_le hx hfx hfy h

end Format

/-- What is used of the rounding of non-negative numbers. -/
structure IsRounding (fl : K → K) : Prop where
  map_zero : fl 0 = 0
  map_one : fl 1 = 1
  mono : ∀ ⦃x y⦄, 0 ≤ x → x ≤ y → fl x ≤ fl y

omit [IsStrictOrderedRing K] [FloorRing K] in
/-- Exact arithmetic. -/
theorem isRounding_id : IsRounding (id : K → K) := ⟨rfl, rfl, fun _ _ _ h => h⟩

omit [IsStrictOrderedRing K] [FloorRing K] in
theorem IsRounding.nonneg {fl : K → K} {x : K} (hfl : IsRounding fl) (hx : 0 ≤ x) : 0 ≤ fl x := by
  rw [← hfl.map_zero]
  exact hfl.mono le_rfl hx

theorem Format.isRounding (F : Format) (hprec : 0 < F.precision) (hmin : F.minExp ≤ 0) :
    IsRounding (F.round : K → K) where
  map_zero := F.round_zero
  map_one := by
    have hone := F.round_natCast (K := K) hprec hmin (m := 1)
      (one_lt_two.trans_le (le_self_pow one_le_two hprec.ne'))
    rwa [Nat.cast_one] at hone
  mono := fun _ _ hx h => F.round_mono hprec hx h

/-- Single precision. -/
def binary32 : Format := { precision := 24, minExp := -149 }

/-- Double precision. -/
def binary64 : Format := { precision := 53, minExp := -1074 }

theorem isRounding_binary64 : IsRounding (binary64.round : K → K) :=
  binary64.isRounding (by decide) (by decide)

example : binary32.round (1 / 10 : ℚ) = 13421773 / 134217728 := by
  decide +kernel

end BinaryRounding
