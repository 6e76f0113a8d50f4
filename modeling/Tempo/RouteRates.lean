import Mathlib.Tactic.FieldSimp
import Mathlib.Tactic.Linarith
import Mathlib.Tactic.NormNum
import Tempo.ServiceGain

/-!
# The rates and actions of route_decision

A flush that proceeds is granted what it asks for.  One that is rate-limited is
granted 85 per cent of the headroom, whatever it asks for; the number of rails
multiplies the headroom it is compared with and is divided out of the rate.
Rails, window, payload and NCCL traffic move the chosen action in one direction
each, since a flush that fits in the headroom shows that the headroom is not
negative.
-/

namespace Tempo

open PCIePressurePredictor

variable {K : Type*} [Field K] [LinearOrder K]

/-- The actions in the order of what they hold back. -/
def RouteAction.severity : RouteAction K → Nat
  | .proceed _ => 0
  | .rateLimit _ => 1
  | .microDelay _ => 2
  | .defer => 3

deriving instance DecidableEq for RouteAction

namespace PCIePressurePredictor

variable {kvBytes kvBytes' nIdleRails nIdleRails' : Int}
  {flushWindowS flushWindowS' ncclBw ncclBw' pcieCeiling rate : K}

/-- The headroom over the rails, and the test of the flush against it. -/
def Fits (kvBytes : Int) (flushWindowS ncclBw : K) (nIdleRails : Int)
    (pcieCeiling : K) : Prop :=
  0 < nIdleRails ∧ predictFlushBw kvBytes flushWindowS ≤
    (ceilingOr pcieCeiling - ncclBw) * (max 1 nIdleRails : Int)

/-- The pressure that `route_decision` tests. -/
def pressure (kvBytes : Int) (flushWindowS ncclBw pcieCeiling : K) : K :=
  pciePressure (predictFlushBw kvBytes flushWindowS) ncclBw
    (ceilingOr pcieCeiling)

theorem routeDecision_proceed
    (h : pressure kvBytes flushWindowS ncclBw pcieCeiling < 90 / 100) :
    routeDecision kvBytes flushWindowS ncclBw nIdleRails pcieCeiling =
      .proceed (predictFlushBw kvBytes flushWindowS) :=
  if_pos h

theorem routeDecision_rateLimit
    (h : ¬ pressure kvBytes flushWindowS ncclBw pcieCeiling < 90 / 100)
    (hfits : Fits kvBytes flushWindowS ncclBw nIdleRails pcieCeiling) :
    routeDecision kvBytes flushWindowS ncclBw nIdleRails pcieCeiling =
      .rateLimit ((ceilingOr pcieCeiling - ncclBw) * (max 1 nIdleRails : Int) *
        (85 / 100) / (max 1 nIdleRails : Int)) :=
  (if_neg h).trans (if_pos hfits)

/-- What does not fit is delayed or deferred. -/
theorem routeDecision_held
    (h : ¬ pressure kvBytes flushWindowS ncclBw pcieCeiling < 90 / 100)
    (hfits : ¬ Fits kvBytes flushWindowS ncclBw nIdleRails pcieCeiling) :
    (pressure kvBytes flushWindowS ncclBw pcieCeiling < 150 / 100 ∧
      ∃ delay, routeDecision kvBytes flushWindowS ncclBw nIdleRails pcieCeiling =
        .microDelay delay) ∨
    (150 / 100 ≤ pressure kvBytes flushWindowS ncclBw pcieCeiling ∧
      routeDecision kvBytes flushWindowS ncclBw nIdleRails pcieCeiling =
        .defer) := by
  by_cases hmicro : pressure kvBytes flushWindowS ncclBw pcieCeiling < 150 / 100
  · exact .inl ⟨hmicro, _,
      (if_neg h).trans ((if_neg hfits).trans (if_pos hmicro))⟩
  · exact .inr ⟨not_lt.mp hmicro,
      (if_neg h).trans ((if_neg hfits).trans (if_neg hmicro))⟩

/-- The four ways in which a flush is decided. -/
theorem routeDecision_cases (kvBytes : Int) (flushWindowS ncclBw : K)
    (nIdleRails : Int) (pcieCeiling : K) :
    (pressure kvBytes flushWindowS ncclBw pcieCeiling < 90 / 100 ∧
      routeDecision kvBytes flushWindowS ncclBw nIdleRails pcieCeiling =
        .proceed (predictFlushBw kvBytes flushWindowS)) ∨
    (Fits kvBytes flushWindowS ncclBw nIdleRails pcieCeiling ∧
      routeDecision kvBytes flushWindowS ncclBw nIdleRails pcieCeiling =
        .rateLimit ((ceilingOr pcieCeiling - ncclBw) * (max 1 nIdleRails : Int) *
          (85 / 100) / (max 1 nIdleRails : Int))) ∨
    (∃ delay, routeDecision kvBytes flushWindowS ncclBw nIdleRails pcieCeiling =
      .microDelay delay) ∨
    routeDecision kvBytes flushWindowS ncclBw nIdleRails pcieCeiling = .defer := by
  by_cases hlow : pressure kvBytes flushWindowS ncclBw pcieCeiling < 90 / 100
  · exact .inl ⟨hlow, routeDecision_proceed hlow⟩
  by_cases hfits : Fits kvBytes flushWindowS ncclBw nIdleRails pcieCeiling
  · exact .inr (.inl ⟨hfits, routeDecision_rateLimit hlow hfits⟩)
  rcases routeDecision_held hlow hfits with ⟨-, hdelay⟩ | ⟨-, hdefer⟩
  · exact .inr (.inr (.inl hdelay))
  · exact .inr (.inr (.inr hdefer))

theorem proceed_rate
    (h : routeDecision kvBytes flushWindowS ncclBw nIdleRails pcieCeiling =
      .proceed rate) :
    pressure kvBytes flushWindowS ncclBw pcieCeiling < 90 / 100 ∧
      rate = predictFlushBw kvBytes flushWindowS := by
  have hcases := routeDecision_cases kvBytes flushWindowS ncclBw nIdleRails pcieCeiling
  rw [h] at hcases
  rcases hcases with ⟨hlow, heq⟩ | ⟨-, heq⟩ | ⟨delay, heq⟩ | heq
  · exact ⟨hlow, RouteAction.proceed.inj heq⟩
  · cases heq
  · cases heq
  · cases heq

variable [IsStrictOrderedRing K]

theorem ceilingOr_pos : 0 < ceilingOr pcieCeiling := by
  unfold ceilingOr pcieCeilingBps
  split
  · assumption
  · norm_num

theorem pressure_eq : pressure kvBytes flushWindowS ncclBw pcieCeiling =
    (predictFlushBw kvBytes flushWindowS + ncclBw) / ceilingOr pcieCeiling := by
  unfold pressure pciePressure
  conv_lhs => rw [ceilingOr, if_pos ceilingOr_pos]

theorem window_pos : 0 < max flushWindowS (1 / 1000000000) :=
  lt_max_of_lt_right (by norm_num)

theorem predictFlushBw_nonneg (hkv : 0 ≤ kvBytes) :
    0 ≤ predictFlushBw kvBytes flushWindowS :=
  div_nonneg (by exact_mod_cast hkv) window_pos.le

theorem predictFlushBw_mono (hkv : 0 ≤ kvBytes) (hle : kvBytes ≤ kvBytes')
    (hwindow : flushWindowS' ≤ flushWindowS) :
    predictFlushBw kvBytes flushWindowS ≤ predictFlushBw kvBytes' flushWindowS' := by
  have hcast : (kvBytes : K) ≤ kvBytes' := by exact_mod_cast hle
  have hpos : (0 : K) ≤ kvBytes' := by exact_mod_cast hkv.trans hle
  exact div_le_div₀ hpos hcast window_pos (max_le_max_right _ hwindow)

theorem rails_pos (nIdleRails : Int) :
    (0 : K) < (max 1 nIdleRails : Int) := by
  have hpos : 0 < max 1 nIdleRails := by omega
  exact_mod_cast hpos

/-- The rails cancel. -/
theorem rails_cancel :
    (ceilingOr pcieCeiling - ncclBw) * (max 1 nIdleRails : Int) * (85 / 100) /
      (max 1 nIdleRails : Int) = 85 / 100 * (ceilingOr pcieCeiling - ncclBw) := by
  have hne : ((max 1 nIdleRails : Int) : K) ≠ 0 := (rails_pos nIdleRails).ne'
  field_simp

/-- A flush that fits shows that the bus is not over its ceiling already. -/
theorem Fits.headroom_nonneg
    (h : Fits kvBytes flushWindowS ncclBw nIdleRails pcieCeiling)
    (hkv : 0 ≤ kvBytes) : 0 ≤ ceilingOr pcieCeiling - ncclBw := by
  by_contra hneg
  have hlt := mul_neg_of_neg_of_pos (not_le.mp hneg) (rails_pos nIdleRails)
  have hflush : 0 ≤ predictFlushBw kvBytes flushWindowS :=
    predictFlushBw_nonneg hkv
  exact absurd h.2 (not_le.mpr (hlt.trans_le hflush))

/-- A smaller flush fits in a larger headroom. -/
theorem Fits.of_less
    (h : Fits kvBytes' flushWindowS' ncclBw' nIdleRails' pcieCeiling)
    (hkv : 0 ≤ kvBytes) (hle : kvBytes ≤ kvBytes') (hnccl : ncclBw ≤ ncclBw')
    (hwindow : flushWindowS' ≤ flushWindowS) (hrails : nIdleRails' ≤ nIdleRails) :
    Fits kvBytes flushWindowS ncclBw nIdleRails pcieCeiling := by
  have hroom' := h.headroom_nonneg (hkv.trans hle)
  have hroom : ceilingOr pcieCeiling - ncclBw' ≤ ceilingOr pcieCeiling - ncclBw :=
    sub_le_sub_left hnccl _
  have hcast : ((max 1 nIdleRails' : Int) : K) ≤ (max 1 nIdleRails : Int) := by
    exact_mod_cast max_le_max_left 1 hrails
  refine ⟨h.1.trans_le hrails, ?_⟩
  calc predictFlushBw kvBytes flushWindowS
      ≤ predictFlushBw kvBytes' flushWindowS' := predictFlushBw_mono hkv hle hwindow
    _ ≤ (ceilingOr pcieCeiling - ncclBw') * (max 1 nIdleRails' : Int) := h.2
    _ ≤ (ceilingOr pcieCeiling - ncclBw) * (max 1 nIdleRails : Int) :=
        mul_le_mul hroom hcast (rails_pos nIdleRails').le (hroom'.trans hroom)

theorem rateLimit_rate
    (h : routeDecision kvBytes flushWindowS ncclBw nIdleRails pcieCeiling =
      .rateLimit rate) :
    Fits kvBytes flushWindowS ncclBw nIdleRails pcieCeiling ∧
      rate = 85 / 100 * (ceilingOr pcieCeiling - ncclBw) := by
  have hcases := routeDecision_cases kvBytes flushWindowS ncclBw nIdleRails pcieCeiling
  rw [h] at hcases
  rcases hcases with ⟨-, heq⟩ | ⟨hfits, heq⟩ | ⟨delay, heq⟩ | heq
  · cases heq
  · exact ⟨hfits, (RouteAction.rateLimit.inj heq).trans rails_cancel⟩
  · cases heq
  · cases heq

/-- **Granted rates leave room for NCCL.**  What proceeds gets the rate it asks
for, and what is rate-limited 85 per cent of the headroom. -/
theorem granted_rates (kvBytes : Int) (flushWindowS ncclBw : K)
    (nIdleRails : Int) (pcieCeiling : K) (hkv : 0 ≤ kvBytes) (rate : K) :
    (routeDecision kvBytes flushWindowS ncclBw nIdleRails pcieCeiling =
        .proceed rate →
      0 ≤ rate ∧ rate + ncclBw ≤ ceilingOr pcieCeiling ∧
        rate ≤ predictFlushBw kvBytes flushWindowS) ∧
    (routeDecision kvBytes flushWindowS ncclBw nIdleRails pcieCeiling =
        .rateLimit rate →
      0 ≤ rate ∧ rate + ncclBw ≤ ceilingOr pcieCeiling ∧
        rate = 85 / 100 * (ceilingOr pcieCeiling - ncclBw)) := by
  constructor
  · intro h
    obtain ⟨hlow, rfl⟩ := proceed_rate h
    rw [pressure_eq, div_lt_iff₀ ceilingOr_pos] at hlow
    have hceiling : 0 < ceilingOr pcieCeiling := ceilingOr_pos
    exact ⟨predictFlushBw_nonneg hkv, by linarith, le_rfl⟩
  · intro h
    obtain ⟨hfits, rfl⟩ := rateLimit_rate h
    have hroom := hfits.headroom_nonneg hkv
    exact ⟨by linarith, by linarith, rfl⟩

/-- NCCL takes 60 GB/s of 64, and there is nothing to flush: 3.4 GB/s are
granted. -/
theorem granted_above_request :
    ¬ ∀ (kvBytes : Int) (flushWindowS ncclBw : ℚ) (nIdleRails : Int)
        (pcieCeiling : ℚ),
      0 ≤ kvBytes → 0 < flushWindowS → 0 ≤ ncclBw → 0 ≤ nIdleRails →
      ∀ rate, (routeDecision kvBytes flushWindowS ncclBw nIdleRails pcieCeiling =
            .proceed rate ∨
          routeDecision kvBytes flushWindowS ncclBw nIdleRails pcieCeiling =
            .rateLimit rate) →
        0 ≤ rate ∧ rate + ncclBw ≤ ceilingOr pcieCeiling ∧
          rate ≤ predictFlushBw kvBytes flushWindowS := by
  intro hall
  have hgranted : routeDecision 0 (1 : ℚ) 60000000000 1 0 =
      .rateLimit 3400000000 := by
    decide +kernel
  have hrate := (hall 0 1 60000000000 1 0 (by decide) (by norm_num) (by norm_num)
    (by decide) _ (.inr hgranted)).2.2
  norm_num [predictFlushBw] at hrate

theorem granted_rates_one :
    (0 : ℚ) ≤ 3400000000 ∧ 3400000000 + 60000000000 ≤ ceilingOr (0 : ℚ) ∧
      (3400000000 : ℚ) = 85 / 100 * (ceilingOr 0 - 60000000000) :=
  (granted_rates 0 1 60000000000 1 0 (by decide) _).2
    (show routeDecision 0 (1 : ℚ) 60000000000 1 0 = .rateLimit 3400000000 by
      decide +kernel)

theorem pressure_mono (hkv : 0 ≤ kvBytes) (hle : kvBytes ≤ kvBytes')
    (hnccl : ncclBw ≤ ncclBw') (hwindow : flushWindowS' ≤ flushWindowS) :
    pressure kvBytes flushWindowS ncclBw pcieCeiling ≤
      pressure kvBytes' flushWindowS' ncclBw' pcieCeiling := by
  rw [pressure_eq, pressure_eq]
  exact div_le_div_of_nonneg_right
    (add_le_add (predictFlushBw_mono hkv hle hwindow) hnccl) ceilingOr_pos.le

/-- **More pressure is never met with a more permissive action.** -/
theorem severity_mono (kvBytes kvBytes' : Int) (flushWindowS flushWindowS' : K)
    (ncclBw ncclBw' : K) (nIdleRails nIdleRails' : Int) (pcieCeiling : K)
    (hkv : 0 ≤ kvBytes) (hle : kvBytes ≤ kvBytes') (hnccl : ncclBw ≤ ncclBw')
    (hwindow : flushWindowS' ≤ flushWindowS) (hrails : nIdleRails' ≤ nIdleRails) :
    (routeDecision kvBytes flushWindowS ncclBw nIdleRails pcieCeiling).severity ≤
      (routeDecision kvBytes' flushWindowS' ncclBw' nIdleRails'
        pcieCeiling).severity := by
  have hpressure : pressure kvBytes flushWindowS ncclBw pcieCeiling ≤
      pressure kvBytes' flushWindowS' ncclBw' pcieCeiling :=
    pressure_mono hkv hle hnccl hwindow
  by_cases hlow : pressure kvBytes flushWindowS ncclBw pcieCeiling < 90 / 100
  · rw [routeDecision_proceed hlow]
    exact Nat.zero_le _
  have hlow' := fun h => hlow (hpressure.trans_lt h)
  by_cases hfits' : Fits kvBytes' flushWindowS' ncclBw' nIdleRails' pcieCeiling
  · have hfits := hfits'.of_less hkv hle hnccl hwindow hrails
    rw [routeDecision_rateLimit hlow hfits, routeDecision_rateLimit hlow' hfits']
    exact le_rfl
  by_cases hfits : Fits kvBytes flushWindowS ncclBw nIdleRails pcieCeiling
  · rw [routeDecision_rateLimit hlow hfits]
    rcases routeDecision_held hlow' hfits' with ⟨-, delay, heq⟩ | ⟨-, heq⟩
    · rw [heq]
      exact Nat.le_succ 1
    · rw [heq]
      exact Nat.le_add_left 1 2
  rcases routeDecision_held hlow hfits with ⟨-, delay, heq⟩ | ⟨hhigh, heq⟩
  · rcases routeDecision_held hlow' hfits' with ⟨-, delay', heq'⟩ | ⟨-, heq'⟩
    · rw [heq, heq']
      exact le_rfl
    · rw [heq, heq']
      exact Nat.le_succ 2
  · -- what is deferred stays deferred, since the pressure has not fallen
    rcases routeDecision_held hlow' hfits' with ⟨hmicro, -⟩ | ⟨-, heq'⟩
    · exact absurd (hpressure.trans_lt hmicro) (not_lt.mpr hhigh)
    · rw [heq, heq']

/-- More NCCL traffic and one rail in place of two. -/
theorem severity_mono_one :
    (routeDecision 1000 (1 : ℚ) 0 2 64000000000).severity ≤
      (routeDecision 2000 (1 / 2 : ℚ) 100000000000 1 64000000000).severity :=
  severity_mono 1000 2000 1 (1 / 2) 0 100000000000 2 1 64000000000 (by decide)
    (by decide) (by norm_num) (by norm_num) (by decide)

end PCIePressurePredictor

end Tempo
