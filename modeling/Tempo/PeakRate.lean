import Mathlib.Data.Int.ConditionallyCompleteOrder
import Mathlib.Data.Rat.Floor
import Mathlib.Data.Real.Basic
import Mathlib.Order.CompletePartialOrder
import Mathlib.Order.ConditionallyCompleteLattice.Basic
import Tempo.TraceLoader

/-!
# The peak rate of a trace

The statistics count the requests of one-second windows that begin at the whole
seconds from zero to the length of the trace.  A burst of `k + 1` requests less than a
second apart is seen whole only if some window holds it: no window edge may lie within
it, and it may not arrive after the last window, as where the trace begins late.  The
rate reported is the true peak exactly where this is so of some burst of every length
that occurs.
-/

namespace Tempo.TraceLoader

open SortedWindows TraceLoaderAt

variable {l : TraceLoader}

/-! ## The windows counted -/

/-- The largest of the counts, zero without any. -/
theorem lt_max?_getD_iff {counts : List Nat} {k : Nat} :
    k < counts.max?.getD 0 ↔ ∃ c ∈ counts, k < c := by
  cases hmax : counts.max? with
  | none =>
      rw [List.max?_eq_none_iff.mp hmax]
      simp
  | some peak =>
      obtain ⟨hmem, hle⟩ := List.max?_eq_some_iff.mp hmax
      constructor
      · exact fun hlt => ⟨peak, hmem, hlt⟩
      · rintro ⟨c, hc, hlt⟩
        exact hlt.trans_le (hle c hc)

theorem windowCount_eq (t : ℚ) : l.windowCount t = countIn l.arrivalTimes t := rfl

/-- The arrival times among the reals. -/
noncomputable def realTimes (l : TraceLoader) : List ℝ :=
  l.arrivalTimes.map fun a : ℚ => (a : ℝ)

/-- The number of requests with `t ≤ arrival < t + 1`. -/
noncomputable def requestsFrom (l : TraceLoader) (t : ℝ) : Nat :=
  l.requests.countP fun r =>
    decide (t ≤ (r.arrivalS : ℝ)) && decide ((r.arrivalS : ℝ) < t + 1)

theorem requestsFrom_eq (t : ℝ) : l.requestsFrom t = countIn l.realTimes t := by
  unfold requestsFrom countIn realTimes arrivalTimes
  rw [List.countP_map, List.countP_map]
  rfl

/-- A window of the code among those that begin anywhere. -/
theorem requestsFrom_cast (t : ℚ) : l.requestsFrom (t : ℝ) = l.windowCount t := by
  unfold requestsFrom windowCount arrivalTimes
  rw [List.countP_map]
  refine List.countP_congr fun r _ => ?_
  simp only [Function.comp_apply, Bool.and_eq_true, decide_eq_true_eq]
  norm_cast

theorem lt_peak_iff {k : Nat} : k < l.rpsPerWindow.max?.getD 0 ↔
    ∃ t < (truncate l.duration + 1).toNat, k < l.windowCount (t : Nat) := by
  rw [lt_max?_getD_iff]
  unfold rpsPerWindow
  simp only [List.mem_map, List.mem_range, exists_exists_and_eq_and]

/-- The peak is the count of some window. -/
theorem exists_peak_window (hdur : 0 < l.duration) :
    ∃ t : ℚ, l.windowCount t = l.rpsPerWindow.max?.getD 0 := by
  have hwindows : l.rpsPerWindow ≠ [] := by
    have hfloor : 0 ≤ ⌊l.duration⌋ := Int.floor_nonneg.mpr hdur.le
    unfold rpsPerWindow
    rw [truncate_of_nonneg hdur.le, Ne, List.map_eq_nil_iff, List.range_eq_nil]
    omega
  cases hmax : l.rpsPerWindow.max? with
  | none => exact absurd (List.max?_eq_none_iff.mp hmax) hwindows
  | some peak =>
      obtain ⟨t, _, ht⟩ := List.mem_map.mp (List.max?_mem hmax)
      exact ⟨t, ht⟩

theorem peakRps_of_duration_pos (hdur : 0 < l.duration) :
    l.peakRps = (l.rpsPerWindow.max?.getD 0 : Nat) :=
  if_pos hdur

/-! ## Bursts -/

/-- Wherever `k + 1` requests arrive less than a second apart, some `k + 1` requests
arrive within the same whole second, not after the last one counted. -/
def BurstsInWholeSeconds (l : TraceLoader) : Prop :=
  ∀ i k : Nat, ∀ first ∈ l.arrivalTimes[i]?, ∀ last ∈ l.arrivalTimes[i + k]?,
    last < first + 1 →
      ∃ j : Nat, ∃ first' ∈ l.arrivalTimes[j]?, ∃ last' ∈ l.arrivalTimes[j + k]?,
        ⌊first'⌋ = ⌊last'⌋ ∧ ⌊first'⌋ ≤ ⌊l.duration⌋

variable (hsorted : l.arrivalTimes.Pairwise (· ≤ ·))
include hsorted

/-- What the code's windows can count. -/
theorem lt_peak_iff_whole (hnonneg : ∀ a ∈ l.arrivalTimes, 0 ≤ a) (hdur : 0 < l.duration)
    {k : Nat} : k < l.rpsPerWindow.max?.getD 0 ↔
      ∃ j, ∃ first ∈ l.arrivalTimes[j]?, ∃ last ∈ l.arrivalTimes[j + k]?,
        ⌊first⌋ = ⌊last⌋ ∧ ⌊first⌋ ≤ ⌊l.duration⌋ := by
  have hfloor : 0 ≤ ⌊l.duration⌋ := Int.floor_nonneg.mpr hdur.le
  have hbound : ∀ z : Int, z < ((⌊l.duration⌋ + 1).toNat : Nat) ↔ z ≤ ⌊l.duration⌋ := by
    intro z
    omega
  rw [lt_peak_iff, truncate_of_nonneg hdur.le]
  simp only [windowCount_eq]
  rw [exists_lt_countIn_int_iff hsorted hnonneg]
  simp only [hbound]

/-- What a window that begins anywhere can count. -/
theorem exists_lt_requestsFrom_iff {k : Nat} : (∃ t, k < l.requestsFrom t) ↔
    ∃ i, ∃ first ∈ l.arrivalTimes[i]?, ∃ last ∈ l.arrivalTimes[i + k]?,
      last < first + 1 := by
  have hreal : l.realTimes.Pairwise (· ≤ ·) := by
    refine List.pairwise_map.mpr (hsorted.imp ?_)
    intro a b hab
    exact_mod_cast hab
  have hless : ∀ a b : ℚ, (b : ℝ) < (a : ℝ) + 1 ↔ b < a + 1 := by
    intro a b
    norm_cast
  simp only [requestsFrom_eq]
  rw [exists_lt_countIn_iff hreal]
  unfold realTimes
  simp only [List.getElem?_map, Option.mem_map, exists_exists_and_eq_and, hless]

/-- No window holds more than the peak exactly where the bursts are in whole seconds. -/
theorem requestsFrom_le_peak_iff (hnonneg : ∀ a ∈ l.arrivalTimes, 0 ≤ a)
    (hdur : 0 < l.duration) :
    (∀ t, l.requestsFrom t ≤ l.rpsPerWindow.max?.getD 0) ↔ l.BurstsInWholeSeconds := by
  constructor
  · intro hle i k first hfirst last hlast hlt
    obtain ⟨t, ht⟩ :=
      (exists_lt_requestsFrom_iff hsorted).mpr ⟨i, first, hfirst, last, hlast, hlt⟩
    exact (lt_peak_iff_whole hsorted hnonneg hdur).mp (ht.trans_le (hle t))
  · intro hbursts t
    by_contra hmore
    obtain ⟨i, first, hfirst, last, hlast, hlt⟩ :=
      (exists_lt_requestsFrom_iff hsorted).mp ⟨t, not_le.mp hmore⟩
    have hseen := hbursts i _ first hfirst last hlast hlt
    exact lt_irrefl _ ((lt_peak_iff_whole hsorted hnonneg hdur).mpr hseen)

/-! ## The rate reported -/

/-- The peak rate of the statistics is the largest number of requests in a window of one
second, wherever it begins, exactly where the bursts are in whole seconds. -/
theorem peakRps_greatest_iff (np : Numpy) (hrequests : l.requests ≠ [])
    (hnonneg : ∀ a ∈ l.arrivalTimes, 0 ≤ a) (hdur : 0 < l.duration) :
    ∃ stats, l.statistics np = .ok stats ∧
      (IsGreatest (Set.range fun t : ℝ => (l.requestsFrom t : ℚ)) stats.peakRps ↔
        l.BurstsInWholeSeconds) := by
  refine ⟨_, if_neg hrequests, ?_⟩
  show IsGreatest _ l.peakRps ↔ _
  rw [peakRps_of_duration_pos hdur, ← requestsFrom_le_peak_iff hsorted hnonneg hdur]
  constructor
  · intro hgreatest t
    have hle := hgreatest.2 ⟨t, rfl⟩
    exact Nat.cast_le.mp hle
  · intro hle
    obtain ⟨t, ht⟩ := exists_peak_window hdur
    refine ⟨⟨(t : ℝ), ?_⟩, ?_⟩
    · rw [← ht, ← requestsFrom_cast]
    · rintro _ ⟨t, rfl⟩
      exact Nat.cast_le.mpr (hle t)

def requestAt (arrival : ℚ) : Request where
  requestId := 0
  arrivalS := arrival
  inputTokens := 100
  outputTokens := 100

def steadyTrace : TraceLoader where
  requests := [requestAt 0, requestAt (1 / 2), requestAt 1]

omit hsorted in
theorem steadyTrace_greatest_iff :
    ∃ stats, steadyTrace.statistics equalNumpy = .ok stats ∧
      (IsGreatest (Set.range fun t : ℝ => (steadyTrace.requestsFrom t : ℚ)) stats.peakRps ↔
        steadyTrace.BurstsInWholeSeconds) :=
  peakRps_greatest_iff (by decide +kernel) equalNumpy (by decide +kernel)
    (by decide +kernel) (by decide +kernel)

/-- Two requests half a second apart, about the edge of the windows. -/
def edgeTrace : TraceLoader where
  requests := [requestAt (3 / 4), requestAt (5 / 4)]

omit hsorted in
/-- One request a window is reported, where the second from `3 / 4` has both. -/
theorem edgeTrace_peak_missed :
    edgeTrace.requests ≠ [] ∧ edgeTrace.arrivalTimes.Pairwise (· ≤ ·) ∧
      (∀ a ∈ edgeTrace.arrivalTimes, 0 ≤ a) ∧ 0 < edgeTrace.duration ∧
      ∃ stats, edgeTrace.statistics equalNumpy = .ok stats ∧ stats.peakRps = 1 ∧
        ¬ IsGreatest (Set.range fun t : ℝ => (edgeTrace.requestsFrom t : ℚ))
          stats.peakRps := by
  have hpeak : edgeTrace.peakRps = 1 := by decide +kernel
  have hboth : edgeTrace.requestsFrom ((3 / 4 : ℚ) : ℝ) = 2 := by
    rw [requestsFrom_cast]
    decide +kernel
  refine ⟨by decide +kernel, by decide +kernel, by decide +kernel, by decide +kernel,
    _, rfl, hpeak, ?_⟩
  intro hgreatest
  have hle := hgreatest.2 ⟨((3 / 4 : ℚ) : ℝ), rfl⟩
  change (edgeTrace.requestsFrom _ : ℚ) ≤ edgeTrace.peakRps at hle
  rw [hboth, hpeak] at hle
  exact absurd hle (by norm_num)

end Tempo.TraceLoader
