import Mathlib.Tactic.FieldSimp
import Mathlib.Tactic.Positivity
import Tempo.NvlinkRouter

/-!
# What a rerouted flush gains

`estimate_reroute_gain_ms` compares a flush by the primary NIC with one by the NIC that is
used least, and charges for the relay to the GPU that `select_egress_gpu` takes.  The two
are decided apart, but they agree: from a threshold of one half on, the estimate is never
negative, and it is positive wherever the flush is rerouted (`reroute_gain`).  Asking for
it counts as a reroute, though.
-/

namespace Tempo.NvlinkRouter

open Runs

/-- `_NVLINK_PAIR_BPS` -/
def nvlinkPairBps : ℚ := 150 * 10 ^ 9

variable {cfg : NvlinkConfig} {r : NvlinkRouter} {nBytes : Nat} {primary : Nat}

/-- `estimate_relay_overhead_ms` -/
def estimateRelayOverheadMs (nBytes srcGpu dstGpu : Nat) : ℚ :=
  if srcGpu = dstGpu then 0 else nBytes / nvlinkPairBps * 1000

/-- The milliseconds that a flush takes on a NIC in use. -/
def flushMs (nBytes : Nat) (util : ℚ) : ℚ :=
  nBytes / (linkBps * max (1 / 100) (1 - util)) * 1000

/-- `estimate_reroute_gain_ms`; `none` is for a `KeyError` or where there is no NIC. -/
def estimateRerouteGainMs (cfg : NvlinkConfig) (r : NvlinkRouter) (nBytes primaryGpu : Nat) :
    Option (NvlinkRouter × ℚ) :=
  let primaryUtil := r.getNicUtil cfg primaryGpu
  if primaryUtil ≤ cfg.saturationThreshold then some (r, 0)
  else
    let waitMs := flushMs nBytes primaryUtil
    (r.values.map NicStats.utilFraction).min?.bind fun bestUtil =>
      (r.selectEgressGpu cfg primaryGpu).map fun selected =>
        (selected.1, waitMs -
          (flushMs nBytes bestUtil + estimateRelayOverheadMs nBytes primaryGpu selected.2))

theorem linkBps_pos : 0 < linkBps := by norm_num [linkBps]

theorem getNicUtil_le_one (cfg : NvlinkConfig) (r : NvlinkRouter) (gpu : Nat) :
    r.getNicUtil cfg gpu ≤ 1 := by
  unfold getNicUtil
  split
  · exact zero_le_one
  next nic _ =>
    cases r.nicStats.lookup nic with
    | none => exact zero_le_one
    | some stat => exact min_le_left _ _

/-- A NIC in use more is slower. -/
theorem flushMs_mono {util util' : ℚ} (h : util ≤ util') :
    flushMs nBytes util ≤ flushMs nBytes util' := by
  have hfree : max (1 / 100) (1 - util') ≤ max (1 / 100) (1 - util) :=
    max_le_max_left _ (by linarith)
  have hpos : 0 < linkBps * max (1 / 100) (1 - util') :=
    mul_pos linkBps_pos (lt_max_of_lt_left (by norm_num))
  have hless : linkBps * max (1 / 100) (1 - util') ≤ linkBps * max (1 / 100) (1 - util) :=
    mul_le_mul_of_nonneg_left hfree linkBps_pos.le
  exact mul_le_mul_of_nonneg_right
    (div_le_div_of_nonneg_left (Nat.cast_nonneg _) hpos hless) (by norm_num)

/-- What is free on a NIC over one half, and on one that is used less by 0.05: the rates
differ by more than the sixth part of the link that NVLink is faster. -/
theorem free_share {util util' : ℚ} (hhalf : 1 / 2 < util') (hone : util' ≤ 1)
    (hless : util < util' - 5 / 100) :
    max (1 / 100) (1 - util') * max (1 / 100) (1 - util) <
      6 * (max (1 / 100) (1 - util) - max (1 / 100) (1 - util')) := by
  have hb : max (1 / 100) (1 - util) = 1 - util := max_eq_right (by linarith)
  rw [hb]
  rcases le_total (1 / 100) (1 - util') with hfree | hfull
  · rw [max_eq_right hfree]
    nlinarith
  · rw [max_eq_left hfull]
    linarith

/-- So the relay takes less time than the better NIC saves. -/
theorem relay_lt {util util' : ℚ} (hbytes : 0 < nBytes) (hhalf : 1 / 2 < util')
    (hone : util' ≤ 1) (hless : util < util' - 5 / 100) :
    flushMs nBytes util + nBytes / nvlinkPairBps * 1000 < flushMs nBytes util' := by
  have hshare := free_share hhalf hone hless
  unfold flushMs
  have ha : (0 : ℚ) < max (1 / 100) (1 - util') := lt_max_of_lt_left (by norm_num)
  have hb : (0 : ℚ) < max (1 / 100) (1 - util) := lt_max_of_lt_left (by norm_num)
  generalize max (1 / 100) (1 - util') = a at *
  generalize max (1 / 100) (1 - util) = b at *
  have hn : (0 : ℚ) < nBytes := Nat.cast_pos.mpr hbytes
  have hscale : nvlinkPairBps = 6 * linkBps := by norm_num [nvlinkPairBps, linkBps]
  have hlink := linkBps_pos
  generalize linkBps = link at *
  have hdiff : (nBytes : ℚ) / (link * a) - nBytes / (link * b) - nBytes / (6 * link) =
      nBytes * (6 * (b - a) - a * b) / (6 * link * a * b) := by
    field_simp
  have hpos : 0 < (nBytes : ℚ) * (6 * (b - a) - a * b) / (6 * link * a * b) :=
    div_pos (mul_pos hn (by linarith)) (by positivity)
  rw [hscale]
  linarith

/-- The least fraction in use, where a GPU of the node is asked for. -/
theorem Wired.min_util (hr : Wired cfg r) (hknown : primary < cfg.nicNames.length) :
    ∃ least, (r.values.map NicStats.utilFraction).min? = some least ∧
      (∃ gpu < cfg.nicNames.length, least = getNicUtil cfg r gpu) ∧
      ∀ gpu < cfg.nicNames.length, least ≤ getNicUtil cfg r gpu := by
  obtain ⟨_, stat, _, _, hvalue, _⟩ := hr.values_of_gpu hknown
  cases hleast : (r.values.map NicStats.utilFraction).min? with
  | none =>
      rw [List.min?_eq_none_iff, List.map_eq_nil_iff] at hleast
      rw [hleast] at hvalue
      cases hvalue
  | some least =>
      obtain ⟨hmem, hle⟩ := List.min?_eq_some_iff.mp hleast
      obtain ⟨best, hbest, rfl⟩ := List.mem_map.mp hmem
      obtain ⟨hgpu, hutil⟩ := hr.gpu_of_values hbest
      refine ⟨_, rfl, ⟨best.gpuIdx, hgpu, hutil.symm⟩, fun gpu hgpu => ?_⟩
      obtain ⟨_, s, _, _, hs, hsUtil⟩ := hr.values_of_gpu hgpu
      rw [hsUtil]
      exact hle _ (List.mem_map_of_mem hs)

/-- **The estimate agrees with the selection.**  In every state that a run of the router
reaches, with a threshold of one half or more: the estimate is defined and not negative;
it is zero up to the threshold; and where the selection takes another GPU and there is
something to flush, it is positive, the relay included. -/
theorem reroute_gain (hhalf : 1 / 2 ≤ cfg.saturationThreshold)
    (hreach : Reachable (step cfg) (new cfg) r) (nBytes primary : Nat) :
    ∃ r' gain r'' egress, r.estimateRerouteGainMs cfg nBytes primary = some (r', gain) ∧
      r.selectEgressGpu cfg primary = some (r'', egress) ∧ 0 ≤ gain ∧
      (r.getNicUtil cfg primary ≤ cfg.saturationThreshold → gain = 0 ∧ egress = primary) ∧
      (needNvlinkRelay primary egress = true → 0 < nBytes → 0 < gain) := by
  have hr := reachable_wired hreach
  obtain ⟨r'', egress, hselect, -, hegress⟩ := selectEgressGpu_cases hr primary
  unfold estimateRerouteGainMs
  by_cases hbelow : r.getNicUtil cfg primary ≤ cfg.saturationThreshold
  · have hstay : egress = primary := by
      rcases hegress with ⟨-, rfl⟩ | ⟨himproves, -⟩
      · rfl
      · exact absurd himproves.above (not_lt.mpr hbelow)
    refine ⟨r, 0, r'', egress, by simp [hbelow], hselect, le_rfl, fun _ => ⟨rfl, hstay⟩, ?_⟩
    simp [needNvlinkRelay, hstay]
  · have hknown : primary < cfg.nicNames.length := by
      by_contra hunknown
      refine hbelow ?_
      have hnone : gpuToNic cfg primary = none := List.getElem?_eq_none (not_lt.mp hunknown)
      rw [getNicUtil, hnone]
      exact (by norm_num : (0 : ℚ) ≤ 1 / 2).trans hhalf
    obtain ⟨least, hmin, ⟨best, hbest, hleast⟩, hlowest⟩ := hr.min_util hknown
    have habove : 1 / 2 < r.getNicUtil cfg primary := hhalf.trans_lt (not_le.mp hbelow)
    dsimp only
    rw [if_neg hbelow, hmin, hselect]
    refine ⟨_, _, r'', egress, rfl, rfl, ?_, fun hbelow' => absurd hbelow' hbelow, ?_⟩
    · rcases hegress with ⟨-, rfl⟩ | ⟨himproves, hne, -⟩
      · rw [estimateRelayOverheadMs, if_pos rfl, add_zero]
        exact sub_nonneg.mpr (flushMs_mono (hlowest _ hknown))
      · rw [estimateRelayOverheadMs, if_neg hne.symm]
        rcases Nat.eq_zero_or_pos nBytes with rfl | hbytes
        · simp [flushMs]
        · obtain ⟨gpu, hgpu, hlower⟩ := himproves.better
          exact sub_nonneg.mpr (relay_lt hbytes habove (getNicUtil_le_one cfg r primary)
            ((hlowest gpu hgpu).trans_lt hlower)).le
    · intro hrelay hbytes
      rcases hegress with ⟨-, rfl⟩ | ⟨himproves, hne, -⟩
      · simp [needNvlinkRelay] at hrelay
      · rw [estimateRelayOverheadMs, if_neg hne.symm]
        obtain ⟨gpu, hgpu, hlower⟩ := himproves.better
        exact sub_pos.mpr (relay_lt hbytes habove (getNicUtil_le_one cfg r primary)
          ((hlowest gpu hgpu).trans_lt hlower))

/-- One NIC has flushed 10^9 bytes, the other is idle. -/
theorem reroute_gain_busy :
    ∃ r, Reachable (step twoNics) (new twoNics) r ∧
      ∃ r' gain r'' egress, r.estimateRerouteGainMs twoNics 1000 0 = some (r', gain) ∧
        r.selectEgressGpu twoNics 0 = some (r'', egress) ∧ 0 ≤ gain := by
  obtain ⟨r, hr⟩ : ∃ r, exec (step twoNics) (new twoNics)
      [.recordFlushBytes 0 (10 ^ 9)] = some r :=
    Option.isSome_iff_exists.mp (by decide +kernel)
  have hhalf : 1 / 2 ≤ twoNics.saturationThreshold := by decide +kernel
  obtain ⟨r', gain, r'', egress, hgain, hselect, hnonneg, -⟩ :=
    reroute_gain hhalf (Reachable.of_exec hr) 1000 0
  exact ⟨r, Reachable.of_exec hr, r', gain, r'', egress, hgain, hselect, hnonneg⟩

end Tempo.NvlinkRouter
