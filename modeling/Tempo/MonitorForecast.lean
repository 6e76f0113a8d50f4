import Tempo.CongestionStats
import Tempo.MovingAverage

/-!
# How the gate follows the bandwidth, and what the monitor forecasts

The gate is judged on an average, so it follows the bandwidth with a delay.  After `k`
polls the average is as far from a steady bandwidth as `(3 / 4) ^ k` of where it started
(`gate_follows`).

From the average the monitor tells how long a flush can go on before the link is
congested, and which rail has the lowest rate.  Both agree with the gate and with each
other (`forecast_agrees`, `idle_rail_chosen`).
-/

namespace Tempo

open MovingAverage OrderedDict Runs

namespace NetworkMonitor

variable (cfg : MonitorConfig) (m : NetworkMonitor)

/-! ## The delay of the gate -/

/-- The bandwidth that a poll adds up, before it is smoothed. -/
def polledBps (p : Poll) : ℚ :=
  if cfg.simulated then m.simBps
  else ({ m with stats.pollCount := m.stats.pollCount + 1 }.pollNics cfg p).2

/-- The monitor after polls. -/
def pollAll (ps : List Poll) : NetworkMonitor :=
  ps.foldl (fun m p => m.pollOnce cfg p) m

/-- What the polls add up, one after the other. -/
def polledAll (m : NetworkMonitor) : List Poll → List ℚ
  | [] => []
  | p :: ps => m.polledBps cfg p :: polledAll (m.pollOnce cfg p) ps

/-- What the smoothed bandwidths are between. -/
structure Bounded : Prop where
  nics : ∀ nic st, m.nicState.lookup nic = some st → 0 ≤ st.ema
  simulated : 0 ≤ m.simBps
  ema : 0 ≤ m.totalBpsEma
  peak : m.totalBpsEma ≤ m.totalBpsPeak

variable {cfg m} {p : Poll} {ps : List Poll}

theorem ewma_eq_smooth (sample ema : ℚ) : ewma sample ema = smooth (1 / 4) sample ema := rfl

theorem flipGate_frame (congested : Bool) (now : ℚ) :
    (m.flipGate congested now).nicState = m.nicState ∧
      (m.flipGate congested now).totalBpsEma = m.totalBpsEma ∧
      (m.flipGate congested now).totalBpsPeak = m.totalBpsPeak ∧
      (m.flipGate congested now).simBps = m.simBps := by
  unfold flipGate
  split
  · exact ⟨rfl, rfl, rfl, rfl⟩
  · split
    · split
      · split <;> exact ⟨rfl, rfl, rfl, rfl⟩
      · exact ⟨rfl, rfl, rfl, rfl⟩
    · exact ⟨rfl, rfl, rfl, rfl⟩

/-- A judgement changes no bandwidth. -/
theorem updateCongestionState_frame (cfg : MonitorConfig) (m : NetworkMonitor)
    (totalBps now : ℚ) :
    (m.updateCongestionState cfg totalBps now).nicState = m.nicState ∧
      (m.updateCongestionState cfg totalBps now).totalBpsEma = m.totalBpsEma ∧
      (m.updateCongestionState cfg totalBps now).totalBpsPeak = m.totalBpsPeak ∧
      (m.updateCongestionState cfg totalBps now).simBps = m.simBps := by
  unfold updateCongestionState
  dsimp only
  split
  · exact flipGate_frame _ _
  · exact flipGate_frame _ _

theorem samplePoll_ema (cfg : MonitorConfig) (m : NetworkMonitor) (p : Poll) :
    (m.samplePoll cfg p).totalBpsEma =
    smooth (1 / 4) (m.polledBps cfg p) m.totalBpsEma ∧
    (m.samplePoll cfg p).totalBpsPeak = max m.totalBpsPeak (m.polledBps cfg p) := by
  unfold samplePoll polledBps
  by_cases hsim : cfg.simulated = true
  · simp only [hsim, if_true, and_true]
    rfl
  · simp only [hsim]
    rw [if_neg (by simp), if_neg (by simp), MonitorHistory.pollNics_frame]
    exact ⟨rfl, rfl⟩

/-- The smoothed bandwidth after polls is the average of what they add up. -/
theorem pollAll_ema (m : NetworkMonitor) (ps : List Poll) :
    (m.pollAll cfg ps).totalBpsEma =
      smoothAll (1 / 4) m.totalBpsEma (m.polledAll cfg ps) := by
  induction ps generalizing m with
  | nil => rfl
  | cons p ps ih =>
      have hfirst : (m.pollOnce cfg p).totalBpsEma =
          smooth (1 / 4) (m.polledBps cfg p) m.totalBpsEma :=
        (updateCongestionState_frame cfg _ _ _).2.1.trans (samplePoll_ema cfg m p).1
      have hrest := ih (m.pollOnce cfg p)
      rw [hfirst] at hrest
      exact hrest

theorem length_polledAll (m : NetworkMonitor) (ps : List Poll) :
    (m.polledAll cfg ps).length = ps.length := by
  induction ps generalizing m with
  | nil => rfl
  | cons p ps ih => simp [polledAll, ih]

/-- After polls the gate says how the smoothed bandwidth compares. -/
theorem pollAll_isCongested (m : NetworkMonitor) (hps : ps ≠ []) :
    (m.pollAll cfg ps).isCongested =
      decide (cfg.thresholdBps ≤ (m.pollAll cfg ps).totalBpsEma) := by
  obtain ⟨before, p, rfl⟩ : ∃ before p, ps = before ++ [p] :=
    ⟨_, _, (List.dropLast_append_getLast hps).symm⟩
  unfold pollAll
  rw [List.foldl_append]
  generalize before.foldl (fun m p => m.pollOnce cfg p) m = n
  have hema : (n.pollOnce cfg p).totalBpsEma = (n.samplePoll cfg p).totalBpsEma :=
    (updateCongestionState_frame cfg _ _ _).2.1
  rw [List.foldl_cons, List.foldl_nil, hema]
  exact updateCongestionState_isCongested _ _

theorem nicEma_nonneg {st : NicState} (hst : 0 ≤ st.ema) (now : ℚ) (total : Int) :
    0 ≤ nicEma st now total := by
  unfold nicEma
  split
  · exact le_rfl
  · dsimp only
    split
    · exact hst
    · rw [ewma_eq_smooth]
      exact le_smooth (by norm_num) (by norm_num) (le_max_right _ _) hst

theorem pollOneNic_nonneg (raw : Option (Int × Int)) (now : ℚ) (nic : String)
    (hm : ∀ nic st, m.nicState.lookup nic = some st → 0 ≤ st.ema) :
    (∀ nic' st, (m.pollOneNic now raw nic).1.nicState.lookup nic' = some st → 0 ≤ st.ema) ∧
      0 ≤ (m.pollOneNic now raw nic).2 := by
  unfold pollOneNic
  cases raw with
  | none => exact ⟨hm, le_rfl⟩
  | some raw =>
      have hst : 0 ≤ ((m.nicState.lookup nic).getD {}).ema := by
        cases hlookup : m.nicState.lookup nic with
        | none => exact le_rfl
        | some st => exact hm nic st hlookup
      have hrate := nicEma_nonneg hst now (raw.1 + raw.2)
      refine ⟨fun nic' st hst' => ?_, hrate⟩
      dsimp only at hst'
      rw [lookup_assign] at hst'
      split at hst'
      · obtain rfl := Option.some.inj hst'
        exact hrate
      · exact hm nic' st hst'

/-- Polling the NICs keeps their rates and adds them to the sum. -/
theorem pollNics_nonneg (cfg : MonitorConfig) (m : NetworkMonitor) (p : Poll)
    (hm : ∀ nic st, m.nicState.lookup nic = some st → 0 ≤ st.ema) :
    (∀ nic st, (m.pollNics cfg p).1.nicState.lookup nic = some st → 0 ≤ st.ema) ∧
      0 ≤ (m.pollNics cfg p).2 := by
  refine MonitorHistory.pollNics_keeps (fun acc =>
    (∀ nic st, acc.1.nicState.lookup nic = some st → 0 ≤ st.ema) ∧ 0 ≤ acc.2) cfg m p
    ⟨hm, le_rfl⟩ fun acc nic _ hacc => ?_
  obtain ⟨hnics, htotal⟩ := hacc
  obtain ⟨hnics', hrate⟩ := pollOneNic_nonneg (p.readNicBytes nic) p.now nic hnics
  exact ⟨hnics', add_nonneg htotal hrate⟩

theorem polledBps_nonneg (cfg : MonitorConfig) (hm : Bounded m) (p : Poll) :
    0 ≤ m.polledBps cfg p := by
  unfold polledBps
  split
  · exact hm.simulated
  · exact (pollNics_nonneg cfg { m with stats.pollCount := m.stats.pollCount + 1 } p hm.nics).2

theorem samplePoll_simBps (cfg : MonitorConfig) (m : NetworkMonitor) (p : Poll) :
    (m.samplePoll cfg p).simBps = m.simBps := by
  unfold samplePoll
  by_cases hsim : cfg.simulated = true
  · simp only [hsim, if_true]
  · simp only [hsim]
    rw [if_neg (by simp), MonitorHistory.pollNics_frame]

theorem samplePoll_nics (hm : Bounded m) (p : Poll) (nic : String) (st : NicState)
    (hst : (m.samplePoll cfg p).nicState.lookup nic = some st) : 0 ≤ st.ema := by
  unfold samplePoll at hst
  split at hst
  · exact hm.nics nic st hst
  · have hpolled := pollNics_nonneg cfg { m with stats.pollCount := m.stats.pollCount + 1 } p
      hm.nics
    exact hpolled.1 nic st hst

theorem Bounded.poll (hm : Bounded m) (p : Poll) : Bounded (m.pollOnce cfg p) := by
  have hpolled := polledBps_nonneg cfg hm p
  obtain ⟨hnics, hema, hpeak, hsim⟩ := updateCongestionState_frame cfg
    (m.samplePoll cfg p) (m.samplePoll cfg p).totalBpsEma p.updateNow
  obtain ⟨hsmooth, hmax⟩ := samplePoll_ema cfg m p
  refine
    { nics := fun nic st hst => samplePoll_nics hm p nic st (hnics ▸ hst)
      simulated := ?_
      ema := ?_
      peak := ?_ }
  · rw [pollOnce, hsim, samplePoll_simBps]
    exact hm.simulated
  · rw [pollOnce, hema, hsmooth]
    exact le_smooth (by norm_num) (by norm_num) hpolled hm.ema
  · rw [pollOnce, hema, hpeak, hsmooth, hmax]
    exact smooth_le (by norm_num) (by norm_num) (le_max_right _ _)
      (hm.peak.trans (le_max_left _ _))

theorem Bounded.setSimulatedBps (hm : Bounded m) {bps : ℚ} (hbps : 0 ≤ bps) (now : ℚ) :
    Bounded (m.setSimulatedBps cfg bps now) := by
  obtain ⟨hnics, hema, hpeak, hsim⟩ := updateCongestionState_frame cfg
    { m with simBps := bps } bps now
  refine
    { nics := fun nic st hst => hm.nics nic st (hnics ▸ hst)
      simulated := ?_
      ema := ?_
      peak := ?_ }
  · rw [NetworkMonitor.setSimulatedBps, hsim]
    exact hbps
  · rw [NetworkMonitor.setSimulatedBps, hema]
    exact hm.ema
  · rw [NetworkMonitor.setSimulatedBps, hema, hpeak]
    exact hm.peak

end NetworkMonitor

namespace MonitorHistory

variable {cfg : MonitorConfig} {h : MonitorHistory}

/-- A simulated bandwidth is not negative. -/
def Plausible (_ : MonitorHistory) : MonitorEvent → Prop
  | .poll _ => True
  | .setSimulatedBps bps _ => 0 ≤ bps

instance (h : MonitorHistory) : (e : MonitorEvent) → Decidable (Plausible h e)
  | .poll _ => isTrue trivial
  | .setSimulatedBps bps _ => inferInstanceAs (Decidable (0 ≤ bps))

theorem lookup_new {cfg : MonitorConfig} {nic : String} {st : NicState}
    (hst : (NetworkMonitor.new cfg).nicState.lookup nic = some st) : st = {} := by
  have hlookup := lookup_foldl_assign_of (fun _ => ({} : NicState)) cfg.nics ∅ nic
  have hnew := hst.symm.trans hlookup
  split at hnew
  · exact Option.some.inj hnew
  · cases hnew

theorem bounded_reach (hreach : Reach (step cfg) Plausible (new cfg) h) :
    NetworkMonitor.Bounded h.monitor := by
  induction hreach with
  | refl =>
      exact
        { nics := fun nic st hst => by rw [lookup_new hst]
          simulated := le_rfl
          ema := le_rfl
          peak := le_rfl }
  | @tail s t e _ hplausible hstep ih =>
      cases e with
      | poll p =>
          obtain rfl := Option.some.inj hstep
          exact ih.poll p
      | setSimulatedBps bps now =>
          obtain rfl := Option.some.inj hstep
          exact ih.setSimulatedBps hplausible now

/-- **The gate follows the bandwidth within `k` polls.**  From any state that a run
reaches: where `k` polls add up `level` or more each, the gate is closed once `level` is
above the threshold by what the average still lacks; and where they add up `level` at
most, it is open once `level` and the rest of the highest bandwidth seen is below it. -/
theorem gate_follows (hreach : Reach (step cfg) Plausible (new cfg) h) (ps : List Poll)
    (hps : ps ≠ []) (level : ℚ) :
    ((∀ bps ∈ h.monitor.polledAll cfg ps, level ≤ bps) →
        cfg.thresholdBps ≤ level * (1 - (3 / 4) ^ ps.length) →
        (h.monitor.pollAll cfg ps).isCongested = true) ∧
      ((∀ bps ∈ h.monitor.polledAll cfg ps, bps ≤ level) →
        level + (3 / 4) ^ ps.length * (h.monitor.totalBpsPeak - level) < cfg.thresholdBps →
        (h.monitor.pollAll cfg ps).isCongested = false) := by
  have hbounded := bounded_reach hreach
  have hweight : (0 : ℚ) ≤ (3 / 4) ^ ps.length := by positivity
  have hpart : (1 : ℚ) - 1 / 4 = 3 / 4 := by norm_num
  rw [NetworkMonitor.pollAll_isCongested _ hps, NetworkMonitor.pollAll_ema]
  constructor
  · intro hlevel hthreshold
    have hema := le_smoothAll (a := 1 / 4) (by norm_num) (by norm_num)
      h.monitor.totalBpsEma hlevel
    rw [NetworkMonitor.length_polledAll, hpart] at hema
    have hstart : 0 ≤ (3 / 4) ^ ps.length * h.monitor.totalBpsEma :=
      mul_nonneg hweight hbounded.ema
    refine decide_eq_true ?_
    calc cfg.thresholdBps ≤ level * (1 - (3 / 4) ^ ps.length) := hthreshold
      _ ≤ level - (3 / 4) ^ ps.length * (level - h.monitor.totalBpsEma) := by linarith
      _ ≤ smoothAll (1 / 4) h.monitor.totalBpsEma (h.monitor.polledAll cfg ps) := hema
  · intro hlevel hthreshold
    have hema := smoothAll_le (a := 1 / 4) (by norm_num) (by norm_num)
      h.monitor.totalBpsEma hlevel
    rw [NetworkMonitor.length_polledAll, hpart] at hema
    have hstart := mul_le_mul_of_nonneg_left hbounded.peak hweight
    refine decide_eq_false (not_le.mpr ?_)
    calc smoothAll (1 / 4) h.monitor.totalBpsEma (h.monitor.polledAll cfg ps)
        ≤ level + (3 / 4) ^ ps.length * (h.monitor.totalBpsEma - level) := hema
      _ ≤ level + (3 / 4) ^ ps.length * (h.monitor.totalBpsPeak - level) := by linarith
      _ < cfg.thresholdBps := hthreshold

/-- A NIC that sends 400 GB in a second is over the threshold at once. -/
theorem gate_follows_second :
    ∃ h : MonitorHistory,
      (h.monitor.pollAll { nics := ["hsn0"] }
          [{ now := 1, readNicBytes := fun _ => some (4 * 10 ^ 11, 0), updateNow := 1 }]
        ).isCongested = true := by
  obtain ⟨h, hreach, hpolled⟩ : ∃ h, Reach (step { nics := ["hsn0"] }) Plausible
      (new { nics := ["hsn0"] }) h ∧
      ∀ bps ∈ h.monitor.polledAll { nics := ["hsn0"] }
        [{ now := 1, readNicBytes := fun _ => some (4 * 10 ^ 11, 0), updateNow := 1 }],
        10 ^ 11 ≤ bps :=
    Reach.exists_of_exec
      [.poll { now := 0, readNicBytes := fun _ => some (0, 0), updateNow := 0 }]
      (by decide +kernel) (by decide +kernel)
  exact ⟨h, (gate_follows hreach _ (by simp) (10 ^ 11)).1 hpolled (by decide +kernel)⟩

end MonitorHistory

namespace NetworkMonitor

variable (cfg : MonitorConfig) (m : NetworkMonitor)

/-! ## The forecast -/

/-- Milliseconds until the link is congested by a flush, `⊤` where it never is.  How much
is pending is not looked at. -/
def predictCongestionMs (_bytesPending : Nat) (flushBps : ℚ) : WithTop ℚ :=
  if cfg.simulated then ⊤
  else if !m.ioAllowed then 0
  else
    let currentBitsS := m.totalBpsEma * 8
    let thresholdBitsS := cfg.linkSpeedBps * cfg.congestionThreshold
    let headroomBitsS := max 0 (thresholdBitsS - currentBitsS)
    let flushBitsS := flushBps * 8
    if flushBitsS ≤ headroomBitsS then ⊤
    else
      let incrementalBitsS := flushBitsS - headroomBitsS
      ((headroomBitsS / max incrementalBitsS 1 * 1000 : ℚ) : WithTop ℚ)

/-- The part of its speed that each NIC uses. -/
def perRailUtil : Dict String ℚ :=
  if cfg.simulated then ∅
  else mapValues (fun st => st.ema * 8 / cfg.linkSpeedBps) m.nicState

/-- The NIC that uses the least, or `none` where even that is over the threshold. -/
def selectIdleRail : Option String :=
  match least id (m.perRailUtil cfg) with
  | none => none
  | some best => if cfg.congestionThreshold ≤ best.2 then none else some best.1

def countIdleRails : Nat :=
  if cfg.simulated then 1
  else (m.perRailUtil cfg).entries.countP fun e => e.2 < cfg.congestionThreshold

variable {cfg m} {p : Poll}

/-- The bits that fit, where the gate says how the average compares. -/
theorem headroom_eq (hema : m.totalBpsEma < cfg.thresholdBps) :
    max 0 (cfg.linkSpeedBps * cfg.congestionThreshold - m.totalBpsEma * 8) =
      8 * (cfg.thresholdBps - m.totalBpsEma) := by
  unfold MonitorConfig.thresholdBps at hema ⊢
  rw [max_eq_right (by linarith)]
  ring

/-- What the forecast is on hardware, in bytes. -/
theorem predictCongestionMs_eq (hhard : cfg.simulated = false)
    (hgate : m.isCongested = decide (cfg.thresholdBps ≤ m.totalBpsEma))
    (bytesPending : Nat) (flushBps : ℚ) :
    m.predictCongestionMs cfg bytesPending flushBps =
      if cfg.thresholdBps ≤ m.totalBpsEma then 0
      else if m.totalBpsEma + flushBps ≤ cfg.thresholdBps then ⊤
      else ((8 * (cfg.thresholdBps - m.totalBpsEma) /
        max (8 * (m.totalBpsEma + flushBps - cfg.thresholdBps)) 1 * 1000 : ℚ) :
          WithTop ℚ) := by
  unfold predictCongestionMs
  have hopen : (!m.ioAllowed) = decide (cfg.thresholdBps ≤ m.totalBpsEma) := hgate
  rw [hhard, hopen]
  by_cases hema : cfg.thresholdBps ≤ m.totalBpsEma
  · simp [hema]
  · simp only [hema, decide_false, Bool.false_eq_true, if_false]
    rw [headroom_eq (not_le.mp hema)]
    by_cases hfits : m.totalBpsEma + flushBps ≤ cfg.thresholdBps
    · rw [if_pos hfits, if_pos (by linarith)]
    · rw [if_neg hfits, if_neg (by linarith)]
      have hextra : flushBps * 8 - 8 * (cfg.thresholdBps - m.totalBpsEma) =
          8 * (m.totalBpsEma + flushBps - cfg.thresholdBps) := by ring
      rw [hextra]

/-- Where there is headroom and a flush is more than that, the forecast is positive. -/
theorem forecast_pos (hema : m.totalBpsEma < cfg.thresholdBps) (excess : ℚ) :
    0 < 8 * (cfg.thresholdBps - m.totalBpsEma) / max excess 1 * 1000 := by
  have hheadroom : 0 < 8 * (cfg.thresholdBps - m.totalBpsEma) := by linarith
  have hexcess : 0 < max excess 1 := lt_max_of_lt_right one_pos
  positivity

/-- A faster flush is not forecast to last longer. -/
theorem forecast_antitone (hema : m.totalBpsEma < cfg.thresholdBps) {excess excess' : ℚ}
    (hle : excess ≤ excess') :
    8 * (cfg.thresholdBps - m.totalBpsEma) / max excess' 1 * 1000 ≤
      8 * (cfg.thresholdBps - m.totalBpsEma) / max excess 1 * 1000 := by
  have hheadroom : 0 ≤ 8 * (cfg.thresholdBps - m.totalBpsEma) := by linarith
  have hexcess : 0 < max excess 1 := lt_max_of_lt_right one_pos
  have hmore : max excess 1 ≤ max excess' 1 := max_le_max_right 1 hle
  exact mul_le_mul_of_nonneg_right (div_le_div_of_nonneg_left hheadroom hexcess hmore)
    (by norm_num)

end NetworkMonitor

namespace MonitorHistory

variable {cfg : MonitorConfig} {h : MonitorHistory}

/-- The event is a poll. -/
def Polls (_ : MonitorHistory) : MonitorEvent → Prop
  | .poll _ => True
  | .setSimulatedBps .. => False

instance (h : MonitorHistory) : (e : MonitorEvent) → Decidable (Polls h e)
  | .poll _ => isTrue trivial
  | .setSimulatedBps .. => isFalse id

/-- A monitor that is only polled has the gate where its average says. -/
theorem gate_of_ema (hthreshold : 0 < cfg.thresholdBps)
    (hreach : Reach (step cfg) Polls (new cfg) h) :
    h.monitor.isCongested = decide (cfg.thresholdBps ≤ h.monitor.totalBpsEma) := by
  induction hreach with
  | refl => exact (decide_eq_false (not_le.mpr hthreshold)).symm
  | @tail s t e _ hpolls hstep ih =>
      cases e with
      | poll p =>
          obtain rfl := Option.some.inj hstep
          have hjudged : (s.monitor.pollAll cfg [p]).isCongested =
              decide (cfg.thresholdBps ≤ (s.monitor.pollAll cfg [p]).totalBpsEma) :=
            NetworkMonitor.pollAll_isCongested s.monitor (List.cons_ne_nil p [])
          exact hjudged
      | setSimulatedBps bps now => exact hpolls.elim

/-- **The forecast agrees with the gate.**  In every run of polls on hardware it is zero
exactly while the link is congested, and infinite exactly where the gate is open and the
smoothed bandwidth with the flush is at most the threshold; in between it is a time that a
faster flush only makes shorter. -/
theorem forecast_agrees (hhard : cfg.simulated = false) (hthreshold : 0 < cfg.thresholdBps)
    (hreach : Reach (step cfg) Polls (new cfg) h) (bytesPending : Nat) (flushBps : ℚ) :
    (h.monitor.predictCongestionMs cfg bytesPending flushBps = 0 ↔
        h.monitor.isCongested = true) ∧
      (h.monitor.predictCongestionMs cfg bytesPending flushBps = ⊤ ↔
        h.monitor.isCongested = false ∧
          h.monitor.totalBpsEma + flushBps ≤ cfg.thresholdBps) ∧
      ∀ flushBps', flushBps ≤ flushBps' →
        h.monitor.predictCongestionMs cfg bytesPending flushBps' ≤
          h.monitor.predictCongestionMs cfg bytesPending flushBps := by
  have hgate := gate_of_ema hthreshold hreach
  have heq := NetworkMonitor.predictCongestionMs_eq hhard hgate bytesPending
  simp only [heq, hgate]
  by_cases hema : cfg.thresholdBps ≤ h.monitor.totalBpsEma
  · simp [hema]
  · have hheadroom := not_le.mp hema
    simp only [hema, if_false, decide_false, true_and]
    refine ⟨?_, ?_, fun flushBps' hle => ?_⟩
    · split
      next => simp
      next =>
        have hpos := NetworkMonitor.forecast_pos hheadroom
          (8 * (h.monitor.totalBpsEma + flushBps - cfg.thresholdBps))
        simpa using hpos.ne'
    · split
      next hfits => exact iff_of_true rfl hfits
      next hfits => exact iff_of_false WithTop.coe_ne_top hfits
    · by_cases hfits : h.monitor.totalBpsEma + flushBps ≤ cfg.thresholdBps
      · rw [if_pos hfits]
        exact le_top
      · rw [if_neg hfits, if_neg (by linarith)]
        exact WithTop.coe_le_coe.mpr
          (NetworkMonitor.forecast_antitone hheadroom (by linarith))

/-- One NIC that sends 10 GB in a second, and a flush of 20 GB per second. -/
theorem forecast_agrees_one :
    ∃ h : MonitorHistory, h.monitor.isCongested = false ∧
      (h.monitor.predictCongestionMs { nics := ["hsn0"] } 0 (20 * 10 ^ 9) = 0 ↔
        h.monitor.isCongested = true) := by
  obtain ⟨h, hreach, hopen⟩ : ∃ h, Reach (step { nics := ["hsn0"] }) Polls
      (new { nics := ["hsn0"] }) h ∧ h.monitor.isCongested = false :=
    Reach.exists_of_exec
      [.poll { now := 0, readNicBytes := fun _ => some (0, 0), updateNow := 0 },
        .poll { now := 1, readNicBytes := fun _ => some (10 ^ 10, 0), updateNow := 1 }]
      (by decide +kernel) (by decide +kernel)
  have hforecast := forecast_agrees rfl (by decide +kernel) hreach 0 (20 * 10 ^ 9)
  exact ⟨h, hopen, hforecast.1⟩

/-! ## The rails -/

theorem mem_pollOneNic {m : NetworkMonitor} {nic nic' : String} (hnic : nic ∈ m.nicState)
    (now : ℚ) (raw : Option (Int × Int)) :
    nic' ∈ (m.pollOneNic now raw nic).1.nicState ↔ nic' ∈ m.nicState := by
  unfold NetworkMonitor.pollOneNic
  cases raw with
  | none => exact Iff.rfl
  | some raw =>
      rw [mem_assign]
      exact ⟨fun hmem => hmem.elim (fun heq => heq ▸ hnic) id, .inr⟩

/-- Polls give states to no NIC but those that were found. -/
theorem mem_pollNics (cfg : MonitorConfig) (m : NetworkMonitor) (p : Poll)
    (hm : ∀ nic, nic ∈ m.nicState ↔ nic ∈ cfg.nics) (nic : String) :
    nic ∈ (m.pollNics cfg p).1.nicState ↔ nic ∈ cfg.nics := by
  refine pollNics_keeps (fun acc => ∀ nic, nic ∈ acc.1.nicState ↔ nic ∈ cfg.nics) cfg m p hm
    (fun acc first hfirst hacc nic => ?_) nic
  exact (mem_pollOneNic ((hacc first).mpr hfirst) _ _).trans (hacc nic)

/-- The NICs that have a state are those that were found. -/
theorem mem_nicState (hreach : Reachable (step cfg) (new cfg) h) (nic : String) :
    nic ∈ h.monitor.nicState ↔ nic ∈ cfg.nics := by
  induction hreach generalizing nic with
  | refl =>
      have hlookup := lookup_foldl_assign_of (fun _ => ({} : NicState)) cfg.nics ∅ nic
      have hnew : (NetworkMonitor.new cfg).nicState.lookup nic =
          if nic ∈ cfg.nics then some {} else none := hlookup
      have hmem : nic ∈ (NetworkMonitor.new cfg).nicState ↔
          ((NetworkMonitor.new cfg).nicState.lookup nic).isSome = true :=
        AList.lookup_isSome.symm
      rw [hnew] at hmem
      refine hmem.trans ?_
      split <;> simp [*]
  | @tail s t e _ _ hstep ih =>
      cases e with
      | poll p =>
          obtain rfl := Option.some.inj hstep
          have hframe := (NetworkMonitor.updateCongestionState_frame cfg
            (s.monitor.samplePoll cfg p) (s.monitor.samplePoll cfg p).totalBpsEma
            p.updateNow).1
          change nic ∈ (s.monitor.pollOnce cfg p).nicState ↔ _
          rw [NetworkMonitor.pollOnce, hframe]
          unfold NetworkMonitor.samplePoll
          split
          · exact ih nic
          · exact mem_pollNics cfg
              { s.monitor with stats.pollCount := s.monitor.stats.pollCount + 1 } p ih nic
      | setSimulatedBps bps now =>
          obtain rfl := Option.some.inj hstep
          have hframe := (NetworkMonitor.updateCongestionState_frame cfg
            { s.monitor with simBps := bps } bps now).1
          change nic ∈ (s.monitor.setSimulatedBps cfg bps now).nicState ↔ _
          rw [NetworkMonitor.setSimulatedBps, hframe]
          exact ih nic

/-- **The rail that is chosen is the least used one, and idle.**  In every run on
hardware, each NIC that was found has a utilisation; the rail chosen is one of them, uses
less than the threshold and not more than any other; and none is chosen exactly where no
rail counts as idle. -/
theorem idle_rail_chosen (hhard : cfg.simulated = false)
    (hreach : Reachable (step cfg) (new cfg) h) :
    (∀ nic, nic ∈ h.monitor.perRailUtil cfg ↔ nic ∈ cfg.nics) ∧
      (∀ nic, h.monitor.selectIdleRail cfg = some nic → nic ∈ cfg.nics ∧
        ∃ util, (h.monitor.perRailUtil cfg).lookup nic = some util ∧
          util < cfg.congestionThreshold ∧
          ∀ nic' util', (h.monitor.perRailUtil cfg).lookup nic' = some util' →
            util ≤ util') ∧
      (h.monitor.selectIdleRail cfg = none ↔ h.monitor.countIdleRails cfg = 0) := by
  have hmem : ∀ nic, nic ∈ h.monitor.perRailUtil cfg ↔ nic ∈ cfg.nics := by
    intro nic
    rw [← mem_nicState hreach, ← AList.lookup_isSome, ← AList.lookup_isSome,
      NetworkMonitor.perRailUtil, hhard, if_neg Bool.false_ne_true, lookup_mapValues,
      Option.isSome_map]
  refine ⟨hmem, fun nic hselect => ?_, ?_⟩
  · unfold NetworkMonitor.selectIdleRail at hselect
    split at hselect
    next => cases hselect
    next best hbest =>
      split at hselect
      next => cases hselect
      next hidle =>
        obtain rfl := Option.some.inj hselect
        have hlookup := lookup_of_least hbest
        exact ⟨(hmem best.1).mp (mem_of_lookup hlookup), best.2, hlookup, not_le.mp hidle,
          fun nic' util' hutil' => least_le hbest hutil'⟩
  · unfold NetworkMonitor.selectIdleRail NetworkMonitor.countIdleRails
    rw [hhard, if_neg Bool.false_ne_true, List.countP_eq_zero]
    cases hbest : least id (h.monitor.perRailUtil cfg) with
    | none =>
        rw [least_eq_none.mp hbest]
        simp
    | some best =>
        have hentry : best ∈ (h.monitor.perRailUtil cfg).entries := List.argmin_mem hbest
        dsimp only
        constructor
        · intro hnone e he
          have hsaturated : cfg.congestionThreshold ≤ best.2 := by
            by_contra hidle
            rw [if_neg hidle] at hnone
            cases hnone
          simpa using hsaturated.trans (List.le_of_mem_argmin he hbest)
        · intro hall
          rw [if_pos (by simpa using hall best hentry)]

/-- The first rail is busy, the second is not. -/
theorem idle_rail_chosen_second :
    ∃ h : MonitorHistory,
      h.monitor.selectIdleRail { nics := ["hsn0", "hsn1"] } = some "hsn1" ∧
      (∀ nic, nic ∈ h.monitor.perRailUtil { nics := ["hsn0", "hsn1"] } ↔
        nic ∈ ["hsn0", "hsn1"]) := by
  obtain ⟨h, hreach, hselect⟩ : ∃ h, Reachable (step { nics := ["hsn0", "hsn1"] })
      (new { nics := ["hsn0", "hsn1"] }) h ∧
      h.monitor.selectIdleRail { nics := ["hsn0", "hsn1"] } = some "hsn1" :=
    Reachable.exists_of_exec
      [.poll { now := 0, readNicBytes := fun _ => some (0, 0), updateNow := 0 },
        .poll
          { now := 1
            readNicBytes := fun nic => some (if nic = "hsn0" then 10 ^ 12 else 10 ^ 9, 0)
            updateNow := 1 }]
      (by decide +kernel)
  exact ⟨h, hselect, (idle_rail_chosen rfl hreach).1⟩

end MonitorHistory

end Tempo
