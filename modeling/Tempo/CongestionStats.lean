import Tempo.LevelIntervals
import Tempo.NetworkMonitor

/-!
# What the network monitor counts

The monitor counts how often the gate is closed, adds up the time that it is, and keeps
the highest bandwidth that it has judged.  `judged` is the history of what it judged and
when, and the three numbers are those of this history (`congestion_counted`).
-/

namespace Tempo

open LevelIntervals OrderedDict Runs

/-- What makes the monitor judge a bandwidth. -/
inductive MonitorEvent
  | poll (p : Poll)
  | setSimulatedBps (bps now : ℚ)

/-- The monitor, and what it has judged so far: when, and which bandwidth. -/
structure MonitorHistory where
  monitor : NetworkMonitor
  judged : List (ℚ × ℚ) := []

namespace MonitorHistory

variable (cfg : MonitorConfig)

def new : MonitorHistory where
  monitor := .new cfg

/-- When an event judges, and what. -/
def judges (m : NetworkMonitor) : MonitorEvent → ℚ × ℚ
  | .poll p => (p.updateNow, (m.samplePoll cfg p).totalBpsEma)
  | .setSimulatedBps bps now => (now, bps)

def step (h : MonitorHistory) (e : MonitorEvent) : Option MonitorHistory :=
  some
    { monitor :=
        match e with
        | .poll p => h.monitor.pollOnce cfg p
        | .setSimulatedBps bps now => h.monitor.setSimulatedBps cfg bps now
      judged := h.judged ++ [judges cfg h.monitor e] }

/-- Whether the link counted as congested, each time that it was judged. -/
def levels (h : MonitorHistory) : List (ℚ × Bool) :=
  h.judged.map fun j => (j.1, decide (cfg.thresholdBps ≤ j.2))

/-- The clock does not read zero when a bandwidth is judged. -/
def Timely (h : MonitorHistory) (e : MonitorEvent) : Prop :=
  (judges cfg h.monitor e).1 ≠ 0

instance (h : MonitorHistory) (e : MonitorEvent) : Decidable (Timely cfg h e) :=
  inferInstanceAs (Decidable (_ ≠ _))

/-- The milliseconds of congestion that are in the statistics, where the last time the
level was judged is `last` and the current stretch, if there is one, began at `start`. -/
structure Counted (h : MonitorHistory) : Prop where
  gate : h.monitor.ioAllowed = !lastLevel false (h.levels cfg)
  events : h.monitor.stats.congestionEvents = edges false (h.levels cfg)
  peak : h.monitor.stats.peakBps = (h.judged.map Prod.snd).foldl max 0
  closed : h.monitor.ioAllowed = true → h.monitor.congestionStart = none ∧
    h.monitor.stats.totalCongestionMs = 1000 * highTime (h.levels cfg)
  running : h.monitor.ioAllowed = false → ∃ start last : ℚ, start ≠ 0 ∧
    h.monitor.congestionStart = some start ∧
    (h.levels cfg).getLast? = some (last, true) ∧
    h.monitor.stats.totalCongestionMs + 1000 * (last - start) =
      1000 * highTime (h.levels cfg)

variable {cfg} {h t : MonitorHistory} {e : MonitorEvent} {m : NetworkMonitor}

/-- What a poll does before it judges leaves the gate and the statistics of the gate. -/
structure Unjudged (m m' : NetworkMonitor) : Prop where
  gate : m'.ioAllowed = m.ioAllowed
  start : m'.congestionStart = m.congestionStart
  events : m'.stats.congestionEvents = m.stats.congestionEvents
  total : m'.stats.totalCongestionMs = m.stats.totalCongestionMs
  peak : m'.stats.peakBps = m.stats.peakBps

/-- What a poll of each NIC keeps, the polls of all NICs keep. -/
theorem pollNics_keeps (P : NetworkMonitor × ℚ → Prop) (cfg : MonitorConfig)
    (m : NetworkMonitor) (p : Poll) (hstart : P (m, 0))
    (hnic : ∀ acc, ∀ nic ∈ cfg.nics, P acc →
      P ((acc.1.pollOneNic p.now (p.readNicBytes nic) nic).1,
        acc.2 + (acc.1.pollOneNic p.now (p.readNicBytes nic) nic).2)) :
    P (m.pollNics cfg p) := by
  unfold NetworkMonitor.pollNics
  exact List.foldlRecOn cfg.nics _ hstart fun acc hacc nic hmem => hnic acc nic hmem hacc

theorem pollNics_frame (cfg : MonitorConfig) (m : NetworkMonitor) (p : Poll) :
    (m.pollNics cfg p).1 = { m with nicState := (m.pollNics cfg p).1.nicState } := by
  refine pollNics_keeps (fun acc => acc.1 = { m with nicState := acc.1.nicState }) cfg m p rfl
    fun acc nic _ hacc => ?_
  have hone : (acc.1.pollOneNic p.now (p.readNicBytes nic) nic).1 =
      { acc.1 with
        nicState := (acc.1.pollOneNic p.now (p.readNicBytes nic) nic).1.nicState } := by
    unfold NetworkMonitor.pollOneNic
    cases p.readNicBytes nic <;> rfl
  exact hone.trans (congrArg (fun n : NetworkMonitor =>
    { n with nicState := (acc.1.pollOneNic p.now (p.readNicBytes nic) nic).1.nicState }) hacc)

theorem unjudged_samplePoll (p : Poll) : Unjudged m (m.samplePoll cfg p) := by
  unfold NetworkMonitor.samplePoll
  by_cases hsim : cfg.simulated = true
  · simp only [hsim, if_true]
    exact ⟨rfl, rfl, rfl, rfl, rfl⟩
  · simp only [hsim]
    rw [if_neg (by simp), pollNics_frame]
    exact ⟨rfl, rfl, rfl, rfl, rfl⟩

/-- A judgement flips the gate, and raises the peak. -/
theorem judged_frame (cfg : MonitorConfig) (m : NetworkMonitor) (bps now : ℚ) :
    (m.updateCongestionState cfg bps now).ioAllowed =
        (m.flipGate (decide (cfg.thresholdBps ≤ bps)) now).ioAllowed ∧
      (m.updateCongestionState cfg bps now).congestionStart =
        (m.flipGate (decide (cfg.thresholdBps ≤ bps)) now).congestionStart ∧
      (m.updateCongestionState cfg bps now).stats.congestionEvents =
        (m.flipGate (decide (cfg.thresholdBps ≤ bps)) now).stats.congestionEvents ∧
      (m.updateCongestionState cfg bps now).stats.totalCongestionMs =
        (m.flipGate (decide (cfg.thresholdBps ≤ bps)) now).stats.totalCongestionMs ∧
      (m.updateCongestionState cfg bps now).stats.peakBps = max m.stats.peakBps bps := by
  have hpeak : (m.flipGate (decide (cfg.thresholdBps ≤ bps)) now).stats.peakBps =
      m.stats.peakBps := by
    unfold NetworkMonitor.flipGate
    split
    · rfl
    · split
      · split
        · split <;> rfl
        · rfl
      · rfl
  unfold NetworkMonitor.updateCongestionState
  dsimp only
  split
  next hless =>
      rw [hpeak] at hless
      exact ⟨rfl, rfl, rfl, rfl, (max_eq_right hless.le).symm⟩
  next hmore =>
      rw [hpeak, not_lt] at hmore
      exact ⟨rfl, rfl, rfl, rfl, hpeak.trans (max_eq_left hmore).symm⟩

/-- The history with one more judgement. -/
theorem levels_judged (cfg : MonitorConfig) (h : MonitorHistory) (m : NetworkMonitor)
    (bps now : ℚ) :
    levels cfg { monitor := m, judged := h.judged ++ [(now, bps)] } =
      levels cfg h ++ [(now, decide (cfg.thresholdBps ≤ bps))] := by
  simp [levels]

theorem flipGate_events (congested : Bool) (now : ℚ) :
    (m.flipGate congested now).stats.congestionEvents =
      m.stats.congestionEvents + (congested && m.ioAllowed).toNat := by
  unfold NetworkMonitor.flipGate
  cases congested <;> cases m.ioAllowed
  case false.false =>
    simp only [Bool.false_eq_true, ↓reduceIte, Bool.not_false, Bool.and_self]
    cases m.congestionStart with
    | none => rfl
    | some start =>
        dsimp only
        split <;> rfl
  all_goals simp

/-- The gate is open and the link is judged. -/
theorem Counted.open (hh : Counted cfg h) (hopen : h.monitor.ioAllowed = true)
    (hm : Unjudged h.monitor m) {congested : Bool} {now : ℚ} :
    (congested = false → (m.flipGate congested now).congestionStart = none ∧
      (m.flipGate congested now).stats.totalCongestionMs =
        1000 * highTime (h.levels cfg ++ [(now, congested)])) ∧
    (congested = true → (m.flipGate congested now).congestionStart = some now ∧
      (m.flipGate congested now).stats.totalCongestionMs =
        1000 * highTime (h.levels cfg ++ [(now, congested)])) := by
  have hlow : lastLevel false (h.levels cfg) = false := by
    have hgate := hh.gate
    rw [hopen] at hgate
    simpa using hgate.symm
  obtain ⟨hstart, htotal⟩ := hh.closed hopen
  have hgate : m.ioAllowed = true := hm.gate.trans hopen
  rw [highTime_concat_low hlow, ← htotal, ← hm.total]
  constructor
  · rintro rfl
    have hflip : m.flipGate false now = m := by simp [NetworkMonitor.flipGate, hgate]
    rw [hflip]
    exact ⟨hm.start.trans hstart, rfl⟩
  · rintro rfl
    simp [NetworkMonitor.flipGate, hgate]

/-- The gate is closed and the link is judged. -/
theorem Counted.shut (hh : Counted cfg h) (hshut : h.monitor.ioAllowed = false)
    (hm : Unjudged h.monitor m) {congested : Bool} {now : ℚ} :
    (congested = false → (m.flipGate congested now).congestionStart = none ∧
      (m.flipGate congested now).stats.totalCongestionMs =
        1000 * highTime (h.levels cfg ++ [(now, congested)])) ∧
    (congested = true → ∃ start : ℚ, start ≠ 0 ∧
      (m.flipGate congested now).congestionStart = some start ∧
      (m.flipGate congested now).stats.totalCongestionMs + 1000 * (now - start) =
        1000 * highTime (h.levels cfg ++ [(now, congested)])) := by
  obtain ⟨start, last, hne, hstart, hlast, htotal⟩ := hh.running hshut
  have hgate : m.ioAllowed = false := hm.gate.trans hshut
  have hstart' : m.congestionStart = some start := hm.start.trans hstart
  have htotal' := hm.total
  rw [highTime_concat _ _ _ hlast, if_pos rfl]
  constructor
  · rintro rfl
    have hflip : (m.flipGate false now).congestionStart = none ∧
        (m.flipGate false now).stats.totalCongestionMs =
          m.stats.totalCongestionMs + (now - start) * 1000 := by
      simp [NetworkMonitor.flipGate, hgate, hstart', hne]
    refine ⟨hflip.1, ?_⟩
    rw [hflip.2]
    linarith
  · rintro rfl
    have hflip : m.flipGate true now = m := by simp [NetworkMonitor.flipGate, hgate]
    rw [hflip]
    refine ⟨start, hne, hstart', ?_⟩
    linarith

/-- A high sample opens a stretch where the gate was open, and goes on with it where it
was closed; a low one ends it. -/
theorem Counted.judge (hh : Counted cfg h) (hm : Unjudged h.monitor m) (bps now : ℚ)
    (hnow : now ≠ 0) :
    Counted cfg
      { monitor := m.updateCongestionState cfg bps now
        judged := h.judged ++ [(now, bps)] } := by
  obtain ⟨hgate, hstart, hevents, htotal, hpeak⟩ :=
    judged_frame cfg m bps now
  have hlast : m.ioAllowed = !lastLevel false (h.levels cfg) := hm.gate.trans hh.gate
  have hflip := NetworkMonitor.flipGate_ioAllowed (m := m)
    (decide (cfg.thresholdBps ≤ bps)) now
  have hlevels := levels_judged cfg h (m.updateCongestionState cfg bps now) bps now
  generalize decide (cfg.thresholdBps ≤ bps) = congested at *
  refine
    { gate := by rw [hlevels, lastLevel_concat, hgate, hflip]
      events := ?_
      peak := ?_
      closed := fun hopen' => ?_
      running := fun hshut' => ?_ }
  · rw [hlevels, hevents, flipGate_events, edges_concat, hm.events, hh.events, hlast]
  · rw [hpeak, hm.peak, hh.peak, List.map_append, List.foldl_append]
    rfl
  · have hlow : congested = false := by
      rw [hgate, hflip] at hopen'
      simpa using hopen'
    rw [hlevels, hstart, htotal]
    cases hbefore : h.monitor.ioAllowed with
    | true => exact (hh.open hbefore hm).1 hlow
    | false => exact (hh.shut hbefore hm).1 hlow
  · have hhigh : congested = true := by
      rw [hgate, hflip] at hshut'
      simpa using hshut'
    rw [hlevels, hstart, htotal]
    cases hbefore : h.monitor.ioAllowed with
    | true =>
        obtain ⟨hnew, hsum⟩ := (hh.open hbefore hm).2 hhigh
        refine ⟨now, now, hnow, hnew, by simp [hhigh], ?_⟩
        rw [sub_self, mul_zero, add_zero, hsum]
    | false =>
        obtain ⟨start, hne, hold, hsum⟩ := (hh.shut hbefore hm).2 hhigh
        exact ⟨start, now, hne, hold, by simp [hhigh], hsum⟩

theorem Counted.step (hh : Counted cfg h) (htimely : Timely cfg h e)
    (hstep : step cfg h e = some t) : Counted cfg t := by
  cases e with
  | poll p =>
      obtain rfl := Option.some.inj hstep
      have hm : Unjudged h.monitor (h.monitor.samplePoll cfg p) := unjudged_samplePoll p
      exact hh.judge hm (h.monitor.samplePoll cfg p).totalBpsEma p.updateNow htimely
  | setSimulatedBps bps now =>
      obtain rfl := Option.some.inj hstep
      have hm : Unjudged h.monitor { h.monitor with simBps := bps } :=
        ⟨rfl, rfl, rfl, rfl, rfl⟩
      exact hh.judge hm bps now htimely

end MonitorHistory

end Tempo
