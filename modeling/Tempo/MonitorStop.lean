import Tempo.NetworkMonitor

/-!
# Stopping the network monitor

The poll loop updates the gate under its lock, in several statements: it looks
at the gate, and then closes or opens it.  `stop` sets the flag and opens the
gate without the lock.  An iteration of the loop that has passed its look at the
flag goes on to its end, so it may still close the gate that `stop` has opened,
and then nothing opens it again.  Here the loop and `stop` are two threads, each
statement of which is a step.
-/

namespace Tempo

open Runs

/-- Where the poll thread stands. -/
inductive PollPc
  /-- `while not self._stop.is_set()` -/
  | top
  /-- from `with self._lock` to the comparison with the threshold -/
  | sample
  /-- `self._io_allowed_event.is_set()` -/
  | test (congested : Bool) (now : ℚ)
  /-- `self._io_allowed_event.clear()` -/
  | close (now : ℚ)
  /-- `self._io_allowed_event.set()` -/
  | reopen (now : ℚ)
  /-- the peak of the statistics, then the sleep -/
  | peak
  | ended
  deriving DecidableEq

/-- The thread closes the gate next if it finds it open. -/
def PollPc.closing : PollPc → Bool
  | .test congested _ => congested
  | .close _ => true
  | _ => false

/-- Where the caller of `stop` stands. -/
inductive StopPc
  | idle
  /-- `self._io_allowed_event.set()` -/
  | release
  /-- `self._thread.join(timeout=1.0)` -/
  | join
  | returned
  deriving DecidableEq

/-- `stop` has opened the gate. -/
def StopPc.released : StopPc → Bool
  | .idle | .release => false
  | .join | .returned => true

/-- The monitor, its poll thread and one call of `stop`. -/
structure PollingMonitor where
  monitor : NetworkMonitor
  stop : Bool := false
  poll : PollPc := .top
  stopper : StopPc := .idle

namespace NetworkMonitor

variable (m : NetworkMonitor)

/-- What follows `clear()` belongs to the same statement. -/
def closeGate (now : ℚ) : NetworkMonitor :=
  { m with
    ioAllowed := false
    congestionStart := some now
    stats.congestionEvents := m.stats.congestionEvents + 1 }

def reopenGate (now : ℚ) : NetworkMonitor :=
  match m.congestionStart with
  | some start =>
      if start ≠ 0 then
        { m with
          ioAllowed := true
          congestionStart := none
          stats.totalCongestionMs :=
            m.stats.totalCongestionMs + (now - start) * 1000 }
      else
        { m with ioAllowed := true }
  | none => { m with ioAllowed := true }

def keepPeak (totalBps : ℚ) : NetworkMonitor :=
  if m.stats.peakBps < totalBps then
    { m with stats.peakBps := totalBps }
  else
    m

/-- An update that nothing interrupts is one of the three in a row. -/
theorem updateCongestionState_eq (cfg : MonitorConfig) (totalBps now : ℚ) :
    m.updateCongestionState cfg totalBps now =
      (if decide (cfg.thresholdBps ≤ totalBps) && m.ioAllowed then
          m.closeGate now
        else if !decide (cfg.thresholdBps ≤ totalBps) && !m.ioAllowed then
          m.reopenGate now
        else m).keepPeak totalBps := rfl

@[simp] theorem reopenGate_ioAllowed (now : ℚ) :
    (m.reopenGate now).ioAllowed = true := by
  unfold reopenGate
  split
  · split <;> rfl
  · rfl

@[simp] theorem keepPeak_ioAllowed (totalBps : ℚ) :
    (m.keepPeak totalBps).ioAllowed = m.ioAllowed := by
  unfold keepPeak
  split <;> rfl

theorem pollOneNic_ioAllowed (now : ℚ) (raw : Option (Int × Int))
    (nic : String) : (m.pollOneNic now raw nic).1.ioAllowed = m.ioAllowed := by
  unfold pollOneNic
  split <;> rfl

theorem pollNics_ioAllowed (cfg : MonitorConfig) (p : Poll) :
    (m.pollNics cfg p).1.ioAllowed = m.ioAllowed := by
  unfold pollNics
  generalize cfg.nics = nics
  generalize (0 : ℚ) = sum
  induction nics generalizing m sum with
  | nil => rfl
  | cons nic nics ih =>
      rw [List.foldl_cons, ih]
      exact pollOneNic_ioAllowed m _ _ nic

/-- Sampling does not touch the gate. -/
@[simp] theorem samplePoll_ioAllowed (cfg : MonitorConfig) (p : Poll) :
    (m.samplePoll cfg p).ioAllowed = m.ioAllowed := by
  unfold samplePoll
  dsimp only
  split
  · rfl
  · exact pollNics_ioAllowed _ cfg p

end NetworkMonitor

namespace PollingMonitor

inductive Event where
  /-- the next statement of the poll thread, with what it reads -/
  | poll (p : Poll)
  /-- `stop` is called, or its next statement -/
  | stop
  /-- `_sim_bps` is set from outside -/
  | simulate (bps : ℚ)

/-- The poll thread has been started. -/
def init (m : NetworkMonitor) : PollingMonitor := { monitor := m }

variable (cfg : MonitorConfig) (s : PollingMonitor)

/-- The next statement of the poll thread. -/
def pollStep (p : Poll) : Option PollingMonitor :=
  match s.poll with
  | .top => some { s with poll := if s.stop then .ended else .sample }
  | .sample =>
      let sampled := s.monitor.samplePoll cfg p
      some { s with
        monitor := sampled
        poll := .test (decide (cfg.thresholdBps ≤ sampled.totalBpsEma))
          p.updateNow }
  | .test true now =>
      some { s with
        poll := if s.monitor.ioAllowed then .close now else .peak }
  | .test false now =>
      some { s with
        poll := if s.monitor.ioAllowed then .peak else .reopen now }
  | .close now =>
      some { s with monitor := s.monitor.closeGate now, poll := .peak }
  | .reopen now =>
      some { s with monitor := s.monitor.reopenGate now, poll := .peak }
  | .peak =>
      some { s with
        monitor := s.monitor.keepPeak s.monitor.totalBpsEma
        poll := .top }
  | .ended => none

/-- The next statement of `stop`; the join may time out. -/
def stopStep : Option PollingMonitor :=
  match s.stopper with
  | .idle => some { s with stop := true, stopper := .release }
  | .release =>
      some { s with monitor.ioAllowed := true, stopper := .join }
  | .join => some { s with stopper := .returned }
  | .returned => none

def step : Event → Option PollingMonitor
  | .poll p => s.pollStep cfg p
  | .stop => s.stopStep
  | .simulate bps => some { s with monitor.simBps := bps }

/-- The gate is open and remains so. -/
def ReleasedForGood : Prop :=
  ∀ t, Reachable (step cfg) s t → t.monitor.isCongested = false

/-- When `stop` opens the gate, no iteration is about to close it, and none that
goes on after that finds the link at the threshold. -/
def Undisturbed : Event → Prop
  | .poll p =>
      s.stopper.released = true → s.poll = .sample →
        (s.monitor.samplePoll cfg p).totalBpsEma < cfg.thresholdBps
  | .stop => s.stopper = .release → s.poll.closing = false
  | .simulate _ => True

instance : ∀ e, Decidable (s.Undisturbed cfg e)
  | .poll _ => inferInstanceAs (Decidable (_ → _ → _))
  | .stop => inferInstanceAs (Decidable (_ → _))
  | .simulate _ => isTrue trivial

/-- What holds in undisturbed runs. -/
structure Open : Prop where
  stop : s.stop = true ↔ s.stopper ≠ .idle
  ended : s.poll = .ended → s.stop = true
  gate : s.stopper.released = true → s.monitor.ioAllowed = true
  quiet : s.stopper.released = true → s.poll.closing = false

/-- The gate that `stop` has opened is closed, or going to be. -/
structure Shut : Prop where
  released : s.stopper.released = true
  stop : s.stop = true
  gate : match s.poll with
    | .test congested _ => congested = true ∧ s.monitor.ioAllowed = true
    | .close _ => True
    | .peak | .top | .ended => s.monitor.ioAllowed = false
    | .sample | .reopen _ => False

variable {cfg s} {t : PollingMonitor}

theorem open_init (m : NetworkMonitor) : (init m).Open where
  stop := by simp [init]
  ended := by simp [init]
  gate := by simp [init, StopPc.released]
  quiet := by simp [init, StopPc.released]

theorem Open.poll (h : s.Open) {p : Poll} (hcond : s.Undisturbed cfg (.poll p))
    (hstep : s.pollStep cfg p = some t) : t.Open := by
  obtain ⟨hstop, -, hgate, hquiet⟩ := h
  cases hpc : s.poll with
  | top =>
      obtain rfl := by simpa [pollStep, hpc] using hstep
      refine ⟨hstop, ?_, hgate, fun _ => ?_⟩
      · simp
      · dsimp only
        split <;> rfl
  | sample =>
      obtain rfl := by simpa [pollStep, hpc] using hstep
      refine ⟨hstop, by simp, ?_, ?_⟩
      · simpa using hgate
      · intro hreleased
        have hlow := hcond hreleased hpc
        simp [PollPc.closing, not_le.mpr hlow]
  | test congested now =>
      cases congested with
      | true =>
          obtain rfl := by simpa [pollStep, hpc] using hstep
          refine ⟨hstop, ?_, hgate, fun hreleased => ?_⟩
          · dsimp only
            split <;> simp
          · simpa [hpc, PollPc.closing] using hquiet hreleased
      | false =>
          obtain rfl := by simpa [pollStep, hpc] using hstep
          refine ⟨hstop, ?_, hgate, fun _ => ?_⟩
          · dsimp only
            split <;> simp
          · dsimp only
            split <;> rfl
  | close now =>
      obtain rfl := by simpa [pollStep, hpc] using hstep
      refine ⟨hstop, by simp, fun hreleased => ?_, fun _ => rfl⟩
      simpa [hpc, PollPc.closing] using hquiet hreleased
  | reopen now =>
      obtain rfl := by simpa [pollStep, hpc] using hstep
      exact ⟨hstop, by simp, by simp, fun _ => rfl⟩
  | peak =>
      obtain rfl := by simpa [pollStep, hpc] using hstep
      exact ⟨hstop, by simp, by simpa using hgate, fun _ => rfl⟩
  | ended => simp [pollStep, hpc] at hstep

theorem Open.step (h : s.Open) {e : Event} (hcond : s.Undisturbed cfg e)
    (hstep : s.step cfg e = some t) : t.Open := by
  cases e with
  | poll p => exact h.poll hcond hstep
  | stop =>
      cases hpc : s.stopper with
      | idle =>
          obtain rfl := by simpa [PollingMonitor.step, stopStep, hpc] using hstep
          exact ⟨by simp, fun _ => rfl, by simp [StopPc.released],
            by simp [StopPc.released]⟩
      | release =>
          obtain rfl := by simpa [PollingMonitor.step, stopStep, hpc] using hstep
          have hstop := h.stop.mpr (by simp [hpc])
          exact ⟨by simp [hstop], fun _ => hstop, fun _ => rfl,
            fun _ => hcond hpc⟩
      | join =>
          obtain rfl := by simpa [PollingMonitor.step, stopStep, hpc] using hstep
          have hstop := h.stop.mpr (by simp [hpc])
          exact ⟨by simp [hstop], fun _ => hstop,
            fun _ => h.gate (by simp [hpc, StopPc.released]),
            fun _ => h.quiet (by simp [hpc, StopPc.released])⟩
      | returned => simp [PollingMonitor.step, stopStep, hpc] at hstep
  | simulate bps =>
      obtain rfl := Option.some.inj hstep
      exact ⟨h.stop, h.ended, h.gate, h.quiet⟩

theorem Shut.step (h : s.Shut) {e : Event} (hstep : s.step cfg e = some t) :
    t.Shut := by
  obtain ⟨hreleased, hstop, hgate⟩ := h
  cases e with
  | poll p =>
      cases hpc : s.poll with
      | top =>
          obtain rfl := by
            simpa [PollingMonitor.step, pollStep, hpc, hstop] using hstep
          exact ⟨hreleased, rfl, by simpa [hpc] using hgate⟩
      | test congested now =>
          obtain ⟨rfl, hopen⟩ := by simpa [hpc] using hgate
          obtain rfl := by
            simpa [PollingMonitor.step, pollStep, hpc, hopen] using hstep
          exact ⟨hreleased, hstop, trivial⟩
      | close now =>
          obtain rfl := by
            simpa [PollingMonitor.step, pollStep, hpc] using hstep
          exact ⟨hreleased, hstop, rfl⟩
      | peak =>
          obtain rfl := by
            simpa [PollingMonitor.step, pollStep, hpc] using hstep
          exact ⟨hreleased, hstop, by simpa [hpc] using hgate⟩
      | sample | reopen now => simp [hpc] at hgate
      | ended => simp [PollingMonitor.step, pollStep, hpc] at hstep
  | stop =>
      cases hpc : s.stopper with
      | join =>
          obtain rfl := by
            simpa [PollingMonitor.step, stopStep, hpc] using hstep
          exact ⟨rfl, hstop, hgate⟩
      | idle | release => simp [hpc, StopPc.released] at hreleased
      | returned => simp [PollingMonitor.step, stopStep, hpc] at hstep
  | simulate bps =>
      obtain rfl := Option.some.inj hstep
      exact ⟨hreleased, hstop, hgate⟩

/-- What disturbs `stop` leads to a closed gate. -/
theorem shut_of_disturbed (h : s.Open) {e : Event}
    (hcond : ¬ s.Undisturbed cfg e) (hstep : s.step cfg e = some t) :
    t.Shut := by
  cases e with
  | poll p =>
      simp only [Undisturbed, Classical.not_imp, not_lt] at hcond
      obtain ⟨hreleased, hpc, hhigh⟩ := hcond
      have hopen := h.gate hreleased
      have hstop : s.stop = true := by
        apply h.stop.mpr
        intro hidle
        simp [hidle, StopPc.released] at hreleased
      obtain rfl := by
        simpa [PollingMonitor.step, pollStep, hpc, hhigh] using hstep
      exact ⟨hreleased, hstop, by simpa using hopen⟩
  | stop =>
      simp only [Undisturbed, Classical.not_imp, Bool.not_eq_false] at hcond
      obtain ⟨hrelease, hclosing⟩ := hcond
      have hstop : s.stop = true := h.stop.mpr (by simp [hrelease])
      obtain rfl := by
        simpa [PollingMonitor.step, stopStep, hrelease] using hstep
      refine ⟨rfl, hstop, ?_⟩
      dsimp only
      cases hpc : s.poll <;> simp [hpc, PollPc.closing] at hclosing ⊢
      exact hclosing
  | simulate bps => exact absurd trivial hcond

/-- When the poll thread has ended, nobody closes the gate any more. -/
theorem releasedForGood (hended : s.poll = .ended)
    (hgate : s.monitor.ioAllowed = true) : s.ReleasedForGood cfg := by
  intro t hrun
  have ht : t.poll = .ended ∧ t.monitor.ioAllowed = true := by
    apply hrun.invariant ⟨hended, hgate⟩
    rintro s e t ⟨hended, hgate⟩ - hstep
    cases e with
    | poll p => simp [PollingMonitor.step, pollStep, hended] at hstep
    | stop =>
        cases hpc : s.stopper with
        | idle | join =>
            obtain rfl := by
              simpa [PollingMonitor.step, stopStep, hpc] using hstep
            exact ⟨hended, hgate⟩
        | release =>
            obtain rfl := by
              simpa [PollingMonitor.step, stopStep, hpc] using hstep
            exact ⟨hended, rfl⟩
        | returned => simp [PollingMonitor.step, stopStep, hpc] at hstep
    | simulate bps =>
        obtain rfl := Option.some.inj hstep
        exact ⟨hended, hgate⟩
  simp [NetworkMonitor.isCongested, ht.2]

/-- **`stop` releases every waiter for good when nothing closes the gate
behind it.**  In a run in which the poll thread has found the flag set and ended,
the gate is open, and no `wait_for_bw_headroom` can block, exactly if the
iteration that `stop` overtakes does not find the link congested, and, should
`stop` not have come to open the gate yet, it is open already. -/
theorem stop_releases_iff (cfg : MonitorConfig) (m : NetworkMonitor)
    (es : List Event) (s : PollingMonitor)
    (hexec : exec (step cfg) (init m) es = some s) (hended : s.poll = .ended) :
    s.ReleasedForGood cfg ↔
      Meets (step cfg) (Undisturbed cfg) (init m) es ∧
        (s.stopper = .release → s.monitor.ioAllowed = true) := by
  have hopen : ∀ t, Reach (step cfg) (Undisturbed cfg) (init m) t → t.Open := by
    intro t hrun
    exact hrun.invariant (open_init m) fun _ _ _ h hcond => h.step hcond
  constructor
  · intro hgood
    have hgate : s.monitor.ioAllowed = true := by
      simpa [NetworkMonitor.isCongested] using hgood s .refl
    refine ⟨?_, fun _ => hgate⟩
    by_contra hfail
    obtain ⟨u, e, v, hu, hcond, hstep, hrest⟩ := exists_violation hexec hfail
    have hshut : s.Shut :=
      hrest.invariant (shut_of_disturbed (hopen u hu) hcond hstep)
        fun _ _ _ h _ => h.step
    have hclosed : s.monitor.ioAllowed = false := by
      simpa [hended] using hshut.gate
    rw [hgate] at hclosed
    cases hclosed
  · rintro ⟨hmeets, hbetween⟩
    have hs := hopen s (.of_exec hexec hmeets)
    apply releasedForGood hended
    cases hpc : s.stopper with
    | idle => exact absurd hpc (hs.stop.mp (hs.ended hended))
    | release => exact hbetween hpc
    | join | returned => exact hs.gate (by rw [hpc]; rfl)

/-- The next statement of the poll thread, without NICs. -/
def turn : Event :=
  .poll { now := 0, readNicBytes := fun _ => none, updateNow := 1 }

/-- A bandwidth far above the threshold. -/
def busy : Event := .simulate (10 ^ 12)

/-- The loop has passed its look at the flag when `stop` runs. -/
def overtakenEvents : List Event :=
  [busy, turn, .stop, .stop, turn, turn, turn, turn, turn, .stop]

/-- The gate is closed although `stop` has returned and the thread has ended. -/
theorem stop_leaves_congested :
    ¬ ∀ (cfg : MonitorConfig) (m : NetworkMonitor) (s : PollingMonitor),
      Reachable (step cfg) (init m) s → s.stop = true → s.poll = .ended →
      s.stopper = .returned → s.monitor.isCongested = false := by
  intro hall
  let cfg : MonitorConfig := { nics := [] }
  obtain ⟨s, hrun, hstop, hended, hreturned, hcongested⟩ :
      ∃ s, Reachable (step cfg) (init (.new cfg)) s ∧ s.stop = true ∧
        s.poll = .ended ∧ s.stopper = .returned ∧
        s.monitor.isCongested = true :=
    Reachable.exists_of_exec overtakenEvents (by decide +kernel)
  have hclear := hall cfg _ s hrun hstop hended hreturned
  rw [hcongested] at hclear
  cases hclear

/-- The iteration closes the gate before `stop` opens it. -/
def closedBefore : List Event :=
  [busy, turn, turn, turn, turn, .stop, .stop, turn, turn, .stop]

theorem stop_releases_busy :
    ∃ s : PollingMonitor, s.stop = true ∧ s.poll = .ended ∧
      s.ReleasedForGood { nics := [] } := by
  let cfg : MonitorConfig := { nics := [] }
  obtain ⟨s, hexec, hstop, hended, hreturned⟩ :
      ∃ s ∈ exec (step cfg) (init (.new cfg)) closedBefore,
        s.stop = true ∧ s.poll = .ended ∧ s.stopper = .returned := by
    decide +kernel
  exact ⟨s, hstop, hended, (stop_releases_iff cfg _ closedBefore s hexec
    hended).2 ⟨by decide +kernel, by simp [hreturned]⟩⟩

end PollingMonitor

end Tempo
