import Tempo.PacingRate

/-!
# The attention gate of the daemon

The CUPTI callback sets the GPU phase by one atomic exchange, at any time; the
daemon reads it at the head of an iteration, and when it finds ATTENTION waits
for an FFN window.  From there on the iteration drains a block, asks the token
bucket and submits the write without looking at the phase again.  The gate is
given here load by load in front of the loop of `Tempo.PacingDaemon`, with the
callback as one more thread.

`sinceGate` records the calls of `_set_phase` since the gate was last passed,
and `late` counts the calls of `io_uring_submit` in `flush_block` that were made
while the phase was ATTENTION.
-/

namespace Tempo

open Runs

/-- `Phase`. -/
inductive GpuPhase
  | unknown
  | attention
  | ffn
  | other
  deriving DecidableEq, Repr

/-- Where the daemon stands at the gate. -/
inductive GatePc
  /-- `monitor_.is_attention()` -/
  | check
  /-- `if (is_ffn()) return true` in `wait_for_ffn` -/
  | fast
  /-- `cv_.wait_until` -/
  | waiting
  deriving DecidableEq, Repr

/-- The daemon's statement calls `io_uring_submit`: with the entry of its block
prepared, or to make room in a full queue. -/
def DaemonPc.submits : DaemonPc → DaemonInput → Bool
  | .submit _, .next => true
  | .getSqe _, .sqe free => !free
  | _, _ => false

/-- The daemon under the monitor. -/
structure GatedDaemon (cap : Capacity) (ι : Type*) where
  daemon : PacingDaemon cap ι
  phase : GpuPhase := .unknown
  gate : GatePc := .check
  sinceGate : List GpuPhase := []
  late : Nat := 0

namespace GatedDaemon

variable {cap : Capacity} {ι : Type*}

inductive Event (ι : Type*)
  /-- producer `p` calls `absorb` -/
  | absorb (p : ι) (blk : KVBlock)
  /-- the next access of producer `p` -/
  | producer (p : ι)
  | spurious (p : ι)
  /-- the callback, for a kernel classified as ATTENTION or FFN -/
  | setPhase (p : GpuPhase)
  /-- the load of `is_attention()` -/
  | check
  /-- the load of `is_ffn()` before the wait -/
  | fast
  /-- `wait_until` returns: an FFN window, or none in time -/
  | wake (ffn : Bool)
  /-- the next statement of the daemon behind the gate -/
  | daemon (i : DaemonInput)

def init (found : Fin cap.size → KVBlock) : GatedDaemon cap ι :=
  { daemon := .init found }

variable [DecidableEq ι]

/-- The daemon passes the gate and calls `drain`. -/
def pass (strictGate : Bool) (s : GatedDaemon cap ι) :
    Option (GatedDaemon cap ι) :=
  (s.daemon.daemonStep strictGate .next).map fun daemon =>
    { s with daemon, gate := .check, sinceGate := [] }

/-- The next load at the gate. -/
def gateStep (strictGate : Bool) (s : GatedDaemon cap ι) :
    GatePc → Option (GatedDaemon cap ι)
  | .check =>
      if strictGate && s.phase = .attention then some { s with gate := .fast }
      else s.pass strictGate
  | .fast =>
      if s.phase = .ffn then s.pass strictGate
      else some { s with gate := .waiting }
  | .waiting =>
      if s.phase = .ffn then s.pass strictGate
      else
        -- `continue`
        (s.daemon.daemonStep strictGate .attention).map fun daemon =>
          { s with daemon, gate := .check }

def step (strictGate : Bool) (s : GatedDaemon cap ι) :
    Event ι → Option (GatedDaemon cap ι)
  | .absorb p blk =>
      (s.daemon.step strictGate (.absorb p blk)).map fun daemon =>
        { s with daemon }
  | .producer p =>
      (s.daemon.step strictGate (.producer p)).map fun daemon =>
        { s with daemon }
  | .spurious p =>
      (s.daemon.step strictGate (.spurious p)).map fun daemon =>
        { s with daemon }
  | .setPhase p =>
      if p = .attention ∨ p = .ffn then
        some { s with phase := p, sinceGate := s.sinceGate ++ [p] }
      else none
  | .check =>
      if s.daemon.pc = .gate ∧ s.gate = .check then
        s.gateStep strictGate .check
      else none
  | .fast =>
      if s.daemon.pc = .gate ∧ s.gate = .fast then s.gateStep strictGate .fast
      else none
  | .wake ffn =>
      if s.daemon.pc = .gate ∧ s.gate = .waiting ∧ (s.phase = .ffn ↔ ffn) then
        s.gateStep strictGate .waiting
      else none
  | .daemon i =>
      if s.daemon.pc = .gate then none
      else
        (s.daemon.daemonStep strictGate i).map fun daemon =>
          { s with
            daemon
            late := s.late +
              (s.daemon.pc.submits i && s.phase = .attention).toNat }

/-- The condition on a step: the callback does not set ATTENTION while the
daemon is in `flush_block`, and when the daemon comes there the callback's last
call since the gate was passed did not set it. -/
def Clear (s : GatedDaemon cap ι) : Event ι → Prop
  | .setPhase .attention => s.daemon.pc.paid = []
  | .daemon (.granted bytes) =>
      bytes ≠ 0 → s.sinceGate.getLast? ≠ some .attention
  | _ => True

/-- The invariant. -/
structure Inv (s : GatedDaemon cap ι) : Prop where
  /-- the callback's last call decides the phase -/
  last : ∀ p, s.sinceGate.getLast? = some p → s.phase = p
  /-- the gate is not passed in the ATTENTION phase -/
  passed : s.daemon.pc ≠ .gate → s.sinceGate = [] → s.phase ≠ .attention
  flushing : s.daemon.pc.paid ≠ [] → s.phase ≠ .attention
  none_late : s.late = 0

variable {s t : GatedDaemon cap ι} {strictGate : Bool}

omit [DecidableEq ι] in
theorem inv_init (found : Fin cap.size → KVBlock) :
    Inv (init found : GatedDaemon cap ι) where
  last := by simp [init]
  passed := by simp [init, PacingDaemon.init]
  flushing := by simp [init, PacingDaemon.init, DaemonPc.paid]
  none_late := rfl

omit [DecidableEq ι] in
/-- A step that leaves the daemon's statement and the callback alone. -/
theorem Inv.frame (hs : Inv s) {daemon : PacingDaemon cap ι} {gate : GatePc}
    (hpc : daemon.pc = s.daemon.pc) : Inv { s with daemon, gate } where
  last := hs.last
  passed := by
    dsimp only
    rw [hpc]
    exact hs.passed
  flushing := by
    dsimp only
    rw [hpc]
    exact hs.flushing
  none_late := hs.none_late

/-- Passing the gate. -/
theorem Inv.pass (hs : Inv s) (hphase : s.phase ≠ .attention)
    (hstep : s.pass strictGate = some t) :
    Inv t := by
  obtain ⟨daemon, -, rfl⟩ := Option.map_eq_some_iff.mp hstep
  exact
    { last := by simp
      passed := fun _ _ => hphase
      flushing := fun _ => hphase
      none_late := hs.none_late }

/-- The loads at the gate let the daemon pass outside the ATTENTION phase
only. -/
theorem Inv.gateStep (hs : Inv s) {pc : GatePc}
    (hstep : s.gateStep true pc = some t) : Inv t := by
  cases pc with
  | check =>
      simp only [GatedDaemon.gateStep, Bool.true_and, decide_eq_true_eq] at hstep
      by_cases hphase : s.phase = .attention
      · rw [if_pos hphase] at hstep
        obtain rfl := Option.some.inj hstep
        exact hs.frame rfl
      · rw [if_neg hphase] at hstep
        exact hs.pass hphase hstep
  | fast =>
      by_cases hphase : s.phase = .ffn
      · simp only [GatedDaemon.gateStep, if_pos hphase] at hstep
        exact hs.pass (by simp [hphase]) hstep
      · simp only [GatedDaemon.gateStep, if_neg hphase] at hstep
        obtain rfl := Option.some.inj hstep
        exact hs.frame rfl
  | waiting =>
      by_cases hphase : s.phase = .ffn
      · simp only [GatedDaemon.gateStep, if_pos hphase] at hstep
        exact hs.pass (by simp [hphase]) hstep
      · simp only [GatedDaemon.gateStep, if_neg hphase] at hstep
        obtain ⟨daemon, hdaemon, rfl⟩ := Option.map_eq_some_iff.mp hstep
        unfold PacingDaemon.daemonStep at hdaemon
        split at hdaemon
        · obtain rfl := by simpa using hdaemon
          exact hs.frame rfl
        all_goals simp_all

theorem paid_of_submits {pc : DaemonPc} {i : DaemonInput}
    (h : pc.submits i = true) : pc.paid ≠ [] := by
  unfold DaemonPc.submits at h
  split at h
  · simp [DaemonPc.paid]
  · simp [DaemonPc.paid]
  · cases h

/-- A statement behind the gate. -/
theorem Inv.daemon {i : DaemonInput} (hs : Inv s) (hclear : s.Clear (.daemon i))
    (hstep : s.step true (.daemon i) = some t) : Inv t := by
  by_cases hpc : s.daemon.pc = .gate
  · simp [GatedDaemon.step, hpc] at hstep
  · simp only [GatedDaemon.step, if_neg hpc] at hstep
    obtain ⟨daemon, hdaemon, rfl⟩ := Option.map_eq_some_iff.mp hstep
    exact
      { last := hs.last
        passed := fun _ => hs.passed hpc
        flushing := by
          intro hpaid
          dsimp only at hpaid ⊢
          by_cases hconsume : ∃ blk, s.daemon.pc = .consume blk
          · obtain ⟨blk, hconsume⟩ := hconsume
            cases i with
            | granted bytes =>
                rw [PacingDaemon.paid_of_consume hconsume hdaemon] at hpaid
                have hsome : bytes ≠ 0 := by
                  intro hzero
                  simp [hzero] at hpaid
                -- the callback's last call since the gate was not ATTENTION
                cases hlast : s.sinceGate.getLast? with
                | none =>
                    exact hs.passed hpc (List.getLast?_eq_none_iff.mp hlast)
                | some p =>
                    rw [hs.last p hlast]
                    rintro rfl
                    exact hclear hsome hlast
            | _ => simp [PacingDaemon.daemonStep, hconsume] at hdaemon
          · have hsub := PacingDaemon.paid_sublist
              (fun blk h => hconsume ⟨blk, h⟩) hdaemon
            refine hs.flushing fun hnil => hpaid ?_
            rw [hnil] at hsub
            exact List.sublist_nil.mp hsub
        none_late := by
          dsimp only
          rw [hs.none_late, Nat.zero_add]
          cases hsubmits : s.daemon.pc.submits i with
          | false => rfl
          | true =>
              have hphase := hs.flushing (paid_of_submits hsubmits)
              simp [hphase] }

theorem Inv.step {e : Event ι} (hs : Inv s) (hclear : s.Clear e)
    (hstep : s.step true e = some t) : Inv t := by
  cases e with
  | absorb p _ | spurious p =>
      obtain ⟨daemon, hdaemon, rfl⟩ := Option.map_eq_some_iff.mp hstep
      obtain ⟨absorber, -, rfl⟩ := Option.map_eq_some_iff.mp hdaemon
      exact hs.frame rfl
  | producer p =>
      obtain ⟨daemon, hdaemon, rfl⟩ := Option.map_eq_some_iff.mp hstep
      obtain ⟨absorber, -, rfl⟩ := Option.map_eq_some_iff.mp hdaemon
      exact hs.frame (PacingProcess.pc_of_absorbing _ _ _)
  | setPhase p =>
      obtain ⟨hp, rfl⟩ := by simpa [GatedDaemon.step] using hstep
      exact
        { last := by
            intro q hq
            simpa using hq
          passed := by simp
          flushing := by
            intro hpaid
            rcases hp with rfl | rfl
            · exact absurd hclear hpaid
            · simp
          none_late := hs.none_late }
  | check =>
      obtain ⟨-, hgate⟩ := by simpa [GatedDaemon.step] using hstep
      exact hs.gateStep hgate
  | fast =>
      obtain ⟨-, hgate⟩ := by simpa [GatedDaemon.step] using hstep
      exact hs.gateStep hgate
  | wake ffn =>
      obtain ⟨-, hgate⟩ := by simpa [GatedDaemon.step] using hstep
      exact hs.gateStep hgate
  | daemon i => exact hs.daemon hclear hstep

/-- A statement of the daemon behind the gate can be taken. -/
theorem flush_takes {i : DaemonInput} {daemon : PacingDaemon cap ι}
    (hpc : s.daemon.pc ≠ .gate)
    (hdaemon : s.daemon.daemonStep strictGate i = some daemon) :
    ∃ u, step strictGate s (.daemon i) = some u ∧ u.daemon = daemon ∧
      u.phase = s.phase := by
  obtain ⟨u, hu⟩ : ∃ u, step strictGate s (.daemon i) = some u := by
    simp only [GatedDaemon.step, if_neg hpc, hdaemon, Option.map_some]
    exact ⟨_, rfl⟩
  obtain ⟨loop, hloop, rfl⟩ := Option.map_eq_some_iff.mp
    (by simpa only [GatedDaemon.step, if_neg hpc] using hu)
  exact ⟨_, hu, Option.some.inj (hloop.symm.trans hdaemon), rfl⟩

/-- In `flush_block` the daemon goes on to submit its block, in whatever phase
it is. -/
theorem submits_on (hpaid : s.daemon.pc.paid ≠ []) :
    ∃ u v blk, Reachable (step strictGate) s u ∧ u.phase = s.phase ∧
      u.daemon.pc = .submit blk ∧
      step strictGate u (.daemon .next) = some v := by
  have hready : ∀ (u : GatedDaemon cap ι) (blk : KVBlock),
      u.daemon.pc = .submit blk →
        ∃ v, step strictGate u (.daemon .next) = some v := by
    intro u blk hpc
    obtain ⟨daemon, hdaemon⟩ :
        ∃ daemon, u.daemon.daemonStep strictGate .next = some daemon := by
      simp only [PacingDaemon.daemonStep, hpc]
      exact ⟨_, rfl⟩
    obtain ⟨v, hv, -⟩ := flush_takes (by simp [hpc]) hdaemon
    exact ⟨v, hv⟩
  -- a free entry is found at either call of `io_uring_get_sqe`
  have hentry : ∀ blk, s.daemon.daemonStep strictGate (.sqe true) =
        some { s.daemon with pc := .submit blk } →
      s.daemon.pc ≠ .gate →
      ∃ u v blk, Reachable (step strictGate) s u ∧ u.phase = s.phase ∧
        u.daemon.pc = .submit blk ∧
        step strictGate u (.daemon .next) = some v := by
    intro blk hdaemon hpc
    obtain ⟨u, hu, hloop, hphase⟩ := flush_takes hpc hdaemon
    obtain ⟨v, hv⟩ := hready u blk (by rw [hloop])
    exact ⟨u, v, blk, .tail .refl trivial hu, hphase, by rw [hloop], hv⟩
  cases hpc : s.daemon.pc with
  | getSqe blk =>
      exact hentry blk (by simp [PacingDaemon.daemonStep, hpc]) (by simp [hpc])
  | retrySqe blk =>
      exact hentry blk (by simp [PacingDaemon.daemonStep, hpc]) (by simp [hpc])
  | submit blk =>
      obtain ⟨v, hv⟩ := hready s blk hpc
      exact ⟨s, v, blk, .refl, rfl, hpc, hv⟩
  | gate | draining | consume | reabsorb =>
      simp [hpc, DaemonPc.paid] at hpaid

/-- A step that breaks the condition leaves the daemon in `flush_block` in the
ATTENTION phase. -/
theorem Inv.breaks {e : Event ι} (hs : Inv s) (hbreaks : ¬ s.Clear e)
    (hstep : s.step true e = some t) :
    t.phase = .attention ∧ t.daemon.pc.paid ≠ [] := by
  unfold Clear at hbreaks
  split at hbreaks
  · obtain rfl := by simpa [GatedDaemon.step] using hstep
    exact ⟨rfl, hbreaks⟩
  · next bytes =>
      rw [Classical.not_imp, not_not] at hbreaks
      obtain ⟨hsome, hlast⟩ := hbreaks
      by_cases hpc : s.daemon.pc = .gate
      · simp [GatedDaemon.step, hpc] at hstep
      · simp only [GatedDaemon.step, if_neg hpc] at hstep
        obtain ⟨daemon, hdaemon, rfl⟩ := Option.map_eq_some_iff.mp hstep
        refine ⟨hs.last _ hlast, ?_⟩
        cases hconsume : s.daemon.pc with
        | consume blk =>
            dsimp only
            rw [PacingDaemon.paid_of_consume hconsume hdaemon, if_neg hsome]
            exact List.cons_ne_nil _ _
        | _ => simp [PacingDaemon.daemonStep, hconsume] at hdaemon
  · exact absurd trivial hbreaks

/-- **No call of `io_uring_submit` in `flush_block` during ATTENTION**, in runs
in which ATTENTION does not come between the gate and the submission; a step
that breaks this leads on to the submission of a block in ATTENTION. -/
theorem not_late (found : Fin cap.size → KVBlock)
    (hrun : Reach (step true) Clear (init found) s) :
    s.late = 0 ∧
      ∀ e t, ¬ s.Clear e → step true s e = some t →
        ∃ u v blk, Reachable (step true) t u ∧ u.phase = .attention ∧
          u.daemon.pc = .submit blk ∧
          step true u (.daemon .next) = some v := by
  have hs : Inv s :=
    hrun.invariant (inv_init found) fun _ _ _ hs hclear => hs.step hclear
  refine ⟨hs.none_late, ?_⟩
  intro e t hbreaks hstep
  obtain ⟨hphase, hpaid⟩ := hs.breaks hbreaks hstep
  obtain ⟨u, v, blk, hreach, hsame, hpc, hsubmit⟩ := submits_on hpaid
  exact ⟨u, v, blk, hreach, hsame.trans hphase, hpc, hsubmit⟩

/-- A block enters the ring, and the daemon passes the gate and drains it. -/
def drainedEvents : List (Event Unit) :=
  [Event.absorb () (SpikeAbsorber.blockOf 1)] ++
    List.replicate 6 (Event.producer ()) ++ [Event.check] ++
    List.replicate 6 (Event.daemon .next)

/-- The block is paid for and submitted. -/
def flushEvents : List (Event Unit) :=
  [Event.daemon (.granted 4096), .daemon (.sqe true), .daemon .next]

/-- An attention kernel is launched while the daemon waits for tokens. -/
theorem submitted_in_attention :
    ∃ s : GatedDaemon Capacity.absorber Unit,
      Reachable (step true) (init fun _ => SpikeAbsorber.blockOf 0) s ∧
      s.daemon.blocksFlushed = 1 ∧ s.late = 1 ∧ s.phase = .attention :=
  Reachable.exists_of_exec
    (drainedEvents ++ [.setPhase .attention] ++ flushEvents)
    (by decide +kernel)

instance Clear.decidable (s : GatedDaemon cap ι) : ∀ e, Decidable (s.Clear e)
  | .setPhase .attention => inferInstanceAs (Decidable (_ = _))
  | .daemon (.granted bytes) =>
      inferInstanceAs (Decidable
        (bytes ≠ 0 → s.sinceGate.getLast? ≠ some .attention))
  | .setPhase .unknown | .setPhase .ffn | .setPhase .other
  | .daemon .next | .daemon .attention | .daemon (.sqe _) | .daemon .spurious
  | .absorb _ _ | .producer _ | .spurious _ | .check | .fast | .wake _ =>
      isTrue trivial

/-- ATTENTION comes while the block is drained, and is over before it is paid
for. -/
theorem not_late_between :
    ∃ s : GatedDaemon Capacity.absorber Unit,
      Reach (step true) Clear (init fun _ => SpikeAbsorber.blockOf 0) s ∧
      s.daemon.blocksFlushed = 1 ∧ s.late = 0 := by
  obtain ⟨s, hrun, hflushed⟩ :
      ∃ s : GatedDaemon Capacity.absorber Unit,
        Reach (step true) Clear (init fun _ => SpikeAbsorber.blockOf 0) s ∧
        s.daemon.blocksFlushed = 1 :=
    Reach.exists_of_exec
      (drainedEvents ++ [.setPhase .attention, .setPhase .ffn] ++ flushEvents ++
        [.setPhase .attention])
      (by decide +kernel) (by decide +kernel)
  exact ⟨s, hrun, hflushed, (not_late _ hrun).1⟩

end GatedDaemon

end Tempo
