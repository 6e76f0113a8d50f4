import Tempo.CheckpointManager
import Tempo.PhaseMonitor

/-!
# The flush thread under the phase monitor

The checkpoint manager and the phase monitor put together: one training thread
calls `set_phase`, and what the flush thread learns from the monitor is now
what the monitor holds.  `get_dynamic_flush_rate` takes the monitor's lock to
read the phase, so it waits for a `set_phase` call in progress; the duration
estimate is read after the lock is released and may be of any age.
`wait_for_io_allowed` reads the gate without the lock.

The copy loop checks the rate and then writes, so a chunk whose check came
before the phase change is written after it.  `set_phase` opens the gate before
it changes the phase, so the flush thread may leave its wait while the phase is
still NCCL; what saves the bound then is the second rate call, whose value is
ignored and whose lock is not.
-/

namespace Tempo

/-- `set_phase` has left the old phase and not stored the new one. -/
def SetPhasePc.left : SetPhasePc → Bool
  | .entering _ _ => true
  | .storing _ => true
  | _ => false

/-- At `self._phase = new_phase`. -/
def SetPhasePc.stores : SetPhasePc → Bool
  | .storing _ => true
  | _ => false

namespace FlushPc

/-- Between a granted rate and the end of the chunk's write. -/
def writing : FlushPc → Bool
  | .read _ _ => true
  | .write _ _ _ => true
  | _ => false

/-- At `fdst.write`. -/
def atWrite : FlushPc → Bool
  | .write _ _ _ => true
  | _ => false

/-- Past the gate, before the second rate call. -/
def recomputing : FlushPc → Bool
  | .recompute _ _ => true
  | _ => false

end FlushPc

/-- The `pcie_ceiling_bps` that `_do_flush` passes. -/
def flushCeilingBps : ℚ := 64000000000

/-- The default `safety_margin`, which `_do_flush` leaves. -/
def flushSafetyMargin : ℚ := 1 / 10

/-- The two components and the training thread's `set_phase` call.  `writes`
counts the chunk writes started since the phase was last stored. -/
structure PacedFlush where
  manager : CkptState
  monitor : PhaseMonitor := {}
  trainer : Option SetPhasePc := none
  writes : Nat := 0

inductive PacedEvent
  /-- the training thread calls `set_phase` -/
  | setPhase (new : TrainingPhase)
  /-- the next statement of the call -/
  | trainer (now : ℚ)
  /-- a step of the manager that does not ask the monitor -/
  | manager (e : CkptEvent)
  /-- a rate call, with the bandwidth estimates it passes and the duration
  estimate it finds -/
  | rate (estBps ncclBps emaNcclMs : ℚ)
  /-- `wait_for_io_allowed` returns -/
  | gate (allowed : Bool)

/-- The manager event is an answer of the monitor. -/
def CkptEvent.asksMonitor : CkptEvent → Bool
  | .worker (.rate _ _) => true
  | .worker (.gate _) => true
  | _ => false

namespace PacedFlush

open CheckpointManager

def init (cfg : CkptConfig) (localDir lustreDir : Dir) : PacedFlush :=
  { manager := CheckpointManager.init cfg localDir lustreDir }

/-- The training thread is inside the lock. -/
def locked (s : PacedFlush) : Bool := s.trainer.any SetPhasePc.holdsLock

/-- A step of the flush thread, counting the write it starts. -/
def flush (cfg : CkptConfig) (s : PacedFlush) (i : FlushInput) :
    Option PacedFlush :=
  (workerStep { cfg with hasMonitor := true } s.manager i).map fun manager =>
    { s with
      manager
      writes := s.writes + s.manager.worker.atWrite.toNat }

def step (cfg : CkptConfig) (s : PacedFlush) :
    PacedEvent → Option PacedFlush
  | .setPhase new =>
      if s.trainer = none then some { s with trainer := some (.call new) }
      else none
  | .trainer now =>
      match s.trainer with
      | none => none
      | some pc =>
          -- no other thread keeps the lock across a statement
          (setPhaseStep s.monitor false now pc).map fun r =>
            { s with
              monitor := r.1
              trainer := r.2
              writes := if pc.stores then 0 else s.writes }
  | .manager (.worker i) =>
      if CkptEvent.asksMonitor (.worker i) then none else s.flush cfg i
  | .manager e =>
      (CheckpointManager.step { cfg with hasMonitor := true } s.manager e).map
        fun manager => { s with manager }
  | .rate estBps ncclBps emaNcclMs =>
      if s.locked then none
      else
        let found := { s.monitor with emaNcclMs }
        s.flush cfg (.rate estBps
          (found.getDynamicFlushRate estBps ncclBps flushCeilingBps
            flushSafetyMargin))
  | .gate true =>
      if s.monitor.isIoAllowed then s.flush cfg (.gate true) else none
  -- a timed-out wait may have missed the gate opening
  | .gate false => s.flush cfg (.gate false)

/-! ### What one step does -/

/-- What the flush thread learns from an event, if it is one of its steps. -/
def heard (s : PacedFlush) : PacedEvent → Option FlushInput
  | .manager (.worker i) => some i
  | .rate estBps ncclBps emaNcclMs =>
      some (.rate estBps
        (({ s.monitor with emaNcclMs } : PhaseMonitor).getDynamicFlushRate
          estBps ncclBps flushCeilingBps flushSafetyMargin))
  | .gate allowed => some (.gate allowed)
  | _ => none

/-- What the flush thread hears is true: a rate is heard with the lock free, and
is `0` in the NCCL phase, and the gate is passed when it is open. -/
theorem step_flush {cfg : CkptConfig} {s t : PacedFlush} {e : PacedEvent}
    {i : FlushInput} (hstep : step cfg s e = some t)
    (hheard : s.heard e = some i) :
    s.flush cfg i = some t ∧
      (∀ est r, i = .rate est r → s.locked = false ∧
        (s.monitor.phase = .ncclComm → r = 0)) ∧
      (i = .gate true → s.monitor.ioAllowed = true) := by
  cases e with
  | setPhase new => cases hheard
  | trainer now => cases hheard
  | manager e =>
      cases e with
      | worker i' =>
          obtain rfl : i' = i := Option.some.inj hheard
          cases hasks : CkptEvent.asksMonitor (.worker i') with
          | true => simp [PacedFlush.step, hasks] at hstep
          | false =>
              simp only [PacedFlush.step, hasks, Bool.false_eq_true, if_false]
                at hstep
              refine ⟨hstep, ?_, ?_⟩
              · rintro est r rfl; cases hasks
              · rintro rfl; cases hasks
      | save _ _ _ | saver | shutdown => cases hheard
  | rate est nccl ema =>
      obtain rfl := Option.some.inj hheard
      cases hlocked : s.locked with
      | true => simp [PacedFlush.step, hlocked] at hstep
      | false =>
          simp only [PacedFlush.step, hlocked, Bool.false_eq_true, if_false]
            at hstep
          refine ⟨hstep, ?_, by simp⟩
          -- the rate is judged by the phase, whatever the age of the estimate
          rintro _ r h
          obtain ⟨-, rfl⟩ := FlushInput.rate.inj h
          refine ⟨rfl, fun hphase => ?_⟩
          have hfound :
              ({ s.monitor with emaNcclMs := ema }).phase = .ncclComm :=
            hphase
          exact PhaseMonitor.getDynamicFlushRate_nccl hfound _ _ _ _
  | gate allowed =>
      obtain rfl := Option.some.inj hheard
      cases allowed with
      | true =>
          cases hopen : s.monitor.isIoAllowed with
          | false => simp [PacedFlush.step, hopen] at hstep
          | true =>
              simp only [PacedFlush.step, hopen, if_true] at hstep
              exact ⟨hstep, by simp, fun _ => hopen⟩
      | false => exact ⟨hstep, by simp, by simp⟩

/-- A step of the flush thread is one of its statements, and leaves the
monitor and the `set_phase` call alone. -/
theorem step_heard {cfg : CkptConfig} {s t : PacedFlush} {e : PacedEvent}
    {i : FlushInput} (hstep : step cfg s e = some t)
    (hheard : s.heard e = some i) :
    workerStep { cfg with hasMonitor := true } s.manager i = some t.manager ∧
      t.monitor = s.monitor ∧ t.trainer = s.trainer := by
  obtain ⟨manager, hworker, rfl⟩ :=
    Option.map_eq_some_iff.mp (step_flush hstep hheard).1
  exact ⟨hworker, rfl, rfl⟩

/-- A `set_phase` call that starts. -/
theorem step_setPhase {cfg : CkptConfig} {s t : PacedFlush}
    {new : TrainingPhase} (hstep : step cfg s (.setPhase new) = some t) :
    s.trainer = none ∧ t = { s with trainer := some (.call new) } := by
  obtain ⟨hidle, rfl⟩ := by simpa [PacedFlush.step] using hstep
  exact ⟨hidle, rfl⟩

/-- A statement of a `set_phase` call. -/
theorem step_trainer {cfg : CkptConfig} {s t : PacedFlush} {now : ℚ}
    (hstep : step cfg s (.trainer now) = some t) :
    ∃ pc r, s.trainer = some pc ∧
      setPhaseStep s.monitor false now pc = some r ∧
      t = { s with
        monitor := r.1
        trainer := r.2
        writes := if pc.stores then 0 else s.writes } := by
  cases hpc : s.trainer with
  | none => simp [PacedFlush.step, hpc] at hstep
  | some pc =>
      simp only [PacedFlush.step, hpc] at hstep
      obtain ⟨r, hr, rfl⟩ := Option.map_eq_some_iff.mp hstep
      exact ⟨pc, r, rfl, hr, rfl⟩

/-- A step of the manager that is not the flush thread's. -/
theorem step_manager {cfg : CkptConfig} {s t : PacedFlush} {e : CkptEvent}
    (hstep : step cfg s (.manager e) = some t)
    (hother : s.heard (.manager e) = none) :
    ∃ manager, CheckpointManager.step { cfg with hasMonitor := true } s.manager
        e = some manager ∧
      manager.worker = s.manager.worker ∧
      manager.chunkBytes = s.manager.chunkBytes ∧ t = { s with manager } := by
  cases e with
  | worker i => cases hother
  | save k partialData data =>
      obtain ⟨manager, hmanager, rfl⟩ := Option.map_eq_some_iff.mp hstep
      have hmoved := hmanager
      obtain ⟨-, rfl⟩ := by simpa [CheckpointManager.step] using hmoved
      exact ⟨_, hmanager, rfl, rfl, rfl⟩
  | saver =>
      obtain ⟨manager, hmanager, rfl⟩ := Option.map_eq_some_iff.mp hstep
      have hframe := saverStep_frame hmanager
      exact ⟨manager, hmanager, hframe.worker, hframe.chunk, rfl⟩
  | shutdown =>
      obtain rfl := by
        simpa [PacedFlush.step, CheckpointManager.step] using hstep
      exact ⟨_, rfl, rfl, rfl, rfl⟩

/-- The other steps do not move the flush thread. -/
theorem step_unheard {cfg : CkptConfig} {s t : PacedFlush} {e : PacedEvent}
    (hstep : step cfg s e = some t) (hother : s.heard e = none) :
    t.manager.worker = s.manager.worker ∧
      t.manager.chunkBytes = s.manager.chunkBytes := by
  cases e with
  | setPhase new =>
      obtain ⟨-, rfl⟩ := step_setPhase hstep
      exact ⟨rfl, rfl⟩
  | trainer now =>
      obtain ⟨pc, r, -, -, rfl⟩ := step_trainer hstep
      exact ⟨rfl, rfl⟩
  | manager e =>
      obtain ⟨manager, -, hworker, hchunk, rfl⟩ := step_manager hstep hother
      exact ⟨hworker, hchunk⟩
  | rate est nccl ema => cases hother
  | gate allowed => cases hother

/-! ### One write in a phase -/

/-- How the flush thread comes to the statements that matter here: to a read
from a rate call, the first if it granted something, or the second; to a write
from a read; and to the second rate call through the gate. -/
theorem workerStep_into {cfg : CkptConfig} {s t : CkptState} {i : FlushInput}
    (hmonitor : cfg.hasMonitor = true)
    (hstep : workerStep cfg s i = some t) :
    (t.worker.writing = true →
      s.worker.writing = true ∧ s.worker.atWrite = false ∨
        ∃ est r, i = .rate est r ∧
          (0 < r ∨ s.worker.recomputing = true)) ∧
    (t.worker.recomputing = true → i = .gate true) := by
  have henters : t.worker.pacing = true → Enters cfg s i t.worker :=
    fun h => (enters_of_step hstep h).1
  generalize t.worker = w at henters ⊢
  refine ⟨fun hw => ?_, fun hw => ?_⟩
  · have hpacing : w.pacing = true := by
      cases w <;> first | rfl | cases hw
    cases henters hpacing with
    | blocked hpc hr | waits hpc | passes hpc => cases hw
    | unpaced hpc hnone => simp [hmonitor] at hnone
    | granted hpc hr => exact .inr ⟨_, _, rfl, .inl hr⟩
    | recomputed hpc => exact .inr ⟨_, _, rfl, .inr (by rw [hpc]; rfl)⟩
    | reading hpc hread | reads hpc hread hne =>
        exact .inl ⟨by rw [hpc]; rfl, by rw [hpc]; rfl⟩
  · have hpacing : w.pacing = true := by
      cases w <;> first | rfl | cases hw
    cases henters hpacing with
    | passes hpc => rfl
    | _ => cases hw

/-- The invariant. -/
structure Inv (s : PacedFlush) : Prop where
  /-- a call holds the lock only for a change of phase -/
  changes : ∀ pc, s.trainer = some pc → pc.holdsLock = true →
    pc.target ≠ s.monitor.phase
  /-- the gate is closed before the NCCL phase is stored -/
  closed : s.trainer = some (.storing .ncclComm) →
    s.monitor.ioAllowed = false
  /-- the gate is open in the NCCL phase only while `set_phase` leaves it -/
  opened : s.monitor.phase = .ncclComm → s.monitor.ioAllowed = true →
    s.trainer.any SetPhasePc.left = true
  /-- after one write, the flush thread is not about to write again, and can
  pass the gate only while the phase is being left -/
  quota : s.monitor.phase = .ncclComm →
    s.writes = 0 ∨
      s.writes = 1 ∧ s.manager.worker.writing = false ∧
        (s.manager.worker.recomputing = true →
          s.trainer.any SetPhasePc.left = true)

theorem inv_init {cfg : CkptConfig} {localDir lustreDir : Dir} :
    Inv (init cfg localDir lustreDir) where
  changes := by simp [init]
  closed := by simp [init]
  opened := by simp [init]
  quota := by simp [init]

theorem locked_of_left {s : PacedFlush}
    (h : s.trainer.any SetPhasePc.left = true) : s.locked = true := by
  unfold locked
  cases ht : s.trainer with
  | none => simp [ht] at h
  | some pc =>
      rw [ht] at h
      cases pc <;> simp_all [SetPhasePc.left, SetPhasePc.holdsLock]

theorem writing_of_atWrite {w : FlushPc} (h : w.atWrite = true) :
    w.writing = true := by
  cases w <;> simp_all [FlushPc.atWrite, FlushPc.writing]

theorem recomputing_of_atWrite {w : FlushPc} (h : w.atWrite = true) :
    w.recomputing = false := by
  cases w <;> simp_all [FlushPc.atWrite, FlushPc.recomputing]

/-- A step of the flush thread, which hears the truth from the monitor. -/
theorem Inv.flush {cfg : CkptConfig} {s t : PacedFlush} {i : FlushInput}
    (hs : Inv s)
    (hrate : ∀ est r, i = .rate est r → s.locked = false ∧
      (s.monitor.phase = .ncclComm → r = 0))
    (hgate : i = .gate true → s.monitor.ioAllowed = true)
    (hstep : s.flush cfg i = some t) : Inv t := by
  obtain ⟨manager, hworker, rfl⟩ := Option.map_eq_some_iff.mp hstep
  obtain ⟨hwriting, hrecomputing⟩ := workerStep_into rfl hworker
  refine ⟨hs.changes, hs.closed, hs.opened, fun hphase => ?_⟩
  dsimp only at hphase ⊢
  have hleft : manager.worker.recomputing = true →
      s.trainer.any SetPhasePc.left = true :=
    fun h => hs.opened hphase (hgate (hrecomputing h))
  rcases hs.quota hphase with h0 | ⟨h1, hnot, hpast⟩
  · cases hat : s.manager.worker.atWrite with
    | false => exact .inl (by simp [h0])
    | true =>
        refine .inr ⟨by simp [h0], ?_, hleft⟩
        by_contra hw
        rcases hwriting (by simpa using hw) with
          ⟨-, h⟩ | ⟨est, r, hi, hr | hr⟩
        · simp [hat] at h
        · exact hr.ne' ((hrate est r hi).2 hphase)
        · simp [recomputing_of_atWrite hat] at hr
  · have hat : s.manager.worker.atWrite = false := by
      by_contra h
      simp [writing_of_atWrite (by simpa using h)] at hnot
    refine .inr ⟨by simp [h1, hat], ?_, hleft⟩
    by_contra hw
    rcases hwriting (by simpa using hw) with
      ⟨h, -⟩ | ⟨est, r, hi, hr | hr⟩
    · simp [hnot] at h
    · exact hr.ne' ((hrate est r hi).2 hphase)
    · -- the second rate call has to wait for the lock
      have hlocked := locked_of_left (hpast hr)
      simp [(hrate est r hi).1] at hlocked

/-- A statement of `set_phase`. -/
theorem Inv.trainer {s : PacedFlush} (hs : Inv s) {pc : SetPhasePc} {now : ℚ}
    {r : PhaseMonitor × Option SetPhasePc} (hpc : s.trainer = some pc)
    (hstep : setPhaseStep s.monitor false now pc = some r) :
    Inv { s with
      monitor := r.1
      trainer := r.2
      writes := if pc.stores then 0 else s.writes } := by
  have hpast : s.trainer.any SetPhasePc.left = pc.left := by simp [hpc]
  cases pc with
  | call new =>
      have hrecomputing : s.monitor.phase = .ncclComm → s.writes = 0 ∨
          s.writes = 1 ∧ s.manager.worker.writing = false ∧
            s.manager.worker.recomputing = false := by
        intro hphase
        rcases hs.quota hphase with h0 | ⟨h1, hnot, h⟩
        · exact .inl h0
        · refine .inr ⟨h1, hnot, ?_⟩
          by_contra hr
          simp [hpast, SetPhasePc.left] at h
          simp [h] at hr
      by_cases hsame : s.monitor.phase = new
      · obtain rfl : (s.monitor, none) = r := by
          simpa [setPhaseStep, hsame] using hstep
        exact
          { changes := by simp
            closed := by simp
            opened := fun hphase hopen => by
              have h := hs.opened hphase hopen
              simp [hpast, SetPhasePc.left] at h
            quota := fun hphase => by
              simpa [SetPhasePc.stores] using hrecomputing hphase }
      · obtain rfl : (s.monitor, some (.leaving new now)) = r := by
          simpa [setPhaseStep, hsame] using hstep
        exact
          { changes := by
              rintro _ ⟨⟩ -
              exact fun h => hsame h.symm
            closed := by simp
            opened := fun hphase hopen => by
              have h := hs.opened hphase hopen
              simp [hpast, SetPhasePc.left] at h
            quota := fun hphase => by
              simpa [SetPhasePc.stores, SetPhasePc.left] using
                hrecomputing hphase }
  | leaving new now' =>
      have hne := hs.changes _ hpc rfl
      obtain rfl : (s.monitor.leavePhase now',
          some (SetPhasePc.entering new now')) = r := by
        simpa [setPhaseStep] using hstep
      exact
        { changes := by
            rintro _ ⟨⟩ -
            simpa [SetPhasePc.target] using hne
          closed := by simp
          opened := fun _ _ => rfl
          quota := fun hphase => by
            rcases hs.quota (by simpa using hphase) with h0 | ⟨h1, hnot, -⟩
            · exact .inl h0
            · exact .inr ⟨h1, hnot, fun _ => rfl⟩ }
  | entering new now' =>
      have hne := hs.changes _ hpc rfl
      obtain rfl : (s.monitor.enterPhase new now',
          some (SetPhasePc.storing new)) = r := by
        simpa [setPhaseStep] using hstep
      exact
        { changes := by
            rintro _ ⟨⟩ -
            simpa [SetPhasePc.target] using hne
          closed := by
            intro h
            obtain rfl : new = .ncclComm := by simpa using h
            rfl
          opened := fun _ _ => rfl
          quota := fun hphase => by
            rcases hs.quota (by simpa using hphase) with h0 | ⟨h1, hnot, -⟩
            · exact .inl h0
            · exact .inr ⟨h1, hnot, fun _ => rfl⟩ }
  | storing new =>
      obtain rfl : (s.monitor.storePhase new, none) = r := by
        simpa [setPhaseStep] using hstep
      exact
        { changes := by simp
          closed := by simp
          opened := fun hphase hopen => by
            obtain rfl : new = .ncclComm := hphase
            have hclosed := hs.closed hpc
            simp_all
          quota := fun _ => .inl rfl }

theorem Inv.withManager {s : PacedFlush} (hs : Inv s) {manager : CkptState}
    (hworker : manager.worker = s.manager.worker) :
    Inv { s with manager } where
  changes := hs.changes
  closed := hs.closed
  opened := hs.opened
  quota := by simpa only [hworker] using hs.quota

theorem Inv.step {cfg : CkptConfig} {s t : PacedFlush} {e : PacedEvent}
    (hs : Inv s) (hstep : step cfg s e = some t) : Inv t := by
  cases hheard : s.heard e with
  | some i =>
      obtain ⟨hflush, hrate, hgate⟩ := step_flush hstep hheard
      exact hs.flush hrate hgate hflush
  | none =>
      cases e with
      | setPhase new =>
          obtain ⟨hidle, rfl⟩ := step_setPhase hstep
          exact
            { changes := by rintro _ ⟨⟩ h; cases h
              closed := by simp
              opened := fun hphase hopen => by
                have h := hs.opened hphase hopen
                simp [hidle] at h
              quota := fun hphase => by
                refine (hs.quota hphase).imp_right fun ⟨h1, hnot, h⟩ =>
                  ⟨h1, hnot, fun hr => ?_⟩
                have hleft := h hr
                simp [hidle] at hleft }
      | trainer now =>
          obtain ⟨pc, r, hpc, hr, rfl⟩ := step_trainer hstep
          exact hs.trainer hpc hr
      | manager e =>
          obtain ⟨manager, -, hworker, -, rfl⟩ := step_manager hstep hheard
          exact hs.withManager hworker
      | rate est nccl ema => cases hheard
      | gate allowed => cases hheard

/-- **At most one chunk write per NCCL phase.**  In every reachable state of
an NCCL phase, at most one chunk write has started since the phase began. -/
theorem one_write_per_nccl_phase {cfg : CkptConfig} {localDir lustreDir : Dir}
    {s : PacedFlush}
    (hrun : Runs.Reachable (step cfg) (init cfg localDir lustreDir) s)
    (hphase : s.monitor.phase = .ncclComm) : s.writes ≤ 1 := by
  have hinv : Inv s := hrun.invariant inv_init fun _ _ _ hs _ => hs.step
  rcases hinv.quota hphase with h | ⟨h, -⟩ <;> omega

/-- The bound is attained: the flush thread has read a chunk when the training
thread enters the NCCL phase. -/
theorem one_write_per_nccl_phase_attained :
    ∃ s, Runs.Reachable (step {})
        (init {} (fun _ => none) (fun _ => none)) s ∧
      s.monitor.phase = .ncclComm ∧ 0 < s.writes ∧ s.writes ≤ 1 := by
  obtain ⟨s, hrun, hphase, hpos⟩ : ∃ s, Runs.Reachable (step {})
        (init {} (fun _ => none) (fun _ => none)) s ∧
      s.monitor.phase = .ncclComm ∧ 0 < s.writes :=
    Runs.Reachable.exists_of_exec
      ((CkptEvent.save 7 [] [1, 1] :: List.replicate 3 .saver ++
          List.replicate 5 (CkptEvent.worker .next) ++
          [CkptEvent.worker (.target none)]).map .manager ++
        [.rate 1000000000 0 0, .manager (.worker .next),
          .manager (.worker (.raw 8192)), .manager (.worker (.raw 8192)),
          .setPhase .ncclComm, .trainer 0, .trainer 0, .trainer 0,
          .trainer 0, .manager (.worker .next)])
      (by decide +kernel)
  exact ⟨s, hrun, hphase, hpos, one_write_per_nccl_phase hrun hphase⟩

end PacedFlush

end Tempo
