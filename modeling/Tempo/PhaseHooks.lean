import Mathlib.Data.NNRat.Defs
import Tempo.InterleavingEngine
import Tempo.PhaseBlocks

/-!
# The hooks of the I/O gate

`TEMPOSchedulerV2` puts the two notifications of the interleaving engine in front
of the `set` and the `clear` of the I/O gate.  `set_phase` calls `set` when it
leaves NCCL_COMM, whatever phase comes next, and `clear` when it enters
NCCL_COMM, whatever phase came before.  So the window of the engine is the time
from one NCCL phase to the next, and its length is passed on as that of a compute
phase.
-/

namespace Tempo

open Runs

/-- A value passed to `update_compute`, by the call that at `ended` enters
NCCL_COMM and leaves `phase`, entered at `since`. -/
structure FedValue where
  durMs : ℚ
  phase : TrainingPhase
  since : ℚ
  ended : ℚ
  deriving DecidableEq

/-- The value is the length of the compute phase that has ended. -/
def FedValue.OfCompute (f : FedValue) : Prop :=
  f.phase = .compute ∧ f.durMs = (f.ended - f.since) * 1000

/-- The monitor with the hooks of the engine, and the history of the clock:
`phaseSince` is when the phase was entered, and `leftNccl` when NCCL_COMM was
left last. -/
structure HookedMonitor where
  monitor : PhaseMonitor := {}
  engine : InterleavingEngine
  now : ℚ
  phaseSince : ℚ
  leftNccl : Option ℚ := none
  fed : List FedValue := []

inductive HookEvent
  /-- a call of `set_phase`, with the time that passes before it -/
  | setPhase (new : TrainingPhase) (wait : ℚ≥0)
  /-- a deadline timer goes off, if it is armed -/
  | timer (window : Nat)
  /-- its callback, if it waits for the lock -/
  | fireDeadline (window : Nat)

namespace InterleavingEngine

variable {s : InterleavingEngine} {sqrt : ℚ → ℚ} {now : ℚ}

/-- What `on_compute_end` passes to `update_compute`. -/
def learns (s : InterleavingEngine) (now : ℚ) : Option ℚ :=
  if s.inCompute then some ((now - s.computeStart) * 1000) else none

theorem onComputeEnd_predictor : (s.onComputeEnd now).predictor =
    (s.learns now).elim s.predictor s.predictor.updateCompute := by
  unfold onComputeEnd closeWindow learns
  dsimp only
  split <;> split <;> rfl

@[simp] theorem onComputeStart_inCompute :
    (s.onComputeStart sqrt now).inCompute = true := by
  unfold onComputeStart
  split <;> rfl

@[simp] theorem onComputeStart_computeStart :
    (s.onComputeStart sqrt now).computeStart = now := by
  unfold onComputeStart
  split <;> rfl

@[simp] theorem onComputeEnd_inCompute :
    (s.onComputeEnd now).inCompute = false := by
  unfold onComputeEnd closeWindow
  dsimp only
  split
  · split <;> simp_all
  · split <;> simp_all

end InterleavingEngine

namespace HookedMonitor

/-- `TEMPOSchedulerV2` is built at `clock`. -/
def start (predictor : PhaseDurationPredictor) (clock : ℚ) : HookedMonitor :=
  { engine := .init predictor
    now := clock
    phaseSince := clock }

/-- `set_phase` at the time `clock`, with the hooks. -/
def setPhase (sqrt : ℚ → ℚ) (s : HookedMonitor) (new : TrainingPhase)
    (clock : ℚ) : HookedMonitor :=
  if s.monitor.phase = new then { s with now := clock }
  else
    let s :=
      if s.monitor.phase = .ncclComm then
        { s with
          engine := s.engine.onComputeStart sqrt clock
          leftNccl := some clock }
      else s
    let s :=
      if new = .ncclComm then
        { s with
          engine := s.engine.onComputeEnd clock
          fed := s.fed ++ ((s.engine.learns clock).map fun durMs =>
            { durMs, phase := s.monitor.phase, since := s.phaseSince,
              ended := clock }).toList }
      else s
    { s with
      monitor := s.monitor.setPhase new clock
      now := clock
      phaseSince := clock }

def step (sqrt : ℚ → ℚ) (s : HookedMonitor) : HookEvent → Option HookedMonitor
  | .setPhase new wait => some (s.setPhase sqrt new (s.now + wait))
  | .timer window =>
      some { s with engine := (s.engine.step sqrt (.timer window)).getD s.engine }
  | .fireDeadline window =>
      some { s with
        engine := (s.engine.step sqrt (.fireDeadline window)).getD s.engine }

/-- Compute durations only have been passed on. -/
def LearnsCompute (s : HookedMonitor) : Prop :=
  ∀ f ∈ s.fed, f.OfCompute

/-- A call that enters NCCL_COMM comes, unless it is the first to do so, out of a
compute phase that was entered when NCCL_COMM was left. -/
def Direct (s : HookedMonitor) : HookEvent → Prop
  | .setPhase new _ =>
      new = .ncclComm → s.monitor.phase ≠ .ncclComm →
        ∀ left ∈ s.leftNccl, s.monitor.phase = .compute ∧ s.phaseSince = left
  | _ => True

instance Direct.decidable (s : HookedMonitor) : ∀ e, Decidable (s.Direct e)
  | .setPhase _ _ =>
      inferInstanceAs (Decidable (_ → _ → ∀ left ∈ s.leftNccl, _ ∧ _ = left))
  | .timer _ | .fireDeadline _ => isTrue trivial

/-- The window is open from one NCCL phase to the next. -/
structure Hooked (s : HookedMonitor) : Prop where
  closed : s.monitor.phase = .ncclComm → s.engine.inCompute = false
  opened : s.monitor.phase ≠ .ncclComm →
    s.engine.inCompute = s.leftNccl.isSome
  opened_at : s.monitor.phase ≠ .ncclComm →
    ∀ left ∈ s.leftNccl, s.engine.computeStart = left

variable {sqrt : ℚ → ℚ} {s t : HookedMonitor} {new : TrainingPhase} {clock : ℚ}

theorem setPhase_same (h : s.monitor.phase = new) :
    s.setPhase sqrt new clock = { s with now := clock } :=
  if_pos h

/-- NCCL_COMM is left: a window is opened. -/
theorem setPhase_leave (h : s.monitor.phase = .ncclComm) (hnew : new ≠ .ncclComm) :
    s.setPhase sqrt new clock =
      { s with
        engine := s.engine.onComputeStart sqrt clock
        leftNccl := some clock
        monitor := s.monitor.setPhase new clock
        now := clock
        phaseSince := clock } := by
  unfold setPhase
  dsimp only
  rw [if_neg (by rw [h]; exact hnew.symm), if_pos h, if_neg hnew]

/-- NCCL_COMM is entered: the window is closed. -/
theorem setPhase_enter (h : s.monitor.phase ≠ .ncclComm) :
    s.setPhase sqrt .ncclComm clock =
      { s with
        engine := s.engine.onComputeEnd clock
        fed := s.fed ++ ((s.engine.learns clock).map fun durMs =>
          { durMs, phase := s.monitor.phase, since := s.phaseSince,
            ended := clock }).toList
        monitor := s.monitor.setPhase .ncclComm clock
        now := clock
        phaseSince := clock } := by
  unfold setPhase
  dsimp only
  rw [if_neg h, if_neg h, if_pos rfl]

/-- Other phases have no hook. -/
theorem setPhase_other (h : s.monitor.phase ≠ .ncclComm) (hnew : new ≠ .ncclComm)
    (hne : s.monitor.phase ≠ new) :
    s.setPhase sqrt new clock =
      { s with
        monitor := s.monitor.setPhase new clock
        now := clock
        phaseSince := clock } := by
  unfold setPhase
  dsimp only
  rw [if_neg hne, if_neg h, if_neg hnew]

theorem Hooked.setPhase (h : s.Hooked) : (s.setPhase sqrt new clock).Hooked := by
  by_cases hsame : s.monitor.phase = new
  · rw [setPhase_same hsame]
    exact ⟨h.closed, h.opened, h.opened_at⟩
  by_cases hleave : s.monitor.phase = .ncclComm
  · have hnew : new ≠ .ncclComm := fun heq => hsame (hleave.trans heq.symm)
    rw [setPhase_leave hleave hnew]
    have hphase := PhaseMonitor.setPhase_phase s.monitor new clock
    refine ⟨fun hin => absurd (hphase.symm.trans hin) hnew, fun _ => ?_,
      fun _ left hleft => ?_⟩
    · exact InterleavingEngine.onComputeStart_inCompute
    · obtain rfl := Option.some.inj hleft
      exact InterleavingEngine.onComputeStart_computeStart
  by_cases hnew : new = .ncclComm
  · subst hnew
    rw [setPhase_enter hleave]
    have hphase := PhaseMonitor.setPhase_phase s.monitor .ncclComm clock
    exact ⟨fun _ => InterleavingEngine.onComputeEnd_inCompute,
      fun hout => absurd hphase hout, fun hout => absurd hphase hout⟩
  · rw [setPhase_other hleave hnew hsame]
    have hphase := PhaseMonitor.setPhase_phase s.monitor new clock
    exact ⟨fun hin => absurd (hphase.symm.trans hin) hnew,
      fun _ => h.opened hleave, fun _ => h.opened_at hleave⟩

/-- A timer leaves the window as it is. -/
theorem Hooked.timer (h : s.Hooked) {e : InterleavingEngine.Event}
    (he : (∃ window, e = .timer window) ∨ ∃ window, e = .fireDeadline window) :
    Hooked { s with engine := (s.engine.step sqrt e).getD s.engine } := by
  have hframe : ((s.engine.step sqrt e).getD s.engine).inCompute =
        s.engine.inCompute ∧
      ((s.engine.step sqrt e).getD s.engine).computeStart = s.engine.computeStart := by
    rcases he with ⟨window, rfl⟩ | ⟨window, rfl⟩
    · unfold InterleavingEngine.step
      dsimp only
      split
      · exact ⟨rfl, rfl⟩
      · exact ⟨rfl, rfl⟩
    · unfold InterleavingEngine.step
      dsimp only
      split
      · exact ⟨rfl, rfl⟩
      · exact ⟨rfl, rfl⟩
  obtain ⟨hin, hstart⟩ := hframe
  exact ⟨fun hphase => hin.trans (h.closed hphase),
    fun hphase => hin.trans (h.opened hphase),
    fun hphase left hleft => hstart.trans (h.opened_at hphase left hleft)⟩

/-- What `on_compute_end` passes on when NCCL_COMM is entered is the time since
it was left. -/
theorem Hooked.learns (h : s.Hooked) (hout : s.monitor.phase ≠ .ncclComm) :
    s.engine.learns clock = s.leftNccl.map fun left => (clock - left) * 1000 := by
  unfold InterleavingEngine.learns
  rw [h.opened hout]
  cases hleft : s.leftNccl with
  | none => rfl
  | some left =>
      rw [h.opened_at hout left hleft]
      rfl

/-- Apart from entering NCCL_COMM, nothing is passed on. -/
theorem setPhase_fed (h : ¬ (new = .ncclComm ∧ s.monitor.phase ≠ .ncclComm)) :
    (s.setPhase sqrt new clock).fed = s.fed := by
  by_cases hsame : s.monitor.phase = new
  · rw [setPhase_same hsame]
  have hnew : new ≠ .ncclComm := fun heq => h ⟨heq, heq ▸ hsame⟩
  by_cases hleave : s.monitor.phase = .ncclComm
  · rw [setPhase_leave hleave hnew]
  · rw [setPhase_other hleave hnew hsame]

/-- A call of `set_phase` passes on compute durations only exactly when it is
direct. -/
theorem Hooked.learnsCompute_iff (h : s.Hooked) (sqrt : ℚ → ℚ)
    (new : TrainingPhase) (wait : ℚ≥0) (hs : s.LearnsCompute) :
    (s.setPhase sqrt new (s.now + wait)).LearnsCompute ↔
      s.Direct (.setPhase new wait) := by
  by_cases henter : new = .ncclComm ∧ s.monitor.phase ≠ .ncclComm
  · obtain ⟨rfl, hout⟩ := henter
    have hdirect : s.Direct (.setPhase .ncclComm wait) ↔
        ∀ left ∈ s.leftNccl, s.monitor.phase = .compute ∧ s.phaseSince = left :=
      ⟨fun hd => hd rfl hout, fun hd _ _ => hd⟩
    have hold : ∀ f ∈ s.fed, f.OfCompute := hs
    rw [setPhase_enter hout, hdirect]
    unfold LearnsCompute
    dsimp only
    rw [h.learns hout, List.forall_mem_append, and_iff_right hold]
    cases s.leftNccl with
    | none => simp
    | some left =>
        simp [FedValue.OfCompute, eq_comm]
  · have hdirect : s.Direct (.setPhase new wait) := fun hnew hout =>
      absurd ⟨hnew, hout⟩ henter
    unfold LearnsCompute
    rw [setPhase_fed henter]
    exact iff_of_true hs hdirect

/-- **The predictor learns compute durations only**, in every state of a run,
exactly when each entry of NCCL_COMM is direct. -/
theorem learnsCompute_iff_direct (sqrt : ℚ → ℚ) (predictor : PhaseDurationPredictor)
    (clock : ℚ) (events : List HookEvent) :
    (∀ pre, pre <+: events →
      ∀ s ∈ exec (step sqrt) (start predictor clock) pre, s.LearnsCompute) ↔
    Meets (step sqrt) Direct (start predictor clock) events := by
  apply Meets.iff_prefixes_of_kept (P := LearnsCompute)
    (Q := fun s => s.Hooked ∧ s.LearnsCompute) (fun _ hs => hs.2)
  · refine ⟨⟨fun _ => rfl, fun _ => rfl, fun _ left hleft => ?_⟩, fun f hf => ?_⟩
    · cases hleft
    · cases hf
  · rintro s e ⟨hs, hlearns⟩
    cases e with
    | setPhase new wait =>
        have hiff := hs.learnsCompute_iff sqrt new wait hlearns
        exact ⟨_, rfl, hiff.mp, fun hd => ⟨hs.setPhase, hiff.mpr hd⟩⟩
    | timer window =>
        exact ⟨_, rfl, fun _ => trivial,
          fun _ => ⟨hs.timer (.inl ⟨window, rfl⟩), hlearns⟩⟩
    | fireDeadline window =>
        exact ⟨_, rfl, fun _ => trivial,
          fun _ => ⟨hs.timer (.inr ⟨window, rfl⟩), hlearns⟩⟩

/-- NCCL, then a second idle, then NCCL again. -/
def idleEvents : List HookEvent :=
  [.setPhase .ncclComm 0, .setPhase .idle 1, .setPhase .ncclComm 1]

/-- The idle time is passed on as that of a compute phase. -/
theorem learns_idle :
    ¬ ∀ (sqrt : ℚ → ℚ) (predictor : PhaseDurationPredictor) (clock : ℚ)
        (events : List HookEvent),
      ∀ s ∈ exec (step sqrt) (start predictor clock) events, s.LearnsCompute := by
  intro hall
  obtain ⟨s, hs, hfed⟩ : ∃ s ∈ exec (step id) (start {} 0) idleEvents,
      s.fed = [⟨1000, .idle, 1, 2⟩] := by
    decide +kernel
  have hcompute := hall id {} 0 idleEvents s hs ⟨1000, .idle, 1, 2⟩ (by simp [hfed])
  exact absurd hcompute.1 (by decide)

end HookedMonitor

end Tempo
