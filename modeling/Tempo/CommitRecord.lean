import Mathlib.Data.List.MinMax
import Tempo.CheckpointManager
import Tempo.MilestoneGate

/-!
# What the service gain knows of landed flushes

`TEMPOSchedulerV2` asks the service gain about a step and hands the step to the
checkpoint manager, whose flush thread copies it to Lustre.  The gain of a later
step is to be measured from the last step that has landed there, which
`mark_committed` is for.  Neither the scheduler nor the manager calls it: the
record of the service gain stays at step 0, whatever lands.

Here the scheduler is put together with its manager.  `landed` is a history: the
steps whose files have been renamed to their final path.
-/

namespace Tempo

open Runs

namespace CheckpointManager

/-- The step that lands with a statement of the flush thread: the rename of a
temporary file that is there. -/
def landing (s : CkptState) (i : FlushInput) : Option Int :=
  match s.worker, i with
  | .rename job _, .next =>
      (s.lustreDir (tmpName job.remoteName)).map fun _ => job.step
  | _, _ => none

end CheckpointManager

/-- A V2 scheduler with its checkpoint manager. -/
structure CommitRecord where
  sched : Scheduler
  manager : CkptState
  landed : List Int := []

namespace CommitRecord

inductive Event where
  /-- the step, and whether the network monitor finds the link congested, if
  there is one -/
  | onStepBegin (step : Int) (congested : Option Bool)
  /-- with what `torch.save` has written when the file is open, and in the
  end -/
  | checkpoint (step : Int) (env : CkptEnv) (partialData data : Bytes)
  /-- the next statement of `save_async` -/
  | saver
  /-- the next statement of the flush thread -/
  | worker (i : FlushInput)
  | shutdown

/-- A new scheduler in mode `tempo`, with a service gain. -/
def init (milestoneInterval : Int) (ckpt : CkptConfig)
    (localDir lustreDir : Dir) : CommitRecord :=
  { sched :=
      .init (some (.ofMilestone milestoneInterval)) none none none
    manager := CheckpointManager.init ckpt localDir lustreDir }

variable (cfg : SchedConfig) (ckpt : CkptConfig) (s : CommitRecord)

/-- `on_step_begin`, as far as the service gain sees it. -/
def onStepBegin (step : Int) (congested : Option Bool) : CommitRecord :=
  let sched := { s.sched with
    svcGain := s.sched.svcGain.map (·.updateStep step) }
  match congested with
  | none => { s with sched }
  | some flag =>
      { s with
        sched := { sched with
          svcGain := sched.svcGain.map (·.setCongested flag) } }

/-- `checkpoint`, up to the opening of the file in `save_async` if it comes to
that. -/
def checkpoint (step : Int) (env : CkptEnv) (partialData data : Bytes) :
    Option CommitRecord :=
  let called := (Scheduler.checkpointV2 { cfg with mode := .tempo } s.sched step
    env.metadata env).1
  if called.saved = s.sched.saved then some { s with sched := called }
  else
    (CheckpointManager.step ckpt s.manager (.save step partialData data)).map
      fun manager => { s with sched := called, manager }

/-- One step of the training thread or of the flush thread. -/
def step : Event → Option CommitRecord
  | .onStepBegin step congested =>
      if s.manager.saver = .idle then some (s.onStepBegin step congested)
      else none
  | .checkpoint step env partialData data =>
      if s.manager.saver = .idle then
        s.checkpoint cfg ckpt step env partialData data
      else none
  | .saver =>
      (CheckpointManager.step ckpt s.manager .saver).map fun manager =>
        { s with manager }
  | .worker i =>
      (CheckpointManager.step ckpt s.manager (.worker i)).map fun manager =>
        { s with
          manager
          landed := s.landed ++ (CheckpointManager.landing s.manager i).toList }
  | .shutdown =>
      (CheckpointManager.step ckpt s.manager .shutdown).map fun manager =>
        { s with manager }

/-- No `_do_flush` is running. -/
def NoFlush : Prop := s.manager.worker.job? = none

/-- `svc_gain._last_committed_step` -/
def lastCommittedStep : Option Int :=
  s.sched.svcGain.map (·.lastCommittedStep)

/-- The largest step that has landed, 0 if none has. -/
def largestLanded : Int := s.landed.max?.getD 0

variable {cfg ckpt s} {t : CommitRecord}

/-- The service gain has not been told of any step. -/
def Untold (g : ServiceGain ℚ) : Prop := g.lastCommittedStep = 0

theorem gainKept_untold (exp : ℚ → ℚ) : Scheduler.GainKept exp Untold where
  updateStep _ _ h := h
  submitJob g n now h := by
    unfold ServiceGain.submitJob
    dsimp only
    cases (g.openJob n).computeGain exp n with
    | none => exact h
    | some gain =>
        unfold ServiceGain.closeJob
        dsimp only
        split
        · exact h
        · split <;> exact h

theorem untold_step {e : Event} (h : s.sched.GainHas Untold)
    (hstep : s.step cfg ckpt e = some t) : t.sched.GainHas Untold := by
  cases e with
  | onStepBegin step congested =>
      obtain ⟨-, rfl⟩ := by simpa [CommitRecord.step] using hstep
      have hupdated := h.map (f := (·.updateStep step)) fun g hg => hg
      cases congested with
      | none => exact hupdated
      | some flag => exact hupdated.map (f := (·.setCongested flag)) fun g hg => hg
  | checkpoint step env partialData data =>
      simp only [CommitRecord.step] at hstep
      split at hstep
      · have hcalled : (Scheduler.checkpointV2 { cfg with mode := .tempo }
            s.sched step env.metadata env).1.GainHas Untold :=
          h.checkpointV2 (gainKept_untold cfg.exp)
        unfold CommitRecord.checkpoint at hstep
        dsimp only at hstep
        split at hstep
        · obtain rfl := Option.some.inj hstep
          exact hcalled
        · obtain ⟨manager, -, rfl⟩ := Option.map_eq_some_iff.mp hstep
          exact hcalled
      · cases hstep
  | saver | worker i =>
      obtain ⟨manager, -, rfl⟩ := Option.map_eq_some_iff.mp hstep
      exact h
  | shutdown =>
      obtain rfl := Option.some.inj hstep
      exact h

/-- When the largest step is 0. -/
theorem largestLanded_eq_zero_iff :
    s.largestLanded = 0 ↔
      s.landed = [] ∨ 0 ∈ s.landed ∧ ∀ n ∈ s.landed, n ≤ 0 := by
  unfold largestLanded
  cases hmax : s.landed.max? with
  | none => simp [List.max?_eq_none_iff.mp hmax]
  | some n =>
      obtain ⟨hmem, hle⟩ := List.max?_eq_some_iff.mp hmax
      have hne : s.landed ≠ [] := List.ne_nil_of_mem hmem
      simp only [Option.getD_some, hne, false_or]
      constructor
      · rintro rfl
        exact ⟨hmem, hle⟩
      · rintro ⟨hzero, hbound⟩
        exact le_antisymm (hbound n hmem) (hle 0 hzero)

/-- **The service gain knows what has landed only as long as it is step 0.**  In
every state that a scheduler reaches, with a flush in progress or not, the
record agrees with the largest step landed exactly when none has, or when that
is step 0. -/
theorem committed_iff (cfg : SchedConfig) (ckpt : CkptConfig)
    (milestoneInterval : Int) (localDir lustreDir : Dir) (s : CommitRecord)
    (hrun : Reachable (step cfg ckpt)
      (init milestoneInterval ckpt localDir lustreDir) s) :
    s.lastCommittedStep = some s.largestLanded ↔
      s.landed = [] ∨ 0 ∈ s.landed ∧ ∀ n ∈ s.landed, n ≤ 0 := by
  obtain ⟨g, hg, huntold⟩ : s.sched.GainHas Untold := by
    apply hrun.invariant ⟨_, rfl, rfl⟩
    intro s e t hs _ hstep
    exact untold_step hs hstep
  have hzero : s.lastCommittedStep = some 0 := by
    unfold lastCommittedStep
    rw [hg, Option.map_some, huntold]
  rw [hzero, ← largestLanded_eq_zero_iff, Option.some.injEq, eq_comm]

/-- A checkpoint of one byte is saved and flushed. -/
def oneFlush (n : Int) : List Event :=
  [Event.checkpoint n {} [] [7]] ++ List.replicate 5 Event.saver ++
    List.replicate 5 (Event.worker .next) ++
    [.worker (.target none), .worker .next, .worker .next, .worker (.raw 8192),
      .worker (.raw 8192), .worker .next, .worker (.target none), .worker .next,
      .worker .next, .worker (.raw 8192)] ++
    List.replicate 4 (Event.worker .next)

/-- Step 1 has landed, no flush is in progress, and the record says 0. -/
theorem landed_not_committed :
    ¬ ∀ (cfg : SchedConfig) (ckpt : CkptConfig) (milestoneInterval : Int)
      (localDir lustreDir : Dir) (s : CommitRecord),
      Reachable (step cfg ckpt)
        (init milestoneInterval ckpt localDir lustreDir) s →
      s.NoFlush → s.lastCommittedStep = some s.largestLanded := by
  intro hall
  obtain ⟨s, hrun, hidle, hrecord, hlanded⟩ :
      ∃ s, Reachable (step Scheduler.routedConfig {})
          (init 500 {} (fun _ => none) fun _ => none) s ∧
        s.manager.worker.job? = none ∧ s.lastCommittedStep = some 0 ∧
        s.largestLanded = 1 :=
    Reachable.exists_of_exec (oneFlush 1) (by decide +kernel)
  have hagree := hall _ _ _ _ _ s hrun hidle
  rw [hrecord, hlanded] at hagree
  cases hagree

/-- Step 0 has landed. -/
theorem committed_zero :
    ∃ s : CommitRecord, s.landed = [0] ∧ s.NoFlush ∧
      s.lastCommittedStep = some s.largestLanded := by
  obtain ⟨s, hrun, hidle, hlanded⟩ :
      ∃ s, Reachable (step Scheduler.routedConfig {})
          (init 500 {} (fun _ => none) fun _ => none) s ∧
        s.manager.worker.job? = none ∧ s.landed = [0] :=
    Reachable.exists_of_exec (oneFlush 0) (by decide +kernel)
  refine ⟨s, hlanded, hidle, ?_⟩
  apply (committed_iff _ _ _ _ _ s hrun).2
  simp [hlanded]

end CommitRecord

end Tempo
