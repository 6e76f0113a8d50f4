import Tempo.ChunkWrites

/-!
# The flush thread inside `checkpoint_phase()`

`TEMPOScheduler.checkpoint` in mode `tempo` calls `save_async` inside the
`checkpoint_phase()` block.  The block's documentation says that the background
flush is paused for it, and `set_phase(CHECKPOINT)` is all it does to that end:
the gate is cleared for the NCCL phase only, and the rate is zeroed for the NCCL
phase only.  So the gate is open in the whole block (`block_unpaused`), and the
copy loop goes on there as fast as the interleaving lets it.  What bounds the writes in
a block is what is left to copy when it is entered (`one_write_per_block`).

The training thread is the only caller of `set_phase` here.  Outside
`checkpoint` it sets any phase at any time.
-/

namespace Tempo

/-- Where the training thread stands in `checkpoint(state_dict, step)`, with
what `torch.save` will write. -/
inductive CheckpointPc
  /-- in `set_phase(CHECKPOINT)` -/
  | entering (step : Int) (partialData data : Bytes)
  /-- in the block, before `save_async` -/
  | entered (step : Int) (partialData data : Bytes)
  /-- in the block, `save_async` called -/
  | saving
  /-- in the `set_phase(IDLE)` of the `finally` -/
  | leaving
  deriving DecidableEq

/-- Between the `yield` of `checkpoint_phase` and its `finally`. -/
def CheckpointPc.inside : CheckpointPc → Bool
  | .entered _ _ _ => true
  | .saving => true
  | _ => false

/-- A step of the flush thread. -/
def PacedEvent.ofFlusher : PacedEvent → Bool
  | .manager (.worker _) => true
  | .rate _ _ _ => true
  | .gate _ => true
  | _ => false

/-- A scheduler in mode `tempo`.  `blockWrites` counts the chunk writes started
in the block of the running `checkpoint` call, or of the last one. -/
structure BlockFlush where
  paced : PacedFlush
  checkpoint : Option CheckpointPc := none
  blockWrites : Nat := 0

inductive BlockEvent
  /-- the training thread calls `set_phase` outside `checkpoint` -/
  | setPhase (new : TrainingPhase)
  /-- it calls `checkpoint` -/
  | checkpoint (step : Int) (partialData data : Bytes)
  /-- the next statement of its `set_phase` call -/
  | trainer (now : ℚ)
  /-- `save_async` is called in the block -/
  | save
  /-- the next statement of `save_async` -/
  | saver
  /-- `save_async` has returned -/
  | leave
  /-- `save_async` raises where it stands -/
  | raise
  /-- a step of the flush thread -/
  | flusher (e : PacedEvent)
  /-- `shutdown` sets the stop flag -/
  | shutdown

namespace BlockFlush

def init (cfg : CkptConfig) (localDir lustreDir : Dir) : BlockFlush :=
  { paced := PacedFlush.init cfg localDir lustreDir }

/-- The training thread is inside the block. -/
def inBlock (s : BlockFlush) : Bool := s.checkpoint.any CheckpointPc.inside

/-- The `finally` of the block calls `set_phase(IDLE)`. -/
def finish (s : BlockFlush) : BlockFlush :=
  { s with
    paced :=
      { s.paced with
        trainer := some (.call .idle)
        manager := { s.paced.manager with saver := .idle } }
    checkpoint := some .leaving }

/-- After a statement of `set_phase`: when the call has returned, the block
begins or `checkpoint` ends. -/
def afterTrainer (s : BlockFlush) (paced : PacedFlush) : BlockFlush :=
  if paced.trainer.isSome then { s with paced }
  else
    match s.checkpoint with
    | some (.entering k partialData data) =>
        { paced
          checkpoint := some (.entered k partialData data)
          blockWrites := 0 }
    | some .leaving => { s with paced, checkpoint := none }
    | _ => { s with paced }

@[simp] theorem afterTrainer_paced (s : BlockFlush) (paced : PacedFlush) :
    (s.afterTrainer paced).paced = paced := by
  unfold afterTrainer
  split
  · rfl
  · split <;> rfl

/-- A step of the flush thread, counting the write it starts in a block. -/
def flusher (cfg : CkptConfig) (s : BlockFlush) (e : PacedEvent) :
    Option BlockFlush :=
  (PacedFlush.step cfg s.paced e).map fun paced =>
    { s with
      paced
      blockWrites := s.blockWrites +
        (s.inBlock && s.paced.manager.worker.atWrite).toNat }

def step (cfg : CkptConfig) (s : BlockFlush) :
    BlockEvent → Option BlockFlush
  | .setPhase new =>
      if s.checkpoint = none then
        (PacedFlush.step cfg s.paced (.setPhase new)).map fun paced =>
          { s with paced }
      else none
  | .checkpoint k partialData data =>
      if s.checkpoint = none then
        (PacedFlush.step cfg s.paced (.setPhase .checkpoint)).map fun paced =>
          { s with
            paced
            checkpoint := some (.entering k partialData data) }
      else none
  | .trainer now =>
      (PacedFlush.step cfg s.paced (.trainer now)).map s.afterTrainer
  | .save =>
      match s.checkpoint with
      | some (.entered k partialData data) =>
          (PacedFlush.step cfg s.paced
            (.manager (.save k partialData data))).map fun paced =>
              { s with paced, checkpoint := some .saving }
      | _ => none
  | .saver =>
      if s.checkpoint = some .saving then
        (PacedFlush.step cfg s.paced (.manager .saver)).map fun paced =>
          { s with paced }
      else none
  | .leave =>
      if s.checkpoint = some .saving ∧ s.paced.manager.saver = .idle then
        some s.finish
      else none
  | .raise => if s.checkpoint = some .saving then some s.finish else none
  | .flusher e => if e.ofFlusher then s.flusher cfg e else none
  | .shutdown =>
      (PacedFlush.step cfg s.paced (.manager .shutdown)).map fun paced =>
        { s with paced }

/-- What each event does, and when it can happen. -/
inductive Moves (cfg : CkptConfig) (s : BlockFlush) : BlockEvent → BlockFlush → Prop
  | setPhase {new : TrainingPhase} {paced : PacedFlush}
      (hout : s.checkpoint = none)
      (hpaced : PacedFlush.step cfg s.paced (.setPhase new) = some paced) :
      Moves cfg s (.setPhase new) { s with paced }
  | checkpoint {k : Int} {partialData data : Bytes} {paced : PacedFlush}
      (hout : s.checkpoint = none)
      (hpaced :
        PacedFlush.step cfg s.paced (.setPhase .checkpoint) = some paced) :
      Moves cfg s (.checkpoint k partialData data)
        { s with paced, checkpoint := some (.entering k partialData data) }
  | trainer {now : ℚ} {paced : PacedFlush}
      (hpaced : PacedFlush.step cfg s.paced (.trainer now) = some paced) :
      Moves cfg s (.trainer now) (s.afterTrainer paced)
  | save {k : Int} {partialData data : Bytes} {paced : PacedFlush}
      (hentered : s.checkpoint = some (.entered k partialData data))
      (hpaced : PacedFlush.step cfg s.paced
        (.manager (.save k partialData data)) = some paced) :
      Moves cfg s .save { s with paced, checkpoint := some .saving }
  | saver {paced : PacedFlush} (hsaving : s.checkpoint = some .saving)
      (hpaced : PacedFlush.step cfg s.paced (.manager .saver) = some paced) :
      Moves cfg s .saver { s with paced }
  | leave (hsaving : s.checkpoint = some .saving)
      (hidle : s.paced.manager.saver = .idle) : Moves cfg s .leave s.finish
  | raise (hsaving : s.checkpoint = some .saving) : Moves cfg s .raise s.finish
  | flusher {e : PacedEvent} {paced : PacedFlush} (hflusher : e.ofFlusher = true)
      (hpaced : PacedFlush.step cfg s.paced e = some paced) :
      Moves cfg s (.flusher e)
        { s with
          paced
          blockWrites := s.blockWrites +
            (s.inBlock && s.paced.manager.worker.atWrite).toNat }
  | shutdown {paced : PacedFlush}
      (hpaced : PacedFlush.step cfg s.paced (.manager .shutdown) = some paced) :
      Moves cfg s .shutdown { s with paced }

theorem moves_of_step {cfg : CkptConfig} {s t : BlockFlush} {e : BlockEvent}
    (hstep : step cfg s e = some t) : Moves cfg s e t := by
  cases e with
  | setPhase new =>
      obtain ⟨hout, hstep⟩ := Option.ite_none_right_eq_some.mp hstep
      obtain ⟨paced, hpaced, rfl⟩ := Option.map_eq_some_iff.mp hstep
      exact .setPhase hout hpaced
  | checkpoint k partialData data =>
      obtain ⟨hout, hstep⟩ := Option.ite_none_right_eq_some.mp hstep
      obtain ⟨paced, hpaced, rfl⟩ := Option.map_eq_some_iff.mp hstep
      exact .checkpoint hout hpaced
  | trainer now =>
      obtain ⟨paced, hpaced, rfl⟩ := Option.map_eq_some_iff.mp hstep
      exact .trainer hpaced
  | save =>
      simp only [step] at hstep
      split at hstep
      next k partialData data hentered =>
        obtain ⟨paced, hpaced, rfl⟩ := Option.map_eq_some_iff.mp hstep
        exact .save hentered hpaced
      · cases hstep
  | saver =>
      obtain ⟨hsaving, hstep⟩ := Option.ite_none_right_eq_some.mp hstep
      obtain ⟨paced, hpaced, rfl⟩ := Option.map_eq_some_iff.mp hstep
      exact .saver hsaving hpaced
  | leave =>
      obtain ⟨⟨hsaving, hidle⟩, hstep⟩ := Option.ite_none_right_eq_some.mp hstep
      obtain rfl := Option.some.inj hstep
      exact .leave hsaving hidle
  | raise =>
      obtain ⟨hsaving, hstep⟩ := Option.ite_none_right_eq_some.mp hstep
      obtain rfl := Option.some.inj hstep
      exact .raise hsaving
  | flusher e =>
      obtain ⟨hflusher, hstep⟩ := Option.ite_none_right_eq_some.mp hstep
      obtain ⟨paced, hpaced, rfl⟩ := Option.map_eq_some_iff.mp hstep
      exact .flusher hflusher hpaced
  | shutdown =>
      simp only [step] at hstep
      obtain ⟨paced, hpaced, rfl⟩ := Option.map_eq_some_iff.mp hstep
      exact .shutdown hpaced

/-! ### Nothing in the block pauses the flush -/

/-- What the gate shows at each statement of a `set_phase` call. -/
def Gated (m : PhaseMonitor) : Option SetPhasePc → Prop
  | some (.entering new _) => m.phase ≠ new ∧ m.ioAllowed = true
  | some (.storing new) => m.ioAllowed = (new != .ncclComm)
  | some (.leaving new _) =>
      m.phase ≠ new ∧ m.ioAllowed = (m.phase != .ncclComm)
  | _ => m.ioAllowed = (m.phase != .ncclComm)

/-- A statement of `set_phase` keeps this, and a call that returns has stored
its phase. -/
theorem Gated.trainer {m : PhaseMonitor} {pc : SetPhasePc} {now : ℚ}
    {r : PhaseMonitor × Option SetPhasePc} (h : Gated m (some pc))
    (hstep : setPhaseStep m false now pc = some r) :
    Gated r.1 r.2 ∧ (r.2 = none → r.1.phase = pc.target) ∧
      ∀ pc' ∈ r.2, pc'.target = pc.target := by
  cases pc with
  | call new =>
      by_cases hsame : m.phase = new
      · obtain rfl : (m, none) = r := by
          simpa [setPhaseStep, hsame] using hstep
        exact ⟨h, fun _ => hsame, by simp⟩
      · obtain rfl : (m, some (.leaving new now)) = r := by
          simpa [setPhaseStep, hsame] using hstep
        exact ⟨⟨hsame, h⟩, by simp, by simp [SetPhasePc.target]⟩
  | leaving new now' =>
      obtain rfl : (m.leavePhase now', some (.entering new now')) = r := by
        simpa [setPhaseStep] using hstep
      obtain ⟨hne, hgate⟩ := h
      refine ⟨⟨by simpa using hne, ?_⟩, by simp, by simp [SetPhasePc.target]⟩
      rw [PhaseMonitor.leavePhase_ioAllowed, hgate]
      cases m.phase <;> rfl
  | entering new now' =>
      obtain rfl : (m.enterPhase new now', some (.storing new)) = r := by
        simpa [setPhaseStep] using hstep
      refine ⟨?_, by simp, by simp [SetPhasePc.target]⟩
      show (m.enterPhase new now').ioAllowed = (new != .ncclComm)
      rw [PhaseMonitor.enterPhase_ioAllowed, h.2, Bool.true_and]
  | storing new =>
      obtain rfl : (m.storePhase new, none) = r := by
        simpa [setPhaseStep] using hstep
      exact ⟨h, fun _ => rfl, by simp⟩

/-- The phase the training thread is setting or has set where it stands in
`checkpoint`. -/
def Placed (s : BlockFlush) : CheckpointPc → Prop
  | .entering _ _ _ =>
      ∃ pc, s.paced.trainer = some pc ∧ pc.target = .checkpoint
  | .entered _ _ _ | .saving =>
      s.paced.trainer = none ∧ s.paced.monitor.phase = .checkpoint
  | .leaving => True

structure Unpaused (s : BlockFlush) : Prop where
  gated : Gated s.paced.monitor s.paced.trainer
  placed : ∀ pc, s.checkpoint = some pc → Placed s pc

variable {cfg : CkptConfig} {localDir lustreDir : Dir} {s t : BlockFlush}

theorem ofFlusher_heard (p : PacedFlush) {e : PacedEvent}
    (h : e.ofFlusher = true) : ∃ i, p.heard e = some i := by
  cases e with
  | setPhase new | trainer now => cases h
  | manager e =>
      cases e with
      | worker i => exact ⟨i, rfl⟩
      | save _ _ _ | saver | shutdown => cases h
  | rate est nccl ema => exact ⟨_, rfl⟩
  | gate allowed => exact ⟨_, rfl⟩

/-- A step that leaves the monitor, the `set_phase` call and the block alone. -/
theorem Unpaused.frame (hs : Unpaused s) {paced : PacedFlush} {n : Nat}
    (h : paced.monitor = s.paced.monitor ∧ paced.trainer = s.paced.trainer) :
    Unpaused { s with paced, blockWrites := n } where
  gated := by
    dsimp only
    rw [h.1, h.2]
    exact hs.gated
  placed := by
    intro pc hpc
    have hplaced := hs.placed pc hpc
    cases pc with
    | leaving => trivial
    | entering k p d => simpa only [Placed, h.2] using hplaced
    | entered k p d => simpa only [Placed, h.1, h.2] using hplaced
    | saving => simpa only [Placed, h.1, h.2] using hplaced

theorem Unpaused.finish (hs : Unpaused s)
    (hblock : s.checkpoint = some .saving) : Unpaused s.finish where
  gated := by
    have hgated := hs.gated
    rw [(hs.placed _ hblock).1] at hgated
    exact hgated
  placed := by
    intro pc hpc
    obtain rfl := Option.some.inj hpc
    trivial

theorem Unpaused.trainer {now : ℚ} {paced : PacedFlush} (hs : Unpaused s)
    (hpaced : PacedFlush.step cfg s.paced (.trainer now) = some paced) :
    Unpaused (s.afterTrainer paced) := by
  obtain ⟨pc, r, hpc, hr, rfl⟩ := PacedFlush.step_trainer hpaced
  have hgated := hs.gated
  rw [hpc] at hgated
  obtain ⟨hnext, hreturn, htarget⟩ := hgated.trainer hr
  refine ⟨by simpa using hnext, ?_⟩
  intro pc' hpc'
  cases hrest : r.2 with
  | some rest =>
      have htarget := htarget rest hrest
      simp only [afterTrainer, hrest, Option.isSome_some, if_true]
        at hpc' ⊢
      have hplaced := hs.placed pc' hpc'
      cases pc' with
      | leaving => trivial
      | entering k p d =>
          obtain ⟨pc'', hpc'', hcheckpoint⟩ := hplaced
          obtain rfl := Option.some.inj (hpc.symm.trans hpc'')
          exact ⟨rest, rfl, htarget.trans hcheckpoint⟩
      | entered k p d | saving =>
          simp [hplaced.1] at hpc
  | none =>
      have hphase := hreturn hrest
      simp only [afterTrainer, hrest, Option.isSome_none,
        Bool.false_eq_true, if_false] at hpc' ⊢
      cases hcheckpoint : s.checkpoint with
      | none => simp [hcheckpoint] at hpc'
      | some at_ =>
          have hplaced := hs.placed at_ hcheckpoint
          cases at_ with
          | entering k p d =>
              obtain ⟨pc'', hpc'', htarget'⟩ := hplaced
              obtain rfl := Option.some.inj (hpc.symm.trans hpc'')
              simp only [hcheckpoint] at hpc' ⊢
              obtain rfl := Option.some.inj hpc'
              exact ⟨rfl, hphase.trans htarget'⟩
          | entered k p d | saving =>
              simp [hplaced.1] at hpc
          | leaving => simp [hcheckpoint] at hpc'

theorem Unpaused.step {e : BlockEvent} (hs : Unpaused s)
    (hstep : step cfg s e = some t) : Unpaused t := by
  cases moves_of_step hstep with
  | setPhase hout hpaced =>
      obtain ⟨hidle, rfl⟩ := PacedFlush.step_setPhase hpaced
      have hgated := hs.gated
      rw [hidle] at hgated
      exact ⟨hgated, by simp [hout]⟩
  | checkpoint hout hpaced =>
      obtain ⟨hidle, rfl⟩ := PacedFlush.step_setPhase hpaced
      have hgated := hs.gated
      rw [hidle] at hgated
      refine ⟨hgated, ?_⟩
      rintro pc hpc
      obtain rfl := Option.some.inj hpc
      exact ⟨_, rfl, rfl⟩
  | trainer hpaced => exact hs.trainer hpaced
  | save hentered hpaced =>
      obtain ⟨manager, -, -, -, rfl⟩ := PacedFlush.step_manager hpaced rfl
      refine ⟨hs.gated, ?_⟩
      rintro pc hpc
      obtain rfl := Option.some.inj hpc
      exact hs.placed _ hentered
  | saver _ hpaced | shutdown hpaced =>
      obtain ⟨manager, -, -, -, rfl⟩ := PacedFlush.step_manager hpaced rfl
      exact hs.frame ⟨rfl, rfl⟩
  | leave hsaving _ | raise hsaving => exact hs.finish hsaving
  | flusher hflusher hpaced =>
      obtain ⟨i, hi⟩ := ofFlusher_heard s.paced hflusher
      exact hs.frame (PacedFlush.step_heard hpaced hi).2

/-- In the whole block the phase is CHECKPOINT and the gate is open: nothing
makes the flush thread wait. -/
theorem block_unpaused
    (hrun : Runs.Reachable (step cfg) (init cfg localDir lustreDir) s)
    (hblock : s.inBlock = true) :
    s.paced.monitor.phase = .checkpoint ∧
      s.paced.monitor.isIoAllowed = true := by
  have hinv : Unpaused s := by
    refine hrun.invariant ⟨?_, ?_⟩ fun _ _ _ hs _ => hs.step
    · simp [init, PacedFlush.init, Gated]
    · simp [init]
  obtain ⟨pc, hpc, hinside⟩ := (Option.any_eq_true _ _).mp hblock
  have hplaced : s.paced.trainer = none ∧
      s.paced.monitor.phase = .checkpoint := by
    have h := hinv.placed pc hpc
    cases pc with
    | entered k p d | saving => exact h
    | entering k p d | leaving => cases hinside
  have hgated := hinv.gated
  rw [hplaced.1] at hgated
  refine ⟨hplaced.2, hgated.trans ?_⟩
  rw [hplaced.2]
  rfl

/-! ### Writes in a block -/

/-- How long the save of the block will still make a file. -/
def rewritten (cfg : CkptConfig) (s : BlockFlush) (name : String) : Nat :=
  match s.checkpoint, s.paced.manager.saver with
  | some (.entered k partialData data), _ =>
      if name = ckptName cfg.rank k then max partialData.length data.length else 0
  | some .saving, .writing k data =>
      if name = ckptName cfg.rank k then data.length else 0
  | _, _ => 0

/-- The size of the file for which it will still queue a flush job. -/
def saved (cfg : CkptConfig) (s : BlockFlush) : Option Nat :=
  match s.checkpoint, s.paced.manager.saver with
  | some (.entered _ _ data), _ | some .saving, .writing _ data
  | some .saving, .written _ data => if cfg.hasLustre then some data.length else none
  | some .saving, .enqueuing _ data _ => some data.length
  | _, _ => none

/-- The chunk writes that the flush thread may still come to in the block. -/
def writesToCome (cfg : CkptConfig) (s : BlockFlush) : Nat :=
  CheckpointManager.writesToCome { cfg with hasMonitor := true } (s.rewritten cfg)
    (s.saved cfg) s.paced.manager

/-- The condition on a step: where it enters the block, there is at most one chunk to
write. -/
def LittleLeft (cfg : CkptConfig) (s : BlockFlush) (e : BlockEvent) : Prop :=
  ∀ t ∈ step cfg s e, s.inBlock = false → t.inBlock = true → t.writesToCome cfg ≤ 1

/-- The invariant: the writes started in the block and those to come are at most one. -/
structure Spare (cfg : CkptConfig) (s : BlockFlush) : Prop where
  le_one : s.blockWrites ≤ 1
  spare : s.inBlock = true → s.blockWrites + s.writesToCome cfg ≤ 1
  reader : CheckpointManager.ReaderOk { cfg with hasMonitor := true } s.paced.manager
  saved_file : CheckpointManager.SavedFile { cfg with hasMonitor := true } s.paced.manager

theorem spare_init : Spare cfg (init cfg localDir lustreDir) where
  le_one := Nat.zero_le 1
  spare := fun hin => by cases hin
  reader := trivial
  saved_file := trivial

/-- The file is opened. -/
theorem writesToCome_save {k : Int} {partialData data : Bytes} {manager : CkptState}
    (hentered : s.checkpoint = some (.entered k partialData data))
    (hstep : CheckpointManager.step { cfg with hasMonitor := true } s.paced.manager
      (.save k partialData data) = some manager) :
    writesToCome cfg
        { s with paced := { s.paced with manager }, checkpoint := some .saving } ≤
      s.writesToCome cfg := by
  obtain ⟨hidle, rfl⟩ := by simpa [CheckpointManager.step] using hstep
  refine CheckpointManager.SaveFrame.writesToCome_le ⟨rfl, rfl, rfl, fun name => ?_,
    fun name => ?_⟩ rfl (.inl ?_)
  · simp only [rewritten, hentered]
    split
    · exact le_max_right _ _
    · exact le_rfl
  · by_cases hname : name = ckptName cfg.rank k
    · simp [rewritten, hentered, CheckpointManager.content, hname]
    · simp [CheckpointManager.content, Function.update_of_ne hname]
  · simp [saved, hentered]

/-- A statement of `save_async`. -/
theorem writesToCome_saver {manager : CkptState} (hs : Spare cfg s)
    (hsaving : s.checkpoint = some .saving)
    (hstep : CheckpointManager.saverStep { cfg with hasMonitor := true } s.paced.manager =
      some manager) :
    writesToCome cfg { s with paced := { s.paced with manager } } ≤ s.writesToCome cfg := by
  have hfile := hs.saved_file
  cases hpc : s.paced.manager.saver with
  | idle => simp [CheckpointManager.saverStep, hpc] at hstep
  | writing k data =>
      obtain rfl := by simpa [CheckpointManager.saverStep, hpc] using hstep
      refine CheckpointManager.SaveFrame.writesToCome_le ⟨rfl, rfl, rfl, fun name => ?_,
        fun name => ?_⟩ rfl (.inl ?_)
      · simp [rewritten, hsaving]
      · cases hopen : s.paced.manager.localDir (ckptName cfg.rank k) with
        | none => exact le_max_left _ _
        | some c =>
            by_cases hname : name = ckptName cfg.rank k
            · simp [rewritten, hsaving, hpc, CheckpointManager.content, hname]
            · simp [CheckpointManager.content, Function.update_of_ne hname]
      · simp [saved, hsaving, hpc]
  | written k data =>
      cases hopen : s.paced.manager.localDir (ckptName cfg.rank k) with
      | none =>
          obtain rfl := by simpa [CheckpointManager.saverStep, hpc, hopen] using hstep
          refine CheckpointManager.SaveFrame.writesToCome_le ⟨rfl, rfl, rfl, fun name => ?_,
            fun name => le_max_left _ _⟩ rfl (.inr ?_)
          · simp [rewritten, hsaving]
          · simp [saved, hsaving]
      | some c =>
          obtain rfl := by simpa [CheckpointManager.saverStep, hpc, hopen] using hstep
          refine CheckpointManager.SaveFrame.writesToCome_le ⟨rfl, rfl, rfl, fun name => ?_,
            fun name => le_max_left _ _⟩ rfl (.inl ?_)
          · cases hlustre : cfg.hasLustre <;> simp [rewritten, hsaving]
          · cases hlustre : cfg.hasLustre <;> simp [saved, hsaving, hpc, hlustre]
  | enqueuing k data size =>
      rw [CheckpointManager.SavedFile, hpc] at hfile
      dsimp only at hfile
      by_cases hfull : CheckpointManager.queueFull { cfg with hasMonitor := true }
          s.paced.manager.queue = true
      · obtain rfl := by simpa [CheckpointManager.saverStep, hpc, hfull] using hstep
        refine CheckpointManager.SaveFrame.writesToCome_le ⟨rfl, rfl, rfl, fun name => ?_,
          fun name => le_max_left _ _⟩ rfl (.inr ?_)
        · simp [rewritten, hsaving]
        · simp [saved, hsaving]
      · have hmanager := by
          simpa only [CheckpointManager.saverStep, hpc, if_neg hfull, Option.some_inj] using hstep
        have hsaver : manager.saver = .counting k data size := by rw [← hmanager]
        have hsize : s.saved cfg = some data.length := by simp [saved, hsaving, hpc]
        have hnone : saved cfg { s with paced := { s.paced with manager } } = none := by
          simp [saved, hsaving, hsaver]
        have hwritten : rewritten cfg { s with paced := { s.paced with manager } } =
            fun _ => 0 := by
          funext name
          simp [rewritten, hsaving, hsaver]
        unfold writesToCome
        rw [hsize, hnone, hwritten]
        have hframe : CheckpointManager.SaveFrame (s.rewritten cfg) (fun _ => 0)
            s.paced.manager manager := by
          rw [← hmanager]
          exact ⟨rfl, rfl, rfl, fun _ => Nat.zero_le _, fun _ => le_max_left _ _⟩
        have hqueue : manager.queue = s.paced.manager.queue ++
            [CheckpointManager.flushJob { cfg with hasMonitor := true } k size] := by
          rw [← hmanager]
        have hlocal : manager.localDir = s.paced.manager.localDir := by rw [← hmanager]
        refine hframe.writesToCome_queued hqueue rfl ?_
        rw [hlocal]
        exact hfile
  | counting k data size | returning k data =>
      obtain rfl := by simpa [CheckpointManager.saverStep, hpc] using hstep
      refine CheckpointManager.SaveFrame.writesToCome_le ⟨rfl, rfl, rfl, fun name => ?_,
        fun name => le_max_left _ _⟩ rfl (.inr ?_)
      · simp [rewritten, hsaving]
      · simp [saved, hsaving]

/-- A step of the manager in the block that keeps what is to come within what was. -/
theorem Spare.manager {e : CkptEvent} {manager : CkptState}
    {checkpoint : Option CheckpointPc} (hs : Spare cfg s) (hin : s.inBlock = true)
    (hstep : CheckpointManager.step { cfg with hasMonitor := true } s.paced.manager e =
      some manager)
    (hless : writesToCome cfg { s with paced := { s.paced with manager }, checkpoint } ≤
      s.writesToCome cfg) :
    Spare cfg { s with paced := { s.paced with manager }, checkpoint } where
  le_one := hs.le_one
  spare := fun _ => (Nat.add_le_add_left hless _).trans (hs.spare hin)
  reader := hs.reader.step hstep
  saved_file := hs.saved_file.step hstep

theorem Spare.flusher {e : PacedEvent} {paced : PacedFlush} (hs : Spare cfg s)
    (hflusher : e.ofFlusher = true)
    (hpaced : PacedFlush.step cfg s.paced e = some paced) :
    Spare cfg { s with
      paced
      blockWrites := s.blockWrites +
        (s.inBlock && s.paced.manager.worker.atWrite).toNat } := by
  obtain ⟨i, hi⟩ := ofFlusher_heard s.paced hflusher
  have hworker := (PacedFlush.step_heard hpaced hi).1
  have hsaver := (CheckpointManager.flushFrame_of_step hworker).saver
  have hreader : CheckpointManager.ReaderOk { cfg with hasMonitor := true } paced.manager :=
    hs.reader.worker hworker
  have hfile : CheckpointManager.SavedFile { cfg with hasMonitor := true } paced.manager :=
    hs.saved_file.step (e := .worker i) hworker
  cases hin : s.inBlock with
  | false =>
      refine ⟨by simpa using hs.le_one, fun h => ?_, hreader, hfile⟩
      exact absurd (hin.symm.trans h) (by decide)
  | true =>
      have hspare := hs.spare hin
      have hrewritten : rewritten cfg { s with paced } = s.rewritten cfg := by
        funext name
        simp only [rewritten, hsaver]
      have hsaved : saved cfg { s with paced } = s.saved cfg := by
        simp only [saved, hsaver]
      have hwrites : s.paced.manager.worker.atWrite.toNat +
          writesToCome cfg { s with paced } ≤ s.writesToCome cfg := by
        unfold writesToCome
        rw [hrewritten, hsaved]
        refine CheckpointManager.worker_writes hs.reader ?_ hworker
        unfold writesToCome at hspare
        omega
      refine ⟨?_, fun _ => ?_, hreader, hfile⟩
      · rw [Bool.true_and]
        dsimp only
        omega
      · show s.blockWrites + (true && s.paced.manager.worker.atWrite).toNat +
          writesToCome cfg { s with paced } ≤ 1
        rw [Bool.true_and]
        omega

/-- The manager is untouched, and the training thread is where it was or outside. -/
theorem Spare.stay {paced : PacedFlush} {checkpoint : Option CheckpointPc} (hs : Spare cfg s)
    (hmanager : paced.manager = s.paced.manager)
    (hplace : checkpoint = s.checkpoint ∨ checkpoint.any CheckpointPc.inside = false) :
    Spare cfg { s with paced, checkpoint } where
  le_one := hs.le_one
  spare := by
    intro hin
    rcases hplace with rfl | hout
    · have hsame : writesToCome cfg { s with paced } = s.writesToCome cfg := by
        unfold writesToCome rewritten saved
        rw [hmanager]
      exact hsame ▸ hs.spare hin
    · exact absurd (hout.symm.trans hin) (by decide)
  reader := hmanager ▸ hs.reader
  saved_file := hmanager ▸ hs.saved_file

/-- A statement of `set_phase`; the block may begin. -/
theorem Spare.trainer {now : ℚ} {paced : PacedFlush} (hs : Spare cfg s)
    (hlittle : LittleLeft cfg s (.trainer now))
    (hpaced : PacedFlush.step cfg s.paced (.trainer now) = some paced) :
    Spare cfg (s.afterTrainer paced) := by
  have hstep : step cfg s (.trainer now) = some (s.afterTrainer paced) := by
    simp only [BlockFlush.step, hpaced, Option.map_some]
  have hlittle := hlittle _ hstep
  have hmanager : paced.manager = s.paced.manager := by
    obtain ⟨pc, r, -, -, rfl⟩ := PacedFlush.step_trainer hpaced
    rfl
  unfold afterTrainer at hlittle ⊢
  by_cases hgoes : paced.trainer.isSome = true
  · rw [if_pos hgoes]
    exact hs.stay hmanager (.inl rfl)
  · rw [if_neg hgoes] at hlittle ⊢
    cases hcheckpoint : s.checkpoint with
    | none => exact hs.stay hmanager (.inl hcheckpoint.symm)
    | some pc =>
        cases pc with
        | entering k partialData data =>
            simp only [hcheckpoint] at hlittle ⊢
            have hone := hlittle (by simp [inBlock, hcheckpoint, CheckpointPc.inside])
            exact ⟨Nat.zero_le 1, fun hin => (Nat.zero_add _).trans_le (hone hin),
              hmanager ▸ hs.reader, hmanager ▸ hs.saved_file⟩
        | leaving => exact hs.stay hmanager (.inr rfl)
        | entered k partialData data | saving =>
            exact hs.stay hmanager (.inl hcheckpoint.symm)

theorem Spare.finish (hs : Spare cfg s) : Spare cfg s.finish where
  le_one := hs.le_one
  spare := fun hin => by cases hin
  reader := hs.reader
  saved_file := trivial

theorem Spare.step {e : BlockEvent} (hs : Spare cfg s) (hlittle : LittleLeft cfg s e)
    (hstep : step cfg s e = some t) : Spare cfg t := by
  cases moves_of_step hstep with
  | setPhase hout hpaced =>
      obtain ⟨-, rfl⟩ := PacedFlush.step_setPhase hpaced
      exact hs.stay rfl (.inl rfl)
  | checkpoint hout hpaced =>
      obtain ⟨-, rfl⟩ := PacedFlush.step_setPhase hpaced
      exact hs.stay rfl (.inr rfl)
  | trainer hpaced => exact hs.trainer hlittle hpaced
  | save hentered hpaced =>
      obtain ⟨manager, hmanager, -, -, rfl⟩ := PacedFlush.step_manager hpaced rfl
      exact hs.manager (by simp [inBlock, hentered, CheckpointPc.inside]) hmanager
        (writesToCome_save hentered hmanager)
  | saver hsaving hpaced =>
      obtain ⟨manager, hmanager, -, -, rfl⟩ := PacedFlush.step_manager hpaced rfl
      exact hs.manager (by simp [inBlock, hsaving, CheckpointPc.inside]) hmanager
        (writesToCome_saver hs hsaving hmanager)
  | leave _ _ | raise _ => exact hs.finish
  | flusher hflusher hpaced => exact hs.flusher hflusher hpaced
  | shutdown hpaced =>
      obtain ⟨manager, hmanager, -, -, rfl⟩ := PacedFlush.step_manager hpaced rfl
      obtain rfl := by simpa [CheckpointManager.step] using hmanager
      exact ⟨hs.le_one, hs.spare, hs.reader, hs.saved_file⟩

/-- **At most one chunk write in a checkpoint block**, in runs in which each block is
entered with at most one chunk to write: of the file being copied, of those queued and
of the block's own. -/
theorem one_write_per_block
    (hrun : Runs.Reach (step cfg) (LittleLeft cfg) (init cfg localDir lustreDir) s) :
    s.blockWrites ≤ 1 := by
  have hspare : Spare cfg s :=
    hrun.invariant spare_init fun _ _ _ hs hlittle hstep => hs.step hlittle hstep
  exact hspare.le_one

/-- A checkpoint block up to the point where its flush job is queued. -/
def queuedEvents (k : Int) (data : Bytes) : List BlockEvent :=
  [BlockEvent.checkpoint k [] data] ++
    List.replicate 4 (BlockEvent.trainer 0) ++ [BlockEvent.save] ++
    List.replicate 3 BlockEvent.saver ++
    List.replicate 5 (BlockEvent.flusher (.manager (.worker .next)))

/-- The flush thread copies one chunk, at 1 GB/s, with the raw reads it needs. -/
def copyEvents (raws : Nat) : List BlockEvent :=
  [BlockEvent.flusher (.manager (.worker (.target none))),
    .flusher (.rate 1000000000 0 0), .flusher (.manager (.worker .next))] ++
    List.replicate raws (BlockEvent.flusher (.manager (.worker (.raw 8192)))) ++
    [BlockEvent.flusher (.manager (.worker .next))]

/-- Two chunks are written while `save_async` is still in the block. -/
theorem two_writes_in_block :
    ∃ s, Runs.Reachable (step { flushChunkBytes := 1 })
        (init { flushChunkBytes := 1 } (fun _ => none) (fun _ => none)) s ∧
      s.inBlock = true ∧ ¬ s.blockWrites ≤ 1 :=
  Runs.Reachable.exists_of_exec
    (queuedEvents 7 [1, 1] ++ copyEvents 1 ++ copyEvents 0) (by decide +kernel)

/-- The training thread leaves the block. -/
def leaveEvents : List BlockEvent :=
  [.saver, .saver, .leave] ++ List.replicate 4 (BlockEvent.trainer 0)

instance LittleLeft.decidable (cfg : CkptConfig) (s : BlockFlush) (e : BlockEvent) :
    Decidable (LittleLeft cfg s e) :=
  inferInstanceAs (Decidable (∀ t ∈ step cfg s e,
    s.inBlock = false → t.inBlock = true → t.writesToCome cfg ≤ 1))

/-- Two checkpoints of one byte are saved, and each is copied in its block. -/
theorem one_write_per_block_twice :
    ∃ s, Runs.Reach (step { flushChunkBytes := 1 }) (LittleLeft { flushChunkBytes := 1 })
        (init { flushChunkBytes := 1 } (fun _ => none) (fun _ => none)) s ∧
      s.paced.manager.flushCount = 1 ∧ 0 < s.blockWrites ∧ s.blockWrites ≤ 1 := by
  obtain ⟨s, hrun, hcount, hpos⟩ : ∃ s,
      Runs.Reach (step { flushChunkBytes := 1 }) (LittleLeft { flushChunkBytes := 1 })
        (init { flushChunkBytes := 1 } (fun _ => none) (fun _ => none)) s ∧
      s.paced.manager.flushCount = 1 ∧ 0 < s.blockWrites :=
    Runs.Reach.exists_of_exec
      (queuedEvents 7 [1] ++ copyEvents 1 ++ leaveEvents ++ copyEvents 1 ++
        List.replicate 3 (BlockEvent.flusher (.manager (.worker .next))) ++
        queuedEvents 8 [2] ++ copyEvents 1)
      (by decide +kernel) (by decide +kernel)
  exact ⟨s, hrun, hcount, hpos, one_write_per_block hrun⟩

end BlockFlush

end Tempo
