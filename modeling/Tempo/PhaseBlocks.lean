import Tempo.PhaseMonitor

/-!
# Phase blocks

`compute_phase()`, `nccl_phase()` and `checkpoint_phase()` set their phase on
entry and a fixed phase on exit: COMPUTE after NCCL, IDLE after the other two.
Nothing saves the phase found on entry.  A thread that uses them runs a
well-nested program, given here by the blocks it executes; a branch or a loop
of the thread is the sequence of what it executed.  An exception passes through
the `finally` of every block it leaves.

Since the exit phase is fixed, a block restores what it found exactly when it
found its own exit phase (`block_restores_iff`), and a whole program restores
at every exit exactly when each block it executes stands directly inside a
block that entered that phase, or at top level in it (`restores_iff_placed`).
So `nccl_phase()` fits inside `compute_phase()`, the other two fit nowhere but
at top level, and nothing fits inside `nccl_phase()` or `checkpoint_phase()`.
-/

namespace Tempo

/-- The three context managers. -/
inductive PhaseBlock
  | compute
  | nccl
  | checkpoint
  deriving DecidableEq, Repr

namespace PhaseBlock

/-- The phase set on entry. -/
def enters : PhaseBlock → TrainingPhase
  | .compute => .compute
  | .nccl => .ncclComm
  | .checkpoint => .checkpoint

/-- The phase set in the `finally`. -/
def exits : PhaseBlock → TrainingPhase
  | .compute => .idle
  | .nccl => .compute
  | .checkpoint => .idle

end PhaseBlock

/-- What a thread executes.  A block comes with the clock readings of its two
`set_phase` calls. -/
inductive PhaseProgram
  | skip
  | raise
  | seq (p q : PhaseProgram)
  /-- `try: p except: q` -/
  | handle (p q : PhaseProgram)
  | block (kind : PhaseBlock) (entered left : ℚ) (body : PhaseProgram)

namespace PhaseProgram

/-- An exception leaves the program. -/
def raises : PhaseProgram → Bool
  | .skip => false
  | .raise => true
  | .seq p q => p.raises || q.raises
  | .handle p q => p.raises && q.raises
  | .block _ _ _ body => body.raises

/-- The monitor after the program, left normally or by an exception. -/
def exec : PhaseProgram → PhaseMonitor → PhaseMonitor
  | .skip, m => m
  | .raise, m => m
  | .seq p q, m => if p.raises then p.exec m else q.exec (p.exec m)
  | .handle p q, m => if p.raises then q.exec (p.exec m) else p.exec m
  | .block kind entered left body, m =>
      (body.exec (m.setPhase kind.enters entered)).setPhase kind.exits left

/-- The blocks executed, in the order they are left: the monitor just before
each was entered and just after it was left. -/
def exits : PhaseProgram → PhaseMonitor → List (PhaseMonitor × PhaseMonitor)
  | .skip, _ => []
  | .raise, _ => []
  | .seq p q, m =>
      if p.raises then p.exits m else p.exits m ++ q.exits (p.exec m)
  | .handle p q, m =>
      if p.raises then p.exits m ++ q.exits (p.exec m) else p.exits m
  | .block kind entered left body, m =>
      body.exits (m.setPhase kind.enters entered) ++
        [(m, (PhaseProgram.block kind entered left body).exec m)]

/-- The block left the phase and the gate as it found them. -/
def Restored (e : PhaseMonitor × PhaseMonitor) : Prop :=
  e.2.phase = e.1.phase ∧ e.2.isIoAllowed = e.1.isIoAllowed

/-- Every block executed is entered in its exit phase, where `around` is the
phase of the place where the program stands. -/
def Placed : PhaseProgram → TrainingPhase → Prop
  | .skip, _ => True
  | .raise, _ => True
  | .seq p q, around =>
      p.Placed around ∧ (p.raises = false → q.Placed around)
  | .handle p q, around =>
      p.Placed around ∧ (p.raises = true → q.Placed around)
  | .block kind _ _ body, around =>
      around = kind.exits ∧ body.Placed kind.enters

end PhaseProgram

namespace PhaseMonitor

/-- The gate is closed in the NCCL phase only. -/
def GateTracks (m : PhaseMonitor) : Prop :=
  m.ioAllowed = (m.phase != .ncclComm)

@[simp] theorem setPhase_phase (m : PhaseMonitor) (new : TrainingPhase)
    (now : ℚ) : (m.setPhase new now).phase = new := by
  unfold setPhase
  split
  · assumption
  · rfl

/-- `set_phase` keeps the gate with the phase. -/
theorem GateTracks.setPhase {m : PhaseMonitor} (h : m.GateTracks)
    (new : TrainingPhase) (now : ℚ) : (m.setPhase new now).GateTracks := by
  unfold PhaseMonitor.setPhase
  split
  · exact h
  · unfold GateTracks at *
    rw [storePhase_ioAllowed, storePhase_phase, enterPhase_ioAllowed,
      leavePhase_ioAllowed, h]
    cases m.phase <;> rfl

/-- The monitor after the calls of `set_phase` made so far. -/
def afterCalls (calls : List (TrainingPhase × ℚ)) : PhaseMonitor :=
  calls.foldl (fun m c => m.setPhase c.1 c.2) {}

theorem gateTracks_afterCalls (calls : List (TrainingPhase × ℚ)) :
    (afterCalls calls).GateTracks := by
  have hfold : ∀ m : PhaseMonitor, m.GateTracks →
      (calls.foldl (fun m c => m.setPhase c.1 c.2) m).GateTracks := by
    induction calls with
    | nil => exact fun _ h => h
    | cons c calls ih => exact fun m h => ih _ (h.setPhase c.1 c.2)
  exact hfold {} rfl

end PhaseMonitor

namespace PhaseProgram

open PhaseMonitor (GateTracks)

theorem gateTracks_exec (p : PhaseProgram) {m : PhaseMonitor}
    (h : m.GateTracks) : (p.exec m).GateTracks := by
  induction p generalizing m with
  | skip => exact h
  | raise => exact h
  | seq p q ihp ihq =>
      unfold exec
      split
      · exact ihp h
      · exact ihq (ihp h)
  | handle p q ihp ihq =>
      unfold exec
      split
      · exact ihq (ihp h)
      · exact ihp h
  | block kind entered left body ih =>
      exact (ih (h.setPhase kind.enters entered)).setPhase kind.exits left

/-- A block restores what it found exactly when it found its exit phase. -/
theorem block_restores_iff {kind : PhaseBlock} {entered left : ℚ}
    {body : PhaseProgram} {m : PhaseMonitor} (h : m.GateTracks) :
    Restored (m, (PhaseProgram.block kind entered left body).exec m) ↔
      m.phase = kind.exits := by
  have hend := gateTracks_exec (.block kind entered left body) h
  have hphase : ((PhaseProgram.block kind entered left body).exec m).phase =
      kind.exits := PhaseMonitor.setPhase_phase _ _ _
  unfold Restored PhaseMonitor.isIoAllowed
  dsimp only
  rw [hend, h, hphase]
  constructor
  · exact fun h => h.1.symm
  · rintro h
    rw [h]
    exact ⟨rfl, rfl⟩

/-- Blocks that are placed leave the phase as it was. -/
theorem Placed.exec_phase {p : PhaseProgram} {m : PhaseMonitor}
    (h : p.Placed m.phase) : (p.exec m).phase = m.phase := by
  induction p generalizing m with
  | skip => rfl
  | raise => rfl
  | seq p q ihp ihq =>
      obtain ⟨hp, hq⟩ := h
      have hmid := ihp hp
      unfold exec
      split
      · exact hmid
      · next hnot =>
          rw [ihq (by rw [hmid]; exact hq (by simpa using hnot)), hmid]
  | handle p q ihp ihq =>
      obtain ⟨hp, hq⟩ := h
      have hmid := ihp hp
      unfold exec
      split
      · next hraises => rw [ihq (by rw [hmid]; exact hq hraises), hmid]
      · exact hmid
  | block kind entered left body ih =>
      exact (PhaseMonitor.setPhase_phase _ _ _).trans h.1.symm

/-- **Phase blocks restore the enclosing phase** at every exit exactly when
every block executed is entered in its exit phase. -/
theorem restores_iff_placed_of_gateTracks (p : PhaseProgram)
    {m : PhaseMonitor} (h : m.GateTracks) :
    (∀ e ∈ p.exits m, Restored e) ↔ p.Placed m.phase := by
  induction p generalizing m with
  | skip => simp [exits, Placed]
  | raise => simp [exits, Placed]
  | seq p q ihp ihq =>
      have hmid := gateTracks_exec p h
      cases hraises : p.raises with
      | true =>
          simp only [exits, Placed, hraises, if_true, ihp h, reduceCtorEq,
            false_implies, and_true]
      | false =>
          simp only [exits, Placed, hraises, Bool.false_eq_true, if_false,
            List.forall_mem_append, forall_const, ihp h, ihq hmid]
          refine and_congr_right fun hp => ?_
          rw [hp.exec_phase]
  | handle p q ihp ihq =>
      have hmid := gateTracks_exec p h
      cases hraises : p.raises with
      | false =>
          simp only [exits, Placed, hraises, Bool.false_eq_true, if_false,
            ihp h, false_implies, and_true]
      | true =>
          simp only [exits, Placed, hraises, if_true, List.forall_mem_append,
            forall_const, ihp h, ihq hmid]
          refine and_congr_right fun hp => ?_
          rw [hp.exec_phase]
  | block kind entered left body ih =>
      have hbody := ih (h.setPhase kind.enters entered)
      rw [PhaseMonitor.setPhase_phase] at hbody
      simp only [exits, Placed, List.forall_mem_append, List.forall_mem_singleton,
        hbody]
      rw [block_restores_iff h, and_comm]

/-- The same from any phase a monitor can be in. -/
theorem restores_iff_placed (p : PhaseProgram)
    (calls : List (TrainingPhase × ℚ)) :
    (∀ e ∈ p.exits (PhaseMonitor.afterCalls calls), Restored e) ↔
      p.Placed (PhaseMonitor.afterCalls calls).phase :=
  restores_iff_placed_of_gateTracks p
    (PhaseMonitor.gateTracks_afterCalls calls)

/-- `checkpoint()` inside `nccl_phase()` opens the gate while the collective is
in flight; inside `compute_phase()` it leaves the monitor idle. -/
theorem nested_checkpoint_not_restored :
    (∃ e ∈ (PhaseProgram.block .nccl 0 3 (.block .checkpoint 1 2 .skip)).exits
        (PhaseMonitor.afterCalls []),
      e.1.isIoAllowed = false ∧ e.2.isIoAllowed = true) ∧
    ∃ e ∈ (PhaseProgram.block .compute 0 3 (.block .checkpoint 1 2 .skip)).exits
        (PhaseMonitor.afterCalls []),
      e.1.phase = .compute ∧ e.2.phase = .idle := by
  decide +kernel

end PhaseProgram

end Tempo
