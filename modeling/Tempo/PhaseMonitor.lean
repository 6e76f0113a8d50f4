import Mathlib.Algebra.Order.Field.Rat
import Mathlib.Data.List.Basic

/-!
# The phase monitor

`PhaseMonitor` holds one current training phase, timing accumulators and the
I/O gate (`_io_allowed`).  Its only writer is `set_phase`, which runs under
`_lock` but writes the gate and the phase in separate statements; readers of
the gate do not take the lock.  `setPhaseStep` is therefore the statement-level
account of one `set_phase` call: it blocks at the lock, and from there on takes
one step for the part that leaves the old phase, one for the part that enters
the new one and one for the final store, which also releases the lock.
`setPhase` is the whole call, and `setPhase_eq_micro` says the steps compose to
it.

Times, durations and byte rates are exact rationals.  The two callbacks
`on_nccl_start` and `on_nccl_end` are `None` throughout the repository and are
left out here; `PhaseCallbacks` adds them.
-/

namespace Tempo

/-- Training pipeline phases. -/
inductive TrainingPhase
  | idle
  | compute
  | ncclComm
  | checkpoint
  deriving DecidableEq, Repr

/-- The fields of a `PhaseMonitor`; the defaults are those of `__init__`. -/
structure PhaseMonitor where
  phase : TrainingPhase := .idle
  ncclEnterTime : ℚ := 0
  ncclTotalS : ℚ := 0
  computeEnterTime : ℚ := 0
  computeTotalS : ℚ := 0
  ncclWindowSize : Nat := 16
  ncclDurationsMs : List ℚ := []
  emaNcclMs : ℚ := 0
  ioAllowed : Bool := true
  deriving DecidableEq

/-- Bytes of a typical AllReduce tensor, used by both rate estimates. -/
def typicalAllreduceBytes : ℚ := 256 * 1024 * 1024

namespace PhaseMonitor

/-- Non-blocking check: can the flush thread write right now? -/
def isIoAllowed (m : PhaseMonitor) : Bool := m.ioAllowed

/-- Budget in bytes per second for the next flush chunk; `0` during an active
AllReduce. -/
def getDynamicFlushRate (m : PhaseMonitor)
    (requestedBps ncclBwBps pcieCeilingBps safetyMargin : ℚ) : ℚ :=
  if m.phase = .ncclComm then 0
  else
    let effectiveNcclBps :=
      if ncclBwBps = 0 ∧ 0 < m.emaNcclMs then
        typicalAllreduceBytes / (m.emaNcclMs * (1 / 1000))
      else ncclBwBps
    let ncclFraction := effectiveNcclBps / max pcieCeilingBps 1
    let availableFraction := max 0 (1 - ncclFraction - safetyMargin)
    min requestedBps (pcieCeilingBps * availableFraction)

/-- Rough estimate of the PCIe bandwidth NCCL consumes. -/
def estimatedNcclBps (m : PhaseMonitor) : ℚ :=
  if m.phase ≠ .ncclComm then 0
  else if m.emaNcclMs ≤ 0 then 0
  else typicalAllreduceBytes / (m.emaNcclMs * (1 / 1000))

/-- EMA-smoothed NCCL phase duration in milliseconds. -/
def ncclPhaseDurationMs (m : PhaseMonitor) : ℚ := m.emaNcclMs

/-- Append to the circular buffer of observed durations. -/
def recordDuration (m : PhaseMonitor) (elapsedMs : ℚ) : List ℚ :=
  let appended := m.ncclDurationsMs ++ [elapsedMs]
  if m.ncclWindowSize < appended.length then appended.tail else appended

/-- The blocks of `set_phase` that leave the old phase. -/
def leavePhase (m : PhaseMonitor) (now : ℚ) : PhaseMonitor :=
  match m.phase with
  | .compute =>
      { m with computeTotalS := m.computeTotalS + (now - m.computeEnterTime) }
  | .ncclComm =>
      let elapsed := now - m.ncclEnterTime
      let elapsedMs := elapsed * 1000
      { m with
        ncclTotalS := m.ncclTotalS + elapsed
        ncclDurationsMs := m.recordDuration elapsedMs
        emaNcclMs :=
          if m.emaNcclMs = 0 then elapsedMs
          else 3 / 10 * elapsedMs + 7 / 10 * m.emaNcclMs
        ioAllowed := true }
  | _ => m

/-- The blocks of `set_phase` that enter the new phase. -/
def enterPhase (m : PhaseMonitor) (new : TrainingPhase) (now : ℚ) :
    PhaseMonitor :=
  match new with
  | .ncclComm => { m with ncclEnterTime := now, ioAllowed := false }
  | .compute => { m with computeEnterTime := now }
  | _ => m

/-- The last statement of `set_phase`. -/
def storePhase (m : PhaseMonitor) (new : TrainingPhase) : PhaseMonitor :=
  { m with phase := new }

/-- One whole `set_phase` call. -/
def setPhase (m : PhaseMonitor) (new : TrainingPhase) (now : ℚ) :
    PhaseMonitor :=
  if m.phase = new then m
  else ((m.leavePhase now).enterPhase new now).storePhase new

@[simp] theorem leavePhase_phase (m : PhaseMonitor) (now : ℚ) :
    (m.leavePhase now).phase = m.phase := by
  unfold leavePhase
  split <;> simp_all

theorem leavePhase_ioAllowed (m : PhaseMonitor) (now : ℚ) :
    (m.leavePhase now).ioAllowed =
      (m.ioAllowed || m.phase == .ncclComm) := by
  unfold leavePhase
  split <;> simp_all

@[simp] theorem enterPhase_phase (m : PhaseMonitor) (new : TrainingPhase)
    (now : ℚ) : (m.enterPhase new now).phase = m.phase := by
  cases new <;> rfl

theorem enterPhase_ioAllowed (m : PhaseMonitor) (new : TrainingPhase)
    (now : ℚ) :
    (m.enterPhase new now).ioAllowed =
      (m.ioAllowed && new != .ncclComm) := by
  cases new <;> simp [enterPhase]

@[simp] theorem storePhase_phase (m : PhaseMonitor) (new : TrainingPhase) :
    (m.storePhase new).phase = new := rfl

@[simp] theorem storePhase_ioAllowed (m : PhaseMonitor)
    (new : TrainingPhase) : (m.storePhase new).ioAllowed = m.ioAllowed := rfl

/-- No rate is granted while the monitor is in the NCCL phase, whatever the
estimates passed in. -/
theorem getDynamicFlushRate_nccl {m : PhaseMonitor}
    (h : m.phase = .ncclComm) (requested nccl ceiling margin : ℚ) :
    m.getDynamicFlushRate requested nccl ceiling margin = 0 := by
  simp [getDynamicFlushRate, h]

end PhaseMonitor

/-- Where a thread stands inside `set_phase(new_phase)`. -/
inductive SetPhasePc
  /-- at `with self._lock` -/
  | call (new : TrainingPhase)
  /-- lock held, before the blocks that leave the old phase -/
  | leaving (new : TrainingPhase) (now : ℚ)
  /-- lock held, before the blocks that enter the new phase -/
  | entering (new : TrainingPhase) (now : ℚ)
  /-- lock held, before `self._phase = new_phase` -/
  | storing (new : TrainingPhase)
  deriving DecidableEq

namespace SetPhasePc

/-- The thread is inside the `with self._lock` block. -/
def holdsLock : SetPhasePc → Bool
  | .call _ => false
  | _ => true

/-- The phase the call sets. -/
def target : SetPhasePc → TrainingPhase
  | .call new => new
  | .leaving new _ => new
  | .entering new _ => new
  | .storing new => new

end SetPhasePc

/-- One statement of a `set_phase` call.  `locked` says that some thread holds
`_lock`, and `now` is the clock reading, used when the lock is taken.  The
result is the monitor and where the call stands afterwards; `none` there means
that it has returned. -/
def setPhaseStep (m : PhaseMonitor) (locked : Bool) (now : ℚ) :
    SetPhasePc → Option (PhaseMonitor × Option SetPhasePc)
  | .call new =>
      if locked then none
      else if m.phase = new then some (m, none)
      else some (m, some (.leaving new now))
  | .leaving new now => some (m.leavePhase now, some (.entering new now))
  | .entering new now => some (m.enterPhase new now, some (.storing new))
  | .storing new => some (m.storePhase new, none)

/-- Uninterrupted, the statements of a call on another phase compose to
`setPhase`. -/
theorem setPhase_eq_micro {m : PhaseMonitor} {new : TrainingPhase} {now : ℚ}
    (hne : m.phase ≠ new) :
    ∃ m₁ m₂,
      setPhaseStep m false now (.call new) =
        some (m, some (.leaving new now)) ∧
      setPhaseStep m true now (.leaving new now) =
        some (m₁, some (.entering new now)) ∧
      setPhaseStep m₁ true now (.entering new now) =
        some (m₂, some (.storing new)) ∧
      setPhaseStep m₂ true now (.storing new) =
        some (m.setPhase new now, none) := by
  refine ⟨m.leavePhase now, (m.leavePhase now).enterPhase new now,
    ?_, rfl, rfl, ?_⟩
  · simp [setPhaseStep, hne]
  · simp [setPhaseStep, PhaseMonitor.setPhase, hne]

end Tempo
