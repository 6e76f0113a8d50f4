import Tempo.PhaseBlocks
import Tempo.Runs

/-!
# Callbacks of the phase monitor

`set_phase` calls `on_nccl_end` after it has opened the gate and `on_nccl_start`
after it has closed it, both before it stores the new phase.  A callback that
raises ends the call there: what the blocks before it did stays, and the phase
is the old one.  So the gate and the phase part exactly when a callback that is
reached raises (`gateTracks_setPhaseCalling_iff`), and later calls decide by the
phase that was left behind.
-/

namespace Tempo

/-- A call of `set_phase`, with the clock reading and whether the callbacks
raise if they are called. -/
structure CallbackCall where
  new : TrainingPhase
  now : ℚ
  endRaises : Bool := false
  startRaises : Bool := false

namespace PhaseMonitor

/-- `set_phase` with its callbacks: the monitor afterwards, and whether the call
raises. -/
def setPhaseCalling (m : PhaseMonitor) (c : CallbackCall) :
    PhaseMonitor × Bool :=
  if m.phase = c.new then (m, false)
  else
    let left := m.leavePhase c.now
    if m.phase = .ncclComm ∧ c.endRaises then (left, true)
    else
      let entered := left.enterPhase c.new c.now
      if c.new = .ncclComm ∧ c.startRaises then (entered, true)
      else (entered.storePhase c.new, false)

/-- No callback that the call reaches raises. -/
def CallbacksReturn (m : PhaseMonitor) (c : CallbackCall) : Prop :=
  m.phase ≠ c.new →
    (m.phase = .ncclComm → c.endRaises = false) ∧
      (c.new = .ncclComm → c.startRaises = false)

instance CallbacksReturn.decidable (m : PhaseMonitor) (c : CallbackCall) :
    Decidable (m.CallbacksReturn c) :=
  inferInstanceAs (Decidable (_ → _))

variable {m : PhaseMonitor} {c : CallbackCall}

/-- With callbacks that return, the call is that of `setPhase`. -/
theorem setPhaseCalling_of_return (h : m.CallbacksReturn c) :
    m.setPhaseCalling c = (m.setPhase c.new c.now, false) := by
  unfold setPhaseCalling setPhase
  by_cases hsame : m.phase = c.new
  · rw [if_pos hsame, if_pos hsame]
  · obtain ⟨hend, hstart⟩ := h hsame
    have hend' : ¬ (m.phase = .ncclComm ∧ c.endRaises = true) := by
      rintro ⟨hphase, hraises⟩
      simp [hend hphase] at hraises
    have hstart' : ¬ (c.new = .ncclComm ∧ c.startRaises = true) := by
      rintro ⟨hphase, hraises⟩
      simp [hstart hphase] at hraises
    simp only [if_neg hsame, if_neg hend', if_neg hstart']

/-- A callback that raises leaves the old phase with the gate of another. -/
theorem not_gateTracks_of_raises (hraises : ¬ m.CallbacksReturn c) :
    ¬ (m.setPhaseCalling c).1.GateTracks := by
  unfold CallbacksReturn at hraises
  rw [Classical.not_imp, not_and_or] at hraises
  obtain ⟨hsame, hraises⟩ := hraises
  unfold GateTracks
  by_cases hend : m.phase = .ncclComm ∧ c.endRaises
  · -- `on_nccl_end`: the gate is open, in the NCCL phase
    have hleft : (m.setPhaseCalling c).1 = m.leavePhase c.now := by
      simp only [setPhaseCalling, if_neg hsame, if_pos hend]
    rw [hleft, leavePhase_ioAllowed, leavePhase_phase, hend.1]
    simp
  · have hstart : c.new = .ncclComm ∧ c.startRaises := by
      rcases hraises with hraises | hraises
      · rw [Classical.not_imp, Bool.not_eq_false] at hraises
        exact absurd hraises hend
      · rwa [Classical.not_imp, Bool.not_eq_false] at hraises
    -- `on_nccl_start`: the gate is closed, in another phase
    have hphase : m.phase ≠ .ncclComm := by
      intro heq
      exact hsame (heq.trans hstart.1.symm)
    have hentered : (m.setPhaseCalling c).1 =
        (m.leavePhase c.now).enterPhase c.new c.now := by
      simp only [setPhaseCalling, if_neg hsame, if_neg hend, if_pos hstart]
    rw [hentered, enterPhase_ioAllowed, enterPhase_phase, leavePhase_phase,
      hstart.1]
    simpa using hphase

/-- One call keeps the gate with the phase exactly when no callback raises. -/
theorem gateTracks_setPhaseCalling_iff (h : m.GateTracks) (c : CallbackCall) :
    (m.setPhaseCalling c).1.GateTracks ↔ m.CallbacksReturn c := by
  constructor
  · intro htracks
    by_contra hraises
    exact not_gateTracks_of_raises hraises htracks
  · intro hreturn
    rw [setPhaseCalling_of_return hreturn]
    exact h.setPhase c.new c.now

/-- One call; a caller may go on after an exception. -/
def callStep (m : PhaseMonitor) (c : CallbackCall) : Option PhaseMonitor :=
  some (m.setPhaseCalling c).1

/-- **The gate is closed exactly in the NCCL phase**, in every state between the
calls, exactly when no callback that a call reaches raises. -/
theorem closed_iff_nccl_iff_return (calls : List CallbackCall) :
    (∀ pre, pre <+: calls → ∀ m ∈ Runs.exec callStep {} pre,
        (m.isIoAllowed = false ↔ m.phase = .ncclComm)) ↔
      Runs.Meets callStep CallbacksReturn {} calls := by
  have htracks : ∀ m : PhaseMonitor,
      (m.isIoAllowed = false ↔ m.phase = .ncclComm) ↔ m.GateTracks := by
    intro m
    unfold isIoAllowed GateTracks
    cases m.phase <;> cases m.ioAllowed <;> simp
  simp only [htracks]
  apply Runs.Meets.iff_prefixes
  · rfl
  · intro m c h
    exact ⟨_, rfl, gateTracks_setPhaseCalling_iff h c⟩

/-- A raise of `on_nccl_start` leaves the gate closed in the idle phase; one of
`on_nccl_end` leaves it open in the NCCL phase, and a call for the next
collective returns at once. -/
theorem gate_parts_from_phase :
    (∃ m ∈ Runs.exec callStep {} [⟨.ncclComm, 0, false, true⟩],
      m.isIoAllowed = false ∧ m.phase = .idle) ∧
    ∃ m ∈ Runs.exec callStep {} [⟨.ncclComm, 0, false, false⟩,
        ⟨.compute, 1, true, false⟩, ⟨.ncclComm, 2, false, false⟩],
      m.isIoAllowed = true ∧ m.phase = .ncclComm := by
  decide +kernel

end PhaseMonitor

end Tempo
