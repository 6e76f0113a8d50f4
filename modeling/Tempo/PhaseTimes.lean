import Mathlib.Algebra.BigOperators.Group.List.Basic
import Mathlib.Data.NNRat.Defs
import Mathlib.Tactic.Linarith
import Tempo.PhaseBlocks
import Tempo.Runs

/-!
# Phase time since the last reset

`set_phase` adds the length of an NCCL or compute interval to its total when the
interval ends, measured from the enter time stored when it began.
`reset_stats` zeroes the two totals and leaves the enter times, so an interval
in progress at a reset is added in full later, with the part before the reset.

A `TimedMonitor` keeps, next to the monitor, the clock and the completed NCCL
intervals with what each added to the total.  The totals account for the time
since the last reset, in every state of a run, exactly when no NCCL or compute
interval that began before the last reset is ended by a later call
(`accounted_iff_beganSinceReset`).
-/

namespace Tempo

/-- A completed NCCL interval and what its end added to `_nccl_total_s`. -/
structure NcclInterval where
  began : ℚ
  ended : ℚ
  amount : ℚ

/-- A monitor and the history of its clock. -/
structure TimedMonitor where
  monitor : PhaseMonitor := {}
  /-- clock reading of the last call -/
  now : ℚ
  /-- construction or the last reset -/
  since : ℚ
  /-- the call that entered the current phase -/
  phaseSince : ℚ
  /-- completed since `since` -/
  nccl : List NcclInterval := []

/-- A call, with the time that passes before it. -/
inductive TimedCall
  | setPhase (new : TrainingPhase) (wait : ℚ≥0)
  | resetStats (wait : ℚ≥0)

namespace PhaseMonitor

/-- `reset_stats` -/
def resetStats (m : PhaseMonitor) : PhaseMonitor :=
  { m with ncclTotalS := 0, computeTotalS := 0 }

variable {m : PhaseMonitor} {new : TrainingPhase}

theorem setPhase_of_eq (h : m.phase = new) (now : ℚ) : m.setPhase new now = m := by
  unfold setPhase
  rw [if_pos h]

theorem setPhase_ncclTotalS (h : m.phase ≠ new) (now : ℚ) :
    (m.setPhase new now).ncclTotalS = m.ncclTotalS +
      if m.phase = .ncclComm then now - m.ncclEnterTime else 0 := by
  unfold setPhase leavePhase
  rw [if_neg h]
  cases hphase : m.phase <;> cases new <;> simp [enterPhase, storePhase]

theorem setPhase_computeTotalS (h : m.phase ≠ new) (now : ℚ) :
    (m.setPhase new now).computeTotalS = m.computeTotalS +
      if m.phase = .compute then now - m.computeEnterTime else 0 := by
  unfold setPhase leavePhase
  rw [if_neg h]
  cases hphase : m.phase <;> cases new <;> simp [enterPhase, storePhase]

theorem setPhase_ncclEnterTime (h : m.phase ≠ .ncclComm) (now : ℚ) :
    (m.setPhase .ncclComm now).ncclEnterTime = now := by
  unfold setPhase
  rw [if_neg h]
  rfl

theorem setPhase_computeEnterTime (h : m.phase ≠ .compute) (now : ℚ) :
    (m.setPhase .compute now).computeEnterTime = now := by
  unfold setPhase
  rw [if_neg h]
  rfl

end PhaseMonitor

namespace TimedMonitor

/-- A monitor constructed at `clock`. -/
def start (clock : ℚ) : TimedMonitor :=
  { now := clock, since := clock, phaseSince := clock }

/-- `set_phase` at the time `clock`. -/
def setPhase (s : TimedMonitor) (new : TrainingPhase) (clock : ℚ) :
    TimedMonitor :=
  if s.monitor.phase = new then { s with now := clock }
  else
    let after := s.monitor.setPhase new clock
    { s with
      monitor := after
      now := clock
      phaseSince := clock
      nccl :=
        if s.monitor.phase = .ncclComm then
          s.nccl ++ [⟨s.phaseSince, clock,
            after.ncclTotalS - s.monitor.ncclTotalS⟩]
        else s.nccl }

/-- `reset_stats` at the time `clock`. -/
def resetStats (s : TimedMonitor) (clock : ℚ) : TimedMonitor :=
  { s with
    monitor := s.monitor.resetStats
    now := clock
    since := clock
    nccl := [] }

/-- One call. -/
def step (s : TimedMonitor) : TimedCall → Option TimedMonitor
  | .setPhase new wait => some (s.setPhase new (s.now + wait))
  | .resetStats wait => some (s.resetStats (s.now + wait))

/-- The totals account for time since the last reset only, and for every NCCL
interval that began since then by exactly its length. -/
structure Accounted (s : TimedMonitor) : Prop where
  nccl_nonneg : 0 ≤ s.monitor.ncclTotalS
  compute_nonneg : 0 ≤ s.monitor.computeTotalS
  sum_le : s.monitor.ncclTotalS + s.monitor.computeTotalS ≤ s.now - s.since
  total_eq : s.monitor.ncclTotalS = (s.nccl.map (·.amount)).sum
  exact_length : ∀ i ∈ s.nccl, s.since ≤ i.began → i.amount = i.ended - i.began

/-- The phase is one whose time is added to a total. -/
def Measured (p : TrainingPhase) : Prop := p = .compute ∨ p = .ncclComm

instance Measured.decidable (p : TrainingPhase) : Decidable (Measured p) :=
  inferInstanceAs (Decidable (_ ∨ _))

/-- A call that ends a measured interval finds that it began no earlier than the
last reset. -/
def BeganSinceReset (s : TimedMonitor) : TimedCall → Prop
  | .setPhase new _ =>
      s.monitor.phase ≠ new → Measured s.monitor.phase → s.since ≤ s.phaseSince
  | .resetStats _ => True

instance BeganSinceReset.decidable (s : TimedMonitor) :
    ∀ c, Decidable (s.BeganSinceReset c)
  | .setPhase new _ =>
      inferInstanceAs (Decidable
        (s.monitor.phase ≠ new → Measured s.monitor.phase →
          s.since ≤ s.phaseSince))
  | .resetStats _ => isTrue trivial

/-- What holds beside `Accounted`: the enter times, and that no time after the
current phase was entered has been added. -/
structure Settled (s : TimedMonitor) : Prop extends Accounted s where
  nccl_entered : s.monitor.phase = .ncclComm →
    s.monitor.ncclEnterTime = s.phaseSince
  compute_entered : s.monitor.phase = .compute →
    s.monitor.computeEnterTime = s.phaseSince
  settled : s.monitor.ncclTotalS + s.monitor.computeTotalS ≤
    max (s.phaseSince - s.since) 0
  phaseSince_le : s.phaseSince ≤ s.now
  since_le : s.since ≤ s.now

variable {s : TimedMonitor}

theorem settled_start (clock : ℚ) : (start clock).Settled where
  nccl_nonneg := le_refl _
  compute_nonneg := le_refl _
  sum_le := by simp [start]
  total_eq := rfl
  exact_length := by simp [start]
  nccl_entered := by simp [start]
  compute_entered := by simp [start]
  settled := by simp [start]
  phaseSince_le := le_refl _
  since_le := le_refl _

theorem Settled.resetStats (h : s.Settled) {clock : ℚ} (hclock : s.now ≤ clock) :
    (s.resetStats clock).Settled where
  nccl_nonneg := le_refl _
  compute_nonneg := le_refl _
  sum_le := by simp [TimedMonitor.resetStats, PhaseMonitor.resetStats]
  total_eq := rfl
  exact_length := by simp [TimedMonitor.resetStats]
  nccl_entered := h.nccl_entered
  compute_entered := h.compute_entered
  settled := by simp [TimedMonitor.resetStats, PhaseMonitor.resetStats]
  phaseSince_le := h.phaseSince_le.trans hclock
  since_le := le_refl _

/-- A call for the phase that is set returns at once. -/
theorem Settled.idle (h : s.Settled) {clock : ℚ} (hclock : s.now ≤ clock) :
    { s with now := clock : TimedMonitor }.Settled where
  nccl_nonneg := h.nccl_nonneg
  compute_nonneg := h.compute_nonneg
  sum_le := by
    have hsum := h.sum_le
    dsimp only
    linarith
  total_eq := h.total_eq
  exact_length := h.exact_length
  nccl_entered := h.nccl_entered
  compute_entered := h.compute_entered
  settled := h.settled
  phaseSince_le := h.phaseSince_le.trans hclock
  since_le := h.since_le.trans hclock

variable {new : TrainingPhase} {clock : ℚ}

theorem setPhase_of_eq (h : s.monitor.phase = new) :
    s.setPhase new clock = { s with now := clock } := by
  unfold setPhase
  rw [if_pos h]

theorem setPhase_monitor :
    (s.setPhase new clock).monitor = s.monitor.setPhase new clock := by
  unfold setPhase
  split
  next h => rw [PhaseMonitor.setPhase_of_eq h]
  next => rfl

theorem setPhase_nccl (h : s.monitor.phase ≠ new) :
    (s.setPhase new clock).nccl =
      if s.monitor.phase = .ncclComm then
        s.nccl ++ [⟨s.phaseSince, clock,
          (s.monitor.setPhase new clock).ncclTotalS - s.monitor.ncclTotalS⟩]
      else s.nccl := by
  unfold setPhase
  rw [if_neg h]

@[simp] theorem setPhase_since : (s.setPhase new clock).since = s.since := by
  unfold setPhase
  split <;> rfl

@[simp] theorem setPhase_now : (s.setPhase new clock).now = clock := by
  unfold setPhase
  split <;> rfl

theorem setPhase_phaseSince (h : s.monitor.phase ≠ new) :
    (s.setPhase new clock).phaseSince = clock := by
  unfold setPhase
  rw [if_neg h]

/-- The end of an NCCL interval adds its length. -/
theorem Settled.setPhase_ncclTotalS (h : s.Settled) (hne : s.monitor.phase ≠ new) :
    (s.monitor.setPhase new clock).ncclTotalS = s.monitor.ncclTotalS +
      if s.monitor.phase = .ncclComm then clock - s.phaseSince else 0 := by
  rw [PhaseMonitor.setPhase_ncclTotalS hne]
  split
  · next hphase => rw [h.nccl_entered hphase]
  · rfl

/-- A change of phase adds the time since the old phase was entered, if the old
phase is measured. -/
theorem Settled.setPhase_sum (h : s.Settled) (hne : s.monitor.phase ≠ new) :
    (s.monitor.setPhase new clock).ncclTotalS +
        (s.monitor.setPhase new clock).computeTotalS =
      s.monitor.ncclTotalS + s.monitor.computeTotalS +
        if Measured s.monitor.phase then clock - s.phaseSince else 0 := by
  rw [h.setPhase_ncclTotalS hne, PhaseMonitor.setPhase_computeTotalS hne]
  unfold Measured
  have hcompute := h.compute_entered
  cases hphase : s.monitor.phase with
  | idle => simp
  | checkpoint => simp
  | compute =>
      rw [hcompute hphase]
      simp only [reduceCtorEq, if_true, if_false, or_false, add_zero]
      exact (add_assoc _ _ _).symm
  | ncclComm =>
      simp only [reduceCtorEq, if_true, if_false, or_true, add_zero]
      exact add_right_comm _ _ _

/-- What a change of phase adds keeps within the time since the last reset, if
the interval it ends began no earlier. -/
theorem Settled.setPhase_sum_le (h : s.Settled) (hne : s.monitor.phase ≠ new)
    (hclock : s.now ≤ clock)
    (hbegan : Measured s.monitor.phase → s.since ≤ s.phaseSince) :
    (s.monitor.setPhase new clock).ncclTotalS +
        (s.monitor.setPhase new clock).computeTotalS ≤ clock - s.since := by
  rw [h.setPhase_sum hne]
  have hsettled := h.settled
  have hentered := h.phaseSince_le
  have hsince := h.since_le
  split
  · next hmeasured =>
      have hstart : 0 ≤ s.phaseSince - s.since :=
        sub_nonneg.mpr (hbegan hmeasured)
      rw [max_eq_left hstart] at hsettled
      linarith
  · have hmax : max (s.phaseSince - s.since) 0 ≤ clock - s.since := by
      apply max_le <;> linarith
    linarith

/-- The end of an interval that began before the last reset adds more than the
time since then. -/
theorem Settled.lt_setPhase_sum (h : s.Settled) (hne : s.monitor.phase ≠ new)
    (hmeasured : Measured s.monitor.phase) (hbegan : s.phaseSince < s.since) :
    clock - s.since < (s.monitor.setPhase new clock).ncclTotalS +
      (s.monitor.setPhase new clock).computeTotalS := by
  rw [h.setPhase_sum hne, if_pos hmeasured]
  have hnccl := h.nccl_nonneg
  have hcompute := h.compute_nonneg
  linarith

/-- The account after a change of phase. -/
theorem Settled.setPhase_accounted (h : s.Settled) (hne : s.monitor.phase ≠ new)
    (hclock : s.now ≤ clock)
    (hbegan : Measured s.monitor.phase → s.since ≤ s.phaseSince) :
    (s.setPhase new clock).Accounted := by
  have hsum := h.setPhase_sum_le hne hclock hbegan
  have hentered : s.phaseSince ≤ clock := h.phaseSince_le.trans hclock
  have hnccl : (s.monitor.setPhase new clock).ncclTotalS = s.monitor.ncclTotalS +
      if s.monitor.phase = .ncclComm then clock - s.phaseSince else 0 :=
    h.setPhase_ncclTotalS hne
  constructor
  · rw [setPhase_monitor, hnccl]
    apply add_nonneg h.nccl_nonneg
    split
    · exact sub_nonneg.mpr hentered
    · exact le_refl 0
  · rw [setPhase_monitor, PhaseMonitor.setPhase_computeTotalS hne]
    apply add_nonneg h.compute_nonneg
    split
    · next hphase =>
        rw [h.compute_entered hphase]
        exact sub_nonneg.mpr hentered
    · exact le_refl 0
  · rwa [setPhase_monitor, setPhase_now, setPhase_since]
  · rw [setPhase_monitor, setPhase_nccl hne]
    split
    · next hphase => simp [← h.total_eq]
    · next hphase =>
        rw [hnccl, if_neg hphase, add_zero]
        exact h.total_eq
  · rw [setPhase_nccl hne, setPhase_since]
    split
    · next hphase =>
        intro i hi hstart
        rcases List.mem_append.mp hi with hold | hlast
        · exact h.exact_length i hold hstart
        · obtain rfl := List.mem_singleton.mp hlast
          dsimp only
          rw [hnccl, if_pos hphase, add_sub_cancel_left]
    · exact h.exact_length

theorem Settled.setPhase (h : s.Settled) (hne : s.monitor.phase ≠ new)
    (hclock : s.now ≤ clock)
    (hbegan : Measured s.monitor.phase → s.since ≤ s.phaseSince) :
    (s.setPhase new clock).Settled := by
  have hsum := h.setPhase_sum_le hne hclock hbegan
  refine ⟨h.setPhase_accounted hne hclock hbegan, ?_, ?_, ?_, ?_, ?_⟩
  · intro hphase
    rw [setPhase_monitor, PhaseMonitor.setPhase_phase] at hphase
    subst hphase
    rw [setPhase_monitor, setPhase_phaseSince hne,
      PhaseMonitor.setPhase_ncclEnterTime hne]
  · intro hphase
    rw [setPhase_monitor, PhaseMonitor.setPhase_phase] at hphase
    subst hphase
    rw [setPhase_monitor, setPhase_phaseSince hne,
      PhaseMonitor.setPhase_computeEnterTime hne]
  · rw [setPhase_monitor, setPhase_phaseSince hne, setPhase_since]
    exact hsum.trans (le_max_left _ _)
  · rw [setPhase_phaseSince hne, setPhase_now]
  · rw [setPhase_since, setPhase_now]
    exact h.since_le.trans hclock

/-- One call: the account goes on exactly if the interval it ends began since
the last reset. -/
theorem Settled.step (h : s.Settled) (c : TimedCall) :
    ∃ t, TimedMonitor.step s c = some t ∧
      (t.Accounted → s.BeganSinceReset c) ∧ (s.BeganSinceReset c → t.Settled) := by
  cases c with
  | resetStats wait =>
      refine ⟨_, rfl, fun _ => trivial, fun _ => ?_⟩
      apply h.resetStats
      exact le_add_of_nonneg_right wait.coe_nonneg
  | setPhase new wait =>
      refine ⟨_, rfl, ?_⟩
      have hclock : s.now ≤ s.now + wait := le_add_of_nonneg_right wait.coe_nonneg
      by_cases hne : s.monitor.phase = new
      · refine ⟨fun _ hchange => absurd hne hchange, fun _ => ?_⟩
        rw [setPhase_of_eq hne]
        exact h.idle hclock
      · constructor
        · intro haccounted _ hmeasured
          by_contra hbegan
          have hover : s.now + wait - s.since <
              (s.monitor.setPhase new (s.now + wait)).ncclTotalS +
                (s.monitor.setPhase new (s.now + wait)).computeTotalS :=
            h.lt_setPhase_sum hne hmeasured (not_le.mp hbegan)
          have hsum := haccounted.sum_le
          rw [setPhase_monitor, setPhase_now, setPhase_since] at hsum
          exact absurd hsum (not_le.mpr hover)
        · intro hbegan
          exact h.setPhase hne hclock (hbegan hne)

/-- **Phase time is accounted once and only since the last reset**, in every
state of a run, exactly when no call ends an NCCL or compute interval that began
before the last reset. -/
theorem accounted_iff_beganSinceReset (clock : ℚ) (calls : List TimedCall) :
    (∀ pre, pre <+: calls →
        ∀ s ∈ Runs.exec TimedMonitor.step (start clock) pre, s.Accounted) ↔
      Runs.Meets TimedMonitor.step BeganSinceReset (start clock) calls := by
  apply Runs.Meets.iff_prefixes_of_kept (fun _ h => h.toAccounted)
    (settled_start clock)
  intro s c h
  exact h.step c

/-- A compute interval from `0` to `6` with a reset at `5`: its end adds six
seconds to the total, one second after the reset. -/
theorem compute_time_before_reset :
    ∃ s ∈ Runs.exec TimedMonitor.step (start 0)
        [.setPhase .compute 0, .resetStats 5, .setPhase .idle 1],
      s.monitor.computeTotalS = 6 ∧ s.now - s.since = 1 ∧ ¬ s.Accounted := by
  refine ⟨_, rfl, ?_⟩
  have htotal : ∀ s : TimedMonitor, s.monitor.ncclTotalS = 0 →
      s.monitor.computeTotalS = 6 ∧ s.now - s.since = 1 →
      s.monitor.computeTotalS = 6 ∧ s.now - s.since = 1 ∧ ¬ s.Accounted := by
    rintro s hnccl ⟨hcompute, helapsed⟩
    refine ⟨hcompute, helapsed, fun h => ?_⟩
    have hsum := h.sum_le
    rw [hnccl, hcompute, helapsed] at hsum
    exact absurd hsum (by norm_num)
  apply htotal
  · decide +kernel
  · decide +kernel

end TimedMonitor

end Tempo
