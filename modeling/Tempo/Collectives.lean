import Mathlib.Data.Fintype.Basic
import Mathlib.Logic.Function.Basic
import Tempo.PhaseMonitor
import Tempo.Runs

/-!
# Collectives marked on one phase monitor

`nccl_phase()`, `fsdp_comm_hook` and `make_ddp_comm_hook` mark a collective in
the same way: `set_phase(NCCL_COMM)`, then the collective runs, then, from the
exit of the block or from the completion callback of the asynchronous
`all_reduce`, `set_phase(COMPUTE)`.  Any number of collectives may be between
these two calls at once, each on a thread of its own, and the calls contend
for the monitor's lock.

The monitor keeps one phase value and no count, so the `set_phase(COMPUTE)` of
one collective opens the gate for all of them.  The gate is closed whenever a
collective is in flight exactly as long as no collective ends while another
one is marked (`Solo`); `io_blocked_while_in_flight` is that statement over
whole runs, and `overlap_opens_gate` is the shortest run without it.
-/

namespace Tempo

/-- The life of one marked collective. -/
inductive CollectiveState
  | idle
  /-- in `set_phase(NCCL_COMM)`, before the collective is launched -/
  | starting (pc : SetPhasePc)
  /-- `set_phase(NCCL_COMM)` has returned -/
  | marked
  | inFlight
  /-- completed, its callback or block exit still to run -/
  | completed
  /-- in `set_phase(COMPUTE)` -/
  | ending (pc : SetPhasePc)
  | done
  deriving DecidableEq

/-- The `set_phase` call a collective is in, if any. -/
def CollectiveState.call? : CollectiveState → Option SetPhasePc
  | .starting pc => some pc
  | .ending pc => some pc
  | _ => none

/-- The collective is in flight, or about to be launched. -/
def CollectiveState.announced : CollectiveState → Bool
  | .marked => true
  | .inFlight => true
  | _ => false

/-- The collective's thread is inside the lock. -/
def CollectiveState.holdsLock (c : CollectiveState) : Bool :=
  c.call?.any SetPhasePc.holdsLock

variable {ι : Type*}

/-- A monitor, the thread that holds its lock, and the collectives. -/
structure Collectives (ι : Type*) where
  monitor : PhaseMonitor
  owner : Option ι
  coll : ι → CollectiveState

namespace Collectives

/-- A fresh monitor and no collective. -/
def init : Collectives ι :=
  { monitor := {}, owner := none, coll := fun _ => .idle }

inductive Event (ι : Type*)
  /-- a hook is called or an `nccl_phase()` block is entered -/
  | begin (i : ι)
  /-- the next statement of the `set_phase` call of `i` -/
  | setPhase (i : ι) (now : ℚ)
  | launch (i : ι)
  | complete (i : ι)
  /-- the completion callback or the block exit starts -/
  | finish (i : ι)

variable [DecidableEq ι]

/-- Put collective `i` in state `c`. -/
def setColl (s : Collectives ι) (i : ι) (c : CollectiveState) :
    Collectives ι :=
  { s with coll := Function.update s.coll i c }

@[simp] theorem setColl_self (s : Collectives ι) (i : ι)
    (c : CollectiveState) : (s.setColl i c).coll i = c := by
  simp [setColl]

theorem setColl_ne {s : Collectives ι} {i j : ι} (c : CollectiveState)
    (h : j ≠ i) : (s.setColl i c).coll j = s.coll j := by
  simp [setColl, h]

/-- What holds of the new state of collective `i` and of all the others. -/
theorem forall_setColl {s : Collectives ι} {i : ι} {c : CollectiveState}
    {P : ι → CollectiveState → Prop} (hi : P i c)
    (hothers : ∀ j, j ≠ i → P j (s.coll j)) : ∀ j, P j ((s.setColl i c).coll j) := by
  intro j
  by_cases hj : j = i
  · subst hj
    rwa [setColl_self]
  · rw [setColl_ne c hj]
    exact hothers j hj

@[simp] theorem setColl_monitor (s : Collectives ι) (i : ι)
    (c : CollectiveState) : (s.setColl i c).monitor = s.monitor := rfl

@[simp] theorem setColl_owner (s : Collectives ι) (i : ι)
    (c : CollectiveState) : (s.setColl i c).owner = s.owner := rfl

/-- Advance the `set_phase` call `pc` of collective `i`; `resume` is the state
during the rest of the call and `returned` the state after it. -/
def advance (s : Collectives ι) (i : ι) (now : ℚ) (pc : SetPhasePc)
    (resume : SetPhasePc → CollectiveState) (returned : CollectiveState) :
    Option (Collectives ι) :=
  (setPhaseStep s.monitor s.owner.isSome now pc).map fun r =>
    match r.2 with
    | some pc' =>
        { s with monitor := r.1, owner := some i }.setColl i (resume pc')
    | none => { s with monitor := r.1, owner := none }.setColl i returned

/-- One step of one collective's thread. -/
def step (s : Collectives ι) : Event ι → Option (Collectives ι)
  | .begin i =>
      if s.coll i = .idle then
        some (s.setColl i (.starting (.call .ncclComm)))
      else none
  | .setPhase i now =>
      match s.coll i with
      | .starting pc => s.advance i now pc .starting .marked
      | .ending pc => s.advance i now pc .ending .done
      | _ => none
  | .launch i =>
      if s.coll i = .marked then some (s.setColl i .inFlight) else none
  | .complete i =>
      if s.coll i = .inFlight then some (s.setColl i .completed) else none
  | .finish i =>
      if s.coll i = .completed then
        some (s.setColl i (.ending (.call .compute)))
      else none

/-- The condition on a step: when the `set_phase(COMPUTE)` of one collective
takes the lock, no other collective is in flight or about to be launched. -/
def Solo (s : Collectives ι) : Event ι → Prop
  | .setPhase i _ =>
      s.coll i = .ending (.call .compute) →
        ∀ j, j ≠ i → (s.coll j).announced = false
  | _ => True

instance [Fintype ι] (s : Collectives ι) : ∀ e, Decidable (Solo s e)
  | .setPhase i _ =>
      inferInstanceAs (Decidable (s.coll i = .ending (.call .compute) →
        ∀ j, j ≠ i → (s.coll j).announced = false))
  | .begin _ => isTrue trivial
  | .launch _ => isTrue trivial
  | .complete _ => isTrue trivial
  | .finish _ => isTrue trivial

/-- What holds while `_lock` is held by the thread of a collective in state
`c`; `quiet` says that no collective is announced. -/
def Held (m : PhaseMonitor) (quiet : Prop) : CollectiveState → Prop
  | .starting pc =>
      m.phase ≠ .ncclComm ∧
        (pc = .storing .ncclComm → m.ioAllowed = false)
  | .ending _ => quiet
  | _ => True

/-- No collective is in flight or about to be launched. -/
def Quiet (s : Collectives ι) : Prop := ∀ i, (s.coll i).announced = false

/-- The invariant of solo runs. -/
structure Inv (s : Collectives ι) : Prop where
  owner_iff : ∀ i, s.owner = some i ↔ (s.coll i).holdsLock = true
  starting_target : ∀ i pc, s.coll i = .starting pc → pc.target = .ncclComm
  ending_target : ∀ i pc, s.coll i = .ending pc → pc.target = .compute
  held : ∀ i, s.owner = some i → Held s.monitor s.Quiet (s.coll i)
  free : s.owner = none → s.monitor.phase = .ncclComm →
    s.monitor.ioAllowed = false
  blocked : ∀ i, (s.coll i).announced = true →
    s.monitor.phase = .ncclComm ∧ s.monitor.ioAllowed = false

omit [DecidableEq ι] in
theorem inv_init : Inv (init : Collectives ι) where
  owner_iff := by simp [init, CollectiveState.holdsLock, CollectiveState.call?]
  starting_target := by simp [init]
  ending_target := by simp [init]
  held := by simp [init]
  free := by simp [init]
  blocked := by simp [init, CollectiveState.announced]

/-- A step of collective `i` outside `set_phase`, from a state that does not
hold the lock to one that does not. -/
theorem Inv.setColl {s : Collectives ι} (hs : Inv s) {i : ι}
    {c : CollectiveState}
    (hout : (s.coll i).holdsLock = false) (hin : c.holdsLock = false)
    (hstarting : ∀ pc, c = .starting pc → pc.target = .ncclComm)
    (hending : ∀ pc, c = .ending pc → pc.target = .compute)
    (hann : c.announced = true → (s.coll i).announced = true) :
    Inv (s.setColl i c) := by
  have hquiet : s.Quiet → (s.setColl i c).Quiet := by
    intro hq j
    by_cases hj : j = i
    · subst hj
      have hnot := hq j
      cases hc : c.announced
      · simp [hc]
      · simp [hann hc] at hnot
    · rw [setColl_ne c hj]; exact hq j
  constructor
  · intro j
    by_cases hj : j = i
    · subst hj
      simpa [hin, hout] using hs.owner_iff j
    · simpa [setColl_ne c hj] using hs.owner_iff j
  · exact forall_setColl (P := fun _ c => ∀ pc, c = .starting pc → pc.target = .ncclComm)
      hstarting fun j _ => hs.starting_target j
  · exact forall_setColl (P := fun _ c => ∀ pc, c = .ending pc → pc.target = .compute)
      hending fun j _ => hs.ending_target j
  · intro j h
    by_cases hj : j = i
    · subst hj
      have := (hs.owner_iff j).mp (by simpa using h)
      simp [hout] at this
    · have hheld := hs.held j (by simpa using h)
      rw [setColl_ne c hj, setColl_monitor]
      cases hc : s.coll j <;> simp_all [Held]
  · simpa using hs.free
  · exact forall_setColl
      (P := fun _ c => c.announced = true →
        s.monitor.phase = .ncclComm ∧ s.monitor.ioAllowed = false)
      (fun h => hs.blocked i (hann h)) fun j _ => hs.blocked j

/-- A step of collective `i` under the lock, which it holds or which is free.
No other thread holds the lock, so only what collective `i` itself promises
and what the announced collectives rely on has to be checked. -/
theorem Inv.lockStep {s : Collectives ι} (hs : Inv s) {i : ι}
    {m : PhaseMonitor} {o : Option ι} {c : CollectiveState}
    (hmine : s.owner = none ∨ s.owner = some i)
    (howner : o = if c.holdsLock then some i else none)
    (hstarting : ∀ pc, c = .starting pc → pc.target = .ncclComm)
    (hending : ∀ pc, c = .ending pc → pc.target = .compute)
    (hheld : c.holdsLock = true →
      Held m (∀ j, j ≠ i → (s.coll j).announced = false) c)
    (hfree : o = none → m.phase = .ncclComm → m.ioAllowed = false)
    (hothers : ∀ j, j ≠ i → (s.coll j).announced = true →
      m.phase = .ncclComm ∧ m.ioAllowed = false)
    (hself : c.announced = true → m.phase = .ncclComm ∧ m.ioAllowed = false) :
    Inv ({ s with monitor := m, owner := o }.setColl i c) := by
  have hother : ∀ j, j ≠ i → (s.coll j).holdsLock = false := by
    intro j hj
    by_contra hne
    have hown := (hs.owner_iff j).mpr (by simpa using hne)
    rcases hmine with h | h <;> rw [h] at hown
    · cases hown
    · exact hj (Option.some.inj hown).symm
  constructor
  · intro j
    by_cases hj : j = i
    · subst hj
      cases hc : c.holdsLock <;> simp [howner, hc]
    · have hj' : i ≠ j := fun h => hj h.symm
      rw [setColl_ne c hj]
      cases hc : c.holdsLock <;> simp [howner, hc, hother j hj, hj']
  · exact forall_setColl (P := fun _ c => ∀ pc, c = .starting pc → pc.target = .ncclComm)
      hstarting fun j _ => hs.starting_target j
  · exact forall_setColl (P := fun _ c => ∀ pc, c = .ending pc → pc.target = .compute)
      hending fun j _ => hs.ending_target j
  · intro j h
    have hlock : c.holdsLock = true ∧ j = i := by
      cases hc : c.holdsLock
      · simp [howner, hc] at h
      · exact ⟨rfl, by simpa [howner, hc, eq_comm] using h⟩
    obtain ⟨hlock, rfl⟩ := hlock
    have hh := hheld hlock
    rw [setColl_self, setColl_monitor]
    cases hc : c with
    | ending pc =>
        simp only [Held, hc] at hh ⊢
        intro k
        by_cases hk : k = j
        · subst hk; simp [CollectiveState.announced]
        · simpa [setColl_ne _ hk] using hh k hk
    | starting pc => simpa [Held, hc] using hh
    | _ => trivial
  · simpa using hfree
  · exact forall_setColl
      (P := fun _ c => c.announced = true → m.phase = .ncclComm ∧ m.ioAllowed = false)
      hself hothers

/-- The statements of `set_phase(NCCL_COMM)` keep the invariant. -/
theorem Inv.starting {s t : Collectives ι} (hs : Inv s) {i : ι} {now : ℚ}
    {pc : SetPhasePc} (hpc : s.coll i = .starting pc)
    (hstep : s.advance i now pc .starting .marked = some t) : Inv t := by
  have htarget := hs.starting_target i pc hpc
  obtain ⟨r, hr, rfl⟩ := Option.map_eq_some_iff.mp hstep
  -- once the lock is held, the phase is another one until it is stored
  have hlocked : pc.holdsLock = true →
      s.owner = some i ∧ s.monitor.phase ≠ .ncclComm ∧
        (pc = .storing .ncclComm → s.monitor.ioAllowed = false) := by
    intro hl
    have hown : s.owner = some i :=
      (hs.owner_iff i).mpr (by rw [hpc]; exact hl)
    have hheld := hs.held i hown
    rw [hpc] at hheld
    exact ⟨hown, hheld⟩
  cases pc with
  | call new =>
      obtain rfl : new = .ncclComm := htarget
      cases ho : s.owner with
      | some j => simp [setPhaseStep, ho] at hr
      | none =>
          by_cases hp : s.monitor.phase = .ncclComm
          · -- already in the NCCL phase: the call returns at once
            obtain rfl : (s.monitor, none) = r := by
              simpa [setPhaseStep, ho, hp] using hr
            have hgate := hs.free ho hp
            exact hs.lockStep (.inl ho) rfl (by simp) (by simp)
              (by simp [CollectiveState.holdsLock, CollectiveState.call?])
              (fun _ _ => hgate) (fun _ _ _ => ⟨hp, hgate⟩)
              (fun _ => ⟨hp, hgate⟩)
          · obtain rfl : (s.monitor, some (.leaving .ncclComm now)) = r := by
              simpa [setPhaseStep, ho, hp] using hr
            exact hs.lockStep (.inl ho) rfl (by simp [SetPhasePc.target])
              (by simp) (fun _ => ⟨hp, by simp⟩) (by simp)
              (fun j _ hj => hs.blocked j hj)
              (by simp [CollectiveState.announced])
  | leaving new now' =>
      obtain rfl : new = .ncclComm := htarget
      obtain ⟨hown, hphase, -⟩ := hlocked rfl
      obtain rfl : (s.monitor.leavePhase now',
          some (SetPhasePc.entering .ncclComm now')) = r := by
        simpa [setPhaseStep] using hr
      exact hs.lockStep (.inr hown) rfl (by simp [SetPhasePc.target])
        (by simp) (fun _ => ⟨by simpa using hphase, by simp⟩) (by simp)
        (fun j _ hj => absurd (hs.blocked j hj).1 hphase)
        (by simp [CollectiveState.announced])
  | entering new now' =>
      obtain rfl : new = .ncclComm := htarget
      obtain ⟨hown, hphase, -⟩ := hlocked rfl
      obtain rfl : (s.monitor.enterPhase .ncclComm now',
          some (SetPhasePc.storing .ncclComm)) = r := by
        simpa [setPhaseStep] using hr
      -- the gate closes here, one statement before the phase changes
      exact hs.lockStep (.inr hown) rfl (by simp [SetPhasePc.target])
        (by simp)
        (fun _ => ⟨by simpa using hphase, fun _ => rfl⟩) (by simp)
        (fun j _ hj => absurd (hs.blocked j hj).1 hphase)
        (by simp [CollectiveState.announced])
  | storing new =>
      obtain rfl : new = .ncclComm := htarget
      obtain ⟨hown, -, hstoring⟩ := hlocked rfl
      obtain rfl : (s.monitor.storePhase .ncclComm, none) = r := by
        simpa [setPhaseStep] using hr
      have hgate := hstoring rfl
      exact hs.lockStep (.inr hown) rfl (by simp) (by simp)
        (by simp [CollectiveState.holdsLock, CollectiveState.call?])
        (fun _ _ => hgate) (fun _ _ _ => ⟨rfl, hgate⟩)
        (fun _ => ⟨rfl, hgate⟩)

/-- The statements of `set_phase(COMPUTE)` keep the invariant when the call
takes the lock with no other collective announced. -/
theorem Inv.ending {s t : Collectives ι} (hs : Inv s) {i : ι} {now : ℚ}
    {pc : SetPhasePc} (hpc : s.coll i = .ending pc)
    (hsolo : pc = .call .compute → ∀ j, j ≠ i → (s.coll j).announced = false)
    (hstep : s.advance i now pc .ending .done = some t) : Inv t := by
  have htarget := hs.ending_target i pc hpc
  obtain ⟨r, hr, rfl⟩ := Option.map_eq_some_iff.mp hstep
  -- once the lock is held, nothing is announced until it is released
  have hquiet : pc.holdsLock = true →
      s.owner = some i ∧ ∀ j, j ≠ i → (s.coll j).announced = false := by
    intro hl
    have hown : s.owner = some i :=
      (hs.owner_iff i).mpr (by rw [hpc]; exact hl)
    have hheld := hs.held i hown
    rw [hpc] at hheld
    exact ⟨hown, fun j _ => hheld j⟩
  cases pc with
  | call new =>
      obtain rfl : new = .compute := htarget
      have hothers := hsolo rfl
      cases ho : s.owner with
      | some j => simp [setPhaseStep, ho] at hr
      | none =>
          by_cases hp : s.monitor.phase = .compute
          · obtain rfl : (s.monitor, none) = r := by
              simpa [setPhaseStep, ho, hp] using hr
            exact hs.lockStep (.inl ho) rfl (by simp) (by simp)
              (by simp [CollectiveState.holdsLock, CollectiveState.call?])
              (by simp [hp]) (fun j hj h => by simp [hothers j hj] at h)
              (by simp [CollectiveState.announced])
          · obtain rfl : (s.monitor, some (.leaving .compute now)) = r := by
              simpa [setPhaseStep, ho, hp] using hr
            exact hs.lockStep (.inl ho) rfl (by simp)
              (by simp [SetPhasePc.target]) (fun _ => hothers) (by simp)
              (fun j hj h => by simp [hothers j hj] at h)
              (by simp [CollectiveState.announced])
  | leaving new now' =>
      obtain rfl : new = .compute := htarget
      obtain ⟨hown, hothers⟩ := hquiet rfl
      obtain rfl : (s.monitor.leavePhase now',
          some (SetPhasePc.entering .compute now')) = r := by
        simpa [setPhaseStep] using hr
      exact hs.lockStep (.inr hown) rfl (by simp)
        (by simp [SetPhasePc.target]) (fun _ => hothers) (by simp)
        (fun j hj h => by simp [hothers j hj] at h)
        (by simp [CollectiveState.announced])
  | entering new now' =>
      obtain rfl : new = .compute := htarget
      obtain ⟨hown, hothers⟩ := hquiet rfl
      obtain rfl : (s.monitor.enterPhase .compute now',
          some (SetPhasePc.storing .compute)) = r := by
        simpa [setPhaseStep] using hr
      exact hs.lockStep (.inr hown) rfl (by simp)
        (by simp [SetPhasePc.target]) (fun _ => hothers) (by simp)
        (fun j hj h => by simp [hothers j hj] at h)
        (by simp [CollectiveState.announced])
  | storing new =>
      obtain rfl : new = .compute := htarget
      obtain ⟨hown, hothers⟩ := hquiet rfl
      obtain rfl : (s.monitor.storePhase .compute, none) = r := by
        simpa [setPhaseStep] using hr
      exact hs.lockStep (.inr hown) rfl (by simp) (by simp)
        (by simp [CollectiveState.holdsLock, CollectiveState.call?])
        (by simp) (fun j hj h => by simp [hothers j hj] at h)
        (by simp [CollectiveState.announced])

/-- One solo step keeps the invariant. -/
theorem Inv.step {s t : Collectives ι} {e : Event ι} (hs : Inv s)
    (hsolo : Solo s e) (hstep : step s e = some t) : Inv t := by
  cases e with
  | begin i =>
      obtain ⟨hi, rfl⟩ := by simpa [Collectives.step] using hstep
      exact hs.setColl (by rw [hi]; rfl) rfl
        (by simp [SetPhasePc.target]) (by simp)
        (by simp [CollectiveState.announced])
  | setPhase i now =>
      cases hpc : s.coll i with
      | starting pc =>
          exact hs.starting hpc (by simpa [Collectives.step, hpc] using hstep)
      | ending pc =>
          refine hs.ending hpc ?_
            (by simpa [Collectives.step, hpc] using hstep)
          rintro rfl
          exact hsolo hpc
      | _ => simp [Collectives.step, hpc] at hstep
  | launch i =>
      obtain ⟨hi, rfl⟩ := by simpa [Collectives.step] using hstep
      exact hs.setColl (by rw [hi]; rfl) rfl (by simp) (by simp)
        (fun _ => by rw [hi]; rfl)
  | complete i =>
      obtain ⟨hi, rfl⟩ := by simpa [Collectives.step] using hstep
      exact hs.setColl (by rw [hi]; rfl) rfl (by simp) (by simp)
        (by simp [CollectiveState.announced])
  | finish i =>
      obtain ⟨hi, rfl⟩ := by simpa [Collectives.step] using hstep
      exact hs.setColl (by rw [hi]; rfl) rfl (by simp)
        (by simp [SetPhasePc.target]) (by simp [CollectiveState.announced])

/-- **I/O is blocked while a collective is in flight.**  In every run in which
no `set_phase(COMPUTE)` takes the lock while another collective is announced,
every state with a collective in flight has the gate closed and grants no
flush rate. -/
theorem io_blocked_while_in_flight {s : Collectives ι}
    (hrun : Runs.Reach step Solo init s) {i : ι} (hi : s.coll i = .inFlight) :
    s.monitor.isIoAllowed = false ∧
      ∀ requested nccl ceiling margin,
        s.monitor.getDynamicFlushRate requested nccl ceiling margin = 0 := by
  have hinv : Inv s := hrun.invariant inv_init fun _ _ _ => Inv.step
  obtain ⟨hphase, hgate⟩ := hinv.blocked i (by rw [hi]; rfl)
  exact ⟨hgate, PhaseMonitor.getDynamicFlushRate_nccl hphase⟩

/-- The condition is exact: from a state of a solo run, an end that is not solo
because `j` is in flight runs to a state with the gate open and `j` still in
flight. -/
theorem unsolo_end_opens_gate {s : Collectives ι} (hs : Inv s) {i j : ι}
    (hij : j ≠ i) (hi : s.coll i = .ending (.call .compute))
    (hj : s.coll j = .inFlight) (hfree : s.owner = none) (now : ℚ) :
    ∃ t, Runs.Reachable step s t ∧ t.coll j = .inFlight ∧
      t.monitor.isIoAllowed = true := by
  have hphase : s.monitor.phase = .ncclComm :=
    (hs.blocked j (by rw [hj]; rfl)).1
  have hstep : ∀ (u : Collectives ι) (pc : SetPhasePc),
      u.coll i = .ending pc → Collectives.step u (.setPhase i now) =
        u.advance i now pc .ending .done := by
    intro u pc hpc
    simp [Collectives.step, hpc]
  refine Runs.Reachable.exists_of_exec
    [.setPhase i now, .setPhase i now, .setPhase i now, .setPhase i now] ?_
  simp only [Runs.exec, hstep s _ hi, advance, setPhaseStep, hfree, hphase]
  simp [hstep, advance, setPhaseStep, setColl, hij, hj, hphase,
    PhaseMonitor.isIoAllowed, PhaseMonitor.leavePhase_ioAllowed,
    PhaseMonitor.enterPhase_ioAllowed]

/-- Two overlapping collectives: `true` is launched while `false` is in
flight, and `false` completes first. -/
def overlappingEvents : List (Event Bool) :=
  [.begin false, .setPhase false 0, .setPhase false 0, .setPhase false 0,
    .setPhase false 0, .launch false,
   .begin true, .setPhase true 1, .launch true,
   .complete false, .finish false, .setPhase false 2, .setPhase false 2,
    .setPhase false 2, .setPhase false 2]

/-- The gate is open and the full requested rate is granted with a collective
in flight. -/
theorem overlap_opens_gate :
    ∃ s : Collectives Bool, Runs.Reachable step init s ∧
      s.coll true = .inFlight ∧ s.monitor.isIoAllowed = true ∧
      s.monitor.getDynamicFlushRate 1000 0 64000000000 (1 / 10) = 1000 :=
  Runs.Reachable.exists_of_exec overlappingEvents (by decide +kernel)

/-- `true` waits for the lock while `false` is in flight, and is launched when
`false` has ended. -/
def consecutiveEvents : List (Event Bool) :=
  [.begin false, .setPhase false 0, .setPhase false 0, .setPhase false 0,
    .setPhase false 0, .launch false,
   .begin true, .complete false, .finish false,
   .setPhase false 1, .setPhase false 1, .setPhase false 1, .setPhase false 1,
   .setPhase true 2, .setPhase true 2, .setPhase true 2, .setPhase true 2,
    .launch true]

/-- The gate is closed for the second of two collectives, although the first
has opened it. -/
theorem io_blocked_second :
    ∃ s : Collectives Bool, Runs.Reach step Solo init s ∧
      s.coll false = .done ∧ s.coll true = .inFlight ∧
      s.monitor.isIoAllowed = false ∧
      s.monitor.getDynamicFlushRate 1000 0 64000000000 (1 / 10) = 0 := by
  obtain ⟨s, hrun, hdone, hi⟩ : ∃ s : Collectives Bool,
      Runs.Reach step Solo init s ∧
        s.coll false = .done ∧ s.coll true = .inFlight :=
    Runs.Reach.exists_of_exec consecutiveEvents
      (by decide +kernel) (by decide +kernel)
  obtain ⟨hgate, hrate⟩ := io_blocked_while_in_flight hrun hi
  exact ⟨s, hrun, hdone, hi, hgate, hrate _ _ _ _⟩

end Collectives

end Tempo
