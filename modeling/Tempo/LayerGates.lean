import Mathlib.Data.Fintype.Basic
import Mathlib.Logic.Function.Basic
import Tempo.Runs

/-!
# The micro-gates of the layers

The coordinator has one gate a layer.  The training thread resets all of them
at `begin_step` and records in one at `on_layer_ar_done`; the flush thread waits
at a gate before it writes the layer.  A gate has a CUDA event, on which an I/O
stream waits, and a CPU event for callers without a stream.  A reset clears the
CPU event and makes a new CUDA event; each is a step, and so is each look at
either.  To wait for a CUDA event without recorded work is nothing.

`event` counts the resets of a gate and so names its CUDA event, also where
there is no CUDA.  `arDone` lists the events that were the gate's own when
`on_layer_ar_done` was called with the gate's layer.  Every wait that returns
leaves an entry in `passes`, with the event the gate had when it was called.
-/

namespace Tempo

open Runs

structure LayerMicroGate where
  /-- there is a CUDA event -/
  useCuda : Bool
  cpuGate : Bool := false
  event : Nat := 0
  recorded : List Nat := []
  arDone : List Nat := []

/-- How a wait ends. -/
inductive GateOutcome
  /-- the CPU event was set -/
  | fired
  | timedOut
  /-- the stream waits for recorded work -/
  | recorded
  | unrecorded
  deriving DecidableEq

/-- A wait that has returned; `arDone` says whether `on_layer_ar_done` had been
called for the layer since the last reset before the wait. -/
structure GatePass (n : Nat) where
  layer : Fin n
  since : Nat
  outcome : GateOutcome
  arDone : Bool
  deriving DecidableEq

/-- Where the training thread stands. -/
inductive TrainPc (n : Nat)
  | idle
  /-- in `begin_step`, at `self._cpu_gate.clear()` of gate `k` -/
  | clear (k : Nat)
  /-- at the new CUDA event of gate `k` -/
  | renew (k : Nat)
  /-- in `record`, at `self._cpu_gate.set()` -/
  | set (layer : Fin n)
  deriving DecidableEq

/-- Where the flush thread stands. -/
inductive GateWaitPc (n : Nat)
  | idle
  /-- `wait` is called -/
  | called (layer : Fin n) (stream : Bool) (since : Nat)
  /-- `stream.wait_event(event)` -/
  | waitEvent (layer : Fin n) (since event : Nat)
  /-- in `self._cpu_gate.wait` -/
  | blocked (layer : Fin n) (since : Nat)
  /-- woken by `set()` -/
  | woken (layer : Fin n) (since : Nat)
  deriving DecidableEq

/-- The gates and the two threads. -/
structure LayerGates (n : Nat) where
  gates : Fin n → LayerMicroGate
  train : TrainPc n := .idle
  flush : GateWaitPc n := .idle
  passes : List (GatePass n) := []

namespace LayerGates

variable {n : Nat}

inductive Event (n : Nat) where
  | beginStep
  | onLayerArDone (layerId : Int)
  /-- the next statement of the training thread -/
  | train
  /-- with an I/O stream, or without -/
  | waitLayerGate (layer : Fin n) (ioStream : Bool)
  /-- the next statement of the flush thread -/
  | flush
  /-- the CPU wait ends by its timeout -/
  | timeout

def init (n : Nat) (useCuda : Bool) : LayerGates n :=
  { gates := fun _ => { useCuda } }

/-- An index into a Python list, which counts from the end if negative. -/
def pyIndex (n : Nat) (i : Int) : Option (Fin n) :=
  let k := if i < 0 then n + i else i
  if h : 0 ≤ k ∧ k < n then some ⟨k.toNat, by omega⟩ else none

variable (s : LayerGates n)

def setGate (layer : Fin n) (gate : LayerMicroGate) : LayerGates n :=
  { s with gates := Function.update s.gates layer gate }

/-- `record`, up to the CPU event. -/
def record (layer : Fin n) : LayerGates n :=
  let gate := s.gates layer
  { s.setGate layer { gate with
      recorded := if gate.useCuda then gate.recorded ++ [gate.event]
        else gate.recorded } with
    train := .set layer }

/-- The call is noted for the layer it names. -/
def noteArDone (layerId : Int) : LayerGates n :=
  { s with
    gates := fun layer =>
      if (layer : Int) = layerId then
        { s.gates layer with
          arDone := (s.gates layer).arDone ++ [(s.gates layer).event] }
      else s.gates layer }

def onLayerArDone (layerId : Int) : LayerGates n :=
  if n ≤ layerId then s
  else
    match pyIndex n layerId with
    | some layer => (s.noteArDone layerId).record layer
    -- raises `IndexError`
    | none => s

/-- The next statement of the training thread. -/
def trainStep : Option (LayerGates n) :=
  match s.train with
  | .idle => none
  | .clear k =>
      if h : k < n then
        some { s.setGate ⟨k, h⟩ { s.gates ⟨k, h⟩ with cpuGate := false } with
          train := .renew k }
      else some { s with train := .idle }
  | .renew k =>
      if h : k < n then
        some { s.setGate ⟨k, h⟩
            { s.gates ⟨k, h⟩ with event := (s.gates ⟨k, h⟩).event + 1 } with
          train := .clear (k + 1) }
      else none
  | .set layer =>
      some { s.setGate layer { s.gates layer with cpuGate := true } with
        train := .idle
        flush :=
          match s.flush with
          | .blocked l since =>
              if l = layer then .woken l since else .blocked l since
          | pc => pc }

/-- The wait returns. -/
def pass (layer : Fin n) (since : Nat) (outcome : GateOutcome) :
    LayerGates n :=
  { s with
    flush := .idle
    passes := s.passes ++
      [{ layer, since, outcome
         arDone := (s.gates layer).arDone.any fun event => since ≤ event }] }

/-- The next statement of the flush thread. -/
def flushStep : Option (LayerGates n) :=
  match s.flush with
  | .idle | .blocked _ _ => none
  | .called layer stream since =>
      if (s.gates layer).useCuda && stream then
        some { s with flush := .waitEvent layer since (s.gates layer).event }
      else if (s.gates layer).cpuGate then some (s.pass layer since .fired)
      else some { s with flush := .blocked layer since }
  | .waitEvent layer since event =>
      some (s.pass layer since
        (if event ∈ (s.gates layer).recorded then .recorded else .unrecorded))
  | .woken layer since => some (s.pass layer since .fired)

def step : Event n → Option (LayerGates n)
  | .beginStep =>
      if s.train = .idle then some { s with train := .clear 0 } else none
  | .onLayerArDone layerId =>
      if s.train = .idle then some (s.onLayerArDone layerId) else none
  | .train => s.trainStep
  | .waitLayerGate layer ioStream =>
      if s.flush = .idle then
        some { s with flush := .called layer ioStream (s.gates layer).event }
      else none
  | .flush => s.flushStep
  | .timeout =>
      match s.flush with
      | .blocked layer since => some (s.pass layer since .timedOut)
      | _ => none

/-- The index of an `on_layer_ar_done` does not count from the end. -/
def FromStart : Event n → Prop
  | .onLayerArDone layerId => 0 ≤ layerId ∨ layerId < -n
  | _ => True

instance : ∀ e : Event n, Decidable (FromStart e)
  | .onLayerArDone _ => inferInstanceAs (Decidable (_ ∨ _))
  | .beginStep | .train | .waitLayerGate _ _ | .flush | .timeout =>
      isTrue trivial

end LayerGates

namespace LayerMicroGate

/-- What is recorded or set comes from a call with the gate's layer. -/
structure Told (g : LayerMicroGate) : Prop where
  recorded : ∀ event ∈ g.recorded, event ∈ g.arDone
  cpuGate : g.cpuGate = true → g.event ∈ g.arDone

/-- Resets and calls are only added. -/
structure Grows (g g' : LayerMicroGate) : Prop where
  event : g.event ≤ g'.event
  arDone : g.arDone ⊆ g'.arDone

theorem Grows.rfl {g : LayerMicroGate} : g.Grows g :=
  ⟨le_rfl, List.Subset.refl _⟩

end LayerMicroGate

namespace LayerGates

variable {n : Nat} {gates gates' : Fin n → LayerMicroGate}
  {s t : LayerGates n}

/-- What the training thread's position says about the gates. -/
def TrainOk (gates : Fin n → LayerMicroGate) : TrainPc n → Prop
  | .renew k => ∀ h : k < n, (gates ⟨k, h⟩).cpuGate = false
  | .set layer => (gates layer).event ∈ (gates layer).arDone
  | .idle | .clear _ => True

/-- What the flush thread's position says about the gates. -/
def FlushOk (gates : Fin n → LayerMicroGate) : GateWaitPc n → Prop
  | .idle => True
  | .called layer _ since | .blocked layer since => since ≤ (gates layer).event
  | .waitEvent _ since event => since ≤ event
  | .woken layer since => ∃ event ∈ (gates layer).arDone, since ≤ event

theorem FlushOk.mono {pc : GateWaitPc n} (h : FlushOk gates pc)
    (hgrows : ∀ layer, (gates layer).Grows (gates' layer)) :
    FlushOk gates' pc := by
  cases pc with
  | idle => trivial
  | called layer stream since => exact Nat.le_trans h (hgrows layer).event
  | waitEvent layer since event => exact h
  | blocked layer since => exact Nat.le_trans h (hgrows layer).event
  | woken layer since =>
      obtain ⟨event, hevent, hle⟩ := h
      exact ⟨event, (hgrows layer).arDone hevent, hle⟩

/-- What holds when no index counts from the end. -/
structure InOrder (s : LayerGates n) : Prop where
  gates : ∀ layer, (s.gates layer).Told
  train : TrainOk s.gates s.train
  flush : FlushOk s.gates s.flush
  passes : ∀ p ∈ s.passes, p.outcome = .fired ∨ p.outcome = .recorded →
    p.arDone = true

theorem inOrder_init (useCuda : Bool) : (init n useCuda).InOrder where
  gates _ := ⟨by simp [init], by simp [init]⟩
  train := trivial
  flush := trivial
  passes := by simp [init]

theorem setGate_gates_self (layer : Fin n) (gate : LayerMicroGate) :
    (s.setGate layer gate).gates layer = gate :=
  Function.update_self ..

theorem setGate_gates_of_ne {layer l : Fin n} (hl : l ≠ layer)
    (gate : LayerMicroGate) : (s.setGate layer gate).gates l = s.gates l :=
  Function.update_of_ne hl ..

/-- All gates are as they should be after one of them has been replaced. -/
theorem told_setGate (h : ∀ layer, (s.gates layer).Told) {layer : Fin n}
    {gate : LayerMicroGate} (hgate : gate.Told) (l : Fin n) :
    ((s.setGate layer gate).gates l).Told := by
  by_cases hl : l = layer
  · rw [hl, setGate_gates_self]
    exact hgate
  · rw [setGate_gates_of_ne hl]
    exact h l

theorem grows_setGate {layer : Fin n} {gate : LayerMicroGate}
    (hgate : (s.gates layer).Grows gate) (l : Fin n) :
    (s.gates l).Grows ((s.setGate layer gate).gates l) := by
  by_cases hl : l = layer
  · rw [hl, setGate_gates_self]
    exact hgate
  · rw [setGate_gates_of_ne hl]
    exact .rfl

theorem InOrder.trainStep (h : s.InOrder) (hstep : s.trainStep = some t) :
    t.InOrder := by
  obtain ⟨hgates, htrain, hflush, hpasses⟩ := h
  cases hpc : s.train with
  | idle => simp [LayerGates.trainStep, hpc] at hstep
  | clear k =>
      by_cases hk : k < n
      · obtain rfl := by simpa [LayerGates.trainStep, hpc, hk] using hstep
        refine ⟨told_setGate hgates ⟨(hgates _).recorded, by simp⟩, fun hk' => ?_,
          hflush.mono (grows_setGate ⟨le_rfl, List.Subset.refl _⟩), hpasses⟩
        rw [setGate_gates_self]
      · obtain rfl := by simpa [LayerGates.trainStep, hpc, hk] using hstep
        exact ⟨hgates, trivial, hflush, hpasses⟩
  | renew k =>
      by_cases hk : k < n
      · obtain rfl := by simpa [LayerGates.trainStep, hpc, hk] using hstep
        rw [hpc] at htrain
        have hclear : (s.gates ⟨k, hk⟩).cpuGate = false := htrain hk
        exact ⟨told_setGate hgates ⟨(hgates _).recorded, by simp [hclear]⟩,
          trivial, hflush.mono (grows_setGate
            ⟨Nat.le_succ _, List.Subset.refl _⟩), hpasses⟩
      · simp [LayerGates.trainStep, hpc, hk] at hstep
  | set layer =>
      obtain rfl := by simpa [LayerGates.trainStep, hpc] using hstep
      rw [hpc] at htrain
      have hset : (s.gates layer).event ∈ (s.gates layer).arDone := htrain
      have hgrown : FlushOk (s.setGate layer
          { s.gates layer with cpuGate := true }).gates s.flush :=
        hflush.mono (grows_setGate ⟨le_rfl, List.Subset.refl _⟩)
      refine ⟨told_setGate hgates ⟨(hgates _).recorded, fun _ => hset⟩, trivial,
        ?_, hpasses⟩
      dsimp only
      split
      · next l since hblocked =>
          rw [hblocked] at hgrown
          split
          · next hl =>
              have hsince : since ≤ (s.gates layer).event := by
                rw [hblocked, hl] at hflush
                exact hflush
              refine ⟨(s.gates layer).event, ?_, hsince⟩
              rw [hl, setGate_gates_self]
              exact hset
          · exact hgrown
      · exact hgrown

/-- A wait that returns has its entry, right if the call has been made since
the reset. -/
theorem InOrder.pass (h : s.InOrder) {layer : Fin n} {since : Nat}
    {outcome : GateOutcome}
    (hdone : outcome = .fired ∨ outcome = .recorded →
      ∃ event ∈ (s.gates layer).arDone, since ≤ event) :
    (s.pass layer since outcome).InOrder where
  gates := h.gates
  train := h.train
  flush := trivial
  passes := by
    intro p hp hends
    rcases List.mem_append.mp hp with hold | hnew
    · exact h.passes p hold hends
    · obtain rfl := List.mem_singleton.mp hnew
      simpa using hdone hends

theorem InOrder.flushStep (h : s.InOrder) (hstep : s.flushStep = some t) :
    t.InOrder := by
  have hflush := h.flush
  cases hpc : s.flush with
  | idle | blocked layer since => simp [LayerGates.flushStep, hpc] at hstep
  | called layer stream since =>
      rw [hpc] at hflush
      have hsince : since ≤ (s.gates layer).event := hflush
      simp only [LayerGates.flushStep, hpc] at hstep
      split at hstep
      · obtain rfl := Option.some.inj hstep
        exact ⟨h.gates, h.train, hsince, h.passes⟩
      · split at hstep
        · next hset =>
            obtain rfl := Option.some.inj hstep
            exact h.pass fun _ => ⟨_, (h.gates layer).cpuGate hset, hsince⟩
        · obtain rfl := Option.some.inj hstep
          exact ⟨h.gates, h.train, hsince, h.passes⟩
  | waitEvent layer since event =>
      rw [hpc] at hflush
      have hsince : since ≤ event := hflush
      obtain rfl := by simpa [LayerGates.flushStep, hpc] using hstep
      apply h.pass
      intro hends
      by_cases hrecorded : event ∈ (s.gates layer).recorded
      · exact ⟨event, (h.gates layer).recorded event hrecorded, hsince⟩
      · simp [hrecorded] at hends
  | woken layer since =>
      rw [hpc] at hflush
      obtain rfl := by simpa [LayerGates.flushStep, hpc] using hstep
      exact h.pass fun _ => hflush

/-- The gate that an index from the start names. -/
theorem pyIndex_eq {i : Int} (hi : 0 ≤ i ∨ i < -n) {layer : Fin n}
    (hindex : pyIndex n i = some layer) : (layer : Int) = i := by
  unfold pyIndex at hindex
  dsimp only at hindex
  split at hindex
  · next hneg =>
      -- an index below `-n` is out of range
      split at hindex
      · next hrange => omega
      · cases hindex
  · split at hindex
    · next hrange =>
        obtain rfl := Option.some.inj hindex
        exact Int.toNat_of_nonneg hrange.1
    · cases hindex

/-- A gate after a call that names its layer, or another one. -/
theorem noteArDone_gates (layerId : Int) (l : Fin n) :
    ((s.gates l).Told → ((s.noteArDone layerId).gates l).Told) ∧
      (s.gates l).Grows ((s.noteArDone layerId).gates l) ∧
      ((l : Int) = layerId → ((s.noteArDone layerId).gates l).event ∈
        ((s.noteArDone layerId).gates l).arDone) := by
  unfold noteArDone
  dsimp only
  split
  · refine ⟨fun htold => ⟨?_, ?_⟩, ⟨le_rfl, List.subset_append_left _ _⟩,
      fun _ => ?_⟩
    · exact fun event hevent =>
        List.mem_append_left _ (htold.recorded event hevent)
    · exact fun _ => List.mem_append_right _ List.mem_cons_self
    · exact List.mem_append_right _ List.mem_cons_self
  · next hother =>
      exact ⟨id, .rfl, fun hid => absurd hid hother⟩

theorem InOrder.onLayerArDone (h : s.InOrder) {layerId : Int}
    (hindex : 0 ≤ layerId ∨ layerId < -n) :
    (s.onLayerArDone layerId).InOrder := by
  unfold LayerGates.onLayerArDone
  split
  · exact h
  · split
    · next layer hlayer =>
        have hnoted := fun l => s.noteArDone_gates layerId l
        have hdone := (hnoted layer).2.2 (pyIndex_eq hindex hlayer)
        have htold := fun l => (hnoted l).1 (h.gates l)
        refine ⟨told_setGate htold ⟨?_, (htold layer).cpuGate⟩, ?_, ?_,
          h.passes⟩
        · intro event hevent
          dsimp only at hevent
          split at hevent
          · rcases List.mem_append.mp hevent with hold | hnew
            · exact (htold layer).recorded event hold
            · obtain rfl := List.mem_singleton.mp hnew
              exact hdone
          · exact (htold layer).recorded event hevent
        · dsimp only [record, TrainOk]
          rw [setGate_gates_self]
          exact hdone
        · have hflush : FlushOk (s.noteArDone layerId).gates s.flush :=
            h.flush.mono fun l => (hnoted l).2.1
          exact hflush.mono (grows_setGate ⟨le_rfl, List.Subset.refl _⟩)
    · exact h

theorem InOrder.step (h : s.InOrder) {e : Event n} (hindex : FromStart e)
    (hstep : s.step e = some t) : t.InOrder := by
  cases e with
  | beginStep =>
      obtain ⟨-, rfl⟩ := by simpa [LayerGates.step] using hstep
      exact ⟨h.gates, trivial, h.flush, h.passes⟩
  | onLayerArDone layerId =>
      obtain ⟨-, rfl⟩ := by simpa [LayerGates.step] using hstep
      exact h.onLayerArDone hindex
  | train => exact h.trainStep hstep
  | waitLayerGate layer ioStream =>
      obtain ⟨-, rfl⟩ := by simpa [LayerGates.step] using hstep
      exact ⟨h.gates, h.train, Nat.le_refl _, h.passes⟩
  | flush => exact h.flushStep hstep
  | timeout =>
      cases hpc : s.flush with
      | blocked layer since =>
          obtain rfl := by simpa [LayerGates.step, hpc] using hstep
          exact h.pass (by simp)
      | _ => simp [LayerGates.step, hpc] at hstep

/-- **A gate that lets through has been told.**  A wait that ends with the gate
fired, or with the stream waiting for recorded work, comes after an
`on_layer_ar_done` of its layer since the last reset before the wait. -/
theorem pass_after_arDone (n : Nat) (useCuda : Bool) (s : LayerGates n)
    (hrun : Reach step (fun _ e => FromStart e) (init n useCuda) s) :
    ∀ p ∈ s.passes, p.outcome = .fired ∨ p.outcome = .recorded →
      p.arDone = true := by
  have hs : s.InOrder := by
    apply hrun.invariant (inOrder_init useCuda)
    intro s e t hs hindex hstep
    exact hs.step hindex hstep
  exact hs.passes

/-- Waits that end so come after the call, in every run. -/
def PassesDone (outcome : GateOutcome) : Prop :=
  ∀ (n : Nat) (useCuda : Bool) (s : LayerGates n),
    Reachable step (init n useCuda) s →
    ∀ p ∈ s.passes, p.outcome = outcome → p.arDone = true

/-- A run with one wait that ends before the call. -/
theorem not_passesDone (useCuda : Bool) (p : GatePass n) (es : List (Event n))
    (hrun : ∃ s ∈ exec step (init n useCuda) es, s.passes = [p])
    (hearly : p.arDone = false) : ¬ PassesDone p.outcome := by
  intro hall
  obtain ⟨s, hreach, hpasses⟩ := Reachable.exists_of_exec es hrun
  have hmem : p ∈ s.passes := by
    rw [hpasses]
    exact List.mem_cons_self
  have hdone := hall n useCuda s hreach p hmem rfl
  rw [hearly] at hdone
  cases hdone

/-- A wait passes before its layer is done when it times out, when it comes
before the CUDA event is recorded, and when a call with an index that counts
from the end fires the gate. -/
theorem pass_before_arDone :
    ¬ PassesDone .timedOut ∧ ¬ PassesDone .unrecorded ∧
      ¬ PassesDone .fired := by
  refine ⟨?_, ?_, ?_⟩
  · exact not_passesDone (n := 1) false ⟨0, 0, .timedOut, false⟩
      [.waitLayerGate 0 false, .flush, .timeout] (by decide +kernel) rfl
  · exact not_passesDone (n := 1) true ⟨0, 0, .unrecorded, false⟩
      [.waitLayerGate 0 true, .flush, .flush] (by decide +kernel) rfl
  · exact not_passesDone (n := 1) false ⟨0, 0, .fired, false⟩
      [.onLayerArDone (-1), .train, .waitLayerGate 0 false, .flush]
      (by decide +kernel) rfl

/-- Two layers with CUDA: a stream waits for one, a caller without a stream is
woken for the other. -/
theorem pass_after_arDone_two :
    ∃ s : LayerGates 2,
      s.passes = [⟨1, 1, .recorded, true⟩, ⟨0, 1, .fired, true⟩] ∧
      ∀ p ∈ s.passes, p.outcome = .fired ∨ p.outcome = .recorded →
        p.arDone = true := by
  obtain ⟨s, hrun, hpasses⟩ :
      ∃ s : LayerGates 2,
        Reach step (fun _ e => FromStart e) (init 2 true) s ∧
        s.passes = [⟨1, 1, .recorded, true⟩, ⟨0, 1, .fired, true⟩] :=
    Reach.exists_of_exec
      [.beginStep, .train, .train, .train, .train, .train, .onLayerArDone 1,
        .train, .waitLayerGate 1 true, .flush, .flush, .waitLayerGate 0 false,
        .flush, .onLayerArDone 0, .train, .flush]
      (by decide +kernel) (by decide +kernel)
  exact ⟨s, hpasses, pass_after_arDone 2 true s hrun⟩

end LayerGates

end Tempo
