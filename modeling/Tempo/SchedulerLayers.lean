import Tempo.NanoOrder
import Tempo.SchedulerRuns

/-!
# Layer events of V4

`TEMPOSchedulerV4.on_layer_event` passes what the training loop reports about
its layers on to the nano-overlap controller, and `checkpoint` begins and ends
the controller's steps; the callback of the controller puts chunks into the
cache.  This is the CPU path: the worker thread of the controller gets its turns
between the calls, and during the drain at the end of a checkpoint.

Two things go wrong at this joint.  The data of a layer is passed where the
controller expects a tensor, so the chunk is a placeholder whatever it was; and
the table of timings, which every event of a layer looks up, is there only after
the first checkpoint.
-/

namespace Tempo

open Runs NanoOverlap

structure V4Config where
  sched : SchedConfig
  nLayers : Int := 32
  flushChunkMb : Int := 32

/-- The controller that `TEMPOSchedulerV4` builds where there is no CUDA. -/
def V4Config.nano (cfg : V4Config) : NanoOverlap.Config where
  nLayers := cfg.nLayers
  chunkBytes := cfg.flushChunkMb * 1024 * 1024 / max 1 cfg.nLayers
  useCuda := false

@[simp] theorem V4Config.nano_nLayers (cfg : V4Config) :
    cfg.nano.nLayers = cfg.nLayers := rfl

/-- The scheduler and its controller; `_nano_step` is the controller's. -/
structure SchedulerV4 where
  sched : Scheduler
  nano : NanoOverlap

/-- One turn of the worker thread: its clock, and the surroundings of a put. -/
structure WorkerTurn where
  now : ℚ := 0
  env : P2PEnv := {}

/-- A call of the training loop with its surroundings, or a turn of the
worker. -/
inductive LayerCall where
  | onStepBegin (step : Int) (congested : Option Bool)
  | onLayerEvent (layerId : Int) (event : String) (kvData : Option Bytes)
      (computeEnd now : ℚ)
  | checkpoint (step : Int) (env : CkptEnv) (drain : List WorkerTurn)
  | worker (turn : WorkerTurn)

namespace SchedulerV4

variable (cfg : V4Config) (s : SchedulerV4)

/-- The put of `_nano_io_callback` once the key is read. -/
def putChunk (k layerId : Int) (data : Bytes) (env : P2PEnv) : Scheduler :=
  { s.sched with p2pCache := s.sched.p2pCache.map fun cache =>
      (cache.put cfg.sched.p2p cfg.sched.md5 env
        (Scheduler.nanoKey cfg.sched.rank k layerId) data).1 }

/-- The next statement of the worker, if it can move. -/
def workerTurn (turn : WorkerTurn) : SchedulerV4 :=
  match s.nano.worker with
  | none => { s with nano := (s.nano.pop cfg.nano turn.now).getD s.nano }
  | some ⟨layerId, data, _, phase⟩ =>
      match phase with
      | .popped => { s with nano := s.nano.workerKey.getD s.nano }
      | .keyed k =>
          { nano := s.nano.workerPut.getD s.nano
            sched := s.putChunk cfg k layerId data turn.env }
      | .stored =>
          { s with nano := (s.nano.workerTiming turn.now).getD s.nano }

/-- The service gain learns of the step and of the state of the network. -/
def onStepBegin (step : Int) (congested : Option Bool) : SchedulerV4 :=
  { s with
    sched.svcGain := s.sched.svcGain.map fun g =>
      let g := g.updateStep step
      (congested.map g.setCongested).getD g }

/-- `on_layer_event`: the data is the second argument of
`on_layer_compute_end`, which is `kv_tensor`. -/
def onLayerEvent (layerId : Int) (event : String) (kvData : Option Bytes)
    (computeEnd now : ℚ) : SchedulerV4 × Option NanoError :=
  if event = "start" then
    let started := s.nano.onLayerComputeStart cfg.nano layerId now
    ({ s with nano := started.1 }, started.2)
  else if event = "end" then
    let ended := s.nano.onLayerComputeEnd cfg.nano layerId
      (kvData.map .bytes) none computeEnd now
    ({ s with nano := ended.1 }, ended.2)
  else (s, none)

def checkpoint (step : Int) (env : CkptEnv) (drain : List WorkerTurn) :
    SchedulerV4 × Except CkptError Unit :=
  let looked := s.sched.lookupCache cfg.sched step env
  if looked.2 then
    ({ s with
        sched := { looked.1 with skipped := step :: looked.1.skipped } },
      .ok ())
  else
    let below := looked.1.delegateV4 cfg.sched step env
    let called : SchedulerV4 :=
      { sched := below.1, nano := s.nano.beginStep cfg.nano step }
    match below.2 with
    | .error e => (called, .error e)
    | .ok () =>
        let drained := drain.foldl (fun s turn => s.workerTurn cfg turn) called
        ({ drained with nano := drained.nano.endStep cfg.nano }, .ok ())

/-- What a call raises from the controller. -/
def raised : LayerCall → Option NanoError
  | .onLayerEvent layerId event kvData computeEnd now =>
      (s.onLayerEvent cfg layerId event kvData computeEnd now).2
  | _ => none

def call : LayerCall → SchedulerV4
  | .onStepBegin step congested => s.onStepBegin step congested
  | .onLayerEvent layerId event kvData computeEnd now =>
      (s.onLayerEvent cfg layerId event kvData computeEnd now).1
  | .checkpoint step env drain => (s.checkpoint cfg step env drain).1
  | .worker turn => s.workerTurn cfg turn

def transition (c : LayerCall) : Option SchedulerV4 := some (s.call cfg c)

/-- A new scheduler, over the files it finds when there is a cache. -/
def new (svcGain : Option (ServiceGain ℚ)) (topoRouter : Option TopologyRouter)
    (found : Option (Nat → Option Bytes)) : SchedulerV4 where
  sched := Scheduler.init svcGain topoRouter found none
  nano := NanoOverlap.new cfg.nano fun _ => []

variable {cfg s}

/-- A checkpoint call does to the scheduler what `checkpointV4` does, as long
as the worker does not move during its drain. -/
theorem checkpoint_sched (step : Int) (env : CkptEnv) :
    (s.checkpoint cfg step env []).1.sched =
      (s.sched.checkpointV4 cfg.sched step env).1 := by
  unfold checkpoint Scheduler.checkpointV4
  dsimp only
  split
  · rfl
  · split <;> simp

/-- A put under the key of the step of now is what the callback does. -/
theorem putChunk_eq_nanoIoCallback (k layerId : Int) (data : Bytes)
    (env : P2PEnv) (hstep : s.sched.nanoStep = some k) :
    s.putChunk cfg k layerId data env =
      s.sched.nanoIoCallback cfg.sched layerId data env := by
  simp [putChunk, Scheduler.nanoIoCallback, hstep]

/-- What the worker puts into the cache is the chunk it stores. -/
theorem workerTurn_keyed {k layerId : Int} {data : Bytes} {ioStart : ℚ}
    (hjob : s.nano.worker = some ⟨layerId, data, ioStart, .keyed k⟩)
    (turn : WorkerTurn) :
    (s.workerTurn cfg turn).sched = s.putChunk cfg k layerId data turn.env ∧
      (s.workerTurn cfg turn).nano.stores =
        s.nano.stores ++ [⟨k, layerId, .bytes data⟩] := by
  simp [workerTurn, hjob, NanoOverlap.workerPut, NanoOverlap.store]

/-! ## The controller within the scheduler -/

/-- Runs of the controller as the scheduler drives it: no data comes with the
end of a layer. -/
abbrev Driven (cfg : V4Config) : NanoOverlap → NanoOverlap → Prop :=
  Reach (fun n e => n.transition cfg.nano plainTorch e) NoData

theorem driven_step {n m : NanoOverlap} {e : Event} (hnodata : n.NoData e)
    (hstep : n.transition cfg.nano plainTorch e = some m) : Driven cfg n m :=
  Reach.refl.tail hnodata hstep

/-- A step of the worker, if it can move. -/
theorem driven_getD {n : NanoOverlap} {e : Event}
    (hend : ∀ l kv d c t, e ≠ .layerEnd l kv d c t) :
    Driven cfg n ((n.transition cfg.nano plainTorch e).getD n) := by
  cases hstep : n.transition cfg.nano plainTorch e with
  | none => exact .refl
  | some m =>
      exact driven_step (fun l kv d c t h => absurd h (hend l kv d c t)) hstep

theorem driven_workerTurn (turn : WorkerTurn) :
    Driven cfg s.nano (s.workerTurn cfg turn).nano := by
  unfold workerTurn
  match hjob : s.nano.worker with
  | none => exact driven_getD (e := .pop turn.now) (by simp)
  | some ⟨_, _, _, .popped⟩ => exact driven_getD (e := .workerKey) (by simp)
  | some ⟨_, _, _, .keyed _⟩ => exact driven_getD (e := .workerPut) (by simp)
  | some ⟨_, _, _, .stored⟩ =>
      exact driven_getD (e := .workerTiming turn.now) (by simp)

theorem driven_drain (cfg : V4Config) (drain : List WorkerTurn)
    (s : SchedulerV4) :
    Driven cfg s.nano
      (drain.foldl (fun s turn => s.workerTurn cfg turn) s).nano := by
  induction drain generalizing s with
  | nil => exact .refl
  | cons turn drain ih =>
      exact (driven_workerTurn turn).trans (ih (s.workerTurn cfg turn))

/-- A turn of a worker that has something to do is one of the steps left. -/
theorem work_workerTurn (cfg : V4Config) (s : SchedulerV4) (turn : WorkerTurn)
    (hbusy : s.nano.worker = none → s.nano.cpuQueue ≠ []) :
    (s.workerTurn cfg turn).nano.work + 1 = s.nano.work := by
  have hgetD : ∀ {e : Event}, e.isBackground →
      (s.nano.transition cfg.nano plainTorch e).isSome →
      ((s.nano.transition cfg.nano plainTorch e).getD s.nano).work + 1 =
        s.nano.work := by
    intro e hback hsome
    obtain ⟨m, hm⟩ := Option.isSome_iff_exists.mp hsome
    rw [hm]
    exact work_transition hback hm
  unfold workerTurn
  match hjob : s.nano.worker with
  | none =>
      obtain ⟨item, rest, hqueue⟩ := List.exists_cons_of_ne_nil (hbusy hjob)
      refine hgetD (e := .pop turn.now) rfl ?_
      simp [NanoOverlap.transition, NanoOverlap.pop, hqueue, hjob,
        V4Config.nano]
  | some ⟨_, _, _, .popped⟩ =>
      refine hgetD (e := .workerKey) rfl ?_
      simp [NanoOverlap.transition, NanoOverlap.workerKey, hjob]
  | some ⟨_, _, _, .keyed _⟩ =>
      refine hgetD (e := .workerPut) rfl ?_
      simp [NanoOverlap.transition, NanoOverlap.workerPut, hjob]
  | some ⟨_, _, _, .stored⟩ =>
      refine hgetD (e := .workerTiming turn.now) rfl ?_
      simp [NanoOverlap.transition, NanoOverlap.workerTiming, hjob]

/-- The queue has been processed. -/
def Idle (s : SchedulerV4) : Prop :=
  s.nano.cpuQueue = [] ∧ s.nano.worker = none

/-- Left alone, the worker processes the queue. -/
theorem worker_processes_queue (turn : WorkerTurn) (n : Nat) (s : SchedulerV4)
    (hwork : s.nano.work ≤ n) :
    ∃ m ≤ n, Idle ((List.replicate m turn).foldl
      (fun s turn => s.workerTurn cfg turn) s) := by
  induction n generalizing s with
  | zero =>
      refine ⟨0, le_rfl, ?_⟩
      by_contra hbusy
      have hturn := work_workerTurn cfg s turn
        fun hnone hqueue => hbusy ⟨hqueue, hnone⟩
      omega
  | succ n ih =>
      by_cases hidle : s.Idle
      · exact ⟨0, Nat.zero_le _, hidle⟩
      · have hturn := work_workerTurn cfg s turn
          fun hnone hqueue => hidle ⟨hqueue, hnone⟩
        obtain ⟨m, hm, hend⟩ := ih (s.workerTurn cfg turn) (by omega)
        exact ⟨m + 1, Nat.succ_le_succ hm, hend⟩

theorem driven_onLayerEvent (cfg : V4Config) (s : SchedulerV4) (layerId : Int)
    (event : String) (kvData : Option Bytes) (computeEnd now : ℚ) :
    Driven cfg s.nano
      (s.onLayerEvent cfg layerId event kvData computeEnd now).1.nano := by
  unfold onLayerEvent
  split
  · exact driven_step (e := .layerStart layerId now) (by simp [NoData]) rfl
  · split
    · refine driven_step
        (e := .layerEnd layerId (kvData.map .bytes) none computeEnd now) ?_ rfl
      intro l kv d c n heq
      cases heq
      rfl
    · exact .refl

/-- A checkpoint call that is not a hit begins a step. -/
theorem driven_checkpoint (cfg : V4Config) (s : SchedulerV4) (n : Int)
    (env : CkptEnv) (drain : List WorkerTurn) :
    (s.sched.lookupCache cfg.sched n env).2 = true ∧
        (s.checkpoint cfg n env drain).1.nano = s.nano ∨
      (s.sched.lookupCache cfg.sched n env).2 = false ∧
        Driven cfg (s.nano.beginStep cfg.nano n)
          (s.checkpoint cfg n env drain).1.nano := by
  unfold checkpoint
  dsimp only
  split
  next hhit => exact .inl ⟨hhit, rfl⟩
  next hmiss =>
    refine .inr ⟨by simpa using hmiss, ?_⟩
    split
    next => exact .refl
    next =>
      have hdrained := driven_drain cfg drain
        ⟨((s.sched.lookupCache cfg.sched n env).1.delegateV4 cfg.sched n env).1,
          s.nano.beginStep cfg.nano n⟩
      exact hdrained.tail (e := .endStep true) (by simp [NoData])
        (by simp [NanoOverlap.transition])

/-- Every call drives the controller. -/
theorem driven_call (c : LayerCall) :
    Driven cfg s.nano (s.call cfg c).nano := by
  cases c with
  | onStepBegin n congested => exact .refl
  | onLayerEvent layerId event kvData computeEnd now =>
      exact driven_onLayerEvent cfg s layerId event kvData computeEnd now
  | checkpoint n env drain =>
      rcases driven_checkpoint cfg s n env drain with
        ⟨-, hsame⟩ | ⟨-, hdriven⟩
      · show Driven cfg s.nano (s.checkpoint cfg n env drain).1.nano
        rw [hsame]
        exact .refl
      · refine Reach.head (e := .beginStep n) ?_ rfl hdriven
        simp [NoData]
  | worker turn => exact driven_workerTurn turn

theorem driven_of_reachable {t : SchedulerV4}
    (hreach : Reachable (fun s c => s.transition cfg c) s t) :
    Driven cfg s.nano t.nano := by
  apply hreach.invariant
  · exact .refl
  · intro t c u ht _ hstep
    obtain rfl := Option.some.inj hstep
    exact ht.trans (driven_call c)

/-! ## The data of a layer -/

theorem placeholders_of_driven {n m : NanoOverlap}
    (h : n.Placeholders cfg.nano) (hdriven : Driven cfg n m) :
    m.Placeholders cfg.nano :=
  hdriven.invariant h fun _ _ _ h hnodata hstep =>
    h.transition rfl hnodata hstep

theorem inOrder_of_driven {n m : NanoOverlap} (h : n.InOrder)
    (hdriven : Driven cfg n m) : m.InOrder :=
  hdriven.invariant h fun _ _ _ h _ hstep => h.transition rfl hstep

/-- What is true of the table and of every full table stays true of it. -/
theorem table_of_driven (P : List Nat → Prop) {n m : NanoOverlap}
    (hfull : ∀ l, l.length = cfg.nLayers.toNat → P l)
    (h : P n.layerTimings) (hdriven : Driven cfg n m) : P m.layerTimings := by
  apply hdriven.invariant h
  intro s e t hs _ hstep
  rcases layerTimings_transition rfl hstep with hsame | hlength
  · rw [hsame]
    exact hs
  · exact hfull _ hlength

/-- What is handed over for the end of a layer that is in the table. -/
theorem onLayerEvent_end (layerId : Int) (kvData : Option Bytes)
    (computeEnd now : ℚ) {ref : Nat}
    (hrange : 0 ≤ layerId ∧ layerId < cfg.nLayers)
    (href : s.nano.layerTimings[layerId.toNat]? = some ref) :
    (s.onLayerEvent cfg layerId "end" kvData computeEnd now).1.nano.enqueued =
      if cfg.nano.chunkBytes < 0 then s.nano.enqueued
      else s.nano.enqueued ++
        [⟨s.nano.step, layerId, .bytes cfg.nano.placeholder⟩] :=
  onLayerComputeEnd_none rfl hrange href (kvData.map .bytes) computeEnd now

/-- **The data of a layer.**  Once a step has been begun, the chunk that the
callback is handed for the end of a layer is the data reported with it exactly
when that is the placeholder anyway. -/
theorem layer_data_iff_placeholder (cfg : V4Config)
    (svcGain : Option (ServiceGain ℚ)) (topoRouter : Option TopologyRouter)
    (found : Nat → Option Bytes) (s u : SchedulerV4) (layerId : Int)
    (d : Bytes) (computeEnd now : ℚ)
    (hs : Reachable (fun s c => s.transition cfg c)
      (new cfg svcGain topoRouter (some found)) s)
    (hrange : 0 ≤ layerId ∧ layerId < cfg.nLayers)
    (hbegun : s.nano.layerTimings ≠ [])
    (hu : Reachable (fun s c => s.transition cfg c)
      (s.onLayerEvent cfg layerId "end" (some d) computeEnd now).1 u)
    (hdone : s.nano.enqueued.length < u.nano.stores.length) :
    (∃ k, u.nano.stores[s.nano.enqueued.length]? =
        some ⟨k, layerId, .bytes d⟩) ↔
      d = cfg.nano.placeholder := by
  have hdrivenS : Driven cfg (NanoOverlap.new cfg.nano fun _ => []) s.nano :=
    driven_of_reachable hs
  have hdrivenT := driven_onLayerEvent cfg s layerId "end"
    (some d) computeEnd now
  have hdrivenU := driven_of_reachable hu
  have horderT := inOrder_of_driven (inOrder_new fun _ => [])
    (hdrivenS.trans hdrivenT)
  have horderU := inOrder_of_driven horderT hdrivenU
  have hplaceholders : u.nano.Placeholders cfg.nano :=
    placeholders_of_driven ⟨by simp [NanoOverlap.new], fun _ => rfl⟩
      ((hdrivenS.trans hdrivenT).trans hdrivenU)
  obtain ⟨ref, href⟩ : ∃ ref,
      s.nano.layerTimings[layerId.toNat]? = some ref := by
    have htable : s.nano.layerTimings = [] ∨
        s.nano.layerTimings.length = cfg.nano.nLayers.toNat := by
      apply table_of_driven
        (fun l => l = [] ∨ l.length = cfg.nano.nLayers.toNat) ?_ ?_ hdrivenS
      · exact fun _ hlength => .inr hlength
      · exact .inl rfl
    apply Option.ne_none_iff_exists'.mp
    rw [ne_eq, layerTimings_eq_none_iff htable hrange]
    exact hbegun
  have hhanded := onLayerEvent_end layerId (some d) computeEnd now hrange href
  -- a placeholder of negative length raises, and then nothing is ever stored
  have hchunk : ¬ cfg.nano.chunkBytes < 0 := by
    intro hneg
    have hempty := hplaceholders.none_of_neg hneg
    have horder := congrArg List.length horderU.order
    simp [hempty] at horder
    simp [horder] at hdone
  rw [if_neg hchunk] at hhanded
  have hitem := horderT.stored_of_handed rfl hhanded
    (hdrivenU.reachable) hdone
  obtain ⟨c, hc, hsame⟩ := Option.map_eq_some_iff.mp hitem
  rw [hc]
  constructor
  · rintro ⟨k, hk⟩
    obtain rfl := Option.some.inj hk
    have hpayload := congrArg Prod.snd hsame
    exact Payload.bytes.inj hpayload
  · rintro rfl
    refine ⟨c.step, ?_⟩
    have hlayer : c.layerId = layerId := congrArg Prod.fst hsame
    have hpayload : c.payload = .bytes cfg.nano.placeholder :=
      congrArg Prod.snd hsame
    rw [← hlayer, ← hpayload]

/-- Calls are always possible. -/
theorem reachable_calls (cs : List LayerCall) (s : SchedulerV4) :
    Reachable (fun s c => s.transition cfg c) s
      (cs.foldl (fun s c => s.call cfg c) s) := by
  induction cs generalizing s with
  | nil => exact .refl
  | cons c cs ih => exact .head trivial rfl (ih (s.call cfg c))

/-- A scheduler of one layer. -/
def oneLayer : V4Config :=
  { sched := { p2pLimits := ⟨1000, 1000⟩, md5 := fun _ => 0, exp := fun _ => 1 }
    nLayers := 1 }

/-- It has begun a step. -/
def begunStep : SchedulerV4 :=
  [.checkpoint 0 {} []].foldl (fun s c => s.call oneLayer c)
    (new oneLayer none none (some fun _ => none))

/-- Its layer is reported with one byte. -/
def oneByteReported : SchedulerV4 :=
  (begunStep.onLayerEvent oneLayer 0 "end" (some [1]) 1 1).1

/-- The worker has had three turns since. -/
def oneByteStored : SchedulerV4 :=
  [.worker {}, .worker {}, .worker {}].foldl (fun s c => s.call oneLayer c)
    oneByteReported

theorem reachable_begunStep :
    Reachable (fun s c => s.transition oneLayer c)
      (new oneLayer none none (some fun _ => none)) begunStep := by
  unfold begunStep
  exact reachable_calls _ _

theorem reachable_oneByteStored :
    Reachable (fun s c => s.transition oneLayer c) oneByteReported
      oneByteStored := by
  unfold oneByteStored
  exact reachable_calls _ _

theorem layer_data_one_byte :
    oneByteStored.nano.stores.length = 1 ∧
      ((∃ k, oneByteStored.nano.stores[begunStep.nano.enqueued.length]? =
          some ⟨k, 0, .bytes [1]⟩) ↔ [1] = oneLayer.nano.placeholder) := by
  have hstored : oneByteStored.nano.stores.length = 1 := by decide +kernel
  have htable : begunStep.nano.layerTimings ≠ [] := by decide +kernel
  have hdone : begunStep.nano.enqueued.length <
      oneByteStored.nano.stores.length := by decide +kernel
  refine ⟨hstored, ?_⟩
  exact layer_data_iff_placeholder oneLayer none none (fun _ => none) begunStep
    oneByteStored 0 [1] 1 1 reachable_begunStep (by decide) htable
    reachable_oneByteStored hdone

/-- The byte does not arrive. -/
theorem layer_data_lost :
    ¬ ∀ (cfg : V4Config) (svcGain : Option (ServiceGain ℚ))
        (topoRouter : Option TopologyRouter) (found : Nat → Option Bytes)
        (s u : SchedulerV4) (layerId : Int) (d : Bytes) (computeEnd now : ℚ),
      Reachable (fun s c => s.transition cfg c)
        (new cfg svcGain topoRouter (some found)) s →
      0 ≤ layerId ∧ layerId < cfg.nLayers →
      s.nano.layerTimings ≠ [] → d ≠ [] →
      Reachable (fun s c => s.transition cfg c)
        (s.onLayerEvent cfg layerId "end" (some d) computeEnd now).1 u →
      s.nano.enqueued.length < u.nano.stores.length →
      ∃ k, u.nano.stores[s.nano.enqueued.length]? =
        some ⟨k, layerId, .bytes d⟩ := by
  intro hall
  have htable : begunStep.nano.layerTimings ≠ [] := by decide +kernel
  have hdone : begunStep.nano.enqueued.length <
      oneByteStored.nano.stores.length := by decide +kernel
  obtain ⟨k, hk⟩ := hall oneLayer none none (fun _ => none) begunStep
    oneByteStored 0 [1] 1 1 reachable_begunStep (by decide) htable (by decide)
    reachable_oneByteStored hdone
  have hpayload := congrArg (Option.map Chunk.payload) hk
  rw [Option.map_some] at hpayload
  have hlost : oneByteStored.nano.stores[begunStep.nano.enqueued.length]?.map
      Chunk.payload ≠ some (.bytes [1]) := by decide +kernel
  exact hlost hpayload

/-! ## The table of timings -/

/-- A call that reports on a layer in range. -/
def ReportsLayer (cfg : V4Config) (layerId : Int) (event : String) : Prop :=
  (event = "start" ∨ event = "end") ∧ 0 ≤ layerId ∧ layerId < cfg.nLayers

/-- Every report on a layer in range comes after a checkpoint call. -/
def CheckpointFirst (cfg : V4Config) : List LayerCall → Prop
  | [] => True
  | .checkpoint .. :: _ => True
  | .onLayerEvent layerId event .. :: cs =>
      ¬ ReportsLayer cfg layerId event ∧ CheckpointFirst cfg cs
  | .onStepBegin .. :: cs => CheckpointFirst cfg cs
  | .worker _ :: cs => CheckpointFirst cfg cs

/-- The call does not raise `IndexError` from the table. -/
def NoIndexError (cfg : V4Config) (s : SchedulerV4) (c : LayerCall) : Prop :=
  s.raised cfg c ≠ some .indexError

/-- Nothing has come of any call yet: there is no table, no chunk, and nothing
in the cache. -/
structure Untouched (s : SchedulerV4) : Prop where
  table : s.nano.layerTimings = []
  queue : s.nano.cpuQueue = []
  worker : s.nano.worker = none
  cache : ∀ cache ∈ s.sched.p2pCache, ∀ key, ¬ cache.localStore.Holds key

/-- There is a timing for each layer. -/
def Ready (cfg : V4Config) (s : SchedulerV4) : Prop :=
  s.nano.layerTimings.length = cfg.nLayers.toNat

theorem raised_onLayerEvent_iff (layerId : Int) (event : String)
    (kvData : Option Bytes) (computeEnd now : ℚ)
    (htable : s.nano.layerTimings = [] ∨ s.Ready cfg) :
    s.raised cfg (.onLayerEvent layerId event kvData computeEnd now) =
        some .indexError ↔
      ReportsLayer cfg layerId event ∧ s.nano.layerTimings = [] := by
  have htable' : s.nano.layerTimings = [] ∨
      s.nano.layerTimings.length = cfg.nano.nLayers.toNat := htable
  have hstart := start_indexError_iff layerId now htable'
  have hend := end_indexError_iff rfl layerId (kvData.map .bytes) none
    computeEnd now htable'
  unfold raised onLayerEvent ReportsLayer
  dsimp only
  split
  next hevent => simpa [hevent] using hstart
  next hstartNe =>
    split
    next hevent => simpa [hevent] using hend
    next hendNe => simp [hstartNe, hendNe]

/-- Without a table a report on a layer changes nothing. -/
theorem onLayerEvent_of_table (htable : s.nano.layerTimings = [])
    (layerId : Int) (event : String) (kvData : Option Bytes)
    (computeEnd now : ℚ) :
    (s.onLayerEvent cfg layerId event kvData computeEnd now).1 = s := by
  unfold onLayerEvent onLayerComputeStart onLayerComputeEnd
  dsimp only
  simp only [htable, List.getElem?_nil]
  split
  · split <;> rfl
  · split
    · split <;> rfl
    · rfl

theorem Untouched.workerTurn (h : s.Untouched) (turn : WorkerTurn) :
    s.workerTurn cfg turn = s := by
  unfold SchedulerV4.workerTurn
  simp [h.worker, NanoOverlap.pop, h.queue]

theorem Untouched.onStepBegin (h : s.Untouched) (n : Int)
    (congested : Option Bool) : (s.onStepBegin n congested).Untouched :=
  ⟨h.table, h.queue, h.worker, h.cache⟩

/-- The first lookup is a miss. -/
theorem Untouched.lookupCache (h : s.Untouched) (n : Int) (env : CkptEnv) :
    (s.sched.lookupCache cfg.sched n env).2 = false := by
  unfold Scheduler.lookupCache
  cases hcache : s.sched.p2pCache with
  | none => rfl
  | some cache =>
      by_contra hhit
      obtain ⟨data, hdata⟩ : ∃ data, (cache.get cfg.sched.p2p cfg.sched.md5
          env.p2pGet (Scheduler.cacheKey cfg.sched.rank n)).2 = some data := by
        simpa [Option.isSome_iff_exists, Option.ne_none_iff_exists']
          using hhit
      exact h.cache cache hcache _ (P2PCacheStore.holds_of_get rfl hdata)

/-- The first checkpoint call makes the table. -/
theorem Untouched.ready_checkpoint (h : s.Untouched) (n : Int) (env : CkptEnv)
    (drain : List WorkerTurn) :
    Ready cfg (s.checkpoint cfg n env drain).1 := by
  rcases driven_checkpoint cfg s n env drain with
    ⟨hhit, -⟩ | ⟨-, hdriven⟩
  · simp [h.lookupCache] at hhit
  · exact table_of_driven (·.length = cfg.nLayers.toNat) (fun _ => id)
      (layerTimings_beginStep n) hdriven

theorem Ready.noIndexError (h : s.Ready cfg) (c : LayerCall) :
    NoIndexError cfg s c := by
  cases c with
  | onLayerEvent layerId event kvData computeEnd now =>
      intro hraised
      obtain ⟨⟨-, hrange⟩, hempty⟩ :=
        (raised_onLayerEvent_iff _ _ _ _ _ (.inr h)).mp hraised
      unfold Ready at h
      rw [hempty, List.length_nil] at h
      omega
  | onStepBegin n congested => simp [NoIndexError, raised]
  | checkpoint n env drain => simp [NoIndexError, raised]
  | worker turn => simp [NoIndexError, raised]

theorem Ready.meets (h : s.Ready cfg) (cs : List LayerCall) :
    Meets (fun s c => s.transition cfg c) (NoIndexError cfg) s cs := by
  induction cs generalizing s with
  | nil => trivial
  | cons c cs ih =>
      refine ⟨h.noIndexError c, fun t hstep => ?_⟩
      obtain rfl := Option.some.inj hstep
      have hready : (s.call cfg c).Ready cfg :=
        table_of_driven (·.length = cfg.nLayers.toNat) (fun _ => id) h
          (driven_call c)
      exact ih hready

theorem meets_cons (c : LayerCall) (cs : List LayerCall) :
    Meets (fun s c => s.transition cfg c) (NoIndexError cfg) s (c :: cs) ↔
      NoIndexError cfg s c ∧
        Meets (fun s c => s.transition cfg c) (NoIndexError cfg)
          (s.call cfg c) cs := by
  simp [Meets, transition]

theorem Untouched.meets_iff (h : s.Untouched) (cs : List LayerCall) :
    Meets (fun s c => s.transition cfg c) (NoIndexError cfg) s cs ↔
      CheckpointFirst cfg cs := by
  induction cs generalizing s with
  | nil => exact Iff.rfl
  | cons c cs ih =>
      rw [meets_cons]
      cases c with
      | checkpoint n env drain =>
          refine ⟨fun _ => trivial, fun _ => ⟨by simp [NoIndexError, raised], ?_⟩⟩
          exact (h.ready_checkpoint n env drain).meets cs
      | onLayerEvent layerId event kvData computeEnd now =>
          have htable : s.nano.layerTimings = [] ∨ s.Ready cfg := .inl h.table
          have hraised := raised_onLayerEvent_iff layerId event kvData
            computeEnd now htable
          have hcall : s.call cfg
              (.onLayerEvent layerId event kvData computeEnd now) = s :=
            onLayerEvent_of_table h.table layerId event kvData computeEnd now
          rw [hcall]
          apply and_congr _ (ih h)
          unfold NoIndexError
          rw [ne_eq, hraised]
          simp [h.table]
      | onStepBegin n congested =>
          have hrest := ih (h.onStepBegin n congested)
          simpa [NoIndexError, raised, call, CheckpointFirst] using hrest
      | worker turn =>
          have hcall : s.call cfg (.worker turn) = s := h.workerTurn turn
          rw [hcall]
          simpa [NoIndexError, raised, CheckpointFirst] using ih h

theorem untouched_new (svcGain : Option (ServiceGain ℚ))
    (topoRouter : Option TopologyRouter)
    (found : Option (Nat → Option Bytes)) :
    (new cfg svcGain topoRouter found).Untouched where
  table := rfl
  queue := rfl
  worker := rfl
  cache := by
    intro cache hcache key
    obtain ⟨files, -, rfl⟩ := Option.map_eq_some_iff.mp hcache
    simp [TierStore.Holds]

/-- **The order of the calls.**  No call of a run raises `IndexError` from the
table exactly when every report on a layer in range comes after some checkpoint
call. -/
theorem no_index_error_iff (cfg : V4Config) (svcGain : Option (ServiceGain ℚ))
    (topoRouter : Option TopologyRouter)
    (found : Option (Nat → Option Bytes)) (cs : List LayerCall) :
    Meets (fun s c => s.transition cfg c) (NoIndexError cfg)
        (new cfg svcGain topoRouter found) cs ↔
      CheckpointFirst cfg cs :=
  (untouched_new svcGain topoRouter found).meets_iff cs

/-- The first report of the usage example raises. -/
theorem first_report_raises :
    ¬ ∀ (cfg : V4Config) (svcGain : Option (ServiceGain ℚ))
        (topoRouter : Option TopologyRouter)
        (found : Option (Nat → Option Bytes)) (cs : List LayerCall),
      Meets (fun s c => s.transition cfg c) (NoIndexError cfg)
        (new cfg svcGain topoRouter found) cs := by
  intro hall
  have hmeets := hall oneLayer none none none
    [.onStepBegin 0 none, .onLayerEvent 0 "start" none 0 0]
  have hraised := (hmeets.2 _ rfl).1
  exact hraised (by decide +kernel)

end SchedulerV4

end Tempo
