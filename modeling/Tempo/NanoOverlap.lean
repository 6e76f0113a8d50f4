import Mathlib.Algebra.Order.Field.Rat
import Mathlib.Data.List.Perm.Basic
import Tempo.CheckpointManager
import Tempo.Runs

/-!
# Chunks of layers in the background

`NanoOverlapController` takes a chunk at the end of each layer and has it
stored in the background.  Without CUDA a queue and one worker thread do that.
With CUDA the tensor is copied on `io_stream` into a pinned buffer of its layer,
into fresh memory when there is no pool, or not at all when it is on the host;
then a thread of its own waits for the copy and calls back.

The callback stores a chunk under the step the controller is at when it is
called, with what the memory of the chunk holds then.  `enqueued` is a history:
the chunks with the step and the contents they had when they were handed over.

The kernels that write tensors are events too; what `_sync_cuda_io` has the
compute stream wait for does not concern the callbacks and is left out.
-/

namespace Tempo

namespace NanoOverlap

/-- The element types with their sizes in bytes. -/
inductive DType where
  | bfloat16
  | float16
  | float32
  | float64
  | other (name : String) (size : Nat)
  deriving DecidableEq

def DType.elementSize : DType → Nat
  | .bfloat16 => 2
  | .float16 => 2
  | .float32 => 4
  | .float64 => 8
  | .other _ size => size

/-- What `copy_` makes of the bits of an element when it converts between
types; it leaves them alone when there is nothing to convert. -/
structure Torch where
  cast : DType → DType → Nat → Nat
  cast_self : ∀ d, cast d d = id

/-- Memory that holds elements: a tensor of the caller, a buffer of the pool
since its last resize, or what a copy has allocated. -/
inductive Loc where
  | caller (addr : Nat)
  | pinned (generation index : Nat)
  | fresh (n : Nat)
  deriving DecidableEq

abbrev Mem := Loc → List Nat

/-- A tensor of the caller. -/
structure TensorArg where
  addr : Nat
  dtype : DType
  isCuda : Bool
  deriving DecidableEq

/-- What a caller can pass as `kv_tensor`. -/
inductive KvTensor where
  | tensor (t : TensorArg)
  | bytes (data : Bytes)

/-- What the callback is given to store. -/
inductive Payload where
  | bytes (data : Bytes)
  | tensor (dtype : DType) (elems : List Nat)
  deriving DecidableEq

/-- A chunk under its key. -/
structure Chunk where
  step : Int
  layerId : Int
  payload : Payload
  deriving DecidableEq

inductive NanoError where
  | indexError
  | attributeError
  | valueError
  deriving DecidableEq

structure LayerTiming where
  layerId : Nat
  computeStart : ℚ := 0
  computeEnd : ℚ := 0
  ioStart : ℚ := 0
  ioEnd : ℚ := 0
  ioBytes : Int := 0
  bubbleMs : ℚ := 0
  overlapMs : ℚ := 0

namespace LayerTiming

variable (lt : LayerTiming)

def computeMs : ℚ := (lt.computeEnd - lt.computeStart) * 1000

def ioMs : ℚ := (lt.ioEnd - lt.ioStart) * 1000

/-- What the CPU worker records. -/
def recordCpu (ioStart ioEnd : ℚ) : LayerTiming :=
  let ioMs := (ioEnd - ioStart) * 1000
  { lt with
    ioStart, ioEnd
    bubbleMs := max 0 (ioMs - lt.computeMs)
    overlapMs := min ioMs lt.computeMs }

/-- What a callback thread records. -/
def recordDeferred (ioEnd : ℚ) : LayerTiming :=
  let ioMs := (ioEnd - lt.ioStart) * 1000
  { lt with
    ioEnd
    bubbleMs := max 0 (ioMs - lt.computeMs)
    overlapMs := min ioMs lt.computeMs * 1000 }

end LayerTiming

/-- `_EWMA`. -/
structure Ewma where
  alpha : ℚ
  val : ℚ
  var : ℚ := 0

def Ewma.update (w : Ewma) (x : ℚ) : Ewma :=
  let d := x - w.val
  { w with
    val := w.val + w.alpha * d
    var := (1 - w.alpha) * (w.var + w.alpha * d * d) }

structure StepMetrics where
  step : Int
  nLayers : Int
  totalComputeMs : ℚ := 0
  totalIoMs : ℚ := 0
  totalBubbleMs : ℚ := 0
  totalOverlapMs : ℚ := 0
  avgBubbleMs : ℚ := 0
  pipelineEff : ℚ := 0
  ioBytesTotal : Int := 0
  ioThroughputGbs : ℚ := 0
  cudaStreamsUsed : Bool

/-- An entry of `_cpu_queue`. -/
structure QueueItem where
  layerId : Int
  data : Bytes
  enqueueTime : ℚ

inductive WorkerPhase where
  /-- popped, up to the callback -/
  | popped
  /-- in the callback, which has read its key -/
  | keyed (step : Int)
  /-- back from the callback -/
  | stored
  deriving DecidableEq

/-- What the CPU worker has in hand. -/
structure WorkerJob where
  layerId : Int
  data : Bytes
  ioStart : ℚ
  phase : WorkerPhase

inductive CbPhase where
  /-- the copy is on `io_stream` -/
  | queued
  /-- `io_done` has fired -/
  | copied
  /-- the timing is recorded -/
  | timed
  /-- in the callback, which has read its key -/
  | keyed (step : Int)
  deriving DecidableEq

/-- `cpu_tensor`: the first `numel` elements of a location. -/
structure View where
  loc : Loc
  dtype : DType
  numel : Nat
  deriving DecidableEq

/-- A copy on `io_stream` and the thread that runs `_deferred_cb` after it.
There is no source when the tensor was on the host. -/
structure DeferredCb where
  layerId : Int
  timing : Nat
  src : Option TensorArg
  dst : View
  phase : CbPhase := .queued

/-- The buffers of `PinnedBufferPool`; a resize replaces them all. -/
structure PinnedPool where
  generation : Nat := 0
  count : Nat
  numel : Nat
  dtype : DType := .bfloat16

/-- Grow each buffer if the tensor is larger than expected. -/
def PinnedPool.resizeIfNeeded (p : PinnedPool) (required : Nat)
    (dtype : DType) : PinnedPool :=
  if p.numel < required then
    { p with generation := p.generation + 1, numel := required, dtype }
  else p

def PinnedPool.get (p : PinnedPool) (layerId : Int) : Loc :=
  .pinned p.generation (layerId.toNat % p.count)

structure Config where
  nLayers : Int := 32
  chunkBytes : Int := 8 * 1024 * 1024
  useCuda : Bool
  /-- Pinned memory is asked for and there is enough of it. -/
  pinned : Bool := true

/-- The data of a chunk that comes without: zeros, at most 512 of them. -/
def Config.placeholder (cfg : Config) : Bytes :=
  List.replicate (min cfg.chunkBytes 512).toNat 0

end NanoOverlap

open NanoOverlap

/-- The controller.  Timings are objects: `heap` has every one ever made and
`layerTimings` refers to those of the step. -/
structure NanoOverlap where
  step : Int := -1
  heap : List LayerTiming := []
  layerTimings : List Nat := []
  computeEwma : Ewma := { alpha := 15 / 100, val := 35 / 10 }
  ioEwma : Ewma := { alpha := 15 / 100, val := 1 }
  stepsDone : Nat := 0
  stepsHistory : List StepMetrics := []
  cpuQueue : List QueueItem := []
  worker : Option WorkerJob := none
  mem : Mem
  pool : Option PinnedPool := none
  allocated : Nat := 0
  callbacks : List DeferredCb := []
  stores : List Chunk := []
  enqueued : List Chunk := []

namespace NanoOverlap

variable (cfg : Config) (torch : Torch) (s : NanoOverlap)

/-- A new controller over the caller's memory. -/
def new (mem : Mem) : NanoOverlap where
  mem := mem
  pool :=
    if cfg.useCuda ∧ cfg.pinned ∧ 0 < cfg.nLayers then
      some { count := cfg.nLayers.toNat
             numel := (max 1 (cfg.chunkBytes / 2)).toNat }
    else none

def beginStep (step : Int) : NanoOverlap :=
  { s with
    step
    heap := s.heap ++
      (List.range cfg.nLayers.toNat).map fun i => { layerId := i }
    layerTimings :=
      (List.range cfg.nLayers.toNat).map fun i => s.heap.length + i }

def updateTiming (ref : Nat) (f : LayerTiming → LayerTiming) : NanoOverlap :=
  { s with heap := s.heap.modify ref f }

def timing (ref : Nat) : LayerTiming :=
  (s.heap[ref]?).getD { layerId := 0 }

def onLayerComputeStart (layerId : Int) (now : ℚ) :
    NanoOverlap × Option NanoError :=
  if 0 ≤ layerId ∧ layerId < cfg.nLayers then
    match s.layerTimings[layerId.toNat]? with
    | none => (s, some .indexError)
    | some ref =>
        (s.updateTiming ref fun lt => { lt with computeStart := now }, none)
  else (s, none)

/-- Push a chunk to the worker's queue; a missing or empty one is replaced. -/
def enqueueCpu (layerId : Int) (ref : Nat) (kvData : Option Bytes) (now : ℚ) :
    NanoOverlap × Option NanoError :=
  let given := kvData.filter (· ≠ [])
  if given = none ∧ cfg.chunkBytes < 0 then
    -- `bytes` of a negative number
    (s, some .valueError)
  else
    let data := given.getD cfg.placeholder
    let nBytes := (given.map fun d => (d.length : Int)).getD cfg.chunkBytes
    ({ s.updateTiming ref fun lt => { lt with ioBytes := nBytes } with
        cpuQueue := s.cpuQueue ++ [{ layerId, data, enqueueTime := now }]
        enqueued := s.enqueued ++ [⟨s.step, layerId, .bytes data⟩] }, none)

/-- The pool after the growth the tensor needs, if it is copied at all. -/
def poolFor (t : TensorArg) : Option PinnedPool :=
  if t.isCuda then
    s.pool.map (·.resizeIfNeeded (s.mem (.caller t.addr)).length t.dtype)
  else s.pool

/-- Where a tensor is copied to. -/
def destination (layerId : Int) (t : TensorArg) : View :=
  let numel := (s.mem (.caller t.addr)).length
  if t.isCuda then
    match s.poolFor t with
    | some p => ⟨p.get layerId, p.dtype, numel⟩
    | none => ⟨.fresh s.allocated, t.dtype, numel⟩
  else ⟨.caller t.addr, t.dtype, numel⟩

/-- `_enqueue_cuda_io` for a tensor. -/
def enqueueTensor (layerId : Int) (ref : Nat) (t : TensorArg) (now : ℚ) :
    NanoOverlap :=
  let elems := s.mem (.caller t.addr)
  { s.updateTiming ref fun lt =>
      { lt with
        ioStart := now
        ioBytes := elems.length * t.dtype.elementSize } with
    pool := s.poolFor t
    allocated := s.allocated + 1
    callbacks := s.callbacks ++
      [{ layerId, timing := ref
         src := if t.isCuda then some t else none
         dst := s.destination layerId t }]
    enqueued := s.enqueued ++ [⟨s.step, layerId, .tensor t.dtype elems⟩] }

/-- `_enqueue_cuda_io`; bytes have no `nelement`. -/
def enqueueCudaIo (layerId : Int) (ref : Nat) (kv : KvTensor) (now : ℚ) :
    NanoOverlap × Option NanoError :=
  match kv with
  | .tensor t => (s.enqueueTensor layerId ref t now, none)
  | .bytes _ =>
      (s.updateTiming ref fun lt => { lt with ioStart := now },
        some .attributeError)

/-- The chunk goes to `io_stream` or to the queue. -/
def enqueueIo (layerId : Int) (ref : Nat) (kvTensor : Option KvTensor)
    (kvData : Option Bytes) (now : ℚ) : NanoOverlap × Option NanoError :=
  match kvTensor with
  | some kv =>
      if cfg.useCuda then s.enqueueCudaIo layerId ref kv now
      else s.enqueueCpu cfg layerId ref kvData now
  | none => s.enqueueCpu cfg layerId ref kvData now

/-- The end of a layer in its timing. -/
def closeLayer (ref : Nat) (now : ℚ) : NanoOverlap :=
  let closed := s.updateTiming ref fun lt => { lt with computeEnd := now }
  { closed with
    computeEwma := s.computeEwma.update (closed.timing ref).computeMs }

def onLayerComputeEnd (layerId : Int) (kvTensor : Option KvTensor)
    (kvData : Option Bytes) (computeEnd now : ℚ) :
    NanoOverlap × Option NanoError :=
  if 0 ≤ layerId ∧ layerId < cfg.nLayers then
    match s.layerTimings[layerId.toNat]? with
    | none => (s, some .indexError)
    | some ref =>
        (s.closeLayer ref computeEnd).enqueueIo cfg layerId ref kvTensor kvData
          now
  else (s, none)

def computeStepMetrics : StepMetrics :=
  let lts := (s.layerTimings.map s.timing).filter fun lt => 0 < lt.computeEnd
  if lts = [] then
    { step := s.step, nLayers := cfg.nLayers, cudaStreamsUsed := cfg.useCuda }
  else
    let done := lts.filter fun lt => 0 < lt.ioEnd
    let totalC := (lts.map (·.computeMs)).sum
    let totalBubble := (lts.map (·.bubbleMs)).sum
    let totalOverlap := (lts.map (·.overlapMs)).sum
    let totalBytes := (lts.map (·.ioBytes)).sum
    let elapsedS := (done.map fun lt => lt.ioEnd - lt.ioStart).sum
    { step := s.step
      nLayers := lts.length
      totalComputeMs := totalC
      totalIoMs := (done.map (·.ioMs)).sum
      totalBubbleMs := totalBubble
      totalOverlapMs := totalOverlap
      avgBubbleMs := totalBubble / max 1 lts.length
      pipelineEff := totalOverlap / max (1 / 1000) (totalC + totalBubble)
      ioBytesTotal := totalBytes
      ioThroughputGbs := totalBytes / max (1 / 10 ^ 9) elapsedS / 1024 ^ 3
      cudaStreamsUsed := cfg.useCuda }

/-- The end of `end_step`, after the drain or the stream wait. -/
def endStep : NanoOverlap :=
  { s with
    stepsHistory :=
      (s.stepsHistory ++ [s.computeStepMetrics cfg]).drop
        (s.stepsHistory.length + 1 - 100)
    stepsDone := s.stepsDone + 1 }

/-- What the callback does once it has its key. -/
def store (c : Chunk) : NanoOverlap := { s with stores := s.stores ++ [c] }

/-- The worker after the callback: `_io_ewma`, and the timing of the layer in
the step of now. -/
def recordCpu (job : WorkerJob) (ioEnd : ℚ) : NanoOverlap :=
  let counted :=
    { s with ioEwma := s.ioEwma.update ((ioEnd - job.ioStart) * 1000) }
  if 0 ≤ job.layerId then
    match s.layerTimings[job.layerId.toNat]? with
    | none => counted
    | some ref => counted.updateTiming ref (·.recordCpu job.ioStart ioEnd)
  else counted

/-- A callback thread before the callback. -/
def recordDeferred (cb : DeferredCb) (ioEnd : ℚ) : NanoOverlap :=
  let ioMs := (ioEnd - (s.timing cb.timing).ioStart) * 1000
  { s.updateTiming cb.timing (·.recordDeferred ioEnd) with
    ioEwma := s.ioEwma.update ioMs }

end NanoOverlap

namespace NanoOverlap

/-- What a copy leaves at its destination: the elements, converted, and behind
them what was there. -/
def copied (torch : Torch) (src : TensorArg) (dst : View) (mem : Mem) :
    List Nat :=
  let elems := mem (.caller src.addr)
  elems.map (torch.cast src.dtype dst.dtype) ++ (mem dst.loc).drop elems.length

/-- The copy of a callback on `io_stream`. -/
def DeferredCb.copy (torch : Torch) (cb : DeferredCb) (mem : Mem) : Mem :=
  match cb.src with
  | none => mem
  | some t => Function.update mem cb.dst.loc (copied torch t cb.dst mem)

/-- What the callback would be given if nothing were written any more. -/
def DeferredCb.payload (cb : DeferredCb) (mem : Mem) : Payload :=
  match cb.phase, cb.src with
  | .queued, some t => .tensor t.dtype (mem (.caller t.addr))
  | _, _ => .tensor cb.dst.dtype ((mem cb.dst.loc).take cb.dst.numel)

inductive Event where
  | beginStep (step : Int)
  | layerStart (layerId : Int) (now : ℚ)
  | layerEnd (layerId : Int) (kvTensor : Option KvTensor)
      (kvData : Option Bytes) (computeEnd now : ℚ)
  /-- the drain gives up after two seconds -/
  | endStep (timedOut : Bool)
  /-- a tensor of the caller is written -/
  | write (addr : Nat) (elems : List Nat)
  | pop (ioStart : ℚ)
  | workerKey
  | workerPut
  | workerTiming (ioEnd : ℚ)
  /-- `io_stream` gets to the next copy -/
  | copy
  | cbTiming (i : Nat) (ioEnd : ℚ)
  | cbKey (i : Nat)
  | cbPut (i : Nat)

/-- The events of the background. -/
def Event.isBackground : Event → Bool
  | .beginStep _ | .layerStart .. | .layerEnd .. | .endStep _ | .write .. =>
      false
  | _ => true

variable (cfg : Config) (torch : Torch)

/-- The worker takes the first chunk; it exists without CUDA only. -/
def pop (s : NanoOverlap) (ioStart : ℚ) : Option NanoOverlap :=
  match s.cpuQueue, s.worker with
  | item :: rest, none =>
      if cfg.useCuda then none
      else some { s with
        cpuQueue := rest
        worker := some ⟨item.layerId, item.data, ioStart, .popped⟩ }
  | _, _ => none

/-- The callback of the worker reads `_step`. -/
def workerKey (s : NanoOverlap) : Option NanoOverlap :=
  match s.worker with
  | some ⟨layerId, data, ioStart, .popped⟩ =>
      some { s with worker := some ⟨layerId, data, ioStart, .keyed s.step⟩ }
  | _ => none

def workerPut (s : NanoOverlap) : Option NanoOverlap :=
  match s.worker with
  | some ⟨layerId, data, ioStart, .keyed step⟩ =>
      some { s.store ⟨step, layerId, .bytes data⟩ with
        worker := some ⟨layerId, data, ioStart, .stored⟩ }
  | _ => none

def workerTiming (s : NanoOverlap) (ioEnd : ℚ) : Option NanoOverlap :=
  match s.worker with
  | some ⟨layerId, data, ioStart, .stored⟩ =>
      some { s.recordCpu ⟨layerId, data, ioStart, .stored⟩ ioEnd with
        worker := none }
  | _ => none

/-- The place of the next copy on `io_stream`. -/
def nextCopy (s : NanoOverlap) : Option Nat :=
  s.callbacks.findIdx? fun cb => cb.phase = .queued

def setPhase (s : NanoOverlap) (i : Nat) (cb : DeferredCb) (phase : CbPhase) :
    NanoOverlap :=
  { s with callbacks := s.callbacks.set i { cb with phase } }

def copyNext (s : NanoOverlap) : Option NanoOverlap :=
  s.nextCopy.bind fun i => s.callbacks[i]?.map fun cb =>
    { s.setPhase i cb .copied with mem := cb.copy torch s.mem }

/-- The callback thread in place `i`, if it has got as far as `phase`. -/
def callbackAt (s : NanoOverlap) (i : Nat) (phase : CbPhase) :
    Option DeferredCb :=
  s.callbacks[i]?.filter fun cb => cb.phase = phase

def cbTiming (s : NanoOverlap) (i : Nat) (ioEnd : ℚ) : Option NanoOverlap :=
  (s.callbackAt i .copied).map fun cb =>
    (s.recordDeferred cb ioEnd).setPhase i cb .timed

/-- The callback reads `_step`. -/
def cbKey (s : NanoOverlap) (i : Nat) : Option NanoOverlap :=
  (s.callbackAt i .timed).map fun cb => s.setPhase i cb (.keyed s.step)

def cbPut (s : NanoOverlap) (i : Nat) : Option NanoOverlap :=
  s.callbacks[i]?.bind fun cb =>
    match cb.phase with
    | .keyed step =>
        some { s.store ⟨step, cb.layerId, cb.payload s.mem⟩ with
          callbacks := s.callbacks.eraseIdx i }
    | _ => none

/-- One step of the training thread, the caller's kernels, or the
background. -/
def transition (s : NanoOverlap) : Event → Option NanoOverlap
  | .beginStep n => some (s.beginStep cfg n)
  | .layerStart layerId now => some (s.onLayerComputeStart cfg layerId now).1
  | .layerEnd layerId kvTensor kvData computeEnd now =>
      some (s.onLayerComputeEnd cfg layerId kvTensor kvData computeEnd now).1
  | .endStep timedOut =>
      if cfg.useCuda ∨ s.cpuQueue = [] ∨ timedOut then some (s.endStep cfg)
      else none
  | .write addr elems =>
      some { s with mem := Function.update s.mem (.caller addr) elems }
  | .pop ioStart => s.pop cfg ioStart
  | .workerKey => s.workerKey
  | .workerPut => s.workerPut
  | .workerTiming ioEnd => s.workerTiming ioEnd
  | .copy => s.copyNext torch
  | .cbTiming i ioEnd => s.cbTiming i ioEnd
  | .cbKey i => s.cbKey i
  | .cbPut i => s.cbPut i

end NanoOverlap

end Tempo
