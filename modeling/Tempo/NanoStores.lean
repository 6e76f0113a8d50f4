import Tempo.NanoOverlap

/-!
# What becomes of the chunks of a layer

A chunk is pending from the moment it is handed over until it is stored, and
`pending` says what would be stored if nothing interfered.  Interference is a
step begun while a chunk waits for its key, and memory written while a chunk is
still to be read from it: the tensor before its copy, the pinned buffer of the
layer after it.  In runs without either (`Undisturbed`) the chunks handed over
are those stored and those pending, with their steps and contents.  The
background can always go on undisturbed until nothing is pending.
-/

namespace Tempo

open Runs

namespace NanoOverlap

/-- The key that has been read. -/
def CbPhase.key? : CbPhase → Option Int
  | .keyed step => some step
  | _ => none

/-- The steps of a callback that are left. -/
def CbPhase.left : CbPhase → Nat
  | .queued => 4
  | .copied => 3
  | .timed => 2
  | .keyed _ => 1

def WorkerPhase.left : WorkerPhase → Nat
  | .popped => 3
  | .keyed _ => 2
  | .stored => 1

def QueueItem.chunk (step : Int) (item : QueueItem) : Chunk :=
  ⟨step, item.layerId, .bytes item.data⟩

/-- The chunk the worker is going to store. -/
def WorkerJob.chunk? (step : Int) (job : WorkerJob) : Option Chunk :=
  match job.phase with
  | .popped => some ⟨step, job.layerId, .bytes job.data⟩
  | .keyed k => some ⟨k, job.layerId, .bytes job.data⟩
  | .stored => none

def DeferredCb.chunk (step : Int) (mem : Mem) (cb : DeferredCb) : Chunk :=
  ⟨cb.phase.key?.getD step, cb.layerId, cb.payload mem⟩

/-- The callback is still going to read this location. -/
def DeferredCb.Reads (cb : DeferredCb) (loc : Loc) : Prop :=
  match cb.phase, cb.src with
  | .queued, some t => loc = .caller t.addr
  | _, _ => loc = cb.dst.loc

instance (cb : DeferredCb) (loc : Loc) : Decidable (cb.Reads loc) :=
  match hphase : cb.phase, hsrc : cb.src with
  | .queued, some t =>
      decidable_of_iff (loc = .caller t.addr)
        (by simp [DeferredCb.Reads, hphase, hsrc])
  | .queued, none =>
      decidable_of_iff (loc = cb.dst.loc)
        (by simp [DeferredCb.Reads, hphase, hsrc])
  | .copied, _ | .timed, _ | .keyed _, _ =>
      decidable_of_iff (loc = cb.dst.loc) (by simp [DeferredCb.Reads, hphase])

variable (cfg : Config) (torch : Torch) (s : NanoOverlap)

/-- What would be stored if nothing interfered. -/
def pending : List Chunk :=
  s.cpuQueue.map (·.chunk s.step) ++
    (s.worker.bind (·.chunk? s.step)).toList ++
    s.callbacks.map (·.chunk s.step s.mem)

/-- The background steps that are left. -/
def work : Nat :=
  4 * s.cpuQueue.length + (s.worker.map (·.phase.left)).getD 0 +
    (s.callbacks.map (·.phase.left)).sum

/-- Some chunk waits for its key. -/
def AwaitsKey : Prop :=
  s.cpuQueue.isEmpty = false ∨ (s.worker.any (·.phase = .popped)) = true ∨
    (s.callbacks.any fun cb => cb.phase.key?.isNone) = true

instance : Decidable s.AwaitsKey := inferInstanceAs (Decidable (_ ∨ _))

/-- With CUDA, a chunk comes as a tensor of the type of its buffer; one in the
queue would stay there. -/
def CopiesExactly (layerId : Int) : Option KvTensor → Prop
  | some (.tensor t) => (s.destination layerId t).dtype = t.dtype
  | some (.bytes _) => True
  | none => False

instance (layerId : Int) :
    ∀ kv : Option KvTensor, Decidable (s.CopiesExactly layerId kv)
  | some (.tensor t) =>
      inferInstanceAs (Decidable ((s.destination layerId t).dtype = t.dtype))
  | some (.bytes _) => isTrue trivial
  | none => isFalse id

/-- The event does not interfere with what is pending. -/
def Undisturbed : Event → Prop
  | .beginStep n => n = s.step ∨ ¬ s.AwaitsKey
  | .layerEnd layerId kvTensor _ _ _ =>
      cfg.useCuda = true → 0 ≤ layerId ∧ layerId < cfg.nLayers →
        s.layerTimings[layerId.toNat]?.isSome → s.CopiesExactly layerId kvTensor
  | .write addr _ => ∀ cb ∈ s.callbacks, ¬ cb.Reads (.caller addr)
  | .copy =>
      ∀ next ∈ s.nextCopy.bind (s.callbacks[·]?), next.src.isSome →
        ∀ cb ∈ s.callbacks, ¬ cb.Reads next.dst.loc
  | _ => True

instance (e : Event) : Decidable (s.Undisturbed cfg e) := by
  cases e <;> unfold Undisturbed <;> infer_instance

/-- No step of the background is enabled. -/
def Quiet : Prop :=
  ∀ e : Event, e.isBackground → s.transition cfg torch e = none

/-- Nothing is stored but what was handed over, with its step and contents, and
at rest everything is. -/
structure StoresOwn : Prop where
  stored : s.stores.Subperm s.enqueued
  quiet : s.Quiet cfg torch → s.stores.Perm s.enqueued

/-- A copy goes elsewhere than to the caller's memory, and what is not copied
is read there. -/
def DeferredCb.Placed (cb : DeferredCb) : Prop :=
  cb.src.isSome ↔ ∀ addr, cb.dst.loc ≠ .caller addr

/-- What holds in undisturbed runs. -/
structure Handed : Prop where
  perm : s.enqueued.Perm (s.stores ++ s.pending)
  exact : ∀ cb ∈ s.callbacks, ∀ t ∈ cb.src, cb.phase = .queued →
    cb.dst.dtype = t.dtype ∧ (s.mem (.caller t.addr)).length = cb.dst.numel
  onCpu : cfg.useCuda = false → s.callbacks = []
  onCuda : cfg.useCuda = true → s.cpuQueue = [] ∧ s.worker = none
  placed : ∀ cb ∈ s.callbacks, cb.Placed

variable {cfg torch s} {t : NanoOverlap} {c : Chunk} {e : Event}

/-! ## What single operations do -/

theorem onLayerComputeStart_eq (cfg : Config) (s : NanoOverlap) (layerId : Int) (now : ℚ) :
    ∃ heap, (s.onLayerComputeStart cfg layerId now).1 =
      { s with heap := heap } := by
  unfold onLayerComputeStart
  split
  · split
    · exact ⟨_, rfl⟩
    · exact ⟨_, rfl⟩
  · exact ⟨_, rfl⟩

theorem recordCpu_eq (job : WorkerJob) (ioEnd : ℚ) :
    ∃ heap ewma, s.recordCpu job ioEnd =
      { s with heap := heap, ioEwma := ewma } := by
  unfold recordCpu
  dsimp only
  split
  · split
    · exact ⟨_, _, rfl⟩
    · exact ⟨_, _, rfl⟩
  · exact ⟨_, _, rfl⟩

/-! ## Lists of chunks -/

/-- One more chunk is handed over and pending. -/
theorem perm_hand {es st p p' : List Chunk} (h : es.Perm (st ++ p))
    (hp : p'.Perm (c :: p)) : (es ++ [c]).Perm (st ++ p') := by
  rw [List.perm_iff_count] at *
  intro a
  have hes := h a
  have hpend := hp a
  simp only [List.count_append, List.count_cons, List.count_nil] at *
  omega

/-- A pending chunk is stored. -/
theorem perm_store {es st p p' : List Chunk} (h : es.Perm (st ++ p))
    (hp : p.Perm (c :: p')) : es.Perm (st ++ [c] ++ p') := by
  have hcons : (st ++ [c] ++ p') = st ++ c :: p' := by simp
  rw [hcons]
  exact h.trans (hp.append_left st)

/-- A chunk more in the queue. -/
theorem pending_queue (item : QueueItem) :
    ({ s with cpuQueue := s.cpuQueue ++ [item] } : NanoOverlap).pending.Perm
      (item.chunk s.step :: s.pending) := by
  unfold pending
  dsimp only
  rw [List.map_append, List.map_singleton, List.append_assoc, List.append_assoc,
    List.append_assoc]
  exact List.perm_middle

/-- A callback more. -/
theorem pending_callback (cb : DeferredCb) :
    ({ s with callbacks := s.callbacks ++ [cb] } : NanoOverlap).pending.Perm
      (cb.chunk s.step s.mem :: s.pending) := by
  unfold pending
  dsimp only
  rw [List.map_append, List.map_singleton, ← List.append_assoc]
  exact List.perm_append_singleton _ _

/-- A callback whose chunk is the same after a change. -/
theorem map_chunk_set {i : Nat} {cb : DeferredCb} (cb' : DeferredCb) {k : Int}
    {mem : Mem} (hcb : s.callbacks[i]? = some cb)
    (hsame : cb'.chunk k mem = cb.chunk k mem) :
    (s.callbacks.set i cb').map (·.chunk k mem) =
      s.callbacks.map (·.chunk k mem) := by
  obtain ⟨hi, hget⟩ := List.getElem?_eq_some_iff.mp hcb
  rw [List.map_set, hsame, ← hget]
  have hlen : i < (s.callbacks.map (·.chunk k mem)).length := by simpa using hi
  have hmap : s.callbacks[i].chunk k mem =
      (s.callbacks.map (·.chunk k mem))[i] := by simp
  rw [hmap, List.set_getElem_self]

/-! ## Handing over -/

/-- Timings and averages do not matter. -/
theorem Handed.frame (h : s.Handed cfg) (heap : List LayerTiming)
    (computeEwma ioEwma : Ewma) :
    Handed cfg { s with heap, computeEwma, ioEwma } :=
  ⟨h.perm, h.exact, h.onCpu, h.onCuda, h.placed⟩

theorem Handed.enqueueCpu (h : s.Handed cfg) (hcpu : cfg.useCuda = false)
    (layerId : Int) (ref : Nat) (kvData : Option Bytes) (now : ℚ) :
    Handed cfg (s.enqueueCpu cfg layerId ref kvData now).1 := by
  unfold NanoOverlap.enqueueCpu
  dsimp only
  split
  next => exact h
  next =>
    exact
      { perm := perm_hand h.perm (pending_queue ⟨layerId, _, now⟩)
        exact := h.exact
        onCpu := h.onCpu
        onCuda := fun hcuda => by simp [hcuda] at hcpu
        placed := h.placed }

theorem destination_numel (layerId : Int) (arg : TensorArg) :
    (s.destination layerId arg).numel = (s.mem (.caller arg.addr)).length := by
  unfold destination
  dsimp only
  split
  · split <;> rfl
  · rfl

theorem destination_placed (layerId : Int) (arg : TensorArg) :
    arg.isCuda = true ↔
      ∀ addr, (s.destination layerId arg).loc ≠ .caller addr := by
  unfold destination
  cases arg.isCuda with
  | true =>
      simp only [↓reduceIte, true_iff]
      cases s.poolFor arg with
      | none => simp
      | some pool => simp [PinnedPool.get]
  | false => simp

theorem Handed.enqueueTensor (h : s.Handed cfg) (hcuda : cfg.useCuda = true)
    {layerId : Int} {arg : TensorArg} (ref : Nat) (now : ℚ)
    (hexact : (s.destination layerId arg).dtype = arg.dtype) :
    Handed cfg (s.enqueueTensor layerId ref arg now) := by
  have hchunk : (⟨layerId, ref, if arg.isCuda then some arg else none,
      s.destination layerId arg, .queued⟩ : DeferredCb).chunk s.step s.mem =
      ⟨s.step, layerId, .tensor arg.dtype (s.mem (.caller arg.addr))⟩ := by
    cases hdev : arg.isCuda with
    | true => simp [DeferredCb.chunk, DeferredCb.payload, CbPhase.key?]
    | false =>
        simp [DeferredCb.chunk, DeferredCb.payload, CbPhase.key?, destination,
          hdev]
  refine
    { perm := ?_
      exact := ?_
      onCpu := fun hcpu => by simp [hcpu] at hcuda
      onCuda := h.onCuda
      placed := ?_ }
  · have hpend := pending_callback (s := s)
      ⟨layerId, ref, if arg.isCuda then some arg else none,
        s.destination layerId arg, .queued⟩
    rw [hchunk] at hpend
    exact perm_hand h.perm hpend
  · intro cb hcb t ht hqueued
    rcases List.mem_append.mp hcb with hold | hnew
    · exact h.exact cb hold t ht hqueued
    · obtain rfl := List.mem_singleton.mp hnew
      obtain rfl : arg = t := by
        have : (if arg.isCuda then some arg else none) = some t := ht
        split at this
        · exact Option.some.inj this
        · simp at this
      exact ⟨hexact, (destination_numel (s := s) layerId arg).symm⟩
  · intro cb hcb
    rcases List.mem_append.mp hcb with hold | hnew
    · exact h.placed cb hold
    · obtain rfl := List.mem_singleton.mp hnew
      have hplaced := destination_placed (s := s) layerId arg
      unfold DeferredCb.Placed
      dsimp only
      rw [← hplaced]
      split <;> simp [*]

theorem Handed.onLayerComputeEnd (h : s.Handed cfg) {layerId : Int}
    {kvTensor : Option KvTensor} (kvData : Option Bytes) (computeEnd now : ℚ)
    (hcond : cfg.useCuda = true → 0 ≤ layerId ∧ layerId < cfg.nLayers →
      s.layerTimings[layerId.toNat]?.isSome →
        s.CopiesExactly layerId kvTensor) :
    Handed cfg
      (s.onLayerComputeEnd cfg layerId kvTensor kvData computeEnd now).1 := by
  unfold NanoOverlap.onLayerComputeEnd
  split
  next hrange =>
    split
    next => exact h
    next ref href =>
      have hclosed : Handed cfg (s.closeLayer ref computeEnd) :=
        h.frame _ _ _
      cases hcuda : cfg.useCuda with
      | false =>
          have hcpu := hclosed.enqueueCpu hcuda layerId ref kvData now
          cases kvTensor with
          | none => exact hcpu
          | some kv => simpa [enqueueIo, hcuda] using hcpu
      | true =>
          have hexact := hcond hcuda hrange (by simp [href])
          match kvTensor, hexact with
          | some (.tensor arg), hexact =>
              simpa [enqueueIo, enqueueCudaIo, hcuda] using
                hclosed.enqueueTensor hcuda ref now hexact
          | some (.bytes data), _ =>
              simp only [enqueueIo, enqueueCudaIo, hcuda, ↓reduceIte]
              exact hclosed.frame _ _ _
  next => exact h

theorem Handed.beginStep (h : s.Handed cfg) {n : Int}
    (hcond : n = s.step ∨ ¬ s.AwaitsKey) : Handed cfg (s.beginStep cfg n) := by
  have hpend : (s.beginStep cfg n).pending = s.pending := by
    rcases hcond with rfl | hkeyed
    · rfl
    · simp only [AwaitsKey, not_or, Bool.not_eq_false, Bool.not_eq_true,
        List.isEmpty_iff, List.any_eq_false, Option.isNone_iff_eq_none] at hkeyed
      obtain ⟨hqueue, hworker, hcallbacks⟩ := hkeyed
      have hjob : s.worker.bind (·.chunk? n) =
          s.worker.bind (·.chunk? s.step) := by
        cases hw : s.worker with
        | none => rfl
        | some job =>
            cases hphase : job.phase <;>
              simp_all [WorkerJob.chunk?]
      have hcbs : s.callbacks.map (·.chunk n s.mem) =
          s.callbacks.map (·.chunk s.step s.mem) := by
        apply List.map_congr_left
        intro cb hcb
        obtain ⟨k, hk⟩ := Option.ne_none_iff_exists'.mp (hcallbacks cb hcb)
        simp [DeferredCb.chunk, hk]
      simp [pending, NanoOverlap.beginStep, hqueue, hjob, hcbs]
  refine ⟨?_, h.exact, h.onCpu, h.onCuda, h.placed⟩
  rw [hpend]
  exact h.perm

/-- A location that is not read any more may be written. -/
theorem payload_update {cb : DeferredCb} {loc : Loc} (mem : Mem)
    (hreads : ¬ cb.Reads loc) (elems : List Nat) :
    cb.payload (Function.update mem loc elems) = cb.payload mem := by
  unfold DeferredCb.Reads at hreads
  unfold DeferredCb.payload
  split
  next arg hphase hsrc =>
    simp only [hphase, hsrc] at hreads
    rw [Function.update_of_ne (Ne.symm hreads)]
  next hother =>
    have hne : cb.dst.loc ≠ loc := by
      split at hreads
      next arg hphase hsrc => exact absurd hsrc (hother arg hphase)
      next => exact Ne.symm hreads
    rw [Function.update_of_ne hne]

theorem Handed.write (h : s.Handed cfg) {addr : Nat} {elems : List Nat}
    (hcond : ∀ cb ∈ s.callbacks, ¬ cb.Reads (.caller addr)) :
    Handed cfg
      { s with mem := Function.update s.mem (.caller addr) elems } := by
  refine ⟨?_, ?_, h.onCpu, h.onCuda, h.placed⟩
  · have hcbs : s.callbacks.map
        (·.chunk s.step (Function.update s.mem (.caller addr) elems)) =
        s.callbacks.map (·.chunk s.step s.mem) := by
      apply List.map_congr_left
      intro cb hcb
      simp only [DeferredCb.chunk, payload_update s.mem (hcond cb hcb)]
    have hperm := h.perm
    unfold pending at hperm ⊢
    dsimp only
    rwa [hcbs]
  · intro cb hcb arg harg hqueued
    obtain ⟨hdtype, hnumel⟩ := h.exact cb hcb arg harg hqueued
    have hne : Loc.caller arg.addr ≠ .caller addr := by
      intro heq
      apply hcond cb hcb
      have hsrc : cb.src = some arg := harg
      simp only [DeferredCb.Reads, hqueued, hsrc, heq]
    refine ⟨hdtype, ?_⟩
    dsimp only
    rw [Function.update_of_ne hne]
    exact hnumel

/-! ## The copy -/

/-- A copy between equal types leaves the elements at the destination. -/
theorem copied_take (torch : Torch) {arg : TensorArg} {dst : View} (mem : Mem)
    (hdtype : dst.dtype = arg.dtype)
    (hnumel : (mem (.caller arg.addr)).length = dst.numel) :
    (copied torch arg dst mem).take dst.numel = mem (.caller arg.addr) := by
  unfold copied
  dsimp only
  rw [hdtype, torch.cast_self, List.map_id, ← hnumel, List.take_left']
  rfl

theorem nextCopy_phase {i : Nat} {cb : DeferredCb}
    (hnext : s.nextCopy = some i) (hcb : s.callbacks[i]? = some cb) :
    cb.phase = .queued := by
  obtain ⟨hi, hphase, -⟩ := List.findIdx?_eq_some_iff_getElem.mp hnext
  obtain ⟨_, rfl⟩ := List.getElem?_eq_some_iff.mp hcb
  simpa using hphase

theorem copy_payload (torch : Torch) {cb : DeferredCb} {mem : Mem}
    (hqueued : cb.phase = .queued)
    (hexact : ∀ t ∈ cb.src, cb.dst.dtype = t.dtype ∧
      (mem (.caller t.addr)).length = cb.dst.numel) :
    ({ cb with phase := .copied } : DeferredCb).payload (cb.copy torch mem) =
      cb.payload mem := by
  unfold DeferredCb.payload DeferredCb.copy
  cases hsrc : cb.src with
  | none => simp [hqueued]
  | some arg =>
      obtain ⟨hdtype, hnumel⟩ := hexact arg hsrc
      simp only [hqueued, Function.update_self]
      rw [copied_take torch mem hdtype hnumel, hdtype]

/-- The copy of one callback leaves what the others read. -/
theorem copy_payload_of_not_reads (torch : Torch) {next cb : DeferredCb}
    (mem : Mem) (hreads : next.src.isSome → ¬ cb.Reads next.dst.loc) :
    cb.payload (next.copy torch mem) = cb.payload mem := by
  unfold DeferredCb.copy
  cases hsrc : next.src with
  | none => rfl
  | some arg => exact payload_update mem (hreads (by simp [hsrc])) _

/-- A callback stays where it is placed. -/
theorem placed_setPhase (h : ∀ cb ∈ s.callbacks, cb.Placed) {i : Nat}
    {cb : DeferredCb} {phase : CbPhase} (hcb : s.callbacks[i]? = some cb) :
    ∀ cb' ∈ (s.setPhase i cb phase).callbacks, cb'.Placed := by
  intro cb' hcb'
  rcases List.mem_or_eq_of_mem_set hcb' with hold | rfl
  · exact h cb' hold
  · exact h cb (List.mem_of_getElem? hcb)

theorem Handed.copy (h : s.Handed cfg) {i : Nat} {next : DeferredCb}
    (hnext : s.nextCopy = some i) (hcb : s.callbacks[i]? = some next)
    (hcond : next.src.isSome → ∀ cb ∈ s.callbacks, ¬ cb.Reads next.dst.loc) :
    Handed cfg
      { s.setPhase i next .copied with mem := next.copy torch s.mem } := by
  have hqueued := nextCopy_phase hnext hcb
  have hmem : next ∈ s.callbacks := List.mem_of_getElem? hcb
  have hcbs : (s.callbacks.set i { next with phase := .copied }).map
      (·.chunk s.step (next.copy torch s.mem)) =
      s.callbacks.map (·.chunk s.step s.mem) := by
    obtain ⟨hi, rfl⟩ := List.getElem?_eq_some_iff.mp hcb
    apply List.ext_getElem
    · simp
    · intro j hj hj'
      simp only [List.getElem_map, List.getElem_set]
      split
      next heq =>
        subst heq
        have hpayload := copy_payload torch hqueued (h.exact _ hmem · · hqueued)
        simp only [DeferredCb.chunk, hpayload]
        simp [hqueued, CbPhase.key?]
      next =>
        have hlen : j < s.callbacks.length := by simpa using hj'
        have hother := copy_payload_of_not_reads torch s.mem
          (hcond · s.callbacks[j] (List.getElem_mem hlen))
        simp only [DeferredCb.chunk, hother]
  refine ⟨?_, ?_, ?_, h.onCuda, ?_⟩
  · have hperm := h.perm
    unfold pending at hperm ⊢
    dsimp only [setPhase]
    rwa [hcbs]
  · intro cb hcb' arg harg hq
    rcases List.mem_or_eq_of_mem_set hcb' with hold | rfl
    · obtain ⟨hdtype, hnumel⟩ := h.exact cb hold arg harg hq
      refine ⟨hdtype, ?_⟩
      have hsame := copy_payload_of_not_reads torch s.mem
        (hcond · cb hold)
      have hsrc : cb.src = some arg := harg
      simp only [DeferredCb.payload, hq, hsrc, Payload.tensor.injEq,
        true_and] at hsame
      dsimp only
      rw [hsame]
      exact hnumel
    · simp at hq
  · intro hcpu
    simp [setPhase, h.onCpu hcpu]
  · exact placed_setPhase h.placed hcb

/-! ## The threads of the background -/

theorem Handed.setPhase (h : s.Handed cfg) {i : Nat} {cb : DeferredCb}
    (hcb : s.callbacks[i]? = some cb) {phase : CbPhase}
    (hphase : cb.phase ≠ .queued) (hphase' : phase ≠ .queued)
    (hkey : phase.key?.getD s.step = cb.phase.key?.getD s.step) :
    Handed cfg (s.setPhase i cb phase) := by
  have hpayload : ({ cb with phase } : DeferredCb).payload s.mem =
      cb.payload s.mem := by
    unfold DeferredCb.payload
    dsimp only
    split
    next => contradiction
    next =>
      split
      next => contradiction
      next => rfl
  have hchunk : ({ cb with phase } : DeferredCb).chunk s.step s.mem =
      cb.chunk s.step s.mem := by
    simp [DeferredCb.chunk, hpayload, hkey]
  have hcbs := map_chunk_set { cb with phase } hcb hchunk
  refine ⟨?_, ?_, ?_, h.onCuda, ?_⟩
  · have hperm := h.perm
    unfold pending at hperm ⊢
    dsimp only [NanoOverlap.setPhase]
    rwa [hcbs]
  · intro cb' hcb' arg harg hq
    rcases List.mem_or_eq_of_mem_set hcb' with hold | rfl
    · exact h.exact cb' hold arg harg hq
    · exact absurd hq hphase'
  · intro hcpu
    simp [NanoOverlap.setPhase, h.onCpu hcpu]
  · exact placed_setPhase h.placed hcb

theorem callbackAt_some {i : Nat} {phase : CbPhase} {cb : DeferredCb}
    (h : s.callbackAt i phase = some cb) :
    s.callbacks[i]? = some cb ∧ cb.phase = phase := by
  simpa [callbackAt, Option.filter_eq_some_iff] using h

theorem Handed.cbTiming (h : s.Handed cfg) {i : Nat} {ioEnd : ℚ}
    (hstep : s.cbTiming i ioEnd = some t) : Handed cfg t := by
  obtain ⟨cb, hat, rfl⟩ := Option.map_eq_some_iff.mp hstep
  obtain ⟨hcb, hphase⟩ := callbackAt_some hat
  have hframe : Handed cfg (s.recordDeferred cb ioEnd) := h.frame _ _ _
  apply hframe.setPhase hcb (by simp [hphase]) (by simp)
  simp [hphase, CbPhase.key?]

theorem Handed.cbKey (h : s.Handed cfg) {i : Nat}
    (hstep : s.cbKey i = some t) : Handed cfg t := by
  obtain ⟨cb, hat, rfl⟩ := Option.map_eq_some_iff.mp hstep
  obtain ⟨hcb, hphase⟩ := callbackAt_some hat
  apply h.setPhase hcb (by simp [hphase]) (by simp)
  simp [hphase, CbPhase.key?]

theorem cbPut_some {i : Nat} (hstep : s.cbPut i = some t) :
    ∃ cb k, s.callbacks[i]? = some cb ∧ cb.phase = .keyed k ∧
      t = { s.store ⟨k, cb.layerId, cb.payload s.mem⟩ with
        callbacks := s.callbacks.eraseIdx i } := by
  obtain ⟨cb, hcb, hput⟩ := Option.bind_eq_some_iff.mp hstep
  split at hput
  next k hphase =>
    obtain rfl := Option.some.inj hput
    exact ⟨cb, k, hcb, hphase, rfl⟩
  next => simp at hput

/-- A callback stores its chunk and ends. -/
theorem Handed.cbPut (h : s.Handed cfg) {i : Nat}
    (hstep : s.cbPut i = some t) : Handed cfg t := by
  obtain ⟨cb, k, hcb, hkeyed, rfl⟩ := cbPut_some hstep
  obtain ⟨hi, rfl⟩ := List.getElem?_eq_some_iff.mp hcb
  have hchunk : s.callbacks[i].chunk s.step s.mem =
      ⟨k, s.callbacks[i].layerId, s.callbacks[i].payload s.mem⟩ := by
    simp [DeferredCb.chunk, hkeyed, CbPhase.key?]
  refine ⟨?_, ?_, ?_, h.onCuda, ?_⟩
  · apply perm_store h.perm
    have hperm := (List.getElem_cons_eraseIdx_perm hi).map
      (·.chunk s.step s.mem)
    rw [List.map_cons, hchunk] at hperm
    unfold pending store
    dsimp only
    exact (hperm.symm.append_left _).trans List.perm_middle
  · intro cb' hcb' arg harg hq
    exact h.exact cb' (List.mem_of_mem_eraseIdx hcb') arg harg hq
  · intro hcpu
    have hnone : s.callbacks = [] := h.onCpu hcpu
    simp [hnone]
  · exact fun cb' hcb' => h.placed cb' (List.mem_of_mem_eraseIdx hcb')

/-! ## The worker -/

theorem pop_some {ioStart : ℚ} (hstep : s.pop cfg ioStart = some t) :
    ∃ item rest, s.cpuQueue = item :: rest ∧ s.worker = none ∧
      cfg.useCuda = false ∧
      t = { s with
        cpuQueue := rest
        worker := some ⟨item.layerId, item.data, ioStart, .popped⟩ } := by
  unfold pop at hstep
  split at hstep
  next item rest hqueue hidle =>
    split at hstep
    next => simp at hstep
    next hcpu =>
      obtain rfl := Option.some.inj hstep
      exact ⟨item, rest, hqueue, hidle, by simpa using hcpu, rfl⟩
  next => simp at hstep

theorem workerKey_some (hstep : s.workerKey = some t) :
    ∃ layerId data ioStart,
      s.worker = some ⟨layerId, data, ioStart, .popped⟩ ∧
      t = { s with
        worker := some ⟨layerId, data, ioStart, .keyed s.step⟩ } := by
  unfold workerKey at hstep
  split at hstep
  next layerId data ioStart hjob =>
    obtain rfl := Option.some.inj hstep
    exact ⟨layerId, data, ioStart, hjob, rfl⟩
  next => simp at hstep

theorem workerPut_some (hstep : s.workerPut = some t) :
    ∃ layerId data ioStart k,
      s.worker = some ⟨layerId, data, ioStart, .keyed k⟩ ∧
      t = { s.store ⟨k, layerId, .bytes data⟩ with
        worker := some ⟨layerId, data, ioStart, .stored⟩ } := by
  unfold workerPut at hstep
  split at hstep
  next layerId data ioStart k hjob =>
    obtain rfl := Option.some.inj hstep
    exact ⟨layerId, data, ioStart, k, hjob, rfl⟩
  next => simp at hstep

theorem workerTiming_some {ioEnd : ℚ} (hstep : s.workerTiming ioEnd = some t) :
    ∃ layerId data ioStart heap ewma,
      s.worker = some ⟨layerId, data, ioStart, .stored⟩ ∧
      t = { s with heap := heap, ioEwma := ewma, worker := none } := by
  unfold workerTiming at hstep
  split at hstep
  next layerId data ioStart hjob =>
    obtain rfl := Option.some.inj hstep
    obtain ⟨heap, ewma, hrecord⟩ :=
      recordCpu_eq (s := s) ⟨layerId, data, ioStart, .stored⟩ ioEnd
    refine ⟨layerId, data, ioStart, heap, ewma, hjob, ?_⟩
    rw [hrecord]
  next => simp at hstep

/-- A step of the worker, which leaves the callbacks alone. -/
theorem Handed.ofWorker (h : s.Handed cfg) {job : WorkerJob}
    (hjob : s.worker = some job) {worker : Option WorkerJob}
    {heap : List LayerTiming} {ewma : Ewma}
    (hsame : worker.bind (·.chunk? s.step) = job.chunk? s.step) :
    Handed cfg { s with heap := heap, ioEwma := ewma, worker := worker } := by
  refine ⟨?_, h.exact, h.onCpu, fun hcuda => ?_, h.placed⟩
  · have hperm := h.perm
    unfold pending at hperm ⊢
    rw [hjob, Option.bind_some, ← hsame] at hperm
    exact hperm
  · simp [(h.onCuda hcuda).2] at hjob

theorem Handed.pop (h : s.Handed cfg) {ioStart : ℚ}
    (hstep : s.pop cfg ioStart = some t) : Handed cfg t := by
  obtain ⟨item, rest, hqueue, hidle, hcpu, rfl⟩ := pop_some hstep
  refine ⟨?_, h.exact, h.onCpu, fun hcuda => by simp [hcuda] at hcpu,
    h.placed⟩
  have hperm := h.perm
  unfold pending at hperm ⊢
  rw [hqueue, hidle] at hperm
  refine hperm.trans (List.Perm.append_left _ ?_)
  apply List.Perm.append_right
  simp only [List.map_cons, Option.bind_none, Option.toList_none,
    List.append_nil]
  exact (List.perm_append_singleton (item.chunk s.step) _).symm

theorem Handed.workerKey (h : s.Handed cfg)
    (hstep : s.workerKey = some t) : Handed cfg t := by
  obtain ⟨layerId, data, ioStart, hjob, rfl⟩ := workerKey_some hstep
  exact h.ofWorker hjob rfl

theorem Handed.workerPut (h : s.Handed cfg)
    (hstep : s.workerPut = some t) : Handed cfg t := by
  obtain ⟨layerId, data, ioStart, k, hjob, rfl⟩ := workerPut_some hstep
  refine ⟨?_, h.exact, h.onCpu, fun hcuda => ?_, h.placed⟩
  · apply perm_store h.perm
    unfold pending store
    rw [hjob]
    simp only [Option.bind_some, WorkerJob.chunk?, Option.toList_some,
      Option.toList_none, List.append_nil, List.append_assoc,
      List.singleton_append]
    exact List.perm_middle
  · simp [(h.onCuda hcuda).2] at hjob

theorem Handed.workerTiming (h : s.Handed cfg) {ioEnd : ℚ}
    (hstep : s.workerTiming ioEnd = some t) : Handed cfg t := by
  obtain ⟨layerId, data, ioStart, heap, ewma, hjob, rfl⟩ :=
    workerTiming_some hstep
  exact h.ofWorker hjob rfl

/-! ## Runs -/

/-- An undisturbed step keeps the account of the chunks. -/
theorem Handed.transition (h : s.Handed cfg) (hcond : s.Undisturbed cfg e)
    (hstep : s.transition cfg torch e = some t) : Handed cfg t := by
  cases e with
  | beginStep n =>
      obtain rfl := Option.some.inj hstep
      exact h.beginStep hcond
  | layerStart layerId now =>
      obtain rfl := Option.some.inj hstep
      obtain ⟨heap, heq⟩ :=
        onLayerComputeStart_eq cfg s layerId now
      rw [heq]
      exact h.frame heap _ _
  | layerEnd layerId kvTensor kvData computeEnd now =>
      obtain rfl := Option.some.inj hstep
      exact h.onLayerComputeEnd kvData computeEnd now hcond
  | endStep timedOut =>
      simp only [NanoOverlap.transition] at hstep
      split at hstep
      next =>
        obtain rfl := Option.some.inj hstep
        exact ⟨h.perm, h.exact, h.onCpu, h.onCuda, h.placed⟩
      next => simp at hstep
  | write addr elems =>
      obtain rfl := Option.some.inj hstep
      exact h.write hcond
  | pop ioStart => exact h.pop hstep
  | workerKey => exact h.workerKey hstep
  | workerPut => exact h.workerPut hstep
  | workerTiming ioEnd => exact h.workerTiming hstep
  | copy =>
      obtain ⟨i, hnext, hmap⟩ := Option.bind_eq_some_iff.mp hstep
      obtain ⟨next, hcb, rfl⟩ := Option.map_eq_some_iff.mp hmap
      exact h.copy hnext hcb (hcond next (by simp [hnext, hcb]))
  | cbTiming i ioEnd => exact h.cbTiming hstep
  | cbKey i => exact h.cbKey hstep
  | cbPut i => exact h.cbPut hstep

theorem handed_new (cfg : Config) (mem : Mem) : Handed cfg (new cfg mem) where
  perm := List.Perm.refl _
  exact := by simp [new]
  onCpu := fun _ => rfl
  onCuda := fun _ => ⟨rfl, rfl⟩
  placed := by simp [new]

/-- Only a new step changes the table, and only the end of a layer hands
anything over. -/
theorem transition_frame (hstep : s.transition cfg torch e = some t)
    (hbegin : ∀ n, e ≠ .beginStep n)
    (hend : ∀ l kv d c n, e ≠ .layerEnd l kv d c n) :
    t.layerTimings = s.layerTimings ∧ t.enqueued = s.enqueued := by
  cases e with
  | beginStep n => exact absurd rfl (hbegin n)
  | layerEnd l kv d c n => exact absurd rfl (hend l kv d c n)
  | layerStart layerId now =>
      obtain rfl := Option.some.inj hstep
      obtain ⟨heap, heq⟩ :=
        onLayerComputeStart_eq cfg s layerId now
      rw [heq]
      exact ⟨rfl, rfl⟩
  | endStep timedOut =>
      simp only [NanoOverlap.transition] at hstep
      split at hstep
      next =>
        obtain rfl := Option.some.inj hstep
        exact ⟨rfl, rfl⟩
      next => simp at hstep
  | write addr elems =>
      obtain rfl := Option.some.inj hstep
      exact ⟨rfl, rfl⟩
  | pop ioStart =>
      obtain ⟨item, rest, -, -, -, rfl⟩ := pop_some hstep
      exact ⟨rfl, rfl⟩
  | workerKey =>
      obtain ⟨layerId, data, ioStart, -, rfl⟩ := workerKey_some hstep
      exact ⟨rfl, rfl⟩
  | workerPut =>
      obtain ⟨layerId, data, ioStart, k, -, rfl⟩ := workerPut_some hstep
      exact ⟨rfl, rfl⟩
  | workerTiming ioEnd =>
      obtain ⟨layerId, data, ioStart, heap, ewma, -, rfl⟩ :=
        workerTiming_some hstep
      exact ⟨rfl, rfl⟩
  | copy =>
      obtain ⟨i, -, hmap⟩ := Option.bind_eq_some_iff.mp hstep
      obtain ⟨next, -, rfl⟩ := Option.map_eq_some_iff.mp hmap
      exact ⟨rfl, rfl⟩
  | cbTiming i ioEnd =>
      obtain ⟨cb, -, rfl⟩ := Option.map_eq_some_iff.mp hstep
      exact ⟨rfl, rfl⟩
  | cbKey i =>
      obtain ⟨cb, -, rfl⟩ := Option.map_eq_some_iff.mp hstep
      exact ⟨rfl, rfl⟩
  | cbPut i =>
      obtain ⟨cb, k, -, -, rfl⟩ := cbPut_some hstep
      exact ⟨rfl, rfl⟩

/-! ## Coming to rest -/

theorem callbackAt_of {i : Nat} {cb : DeferredCb}
    (hcb : s.callbacks[i]? = some cb) :
    s.callbackAt i cb.phase = some cb := by
  simp [callbackAt, hcb]

/-- A callback whose copy is done can go on, whatever the others do. -/
theorem progress_of_copied {cb : DeferredCb} (hmem : cb ∈ s.callbacks)
    (hcopied : cb.phase ≠ .queued) :
    ∃ e : Event, e.isBackground ∧ s.Undisturbed cfg e ∧
      (s.transition cfg torch e).isSome := by
  obtain ⟨i, hi⟩ := List.mem_iff_getElem?.mp hmem
  have hat := callbackAt_of hi
  cases hphase : cb.phase with
  | queued => exact absurd hphase hcopied
  | copied =>
      rw [hphase] at hat
      refine ⟨.cbTiming i 0, rfl, trivial, ?_⟩
      simp [NanoOverlap.transition, NanoOverlap.cbTiming, hat]
  | timed =>
      rw [hphase] at hat
      refine ⟨.cbKey i, rfl, trivial, ?_⟩
      simp [NanoOverlap.transition, NanoOverlap.cbKey, hat]
  | keyed k =>
      refine ⟨.cbPut i, rfl, trivial, ?_⟩
      simp [NanoOverlap.transition, NanoOverlap.cbPut, hi, hphase]

/-- When all copies are still to come, the first one writes where nobody
reads. -/
theorem progress_of_queued (cfg : Config) (torch : Torch)
    (hplaced : ∀ cb ∈ s.callbacks, cb.Placed)
    (hqueued : ∀ cb ∈ s.callbacks, cb.phase = .queued)
    (hne : s.callbacks ≠ []) :
    s.Undisturbed cfg .copy ∧ (s.transition cfg torch .copy).isSome := by
  obtain ⟨next, rest, hcbs⟩ := List.exists_cons_of_ne_nil hne
  have hfirst : next.phase = .queued := hqueued next (by simp [hcbs])
  have hnext : s.nextCopy = some 0 := by
    simp [nextCopy, hcbs, List.findIdx?_cons, hfirst]
  refine ⟨?_, by simp [NanoOverlap.transition, copyNext, hnext, hcbs]⟩
  intro cb' hcb' hsome cb hcb hreads
  obtain rfl : next = cb' := by simpa [hnext, hcbs] using hcb'
  have haway := (hplaced next (by simp [hcbs])).mp hsome
  -- what a queued callback reads is in the caller's memory
  unfold DeferredCb.Reads at hreads
  rw [hqueued cb hcb] at hreads
  cases hsrc : cb.src with
  | some arg =>
      rw [hsrc] at hreads
      exact haway arg.addr hreads
  | none =>
      rw [hsrc] at hreads
      have hhost : ¬ ∀ addr, cb.dst.loc ≠ .caller addr := by
        intro hcopied
        have hcopy := (hplaced cb hcb).mpr hcopied
        simp [hsrc] at hcopy
      push Not at hhost
      obtain ⟨addr, haddr⟩ := hhost
      exact haway addr (hreads.trans haddr)

/-- While background steps are left, one of them is enabled and disturbs
nothing. -/
theorem Handed.progress (h : s.Handed cfg) (torch : Torch)
    (hwork : s.work ≠ 0) :
    ∃ e : Event, e.isBackground ∧ s.Undisturbed cfg e ∧
      (s.transition cfg torch e).isSome := by
  by_cases hmoved : ∃ cb ∈ s.callbacks, cb.phase ≠ .queued
  · obtain ⟨cb, hmem, hcopied⟩ := hmoved
    exact progress_of_copied hmem hcopied
  · push Not at hmoved
    by_cases hne : s.callbacks = []
    · match hjob : s.worker with
      | some ⟨_, _, _, .popped⟩ =>
          refine ⟨.workerKey, rfl, trivial, ?_⟩
          simp [NanoOverlap.transition, NanoOverlap.workerKey, hjob]
      | some ⟨_, _, _, .keyed _⟩ =>
          refine ⟨.workerPut, rfl, trivial, ?_⟩
          simp [NanoOverlap.transition, NanoOverlap.workerPut, hjob]
      | some ⟨_, _, _, .stored⟩ =>
          refine ⟨.workerTiming 0, rfl, trivial, ?_⟩
          simp [NanoOverlap.transition, NanoOverlap.workerTiming, hjob]
      | none =>
          have hqueue : s.cpuQueue ≠ [] := by
            intro hempty
            simp [work, hempty, hjob, hne] at hwork
          obtain ⟨item, rest, hitems⟩ := List.exists_cons_of_ne_nil hqueue
          have hcpu : cfg.useCuda = false := by
            cases hcuda : cfg.useCuda with
            | false => rfl
            | true => exact absurd (h.onCuda hcuda).1 hqueue
          refine ⟨.pop 0, rfl, trivial, ?_⟩
          simp [NanoOverlap.transition, NanoOverlap.pop, hitems, hjob, hcpu]
    · obtain ⟨hundisturbed, hsome⟩ :=
        progress_of_queued cfg torch h.placed hmoved hne
      exact ⟨.copy, rfl, hundisturbed, hsome⟩

/-- With no step left nothing is pending. -/
theorem pending_eq_nil (hwork : s.work = 0) : s.pending = [] := by
  have hcallbacks : s.callbacks = [] := by
    by_contra hne
    obtain ⟨cb, rest, hcbs⟩ := List.exists_cons_of_ne_nil hne
    have hleft : 0 < cb.phase.left := by
      cases cb.phase <;> simp [CbPhase.left]
    simp only [work, hcbs, List.map_cons, List.sum_cons] at hwork
    omega
  have hworker : s.worker = none := by
    cases hjob : s.worker with
    | none => rfl
    | some job =>
        have hleft : 0 < job.phase.left := by
          cases job.phase <;> simp [WorkerPhase.left]
        simp only [work, hjob, Option.map_some, Option.getD_some] at hwork
        omega
  have hqueue : s.cpuQueue = [] := by
    rw [← List.length_eq_zero_iff]
    unfold work at hwork
    omega
  simp [pending, hcallbacks, hworker, hqueue]

theorem Handed.work_eq_zero (h : s.Handed cfg) (hquiet : s.Quiet cfg torch) :
    s.work = 0 := by
  by_contra hwork
  obtain ⟨e, hback, -, hsome⟩ := h.progress torch hwork
  simp [hquiet e hback] at hsome

theorem Handed.perm_stores (h : s.Handed cfg) (hwork : s.work = 0) :
    s.stores.Perm s.enqueued := by
  have hperm := h.perm
  rw [pending_eq_nil hwork, List.append_nil] at hperm
  exact hperm.symm

theorem Handed.storesOwn (h : s.Handed cfg) : s.StoresOwn cfg torch where
  stored := (List.sublist_append_left _ _).subperm.trans h.perm.symm.subperm
  quiet := fun hquiet => h.perm_stores (h.work_eq_zero hquiet)

theorem left_set {i : Nat} {cb : DeferredCb} (cb' : DeferredCb)
    (hcb : s.callbacks[i]? = some cb) :
    ((s.callbacks.set i cb').map (·.phase.left)).sum + cb.phase.left =
      (s.callbacks.map (·.phase.left)).sum + cb'.phase.left := by
  obtain ⟨hi, rfl⟩ := List.getElem?_eq_some_iff.mp hcb
  have hset := ((List.set_perm_cons_eraseIdx hi cb').map (·.phase.left)).sum_nat
  have hget := ((List.getElem_cons_eraseIdx_perm hi).map (·.phase.left)).sum_nat
  simp only [List.map_cons, List.sum_cons] at hset hget
  omega

theorem work_setPhase {i : Nat} {cb : DeferredCb} {phase : CbPhase}
    (hcb : s.callbacks[i]? = some cb) (hleft : phase.left + 1 = cb.phase.left) :
    (s.setPhase i cb phase).work + 1 = s.work := by
  have hset := left_set { cb with phase } hcb
  dsimp only at hset
  unfold work setPhase
  dsimp only
  omega

/-- The background comes to rest: each of its steps is one of those left. -/
theorem work_transition (hback : e.isBackground)
    (hstep : s.transition cfg torch e = some t) : t.work + 1 = s.work := by
  cases e with
  | pop ioStart =>
      obtain ⟨item, rest, hqueue, hidle, -, rfl⟩ := pop_some hstep
      simp only [work, hqueue, hidle, List.length_cons, Option.map_some,
        Option.map_none, Option.getD_some, Option.getD_none,
        WorkerPhase.left]
      omega
  | workerKey =>
      obtain ⟨layerId, data, ioStart, hjob, rfl⟩ := workerKey_some hstep
      simp only [work, hjob, Option.map_some, Option.getD_some,
        WorkerPhase.left]
      omega
  | workerPut =>
      obtain ⟨layerId, data, ioStart, k, hjob, rfl⟩ := workerPut_some hstep
      simp only [work, store, hjob, Option.map_some, Option.getD_some,
        WorkerPhase.left]
      omega
  | workerTiming ioEnd =>
      obtain ⟨layerId, data, ioStart, heap, ewma, hjob, rfl⟩ :=
        workerTiming_some hstep
      simp only [work, hjob, Option.map_some, Option.map_none,
        Option.getD_some, Option.getD_none, WorkerPhase.left]
      omega
  | copy =>
      obtain ⟨i, hnext, hmap⟩ := Option.bind_eq_some_iff.mp hstep
      obtain ⟨next, hcb, rfl⟩ := Option.map_eq_some_iff.mp hmap
      exact work_setPhase hcb (by simp [nextCopy_phase hnext hcb, CbPhase.left])
  | cbTiming i ioEnd =>
      obtain ⟨cb, hat, rfl⟩ := Option.map_eq_some_iff.mp hstep
      obtain ⟨hcb, hphase⟩ := callbackAt_some hat
      exact work_setPhase (s := s.recordDeferred cb ioEnd) hcb
        (by simp [hphase, CbPhase.left])
  | cbKey i =>
      obtain ⟨cb, hat, rfl⟩ := Option.map_eq_some_iff.mp hstep
      obtain ⟨hcb, hphase⟩ := callbackAt_some hat
      exact work_setPhase hcb (by simp [hphase, CbPhase.left])
  | cbPut i =>
      obtain ⟨cb, k, hcb, hkeyed, rfl⟩ := cbPut_some hstep
      obtain ⟨hi, rfl⟩ := List.getElem?_eq_some_iff.mp hcb
      have hget :=
        ((List.getElem_cons_eraseIdx_perm hi).map (·.phase.left)).sum_nat
      have hleft : (CbPhase.keyed k).left = 1 := rfl
      simp only [List.map_cons, List.sum_cons, hkeyed, hleft] at hget
      simp only [work, store]
      omega
  | _ => simp [Event.isBackground] at hback

/-- The background can finish what it has in hand without disturbing anything,
and all that has been handed over is stored then. -/
theorem Handed.finishes (h : s.Handed cfg) (n : Nat) (hwork : s.work = n) :
    ∃ t, Reach (fun s e => s.transition cfg torch e)
        (fun s e => e.isBackground ∧ s.Undisturbed cfg e) s t ∧
      t.stores.Perm s.enqueued := by
  induction n generalizing s with
  | zero => exact ⟨s, .refl, h.perm_stores hwork⟩
  | succ n ih =>
      obtain ⟨e, hback, hcond, hsome⟩ := h.progress torch (by omega)
      obtain ⟨u, hstep⟩ := Option.isSome_iff_exists.mp hsome
      have hleft := work_transition hback hstep
      obtain ⟨t, hreach, hstores⟩ := ih (h.transition hcond hstep) (by omega)
      refine ⟨t, .head ⟨hback, hcond⟩ hstep hreach, ?_⟩
      have hframe := transition_frame hstep
        (by rintro k rfl; simp [Event.isBackground] at hback)
        (by rintro l kv d c k rfl; simp [Event.isBackground] at hback)
      rw [hframe.2] at hstores
      exact hstores

/-- **Chunks are stored under their own steps.**  In every undisturbed run
nothing is stored but what was handed over, under its own step and with its own
contents; all of it is once the background is at rest, and the background can
get there. -/
theorem stores_own_of_undisturbed (cfg : Config) (torch : Torch) (mem : Mem)
    (s : NanoOverlap)
    (hreach : Reach (fun s e => s.transition cfg torch e)
      (fun s e => s.Undisturbed cfg e) (new cfg mem) s) :
    s.StoresOwn cfg torch ∧
      ∃ t, Reach (fun s e => s.transition cfg torch e)
          (fun s e => e.isBackground ∧ s.Undisturbed cfg e) s t ∧
        t.stores.Perm s.enqueued := by
  have hs : s.Handed cfg := by
    apply hreach.invariant (handed_new cfg mem)
    intro s e t hs hcond hstep
    exact hs.transition hcond hstep
  exact ⟨hs.storesOwn, hs.finishes s.work rfl⟩

/-- `copy_` between types that all share their bits. -/
def plainTorch : Torch := ⟨fun _ _ => id, fun _ => rfl⟩

/-- One layer on the CPU path. -/
def oneLayerCpu : Config := { nLayers := 1, useCuda := false }

/-- One layer with CUDA and a pinned buffer of two elements. -/
def oneLayerCuda : Config := { nLayers := 1, chunkBytes := 4, useCuda := true }

/-- Two elements in the tensor at address 0. -/
def twoElements : Mem := fun loc => if loc = .caller 0 then [7, 8] else []

/-- A tensor at address 0 of the type of the pool. -/
def deviceTensor : KvTensor := .tensor ⟨0, .bfloat16, true⟩

/-- Two steps on the device: the buffer of the layer is used again once the
first chunk is stored, and the tensor is written once it has been copied. -/
def twoDeviceSteps : List Event :=
  [.beginStep 0, .layerEnd 0 (some deviceTensor) none 1 1, .endStep false,
    .copy, .write 0 [5], .cbTiming 0 2, .cbKey 0, .cbPut 0,
    .beginStep 1, .layerEnd 0 (some deviceTensor) none 3 3, .endStep false,
    .copy, .cbTiming 0 4, .cbKey 0, .cbPut 0]

theorem stores_own_two_device_steps :
    ∃ s : NanoOverlap, s.stores = [⟨0, 0, .tensor .bfloat16 [7, 8]⟩,
        ⟨1, 0, .tensor .bfloat16 [5]⟩] ∧
      s.StoresOwn oneLayerCuda plainTorch := by
  obtain ⟨s, hreach, hstores⟩ : ∃ s : NanoOverlap,
      Reach (fun s e => s.transition oneLayerCuda plainTorch e)
        (fun s e => s.Undisturbed oneLayerCuda e)
        (new oneLayerCuda twoElements) s ∧
      s.stores = [⟨0, 0, .tensor .bfloat16 [7, 8]⟩,
        ⟨1, 0, .tensor .bfloat16 [5]⟩] :=
    Reach.exists_of_exec twoDeviceSteps (by decide +kernel) (by decide +kernel)
  exact ⟨s, hstores, (stores_own_of_undisturbed oneLayerCuda plainTorch
    twoElements s hreach).1⟩

/-- A step is begun while the worker has a popped chunk in hand: `end_step` has
found the queue empty. -/
def lateKey : List Event :=
  [.beginStep 0, .layerEnd 0 none (some [1]) 1 1, .pop 2, .endStep false,
    .beginStep 1, .workerKey, .workerPut, .workerTiming 3]

/-- The chunk of step 0 is stored under step 1. -/
theorem stored_under_next_step :
    ¬ ∀ (cfg : Config) (torch : Torch) (mem : Mem) (s : NanoOverlap),
      Reachable (fun s e => s.transition cfg torch e) (new cfg mem) s →
        s.StoresOwn cfg torch := by
  intro hall
  obtain ⟨s, hreach, hstores, henqueued⟩ : ∃ s : NanoOverlap,
      Reachable (fun s e => s.transition oneLayerCpu plainTorch e)
        (new oneLayerCpu twoElements) s ∧
      s.stores = [⟨1, 0, .bytes [1]⟩] ∧
      s.enqueued = [⟨0, 0, .bytes [1]⟩] :=
    Reachable.exists_of_exec lateKey (by decide +kernel)
  have hown := (hall oneLayerCpu plainTorch twoElements s hreach).stored
  rw [hstores, henqueued] at hown
  have hmem := hown.subset (List.mem_singleton_self _)
  simp at hmem

end NanoOverlap

end Tempo
