import Tempo.NanoStores

/-!
# The order of the chunks without CUDA

One worker takes the chunks from one queue, so they are stored in the order in
which they were handed over, whatever the key each is stored under.  What is
handed over is what the queue was given: the chunk in place `n` of the stores is
the one that was handed over as number `n`.

The table of timings of a controller is empty until the first step is begun and
has one entry for each layer from then on.
-/

namespace Tempo

open Runs

namespace NanoOverlap

/-- A chunk without its key. -/
def Chunk.item (c : Chunk) : Int × Payload := (c.layerId, c.payload)

def QueueItem.item (q : QueueItem) : Int × Payload := (q.layerId, .bytes q.data)

/-- What the worker has still to store. -/
def WorkerJob.unstored (job : WorkerJob) : List (Int × Payload) :=
  match job.phase with
  | .stored => []
  | _ => [(job.layerId, .bytes job.data)]

def inHand (s : NanoOverlap) : List (Int × Payload) :=
  (s.worker.map (·.unstored)).getD []

/-- First in, first out. -/
structure InOrder (s : NanoOverlap) : Prop where
  order : s.stores.map (·.item) ++ s.inHand ++ s.cpuQueue.map (·.item) =
    s.enqueued.map (·.item)
  noCallbacks : s.callbacks = []

/-- What a call on a layer does to the queue without CUDA: nothing, or one
chunk more. -/
structure Handover (s t : NanoOverlap) : Prop where
  layerTimings : t.layerTimings = s.layerTimings
  kept : t.stores = s.stores ∧ t.worker = s.worker ∧ t.callbacks = s.callbacks
  queue : (t.cpuQueue = s.cpuQueue ∧ t.enqueued = s.enqueued) ∨
    ∃ item : QueueItem, t.cpuQueue = s.cpuQueue ++ [item] ∧
      t.enqueued = s.enqueued ++ [item.chunk s.step]

variable {cfg : Config} {torch : Torch} {s t : NanoOverlap} {e : Event}

theorem Handover.refl (s : NanoOverlap) : s.Handover s :=
  ⟨rfl, ⟨rfl, rfl, rfl⟩, .inl ⟨rfl, rfl⟩⟩

theorem handover_start (layerId : Int) (now : ℚ) :
    s.Handover (s.onLayerComputeStart cfg layerId now).1 := by
  obtain ⟨heap, heq⟩ :=
    onLayerComputeStart_eq cfg s layerId now
  rw [heq]
  exact ⟨rfl, ⟨rfl, rfl, rfl⟩, .inl ⟨rfl, rfl⟩⟩

theorem handover_enqueueCpu (cfg : Config) (s : NanoOverlap) (layerId : Int)
    (ref : Nat) (kvData : Option Bytes) (now : ℚ) :
    s.Handover (s.enqueueCpu cfg layerId ref kvData now).1 := by
  unfold enqueueCpu
  dsimp only
  split
  · exact .refl s
  · exact ⟨rfl, ⟨rfl, rfl, rfl⟩, .inr ⟨⟨layerId, _, now⟩, rfl, rfl⟩⟩

theorem enqueueIo_cpu (hcpu : cfg.useCuda = false) (layerId : Int) (ref : Nat)
    (kvTensor : Option KvTensor) (kvData : Option Bytes) (now : ℚ) :
    s.enqueueIo cfg layerId ref kvTensor kvData now =
      s.enqueueCpu cfg layerId ref kvData now := by
  cases kvTensor with
  | none => rfl
  | some kv => simp [enqueueIo, hcpu]

theorem handover_end (hcpu : cfg.useCuda = false) (layerId : Int)
    (kvTensor : Option KvTensor) (kvData : Option Bytes) (computeEnd now : ℚ) :
    s.Handover
      (s.onLayerComputeEnd cfg layerId kvTensor kvData computeEnd now).1 := by
  unfold onLayerComputeEnd
  split
  next =>
    split
    next => exact .refl s
    next ref _ =>
      rw [enqueueIo_cpu hcpu]
      have hqueue := handover_enqueueCpu cfg (s.closeLayer ref computeEnd)
        layerId ref kvData now
      exact ⟨hqueue.layerTimings, hqueue.kept, hqueue.queue⟩
  next => exact .refl s

theorem Handover.inOrder (h : s.Handover t) (hs : s.InOrder) : t.InOrder := by
  obtain ⟨hstores, hworker, hcallbacks⟩ := h.kept
  refine ⟨?_, hcallbacks.trans hs.noCallbacks⟩
  have hhand : t.inHand = s.inHand := by simp [inHand, hworker]
  rcases h.queue with ⟨hqueue, henqueued⟩ | ⟨item, hqueue, henqueued⟩
  · rw [hstores, hhand, hqueue, henqueued]
    exact hs.order
  · rw [hstores, hhand, hqueue, henqueued, List.map_append, List.map_append,
      ← List.append_assoc, hs.order]
    rfl

/-- Without CUDA, the chunks stay in order. -/
theorem InOrder.transition (hs : s.InOrder) (hcpu : cfg.useCuda = false)
    (hstep : s.transition cfg torch e = some t) : t.InOrder := by
  have hnone : ∀ i : Nat, s.callbacks[i]? = none := by simp [hs.noCallbacks]
  cases e with
  | beginStep n =>
      obtain rfl := Option.some.inj hstep
      exact ⟨hs.order, hs.noCallbacks⟩
  | layerStart layerId now =>
      obtain rfl := Option.some.inj hstep
      exact (handover_start layerId now).inOrder hs
  | layerEnd layerId kvTensor kvData computeEnd now =>
      obtain rfl := Option.some.inj hstep
      exact (handover_end hcpu layerId kvTensor kvData computeEnd now).inOrder hs
  | endStep timedOut =>
      simp only [NanoOverlap.transition] at hstep
      split at hstep
      next =>
        obtain rfl := Option.some.inj hstep
        exact ⟨hs.order, hs.noCallbacks⟩
      next => simp at hstep
  | write addr elems =>
      obtain rfl := Option.some.inj hstep
      exact ⟨hs.order, hs.noCallbacks⟩
  | pop ioStart =>
      obtain ⟨item, rest, hqueue, hidle, -, rfl⟩ := pop_some hstep
      refine ⟨?_, hs.noCallbacks⟩
      have horder := hs.order
      rw [hqueue, List.map_cons] at horder
      simpa [inHand, hidle, WorkerJob.unstored, QueueItem.item] using horder
  | workerKey =>
      obtain ⟨layerId, data, ioStart, hjob, rfl⟩ := workerKey_some hstep
      refine ⟨?_, hs.noCallbacks⟩
      have horder := hs.order
      simpa [inHand, hjob, WorkerJob.unstored] using horder
  | workerPut =>
      obtain ⟨layerId, data, ioStart, k, hjob, rfl⟩ := workerPut_some hstep
      refine ⟨?_, hs.noCallbacks⟩
      have horder := hs.order
      simpa [inHand, hjob, WorkerJob.unstored, store, Chunk.item] using horder
  | workerTiming ioEnd =>
      obtain ⟨layerId, data, ioStart, heap, ewma, hjob, rfl⟩ :=
        workerTiming_some hstep
      refine ⟨?_, hs.noCallbacks⟩
      have horder := hs.order
      simpa [inHand, hjob, WorkerJob.unstored] using horder
  | copy =>
      obtain ⟨i, -, hmap⟩ := Option.bind_eq_some_iff.mp hstep
      simp [hnone] at hmap
  | cbTiming i ioEnd =>
      simp [NanoOverlap.transition, cbTiming, callbackAt, hnone] at hstep
  | cbKey i =>
      simp [NanoOverlap.transition, cbKey, callbackAt, hnone] at hstep
  | cbPut i => simp [NanoOverlap.transition, cbPut, hnone] at hstep

theorem inOrder_new (mem : Mem) : (new cfg mem).InOrder := ⟨rfl, rfl⟩

theorem Handover.enqueued_grows (h : s.Handover t) :
    s.enqueued <+: t.enqueued := by
  rcases h.queue with ⟨-, henqueued⟩ | ⟨item, -, henqueued⟩
  · exact ⟨[], by rw [henqueued, List.append_nil]⟩
  · exact ⟨[item.chunk s.step], henqueued.symm⟩

/-- What has been handed over stays handed over. -/
theorem enqueued_grows (hcpu : cfg.useCuda = false)
    (hstep : s.transition cfg torch e = some t) :
    s.enqueued <+: t.enqueued := by
  cases e with
  | beginStep n =>
      obtain rfl := Option.some.inj hstep
      exact List.prefix_rfl
  | layerEnd layerId kvTensor kvData computeEnd now =>
      obtain rfl := Option.some.inj hstep
      exact (handover_end hcpu layerId kvTensor kvData computeEnd
        now).enqueued_grows
  | _ =>
      have hsame := (transition_frame hstep (by simp) (by simp)).2
      exact ⟨[], by rw [hsame, List.append_nil]⟩

/-- The end of a layer comes without separate data. -/
def NoData (_ : NanoOverlap) (e : Event) : Prop :=
  ∀ l kv d c n, e = .layerEnd l kv d c n → d = none

/-- Every chunk is the placeholder, and there is none when the placeholder
cannot be made. -/
structure Placeholders (cfg : Config) (s : NanoOverlap) : Prop where
  payload : ∀ c ∈ s.enqueued, c.payload = .bytes cfg.placeholder
  none_of_neg : cfg.chunkBytes < 0 → s.enqueued = []

theorem enqueueCpu_none (layerId : Int) (ref : Nat) (now : ℚ) :
    (s.enqueueCpu cfg layerId ref none now).1.enqueued =
      if cfg.chunkBytes < 0 then s.enqueued
      else s.enqueued ++ [⟨s.step, layerId, .bytes cfg.placeholder⟩] := by
  unfold enqueueCpu
  by_cases hneg : cfg.chunkBytes < 0
  · simp [hneg]
  · simp [hneg]

/-- Without separate data the end of a layer that is in the table hands over
the placeholder. -/
theorem onLayerComputeEnd_none (hcpu : cfg.useCuda = false) {layerId : Int}
    {ref : Nat} (hrange : 0 ≤ layerId ∧ layerId < cfg.nLayers)
    (href : s.layerTimings[layerId.toNat]? = some ref)
    (kvTensor : Option KvTensor) (computeEnd now : ℚ) :
    (s.onLayerComputeEnd cfg layerId kvTensor none computeEnd now).1.enqueued =
      if cfg.chunkBytes < 0 then s.enqueued
      else s.enqueued ++ [⟨s.step, layerId, .bytes cfg.placeholder⟩] := by
  unfold onLayerComputeEnd
  rw [if_pos hrange]
  simp only [href]
  rw [enqueueIo_cpu hcpu]
  exact enqueueCpu_none layerId ref now

theorem Placeholders.transition (h : s.Placeholders cfg)
    (hcpu : cfg.useCuda = false) (hnodata : s.NoData e)
    (hstep : s.transition cfg torch e = some t) : t.Placeholders cfg := by
  cases e with
  | beginStep n =>
      obtain rfl := Option.some.inj hstep
      exact ⟨h.payload, h.none_of_neg⟩
  | layerEnd layerId kvTensor kvData computeEnd now =>
      obtain rfl := Option.some.inj hstep
      obtain rfl : kvData = none := hnodata _ _ _ _ _ rfl
      by_cases hrange : 0 ≤ layerId ∧ layerId < cfg.nLayers
      · cases href : s.layerTimings[layerId.toNat]? with
        | none =>
            have hsame : s.onLayerComputeEnd cfg layerId kvTensor none
                computeEnd now = (s, some .indexError) := by
              unfold onLayerComputeEnd
              rw [if_pos hrange]
              simp only [href]
            rw [hsame]
            exact h
        | some ref =>
            have henqueued := onLayerComputeEnd_none hcpu hrange href kvTensor
              computeEnd now
            constructor
            · intro c hc
              rw [henqueued] at hc
              split at hc
              next => exact h.payload c hc
              next =>
                rcases List.mem_append.mp hc with hold | hnew
                · exact h.payload c hold
                · rw [List.mem_singleton.mp hnew]
            · intro hneg
              rw [henqueued, if_pos hneg]
              exact h.none_of_neg hneg
      · have hsame : s.onLayerComputeEnd cfg layerId kvTensor none computeEnd
            now = (s, none) := by
          unfold onLayerComputeEnd
          rw [if_neg hrange]
        rw [hsame]
        exact h
  | _ =>
      have hsame := (transition_frame hstep (by simp) (by simp)).2
      refine ⟨?_, ?_⟩
      · rw [hsame]
        exact h.payload
      · rw [hsame]
        exact h.none_of_neg

/-- A chunk in place `n` of the stores was handed over as number `n`. -/
theorem InOrder.item_stores (hs : s.InOrder) {n : Nat}
    (hn : n < s.stores.length) :
    (s.stores[n]?).map (·.item) = (s.enqueued[n]?).map (·.item) := by
  have horder := congrArg (fun l => l[n]?) hs.order
  beta_reduce at horder
  rw [List.append_assoc, List.getElem?_append_left (by simpa using hn),
    List.getElem?_map, List.getElem?_map] at horder
  exact horder

/-- The chunk that follows those handed over so far is stored as it was handed
over, in every later state in which it is stored at all. -/
theorem InOrder.stored_of_handed {u : NanoOverlap} {c : Chunk}
    (hcpu : cfg.useCuda = false) (ht : t.InOrder)
    (hhanded : t.enqueued = s.enqueued ++ [c])
    (hreach : Reachable (fun s e => s.transition cfg torch e) t u)
    (hdone : s.enqueued.length < u.stores.length) :
    (u.stores[s.enqueued.length]?).map (·.item) = some c.item := by
  have hu : u.InOrder :=
    hreach.invariant ht fun _ _ _ h _ hstep => h.transition hcpu hstep
  have hkept : t.enqueued <+: u.enqueued := by
    apply hreach.invariant
    · exact List.prefix_rfl
    · intro v e w hv _ hstep
      exact hv.trans (enqueued_grows hcpu hstep)
  obtain ⟨later, hlater⟩ := hkept
  rw [hu.item_stores hdone, ← hlater, hhanded]
  simp

/-! ## The table of timings -/

theorem layerTimings_beginStep (n : Int) :
    (s.beginStep cfg n).layerTimings.length = cfg.nLayers.toNat := by
  simp [beginStep]

/-- Only a new step changes the table. -/
theorem layerTimings_transition (hcpu : cfg.useCuda = false)
    (hstep : s.transition cfg torch e = some t) :
    t.layerTimings = s.layerTimings ∨
      t.layerTimings.length = cfg.nLayers.toNat := by
  cases e with
  | beginStep n =>
      obtain rfl := Option.some.inj hstep
      exact .inr (layerTimings_beginStep n)
  | layerEnd layerId kvTensor kvData computeEnd now =>
      obtain rfl := Option.some.inj hstep
      exact .inl (handover_end hcpu layerId kvTensor kvData computeEnd
        now).layerTimings
  | _ => exact .inl (transition_frame hstep (by simp) (by simp)).1

/-- A layer in range is missing from the table exactly when there is none. -/
theorem layerTimings_eq_none_iff {layerId : Int}
    (htable : s.layerTimings = [] ∨
      s.layerTimings.length = cfg.nLayers.toNat)
    (hrange : 0 ≤ layerId ∧ layerId < cfg.nLayers) :
    s.layerTimings[layerId.toNat]? = none ↔ s.layerTimings = [] := by
  rw [List.getElem?_eq_none_iff]
  constructor
  · intro hshort
    rcases htable with hempty | hfull
    · exact hempty
    · omega
  · intro hempty
    simp [hempty]

theorem layerTimings_ne_nil {i ref : Nat} (hsome : s.layerTimings[i]? = some ref) :
    s.layerTimings ≠ [] :=
  List.ne_nil_of_mem (List.mem_of_getElem? hsome)

/-- The events of a layer raise an index error exactly when the layer is in
range and there is no table. -/
theorem start_indexError_iff (layerId : Int) (now : ℚ)
    (htable : s.layerTimings = [] ∨
      s.layerTimings.length = cfg.nLayers.toNat) :
    (s.onLayerComputeStart cfg layerId now).2 = some .indexError ↔
      (0 ≤ layerId ∧ layerId < cfg.nLayers) ∧ s.layerTimings = [] := by
  unfold onLayerComputeStart
  split
  next hrange =>
    split
    next hnone =>
      simp [hrange, (layerTimings_eq_none_iff htable hrange).mp hnone]
    next ref hsome =>
      have hne := layerTimings_ne_nil hsome
      simp [hne]
  next hrange => simp [hrange]

theorem enqueueCpu_ne_indexError (layerId : Int) (ref : Nat)
    (kvData : Option Bytes) (now : ℚ) :
    (s.enqueueCpu cfg layerId ref kvData now).2 ≠ some .indexError := by
  unfold enqueueCpu
  dsimp only
  split <;> simp

theorem end_indexError_iff (hcpu : cfg.useCuda = false) (layerId : Int)
    (kvTensor : Option KvTensor) (kvData : Option Bytes) (computeEnd now : ℚ)
    (htable : s.layerTimings = [] ∨
      s.layerTimings.length = cfg.nLayers.toNat) :
    (s.onLayerComputeEnd cfg layerId kvTensor kvData computeEnd now).2 =
        some .indexError ↔
      (0 ≤ layerId ∧ layerId < cfg.nLayers) ∧ s.layerTimings = [] := by
  unfold onLayerComputeEnd
  split
  next hrange =>
    split
    next hnone =>
      simp [hrange, (layerTimings_eq_none_iff htable hrange).mp hnone]
    next ref hsome =>
      have hne := layerTimings_ne_nil hsome
      rw [enqueueIo_cpu hcpu]
      simp [hne, enqueueCpu_ne_indexError]
  next hrange => simp [hrange]

end NanoOverlap

end Tempo
