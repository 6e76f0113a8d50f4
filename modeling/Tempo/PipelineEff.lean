import Mathlib.Algebra.Order.BigOperators.Group.List
import Mathlib.Algebra.Order.Field.Basic
import Mathlib.Data.List.Nodup
import Mathlib.Tactic.Linarith
import Tempo.Interleaving
import Tempo.NanoOverlap

/-!
# Pipeline efficiency

Three threads record how much of the I/O of a layer its compute hides: the CPU worker,
the thread that waits for a copy and then calls back, and the one that waits where there
is nothing to call.  The threads of different layers run in any order, and the metrics
are computed at any moment.

The three agree, and the efficiency is a fraction, but for the overlap that the callback
thread records: it is 1000 times too large, so that both hold of layers without compute
or without I/O only (`fraction_iff`).  Where the callback thread has recorded no other
layer, the efficiency is a fraction (`pipelineEff_mem`).
-/

namespace Tempo

open Interleaving

namespace NanoOverlap

/-- What a timing thread records. -/
def LayerTiming.recordTiming (lt : LayerTiming) (ioEnd : ℚ) : LayerTiming :=
  let ioMs := (ioEnd - lt.ioStart) * 1000
  { lt with
    ioEnd
    bubbleMs := max 0 (ioMs - lt.computeMs)
    overlapMs := min ioMs lt.computeMs }

/-- `_record_timing` after the copy. -/
def recordTiming (s : NanoOverlap) (ref : Nat) (ioEnd : ℚ) : NanoOverlap :=
  let ioMs := (ioEnd - (s.timing ref).ioStart) * 1000
  { s.updateTiming ref (·.recordTiming ioEnd) with
    ioEwma := s.ioEwma.update ioMs }

/-- What is written into the timing of a layer. -/
inductive LayerEvent where
  | computeStart (now : ℚ)
  | computeEnd (now : ℚ)
  /-- the CPU branch of `on_layer_compute_end` -/
  | enqueueCpu (ioBytes : Int)
  /-- `_enqueue_cuda_io` -/
  | enqueueCuda (now : ℚ) (ioBytes : Int)
  /-- `_cpu_io_worker` -/
  | cpuWorker (ioStart ioEnd : ℚ)
  | deferredCb (ioEnd : ℚ)
  | recordTiming (ioEnd : ℚ)

def LayerEvent.apply (lt : LayerTiming) : LayerEvent → LayerTiming
  | .computeStart now => { lt with computeStart := now }
  | .computeEnd now => { lt with computeEnd := now }
  | .enqueueCpu ioBytes => { lt with ioBytes }
  | .enqueueCuda now ioBytes => { lt with ioStart := now, ioBytes }
  | .cpuWorker ioStart ioEnd => lt.recordCpu ioStart ioEnd
  | .deferredCb ioEnd => lt.recordDeferred ioEnd
  | .recordTiming ioEnd => lt.recordTiming ioEnd

variable (cfg : Config)

/-- The controller as one of its threads gets to the timing of layer `i`; the data that
the worker has stored and the copy that was waited for are not looked at. -/
def layerStep (s : NanoOverlap) (i : Nat) (e : LayerEvent) : NanoOverlap :=
  match s.layerTimings[i]? with
  | none => s
  | some ref =>
      match e with
      | .computeStart now => (s.onLayerComputeStart cfg i now).1
      | .computeEnd now => s.closeLayer ref now
      | .enqueueCpu ioBytes => s.updateTiming ref fun lt => { lt with ioBytes }
      | .enqueueCuda now ioBytes =>
          s.updateTiming ref fun lt => { lt with ioStart := now, ioBytes }
      | .cpuWorker ioStart ioEnd =>
          s.recordCpu { layerId := i, data := [], ioStart, phase := .stored } ioEnd
      | .deferredCb ioEnd =>
          s.recordDeferred
            { layerId := i
              timing := ref
              src := none
              dst := { loc := .fresh 0, dtype := .bfloat16, numel := 0 }
              phase := .copied } ioEnd
      | .recordTiming ioEnd => s.recordTiming ref ioEnd

def play (s : NanoOverlap) (events : List (Nat × LayerEvent)) : NanoOverlap :=
  events.foldl (fun s e => s.layerStep cfg e.1 e.2) s

/-- The timings of the step. -/
def timings (s : NanoOverlap) : List LayerTiming :=
  s.layerTimings.map s.timing

/-- The thread that records the timing of a layer. -/
inductive IoPath where
  | cpuWorker
  | deferredCb
  | recordTiming
  deriving DecidableEq

/-- What happens to a layer, and the thread that records it. -/
structure Layer where
  computeStart : ℚ
  computeEnd : ℚ
  ioStart : ℚ
  ioEnd : ℚ
  ioBytes : Int
  path : IoPath
  compute_le : computeStart ≤ computeEnd
  io_le : ioStart ≤ ioEnd

namespace Layer

variable (layer : Layer)

def computeMs : ℚ := (layer.computeEnd - layer.computeStart) * 1000

def ioMs : ℚ := (layer.ioEnd - layer.ioStart) * 1000

def enqueue : IoPath → LayerEvent
  | .cpuWorker => .enqueueCpu layer.ioBytes
  | .deferredCb => .enqueueCuda layer.ioStart layer.ioBytes
  | .recordTiming => .enqueueCuda layer.ioStart layer.ioBytes

def done : IoPath → LayerEvent
  | .cpuWorker => .cpuWorker layer.ioStart layer.ioEnd
  | .deferredCb => .deferredCb layer.ioEnd
  | .recordTiming => .recordTiming layer.ioEnd

/-- The events of a layer on one of the paths. -/
def events (path : IoPath) : List LayerEvent :=
  [.computeStart layer.computeStart, .computeEnd layer.computeEnd, layer.enqueue path,
    layer.done path]

/-- What a path makes of the timing of a layer. -/
def record (path : IoPath) (lt : LayerTiming) : LayerTiming :=
  (layer.events path).foldl LayerEvent.apply lt

/-- The three paths record the same. -/
def Agrees : Prop :=
  ∀ p q lt, (layer.record p lt).bubbleMs = (layer.record q lt).bubbleMs ∧
    (layer.record p lt).overlapMs = (layer.record q lt).overlapMs

/-- A layer without compute or without I/O. -/
def Lone : Prop :=
  layer.computeStart = layer.computeEnd ∨ layer.ioStart = layer.ioEnd

end Layer

section Table

variable {cfg} {s : NanoOverlap} {i : Nat}

/-- Timings are there, one for each layer, and no two are the same object. -/
structure Laid (cfg : Config) (s : NanoOverlap) : Prop where
  length : s.layerTimings.length = cfg.nLayers.toNat
  nodup : s.layerTimings.Nodup
  made : ∀ ref ∈ s.layerTimings, ref < s.heap.length

theorem laid_beginStep (step : Int) : Laid cfg (s.beginStep cfg step) where
  length := by simp [beginStep]
  nodup := by
    apply List.Nodup.map _ List.nodup_range
    intro a b heq
    exact Nat.add_left_cancel heq
  made := by
    intro ref href
    obtain ⟨i, hi, rfl⟩ := List.mem_map.mp href
    simpa [beginStep] using hi

theorem timings_beginStep (step : Int) : (s.beginStep cfg step).timings =
    (List.range cfg.nLayers.toNat).map fun i => { layerId := i } := by
  unfold timings beginStep
  rw [List.map_map]
  apply List.map_congr_left
  intro i hi
  have hlt : i < cfg.nLayers.toNat := List.mem_range.mp hi
  simp [timing, hlt]

/-- An event reads and writes the timing of its layer. -/
theorem layerStep_of_some (hs : Laid cfg s) {ref : Nat}
    (href : s.layerTimings[i]? = some ref) (e : LayerEvent) :
    (s.layerStep cfg i e).layerTimings = s.layerTimings ∧
      (s.layerStep cfg i e).heap = s.heap.modify ref fun lt => e.apply lt := by
  unfold layerStep
  rw [href]
  cases e with
  | computeStart now =>
      have hlt : i < cfg.nLayers.toNat :=
        hs.length ▸ (List.getElem?_eq_some_iff.mp href).1
      have hlayer : (0 : Int) ≤ i ∧ (i : Int) < cfg.nLayers := by omega
      simp [onLayerComputeStart, hlayer, href, updateTiming, LayerEvent.apply]
  | computeEnd now => exact ⟨rfl, rfl⟩
  | enqueueCpu ioBytes => exact ⟨rfl, rfl⟩
  | enqueueCuda now ioBytes => exact ⟨rfl, rfl⟩
  | cpuWorker ioStart ioEnd => simp [recordCpu, href, updateTiming, LayerEvent.apply]
  | deferredCb ioEnd => exact ⟨rfl, rfl⟩
  | recordTiming ioEnd => exact ⟨rfl, rfl⟩

theorem layerStep_of_none (hnone : s.layerTimings[i]? = none) (e : LayerEvent) :
    s.layerStep cfg i e = s := by
  unfold layerStep
  rw [hnone]

theorem laid_layerStep (hs : Laid cfg s) (e : LayerEvent) :
    Laid cfg (s.layerStep cfg i e) := by
  cases href : s.layerTimings[i]? with
  | none => rwa [layerStep_of_none href]
  | some ref =>
      obtain ⟨htable, hheap⟩ := layerStep_of_some hs href e
      refine ⟨?_, ?_, ?_⟩
      · rw [htable, hs.length]
      · rw [htable]
        exact hs.nodup
      · rw [htable, hheap, List.length_modify]
        exact hs.made

theorem timings_layerStep (hs : Laid cfg s) (e : LayerEvent) :
    (s.layerStep cfg i e).timings = update LayerEvent.apply s.timings (i, e) := by
  cases href : s.layerTimings[i]? with
  | none =>
      have hlen : s.timings.length ≤ i := by
        rw [timings, List.length_map]
        exact List.getElem?_eq_none_iff.mp href
      rw [layerStep_of_none href, update, List.modify_eq_self hlen]
  | some ref =>
      obtain ⟨htable, hheap⟩ := layerStep_of_some hs href e
      apply List.ext_getElem?
      intro j
      rw [update, List.getElem?_modify, timings, timings, htable, List.getElem?_map,
        List.getElem?_map]
      by_cases heq : i = j
      · subst heq
        have hlt : ref < s.heap.length := hs.made ref (List.mem_of_getElem? href)
        simp [href, timing, hheap, hlt]
      · cases hother : s.layerTimings[j]? with
        | none => simp
        | some ref' =>
            have hne : ref ≠ ref' := by
              rintro rfl
              have hi := (List.getElem?_eq_some_iff.mp href).1
              exact heq ((List.getElem?_inj hi hs.nodup).mp (href.trans hother.symm))
            simp [heq, timing, hheap, hne]

theorem timings_play (hs : Laid cfg s) (events : List (Nat × LayerEvent)) :
    (s.play cfg events).timings = events.foldl (update LayerEvent.apply) s.timings := by
  induction events generalizing s with
  | nil => rfl
  | cons e events ih =>
      rw [List.foldl_cons, ← timings_layerStep hs e.2]
      exact ih (laid_layerStep hs e.2)

/-- After events in any order the timing of a layer is what its own events make of a
new one. -/
theorem getElem?_timings_play (step : Int) (events : List (Nat × LayerEvent)) :
    ((s.beginStep cfg step).play cfg events).timings[i]? =
      if i < cfg.nLayers.toNat then
        some ((ofIndex i events).foldl LayerEvent.apply { layerId := i })
      else none := by
  rw [timings_play (laid_beginStep step), getElem?_foldl_update, timings_beginStep,
    List.getElem?_map]
  by_cases hlt : i < cfg.nLayers.toNat
  · simp [hlt]
  · simp [hlt]

end Table

section Metrics

variable {cfg} {s : NanoOverlap}

/-- Compute hides no more of the I/O than there is compute. -/
structure Fair (lt : LayerTiming) : Prop where
  overlap_nonneg : 0 ≤ lt.overlapMs
  overlap_le : lt.overlapMs ≤ lt.computeMs + lt.bubbleMs

/-- The efficiency of a step, also of one without layers. -/
theorem pipelineEff_eq {lts : List LayerTiming}
    (hlts : lts = s.timings.filter fun lt => 0 < lt.computeEnd) :
    (s.computeStepMetrics cfg).pipelineEff =
      (lts.map (·.overlapMs)).sum /
        max (1 / 1000) ((lts.map (·.computeMs)).sum + (lts.map (·.bubbleMs)).sum) := by
  unfold timings at hlts
  unfold computeStepMetrics
  dsimp only
  rw [← hlts]
  split
  · rename_i hnil
    simp [hnil]
  · rfl

/-- The efficiency is a fraction where every layer that has ended is fair. -/
theorem pipelineEff_mem_of_fair
    (hfair : ∀ lt ∈ s.timings, 0 < lt.computeEnd → Fair lt) :
    0 ≤ (s.computeStepMetrics cfg).pipelineEff ∧
      (s.computeStepMetrics cfg).pipelineEff ≤ 1 := by
  rw [pipelineEff_eq rfl]
  generalize hlts : s.timings.filter (fun lt => 0 < lt.computeEnd) = lts
  have hall : ∀ lt ∈ lts, Fair lt := by
    intro lt hlt
    rw [← hlts, List.mem_filter] at hlt
    exact hfair lt hlt.1 (by simpa using hlt.2)
  have hnonneg : 0 ≤ (lts.map (·.overlapMs)).sum := by
    apply List.sum_nonneg
    intro x hx
    obtain ⟨lt, hlt, rfl⟩ := List.mem_map.mp hx
    exact (hall lt hlt).overlap_nonneg
  have hle : (lts.map (·.overlapMs)).sum ≤
      (lts.map (·.computeMs)).sum + (lts.map (·.bubbleMs)).sum := by
    rw [← List.sum_map_add]
    exact List.sum_le_sum fun lt hlt => (hall lt hlt).overlap_le
  have hpos : (0 : ℚ) < max (1 / 1000)
      ((lts.map (·.computeMs)).sum + (lts.map (·.bubbleMs)).sum) :=
    lt_max_of_lt_left (by norm_num)
  exact ⟨div_nonneg hnonneg hpos.le, (div_le_one hpos).mpr (hle.trans (le_max_right _ _))⟩

end Metrics

section Paths

variable {layer : Layer} {path : IoPath} {lt : LayerTiming}

/-- What the overlap is multiplied with. -/
def IoPath.scale : IoPath → ℚ
  | .cpuWorker => 1
  | .deferredCb => 1000
  | .recordTiming => 1

theorem record_computeMs : (layer.record path lt).computeMs = layer.computeMs := by
  cases path <;> rfl

theorem record_bubbleMs :
    (layer.record path lt).bubbleMs = max 0 (layer.ioMs - layer.computeMs) := by
  cases path <;> rfl

theorem record_overlapMs :
    (layer.record path lt).overlapMs = min layer.ioMs layer.computeMs * path.scale := by
  cases path with
  | cpuWorker => exact (mul_one _).symm
  | deferredCb => rfl
  | recordTiming => exact (mul_one _).symm

theorem Layer.computeMs_nonneg : 0 ≤ layer.computeMs :=
  mul_nonneg (sub_nonneg.mpr layer.compute_le) (by norm_num)

theorem Layer.ioMs_nonneg : 0 ≤ layer.ioMs :=
  mul_nonneg (sub_nonneg.mpr layer.io_le) (by norm_num)

theorem Layer.lone_iff : layer.Lone ↔ min layer.ioMs layer.computeMs = 0 := by
  have hcompute : layer.computeMs = 0 ↔ layer.computeStart = layer.computeEnd := by
    simp [Layer.computeMs, sub_eq_zero, eq_comm]
  have hio : layer.ioMs = 0 ↔ layer.ioStart = layer.ioEnd := by
    simp [Layer.ioMs, sub_eq_zero, eq_comm]
  unfold Layer.Lone
  rw [← hcompute, ← hio]
  constructor
  · rintro (h | h)
    · rw [h, min_eq_right layer.ioMs_nonneg]
    · rw [h, min_eq_left layer.computeMs_nonneg]
  · intro hmin
    rcases min_choice layer.ioMs layer.computeMs with h | h
    · exact Or.inr (h ▸ hmin)
    · exact Or.inl (h ▸ hmin)

/-- The paths record the same of a layer exactly when nothing of it overlaps. -/
theorem Layer.agrees_iff : layer.Agrees ↔ layer.Lone := by
  rw [Layer.lone_iff]
  constructor
  · intro hagrees
    have hsame := (hagrees .deferredCb .cpuWorker { layerId := 0 }).2
    rw [record_overlapMs, record_overlapMs] at hsame
    change _ * 1000 = _ * 1 at hsame
    linarith
  · intro hmin p q lt
    rw [record_bubbleMs, record_bubbleMs, record_overlapMs, record_overlapMs, hmin]
    exact ⟨rfl, by rw [zero_mul, zero_mul]⟩

/-- A recorded layer is fair unless the callback thread has blown its overlap up. -/
theorem fair_record (hpath : path = .deferredCb → layer.Lone) :
    Fair (layer.record path lt) := by
  have hcompute := layer.computeMs_nonneg
  have hmin : 0 ≤ min layer.ioMs layer.computeMs := le_min layer.ioMs_nonneg hcompute
  have hoverlap : (layer.record path lt).overlapMs = min layer.ioMs layer.computeMs := by
    rw [record_overlapMs]
    cases path with
    | cpuWorker => exact mul_one _
    | deferredCb => rw [Layer.lone_iff.mp (hpath rfl), zero_mul]
    | recordTiming => exact mul_one _
  refine ⟨hoverlap ▸ hmin, ?_⟩
  rw [hoverlap, record_computeMs, record_bubbleMs]
  calc min layer.ioMs layer.computeMs ≤ layer.computeMs := min_le_right _ _
    _ ≤ layer.computeMs + max 0 (layer.ioMs - layer.computeMs) :=
        le_add_of_nonneg_right (le_max_left _ _)

/-- A layer that is not recorded yet has no overlap. -/
theorem fair_of_unrecorded (layer : Layer) (hoverlap : lt.overlapMs = 0)
    (hbubble : lt.bubbleMs = 0) (hcompute : lt.computeMs = layer.computeMs) : Fair lt := by
  refine ⟨hoverlap.ge, ?_⟩
  rw [hoverlap, hbubble, hcompute, add_zero]
  exact layer.computeMs_nonneg

/-- At any time a layer that has ended is fair, unless the callback thread has blown
its overlap up. -/
theorem fair_of_prefix (hpath : path = .deferredCb → layer.Lone)
    {pre : List LayerEvent} {i : Nat} (hpre : pre <+: layer.events path)
    (hended : 0 < (pre.foldl LayerEvent.apply { layerId := i }).computeEnd) :
    Fair (pre.foldl LayerEvent.apply { layerId := i }) := by
  simp only [Layer.events, List.prefix_cons_iff, List.prefix_nil] at hpre
  rcases hpre with
    rfl | ⟨_, rfl, rfl | ⟨_, rfl, rfl | ⟨_, rfl, rfl | ⟨_, rfl, rfl⟩⟩⟩⟩
  · -- not started
    exact absurd hended (lt_irrefl 0)
  · -- not ended
    exact absurd hended (lt_irrefl 0)
  · exact fair_of_unrecorded layer rfl rfl rfl
  · -- handed over
    cases path <;> exact fair_of_unrecorded layer rfl rfl rfl
  · exact fair_record hpath

end Paths

section Runs

variable {cfg} {s : NanoOverlap} {step : Int} {layers : List Layer}
  {events : List (Nat × LayerEvent)}

/-- Events in some order, of each layer those it has got to. -/
def Interleaves (layers : List Layer) (events : List (Nat × LayerEvent)) : Prop :=
  ∀ i, ∀ layer ∈ layers[i]?, ofIndex i events <+: layer.events layer.path

/-- The efficiency is a fraction at any time, where the callback thread has recorded
no layer with both compute and I/O. -/
theorem pipelineEff_mem (hlayers : cfg.nLayers = layers.length)
    (hevents : Interleaves layers events)
    (hpaths : ∀ layer ∈ layers, layer.path = .deferredCb → layer.Lone) :
    0 ≤ (((s.beginStep cfg step).play cfg events).computeStepMetrics cfg).pipelineEff ∧
      (((s.beginStep cfg step).play cfg events).computeStepMetrics cfg).pipelineEff ≤
        1 := by
  apply pipelineEff_mem_of_fair
  intro lt hlt hended
  obtain ⟨i, hi⟩ := List.mem_iff_getElem?.mp hlt
  rw [getElem?_timings_play] at hi
  obtain ⟨hbound, heq⟩ := Option.ite_none_right_eq_some.mp hi
  obtain rfl := Option.some.inj heq
  have hlayer : i < layers.length := by omega
  have hget : layers[i] ∈ layers[i]? := List.getElem?_eq_getElem hlayer
  exact fair_of_prefix (hpaths _ (List.getElem_mem hlayer)) (hevents i _ hget) hended

/-- **All paths record the same and the efficiency is a fraction exactly for layers
without compute or without I/O.** -/
theorem fraction_iff (hlayers : cfg.nLayers = layers.length)
    (hevents : Interleaves layers events) :
    (∀ layer ∈ layers, layer.Agrees) ∧
        0 ≤ (((s.beginStep cfg step).play cfg events).computeStepMetrics cfg).pipelineEff ∧
        (((s.beginStep cfg step).play cfg events).computeStepMetrics cfg).pipelineEff ≤ 1 ↔
      ∀ layer ∈ layers, layer.Lone := by
  constructor
  · rintro ⟨hagrees, _⟩ layer hlayer
    exact layer.agrees_iff.mp (hagrees layer hlayer)
  · intro hlone
    refine ⟨fun layer hlayer => layer.agrees_iff.mpr (hlone layer hlayer), ?_⟩
    exact pipelineEff_mem hlayers hevents fun layer hlayer _ => hlone layer hlayer

/-- A controller with CUDA that a step of `n` layers has begun on. -/
def begun (n : Int) : NanoOverlap :=
  (new { nLayers := n, useCuda := true } fun _ => []).beginStep
    { nLayers := n, useCuda := true } 0

/-- A layer in whole seconds. -/
def Layer.ofSeconds (computeStart compute ioStart io : Nat) (path : IoPath) : Layer where
  computeStart := computeStart
  computeEnd := computeStart + compute
  ioStart := ioStart
  ioEnd := ioStart + io
  ioBytes := 64
  path := path
  compute_le := le_add_of_nonneg_right (Nat.cast_nonneg compute)
  io_le := le_add_of_nonneg_right (Nat.cast_nonneg io)

/-- One layer without compute, which is recorded by its callback thread, and one
without I/O. -/
def loneLayers : List Layer :=
  [.ofSeconds 1 0 1 1 .deferredCb, .ofSeconds 1 1 2 0 .recordTiming]

/-- The second layer comes between the compute and the I/O of the first, and is not
recorded yet. -/
def turns (first second : Layer) : List (Nat × LayerEvent) :=
  ((first.events first.path).take 2).map (fun e => (0, e)) ++
    ((second.events second.path).take 3).map (fun e => (1, e)) ++
    ((first.events first.path).drop 2).map (fun e => (0, e))

/-- The events of the two layers. -/
def loneEvents : List (Nat × LayerEvent) :=
  turns (.ofSeconds 1 0 1 1 .deferredCb) (.ofSeconds 1 1 2 0 .recordTiming)

theorem fraction_lone :
    (∀ layer ∈ loneLayers, layer.Agrees) ∧
        0 ≤ (((begun 2).play { nLayers := 2, useCuda := true } loneEvents).computeStepMetrics
          { nLayers := 2, useCuda := true }).pipelineEff ∧
        (((begun 2).play { nLayers := 2, useCuda := true } loneEvents).computeStepMetrics
          { nLayers := 2, useCuda := true }).pipelineEff ≤ 1 ↔
      ∀ layer ∈ loneLayers, layer.Lone := by
  have hevents : Interleaves loneLayers loneEvents := by
    intro i layer hlayer
    match i with
    | 0 =>
        obtain rfl := Option.some.inj hlayer
        exact ⟨[], rfl⟩
    | 1 =>
        obtain rfl := Option.some.inj hlayer
        exact ⟨[Layer.done _ .recordTiming], rfl⟩
    | i + 2 => cases hlayer
  exact fraction_iff rfl hevents

/-- A layer of one second whose I/O takes the next one. -/
def hidden : Layer :=
  .ofSeconds 0 1 1 1 .deferredCb

/-- Recorded by the callback thread, it has an overlap of a million milliseconds, a
thousand times as long as it takes. -/
theorem not_fraction_hidden :
    ¬ ((∀ layer ∈ [hidden], layer.Agrees) ∧
      0 ≤ (((begun 1).play { nLayers := 1, useCuda := true }
        ((hidden.events .deferredCb).map fun e => (0, e))).computeStepMetrics
          { nLayers := 1, useCuda := true }).pipelineEff ∧
      (((begun 1).play { nLayers := 1, useCuda := true }
        ((hidden.events .deferredCb).map fun e => (0, e))).computeStepMetrics
          { nLayers := 1, useCuda := true }).pipelineEff ≤ 1) := by
  intro hall
  have heff : (((begun 1).play { nLayers := 1, useCuda := true }
      ((hidden.events .deferredCb).map fun e => (0, e))).computeStepMetrics
        { nLayers := 1, useCuda := true }).pipelineEff = 1000 := by
    decide +kernel
  have hle := hall.2.2
  rw [heff] at hle
  exact absurd hle (by norm_num)

end Runs

end NanoOverlap

end Tempo
