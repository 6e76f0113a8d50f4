import Mathlib.Data.UInt
import Mathlib.Logic.Function.Basic
import Tempo.Runs

/-!
# The spike absorber

`SpikeAbsorber` is a bounded queue with many producers and one consumer.  A
slot's sequence number says whose turn the slot is: equal to a position, it is
free for the producer of that position; one more, it holds that producer's
block.  `absorb` and `drain` are given here one atomic access at a time: the
loads, the compare-and-swap and the stores are the steps, and a run is any
interleaving of any number of producers with the one consumer.  A weak
compare-and-swap may also fail with the expected value in place.

Positions and sequence numbers are 64-bit and wrap.  The signed difference of
two of them is taken with wrap-around too.  Writes to the eventfd are left out,
since nothing in the absorber reads it.

`claimed` and `drained` are histories: the blocks in the order of the winning
compare-and-swaps, and the blocks `drain` has returned.
-/

namespace Tempo

/-- `KVBlock`: metadata of one KV cache block; `hostPtr` is the address. -/
structure KVBlock where
  blockId : UInt64
  layerIdx : UInt32
  numTokens : UInt32
  hostPtr : UInt64
  sizeBytes : UInt64
  dstTier : Int32
  pad : Int32
  deriving DecidableEq

/-- A `CAPACITY`: a power of two that is at least two and fits `uint32_t`. -/
structure Capacity where
  log : Nat
  one_le : 1 ≤ log
  le : log ≤ 31

namespace Capacity

def size (cap : Capacity) : Nat := 2 ^ cap.log

/-- `1u << 14` -/
def absorber : Capacity := ⟨14, by decide, by decide⟩

theorem two_le_size (cap : Capacity) : 2 ≤ cap.size := by
  have h : 2 ^ 1 ≤ 2 ^ cap.log := Nat.pow_le_pow_right (by omega) cap.one_le
  exact h

theorem size_le (cap : Capacity) : cap.size ≤ 2 ^ 31 :=
  Nat.pow_le_pow_right (by omega) cap.le

/-- `MASK` -/
def mask (cap : Capacity) : UInt64 := UInt64.ofNat (cap.size - 1)

theorem toNat_and_mask (cap : Capacity) (pos : UInt64) :
    (pos &&& cap.mask).toNat = pos.toNat % cap.size := by
  have hle := cap.size_le
  have hmask : cap.mask.toNat = cap.size - 1 := by
    unfold mask
    apply UInt64.toNat_ofNat_of_lt'
    simp only [UInt64.size]
    omega
  rw [UInt64.toNat_and, hmask, size, Nat.and_two_pow_sub_one_eq_mod]

/-- `ring_[pos & MASK]` -/
def slotIndex (cap : Capacity) (pos : UInt64) : Fin cap.size :=
  ⟨(pos &&& cap.mask).toNat, by
    rw [toNat_and_mask]
    exact Nat.mod_lt _ (by have := cap.two_le_size; omega)⟩

end Capacity

structure Slot where
  seq : UInt64
  blk : KVBlock
  deriving DecidableEq

/-- Where a producer stands in `absorb`. -/
inductive AbsorbPc
  | idle
  /-- `enqueue_pos_.load` -/
  | load (blk : KVBlock)
  /-- `slot.seq.load` -/
  | peek (blk : KVBlock) (pos : UInt64)
  /-- `compare_exchange_weak` -/
  | claim (blk : KVBlock) (pos : UInt64)
  /-- `slot.blk = blk` -/
  | write (blk : KVBlock) (pos : UInt64)
  /-- `slot.seq.store(pos + 1)` -/
  | publish (blk : KVBlock) (pos : UInt64)
  /-- `absorbed_total_.fetch_add`, then `return true` -/
  | accept (blk : KVBlock) (pos : UInt64)
  /-- `overflow_drops_.fetch_add`, then `return false` -/
  | refuse (blk : KVBlock)
  deriving DecidableEq

/-- One access of `absorb` that does not win a claim. -/
inductive AbsorbPc.Next : AbsorbPc → AbsorbPc → Prop
  | load (blk pos) : Next (.load blk) (.peek blk pos)
  | free (blk pos) : Next (.peek blk pos) (.claim blk pos)
  | full (blk pos) : Next (.peek blk pos) (.refuse blk)
  | stale (blk pos) : Next (.peek blk pos) (.load blk)
  | lost (blk pos pos') : Next (.claim blk pos) (.peek blk pos')
  | write (blk pos) : Next (.write blk pos) (.publish blk pos)
  | publish (blk pos) : Next (.publish blk pos) (.accept blk pos)
  | accept (blk pos) : Next (.accept blk pos) .idle
  | refuse (blk) : Next (.refuse blk) .idle

/-- Where the consumer stands in `drain`. -/
inductive DrainPc
  | idle
  /-- `dequeue_pos_.load` -/
  | load
  /-- `slot.seq.load` -/
  | peek (pos : UInt64)
  /-- `out = slot.blk` -/
  | copy (pos : UInt64)
  /-- `slot.seq.store(pos + CAPACITY)` -/
  | release (pos : UInt64) (out : KVBlock)
  /-- `dequeue_pos_.store(pos + 1)` -/
  | advance (pos : UInt64) (out : KVBlock)
  /-- `drained_total_.fetch_add`, then `return true` -/
  | deliver (out : KVBlock)
  deriving DecidableEq

/-- The absorber and its threads; `ι` names the producers. -/
structure SpikeAbsorber (cap : Capacity) (ι : Type*) where
  enqueuePos : UInt64 := 0
  dequeuePos : UInt64 := 0
  ring : Fin cap.size → Slot
  absorbedTotal : UInt64 := 0
  drainedTotal : UInt64 := 0
  overflowDrops : UInt64 := 0
  producer : ι → AbsorbPc
  consumer : DrainPc := .idle
  claimed : List KVBlock := []
  drained : List KVBlock := []

namespace SpikeAbsorber

variable {cap : Capacity} {ι : Type*}

inductive Event (ι : Type*)
  /-- producer `i` calls `absorb` -/
  | absorb (i : ι) (blk : KVBlock)
  /-- the next access of producer `i` -/
  | producer (i : ι)
  /-- the compare-and-swap of producer `i` fails spuriously -/
  | spurious (i : ι)
  /-- the consumer calls `drain` -/
  | drain
  /-- the next access of the consumer -/
  | consumer

/-- After the constructor; the blocks in the slots are not initialised. -/
def init (found : Fin cap.size → KVBlock) : SpikeAbsorber cap ι :=
  { ring := fun j => ⟨UInt64.ofNat j, found j⟩
    producer := fun _ => .idle }

/-- `static_cast<intptr_t>(seq) - static_cast<intptr_t>(pos)` -/
def diff (seq pos : UInt64) : Int64 := seq.toInt64 - pos.toInt64

variable [DecidableEq ι]

/-- Producer `i` moves to `pc`. -/
def setProducer (s : SpikeAbsorber cap ι) (i : ι) (pc : AbsorbPc) :
    SpikeAbsorber cap ι :=
  { s with producer := Function.update s.producer i pc }

/-- Replace a slot. -/
def setSlot (s : SpikeAbsorber cap ι) (pos : UInt64) (slot : Slot) :
    SpikeAbsorber cap ι :=
  { s with ring := Function.update s.ring (cap.slotIndex pos) slot }

/-- `ring_[pos & MASK]` -/
def slot (s : SpikeAbsorber cap ι) (pos : UInt64) : Slot :=
  s.ring (cap.slotIndex pos)

/-- The next access of producer `i`. -/
def producerStep (s : SpikeAbsorber cap ι) (i : ι) :
    Option (SpikeAbsorber cap ι) :=
  match s.producer i with
  | .idle => none
  | .load blk => some (s.setProducer i (.peek blk s.enqueuePos))
  | .peek blk pos =>
      let d := diff (s.slot pos).seq pos
      some (s.setProducer i
        (if d = 0 then .claim blk pos
          else if d < 0 then .refuse blk
          else .load blk))
  | .claim blk pos =>
      if s.enqueuePos = pos then
        some ({ s with
          enqueuePos := pos + 1
          claimed := s.claimed ++ [blk] }.setProducer i (.write blk pos))
      else some (s.setProducer i (.peek blk s.enqueuePos))
  | .write blk pos =>
      some ((s.setSlot pos { s.slot pos with blk }).setProducer i
        (.publish blk pos))
  | .publish blk pos =>
      some ((s.setSlot pos { s.slot pos with seq := pos + 1 }).setProducer i
        (.accept blk pos))
  | .accept _ _ =>
      some ({ s with absorbedTotal := s.absorbedTotal + 1 }.setProducer i
        .idle)
  | .refuse _ =>
      some ({ s with overflowDrops := s.overflowDrops + 1 }.setProducer i
        .idle)

/-- The next access of the consumer. -/
def consumerStep (s : SpikeAbsorber cap ι) : Option (SpikeAbsorber cap ι) :=
  match s.consumer with
  | .idle => none
  | .load => some { s with consumer := .peek s.dequeuePos }
  | .peek pos =>
      some { s with
        consumer :=
          if diff (s.slot pos).seq (pos + 1) ≠ 0 then .idle else .copy pos }
  | .copy pos => some { s with consumer := .release pos (s.slot pos).blk }
  | .release pos out =>
      some { s.setSlot pos
          { s.slot pos with seq := pos + UInt64.ofNat cap.size } with
        consumer := .advance pos out }
  | .advance pos out =>
      some { s with dequeuePos := pos + 1, consumer := .deliver out }
  | .deliver out =>
      some { s with
        drainedTotal := s.drainedTotal + 1
        drained := s.drained ++ [out]
        consumer := .idle }

/-- One atomic step of one thread. -/
def step (s : SpikeAbsorber cap ι) : Event ι → Option (SpikeAbsorber cap ι)
  | .absorb i blk =>
      if s.producer i = .idle then some (s.setProducer i (.load blk))
      else none
  | .producer i => s.producerStep i
  | .spurious i =>
      match s.producer i with
      | .claim blk _ => some (s.setProducer i (.peek blk s.enqueuePos))
      | _ => none
  | .drain =>
      if s.consumer = .idle then some { s with consumer := .load } else none
  | .consumer => s.consumerStep

@[simp] theorem setProducer_self (s : SpikeAbsorber cap ι) (i : ι)
    (pc : AbsorbPc) : (s.setProducer i pc).producer i = pc := by
  simp [setProducer]

/-- What one access of a producer can do. -/
structure ProducerSpec (s t : SpikeAbsorber cap ι) (i : ι) : Prop where
  consumer_eq : t.consumer = s.consumer
  drained_eq : t.drained = s.drained
  others : ∀ j, j ≠ i → t.producer j = s.producer j
  cases : (t.claimed = s.claimed ∧ (s.producer i).Next (t.producer i)) ∨
    ∃ blk, s.producer i = .claim blk s.enqueuePos ∧
      t.claimed = s.claimed ++ [blk] ∧
      t.producer i = .write blk s.enqueuePos

theorem producerStep_spec {s t : SpikeAbsorber cap ι} {i : ι}
    (hstep : s.producerStep i = some t) : ProducerSpec s t i := by
  have hothers : ∀ (u : SpikeAbsorber cap ι) (pc : AbsorbPc) (j : ι), j ≠ i →
      (u.setProducer i pc).producer j = u.producer j := by
    intro u pc j hj
    simp [setProducer, hj]
  cases hpc : s.producer i with
  | idle => simp [producerStep, hpc] at hstep
  | load blk =>
      obtain rfl := by simpa [producerStep, hpc] using hstep
      refine ⟨rfl, rfl, fun j hj => hothers s _ j hj, .inl ⟨rfl, ?_⟩⟩
      rw [hpc, setProducer_self]
      exact .load _ _
  | peek blk pos =>
      obtain rfl := by simpa [producerStep, hpc] using hstep
      refine ⟨rfl, rfl, fun j hj => hothers s _ j hj, .inl ⟨rfl, ?_⟩⟩
      rw [hpc, setProducer_self]
      split
      · exact .free _ _
      · split
        · exact .full _ _
        · exact .stale _ _
  | claim blk pos =>
      by_cases hpos : s.enqueuePos = pos
      · obtain rfl := by simpa [producerStep, hpc, hpos] using hstep
        subst hpos
        refine ⟨rfl, rfl, fun j hj => hothers _ _ j hj, .inr ?_⟩
        exact ⟨blk, hpc, rfl, setProducer_self _ _ _⟩
      · obtain rfl := by simpa [producerStep, hpc, hpos] using hstep
        refine ⟨rfl, rfl, fun j hj => hothers s _ j hj, .inl ⟨rfl, ?_⟩⟩
        rw [hpc, setProducer_self]
        exact .lost _ _ _
  | write blk pos =>
      obtain rfl := by simpa [producerStep, hpc] using hstep
      refine ⟨rfl, rfl, fun j hj => hothers _ _ j hj, .inl ⟨rfl, ?_⟩⟩
      rw [hpc, setProducer_self]
      exact .write _ _
  | publish blk pos =>
      obtain rfl := by simpa [producerStep, hpc] using hstep
      refine ⟨rfl, rfl, fun j hj => hothers _ _ j hj, .inl ⟨rfl, ?_⟩⟩
      rw [hpc, setProducer_self]
      exact .publish _ _
  | accept blk pos =>
      obtain rfl := by simpa [producerStep, hpc] using hstep
      refine ⟨rfl, rfl, fun j hj => hothers _ _ j hj, .inl ⟨rfl, ?_⟩⟩
      rw [hpc, setProducer_self]
      exact .accept _ _
  | refuse blk =>
      obtain rfl := by simpa [producerStep, hpc] using hstep
      refine ⟨rfl, rfl, fun j hj => hothers _ _ j hj, .inl ⟨rfl, ?_⟩⟩
      rw [hpc, setProducer_self]
      exact .refuse _

omit [DecidableEq ι] in
/-- The consumer moves no producer. -/
theorem consumerStep_producer {s t : SpikeAbsorber cap ι}
    (hstep : s.consumerStep = some t) : t.producer = s.producer := by
  cases hpc : s.consumer with
  | idle => simp [consumerStep, hpc] at hstep
  | _ =>
      obtain rfl := by simpa [consumerStep, hpc] using hstep
      rfl

end SpikeAbsorber

end Tempo
