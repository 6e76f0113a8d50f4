import Mathlib.Data.Finset.Card
import Mathlib.Order.Interval.Finset.Nat
import Tempo.SpikeAbsorberFifo

/-!
# What the absorber counts

`absorb` gives up when the slot of its position carries a sequence number below
the position, and `overflow_drops` counts these calls.  A producer may look at
a slot with a position that has been overtaken long ago; the slot then belongs
to a later position and its sequence number is larger, so the producer loads
again (`full_of_diff_neg`).  This needs the difference of the two to fit in 63
bits: the sequence numbers of free slots run ahead of the claims by up to
`CAPACITY`, so the last `CAPACITY` claims below `2 ^ 63` are too many
(`refused_while_empty`).

`accepted` and `refused` record the calls that have returned: the positions of
the blocks taken, and for a refused block the number of unreleased positions at
the last load of a sequence number.
-/

namespace Tempo

/-- The position a producer has claimed and not counted yet. -/
def AbsorbPc.held? : AbsorbPc → Option Nat
  | .write _ pos | .publish _ pos | .accept _ pos => some pos.toNat
  | _ => none

namespace SpikeAbsorber

theorem toInt_toInt64 (x : UInt64) :
    x.toInt64.toInt = (x.toNat : Int).bmod (2 ^ 64) := by
  rw [← Int64.toInt_toBitVec, UInt64.toBitVec_toInt64,
    BitVec.toInt_eq_toNat_bmod, UInt64.toNat_toBitVec]

/-- The signed difference of two numbers less than `2 ^ 63` apart. -/
theorem diff_neg_iff {seq pos : UInt64} (hlow : pos.toNat ≤ seq.toNat + 2 ^ 63)
    (hup : seq.toNat < pos.toNat + 2 ^ 63) :
    diff seq pos < 0 ↔ seq.toNat < pos.toNat := by
  unfold diff
  rw [Int64.lt_iff_toInt_lt, Int64.toInt_sub, toInt_toInt64, toInt_toInt64,
    Int.bmod_sub_bmod, Int.sub_bmod_bmod,
    Int.bmod_eq_of_le (by omega) (by omega)]
  simp

variable {cap : Capacity} {ι : Type*} {s : SpikeAbsorber cap ι}

/-- Every position shares its slot with one of the window. -/
theorem exists_window (cap : Capacity) (r p : Nat) :
    ∃ q, r ≤ q ∧ q < r + cap.size ∧ q ≡ p [MOD cap.size] := by
  have hpos := cap.size_pos
  have hmod : (p + cap.size * r - r) % cap.size < cap.size := Nat.mod_lt _ hpos
  refine ⟨r + (p + cap.size * r - r) % cap.size, by omega, by omega, ?_⟩
  have hle : r ≤ cap.size * r := Nat.le_mul_of_pos_left r hpos
  calc r + (p + cap.size * r - r) % cap.size
      ≡ r + (p + cap.size * r - r) [MOD cap.size] :=
        Nat.ModEq.add_left r (Nat.mod_modEq _ _)
    _ = p + cap.size * r := by omega
    _ ≡ p [MOD cap.size] := by
        simp [Nat.ModEq]

/-- A slot of the window is free for its position, or its sequence number is
at most one more. -/
theorem Inv.seq_window (hs : Inv s) {q : Nat} (hq : s.released ≤ q)
    (hq' : q < s.released + cap.size) :
    (s.cell q).seq.toNat = q ∨
      q < s.claimed.length ∧ (s.cell q).seq.toNat = q + 1 := by
  by_cases hlt : q < s.claimed.length
  · rcases hs.used q hq hlt with hpub | ⟨i, hi⟩
    · exact .inr ⟨hlt, hpub.1⟩
    · exact .inl (hs.pending hi).2.2
  · exact .inl (hs.free q (by omega) hq')

/-- **A sequence number below the position is seen in a full ring only.** -/
theorem full_of_diff_neg (hs : Inv s)
    (hbound : s.claimed.length + cap.size ≤ 2 ^ 63) {pos : UInt64}
    (hpos : pos.toNat ≤ s.claimed.length)
    (hneg : diff (s.slot pos).seq pos < 0) :
    s.claimed.length = s.released + cap.size := by
  obtain ⟨q, hq, hq', hmod⟩ := exists_window cap s.released pos.toNat
  have hrel := hs.released_le
  have hroom := hs.room
  have hcell : s.slot pos = s.cell q := by
    rw [slot_eq_cell]
    unfold cell
    congr 1
    exact Fin.ext hmod.symm
  have hseq := hs.seq_window hq hq'
  rw [hcell, diff_neg_iff (by omega) (by omega)] at hneg
  -- the position is above that of its slot, so by a whole turn
  have hturn : cap.size ≤ pos.toNat - q :=
    Nat.le_of_dvd (by omega) ((Nat.modEq_iff_dvd' (by omega)).mp hmod)
  omega

end SpikeAbsorber

/-- The absorber with the calls that have returned. -/
structure CountedAbsorber (cap : Capacity) (ι : Type*) where
  absorber : SpikeAbsorber cap ι
  /-- The positions claimed and not released when a producer last loaded a
  sequence number. -/
  unreleasedAt : ι → Nat := fun _ => 0
  accepted : List Nat := []
  refused : List Nat := []

namespace CountedAbsorber

open SpikeAbsorber

variable {cap : Capacity} {ι : Type*}

def init (found : Fin cap.size → KVBlock) : CountedAbsorber cap ι :=
  { absorber := .init found }

/-- The positions claimed and not released. -/
def unreleased (s : CountedAbsorber cap ι) : Nat :=
  s.absorber.claimed.length - s.absorber.released

/-- The blocks in the ring: the slots whose sequence number is one more than a
position of the slot. -/
def held (s : CountedAbsorber cap ι) : Finset (Fin cap.size) :=
  Finset.univ.filter fun j =>
    (s.absorber.ring j).seq.toNat % cap.size = (j + 1) % cap.size

/-- No call is in progress. -/
def Idle (s : CountedAbsorber cap ι) : Prop :=
  (∀ i, s.absorber.producer i = .idle) ∧ s.absorber.consumer = .idle

variable [DecidableEq ι]

/-- What an access that leads to `absorber` adds to the records. -/
def record (s : CountedAbsorber cap ι) (e : Event ι)
    (absorber : SpikeAbsorber cap ι) : CountedAbsorber cap ι :=
  match e with
  | .producer i =>
      match s.absorber.producer i with
      | .peek _ _ =>
          { s with
            absorber
            unreleasedAt := Function.update s.unreleasedAt i s.unreleased }
      | .accept _ pos =>
          { s with absorber, accepted := s.accepted ++ [pos.toNat] }
      | .refuse _ =>
          { s with absorber, refused := s.refused ++ [s.unreleasedAt i] }
      | _ => { s with absorber }
  | _ => { s with absorber }

def step (s : CountedAbsorber cap ι) (e : Event ι) :
    Option (CountedAbsorber cap ι) :=
  (s.absorber.step e).map (s.record e)

@[simp] theorem record_absorber (s : CountedAbsorber cap ι) (e : Event ι)
    (absorber : SpikeAbsorber cap ι) :
    (s.record e absorber).absorber = absorber := by
  unfold record
  split
  · split <;> rfl
  · rfl

section Refusals

variable {s t : CountedAbsorber cap ι} {e : Event ι} {a : SpikeAbsorber cap ι}
  {i : ι}

/-- Only its own accesses change what a producer has last seen. -/
theorem record_unreleasedAt {j : ι} (hj : e ≠ .producer j) :
    (s.record e a).unreleasedAt j = s.unreleasedAt j := by
  unfold record
  split
  · next i =>
      have hne : j ≠ i := by
        rintro rfl
        exact hj rfl
      split
      · exact Function.update_of_ne hne _ _
      · rfl
      · rfl
      · rfl
  · rfl

theorem record_refused :
    (s.record e a).refused = s.refused ∨
      ∃ i blk, e = .producer i ∧ s.absorber.producer i = .refuse blk ∧
        (s.record e a).refused = s.refused ++ [s.unreleasedAt i] := by
  unfold record
  split
  · next i =>
      split
      · exact .inl rfl
      · exact .inl rfl
      · next blk hpc => exact .inr ⟨i, blk, rfl, hpc, rfl⟩
      · exact .inl rfl
  · exact .inl rfl

/-- Between two of its own accesses a producer stays where it is. -/
theorem producer_of_step {s t : SpikeAbsorber cap ι} {j : ι}
    (hstep : s.step e = some t) (hj : e ≠ .producer j) {blk : KVBlock}
    (hpc : t.producer j = .refuse blk) : s.producer j = .refuse blk := by
  cases e with
  | absorb i b =>
      obtain ⟨-, rfl⟩ := by simpa [SpikeAbsorber.step] using hstep
      rw [producer_setProducer] at hpc
      split at hpc
      · cases hpc
      · exact hpc
  | producer i =>
      have hne : j ≠ i := by
        rintro rfl
        exact hj rfl
      rwa [(producerStep_spec hstep).others j hne] at hpc
  | spurious i =>
      cases hclaim : s.producer i with
      | claim b pos =>
          obtain rfl := by simpa [SpikeAbsorber.step, hclaim] using hstep
          rw [producer_setProducer] at hpc
          split at hpc
          · cases hpc
          · exact hpc
      | _ => simp [SpikeAbsorber.step, hclaim] at hstep
  | drain =>
      obtain ⟨-, rfl⟩ := by simpa [SpikeAbsorber.step] using hstep
      exact hpc
  | consumer => rwa [consumerStep_producer hstep] at hpc

/-- A producer comes to give up at a sequence number below its position. -/
theorem peek_of_refuse {s t : SpikeAbsorber cap ι}
    (hstep : s.producerStep i = some t) {blk : KVBlock}
    (hpc : t.producer i = .refuse blk) :
    ∃ pos, s.producer i = .peek blk pos ∧ diff (s.slot pos).seq pos < 0 := by
  cases hold : s.producer i with
  | peek b pos =>
      obtain rfl := by simpa [producerStep, hold] using hstep
      rw [setProducer_self] at hpc
      split at hpc
      · cases hpc
      · split at hpc
        · next hneg =>
            obtain rfl := AbsorbPc.refuse.inj hpc
            exact ⟨pos, rfl, hneg⟩
        · cases hpc
  | _ =>
      rcases (producerStep_spec hstep).cases with ⟨-, hnext⟩ | ⟨b, -, -, hwrite⟩
      · rw [hold, hpc] at hnext
        cases hnext
      · rw [hpc] at hwrite
        cases hwrite

/-- Refused calls have found the ring full. -/
structure Filled (s : CountedAbsorber cap ι) : Prop where
  refusing : ∀ i blk, s.absorber.producer i = .refuse blk →
    s.unreleasedAt i = cap.size
  refused : ∀ u ∈ s.refused, u = cap.size

theorem Filled.step (hs : Filled s) (hinv : Inv s.absorber)
    (hbound : s.absorber.claimed.length + cap.size ≤ 2 ^ 63)
    (hstep : s.step e = some t) : Filled t := by
  obtain ⟨a, ha, rfl⟩ := Option.map_eq_some_iff.mp hstep
  refine ⟨?_, ?_⟩
  · intro j blk hpc
    rw [record_absorber] at hpc
    by_cases hj : e = .producer j
    · subst hj
      obtain ⟨pos, hpeek, hneg⟩ := peek_of_refuse ha hpc
      have hpos := hinv.producers j
      rw [hpeek] at hpos
      have hfull := full_of_diff_neg hinv hbound hpos hneg
      have hseen : (s.record (.producer j) a).unreleasedAt j = s.unreleased := by
        simp [record, hpeek]
      rw [hseen]
      unfold unreleased
      omega
    · rw [record_unreleasedAt hj]
      exact hs.refusing j blk (producer_of_step ha hj hpc)
  · intro u hu
    rcases record_refused (s := s) (e := e) (a := a) with heq | ⟨i, blk, -, hpc, heq⟩
    · rw [heq] at hu
      exact hs.refused u hu
    · rw [heq, List.mem_append, List.mem_singleton] at hu
      rcases hu with hu | rfl
      · exact hs.refused u hu
      · exact hs.refusing i blk hpc

end Refusals

section Counts

variable {s t : CountedAbsorber cap ι} {e : Event ι} {i : ι}

/-- The counters count the calls that have returned and the blocks drained, and
every position claimed is held by one producer or accepted. -/
structure Tallied (s : CountedAbsorber cap ι) : Prop where
  absorbed : s.absorber.absorbedTotal = UInt64.ofNat s.accepted.length
  drained : s.absorber.drainedTotal = UInt64.ofNat s.absorber.drained.length
  drops : s.absorber.overflowDrops = UInt64.ofNat s.refused.length
  nodup : s.accepted.Nodup
  placed : ∀ q, q < s.absorber.claimed.length ↔
    q ∈ s.accepted ∨ ∃ i, (s.absorber.producer i).held? = some q
  apart : ∀ i q, (s.absorber.producer i).held? = some q → q ∉ s.accepted
  unique : ∀ i j q, (s.absorber.producer i).held? = some q →
    (s.absorber.producer j).held? = some q → i = j

omit [DecidableEq ι] in
theorem tallied_init (found : Fin cap.size → KVBlock) :
    Tallied (init found : CountedAbsorber cap ι) where
  absorbed := rfl
  drained := rfl
  drops := rfl
  nodup := List.nodup_nil
  placed := by
    intro q
    refine iff_of_false (Nat.not_lt_zero q) ?_
    rintro (hq | ⟨i, hi⟩)
    · exact absurd hq List.not_mem_nil
    · cases hi
  apart := fun i q hi => by cases hi
  unique := fun i j q hi => by cases hi

theorem ofNat_succ (n : Nat) : UInt64.ofNat (n + 1) = UInt64.ofNat n + 1 := by
  rw [UInt64.ofNat_add]
  rfl

omit [DecidableEq ι] in
/-- An access after which every producer holds what it has held. -/
theorem Tallied.move (hs : Tallied s) {a : SpikeAbsorber cap ι}
    (unreleasedAt : ι → Nat) {refused : List Nat}
    (habsorbed : a.absorbedTotal = s.absorber.absorbedTotal)
    (hdrained : a.drainedTotal = UInt64.ofNat a.drained.length)
    (hdrops : a.overflowDrops = UInt64.ofNat refused.length)
    (hclaimed : a.claimed = s.absorber.claimed)
    (hheld : ∀ j, (a.producer j).held? = (s.absorber.producer j).held?) :
    Tallied { absorber := a, unreleasedAt, accepted := s.accepted, refused } where
  absorbed := habsorbed.trans hs.absorbed
  drained := hdrained
  drops := hdrops
  nodup := hs.nodup
  placed := by
    dsimp only
    simp only [hclaimed, hheld]
    exact hs.placed
  apart := by
    dsimp only
    simp only [hheld]
    exact hs.apart
  unique := by
    dsimp only
    simp only [hheld]
    exact hs.unique

theorem held_setProducer {s : SpikeAbsorber cap ι} {pc : AbsorbPc}
    (h : pc.held? = (s.producer i).held?) (j : ι) :
    ((s.setProducer i pc).producer j).held? = (s.producer j).held? := by
  rw [producer_setProducer]
  split
  · next heq => rw [heq, h]
  · rfl

/-- A won compare-and-swap: the producer holds the next position. -/
theorem Tallied.claim (hs : Tallied s) (hinv : Inv s.absorber) {blk : KVBlock}
    {pos : UInt64} (hpc : s.absorber.producer i = .claim blk pos)
    (hpos : s.absorber.enqueuePos = pos) :
    Tallied { s with
      absorber := { s.absorber with
        enqueuePos := pos + 1
        claimed := s.absorber.claimed ++ [blk] }.setProducer i
          (.write blk pos) } := by
  have hnext : pos.toNat = s.absorber.claimed.length := by
    rw [← hpos, hinv.enqueue]
  have hheld : ∀ j q,
      ((s.absorber.setProducer i (.write blk pos)).producer j).held? = some q ↔
        j = i ∧ q = s.absorber.claimed.length ∨
          j ≠ i ∧ (s.absorber.producer j).held? = some q := by
    intro j q
    rw [producer_setProducer]
    by_cases hj : j = i
    · simp only [hj, if_true, AbsorbPc.held?, Option.some.injEq, hnext]
      simp [eq_comm]
    · simp [hj]
  have hbelow : ∀ j q, (s.absorber.producer j).held? = some q →
      q < s.absorber.claimed.length := fun j q hj =>
    (hs.placed q).mpr (.inr ⟨j, hj⟩)
  have hnone : (s.absorber.producer i).held? = none := by
    rw [hpc]
    rfl
  constructor
  · exact hs.absorbed
  · exact hs.drained
  · exact hs.drops
  · exact hs.nodup
  · intro q
    show q < (s.absorber.claimed ++ [blk]).length ↔ q ∈ s.accepted ∨
      ∃ j, ((s.absorber.setProducer i (.write blk pos)).producer j).held? = some q
    rw [List.length_append, List.length_singleton]
    simp only [hheld]
    constructor
    · intro hq
      by_cases hlast : q = s.absorber.claimed.length
      · exact .inr ⟨i, .inl ⟨rfl, hlast⟩⟩
      · rcases (hs.placed q).mp (by omega) with hq | ⟨j, hj⟩
        · exact .inl hq
        · refine .inr ⟨j, .inr ⟨?_, hj⟩⟩
          rintro rfl
          rw [hnone] at hj
          cases hj
    · rintro (hq | ⟨j, ⟨-, rfl⟩ | ⟨-, hj⟩⟩)
      · have hlt := (hs.placed q).mpr (.inl hq)
        omega
      · omega
      · have hlt := hbelow j q hj
        omega
  · intro j q hj
    rcases (hheld j q).mp hj with ⟨-, rfl⟩ | ⟨-, hj⟩
    · intro hq
      have hlt := (hs.placed _).mpr (.inl hq)
      omega
    · exact hs.apart j q hj
  · intro j k q hj hk
    rcases (hheld j q).mp hj with ⟨rfl, rfl⟩ | ⟨-, hj⟩
    · rcases (hheld k _).mp hk with ⟨rfl, -⟩ | ⟨-, hk⟩
      · rfl
      · exact absurd (hbelow k _ hk) (lt_irrefl _)
    · rcases (hheld k q).mp hk with ⟨-, rfl⟩ | ⟨-, hk⟩
      · exact absurd (hbelow j _ hj) (lt_irrefl _)
      · exact hs.unique j k q hj hk

/-- A call returns true: its position is accepted. -/
theorem Tallied.accept (hs : Tallied s) {blk : KVBlock} {pos : UInt64}
    (hpc : s.absorber.producer i = .accept blk pos) :
    Tallied { s with
      absorber := { s.absorber with
        absorbedTotal := s.absorber.absorbedTotal + 1 }.setProducer i .idle
      accepted := s.accepted ++ [pos.toNat] } := by
  have hown : (s.absorber.producer i).held? = some pos.toNat := by
    rw [hpc]
    rfl
  have hheld : ∀ j q,
      ((s.absorber.setProducer i .idle).producer j).held? = some q ↔
        j ≠ i ∧ (s.absorber.producer j).held? = some q := by
    intro j q
    rw [producer_setProducer]
    by_cases hj : j = i
    · simp [hj, AbsorbPc.held?]
    · simp [hj]
  constructor
  · show s.absorber.absorbedTotal + 1 = _
    rw [List.length_append, List.length_singleton, ofNat_succ, hs.absorbed]
  · exact hs.drained
  · exact hs.drops
  · refine List.nodup_append.mpr ⟨hs.nodup, List.nodup_singleton _, ?_⟩
    rintro q hq _ hq' rfl
    rw [List.mem_singleton] at hq'
    exact hs.apart i _ hown (hq' ▸ hq)
  · intro q
    show q < s.absorber.claimed.length ↔ q ∈ s.accepted ++ [pos.toNat] ∨
      ∃ j, ((s.absorber.setProducer i .idle).producer j).held? = some q
    rw [hs.placed, List.mem_append, List.mem_singleton]
    simp only [hheld]
    constructor
    · rintro (hq | ⟨j, hj⟩)
      · exact .inl (.inl hq)
      · by_cases hji : j = i
        · subst hji
          exact .inl (.inr (Option.some.inj (hj.symm.trans hown)))
        · exact .inr ⟨j, hji, hj⟩
    · rintro ((hq | rfl) | ⟨j, -, hj⟩)
      · exact .inl hq
      · exact .inr ⟨i, hown⟩
      · exact .inr ⟨j, hj⟩
  · intro j q hj
    obtain ⟨hji, hj⟩ := (hheld j q).mp hj
    intro hq
    rcases List.mem_append.mp hq with hq | hq
    · exact hs.apart j q hj hq
    · obtain rfl := List.mem_singleton.mp hq
      exact hji (hs.unique j i _ hj hown)
  · intro j k q hj hk
    exact hs.unique j k q ((hheld j q).mp hj).2 ((hheld k q).mp hk).2

theorem Tallied.producer (hs : Tallied s) (hinv : Inv s.absorber)
    (hstep : s.step (.producer i) = some t) : Tallied t := by
  obtain ⟨a, ha, rfl⟩ := Option.map_eq_some_iff.mp hstep
  -- an access that neither claims nor returns
  have hmove : ∀ (pc : AbsorbPc) (ring : Fin cap.size → Slot)
      (unreleasedAt : ι → Nat),
      pc.held? = (s.absorber.producer i).held? →
      Tallied { s with
        absorber := { s.absorber with ring }.setProducer i pc
        unreleasedAt } := fun pc ring unreleasedAt hpc =>
    hs.move _ rfl hs.drained hs.drops rfl (held_setProducer hpc)
  cases hpc : s.absorber.producer i with
  | idle => simp [SpikeAbsorber.step, producerStep, hpc] at ha
  | load blk =>
      obtain rfl := by simpa [SpikeAbsorber.step, producerStep, hpc] using ha
      simpa only [record, hpc] using hmove _ _ _ (by rw [hpc]; rfl)
  | peek blk pos =>
      obtain rfl := by simpa [SpikeAbsorber.step, producerStep, hpc] using ha
      have hnone : (if diff (s.absorber.slot pos).seq pos = 0 then
            AbsorbPc.claim blk pos
          else if diff (s.absorber.slot pos).seq pos < 0 then .refuse blk
          else .load blk).held? = (s.absorber.producer i).held? := by
        rw [hpc]
        split
        · rfl
        · split <;> rfl
      simpa only [record, hpc] using hmove _ _ _ hnone
  | claim blk pos =>
      by_cases hpos : s.absorber.enqueuePos = pos
      · obtain rfl := by
          simpa [SpikeAbsorber.step, producerStep, hpc, hpos] using ha
        simpa only [record, hpc] using hs.claim hinv hpc hpos
      · obtain rfl := by
          simpa [SpikeAbsorber.step, producerStep, hpc, hpos] using ha
        simpa only [record, hpc] using hmove _ _ _ (by rw [hpc]; rfl)
  | write blk pos =>
      obtain rfl := by simpa [SpikeAbsorber.step, producerStep, hpc] using ha
      simp only [record, hpc]
      exact hmove _ _ _ (by rw [hpc]; rfl)
  | publish blk pos =>
      obtain rfl := by simpa [SpikeAbsorber.step, producerStep, hpc] using ha
      simp only [record, hpc]
      exact hmove _ _ _ (by rw [hpc]; rfl)
  | accept blk pos =>
      obtain rfl := by simpa [SpikeAbsorber.step, producerStep, hpc] using ha
      simpa only [record, hpc] using hs.accept hpc
  | refuse blk =>
      obtain rfl := by simpa [SpikeAbsorber.step, producerStep, hpc] using ha
      simp only [record, hpc]
      refine hs.move _ rfl hs.drained ?_ rfl (held_setProducer (by rw [hpc]; rfl))
      show s.absorber.overflowDrops + 1 = _
      rw [List.length_append, List.length_singleton, ofNat_succ, hs.drops]

/-- An access of the consumer. -/
theorem Tallied.consumer (hs : Tallied s)
    (hstep : s.step .consumer = some t) : Tallied t := by
  obtain ⟨a, ha, rfl⟩ := Option.map_eq_some_iff.mp hstep
  have hproducer : a.producer = s.absorber.producer := consumerStep_producer ha
  have hheld : ∀ j, (a.producer j).held? = (s.absorber.producer j).held? := by
    intro j
    rw [hproducer]
  cases hpc : s.absorber.consumer with
  | idle => simp [SpikeAbsorber.step, consumerStep, hpc] at ha
  | deliver out =>
      obtain rfl := by simpa [SpikeAbsorber.step, consumerStep, hpc] using ha
      refine hs.move _ rfl ?_ hs.drops rfl hheld
      show s.absorber.drainedTotal + 1 = _
      rw [List.length_append, List.length_singleton, ofNat_succ, hs.drained]
  | _ =>
      obtain rfl := by simpa [SpikeAbsorber.step, consumerStep, hpc] using ha
      exact hs.move _ rfl hs.drained hs.drops rfl hheld

theorem Tallied.step (hs : Tallied s) (hinv : Inv s.absorber)
    (hstep : s.step e = some t) : Tallied t := by
  cases e with
  | producer i => exact hs.producer hinv hstep
  | consumer => exact hs.consumer hstep
  | absorb i blk =>
      obtain ⟨a, ha, rfl⟩ := Option.map_eq_some_iff.mp hstep
      obtain ⟨hidle, rfl⟩ := by simpa [SpikeAbsorber.step] using ha
      exact hs.move _ rfl hs.drained hs.drops rfl
        (held_setProducer (by rw [hidle]; rfl))
  | spurious i =>
      obtain ⟨a, ha, rfl⟩ := Option.map_eq_some_iff.mp hstep
      cases hpc : s.absorber.producer i with
      | claim blk pos =>
          obtain rfl := by simpa [SpikeAbsorber.step, hpc] using ha
          exact hs.move _ rfl hs.drained hs.drops rfl
            (held_setProducer (by rw [hpc]; rfl))
      | _ => simp [SpikeAbsorber.step, hpc] at ha
  | drain =>
      obtain ⟨a, ha, rfl⟩ := Option.map_eq_some_iff.mp hstep
      obtain ⟨-, rfl⟩ := by simpa [SpikeAbsorber.step] using ha
      exact hs.move _ rfl hs.drained hs.drops rfl fun _ => rfl

omit [DecidableEq ι] in
/-- With no call in progress every claim is accepted. -/
theorem Tallied.length_accepted (hs : Tallied s) (hidle : s.Idle) :
    s.accepted.length = s.absorber.claimed.length := by
  have hset : s.accepted.toFinset = Finset.range s.absorber.claimed.length := by
    ext q
    rw [List.mem_toFinset, Finset.mem_range, hs.placed]
    refine (or_iff_left ?_).symm
    rintro ⟨i, hi⟩
    rw [hidle.1 i] at hi
    cases hi
  rw [← List.toFinset_card_of_nodup hs.nodup, hset, Finset.card_range]

omit [DecidableEq ι] in
/-- With no call in progress the ring holds the claims that have not been
drained. -/
theorem card_held (hinv : Inv s.absorber) (hidle : s.Idle) :
    s.held.card = s.absorber.claimed.length - s.absorber.drained.length := by
  have hreleased : s.absorber.released = s.absorber.drained.length := by
    simp [released, hidle.2, DrainPc.taken]
  have htwo := cap.two_le_size
  have hroom := hinv.room
  have hpublished : ∀ q, s.absorber.released ≤ q →
      q < s.absorber.claimed.length → (s.absorber.cell q).seq.toNat = q + 1 := by
    intro q hq hq'
    rcases hinv.used q hq hq' with hpub | ⟨i, hi⟩
    · exact hpub.1
    · rw [hidle.1 i] at hi
      cases hi
  have himage : s.held = (Finset.Ico s.absorber.released
      s.absorber.claimed.length).image cap.turn := by
    ext j
    unfold held
    rw [Finset.mem_filter, Finset.mem_image]
    simp only [Finset.mem_univ, true_and, Finset.mem_Ico]
    obtain ⟨q, hq, hq', hmod⟩ := exists_window cap s.absorber.released j
    have hturn : cap.turn q = j :=
      Fin.ext (Eq.trans hmod (Nat.mod_eq_of_lt j.isLt))
    have hcell : s.absorber.ring j = s.absorber.cell q := by
      unfold cell
      rw [hturn]
    have hsucc : (q + 1) % cap.size = (j + 1) % cap.size :=
      Nat.ModEq.add_right 1 hmod
    rw [hcell]
    constructor
    · intro hseq
      by_cases hlt : q < s.absorber.claimed.length
      · exact ⟨q, ⟨hq, hlt⟩, hturn⟩
      · -- a free slot has the sequence number of its position
        rw [hinv.free q (by omega) hq', ← hsucc] at hseq
        have hdvd : cap.size ∣ q + 1 - q :=
          (Nat.modEq_iff_dvd' (Nat.le_succ q)).mp hseq
        have hle := Nat.le_of_dvd (by omega) hdvd
        omega
    · rintro ⟨p, ⟨hp, hp'⟩, hpj⟩
      obtain rfl : p = q := Capacity.turn_injective hp (by omega) hq hq'
        (hpj.trans hturn.symm)
      rw [hpublished p hp hp', hsucc]
  rw [himage, Finset.card_image_of_injOn, Nat.card_Ico, hreleased]
  intro p hp q hq heq
  obtain ⟨hp, hp'⟩ := Finset.mem_Ico.mp hp
  obtain ⟨hq, hq'⟩ := Finset.mem_Ico.mp hq
  exact Capacity.turn_injective hp (by omega) hq (by omega) heq

end Counts

section Runs

variable {s t : CountedAbsorber cap ι} {e : Event ι}

theorem absorber_of_step (hstep : s.step e = some t) :
    s.absorber.step e = some t.absorber := by
  obtain ⟨a, ha, rfl⟩ := Option.map_eq_some_iff.mp hstep
  rw [ha, record_absorber]

/-- Claims are never taken back. -/
theorem bound_of_step {bound : Nat} (hstep : s.step e = some t)
    (ht : t.absorber.claimed.length ≤ bound) :
    s.absorber.claimed.length ≤ bound :=
  (claimed_prefix_of_step (absorber_of_step hstep)).length_le.trans ht

/-- What holds in runs with fewer than `2 ^ 63` claims. -/
structure Sound (s : CountedAbsorber cap ι) : Prop where
  inv : Inv s.absorber
  tallied : Tallied s

theorem sound_of_run {found : Fin cap.size → KVBlock}
    (hrun : Runs.Reachable step (init found) s)
    (hbound : s.absorber.claimed.length ≤ 2 ^ 63 - 1) : Sound s := by
  have hpres : ∀ (s : CountedAbsorber cap ι) (e : Event ι)
      (t : CountedAbsorber cap ι), Sound s → True →
      s.absorber.claimed.length ≤ 2 ^ 63 - 1 → s.step e = some t → Sound t := by
    intro s e t hs _ hs' hstep
    exact ⟨hs.inv.step (by omega) (absorber_of_step hstep),
      hs.tallied.step hs.inv hstep⟩
  have hstart : Sound (init found : CountedAbsorber cap ι) :=
    ⟨inv_init found, tallied_init found⟩
  exact Runs.Reach.invariant_while hrun (fun _ _ _ => bound_of_step) hbound
    hstart hpres

theorem filled_of_run {found : Fin cap.size → KVBlock}
    (hrun : Runs.Reachable step (init found) s)
    (hbound : s.absorber.claimed.length ≤ 2 ^ 63 - cap.size) : Filled s := by
  have hpos := cap.size_pos
  have hle := cap.size_le
  have hpres : ∀ (s : CountedAbsorber cap ι) (e : Event ι)
      (t : CountedAbsorber cap ι), Inv s.absorber ∧ Filled s → True →
      s.absorber.claimed.length ≤ 2 ^ 63 - cap.size → s.step e = some t →
      Inv t.absorber ∧ Filled t := by
    intro s e t hs _ hs' hstep
    exact ⟨hs.1.step (by omega) (absorber_of_step hstep),
      hs.2.step hs.1 (by omega) hstep⟩
  have hstart : Inv (init found : CountedAbsorber cap ι).absorber ∧
      Filled (init found : CountedAbsorber cap ι) :=
    ⟨inv_init found, by simp [init, SpikeAbsorber.init], by simp [init]⟩
  exact (Runs.Reach.invariant_while hrun (fun _ _ _ => bound_of_step) hbound
    hstart hpres).2

/-- **What is refused and what is counted.**  With at most `2 ^ 63 - CAPACITY`
claims, a call that has returned false has found exactly `CAPACITY` positions
unreleased; with fewer than `2 ^ 63`, the counters agree with the ring and the
returns whenever no call is in progress. -/
theorem refused_when_full {found : Fin cap.size → KVBlock}
    (hrun : Runs.Reachable step (init found) s)
    (hbound : s.absorber.claimed.length < 2 ^ 63) :
    (s.absorber.claimed.length + cap.size ≤ 2 ^ 63 →
      ∀ u ∈ s.refused, u = cap.size) ∧
    (s.Idle →
      s.absorber.absorbedTotal.toNat =
          s.absorber.drainedTotal.toNat + s.held.card ∧
        s.absorber.overflowDrops.toNat = s.refused.length % 2 ^ 64) := by
  obtain ⟨hinv, htallied⟩ := sound_of_run hrun (by omega)
  refine ⟨fun hroom => (filled_of_run hrun (by omega)).refused,
    fun hidle => ⟨?_, ?_⟩⟩
  · have hle : s.absorber.drained.length ≤ s.absorber.claimed.length :=
      hinv.order.length_le
    have hsize : UInt64.size = 2 ^ 64 := rfl
    rw [htallied.absorbed, htallied.drained, card_held hinv hidle,
      htallied.length_accepted hidle,
      UInt64.toNat_ofNat_of_lt' (by omega), UInt64.toNat_ofNat_of_lt' (by omega)]
    omega
  · rw [htallied.drops]
    exact UInt64.toNat_ofNat'

/-- A full ring of two slots refuses the third block. -/
theorem refused_when_full_pair :
    ∃ s : CountedAbsorber ⟨1, by decide, by decide⟩ Unit,
      Runs.Reachable step (init fun _ => blockOf 0) s ∧ s.refused = [2] ∧
      s.absorber.absorbedTotal.toNat =
        s.absorber.drainedTotal.toNat + s.held.card := by
  obtain ⟨s, hrun, hrefused, hidle, hbound⟩ :
      ∃ s : CountedAbsorber ⟨1, by decide, by decide⟩ Unit,
        Runs.Reachable step (init fun _ => blockOf 0) s ∧ s.refused = [2] ∧
        (s.absorber.producer () = .idle ∧ s.absorber.consumer = .idle) ∧
        s.absorber.claimed.length < 2 ^ 63 :=
    Runs.Reachable.exists_of_exec
      ([Event.absorb () (blockOf 1)] ++ List.replicate 6 (Event.producer ()) ++
        [Event.absorb () (blockOf 2)] ++ List.replicate 6 (Event.producer ()) ++
        [Event.absorb () (blockOf 3)] ++ List.replicate 3 (Event.producer ()))
      (by decide +kernel)
  exact ⟨s, hrun, hrefused,
    ((refused_when_full hrun hbound).2 ⟨fun _ => hidle.1, hidle.2⟩).1⟩

end Runs

end CountedAbsorber

namespace SpikeAbsorber

section Limits

variable {cap : Capacity} {ι : Type*} [DecidableEq ι]
  {s : SpikeAbsorber cap ι} {i : ι}

theorem diff_self (pos : UInt64) : diff pos pos = 0 :=
  (diff_eq_zero pos pos).mpr rfl

/-- A producer that runs alone takes a free slot. -/
theorem absorb_free (blk : KVBlock) (hidle : s.producer i = .idle)
    (hfree : (s.slot s.enqueuePos).seq = s.enqueuePos) :
    ∃ t, Runs.exec step s
        (.absorb i blk :: List.replicate 6 (.producer i)) = some t ∧
      t.producer = s.producer ∧ t.consumer = s.consumer ∧
      t.claimed = s.claimed ++ [blk] ∧ t.drained = s.drained ∧
      t.dequeuePos = s.dequeuePos ∧
      t.slot s.enqueuePos = ⟨s.enqueuePos + 1, blk⟩ := by
  unfold slot at hfree
  refine ⟨_, by
    simp [Runs.exec, step, producerStep, hidle, List.replicate, setProducer,
      setSlot, slot, hfree, diff_self]
    rfl, ?_⟩
  simp [slot, ← hidle]

/-- The consumer alone drains a published slot. -/
theorem drain_published {blk : KVBlock} (hidle : s.consumer = .idle)
    (hslot : s.slot s.dequeuePos = ⟨s.dequeuePos + 1, blk⟩) :
    ∃ t, Runs.exec step s (.drain :: List.replicate 6 .consumer) = some t ∧
      t.producer = s.producer ∧ t.consumer = .idle ∧
      t.claimed = s.claimed ∧ t.drained = s.drained ++ [blk] := by
  unfold slot at hslot
  refine ⟨_, by
    simp [Runs.exec, step, consumerStep, hidle, List.replicate, setSlot, slot,
      hslot, diff_self]
    rfl, ?_⟩
  simp

/-- A producer has loaded position zero; since then `n` blocks of another have
gone through the ring. -/
structure Overtaken (s : SpikeAbsorber cap Bool) (n : Nat) : Prop where
  stale : s.producer false = .peek (blockOf 0) 0
  other : s.producer true = .idle
  consumer : s.consumer = .idle
  claimed : s.claimed.length = n
  drained : s.drained.length = n

/-- One more block goes through. -/
theorem Overtaken.next {s : SpikeAbsorber cap Bool} {n : Nat}
    (hs : Overtaken s n) (hinv : Inv s) :
    ∃ t, Runs.Reachable step s t ∧ Overtaken t (n + 1) := by
  have htwo := cap.two_le_size
  have hreleased : s.released = n := by
    simp [released, hs.consumer, hs.drained, DrainPc.taken]
  have henqueue : s.enqueuePos.toNat = n := hinv.enqueue.trans hs.claimed
  have hdequeue : s.dequeuePos = s.enqueuePos := by
    have hdrain := hinv.consumer
    rw [hs.consumer] at hdrain
    have hpos : s.dequeuePos.toNat = s.drained.length := hdrain
    exact UInt64.toNat_inj.mp (by rw [hpos, hs.drained, henqueue])
  have hfree : (s.slot s.enqueuePos).seq = s.enqueuePos := by
    apply UInt64.toNat_inj.mp
    rw [slot_eq_cell, henqueue]
    exact hinv.free n hs.claimed.le (by omega)
  obtain ⟨t, ht, hproducer, hconsumer, hclaimed, hdrained, hdeq, hslot⟩ :=
    absorb_free (blockOf 0) hs.other hfree
  obtain ⟨u, hu, hproducer', hconsumer', hclaimed', hdrained'⟩ :=
    drain_published (hconsumer.trans hs.consumer)
      (by rw [hdeq, hdequeue]; exact hslot)
  refine ⟨u, (Runs.Reachable.of_exec ht).trans (Runs.Reachable.of_exec hu),
    ?_, ?_, hconsumer', ?_, ?_⟩
  · rw [hproducer', hproducer, hs.stale]
  · rw [hproducer', hproducer, hs.other]
  · rw [hclaimed', hclaimed, List.length_append, hs.claimed]
    rfl
  · rw [hdrained', hdrained, List.length_append, hs.drained]
    rfl

theorem overtaken_reachable (cap : Capacity) {n : Nat} (hn : n < 2 ^ 63) :
    ∃ s : SpikeAbsorber cap Bool,
      Runs.Reachable step (init fun _ => blockOf 0) s ∧ Overtaken s n := by
  induction n with
  | zero =>
      exact Runs.Reachable.exists_of_exec
        [.absorb false (blockOf 0), .producer false]
        ⟨_, rfl, rfl, rfl, rfl, rfl, rfl⟩
  | succ n ih =>
      obtain ⟨s, hrun, hs⟩ := ih (by omega)
      have hbound : s.claimed.length < 2 ^ 63 := by
        rw [hs.claimed]
        omega
      have hinv : Inv s := Inv.of_run (unwrapped_of_reachable hrun hbound)
      obtain ⟨t, hlater, ht⟩ := hs.next hinv
      exact ⟨t, hrun.trans hlater, ht⟩

/-- A producer that runs alone fills the ring. -/
theorem filled_reachable (cap : Capacity) {n : Nat} (hn : n ≤ cap.size) :
    ∃ s : SpikeAbsorber cap Bool,
      Runs.Reachable step (init fun _ => blockOf 0) s ∧
      (∀ i, s.producer i = .idle) ∧ s.consumer = .idle ∧
      s.claimed.length = n ∧ s.drained = [] := by
  have hle := cap.size_le
  induction n with
  | zero => exact ⟨_, .refl, fun _ => rfl, rfl, rfl, rfl⟩
  | succ n ih =>
      obtain ⟨s, hrun, hproducer, hconsumer, hclaimed, hdrained⟩ := ih (by omega)
      have hinv : Inv s := Inv.of_run (unwrapped_of_reachable hrun (by omega))
      have henqueue : s.enqueuePos.toNat = n := hinv.enqueue.trans hclaimed
      have hfree : (s.slot s.enqueuePos).seq = s.enqueuePos := by
        apply UInt64.toNat_inj.mp
        rw [slot_eq_cell, henqueue]
        exact hinv.free n (by omega) (by omega)
      obtain ⟨t, ht, hproducer', hconsumer', hclaimed', hdrained', -⟩ :=
        absorb_free (blockOf 0) (hproducer false) hfree
      refine ⟨t, hrun.trans (Runs.Reachable.of_exec ht), ?_, ?_, ?_, ?_⟩
      · rw [hproducer']
        exact hproducer
      · rw [hconsumer', hconsumer]
      · rw [hclaimed', List.length_append, hclaimed]
        rfl
      · rw [hdrained', hdrained]

/-- The slot of position zero is free for position `2 ^ 63`. -/
theorem Overtaken.slot_zero {s : SpikeAbsorber cap Bool}
    (hs : Overtaken s (2 ^ 63 - cap.size + 1)) (hinv : Inv s) :
    (s.slot 0).seq = UInt64.ofNat (2 ^ 63) := by
  have hle := cap.size_le
  have hreleased : s.released = 2 ^ 63 - cap.size + 1 := by
    simp [released, hs.consumer, hs.drained, DrainPc.taken]
  have hclaimed := hs.claimed
  have htwo := cap.two_le_size
  have hfree := hinv.free (2 ^ 63) (by omega) (by omega)
  have hturn : cap.turn (2 ^ 63) = cap.turn 0 := by
    apply Fin.ext
    have hdvd : cap.size ∣ 2 ^ 63 :=
      Nat.pow_dvd_pow 2 (cap.le.trans (by decide))
    exact (Nat.mod_eq_zero_of_dvd hdvd).trans (Nat.zero_mod _).symm
  have hcell : s.slot 0 = s.cell (2 ^ 63) := by
    rw [slot_eq_cell]
    unfold cell
    rw [hturn]
    rfl
  apply UInt64.toNat_inj.mp
  rw [hcell, hfree]
  decide

end Limits

end SpikeAbsorber

namespace CountedAbsorber

open SpikeAbsorber

/-- The records follow any run of the absorber. -/
theorem reachable_of_absorber {cap : Capacity} {ι : Type*} [DecidableEq ι]
    {found : Fin cap.size → KVBlock} {a : SpikeAbsorber cap ι}
    (hrun : Runs.Reachable SpikeAbsorber.step (.init found) a) :
    ∃ s : CountedAbsorber cap ι,
      Runs.Reachable step (init found) s ∧ s.absorber = a := by
  induction hrun with
  | refl => exact ⟨init found, .refl, rfl⟩
  | tail _ _ hstep ih =>
      obtain ⟨s, hs, rfl⟩ := ih
      exact ⟨s.record _ _, hs.tail trivial (by rw [step, hstep]; rfl),
        record_absorber _ _ _⟩

/-- A producer that sees a sequence number below its position gives up. -/
theorem gives_up {cap : Capacity} {ι : Type*} [DecidableEq ι]
    {s : CountedAbsorber cap ι} {i : ι} {blk : KVBlock} {pos : UInt64}
    (hpc : s.absorber.producer i = .peek blk pos)
    (hneg : diff (s.absorber.slot pos).seq pos < 0) :
    ∃ t, Runs.Reachable step s t ∧ t.refused = s.refused ++ [s.unreleased] ∧
      t.absorber.claimed = s.absorber.claimed ∧
      t.absorber.drained = s.absorber.drained ∧
      t.absorber.consumer = s.absorber.consumer ∧
      t.absorber.producer = Function.update s.absorber.producer i .idle := by
  have hne : diff (s.absorber.slot pos).seq pos ≠ 0 := by
    intro heq
    rw [heq] at hneg
    exact absurd hneg (by decide)
  let u := s.record (.producer i) (s.absorber.setProducer i (.refuse blk))
  have hu : step s (.producer i) = some u := by
    simp only [step, SpikeAbsorber.step, producerStep, hpc, if_neg hne,
      if_pos hneg, Option.map_some, u]
  have hfull : u.absorber = s.absorber.setProducer i (.refuse blk) :=
    record_absorber _ _ _
  have hrefused : u.refused = s.refused ∧ u.unreleasedAt i = s.unreleased := by
    simp [u, record, hpc]
  have hpc' : u.absorber.producer i = .refuse blk := by
    rw [hfull, setProducer_self]
  let a := { u.absorber with
    overflowDrops := u.absorber.overflowDrops + 1 }.setProducer i .idle
  have ht : step u (.producer i) = some (u.record (.producer i) a) := by
    simp only [step, SpikeAbsorber.step, producerStep, hpc', Option.map_some, a]
  refine ⟨u.record (.producer i) a,
    (Runs.Reach.refl.tail trivial hu).tail trivial ht, ?_, ?_⟩
  · rw [← hrefused.1, ← hrefused.2]
    simp [record, hpc']
  · rw [record_absorber]
    simp [a, hfull, setProducer]

/-- After almost `2 ^ 63` blocks a producer that loaded its position at the start
takes the free slot for a full one, and gives up while the ring is empty. -/
theorem refused_while_empty :
    ∃ s : CountedAbsorber Capacity.absorber Bool,
      Runs.Reachable step (init fun _ => blockOf 0) s ∧
      s.absorber.claimed.length < 2 ^ 63 ∧
      ¬ ∀ u ∈ s.refused, u = Capacity.absorber.size := by
  have hsize : Capacity.absorber.size = 2 ^ 14 := rfl
  obtain ⟨a, hrun, ha⟩ := overtaken_reachable Capacity.absorber
    (show 2 ^ 63 - Capacity.absorber.size + 1 < 2 ^ 63 by omega)
  have hbound : a.claimed.length < 2 ^ 63 := by
    rw [ha.claimed]
    omega
  have hinv : Inv a := Inv.of_run (unwrapped_of_reachable hrun hbound)
  have hslot := ha.slot_zero hinv
  obtain ⟨s, hs, rfl⟩ := reachable_of_absorber hrun
  have hnone : s.unreleased = 0 := by
    unfold unreleased
    simp [released, ha.consumer, ha.claimed, ha.drained, DrainPc.taken]
  obtain ⟨t, ht, hrefused, hclaimed, -⟩ := gives_up ha.stale (by
    rw [hslot]
    decide)
  refine ⟨t, hs.trans ht, by rw [hclaimed]; exact hbound, ?_⟩
  intro hall
  have hzero := hall s.unreleased (by rw [hrefused]; simp)
  omega

/-- The ring is full, no call is in progress, and at least `n` calls have been
refused. -/
structure Full {cap : Capacity} (s : CountedAbsorber cap Bool) (n : Nat) :
    Prop where
  idle : s.Idle
  claimed : s.absorber.claimed.length = cap.size
  drained : s.absorber.drained = []
  refused : n ≤ s.refused.length

/-- One more call is refused. -/
theorem Full.next {cap : Capacity} {s : CountedAbsorber cap Bool} {n : Nat}
    (hs : Full s n) (hinv : Inv s.absorber) :
    ∃ t, Runs.Reachable step s t ∧ Full t (n + 1) := by
  have hsize := cap.two_le_size
  have hle := cap.size_le
  have hclaimed := hs.claimed
  have henqueue : s.absorber.enqueuePos.toNat = cap.size :=
    hinv.enqueue.trans hs.claimed
  have hreleased : s.absorber.released = 0 := by
    simp [released, hs.drained, hs.idle.2, DrainPc.taken]
  -- the slot of the next position still holds the first block
  have hseq : (s.absorber.slot s.absorber.enqueuePos).seq.toNat = 1 := by
    rcases hinv.used 0 (by omega) (by omega) with hpub | ⟨i, hi⟩
    · have hcell : s.absorber.slot s.absorber.enqueuePos = s.absorber.cell 0 := by
        rw [slot_eq_cell, henqueue]
        unfold cell
        rw [← cap.turn_add_size 0, Nat.zero_add]
      rw [hcell]
      exact hpub.1
    · rw [hs.idle.1 i] at hi
      cases hi
  have hneg : diff (s.absorber.slot s.absorber.enqueuePos).seq
      s.absorber.enqueuePos < 0 :=
    (diff_neg_iff (by omega) (by omega)).mpr (by omega)
  let u := (s.record (.absorb false (blockOf 0))
    (s.absorber.setProducer false (.load (blockOf 0))))
  have hu : step s (.absorb false (blockOf 0)) = some u := by
    simp only [step, SpikeAbsorber.step, hs.idle.1 false, if_true,
      Option.map_some, u]
  let v := u.record (.producer false)
    (u.absorber.setProducer false (.peek (blockOf 0) s.absorber.enqueuePos))
  have hv : step u (.producer false) = some v := by
    simp [step, SpikeAbsorber.step, producerStep, u, v, setProducer]
  have hpc : v.absorber.producer false =
      .peek (blockOf 0) s.absorber.enqueuePos := by
    simp [v]
  obtain ⟨t, ht, hrefused, hclaimed', hdrained, hconsumer, hproducer⟩ :=
    gives_up hpc (by simpa [u, v, setProducer, slot] using hneg)
  have hv' : v.absorber.claimed = s.absorber.claimed ∧
      v.absorber.drained = s.absorber.drained ∧
      v.absorber.consumer = s.absorber.consumer ∧ v.refused = s.refused := by
    simp [u, v, record, setProducer]
  refine ⟨t, ((Runs.Reach.refl.tail trivial hu).tail trivial hv).trans ht,
    ⟨?_, ?_⟩, ?_, ?_, ?_⟩
  · intro i
    rw [hproducer]
    cases i with
    | false => exact Function.update_self _ _ _
    | true => simpa [u, v, setProducer] using hs.idle.1 true
  · rw [hconsumer, hv'.2.2.1]
    exact hs.idle.2
  · rw [hclaimed', hv'.1]
    exact hs.claimed
  · rw [hdrained, hv'.2.1]
    exact hs.drained
  · rw [hrefused, hv'.2.2.2, List.length_append]
    exact Nat.succ_le_succ hs.refused

/-- `overflow_drops_` wraps. -/
theorem drops_wrapped :
    ∃ s : CountedAbsorber Capacity.absorber Bool,
      Runs.Reachable step (init fun _ => blockOf 0) s ∧
      s.absorber.claimed.length < 2 ^ 63 ∧ s.Idle ∧
      s.absorber.overflowDrops.toNat ≠ s.refused.length := by
  have hsize : Capacity.absorber.size = 2 ^ 14 := rfl
  have hfull : ∀ n : Nat, ∃ s : CountedAbsorber Capacity.absorber Bool,
      Runs.Reachable step (init fun _ => blockOf 0) s ∧ Full s n := by
    intro n
    induction n with
    | zero =>
        obtain ⟨a, hrun, hproducer, hconsumer, hclaimed, hdrained⟩ :=
          filled_reachable Capacity.absorber le_rfl
        obtain ⟨s, hs, rfl⟩ := reachable_of_absorber hrun
        exact ⟨s, hs, ⟨hproducer, hconsumer⟩, hclaimed, hdrained, Nat.zero_le _⟩
    | succ n ih =>
        obtain ⟨s, hrun, hs⟩ := ih
        have hclaimed := hs.claimed
        obtain ⟨t, hlater, ht⟩ := hs.next (sound_of_run hrun (by omega)).inv
        exact ⟨t, hrun.trans hlater, ht⟩
  obtain ⟨s, hrun, hs⟩ := hfull (2 ^ 64)
  have hclaimed := hs.claimed
  refine ⟨s, hrun, by omega, hs.idle, ?_⟩
  intro heq
  have hlt := UInt64.toNat_lt s.absorber.overflowDrops
  have hrefused := hs.refused
  omega

/-- Past `2 ^ 63 - CAPACITY` claims a producer can take a free slot for a full one,
and the drop counter wraps however few the claims. -/
theorem refused_and_counted_wrong :
    (∃ s : CountedAbsorber Capacity.absorber Bool,
      Runs.Reachable step (init fun _ => blockOf 0) s ∧
      s.absorber.claimed.length < 2 ^ 63 ∧
      ¬ ∀ u ∈ s.refused, u = Capacity.absorber.size) ∧
    ∃ s : CountedAbsorber Capacity.absorber Bool,
      Runs.Reachable step (init fun _ => blockOf 0) s ∧
      s.absorber.claimed.length < 2 ^ 63 ∧ s.Idle ∧
      s.absorber.overflowDrops.toNat ≠ s.refused.length :=
  ⟨refused_while_empty, drops_wrapped⟩

end CountedAbsorber

end Tempo
