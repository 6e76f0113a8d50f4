import Tempo.FifoLog
import Tempo.SpikeAbsorber

/-!
# The spike absorber is a queue

Write `R` for the number of released slots and `E` for the number of won
claims.  The positions from `R` to `R + CAPACITY` occupy each slot once, and
that window carries the invariant: a position in it that is not claimed is free,
and one that is claimed is published with its block, or its producer is still
between the compare-and-swap and the store.  Producers with a stale position
cannot win, since `enqueue_pos_` only grows, and a producer whose slot was
free at the load still finds it free when it wins.

The run theorem needs fewer than `2 ^ 63` claims, so that no position wraps.
The absorber is then a refinement of `FifoLog`, a won claim being the push and
the end of `drain` the pop.
-/

namespace Tempo

namespace Capacity

variable (cap : Capacity)

theorem size_pos : 0 < cap.size := by
  have htwo := cap.two_le_size
  omega

/-- The slot of position `q`. -/
def turn (q : Nat) : Fin cap.size :=
  ⟨q % cap.size, Nat.mod_lt _ cap.size_pos⟩

theorem slotIndex_eq (pos : UInt64) :
    cap.slotIndex pos = cap.turn pos.toNat :=
  Fin.ext (cap.toNat_and_mask pos)

variable {cap}

/-- Two positions of one window with the same slot are equal. -/
theorem turn_injective {r p q : Nat} (hp : r ≤ p) (hp' : p < r + cap.size)
    (hq : r ≤ q) (hq' : q < r + cap.size) (h : cap.turn p = cap.turn q) :
    p = q := by
  obtain ⟨a, rfl⟩ := Nat.exists_eq_add_of_le hp
  obtain ⟨b, rfl⟩ := Nat.exists_eq_add_of_le hq
  have hmod : r + a ≡ r + b [MOD cap.size] := Fin.mk.inj h
  have hab : a ≡ b [MOD cap.size] := Nat.ModEq.add_left_cancel' r hmod
  have : a = b := Nat.ModEq.eq_of_lt_of_lt hab (by omega) (by omega)
  omega

/-- The next position of the same slot. -/
theorem turn_add_size (q : Nat) : cap.turn (q + cap.size) = cap.turn q := by
  apply Fin.ext
  simp [turn]

end Capacity

/-- The position claimed and not yet published. -/
def AbsorbPc.pending? : AbsorbPc → Option Nat
  | .write _ pos => some pos.toNat
  | .publish _ pos => some pos.toNat
  | _ => none

/-- The slot is released and the block not yet returned. -/
def DrainPc.taken : DrainPc → Nat
  | .advance _ _ => 1
  | .deliver _ => 1
  | _ => 0

namespace SpikeAbsorber

variable {cap : Capacity} {ι : Type*}

theorem diff_eq_zero (seq pos : UInt64) : diff seq pos = 0 ↔ seq = pos := by
  unfold diff
  constructor
  · intro h
    have heq : seq.toInt64 = pos.toInt64 := by grind
    simpa using congrArg Int64.toUInt64 heq
  · intro h
    subst h
    grind

theorem toNat_succ {pos : UInt64} (h : pos.toNat < 2 ^ 63) :
    (pos + 1).toNat = pos.toNat + 1 := by
  rw [UInt64.toNat_add]
  simp only [UInt64.reduceToNat]
  omega

theorem toNat_add_size {pos : UInt64} (h : pos.toNat < 2 ^ 63) :
    (pos + UInt64.ofNat cap.size).toNat = pos.toNat + cap.size := by
  have hle := cap.size_le
  have hsize : (UInt64.ofNat cap.size).toNat = cap.size :=
    UInt64.toNat_ofNat_of_lt' (by simp only [UInt64.size]; omega)
  rw [UInt64.toNat_add, hsize]
  omega

/-- The number of slots released by the consumer. -/
def released (s : SpikeAbsorber cap ι) : Nat :=
  s.drained.length + s.consumer.taken

/-- The slot of position `q`. -/
def cell (s : SpikeAbsorber cap ι) (q : Nat) : Slot := s.ring (cap.turn q)

/-- The block of position `q` is in its slot. -/
def Published (s : SpikeAbsorber cap ι) (q : Nat) : Prop :=
  (s.cell q).seq.toNat = q + 1 ∧ s.claimed[q]? = some (s.cell q).blk

/-- What holds at each access of `absorb`. -/
def ProducerOk (s : SpikeAbsorber cap ι) : AbsorbPc → Prop
  | .peek _ pos => pos.toNat ≤ s.claimed.length
  | .claim _ pos => pos.toNat ≤ s.claimed.length ∧
      (pos.toNat = s.claimed.length →
        s.claimed.length < s.released + cap.size)
  | .write blk pos => s.released ≤ pos.toNat ∧
      s.claimed[pos.toNat]? = some blk ∧ (s.cell pos.toNat).seq = pos
  | .publish blk pos => s.released ≤ pos.toNat ∧
      s.claimed[pos.toNat]? = some blk ∧
      (s.cell pos.toNat).seq = pos ∧ (s.cell pos.toNat).blk = blk
  | _ => True

/-- What holds at each access of `drain`. -/
def DrainOk (s : SpikeAbsorber cap ι) : DrainPc → Prop
  | .idle | .load => s.dequeuePos.toNat = s.drained.length
  | .peek pos => s.dequeuePos.toNat = s.drained.length ∧ pos = s.dequeuePos
  | .copy pos => s.dequeuePos.toNat = s.drained.length ∧
      pos = s.dequeuePos ∧ s.Published s.drained.length
  | .release pos out => s.dequeuePos.toNat = s.drained.length ∧
      pos = s.dequeuePos ∧ s.Published s.drained.length ∧
      s.claimed[s.drained.length]? = some out
  | .advance pos out => s.dequeuePos.toNat = s.drained.length ∧
      pos = s.dequeuePos ∧ s.claimed[s.drained.length]? = some out
  | .deliver out => s.dequeuePos.toNat = s.drained.length + 1 ∧
      s.claimed[s.drained.length]? = some out

/-- The invariant. -/
structure Inv (s : SpikeAbsorber cap ι) : Prop where
  enqueue : s.enqueuePos.toNat = s.claimed.length
  released_le : s.released ≤ s.claimed.length
  room : s.claimed.length ≤ s.released + cap.size
  free : ∀ q, s.claimed.length ≤ q → q < s.released + cap.size →
    (s.cell q).seq.toNat = q
  used : ∀ q, s.released ≤ q → q < s.claimed.length →
    s.Published q ∨ ∃ i, (s.producer i).pending? = some q
  producers : ∀ i, s.ProducerOk (s.producer i)
  unique : ∀ i j q, (s.producer i).pending? = some q →
    (s.producer j).pending? = some q → i = j
  consumer : s.DrainOk s.consumer
  order : s.drained <+: s.claimed

theorem inv_init (found : Fin cap.size → KVBlock) :
    Inv (init found : SpikeAbsorber cap ι) where
  enqueue := rfl
  released_le := le_refl _
  room := Nat.zero_le _
  free := by
    intro q _ hq
    have hle := cap.size_le
    have hlt : q < cap.size := by simpa [released, init, DrainPc.taken] using hq
    have hturn : (cap.turn q).val = q := Nat.mod_eq_of_lt hlt
    simp only [cell, init, hturn]
    exact UInt64.toNat_ofNat_of_lt' (by simp only [UInt64.size]; omega)
  used := by
    intro q _ hq
    simp [init] at hq
  producers := fun _ => trivial
  unique := by simp [init, AbsorbPc.pending?]
  consumer := rfl
  order := List.prefix_refl _

section Window

variable {s : SpikeAbsorber cap ι}

/-- A pending position is in the window, and its slot is still free. -/
theorem Inv.pending (hs : Inv s) {i : ι} {q : Nat}
    (hi : (s.producer i).pending? = some q) :
    s.released ≤ q ∧ q < s.claimed.length ∧ (s.cell q).seq.toNat = q := by
  have hok := hs.producers i
  cases hpc : s.producer i with
  | write blk pos =>
      rw [hpc] at hi hok
      obtain rfl : pos.toNat = q := Option.some.inj hi
      obtain ⟨hle, hblk, hseq⟩ := hok
      exact ⟨hle, (List.getElem?_eq_some_iff.mp hblk).1, by rw [hseq]⟩
  | publish blk pos =>
      rw [hpc] at hi hok
      obtain rfl : pos.toNat = q := Option.some.inj hi
      obtain ⟨hle, hblk, hseq, -⟩ := hok
      exact ⟨hle, (List.getElem?_eq_some_iff.mp hblk).1, by rw [hseq]⟩
  | _ => simp [hpc, AbsorbPc.pending?] at hi

/-- A published position is not pending. -/
theorem Inv.not_pending_of_published (hs : Inv s) {i : ι} {q : Nat}
    (hq : s.Published q) : (s.producer i).pending? ≠ some q := by
  intro hi
  have hseq := (hs.pending hi).2.2
  have hseq' := hq.1
  omega

/-- A longer history of claims keeps what holds of a thread that has a
position. -/
theorem ProducerOk.append {pc : AbsorbPc} (h : s.ProducerOk pc)
    {t : SpikeAbsorber cap ι} {more : List KVBlock} (hmore : more ≠ [])
    (hclaimed : t.claimed = s.claimed ++ more)
    (hreleased : t.released = s.released) (hring : t.ring = s.ring) :
    t.ProducerOk pc := by
  have hcell : ∀ q, t.cell q = s.cell q := fun q => by simp [cell, hring]
  have hlen : s.claimed.length < t.claimed.length := by
    have := List.length_pos_iff.mpr hmore
    rw [hclaimed, List.length_append]
    omega
  cases pc with
  | peek blk pos =>
      have hpos : pos.toNat ≤ s.claimed.length := h
      show pos.toNat ≤ t.claimed.length
      omega
  | claim blk pos =>
      have hpos : pos.toNat ≤ s.claimed.length := h.1
      exact ⟨by omega, fun heq => by omega⟩
  | write blk pos =>
      obtain ⟨hle, hblk, hseq⟩ := h
      refine ⟨by rw [hreleased]; exact hle, ?_, by rw [hcell]; exact hseq⟩
      rw [hclaimed]
      exact FifoLog.getElem?_of_prefix (List.prefix_append _ _) hblk
  | publish blk pos =>
      obtain ⟨hle, hblk, hseq, hcopy⟩ := h
      refine ⟨by rw [hreleased]; exact hle, ?_, by rw [hcell]; exact hseq,
        by rw [hcell]; exact hcopy⟩
      rw [hclaimed]
      exact FifoLog.getElem?_of_prefix (List.prefix_append _ _) hblk
  | _ => trivial

/-- A longer history of claims keeps what holds of the consumer. -/
theorem DrainOk.append {pc : DrainPc} (h : s.DrainOk pc)
    {t : SpikeAbsorber cap ι} {more : List KVBlock}
    (hclaimed : t.claimed = s.claimed ++ more)
    (hdrained : t.drained = s.drained) (hdequeue : t.dequeuePos = s.dequeuePos)
    (hring : t.ring = s.ring) : t.DrainOk pc := by
  have hblk : ∀ (q : Nat) (blk : KVBlock), s.claimed[q]? = some blk →
      t.claimed[q]? = some blk := by
    intro q blk hq
    rw [hclaimed]
    exact FifoLog.getElem?_of_prefix (List.prefix_append _ _) hq
  have hpub : ∀ q, s.Published q → t.Published q := by
    intro q hq
    unfold Published cell at hq ⊢
    rw [hring]
    exact ⟨hq.1, hblk _ _ hq.2⟩
  cases pc <;> simp only [DrainOk, hdrained, hdequeue] at h ⊢ <;> grind

/-- `t` differs from `s` at most in the slot of position `p`, and in having
released it. -/
structure SameBut (p : Nat) (s t : SpikeAbsorber cap ι) : Prop where
  claimed_eq : t.claimed = s.claimed
  released_le : s.released ≤ t.released
  released : ∀ q, q ≠ p → s.released ≤ q → t.released ≤ q
  cell_eq : ∀ q, q ≠ p → s.released ≤ q → q < s.claimed.length →
    t.cell q = s.cell q

theorem SameBut.producerOk {p : Nat} {t : SpikeAbsorber cap ι}
    (hst : SameBut p s t) {pc : AbsorbPc} (hpc : pc.pending? ≠ some p)
    (h : s.ProducerOk pc) : t.ProducerOk pc := by
  have hle := hst.released_le
  have hpending : ∀ (blk : KVBlock) (pos : UInt64), pos.toNat ≠ p →
      s.released ≤ pos.toNat → s.claimed[pos.toNat]? = some blk →
      t.released ≤ pos.toNat ∧ t.claimed[pos.toNat]? = some blk ∧
        t.cell pos.toNat = s.cell pos.toNat := by
    intro blk pos hne hrel hblk
    have hlt := (List.getElem?_eq_some_iff.mp hblk).1
    exact ⟨hst.released _ hne hrel, by rw [hst.claimed_eq, hblk],
      hst.cell_eq _ hne hrel hlt⟩
  cases pc with
  | peek blk pos =>
      show pos.toNat ≤ t.claimed.length
      rw [hst.claimed_eq]
      exact h
  | claim blk pos =>
      obtain ⟨hpos, hroom⟩ := h
      show pos.toNat ≤ t.claimed.length ∧ (pos.toNat = t.claimed.length → _)
      rw [hst.claimed_eq]
      exact ⟨hpos, fun heq => by have := hroom heq; omega⟩
  | write blk pos =>
      obtain ⟨hrel, hblk, hseq⟩ := h
      have hne : pos.toNat ≠ p := by simpa [AbsorbPc.pending?] using hpc
      obtain ⟨hrel', hblk', hcell⟩ := hpending blk pos hne hrel hblk
      exact ⟨hrel', hblk', by rw [hcell, hseq]⟩
  | publish blk pos =>
      obtain ⟨hrel, hblk, hseq, hcopy⟩ := h
      have hne : pos.toNat ≠ p := by simpa [AbsorbPc.pending?] using hpc
      obtain ⟨hrel', hblk', hcell⟩ := hpending blk pos hne hrel hblk
      exact ⟨hrel', hblk', by rw [hcell, hseq], by rw [hcell, hcopy]⟩
  | _ => trivial

theorem SameBut.published {p q : Nat} {t : SpikeAbsorber cap ι}
    (hst : SameBut p s t) (hne : q ≠ p) (hrel : s.released ≤ q)
    (h : s.Published q) : t.Published q := by
  have hlt := (List.getElem?_eq_some_iff.mp h.2).1
  unfold Published
  rw [hst.cell_eq q hne hrel hlt, hst.claimed_eq]
  exact h

theorem slot_eq_cell (pos : UInt64) : s.slot pos = s.cell pos.toNat := by
  simp [slot, cell, cap.slotIndex_eq]

theorem cell_setSlot_self (pos : UInt64) (x : Slot) :
    (s.setSlot pos x).cell pos.toNat = x := by
  simp [setSlot, cell, cap.slotIndex_eq]

/-- Writing one slot leaves the other positions of the window alone. -/
theorem Inv.cell_setSlot_ne (hs : Inv s) {pos : UInt64} {x : Slot} {q : Nat}
    (hp : s.released ≤ pos.toNat) (hp' : pos.toNat < s.claimed.length)
    (hne : q ≠ pos.toNat) (hq : s.released ≤ q)
    (hq' : q < s.released + cap.size) :
    (s.setSlot pos x).cell q = s.cell q := by
  have hroom := hs.room
  have hturn : cap.turn q ≠ cap.turn pos.toNat := by
    intro h
    exact hne (Capacity.turn_injective hq hq' hp (by omega) h)
  simp [setSlot, cell, cap.slotIndex_eq, hturn]

/-- A slot whose sequence number is the next position is free for it: the ring
is not full. -/
theorem Inv.room_of_seq (hs : Inv s)
    (hseq : (s.cell s.claimed.length).seq.toNat = s.claimed.length) :
    s.claimed.length < s.released + cap.size := by
  have hroom := hs.room
  have htwo := cap.two_le_size
  by_contra hfull
  have hE : s.claimed.length = s.released + cap.size := by omega
  have hcell : s.cell s.claimed.length = s.cell s.released := by
    unfold cell
    rw [hE, Capacity.turn_add_size]
  rw [hcell] at hseq
  -- the slot still belongs to the oldest unreleased position
  rcases hs.used s.released (le_refl _) (by omega) with hpub | ⟨j, hj⟩
  · have hseq' := hpub.1
    omega
  · have hseq' := (hs.pending hj).2.2
    omega

/-! ### The producers -/

variable [DecidableEq ι]

theorem producer_setProducer (i j : ι) (pc : AbsorbPc) :
    (s.setProducer i pc).producer j =
      if j = i then pc else s.producer j := by
  simp [setProducer, Function.update_apply]

/-- Producer `i` moves between statements that hold no position. -/
theorem Inv.park (hs : Inv s) {i : ι} {pc : AbsorbPc}
    (hold : (s.producer i).pending? = none) (hnew : pc.pending? = none)
    (hok : s.ProducerOk pc) (absorbedTotal overflowDrops : UInt64) :
    Inv { s.setProducer i pc with absorbedTotal, overflowDrops } := by
  have hpending : ∀ j q, ((s.setProducer i pc).producer j).pending? = some q ↔
      (s.producer j).pending? = some q := by
    intro j q
    rw [producer_setProducer]
    by_cases hj : j = i
    · subst hj
      simp [hold, hnew]
    · simp [hj]
  exact
    { enqueue := hs.enqueue
      released_le := hs.released_le
      room := hs.room
      free := hs.free
      used := by
        intro q hq hq'
        refine (hs.used q hq hq').imp_right ?_
        intro ⟨j, hj⟩
        exact ⟨j, (hpending j q).mpr hj⟩
      producers := by
        intro j
        have hj := hs.producers j
        show s.ProducerOk ((s.setProducer i pc).producer j)
        rw [producer_setProducer]
        by_cases h : j = i
        · simpa [h] using hok
        · simpa [h] using hj
      unique := by
        intro j k q hj hk
        exact hs.unique j k q ((hpending j q).mp hj) ((hpending k q).mp hk)
      consumer := hs.consumer
      order := hs.order }

/-- A won compare-and-swap claims a free slot. -/
theorem Inv.claim (hs : Inv s) {i : ι} {blk : KVBlock} {pos : UInt64}
    (hbound : s.claimed.length < 2 ^ 63) (hpc : s.producer i = .claim blk pos)
    (hpos : s.enqueuePos = pos) :
    Inv ({ s with
      enqueuePos := pos + 1
      claimed := s.claimed ++ [blk] }.setProducer i (.write blk pos)) := by
  have hE : pos.toNat = s.claimed.length := by rw [← hpos, hs.enqueue]
  have hroom : s.claimed.length < s.released + cap.size := by
    have hok := hs.producers i
    rw [hpc] at hok
    exact hok.2 hE
  have hfree : (s.cell pos.toNat).seq = pos := by
    apply UInt64.toNat_inj.mp
    exact hs.free pos.toNat (by omega) (by omega)
  have hpending : ∀ j q,
      ((s.setProducer i (.write blk pos)).producer j).pending? = some q →
        j = i ∧ q = s.claimed.length ∨
          j ≠ i ∧ (s.producer j).pending? = some q := by
    intro j q hj
    rw [producer_setProducer] at hj
    by_cases h : j = i
    · refine .inl ⟨h, ?_⟩
      have : pos.toNat = q := by simpa [h, AbsorbPc.pending?] using hj
      omega
    · exact .inr ⟨h, by simpa [h] using hj⟩
  exact
    { enqueue := by
        show (pos + 1).toNat = (s.claimed ++ [blk]).length
        rw [toNat_succ (by omega), List.length_append]
        simp [hE]
      released_le := by
        show s.released ≤ (s.claimed ++ [blk]).length
        have hle := hs.released_le
        simp
        omega
      room := by
        show (s.claimed ++ [blk]).length ≤ s.released + cap.size
        simp
        omega
      free := by
        intro q hq hq'
        have hlen : s.claimed.length + 1 ≤ q := by
          simpa [setProducer] using hq
        exact hs.free q (by omega) hq'
      used := by
        intro q hq hq'
        have hlen : q < s.claimed.length + 1 := by
          simpa [setProducer] using hq'
        by_cases hlast : q = s.claimed.length
        · right
          refine ⟨i, ?_⟩
          show ((s.setProducer i (.write blk pos)).producer i).pending? =
            some q
          simp [AbsorbPc.pending?, hE, hlast]
        · rcases hs.used q hq (by omega) with hpub | ⟨j, hj⟩
          · exact .inl ⟨hpub.1,
              FifoLog.getElem?_of_prefix (List.prefix_append _ _) hpub.2⟩
          · right
            refine ⟨j, ?_⟩
            have hji : j ≠ i := by
              intro h
              rw [h, hpc] at hj
              simp [AbsorbPc.pending?] at hj
            show ((s.setProducer i (.write blk pos)).producer j).pending? =
              some q
            simpa [producer_setProducer, hji] using hj
      producers := by
        intro j
        show ProducerOk _ ((s.setProducer i (.write blk pos)).producer j)
        rw [producer_setProducer]
        by_cases hj : j = i
        · rw [if_pos hj]
          refine ⟨by show s.released ≤ _; have := hs.released_le; omega, ?_,
            hfree⟩
          show (s.claimed ++ [blk])[pos.toNat]? = some blk
          simp [hE]
        · rw [if_neg hj]
          exact (hs.producers j).append (List.cons_ne_nil blk []) rfl rfl rfl
      unique := by
        intro j k q hj hk
        have hlt : ∀ l, (s.producer l).pending? = some q →
            q < s.claimed.length := fun l hl => (hs.pending hl).2.1
        rcases hpending j q hj with ⟨rfl, rfl⟩ | ⟨-, hj'⟩ <;>
          rcases hpending k _ hk with ⟨rfl, hq⟩ | ⟨-, hk'⟩
        · rfl
        · exact absurd (hlt k hk') (by omega)
        · exact absurd (hlt j hj') (by omega)
        · exact hs.unique j k q hj' hk'
      consumer := hs.consumer.append rfl rfl rfl rfl
      order := hs.order.trans (List.prefix_append _ _) }

/-- The producer that holds position `pos` writes its slot, and either keeps
the position or publishes it. -/
theorem Inv.fill (hs : Inv s) {i : ι} {pc : AbsorbPc} {pos : UInt64} {x : Slot}
    (hold : (s.producer i).pending? = some pos.toNat)
    (hnew : pc.pending? = some pos.toNat ∨ pc.pending? = none ∧
      x.seq.toNat = pos.toNat + 1 ∧ s.claimed[pos.toNat]? = some x.blk)
    (hok : ((s.setSlot pos x).setProducer i pc).ProducerOk pc) :
    Inv ((s.setSlot pos x).setProducer i pc) := by
  obtain ⟨hrel, hlt, -⟩ := hs.pending hold
  have hroom := hs.room
  have hpending : ∀ j, ((s.setSlot pos x).setProducer i pc).producer j =
      if j = i then pc else s.producer j :=
    fun j => producer_setProducer (s := s.setSlot pos x) i j pc
  have hback : ∀ j q,
      (((s.setSlot pos x).setProducer i pc).producer j).pending? = some q →
        (s.producer j).pending? = some q := by
    intro j q hj
    rw [hpending] at hj
    by_cases h : j = i
    · rw [if_pos h] at hj
      rw [h, hold, ← hj]
      rcases hnew with hnew | ⟨hnew, -⟩
      · exact hnew.symm
      · simp [hnew] at hj
    · simpa [h] using hj
  have hsame : SameBut pos.toNat s ((s.setSlot pos x).setProducer i pc) :=
    { claimed_eq := rfl
      released_le := le_refl _
      released := fun _ _ hq => hq
      cell_eq := fun q hne hq hq' =>
        hs.cell_setSlot_ne hrel hlt hne hq (by omega) }
  exact
    { enqueue := hs.enqueue
      released_le := hs.released_le
      room := hs.room
      free := by
        intro q hq hq'
        have hle : s.claimed.length ≤ q := hq
        have hlt' : q < s.released + cap.size := hq'
        have hcell : (s.setSlot pos x).cell q = s.cell q :=
          hs.cell_setSlot_ne hrel hlt (by omega) (by omega) hlt'
        show ((s.setSlot pos x).cell q).seq.toNat = q
        rw [hcell]
        exact hs.free q hle hlt'
      used := by
        intro q hq hq'
        by_cases hqp : q = pos.toNat
        · subst hqp
          rcases hnew with hnew | ⟨-, hseq, hblk⟩
          · exact .inr ⟨i, by rw [hpending, if_pos rfl, hnew]⟩
          · left
            have hself : ((s.setSlot pos x).setProducer i pc).cell pos.toNat =
                x := cell_setSlot_self pos x
            exact ⟨by rw [hself, hseq], by rw [hself]; exact hblk⟩
        · rcases hs.used q hq hq' with hpub | ⟨j, hj⟩
          · exact .inl (hsame.published hqp hq hpub)
          · have hji : j ≠ i := by
              intro h
              rw [h, hold] at hj
              exact hqp (Option.some.inj hj).symm
            exact .inr ⟨j, by rw [hpending, if_neg hji, hj]⟩
      producers := by
        intro j
        rw [hpending]
        by_cases hj : j = i
        · rw [if_pos hj]
          exact hok
        · rw [if_neg hj]
          refine hsame.producerOk ?_ (hs.producers j)
          intro h
          exact hj (hs.unique j i _ h hold)
      unique := fun j k q hj hk =>
        hs.unique j k q (hback j q hj) (hback k q hk)
      consumer := by
        -- the consumer reads a published slot, which is not position `pos`
        have hpub : s.released = s.drained.length →
            s.Published s.drained.length →
            ((s.setSlot pos x).setProducer i pc).Published
              s.drained.length := by
          intro hrel' h
          refine hsame.published ?_ (by omega) h
          intro heq
          exact hs.not_pending_of_published h (heq ▸ hold)
        have hdrain := hs.consumer
        show DrainOk _ s.consumer
        cases hpc : s.consumer with
        | copy p =>
            rw [hpc] at hdrain
            obtain ⟨hd, hp, h⟩ := hdrain
            exact ⟨hd, hp, hpub (by simp [released, hpc, DrainPc.taken]) h⟩
        | release p out =>
            rw [hpc] at hdrain
            obtain ⟨hd, hp, h, hout⟩ := hdrain
            exact ⟨hd, hp, hpub (by simp [released, hpc, DrainPc.taken]) h,
              hout⟩
        | idle | load | peek p | advance p out | deliver out =>
            rw [hpc] at hdrain
            exact hdrain
      order := hs.order }

/-- One access of a producer keeps the invariant. -/
theorem Inv.producerStep (hs : Inv s) {t : SpikeAbsorber cap ι} {i : ι}
    (hbound : s.claimed.length < 2 ^ 63)
    (hstep : s.producerStep i = some t) : Inv t := by
  have hok := hs.producers i
  cases hpc : s.producer i with
  | idle => simp [SpikeAbsorber.producerStep, hpc] at hstep
  | load blk =>
      obtain rfl := by simpa [SpikeAbsorber.producerStep, hpc] using hstep
      have hnext : s.ProducerOk (.peek blk s.enqueuePos) := hs.enqueue.le
      exact hs.park (by rw [hpc]; rfl) rfl hnext _ _
  | peek blk pos =>
      rw [hpc] at hok
      obtain rfl := by simpa [SpikeAbsorber.producerStep, hpc] using hstep
      have hle : pos.toNat ≤ s.claimed.length := hok
      by_cases hzero : diff (s.slot pos).seq pos = 0
      · have hnext : s.ProducerOk (.claim blk pos) := by
          refine ⟨hle, fun hE => hs.room_of_seq ?_⟩
          rw [← hE, ← slot_eq_cell, (diff_eq_zero _ _).mp hzero]
        rw [if_pos hzero]
        exact hs.park (by rw [hpc]; rfl) rfl hnext _ _
      · rw [if_neg hzero]
        have hrefuse : s.ProducerOk (.refuse blk) := trivial
        have hload : s.ProducerOk (.load blk) := trivial
        split
        · exact hs.park (by rw [hpc]; rfl) rfl hrefuse _ _
        · exact hs.park (by rw [hpc]; rfl) rfl hload _ _
  | claim blk pos =>
      by_cases hpos : s.enqueuePos = pos
      · obtain rfl := by
          simpa [SpikeAbsorber.producerStep, hpc, hpos] using hstep
        exact hs.claim hbound hpc hpos
      · obtain rfl := by
          simpa [SpikeAbsorber.producerStep, hpc, hpos] using hstep
        have hnext : s.ProducerOk (.peek blk s.enqueuePos) := hs.enqueue.le
        exact hs.park (by rw [hpc]; rfl) rfl hnext _ _
  | write blk pos =>
      rw [hpc] at hok
      obtain ⟨hrel, hblk, hseq⟩ := hok
      obtain rfl := by simpa [SpikeAbsorber.producerStep, hpc] using hstep
      refine hs.fill (by rw [hpc]; rfl) (.inl rfl) ⟨hrel, hblk, ?_, ?_⟩
      · show ((s.setSlot pos _).cell pos.toNat).seq = pos
        rw [cell_setSlot_self, slot_eq_cell]
        exact hseq
      · show ((s.setSlot pos _).cell pos.toNat).blk = blk
        rw [cell_setSlot_self]
  | publish blk pos =>
      rw [hpc] at hok
      obtain ⟨hrel, hblk, hseq, hcopy⟩ := hok
      have hlt := (List.getElem?_eq_some_iff.mp hblk).1
      obtain rfl := by simpa [SpikeAbsorber.producerStep, hpc] using hstep
      refine hs.fill (by rw [hpc]; rfl) (.inr ⟨rfl, ?_, ?_⟩) trivial
      · exact toNat_succ (by omega)
      · rw [slot_eq_cell]
        simpa [hcopy] using hblk
  | accept blk pos | refuse blk =>
      obtain rfl := by simpa [SpikeAbsorber.producerStep, hpc] using hstep
      have hidle : s.ProducerOk .idle := trivial
      exact hs.park (by rw [hpc]; rfl) rfl hidle _ _

/-! ### The consumer -/

omit [DecidableEq ι] in
/-- The consumer moves without touching a slot. -/
theorem Inv.drainMove (hs : Inv s) {t : SpikeAbsorber cap ι}
    (hproducer : t.producer = s.producer) (hring : t.ring = s.ring)
    (henqueue : t.enqueuePos = s.enqueuePos)
    (hclaimed : t.claimed = s.claimed) (hreleased : t.released = s.released)
    (hdrain : t.DrainOk t.consumer) (horder : t.drained <+: s.claimed) :
    Inv t := by
  have hcell : ∀ q, t.cell q = s.cell q := fun q => by simp [cell, hring]
  have hsame : SameBut s.claimed.length s t :=
    { claimed_eq := hclaimed
      released_le := hreleased.ge
      released := fun q _ hq => by rw [hreleased]; exact hq
      cell_eq := fun q _ _ _ => hcell q }
  exact
    { enqueue := by rw [henqueue, hclaimed]; exact hs.enqueue
      released_le := by rw [hreleased, hclaimed]; exact hs.released_le
      room := by rw [hreleased, hclaimed]; exact hs.room
      free := by
        intro q hq hq'
        rw [hclaimed] at hq
        rw [hreleased] at hq'
        rw [hcell]
        exact hs.free q hq hq'
      used := by
        intro q hq hq'
        rw [hreleased] at hq
        rw [hclaimed] at hq'
        rw [hproducer]
        exact (hs.used q hq hq').imp_left
          (hsame.published (Nat.ne_of_lt hq') hq)
      producers := by
        intro j
        rw [hproducer]
        refine hsame.producerOk ?_ (hs.producers j)
        intro h
        have hlt := (hs.pending h).2.1
        omega
      unique := by rw [hproducer]; exact hs.unique
      consumer := hdrain
      order := by rw [hclaimed]; exact horder }

omit [DecidableEq ι] in
/-- The consumer hands its slot to the next lap. -/
theorem Inv.release (hs : Inv s) {pos : UInt64} {out : KVBlock}
    (hbound : s.claimed.length < 2 ^ 63)
    (hpc : s.consumer = .release pos out) :
    Inv { s.setSlot pos
        { s.slot pos with seq := pos + UInt64.ofNat cap.size } with
      consumer := .advance pos out } := by
  have hdrain := hs.consumer
  rw [hpc] at hdrain
  obtain ⟨hdequeue, rfl, hpub, hout⟩ := hdrain
  have hrel : s.released = s.drained.length := by
    simp [released, hpc, DrainPc.taken]
  have hpos : s.dequeuePos.toNat = s.released := by rw [hdequeue, hrel]
  rw [← hrel] at hpub
  have hlt := (List.getElem?_eq_some_iff.mp hpub.2).1
  have hroom := hs.room
  obtain ⟨t, ht⟩ : ∃ t, t = { s.setSlot s.dequeuePos
        { s.slot s.dequeuePos with
          seq := s.dequeuePos + UInt64.ofNat cap.size } with
      consumer := DrainPc.advance s.dequeuePos out } := ⟨_, rfl⟩
  rw [← ht]
  have hreleased : t.released = s.released + 1 := by
    rw [ht, hrel]
    rfl
  have hclaimed : t.claimed = s.claimed := by rw [ht]; rfl
  have hproducer : t.producer = s.producer := by rw [ht]; rfl
  have hcell : ∀ q, q ≠ s.released → s.released ≤ q →
      q < s.released + cap.size → t.cell q = s.cell q := by
    intro q hne hq hq'
    rw [ht]
    exact hs.cell_setSlot_ne (by omega) (by omega) (by omega) hq hq'
  have hself : (t.cell (s.released + cap.size)).seq.toNat =
      s.released + cap.size := by
    have hturn : t.cell (s.released + cap.size) =
        t.cell s.dequeuePos.toNat := by
      unfold cell
      rw [Capacity.turn_add_size, hpos]
    rw [hturn, ht]
    show ((s.setSlot s.dequeuePos _).cell s.dequeuePos.toNat).seq.toNat = _
    rw [cell_setSlot_self]
    show (s.dequeuePos + UInt64.ofNat cap.size).toNat = _
    rw [toNat_add_size (by omega), hpos]
  have hsame : SameBut s.released s t :=
    { claimed_eq := hclaimed
      released_le := by omega
      released := fun q hne hq => by omega
      cell_eq := fun q hne hq hq' => hcell q hne hq (by omega) }
  exact
    { enqueue := by rw [hclaimed, ht]; exact hs.enqueue
      released_le := by rw [hreleased, hclaimed]; omega
      room := by rw [hreleased, hclaimed]; omega
      free := by
        intro q hq hq'
        rw [hclaimed] at hq
        rw [hreleased] at hq'
        by_cases hlast : q = s.released + cap.size
        · rw [hlast]
          exact hself
        · rw [hcell q (by omega) (by omega) (by omega)]
          exact hs.free q hq (by omega)
      used := by
        intro q hq hq'
        rw [hreleased] at hq
        rw [hclaimed] at hq'
        rw [hproducer]
        exact (hs.used q (by omega) hq').imp_left
          (hsame.published (by omega) (by omega))
      producers := by
        intro j
        rw [hproducer]
        exact hsame.producerOk (hs.not_pending_of_published hpub)
          (hs.producers j)
      unique := by rw [hproducer]; exact hs.unique
      consumer := by
        rw [ht]
        exact ⟨hdequeue, rfl, hout⟩
      order := by rw [hclaimed, ht]; exact hs.order }

omit [DecidableEq ι] in
/-- One access of the consumer keeps the invariant. -/
theorem Inv.consumerStep (hs : Inv s) {t : SpikeAbsorber cap ι}
    (hbound : s.claimed.length < 2 ^ 63)
    (hstep : s.consumerStep = some t) : Inv t := by
  have hdrain := hs.consumer
  have hle := hs.released_le
  cases hpc : s.consumer with
  | idle => simp [SpikeAbsorber.consumerStep, hpc] at hstep
  | load =>
      rw [hpc] at hdrain
      obtain rfl := by simpa [SpikeAbsorber.consumerStep, hpc] using hstep
      exact hs.drainMove rfl rfl rfl rfl (by simp [released, hpc, DrainPc.taken])
        ⟨hdrain, rfl⟩ hs.order
  | peek pos =>
      rw [hpc] at hdrain
      obtain ⟨hdequeue, rfl⟩ := hdrain
      have hrel : s.released = s.drained.length := by
        simp [released, hpc, DrainPc.taken]
      obtain rfl := by simpa [SpikeAbsorber.consumerStep, hpc] using hstep
      by_cases hseq : (s.slot s.dequeuePos).seq = s.dequeuePos + 1
      · have hnext : (s.cell s.drained.length).seq.toNat =
            s.drained.length + 1 := by
          rw [← hdequeue, ← slot_eq_cell, hseq, toNat_succ (by omega)]
        -- the slot is neither free nor pending, so it is published
        have hpub : s.Published s.drained.length := by
          by_cases hlt : s.drained.length < s.claimed.length
          · rcases hs.used s.drained.length (by omega) hlt with h | ⟨j, hj⟩
            · exact h
            · have hfree := (hs.pending hj).2.2
              omega
          · have hfree := hs.free s.drained.length (by omega)
              (by have := cap.two_le_size; omega)
            omega
        rw [if_pos ((diff_eq_zero _ _).mpr hseq)]
        exact hs.drainMove rfl rfl rfl rfl
          (by simp [released, hpc, DrainPc.taken]) ⟨hdequeue, rfl, hpub⟩
          hs.order
      · rw [if_neg (fun h => hseq ((diff_eq_zero _ _).mp h))]
        exact hs.drainMove rfl rfl rfl rfl
          (by simp [released, hpc, DrainPc.taken]) hdequeue hs.order
  | copy pos =>
      rw [hpc] at hdrain
      obtain ⟨hdequeue, rfl, hpub⟩ := hdrain
      obtain rfl := by simpa [SpikeAbsorber.consumerStep, hpc] using hstep
      refine hs.drainMove rfl rfl rfl rfl
        (by simp [released, hpc, DrainPc.taken]) ⟨hdequeue, rfl, hpub, ?_⟩
        hs.order
      show s.claimed[s.drained.length]? = some (s.slot s.dequeuePos).blk
      rw [slot_eq_cell, hdequeue]
      exact hpub.2
  | release pos out =>
      obtain rfl := by simpa [SpikeAbsorber.consumerStep, hpc] using hstep
      exact hs.release hbound hpc
  | advance pos out =>
      rw [hpc] at hdrain
      obtain ⟨hdequeue, rfl, hout⟩ := hdrain
      have hlt := (List.getElem?_eq_some_iff.mp hout).1
      obtain rfl := by simpa [SpikeAbsorber.consumerStep, hpc] using hstep
      refine hs.drainMove rfl rfl rfl rfl
        (by simp [released, hpc, DrainPc.taken]) ⟨?_, hout⟩ hs.order
      show (s.dequeuePos + 1).toNat = s.drained.length + 1
      rw [toNat_succ (by omega), hdequeue]
  | deliver out =>
      rw [hpc] at hdrain
      obtain ⟨hdequeue, hout⟩ := hdrain
      obtain rfl := by simpa [SpikeAbsorber.consumerStep, hpc] using hstep
      refine hs.drainMove rfl rfl rfl rfl
        (by simp [released, hpc, DrainPc.taken]) ?_ ?_
      · show s.dequeuePos.toNat = (s.drained ++ [out]).length
        rw [hdequeue, List.length_append]
        rfl
      · have hpop := FifoLog.step_pop (q := ⟨s.claimed, s.drained⟩) hout
        exact FifoLog.prefix_step hs.order hpop

theorem Inv.step (hs : Inv s) {t : SpikeAbsorber cap ι} {e : Event ι}
    (hbound : s.claimed.length < 2 ^ 63) (hstep : s.step e = some t) :
    Inv t := by
  cases e with
  | absorb i blk =>
      obtain ⟨hidle, rfl⟩ := by simpa [SpikeAbsorber.step] using hstep
      have hload : s.ProducerOk (.load blk) := trivial
      exact hs.park (by rw [hidle]; rfl) rfl hload _ _
  | producer i => exact hs.producerStep hbound hstep
  | spurious i =>
      cases hpc : s.producer i with
      | claim blk pos =>
          obtain rfl := by simpa [SpikeAbsorber.step, hpc] using hstep
          have hnext : s.ProducerOk (.peek blk s.enqueuePos) := hs.enqueue.le
          exact hs.park (by rw [hpc]; rfl) rfl hnext _ _
      | _ => simp [SpikeAbsorber.step, hpc] at hstep
  | drain =>
      obtain ⟨hidle, rfl⟩ := by simpa [SpikeAbsorber.step] using hstep
      have hdrain := hs.consumer
      rw [hidle] at hdrain
      exact hs.drainMove rfl rfl rfl rfl
        (by simp [released, hidle, DrainPc.taken]) hdrain hs.order
  | consumer => exact hs.consumerStep hbound hstep

end Window

variable [DecidableEq ι]

/-! ### Runs -/

/-- What a step adds to the two histories: a won claim appends to the first,
the end of a `drain` to the second. -/
theorem step_histories {s t : SpikeAbsorber cap ι} {e : Event ι}
    (hstep : s.step e = some t) :
    t.claimed = s.claimed ∧ t.drained = s.drained ∨
      (∃ blk, t.claimed = s.claimed ++ [blk] ∧ t.drained = s.drained) ∨
      ∃ out, s.consumer = .deliver out ∧ t.claimed = s.claimed ∧
        t.drained = s.drained ++ [out] := by
  cases e with
  | absorb i blk =>
      obtain ⟨-, rfl⟩ := by simpa [SpikeAbsorber.step] using hstep
      exact .inl ⟨rfl, rfl⟩
  | producer i =>
      have hspec := producerStep_spec hstep
      rcases hspec.cases with ⟨hclaimed, -⟩ | ⟨blk, -, hclaimed, -⟩
      · exact .inl ⟨hclaimed, hspec.drained_eq⟩
      · exact .inr (.inl ⟨blk, hclaimed, hspec.drained_eq⟩)
  | spurious i =>
      cases hpc : s.producer i with
      | claim blk pos =>
          obtain rfl := by simpa [SpikeAbsorber.step, hpc] using hstep
          exact .inl ⟨rfl, rfl⟩
      | _ => simp [SpikeAbsorber.step, hpc] at hstep
  | drain =>
      obtain ⟨-, rfl⟩ := by simpa [SpikeAbsorber.step] using hstep
      exact .inl ⟨rfl, rfl⟩
  | consumer =>
      cases hpc : s.consumer with
      | idle => simp [SpikeAbsorber.step, consumerStep, hpc] at hstep
      | deliver out =>
          obtain rfl := by
            simpa [SpikeAbsorber.step, consumerStep, hpc] using hstep
          exact .inr (.inr ⟨out, rfl, rfl, rfl⟩)
      | _ =>
          obtain rfl := by
            simpa [SpikeAbsorber.step, consumerStep, hpc] using hstep
          exact .inl ⟨rfl, rfl⟩

/-- Claims are never taken back. -/
theorem claimed_prefix_of_step {s t : SpikeAbsorber cap ι} {e : Event ι}
    (hstep : s.step e = some t) : s.claimed <+: t.claimed := by
  rcases step_histories hstep with ⟨h, -⟩ | ⟨blk, h, -⟩ | ⟨out, -, h, -⟩
  · rw [h]
  · rw [h]
    exact List.prefix_append _ _
  · rw [h]

/-- Runs with fewer than `2 ^ 63` claims. -/
def Unwrapped (s : SpikeAbsorber cap ι) (_ : Event ι) : Prop :=
  s.claimed.length < 2 ^ 63

theorem unwrapped_of_reachable {start s : SpikeAbsorber cap ι}
    (hrun : Runs.Reachable step start s)
    (hbound : s.claimed.length < 2 ^ 63) :
    Runs.Reach step Unwrapped start s := by
  have hstrong := hrun.strengthen
    (P := fun s => s.claimed.length < 2 ^ 63)
    (fun s e t hstep ht => by
      have hle := (claimed_prefix_of_step hstep).length_le
      omega) hbound
  exact hstrong.recond fun _ _ _ h => h.2

theorem Inv.of_run {found : Fin cap.size → KVBlock} {s : SpikeAbsorber cap ι}
    (hrun : Runs.Reach SpikeAbsorber.step Unwrapped (init found) s) : Inv s :=
  hrun.invariant (inv_init found) fun _ _ _ hs hbound => hs.step hbound

/-- The absorber seen as a queue. -/
def log (s : SpikeAbsorber cap ι) : FifoLog KVBlock :=
  ⟨s.claimed, s.drained⟩

/-- **Refinement.**  Every step of the absorber is a push, a pop or nothing to
the queue. -/
theorem log_reachable {found : Fin cap.size → KVBlock}
    {s : SpikeAbsorber cap ι}
    (hrun : Runs.Reach step Unwrapped (init found) s) :
    Runs.Reachable FifoLog.step {} s.log := by
  refine hrun.simulate log (fun _ => Inv.of_run) ?_
  intro s e t hs _ hstep
  rcases step_histories hstep with ⟨hc, hd⟩ | ⟨blk, hc, hd⟩ | ⟨out, hpc, hc, hd⟩
  · left
    simp [log, hc, hd]
  · right
    exact ⟨.push blk, by simp [log, FifoLog.step, hc, hd]⟩
  · right
    refine ⟨.pop, ?_⟩
    have hdrain := hs.consumer
    rw [hpc] at hdrain
    rw [FifoLog.step_pop hdrain.2]
    simp [log, hc, hd]

/-- **A FIFO without loss or duplication.**  In every reachable state with fewer
than `2 ^ 63` claims: the drained blocks are a prefix of the claimed ones; a
position claimed and not released is in its slot, or its producer has not
published it yet; and the slot a producer is about to write holds no other
unreleased position. -/
theorem absorber_fifo {found : Fin cap.size → KVBlock}
    {s : SpikeAbsorber cap ι} (hrun : Runs.Reachable step (init found) s)
    (hbound : s.claimed.length < 2 ^ 63) :
    s.drained <+: s.claimed ∧
    (∀ q, s.released ≤ q → q < s.claimed.length →
      s.claimed[q]? = some (s.cell q).blk ∨
        ∃ i, (s.producer i).pending? = some q) ∧
    ∀ i blk pos, s.producer i = .write blk pos → ∀ q, s.released ≤ q →
      q < s.claimed.length → cap.turn q = cap.slotIndex pos →
        q = pos.toNat := by
  have hrun' := unwrapped_of_reachable hrun hbound
  have hs : Inv s := Inv.of_run hrun'
  refine ⟨FifoLog.popped_prefix (log_reachable hrun'), ?_, ?_⟩
  · intro q hq hq'
    exact (hs.used q hq hq').imp_left And.right
  · intro i blk pos hpc q hq hq' hturn
    have hpending : (s.producer i).pending? = some pos.toNat := by
      rw [hpc]
      rfl
    obtain ⟨hrel, hlt, -⟩ := hs.pending hpending
    have hroom := hs.room
    rw [cap.slotIndex_eq] at hturn
    exact Capacity.turn_injective hq (by omega) hrel (by omega) hturn

/-- A block with the given identifier. -/
def blockOf (blockId : UInt64) : KVBlock :=
  ⟨blockId, 0, 16, 0, 4096, 2, 0⟩

/-- Two producers race for position zero; the loser takes position one and is
stopped before it publishes, while the winner's block is drained. -/
def raceEvents : List (Event Bool) :=
  [.absorb false (blockOf 1), .absorb true (blockOf 2),
    .producer false, .producer true, .producer false, .producer true,
    .producer false, .producer true,
    .producer true, .producer true, .producer true,
    .producer false, .producer false, .producer false,
    .drain, .consumer, .consumer, .consumer, .consumer, .consumer, .consumer]

theorem absorber_fifo_race :
    ∃ s : SpikeAbsorber ⟨1, by decide, by decide⟩ Bool,
      Runs.Reachable step (init fun _ => blockOf 0) s ∧
      s.claimed = [blockOf 1, blockOf 2] ∧ s.drained = [blockOf 1] ∧
      s.drained <+: s.claimed := by
  obtain ⟨s, hrun, hclaimed, hdrained⟩ :
      ∃ s : SpikeAbsorber ⟨1, by decide, by decide⟩ Bool,
        Runs.Reachable step (init fun _ => blockOf 0) s ∧
        s.claimed = [blockOf 1, blockOf 2] ∧ s.drained = [blockOf 1] :=
    Runs.Reachable.exists_of_exec raceEvents (by decide +kernel)
  have hbound : s.claimed.length < 2 ^ 63 := by
    rw [hclaimed]
    decide
  exact ⟨s, hrun, hclaimed, hdrained, (absorber_fifo hrun hbound).1⟩

end SpikeAbsorber

end Tempo
