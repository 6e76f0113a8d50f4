import Mathlib.Algebra.Order.Ring.Int
import Mathlib.Data.Int.ConditionallyCompleteOrder
import Mathlib.Order.CompletePartialOrder
import Mathlib.Order.ConditionallyCompleteLattice.Basic
import Mathlib.Order.Interval.Set.Disjoint
import Mathlib.Order.Interval.Set.LinearOrder
import Tempo.PacingDaemon

/-!
# Where blocks land in the file

`flush_block` writes a block at 4096 times its identifier.  The product wraps, so
that only the identifier modulo 2^52, its page, counts, and pages from 2^51 on
are negative offsets; the length is cut to 32 bits; and nothing keeps a block to
its page.
-/

namespace Tempo

/-- The bytes of the file that the submission covers. -/
def WriteSqe.range (w : WriteSqe) : Set Int :=
  Set.Ico w.offset.toInt (w.offset.toInt + w.nbytes.toNat)

namespace KVBlock

/-- The identifier, up to the wrap of the offset. -/
def page (blk : KVBlock) : Nat :=
  blk.blockId.toNat % 2 ^ 52

/-- The pages that the block needs. -/
def pages (blk : KVBlock) : Nat :=
  (blk.sizeBytes.toNat + 4095) / 4096

/-- The block that `tempo_absorb` hands to the absorber of its engine, if it
hands one. -/
def tempoAbsorb (blockId hostPtr sizeBytes : UInt64) : Option KVBlock :=
  if hostPtr = 0 ∨ sizeBytes = 0 then none
  else some
    { blockId
      layerIdx := 0
      numTokens := 0
      hostPtr
      sizeBytes
      dstTier := 0
      pad := 0 }

def Accepted (blk : KVBlock) : Prop :=
  ∃ blockId hostPtr sizeBytes, tempoAbsorb blockId hostPtr sizeBytes = some blk

/-- The write covers the block, at an offset in the file. -/
def Covered (blk : KVBlock) : Prop :=
  0 ≤ (prepWrite blk).offset.toInt ∧
    (prepWrite blk).range = Set.Ico (prepWrite blk).offset.toInt
      ((prepWrite blk).offset.toInt + blk.sizeBytes.toNat)

variable {blk blk' : KVBlock}

theorem Accepted.size_ne (h : blk.Accepted) : blk.sizeBytes ≠ 0 := by
  obtain ⟨blockId, hostPtr, sizeBytes, hsome⟩ := h
  unfold tempoAbsorb at hsome
  split at hsome
  · cases hsome
  · next hgiven =>
      obtain rfl := Option.some.inj hsome
      exact fun hzero => hgiven (.inr hzero)

theorem offset_toInt : (prepWrite blk).offset.toInt =
    if blk.page < 2 ^ 51 then 4096 * (blk.page : Int)
    else 4096 * (blk.page : Int) - 2 ^ 64 := by
  have hid : blk.blockId.toInt64.toInt =
      (blk.blockId.toNat : Int).bmod (2 ^ 64) :=
    BitVec.toInt_eq_toNat_bmod _
  have hstride : (4096 : Int64).toInt = 4096 := rfl
  have hmul : (prepWrite blk).offset.toInt =
      ((blk.blockId.toNat : Int) * 4096).bmod (2 ^ 64) := by
    unfold prepWrite
    rw [Int64.toInt_mul, hid, hstride, Int.bmod_mul_bmod]
  have hlt := blk.blockId.toNat_lt
  rw [hmul, Int.bmod_def, page]
  split <;> omega

theorem offset_nonneg_iff :
    0 ≤ (prepWrite blk).offset.toInt ↔ blk.page < 2 ^ 51 := by
  have hlt : blk.page < 2 ^ 52 := Nat.mod_lt _ (by decide)
  rw [offset_toInt]
  split <;> omega

theorem nbytes_toNat :
    (prepWrite blk).nbytes.toNat = blk.sizeBytes.toNat % 2 ^ 32 :=
  UInt64.toNat_toUInt32 _

/-- The length is kept below 4 GiB. -/
theorem covers_iff (hsize : blk.sizeBytes ≠ 0) :
    (prepWrite blk).range = Set.Ico (prepWrite blk).offset.toInt
        ((prepWrite blk).offset.toInt + blk.sizeBytes.toNat) ↔
      blk.sizeBytes.toNat < 2 ^ 32 := by
  have hpos : 0 < blk.sizeBytes.toNat := UInt64.pos_iff_ne_zero.mpr hsize
  constructor
  · intro heq
    have hend : (prepWrite blk).offset.toInt + blk.sizeBytes.toNat - 1 ∈
        (prepWrite blk).range := by
      rw [heq, Set.mem_Ico]
      omega
    have hless := (Set.mem_Ico.mp hend).2
    rw [nbytes_toNat] at hless
    have hmod := Nat.mod_lt blk.sizeBytes.toNat (show 2 ^ 32 > 0 by decide)
    omega
  · intro hlt
    unfold WriteSqe.range
    rw [nbytes_toNat, Nat.mod_eq_of_lt hlt]

theorem covered_iff (hsize : blk.sizeBytes ≠ 0) :
    blk.Covered ↔ blk.page < 2 ^ 51 ∧ blk.sizeBytes.toNat < 2 ^ 32 :=
  and_congr offset_nonneg_iff (covers_iff hsize)

/-- Two blocks that are covered are kept apart exactly when the one on the lower
page ends before the other begins. -/
theorem disjoint_iff (hsize : blk.sizeBytes ≠ 0) (hsize' : blk'.sizeBytes ≠ 0)
    (h : blk.Covered) (h' : blk'.Covered) :
    Disjoint (prepWrite blk).range (prepWrite blk').range ↔
      blk.page + blk.pages ≤ blk'.page ∨ blk'.page + blk'.pages ≤ blk.page := by
  have hpos : 0 < blk.sizeBytes.toNat := UInt64.pos_iff_ne_zero.mpr hsize
  have hpos' : 0 < blk'.sizeBytes.toNat := UInt64.pos_iff_ne_zero.mpr hsize'
  have hpage := ((covered_iff hsize).mp h).1
  have hpage' := ((covered_iff hsize').mp h').1
  rw [h.2, h'.2, Set.Ico_disjoint_Ico, offset_toInt, offset_toInt, if_pos hpage,
    if_pos hpage']
  unfold pages
  omega

/-- **Where the blocks of a set are kept apart.**  Each is on a page below 2^51
and shorter than 4 GiB, and of two with different identifiers one ends before
the page of the other. -/
theorem blocks_apart_iff (blocks : Set KVBlock)
    (haccepted : ∀ blk ∈ blocks, blk.Accepted) :
    ((∀ blk ∈ blocks, blk.Covered) ∧
      ∀ blk ∈ blocks, ∀ blk' ∈ blocks, blk.blockId ≠ blk'.blockId →
        Disjoint (prepWrite blk).range (prepWrite blk').range) ↔
    (∀ blk ∈ blocks, blk.page < 2 ^ 51 ∧ blk.sizeBytes.toNat < 2 ^ 32) ∧
      ∀ blk ∈ blocks, ∀ blk' ∈ blocks, blk.blockId ≠ blk'.blockId →
        blk.page + blk.pages ≤ blk'.page ∨ blk'.page + blk'.pages ≤ blk.page := by
  have hcovered : (∀ blk ∈ blocks, blk.Covered) ↔
      ∀ blk ∈ blocks, blk.page < 2 ^ 51 ∧ blk.sizeBytes.toNat < 2 ^ 32 :=
    forall₂_congr fun blk hblk => covered_iff (haccepted blk hblk).size_ne
  rw [← hcovered]
  refine and_congr_right fun h => forall₂_congr fun blk hblk =>
    forall₃_congr fun blk' hblk' _ => ?_
  exact disjoint_iff (haccepted blk hblk).size_ne (haccepted blk' hblk').size_ne
    (h blk hblk) (h blk' hblk')

/-- A block of this size. -/
def sized (blockId sizeBytes : UInt64) : KVBlock :=
  { blockId, layerIdx := 0, numTokens := 0, hostPtr := 1, sizeBytes, dstTier := 0,
    pad := 0 }

/-- A block of two pages runs into the next one. -/
theorem blocks_overlap :
    ¬ ∀ blocks : Set KVBlock, (∀ blk ∈ blocks, blk.Accepted) →
      (∀ blk ∈ blocks, blk.Covered) ∧
      ∀ blk ∈ blocks, ∀ blk' ∈ blocks, blk.blockId ≠ blk'.blockId →
        Disjoint (prepWrite blk).range (prepWrite blk').range := by
  intro hall
  have haccepted : ∀ blk ∈ ({sized 0 8192, sized 1 4096} : Set KVBlock),
      blk.Accepted := by
    rintro blk (rfl | rfl)
    · exact ⟨0, 1, 8192, rfl⟩
    · exact ⟨1, 1, 4096, rfl⟩
  have hapart := (hall _ haccepted).2 (sized 0 8192) (.inl rfl) (sized 1 4096)
    (.inr rfl) (by decide)
  have hshared : (4096 : Int) ∈ (prepWrite (sized 0 8192)).range ∧
      (4096 : Int) ∈ (prepWrite (sized 1 4096)).range :=
    ⟨⟨by decide, by decide⟩, ⟨by decide, by decide⟩⟩
  exact Set.disjoint_left.mp hapart hshared.1 hshared.2

/-- A block of a page and one of two pages behind it. -/
theorem blocks_apart_iff_two :
    (∀ blk ∈ ({sized 0 4096, sized 1 8192} : Set KVBlock), blk.Covered) ∧
      ∀ blk ∈ ({sized 0 4096, sized 1 8192} : Set KVBlock),
        ∀ blk' ∈ ({sized 0 4096, sized 1 8192} : Set KVBlock),
          blk.blockId ≠ blk'.blockId →
            Disjoint (prepWrite blk).range (prepWrite blk').range := by
  refine (blocks_apart_iff {sized 0 4096, sized 1 8192} ?_).mpr ⟨?_, ?_⟩
  · rintro blk (rfl | rfl)
    · exact ⟨0, 1, 4096, rfl⟩
    · exact ⟨1, 1, 8192, rfl⟩
  · rintro blk (rfl | rfl)
    · decide
    · decide
  · rintro blk (rfl | rfl) blk' (rfl | rfl) hne
    · exact absurd rfl hne
    · decide
    · decide
    · exact absurd rfl hne

end KVBlock

end Tempo
