import Mathlib.Algebra.Order.Floor.Semiring
import Mathlib.Data.Fintype.EquivFin
import Mathlib.Data.Rat.Floor
import Mathlib.Data.Set.Lattice
import Tempo.NexusCoordinator

/-!
# Positions in one round

Every rank sorts its own copy of the gossiped loads and looks itself up.  The
copies are the same, so the positions are a permutation of the ranks
(`windows_tile`).  The copies hold the loads as `float32`: loads that differ by
less than that holds are taken for equal, and their ranks come in the order of
their numbers.
-/

namespace Tempo.NexusFleet

open BinaryRounding

variable {n : Nat} {fl : ℚ → ℚ} {fleet : NexusFleet n} {round : NexusRound n}

/-- Rank `rank` runs coordinator `rank`. -/
def Ranked (fleet : NexusFleet n) : Prop := ∀ rank, (fleet rank).rank = rank

/-- The loads as the slots of the gossip tensor hold them. -/
def slots (round : NexusRound n) : Fin n → WithTop ℚ := fun rank =>
  (round.loads rank).toFloat32

theorem peerLoads_computed (h : fleet.Ranked)
    (hloads : ∀ rank, 0 ≤ (round.loads rank).gbps) (rank : Fin n) :
    (fleet.computed fl round rank).2.peerLoads = slots round :=
  gossip_eq h hloads

theorem position_computed (h : fleet.Ranked)
    (hloads : ∀ rank, 0 ≤ (round.loads rank).gbps) (rank : Fin n) :
    (fleet.computed fl round rank).2.position =
      StableOrder.position (slots round) rank := by
  have hgossip : fleet.gossip round.loads = slots round := gossip_eq h hloads
  calc (fleet.computed fl round rank).2.position
      = StableOrder.position (fleet.gossip round.loads) (fleet rank).rank := rfl
    _ = StableOrder.position (slots round) rank := by rw [hgossip, h rank]

/-- The positions of all ranks, as a permutation. -/
noncomputable def positions (round : NexusRound n) : Equiv.Perm (Fin n) :=
  Equiv.ofBijective
    (fun rank => ⟨StableOrder.position (slots round) rank,
      StableOrder.position_lt _ _⟩)
    (Finite.injective_iff_bijective.mp fun _ _ h =>
      StableOrder.position_injective _ (Fin.val_eq_of_eq h))

theorem positions_val (rank : Fin n) :
    (positions round rank : Nat) =
      StableOrder.position (slots round) rank := rfl

theorem positions_lt_iff (a b : Fin n) :
    positions round a < positions round b ↔
      slots round a < slots round b ∨ slots round a = slots round b ∧ a < b := by
  rw [Fin.lt_def, positions_val, positions_val]
  exact StableOrder.position_lt_iff _ a b

/-- A rank comes after one with a larger load only if both loads are one
`float32`. -/
theorem slots_eq_of_inverted (hloads : ∀ rank, 0 ≤ (round.loads rank).gbps)
    {a b : Fin n} (hload : (round.loads a).gbps < (round.loads b).gbps)
    (hpos : positions round b < positions round a) :
    slots round a = slots round b := by
  have hle : slots round a ≤ slots round b :=
    NicLoad.toFloat32_mono (hloads a) hload.le
  rcases (positions_lt_iff b a).mp hpos with hlt | ⟨heq, -⟩
  · exact absurd hle (not_le.mpr hlt)
  · exact heq.symm

theorem slotStart_id (w : ℚ) (p : Nat) : slotStart id w p = p * w := by
  simp [slotStart]

/-- Slots of one length at the numbers below `n` leave no gap. -/
theorem iUnion_slots {w : ℚ} (hw : 0 < w) (position : Equiv.Perm (Fin n)) :
    ⋃ rank, Set.Ico ((position rank : Nat) * w) ((position rank : Nat) * w + w) =
      Set.Ico 0 (n * w) := by
  ext x
  simp only [Set.mem_iUnion, Set.mem_Ico]
  constructor
  · rintro ⟨rank, hstart, hend⟩
    have hfirst : (0 : ℚ) ≤ (position rank : Nat) * w :=
      mul_nonneg (Nat.cast_nonneg _) hw.le
    have hlast : ((position rank : Nat) + 1 : ℚ) * w ≤ n * w := by
      refine mul_le_mul_of_nonneg_right ?_ hw.le
      exact_mod_cast (position rank).isLt
    constructor
    · exact hfirst.trans hstart
    · linarith
  · rintro ⟨hstart, hend⟩
    -- the slot that `x` falls into
    have hnonneg : 0 ≤ x / w := div_nonneg hstart hw.le
    have hslot : ⌊x / w⌋₊ < n :=
      (Nat.floor_lt hnonneg).mpr ((div_lt_iff₀ hw).mpr hend)
    refine ⟨position.symm ⟨_, hslot⟩, ?_⟩
    rw [Equiv.apply_symm_apply]
    have hbelow : (⌊x / w⌋₊ : ℚ) * w ≤ x :=
      (le_div_iff₀ hw).mp (Nat.floor_le hnonneg)
    have habove : x < (⌊x / w⌋₊ + 1 : ℚ) * w :=
      (div_lt_iff₀ hw).mp (Nat.lt_floor_add_one _)
    exact ⟨hbelow, by linarith⟩

/-- **The ranks agree on the windows.**  All hold the same loads, the given ones
as `float32`; their positions are a permutation that sorts the ranks by these,
and with one positive average and no overlap the windows follow each other
without a gap, in exact arithmetic. -/
theorem windows_tile (fl : ℚ → ℚ) (h : fleet.Ranked)
    (hloads : ∀ rank, 0 ≤ (round.loads rank).gbps) :
    (∀ rank, (fleet.computed fl round rank).2.peerLoads =
      fun rank => (round.loads rank).toFloat32) ∧
    (∃ position : Equiv.Perm (Fin n),
      (∀ rank, (fleet.computed fl round rank).2.position = position rank) ∧
      (∀ a b, position a < position b ↔
        (round.loads a).toFloat32 < (round.loads b).toFloat32 ∨
          (round.loads a).toFloat32 = (round.loads b).toFloat32 ∧ a < b) ∧
      ∀ a b, (round.loads a).gbps < (round.loads b).gbps →
        position b < position a →
          (round.loads a).toFloat32 = (round.loads b).toFloat32) ∧
    ∀ w, 0 < w →
      (∀ rank, (fleet rank).windowMsEma = w ∧ (fleet rank).overlapFrac = 0) →
        ⋃ rank, (fleet.computed id round rank).2.interval = Set.Ico 0 (n * w) ∧
          fleet.Staggered id round := by
  refine ⟨peerLoads_computed h hloads, ⟨positions round, ?_, ?_, ?_⟩, ?_⟩
  · exact fun rank => position_computed h hloads rank
  · exact positions_lt_iff
  · exact fun a b => slots_eq_of_inverted hloads
  · intro w hw hcommon
    have hlined : fleet.Lined := fun rank => ⟨h rank, (hcommon rank).2⟩
    have hround : fleet.Rounded id := fun _ => rfl
    have hestimates : ∀ rank, fleet.estimates rank = w := fun rank =>
      (hcommon rank).1
    have hinterval : ∀ rank, (fleet.computed id round rank).2.interval =
        Set.Ico ((positions round rank : Nat) * w)
          ((positions round rank : Nat) * w + w) := by
      intro rank
      have hgossip : fleet.gossip round.loads = slots round := gossip_eq h hloads
      rw [interval_computed isRounding_id hlined hround, slotStart_id, hestimates, hgossip,
        positions_val]
    constructor
    · rw [Set.iUnion_congr hinterval]
      exact iUnion_slots hw _
    · refine staggered_of_spaced isRounding_id hlined hround fun a b _ _ _ => ?_
      rw [hestimates, hestimates]
      refine ⟨rfl, fun p _ => ?_⟩
      rw [slotStart_id, slotStart_id]
      push_cast
      linarith

theorem abs_one_le_float32Max : |(1 : ℚ)| ≤ float32Max := by
  decide +kernel

/-- Rank 0 has a load just above that of rank 1. -/
def closeRound : NexusRound 2 :=
  { step := 0
    loads := fun rank =>
      if rank.val = 0 then .finite (1 + 1 / 2 ^ 30) (by decide +kernel)
      else .finite 1 abs_one_le_float32Max
    elapsed := fun _ => 1 }

/-- Both loads are gossiped as 1, and rank 0 comes first. -/
theorem close_loads_inverted :
    ((init binary64.round 2 200).computed binary64.round closeRound 0).2.peerLoads 0 ≠
        (closeRound.loads 0).gbps ∧
      (closeRound.loads 1).gbps < (closeRound.loads 0).gbps ∧
      ((init binary64.round 2 200).computed binary64.round closeRound 0).2.position <
        ((init binary64.round 2 200).computed binary64.round closeRound 1).2.position := by
  decide +kernel

/-- Three ranks at 4, 1 and 3 GB/s. -/
def unevenRound : NexusRound 3 :=
  { step := 0
    loads := fun rank =>
      if rank.val = 0 then .finite 4 (by decide +kernel)
      else if rank.val = 1 then .finite 1 abs_one_le_float32Max
      else .finite 3 (by decide +kernel)
    elapsed := fun _ => 1 }

/-- They come last, first and second. -/
theorem windows_tile_uneven :
    (∃ position : Equiv.Perm (Fin 3),
      (∀ rank, ((init binary64.round 3 200).computed binary64.round unevenRound
        rank).2.position = position rank) ∧
      position 0 = 2 ∧ position 1 = 0 ∧ position 2 = 1) ∧
    ⋃ rank, ((init id 3 200).computed id unevenRound rank).2.interval =
      Set.Ico 0 600 := by
  have hloads : ∀ rank, 0 ≤ (unevenRound.loads rank).gbps := by decide +kernel
  have hranked : ∀ fl, Ranked (init fl 3 200) := fun _ _ => rfl
  obtain ⟨position, hposition, -⟩ :=
    (windows_tile binary64.round (hranked binary64.round) hloads).2.1
  have htile := ((windows_tile id (hranked id) hloads).2.2 200 (by norm_num)
    fun _ => ⟨rfl, rfl⟩).1
  refine ⟨⟨position, hposition, ?_, ?_, ?_⟩, ?_⟩
  · exact Fin.ext ((hposition 0).symm.trans (by decide +kernel))
  · exact Fin.ext ((hposition 1).symm.trans (by decide +kernel))
  · exact Fin.ext ((hposition 2).symm.trans (by decide +kernel))
  · rw [htile]
    norm_num

end Tempo.NexusFleet
