import Mathlib.Algebra.Order.Field.Rat
import Mathlib.Data.Finset.Lattice.Fold
import Mathlib.Data.Fintype.Card
import Mathlib.Order.CompletePartialOrder
import Mathlib.Order.Interval.Set.Disjoint
import Mathlib.Tactic.Linarith
import Mathlib.Tactic.NormNum
import Tempo.BinaryRounding
import Tempo.Runs
import Tempo.StableOrder

/-!
# Checkpoint windows of the ranks

At a checkpoint every rank gossips its NIC load, sorts the ranks by load and
waits for its position times its own moving average of flush times.  The
positions agree between the ranks; the averages are updated from each rank's
own timings and are never exchanged.  So the windows are disjoint for all loads
exactly while the averages agree, and a rounded delay does not reach into the
slot before (`windows_disjoint_iff`).

The gossip tensor has the type `float32`, so a load is rounded when a rank fills
its slot.  The results of other floating-point operations are rounded by `fl`:
that is `binary64.round` in the code, and `id` in exact arithmetic.  The
micro-gates of the layers are in `Tempo.LayerGates`.
-/

namespace Tempo

open BinaryRounding

/-- `_MIN_WINDOW_MS`. -/
def minWindowMs : ℚ := 50

/-- `_MAX_WINDOW_MS`. -/
def maxWindowMs : ℚ := 2000

/-- `_EMA_ALPHA`. -/
def emaAlpha : ℚ := 1 / 4

/-- The largest finite `float32`. -/
def float32Max : ℚ := (2 ^ 24 - 1) * 2 ^ 104

/-- A load that can be assigned to a `float32` slot.  A finite one beyond the
largest `float32` raises. -/
inductive NicLoad
  | finite (gbps : ℚ) (le_max : |gbps| ≤ float32Max)
  | infinite

namespace NicLoad

def gbps : NicLoad → WithTop ℚ
  | .finite x _ => x
  | .infinite => ⊤

/-- What the slot holds after the assignment. -/
def toFloat32 : NicLoad → WithTop ℚ
  | .finite x _ => (binary32.round x : ℚ)
  | .infinite => ⊤

instance : Zero NicLoad := ⟨.finite 0 (by decide +kernel)⟩

@[simp] theorem toFloat32_zero : toFloat32 0 = 0 :=
  congrArg WithTop.some (binary32.round_zero (K := ℚ))

/-- The assignment keeps the order of the loads. -/
theorem toFloat32_mono {a b : NicLoad} (ha : 0 ≤ a.gbps)
    (hab : a.gbps ≤ b.gbps) : a.toFloat32 ≤ b.toFloat32 := by
  cases b with
  | infinite => exact le_top
  | finite y _ =>
      cases a with
      | infinite => exact absurd (top_le_iff.mp hab) (WithTop.coe_ne_top)
      | finite x _ =>
          have hx : 0 ≤ x := WithTop.coe_le_coe.mp ha
          have hxy : x ≤ y := WithTop.coe_le_coe.mp hab
          exact WithTop.coe_le_coe.mpr
            (binary32.round_mono (by decide) hx hxy)

theorem toFloat32_nonneg {a : NicLoad} (ha : 0 ≤ a.gbps) : 0 ≤ a.toFloat32 := by
  rw [← toFloat32_zero]
  exact toFloat32_mono (le_refl _) ha

end NicLoad

structure CheckpointWindow (worldSize : Nat) where
  rank : Fin worldSize
  step : Int
  delaySeconds : ℚ
  windowMs : ℚ
  myLoadGbps : NicLoad
  peerLoads : Fin worldSize → WithTop ℚ
  position : Nat

/-- The milliseconds the window takes, from its delay on. -/
def CheckpointWindow.interval {worldSize : Nat}
    (win : CheckpointWindow worldSize) : Set ℚ :=
  Set.Ico (win.delaySeconds * 1000) (win.delaySeconds * 1000 + win.windowMs)

structure NexusCoordinator (worldSize : Nat) where
  rank : Fin worldSize
  windowMsEma : ℚ
  overlapFrac : ℚ := 0
  /-- In milliseconds. -/
  flushTimes : List ℚ := []
  gossipTensor : Fin worldSize → WithTop ℚ := fun _ => 0

namespace NexusCoordinator

variable {worldSize : Nat} (fl : ℚ → ℚ)

/-- The tensor before the gossip: a rank fills its own slot. -/
def fillGossip (nexus : NexusCoordinator worldSize) (myBwGbps : NicLoad) :
    NexusCoordinator worldSize :=
  { nexus with
    gossipTensor :=
      Function.update (fun _ => 0) nexus.rank myBwGbps.toFloat32 }

/-- The last part of `compute_window`: the window, from the gossiped loads. -/
def assignWindow (nexus : NexusCoordinator worldSize) (step : Int)
    (myBwGbps : NicLoad) : CheckpointWindow worldSize :=
  let position := StableOrder.position nexus.gossipTensor nexus.rank
  let slotMs := fl (nexus.windowMsEma * fl (1 - nexus.overlapFrac))
  let delayMs := fl (fl position * slotMs)
  { rank := nexus.rank
    step
    delaySeconds := fl (delayMs / 1000)
    windowMs := nexus.windowMsEma
    myLoadGbps := myBwGbps
    peerLoads := nexus.gossipTensor
    position }

/-- `compute_window`: `reduced` is the tensor after a successful `all_reduce`,
and `nmGbps` what the network monitor reports. -/
def computeWindow (nexus : NexusCoordinator worldSize) (step : Int)
    (myBwGbps nmGbps : Option NicLoad)
    (reduced : Option (Fin worldSize → WithTop ℚ)) :
    NexusCoordinator worldSize × CheckpointWindow worldSize :=
  let load := myBwGbps.getD (nmGbps.getD 0)
  let filled := nexus.fillGossip load
  let gossiped :=
    { filled with gossipTensor := reduced.getD filled.gossipTensor }
  (gossiped, gossiped.assignWindow fl step load)

/-- The elapsed time in milliseconds, clamped. -/
def clampedMs (elapsedSeconds : ℚ) : ℚ :=
  max minWindowMs (min maxWindowMs (fl (elapsedSeconds * 1000)))

def recordFlushTime (nexus : NexusCoordinator worldSize) (elapsedSeconds : ℚ) :
    NexusCoordinator worldSize :=
  { nexus with
    windowMsEma := fl (fl (emaAlpha * clampedMs fl elapsedSeconds) +
      fl (fl (1 - emaAlpha) * nexus.windowMsEma))
    flushTimes := nexus.flushTimes ++ [fl (elapsedSeconds * 1000)] }

/-- `all_reduce` with `ReduceOp.MAX` of one tensor a rank. -/
def maxReduce (tensors : Fin worldSize → Fin worldSize → WithTop ℚ) :
    Fin worldSize → WithTop ℚ := fun slot =>
  Finset.univ.sup' ⟨slot, Finset.mem_univ slot⟩ fun rank => tensors rank slot

end NexusCoordinator

/-- What one round takes from outside: each rank's measured load, and the time
its flush takes, in seconds. -/
structure NexusRound (worldSize : Nat) where
  step : Int
  loads : Fin worldSize → NicLoad
  elapsed : Fin worldSize → ℚ

/-- The coordinators of all ranks. -/
def NexusFleet (worldSize : Nat) : Type :=
  Fin worldSize → NexusCoordinator worldSize

namespace NexusFleet

open NexusCoordinator

variable {n : Nat} (fl : ℚ → ℚ) {fleet : NexusFleet n} {round : NexusRound n}
  {w : Fin n → ℚ} {elapsed : Fin n → ℚ}

/-- New coordinators with one base window and no overlap. -/
def init (n : Nat) (baseWindowMs : ℚ) : NexusFleet n := fun rank =>
  { rank, windowMsEma := fl baseWindowMs }

/-- The loads as gossiped. -/
def gossip (fleet : NexusFleet n) (loads : Fin n → NicLoad) :
    Fin n → WithTop ℚ :=
  maxReduce fun rank => ((fleet rank).fillGossip (loads rank)).gossipTensor

/-- Every rank calls `compute_window`. -/
def computed (fleet : NexusFleet n) (round : NexusRound n) (rank : Fin n) :
    NexusCoordinator n × CheckpointWindow n :=
  (fleet rank).computeWindow fl round.step (some (round.loads rank)) none
    (some (fleet.gossip round.loads))

/-- A round: the windows are computed, then every rank records its flush. -/
def runRound (fleet : NexusFleet n) (round : NexusRound n) :
    Option (NexusFleet n) :=
  some fun rank =>
    (fleet.computed fl round rank).1.recordFlushTime fl (round.elapsed rank)

/-- The windows of distinct ranks do not overlap in this round. -/
def Staggered (fleet : NexusFleet n) (round : NexusRound n) : Prop :=
  Pairwise fun a b => Disjoint (fleet.computed fl round a).2.interval
    (fleet.computed fl round b).2.interval

/-- Every coordinator has its own rank and no overlap. -/
def Lined (fleet : NexusFleet n) : Prop :=
  ∀ rank, (fleet rank).rank = rank ∧ (fleet rank).overlapFrac = 0

/-- The ranks' moving averages. -/
def estimates (fleet : NexusFleet n) : Fin n → ℚ := fun rank =>
  (fleet rank).windowMsEma

/-- The averages after one recorded flush a rank. -/
def learn (w : Fin n → ℚ) (elapsed : Fin n → ℚ) : Option (Fin n → ℚ) :=
  some fun rank =>
    fl (fl (emaAlpha * clampedMs fl (elapsed rank)) + fl (fl (1 - emaAlpha) * w rank))

/-- Where the slot at a position begins, in milliseconds. -/
def slotStart (w : ℚ) (p : Nat) : ℚ := fl (fl (fl p * w) / 1000) * 1000

/-- Ranks whose windows are not empty have windows of one length, and every slot of
that length ends before the next begins. -/
def Spaced (w : Fin n → ℚ) : Prop :=
  ∀ a b, a ≠ b → 0 < w a → 0 < w b →
    w a = w b ∧ ∀ p, p < n - 1 → slotStart fl (w a) p + w a ≤ slotStart fl (w a) (p + 1)

instance (w : Fin n → ℚ) : Decidable (Spaced fl w) := by
  unfold Spaced
  infer_instance

/-- The averages are numbers that need no rounding. -/
def Rounded (fleet : NexusFleet n) : Prop :=
  ∀ rank, fl (fleet.estimates rank) = fleet.estimates rank

variable {fl}

theorem lined_init (n : Nat) (base : ℚ) : (init fl n base).Lined :=
  fun _ => ⟨rfl, rfl⟩

theorem Lined.runRound {after : NexusFleet n} (h : fleet.Lined)
    (hrun : fleet.runRound fl round = some after) : after.Lined := by
  obtain rfl := Option.some.inj hrun
  exact h

theorem Rounded.runRound {after : NexusFleet n} (hfl : ∀ x, fl (fl x) = fl x)
    (hrun : fleet.runRound fl round = some after) : after.Rounded fl := by
  obtain rfl := Option.some.inj hrun
  exact fun _ => hfl _

theorem learn_estimates {after : NexusFleet n}
    (hrun : fleet.runRound fl round = some after) :
    learn fl fleet.estimates round.elapsed = some after.estimates := by
  obtain rfl := Option.some.inj hrun
  rfl

/-- The gossip spreads the loads as the slots hold them. -/
theorem gossip_eq (hranks : ∀ rank, (fleet rank).rank = rank)
    {loads : Fin n → NicLoad} (hloads : ∀ rank, 0 ≤ (loads rank).gbps) :
    fleet.gossip loads = fun rank => (loads rank).toFloat32 := by
  funext slot
  have hentry : ∀ rank, ((fleet rank).fillGossip (loads rank)).gossipTensor slot
      = if slot = rank then (loads slot).toFloat32 else 0 := by
    intro rank
    unfold fillGossip
    dsimp only
    rw [hranks rank, Function.update_apply]
    by_cases hslot : slot = rank
    · rw [if_pos hslot, if_pos hslot, hslot]
    · rw [if_neg hslot, if_neg hslot]
  unfold gossip maxReduce
  simp only [hentry]
  apply le_antisymm
  · refine Finset.sup'_le _ _ fun rank _ => ?_
    split
    · exact le_refl _
    · exact NicLoad.toFloat32_nonneg (hloads slot)
  · have hself := Finset.le_sup' (fun rank => if slot = rank then
      (loads slot).toFloat32 else 0) (Finset.mem_univ slot)
    rwa [if_pos rfl] at hself

/-- The window of a rank is its average long, from the slot at its position on. -/
theorem interval_computed (hfl : IsRounding fl) (h : fleet.Lined) (hround : fleet.Rounded fl)
    (rank : Fin n) :
    (fleet.computed fl round rank).2.interval =
      Set.Ico
        (slotStart fl (fleet.estimates rank)
          (StableOrder.position (fleet.gossip round.loads) rank))
        (slotStart fl (fleet.estimates rank)
          (StableOrder.position (fleet.gossip round.loads) rank) +
            fleet.estimates rank) := by
  obtain ⟨hrank, hoverlap⟩ := h rank
  have hslot := hround rank
  unfold estimates at hslot
  unfold computed computeWindow assignWindow fillGossip CheckpointWindow.interval
    slotStart estimates
  dsimp only
  rw [hrank, hoverlap, sub_zero, hfl.map_one, mul_one, hslot, Option.getD_some]

theorem slotStart_zero (hfl : IsRounding fl) (w : ℚ) : slotStart fl w 0 = 0 := by
  simp [slotStart, hfl.map_zero]

theorem slotStart_one (hfl : IsRounding fl) {w : ℚ} (hw : fl w = w) :
    slotStart fl w 1 = fl (w / 1000) * 1000 := by
  simp [slotStart, hfl.map_one, hw]

theorem slotStart_mono (hfl : IsRounding fl) {w : ℚ} (hw : 0 ≤ w) :
    Monotone (slotStart fl w) := by
  intro p q hpq
  have hcast : fl p ≤ fl q := hfl.mono (Nat.cast_nonneg p) (by exact_mod_cast hpq)
  have hzero : 0 ≤ fl p := hfl.nonneg (Nat.cast_nonneg p)
  have hdelay : fl (fl p * w) ≤ fl (fl q * w) :=
    hfl.mono (mul_nonneg hzero hw) (mul_le_mul_of_nonneg_right hcast hw)
  have hdelay' : 0 ≤ fl (fl p * w) := hfl.nonneg (mul_nonneg hzero hw)
  unfold slotStart
  refine mul_le_mul_of_nonneg_right (hfl.mono (by positivity) ?_) (by norm_num)
  exact div_le_div_of_nonneg_right hdelay (by norm_num)

theorem disjoint_Ico_of_le {s t v w : ℚ} (h : t ≤ v) :
    Disjoint (Set.Ico s t) (Set.Ico v w) :=
  Set.disjoint_left.mpr fun _ hx hx' => (hx.2.trans_le h).not_ge hx'.1

/-- Averages that agree on slots keep the windows apart, whatever the loads. -/
theorem staggered_of_spaced (hfl : IsRounding fl) (h : fleet.Lined)
    (hround : fleet.Rounded fl) (hspaced : Spaced fl fleet.estimates) :
    fleet.Staggered fl round := by
  intro a b hab
  rw [interval_computed hfl h hround, interval_computed hfl h hround]
  rcases le_or_gt (fleet.estimates a) 0 with ha | ha
  · rw [Set.Ico_eq_empty (by linarith)]
    exact Set.empty_disjoint _
  rcases le_or_gt (fleet.estimates b) 0 with hb | hb
  · rw [Set.Ico_eq_empty (a := slotStart fl (fleet.estimates b) _) (by linarith)]
    exact Set.disjoint_empty _
  obtain ⟨heq, hslots⟩ := hspaced a b hab ha hb
  rw [← heq]
  have happart : ∀ {p q : Nat}, p < q → q < n →
      slotStart fl (fleet.estimates a) p + fleet.estimates a ≤
        slotStart fl (fleet.estimates a) q := fun {p q} hpq hq =>
    (hslots p (by omega)).trans (slotStart_mono hfl ha.le hpq)
  have hne := (StableOrder.position_injective
    (fleet.gossip round.loads)).ne hab
  rcases Nat.lt_or_gt_of_ne hne with hlt | hgt
  · exact disjoint_Ico_of_le (happart hlt (StableOrder.position_lt _ _))
  · exact (disjoint_Ico_of_le (happart hgt (StableOrder.position_lt _ _))).symm

section Loads

variable {first : Finset (Fin n)} {a b : Fin n}

/-- The ranks in `first` are least loaded, `a` is next and `b` after it. -/
def loadsFor (first : Finset (Fin n)) (a b : Fin n) : Fin n → NicLoad := fun rank =>
  if rank ∈ first then 0
  else if rank = a then .finite 1 (by decide +kernel)
  else if rank = b then .finite 2 (by decide +kernel)
  else .infinite

theorem gbps_loadsFor (rank : Fin n) : 0 ≤ (loadsFor first a b rank).gbps := by
  unfold loadsFor
  split
  · exact le_refl _
  · split
    · exact WithTop.coe_le_coe.mpr zero_le_one
    · split
      · exact WithTop.coe_le_coe.mpr zero_le_two
      · exact le_top

/-- The loads as the slots hold them. -/
def slotsFor (first : Finset (Fin n)) (a b : Fin n) : Fin n → WithTop ℚ := fun rank =>
  if rank ∈ first then 0
  else if rank = a then 1
  else if rank = b then (2 : ℚ)
  else ⊤

theorem toFloat32_loadsFor :
    (fun rank => (loadsFor first a b rank).toFloat32) = slotsFor first a b := by
  funext rank
  unfold loadsFor slotsFor
  split
  · exact NicLoad.toFloat32_zero
  · split
    · exact congrArg WithTop.some (show binary32.round (1 : ℚ) = 1 by decide +kernel)
    · split
      · exact congrArg WithTop.some (show binary32.round (2 : ℚ) = 2 by decide +kernel)
      · rfl

/-- Two ranks can come at any two positions in a row. -/
theorem position_slotsFor (hab : a ≠ b) (ha : a ∉ first) (hb : b ∉ first) :
    StableOrder.position (slotsFor first a b) a = first.card ∧
      StableOrder.position (slotsFor first a b) b = first.card + 1 := by
  have hzero : (0 : WithTop ℚ) < 1 ∧ (0 : WithTop ℚ) < 2 ∧ (1 : WithTop ℚ) < 2 ∧
      ¬ (2 : WithTop ℚ) < 1 ∧ (2 : WithTop ℚ) ≠ 1 ∧ (⊤ : WithTop ℚ) ≠ 1 ∧
      (⊤ : WithTop ℚ) ≠ 2 := by
    decide +kernel
  obtain ⟨h01, h02, h12, h21, hne21, htop1, htop2⟩ := hzero
  have hself : slotsFor first a b a = 1 := by simp [slotsFor, ha]
  have hnext : slotsFor first a b b = 2 := by simp [slotsFor, hb, hab.symm]
  have hcases : ∀ j, (j ∈ first ∧ slotsFor first a b j = 0) ∨ j = a ∨ j = b ∨
      (j ∉ first ∧ j ≠ a ∧ slotsFor first a b j = ⊤) := by
    intro j
    unfold slotsFor
    grind
  have hbefore : ∀ j, StableOrder.Before (slotsFor first a b) j a ↔ j ∈ first := by
    intro j
    unfold StableOrder.Before
    rw [hself]
    rcases hcases j with ⟨hj, hslot⟩ | rfl | rfl | ⟨hj, _, hslot⟩
    · simp [hj, hslot]
    · simp [ha, hself]
    · simp [hb, hnext, h21, hne21]
    · simp [hj, hslot, htop1]
  have hbefore' : ∀ j, StableOrder.Before (slotsFor first a b) j b ↔
      j ∈ insert a first := by
    intro j
    unfold StableOrder.Before
    rw [hnext, Finset.mem_insert]
    rcases hcases j with ⟨hj, hslot⟩ | rfl | rfl | ⟨hj, hja, hslot⟩
    · simp [hj, hslot]
    · simp [hself, h12]
    · simp [hb, hab.symm, hnext]
    · simp [hj, hja, hslot, htop2]
  rw [StableOrder.position_eq_card, StableOrder.position_eq_card]
  simp only [hbefore, hbefore', Finset.filter_univ_mem, true_and]
  exact Finset.card_insert_of_notMem ha

end Loads
/-- Positive averages that differ are not tiny. -/
def Wide (w : Fin n → ℚ) : Prop :=
  ∀ a b, 0 < w a → 0 < w b → w a ≠ w b → 1 / 2 ^ 49 ≤ w a

/-- A double that is not tiny is above its thousandth part taken a thousand times. -/
theorem round_div_thousand_lt {v w : ℚ} (hv : 1 / 2 ^ 49 ≤ v) (hvround : binary64.round v = v)
    (hwround : binary64.round w = w) (hvw : v < w) : binary64.round (v / 1000) * 1000 < w := by
  have hpos : 0 < v := lt_of_lt_of_le (by norm_num) hv
  have hlog : -49 ≤ Int.log 2 v :=
    (Int.zpow_le_iff_le_log one_lt_two hpos).mp (by norm_num at hv ⊢; exact hv)
  refine binary64.round_div_mul_lt (j := 9) (by norm_num) (by norm_num) hpos ?_ hvround
    hwround hvw
  have hformat : binary64.minExp = -1074 ∧ binary64.precision = 53 := ⟨rfl, rfl⟩
  rw [hformat.1, hformat.2]
  push_cast
  omega

/-- Windows that never overlap are of one length, and so are the slots. -/
theorem spaced_of_staggered (h : fleet.Lined) (hround : fleet.Rounded binary64.round)
    (hwide : Wide fleet.estimates) (elapsed : Fin n → ℚ)
    (hall : ∀ loads, fleet.Staggered binary64.round { step := 0, loads, elapsed }) :
    Spaced binary64.round fleet.estimates := by
  have hslots : ∀ (first : Finset (Fin n)) a b, a ≠ b → a ∉ first → b ∉ first →
      Disjoint
        (Set.Ico (slotStart binary64.round (fleet.estimates a) first.card)
          (slotStart binary64.round (fleet.estimates a) first.card + fleet.estimates a))
        (Set.Ico (slotStart binary64.round (fleet.estimates b) (first.card + 1))
          (slotStart binary64.round (fleet.estimates b) (first.card + 1) +
            fleet.estimates b)) := by
    intro first a b hab ha hb
    have hdisjoint : Disjoint
        (fleet.computed binary64.round
          { step := 0, loads := loadsFor first a b, elapsed } a).2.interval
        (fleet.computed binary64.round
          { step := 0, loads := loadsFor first a b, elapsed } b).2.interval :=
      hall (loadsFor first a b) hab
    have hgossip : fleet.gossip (loadsFor first a b) = slotsFor first a b :=
      (gossip_eq (fun rank => (h rank).1) gbps_loadsFor).trans toFloat32_loadsFor
    obtain ⟨hfirst, hnext⟩ := position_slotsFor hab ha hb
    rwa [interval_computed isRounding_binary64 h hround,
      interval_computed isRounding_binary64 h hround, hgossip, hfirst, hnext] at hdisjoint
  -- the slot at position 1 does not begin before the window at position 0 ends
  have hle : ∀ a b, a ≠ b → 0 < fleet.estimates b →
      fleet.estimates a ≤ binary64.round (fleet.estimates b / 1000) * 1000 := by
    intro a b hab hb
    have hdisjoint := hslots ∅ a b hab (Finset.notMem_empty a) (Finset.notMem_empty b)
    rw [Finset.card_empty, slotStart_zero isRounding_binary64, zero_add, zero_add,
      slotStart_one isRounding_binary64 (hround b), Set.disjoint_left] at hdisjoint
    by_contra hlt
    refine hdisjoint (a := binary64.round (fleet.estimates b / 1000) * 1000)
      ⟨?_, not_le.mp hlt⟩ ⟨le_rfl, by linarith⟩
    exact mul_nonneg (isRounding_binary64.nonneg (by positivity)) (by norm_num)
  have hlt : ∀ a b, a ≠ b → 0 < fleet.estimates a → 0 < fleet.estimates b →
      ¬ fleet.estimates a < fleet.estimates b := by
    intro a b hab ha hb hlt
    exact absurd (hle b a hab.symm ha) (not_le.mpr
      (round_div_thousand_lt (hwide a b ha hb hlt.ne) (hround a) (hround b) hlt))
  intro a b hab ha hb
  have heq := le_antisymm (not_lt.mp (hlt b a hab.symm hb ha)) (not_lt.mp (hlt a b hab ha hb))
  refine ⟨heq, fun p hp => ?_⟩
  obtain ⟨first, hfirst, rfl⟩ : ∃ first ⊆ (Finset.univ.erase a).erase b, first.card = p := by
    apply Finset.exists_subset_card_eq
    rw [Finset.card_erase_of_mem (Finset.mem_erase.mpr ⟨hab.symm, Finset.mem_univ b⟩),
      Finset.card_erase_of_mem (Finset.mem_univ a), Finset.card_fin]
    omega
  have hdisjoint := hslots first a b hab
    (fun hin => Finset.notMem_erase a _ (Finset.mem_of_mem_erase (hfirst hin)))
    (fun hin => Finset.notMem_erase b _ (hfirst hin))
  rw [← heq, Set.disjoint_left] at hdisjoint
  by_contra hover
  refine hdisjoint (a := slotStart binary64.round (fleet.estimates a) (first.card + 1))
    ⟨?_, not_le.mp hover⟩ ⟨le_rfl, by linarith⟩
  exact slotStart_mono isRounding_binary64 ha.le (Nat.le_succ _)

theorem clampedMs_ge (t : ℚ) : minWindowMs ≤ clampedMs fl t := le_max_left _ _

/-- A learned average above zero is no smaller than the steps of the doubles about 8. -/
theorem learned_ge {c w : ℚ} (hc : minWindowMs ≤ c)
    (hpos : 0 < binary64.round (binary64.round (emaAlpha * c) +
      binary64.round (binary64.round (1 - emaAlpha) * w))) :
    1 / 2 ^ 49 ≤ binary64.round (binary64.round (emaAlpha * c) +
      binary64.round (binary64.round (1 - emaAlpha) * w)) := by
  have hfl := isRounding_binary64 (K := ℚ)
  have hquarter : (25 / 2 : ℚ) ≤ emaAlpha * c := by
    unfold emaAlpha
    unfold minWindowMs at hc
    linarith
  obtain ⟨z, hz⟩ := binary64.exists_round_eq_mul (k := 3) (x := emaAlpha * c) (by
    rw [abs_of_nonneg (by linarith)]
    linarith)
  have hshare : (25 / 2 : ℚ) ≤ binary64.round (emaAlpha * c) := by
    have hmono := hfl.mono (by norm_num) hquarter
    rwa [show binary64.round (25 / 2 : ℚ) = 25 / 2 by decide +kernel] at hmono
  generalize hrest : binary64.round (1 - emaAlpha) * w = rest at hpos ⊢
  have hsum : (1 / 2 ^ 49 : ℚ) ≤ binary64.round (emaAlpha * c) + binary64.round rest := by
    rcases le_or_gt rest (-8) with hlow | hhigh
    · -- both are multiples of that step
      obtain ⟨z', hz'⟩ := binary64.exists_round_eq_mul (k := 3) (x := rest) (by
        rw [abs_of_nonpos (by linarith)]
        linarith)
      have hsumpos : 0 < binary64.round (emaAlpha * c) + binary64.round rest := by
        by_contra hneg
        have hround := binary64.round_le (n := 0)
          (x := binary64.round (emaAlpha * c) + binary64.round rest) (by simpa using hneg)
        rw [Int.cast_zero, zero_mul] at hround
        exact absurd hpos (not_lt.mpr hround)
      rw [hz, hz', ← add_mul] at hsumpos ⊢
      have hone : (1 : ℤ) ≤ z + z' := by
        have hint : (0 : ℚ) < z + z' := pos_of_mul_pos_left hsumpos (zpow_pos two_pos _).le
        exact_mod_cast hint
      have hone' : (1 : ℚ) ≤ z + z' := by exact_mod_cast hone
      have hstep : (1 / 2 ^ 49 : ℚ) = 2 ^ ((3 : ℤ) + 1 - binary64.precision) := by
        decide +kernel
      rw [hstep]
      exact le_mul_of_one_le_left (zpow_pos two_pos _).le hone'
    · have hbelow : -8 ≤ binary64.round rest := by
        rcases le_or_gt 0 rest with hnonneg | hneg
        · linarith [hfl.nonneg hnonneg]
        · have hexp : binary64.exponent rest ≤ 3 := by
            refine binary64.exponent_le hneg.ne (by decide) ?_
            rw [abs_of_neg hneg]
            exact (show -rest < 8 by linarith).trans (by decide +kernel)
          have hround := binary64.neg_zpow_le_round hexp (by norm_num; linarith)
          norm_num at hround
          exact hround
      linarith
  have hmono := hfl.mono (by norm_num) hsum
  rwa [show binary64.round (1 / 2 ^ 49 : ℚ) = 1 / 2 ^ 49 by decide +kernel] at hmono

theorem wide_learn {w' : Fin n → ℚ} (hlearn : learn binary64.round w elapsed = some w') :
    Wide w' := by
  obtain rfl := Option.some.inj hlearn
  exact fun a _ ha _ _ => learned_ge (clampedMs_ge _) ha

/-- The windows never overlap in the rounds of these flush times exactly when
the averages agree on slots in each. -/
theorem meets_staggered_iff (h : fleet.Lined) (hround : fleet.Rounded binary64.round)
    (hwide : Wide fleet.estimates) (times : List (Fin n → ℚ)) :
    (∀ rounds : List (NexusRound n),
        rounds.map NexusRound.elapsed = times →
          Runs.Meets (runRound binary64.round) (Staggered binary64.round) fleet rounds) ↔
      Runs.Meets (learn binary64.round) (fun w _ => Spaced binary64.round w)
        fleet.estimates times := by
  induction times generalizing fleet with
  | nil =>
      refine iff_of_true (fun rounds hrounds => ?_) trivial
      rw [List.map_eq_nil_iff.mp hrounds]
      exact trivial
  | cons elapsed times ih =>
      constructor
      · intro hall
        refine ⟨spaced_of_staggered h hround hwide elapsed fun loads => ?_, ?_⟩
        · have hmap : ∀ ts : List (Fin n → ℚ), (ts.map fun elapsed =>
              ({ step := 0, loads, elapsed } : NexusRound n)).map
                NexusRound.elapsed = ts := fun ts => by
            rw [List.map_map]
            exact List.map_id ts
          exact (hall _ (hmap (elapsed :: times))).1
        · intro w hw
          let round : NexusRound n :=
            { step := 0, loads := fun _ => 0, elapsed }
          obtain ⟨after, hafter⟩ : ∃ after,
              fleet.runRound binary64.round round = some after := ⟨_, rfl⟩
          have hlearn := learn_estimates hafter
          have hwide' := wide_learn hlearn
          obtain rfl := Option.some.inj (hw.symm.trans hlearn)
          have hround' := Rounded.runRound (binary64.round_round (by decide)) hafter
          refine (ih (h.runRound hafter) hround' hwide').mp fun rounds hrounds => ?_
          exact (hall (round :: rounds) (congrArg (elapsed :: ·) hrounds)).2
            after hafter
      · rintro ⟨hspaced, hrest⟩ rounds hrounds
        cases rounds with
        | nil => cases hrounds
        | cons round rounds =>
            obtain ⟨rfl, hrest'⟩ := List.cons.inj hrounds
            refine ⟨staggered_of_spaced isRounding_binary64 h hround hspaced,
              fun after hafter => ?_⟩
            have hlearn := learn_estimates hafter
            have hround' := Rounded.runRound (binary64.round_round (by decide)) hafter
            exact (ih (h.runRound hafter) hround' (wide_learn hlearn)).mpr
              (hrest _ hlearn) rounds hrest'

/-- **When windows never overlap.**  For given flush times of all ranks in all
rounds, the windows of every round are pairwise disjoint for all loads exactly
when, in every round, the ranks with a positive average have the same one, and
the rounded delays leave every slot of that length before the next. -/
theorem windows_disjoint_iff (n : Nat) (base : ℚ) (times : List (Fin n → ℚ)) :
    (∀ rounds : List (NexusRound n),
        rounds.map NexusRound.elapsed = times →
          Runs.Meets (runRound binary64.round) (Staggered binary64.round)
            (init binary64.round n base) rounds) ↔
      Runs.Meets (learn binary64.round) (fun w _ => Spaced binary64.round w)
        (fun _ => binary64.round base) times := by
  have hestimates : (init binary64.round n base).estimates = fun _ => binary64.round base := rfl
  have hround : (init binary64.round n base).Rounded binary64.round := by
    intro rank
    rw [hestimates]
    exact binary64.round_round (by decide) base
  have hwide : Wide (init binary64.round n base).estimates := by
    intro a b _ _ hne
    rw [hestimates] at hne
    exact absurd rfl hne
  have hgeneral := meets_staggered_iff (lined_init n base) hround hwide times
  rwa [hestimates] at hgeneral

/-- Two equally loaded ranks take part in a round. -/
def idleRound (step : Int) (first second : ℚ) : NexusRound 2 :=
  { step
    loads := fun _ => 0
    elapsed := fun rank => if rank = 0 then first else second }

/-- Two ranks whose flushes take half a second each do not overlap. -/
theorem windows_disjoint_even :
    Runs.Meets (runRound binary64.round) (Staggered binary64.round)
      (init binary64.round 2 500) [idleRound 0 (1 / 2) (1 / 2), idleRound 1 (1 / 2) (1 / 2)] :=
  (windows_disjoint_iff 2 500 [fun _ => 1 / 2, fun _ => 1 / 2]).mpr (by decide +kernel) _
    (by simp [idleRound])

/-- In the first round the flush of rank 0 takes two seconds and that of rank 1
a twentieth of one.  In the second rank 0 has from 0 to 650 ms, and rank 1 from
162.5 to 325 ms. -/
theorem windows_overlap :
    ¬ Runs.Meets (runRound binary64.round) (Staggered binary64.round)
      (init binary64.round 2 200)
      [idleRound 0 2 (binary64.round (1 / 20)), idleRound 1 1 1] := by
  rintro ⟨-, hrest⟩
  obtain ⟨after, hafter⟩ : ∃ after, (init binary64.round 2 200).runRound binary64.round
      (idleRound 0 2 (binary64.round (1 / 20))) = some after := ⟨_, rfl⟩
  obtain ⟨hsecond, -⟩ := hrest after hafter
  have hdisjoint : Disjoint (after.computed binary64.round (idleRound 1 1 1) 0).2.interval
      (after.computed binary64.round (idleRound 1 1 1) 1).2.interval := hsecond (by decide)
  have hzero : (after.computed binary64.round (idleRound 1 1 1) 0).2.delaySeconds = 0 ∧
      (after.computed binary64.round (idleRound 1 1 1) 0).2.windowMs = 650 := by
    obtain rfl := Option.some.inj hafter
    decide +kernel
  have hone : (after.computed binary64.round (idleRound 1 1 1) 1).2.delaySeconds ≤ 2 / 10 ∧
      (after.computed binary64.round (idleRound 1 1 1) 1).2.windowMs = 325 / 2 ∧
      1 / 10 ≤ (after.computed binary64.round (idleRound 1 1 1) 1).2.delaySeconds := by
    obtain rfl := Option.some.inj hafter
    decide +kernel
  unfold CheckpointWindow.interval at hdisjoint
  rw [hzero.1, hzero.2, hone.2.1, Set.disjoint_left] at hdisjoint
  refine hdisjoint (a := (200 : ℚ)) ?_ ?_ <;> constructor <;> linarith

/-- In the first window of 300 ms the second begins: 0.3 seconds are rounded down. -/
example : ¬ Spaced binary64.round fun _ : Fin 2 => (300 : ℚ) := by
  decide +kernel

end NexusFleet

end Tempo
