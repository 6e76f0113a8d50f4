import Mathlib.Algebra.Order.Field.Rat
import Mathlib.Data.Rat.Floor
import Tempo.OrderedDict

/-!
# Topology-aware placement

`TopologyRouter` prefers a peer of its own Dragonfly group, defers while the
fabric is congested and the NCCL window is closing, and otherwise slices a
Lustre transfer.  What the hardware counters report is an input of each
decision.
-/

namespace Tempo

open OrderedDict

/-- Python's `int` of a number: towards zero. -/
def truncate (q : ℚ) : Int := q.num.tdiv q.den

theorem truncate_of_nonneg {q : ℚ} (h : 0 ≤ q) : truncate q = ⌊q⌋ := by
  unfold truncate
  rw [Int.tdiv_eq_ediv_of_nonneg (Rat.num_nonneg.mpr h), Rat.floor_def']

inductive PlacementTier where
  | localPeer
  | lustreLocal
  | lustreRemote
  | deferred
  deriving DecidableEq

structure PlacementDecision where
  tier : PlacementTier
  targetRank : Option Nat
  sliceSizeBytes : Int := 40 * 1024 * 1024
  estimatedLatencyMs : ℚ := 0
  crossesGlobalLink : Bool := false
  reason : String := ""

structure TopologyRouter where
  rank : Nat
  globalLinkQuota : ℚ
  myGroup : Int
  rankToGroup : Dict Nat Int
  localPeers : List Nat := []
  globalLinkSaturated : Bool := false
  totalDecisions : Nat := 0
  localDecisions : Nat := 0
  deferredDecisions : Nat := 0

namespace TopologyRouter

/-- A new router knows only its own group. -/
def new (rank : Nat) (myGroup : Int) (globalLinkQuota : ℚ) :
    TopologyRouter :=
  { rank, globalLinkQuota, myGroup, rankToGroup := single rank myGroup }

def registerPeerGroups (r : TopologyRouter) (groups : Dict Nat Int) :
    TopologyRouter :=
  { r with
    rankToGroup := groups.entries.foldl
      (fun d e => assign d e.1 e.2) r.rankToGroup
    localPeers := (groups.entries.filter fun e =>
      e.2 == r.myGroup && e.1 != r.rank).map Sigma.fst }

def setGlobalLinkSaturated (r : TopologyRouter) (saturated : Bool) :
    TopologyRouter :=
  { r with globalLinkSaturated := saturated }

def isSameGroup (r : TopologyRouter) (rank : Nat) : Bool :=
  (r.rankToGroup.lookup rank).getD (-1) == r.myGroup

def localLatencyMs (sizeBytes : Int) : ℚ :=
  1 / 1000 + sizeBytes / (25 * 1024 ^ 3 / 1000)

def lustreLatencyMs (sizeBytes : Int) : ℚ :=
  5 / 10 + sizeBytes / (10 * 1024 ^ 3 / 1000)

def computeSlice (r : TopologyRouter) (totalBytes : Int) : Int :=
  let bwBytesPerMs : ℚ := 200 * 10 ^ 9 * r.globalLinkQuota / 8 / 1000
  min (min (truncate (bwBytesPerMs * 8)) totalBytes) (128 * 1024 * 1024)

/-- The fabric is congested and the NCCL window is about to close. -/
def mustDefer (r : TopologyRouter) (windowMs : Option ℚ)
    (hwCongested : Bool) : Bool :=
  (r.globalLinkSaturated || hwCongested) &&
    windowMs.any fun w => decide (w < 4)

def routeKvPlacement (r : TopologyRouter) (kvSizeBytes : Int)
    (availablePeers : Option (List Nat)) (windowMs : Option ℚ)
    (hwCongested : Bool) : TopologyRouter × PlacementDecision :=
  let counted := { r with totalDecisions := r.totalDecisions + 1 }
  let peers := availablePeers.getD r.localPeers
  match (peers.filter r.isSameGroup).min? with
  | some target =>
      ({ counted with localDecisions := r.localDecisions + 1 },
        { tier := .localPeer
          targetRank := some target
          sliceSizeBytes := min kvSizeBytes (128 * 1024 * 1024)
          estimatedLatencyMs := localLatencyMs kvSizeBytes
          reason := "intra-group peer memory" })
  | none =>
      if r.mustDefer windowMs hwCongested then
        ({ counted with deferredDecisions := r.deferredDecisions + 1 },
          { tier := .deferred
            targetRank := none
            estimatedLatencyMs := windowMs.getD 0 + 8
            crossesGlobalLink := true
            reason := "global link saturated" ++
              (if hwCongested then " [hw-ecn]" else "") ++
              ", NCCL window closing" })
      else
        (counted,
          { tier := .lustreRemote
            targetRank := none
            sliceSizeBytes := r.computeSlice kvSizeBytes
            estimatedLatencyMs := lustreLatencyMs kvSizeBytes
            crossesGlobalLink := true
            reason := "no local peers; sliced Lustre transfer" })

end TopologyRouter

end Tempo
