import Mathlib.Data.List.MinMax
import Tempo.TopologyRouter

/-!
# Placement with a local peer

A router keeps the groups of its peers twice: `_rank_to_group` gathers all maps that
were registered, and `_local_peers` is made anew from each.  `route_kv_placement`
takes its candidates from the caller's list or from `_local_peers`, and asks
`_rank_to_group` which of them are of its own group.

So a caller's list that names the router's own rank can have the router place data
with itself, and without a list a peer that the last map left out is forgotten
(`placement_follows_iff`).
-/

namespace Tempo

open OrderedDict

/-- A call on a router. -/
inductive RouterCall
  | registerPeerGroups (groups : Dict Nat Int)
  | routeKvPlacement (kvSizeBytes : Int) (availablePeers : Option (List Nat))
      (windowMs : Option ℚ) (hwCongested : Bool)
  | setGlobalLinkSaturated (saturated : Bool)

namespace RouterCall

/-- The router after a call. -/
def apply (r : TopologyRouter) : RouterCall → TopologyRouter
  | registerPeerGroups groups => r.registerPeerGroups groups
  | routeKvPlacement kvSizeBytes availablePeers windowMs hwCongested =>
      (r.routeKvPlacement kvSizeBytes availablePeers windowMs hwCongested).1
  | setGlobalLinkSaturated saturated => r.setGlobalLinkSaturated saturated

/-- The map that a call registers. -/
def groups? : RouterCall → Option (Dict Nat Int)
  | registerPeerGroups groups => some groups
  | _ => none

/-- The maps registered, the last one last. -/
def registrations (calls : List RouterCall) : List (Dict Nat Int) :=
  calls.filterMap groups?

/-- The group that a rank was last registered with. -/
def latestGroup (calls : List RouterCall) (p : Nat) : Option Int :=
  (registrations calls).reverse.findSome? fun groups => groups.lookup p

end RouterCall

namespace TopologyRouter

open RouterCall

variable {rank : Nat} {myGroup : Int} {globalLinkQuota : ℚ} {r : TopologyRouter}
  {calls : List RouterCall} {call : RouterCall} {p : Nat}

/-- A router after `calls`. -/
def after (rank : Nat) (myGroup : Int) (globalLinkQuota : ℚ) (calls : List RouterCall) :
    TopologyRouter :=
  calls.foldl apply (new rank myGroup globalLinkQuota)

/-- The other ranks of its own group in a map, as `_local_peers` has them. -/
def groupMates (rank : Nat) (myGroup : Int) (groups : Dict Nat Int) : List Nat :=
  (groups.entries.filter fun e => e.2 == myGroup && e.1 != rank).map Sigma.fst

/-- What a router knows of its peers after `calls`. -/
structure Knows (rank : Nat) (myGroup : Int) (calls : List RouterCall)
    (r : TopologyRouter) : Prop where
  rank_eq : r.rank = rank
  group_eq : r.myGroup = myGroup
  lookup : ∀ p, r.rankToGroup.lookup p =
    (latestGroup calls p).or (if p = rank then some myGroup else none)
  peers : r.localPeers =
    ((registrations calls).getLast?.map (groupMates rank myGroup)).getD []

theorem mem_groupMates {groups : Dict Nat Int} :
    p ∈ groupMates rank myGroup groups ↔
      p ≠ rank ∧ groups.lookup p = some myGroup := by
  have hentry : groups.lookup p = some myGroup ↔ (⟨p, myGroup⟩ : Σ _, Int) ∈ groups.entries :=
    AList.mem_lookup_iff
  rw [hentry]
  unfold groupMates
  simp only [List.mem_map, List.mem_filter, Bool.and_eq_true, beq_iff_eq, bne_iff_ne]
  constructor
  · rintro ⟨⟨q, g⟩, ⟨hmem, rfl, hne⟩, rfl⟩
    exact ⟨hne, hmem⟩
  · rintro ⟨hne, hmem⟩
    exact ⟨⟨p, myGroup⟩, ⟨hmem, rfl, hne⟩, rfl⟩

theorem registrations_append (calls : List RouterCall) (call : RouterCall) :
    registrations (calls ++ [call]) = registrations calls ++ call.groups?.toList := by
  unfold registrations
  rw [List.filterMap_append]
  cases hcall : call.groups? with
  | none => simp [hcall]
  | some groups => simp [hcall]

theorem latestGroup_append (calls : List RouterCall) (call : RouterCall) (p : Nat) :
    latestGroup (calls ++ [call]) p =
      (call.groups?.bind fun groups => groups.lookup p).or (latestGroup calls p) := by
  unfold latestGroup
  rw [registrations_append]
  cases call.groups? with
  | none => simp
  | some groups =>
      cases hp : groups.lookup p with
      | none => simp [hp]
      | some g => simp [hp]

theorem Knows.register (hr : Knows rank myGroup calls r) (groups : Dict Nat Int) :
    Knows rank myGroup (calls ++ [.registerPeerGroups groups])
      (r.registerPeerGroups groups) := by
  refine ⟨hr.rank_eq, hr.group_eq, fun p => ?_, ?_⟩
  · rw [latestGroup_append, Option.or_assoc, ← hr.lookup]
    exact lookup_foldl_assign groups.nodupKeys r.rankToGroup p
  · rw [registrations_append]
    have hlast : (registrations calls ++ [groups]).getLast? = some groups := by simp
    change _ = ((registrations calls ++ [groups]).getLast?.map _).getD _
    rw [hlast]
    unfold registerPeerGroups groupMates
    rw [hr.rank_eq, hr.group_eq]
    rfl

/-- A call that registers nothing. -/
theorem Knows.keep {r' : TopologyRouter} (hr : Knows rank myGroup calls r)
    (hcall : call.groups? = none) (hrank : r'.rank = r.rank)
    (hgroup : r'.myGroup = r.myGroup) (hmap : r'.rankToGroup = r.rankToGroup)
    (hpeers : r'.localPeers = r.localPeers) :
    Knows rank myGroup (calls ++ [call]) r' := by
  refine ⟨hrank.trans hr.rank_eq, hgroup.trans hr.group_eq, fun p => ?_, ?_⟩
  · rw [hmap, hr.lookup, latestGroup_append, hcall, Option.bind_none, Option.none_or]
  · rw [hpeers, hr.peers, registrations_append, hcall, Option.toList_none, List.append_nil]

/-- What a placement decision leaves alone. -/
theorem routeKvPlacement_frame (r : TopologyRouter) (kvSizeBytes : Int)
    (availablePeers : Option (List Nat)) (windowMs : Option ℚ) (hwCongested : Bool) :
    let r' := (r.routeKvPlacement kvSizeBytes availablePeers windowMs hwCongested).1
    r'.rank = r.rank ∧ r'.myGroup = r.myGroup ∧ r'.rankToGroup = r.rankToGroup ∧
      r'.localPeers = r.localPeers := by
  unfold routeKvPlacement
  dsimp only
  split
  · exact ⟨rfl, rfl, rfl, rfl⟩
  · split
    · exact ⟨rfl, rfl, rfl, rfl⟩
    · exact ⟨rfl, rfl, rfl, rfl⟩

theorem Knows.apply (hr : Knows rank myGroup calls r) (call : RouterCall) :
    Knows rank myGroup (calls ++ [call]) (call.apply r) := by
  cases call with
  | registerPeerGroups groups => exact hr.register groups
  | routeKvPlacement kvSizeBytes availablePeers windowMs hwCongested =>
      obtain ⟨hrank, hgroup, hmap, hpeers⟩ :=
        r.routeKvPlacement_frame kvSizeBytes availablePeers windowMs hwCongested
      exact hr.keep rfl hrank hgroup hmap hpeers
  | setGlobalLinkSaturated saturated => exact hr.keep rfl rfl rfl rfl rfl

theorem after_knows (rank : Nat) (myGroup : Int) (globalLinkQuota : ℚ)
    (calls : List RouterCall) :
    Knows rank myGroup calls (after rank myGroup globalLinkQuota calls) := by
  unfold after
  induction calls using List.reverseRecOn with
  | nil =>
      refine ⟨rfl, rfl, fun p => ?_, rfl⟩
      by_cases hp : p = rank
      · subst hp
        rw [if_pos rfl]
        exact List.dlookup_cons_eq (β := fun _ => Int) [] p myGroup
      · rw [if_neg hp]
        exact AList.lookup_eq_none.mpr fun hmem => hp (mem_single.mp hmem)
  | append_singleton calls call ih =>
      rw [List.foldl_append]
      exact ih.apply call

section Placement

/-- Another rank, last registered with this rank's group. -/
def LocalPeer (rank : Nat) (myGroup : Int) (calls : List RouterCall) (p : Nat) : Prop :=
  p ≠ rank ∧ latestGroup calls p = some myGroup

/-- A rank of the caller's list, or without one any. -/
def Candidate (availablePeers : Option (List Nat)) (p : Nat) : Prop :=
  ∀ peers ∈ availablePeers, p ∈ peers

/-- The decision is `LOCAL_PEER` exactly if there is a local peer to place with, and
then it names one. -/
structure Follows (rank : Nat) (myGroup : Int) (calls : List RouterCall)
    (availablePeers : Option (List Nat)) (d : PlacementDecision) : Prop where
  tier : d.tier = .localPeer ↔
    ∃ p, Candidate availablePeers p ∧ LocalPeer rank myGroup calls p
  target : d.tier = .localPeer →
    ∃ p, d.targetRank = some p ∧ Candidate availablePeers p ∧
      LocalPeer rank myGroup calls p

/-- `_is_same_group` after `calls`: a rank counts with the group it was last registered
with, this rank unregistered with its own, and any other with `-1`. -/
def Counts (rank : Nat) (myGroup : Int) (calls : List RouterCall) (p : Nat) : Prop :=
  ((latestGroup calls p).or (if p = rank then some myGroup else none)).getD (-1) =
    myGroup

/-- The lowest rank of the caller's list that counts is another one, and registered.
Without a list, the last map has a local peer if there is any. -/
def Guided (rank : Nat) (myGroup : Int) (calls : List RouterCall) :
    Option (List Nat) → Prop
  | some peers =>
      ∀ p ∈ peers, Counts rank myGroup calls p →
        (∀ q ∈ peers, Counts rank myGroup calls q → p ≤ q) →
        p ≠ rank ∧ (latestGroup calls p).isSome
  | none =>
      (∃ p, LocalPeer rank myGroup calls p) →
        ∃ groups ∈ (registrations calls).getLast?, ∃ p, p ≠ rank ∧
          groups.lookup p = some myGroup

variable {kvSizeBytes : Int} {availablePeers : Option (List Nat)} {windowMs : Option ℚ}
  {hwCongested : Bool}

theorem Knows.isSameGroup (hr : Knows rank myGroup calls r) (p : Nat) :
    r.isSameGroup p = true ↔ Counts rank myGroup calls p := by
  unfold TopologyRouter.isSameGroup Counts
  rw [hr.lookup, hr.group_eq, beq_iff_eq]

theorem LocalPeer.counts (hp : LocalPeer rank myGroup calls p) :
    Counts rank myGroup calls p := by
  unfold Counts
  rw [hp.2]
  rfl

/-- The lowest peer that counts, if there is one, decides the placement. -/
theorem routeKvPlacement_target (r : TopologyRouter) (kvSizeBytes : Int)
    (availablePeers : Option (List Nat)) (windowMs : Option ℚ) (hwCongested : Bool) :
    let d := (r.routeKvPlacement kvSizeBytes availablePeers windowMs hwCongested).2
    let target := ((availablePeers.getD r.localPeers).filter r.isSameGroup).min?
    (d.tier = .localPeer ↔ target.isSome) ∧ (d.tier = .localPeer → d.targetRank = target) := by
  unfold routeKvPlacement
  dsimp only
  split
  · next target heq => simp [heq]
  · next heq =>
      rw [heq]
      split
      · simp
      · simp

/-- A decision for candidates `peers` follows the groups exactly when its target is a
local peer, and there is one if any candidate is. -/
theorem follows_iff_target {d : PlacementDecision} {target : Option Nat}
    (htier : d.tier = .localPeer ↔ target.isSome)
    (htarget : d.tier = .localPeer → d.targetRank = target)
    (hcandidate : ∀ p ∈ target, Candidate availablePeers p) :
    Follows rank myGroup calls availablePeers d ↔
      (∀ p ∈ target, LocalPeer rank myGroup calls p) ∧
        ((∃ p, Candidate availablePeers p ∧ LocalPeer rank myGroup calls p) →
          target.isSome) := by
  cases target with
  | none =>
      have hother : d.tier ≠ .localPeer := fun h => by simpa using htier.mp h
      constructor
      · intro hfollows
        refine ⟨by simp, fun hsome => ?_⟩
        exact absurd (hfollows.tier.mpr hsome) hother
      · rintro ⟨_, hnone⟩
        refine ⟨⟨fun h => absurd h hother, fun hsome => ?_⟩, fun h => absurd h hother⟩
        exact absurd (hnone hsome) (by simp)
  | some p =>
      have hlocal : d.tier = .localPeer := htier.mpr rfl
      constructor
      · intro hfollows
        refine ⟨fun q hq => ?_, fun _ => rfl⟩
        obtain rfl := Option.some.inj hq
        obtain ⟨q, hnamed, _, hq⟩ := hfollows.target hlocal
        obtain rfl := Option.some.inj ((htarget hlocal).symm.trans hnamed)
        exact hq
      · rintro ⟨hpeer, _⟩
        have hp := hpeer p rfl
        exact ⟨⟨fun _ => ⟨p, hcandidate p rfl, hp⟩, fun _ => hlocal⟩,
          fun _ => ⟨p, htarget hlocal, hcandidate p rfl, hp⟩⟩

/-- The lowest peer of a list that counts. -/
theorem Knows.min_same (hr : Knows rank myGroup calls r) {peers : List Nat} :
    p ∈ (peers.filter r.isSameGroup).min? ↔
      p ∈ peers ∧ Counts rank myGroup calls p ∧
        ∀ q ∈ peers, Counts rank myGroup calls q → p ≤ q := by
  rw [Option.mem_def, List.min?_eq_some_iff]
  simp only [List.mem_filter, hr.isSameGroup, and_assoc, and_imp]

theorem Knows.min_isSome (hr : Knows rank myGroup calls r) {peers : List Nat} :
    (peers.filter r.isSameGroup).min?.isSome ↔
      ∃ p ∈ peers, Counts rank myGroup calls p := by
  have hempty : (peers.filter r.isSameGroup).min? = none ↔
      ∀ p ∈ peers, ¬ Counts rank myGroup calls p := by
    rw [List.min?_eq_none_iff, List.filter_eq_nil_iff]
    simp only [hr.isSameGroup]
  rw [Option.isSome_iff_ne_none, ne_eq, hempty]
  push Not
  rfl

/-- `_local_peers` are the local peers of the last map. -/
theorem Knows.mem_localPeers (hr : Knows rank myGroup calls r) :
    p ∈ r.localPeers ↔ ∃ groups ∈ (registrations calls).getLast?,
      p ≠ rank ∧ groups.lookup p = some myGroup := by
  rw [hr.peers]
  cases (registrations calls).getLast? with
  | none => simp
  | some groups => simp [mem_groupMates]

theorem Knows.localPeers_local (hr : Knows rank myGroup calls r) (hp : p ∈ r.localPeers) :
    LocalPeer rank myGroup calls p := by
  obtain ⟨groups, hlast, hne, hgroup⟩ := hr.mem_localPeers.mp hp
  refine ⟨hne, ?_⟩
  obtain ⟨before, hsplit⟩ := List.getLast?_eq_some_iff.mp hlast
  unfold latestGroup
  rw [hsplit, List.reverse_append, List.reverse_singleton, List.singleton_append,
    List.findSome?_cons, hgroup]

/-- With a list, what counts is its lowest rank of the group. -/
theorem Knows.listed_iff (hr : Knows rank myGroup calls r) (peers : List Nat) :
    Follows rank myGroup calls (some peers)
        (r.routeKvPlacement kvSizeBytes (some peers) windowMs hwCongested).2 ↔
      Guided rank myGroup calls (some peers) := by
  obtain ⟨htier, htarget⟩ :=
    r.routeKvPlacement_target kvSizeBytes (some peers) windowMs hwCongested
  rw [Option.getD_some] at htier htarget
  have hcandidate : ∀ p ∈ (peers.filter r.isSameGroup).min?, Candidate (some peers) p := by
    intro p hp peers' hpeers
    obtain rfl := Option.some.inj hpeers
    exact (hr.min_same.mp hp).1
  have hsome : (∃ p, Candidate (some peers) p ∧ LocalPeer rank myGroup calls p) →
      (peers.filter r.isSameGroup).min?.isSome := by
    rintro ⟨p, hp, hpeer⟩
    exact hr.min_isSome.mpr ⟨p, hp peers rfl, hpeer.counts⟩
  rw [follows_iff_target htier htarget hcandidate, and_iff_left hsome]
  constructor
  · intro hall p hmem hcounts hleast
    obtain ⟨hne, hgroup⟩ := hall p (hr.min_same.mpr ⟨hmem, hcounts, hleast⟩)
    exact ⟨hne, by rw [hgroup]; rfl⟩
  · intro hguided p hp
    obtain ⟨hmem, hcounts, hleast⟩ := hr.min_same.mp hp
    obtain ⟨hne, hknown⟩ := hguided p hmem hcounts hleast
    obtain ⟨g, hg⟩ := Option.isSome_iff_exists.mp hknown
    unfold Counts at hcounts
    rw [hg] at hcounts
    obtain rfl : g = myGroup := hcounts
    exact ⟨hne, hg⟩

/-- Without a list, the target is a local peer of the last map, which may have none. -/
theorem Knows.unlisted_iff (hr : Knows rank myGroup calls r) :
    Follows rank myGroup calls none
        (r.routeKvPlacement kvSizeBytes none windowMs hwCongested).2 ↔
      Guided rank myGroup calls none := by
  obtain ⟨htier, htarget⟩ :=
    r.routeKvPlacement_target kvSizeBytes none windowMs hwCongested
  rw [Option.getD_none] at htier htarget
  have hcandidate : ∀ p ∈ (r.localPeers.filter r.isSameGroup).min?, Candidate none p := by
    intro p _ peers hpeers
    cases hpeers
  have hlocal : ∀ p ∈ (r.localPeers.filter r.isSameGroup).min?,
      LocalPeer rank myGroup calls p :=
    fun p hp => hr.localPeers_local (hr.min_same.mp hp).1
  have hany : (∃ p, Candidate none p ∧ LocalPeer rank myGroup calls p) ↔
      ∃ p, LocalPeer rank myGroup calls p := by
    simp [Candidate]
  have hsome : (r.localPeers.filter r.isSameGroup).min?.isSome ↔
      ∃ groups ∈ (registrations calls).getLast?, ∃ p, p ≠ rank ∧
        groups.lookup p = some myGroup := by
    rw [hr.min_isSome]
    constructor
    · rintro ⟨p, hp, _⟩
      obtain ⟨groups, hlast, hmate⟩ := hr.mem_localPeers.mp hp
      exact ⟨groups, hlast, p, hmate⟩
    · rintro ⟨groups, hlast, p, hmate⟩
      have hp := hr.mem_localPeers.mpr ⟨groups, hlast, hmate⟩
      exact ⟨p, hp, (hr.localPeers_local hp).counts⟩
  rw [follows_iff_target htier htarget hcandidate, and_iff_right hlocal, hany, hsome]
  rfl

/-- **A placement follows the registered groups exactly where the list and the last map
allow it.** -/
theorem placement_follows_iff (rank : Nat) (myGroup : Int) (globalLinkQuota : ℚ)
    (calls : List RouterCall) (kvSizeBytes : Int) (availablePeers : Option (List Nat))
    (windowMs : Option ℚ) (hwCongested : Bool) :
    Follows rank myGroup calls availablePeers
      ((after rank myGroup globalLinkQuota calls).routeKvPlacement kvSizeBytes
        availablePeers windowMs hwCongested).2 ↔
    Guided rank myGroup calls availablePeers := by
  have hr := after_knows rank myGroup globalLinkQuota calls
  cases availablePeers with
  | some peers => exact hr.listed_iff peers
  | none => exact hr.unlisted_iff

/-- A caller offers the ranks 0 and 1 to rank 0, whose group rank 1 does not share: the
router places with itself. -/
theorem placement_with_itself :
    ¬ Follows 0 5 [.registerPeerGroups (assign (single 0 5) 1 7)] (some [0, 1])
      ((after 0 5 (15 / 100)
        [.registerPeerGroups (assign (single 0 5) 1 7)]).routeKvPlacement 1 (some [0, 1])
          none false).2 := by
  rintro ⟨htier, _⟩
  obtain ⟨p, hlisted, hne, hgroup⟩ := htier.mp (by decide +kernel)
  have hp := hlisted [0, 1] rfl
  simp only [List.mem_cons, List.not_mem_nil, or_false] at hp
  rcases hp with rfl | rfl
  · exact hne rfl
  · revert hgroup
    decide +kernel

end Placement

end TopologyRouter

end Tempo
