import Mathlib.Data.List.GetD
import Mathlib.Data.List.Sort
import Tempo.OrderedDict

/-!
# The consistent hash ring

`_ConsistentHashRing` places `_vn` points of every rank on a ring by the MD5
of their labels and gives a key to the ranks met clockwise from its own point.
`md5` is the digest read as a number.
-/

namespace Tempo

open OrderedDict

structure ConsistentHashRing where
  vn : Nat := 150
  ring : Dict Nat Int := ∅
  sortedKeys : List Nat := []

namespace ConsistentHashRing

variable (md5 : String → Nat)

/-- The label of a virtual node. -/
def label (rank : Int) (i : Nat) : String :=
  toString rank ++ "-" ++ toString i

def setRing (r : ConsistentHashRing) (ring : Dict Nat Int) :
    ConsistentHashRing :=
  { r with ring, sortedKeys := ring.keys.insertionSort (· ≤ ·) }

def addNode (r : ConsistentHashRing) (rank : Int) : ConsistentHashRing :=
  r.setRing ((List.range r.vn).foldl
    (fun ring i => assign ring (md5 (label rank i)) rank) r.ring)

def removeNode (r : ConsistentHashRing) (rank : Int) : ConsistentHashRing :=
  r.setRing ((List.range r.vn).foldl
    (fun ring i => ring.erase (md5 (label rank i))) r.ring)

/-- The loop of `_bisect`: at most as many turns as there are keys. -/
def bisectLoop (keys : List Nat) (h : Nat) : Nat → Nat → Nat → Nat
  | 0, lo, _ => lo
  | turns + 1, lo, hi =>
      if lo < hi then
        let mid := (lo + hi) / 2
        if keys.getD mid 0 < h then bisectLoop keys h turns (mid + 1) hi
        else bisectLoop keys h turns lo mid
      else lo

def bisect (r : ConsistentHashRing) (h : Nat) : Nat :=
  bisectLoop r.sortedKeys h r.sortedKeys.length 0 r.sortedKeys.length %
    max 1 r.sortedKeys.length

/-- A node met on the ring; the set `seen` is the owners found so far. -/
def meet (owners : List Int) (node : Int) : List Int :=
  if node ∈ owners then owners else owners ++ [node]

/-- The loop of `get_nodes` over the points from the key's own. -/
def collect (ring : Dict Nat Int) (n : Int) :
    List Nat → List Int → List Int
  | [], owners => owners
  | point :: points, owners =>
      match ring.lookup point with
      | none => owners
      | some node =>
          let found := meet owners node
          if n ≤ found.length then found else collect ring n points found

/-- The points of the ring clockwise from the first at or after `h`. -/
def clockwise (r : ConsistentHashRing) (h : Nat) : List Nat :=
  (List.range r.sortedKeys.length).map fun i =>
    r.sortedKeys.getD ((r.bisect h + i) % r.sortedKeys.length) 0

def getNodes (r : ConsistentHashRing) (key : String) (n : Int) : List Int :=
  if r.sortedKeys = [] then []
  else collect r.ring n (r.clockwise (md5 key)) []

/-- The ring a `P2PCacheStore` of this world size builds. -/
def ofWorld (worldSize : Nat) : ConsistentHashRing :=
  (List.range worldSize).foldl (fun r (rank : Nat) => r.addNode md5 rank) {}

variable {md5}

theorem mem_clockwise {r : ConsistentHashRing} {h p : Nat}
    (hp : p ∈ r.clockwise h) : p ∈ r.sortedKeys := by
  obtain ⟨i, hi, rfl⟩ := List.mem_map.mp hp
  have hpos : 0 < r.sortedKeys.length := by
    have hlt := List.mem_range.mp hi
    omega
  have hlt := Nat.mod_lt (r.bisect h + i) hpos
  rw [List.getD_eq_getElem _ _ hlt]
  exact List.getElem_mem hlt

theorem meet_nodup {owners : List Int} (hnodup : owners.Nodup) (node : Int) :
    (meet owners node).Nodup := by
  unfold meet
  split
  · exact hnodup
  next hnew =>
    refine List.nodup_append.mpr ⟨hnodup, List.nodup_singleton _, ?_⟩
    intro a ha b hb heq
    rw [List.mem_singleton.mp hb] at heq
    exact hnew (heq ▸ ha)

theorem collect_nodup (ring : Dict Nat Int) (n : Int) (points : List Nat) :
    ∀ owners : List Int, owners.Nodup → (collect ring n points owners).Nodup := by
  induction points with
  | nil => exact fun _ h => h
  | cons point points ih =>
      intro owners hnodup
      unfold collect
      split
      · exact hnodup
      next node hnode =>
        have hfound := meet_nodup hnodup node
        dsimp only
        split
        · exact hfound
        · exact ih _ hfound

/-- The owners of a key are distinct ranks. -/
theorem getNodes_nodup (r : ConsistentHashRing) (key : String) (n : Int) :
    (r.getNodes md5 key n).Nodup := by
  unfold getNodes
  split
  · exact List.nodup_nil
  · exact collect_nodup _ _ _ _ List.nodup_nil

section Single

variable {rank : Int}

/-- On a ring of one rank the walk finds that rank. -/
theorem collect_single {ring : Dict Nat Int} {n : Int} {points : List Nat}
    (hall : ∀ p ∈ points, ring.lookup p = some rank) :
    collect ring n points [rank] = [rank] := by
  induction points with
  | nil => rfl
  | cons point points ih =>
      unfold collect
      rw [hall point List.mem_cons_self]
      have hrest := ih fun p hp => hall p (List.mem_cons_of_mem _ hp)
      simp [meet, hrest]

theorem getNodes_single {r : ConsistentHashRing} (key : String) (n : Int)
    (hne : r.sortedKeys ≠ [])
    (hall : ∀ p ∈ r.sortedKeys, r.ring.lookup p = some rank) :
    r.getNodes md5 key n = [rank] := by
  have hpoints : ∀ p ∈ r.clockwise (md5 key), r.ring.lookup p = some rank :=
    fun p hp => hall p (mem_clockwise hp)
  unfold getNodes
  rw [if_neg hne]
  cases hclock : r.clockwise (md5 key) with
  | nil =>
      have hzero : r.sortedKeys.length = 0 := by
        simpa [clockwise] using congrArg List.length hclock
      exact absurd (List.length_eq_zero_iff.mp hzero) hne
  | cons p points =>
      rw [hclock] at hpoints
      unfold collect
      rw [hpoints p List.mem_cons_self]
      have hrest := collect_single (n := n) fun q hq =>
        hpoints q (List.mem_cons_of_mem _ hq)
      simp [meet, hrest]

/-- What adding one rank's points to an empty ring puts there. -/
theorem lookup_points {label : Nat → Nat} (l : List Nat) :
    ∀ {ring : Dict Nat Int},
      (∀ p v, ring.lookup p = some v → v = rank) →
      ∀ p v, (l.foldl (fun ring i => assign ring (label i) rank)
        ring).lookup p = some v → v = rank := by
  induction l with
  | nil => exact fun h => h
  | cons i l ih =>
      intro ring h
      apply ih
      intro p v hp
      rw [lookup_assign] at hp
      split at hp
      · exact (Option.some.inj hp).symm
      · exact h p v hp

theorem mem_points {label : Nat → Nat} (l : List Nat) :
    ∀ {ring : Dict Nat Int} {p : Nat},
      p ∈ l.foldl (fun ring i => assign ring (label i) rank) ring ↔
        p ∈ ring ∨ ∃ i ∈ l, p = label i := by
  induction l with
  | nil => simp
  | cons i l ih =>
      intro ring p
      rw [List.foldl_cons, ih, mem_assign]
      simp only [List.mem_cons, exists_eq_or_imp]
      tauto

/-- The one rank of a ring owns every key. -/
theorem getNodes_addNode {r : ConsistentHashRing} (hempty : r.ring = ∅)
    (hvn : 0 < r.vn) (key : String) (n : Int) :
    (r.addNode md5 rank).getNodes md5 key n = [rank] := by
  apply getNodes_single
  · have hmem : md5 (label rank 0) ∈ (r.addNode md5 rank).ring :=
      (mem_points _).mpr (.inr ⟨0, List.mem_range.mpr hvn, rfl⟩)
    have hsorted : md5 (label rank 0) ∈ (r.addNode md5 rank).sortedKeys :=
      (List.mem_insertionSort _).mpr (AList.mem_keys.mp hmem)
    exact List.ne_nil_of_mem hsorted
  · intro p hp
    have hkey : p ∈ (r.addNode md5 rank).ring :=
      AList.mem_keys.mpr ((List.mem_insertionSort _).mp hp)
    obtain ⟨v, hv⟩ := exists_lookup hkey
    have hrank : v = rank := by
      refine lookup_points (List.range r.vn) ?_ p v hv
      simp [hempty]
    rw [hv, hrank]

end Single

/-- In a world of one rank, rank 0 owns every key. -/
theorem ofWorld_one (key : String) (n : Int) :
    (ofWorld md5 1).getNodes md5 key n = [0] :=
  getNodes_addNode rfl (by decide) key n

theorem subset_collect (ring : Dict Nat Int) (n : Int) (points : List Nat) :
    ∀ owners : List Int, owners ⊆ collect ring n points owners := by
  induction points with
  | nil => exact fun _ => List.Subset.refl _
  | cons point points ih =>
      intro owners
      unfold collect
      split
      · exact List.Subset.refl _
      next node _ =>
        have hmeet : owners ⊆ meet owners node := by
          unfold meet
          split
          · exact List.Subset.refl _
          · exact List.subset_append_left _ _
        dsimp only
        split
        · exact hmeet
        · exact List.Subset.trans hmeet (ih _)

/-- Where all points of the ring have an owner, a key has one. -/
theorem getNodes_ne_nil {r : ConsistentHashRing} (hne : r.sortedKeys ≠ [])
    (hall : ∀ p ∈ r.sortedKeys, p ∈ r.ring) (key : String) (n : Int) :
    r.getNodes md5 key n ≠ [] := by
  unfold getNodes
  rw [if_neg hne]
  cases hclock : r.clockwise (md5 key) with
  | nil =>
      have hzero : r.sortedKeys.length = 0 := by
        simpa [clockwise] using congrArg List.length hclock
      exact absurd (List.length_eq_zero_iff.mp hzero) hne
  | cons p points =>
      have hp : p ∈ r.clockwise (md5 key) := by
        rw [hclock]
        exact List.mem_cons_self
      obtain ⟨node, hnode⟩ := exists_lookup (hall p (mem_clockwise hp))
      have hmet : meet [] node = [node] := by simp [meet]
      unfold collect
      rw [hnode]
      dsimp only
      rw [hmet]
      split
      · exact List.cons_ne_nil _ _
      · have hfirst := subset_collect r.ring n points [node] List.mem_cons_self
        exact List.ne_nil_of_mem hfirst

/-- A key has an owner in a world of one rank or more. -/
theorem ofWorld_ne_nil {worldSize : Nat} (hworld : 0 < worldSize) (key : String) (n : Int) :
    (ofWorld md5 worldSize).getNodes md5 key n ≠ [] := by
  obtain ⟨last, rfl⟩ : ∃ last, worldSize = last + 1 := ⟨worldSize - 1, by omega⟩
  have hvn : ∀ world : Nat, (ofWorld md5 world).vn = 150 := by
    intro world
    induction world with
    | zero => rfl
    | succ world ih =>
        unfold ofWorld at ih ⊢
        rw [List.range_succ, List.foldl_append]
        exact ih
  have hlast : ofWorld md5 (last + 1) = (ofWorld md5 last).addNode md5 last := by
    unfold ofWorld
    rw [List.range_succ, List.foldl_append]
    rfl
  rw [hlast]
  apply getNodes_ne_nil
  · have hmem : md5 (label last 0) ∈ ((ofWorld md5 last).addNode md5 last).ring :=
      (mem_points _).mpr (.inr ⟨0, List.mem_range.mpr (by rw [hvn]; decide), rfl⟩)
    have hsorted : md5 (label last 0) ∈ ((ofWorld md5 last).addNode md5 last).sortedKeys :=
      (List.mem_insertionSort _).mpr (AList.mem_keys.mp hmem)
    exact List.ne_nil_of_mem hsorted
  · intro p hp
    exact AList.mem_keys.mpr ((List.mem_insertionSort _).mp hp)

end ConsistentHashRing

end Tempo
