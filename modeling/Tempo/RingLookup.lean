import Std.Data.String.ToInt
import Mathlib.Data.Finset.Prod
import Mathlib.Data.List.Rotate
import Tempo.ConsistentHashRing
import Tempo.Decimal
import Tempo.RingWalk

/-!
# Lookups on the hash ring

The ring is a dictionary from points to ranks and the sorted list of its points,
and every update rebuilds both.  As long as labels do not collide they represent
a set of ranks (`Represents`), and a lookup is a walk around the points of
these ranks (`getNodes_eq`): the binary search finds where it starts, and the
loop ends it at the `n`th distinct rank.  What a ring has gone through is not to
be seen in its lookups.
-/

namespace Tempo

open OrderedDict

namespace ConsistentHashRing

section Bisect

variable {keys : List Nat} {h : Nat}

/-- The keys before index `k` are below `h`, and no other. -/
structure Splits (keys : List Nat) (h k : Nat) : Prop where
  le_length : k ≤ keys.length
  below : ∀ i, i < k → keys.getD i 0 < h
  above : ∀ i, k ≤ i → i < keys.length → h ≤ keys.getD i 0

theorem getD_le_getD (hsorted : keys.Pairwise (· ≤ ·)) {i j : Nat}
    (hij : i ≤ j) (hj : j < keys.length) : keys.getD i 0 ≤ keys.getD j 0 := by
  rw [List.getD_eq_getElem _ _ (hij.trans_lt hj), List.getD_eq_getElem _ _ hj]
  rcases hij.lt_or_eq with hlt | rfl
  · exact List.pairwise_iff_getElem.mp hsorted i j _ hj hlt
  · exact le_refl _

/-- The binary search keeps the keys before `lo` below `h` and those from `hi`
on not, and ends where the two meet. -/
theorem bisectLoop_splits (hsorted : keys.Pairwise (· ≤ ·)) (turns : Nat) :
    ∀ {lo hi : Nat}, hi - lo ≤ turns → lo ≤ hi → hi ≤ keys.length →
      (∀ i, i < lo → keys.getD i 0 < h) →
      (∀ i, hi ≤ i → i < keys.length → h ≤ keys.getD i 0) →
      Splits keys h (bisectLoop keys h turns lo hi) := by
  induction turns with
  | zero =>
      intro lo hi hturns hle hlength hbelow habove
      obtain rfl : lo = hi := by omega
      exact ⟨hlength, hbelow, habove⟩
  | succ turns ih =>
      intro lo hi hturns hle hlength hbelow habove
      unfold bisectLoop
      by_cases hlt : lo < hi
      · rw [if_pos hlt]
        dsimp only
        by_cases hmid : keys.getD ((lo + hi) / 2) 0 < h
        · rw [if_pos hmid]
          apply ih (by omega) (by omega) hlength _ habove
          intro i hi'
          exact (getD_le_getD hsorted (by omega) (by omega)).trans_lt hmid
        · rw [if_neg hmid]
          apply ih (by omega) (by omega) (by omega) hbelow
          intro i hi' hlength'
          exact (not_lt.mp hmid).trans (getD_le_getD hsorted hi' hlength')
      · rw [if_neg hlt]
        obtain rfl : lo = hi := by omega
        exact ⟨hlength, hbelow, habove⟩

theorem Splits.le_of_mem_drop {k : Nat} (hk : Splits keys h k) {p : Nat}
    (hp : p ∈ keys.drop k) : h ≤ p := by
  obtain ⟨i, hi, rfl⟩ := List.getElem_of_mem hp
  have hik : k + i < keys.length := by
    rw [List.length_drop] at hi
    omega
  have habove := hk.above (k + i) (Nat.le_add_right _ _) hik
  rw [List.getD_eq_getElem _ _ hik] at habove
  simpa using habove

theorem Splits.filter_lt {k : Nat} (hk : Splits keys h k) :
    keys.filter (· < h) = keys.take k := by
  have htake : (keys.take k).filter (· < h) = keys.take k := by
    refine List.filter_eq_self.mpr fun p hp => ?_
    obtain ⟨i, hi, rfl⟩ := List.getElem_of_mem hp
    have hik : i < k := by
      rw [List.length_take] at hi
      omega
    have hbelow := hk.below i hik
    rw [List.getD_eq_getElem _ _ (hik.trans_le hk.le_length)] at hbelow
    simpa using hbelow
  have hdrop : (keys.drop k).filter (· < h) = [] := by
    refine List.filter_eq_nil_iff.mpr fun p hp => ?_
    simpa using hk.le_of_mem_drop hp
  calc keys.filter (· < h)
      = (keys.take k ++ keys.drop k).filter (· < h) := by
        rw [List.take_append_drop]
    _ = keys.take k := by rw [List.filter_append, htake, hdrop, List.append_nil]

theorem Splits.filter_le {k : Nat} (hk : Splits keys h k) :
    keys.filter (h ≤ ·) = keys.drop k := by
  have htake : (keys.take k).filter (h ≤ ·) = [] := by
    refine List.filter_eq_nil_iff.mpr fun p hp => ?_
    rw [← hk.filter_lt] at hp
    have hbelow := (List.mem_filter.mp hp).2
    simp only [decide_eq_true_eq] at hbelow ⊢
    omega
  have hdrop : (keys.drop k).filter (h ≤ ·) = keys.drop k := by
    refine List.filter_eq_self.mpr fun p hp => ?_
    simpa using hk.le_of_mem_drop hp
  calc keys.filter (h ≤ ·)
      = (keys.take k ++ keys.drop k).filter (h ≤ ·) := by
        rw [List.take_append_drop]
    _ = keys.drop k := by rw [List.filter_append, htake, hdrop, List.nil_append]

/-- The indices taken modulo the length go around the list once. -/
theorem map_range_mod (start : Nat) :
    ((List.range keys.length).map fun i =>
      keys.getD ((start + i) % keys.length) 0) = keys.rotate start := by
  refine List.ext_getElem (by simp) fun i hi hi' => ?_
  have hpos : 0 < keys.length := by
    rw [List.length_rotate] at hi'
    omega
  rw [List.getElem_map, List.getElem_range, List.getElem_rotate,
    List.getD_eq_getElem _ _ (Nat.mod_lt _ hpos)]
  simp only [Nat.add_comm]

/-- The loop goes over the points from the first at or after `h` on, and then
over those before. -/
theorem clockwise_eq {r : ConsistentHashRing}
    (hsorted : r.sortedKeys.Pairwise (· ≤ ·)) (h : Nat) :
    r.clockwise h =
      r.sortedKeys.filter (h ≤ ·) ++ r.sortedKeys.filter (· < h) := by
  have hsplits : Splits r.sortedKeys h (bisectLoop r.sortedKeys h
      r.sortedKeys.length 0 r.sortedKeys.length) :=
    bisectLoop_splits hsorted _ (by omega) (by omega) (le_refl _)
      (fun i hi => absurd hi (by omega)) (fun i hi hi' => absurd hi' (by omega))
  have hstart : r.sortedKeys.rotate (r.bisect h) = r.sortedKeys.rotate
      (bisectLoop r.sortedKeys h r.sortedKeys.length 0 r.sortedKeys.length) := by
    unfold bisect
    cases hkeys : r.sortedKeys with
    | nil => simp
    | cons p keys =>
        rw [max_eq_right (by simp), List.rotate_mod]
  unfold clockwise
  rw [map_range_mod, hstart,
    List.rotate_eq_drop_append_take hsplits.le_length, hsplits.filter_le,
    hsplits.filter_lt]

end Bisect

section Labels

/-- The last hyphen of a label stands between the rank and the number. -/
theorem label_injective {rank rank' : Int} {i j : Nat}
    (h : label rank i = label rank' j) : rank = rank' ∧ i = j := by
  have hdigits : ∀ k : Nat, '-' ∉ (Nat.repr k).toList.reverse := by
    intro k hmem
    rw [List.mem_reverse, Nat.toList_repr] at hmem
    exact absurd (Nat.isDigit_of_mem_toDigits (by omega) (by omega) hmem)
      (by decide)
  have hlists : (Nat.repr i).toList.reverse ++ '-' :: (Int.repr rank).toList.reverse =
      (Nat.repr j).toList.reverse ++ '-' :: (Int.repr rank').toList.reverse := by
    have hchars := congrArg (fun s : String => s.toList.reverse) h
    simpa [label, String.toList_append, toString] using hchars
  obtain ⟨hi, hrank⟩ := Decimal.append_cons_inj (hdigits i) (hdigits j) hlists
  exact ⟨Int.repr_injective (String.toList_inj.mp (List.reverse_injective hrank)),
    Nat.repr_injective (String.toList_inj.mp (List.reverse_injective hi))⟩

/-- The labels of the virtual nodes of some ranks. -/
def labels (vn : Nat) (ranks : Set Int) : Set String :=
  {l | ∃ rank ∈ ranks, ∃ i < vn, l = label rank i}

variable {md5 : String → Nat} {vn : Nat} {ranks : Set Int}

theorem rank_eq_of_point_eq (hinj : Set.InjOn md5 (labels vn ranks))
    {rank rank' : Int} {i j : Nat} (hrank : rank ∈ ranks) (hrank' : rank' ∈ ranks)
    (hi : i < vn) (hj : j < vn)
    (h : md5 (label rank i) = md5 (label rank' j)) : rank = rank' := by
  have hlabel : label rank i = label rank' j :=
    hinj ⟨rank, hrank, i, hi, rfl⟩ ⟨rank', hrank', j, hj, rfl⟩ h
  exact (label_injective hlabel).1

end Labels

section Represents

variable {md5 : String → Nat} {vn : Nat} {r : ConsistentHashRing}
  {nodes : Finset Int} {rank : Int} {p : Nat}

/-- The points of a set of ranks, with their owners. -/
def points (md5 : String → Nat) (vn : Nat) (nodes : Finset Int) :
    Finset (Nat ×ₗ Int) :=
  (nodes ×ˢ Finset.range vn).image fun v =>
    toLex (md5 (label v.1 v.2), v.1)

theorem mem_points_iff {q : Nat ×ₗ Int} :
    q ∈ points md5 vn nodes ↔
      (ofLex q).2 ∈ nodes ∧
        ∃ i < vn, md5 (label (ofLex q).2 i) = (ofLex q).1 := by
  unfold points
  rw [Finset.mem_image]
  constructor
  · rintro ⟨⟨v, i⟩, hv, rfl⟩
    obtain ⟨hv, hi⟩ := Finset.mem_product.mp hv
    exact ⟨hv, i, Finset.mem_range.mp hi, rfl⟩
  · rintro ⟨hv, i, hi, hpoint⟩
    refine ⟨((ofLex q).2, i),
      Finset.mem_product.mpr ⟨hv, Finset.mem_range.mpr hi⟩, ?_⟩
    dsimp only
    rw [hpoint]
    rfl

/-- The owners of the points are the ranks. -/
theorem owners_points (hvn : 0 < vn) :
    (points md5 vn nodes).image (fun q => (ofLex q).2) = nodes := by
  ext v
  rw [Finset.mem_image]
  constructor
  · rintro ⟨q, hq, rfl⟩
    exact (mem_points_iff.mp hq).1
  · intro hv
    exact ⟨toLex (md5 (label v 0), v), mem_points_iff.mpr ⟨hv, 0, hvn, rfl⟩, rfl⟩

theorem points_erase :
    points md5 vn (nodes.erase rank) =
      (points md5 vn nodes).filter fun q => (ofLex q).2 ≠ rank := by
  ext q
  rw [Finset.mem_filter, mem_points_iff, mem_points_iff, Finset.mem_erase]
  tauto

/-- The dictionary and the sorted list are those of the points of `nodes`. -/
structure Represents (md5 : String → Nat) (vn : Nat) (r : ConsistentHashRing)
    (nodes : Finset Int) : Prop where
  virtual : r.vn = vn
  lookup : ∀ p v, r.ring.lookup p = some v ↔
    v ∈ nodes ∧ ∃ i < vn, md5 (label v i) = p
  sorted : r.sortedKeys = r.ring.keys.insertionSort (· ≤ ·)

/-- An update of single points, made at each of several points. -/
theorem lookup_foldl_points {point : Nat → Nat}
    (update : Dict Nat Int → Nat → Dict Nat Int) {value : Option Int}
    (hupdate : ∀ ring q, (update ring q).lookup p =
      if p = q then value else ring.lookup p) (l : List Nat) :
    ∀ ring : Dict Nat Int,
      (l.foldl (fun ring i => update ring (point i)) ring).lookup p =
        if ∃ i ∈ l, point i = p then value else ring.lookup p := by
  induction l with
  | nil => simp
  | cons i l ih =>
      intro ring
      rw [List.foldl_cons, ih, hupdate]
      by_cases hlater : ∃ j ∈ l, point j = p
      · obtain ⟨j, hj, hp⟩ := hlater
        rw [if_pos ⟨j, hj, hp⟩, if_pos ⟨j, List.mem_cons_of_mem _ hj, hp⟩]
      · rw [if_neg hlater]
        by_cases hp : p = point i
        · rw [if_pos hp, if_pos ⟨i, List.mem_cons_self, hp.symm⟩]
        · rw [if_neg hp, if_neg]
          rintro ⟨j, hj, rfl⟩
          rcases List.mem_cons.mp hj with rfl | hj
          · exact hp rfl
          · exact hlater ⟨j, hj, rfl⟩

theorem lookup_addPoints {point : Nat → Nat} (l : List Nat) (ring : Dict Nat Int) :
    (l.foldl (fun ring i => assign ring (point i) rank) ring).lookup p =
      if ∃ i ∈ l, point i = p then some rank else ring.lookup p := by
  apply lookup_foldl_points fun ring q => assign ring q rank
  intro ring q
  exact lookup_assign ..

theorem lookup_removePoints {point : Nat → Nat} (l : List Nat)
    (ring : Dict Nat Int) :
    (l.foldl (fun ring i => ring.erase (point i)) ring).lookup p =
      if ∃ i ∈ l, point i = p then none else ring.lookup p := by
  apply lookup_foldl_points fun ring q => ring.erase q
  intro ring q
  by_cases hp : p = q
  · rw [if_pos hp, hp, AList.lookup_erase]
  · rw [if_neg hp, AList.lookup_erase_ne hp]

theorem represents_empty : Represents md5 vn { vn } ∅ where
  virtual := rfl
  lookup := by simp
  sorted := rfl

section Updates

variable {ranks : Set Int} (hinj : Set.InjOn md5 (labels vn ranks))
  (hr : Represents md5 vn r nodes) (hnodes : ∀ v ∈ nodes, v ∈ ranks)
  (hrank : rank ∈ ranks)

include hinj hr hnodes hrank

theorem Represents.addNode :
    Represents md5 vn (r.addNode md5 rank) (insert rank nodes) where
  virtual := hr.virtual
  lookup := by
    intro p v
    have hlookup : (r.addNode md5 rank).ring.lookup p =
        if ∃ i ∈ List.range r.vn, md5 (label rank i) = p then some rank
        else r.ring.lookup p := lookup_addPoints _ _
    rw [hlookup, hr.virtual]
    simp only [List.mem_range, Finset.mem_insert]
    by_cases hown : ∃ i < vn, md5 (label rank i) = p
    · rw [if_pos hown]
      obtain ⟨i, hi, rfl⟩ := hown
      constructor
      · rintro ⟨rfl⟩
        exact ⟨.inl rfl, i, hi, rfl⟩
      · rintro ⟨hv, j, hj, hpoint⟩
        have hmem : v ∈ ranks := hv.elim (fun heq => heq ▸ hrank) (hnodes v)
        rw [rank_eq_of_point_eq hinj hmem hrank hj hi hpoint]
    · rw [if_neg hown, hr.lookup]
      constructor
      · exact fun h => ⟨.inr h.1, h.2⟩
      · rintro ⟨rfl | hv, hpoint⟩
        · exact absurd hpoint hown
        · exact ⟨hv, hpoint⟩
  sorted := rfl

theorem Represents.removeNode :
    Represents md5 vn (r.removeNode md5 rank) (nodes.erase rank) where
  virtual := hr.virtual
  lookup := by
    intro p v
    have hlookup : (r.removeNode md5 rank).ring.lookup p =
        if ∃ i ∈ List.range r.vn, md5 (label rank i) = p then none
        else r.ring.lookup p := lookup_removePoints _ _
    rw [hlookup, hr.virtual]
    simp only [List.mem_range, Finset.mem_erase]
    by_cases hown : ∃ i < vn, md5 (label rank i) = p
    · rw [if_pos hown]
      obtain ⟨i, hi, rfl⟩ := hown
      refine iff_of_false (by simp) ?_
      rintro ⟨⟨hne, hv⟩, j, hj, hpoint⟩
      exact hne (rank_eq_of_point_eq hinj (hnodes v hv) hrank hj hi hpoint)
    · rw [if_neg hown, hr.lookup]
      constructor
      · rintro ⟨hv, hpoint⟩
        refine ⟨⟨?_, hv⟩, hpoint⟩
        rintro rfl
        exact hown hpoint
      · exact fun h => ⟨h.1.2, h.2⟩
  sorted := rfl

end Updates

/-- The loop ends at the `n`th distinct owner, and at the first for `n` less
than one. -/
theorem collect_eq {ring : Dict Nat Int} {owner : Nat → Int} {n : Int}
    (path : List Nat) :
    ∀ {found : List Int}, (∀ p ∈ path, ring.lookup p = some (owner p)) →
      found.length < max 1 n.toNat →
      collect ring n path found =
        RingWalk.collected (max 1 n.toNat) found (path.map owner) := by
  induction path with
  | nil =>
      intro found _ hlength
      simp [collect, RingWalk.collected, List.take_of_length_le hlength.le]
  | cons p path ih =>
      intro found howner hlength
      have hrest : ∀ q ∈ path, ring.lookup q = some (owner q) := fun q hq =>
        howner q (List.mem_cons_of_mem _ hq)
      unfold collect
      rw [howner p List.mem_cons_self, List.map_cons]
      dsimp only
      by_cases hmem : owner p ∈ found
      · have hpos : 0 < found.length := List.length_pos_of_mem hmem
        have hfound : meet found (owner p) = found := if_pos hmem
        rw [hfound, if_neg (by omega), RingWalk.collected_of_mem hmem]
        exact ih hrest hlength
      · have hfound : meet found (owner p) = found ++ [owner p] := if_neg hmem
        rw [hfound, RingWalk.collected_of_notMem hmem]
        have hone : (found ++ [owner p]).length = found.length + 1 := by simp
        by_cases hlast : n ≤ (found ++ [owner p]).length
        · rw [if_pos hlast, RingWalk.collected_of_length (by omega)]
        · rw [if_neg hlast]
          exact ih hrest (by omega)

theorem Represents.increasing (hr : Represents md5 vn r nodes) :
    r.sortedKeys.Pairwise (· < ·) := by
  have hsorted : r.sortedKeys.Pairwise (· ≤ ·) := by
    rw [hr.sorted]
    exact List.pairwise_insertionSort _ _
  have hnodup : r.sortedKeys.Nodup := by
    rw [hr.sorted]
    exact (List.perm_insertionSort _ _).nodup_iff.mpr r.ring.keys_nodup
  exact (hsorted.and hnodup).imp fun h => lt_of_le_of_ne h.1 h.2

theorem Represents.mem_sortedKeys (hr : Represents md5 vn r nodes) (p : Nat) :
    p ∈ r.sortedKeys ↔ p ∈ r.ring := by
  rw [hr.sorted, List.mem_insertionSort, AList.mem_keys]

/-- The sorted keys with their owners are the points. -/
theorem Represents.mem_owned (hr : Represents md5 vn r nodes) (q : Nat ×ₗ Int) :
    (q ∈ r.sortedKeys.map fun p => toLex (p, (r.ring.lookup p).getD 0)) ↔
      q ∈ points md5 vn nodes := by
  rw [List.mem_map, mem_points_iff, ← hr.lookup]
  constructor
  · rintro ⟨p, hp, rfl⟩
    obtain ⟨v, hv⟩ := exists_lookup ((hr.mem_sortedKeys p).mp hp)
    simp [hv]
  · intro hq
    have hmem : (ofLex q).1 ∈ r.ring := mem_of_lookup hq
    refine ⟨(ofLex q).1, (hr.mem_sortedKeys _).mpr hmem, ?_⟩
    rw [hq]
    rfl

/-- **A lookup walks around the points of the ranks.** -/
theorem Represents.getNodes_eq (hr : Represents md5 vn r nodes) (key : String)
    (n : Int) :
    r.getNodes md5 key n =
      RingWalk.nearest (max 1 n.toNat) (points md5 vn nodes) (md5 key) := by
  have howner : ∀ p ∈ r.clockwise (md5 key),
      r.ring.lookup p = some ((r.ring.lookup p).getD 0) := by
    intro p hp
    have hmem : p ∈ r.ring := (hr.mem_sortedKeys p).mp (mem_clockwise hp)
    obtain ⟨v, hv⟩ := exists_lookup hmem
    simp [hv]
  have hcollect : r.getNodes md5 key n =
      collect r.ring n (r.clockwise (md5 key)) [] := by
    unfold getNodes
    by_cases hempty : r.sortedKeys = []
    · rw [if_pos hempty]
      simp [clockwise, hempty, collect]
    · rw [if_neg hempty]
  have hwalk : ((RingWalk.clockwise (r.sortedKeys.map fun p =>
      toLex (p, (r.ring.lookup p).getD 0)) (md5 key)).map fun q => (ofLex q).2) =
        (r.clockwise (md5 key)).map fun p => (r.ring.lookup p).getD 0 := by
    unfold RingWalk.clockwise
    rw [clockwise_eq (hr.increasing.imp le_of_lt), List.filter_map,
      List.filter_map, ← List.map_append, List.map_map]
    rfl
  rw [hcollect, collect_eq _ howner (by simp), RingWalk.collected_nil,
    RingWalk.nearest_eq_of_increasing (List.pairwise_map.mpr hr.increasing)
      hr.mem_owned, hwalk]

end Represents

/-- An update of the ring. -/
inductive RingOp
  | add (rank : Int)
  | remove (rank : Int)

namespace RingOp

def rank : RingOp → Int
  | .add rank | .remove rank => rank

def apply (md5 : String → Nat) (r : ConsistentHashRing) :
    RingOp → ConsistentHashRing
  | .add rank => r.addNode md5 rank
  | .remove rank => r.removeNode md5 rank

/-- What the update does to the set of ranks. -/
def onNodes (nodes : Finset Int) : RingOp → Finset Int
  | .add rank => insert rank nodes
  | .remove rank => nodes.erase rank

end RingOp

section Runs

variable {md5 : String → Nat} {vn : Nat} {ops : List RingOp}

/-- A new ring after some updates, the oldest first. -/
def build (md5 : String → Nat) (vn : Nat) (ops : List RingOp) :
    ConsistentHashRing :=
  ops.foldl (RingOp.apply md5) { vn }

/-- The ranks that have been added and not removed since. -/
def current (ops : List RingOp) : Finset Int := ops.foldl RingOp.onNodes ∅

/-- Different virtual nodes of the ranks that are named have different
points. -/
def LabelsApart (md5 : String → Nat) (vn : Nat) (ops : List RingOp) : Prop :=
  Set.InjOn md5 (labels vn {rank | ∃ op ∈ ops, op.rank = rank})

theorem Represents.apply {ranks : Set Int} {r : ConsistentHashRing}
    {nodes : Finset Int} (hinj : Set.InjOn md5 (labels vn ranks))
    (hr : Represents md5 vn r nodes) (hnodes : ∀ v ∈ nodes, v ∈ ranks)
    (op : RingOp) (hop : op.rank ∈ ranks) :
    Represents md5 vn (op.apply md5 r) (op.onNodes nodes) := by
  cases op with
  | add rank => exact hr.addNode hinj hnodes hop
  | remove rank => exact hr.removeNode hinj hnodes hop

theorem mem_of_mem_onNodes {nodes : Finset Int} {op : RingOp} {v : Int}
    (h : v ∈ op.onNodes nodes) : v = op.rank ∨ v ∈ nodes := by
  cases op with
  | add rank => exact Finset.mem_insert.mp h
  | remove rank => exact .inr (Finset.mem_of_mem_erase h)

/-- Every ring that is built represents its ranks. -/
theorem represents_build (hinj : LabelsApart md5 vn ops) :
    Represents md5 vn (build md5 vn ops) (current ops) ∧
      ∀ v ∈ current ops, ∃ op ∈ ops, op.rank = v := by
  unfold LabelsApart at hinj
  -- the labels are those of all updates, also while they are made
  have hbegins : ∀ done : List RingOp, (∀ op ∈ done, op ∈ ops) →
      Represents md5 vn (build md5 vn done) (current done) ∧
        ∀ v ∈ current done, ∃ op ∈ ops, op.rank = v := by
    intro done
    induction done using List.reverseRecOn with
    | nil => exact fun _ => ⟨represents_empty, fun v hv => absurd hv (by simp [current])⟩
    | append_singleton done op ih =>
        intro hdone
        obtain ⟨hr, hnodes⟩ := ih fun o ho =>
          hdone o (List.mem_append_left _ ho)
        have hop : op ∈ ops := hdone op (by simp)
        unfold build current
        rw [List.foldl_append, List.foldl_append]
        refine ⟨hr.apply hinj hnodes op ⟨op, hop, rfl⟩, fun v hv => ?_⟩
        rcases mem_of_mem_onNodes hv with rfl | hv
        · exact ⟨op, hop, rfl⟩
        · exact hnodes v hv
  exact hbegins ops fun _ h => h

/-- **A lookup depends on the ranks only.**  It gives the first distinct ranks
met clockwise from the key, as many as asked for or all, whatever updates have
led to the ring. -/
theorem getNodes_build (hvn : 0 < vn) (hinj : LabelsApart md5 vn ops)
    (key : String) {n : Int} (hn : 1 ≤ n) :
    (build md5 vn ops).getNodes md5 key n =
        RingWalk.nearest n.toNat (points md5 vn (current ops)) (md5 key) ∧
      ((build md5 vn ops).getNodes md5 key n).length =
        min n.toNat (current ops).card ∧
      ((build md5 vn ops).getNodes md5 key n).Nodup ∧
      ∀ ops', LabelsApart md5 vn ops' → current ops' = current ops →
        (build md5 vn ops').getNodes md5 key n =
          (build md5 vn ops).getNodes md5 key n := by
  have hcount : max 1 n.toNat = n.toNat := by omega
  have heq : ∀ {ops : List RingOp}, LabelsApart md5 vn ops →
      (build md5 vn ops).getNodes md5 key n =
        RingWalk.nearest n.toNat (points md5 vn (current ops)) (md5 key) := by
    intro ops hinj
    rw [(represents_build hinj).1.getNodes_eq, hcount]
  refine ⟨heq hinj, ?_, getNodes_nodup _ _ _, ?_⟩
  · rw [heq hinj, RingWalk.length_nearest, owners_points hvn]
  · intro ops' hinj' hsame
    rw [heq hinj, heq hinj', hsame]

/-- **Removing a rank disturbs its own keys only.**  Another key's owners stay,
and where the rank was among them the next one takes its turn; adding it again
restores every lookup. -/
theorem getNodes_removeNode (hinj : LabelsApart md5 vn ops) {rank : Int}
    (hrank : rank ∈ current ops) (key : String) {n : Int} (hn : 1 ≤ n) :
    ((build md5 vn ops).removeNode md5 rank).getNodes md5 key n =
        (((build md5 vn ops).getNodes md5 key (n + 1)).filter
          (· ≠ rank)).take n.toNat ∧
      ∀ key m,
        (((build md5 vn ops).removeNode md5 rank).addNode md5 rank).getNodes
            md5 key m =
          (build md5 vn ops).getNodes md5 key m := by
  obtain ⟨hr, hnodes⟩ := represents_build hinj
  have hop := hnodes rank hrank
  have hremoved := hr.removeNode hinj hnodes hop
  constructor
  · have hcount : max 1 n.toNat = n.toNat := by omega
    have hnext : max 1 (n + 1).toNat = n.toNat + 1 := by omega
    rw [hremoved.getNodes_eq, hr.getNodes_eq, hcount, hnext, points_erase,
      RingWalk.nearest_without]
  · intro key m
    have hrestored := hremoved.addNode hinj
      (fun v hv => hnodes v (Finset.mem_of_mem_erase hv)) hop
    rw [hrestored.getNodes_eq, hr.getNodes_eq, Finset.insert_erase hrank]

/-- The MD5 of some labels and of a key. -/
def md5Sample (s : String) : Nat :=
  if s = "0-0" then 0xc7763203e20a64b270352752d6a1e7c6
  else if s = "0-1" then 0xc2eb282156233b5d827219971c8b04c2
  else if s = "1-0" then 0xeca26941bc5187d1e2983961edb6dbb6
  else if s = "1-1" then 0xea66c06c1e1c05fa9f1aa39d98dc5bc1
  else 0x4ae35dbb42614d2429b7d6d181a950bb

theorem labelsApart_two {ops : List RingOp}
    (hranks : ∀ op ∈ ops, op.rank = 0 ∨ op.rank = 1) :
    LabelsApart md5Sample 2 ops := by
  have hsubset : labels 2 {rank | ∃ op ∈ ops, op.rank = rank} ⊆
      ({"0-0", "0-1", "1-0", "1-1"} : Finset String) := by
    rintro l ⟨rank, ⟨op, hop, rfl⟩, i, hi, rfl⟩
    have hnumber : i = 0 ∨ i = 1 := by omega
    rcases hranks op hop with hrank | hrank <;>
      rcases hnumber with rfl | rfl <;> rw [hrank] <;> decide +kernel
  have hinj : ∀ x ∈ ({"0-0", "0-1", "1-0", "1-1"} : Finset String),
      ∀ y ∈ ({"0-0", "0-1", "1-0", "1-1"} : Finset String),
        md5Sample x = md5Sample y → x = y := by
    decide +kernel
  intro x hx y hy h
  exact hinj x (hsubset hx) y (hsubset hy) h

/-- Two ranks on the ring, after one was taken off and put back. -/
theorem getNodes_build_two :
    ((build md5Sample 2 [.add 0, .add 1, .remove 0, .add 0]).getNodes md5Sample
      "prompt" 2).length = 2 := by
  have hapart : LabelsApart md5Sample 2 [.add 0, .add 1, .remove 0, .add 0] :=
    labelsApart_two (by simp [RingOp.rank])
  have hlength := (getNodes_build (by decide) hapart "prompt"
    (show (1 : Int) ≤ 2 by decide)).2.1
  rw [hlength]
  decide

/-- The key of rank 0 goes to rank 1 when rank 0 leaves. -/
theorem getNodes_removeNode_two :
    ((build md5Sample 2 [.add 0, .add 1]).removeNode md5Sample 0).getNodes
      md5Sample "prompt" 1 = [1] := by
  have hapart : LabelsApart md5Sample 2 [.add 0, .add 1] :=
    labelsApart_two (by simp [RingOp.rank])
  have hzero : (0 : Int) ∈ current [.add 0, .add 1] := by decide
  have hremoved :=
    (getNodes_removeNode hapart hzero "prompt" (le_refl (1 : Int))).1
  rw [hremoved]
  decide +kernel

end Runs

end ConsistentHashRing

end Tempo
