import Tempo.RingLookup

/-!
# Ranks that leave the hash ring

A key is stored on the first `n` distinct ranks met from its point.  When ranks leave, the
owners that stay keep their order and come first, and other ranks take the places of those
that left.  So where fewer than `n` ranks leave, the rank that is asked first for a key
was among its owners before (`first_owner_survives`).
-/

namespace Tempo

namespace ConsistentHashRing

variable {md5 : String → Nat} {vn : Nat} {ops : List RingOp} {lost : List Int}
  {nodes : Finset Int}

/-- The updates of a ring that ranks leave. -/
def leave (lost : List Int) : List RingOp := lost.map .remove

theorem current_leave (ops : List RingOp) (lost : List Int) :
    current (ops ++ leave lost) = (current ops).filter (· ∉ lost) := by
  unfold current leave
  rw [List.foldl_append]
  generalize ops.foldl RingOp.onNodes ∅ = nodes
  induction lost generalizing nodes with
  | nil => simp
  | cons rank lost ih =>
      rw [List.map_cons, List.foldl_cons, ih]
      ext v
      simp only [RingOp.onNodes, Finset.mem_filter, Finset.mem_erase, List.mem_cons]
      tauto

theorem points_filter (keep : Int → Bool) :
    points md5 vn (nodes.filter fun v => keep v) =
      (points md5 vn nodes).filter fun q => keep (ofLex q).2 := by
  ext q
  rw [Finset.mem_filter, mem_points_iff, mem_points_iff, Finset.mem_filter]
  tauto

theorem LabelsApart.earlier (hinj : LabelsApart md5 vn (ops ++ leave lost)) :
    LabelsApart md5 vn ops := by
  refine Set.InjOn.mono ?_ hinj
  rintro _ ⟨rank, ⟨op, hop, rfl⟩, i, hi, rfl⟩
  exact ⟨op.rank, ⟨op, List.mem_append_left _ hop, rfl⟩, i, hi, rfl⟩

/-- The owners that stay come first, in the same order. -/
theorem survivors_prefix (hinj : LabelsApart md5 vn (ops ++ leave lost)) (key : String)
    (n : Int) :
    ((build md5 vn ops).getNodes md5 key n).filter (· ∉ lost) <+:
      (build md5 vn (ops ++ leave lost)).getNodes md5 key n := by
  have hkeep : (current ops).filter (· ∉ lost) =
      (current ops).filter fun v => decide (v ∉ lost) := by
    exact Finset.filter_congr fun v _ => by simp
  rw [(represents_build hinj).1.getNodes_eq, (represents_build hinj.earlier).1.getNodes_eq,
    current_leave, hkeep, points_filter fun v => decide (v ∉ lost)]
  exact RingWalk.nearest_filter (fun v => decide (v ∉ lost)) _ _ _

theorem length_le_filter_add {l : List Int} (hnodup : l.Nodup) (lost : List Int) :
    l.length ≤ (l.filter (· ∉ lost)).length + lost.length := by
  have hsplit := List.length_eq_length_filter_add (l := l) (· ∉ lost)
  have hgone : (l.filter fun v => !decide (v ∉ lost)).length ≤ lost.length := by
    refine ((hnodup.filter _).subperm fun v hv => ?_).length_le
    simpa using (List.mem_filter.mp hv).2
  omega

/-- **Fewer losses than replicas leave a replica, and it is asked first.**  Whatever
updates have led to a ring, when fewer ranks leave it than a key has owners, the owners
that stay are the first of the new owners, in their old order, and the first new owner is
one of them. -/
theorem first_owner_survives (hvn : 0 < vn) (hinj : LabelsApart md5 vn (ops ++ leave lost))
    (key : String) {n : Int} (hn : (lost.length : Int) < n)
    (hnodes : lost.length < (current ops).card) :
    ((build md5 vn ops).getNodes md5 key n).filter (· ∉ lost) <+:
        (build md5 vn (ops ++ leave lost)).getNodes md5 key n ∧
      ∃ owner, ((build md5 vn (ops ++ leave lost)).getNodes md5 key n).head? = some owner ∧
        owner ∈ (build md5 vn ops).getNodes md5 key n ∧ owner ∉ lost := by
  have hsurvive := survivors_prefix hinj key n
  refine ⟨hsurvive, ?_⟩
  have hlength : ((build md5 vn ops).getNodes md5 key n).length =
      min n.toNat (current ops).card := by
    have hcount : max 1 n.toNat = n.toNat := by omega
    rw [(represents_build hinj.earlier).1.getNodes_eq, hcount, RingWalk.length_nearest,
      owners_points hvn]
  have hnodup : ((build md5 vn ops).getNodes md5 key n).Nodup := getNodes_nodup _ key n
  have hstay := length_le_filter_add hnodup lost
  cases hkept : ((build md5 vn ops).getNodes md5 key n).filter (· ∉ lost) with
  | nil =>
      rw [hkept, hlength, List.length_nil] at hstay
      omega
  | cons owner rest =>
      have howner : owner ∈ ((build md5 vn ops).getNodes md5 key n).filter (· ∉ lost) := by
        rw [hkept]
        exact List.mem_cons_self
      obtain ⟨hold, hkeep⟩ := List.mem_filter.mp howner
      rw [hkept] at hsurvive
      obtain ⟨others, hothers⟩ := hsurvive
      refine ⟨owner, ?_, hold, by simpa using hkeep⟩
      rw [← hothers]
      rfl

/-- Two replicas, and the first owner leaves. -/
theorem first_owner_survives_two :
    ∃ owner, ((build md5Sample 2 ([.add 0, .add 1] ++ leave [0])).getNodes md5Sample
        "prompt" 2).head? = some owner ∧
      owner ∈ (build md5Sample 2 [.add 0, .add 1]).getNodes md5Sample "prompt" 2 ∧
      owner ∉ [(0 : Int)] :=
  (first_owner_survives (by decide) (labelsApart_two (by simp [leave, RingOp.rank])) "prompt"
    (by decide) (by decide)).2

end ConsistentHashRing

end Tempo
