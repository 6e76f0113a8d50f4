import Mathlib.Data.Finset.Sort
import Mathlib.Data.List.Nodup
import Mathlib.Data.Prod.Lex

/-!
# Walks around a ring of owned points

Points on a circle, each with an owner; a walk meets them in their order from a
place on, and those before that place last.  The nearest owners of a place are
the first distinct ones met.  A walk depends on the set of points only, and
without one owner's points it meets the others in the same order
(`nearest_without`).
-/

namespace RingWalk

section FirstDistinct

variable {α : Type*} [DecidableEq α]

/-- The entries that `eraseDups` goes on with are fewer. -/
theorem length_filter_lt_of_cons {a : α} {l : List α} {n : Nat}
    (hlength : (a :: l).length = n) : (l.filter fun b => !b == a).length < n := by
  have hle := List.length_filter_le (fun b => !b == a) l
  rw [List.length_cons] at hlength
  omega

theorem eraseDups_filter (p : α → Bool) (l : List α) :
    (l.filter p).eraseDups = l.eraseDups.filter p := by
  induction hlength : l.length using Nat.strong_induction_on generalizing l with
  | _ n ih =>
      cases l with
      | nil => rfl
      | cons a l =>
          have hshorter := length_filter_lt_of_cons hlength
          have hrest := ih _ hshorter (l.filter fun b => !b == a) rfl
          rw [List.eraseDups_cons]
          by_cases hp : p a = true
          · rw [List.filter_cons_of_pos hp, List.filter_cons_of_pos hp,
              List.eraseDups_cons, ← hrest, List.filter_filter,
              List.filter_filter]
            simp only [Bool.and_comm]
          · rw [List.filter_cons_of_neg hp, List.filter_cons_of_neg hp, ← hrest,
              List.filter_filter]
            -- what `p` keeps is not `a`
            congr 1
            refine List.filter_congr fun b _ => ?_
            by_cases hba : b = a
            · subst hba
              simp [hp]
            · simp [hba]

theorem nodup_eraseDups (l : List α) : l.eraseDups.Nodup := by
  induction hlength : l.length using Nat.strong_induction_on generalizing l with
  | _ n ih =>
      cases l with
      | nil => exact List.nodup_nil
      | cons a l =>
          have hshorter := length_filter_lt_of_cons hlength
          rw [List.eraseDups_cons]
          refine List.nodup_cons.mpr ⟨?_, ih _ hshorter _ rfl⟩
          rw [List.mem_eraseDups]
          simp

/-- One more entry makes up for a deleted one. -/
theorem take_filter_ne {l : List α} (hnodup : l.Nodup) (a : α) (n : Nat) :
    ((l.take (n + 1)).filter (· ≠ a)).take n =
      (l.filter (· ≠ a)).take n := by
  conv_rhs => rw [← List.take_append_drop (n + 1) l]
  rw [List.filter_append]
  rcases Nat.lt_or_ge n l.length with hlong | hshort
  · have hfirst : n ≤ ((l.take (n + 1)).filter (· ≠ a)).length := by
      have htake : (l.take (n + 1)).Nodup := hnodup.sublist (List.take_sublist _ _)
      have herase : (l.take (n + 1)).filter (· ≠ a) = (l.take (n + 1)).erase a := by
        rw [htake.erase_eq_filter]
        exact List.filter_congr fun b _ => by grind
      have hlength : (l.take (n + 1)).length = n + 1 :=
        List.length_take_of_le hlong
      rw [herase]
      have hle := List.le_length_erase (a := a) (l := l.take (n + 1))
      omega
    rw [List.take_append_of_le_length hfirst]
  · rw [List.drop_eq_nil_of_le (by omega), List.filter_nil, List.append_nil]

/-- Collecting with what has been found: `found` first, then the first distinct
entries that are not among it. -/
def collected (n : Nat) (found l : List α) : List α :=
  (found ++ (l.filter (· ∉ found)).eraseDups).take n

theorem collected_nil (n : Nat) (l : List α) :
    collected n [] l = l.eraseDups.take n := by
  simp [collected]

theorem collected_of_mem {n : Nat} {found l : List α} {a : α} (ha : a ∈ found) :
    collected n found (a :: l) = collected n found l := by
  unfold collected
  rw [List.filter_cons_of_neg (by simpa using ha)]

theorem collected_of_notMem {n : Nat} {found l : List α} {a : α}
    (ha : a ∉ found) :
    collected n found (a :: l) = collected n (found ++ [a]) l := by
  unfold collected
  rw [List.filter_cons_of_pos (by simpa using ha), List.eraseDups_cons,
    List.filter_filter, List.append_assoc, List.singleton_append]
  congr 3
  refine congrArg List.eraseDups (List.filter_congr fun b _ => ?_)
  by_cases hb : b = a <;> simp [hb]

theorem collected_of_length {n : Nat} {found l : List α}
    (h : found.length = n) : collected n found l = found := by
  unfold collected
  rw [List.take_append_of_le_length h.ge, List.take_of_length_le h.le]

end FirstDistinct

section Walk

variable {K N : Type*} [LinearOrder K]

/-- The points from `h` on, then those before. -/
def clockwise (points : List (K ×ₗ N)) (h : K) : List (K ×ₗ N) :=
  points.filter (fun p => h ≤ (ofLex p).1) ++
    points.filter fun p => (ofLex p).1 < h

theorem mem_clockwise {points : List (K ×ₗ N)} {h : K} {p : K ×ₗ N} :
    p ∈ clockwise points h ↔ p ∈ points := by
  unfold clockwise
  rw [List.mem_append, List.mem_filter, List.mem_filter, decide_eq_true_iff,
    decide_eq_true_iff, ← and_or_left]
  exact and_iff_left (le_or_gt _ _)

theorem clockwise_filter (keep : K ×ₗ N → Bool) (points : List (K ×ₗ N)) (h : K) :
    clockwise (points.filter keep) h = (clockwise points h).filter keep := by
  unfold clockwise
  rw [List.filter_append]
  congr 1
  · exact List.filter_comm _ _ _
  · exact List.filter_comm _ _ _

variable [LinearOrder N]

theorem sort_filter (s : Finset (K ×ₗ N)) (keep : K ×ₗ N → Bool) :
    (s.filter fun p => keep p).sort = s.sort.filter keep := by
  have hset : (s.sort.filter keep).toFinset = s.filter fun p => keep p := by
    ext p
    simp
  rw [← hset]
  refine (List.toFinset_sort (· ≤ ·) ((s.sort_nodup _).filter _)).mpr ?_
  exact (s.pairwise_sort _).filter _

/-- The first `n` distinct owners met from `h` on. -/
def nearest (n : Nat) (points : Finset (K ×ₗ N)) (h : K) : List N :=
  (((clockwise points.sort h).map fun p => (ofLex p).2).eraseDups).take n

variable {n : Nat} {points : Finset (K ×ₗ N)} {h : K}

/-- The walk along any list of the points in order of their keys. -/
theorem nearest_eq_of_increasing {l : List (K ×ₗ N)}
    (hincreasing : l.Pairwise fun p q => (ofLex p).1 < (ofLex q).1)
    (hmem : ∀ p, p ∈ l ↔ p ∈ points) :
    nearest n points h =
      (((clockwise l h).map fun p => (ofLex p).2).eraseDups).take n := by
  have hset : l.toFinset = points := by
    ext p
    rw [List.mem_toFinset, hmem]
  have hnodup : l.Nodup := by
    refine hincreasing.imp ?_
    rintro p q hlt rfl
    exact lt_irrefl _ hlt
  have hsort : points.sort = l := by
    rw [← hset]
    refine (List.toFinset_sort (· ≤ ·) hnodup).mpr (hincreasing.imp ?_)
    intro p q hlt
    exact Prod.Lex.le_iff.mpr (.inl hlt)
  unfold nearest
  rw [hsort]

/-- As many owners as asked for, or all. -/
theorem length_nearest :
    (nearest n points h).length =
      min n (points.image fun p => (ofLex p).2).card := by
  have hset : (((clockwise points.sort h).map fun p =>
      (ofLex p).2).eraseDups).toFinset = points.image fun p => (ofLex p).2 := by
    ext owner
    rw [List.mem_toFinset, List.mem_eraseDups]
    simp [mem_clockwise]
  unfold nearest
  rw [List.length_take, ← hset, List.toFinset_card_of_nodup (nodup_eraseDups _)]

/-- Without the points of one owner, its turn goes to the next. -/
theorem nearest_without (owner : N) :
    nearest n (points.filter fun p => (ofLex p).2 ≠ owner) h =
      ((nearest (n + 1) points h).filter (· ≠ owner)).take n := by
  have hpoints : (points.filter fun p => (ofLex p).2 ≠ owner).sort =
      points.sort.filter fun p => (ofLex p).2 ≠ owner := by
    rw [← sort_filter]
    congr 1
    exact Finset.filter_congr fun p _ => by simp
  unfold nearest
  rw [take_filter_ne (nodup_eraseDups _), ← eraseDups_filter, hpoints,
    clockwise_filter, List.filter_map]
  rfl

/-- The owners that stay keep their place, before those that take a turn. -/
theorem nearest_filter (keep : N → Bool) (n : Nat) (points : Finset (K ×ₗ N)) (h : K) :
    (nearest n points h).filter keep <+:
      nearest n (points.filter fun p => keep (ofLex p).2) h := by
  have hpoints : (points.filter fun p => keep (ofLex p).2).sort =
      points.sort.filter fun p => keep (ofLex p).2 := sort_filter _ _
  have howners : nearest n (points.filter fun p => keep (ofLex p).2) h =
      ((((clockwise points.sort h).map fun p => (ofLex p).2).eraseDups).filter keep).take n := by
    unfold nearest
    rw [hpoints, clockwise_filter, ← eraseDups_filter, List.filter_map]
    rfl
  rw [howners]
  unfold nearest
  refine List.prefix_take_iff.mpr ⟨(List.take_prefix _ _).filter _, ?_⟩
  exact (List.length_filter_le _ _).trans (List.length_take_le _ _)

end Walk

end RingWalk
