import Mathlib.Data.Finset.Card
import Mathlib.Data.Fintype.Card
import Mathlib.Data.List.FinRange
import Mathlib.Data.Prod.Lex
import Tempo.StableOrder

/-!
# The highest scores by a partition

The indices below `n` are put in an order that parts at one place: no score before the
place is above the score there, and none after it below.  What is there and after it are
highest scores, and which of several equal ones come out is up to the order: every set of
as many highest scores can (`exists_top_iff`).
-/

namespace TopScores

section Positions

variable {n : Nat} {mask : Fin n → Bool} {i : Fin n}

/-- Where a mask is set, from the lowest place on. -/
def positions (mask : Fin n → Bool) : List (Fin n) :=
  (List.finRange n).filter mask

@[simp]
theorem mem_positions : i ∈ positions mask ↔ mask i = true := by
  simp [positions]

theorem val_lt_of_positions : ∀ k ∈ (positions mask).map Fin.val, k < n := by
  intro k hk
  obtain ⟨i, _, rfl⟩ := List.mem_map.mp hk
  exact i.isLt

theorem pairwise_positions : (positions mask).Pairwise (· < ·) :=
  (List.pairwise_lt_finRange n).filter _

theorem nodup_positions : (positions mask).Nodup :=
  (List.nodup_finRange n).filter _

theorem length_positions :
    (positions mask).length = (Finset.univ.filter fun i => mask i = true).card := by
  rw [← List.toFinset_card_of_nodup nodup_positions]
  congr 1
  ext i
  simp

end Positions

variable {n : Nat} {S K : Type*} [LinearOrder S] [LinearOrder K]

/-- An order of all indices that is parted at `kth`. -/
structure Partition (scores : Fin n → S) (kth : Nat) where
  order : List (Fin n)
  perm : order.Perm (List.finRange n)
  below : ∀ i ∈ order.take kth, ∀ p ∈ order[kth]?, scores i ≤ scores p
  above : ∀ j ∈ order.drop kth, ∀ p ∈ order[kth]?, scores p ≤ scores j

/-- A set of `k` highest scores. -/
structure Highest (scores : Fin n → S) (k : Nat) (A : Finset (Fin n)) : Prop where
  card : A.card = k
  above : ∀ i ∈ A, ∀ j, j ∉ A → scores j ≤ scores i

instance (scores : Fin n → S) (k : Nat) (A : Finset (Fin n)) :
    Decidable (Highest scores k A) :=
  decidable_of_iff (A.card = k ∧ ∀ i ∈ A, ∀ j, j ∉ A → scores j ≤ scores i)
    ⟨fun h => ⟨h.1, h.2⟩, fun h => ⟨h.card, h.above⟩⟩

variable {scores : Fin n → S} {kth : Nat} {i j : Fin n} {A : Finset (Fin n)}

namespace Partition

/-- What comes out. -/
def top (P : Partition scores kth) : List (Fin n) :=
  P.order.drop kth

theorem nodup_order (P : Partition scores kth) : P.order.Nodup :=
  P.perm.nodup_iff.mpr (List.nodup_finRange n)

theorem nodup_top (P : Partition scores kth) : P.top.Nodup :=
  P.nodup_order.sublist (List.drop_sublist _ _)

theorem length_top (P : Partition scores kth) : P.top.length = n - kth := by
  unfold top
  rw [List.length_drop, P.perm.length_eq, List.length_finRange]

theorem mem_take_or_top (P : Partition scores kth) (i : Fin n) :
    i ∈ P.order.take kth ∨ i ∈ P.top := by
  have hmem : i ∈ P.order := P.perm.mem_iff.mpr (List.mem_finRange i)
  rw [← List.take_append_drop kth P.order] at hmem
  exact List.mem_append.mp hmem

/-- Nothing left in is above anything that comes out. -/
theorem le_of_notMem_top (P : Partition scores kth) (hi : i ∉ P.top) (hj : j ∈ P.top) :
    scores i ≤ scores j := by
  have htake := (P.mem_take_or_top i).resolve_right hi
  obtain ⟨p, hp⟩ : ∃ p, P.order[kth]? = some p := by
    apply Option.ne_none_iff_exists'.mp
    intro hnone
    have hshort := List.getElem?_eq_none_iff.mp hnone
    unfold top at hj
    rw [List.drop_eq_nil_of_le hshort] at hj
    cases hj
  exact (P.below i htake p hp).trans (P.above j hj p hp)

theorem highest_top (P : Partition scores kth) :
    Highest scores (n - kth) P.top.toFinset where
  card := (List.toFinset_card_of_nodup P.nodup_top).trans P.length_top
  above := fun _ hi _ hj =>
    P.le_of_notMem_top (fun h => hj (List.mem_toFinset.mpr h)) (List.mem_toFinset.mp hi)

end Partition

section Sorted

variable {ι : Type*} {R : ι → ι → Prop} {l : List ι} {a p : ι}

/-- Before a place of a list in order. -/
theorem rel_of_mem_take (hl : l.Pairwise R) (ha : a ∈ l.take kth) (hp : l[kth]? = some p) :
    R a p := by
  obtain ⟨hlt, rfl⟩ := List.getElem?_eq_some_iff.mp hp
  rw [← List.take_append_drop kth l] at hl
  apply (List.pairwise_append.mp hl).2.2 a ha
  rw [List.drop_eq_getElem_cons hlt]
  exact List.mem_cons_self

/-- From a place of a list in order on. -/
theorem eq_or_rel_of_mem_drop (hl : l.Pairwise R) (ha : a ∈ l.drop kth)
    (hp : l[kth]? = some p) : a = p ∨ R p a := by
  obtain ⟨hlt, rfl⟩ := List.getElem?_eq_some_iff.mp hp
  have hrest := hl.drop (i := kth)
  rw [List.drop_eq_getElem_cons hlt] at ha hrest
  rcases List.mem_cons.mp ha with rfl | hmem
  · exact Or.inl rfl
  · exact Or.inr ((List.pairwise_cons.mp hrest).1 a hmem)

end Sorted

section OfKey

variable {key : Fin n → K} (hkey : ∀ i j, key i ≤ key j → scores i ≤ scores j)

include hkey

theorem below_sorted (i : Fin n) (hi : i ∈ (StableOrder.sorted key).take kth) :
    ∀ p ∈ (StableOrder.sorted key)[kth]?, scores i ≤ scores p := by
  intro p hp
  have hbefore := rel_of_mem_take (StableOrder.pairwise_sorted key) hi hp
  exact hkey i p (hbefore.elim le_of_lt fun h => h.1.le)

theorem above_sorted (j : Fin n) (hj : j ∈ (StableOrder.sorted key).drop kth) :
    ∀ p ∈ (StableOrder.sorted key)[kth]?, scores p ≤ scores j := by
  intro p hp
  rcases eq_or_rel_of_mem_drop (StableOrder.pairwise_sorted key) hj hp with rfl | hbefore
  · exact le_rfl
  · exact hkey p j (hbefore.elim le_of_lt fun h => h.1.le)

end OfKey

/-- The stable order of a key that is finer than the scores. -/
def Partition.ofKey (key : Fin n → K)
    (hkey : ∀ i j, key i ≤ key j → scores i ≤ scores j) (kth : Nat) :
    Partition scores kth where
  order := StableOrder.sorted key
  perm := StableOrder.sorted_perm key
  below := below_sorted hkey
  above := above_sorted hkey

/-- The indices in the order of their scores. -/
def Partition.byScore (scores : Fin n → S) (kth : Nat) : Partition scores kth :=
  .ofKey scores (fun _ _ h => h) kth

/-- Scores, and among equal ones those in `A` last. -/
def preferred (scores : Fin n → S) (A : Finset (Fin n)) (i : Fin n) : S ×ₗ Nat :=
  toLex (scores i, if i ∈ A then 1 else 0)

theorem preferred_le (i j : Fin n) (h : preferred scores A i ≤ preferred scores A j) :
    scores i ≤ scores j := by
  unfold preferred at h
  rcases (Prod.Lex.toLex_le_toLex).mp h with hlt | ⟨heq, _⟩
  · exact hlt.le
  · exact heq.le

/-- **The sets that partitions let out.** -/
theorem exists_top_iff :
    (∃ P : Partition scores kth, P.top.toFinset = A) ↔ Highest scores (n - kth) A := by
  constructor
  · rintro ⟨P, rfl⟩
    exact P.highest_top
  · intro hA
    let P : Partition scores kth := .ofKey (preferred scores A) preferred_le kth
    -- nothing that comes out may be put before a member of `A`
    let Q : Partition (preferred scores A) kth := .ofKey (preferred scores A) (fun _ _ h => h) kth
    refine ⟨P, (Finset.eq_of_subset_of_card_le (fun t ht => ?_) ?_).symm⟩
    · by_contra hout
      obtain ⟨j, hj, hjA⟩ : ∃ j ∈ P.top.toFinset, j ∉ A := by
        by_contra hall
        push Not at hall
        have hless := Finset.card_lt_card
          (Finset.ssubset_iff_subset_ne.mpr ⟨hall, fun heq => hout (heq ▸ ht)⟩)
        rw [P.highest_top.card, hA.card] at hless
        exact lt_irrefl _ hless
      have hle : preferred scores A t ≤ preferred scores A j :=
        Q.le_of_notMem_top (fun h => hout (List.mem_toFinset.mpr h)) (List.mem_toFinset.mp hj)
      unfold preferred at hle
      rw [if_pos ht, if_neg hjA, Prod.Lex.toLex_le_toLex] at hle
      have habove := hA.above t ht j hjA
      rcases hle with hlt | ⟨_, hone⟩
      · exact absurd habove (not_le.mpr hlt)
      · exact absurd hone (Nat.not_succ_le_zero 0)
    · rw [P.highest_top.card, hA.card]

end TopScores
