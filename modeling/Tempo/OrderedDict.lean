import Mathlib.Algebra.BigOperators.Group.Finset.Piecewise
import Mathlib.Algebra.BigOperators.Group.List.Basic
import Mathlib.Data.List.AList
import Mathlib.Data.List.MinMax

/-!
# Dictionaries in insertion order

A dictionary that remembers the order in which its keys were first inserted:
an association list without duplicate keys in which an assignment to a key
already there leaves the key in its place, and a new key goes to the end.  The
order is what decides between keys of equal score when the least is looked for.
-/

namespace OrderedDict

universe u v

/-- A dictionary from `κ` to `ν`. -/
abbrev Dict (κ : Type u) (ν : Type v) := AList fun _ : κ => ν

variable {κ : Type u} {ν : Type v} [DecidableEq κ] {d : Dict κ ν} {k j : κ}
  {v : ν}

instance decidableMem (k : κ) (d : Dict κ ν) : Decidable (k ∈ d) :=
  decidable_of_iff (k ∈ d.keys) AList.mem_keys

/-- The dictionary with one entry. -/
def single (k : κ) (v : ν) : Dict κ ν := AList.singleton k v

/-- Assign `v` to `k`, in its place or at the end. -/
def assign (d : Dict κ ν) (k : κ) (v : ν) : Dict κ ν :=
  if k ∈ d then d.replace k v else d ∪ single k v

omit [DecidableEq κ] in
theorem mem_single : j ∈ single k v ↔ j = k := by
  rw [AList.mem_keys]
  exact List.mem_singleton

theorem dlookup_kreplace (l : List (Σ _ : κ, ν)) (hk : k ∈ l.keys) (j : κ) :
    (l.kreplace k v).dlookup j = if j = k then some v else l.dlookup j := by
  induction l with
  | nil => simp at hk
  | cons e l ih =>
      unfold List.kreplace at ih ⊢
      rcases e with ⟨i, w⟩
      by_cases hi : k = i
      · subst hi
        rw [List.lookmap_cons_some (b := ⟨k, v⟩) _ _ (by simp)]
        by_cases hj : j = k
        · subst hj
          simp
        · simp [hj]
      · rw [List.lookmap_cons_none _ _ (by simp [hi])]
        have hmem : k ∈ l.keys := by
          rw [List.keys_cons] at hk
          exact (List.mem_cons.mp hk).resolve_left hi
        by_cases hj : j = i
        · subst hj
          have hjk : j ≠ k := fun h => hi h.symm
          simp [hjk]
        · rw [List.dlookup_cons_ne _ _ hj, List.dlookup_cons_ne _ _ hj,
            ih hmem]

@[simp]
theorem mem_assign : j ∈ assign d k v ↔ j = k ∨ j ∈ d := by
  unfold assign
  split
  next hk =>
    rw [AList.mem_replace]
    exact ⟨.inr, fun h => h.elim (fun heq => heq ▸ hk) id⟩
  next hk =>
    rw [AList.mem_union, mem_single, or_comm]

theorem lookup_assign (d : Dict κ ν) (k : κ) (v : ν) (j : κ) :
    (assign d k v).lookup j = if j = k then some v else d.lookup j := by
  unfold assign
  split
  next hk => exact dlookup_kreplace d.entries (AList.mem_keys.mp hk) j
  next hk =>
    by_cases hj : j ∈ d
    · have hne : j ≠ k := fun heq => hk (heq ▸ hj)
      rw [AList.lookup_union_left hj, if_neg hne]
    · rw [AList.lookup_union_right hj]
      by_cases heq : j = k
      · subst heq
        rw [if_pos rfl]
        exact List.dlookup_cons_eq (β := fun _ => ν) [] j v
      · rw [if_neg heq, AList.lookup_eq_none.mpr hj, AList.lookup_eq_none]
        exact fun h => heq (mem_single.mp h)

/-- `d` updated with the entries of another dictionary. -/
theorem lookup_foldl_assign {l : List (Σ _ : κ, ν)} (hl : l.NodupKeys)
    (d : Dict κ ν) (j : κ) :
    (l.foldl (fun d e => assign d e.1 e.2) d).lookup j =
      (l.dlookup j).or (d.lookup j) := by
  induction l generalizing d with
  | nil => simp
  | cons e l ih =>
      rcases e with ⟨i, w⟩
      obtain ⟨hnot, hrest⟩ := List.nodupKeys_cons.mp hl
      rw [List.foldl_cons, ih hrest, lookup_assign]
      by_cases hj : j = i
      · subst hj
        rw [List.dlookup_eq_none.mpr hnot, List.dlookup_cons_eq]
        simp
      · rw [if_neg hj, List.dlookup_cons_ne _ _ hj]

/-- Assignments to the keys of a list, to each the same value whenever it occurs. -/
theorem lookup_foldl_assign_of (f : κ → ν) (ks : List κ) (d : Dict κ ν) (j : κ) :
    (ks.foldl (fun d k => assign d k (f k)) d).lookup j =
      if j ∈ ks then some (f j) else d.lookup j := by
  induction ks generalizing d with
  | nil => simp
  | cons k ks ih =>
      rw [List.foldl_cons, ih, lookup_assign]
      by_cases hks : j ∈ ks
      · simp [hks]
      · by_cases hk : j = k
        · simp [hk]
        · simp [hks, hk]

theorem keys_assign_of_mem (hk : k ∈ d) (v : ν) : (assign d k v).keys = d.keys := by
  unfold assign
  rw [if_pos hk, AList.keys_replace]

theorem mem_of_lookup (h : v ∈ d.lookup k) : k ∈ d :=
  AList.lookup_isSome.mp (Option.isSome_of_mem h)

theorem exists_lookup (h : k ∈ d) : ∃ v, d.lookup k = some v :=
  Option.isSome_iff_exists.mp (AList.lookup_isSome.mpr h)

/-- What is found after a removal was there before, under another key. -/
theorem lookup_of_lookup_erase {d : Dict κ ν} (h : v ∈ (d.erase k).lookup j) :
    j ≠ k ∧ v ∈ d.lookup j := by
  have hne : j ≠ k := by
    rintro rfl
    rw [AList.lookup_erase] at h
    cases h
  rw [AList.lookup_erase_ne hne] at h
  exact ⟨hne, h⟩

section Total

variable {M : Type*} [AddCommMonoid M]

/-- The sum of `f` over the values. -/
def total (f : ν → M) (d : Dict κ ν) : M := (d.entries.map fun e => f e.2).sum

/-- What the entry of a key adds to the sum. -/
def share (f : ν → M) (d : Dict κ ν) (k : κ) : M := (d.lookup k).elim 0 f

variable {f : ν → M}

theorem share_of_notMem (hk : k ∉ d) : share f d k = 0 := by
  simp [share, AList.lookup_eq_none.mpr hk]

theorem share_of_lookup (h : d.lookup k = some v) : share f d k = f v := by
  simp [share, h]

/-- Without a key its share is gone. -/
theorem share_add_total_erase (f : ν → M) (d : Dict κ ν) (k : κ) :
    share f d k + total f (d.erase k) = total f d := by
  have hlist : ∀ l : List (Σ _ : κ, ν),
      ((l.dlookup k).elim 0 f) + ((l.kerase k).map fun e => f e.2).sum =
        (l.map fun e => f e.2).sum := by
    intro l
    induction l with
    | nil => simp
    | cons e l ih =>
        rcases e with ⟨i, w⟩
        by_cases hi : k = i
        · subst hi
          simp
        · rw [List.dlookup_cons_ne _ _ hi, List.kerase_cons_ne hi, List.map_cons,
            List.map_cons, List.sum_cons, List.sum_cons, ← ih, add_left_comm]
  exact hlist d.entries

/-- An assignment puts the new value in the place of the old share. -/
theorem share_add_total_assign (f : ν → M) (d : Dict κ ν) (k : κ) (v : ν) :
    share f d k + total f (assign d k v) = total f d + f v := by
  unfold assign
  split
  next hk =>
    have hlist : ∀ l : List (Σ _ : κ, ν), k ∈ l.keys →
        ((l.dlookup k).elim 0 f) + ((l.kreplace k v).map fun e => f e.2).sum =
          (l.map fun e => f e.2).sum + f v := by
      intro l hmem
      induction l with
      | nil => simp at hmem
      | cons e l ih =>
          unfold List.kreplace at ih ⊢
          rcases e with ⟨i, w⟩
          by_cases hi : k = i
          · subst hi
            rw [List.lookmap_cons_some (b := ⟨k, v⟩) _ _ (by simp)]
            simp [add_comm, add_left_comm]
          · rw [List.lookmap_cons_none _ _ (by simp [hi])]
            have hrest : k ∈ l.keys := by
              rw [List.keys_cons] at hmem
              exact (List.mem_cons.mp hmem).resolve_left hi
            rw [List.dlookup_cons_ne _ _ hi, List.map_cons, List.map_cons,
              List.sum_cons, List.sum_cons, add_left_comm, ih hrest, add_assoc]
    exact hlist d.entries (AList.mem_keys.mp hk)
  next hk =>
    have hentries : (d ∪ single k v).entries = d.entries ++ [⟨k, v⟩] := by
      have hlist : ∀ l : List (Σ _ : κ, ν), k ∉ l.keys →
          l.kunion [⟨k, v⟩] = l ++ [⟨k, v⟩] := by
        intro l hmem
        induction l with
        | nil => rfl
        | cons e l ih =>
            rw [List.keys_cons, List.mem_cons, not_or] at hmem
            rw [List.kunion_cons, List.kerase_cons_ne (Ne.symm hmem.1),
              List.kerase_nil, ih hmem.2, List.cons_append]
      exact hlist d.entries (AList.mem_keys.not.mp hk)
    rw [share_of_notMem hk, zero_add]
    unfold total
    rw [hentries]
    simp

/-- The sum over the values is that of the shares of any keys that cover it. -/
theorem sum_share_eq_total {keys : Finset κ} (hkeys : ∀ k ∈ d, k ∈ keys) :
    ∑ k ∈ keys, share f d k = total f d := by
  have hlist : ∀ l : List (Σ _ : κ, ν), l.NodupKeys → (∀ k ∈ l.keys, k ∈ keys) →
      ∑ k ∈ keys, (l.dlookup k).elim 0 f = (l.map fun e => f e.2).sum := by
    intro l
    induction l with
    | nil => simp
    | cons e l ih =>
        rcases e with ⟨i, w⟩
        intro hnodup hmem
        rw [List.nodupKeys_cons] at hnodup
        have hi : i ∈ keys := hmem i (by simp)
        have hsplit : ∀ k, (List.dlookup k (⟨i, w⟩ :: l)).elim 0 f =
            (if k = i then f w else 0) + (l.dlookup k).elim 0 f := by
          intro k
          by_cases hk : k = i
          · subst hk
            rw [if_pos rfl, List.dlookup_eq_none.mpr hnodup.1]
            simp
          · rw [if_neg hk, zero_add, List.dlookup_cons_ne _ _ hk]
        simp only [hsplit, Finset.sum_add_distrib, Finset.sum_ite_eq', if_pos hi,
          List.map_cons, List.sum_cons]
        rw [ih hnodup.2 fun k hk => hmem k (by simp [hk])]
  exact hlist d.entries d.nodupKeys fun k hk => hkeys k (AList.mem_keys.mpr hk)

end Total

section Values

variable {μ : Type*}

omit [DecidableEq κ] in
theorem nodupKeys_mapValues (f : ν → μ) (d : Dict κ ν) :
    (d.entries.map fun e => (⟨e.1, f e.2⟩ : Σ _ : κ, μ)).NodupKeys := by
  have hkeys : (d.entries.map fun e => (⟨e.1, f e.2⟩ : Σ _ : κ, μ)).keys = d.keys := by
    simp [List.keys, AList.keys]
  have hnodup : d.keys.Nodup := d.nodupKeys
  rw [← hkeys] at hnodup
  exact hnodup

/-- The dictionary with a function of its values. -/
def mapValues (f : ν → μ) (d : Dict κ ν) : Dict κ μ :=
  ⟨d.entries.map fun e => ⟨e.1, f e.2⟩, nodupKeys_mapValues f d⟩

theorem lookup_mapValues (f : ν → μ) (d : Dict κ ν) (k : κ) :
    (mapValues f d).lookup k = (d.lookup k).map f := by
  have hlist : ∀ l : List (Σ _ : κ, ν),
      (l.map fun e => (⟨e.1, f e.2⟩ : Σ _ : κ, μ)).dlookup k = (l.dlookup k).map f := by
    intro l
    induction l with
    | nil => rfl
    | cons e l ih =>
        obtain ⟨i, w⟩ := e
        by_cases hk : k = i
        · subst hk
          simp
        · rw [List.map_cons, List.dlookup_cons_ne _ _ hk, List.dlookup_cons_ne _ _ hk, ih]
  exact hlist d.entries

end Values

/-- The first entry of least score. -/
def least {β : Type*} [LinearOrder β] (score : ν → β) (d : Dict κ ν) :
    Option (Σ _ : κ, ν) :=
  d.entries.argmin fun e => score e.2

theorem lookup_of_least {β : Type*} [LinearOrder β] {score : ν → β}
    {e : Σ _ : κ, ν} (h : least score d = some e) :
    d.lookup e.1 = some e.2 := by
  have hmem : e ∈ d.entries := List.argmin_mem h
  exact AList.mem_lookup_iff.mpr hmem

theorem least_le {β : Type*} [LinearOrder β] {score : ν → β} {e : Σ _ : κ, ν}
    (h : least score d = some e) (hk : d.lookup k = some v) : score e.2 ≤ score v := by
  have hmem : ⟨k, v⟩ ∈ d.entries := AList.mem_lookup_iff.mp hk
  exact List.le_of_mem_argmin (f := fun e : Σ _ : κ, ν => score e.2) hmem h

omit [DecidableEq κ] in
theorem least_eq_none {β : Type*} [LinearOrder β] {score : ν → β} :
    least score d = none ↔ d.entries = [] :=
  List.argmin_eq_none

/-- Removing an entry that is there makes a dictionary shorter. -/
theorem length_erase_lt (hk : k ∈ d) :
    (d.erase k).entries.length < d.entries.length := by
  have hkeys : (d.erase k).keys.length < d.keys.length := by
    have hmem := AList.mem_keys.mp hk
    have hpos := List.length_pos_of_mem hmem
    rw [AList.keys_erase, List.length_erase_of_mem hmem]
    omega
  simpa [AList.keys, List.keys] using hkeys

/-- Without an entry that is alone a dictionary is empty or as long as before. -/
theorem length_erase_of_one (hd : d.entries.length = 1) (k : κ) :
    (d.erase k).entries = [] ∨ (d.erase k).entries.length = 1 := by
  by_cases hk : k ∈ d
  · have hshorter := length_erase_lt hk
    left
    apply List.length_eq_zero_iff.mp
    omega
  · right
    have hsame : (d.erase k).entries = d.entries :=
      List.kerase_of_notMem_keys (AList.mem_keys.not.mp hk)
    rw [hsame, hd]

/-- An assignment to a key that is there keeps the length. -/
theorem length_assign_of_mem (hk : k ∈ d) :
    (assign d k v).entries.length = d.entries.length := by
  have hkeys : (assign d k v).keys = d.keys := by
    unfold assign
    rw [if_pos hk, AList.keys_replace]
  have hlength := congrArg List.length hkeys
  simpa [AList.keys, List.keys] using hlength

omit [DecidableEq κ] in
theorem notMem_of_empty (hd : d.entries = []) : k ∉ d := by
  intro hk
  rw [AList.mem_keys] at hk
  simp [AList.keys, hd] at hk

theorem length_assign_of_empty (hd : d.entries = []) :
    (assign d k v).entries.length = 1 := by
  unfold assign
  rw [if_neg (notMem_of_empty hd), AList.union_entries, hd]
  rfl

end OrderedDict
