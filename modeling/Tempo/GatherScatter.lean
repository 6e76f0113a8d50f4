import Mathlib.Data.List.Basic

/-!
# Rows taken out and put back

`gather` takes the rows at a list of places, `scatter` puts rows at them, one after the
other.  Where no place is named twice, what is put at the places is what is found
there, and everything else is left alone.
-/

namespace GatherScatter

variable {α : Type*} {xs ys : List α} {places : List Nat} {i : Nat}

/-- The rows at `places`, if all are there. -/
def gather (xs : List α) (places : List Nat) : Option (List α) :=
  places.mapM fun i => xs[i]?

/-- `xs` with the rows `ys` at `places`. -/
def scatter (xs : List α) (places : List Nat) (ys : List α) : List α :=
  (places.zip ys).foldl (fun xs e => xs.set e.1 e.2) xs

theorem gather_cons : gather xs (i :: places) =
    (xs[i]?).bind fun y => (gather xs places).map fun ys => y :: ys := by
  unfold gather
  rw [List.mapM_cons]
  cases xs[i]? with
  | none => rfl
  | some y => cases places.mapM fun i => xs[i]? <;> rfl

theorem gather_cons_eq_some {y : α} :
    gather xs (i :: places) = some (y :: ys) ↔
      xs[i]? = some y ∧ gather xs places = some ys := by
  rw [gather_cons]
  cases xs[i]? with
  | none => simp
  | some x => cases gather xs places <;> simp

/-- There are as many rows as places. -/
theorem length_of_gather (h : gather xs places = some ys) :
    ys.length = places.length := by
  induction places generalizing ys with
  | nil =>
      obtain rfl := Option.some.inj h
      rfl
  | cons i places ih =>
      rw [gather_cons] at h
      obtain ⟨y, _, hrest⟩ := Option.bind_eq_some_iff.mp h
      obtain ⟨zs, hzs, rfl⟩ := Option.map_eq_some_iff.mp hrest
      rw [List.length_cons, List.length_cons, ih hzs]

/-- Places within the rows can all be read. -/
theorem exists_gather (hbound : ∀ i ∈ places, i < xs.length) :
    ∃ ys, gather xs places = some ys := by
  induction places with
  | nil => exact ⟨[], rfl⟩
  | cons i places ih =>
      obtain ⟨ys, hys⟩ := ih fun j hj => hbound j (List.mem_cons_of_mem _ hj)
      have hlt := hbound i List.mem_cons_self
      exact ⟨xs[i] :: ys,
        gather_cons_eq_some.mpr ⟨List.getElem?_eq_getElem hlt, hys⟩⟩

theorem scatter_cons {y : α} :
    scatter xs (i :: places) (y :: ys) = scatter (xs.set i y) places ys := rfl

theorem length_scatter : (scatter xs places ys).length = xs.length := by
  induction places generalizing xs ys with
  | nil => rfl
  | cons i places ih =>
      cases ys with
      | nil => rfl
      | cons y ys => rw [scatter_cons, ih, List.length_set]

/-- Rows at other places stay. -/
theorem getElem?_scatter_of_notMem (hi : i ∉ places) :
    (scatter xs places ys)[i]? = xs[i]? := by
  induction places generalizing xs ys with
  | nil => rfl
  | cons j places ih =>
      obtain ⟨hne, hrest⟩ := not_or.mp (List.mem_cons.not.mp hi)
      cases ys with
      | nil => rfl
      | cons y ys =>
          rw [scatter_cons, ih hrest, List.getElem?_set_ne (Ne.symm hne)]

/-- Putting rows back where they were taken from. -/
theorem getElem?_scatter_gathered {zs : List α} (hlen : xs.length = zs.length)
    (hgather : gather zs places = some ys) (hi : i ∈ places) :
    (scatter xs places ys)[i]? = zs[i]? := by
  induction places generalizing xs ys with
  | nil => cases hi
  | cons j places ih =>
      cases ys with
      | nil => cases length_of_gather hgather
      | cons y ys =>
          obtain ⟨hj, hrest⟩ := gather_cons_eq_some.mp hgather
          rw [scatter_cons]
          by_cases hmem : i ∈ places
          · exact ih (by rw [List.length_set, hlen]) hrest hmem
          · rw [getElem?_scatter_of_notMem hmem]
            obtain rfl : i = j := (List.mem_cons.mp hi).resolve_right hmem
            obtain ⟨hlt, _⟩ := List.getElem?_eq_some_iff.mp hj
            rw [List.getElem?_set_self (by rwa [hlen]), hj]

theorem gather_congr {zs : List α} (h : ∀ i ∈ places, xs[i]? = zs[i]?) :
    gather xs places = gather zs places := by
  induction places with
  | nil => rfl
  | cons i places ih =>
      have hrest := ih fun j hj => h j (List.mem_cons_of_mem _ hj)
      unfold gather at hrest ⊢
      rw [List.mapM_cons, List.mapM_cons, h i List.mem_cons_self, hrest]

/-- Rows that were put back are found again. -/
theorem gather_scatter {zs : List α} (hlen : xs.length = zs.length)
    (hgather : gather zs places = some ys) :
    gather (scatter xs places ys) places = some ys := by
  rw [← hgather]
  exact gather_congr fun i hi => getElem?_scatter_gathered hlen hgather hi

end GatherScatter
