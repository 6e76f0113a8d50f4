import Tempo.Decimal

/-!
# Names of checkpoint files

`save_async` names the file of a step `step_{step:07d}_rank{rank}.pt`, the same
in the local and in the Lustre directory, and `_do_flush` writes to the name
with its suffix replaced by `.tmp` before it renames.  A name determines the step
and the rank, and no temporary name is a final name (`ckptNames_apart`).
-/

namespace Tempo

/-- `f"step_{step:07d}_rank{self.rank}.pt"`. -/
def ckptName (rank step : Int) : String :=
  "step_" ++ Decimal.intPadded 7 step ++ "_rank" ++ toString rank ++ ".pt"

/-- `PurePath.with_suffix` on a file name: the last dot and what follows it are
replaced, unless the name starts or ends there. -/
def withSuffix (name suffix : String) : String :=
  let reversed := name.toList.reverse
  match reversed.dropWhile (· != '.') with
  | [] => name ++ suffix
  | _ :: stem =>
      if stem = [] ∨ reversed.head? = some '.' then name ++ suffix
      else String.ofList stem.reverse ++ suffix

/-- The name `_do_flush` copies to: `dst.with_suffix(".tmp")`. -/
def tmpName (finalName : String) : String := withSuffix finalName ".tmp"

/-- The part of a checkpoint name before its suffix. -/
def ckptStem (rank step : Int) : String :=
  "step_" ++ Decimal.intPadded 7 step ++ "_rank" ++ toString rank

theorem ckptName_eq (rank step : Int) :
    ckptName rank step = ckptStem rank step ++ ".pt" := rfl

theorem tmpName_ckptName (rank step : Int) :
    tmpName (ckptName rank step) = ckptStem rank step ++ ".tmp" := by
  have hstem : (ckptStem rank step).toList ≠ [] := by
    simp [ckptStem, String.toList_append]
  simp [tmpName, withSuffix, ckptName_eq, String.toList_append, hstem]

/-- No name has an underscore between its first one and the rank. -/
theorem underscore_notMem_intPadded (width : Nat) (z : Int) :
    '_' ∉ (Decimal.intPadded width z).toList := by
  have hdigits : ∀ width n : Nat, '_' ∉ (Decimal.zeroPadded width n).toList := by
    intro width n hmem
    exact absurd (Decimal.isDigit_of_mem_zeroPadded hmem) (by decide)
  unfold Decimal.intPadded
  split
  · rw [String.toList_append, List.mem_append]
    intro hmem
    rcases hmem with hsign | hmem
    · exact absurd hsign (by decide)
    · exact hdigits _ _ hmem
  · exact hdigits _ _

/-- The second underscore of a stem stands between the step and the rank. -/
theorem ckptStem_injective {rank rank' step step' : Int}
    (h : ckptStem rank step = ckptStem rank' step') : step = step' ∧ rank = rank' := by
  have hlists : (Decimal.intPadded 7 step).toList ++
        '_' :: ("rank".toList ++ (toString rank).toList) =
      (Decimal.intPadded 7 step').toList ++
        '_' :: ("rank".toList ++ (toString rank').toList) := by
    have hchars := congrArg String.toList h
    simp only [ckptStem, String.toList_append, List.append_assoc] at hchars
    exact List.append_cancel_left hchars
  obtain ⟨hstep, hrank⟩ := Decimal.append_cons_inj
    (underscore_notMem_intPadded 7 step) (underscore_notMem_intPadded 7 step') hlists
  have hdigits := List.append_cancel_left hrank
  exact ⟨Decimal.intPadded_injective 7 (String.toList_inj.mp hstep),
    Int.repr_injective (String.toList_inj.mp hdigits)⟩

/-- What is put behind a stem does not matter. -/
theorem suffixed_inj {stem stem' suffix : String} :
    stem ++ suffix = stem' ++ suffix ↔ stem = stem' := by
  constructor
  · intro h
    have hchars := congrArg String.toList h
    rw [String.toList_append, String.toList_append] at hchars
    exact String.toList_inj.mp (List.append_cancel_right hchars)
  · rintro rfl
    rfl

/-- Within one rank the final name determines the step. -/
theorem ckptName_injective {rank a b : Int}
    (h : ckptName rank a = ckptName rank b) : a = b := by
  rw [ckptName_eq, ckptName_eq, suffixed_inj] at h
  exact (ckptStem_injective h).1

theorem tmpName_suffix (name : String) : ∃ stem, tmpName name = stem ++ ".tmp" := by
  unfold tmpName withSuffix
  dsimp only
  split
  · exact ⟨_, rfl⟩
  · split
    · exact ⟨_, rfl⟩
    · exact ⟨_, rfl⟩

/-- Nothing is copied to a final name. -/
theorem tmpName_ne_ckptName (name : String) (rank step : Int) :
    tmpName name ≠ ckptName rank step := by
  intro h
  obtain ⟨stem, hstem⟩ := tmpName_suffix name
  rw [hstem, ckptName_eq] at h
  have hlast := congrArg (fun s => s.toList.getLast?) h
  simp [String.toList_append] at hlast

/-- No temporary name is a final name. -/
theorem tmpName_ne_final (rank rank' a b : Int) :
    tmpName (ckptName rank a) ≠ ckptName rank' b :=
  tmpName_ne_ckptName _ _ _

/-- **The ranks that share a directory never write to each other's files**, final or
temporary. -/
theorem ckptNames_apart (step step' rank rank' : Int) :
    (ckptName rank step = ckptName rank' step' ↔ step = step' ∧ rank = rank') ∧
      (tmpName (ckptName rank step) = tmpName (ckptName rank' step') ↔
        step = step' ∧ rank = rank') ∧
      tmpName (ckptName rank step) ≠ ckptName rank' step' := by
  have hstem : ckptStem rank step = ckptStem rank' step' ↔ step = step' ∧ rank = rank' := by
    constructor
    · exact ckptStem_injective
    · rintro ⟨rfl, rfl⟩
      rfl
  refine ⟨?_, ?_, tmpName_ne_final rank rank' step step'⟩
  · rw [ckptName_eq, ckptName_eq, suffixed_inj, hstem]
  · rw [tmpName_ckptName, tmpName_ckptName, suffixed_inj, hstem]

end Tempo
