import Mathlib.Algebra.Group.Basic
import Mathlib.Data.List.Basic

/-!
# Stretches of a sampled level

A level is sampled at times.  It goes up where a high sample follows a low one, and the
time it is high is what passes from each high sample to the next one.  Both grow with
each sample by what the last one was (`edges_concat`, `highTime_concat`).
-/

namespace LevelIntervals

variable {K : Type*} [AddGroup K]

/-- How often the level goes up, from `before` on. -/
def edges (before : Bool) : List (K × Bool) → Nat
  | [] => 0
  | (_, high) :: rest => (high && !before).toNat + edges high rest

/-- The time that passes after high samples. -/
def highTime : List (K × Bool) → K
  | [] | [_] => 0
  | (t, high) :: (t', high') :: rest =>
      (if high then t' - t else 0) + highTime ((t', high') :: rest)

/-- The level at the last sample, or `before` it. -/
def lastLevel (before : Bool) (samples : List (K × Bool)) : Bool :=
  (samples.getLast?.map Prod.snd).getD before

variable {samples : List (K × Bool)} {before high : Bool} {t : K}

omit [AddGroup K] in
@[simp]
theorem lastLevel_concat (before : Bool) (samples : List (K × Bool)) (s : K × Bool) :
    lastLevel before (samples ++ [s]) = s.2 := by
  simp [lastLevel]

omit [AddGroup K] in
theorem edges_concat (before : Bool) (samples : List (K × Bool)) (s : K × Bool) :
    edges before (samples ++ [s]) =
      edges before samples + (s.2 && !lastLevel before samples).toNat := by
  induction samples generalizing before with
  | nil => simp [edges, lastLevel]
  | cons r samples ih =>
      obtain ⟨t, high⟩ := r
      have hlast : lastLevel before ((t, high) :: samples) = lastLevel high samples := by
        unfold lastLevel
        rw [List.getLast?_cons]
        cases samples.getLast? <;> rfl
      rw [List.cons_append, edges, ih, hlast, edges, Nat.add_assoc]

theorem highTime_concat (samples : List (K × Bool)) (t' : K) (high' : Bool)
    (hlast : samples.getLast? = some (t, high)) :
    highTime (samples ++ [(t', high')]) =
      highTime samples + if high then t' - t else 0 := by
  induction samples with
  | nil => cases hlast
  | cons r samples ih =>
      cases samples with
      | nil =>
          obtain rfl := by simpa using hlast
          simp [highTime]
      | cons r' samples =>
          have hrest := ih (by simpa using hlast)
          simp only [List.cons_append, highTime] at hrest ⊢
          rw [hrest, add_assoc]

/-- No time is added after a low sample, nor before the first one. -/
theorem highTime_concat_low (hlow : lastLevel false samples = false) (s : K × Bool) :
    highTime (samples ++ [s]) = highTime samples := by
  cases hlast : samples.getLast? with
  | none =>
      rw [List.getLast?_eq_none_iff.mp hlast]
      rfl
  | some r =>
      obtain ⟨t, high⟩ := r
      obtain rfl : high = false := by simpa [lastLevel, hlast] using hlow
      rw [highTime_concat samples s.1 s.2 hlast]
      simp

end LevelIntervals
