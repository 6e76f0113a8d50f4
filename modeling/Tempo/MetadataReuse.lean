import Mathlib.Algebra.Order.Floor.Ring
import Mathlib.Data.Rat.Floor
import Mathlib.Tactic.Linarith
import Tempo.SchedulerRuns

/-!
# One metadata dictionary over several calls

`TEMPOSchedulerV4.checkpoint` puts its size estimate into the dictionary it was
given.  A caller that passes the same dictionary again passes the estimate of the
last call, which is scaled once more.
-/

namespace Tempo

open Runs

section Truncate

variable {size : Int} {ratio : ℚ}

theorem truncate_neg (q : ℚ) : truncate (-q) = -truncate q := by
  unfold truncate
  rw [Rat.num_neg_eq_neg_num, Rat.den_neg_eq_den, Int.neg_tdiv]

theorem truncate_mul_of_pos (hsize : 0 < size) (hratio : 0 ≤ ratio) :
    truncate (size * ratio) = size ↔ 1 ≤ ratio ∧ (size : ℚ) * (ratio - 1) < 1 := by
  have hpos : (0 : ℚ) < size := by exact_mod_cast hsize
  rw [truncate_of_nonneg (mul_nonneg hpos.le hratio), Int.floor_eq_iff]
  constructor
  · rintro ⟨hle, hlt⟩
    exact ⟨by nlinarith, by linarith⟩
  · rintro ⟨hone, hlt⟩
    exact ⟨by nlinarith, by linarith⟩

/-- A scaled size that is cut to itself. -/
theorem truncate_mul_eq_iff (hratio : 0 ≤ ratio) :
    truncate (size * ratio) = size ↔
      size = 0 ∨ 1 ≤ ratio ∧ |(size : ℚ)| * (ratio - 1) < 1 := by
  rcases lt_trichotomy size 0 with hneg | rfl | hpos
  · have hflip := truncate_mul_of_pos (neg_pos.mpr hneg) hratio
    have habs : |(size : ℚ)| = ((-size : Int) : ℚ) := by
      rw [abs_of_neg (by exact_mod_cast hneg), Int.cast_neg]
    have hcut : truncate (((-size : Int) : ℚ) * ratio) = -truncate (size * ratio) := by
      rw [Int.cast_neg, neg_mul, truncate_neg]
    rw [hcut, neg_inj] at hflip
    rw [hflip, habs, or_iff_right hneg.ne]
  · simp [truncate]
  · rw [truncate_mul_of_pos hpos hratio, or_iff_right hpos.ne',
      abs_of_pos (by exact_mod_cast hpos)]

end Truncate

/-- The scheduler, the dictionary that its caller passes each time, and the sizes
that the calls so far have routed with. -/
structure SharedCalls where
  sched : Scheduler
  metadata : Metadata
  sizes : List (Int × Int) := []

namespace SharedCalls

open Scheduler

/-- The sizes that V3 and V2 read from the dictionary. -/
def routingSizes (metadata : Metadata) : Int × Int :=
  (metadata.sizeBytes.getD (256 * 1024 * 1024), kvBytes metadata)

/-- A call with the dictionary, which afterwards holds the estimate. -/
def step (cfg : SchedConfig) (s : SharedCalls) (call : Int × CkptEnv) :
    Option SharedCalls :=
  let env := { call.2 with metadata := some s.metadata }
  some
    { sched := (checkpointV4 cfg s.sched call.1 env).1
      metadata := estimated cfg env
      sizes := s.sizes ++ [routingSizes (estimated cfg env)] }

/-- `avg_hot`. -/
def hotRatio (env : CkptEnv) : ℚ :=
  max (5 / 100) (env.hotRatioPct / 100)

/-- The dictionary has a size, and without the filter, or empty, or scaled up by
less than a byte, it stays as it is. -/
def Keeps (cfg : SchedConfig) (metadata : Metadata) (env : CkptEnv) : Prop :=
  ∃ size, metadata.sizeBytes = some size ∧
    (cfg.sparse = false ∨ size = 0 ∨
      1 ≤ hotRatio env ∧ |(size : ℚ)| * (hotRatio env - 1) < 1)

variable {cfg : SchedConfig} {s t : SharedCalls} {metadata : Metadata}
  {env : CkptEnv}

/-- The estimate of V4 for the size in the dictionary. -/
def hint (cfg : SchedConfig) (env : CkptEnv) (size : Int) : Int :=
  if cfg.sparse then truncate (size * hotRatio env) else size

theorem hint_eq_iff {size : Int} : hint cfg env size = size ↔
    cfg.sparse = false ∨ size = 0 ∨
      1 ≤ hotRatio env ∧ |(size : ℚ)| * (hotRatio env - 1) < 1 := by
  have hratio : 0 ≤ hotRatio env := le_max_of_le_left (by norm_num)
  unfold hint
  cases cfg.sparse with
  | false => simp
  | true =>
      rw [if_pos rfl, truncate_mul_eq_iff hratio, or_iff_right Bool.true_eq_false_eq_False.elim]

/-- A call leaves the dictionary as it is exactly when it keeps it. -/
theorem estimated_eq_iff :
    estimated cfg { env with metadata := some metadata } = metadata ↔
      Keeps cfg metadata env := by
  have hwritten : estimated cfg { env with metadata := some metadata } =
      { metadata with
        sizeBytes :=
          some (hint cfg env (metadata.sizeBytes.getD (256 * 1024 * 1024))) } :=
    rfl
  rw [hwritten]
  unfold Keeps
  constructor
  · intro heq
    have hsize : some (hint cfg env (metadata.sizeBytes.getD (256 * 1024 * 1024))) =
        metadata.sizeBytes :=
      congrArg Metadata.sizeBytes heq
    have hfixed : metadata.sizeBytes.getD (256 * 1024 * 1024) =
        hint cfg env (metadata.sizeBytes.getD (256 * 1024 * 1024)) := by
      conv_lhs => rw [← hsize, Option.getD_some]
    exact ⟨_, hsize.symm, hint_eq_iff.mp (congrArg (hint cfg env) hfixed.symm)⟩
  · rintro ⟨size, hsize, hkeeps⟩
    rw [hsize, Option.getD_some, hint_eq_iff.mpr hkeeps, ← hsize]

/-- The dictionary is as its caller made it, and where the filter's statistics
do not change, all calls so far have routed with the same sizes. -/
def Unchanged (metadata : Metadata) (calls : List (Int × CkptEnv))
    (s : SharedCalls) : Prop :=
  s.metadata = metadata ∧
    ((∀ a ∈ calls, ∀ b ∈ calls, a.2.hotRatioPct = b.2.hotRatioPct) →
      ∀ size ∈ s.sizes, s.sizes.head? = some size)

/-- **The caller's dictionary is left alone exactly by calls that keep it.** -/
theorem unchanged_iff_keeps (cfg : SchedConfig) (sched : Scheduler)
    (metadata : Metadata) (calls : List (Int × CkptEnv)) :
    (∀ pre, pre <+: calls → ∀ s ∈ exec (step cfg) { sched, metadata } pre,
      s.Unchanged metadata calls) ↔
    Meets (step cfg) (fun s call => Keeps cfg s.metadata call.2)
      { sched, metadata } calls := by
  apply Meets.iff_prefixes_of_kept (P := Unchanged metadata calls)
    (Q := fun s => s.metadata = metadata ∧
      ∀ size ∈ s.sizes, size = routingSizes metadata)
  · rintro s ⟨hkept, hsizes⟩
    refine ⟨hkept, fun _ size hsize => ?_⟩
    cases hall : s.sizes with
    | nil =>
        rw [hall] at hsize
        cases hsize
    | cons first rest =>
        have hfirst : first = routingSizes metadata := hsizes first (by simp [hall])
        rw [List.head?_cons, hfirst, hsizes size hsize]
  · exact ⟨rfl, fun size hsize => by cases hsize⟩
  · rintro s call ⟨hkept, hsizes⟩
    subst hkept
    refine ⟨_, rfl, fun hunchanged => estimated_eq_iff.mp hunchanged.1, fun hkeeps => ?_⟩
    have hsame := estimated_eq_iff.mpr hkeeps
    refine ⟨hsame, fun size hsize => ?_⟩
    rcases List.mem_append.mp hsize with hold | hnew
    · exact hsizes size hold
    · rw [List.mem_singleton.mp hnew, hsame]

/-- The hot ratio is 12 per cent, and the size 100. -/
def hundredBytes : List (Int × CkptEnv) :=
  [(1, { hotRatioPct := 12 }), (2, { hotRatioPct := 12 })]

/-- The first call routes with 12 bytes and the second with one. -/
theorem estimate_compounds :
    ¬ ∀ (cfg : SchedConfig) (sched : Scheduler) (metadata : Metadata)
        (calls : List (Int × CkptEnv)), cfg.mode = .tempo →
      ∀ s ∈ exec (step cfg) { sched, metadata } calls,
        s.Unchanged metadata calls := by
  intro hall
  obtain ⟨s, hs, hsizes⟩ : ∃ s ∈ exec (step Scheduler.routedConfig)
      { sched := Scheduler.routedScheduler, metadata := { sizeBytes := some 100 } }
      hundredBytes, s.sizes = [(12, 12), (1, 1)] := by
    decide +kernel
  have hsame := (hall _ _ _ _ rfl s hs).2 (by decide +kernel) (1, 1) (by simp [hsizes])
  rw [hsizes] at hsame
  exact absurd hsame (by decide)

end SharedCalls

end Tempo
