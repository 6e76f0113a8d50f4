import Mathlib.Analysis.Complex.Exponential
import Mathlib.Tactic.Linarith
import Mathlib.Tactic.Positivity
import Tempo.Runs
import Tempo.ServiceGain

/-!
# The score of a checkpoint

Off the milestones `compute_gain` is a weighted sum of three terms, each of which
only grows with the step; with a deadline of at least one step the sum is below
`1` (`score_lt_one`), and neither clip matters.  At a milestone it is the
constant `0.95`, which the sum can exceed.

`submit_job` stores the step as that of the last checkpoint before it asks for
the gain, so the urgency it scores is always that of no step waited.

The arithmetic is that of the reals here.
-/

namespace Tempo

namespace ServiceGain

variable {g : ServiceGain ℝ} {s s' : Int}

section Bounds

theorem learningProgress_nonneg (g : ServiceGain ℝ) (s : Int) :
    0 ≤ g.learningProgress s := by
  have hsteps : (0 : ℝ) ≤ (g.stepsSinceCommit s : ℝ) := by
    exact_mod_cast le_max_left 0 _
  have hhorizon : (0 : ℝ) ≤ ((max 1 g.horizon : Int) : ℝ) := by
    exact_mod_cast zero_le_one.trans (le_max_left 1 g.horizon)
  exact le_min zero_le_one (div_nonneg hsteps hhorizon)

theorem learningProgress_le_one (g : ServiceGain ℝ) (s : Int) :
    g.learningProgress s ≤ 1 := min_le_left _ _

theorem stepsSinceCommit_mono (g : ServiceGain ℝ) (h : s ≤ s') :
    g.stepsSinceCommit s ≤ g.stepsSinceCommit s' := by
  unfold stepsSinceCommit
  omega

theorem learningProgress_mono (g : ServiceGain ℝ) (h : s ≤ s') :
    g.learningProgress s ≤ g.learningProgress s' := by
  have hsteps : (g.stepsSinceCommit s : ℝ) ≤ (g.stepsSinceCommit s' : ℝ) := by
    exact_mod_cast g.stepsSinceCommit_mono h
  have hhorizon : (0 : ℝ) ≤ ((max 1 g.horizon : Int) : ℝ) := by
    exact_mod_cast zero_le_one.trans (le_max_left 1 g.horizon)
  exact min_le_min_left 1 (div_le_div_of_nonneg_right hsteps hhorizon)

theorem recoveryValue_nonneg (g : ServiceGain ℝ) (s : Int) :
    0 ≤ g.recoveryValue Real.exp s := by
  have hsteps : (0 : ℝ) ≤ (g.stepsSinceCommit s : ℝ) := by
    exact_mod_cast le_max_left 0 _
  have hexp : Real.exp (-(1 / 100) * (g.stepsSinceCommit s : ℝ)) ≤ 1 := by
    apply Real.exp_le_one_iff.mpr
    linarith
  exact sub_nonneg.mpr hexp

theorem recoveryValue_lt_one (g : ServiceGain ℝ) (s : Int) :
    g.recoveryValue Real.exp s < 1 :=
  sub_lt_self 1 (Real.exp_pos _)

theorem recoveryValue_mono (g : ServiceGain ℝ) (h : s ≤ s') :
    g.recoveryValue Real.exp s ≤ g.recoveryValue Real.exp s' := by
  have hsteps : (g.stepsSinceCommit s : ℝ) ≤ (g.stepsSinceCommit s' : ℝ) := by
    exact_mod_cast g.stepsSinceCommit_mono h
  apply sub_le_sub_left
  apply Real.exp_le_exp.mpr
  linarith

theorem urgency_nonneg (g : ServiceGain ℝ) (s : Int) : 0 ≤ g.urgency s :=
  le_max_left _ _

theorem score_nonneg (g : ServiceGain ℝ) (s : Int) : 0 ≤ g.score Real.exp s := by
  have hlearning := g.learningProgress_nonneg s
  have hrecovery := g.recoveryValue_nonneg s
  have hurgency := g.urgency_nonneg s
  unfold score
  linarith

variable (hslo : 1 ≤ g.sloDeadlineSteps)

include hslo

/-- At least one step of the deadline is left. -/
theorem urgency_le (s : Int) : g.urgency s ≤ 1 - 1 / (g.sloDeadlineSteps : ℝ) := by
  have hpos : (1 : ℝ) ≤ (g.sloDeadlineSteps : ℝ) := by exact_mod_cast hslo
  have hleft : (1 : ℝ) ≤ (g.remainingBudget s : ℝ) := by
    exact_mod_cast le_max_left 1 _
  apply max_le
  · rw [sub_nonneg, div_le_one (by linarith)]
    exact hpos
  · apply sub_le_sub_left
    exact div_le_div_of_nonneg_right hleft (by linarith)

theorem urgency_mono (h : s ≤ s') : g.urgency s ≤ g.urgency s' := by
  have hpos : (0 : ℝ) ≤ (g.sloDeadlineSteps : ℝ) := by
    exact_mod_cast zero_le_one.trans hslo
  have hleft : (g.remainingBudget s' : ℝ) ≤ (g.remainingBudget s : ℝ) := by
    have hint : g.remainingBudget s' ≤ g.remainingBudget s := by
      unfold remainingBudget
      omega
    exact_mod_cast hint
  apply max_le_max le_rfl
  apply sub_le_sub_left
  exact div_le_div_of_nonneg_right hleft hpos

/-- Some urgency is left unless no step has passed or one is all there is. -/
theorem urgency_eq_zero_iff (s : Int) :
    g.urgency s = 0 ↔ g.sloDeadlineSteps = 1 ∨ s ≤ g.lastCkptStep := by
  have hpos : (0 : ℝ) < (g.sloDeadlineSteps : ℝ) := by
    exact_mod_cast zero_lt_one.trans_le hslo
  have hint : g.sloDeadlineSteps ≤ g.remainingBudget s ↔
      g.sloDeadlineSteps = 1 ∨ s ≤ g.lastCkptStep := by
    unfold remainingBudget
    omega
  unfold urgency
  rw [max_eq_left_iff, sub_nonpos, one_le_div hpos, Int.cast_le, hint]

theorem score_lt_one (s : Int) : g.score Real.exp s < 1 := by
  have hlearning := g.learningProgress_le_one s
  have hrecovery := g.recoveryValue_lt_one s
  have hurgency := urgency_le hslo s
  have hpos : (0 : ℝ) < 1 / (g.sloDeadlineSteps : ℝ) := by
    apply one_div_pos.mpr
    exact_mod_cast zero_lt_one.trans_le hslo
  unfold score
  linarith

theorem score_mono (h : s ≤ s') :
    g.score Real.exp s ≤ g.score Real.exp s' := by
  have hlearning := g.learningProgress_mono h
  have hrecovery := g.recoveryValue_mono h
  have hurgency := urgency_mono hslo h
  unfold score
  linarith

/-- The clips change nothing. -/
theorem computeGain_real (hinterval : 1 ≤ g.milestoneInterval) (s : Int) :
    g.computeGain Real.exp s =
      some (if g.isMilestone s then 95 / 100 else g.score Real.exp s) := by
  rw [computeGain_eq Real.exp s (by omega) (by omega),
    max_eq_right (g.score_nonneg s), min_eq_right (score_lt_one hslo s).le]
  rfl

/-- With a short deadline, or before the last ninth of the horizon, the sum keeps
below the gain of a milestone. -/
theorem score_le_milestone
    (hlow : g.sloDeadlineSteps ≤ 4 ∨
      9 * g.stepsSinceCommit s ≤ 8 * max 1 g.horizon) :
    g.score Real.exp s ≤ 95 / 100 := by
  have hlearning := g.learningProgress_le_one s
  have hrecovery := g.recoveryValue_lt_one s
  have hurgency := urgency_le hslo s
  have hpos : (1 : ℝ) ≤ (g.sloDeadlineSteps : ℝ) := by exact_mod_cast hslo
  unfold score
  rcases hlow with hshort | hearly
  · have hfour : (g.sloDeadlineSteps : ℝ) ≤ 4 := by exact_mod_cast hshort
    have hquarter : 1 / 4 ≤ 1 / (g.sloDeadlineSteps : ℝ) :=
      one_div_le_one_div_of_le (by linarith) hfour
    linarith
  · have hhorizon : (1 : ℝ) ≤ ((max 1 g.horizon : Int) : ℝ) := by
      exact_mod_cast le_max_left 1 g.horizon
    have hsteps : 9 * (g.stepsSinceCommit s : ℝ) ≤
        8 * ((max 1 g.horizon : Int) : ℝ) := by
      exact_mod_cast hearly
    have hprogress : g.learningProgress s ≤ 8 / 9 := by
      apply (min_le_right _ _).trans
      rw [div_le_iff₀ (by linarith)]
      linarith
    have hdeadline : 0 ≤ 1 / (g.sloDeadlineSteps : ℝ) := by positivity
    linarith

end Bounds

/-- **Waiting and the gain.**  The gain is between `0` and `1`, and between steps
that are no milestones it only grows.  A milestone later is worth as much
exactly when the gain was no more than its constant, as for a milestone, with a
deadline of at most four steps, and until eight ninths of the horizon have
passed since the last commit. -/
theorem computeGain_order (g : ServiceGain ℝ) (hslo : 1 ≤ g.sloDeadlineSteps)
    (hinterval : 1 ≤ g.milestoneInterval) :
    ∃ gain : Int → ℝ, (∀ s, g.computeGain Real.exp s = some (gain s)) ∧
      (∀ s, 0 ≤ gain s ∧ gain s ≤ 1) ∧
      ∀ s s', s ≤ s' →
        (g.isMilestone s = false → g.isMilestone s' = false →
          gain s ≤ gain s') ∧
        (g.isMilestone s' = true →
          (gain s ≤ gain s' ↔ gain s ≤ 95 / 100) ∧
          (g.isMilestone s = true ∨ g.sloDeadlineSteps ≤ 4 ∨
              9 * g.stepsSinceCommit s ≤ 8 * max 1 g.horizon →
            gain s ≤ gain s')) := by
  refine ⟨fun s => if g.isMilestone s then 95 / 100 else g.score Real.exp s,
    computeGain_real hslo hinterval, ?_, ?_⟩
  · intro s
    dsimp only
    split
    · norm_num
    · exact ⟨g.score_nonneg s, (score_lt_one hslo s).le⟩
  · intro s s' hle
    refine ⟨fun hs hs' => ?_, fun hs' => ?_⟩
    · simp only [hs, hs', Bool.false_eq_true, if_false]
      exact score_mono hslo hle
    · simp only [hs', if_true, iff_self, true_and]
      intro hlow
      by_cases hs : g.isMilestone s = true
      · rw [if_pos hs]
      · rw [if_neg hs]
        exact score_le_milestone hslo (hlow.resolve_left hs)

/-- Neither step 10 nor step 20 of a new scheduler is a milestone. -/
theorem computeGain_order_new :
    ∃ gain gain' : ℝ,
      (ofMilestone 500 : ServiceGain ℝ).computeGain Real.exp 10 = some gain ∧
      (ofMilestone 500 : ServiceGain ℝ).computeGain Real.exp 20 = some gain' ∧
      0 ≤ gain ∧ gain ≤ gain' ∧ gain' ≤ 1 := by
  obtain ⟨gain, hgain, hbounds, horder⟩ :=
    computeGain_order (ofMilestone 500) (by decide) (by decide)
  exact ⟨gain 10, gain 20, hgain 10, hgain 20, (hbounds 10).1,
    (horder 10 20 (by decide)).1 (by decide) (by decide), (hbounds 20).2⟩

/-- On a new scheduler step 1001 is worth more than the milestone of 1500. -/
theorem gain_falls_at_milestone :
    ∃ gain gain' : ℝ,
      (ofMilestone 500 : ServiceGain ℝ).computeGain Real.exp 1001 = some gain ∧
      (ofMilestone 500 : ServiceGain ℝ).computeGain Real.exp 1500 = some gain' ∧
      gain' < gain := by
  have hslo : 1 ≤ (ofMilestone 500 : ServiceGain ℝ).sloDeadlineSteps := by decide
  have hinterval : 1 ≤ (ofMilestone 500 : ServiceGain ℝ).milestoneInterval := by
    decide
  refine ⟨_, _, computeGain_real hslo hinterval 1001,
    computeGain_real hslo hinterval 1500, ?_⟩
  have hs : (ofMilestone 500 : ServiceGain ℝ).isMilestone 1001 = false := by
    decide
  have hs' : (ofMilestone 500 : ServiceGain ℝ).isMilestone 1500 = true := by
    decide
  have hsteps : (ofMilestone 500 : ServiceGain ℝ).stepsSinceCommit 1001 = 1001 := by
    decide
  have hbudget : (ofMilestone 500 : ServiceGain ℝ).remainingBudget 1001 = 1 := by
    decide
  have hexp : Real.exp (-(1 / 100) * ((1001 : Int) : ℝ)) ≤ 1 / 8 := by
    have hgrows := Real.add_one_le_exp ((1 / 100) * ((1001 : Int) : ℝ))
    rw [neg_mul, Real.exp_neg, ← one_div]
    apply one_div_le_one_div_of_le (by norm_num)
    refine le_trans ?_ hgrows
    norm_num
  rw [hs, hs', if_pos rfl, if_neg Bool.false_ne_true]
  unfold score learningProgress recoveryValue urgency
  rw [hsteps, hbudget]
  have hhorizon : ((max 1 (ofMilestone 500 : ServiceGain ℝ).horizon : Int) : ℝ) =
      1000 := by
    norm_num [ofMilestone]
  have hdeadline : ((ofMilestone 500 : ServiceGain ℝ).sloDeadlineSteps : ℝ) =
      100 := by
    norm_num [ofMilestone]
  rw [hhorizon, hdeadline]
  have hprogress : min 1 (((1001 : Int) : ℝ) / 1000) = 1 := by norm_num
  have hurgency : max 0 (1 - ((1 : Int) : ℝ) / 100) = (99 / 100 : ℝ) := by norm_num
  rw [hprogress, hurgency]
  linarith

section Submit

/-- The gain of the job is that of the scheduler its first block leaves. -/
theorem submitJob_gain (exp : ℝ → ℝ) (g : ServiceGain ℝ) (s : Int) (now : ℝ) :
    (g.submitJob exp s now).2.map (·.gain) = (g.openJob s).computeGain exp s := by
  unfold submitJob
  dsimp only
  cases (g.openJob s).computeGain exp s with
  | none => rfl
  | some gain => rfl

variable (hslo : 1 ≤ g.sloDeadlineSteps)

include hslo

/-- No step has passed since the job was opened. -/
theorem urgency_openJob (s : Int) : (g.openJob s).urgency s = 0 := by
  have hopened : 1 ≤ (g.openJob s).sloDeadlineSteps := hslo
  exact (urgency_eq_zero_iff hopened s).mpr (.inr le_rfl)

theorem score_openJob (s : Int) :
    (g.openJob s).score Real.exp s = g.score Real.exp s - 20 / 100 * g.urgency s := by
  have hlearning : (g.openJob s).learningProgress s = g.learningProgress s := rfl
  have hrecovery : (g.openJob s).recoveryValue Real.exp s =
      g.recoveryValue Real.exp s := rfl
  unfold score
  rw [urgency_openJob hslo, hlearning, hrecovery]
  linarith

/-- The job has the gain of the state before it unless that had some urgency. -/
theorem gain_submitJob_iff (hinterval : 1 ≤ g.milestoneInterval) (s : Int)
    (now : ℝ) :
    (g.submitJob Real.exp s now).2.map (·.gain) = g.computeGain Real.exp s ↔
      g.isMilestone s = true ∨ g.sloDeadlineSteps = 1 ∨ s ≤ g.lastCkptStep := by
  have hopened : 1 ≤ (g.openJob s).sloDeadlineSteps := hslo
  have hmilestone : (g.openJob s).isMilestone s = g.isMilestone s := rfl
  rw [submitJob_gain, computeGain_real hopened hinterval,
    computeGain_real hslo hinterval, hmilestone, score_openJob hslo,
    ← urgency_eq_zero_iff hslo, Option.some.injEq]
  cases g.isMilestone s with
  | true => simp
  | false =>
      simp only [Bool.false_eq_true, if_false, false_or]
      constructor <;> intro h <;> linarith

end Submit

/-- A call of the scheduler. -/
inductive GainCall where
  | submitJob (step : Int) (now : ℝ)
  | markCommitted (step : Int)
  | setCongested (flag : Bool)

/-- A new scheduler. -/
def ofParams (baseBps factor : ℝ) (interval slo : Int) : ServiceGain ℝ :=
  { baseBps, milestoneInterval := interval, sloDeadlineSteps := slo,
    congestionBwFactor := factor }

noncomputable def gainStep (g : ServiceGain ℝ) : GainCall → Option (ServiceGain ℝ)
  | .submitJob step now => some (g.submitJob Real.exp step now).1
  | .markCommitted step => some (g.markCommitted step)
  | .setCongested flag => some (g.setCongested flag)

/-- No call changes the interval or the deadline. -/
theorem params_reachable {baseBps factor : ℝ} {interval slo : Int}
    (hrun : Runs.Reachable gainStep (ofParams baseBps factor interval slo) g) :
    g.milestoneInterval = interval ∧ g.sloDeadlineSteps = slo := by
  apply hrun.invariant ⟨rfl, rfl⟩
  intro g call g' h _ hstep
  cases call with
  | submitJob step now =>
      obtain rfl := Option.some.inj hstep
      unfold ServiceGain.submitJob
      dsimp only
      split
      · exact h
      · unfold closeJob
        dsimp only
        split
        · exact h
        · split <;> exact h
  | markCommitted step =>
      obtain rfl := Option.some.inj hstep
      exact h
  | setCongested flag =>
      obtain rfl := Option.some.inj hstep
      exact h

/-- **A job is scored against the state before it** exactly when its step is a
milestone, the deadline is one step, or no step has passed since the last
submission. -/
theorem submitted_gain_iff {baseBps factor : ℝ} {interval slo : Int}
    (hslo : 1 ≤ slo) (hinterval : 1 ≤ interval)
    (hrun : Runs.Reachable gainStep (ofParams baseBps factor interval slo) g)
    (s : Int) (now : ℝ) :
    (g.submitJob Real.exp s now).2.map (·.gain) = g.computeGain Real.exp s ↔
      (0 < s ∧ s % interval = 0) ∨ slo = 1 ∨ s ≤ g.lastCkptStep := by
  obtain ⟨rfl, rfl⟩ := params_reachable hrun
  rw [gain_submitJob_iff hslo hinterval]
  simp [isMilestone]

/-- The first job of a new scheduler, at a milestone. -/
theorem submitted_gain_milestone :
    ((ofParams 1 1 500 100).submitJob Real.exp 500 0).2.map (·.gain) =
      (ofParams 1 1 500 100).computeGain Real.exp 500 :=
  (submitted_gain_iff (by decide) (by decide) .refl 500 0).mpr
    (.inl ⟨by decide, by decide⟩)

/-- The first job of a new scheduler, at step 50 with a deadline of 100. -/
theorem submitted_gain_differs :
    ((ofParams 1 1 500 100).submitJob Real.exp 50 0).2.map (·.gain) ≠
      (ofParams 1 1 500 100).computeGain Real.exp 50 := by
  have hslo : 1 ≤ (ofParams 1 1 500 100).sloDeadlineSteps := by decide
  intro heq
  have hcond := (gain_submitJob_iff hslo (by decide) 50 0).mp heq
  revert hcond
  decide

end ServiceGain

end Tempo
