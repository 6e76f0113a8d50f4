import Mathlib.Algebra.Order.Field.Rat
import Mathlib.Tactic.Linarith
import Mathlib.Tactic.NormNum
import Tempo.Runs
import Tempo.ServiceGain

/-!
# The congestion flag under `submit_job`

`submit_job` computes the priority of a job after it has released the lock that
`set_congested` takes, and reads `_congested` up to four times on the way: for
the deferral of a gain below the threshold, for the wider deferral under
congestion, for the rate, and for the recommendation to recompute.  Another
thread may change the flag between any two of the reads.

What is returned depends on the flag only through these reads (`mixed`).  For
each range of the gain some pairs of reads have to agree for it to be what one
congestion state gives, and no others (`mixed_eq_fixed_iff`).
-/

namespace Tempo

/-- Where `submit_job` stands between its two locked blocks, with the values of
its locals. -/
inductive PriorityPc (K : Type*) where
  /-- at `deferrable = gain < _DEFERRAL_THRESH and not self._congested` -/
  | defer
  /-- at `if self._congested and gain < 0.6` -/
  | widen (deferrable : Bool)
  /-- at `if self._congested and deferrable` -/
  | rate (deferrable : Bool)
  /-- at `recompute_fallback = ...` -/
  | recompute (deferrable : Bool) (allocatedBps : K)
  /-- the descriptor is complete -/
  | done (deferrable : Bool) (allocatedBps : K) (recomputeFallback : Bool)
  deriving DecidableEq

/-- What the reads of `_congested` have seen; `first` stays `False` if the gain
is not below the threshold, as there is no such read then. -/
structure FlagReads where
  first : Bool := false
  widen : Bool := false
  rate : Bool := false
  recompute : Bool := false

/-- The flag, the submitting thread, and its reads so far. -/
structure PriorityRun (K : Type*) where
  congested : Bool
  pc : PriorityPc K := .defer
  reads : FlagReads := {}

/-- A call of `set_congested` by another thread, or the next statement of
`submit_job`. -/
inductive PriorityEvent where
  | setCongested (flag : Bool)
  | submit

variable {K : Type*} [Field K] [LinearOrder K]

namespace PriorityRun

/-- One event, for a job of this gain. -/
def step (g : ServiceGain K) (gain : K) (s : PriorityRun K) :
    PriorityEvent → Option (PriorityRun K)
  | .setCongested flag => some { s with congested := flag }
  | .submit =>
      match s.pc with
      | .defer =>
          if gain < ServiceGain.deferralThresh then
            some { s with
              pc := .widen (!s.congested)
              reads := { s.reads with first := s.congested } }
          else some { s with pc := .widen false }
      | .widen deferrable =>
          some { s with
            pc := .rate
              (if s.congested && decide (gain < ServiceGain.congestedThresh)
                then true
                else deferrable)
            reads := { s.reads with widen := s.congested } }
      | .rate deferrable =>
          let allocated := g.baseBps * gain
          some { s with
            pc := .recompute deferrable
              (if s.congested && deferrable then
                allocated * g.congestionBwFactor
              else allocated)
            reads := { s.reads with rate := s.congested } }
      | .recompute deferrable allocated =>
          some { s with
            pc := .done deferrable allocated
              (s.congested &&
                decide (gain < ServiceGain.recomputeThresh))
            reads := { s.reads with recompute := s.congested } }
      | .done _ _ _ => none

end PriorityRun

namespace ServiceGain

variable (g : ServiceGain K) (gain : K)

/-- The descriptor with the flag fixed. -/
def fixed (flag : Bool) : Bool × K × Bool :=
  let p := (g.setCongested flag).priority gain
  (p.deferrable, p.allocatedBps, p.recomputeFallback)

/-- The deferral from the reads that decide it. -/
def mixedDeferrable (r : FlagReads) : Bool :=
  (decide (gain < deferralThresh) && !r.first) ||
    (r.widen && decide (gain < congestedThresh))

def mixedBps (r : FlagReads) : K :=
  if r.rate && mixedDeferrable gain r then
    g.baseBps * gain * g.congestionBwFactor
  else g.baseBps * gain

/-- The descriptor from the reads. -/
def mixed (r : FlagReads) : Bool × K × Bool :=
  (mixedDeferrable gain r, g.mixedBps gain r,
    r.recompute && decide (gain < recomputeThresh))

/-- The rate is the same with and without the congestion factor. -/
def SameRate : Prop := g.baseBps * gain * g.congestionBwFactor = g.baseBps * gain

instance SameRate.decidable : Decidable (g.SameRate gain) :=
  inferInstanceAs (Decidable (_ = _))

/-- The reads that have to agree, by the range of the gain. -/
def ReadsAgree (r : FlagReads) : Prop :=
  if gain < deferralThresh then
    (r.first = true → r.widen = true) ∧
      (gain < recomputeThresh →
        r.rate = r.recompute ∨ g.SameRate gain)
  else
    gain < congestedThresh → r.widen = true → r.rate = true ∨ g.SameRate gain

instance ReadsAgree.decidable (r : FlagReads) : Decidable (g.ReadsAgree gain r) :=
  inferInstanceAs (Decidable
    (if gain < deferralThresh then _ ∧ (_ → _) else _ → _ → _))

variable {g gain}

/-- Without a change in between, the reads give what the flag gives. -/
theorem mixed_const (g : ServiceGain K) (gain : K) (flag : Bool) :
    g.mixed gain ⟨flag, flag, flag, flag⟩ = g.fixed gain flag := rfl

theorem mixed_eq_fixed_iff [IsStrictOrderedRing K] (r : FlagReads) :
    (g.mixed gain r = g.fixed gain true ∨ g.mixed gain r = g.fixed gain false) ↔
      g.ReadsAgree gain r := by
  have hlow : recomputeThresh < (deferralThresh : K) := by
    unfold recomputeThresh deferralThresh
    norm_num
  have hhigh : (deferralThresh : K) < congestedThresh := by
    unfold deferralThresh congestedThresh
    norm_num
  rw [← mixed_const, ← mixed_const]
  unfold mixed mixedBps mixedDeferrable ReadsAgree SameRate
  generalize g.baseBps * gain = allocated
  rcases r with ⟨first, widen, rate, recompute⟩
  by_cases hthresh : gain < deferralThresh
  · have hwide : gain < congestedThresh := hthresh.trans hhigh
    by_cases hrecompute : gain < recomputeThresh
    · cases first <;> cases widen <;> cases rate <;> cases recompute <;>
        simp [hthresh, hwide, hrecompute, eq_comm]
    · cases first <;> cases widen <;> cases rate <;> cases recompute <;>
        simp [hthresh, hwide, hrecompute]
  · have hrecompute : ¬ gain < recomputeThresh := fun h =>
      hthresh (h.trans hlow)
    by_cases hwide : gain < congestedThresh
    · cases widen <;> cases rate <;> simp [hthresh, hwide, hrecompute, eq_comm]
    · simp [hthresh, hwide, hrecompute]

end ServiceGain

namespace PriorityRun

variable {g : ServiceGain K} {gain : K} {s t : PriorityRun K}

/-- The locals are what the reads made so far give. -/
def Agrees (g : ServiceGain K) (gain : K) (s : PriorityRun K) : Prop :=
  match s.pc with
  | .defer => s.reads = {}
  | .widen deferrable =>
      s.reads.widen = false ∧ deferrable = ServiceGain.mixedDeferrable gain s.reads
  | .rate deferrable =>
      deferrable = ServiceGain.mixedDeferrable gain s.reads
  | .recompute deferrable allocated =>
      deferrable = ServiceGain.mixedDeferrable gain s.reads ∧
        allocated = g.mixedBps gain s.reads
  | .done deferrable allocated recompute =>
      (deferrable, allocated, recompute) = g.mixed gain s.reads

/-- One event: the flag may change, or one more read is made. -/
theorem Agrees.step (h : s.Agrees g gain) {e : PriorityEvent}
    (hstep : s.step g gain e = some t) : t.Agrees g gain := by
  cases e with
  | setCongested flag =>
      obtain rfl := Option.some.inj hstep
      exact h
  | submit =>
      unfold PriorityRun.step at hstep
      unfold Agrees at h
      cases hpc : s.pc with
      | defer =>
          simp only [hpc] at h hstep
          split at hstep
          next hlow =>
            obtain rfl := Option.some.inj hstep
            unfold Agrees ServiceGain.mixedDeferrable
            simp [h, hlow]
          next hhigh =>
            obtain rfl := Option.some.inj hstep
            unfold Agrees ServiceGain.mixedDeferrable
            simp [h, hhigh]
      | widen deferrable =>
          simp only [hpc] at h hstep
          obtain rfl := Option.some.inj hstep
          obtain ⟨hunread, hdeferrable⟩ := h
          unfold ServiceGain.mixedDeferrable at hdeferrable
          rw [hunread, Bool.false_and, Bool.or_false] at hdeferrable
          unfold Agrees ServiceGain.mixedDeferrable
          dsimp only
          rw [hdeferrable]
          cases s.congested <;>
            cases decide (gain < ServiceGain.congestedThresh) <;> simp
      | rate deferrable =>
          simp only [hpc] at h hstep
          obtain rfl := Option.some.inj hstep
          unfold Agrees ServiceGain.mixedBps
          dsimp only
          rw [h]
          exact ⟨rfl, rfl⟩
      | recompute deferrable allocated =>
          simp only [hpc] at h hstep
          obtain rfl := Option.some.inj hstep
          obtain ⟨hdeferrable, hallocated⟩ := h
          unfold Agrees
          dsimp only
          rw [hdeferrable, hallocated]
          rfl
      | done deferrable allocated recompute =>
          simp only [hpc] at hstep
          cases hstep

/-- **A priority reflects one congestion state**, in every interleaving with
changes of the flag, exactly when the reads that have to agree for this gain
do. -/
theorem descriptor_of_one_state_iff [IsStrictOrderedRing K] {flag : Bool}
    {deferrable : Bool} {allocatedBps : K} {recomputeFallback : Bool}
    (hrun : Runs.Reachable (step g gain) { congested := flag } t)
    (hdone : t.pc = .done deferrable allocatedBps recomputeFallback) :
    ((deferrable, allocatedBps, recomputeFallback) = g.fixed gain true ∨
        (deferrable, allocatedBps, recomputeFallback) = g.fixed gain false) ↔
      g.ReadsAgree gain t.reads := by
  have hagrees : t.Agrees g gain := by
    have hinit : Agrees g gain { congested := flag } := rfl
    apply hrun.invariant hinit
    intro s e t h _ hstep
    exact h.step hstep
  unfold Agrees at hagrees
  rw [hdone] at hagrees
  rw [hagrees]
  exact ServiceGain.mixed_eq_fixed_iff t.reads

/-- A gain of `1/2` under congestion throughout. -/
theorem descriptor_congested :
    ∃ t, Runs.Reachable (step (.ofMilestone 500 : ServiceGain ℚ) (1 / 2))
        { congested := true } t ∧
      ((true, 3125000000, false) =
          (.ofMilestone 500 : ServiceGain ℚ).fixed (1 / 2) true ∨
        (true, 3125000000, false) =
          (.ofMilestone 500 : ServiceGain ℚ).fixed (1 / 2) false) := by
  obtain ⟨t, hrun, hdone, hagree⟩ : ∃ t : PriorityRun ℚ,
      Runs.Reachable (step (.ofMilestone 500) (1 / 2)) { congested := true } t ∧
      t.pc = .done true 3125000000 false ∧
      (.ofMilestone 500 : ServiceGain ℚ).ReadsAgree (1 / 2) t.reads :=
    Runs.Reachable.exists_of_exec [.submit, .submit, .submit, .submit]
      (by decide +kernel)
  exact ⟨t, hrun, (descriptor_of_one_state_iff hrun hdone).mpr hagree⟩

/-- Congestion ends between two reads: a gain of `1/2` is deferred at the full
rate, and one of `1/5` is not deferred, as it would be in either state. -/
theorem descriptor_mixed :
    (∃ t, Runs.Reachable (step (.ofMilestone 500 : ServiceGain ℚ) (1 / 2))
        { congested := true } t ∧
      t.pc = .done true 12500000000 false ∧
      (true, 12500000000, false) ≠
        (.ofMilestone 500 : ServiceGain ℚ).fixed (1 / 2) true ∧
      (true, 12500000000, false) ≠
        (.ofMilestone 500 : ServiceGain ℚ).fixed (1 / 2) false) ∧
    ∃ t, Runs.Reachable (step (.ofMilestone 500 : ServiceGain ℚ) (1 / 5))
        { congested := true } t ∧
      t.pc = .done false 5000000000 false ∧
      (false, 5000000000, false) ≠
        (.ofMilestone 500 : ServiceGain ℚ).fixed (1 / 5) true ∧
      (false, 5000000000, false) ≠
        (.ofMilestone 500 : ServiceGain ℚ).fixed (1 / 5) false :=
  ⟨Runs.Reachable.exists_of_exec
      [.submit, .submit, .setCongested false, .submit, .submit]
      (by decide +kernel),
    Runs.Reachable.exists_of_exec
      [.submit, .setCongested false, .submit, .submit, .submit]
      (by decide +kernel)⟩

end PriorityRun

end Tempo
