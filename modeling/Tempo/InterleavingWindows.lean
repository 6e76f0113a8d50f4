import Tempo.InterleavingEngine
import Tempo.MovingAverage

/-!
# How long a window is open

Whatever the timers do, I/O is let through in a compute phase only, once the first one has
begun: every end of a phase sets the deadline, and so does every callback.  What is
predicted is an average of the compute phases that have ended.  So where each lasted from
`lo` to `hi`, a window is never longer than `hi` less the margin, and what is left of it
shrinks as the phase goes on (`windows_bounded`).
-/

namespace Tempo

open MovingAverage Runs

namespace PhaseDurationPredictor

variable {p : PhaseDurationPredictor} {lo hi : ℚ}

/-- A predictor whose durations are from `lo` to `hi`, and whose variances are not
negative. -/
structure Ranged (lo hi : ℚ) (p : PhaseDurationPredictor) : Prop where
  alpha_nonneg : 0 ≤ p.alpha
  alpha_le_one : p.alpha ≤ 1
  lo_le : lo ≤ p.computeEwma
  le_hi : p.computeEwma ≤ hi
  computeVar_nonneg : 0 ≤ p.computeVar
  ncclVar_nonneg : 0 ≤ p.ncclVar

/-- A variance is the average of squares. -/
theorem variance_nonneg {alpha var x : ℚ} (halpha : 0 ≤ alpha) (halpha' : alpha ≤ 1)
    (hvar : 0 ≤ var) : 0 ≤ (1 - alpha) * var + alpha * x ^ 2 := by
  rw [add_comm]
  exact le_smooth halpha halpha' (sq_nonneg x) hvar

theorem Ranged.updateCompute (hp : p.Ranged lo hi) {durMs : ℚ} (hlo : lo ≤ durMs)
    (hhi : durMs ≤ hi) : (p.updateCompute durMs).Ranged lo hi where
  alpha_nonneg := hp.alpha_nonneg
  alpha_le_one := hp.alpha_le_one
  lo_le := le_smooth hp.alpha_nonneg hp.alpha_le_one hlo hp.lo_le
  le_hi := smooth_le hp.alpha_nonneg hp.alpha_le_one hhi hp.le_hi
  computeVar_nonneg := variance_nonneg hp.alpha_nonneg hp.alpha_le_one hp.computeVar_nonneg
  ncclVar_nonneg := hp.ncclVar_nonneg

theorem Ranged.updateNccl (hp : p.Ranged lo hi) (durMs : ℚ) :
    (p.updateNccl durMs).Ranged lo hi :=
  { hp with
    ncclVar_nonneg := variance_nonneg hp.alpha_nonneg hp.alpha_le_one hp.ncclVar_nonneg }

/-- The margin is two milliseconds or more. -/
theorem Ranged.safeWindowMs_le (hp : p.Ranged lo hi) (sqrt : ℚ → ℚ) :
    p.safeWindowMs sqrt ≤ max 0 (hi - safetyMarginMs) := by
  have hmargin : safetyMarginMs ≤ (p.predict sqrt).2.2 := le_max_left _ _
  have hpredicted : (p.predict sqrt).1 ≤ hi := hp.le_hi
  exact max_le_max_left 0 (by linarith)

end PhaseDurationPredictor

namespace InterleavingEngine

variable {sqrt : ℚ → ℚ} {s t : InterleavingEngine} {lo hi : ℚ} {e : Event}

/-- `get_safe_window_ms`. -/
def getSafeWindowMs (sqrt : ℚ → ℚ) (s : InterleavingEngine) (now : ℚ) : ℚ :=
  if !s.inCompute then 0
  else
    let elapsedMs := (now - s.computeStart) * 1000
    max 0 ((s.predictor.predict sqrt).1 - (s.predictor.predict sqrt).2.2 - elapsedMs)

/-- The compute phase that ends has lasted from `lo` to `hi`. -/
def Lasted (lo hi : ℚ) (s : InterleavingEngine) : Event → Prop
  | .computeEnd now =>
      s.inCompute = true → lo ≤ (now - s.computeStart) * 1000 ∧
        (now - s.computeStart) * 1000 ≤ hi
  | _ => True

instance (lo hi : ℚ) (s : InterleavingEngine) : ∀ e, Decidable (Lasted lo hi s e)
  | .computeEnd _ => inferInstanceAs (Decidable (_ → _))
  | .computeStart _ | .ncclEnd _ | .timer _ | .fireDeadline _ => isTrue trivial

/-- The deadline is clear in a compute phase only, each phase is cut late once at most,
and the windows are shorter than the predictor's longest phase. -/
structure Bounded (lo hi : ℚ) (s : InterleavingEngine) : Prop where
  predictor : s.predictor.Ranged lo hi
  closed : 0 < s.stats.ioWindowsOpened → s.deadlineEvent = false → s.inCompute = true
  late : s.stats.ioWindowsCutLate ≤ s.stats.ioWindowsOpened + 1
  late_clear : s.deadlineEvent = false →
    s.stats.ioWindowsCutLate ≤ s.stats.ioWindowsOpened
  total : s.stats.totalSafeWindowMs ≤
    s.stats.ioWindowsOpened * max 0 (hi - PhaseDurationPredictor.safetyMarginMs)

theorem Bounded.computeStart (hs : s.Bounded lo hi) (now : ℚ) :
    (s.onComputeStart sqrt now).Bounded lo hi := by
  have hwindow := hs.predictor.safeWindowMs_le sqrt
  have htotal : s.stats.totalSafeWindowMs + s.predictor.safeWindowMs sqrt ≤
      ((s.stats.ioWindowsOpened + 1 : Nat) : ℚ) *
        max 0 (hi - PhaseDurationPredictor.safetyMarginMs) := by
    have hbefore := hs.total
    push_cast
    linarith
  unfold onComputeStart
  split
  · exact
      { predictor := hs.predictor
        closed := fun _ _ => rfl
        late := hs.late.trans (Nat.le_succ _)
        late_clear := fun _ => hs.late
        total := htotal }
  · exact
      { predictor := hs.predictor
        closed := fun _ hclear => by cases hclear
        late := hs.late.trans (Nat.le_succ _)
        late_clear := fun hclear => by cases hclear
        total := htotal }

/-- Closing a window counts nothing. -/
theorem closeWindow_stats (s : InterleavingEngine) (now : ℚ) :
    (s.closeWindow now).stats.ioWindowsOpened = s.stats.ioWindowsOpened ∧
      (s.closeWindow now).stats.ioWindowsCutLate = s.stats.ioWindowsCutLate ∧
      (s.closeWindow now).stats.totalSafeWindowMs = s.stats.totalSafeWindowMs := by
  unfold closeWindow
  dsimp only
  split <;> exact ⟨rfl, rfl, rfl⟩

theorem closeWindow_ranged (hs : s.predictor.Ranged lo hi) {now : ℚ}
    (hlasted : Lasted lo hi s (.computeEnd now)) :
    (s.closeWindow now).predictor.Ranged lo hi := by
  unfold closeWindow
  dsimp only
  split
  next hcompute => exact hs.updateCompute (hlasted hcompute).1 (hlasted hcompute).2
  next => exact hs

theorem Bounded.computeEnd (hs : s.Bounded lo hi) {now : ℚ}
    (hlasted : Lasted lo hi s (.computeEnd now)) : (s.onComputeEnd now).Bounded lo hi := by
  obtain ⟨hopened, hcut, htotal⟩ := closeWindow_stats s now
  have hevent : (s.closeWindow now).deadlineEvent = s.deadlineEvent :=
    (closeWindow_frame now).2.2.2.1
  have hranged := closeWindow_ranged hs.predictor hlasted
  unfold onComputeEnd
  dsimp only
  split
  next hset =>
    exact
      { predictor := hranged
        closed := fun _ hclear => by simp [hset] at hclear
        late := hcut ▸ hopened ▸ hs.late
        late_clear := fun hclear => by simp [hset] at hclear
        total := by
          rw [htotal, hopened]
          exact hs.total }
  next hclear =>
    have hbefore : s.deadlineEvent = false := by
      rw [← hevent]
      exact Bool.eq_false_iff.mpr hclear
    exact
      { predictor := hranged
        closed := fun _ hset => by cases hset
        late := by
          dsimp only
          rw [hcut, hopened]
          exact Nat.succ_le_succ (hs.late_clear hbefore)
        late_clear := fun hset => by cases hset
        total := by
          dsimp only
          rw [htotal, hopened]
          exact hs.total }

theorem Bounded.step (hs : s.Bounded lo hi) (hlasted : Lasted lo hi s e)
    (hstep : s.step sqrt e = some t) : t.Bounded lo hi := by
  cases e with
  | computeStart now =>
      obtain rfl := Option.some.inj hstep
      exact hs.computeStart now
  | computeEnd now =>
      obtain rfl := Option.some.inj hstep
      exact hs.computeEnd hlasted
  | ncclEnd ncclDurMs =>
      obtain rfl := Option.some.inj hstep
      exact { hs with predictor := hs.predictor.updateNccl ncclDurMs }
  | timer window =>
      obtain ⟨-, rfl⟩ := by simpa [InterleavingEngine.step] using hstep
      exact { hs with }
  | fireDeadline window =>
      obtain ⟨-, rfl⟩ := by simpa [InterleavingEngine.step] using hstep
      exact
        { predictor := hs.predictor
          closed := fun _ hclear => by cases hclear
          late := hs.late
          late_clear := fun hclear => by cases hclear
          total := hs.total }

/-- **Windows are bounded by the phases that were seen.**  In every interleaving with the
timers, whatever they do, in which each compute phase lasts from `lo` to `hi`, like the
first prediction: once a phase has begun the deadline is clear in a compute phase only; a
window that is not used up is one of a compute phase that has gone on for less than `hi`
less two milliseconds; the safe windows add up to at most that for each window; and at
most one more window is cut late than were opened. -/
theorem windows_bounded (sqrt : ℚ → ℚ) {p : PhaseDurationPredictor} (hp : p.Ranged lo hi)
    (hreach : Reach (step sqrt) (Lasted lo hi) (init p) s) :
    (0 < s.stats.ioWindowsOpened → s.deadlineEvent = false → s.inCompute = true) ∧
      (∀ now, 0 < s.getSafeWindowMs sqrt now → s.inCompute = true ∧
        (now - s.computeStart) * 1000 < hi - PhaseDurationPredictor.safetyMarginMs) ∧
      s.stats.totalSafeWindowMs ≤
        s.stats.ioWindowsOpened * max 0 (hi - PhaseDurationPredictor.safetyMarginMs) ∧
      s.stats.ioWindowsCutLate ≤ s.stats.ioWindowsOpened + 1 := by
  have hinit : (init p).Bounded lo hi :=
    { predictor := hp
      closed := fun hopened => absurd hopened (lt_irrefl 0)
      late := Nat.zero_le _
      late_clear := fun _ => Nat.zero_le _
      total := by simp [init] }
  have hs : s.Bounded lo hi :=
    hreach.invariant hinit fun _ _ _ hs hlasted hstep => Bounded.step hs hlasted hstep
  refine ⟨hs.closed, fun now hwindow => ?_, hs.total, hs.late⟩
  unfold getSafeWindowMs at hwindow
  cases hcompute : s.inCompute with
  | false =>
      rw [hcompute] at hwindow
      exact absurd hwindow (lt_irrefl 0)
  | true =>
      rw [hcompute] at hwindow
      have hleft := (lt_max_iff.mp hwindow).resolve_left (lt_irrefl 0)
      have hmargin : PhaseDurationPredictor.safetyMarginMs ≤ (s.predictor.predict sqrt).2.2 :=
        le_max_left _ _
      have hpredicted : (s.predictor.predict sqrt).1 ≤ hi := hs.predictor.le_hi
      exact ⟨rfl, by linarith⟩

/-- Phases of 50 and 40 ms: the timer of the first one calls back in the second. -/
theorem windows_bounded_two :
    ∃ s : InterleavingEngine, s.strays = [2] ∧ s.deadlineEvent = true ∧
      s.stats.totalSafeWindowMs ≤
        s.stats.ioWindowsOpened * max 0 (50 - PhaseDurationPredictor.safetyMarginMs) := by
  have hp : PhaseDurationPredictor.Ranged 40 50 {} :=
    { alpha_nonneg := by decide +kernel
      alpha_le_one := by decide +kernel
      lo_le := by decide +kernel
      le_hi := by decide +kernel
      computeVar_nonneg := by decide +kernel
      ncclVar_nonneg := by decide +kernel }
  obtain ⟨s, hreach, hstrays, hset⟩ :
      ∃ s, Reach (step firstRoot) (Lasted 40 50) (init {}) s ∧ s.strays = [2] ∧
        s.deadlineEvent = true :=
    Reach.exists_of_exec
      [.computeStart 0, .timer 1, .computeEnd (1 / 20),
        .computeStart (1 / 10), .fireDeadline 1, .computeEnd (7 / 50)]
      (by decide +kernel) (by decide +kernel)
  exact ⟨s, hstrays, hset, (windows_bounded firstRoot hp hreach).2.2.1⟩

end InterleavingEngine

end Tempo
