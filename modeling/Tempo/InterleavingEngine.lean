import Mathlib.Algebra.Order.Field.Rat
import Tempo.Runs

/-!
# The interleaving engine and its deadline timers

`on_compute_start` opens an I/O window and arms a timer for its deadline;
`on_compute_end` cancels the timer and closes the window.  Both hold the lock
throughout, so each is one step.  The timer's callback waits for the same lock,
and cancelling comes too late once it has begun: the callback then sets the
deadline event after its window has been closed, or in the next one.

Windows are numbered by `io_windows_opened`, and a timer is known by its window.
The engine itself keeps no such number in the event or the counters.
-/

namespace Tempo

open Runs

/-- `PhaseDurationPredictor`, without the history that only `has_data` reads. -/
structure PhaseDurationPredictor where
  alpha : ℚ := 1 / 5
  computeEwma : ℚ := 50
  ncclEwma : ℚ := 25
  computeVar : ℚ := (50 * (15 / 100)) ^ 2
  ncclVar : ℚ := (50 * (15 / 100)) ^ 2

namespace PhaseDurationPredictor

variable (p : PhaseDurationPredictor)

def updateCompute (durMs : ℚ) : PhaseDurationPredictor :=
  { p with
    computeVar := (1 - p.alpha) * p.computeVar +
      p.alpha * (durMs - p.computeEwma) ^ 2
    computeEwma := p.alpha * durMs + (1 - p.alpha) * p.computeEwma }

def updateNccl (durMs : ℚ) : PhaseDurationPredictor :=
  { p with
    ncclVar := (1 - p.alpha) * p.ncclVar + p.alpha * (durMs - p.ncclEwma) ^ 2
    ncclEwma := p.alpha * durMs + (1 - p.alpha) * p.ncclEwma }

def safetyMarginMs : ℚ := 2

/-- The predicted durations and the safety margin; `sqrt` is `math.sqrt`. -/
def predict (sqrt : ℚ → ℚ) : ℚ × ℚ × ℚ :=
  (p.computeEwma, p.ncclEwma,
    max safetyMarginMs (15 / 100 * sqrt (max 0 p.ncclVar)))

/-- `max(0.0, pred_compute_ms - safety_ms)` -/
def safeWindowMs (sqrt : ℚ → ℚ) : ℚ :=
  max 0 ((p.predict sqrt).1 - (p.predict sqrt).2.2)

end PhaseDurationPredictor

structure InterleavingStats where
  ioWindowsOpened : Nat := 0
  ioWindowsCutEarly : Nat := 0
  ioWindowsCutLate : Nat := 0
  totalIoWindowMs : ℚ := 0
  totalSafeWindowMs : ℚ := 0

/-- The engine and its timers.  `armed` are the timers that have been started
and neither cancelled nor gone off, `waiting` those whose callback has begun and
waits for the lock.  Three histories: `cutEarly`, the windows whose timer has
called back; `cutLate`, the windows that `on_compute_end` cut; `strays`, the
windows during which a timer of another one called back. -/
structure InterleavingEngine where
  predictor : PhaseDurationPredictor := {}
  inCompute : Bool := false
  computeStart : ℚ := 0
  deadlineEvent : Bool := false
  deadlineTimer : Option Nat := none
  stats : InterleavingStats := {}
  armed : List Nat := []
  waiting : List Nat := []
  cutEarly : List Nat := []
  cutLate : List Nat := []
  strays : List Nat := []

namespace InterleavingEngine

/-- A new engine. -/
def init (predictor : PhaseDurationPredictor) : InterleavingEngine :=
  { predictor }

inductive Event where
  | computeStart (now : ℚ)
  | computeEnd (now : ℚ)
  | ncclEnd (ncclDurMs : ℚ)
  /-- a timer goes off, and its callback begins -/
  | timer (window : Nat)
  /-- a callback gets the lock -/
  | fireDeadline (window : Nat)

/-- `_MIN_IO_WINDOW_MS` -/
def minIoWindowMs : ℚ := 1

variable (s : InterleavingEngine)

/-- The window opened last. -/
def window : Nat := s.stats.ioWindowsOpened

/-- `self._deadline_timer.cancel()`, if there is one. -/
def cancelTimer : List Nat :=
  s.deadlineTimer.elim s.armed s.armed.erase

/-- Up to the test of the safe window. -/
def openWindow (sqrt : ℚ → ℚ) (now : ℚ) : InterleavingEngine :=
  { s with
    inCompute := true
    computeStart := now
    deadlineEvent := false
    stats.ioWindowsOpened := s.stats.ioWindowsOpened + 1
    stats.totalSafeWindowMs :=
      s.stats.totalSafeWindowMs + s.predictor.safeWindowMs sqrt }

def onComputeStart (sqrt : ℚ → ℚ) (now : ℚ) : InterleavingEngine :=
  if minIoWindowMs ≤ s.predictor.safeWindowMs sqrt then
    { s.openWindow sqrt now with
      armed := s.cancelTimer ++ [s.window + 1]
      deadlineTimer := some (s.window + 1) }
  else
    { s.openWindow sqrt now with deadlineEvent := true }

/-- The timer is cancelled, and the duration passed on. -/
def closeWindow (now : ℚ) : InterleavingEngine :=
  let s := { s with armed := s.cancelTimer, deadlineTimer := none }
  if s.inCompute then
    let elapsedMs := (now - s.computeStart) * 1000
    { s with
      predictor := s.predictor.updateCompute elapsedMs
      stats.totalIoWindowMs := s.stats.totalIoWindowMs + elapsedMs
      inCompute := false }
  else s

def onComputeEnd (now : ℚ) : InterleavingEngine :=
  let s := s.closeWindow now
  if s.deadlineEvent then s
  else
    { s with
      deadlineEvent := true
      stats.ioWindowsCutLate := s.stats.ioWindowsCutLate + 1
      cutLate := s.cutLate ++ [s.window] }

/-- `_fire_deadline` of the timer of `window`, under the lock. -/
def fireDeadline (window : Nat) : InterleavingEngine :=
  { s with
    deadlineEvent := true
    stats.ioWindowsCutEarly := s.stats.ioWindowsCutEarly + 1
    waiting := s.waiting.erase window
    cutEarly := s.cutEarly ++ [window]
    strays := if s.inCompute ∧ s.window ≠ window then s.strays ++ [s.window]
      else s.strays }

def step (sqrt : ℚ → ℚ) (s : InterleavingEngine) :
    Event → Option InterleavingEngine
  | .computeStart now => some (s.onComputeStart sqrt now)
  | .computeEnd now => some (s.onComputeEnd now)
  | .ncclEnd ncclDurMs =>
      some { s with predictor := s.predictor.updateNccl ncclDurMs }
  | .timer window =>
      if window ∈ s.armed then
        some { s with
          armed := s.armed.erase window
          waiting := s.waiting ++ [window] }
      else none
  | .fireDeadline window =>
      if window ∈ s.waiting then some (s.fireDeadline window) else none

/-- No timer has called back in the window of another one, and no window is cut
both early and late. -/
structure OwnWindows : Prop where
  strays : s.strays = []
  once : ∀ w, w ∈ s.cutEarly → w ∉ s.cutLate

/-- When a window is opened or closed, no callback is waiting for the lock; and
where the window opened is too short for a timer, none is left from before. -/
def Settled (sqrt : ℚ → ℚ) (s : InterleavingEngine) : Event → Prop
  | .computeStart _ =>
      s.waiting = [] ∧
        (s.predictor.safeWindowMs sqrt < minIoWindowMs → s.armed = [])
  | .computeEnd _ => s.waiting = []
  | _ => True

/-- What holds in settled runs: the timer of the open window is the only one
there may be, and while it is there the event is clear. -/
structure Timed : Prop where
  own : OwnWindows s
  timer : s.armed ++ s.waiting = [] ∨
    s.armed ++ s.waiting = [s.window] ∧ s.deadlineTimer = some s.window ∧
      s.inCompute = true ∧ s.deadlineEvent = false
  early_le : ∀ w ∈ s.cutEarly, w ≤ s.window
  late_le : ∀ w ∈ s.cutLate, w ≤ s.window
  early_set : s.window ∈ s.cutEarly → s.deadlineEvent = true
  late_closed : s.window ∈ s.cutLate → s.inCompute = false

variable {sqrt : ℚ → ℚ} {s} {t : InterleavingEngine}

theorem OwnWindows.of_eq (h : s.OwnWindows) (hearly : t.cutEarly = s.cutEarly)
    (hlate : t.cutLate = s.cutLate) (hstrays : t.strays = s.strays) :
    t.OwnWindows where
  strays := hstrays.trans h.strays
  once := by
    rw [hearly, hlate]
    exact h.once

theorem timed_init (p : PhaseDurationPredictor) : (init p).Timed where
  own := ⟨rfl, by simp [init]⟩
  timer := .inl rfl
  early_le := by simp [init]
  late_le := by simp [init]
  early_set := by simp [init]
  late_closed := by simp [init]

/-- A timer that may still call back is the one of the open window. -/
theorem Timed.live (h : s.Timed) {w : Nat} (hw : w ∈ s.armed ++ s.waiting) :
    s.armed ++ s.waiting = [w] ∧ w = s.window ∧ s.deadlineTimer = some w ∧
      s.inCompute = true ∧ s.deadlineEvent = false := by
  rcases h.timer with hnone | ⟨hone, htimer, hcompute, hevent⟩
  · rw [hnone] at hw
    cases hw
  · rw [hone] at hw
    obtain rfl := List.mem_singleton.mp hw
    exact ⟨hone, rfl, htimer, hcompute, hevent⟩

/-- Cancelling gets the last timer, when its callback has not begun. -/
theorem Timed.cancelTimer (h : s.Timed) (hwaiting : s.waiting = []) :
    s.cancelTimer = [] := by
  unfold InterleavingEngine.cancelTimer
  have htimer := h.timer
  rw [hwaiting, List.append_nil] at htimer
  rcases htimer with hnone | ⟨hone, hslot, -⟩
  · rw [hnone]
    cases s.deadlineTimer <;> rfl
  · rw [hone, hslot]
    simp

theorem Timed.computeStart (h : s.Timed) {now : ℚ}
    (hcond : s.Settled sqrt (.computeStart now)) :
    (s.onComputeStart sqrt now).Timed := by
  obtain ⟨hwaiting, hshort⟩ := hcond
  have hearly : s.window + 1 ∉ s.cutEarly := fun hw => by
    have hle := h.early_le _ hw
    omega
  have hlate : s.window + 1 ∉ s.cutLate := fun hw => by
    have hle := h.late_le _ hw
    omega
  have hearly_le : ∀ w ∈ s.cutEarly, w ≤ s.window + 1 :=
    fun w hw => (h.early_le w hw).trans (Nat.le_succ _)
  have hlate_le : ∀ w ∈ s.cutLate, w ≤ s.window + 1 :=
    fun w hw => (h.late_le w hw).trans (Nat.le_succ _)
  unfold onComputeStart
  split
  · refine ⟨h.own.of_eq rfl rfl rfl, .inr ⟨?_, rfl, rfl, rfl⟩, hearly_le,
      hlate_le, fun hw => absurd hw hearly, fun hw => absurd hw hlate⟩
    dsimp only [openWindow]
    rw [h.cancelTimer hwaiting, hwaiting]
    rfl
  · next hsafe =>
      refine ⟨h.own.of_eq rfl rfl rfl, .inl ?_, hearly_le, hlate_le,
        fun _ => rfl, fun hw => absurd hw hlate⟩
      dsimp only [openWindow]
      rw [hshort (not_le.mp hsafe), hwaiting]
      rfl

/-- What closing a window leaves as it was. -/
theorem closeWindow_frame (now : ℚ) :
    (s.closeWindow now).armed = s.cancelTimer ∧
      (s.closeWindow now).waiting = s.waiting ∧
      (s.closeWindow now).inCompute = false ∧
      (s.closeWindow now).deadlineEvent = s.deadlineEvent ∧
      (s.closeWindow now).window = s.window ∧
      (s.closeWindow now).cutEarly = s.cutEarly ∧
      (s.closeWindow now).cutLate = s.cutLate ∧
      (s.closeWindow now).strays = s.strays := by
  unfold closeWindow
  dsimp only
  split
  · exact ⟨rfl, rfl, rfl, rfl, rfl, rfl, rfl, rfl⟩
  · next hclosed =>
      exact ⟨rfl, rfl, Bool.eq_false_iff.mpr hclosed, rfl, rfl, rfl, rfl, rfl⟩

theorem Timed.computeEnd (h : s.Timed) {now : ℚ} (hwaiting : s.waiting = []) :
    (s.onComputeEnd now).Timed := by
  obtain ⟨harmed, hwait, hcompute, hevent, hwindow, hearly, hlate, hstrays⟩ :=
    s.closeWindow_frame now
  have htimer : (s.closeWindow now).armed ++ (s.closeWindow now).waiting =
      [] := by
    rw [harmed, hwait, h.cancelTimer hwaiting, hwaiting]
    rfl
  unfold onComputeEnd
  dsimp only
  split
  · next hset =>
      refine ⟨h.own.of_eq hearly hlate hstrays, .inl htimer, ?_, ?_, fun _ => hset,
        fun _ => hcompute⟩
      · rw [hearly, hwindow]
        exact h.early_le
      · rw [hlate, hwindow]
        exact h.late_le
  · next hclear =>
      have hnot : s.window ∉ s.cutEarly := by
        intro hw
        exact hclear (hevent.trans (h.early_set hw))
      refine ⟨⟨hstrays.trans h.own.strays, ?_⟩, .inl htimer, ?_, ?_,
        fun _ => rfl, fun _ => hcompute⟩
      · dsimp only
        rw [hearly, hlate, hwindow]
        intro w hw hmem
        rcases List.mem_append.mp hmem with hold | hnew
        · exact h.own.once w hw hold
        · obtain rfl := List.mem_singleton.mp hnew
          exact hnot hw
      · dsimp only
        rw [hearly]
        exact fun w hw => (h.early_le w hw).trans hwindow.ge
      · dsimp only
        rw [hlate, hwindow]
        intro w hw
        rcases List.mem_append.mp hw with hold | hnew
        · exact (h.late_le w hold).trans hwindow.ge
        · obtain rfl := List.mem_singleton.mp hnew
          exact hwindow.ge

/-- The timer of the open window goes off. -/
theorem Timed.timer_step (h : s.Timed) {w : Nat} (hw : w ∈ s.armed) :
    Timed { s with
      armed := s.armed.erase w
      waiting := s.waiting ++ [w] } := by
  obtain ⟨hone, rfl, htimer, hcompute, hevent⟩ :=
    h.live (List.mem_append_left _ hw)
  refine ⟨h.own.of_eq rfl rfl rfl, .inr ⟨?_, htimer, hcompute, hevent⟩,
    h.early_le, h.late_le, h.early_set, h.late_closed⟩
  rcases List.append_eq_singleton_iff.mp hone with
    ⟨harmed, -⟩ | ⟨harmed, hwaiting⟩
  · rw [harmed] at hw
    cases hw
  · dsimp only
    rw [harmed, hwaiting, List.erase_cons_head]
    rfl

/-- Its callback cuts the window, which is still open. -/
theorem Timed.fireDeadline (h : s.Timed) {w : Nat} (hw : w ∈ s.waiting) :
    (s.fireDeadline w).Timed := by
  obtain ⟨hone, rfl, htimer, hcompute, hevent⟩ :=
    h.live (List.mem_append_right _ hw)
  have hnone : s.armed ++ s.waiting.erase s.window = [] := by
    rcases List.append_eq_singleton_iff.mp hone with
      ⟨harmed, hwaiting⟩ | ⟨-, hwaiting⟩
    · rw [harmed, hwaiting, List.erase_cons_head]
      rfl
    · rw [hwaiting] at hw
      cases hw
  have hnot : s.window ∉ s.cutLate := by
    intro hlate
    simp [h.late_closed hlate] at hcompute
  refine ⟨⟨?_, ?_⟩, .inl hnone, ?_, h.late_le, fun _ => rfl, h.late_closed⟩
  · simp [InterleavingEngine.fireDeadline, h.own.strays]
  · intro w hmem
    rcases List.mem_append.mp hmem with hold | hnew
    · exact h.own.once w hold
    · obtain rfl := List.mem_singleton.mp hnew
      exact hnot
  · intro w hmem
    rcases List.mem_append.mp hmem with hold | hnew
    · exact h.early_le w hold
    · obtain rfl := List.mem_singleton.mp hnew
      exact le_rfl

theorem Timed.step (h : s.Timed) {e : Event} (hcond : s.Settled sqrt e)
    (hstep : s.step sqrt e = some t) : t.Timed := by
  cases e with
  | computeStart now =>
      obtain rfl := Option.some.inj hstep
      exact h.computeStart hcond
  | computeEnd now =>
      obtain rfl := Option.some.inj hstep
      exact h.computeEnd hcond
  | ncclEnd ncclDurMs =>
      obtain rfl := Option.some.inj hstep
      exact ⟨h.own.of_eq rfl rfl rfl, h.timer, h.early_le, h.late_le,
        h.early_set, h.late_closed⟩
  | timer window =>
      obtain ⟨hw, rfl⟩ := by simpa [InterleavingEngine.step] using hstep
      exact h.timer_step hw
  | fireDeadline window =>
      obtain ⟨hw, rfl⟩ := by simpa [InterleavingEngine.step] using hstep
      exact h.fireDeadline hw

/-! ## What an unsettled step leads to -/

variable (sqrt) in
/-- A callback that gets the lock in the window of another timer. -/
theorem exists_stray {w : Nat} (hw : w ∈ s.waiting)
    (hcompute : s.inCompute = true) (hother : s.window ≠ w) :
    ∃ t, Reachable (step sqrt) s t ∧ ¬ t.OwnWindows := by
  have hfire : s.step sqrt (.fireDeadline w) = some (s.fireDeadline w) := by
    simp [step, hw]
  refine ⟨s.fireDeadline w, Reach.refl.tail trivial hfire, fun hown => ?_⟩
  have hstrays := hown.strays
  simp [InterleavingEngine.fireDeadline, hcompute, hother] at hstrays

variable (sqrt) in
/-- A timer that goes off in the window of another one. -/
theorem exists_stray_timer {w : Nat} (hw : w ∈ s.armed)
    (hcompute : s.inCompute = true) (hother : s.window ≠ w) :
    ∃ t, Reachable (step sqrt) s t ∧ ¬ t.OwnWindows := by
  have htimer : s.step sqrt (.timer w) = some
      { s with armed := s.armed.erase w, waiting := s.waiting ++ [w] } := by
    simp [step, hw]
  obtain ⟨t, hrun, hstray⟩ := exists_stray sqrt
    (s := { s with armed := s.armed.erase w, waiting := s.waiting ++ [w] })
    (List.mem_append_right _ List.mem_cons_self) hcompute hother
  exact ⟨t, hrun.head trivial htimer, hstray⟩

variable (s sqrt) in
/-- What opening a window leaves as it was, unless it arms a timer. -/
theorem onComputeStart_frame (now : ℚ) :
    (s.onComputeStart sqrt now).inCompute = true ∧
      (s.onComputeStart sqrt now).window = s.window + 1 ∧
      (s.onComputeStart sqrt now).waiting = s.waiting ∧
      (s.predictor.safeWindowMs sqrt < minIoWindowMs →
        (s.onComputeStart sqrt now).armed = s.armed) := by
  unfold onComputeStart
  split
  · next hsafe =>
      exact ⟨rfl, rfl, rfl, fun hshort => absurd hsafe (not_le.mpr hshort)⟩
  · exact ⟨rfl, rfl, rfl, fun _ => rfl⟩

/-- A window is opened while a callback waits, or a timer is left from
before. -/
theorem exists_failure_start (h : s.Timed) {now : ℚ}
    (hcond : ¬ s.Settled sqrt (.computeStart now)) :
    ∃ t, Reachable (step sqrt) (s.onComputeStart sqrt now) t ∧
      ¬ t.OwnWindows := by
  obtain ⟨hcompute, hwindow, hwait, harmed⟩ :=
    onComputeStart_frame s sqrt now
  by_cases hwaiting : s.waiting = []
  · obtain ⟨hshort, hleft⟩ : s.predictor.safeWindowMs sqrt < minIoWindowMs ∧
        s.armed ≠ [] := by
      simpa [Settled, hwaiting] using hcond
    obtain ⟨w, hw⟩ := List.exists_mem_of_ne_nil _ hleft
    obtain ⟨-, rfl, -⟩ := h.live (List.mem_append_left _ hw)
    apply exists_stray_timer sqrt _ hcompute
    · rw [hwindow]
      exact Nat.succ_ne_self _
    · rwa [harmed hshort]
  · obtain ⟨w, hw⟩ := List.exists_mem_of_ne_nil _ hwaiting
    obtain ⟨-, rfl, -⟩ := h.live (List.mem_append_right _ hw)
    apply exists_stray sqrt _ hcompute
    · rw [hwindow]
      exact Nat.succ_ne_self _
    · rwa [hwait]

/-- A window is closed while its callback waits: it is cut late, and then
early. -/
theorem exists_failure_end (h : s.Timed) {now : ℚ} (hwaiting : s.waiting ≠ []) :
    ∃ t, Reachable (step sqrt) (s.onComputeEnd now) t ∧ ¬ t.OwnWindows := by
  obtain ⟨w, hw⟩ := List.exists_mem_of_ne_nil _ hwaiting
  obtain ⟨-, rfl, -, -, hevent⟩ := h.live (List.mem_append_right _ hw)
  obtain ⟨-, hwait, -, hsame, hwindow, -⟩ := s.closeWindow_frame now
  have hend : s.window ∈ (s.onComputeEnd now).waiting ∧
      s.window ∈ (s.onComputeEnd now).cutLate := by
    simp [onComputeEnd, hsame, hevent, hwait, hw, hwindow]
  have hfire : (s.onComputeEnd now).step sqrt (.fireDeadline s.window) =
      some ((s.onComputeEnd now).fireDeadline s.window) := by
    simp [step, hend.1]
  refine ⟨_, Reach.refl.tail trivial hfire, fun hown => ?_⟩
  exact hown.once s.window (by simp [InterleavingEngine.fireDeadline]) hend.2

theorem exists_failure (h : s.Timed) {e : Event} (hcond : ¬ s.Settled sqrt e)
    (hstep : s.step sqrt e = some t) :
    ∃ u, Reachable (step sqrt) t u ∧ ¬ u.OwnWindows := by
  cases e with
  | computeStart now =>
      obtain rfl := Option.some.inj hstep
      exact exists_failure_start h hcond
  | computeEnd now =>
      obtain rfl := Option.some.inj hstep
      exact exists_failure_end h hcond
  | ncclEnd _ | timer _ | fireDeadline _ => exact absurd trivial hcond

/-- **Timers act in their own windows in settled runs.**  Such runs keep every
callback in its own window and cut no window twice, and a step that is not
settled leads to a run that does not. -/
theorem settled_own_windows (sqrt : ℚ → ℚ) (p : PhaseDurationPredictor)
    (s : InterleavingEngine)
    (hrun : Reach (step sqrt) (Settled sqrt) (init p) s) :
    s.OwnWindows ∧
      ∀ e t, ¬ s.Settled sqrt e → s.step sqrt e = some t →
        ∃ u, Reachable (step sqrt) t u ∧ ¬ u.OwnWindows := by
  have hs : s.Timed := by
    apply hrun.invariant (timed_init p)
    intro s e t hs hcond hstep
    exact hs.step hcond hstep
  exact ⟨hs.own, fun e t hcond hstep => exists_failure hs hcond hstep⟩

/-- The histories are what the counters count. -/
theorem counters_eq (sqrt : ℚ → ℚ) (p : PhaseDurationPredictor)
    (s : InterleavingEngine) (hrun : Reachable (step sqrt) (init p) s) :
    s.stats.ioWindowsCutEarly = s.cutEarly.length ∧
      s.stats.ioWindowsCutLate = s.cutLate.length := by
  apply hrun.invariant ⟨rfl, rfl⟩
  rintro s e t ⟨hearly, hlate⟩ - hstep
  cases e with
  | computeStart now =>
      obtain rfl := Option.some.inj hstep
      unfold onComputeStart
      split <;> exact ⟨hearly, hlate⟩
  | computeEnd now =>
      obtain rfl := Option.some.inj hstep
      have hclose : (s.closeWindow now).stats.ioWindowsCutEarly =
            (s.closeWindow now).cutEarly.length ∧
          (s.closeWindow now).stats.ioWindowsCutLate =
            (s.closeWindow now).cutLate.length := by
        unfold closeWindow
        dsimp only
        split <;> exact ⟨hearly, hlate⟩
      unfold onComputeEnd
      dsimp only
      split
      · exact hclose
      · exact ⟨hclose.1, by simp [hclose.2]⟩
  | ncclEnd ncclDurMs =>
      obtain rfl := Option.some.inj hstep
      exact ⟨hearly, hlate⟩
  | timer window =>
      obtain ⟨-, rfl⟩ := by simpa [step] using hstep
      exact ⟨hearly, hlate⟩
  | fireDeadline window =>
      obtain ⟨-, rfl⟩ := by simpa [step] using hstep
      exact ⟨by simp [InterleavingEngine.fireDeadline, hearly], hlate⟩

instance (s : InterleavingEngine) : ∀ e, Decidable (s.Settled sqrt e)
  | .computeStart _ => inferInstanceAs (Decidable (_ ∧ (_ → _)))
  | .computeEnd _ => inferInstanceAs (Decidable (_ = _))
  | .ncclEnd _ | .timer _ | .fireDeadline _ => isTrue trivial

/-- The root of the first variance. -/
def firstRoot : ℚ → ℚ := fun _ => 15 / 2

/-- The first window's callback waits while that window is closed and the next
one opened. -/
theorem timer_strays :
    ¬ ∀ (sqrt : ℚ → ℚ) (p : PhaseDurationPredictor) (s : InterleavingEngine),
      Reachable (step sqrt) (init p) s → s.OwnWindows := by
  intro hall
  obtain ⟨s, hrun, hstrays⟩ :
      ∃ s, Reachable (step firstRoot) (init {}) s ∧ s.strays = [2] :=
    Reachable.exists_of_exec
      [.computeStart 0, .timer 1, .computeEnd (1 / 20),
        .computeStart (1 / 10), .fireDeadline 1]
      (by decide +kernel)
  have hnone := (hall firstRoot {} s hrun).strays
  rw [hstrays] at hnone
  cases hnone

/-- The first window is cut by its timer, the second by its end. -/
theorem settled_own_windows_two :
    ∃ s : InterleavingEngine, s.cutEarly = [1] ∧ s.cutLate = [2] ∧
      s.OwnWindows := by
  obtain ⟨s, hrun, hearly, hlate⟩ :
      ∃ s, Reach (step firstRoot) (Settled firstRoot) (init {}) s ∧
        s.cutEarly = [1] ∧ s.cutLate = [2] :=
    Reach.exists_of_exec
      [.computeStart 0, .timer 1, .fireDeadline 1, .computeEnd (1 / 20),
        .computeStart (1 / 10), .computeEnd (3 / 20)]
      (by decide +kernel) (by decide +kernel)
  exact ⟨s, hearly, hlate, (settled_own_windows firstRoot {} s hrun).1⟩

end InterleavingEngine

end Tempo
