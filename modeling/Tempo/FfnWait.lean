import Mathlib.Logic.Function.Basic
import Tempo.AttentionGate

/-!
# Waiting for an FFN window

`_set_phase` exchanges the phase outside the mutex, and takes the mutex only to
notify when the phase has become FFN.  `wait_for_ffn` tests the phase under the
mutex before each wait.  A setter that makes the phase FFN between such a test
and the wait has to wait for the mutex, which the waiter gives up as it blocks:
its notification comes after that (`Watch.due`).
-/

namespace Tempo

open Runs

/-- Where a thread is in `_set_phase`. -/
inductive SetterPc
  | idle
  /-- `attn_count_.fetch_add` -/
  | attnCount
  /-- `ffn_count_.fetch_add` -/
  | ffnCount
  | lock
  | notify
  | unlock
  deriving DecidableEq

/-- Where the caller is in `wait_for_ffn`. -/
inductive WaiterPc
  | idle
  | lock
  /-- `is_ffn()` under the mutex, for the last time if the wait has timed out -/
  | test (timedOut : Bool)
  /-- about to release the mutex and block -/
  | block
  | blocked
  /-- awake and without the mutex -/
  | woken (timedOut : Bool)
  | leave (ffn : Bool)
  deriving DecidableEq

/-- The phase was made FFN, and `notify_all` has not been called for it. -/
def SetterPc.owes : SetterPc → Bool
  | .ffnCount | .lock | .notify => true
  | _ => false

def SetterPc.holds : SetterPc → Bool
  | .notify | .unlock => true
  | _ => false

def WaiterPc.holds : WaiterPc → Bool
  | .test _ | .block | .leave _ => true
  | _ => false

/-- `AttentionPhaseMonitor` with the threads that call `_set_phase` and one that
calls `wait_for_ffn`; the waiter holds the mutex as `some none`. -/
structure FfnMonitor (ι : Type*) where
  phase : GpuPhase := .unknown
  attnCount : UInt64 := 0
  ffnCount : UInt64 := 0
  owner : Option (Option ι) := none
  setters : ι → SetterPc := fun _ => .idle
  waiter : WaiterPc := .idle
  returned : Option Bool := none

namespace FfnMonitor

variable {ι : Type*}

inductive Event (ι : Type*)
  /-- `_set_phase(p)`, up to its exchange -/
  | setPhase (i : ι) (p : GpuPhase)
  /-- the next statement of `_set_phase` -/
  | setter (i : ι)
  /-- `wait_for_ffn`, up to its first `is_ffn()` -/
  | wait
  /-- the next statement of `wait_for_ffn` -/
  | waiter
  /-- the wait ends spuriously, or at its deadline -/
  | wake (timedOut : Bool)

variable [DecidableEq ι]

def setSetter (s : FfnMonitor ι) (i : ι) (pc : SetterPc) : FfnMonitor ι :=
  { s with setters := Function.update s.setters i pc }

/-- `cv_.notify_all()`. -/
def notifyAll (s : FfnMonitor ι) : FfnMonitor ι :=
  match s.waiter with
  | .blocked => { s with waiter := .woken false }
  | _ => s

def setterStep (s : FfnMonitor ι) (i : ι) : SetterPc → Option (FfnMonitor ι)
  | .idle => none
  | .attnCount => some { s.setSetter i .idle with attnCount := s.attnCount + 1 }
  | .ffnCount => some { s.setSetter i .lock with ffnCount := s.ffnCount + 1 }
  | .lock =>
      match s.owner with
      | none => some { s.setSetter i .notify with owner := some (some i) }
      | some _ => none
  | .notify => some (s.notifyAll.setSetter i .unlock)
  | .unlock => some { s.setSetter i .idle with owner := none }

def waiterStep (s : FfnMonitor ι) : WaiterPc → Option (FfnMonitor ι)
  | .idle | .blocked => none
  | .lock =>
      match s.owner with
      | none => some { s with waiter := .test false, owner := some none }
      | some _ => none
  | .test timedOut =>
      if s.phase = .ffn then some { s with waiter := .leave true }
      else if timedOut then some { s with waiter := .leave false }
      else some { s with waiter := .block }
  | .block => some { s with waiter := .blocked, owner := none }
  | .woken timedOut =>
      match s.owner with
      | none => some { s with waiter := .test timedOut, owner := some none }
      | some _ => none
  | .leave ffn => some { s with waiter := .idle, owner := none, returned := some ffn }

def step (s : FfnMonitor ι) : Event ι → Option (FfnMonitor ι)
  | .setPhase i p =>
      if s.setters i = .idle then
        if s.phase = p then some s
        else
          match p with
          | .attention => some { s.setSetter i .attnCount with phase := p }
          | .ffn => some { s.setSetter i .ffnCount with phase := p }
          | _ => some { s with phase := p }
      else none
  | .setter i => s.setterStep i (s.setters i)
  | .wait =>
      if s.waiter = .idle then
        if s.phase = .ffn then some { s with returned := some true }
        else some { s with waiter := .lock }
      else none
  | .waiter => s.waiterStep s.waiter
  | .wake timedOut =>
      if s.waiter = .blocked then some { s with waiter := .woken timedOut } else none

/-- Whoever is under the mutex owns it, and while the waiter blocks in FFN some
setter owes a notification. -/
structure Watch (s : FfnMonitor ι) : Prop where
  waiter : s.waiter.holds → s.owner = some none
  setter : ∀ i, (s.setters i).holds → s.owner = some (some i)
  due : s.waiter = .block ∨ s.waiter = .blocked → s.phase = .ffn →
    ∃ i, (s.setters i).owes

variable {s t : FfnMonitor ι} {i : ι} {pc : SetterPc}

@[simp] theorem setters_setSetter_self : (s.setSetter i pc).setters i = pc :=
  Function.update_self ..

theorem setters_setSetter_of_ne {j : ι} (hne : j ≠ i) :
    (s.setSetter i pc).setters j = s.setters j :=
  Function.update_of_ne hne ..

/-- A setter that moves on still owes what it owed. -/
theorem owes_setSetter (h : ∃ j, (s.setters j).owes)
    (hkeep : (s.setters i).owes → pc.owes) :
    ∃ j, ((s.setSetter i pc).setters j).owes := by
  obtain ⟨j, hj⟩ := h
  refine ⟨j, ?_⟩
  by_cases hij : j = i
  · subst hij
    rw [setters_setSetter_self]
    exact hkeep hj
  · rwa [setters_setSetter_of_ne hij]

omit [DecidableEq ι] in
/-- Only one thread is under the mutex. -/
theorem Watch.setter_unique (h : s.Watch) {j : ι} (hi : (s.setters i).holds)
    (hj : (s.setters j).holds) : j = i := by
  have heq := (h.setter j hj).symm.trans (h.setter i hi)
  simpa using heq

omit [DecidableEq ι] in
theorem Watch.waiter_out (h : s.Watch) (hi : (s.setters i).holds) :
    s.waiter.holds = false := by
  by_contra hholds
  have heq := (h.setter i hi).symm.trans (h.waiter (by simpa using hholds))
  simp at heq

/-- A setter moves on without the mutex. -/
theorem Watch.setter_free (h : s.Watch) (i : ι) (pc : SetterPc)
    (hpc : pc.holds = false) (hkeep : (s.setters i).owes → pc.owes) : (s.setSetter i pc).Watch where
  waiter := h.waiter
  setter := by
    intro j hj
    by_cases hij : j = i
    · subst hij
      rw [setters_setSetter_self, hpc] at hj
      cases hj
    · rw [setters_setSetter_of_ne hij] at hj
      exact h.setter j hj
  due := fun hwait hffn => owes_setSetter (h.due hwait hffn) hkeep

omit [DecidableEq ι] in
theorem Watch.counts (h : s.Watch) (attnCount ffnCount : UInt64) :
    Watch { s with attnCount, ffnCount } :=
  ⟨h.waiter, h.setter, h.due⟩

/-- The exchange: who makes the phase FFN owes a notification. -/
theorem Watch.setPhase (h : s.Watch) {p : GpuPhase}
    (hstep : s.step (.setPhase i p) = some t) : t.Watch := by
  unfold step at hstep
  dsimp only at hstep
  split at hstep
  · next hidle =>
      have hfree : ∀ pc : SetterPc, pc.holds = false → (s.setSetter i pc).Watch :=
        fun pc hpc => h.setter_free i pc hpc (by simp [hidle, SetterPc.owes])
      split at hstep
      · obtain rfl := Option.some.inj hstep
        exact h
      · split at hstep
        · obtain rfl := Option.some.inj hstep
          have hs := hfree .attnCount rfl
          exact ⟨hs.waiter, hs.setter, fun _ hffn => by cases hffn⟩
        · obtain rfl := Option.some.inj hstep
          have hs := hfree .ffnCount rfl
          exact ⟨hs.waiter, hs.setter, fun _ _ => ⟨i, by simp [SetterPc.owes]⟩⟩
        · next hattention hffn =>
            obtain rfl := Option.some.inj hstep
            exact ⟨h.waiter, h.setter, fun _ heq => absurd heq hffn⟩
  · cases hstep

omit [DecidableEq ι] in
/-- A waiter that was blocked no longer is. -/
theorem notifyAll_frame : s.notifyAll.phase = s.phase ∧
    s.notifyAll.owner = s.owner ∧ s.notifyAll.setters = s.setters ∧
    s.notifyAll.waiter ≠ .blocked ∧ s.notifyAll.waiter.holds = s.waiter.holds := by
  unfold notifyAll
  split
  · next hblocked => exact ⟨rfl, rfl, rfl, by simp, by rw [hblocked]; rfl⟩
  · next hnot => exact ⟨rfl, rfl, rfl, hnot, rfl⟩

/-- The notification comes with the mutex held, so that no waiter stands between
its test and its wait. -/
theorem Watch.notify (h : s.Watch) (hpc : s.setters i = .notify) :
    (s.notifyAll.setSetter i .unlock).Watch := by
  have hholds : (s.setters i).holds := by rw [hpc]; rfl
  have hout := h.waiter_out hholds
  obtain ⟨hphase, howner, hsetters, hwoken, hsame⟩ := notifyAll_frame (s := s)
  refine ⟨?_, ?_, ?_⟩
  · intro hwaiter
    exact absurd (hout.symm.trans (hsame.symm.trans hwaiter)) (by decide)
  · intro j hj
    have hjs : (s.setters j).holds := by
      by_cases hij : j = i
      · rwa [hij]
      · rwa [setters_setSetter_of_ne hij, hsetters] at hj
    exact howner.trans (h.setter j hjs)
  · rintro (hblock | hblocked) -
    · have hin : s.notifyAll.waiter.holds = true := by
        have hpc : s.notifyAll.waiter = .block := hblock
        rw [hpc]
        rfl
      rw [hsame, hout] at hin
      cases hin
    · exact absurd hblocked hwoken

theorem Watch.setterStep (h : s.Watch) {pc : SetterPc} (hpc : s.setters i = pc)
    (hstep : s.setterStep i pc = some t) : t.Watch := by
  cases pc with
  | idle => cases hstep
  | attnCount =>
      obtain rfl := Option.some.inj hstep
      exact (h.setter_free i .idle rfl
        (by simp [hpc, SetterPc.owes])).counts _ _
  | ffnCount =>
      obtain rfl := Option.some.inj hstep
      exact (h.setter_free i .lock rfl fun _ => rfl).counts _ _
  | lock =>
      unfold FfnMonitor.setterStep at hstep
      dsimp only at hstep
      split at hstep
      · next hfree =>
          obtain rfl := Option.some.inj hstep
          refine ⟨?_, ?_, ?_⟩
          · intro hwaiter
            have howner := h.waiter hwaiter
            rw [hfree] at howner
            cases howner
          · intro j hj
            by_cases hij : j = i
            · rw [hij]
            · have howner := h.setter j (by rwa [← setters_setSetter_of_ne hij])
              rw [hfree] at howner
              cases howner
          · exact fun hwait hffn => owes_setSetter (h.due hwait hffn) fun _ => rfl
      · cases hstep
  | notify =>
      obtain rfl := Option.some.inj hstep
      exact h.notify hpc
  | unlock =>
      obtain rfl := Option.some.inj hstep
      have hholds : (s.setters i).holds := by rw [hpc]; rfl
      have hout := h.waiter_out hholds
      refine ⟨?_, ?_, ?_⟩
      · intro hwaiter
        exact absurd (hout.symm.trans hwaiter) (by decide)
      · intro j hj
        by_cases hij : j = i
        · subst hij
          rw [setters_setSetter_self] at hj
          cases hj
        · rw [setters_setSetter_of_ne hij] at hj
          exact absurd (h.setter_unique hholds hj) hij
      · intro hwait hffn
        exact owes_setSetter (h.due hwait hffn) (by simp [hpc, SetterPc.owes])

omit [DecidableEq ι] in
/-- The waiter moves to a place where it neither blocks nor is under the mutex,
with the mutex as it was. -/
theorem Watch.waiter_away (h : s.Watch) {waiter : WaiterPc}
    {returned : Option Bool} (hholds : waiter.holds = false)
    (hblock : waiter ≠ .blocked) :
    Watch { s with waiter, returned } := by
  refine ⟨?_, h.setter, ?_⟩
  · intro hin
    exact absurd (hholds.symm.trans hin) (by decide)
  · rintro (rfl | hblocked) -
    · cases hholds
    · exact absurd hblocked hblock

omit [DecidableEq ι] in
/-- The waiter takes the mutex and is about to test. -/
theorem Watch.waiter_locks (h : s.Watch) (hfree : s.owner = none) (timedOut : Bool) :
    Watch { s with waiter := .test timedOut, owner := some none } := by
  refine ⟨fun _ => rfl, ?_, ?_⟩
  · intro i hi
    have howner := h.setter i hi
    rw [hfree] at howner
    cases howner
  · rintro (hblock | hblocked) -
    · cases hblock
    · cases hblocked

omit [DecidableEq ι] in
/-- The waiter moves on under the mutex; it blocks only if the phase is not
FFN. -/
theorem Watch.waiter_holding (h : s.Watch) (hin : s.waiter.holds) {waiter : WaiterPc}
    (hblock : waiter = .block → s.phase ≠ .ffn) (hholds : waiter.holds) :
    Watch { s with waiter } := by
  refine ⟨fun _ => h.waiter hin, h.setter, ?_⟩
  rintro (rfl | rfl) hffn
  · exact absurd hffn (hblock rfl)
  · cases hholds

omit [DecidableEq ι] in
/-- The waiter gives up the mutex; if it blocks, it was about to. -/
theorem Watch.waiter_unlocks (h : s.Watch) (hin : s.waiter.holds) {waiter : WaiterPc}
    {returned : Option Bool} (hholds : waiter.holds = false)
    (hblock : waiter = .blocked → s.waiter = .block) :
    Watch { s with waiter, owner := none, returned } := by
  refine ⟨?_, ?_, ?_⟩
  · intro hstill
    exact absurd (hholds.symm.trans hstill) (by decide)
  · intro i hi
    have howner := (h.setter i hi).symm.trans (h.waiter hin)
    simp at howner
  · rintro (rfl | rfl) hffn
    · cases hholds
    · exact h.due (.inl (hblock rfl)) hffn

omit [DecidableEq ι] in
theorem Watch.waiterStep (h : s.Watch) {pc : WaiterPc} (hpc : s.waiter = pc)
    (hstep : s.waiterStep pc = some t) : t.Watch := by
  have hin : pc.holds → s.waiter.holds := fun hholds => by rwa [hpc]
  cases pc with
  | idle => cases hstep
  | blocked => cases hstep
  | lock =>
      unfold FfnMonitor.waiterStep at hstep
      dsimp only at hstep
      split at hstep
      · next hfree =>
          obtain rfl := Option.some.inj hstep
          exact h.waiter_locks hfree false
      · cases hstep
  | test timedOut =>
      unfold FfnMonitor.waiterStep at hstep
      dsimp only at hstep
      split at hstep
      · obtain rfl := Option.some.inj hstep
        exact h.waiter_holding (hin rfl) (fun heq => by cases heq) rfl
      · next hphase =>
          split at hstep
          · obtain rfl := Option.some.inj hstep
            exact h.waiter_holding (hin rfl) (fun heq => by cases heq) rfl
          · obtain rfl := Option.some.inj hstep
            exact h.waiter_holding (hin rfl) (fun _ => hphase) rfl
  | block =>
      obtain rfl := Option.some.inj hstep
      exact h.waiter_unlocks (hin rfl) rfl fun _ => hpc
  | woken timedOut =>
      unfold FfnMonitor.waiterStep at hstep
      dsimp only at hstep
      split at hstep
      · next hfree =>
          obtain rfl := Option.some.inj hstep
          exact h.waiter_locks hfree timedOut
      · cases hstep
  | leave ffn =>
      obtain rfl := Option.some.inj hstep
      exact h.waiter_unlocks (hin rfl) rfl fun heq => by cases heq

theorem Watch.step (h : s.Watch) {e : Event ι} (hstep : s.step e = some t) :
    t.Watch := by
  cases e with
  | setPhase i p => exact h.setPhase hstep
  | setter i => exact h.setterStep rfl hstep
  | wait =>
      unfold FfnMonitor.step at hstep
      dsimp only at hstep
      split at hstep
      · next hidle =>
          split at hstep
          · obtain rfl := Option.some.inj hstep
            exact h.waiter_away (by rw [hidle]; rfl) (by rw [hidle]; decide)
          · obtain rfl := Option.some.inj hstep
            exact h.waiter_away rfl (by decide)
      · cases hstep
  | waiter => exact h.waiterStep rfl hstep
  | wake timedOut =>
      unfold FfnMonitor.step at hstep
      dsimp only at hstep
      split at hstep
      · obtain rfl := Option.some.inj hstep
        exact h.waiter_away rfl (by simp)
      · cases hstep

omit [DecidableEq ι] in
theorem watch_init : ({} : FfnMonitor ι).Watch where
  waiter := by
    intro hin
    cases hin
  setter := by
    intro i hin
    cases hin
  due := by
    intro _ hffn
    cases hffn

/-- **No wake-up is missed.**  While the waiter is blocked and the phase is FFN,
a setter that made it FFN has yet to notify. -/
theorem no_missed_wakeup (s : FfnMonitor ι) (hreach : Reachable step {} s) :
    ¬ (s.waiter = .blocked ∧ s.phase = .ffn ∧ ∀ i, (s.setters i).owes = false) := by
  rintro ⟨hblocked, hffn, hnone⟩
  have hwatch : s.Watch := by
    apply hreach.invariant watch_init
    intro s e t hs _ hstep
    exact hs.step hstep
  obtain ⟨i, howes⟩ := hwatch.due (.inr hblocked) hffn
  rw [hnone i] at howes
  cases howes

/-- The waiter blocks while a setter has made the phase FFN and waits for the
mutex. -/
theorem no_missed_wakeup_one :
    ∃ s : FfnMonitor Bool, s.waiter = .blocked ∧ s.phase = .ffn ∧
      s.setters true = .lock ∧
      ¬ (s.waiter = .blocked ∧ s.phase = .ffn ∧ ∀ i, (s.setters i).owes = false) := by
  obtain ⟨s, hreach, hblocked, hffn, hlock⟩ :
      ∃ s : FfnMonitor Bool, Reachable step {} s ∧ s.waiter = .blocked ∧
        s.phase = .ffn ∧ s.setters true = .lock :=
    Reachable.exists_of_exec
      [.setPhase false .attention, .wait, .waiter, .waiter, .setPhase true .ffn,
        .setter true, .waiter]
      (by decide)
  exact ⟨s, hblocked, hffn, hlock, no_missed_wakeup s hreach⟩

end FfnMonitor

end Tempo
