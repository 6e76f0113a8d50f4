import Tempo.PacingProcess

/-!
# Starting and stopping the daemon

`stop` joins the thread and releases the io_uring only if `running_` was set.
A thread that cannot open the Lustre file clears `running_` before it returns,
so a `stop` after that does nothing: the thread stays joinable until the
destructor or the next `start` meets it, and the io_uring stays allocated.  The
object comes to a proper end in exactly those runs in which a thread that fails
to open the file finds `running_` cleared by `stop` already.
-/

namespace Tempo

open Runs

namespace PacingProcess

variable {cap : Capacity} {ι : Type*} [DecidableEq ι]

/-- The number of io_urings that `uring_ptr_` points to. -/
def held (s : PacingProcess cap ι) : Nat := s.uring.elim 0 fun _ => 1

/-- No joinable thread has been overwritten or destroyed, and a destroyed object
has released what it allocated. -/
structure Safe (s : PacingProcess cap ι) : Prop where
  joined : s.owner ≠ .terminated
  released : s.owner = .destroyed → s.released = s.allocated

/-- If the thread fails to open the file, then `stop` has been called. -/
def FailsStopped (s : PacingProcess cap ι) : Event ι → Prop
  | .thread (.opened false) => s.running = false
  | _ => True

instance (s : PacingProcess cap ι) : ∀ e, Decidable (s.FailsStopped e)
  | .thread (.opened false) => inferInstanceAs (Decidable (_ = _))
  | .thread (.opened true) | .thread .next | .thread .attention
  | .thread (.clock _) | .thread (.submitted _) | .thread .timeout
  | .thread .spurious | .absorb _ _ | .producer _ | .spurious _ | .start
  | .stop | .destroy | .owner _ | .kernel _ => isTrue trivial

/-- What the owner's position says about `running_`, the thread and the
io_uring. -/
def Orderly (s : PacingProcess cap ι) : Prop :=
  match s.owner with
  | .idle =>
      (s.running = false → s.thread = none ∧ s.uring = none) ∧
        (s.thread.isSome → s.uring.isSome)
  | .startInit => s.running = true ∧ s.thread = none ∧ s.uring = none
  | .startDirs | .startSpawn =>
      s.running = true ∧ s.thread = none ∧ s.uring.isSome
  | .stopJoin _ => s.running = false
  | .stopRing _ => s.running = false ∧ s.thread = none
  | .dtorMembers | .destroyed =>
      s.running = false ∧ s.thread = none ∧ s.uring = none
  | .terminated => False

/-- What holds while every failing thread finds `running_` cleared. -/
structure Lifecycle (s : PacingProcess cap ι) : Prop where
  account : s.released + s.held = s.allocated
  orderly : s.Orderly

/-- The process has ended, an io_uring is lost, or a thread that nobody will
join is left behind with its io_uring. -/
def Doomed (s : PacingProcess cap ι) : Prop :=
  s.owner = .terminated ∨ s.released + s.held < s.allocated ∨
    s.released + s.held = s.allocated ∧ s.thread.isSome ∧ s.uring.isSome ∧
      (s.owner = .idle ∧ s.running = false ∨ s.owner = .startInit ∨
        s.owner = .dtorMembers)

variable {cfg : ProcessConfig} {s t : PacingProcess cap ι} {e : Event ι}

omit [DecidableEq ι] in
theorem held_of_isSome (huring : t.uring.isSome = s.uring.isSome) :
    t.held = s.held := by
  unfold held
  cases ht : t.uring <;> cases hs : s.uring <;> simp [ht, hs] at huring ⊢

omit [DecidableEq ι] in
theorem Lifecycle.owner (h : s.Lifecycle) (hmove : OwnerMove s t) :
    t.Lifecycle := by
  obtain ⟨haccount, horderly⟩ := h
  unfold Orderly at horderly
  cases hmove with
  | again howner => exact ⟨haccount, by unfold Orderly; exact horderly⟩
  | start howner hrunning =>
      rw [howner] at horderly
      exact ⟨haccount, rfl, horderly.1 hrunning⟩
  | stop dtor howner hrunning => exact ⟨haccount, rfl⟩
  | destroy howner hrunning =>
      rw [howner] at horderly
      exact ⟨haccount, hrunning, horderly.1 hrunning⟩
  | init howner =>
      rw [howner] at horderly
      obtain ⟨hrunning, hthread, huring⟩ := horderly
      refine ⟨?_, hrunning, hthread, rfl⟩
      simp only [held, huring, Option.elim_none, Option.elim_some] at haccount ⊢
      omega
  | initFailed howner =>
      rw [howner] at horderly
      obtain ⟨-, hthread, huring⟩ := horderly
      exact ⟨haccount, fun _ => ⟨hthread, huring⟩, by simp [hthread]⟩
  | dirs howner =>
      rw [howner] at horderly
      exact ⟨haccount, horderly⟩
  | thrown howner =>
      obtain ⟨hrunning, hthread, -⟩ :
          s.running = true ∧ s.thread = none ∧ s.uring.isSome := by
        rcases howner with howner | howner <;> simpa [howner] using horderly
      exact ⟨haccount, by simp [hrunning], by simp [hthread]⟩
  | spawn howner hthread =>
      rw [howner] at horderly
      obtain ⟨hrunning, -, huring⟩ := horderly
      exact ⟨haccount, by simp [hrunning], fun _ => huring⟩
  | overwrite howner hthread =>
      rw [howner] at horderly
      simp [horderly.2.1] at hthread
  | joined dtor howner hthread =>
      rw [howner] at horderly
      exact ⟨haccount, horderly, rfl⟩
  | ring dtor howner =>
      rw [howner] at horderly
      obtain ⟨hrunning, hthread⟩ := horderly
      refine ⟨haccount, ?_⟩
      cases dtor with
      | false => exact ⟨fun _ => ⟨hthread, rfl⟩, by simp [hthread]⟩
      | true => exact ⟨hrunning, hthread, rfl⟩
  | members howner hthread =>
      rw [howner] at horderly
      exact ⟨haccount, horderly⟩
  | joinable howner hthread =>
      rw [howner] at horderly
      simp [horderly.2.1] at hthread

omit [DecidableEq ι] in
/-- A step that leaves the owner, `running_` and the io_uring where they are,
and the thread started or not. -/
theorem Lifecycle.congr (h : s.Lifecycle) (howner : t.owner = s.owner)
    (hrunning : t.running = s.running)
    (hthread : t.thread.isSome = s.thread.isSome)
    (huring : t.uring.isSome = s.uring.isSome)
    (hallocated : t.allocated = s.allocated)
    (hreleased : t.released = s.released) : t.Lifecycle := by
  obtain ⟨haccount, horderly⟩ := h
  have hnone : ∀ {α β : Type _} {x : Option α} {y : Option β},
      x.isSome = y.isSome → (x = none ↔ y = none) := by
    intro α β x y hxy
    rw [← Option.isNone_iff_eq_none, ← Option.isNone_iff_eq_none,
      ← Option.not_isSome, ← Option.not_isSome, hxy]
  refine ⟨?_, ?_⟩
  · rw [hreleased, hallocated, held_of_isSome huring]
    exact haccount
  · unfold Orderly at horderly ⊢
    rw [howner, hrunning, hthread, huring, hnone hthread, hnone huring]
    exact horderly

theorem Lifecycle.step (h : s.Lifecycle) (hcond : s.FailsStopped e)
    (hstep : s.step cfg e = some t) : t.Lifecycle := by
  cases move_of_step hstep with
  | producers => exact h.congr rfl rfl rfl rfl rfl rfl
  | owner _ hmove => exact h.owner hmove
  | kernel huring => exact h.congr rfl rfl rfl (by simp [huring]) rfl rfl
  | thread _ hmove =>
      have hframe := hmove.frame
      have hrunning : t.running = s.running := by
        rcases hframe.running with hsame | ⟨-, rfl, hrunning, -⟩
        · exact hsame
        · exact hrunning.trans (Eq.symm hcond)
      exact h.congr hframe.owner hrunning
        (hframe.joinable.trans hframe.started.symm) hframe.uring
        hframe.allocated hframe.released

omit [DecidableEq ι] in
/-- Where the process goes on and no thread is left behind, an io_uring is
lost. -/
theorem Doomed.lost (h : s.Doomed) (hend : s.owner ≠ .terminated)
    (hleft : ¬ (s.thread.isSome ∧ (s.owner = .idle ∧ s.running = false ∨
      s.owner = .startInit ∨ s.owner = .dtorMembers))) :
    s.released + s.held < s.allocated := by
  rcases h with hterm | hlost | ⟨-, hthread, -, howner⟩
  · exact absurd hterm hend
  · exact hlost
  · exact absurd ⟨hthread, howner⟩ hleft

omit [DecidableEq ι] in
theorem Doomed.owner (h : s.Doomed) (hmove : OwnerMove s t) : t.Doomed := by
  have hheld : ∀ {u : PacingProcess cap ι} {ring : Uring},
      u.uring = some ring → u.held = 1 := by
    intro u ring huring
    simp [held, huring]
  cases hmove with
  | again => exact h
  | start howner hrunning =>
      rcases h with hend | hlost | ⟨haccount, hthread, huring, -⟩
      · simp [howner] at hend
      · exact .inr (.inl hlost)
      · exact .inr (.inr ⟨haccount, hthread, huring, .inr (.inl rfl)⟩)
  | stop dtor howner hrunning =>
      have hlost := h.lost (by simp [howner]) (by simp [howner, hrunning])
      exact .inr (.inl hlost)
  | destroy howner hrunning =>
      rcases h with hend | hlost | ⟨haccount, hthread, huring, -⟩
      · simp [howner] at hend
      · exact .inr (.inl hlost)
      · exact .inr (.inr ⟨haccount, hthread, huring, .inr (.inr rfl)⟩)
  | init howner =>
      -- the pointer to the io_uring left behind is overwritten
      have hnew : s.released + 1 < s.allocated + 1 := by
        rcases h with hend | hlost | ⟨haccount, -, huring, -⟩
        · simp [howner] at hend
        · omega
        · obtain ⟨ring, hring⟩ := Option.isSome_iff_exists.mp huring
          have hone := hheld hring
          omega
      exact .inr (.inl hnew)
  | initFailed howner =>
      rcases h with hend | hlost | ⟨haccount, hthread, huring, -⟩
      · simp [howner] at hend
      · exact .inr (.inl hlost)
      · exact .inr (.inr ⟨haccount, hthread, huring, .inl ⟨rfl, rfl⟩⟩)
  | dirs howner =>
      have hlost := h.lost (by simp [howner]) (by simp [howner])
      exact .inr (.inl hlost)
  | thrown howner =>
      have hlost := h.lost
        (by rcases howner with howner | howner <;> simp [howner])
        (by rcases howner with howner | howner <;> simp [howner])
      exact .inr (.inl hlost)
  | spawn howner hthread =>
      have hlost := h.lost (by simp [howner]) (by simp [howner])
      exact .inr (.inl hlost)
  | overwrite howner hthread => exact .inl rfl
  | joined dtor howner hthread =>
      have hlost := h.lost (by simp [howner]) (by simp [howner])
      exact .inr (.inl hlost)
  | ring dtor howner =>
      have hlost := h.lost (by simp [howner]) (by simp [howner])
      exact .inr (.inl hlost)
  | members howner hthread =>
      have hlost := h.lost (by simp [howner]) (by simp [hthread])
      exact .inr (.inl hlost)
  | joinable howner hthread => exact .inl rfl

omit [DecidableEq ι] in
theorem Doomed.congr (h : s.Doomed) (howner : t.owner = s.owner)
    (hrunning : s.running = false → t.running = false)
    (hthread : t.thread.isSome = s.thread.isSome)
    (huring : t.uring.isSome = s.uring.isSome)
    (hallocated : t.allocated = s.allocated)
    (hreleased : t.released = s.released) : t.Doomed := by
  unfold Doomed at h ⊢
  rw [howner, hthread, huring, hreleased, hallocated, held_of_isSome huring]
  rcases h with hend | hlost | ⟨haccount, hjoinable, hring, hleft⟩
  · exact .inl hend
  · exact .inr (.inl hlost)
  · refine .inr (.inr ⟨haccount, hjoinable, hring, ?_⟩)
    rcases hleft with ⟨hidle, hstopped⟩ | hother
    · exact .inl ⟨hidle, hrunning hstopped⟩
    · exact .inr hother

theorem Doomed.step (h : s.Doomed) (hstep : s.step cfg e = some t) :
    t.Doomed := by
  cases move_of_step hstep with
  | producers => exact h.congr rfl id rfl rfl rfl rfl
  | owner _ hmove => exact h.owner hmove
  | kernel huring => exact h.congr rfl id rfl (by simp [huring]) rfl rfl
  | thread _ hmove =>
      have hframe := hmove.frame
      refine h.congr hframe.owner ?_
        (hframe.joinable.trans hframe.started.symm) hframe.uring
        hframe.allocated hframe.released
      intro hstopped
      rcases hframe.running with hsame | ⟨-, -, hrunning, -⟩
      · exact hsame.trans hstopped
      · exact hrunning

/-- A thread that clears `running_` itself is left behind. -/
theorem Lifecycle.doomed (h : s.Lifecycle) (hcond : ¬ s.FailsStopped e)
    (hstep : s.step cfg e = some t) : t.Doomed := by
  obtain ⟨rfl, hrunning⟩ :
      e = .thread (.opened false) ∧ s.running = true := by
    unfold FailsStopped at hcond
    split at hcond
    · exact ⟨rfl, by simpa using hcond⟩
    · exact absurd trivial hcond
  obtain ⟨-, hmove⟩ := frame_of_step hstep
  cases hmove with
  | failed hthread =>
      obtain ⟨haccount, horderly⟩ := h
      unfold Orderly at horderly
      have howner : s.owner = .idle := by
        cases howner : s.owner <;> simp_all
      rw [howner] at horderly
      refine .inr (.inr ⟨haccount, rfl, ?_, .inl ⟨howner, rfl⟩⟩)
      exact horderly.2 (by simp [hthread])
  | body _ hi => exact absurd rfl (hi false)

omit [DecidableEq ι] in
theorem lifecycle_init (found : Fin cap.size → KVBlock) (now : Nat) :
    (init cfg found now : PacingProcess cap ι).Lifecycle :=
  ⟨rfl, fun _ => ⟨rfl, rfl⟩, by simp [init]⟩

/-- **The thread is joined and the io_uring released.**  That is so in every run
in which no thread fails to open the file while `running_` is set, and of the
runs that go to the end it is so in no others. -/
theorem joined_and_released_iff (cfg : ProcessConfig)
    (found : Fin cap.size → KVBlock) (now : Nat) (es : List (Event ι))
    (s : PacingProcess cap ι)
    (hexec : exec (step cfg) (init cfg found now) es = some s) :
    (Meets (step cfg) FailsStopped (init cfg found now) es → s.Safe) ∧
      (s.owner = .destroyed ∨ s.owner = .terminated → s.Safe →
        Meets (step cfg) FailsStopped (init cfg found now) es) := by
  constructor
  · intro hmeets
    obtain ⟨haccount, horderly⟩ : s.Lifecycle := by
      apply (Reach.of_exec hexec hmeets).invariant (lifecycle_init found now)
      intro s e t hs hcond hstep
      exact hs.step hcond hstep
    unfold Orderly at horderly
    refine ⟨fun hend => ?_, fun hend => ?_⟩
    · rw [hend] at horderly
      exact horderly
    · rw [hend] at horderly
      simpa [held, horderly.2.2] using haccount
  · intro hend hsafe
    by_contra hfail
    obtain ⟨u, e, v, hreach, hcond, hstep, hrest⟩ :=
      exists_violation hexec hfail
    have hu : u.Lifecycle := by
      apply hreach.invariant (lifecycle_init found now)
      intro s e t hs hcond hstep
      exact hs.step hcond hstep
    have hs : s.Doomed := by
      apply hrest.invariant (hu.doomed hcond hstep)
      intro s e t hs _ hstep
      exact hs.step hstep
    rcases hs with hterm | hlost | ⟨-, -, -, hleft⟩
    · exact hsafe.joined hterm
    · have hdestroyed : s.owner = .destroyed :=
        hend.resolve_right hsafe.joined
      have hreleased := hsafe.released hdestroyed
      omega
    · rcases hend with hend | hend <;> simp [hend] at hleft

/-- The smallest ring. -/
def pair : Capacity := ⟨1, by decide, by decide⟩

/-- The engine is created and destroyed: its destructor calls `stop`, then the
daemon's. -/
def engineEvents (thread : List (Event Unit)) : List (Event Unit) :=
  [.start, .owner true, .owner true, .owner true] ++ thread ++
    [.stop, .destroy, .owner true]

/-- The thread cannot open the file; the destructor of the engine meets a
joinable thread. -/
theorem destructor_meets_joinable_thread :
    ¬ ∀ (cfg : ProcessConfig) (found : Fin pair.size → KVBlock) (now : Nat)
        (s : PacingProcess pair Unit),
      Reachable (step cfg) (init cfg found now) s → s.Safe := by
  intro hall
  obtain ⟨s, hreach, hend⟩ : ∃ s : PacingProcess pair Unit,
      Reachable (step {}) (init {} (fun _ => SpikeAbsorber.blockOf 0) 0) s ∧
      s.owner = .terminated :=
    Reachable.exists_of_exec
      (engineEvents [.thread (.opened false)]) (by decide +kernel)
  exact (hall {} _ 0 s hreach).joined hend

/-- `stop` is called before the thread has come to open the file, and it cannot;
the object is started again and ended while the thread runs. -/
def restartEvents : List (Event Unit) :=
  [.start, .owner true, .owner true, .owner true, .stop,
    .thread (.opened false), .owner true, .owner true,
    .start, .owner true, .owner true, .owner true, .thread (.opened true),
    .destroy, .thread .next, .thread .next, .thread .next, .thread .next,
    .owner true, .owner true, .owner true]

theorem joined_and_released_restarted :
    ∃ s : PacingProcess pair Unit, s.owner = .destroyed ∧ s.allocated = 2 ∧
      s.Safe := by
  obtain ⟨s, hexec, hend, htwo⟩ : ∃ s ∈ exec (step {})
      (init {} (fun _ => SpikeAbsorber.blockOf 0) 0 : PacingProcess pair Unit)
      restartEvents, s.owner = .destroyed ∧ s.allocated = 2 := by
    decide +kernel
  exact ⟨s, hend, htwo, (joined_and_released_iff {} _ 0 restartEvents s
    hexec).1 (by decide +kernel)⟩

end PacingProcess

end Tempo
