import Mathlib.Data.List.Perm.Basic
import Tempo.PacingLifecycle

/-!
# What is in flight when the daemon stops

After its loop the thread takes one look at the completion queue and consumes
as many completions as it found there.  It does not wait: a write that the
kernel has not completed by then is neither waited for nor accounted, and its
completion goes with the io_uring.  So `stop` leaves nothing behind in exactly
those runs in which, whenever a thread comes to that look, everything it has
submitted has been completed.
-/

namespace Tempo

open Runs

namespace PacingProcess

variable {cap : Capacity} {ι : Type*} [DecidableEq ι]

/-- The writes in the io_uring that are not done with. -/
def unfinished (s : PacingProcess cap ι) : List WriteSqe :=
  s.uring.elim [] (·.outstanding)

/-- The writes `flush_block` has submitted. -/
def writes (s : PacingProcess cap ι) : List WriteSqe :=
  s.flushed.map fun f => prepWrite f.2

/-- If the thread takes its last look at the completion queue, then nothing is
waiting for the kernel. -/
def Quiesced (s : PacingProcess cap ι) : Event ι → Prop
  | .thread _ =>
      s.thread = some .cqReady →
        s.uring.all fun ring => ring.sq.isEmpty && ring.inFlight.isEmpty
  | _ => True

instance (s : PacingProcess cap ι) : ∀ e, Decidable (s.Quiesced e)
  | .thread _ => inferInstanceAs (Decidable (_ → _))
  | .absorb _ _ | .producer _ | .spurious _ | .start | .stop | .destroy
  | .owner _ | .kernel _ => isTrue trivial

/-- There is no thread, or it has returned. -/
def AtRest (s : PacingProcess cap ι) : Prop :=
  s.thread = none ∨ s.thread = some .returned

/-- The owner starts, or ends a stop, only with the thread at rest. -/
def Resting (s : PacingProcess cap ι) : Prop :=
  match s.owner with
  | .idle => s.running = false → s.AtRest
  | .startInit => s.running = true ∧ s.AtRest
  | .startDirs | .startSpawn =>
      s.running = true ∧ s.AtRest ∧ s.uring.isSome ∧ s.unfinished = []
  | .stopRing _ => s.thread = none
  | .dtorMembers | .destroyed => s.AtRest
  | .stopJoin _ | .terminated => True

/-- After the last look, and before the loop, nothing is left to wait for. -/
def Settled (s : PacingProcess cap ι) : Prop :=
  match s.thread with
  | none | some .opening | some .closing | some .returned => s.unfinished = []
  | some (.drainCq k) => ∀ ring ∈ s.uring,
      ring.sq = [] ∧ ring.inFlight = [] ∧ ring.cq.length = k
  | _ => True

/-- How many of the writes that are not done with may still be consumed. -/
def toConsume (s : PacingProcess cap ι) : Nat :=
  match s.thread with
  | none | some .opening | some .closing | some .returned => 0
  | some (.drainCq k) => k
  | _ => s.unfinished.length

/-- What the owner and the thread rely on of each other. -/
structure Staged (s : PacingProcess cap ι) : Prop where
  resting : s.Resting
  fresh : s.thread = some .opening → s.unfinished = []
  ringed : s.thread.isSome → s.uring.isSome

/-- Each write has been consumed, is lost, or is not done with. -/
def Books (s : PacingProcess cap ι) (lost : List WriteSqe) : Prop :=
  s.writes.Perm (s.consumed ++ lost ++ s.unfinished)

variable {cfg : ProcessConfig} {s t : PacingProcess cap ι} {e : Event ι}
  {lost : List WriteSqe}

/-! ## The io_uring -/

theorem outstanding_submit (ring : Uring) (n : Nat) :
    (ring.submit n).outstanding.Perm ring.outstanding := by
  unfold Uring.submit Uring.outstanding
  dsimp only
  apply List.Perm.append_right
  calc List.Perm (ring.sq.drop n ++ (ring.inFlight ++ ring.sq.take n))
        (ring.sq.take n ++ (ring.sq.drop n ++ ring.inFlight)) := by
        rw [← List.append_assoc]
        exact List.perm_append_comm
    _ = ring.sq ++ ring.inFlight := by
        rw [← List.append_assoc, List.take_append_drop]

theorem outstanding_complete {ring ring' : Uring} {i : Nat}
    (hring : ring.complete i = some ring') :
    ring'.outstanding.Perm ring.outstanding ∧ ring.inFlight ≠ [] := by
  obtain ⟨sqe, hsqe, rfl⟩ := Option.map_eq_some_iff.mp hring
  obtain ⟨hi, rfl⟩ := List.getElem?_eq_some_iff.mp hsqe
  refine ⟨?_, List.ne_nil_of_length_pos (by omega)⟩
  unfold Uring.outstanding
  dsimp only
  rw [List.append_assoc, List.append_assoc]
  apply List.Perm.append_left
  calc List.Perm (ring.inFlight.eraseIdx i ++ (ring.cq ++ [ring.inFlight[i]]))
        (ring.inFlight[i] :: (ring.inFlight.eraseIdx i ++ ring.cq)) := by
        rw [← List.append_assoc]
        exact List.perm_append_singleton _ _
    List.Perm _ (ring.inFlight ++ ring.cq) :=
        (List.getElem_cons_eraseIdx_perm hi).append_right ring.cq

theorem outstanding_prep (ring : Uring) (w : WriteSqe) :
    (Uring.outstanding { ring with sq := ring.sq ++ [w] }).Perm
      (w :: ring.outstanding) := by
  unfold Uring.outstanding
  dsimp only
  rw [← List.cons_append, ← List.cons_append]
  apply List.Perm.append_right
  apply List.Perm.append_right
  exact List.perm_append_singleton _ _

theorem outstanding_reap {ring : Uring} {sqe : WriteSqe} {rest : List WriteSqe}
    (hcq : ring.cq = sqe :: rest) :
    ring.outstanding.Perm
      (sqe :: Uring.outstanding { ring with cq := rest }) := by
  unfold Uring.outstanding
  rw [hcq]
  exact List.perm_middle

omit [DecidableEq ι] in
theorem unfinished_of_some {ring : Uring} (huring : s.uring = some ring) :
    s.unfinished = ring.outstanding := by
  simp [unfinished, huring]

omit [DecidableEq ι] in
/-- What the kernel does to the writes that are not done with. -/
theorem unfinished_kernel {ring ring' : Uring} {i : Nat}
    (huring : s.uring = some ring) (hring : ring.complete i = some ring') :
    ring'.outstanding.Perm s.unfinished ∧ s.unfinished ≠ [] := by
  obtain ⟨hperm, hflight⟩ := outstanding_complete hring
  rw [unfinished_of_some huring]
  refine ⟨hperm, fun hnil => hflight ?_⟩
  unfold Uring.outstanding at hnil
  exact (List.append_eq_nil_iff.mp (List.append_eq_nil_iff.mp hnil).1).2

omit [DecidableEq ι] in
theorem unfinished_submitRing (s : PacingProcess cap ι) (n : Nat) :
    (s.submitRing n).unfinished.Perm s.unfinished := by
  cases huring : s.uring with
  | none => simp [submitRing, unfinished, huring]
  | some ring => simpa [submitRing, unfinished, huring] using
      outstanding_submit ring n

omit [DecidableEq ι] in
theorem unfinished_flush (blk : KVBlock) (n : Nat) (hring : s.uring.isSome) :
    (s.flush blk n).unfinished.Perm (prepWrite blk :: s.unfinished) := by
  obtain ⟨ring, huring⟩ := Option.isSome_iff_exists.mp hring
  simpa [flush, unfinished, huring] using
    (outstanding_submit _ n).trans (outstanding_prep ring (prepWrite blk))

/-! ## The books -/

/-- A statement of the thread moves a write from one place to another. -/
theorem Books.thread {i : ThreadInput} (h : s.Books lost)
    (hring : s.uring.isSome) (hmove : ThreadMove cfg s i t) : t.Books lost := by
  unfold Books at h ⊢
  cases hmove with
  | @submit blk n loop hthread hpc hloop =>
      calc List.Perm (s.flush blk n).writes
            (prepWrite blk :: s.writes) := by
            simp only [writes, flush, List.map_append, List.map_cons,
              List.map_nil]
            exact List.perm_append_singleton _ _
        List.Perm _ (prepWrite blk :: (s.consumed ++ lost ++ s.unfinished)) :=
            h.cons _
        List.Perm _ (s.consumed ++ lost ++ (prepWrite blk :: s.unfinished)) :=
            List.perm_middle.symm
        List.Perm _ (s.consumed ++ lost ++ (s.flush blk n).unfinished) :=
            (unfinished_flush blk n hring).symm.append_left _
  | sqFull hthread =>
      exact h.trans ((unfinished_submitRing s _).symm.append_left _)
  | @reap pc pc' ring sqe rest hreaps hthread huring hcq =>
      have hcons := outstanding_reap hcq
      rw [unfinished_of_some huring] at h
      calc List.Perm s.writes (s.consumed ++ lost ++ ring.outstanding) := h
        List.Perm _ (s.consumed ++ lost ++
            (sqe :: Uring.outstanding { ring with cq := rest })) :=
            hcons.append_left _
        List.Perm _ (s.consumed ++ [sqe] ++ lost ++
            Uring.outstanding { ring with cq := rest }) := by
            rw [List.append_assoc, List.append_assoc, List.append_assoc]
            apply List.Perm.append_left
            exact List.perm_middle
  | _ => exact h

/-! ## The owner and the thread -/

omit [DecidableEq ι] in
theorem staged_init (found : Fin cap.size → KVBlock) (now : Nat) :
    (init cfg found now : PacingProcess cap ι).Staged where
  resting := fun _ => .inl rfl
  fresh := fun _ => rfl
  ringed := by simp [init]

omit [DecidableEq ι] in
theorem Staged.owner (h : s.Staged) (hmove : OwnerMove s t) : t.Staged := by
  obtain ⟨hresting, hfresh, hringed⟩ := h
  unfold Resting at hresting
  cases hmove with
  | again howner => exact ⟨hresting, hfresh, hringed⟩
  | start howner hrunning =>
      rw [howner] at hresting
      exact ⟨⟨rfl, hresting hrunning⟩, hfresh, hringed⟩
  | stop dtor howner hrunning => exact ⟨trivial, hfresh, hringed⟩
  | destroy howner hrunning =>
      rw [howner] at hresting
      exact ⟨hresting hrunning, hfresh, hringed⟩
  | init howner =>
      rw [howner] at hresting
      exact ⟨⟨hresting.1, hresting.2, rfl, rfl⟩, fun _ => rfl, fun _ => rfl⟩
  | initFailed howner =>
      rw [howner] at hresting
      exact ⟨fun _ => hresting.2, hfresh, hringed⟩
  | dirs howner =>
      rw [howner] at hresting
      exact ⟨hresting, hfresh, hringed⟩
  | thrown howner =>
      have hrunning : s.running = true := by
        rcases howner with howner | howner <;>
          · rw [howner] at hresting
            exact hresting.1
      exact ⟨fun hstopped => by simp [hrunning] at hstopped, hfresh, hringed⟩
  | spawn howner hthread =>
      rw [howner] at hresting
      obtain ⟨hrunning, -, huring, hempty⟩ := hresting
      exact ⟨fun hstopped => by simp [hrunning] at hstopped, fun _ => hempty,
        fun _ => huring⟩
  | overwrite howner hthread => exact ⟨trivial, hfresh, hringed⟩
  | joined dtor howner hthread => exact ⟨rfl, by simp, by simp⟩
  | ring dtor howner =>
      rw [howner] at hresting
      have hthread : s.thread = none := hresting
      refine ⟨?_, by simp [hthread], by simp [hthread]⟩
      cases dtor with
      | false => exact fun _ => .inl hthread
      | true => exact .inl hthread
  | members howner hthread => exact ⟨.inl hthread, hfresh, hringed⟩
  | joinable howner hthread => exact ⟨trivial, hfresh, hringed⟩

/-- The loop's body goes on in the loop. -/
theorem nextPc_of (before after : DaemonPc) :
    nextPc before after = .top ∨ nextPc before after = .body ∨
      nextPc before after = .timedWait ∨ nextPc before after = .sqFull ∨
      nextPc before after = .collect := by
  unfold nextPc
  split <;> simp

/-- A thread that makes a move has not returned, and is past the opening
afterwards. -/
theorem ThreadMove.past {i : ThreadInput} (hmove : ThreadMove cfg s i t) :
    ¬ s.AtRest ∧ t.thread ≠ some .opening := by
  have hnext : ∀ before after, some (nextPc before after) ≠ some .opening := by
    intro before after
    rcases nextPc_of before after with h | h | h | h | h <;> simp [h]
  unfold AtRest
  cases hmove with
  | opened hthread | failed hthread | timeout hthread | collected hthread
  | count hthread | skip hthread | drained hthread | closed hthread
  | sqFull hthread => simp [hthread]
  | test hthread =>
      refine ⟨by simp [hthread], ?_⟩
      dsimp only
      split <;> simp
  | body hthread | consume hthread | submit hthread =>
      exact ⟨by simp [hthread], hnext _ _⟩
  | reap hreaps hthread => cases hreaps <;> simp [hthread]

theorem Staged.thread {i : ThreadInput} (h : s.Staged)
    (hmove : ThreadMove cfg s i t) : t.Staged := by
  obtain ⟨hresting, -, hringed⟩ := h
  have hframe := hmove.frame
  obtain ⟨hbusy, hpast⟩ := hmove.past
  refine ⟨?_, fun hopening => absurd hopening hpast, fun _ => ?_⟩
  · unfold Resting at hresting ⊢
    rw [hframe.owner]
    cases howner : s.owner with
    | idle =>
        rw [howner] at hresting
        intro hstopped
        rcases hframe.running with hsame | ⟨-, -, -, hreturned⟩
        · exact absurd (hresting (hsame.symm.trans hstopped)) hbusy
        · exact .inr hreturned
    | startInit => rw [howner] at hresting; exact absurd hresting.2 hbusy
    | startDirs | startSpawn =>
        rw [howner] at hresting
        exact absurd hresting.2.1 hbusy
    | stopRing dtor =>
        rw [howner] at hresting
        exact absurd (.inl hresting) hbusy
    | dtorMembers | destroyed =>
        rw [howner] at hresting
        exact absurd hresting hbusy
    | stopJoin dtor | terminated => trivial
  · rw [hframe.uring]
    exact hringed hframe.started

omit [DecidableEq ι] in
/-- A step that leaves the owner, `running_` and the thread where they are, and
puts no write into an empty io_uring. -/
theorem Staged.congr (h : s.Staged) (howner : t.owner = s.owner)
    (hrunning : t.running = s.running) (hthread : t.thread = s.thread)
    (huring : t.uring.isSome = s.uring.isSome)
    (hempty : s.unfinished = [] → t.unfinished = []) : t.Staged := by
  obtain ⟨hresting, hfresh, hringed⟩ := h
  refine ⟨?_, ?_, ?_⟩
  · unfold Resting AtRest at hresting ⊢
    rw [howner, hrunning, hthread, huring]
    cases hpc : s.owner with
    | startDirs | startSpawn =>
        rw [hpc] at hresting
        obtain ⟨hrunning, hrest, hring, hnil⟩ := hresting
        exact ⟨hrunning, hrest, hring, hempty hnil⟩
    | _ => rw [hpc] at hresting; exact hresting
  · rw [hthread]
    exact fun hopening => hempty (hfresh hopening)
  · rw [hthread, huring]
    exact hringed

theorem Staged.step (h : s.Staged) (hstep : s.step cfg e = some t) :
    t.Staged := by
  cases move_of_step hstep with
  | producers => exact h.congr rfl rfl rfl rfl id
  | owner _ hmove => exact h.owner hmove
  | thread _ hmove => exact h.thread hmove
  | kernel huring hring =>
      refine h.congr rfl rfl rfl (by simp [huring]) fun hnil => ?_
      exact absurd hnil (unfinished_kernel huring hring).2

omit [DecidableEq ι] in
theorem Books.kernel {ring ring' : Uring} {i : Nat} (h : s.Books lost)
    (huring : s.uring = some ring) (hring : ring.complete i = some ring') :
    Books { s with uring := some ring' } lost :=
  h.trans ((unfinished_kernel huring hring).1.symm.append_left _)

omit [DecidableEq ι] in
/-- What is in the io_uring when the owner lets go of it is lost. -/
theorem Books.owner (h : s.Books lost) (hmove : OwnerMove s t) :
    t.Books lost ∨
      t.Books (lost ++ s.unfinished) ∧ t.unfinished = [] := by
  have hgone : s.writes.Perm
      (s.consumed ++ (lost ++ s.unfinished) ++ []) := by
    rw [List.append_nil, ← List.append_assoc]
    exact h
  cases hmove with
  | init => exact .inr ⟨hgone, rfl⟩
  | ring => exact .inr ⟨hgone, rfl⟩
  | _ => exact .inl h

theorem Books.step (h : s.Books lost) (hstaged : s.Staged)
    (hstep : s.step cfg e = some t) : ∃ lost, t.Books lost := by
  cases move_of_step hstep with
  | producers => exact ⟨lost, h⟩
  | owner _ hmove =>
      rcases h.owner hmove with hsame | ⟨hgone, -⟩
      · exact ⟨lost, hsame⟩
      · exact ⟨_, hgone⟩
  | thread _ hmove =>
      exact ⟨lost, h.thread (hstaged.ringed hmove.frame.started) hmove⟩
  | kernel huring hring => exact ⟨lost, h.kernel huring hring⟩

/-! ## Nothing left behind -/

/-- What holds while every last look finds everything completed. -/
structure Waited (s : PacingProcess cap ι) : Prop where
  staged : s.Staged
  books : s.Books []
  settled : s.Settled

omit [DecidableEq ι] in
theorem settled_of_atRest (h : s.Settled) (hrest : s.AtRest) :
    s.unfinished = [] := by
  unfold Settled at h
  rcases hrest with hthread | hthread <;> simpa [hthread] using h

omit [DecidableEq ι] in
/-- The owner lets go of an empty io_uring only. -/
theorem Waited.owner (h : s.Waited) (hmove : OwnerMove s t) : t.Waited := by
  have hsettled := h.settled
  have hresting := h.staged.resting
  unfold Resting at hresting
  have hbooks : s.unfinished = [] → t.Books [] := by
    intro hnil
    rcases h.books.owner hmove with hsame | ⟨hgone, -⟩
    · exact hsame
    · rwa [hnil] at hgone
  refine ⟨h.staged.owner hmove, ?_, ?_⟩
  · cases hmove with
    | init howner =>
        rw [howner] at hresting
        exact hbooks (settled_of_atRest hsettled hresting.2)
    | ring dtor howner =>
        rw [howner] at hresting
        exact hbooks (settled_of_atRest hsettled (.inl hresting))
    | _ => exact h.books
  · cases hmove with
    | init howner =>
        rw [howner] at hresting
        unfold Settled
        rcases hresting.2 with hthread | hthread <;> simp [hthread, unfinished,
          Uring.outstanding]
    | spawn howner hthread =>
        have hnil : s.unfinished = [] :=
          settled_of_atRest hsettled (.inl hthread)
        exact hnil
    | joined dtor howner hthread =>
        have hnil : s.unfinished = [] := settled_of_atRest hsettled hthread
        exact hnil
    | ring dtor howner =>
        rw [howner] at hresting
        have hthread : s.thread = none := hresting
        simp [Settled, hthread, unfinished]
    | _ => exact hsettled

theorem Waited.thread {i : ThreadInput} (h : s.Waited)
    (hcond : s.Quiesced (.thread i : Event ι)) (hmove : ThreadMove cfg s i t) :
    t.Waited := by
  have hring := h.staged.ringed hmove.frame.started
  have hsettled := h.settled
  unfold Settled at hsettled
  refine ⟨h.staged.thread hmove, h.books.thread hring hmove, ?_⟩
  have hloop : ∀ before after, t.thread = some (nextPc before after) →
      t.Settled := by
    intro before after hthread
    unfold Settled
    rw [hthread]
    rcases nextPc_of before after with h | h | h | h | h <;> simp [h]
  cases hmove with
  | opened | timeout | collected | sqFull => trivial
  | failed hthread =>
      rw [hthread] at hsettled
      exact hsettled
  | test => cases s.running <;> simp [Settled]
  | body | consume | submit => exact hloop _ _ rfl
  | @reap pc pc' ring sqe rest hreaps hthread huring hcq =>
      cases hreaps with
      | drainCq k =>
          rw [hthread] at hsettled
          obtain ⟨hsq, hflight, hlen⟩ := hsettled ring huring
          intro ring' hring'
          obtain rfl := Option.some.inj hring'
          rw [hcq, List.length_cons] at hlen
          exact ⟨hsq, hflight, Nat.succ.inj hlen⟩
      | _ => trivial
  | count hthread =>
      have hquiet := hcond hthread
      intro ring hring'
      have huring : s.uring = some ring := hring'
      simp only [huring, Option.all_some, Bool.and_eq_true,
        List.isEmpty_iff] at hquiet
      refine ⟨hquiet.1, hquiet.2, ?_⟩
      rw [huring]
      rfl
  | skip hthread hcq =>
      rw [hthread] at hsettled
      obtain ⟨ring, huring⟩ := Option.isSome_iff_exists.mp hring
      obtain ⟨-, -, hlen⟩ := hsettled ring huring
      rw [huring] at hcq
      rw [show ring.cq = [] from hcq] at hlen
      simp at hlen
  | drained hthread =>
      rw [hthread] at hsettled
      obtain ⟨ring, huring⟩ := Option.isSome_iff_exists.mp hring
      obtain ⟨hsq, hflight, hlen⟩ := hsettled ring huring
      show s.unfinished = []
      rw [unfinished_of_some huring, Uring.outstanding, hsq, hflight,
        List.length_eq_zero_iff.mp hlen]
      rfl
  | closed hthread =>
      rw [hthread] at hsettled
      exact hsettled

theorem Waited.step (h : s.Waited) (hcond : s.Quiesced e)
    (hstep : s.step cfg e = some t) : t.Waited := by
  cases move_of_step hstep with
  | producers =>
      exact ⟨h.staged.step hstep, h.books, h.settled⟩
  | owner _ hmove => exact h.owner hmove
  | thread _ hmove => exact h.thread hcond hmove
  | @kernel i ring ring' huring hring =>
      refine ⟨h.staged.step hstep, h.books.kernel huring hring, ?_⟩
      have hsome := (unfinished_kernel huring hring).2
      have hflight := (outstanding_complete hring).2
      have hsettled := h.settled
      unfold Settled at hsettled ⊢
      dsimp only
      split at hsettled
      · exact absurd hsettled hsome
      · exact absurd hsettled hsome
      · exact absurd hsettled hsome
      · exact absurd hsettled hsome
      · exact absurd (hsettled ring huring).2.1 hflight
      · trivial

/-! ## Something left behind -/

/-- More has been submitted than will ever be consumed. -/
structure Missing (s : PacingProcess cap ι) : Prop where
  staged : s.Staged
  short : s.consumed.length + s.toConsume < s.writes.length

omit [DecidableEq ι] in
theorem Missing.owner (h : s.Missing) (hmove : OwnerMove s t) : t.Missing := by
  have hshort := h.short
  have hresting := h.staged.resting
  unfold Resting at hresting
  refine ⟨h.staged.owner hmove, ?_⟩
  unfold toConsume at hshort ⊢
  cases hmove with
  | init howner =>
      rw [howner] at hresting
      rcases hresting.2 with hthread | hthread <;>
        simpa [hthread, writes] using hshort
  | spawn howner hthread => simpa [hthread, writes] using hshort
  | joined dtor howner hthread =>
      rcases hthread with hthread | hthread <;>
        simpa [hthread, writes] using hshort
  | ring dtor howner =>
      rw [howner] at hresting
      have hthread : s.thread = none := hresting
      simpa [hthread, writes] using hshort
  | _ => exact hshort

omit [DecidableEq ι] in
theorem toConsume_of_nextPc {before after : DaemonPc}
    (hthread : t.thread = some (nextPc before after)) :
    t.toConsume = t.unfinished.length := by
  unfold toConsume
  rw [hthread]
  rcases nextPc_of before after with h | h | h | h | h <;> simp [h]

theorem Missing.thread {i : ThreadInput} (h : s.Missing)
    (hmove : ThreadMove cfg s i t) : t.Missing := by
  refine ⟨h.staged.thread hmove, ?_⟩
  have hshort := h.short
  cases hmove with
  | opened hthread =>
      have hnil : s.unfinished.length = 0 := by
        rw [h.staged.fresh hthread, List.length_nil]
      unfold toConsume at hshort ⊢
      rw [hthread] at hshort
      show s.consumed.length + s.unfinished.length < s.writes.length
      omega
  | test hthread =>
      cases hrunning : s.running <;>
        simpa [toConsume, hthread, writes, unfinished] using hshort
  | failed hthread | timeout hthread | collected hthread | drained hthread
  | closed hthread =>
      simpa [toConsume, hthread, writes, unfinished] using hshort
  | body hthread | consume hthread =>
      rw [toConsume_of_nextPc rfl]
      simpa [toConsume, hthread, writes, unfinished] using hshort
  | @submit blk n loop hthread hpc hloop =>
      have hring := h.staged.ringed (by simp [hthread])
      have hlen := (unfinished_flush blk n hring).length_eq
      rw [List.length_cons] at hlen
      have hwrites : (s.flush blk n).writes.length = s.writes.length + 1 := by
        simp [writes, flush]
      rw [toConsume_of_nextPc rfl]
      simp only [toConsume, hthread] at hshort
      show s.consumed.length + (s.flush blk n).unfinished.length <
        (s.flush blk n).writes.length
      omega
  | @sqFull n hthread =>
      have hlen := (unfinished_submitRing s n).length_eq
      simp only [toConsume, hthread] at hshort ⊢
      show s.consumed.length + (s.submitRing n).unfinished.length <
        s.writes.length
      omega
  | @reap pc pc' ring sqe rest hreaps hthread huring hcq =>
      have hlen := (outstanding_reap hcq).length_eq
      rw [List.length_cons, ← unfinished_of_some huring] at hlen
      cases hreaps with
      | drainCq k =>
          simp only [toConsume, hthread] at hshort ⊢
          simp only [List.length_append, List.length_singleton]
          show s.consumed.length + 1 + k < s.writes.length
          omega
      | _ =>
          simp only [toConsume, hthread] at hshort ⊢
          simp only [List.length_append, List.length_singleton]
          show s.consumed.length + 1 +
            (Uring.outstanding { ring with cq := rest }).length <
              s.writes.length
          omega
  | count hthread =>
      have hsome := h.staged.ringed (by simp [hthread])
      obtain ⟨ring, huring⟩ := Option.isSome_iff_exists.mp hsome
      simp only [toConsume, hthread, unfinished_of_some huring,
        Uring.outstanding, List.length_append] at hshort
      simp only [toConsume, huring, Option.elim_some]
      show s.consumed.length + ring.cq.length < s.writes.length
      omega
  | @skip k hthread =>
      simp only [toConsume, hthread] at hshort ⊢
      show s.consumed.length + k < s.writes.length
      omega

omit [DecidableEq ι] in
theorem toConsume_congr (hthread : t.thread = s.thread)
    (hlen : t.unfinished.length = s.unfinished.length) :
    t.toConsume = s.toConsume := by
  unfold toConsume
  rw [hthread, hlen]

theorem Missing.step (h : s.Missing) (hstep : s.step cfg e = some t) :
    t.Missing := by
  cases move_of_step hstep with
  | producers => exact ⟨h.staged.step hstep, h.short⟩
  | owner _ hmove => exact h.owner hmove
  | thread _ hmove => exact h.thread hmove
  | @kernel i ring ring' huring hring =>
      refine ⟨h.staged.step hstep, ?_⟩
      have hlen := (unfinished_kernel huring hring).1.length_eq
      have hsame : PacingProcess.toConsume { s with uring := some ring' } =
          s.toConsume := toConsume_congr rfl hlen
      rw [hsame]
      exact h.short

/-- A last look that does not find everything completed leaves something
behind. -/
theorem Books.missing (h : s.Books lost) (hstaged : s.Staged)
    (hcond : ¬ s.Quiesced e) (hstep : s.step cfg e = some t) : t.Missing := by
  cases e with
  | thread i =>
      obtain ⟨hlook, hbusy⟩ := Classical.not_imp.mp hcond
      obtain ⟨-, hmove⟩ := frame_of_step hstep
      refine ⟨hstaged.thread hmove, ?_⟩
      cases hmove with
      | count hthread =>
          have hsome := hstaged.ringed (by simp [hthread])
          obtain ⟨ring, huring⟩ := Option.isSome_iff_exists.mp hsome
          have hwaiting : ring.cq.length < s.unfinished.length := by
            rw [unfinished_of_some huring, Uring.outstanding,
              List.length_append, List.length_append]
            by_contra hle
            apply hbusy
            have hsq : ring.sq = [] :=
              List.length_eq_zero_iff.mp (by omega)
            have hflight : ring.inFlight = [] :=
              List.length_eq_zero_iff.mp (by omega)
            simp [huring, hsq, hflight]
          have hlen := h.length_eq
          simp only [List.length_append] at hlen
          simp only [toConsume, huring, Option.elim_some]
          show s.consumed.length + ring.cq.length < s.writes.length
          omega
      | reap hreaps hthread => cases hreaps <;> simp [hlook] at hthread
      | opened hthread | failed hthread | test hthread | body hthread
      | consume hthread | submit hthread | timeout hthread | sqFull hthread
      | collected hthread | skip hthread | drained hthread | closed hthread =>
          simp [hlook] at hthread
  | _ => exact absurd trivial hcond

/-! ## The result -/

omit [DecidableEq ι] in
theorem Books.init (found : Fin cap.size → KVBlock) (now : Nat) :
    (init cfg found now : PacingProcess cap ι).Books [] :=
  List.Perm.refl _

end PacingProcess

end Tempo
