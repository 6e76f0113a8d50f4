import Tempo.CheckpointRuns

/-!
# Waiting for the flushes

`wait_for_all_flushes` is `self._queue.join()`: it returns when every job put
into the queue has been marked done.  `_flush_worker` marks a job done however
its `_do_flush` call ended, so the wait tells that the jobs have been tried.
They have been flushed as long as no call is left before its rename, by an
exception or at the stop flag, and none publishes the empty file that a chunk size
of zero makes (`Completes`).
-/

namespace Tempo

namespace FlushPc

/-- The thread has a job that it has not marked done. -/
def busy : FlushPc → Nat
  | .taskDone => 1
  | pc => if pc.job?.isSome then 1 else 0

/-- The job's file has been renamed to its final name. -/
def published : FlushPc → Bool
  | .account _ _ | .unlink _ => true
  | _ => false

end FlushPc

namespace CheckpointManager

variable {cfg : CkptConfig} {found : Dir} {s t : CkptState}

/-- How the `_do_flush` call of a job ends. -/
inductive FlushExit (s : CkptState) (job : FlushJob) : FlushInput → Prop
  | missing (hpc : s.worker = .check job ∨ s.worker = .openSrc job)
      (hfile : s.localDir job.localName = none) : FlushExit s job .next
  | unrenamed (off : Nat) (hpc : s.worker = .rename job off)
      (hfile : s.lustreDir (tmpName job.remoteName) = none) :
      FlushExit s job .next
  | done (hpc : s.worker = .unlink job) : FlushExit s job .next
  | stopped (off : Nat) (hpc : s.worker = .gate job off)
      (hstop : s.stop = true) : FlushExit s job (.gate false)
  | raised (n : Nat) (hpc : s.worker.job? = some job) :
      FlushExit s job (.fail n)

/-- What a statement of the flush thread does to the jobs: it takes one from
the queue, ends the flush of one, marks one done, or leaves them alone. -/
inductive JobStep (s t : CkptState) (i : FlushInput) : Prop
  | stay (hqueue : t.queue = s.queue)
      (hjob : t.worker.job? = s.worker.job?)
      (hbusy : t.worker.busy = s.worker.busy)
      (hunfinished : t.unfinished = s.unfinished)
  | mark (hqueue : t.queue = s.queue) (hpc : s.worker = .taskDone)
      (hnext : t.worker = .poll) (hunfinished : t.unfinished = s.unfinished - 1)
  | take (job : FlushJob) (hqueue : s.queue = job :: t.queue)
      (hpc : s.worker = .get) (hnext : t.worker = .check job)
      (hunfinished : t.unfinished = s.unfinished)
  | leave (job : FlushJob) (hqueue : t.queue = s.queue)
      (hpc : s.worker.job? = some job) (hnext : t.worker = .taskDone)
      (hunfinished : t.unfinished = s.unfinished)
      (hexit : FlushExit s job i)

/-- Every statement of the flush thread is one of these. -/
theorem jobStep_worker {i : FlushInput} (hstep : workerStep cfg s i = some t) :
    JobStep s t i := by
  cases flushStep_of_step hstep with
  | take hpc hqueue => exact .take _ hqueue hpc rfl rfl
  | missing hpc hfile =>
      exact .leave _ rfl (by rw [hpc]; rfl) rfl rfl (.missing (.inl hpc) hfile)
  | vanished hpc hfile =>
      exact .leave _ rfl (by rw [hpc]; rfl) rfl rfl (.missing (.inr hpc) hfile)
  | lost hpc htmp => exact .leave _ rfl (by rw [hpc]; rfl) rfl rfl (.unrenamed _ hpc htmp)
  | givesUp hpc hstop => exact .leave _ rfl (by rw [hpc]; rfl) rfl rfl (.stopped _ hpc hstop)
  | unlink hpc => exact .leave _ rfl (by rw [hpc]; rfl) rfl rfl (.done hpc)
  | failWrite hpc => exact .leave _ rfl (by rw [hpc]; rfl) rfl rfl (.raised _ (by rw [hpc]; rfl))
  | fail hjob hpc => exact .leave _ rfl hjob rfl rfl (.raised _ hjob)
  | taskDone hpc => exact .mark rfl hpc rfl rfl
  | read hpc hi =>
      obtain ⟨worker, hmoves, hworker⟩ := afterRead_moves s _ _ _
      rw [hmoves]
      -- the three statements that the read leads to are about the same job
      obtain rfl | rfl | ⟨chunk, rfl⟩ := hworker <;>
        exact .stay rfl (by simp [hpc, FlushPc.job?])
          (by simp [hpc, FlushPc.busy, FlushPc.job?]) rfl
  | poll hpc _ | halt hpc _ | empty hpc _ | found hpc _ | openSrc hpc _ | openTmp hpc
  | resize hpc | unpaced hpc _ | blocked hpc _ _ | granted hpc _ _ | passes hpc
  | waits hpc _ | recompute hpc | write hpc | rename hpc _ | account hpc =>
      exact .stay rfl (by simp [hpc, FlushPc.job?])
        (by simp [hpc, FlushPc.busy, FlushPc.job?]) rfl

/-- The flush thread writes to the temporary name of its job, and to its final
name by the rename only. -/
theorem workerStep_lustreDir {i : FlushInput}
    (hstep : workerStep cfg s i = some t) :
    t.lustreDir = s.lustreDir ∨
      (∃ job x, s.worker.job? = some job ∧
        t.lustreDir = Function.update s.lustreDir (tmpName job.remoteName) x) ∨
      ∃ job off data, s.worker = .rename job off ∧
        s.lustreDir (tmpName job.remoteName) = some data ∧
        t.lustreDir = Function.update (Function.update s.lustreDir
          (tmpName job.remoteName) none) job.remoteName (some data) := by
  cases flushStep_of_step hstep with
  | openTmp hpc | write hpc | failWrite hpc =>
      exact .inr (.inl ⟨_, _, by rw [hpc]; rfl, rfl⟩)
  | rename hpc htmp => exact .inr (.inr ⟨_, _, _, hpc, htmp, rfl⟩)
  | read hpc hi =>
      obtain ⟨worker, hmoves, -⟩ := afterRead_moves s _ _ _
      rw [hmoves]
      exact .inl rfl
  | _ => exact .inl rfl

/-! ### The wait -/

/-- The queue counts what has been put into it and not been marked done. -/
def Counted (s : CkptState) : Prop :=
  s.unfinished = s.queue.length + s.worker.busy

theorem Counted.worker {i : FlushInput} (h : Counted s)
    (hstep : workerStep cfg s i = some t) : Counted t := by
  unfold Counted at *
  cases jobStep_worker hstep with
  | stay hqueue hjob hbusy hunfinished => rw [hunfinished, hqueue, hbusy, h]
  | mark hqueue hpc hnext hunfinished =>
      rw [hunfinished, hqueue, hnext, h, hpc]
      simp [FlushPc.busy, FlushPc.job?]
  | take job hqueue hpc hnext hunfinished =>
      rw [hunfinished, hnext, h, hqueue, hpc]
      simp [FlushPc.busy, FlushPc.job?]
  | leave job hqueue hpc hnext hunfinished hexit =>
      have hbusy : s.worker.busy = 1 := by
        cases hw : s.worker <;> simp_all [FlushPc.busy, FlushPc.job?]
      rw [hunfinished, hqueue, hnext, h, hbusy]
      rfl

theorem Counted.saver (h : Counted s) (hstep : saverStep cfg s = some t) :
    Counted t := by
  have hframe := saverStep_frame hstep
  obtain ⟨jobs, hqueue, hunfinished⟩ := hframe.queue
  unfold Counted at *
  rw [hunfinished, hqueue, hframe.worker, h, List.length_append]
  omega

theorem Counted.step {e : CkptEvent} (h : Counted s)
    (hstep : step cfg s e = some t) : Counted t := by
  cases e with
  | save k partialData data =>
      obtain ⟨-, rfl⟩ := by simpa [CheckpointManager.step] using hstep
      exact h
  | saver => exact h.saver hstep
  | worker i => exact h.worker hstep
  | shutdown =>
      obtain rfl := by simpa [CheckpointManager.step] using hstep
      exact h

/-- When the wait returns no job is queued or being flushed. -/
theorem Counted.joined (h : Counted s) (hjoin : s.unfinished = 0) :
    s.queue = [] ∧ s.worker.job? = none := by
  unfold Counted at h
  rw [hjoin] at h
  refine ⟨List.eq_nil_of_length_eq_zero (by omega), ?_⟩
  cases hw : s.worker <;> simp_all [FlushPc.busy, FlushPc.job?]

/-- A flush is left after its rename only: no exception comes before it, and no
throttle wait returns at the stop flag.  A read of zero bytes is at the end of the
file.  Saves are of distinct steps. -/
def Completes (s : CkptState) : CkptEvent → Prop
  | .save step _ _ => step ∉ s.begun
  | .worker .next => ReadsToEnd s
  | .worker (.fail _) => s.worker.published = true
  | .worker (.gate false) => s.stop = false
  | _ => True

theorem Completes.distinct {e : CkptEvent} (h : Completes s e) : Distinct s e := by
  cases e with
  | save k partialData data => exact h
  | _ => trivial

/-- A job of step `k` is queued or being flushed. -/
def Remaining (s : CkptState) (k : Int) : Prop :=
  (∃ job ∈ s.queue, job.step = k) ∨
    ∃ job, s.worker.job? = some job ∧ job.step = k

/-- The version of step `k` saved as `data` is still to be flushed, or it is
at its final remote path. -/
def Settled (cfg : CkptConfig) (s : CkptState) (k : Int) (data : Bytes) :
    Prop :=
  Remaining s k ∨ s.lustreDir (ckptName cfg.rank k) = some data

section Settled

variable {k : Int} {data : Bytes}

/-- The newest version of a step saved once is that one. -/
theorem Once.eq_of_newest (h : Once s) (hsaved : (k, data) ∈ s.saves) {c : Bytes}
    (hc : newest s.saves k = some c) : c = data :=
  h.saves_unique k c data (mem_of_newest hc) hsaved

/-- What a flush leaves behind at its end is the complete file. -/
theorem published_of_exit (hs : Durable cfg found s) (honce : Once s)
    (hsaved : (k, data) ∈ s.saves) {i : FlushInput} {job : FlushJob}
    (hcond : Completes s (.worker i)) (hexit : FlushExit s job i)
    (hjob : s.worker.job? = some job) (hk : job.step = k) :
    s.lustreDir (ckptName cfg.rank k) = some data := by
  have hok := hs.worker_ok job hjob
  have hflush := hs.flush_ok
  have hremote : job.remoteName = ckptName cfg.rank k := by
    rw [hok.remoteName_eq, hk]
  have hpublished : (∃ c, Stable cfg s job c ∧
      s.lustreDir job.remoteName = some c) →
      s.lustreDir (ckptName cfg.rank k) = some data := by
    rintro ⟨c, hstable, hfile⟩
    obtain rfl := honce.eq_of_newest hsaved (hk ▸ hstable.newest_eq)
    rw [← hremote, hfile]
  cases hexit with
  | missing hpc hfile =>
      -- a saved file that is gone has been published
      obtain ⟨c, hc⟩ := exists_newest hsaved
      obtain rfl := honce.eq_of_newest hsaved hc
      have hnot : ¬ Writing s k := fun hw => honce.writing_new k c hw hsaved
      rw [hok.localName_eq, hk] at hfile
      rcases hs.current k c hc hnot with hlocal | ⟨-, hlustre⟩
      · rw [hfile] at hlocal
        cases hlocal
      · exact hlustre
  | unrenamed off hpc hfile =>
      rw [hpc] at hflush
      obtain ⟨c, -, htmp⟩ := hflush
      rw [hfile] at htmp
      cases htmp
  | done hpc =>
      rw [hpc] at hflush
      exact hpublished hflush
  | stopped off hpc hstop => exact absurd hstop (by simp [show s.stop = false from hcond])
  | raised n hpc =>
      have hpub : s.worker.published = true := hcond
      cases hw : s.worker with
      | account job' off | unlink job' =>
          rw [hw] at hflush hjob
          obtain rfl := Option.some.inj hjob
          exact hpublished hflush
      | _ => simp [hw, FlushPc.published] at hpub

/-- What has been published stays published. -/
theorem published_kept (hs : Durable cfg found s) (honce : Once s)
    (hsaved : (k, data) ∈ s.saves) {i : FlushInput}
    (hstep : workerStep cfg s i = some t)
    (hpub : s.lustreDir (ckptName cfg.rank k) = some data) :
    t.lustreDir (ckptName cfg.rank k) = some data := by
  rcases workerStep_lustreDir hstep with
    hsame | ⟨job, x, hjob, hdir⟩ | ⟨job, off, c, hpc, hfile, hdir⟩
  · rw [hsame, hpub]
  · rw [hdir, update_tmp_ckptName (hs.worker_ok job hjob), hpub]
  · have hok := hs.worker_ok job (by rw [hpc]; rfl)
    by_cases hk : job.step = k
    · have hflush := hs.flush_ok
      rw [hpc] at hflush
      obtain ⟨c', hstable, htmp⟩ := hflush
      obtain rfl := Option.some.inj (hfile.symm.trans htmp)
      obtain rfl := honce.eq_of_newest hsaved (hk ▸ hstable.newest_eq)
      rw [hdir, hok.remoteName_eq, hk, Function.update_self]
    · have hne : ckptName cfg.rank k ≠ job.remoteName := by
        rw [hok.remoteName_eq]
        exact fun h => hk (ckptName_injective h).symm
      rw [hdir, Function.update_of_ne hne, update_tmp_ckptName hok, hpub]

theorem Settled.worker (hs : Durable cfg found s) (honce : Once s)
    (hsaved : (k, data) ∈ s.saves) {i : FlushInput}
    (hcond : Completes s (.worker i)) (h : Settled cfg s k data)
    (hstep : workerStep cfg s i = some t) : Settled cfg t k data := by
  rcases h with hremaining | hpub
  · unfold Settled Remaining
    cases jobStep_worker hstep with
    | stay hqueue hjob hbusy hunfinished =>
        rw [hqueue, hjob]
        exact .inl hremaining
    | mark hqueue hpc hnext hunfinished =>
        rw [hqueue, hnext]
        rcases hremaining with hmem | ⟨job, hjob, -⟩
        · exact .inl (.inl hmem)
        · rw [hpc] at hjob
          cases hjob
    | take job hqueue hpc hnext hunfinished =>
        rw [hnext]
        rcases hremaining with ⟨job', hmem, hk⟩ | ⟨job', hjob, -⟩
        · rw [hqueue] at hmem
          rcases List.mem_cons.mp hmem with rfl | hrest
          · exact .inl (.inr ⟨job', rfl, hk⟩)
          · exact .inl (.inl ⟨job', hrest, hk⟩)
        · rw [hpc] at hjob
          cases hjob
    | leave job hqueue hpc hnext hunfinished hexit =>
        rw [hqueue]
        rcases hremaining with hmem | ⟨job', hjob, hk⟩
        · exact .inl (.inl hmem)
        · obtain rfl := Option.some.inj (hpc.symm.trans hjob)
          exact .inr (published_kept hs honce hsaved hstep
            (published_of_exit hs honce hsaved hcond hexit hpc hk))
  · exact .inr (published_kept hs honce hsaved hstep hpub)

theorem Settled.step (hs : Durable cfg found s) (honce : Once s)
    (hsaved : (k, data) ∈ s.saves) {e : CkptEvent} (hcond : Completes s e)
    (h : Settled cfg s k data) (hstep : step cfg s e = some t) :
    Settled cfg t k data ∧ (k, data) ∈ t.saves := by
  cases e with
  | save j partialData d =>
      obtain ⟨-, rfl⟩ := by simpa [CheckpointManager.step] using hstep
      exact ⟨h, hsaved⟩
  | saver =>
      have hframe := saverStep_frame hstep
      obtain ⟨jobs, hqueue, -⟩ := hframe.queue
      refine ⟨?_, hframe.saves.subset hsaved⟩
      unfold Settled Remaining at *
      rw [hqueue, hframe.worker, hframe.lustre]
      rcases h with (⟨job, hmem, hk⟩ | hrunning) | hpub
      · exact .inl (.inl ⟨job, List.mem_append_left _ hmem, hk⟩)
      · exact .inl (.inr hrunning)
      · exact .inr hpub
  | worker i =>
      refine ⟨h.worker hs honce hsaved hcond hstep, ?_⟩
      rw [(workerStep_frame hstep).2.1]
      exact hsaved
  | shutdown =>
      obtain rfl := by simpa [CheckpointManager.step] using hstep
      exact ⟨h, hsaved⟩

end Settled

/-- What the runs of the wait keep: the durability invariant, one save a step,
and the count of the queue. -/
structure Ledger (cfg : CkptConfig) (found : Dir) (s : CkptState) : Prop
    extends Staged cfg found s where
  counted : Counted s

theorem Ledger.step {e : CkptEvent} (h : Ledger cfg found s)
    (hcond : Completes s e) (hstep : step cfg s e = some t) :
    Ledger cfg found t where
  toStaged := h.toStaged.step hcond.distinct (fun he => by subst he; exact hcond) hstep
  counted := h.counted.step hstep

/-- A checkpoint that has been put into the queue, and what is kept of it. -/
structure Awaited (cfg : CkptConfig) (found : Dir) (k : Int) (data : Bytes)
    (s : CkptState) : Prop extends Ledger cfg found s where
  settled : Settled cfg s k data
  saved : (k, data) ∈ s.saves

theorem Awaited.step {k : Int} {data : Bytes} {e : CkptEvent}
    (h : Awaited cfg found k data s) (hcond : Completes s e)
    (hstep : step cfg s e = some t) : Awaited cfg found k data t := by
  obtain ⟨hsettled, hsaved⟩ :=
    h.settled.step h.durable h.once h.saved hcond hstep
  exact ⟨h.toLedger.step hcond hstep, hsettled, hsaved⟩

/-- **Waiting for the flushes means flushed**, in runs whose flushes are left
after their rename only: a checkpoint whose job was in the queue at some state
of the run is complete at its final remote path in every later state in which
the wait can return. -/
theorem flushed_when_wait_returns {localDir lustreDir : Dir} {k : Int}
    {data : Bytes} {job : FlushJob}
    (hrun : Runs.Reach (step cfg) Completes (init cfg localDir lustreDir) s)
    (hsaved : (k, data) ∈ s.saves) (hqueued : job ∈ s.queue)
    (hk : job.step = k) (hwait : Runs.Reach (step cfg) Completes s t)
    (hreturns : t.unfinished = 0) :
    t.lustreDir (ckptName cfg.rank k) = some data := by
  have hstart : Ledger cfg lustreDir s :=
    hrun.invariant ⟨staged_init, rfl⟩ fun _ _ _ => Ledger.step
  have hend : Awaited cfg lustreDir k data t :=
    hwait.invariant ⟨hstart, .inl (.inl ⟨job, hqueued, hk⟩), hsaved⟩
      fun _ _ _ => Awaited.step
  obtain ⟨hempty, hidle⟩ := hend.counted.joined hreturns
  have hsettled := hend.settled
  rcases hsettled with (⟨job', hmem, -⟩ | ⟨job', hrunning, -⟩) | hpub
  · rw [hempty] at hmem
    cases hmem
  · rw [hidle] at hrunning
    cases hrunning
  · exact hpub

instance Completes.decidable (s : CkptState) : ∀ e, Decidable (Completes s e)
  | .save k _ _ => inferInstanceAs (Decidable (k ∉ s.begun))
  | .worker .next => inferInstanceAs (Decidable (ReadsToEnd s))
  | .worker (.fail _) | .worker (.gate false) =>
      inferInstanceAs (Decidable (_ = _))
  | .saver | .shutdown | .worker (.target _) | .worker (.rate _ _)
  | .worker (.gate true) | .worker (.raw _) => isTrue trivial

/-- The queued job's flush fails with its files open, and the worker marks the
job done. -/
def failedEvents : List CkptEvent :=
  openEvents ++ [.worker (.fail 0), .worker .next]

/-- The wait returns after the failed flush of the only job, with nothing at
the final remote path. -/
theorem wait_returns_unflushed :
    ∃ s t, Runs.Reach (step byteChunks) Distinct
        (init byteChunks (fun _ => none) (fun _ => none)) s ∧
      (7, [1, 1]) ∈ s.saves ∧ (∃ job ∈ s.queue, job.step = 7) ∧
      Runs.Reach (step byteChunks) Distinct s t ∧ t.unfinished = 0 ∧
      t.lustreDir (ckptName 0 7) = none := by
  obtain ⟨s, hs, hsaved, hqueued, hmeets, hend⟩ : ∃ s,
      Runs.Reach (step byteChunks) Distinct
        (init byteChunks (fun _ => none) (fun _ => none)) s ∧
      (7, [1, 1]) ∈ s.saves ∧ (∃ job ∈ s.queue, job.step = 7) ∧
      Runs.Meets (step byteChunks) Distinct s failedEvents ∧
      ∃ t ∈ Runs.exec (step byteChunks) s failedEvents,
        t.unfinished = 0 ∧ t.lustreDir (ckptName 0 7) = none :=
    Runs.Reach.exists_of_exec (saveEvents 7 [1, 1]) (by decide +kernel)
      (by decide +kernel)
  obtain ⟨t, ht, hunflushed⟩ := Runs.Reach.exists_of_exec _ hmeets hend
  exact ⟨s, t, hs, hsaved, hqueued, ht, hunflushed⟩

/-- Two bytes are queued and then flushed in two chunks. -/
theorem flushed_when_wait_returns_two_bytes :
    ∃ t, Runs.Reach (step byteChunks) Completes
        (init byteChunks (fun _ => none) (fun _ => none)) t ∧
      t.lustreDir (ckptName 0 7) = some [1, 1] := by
  obtain ⟨s, hs, hsaved, ⟨job, hqueued, hk⟩, hmeets, hend⟩ : ∃ s,
      Runs.Reach (step byteChunks) Completes
        (init byteChunks (fun _ => none) (fun _ => none)) s ∧
      (7, [1, 1]) ∈ s.saves ∧ (∃ job ∈ s.queue, job.step = 7) ∧
      Runs.Meets (step byteChunks) Completes s
        (openEvents ++ rawChunkEvents ++ chunkEvents ++ closeEvents) ∧
      ∃ t ∈ Runs.exec (step byteChunks) s
        (openEvents ++ rawChunkEvents ++ chunkEvents ++ closeEvents),
        t.unfinished = 0 :=
    Runs.Reach.exists_of_exec (saveEvents 7 [1, 1]) (by decide +kernel)
      (by decide +kernel)
  obtain ⟨t, ht, hreturns⟩ := Runs.Reach.exists_of_exec _ hmeets hend
  have hflushed := flushed_when_wait_returns hs hsaved hqueued hk
    ht hreturns
  exact ⟨t, hs.trans ht, hflushed⟩

end CheckpointManager

end Tempo
