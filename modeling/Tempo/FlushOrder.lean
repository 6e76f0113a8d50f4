import Tempo.FlushWait

/-!
# The order of the flushes

The state of the manager is followed together with the jobs that have been put into the
queue, those that have been taken from it, and those whose file has been renamed, with
what was renamed.  The training thread may also call `save_sync_lustre`, which writes a
file under its final name itself and counts it with the others.

Jobs are taken in the order in which they were put, each once, and files land in that
order too; the queue stays within `max_pending`.  Once the stop flag is set at most one
more job is taken, so the others stay in the queue (`at_most_one_after_stop`).
-/

namespace Tempo

open CheckpointManager Runs

/-- Where the training thread stands in `save_sync_lustre`. -/
inductive SyncPc
  | idle
  /-- inside `torch.save`; `replaced` if a flush has renamed its file over this one -/
  | writing (step : Int) (data : Bytes) (replaced : Bool)
  /-- before `lustre_path.stat()` -/
  | written (step : Int)
  /-- before the counters -/
  | counting (step : Int) (sizeBytes : Nat)
  deriving DecidableEq

/-- The manager with its jobs so far; `synced` are the saves of `save_sync_lustre`, with
the sizes it has found. -/
structure FlushHistory where
  ckpt : CkptState
  sync : SyncPc := .idle
  queued : List FlushJob := []
  taken : List FlushJob := []
  landed : List (FlushJob × Bytes) := []
  synced : List (Int × Nat) := []

inductive FlushEvent
  /-- a step of the manager -/
  | ckpt (e : CkptEvent)
  /-- call `save_sync_lustre`: `torch.save` opens the file, leaving `partialData` in it -/
  | saveSync (step : Int) (partialData data : Bytes)
  /-- its next statement -/
  | sync
  /-- `torch.save` or `stat` raises -/
  | raise

/-- Files have been renamed to their final names. -/
def SyncPc.after (cfg : CkptConfig) (renamed : List (FlushJob × Bytes)) : SyncPc → SyncPc
  | .writing k data replaced =>
      .writing k data
        (replaced || renamed.any fun r => r.1.remoteName = ckptName cfg.rank k)
  | pc => pc

/-- The bytes of a saved file that `_bytes_lustre` is still to be raised by. -/
def SyncPc.unaccounted? : SyncPc → Option Nat
  | .counting _ size => some size
  | _ => none

namespace FlushHistory

/-- The job taken whose file has not been renamed. -/
def unlanded? (w : FlushPc) : Option FlushJob :=
  if w.published then none else w.job?

/-- What `put_nowait` puts. -/
def puts (cfg : CkptConfig) (s : CkptState) : CkptEvent → List FlushJob
  | .saver =>
      match s.saver with
      | .enqueuing step _ size =>
          if queueFull cfg s.queue then [] else [flushJob cfg step size]
      | _ => []
  | _ => []

/-- What `get` takes. -/
def gets (s : CkptState) : CkptEvent → List FlushJob
  | .worker .next =>
      match s.worker with
      | .get => s.queue.head?.toList
      | _ => []
  | _ => []

/-- What a rename puts under the final name. -/
def renames (s : CkptState) : CkptEvent → List (FlushJob × Bytes)
  | .worker .next =>
      match s.worker with
      | .rename job _ => (s.lustreDir (tmpName job.remoteName)).toList.map (job, ·)
      | _ => []
  | _ => []

theorem gets_of_ne {i : FlushInput} (hpc : s.worker ≠ .get) : gets s (.worker i) = [] := by
  unfold gets
  split
  · split
    · next hget => exact absurd hget hpc
    · rfl
  · rfl

theorem renames_of_ne {i : FlushInput} (hpc : ∀ job off, s.worker ≠ .rename job off) :
    renames s (.worker i) = [] := by
  unfold renames
  split
  · split
    · next hrename => exact absurd hrename (hpc _ _)
    · rfl
  · rfl

def init (cfg : CkptConfig) (localDir lustreDir : Dir) : FlushHistory :=
  { ckpt := CheckpointManager.init cfg localDir lustreDir }

/-- A step of the manager, with what it adds to the histories. -/
def ckptStep (cfg : CkptConfig) (h : FlushHistory) (e : CkptEvent) : Option FlushHistory :=
  (CheckpointManager.step cfg h.ckpt e).map fun ckpt =>
    { h with
      ckpt
      sync := h.sync.after cfg (renames h.ckpt e)
      queued := h.queued ++ puts cfg h.ckpt e
      taken := h.taken ++ gets h.ckpt e
      landed := h.landed ++ renames h.ckpt e }

/-- The next statement of `save_sync_lustre`. -/
def syncStep (cfg : CkptConfig) (h : FlushHistory) : Option FlushHistory :=
  match h.sync with
  | .idle => none
  | .writing k data replaced =>
      some { h with
        ckpt :=
          if replaced then h.ckpt
          else
            { h.ckpt with
              lustreDir :=
                Function.update h.ckpt.lustreDir (ckptName cfg.rank k) (some data) }
        sync := .written k }
  | .written k =>
      match h.ckpt.lustreDir (ckptName cfg.rank k) with
      | none => some { h with sync := .idle }
      | some content =>
          some { h with
            sync := .counting k content.length
            synced := h.synced ++ [(k, content.length)] }
  | .counting _ size =>
      some { h with
        ckpt :=
          { h.ckpt with
            bytesLustre := h.ckpt.bytesLustre + size
            flushCount := h.ckpt.flushCount + 1 }
        sync := .idle }

def step (cfg : CkptConfig) (h : FlushHistory) : FlushEvent → Option FlushHistory
  -- the training thread is in one call at a time
  | .ckpt (.save k partialData data) =>
      if h.sync = .idle then h.ckptStep cfg (.save k partialData data) else none
  | .ckpt e => h.ckptStep cfg e
  | .saveSync k partialData data =>
      if cfg.hasLustre = true ∧ h.ckpt.saver = .idle ∧ h.sync = .idle then
        some { h with
          ckpt :=
            { h.ckpt with
              lustreDir := Function.update h.ckpt.lustreDir (ckptName cfg.rank k)
                (some partialData) }
          sync := .writing k data false }
      else none
  | .sync => h.syncStep cfg
  | .raise =>
      match h.sync with
      | .writing _ _ _ | .written _ => some { h with sync := .idle }
      | _ => none

variable {cfg : CkptConfig} {s t : CkptState} {h h' : FlushHistory} {e : FlushEvent}

theorem ckptStep_of_step {e : CkptEvent} (hstep : step cfg h (.ckpt e) = some h') :
    h.ckptStep cfg e = some h' := by
  cases e with
  | save k partialData data => exact (Option.ite_none_right_eq_some.mp hstep).2
  | _ => exact hstep

/-- What `save_sync_lustre` leaves of the manager. -/
structure SyncFrame (h h' : FlushHistory) : Prop where
  queue : h'.ckpt.queue = h.ckpt.queue
  worker : h'.ckpt.worker = h.ckpt.worker
  stop : h'.ckpt.stop = h.ckpt.stop
  queued : h'.queued = h.queued
  taken : h'.taken = h.taken
  landed : h'.landed = h.landed
  temporary : ∀ name, h'.ckpt.lustreDir (tmpName name) = h.ckpt.lustreDir (tmpName name)

theorem syncFrame_of_step (he : ∀ e', e ≠ .ckpt e') (hstep : step cfg h e = some h') :
    SyncFrame h h' := by
  have hkept : ∀ k data name, Function.update h.ckpt.lustreDir (ckptName cfg.rank k)
      (some data) (tmpName name) = h.ckpt.lustreDir (tmpName name) := fun k data name =>
    Function.update_of_ne (tmpName_ne_ckptName name cfg.rank k) _ _
  cases e with
  | ckpt e' => exact absurd rfl (he e')
  | saveSync k partialData data =>
      obtain ⟨-, hstep⟩ := Option.ite_none_right_eq_some.mp hstep
      obtain rfl := Option.some.inj hstep
      exact ⟨rfl, rfl, rfl, rfl, rfl, rfl, hkept k _⟩
  | sync =>
      change h.syncStep cfg = some h' at hstep
      unfold syncStep at hstep
      split at hstep
      · cases hstep
      · next k data replaced _ =>
          obtain rfl := Option.some.inj hstep
          cases replaced with
          | true => exact ⟨rfl, rfl, rfl, rfl, rfl, rfl, fun _ => rfl⟩
          | false => exact ⟨rfl, rfl, rfl, rfl, rfl, rfl, hkept k _⟩
      · split at hstep
        · obtain rfl := Option.some.inj hstep
          exact ⟨rfl, rfl, rfl, rfl, rfl, rfl, fun _ => rfl⟩
        · obtain rfl := Option.some.inj hstep
          exact ⟨rfl, rfl, rfl, rfl, rfl, rfl, fun _ => rfl⟩
      · obtain rfl := Option.some.inj hstep
        exact ⟨rfl, rfl, rfl, rfl, rfl, rfl, fun _ => rfl⟩
  | raise =>
      simp only [step] at hstep
      split at hstep
      · obtain rfl := Option.some.inj hstep
        exact ⟨rfl, rfl, rfl, rfl, rfl, rfl, fun _ => rfl⟩
      · obtain rfl := Option.some.inj hstep
        exact ⟨rfl, rfl, rfl, rfl, rfl, rfl, fun _ => rfl⟩
      · cases hstep

/-! ## What a step does to the jobs -/

theorem puts_spec (hstep : saverStep cfg s = some t) :
    t.queue = s.queue ++ puts cfg s .saver ∧ t.worker = s.worker ∧
      (0 < cfg.maxPending → (s.queue.length : Int) ≤ cfg.maxPending →
        (t.queue.length : Int) ≤ cfg.maxPending) := by
  cases hpc : s.saver with
  | idle => simp [saverStep, hpc] at hstep
  | writing k data =>
      obtain rfl := by simpa [saverStep, hpc] using hstep
      simp [puts, hpc]
  | written k data =>
      cases hfile : s.localDir (ckptName cfg.rank k) <;>
        obtain rfl := by simpa [saverStep, hpc, hfile] using hstep
      · simp [puts, hpc]
      · simp [puts, hpc]
  | enqueuing k data size =>
      by_cases hfull : queueFull cfg s.queue = true
      · obtain rfl := by simpa [saverStep, hpc, hfull] using hstep
        simp [puts, hpc, hfull]
      · obtain rfl := by simpa [saverStep, hpc, hfull] using hstep
        refine ⟨by simp [puts, hpc, hfull], rfl, fun hbounded _ => ?_⟩
        simp only [queueFull, decide_eq_true_eq, not_and, not_le] at hfull
        have hroom := hfull hbounded
        simp only [List.length_append, List.length_singleton]
        omega
  | counting k data size | returning k data =>
      obtain rfl := by simpa [saverStep, hpc] using hstep
      simp [puts, hpc]

theorem gets_spec {i : FlushInput} (hstep : workerStep cfg s i = some t) :
    s.queue = gets s (.worker i) ++ t.queue := by
  cases flushStep_of_step hstep with
  | empty hpc hqueue | take hpc hqueue => simp [gets, hpc, hqueue]
  | read hpc hi =>
      obtain ⟨worker, hmoves, -⟩ := afterRead_moves s _ _ _
      rw [hmoves, gets_of_ne (by simp [hpc])]
      rfl
  | fail _ _ | failWrite hpc => rfl
  | _ hpc => simp [gets, hpc]

/-- What a statement of the flush thread does to the job that it has not landed. -/
inductive Handles (s t : CkptState) (e : CkptEvent) : Prop
  | keep (hgets : gets s e = []) (hrenames : renames s e = [])
      (hjob : unlanded? t.worker = unlanded? s.worker ∨ unlanded? t.worker = none)
  | take (job : FlushJob) (hgets : gets s e = [job]) (hrenames : renames s e = [])
      (hbefore : unlanded? s.worker = none) (hafter : unlanded? t.worker = some job)
  | land (job : FlushJob) (data : Bytes) (hgets : gets s e = [])
      (hrenames : renames s e = [(job, data)]) (hbefore : unlanded? s.worker = some job)
      (hafter : unlanded? t.worker = none)

theorem handles_of_step {i : FlushInput} (hstep : workerStep cfg s i = some t) :
    Handles s t (.worker i) := by
  cases flushStep_of_step hstep with
  | take hpc hqueue =>
      exact .take _ (by simp [gets, hpc, hqueue]) (by simp [renames, hpc])
        (by rw [hpc]; rfl) rfl
  | @rename job off data hpc htmp =>
      exact .land job data (by simp [gets, hpc]) (by simp [renames, hpc, htmp])
        (by rw [hpc]; rfl) rfl
  | empty hpc hqueue =>
      exact .keep (by simp [gets, hpc, hqueue]) (by simp [renames, hpc]) (.inr rfl)
  | lost hpc htmp =>
      exact .keep (by simp [gets, hpc]) (by simp [renames, hpc, htmp]) (.inr rfl)
  | read hpc hi =>
      obtain ⟨worker, hmoves, hworker⟩ := afterRead_moves s _ _ _
      refine .keep (gets_of_ne (by simp [hpc])) (renames_of_ne (by simp [hpc])) ?_
      rw [hmoves, hpc]
      obtain rfl | rfl | ⟨chunk, rfl⟩ := hworker <;> exact .inl rfl
  | fail _ _ | failWrite hpc => exact .keep rfl rfl (.inr rfl)
  | missing hpc _ | vanished hpc _ | givesUp hpc _ | taskDone hpc | unlink hpc =>
      exact .keep (by simp [gets, hpc]) (by simp [renames, hpc]) (.inr rfl)
  | _ hpc =>
      exact .keep (by simp [gets, hpc]) (by simp [renames, hpc])
        (.inl (by simp [hpc, unlanded?, FlushPc.published, FlushPc.job?]))

/-! ## The order -/

/-- Jobs are taken in the order of the queue, and land in that order too. -/
structure InOrder (cfg : CkptConfig) (h : FlushHistory) : Prop where
  fifo : h.queued = h.taken ++ h.ckpt.queue
  bound : 0 < cfg.maxPending → (h.ckpt.queue.length : Int) ≤ cfg.maxPending
  landed : ∃ earlier, h.taken = earlier ++ (unlanded? h.ckpt.worker).toList ∧
    List.Sublist (h.landed.map Prod.fst) earlier

theorem inOrder_init (localDir lustreDir : Dir) : InOrder cfg (init cfg localDir lustreDir) where
  fifo := rfl
  bound := fun hbounded => by
    simp only [init, CheckpointManager.init, List.length_nil]
    omega
  landed := ⟨[], rfl, List.Sublist.slnil⟩

theorem InOrder.worker (h₀ : InOrder cfg h) {i : FlushInput} {sync : SyncPc}
    (hstep : workerStep cfg h.ckpt i = some t) :
    InOrder cfg
      { h with
        ckpt := t
        sync
        queued := h.queued
        taken := h.taken ++ gets h.ckpt (.worker i)
        landed := h.landed ++ renames h.ckpt (.worker i) } := by
  have hqueue := gets_spec hstep
  obtain ⟨earlier, htaken, hsub⟩ := h₀.landed
  refine ⟨?_, fun hbounded => ?_, ?_⟩
  · rw [h₀.fifo, hqueue, List.append_assoc]
  · have hlength := congrArg List.length hqueue
    rw [List.length_append] at hlength
    have hbound := h₀.bound hbounded
    dsimp only
    omega
  · dsimp only
    cases handles_of_step hstep with
    | keep hgets hrenames hjob =>
        rw [hgets, hrenames, List.append_nil, List.append_nil]
        rcases hjob with hsame | hgone
        · rw [hsame]
          exact ⟨earlier, htaken, hsub⟩
        · rw [hgone]
          exact ⟨h.taken, (List.append_nil _).symm,
            hsub.trans (htaken ▸ List.sublist_append_left _ _)⟩
    | take job hgets hrenames hbefore hafter =>
        rw [hgets, hrenames, hafter, List.append_nil]
        refine ⟨h.taken, rfl, hsub.trans ?_⟩
        rw [htaken]
        exact List.sublist_append_left _ _
    | land job data hgets hrenames hbefore hafter =>
        rw [hgets, hrenames, hafter, List.append_nil, List.map_append]
        rw [hbefore] at htaken
        exact ⟨h.taken, (List.append_nil _).symm,
          htaken ▸ hsub.append (List.Sublist.refl [job])⟩

/-- A step that neither thread makes. -/
theorem InOrder.idle (h₀ : InOrder cfg h) (hqueued : h'.queued = h.queued)
    (htaken : h'.taken = h.taken) (hlanded : h'.landed = h.landed)
    (hqueue : h'.ckpt.queue = h.ckpt.queue) (hworker : h'.ckpt.worker = h.ckpt.worker) :
    InOrder cfg h' where
  fifo := by rw [hqueued, htaken, hqueue, h₀.fifo]
  bound := by
    rw [hqueue]
    exact h₀.bound
  landed := by
    rw [htaken, hlanded, hworker]
    exact h₀.landed

theorem InOrder.ckpt (h₀ : InOrder cfg h) {e : CkptEvent}
    (hstep : h.ckptStep cfg e = some h') : InOrder cfg h' := by
  obtain ⟨t, ht, rfl⟩ := Option.map_eq_some_iff.mp hstep
  cases e with
  | worker i =>
      have hputs : puts cfg h.ckpt (.worker i) = [] := rfl
      rw [hputs, List.append_nil]
      exact h₀.worker ht
  | saver =>
      obtain ⟨hqueue, hworker, hbound⟩ := puts_spec ht
      refine ⟨?_, fun hbounded => hbound hbounded (h₀.bound hbounded), ?_⟩
      · dsimp only
        rw [h₀.fifo, hqueue, List.append_assoc]
        simp [gets]
      · simpa [gets, renames, hworker] using h₀.landed
  | save k partialData data =>
      obtain ⟨-, rfl⟩ := by simpa [CheckpointManager.step] using ht
      exact h₀.idle (List.append_nil _) (List.append_nil _) (List.append_nil _) rfl rfl
  | shutdown =>
      obtain rfl := by simpa [CheckpointManager.step] using ht
      exact h₀.idle (List.append_nil _) (List.append_nil _) (List.append_nil _) rfl rfl

theorem InOrder.step (h₀ : InOrder cfg h) (hstep : step cfg h e = some h') :
    InOrder cfg h' := by
  by_cases he : ∃ e', e = .ckpt e'
  · obtain ⟨e', rfl⟩ := he
    exact h₀.ckpt (ckptStep_of_step hstep)
  · have hframe := syncFrame_of_step (not_exists.mp he) hstep
    exact h₀.idle hframe.queued hframe.taken hframe.landed hframe.queue hframe.worker

/-- **Checkpoints are flushed in the order in which they were saved.**  In every state
of every run the jobs taken and those in the queue are the jobs that were put, in their
order, the files that have landed are in that order too, each of them once, and the
queue is within its bound. -/
theorem flushed_in_order (cfg : CkptConfig) (localDir lustreDir : Dir)
    {h : FlushHistory} (hreach : Reachable (step cfg) (init cfg localDir lustreDir) h) :
    h.queued = h.taken ++ h.ckpt.queue ∧
      List.Sublist (h.landed.map Prod.fst) h.taken ∧
      (0 < cfg.maxPending → (h.ckpt.queue.length : Int) ≤ cfg.maxPending) := by
  have h₀ : InOrder cfg h :=
    hreach.invariant (inOrder_init localDir lustreDir) fun _ _ _ hh _ hstep => hh.step hstep
  obtain ⟨earlier, htaken, hsub⟩ := h₀.landed
  refine ⟨h₀.fifo, hsub.trans ?_, h₀.bound⟩
  rw [htaken]
  exact List.sublist_append_left _ _

/-- Two checkpoints are saved and the first of them is flushed. -/
theorem flushed_in_order_two :
    ∃ h : FlushHistory, h.landed.map (fun r => r.1.step) = [1] ∧
      h.queued = h.taken ++ h.ckpt.queue ∧
      List.Sublist (h.landed.map Prod.fst) h.taken ∧
      (h.ckpt.queue.length : Int) ≤ 3 := by
  obtain ⟨h, hreach, hlanded⟩ : ∃ h, Reachable (step byteChunks)
      (init byteChunks (fun _ => none) fun _ => none) h ∧
      h.landed.map (fun r => r.1.step) = [1] :=
    Reachable.exists_of_exec ((saveEvents 1 [7] ++ saveEvents 2 [8] ++ openEvents ++
      rawChunkEvents ++ closeEvents).map .ckpt) (by decide +kernel)
  obtain ⟨hfifo, hsub, hbound⟩ := flushed_in_order byteChunks _ _ hreach
  exact ⟨h, hlanded, hfifo, hsub, hbound (by decide)⟩

/-! ## The stop flag -/

/-- The thread is past its look at the flag, and about to take a job. -/
def taking (w : FlushPc) : Nat :=
  if w = .get then 1 else 0

/-- What has happened since the flag was set. -/
structure Since (s t : FlushHistory) : Prop where
  stop : t.ckpt.stop = true
  queued : s.queued <+: t.queued
  taken : s.taken <+: t.taken
  few : t.taken.length + taking t.ckpt.worker ≤ s.taken.length + taking s.ckpt.worker

/-- With the flag set a statement of the thread does not lead to taking a job, and one
that takes a job leaves that place. -/
theorem taking_step {i : FlushInput} (hstop : s.stop = true)
    (hstep : workerStep cfg s i = some t) :
    t.stop = true ∧ (gets s (.worker i)).length + taking t.worker ≤ taking s.worker := by
  cases flushStep_of_step hstep with
  | poll hpc hgoing => exact absurd (hstop.symm.trans hgoing) (by decide)
  | empty hpc hqueue | take hpc hqueue => exact ⟨hstop, by simp [gets, hpc, hqueue, taking]⟩
  | read hpc hi =>
      obtain ⟨worker, hmoves, hworker⟩ := afterRead_moves s _ _ _
      rw [hmoves, gets_of_ne (by simp [hpc])]
      refine ⟨hstop, ?_⟩
      obtain rfl | rfl | ⟨chunk, rfl⟩ := hworker <;> simp [taking]
  | fail _ _ | failWrite hpc => exact ⟨hstop, by simp [gets, taking]⟩
  | _ hpc => exact ⟨hstop, by simp [gets, hpc, taking]⟩

theorem Since.ckpt {h₀ : FlushHistory} {e : CkptEvent} (hh : Since h₀ h)
    (hstep : h.ckptStep cfg e = some h') : Since h₀ h' := by
  obtain ⟨t, ht, rfl⟩ := Option.map_eq_some_iff.mp hstep
  have hqueued := hh.queued.trans (List.prefix_append h.queued (puts cfg h.ckpt e))
  have htaken := hh.taken.trans (List.prefix_append h.taken (gets h.ckpt e))
  have hfew := hh.few
  cases e with
  | worker i =>
      obtain ⟨hstop, hless⟩ := taking_step hh.stop ht
      refine ⟨hstop, hqueued, htaken, ?_⟩
      dsimp only
      rw [List.length_append]
      omega
  | saver =>
      have hframe := saverStep_frame ht
      have hstop : t.stop = h.ckpt.stop := by
        cases hpc : h.ckpt.saver <;>
          simp only [CheckpointManager.step, saverStep, hpc] at ht <;>
          (try split at ht) <;>
          first
          | contradiction
          | (obtain rfl := Option.some.inj ht; rfl)
      refine ⟨hstop.trans hh.stop, hqueued, htaken, ?_⟩
      rw [List.length_append, hframe.worker]
      exact hfew
  | save k partialData data =>
      obtain ⟨-, rfl⟩ := by simpa [CheckpointManager.step] using ht
      exact ⟨hh.stop, hqueued, htaken, by rw [List.length_append]; exact hfew⟩
  | shutdown =>
      obtain rfl := by simpa [CheckpointManager.step] using ht
      exact ⟨rfl, hqueued, htaken, by rw [List.length_append]; exact hfew⟩

theorem Since.step {h₀ : FlushHistory} (hh : Since h₀ h) (hstep : step cfg h e = some h') :
    Since h₀ h' := by
  by_cases he : ∃ e', e = .ckpt e'
  · obtain ⟨e', rfl⟩ := he
    exact hh.ckpt (ckptStep_of_step hstep)
  · have hframe := syncFrame_of_step (not_exists.mp he) hstep
    exact
      { stop := hframe.stop.trans hh.stop
        queued := hframe.queued ▸ hh.queued
        taken := hframe.taken ▸ hh.taken
        few := by
          rw [hframe.taken, hframe.worker]
          exact hh.few }

/-- **A shutdown flushes at most one more checkpoint.**  Of the jobs in the queue when
the flag is set only the first may still be taken, and none unless the thread is just
about to; the others are in the queue ever after. -/
theorem at_most_one_after_stop (cfg : CkptConfig) (localDir lustreDir : Dir)
    {h h' : FlushHistory} (hreach : Reachable (step cfg) (init cfg localDir lustreDir) h)
    (hstop : h.ckpt.stop = true) (hlater : Reachable (step cfg) h h') :
    h'.taken.length ≤ h.taken.length + taking h.ckpt.worker ∧
      List.Sublist (h.ckpt.queue.drop (taking h.ckpt.worker)) h'.ckpt.queue := by
  have hinv : ∀ u, Reachable (step cfg) (init cfg localDir lustreDir) u → InOrder cfg u :=
    fun u hu =>
      hu.invariant (inOrder_init localDir lustreDir) fun _ _ _ hh _ hstep => hh.step hstep
  have hsince : Since h h' :=
    hlater.invariant ⟨hstop, List.prefix_rfl, List.prefix_rfl, le_rfl⟩
      fun _ _ _ hh _ hstep => hh.step hstep
  have hfew : h'.taken.length ≤ h.taken.length + taking h.ckpt.worker := by
    have := hsince.few
    omega
  refine ⟨hfew, ?_⟩
  obtain ⟨more, hmore⟩ := hsince.queued
  obtain ⟨later, htaken⟩ := hsince.taken
  rw [(hinv h hreach).fifo, (hinv h' (hreach.trans hlater)).fifo, ← htaken,
    List.append_assoc, List.append_assoc, List.append_cancel_left_eq] at hmore
  have hshort : later.length ≤ taking h.ckpt.worker := by
    rw [← htaken, List.length_append] at hfew
    omega
  have hrest : h'.ckpt.queue = (h.ckpt.queue ++ more).drop later.length := by
    rw [hmore, List.drop_left]
  rw [hrest]
  calc List.Sublist (h.ckpt.queue.drop (taking h.ckpt.worker))
        (h.ckpt.queue.drop later.length) := List.drop_sublist_drop_left _ hshort
    List.Sublist _ ((h.ckpt.queue ++ more).drop later.length) :=
        (List.sublist_append_left _ _).drop _

/-- Two checkpoints are queued when the flag is set, and the thread takes the first. -/
theorem at_most_one_after_stop_two :
    ∃ h h' : FlushHistory, h.ckpt.queue.length = 2 ∧
      h'.taken.length ≤ h.taken.length + 1 ∧
      List.Sublist (h.ckpt.queue.drop 1) h'.ckpt.queue := by
  obtain ⟨h, hreach, hstop, htaking, hqueue⟩ : ∃ h, Reachable (step byteChunks)
      (init byteChunks (fun _ => none) fun _ => none) h ∧ h.ckpt.stop = true ∧
      taking h.ckpt.worker = 1 ∧ h.ckpt.queue.length = 2 :=
    Reachable.exists_of_exec ((saveEvents 1 [7] ++ saveEvents 2 [8] ++
      [CkptEvent.worker .next, .shutdown]).map .ckpt) (by decide +kernel)
  obtain ⟨hfew, hsub⟩ := at_most_one_after_stop byteChunks _ _ hreach hstop .refl
  rw [htaking] at hfew hsub
  exact ⟨h, h, hqueue, hfew, hsub⟩

/-! ## The statistics -/

/-- The job whose temporary file is being written, and how much of it is. -/
def copied? : FlushPc → Option (FlushJob × Nat)
  | .resize job off | .pace job off | .gate job off | .recompute job off | .read job off
  | .write job off _ | .rename job off => some (job, off)
  | _ => none

/-- The bytes of a renamed file that are still to be counted. -/
def unaccounted? : FlushPc → Option Nat
  | .account _ off => some off
  | _ => none

/-- What both threads are still to count. -/
def uncounted (h : FlushHistory) : List Nat :=
  (unaccounted? h.ckpt.worker).toList ++ h.sync.unaccounted?.toList

/-- What has been copied is in the temporary file. -/
def Measured (s : CkptState) : Prop :=
  ∀ r ∈ copied? s.worker, (content s.lustreDir (tmpName r.1.remoteName)).length = r.2

/-- The two counters of flushes, with what is still to be counted. -/
structure Counts (h : FlushHistory) : Prop where
  measured : Measured h.ckpt
  flushes : h.ckpt.flushCount + h.uncounted.length = h.landed.length + h.synced.length
  bytes : h.ckpt.bytesLustre + h.uncounted.sum =
    (h.landed.map fun r => r.2.length).sum + (h.synced.map Prod.snd).sum

/-- No exception between the rename and the counters. -/
def Counting (h : FlushHistory) : FlushEvent → Prop
  | .ckpt (.worker (.fail _)) => unaccounted? h.ckpt.worker = none
  | _ => True

instance Counting.decidable (h : FlushHistory) : ∀ e, Decidable (Counting h e)
  | .ckpt (.worker (.fail _)) => inferInstanceAs (Decidable (_ = _))
  | .ckpt (.worker .next) | .ckpt (.worker (.target _)) | .ckpt (.worker (.rate _ _))
  | .ckpt (.worker (.gate _)) | .ckpt (.worker (.raw _)) | .ckpt (.save _ _ _)
  | .ckpt .saver | .ckpt .shutdown | .saveSync _ _ _ | .sync | .raise => isTrue trivial

theorem measured_step {i : FlushInput} (hs : Measured s)
    (hstep : workerStep cfg s i = some t) : Measured t := by
  unfold Measured at *
  cases flushStep_of_step hstep with
  | openTmp hpc => simp [copied?, content]
  | write hpc =>
      have hlength := hs (_, _) (by rw [hpc]; rfl)
      simpa [copied?, content] using hlength
  | read hpc hi =>
      have hlength := hs (_, _) (by rw [hpc]; rfl)
      obtain ⟨worker, hmoves, hworker⟩ := afterRead_moves s _ _ _
      rw [hmoves]
      obtain rfl | rfl | ⟨chunk, rfl⟩ := hworker <;> simpa [copied?] using hlength
  | resize hpc | unpaced hpc _ | blocked hpc _ _ | granted hpc _ _ | passes hpc
  | waits hpc _ | recompute hpc =>
      have hlength := hs (_, _) (by rw [hpc]; rfl)
      simpa [copied?] using hlength
  | _ => simp [copied?]

/-- Where neither counter and no final file is touched. -/
theorem Counts.stay (hh : Counts h) (hmeasured : Measured h'.ckpt)
    (hlanded : h'.landed = h.landed) (hsynced : h'.synced = h.synced)
    (hflushes : h'.ckpt.flushCount = h.ckpt.flushCount)
    (hbytes : h'.ckpt.bytesLustre = h.ckpt.bytesLustre)
    (huncounted : h'.uncounted = h.uncounted) : Counts h' where
  measured := hmeasured
  flushes := by rw [hflushes, huncounted, hlanded, hsynced, hh.flushes]
  bytes := by rw [hbytes, huncounted, hlanded, hsynced, hh.bytes]

@[simp]
theorem unaccounted_after (renamed : List (FlushJob × Bytes)) (pc : SyncPc) :
    (pc.after cfg renamed).unaccounted? = pc.unaccounted? := by
  cases pc <;> rfl

theorem Counts.worker (hh : Counts h) {i : FlushInput} (hcond : Counting h (.ckpt (.worker i)))
    (hstep : h.ckptStep cfg (.worker i) = some h') : Counts h' := by
  obtain ⟨t, ht, rfl⟩ := Option.map_eq_some_iff.mp hstep
  replace hstep : workerStep cfg h.ckpt i = some t := ht
  have hmeasured := measured_step hh.measured hstep
  have hflushes := hh.flushes
  have hbytes := hh.bytes
  cases flushStep_of_step hstep with
  | lost hpc htmp =>
      exact hh.stay hmeasured (by simp [renames, hpc, htmp]) rfl rfl rfl
        (by simp [uncounted, hpc, unaccounted?])
  | @rename job off data hpc htmp =>
      have hlength : data.length = off := by
        simpa [content, htmp] using hh.measured (job, off) (by rw [hpc]; rfl)
      simp only [uncounted, hpc, unaccounted?, Option.toList_none,
        List.nil_append] at hflushes hbytes
      refine ⟨hmeasured, ?_, ?_⟩
      · simp [renames, hpc, htmp, uncounted, unaccounted?]
        omega
      · simp [renames, hpc, htmp, uncounted, unaccounted?, hlength]
        omega
  | account hpc =>
      simp only [uncounted, hpc, unaccounted?, Option.toList_some, List.singleton_append,
        List.length_cons, List.sum_cons] at hflushes hbytes
      refine ⟨hmeasured, ?_, ?_⟩
      · simp [renames, hpc, uncounted, unaccounted?]
        omega
      · simp [renames, hpc, uncounted, unaccounted?]
        omega
  | read hpc hi =>
      have hnone : renames h.ckpt (.worker i) = [] := renames_of_ne (by simp [hpc])
      obtain ⟨worker, hmoves, hworker⟩ := afterRead_moves h.ckpt _ _ _
      rw [hmoves] at hmeasured ⊢
      refine hh.stay hmeasured (by rw [hnone, List.append_nil]) rfl rfl rfl ?_
      obtain rfl | rfl | ⟨chunk, rfl⟩ := hworker <;> simp [uncounted, hpc, unaccounted?]
  | failWrite hpc =>
      exact hh.stay hmeasured (List.append_nil _) rfl rfl rfl
        (by simp [uncounted, hpc, unaccounted?])
  | fail hjob hpc =>
      have hnone : unaccounted? h.ckpt.worker = none := hcond
      have hafter : unaccounted? .taskDone = none := rfl
      exact hh.stay hmeasured (List.append_nil _) rfl rfl rfl
        (by simp only [uncounted, hnone, hafter, unaccounted_after])
  | _ hpc =>
      exact hh.stay hmeasured (by simp [renames, hpc]) rfl rfl rfl
        (by simp [uncounted, hpc, unaccounted?])

theorem Counts.ckpt (hh : Counts h) {e : CkptEvent} (hcond : Counting h (.ckpt e))
    (hstep : h.ckptStep cfg e = some h') : Counts h' := by
  cases e with
  | worker i => exact hh.worker hcond hstep
  | saver =>
      obtain ⟨t, ht, rfl⟩ := Option.map_eq_some_iff.mp hstep
      have hframe := saverStep_frame ht
      have hcounters : t.flushCount = h.ckpt.flushCount ∧
          t.bytesLustre = h.ckpt.bytesLustre := by
        cases hpc : h.ckpt.saver <;>
          simp only [CheckpointManager.step, saverStep, hpc] at ht <;>
          (try split at ht) <;>
          first
          | contradiction
          | (obtain rfl := Option.some.inj ht; exact ⟨rfl, rfl⟩)
      refine hh.stay ?_ (List.append_nil _) rfl hcounters.1 hcounters.2
        (by simp [uncounted, hframe.worker])
      unfold Measured
      rw [hframe.worker, hframe.lustre]
      exact hh.measured
  | save k partialData data =>
      obtain ⟨t, ht, rfl⟩ := Option.map_eq_some_iff.mp hstep
      obtain ⟨-, rfl⟩ := by simpa [CheckpointManager.step] using ht
      exact hh.stay hh.measured (List.append_nil _) rfl rfl rfl (by simp [uncounted])
  | shutdown =>
      obtain ⟨t, ht, rfl⟩ := Option.map_eq_some_iff.mp hstep
      obtain rfl := by simpa [CheckpointManager.step] using ht
      exact hh.stay hh.measured (List.append_nil _) rfl rfl rfl (by simp [uncounted])

/-- `stat` puts the size of the file among those still to be counted, and the counters
take it from there. -/
theorem Counts.sync (hh : Counts h) (hmeasured : Measured h'.ckpt)
    (hstep : h.syncStep cfg = some h') : Counts h' := by
  have hflushes := hh.flushes
  have hbytes := hh.bytes
  cases hsync : h.sync with
  | idle => simp [syncStep, hsync] at hstep
  | writing k data replaced =>
      simp only [syncStep, hsync] at hstep
      obtain rfl := Option.some.inj hstep
      refine hh.stay hmeasured rfl rfl ?_ ?_ ?_ <;> cases replaced <;>
        simp [uncounted, hsync, SyncPc.unaccounted?]
  | written k =>
      simp only [uncounted, hsync, SyncPc.unaccounted?, Option.toList_none,
        List.append_nil] at hflushes hbytes
      cases hfile : h.ckpt.lustreDir (ckptName cfg.rank k) with
      | none =>
          obtain rfl := by simpa [syncStep, hsync, hfile] using hstep
          exact hh.stay hmeasured rfl rfl rfl rfl
            (by simp [uncounted, hsync, SyncPc.unaccounted?])
      | some content =>
          obtain rfl := by simpa [syncStep, hsync, hfile] using hstep
          refine ⟨hmeasured, ?_, ?_⟩
          · simp [uncounted, SyncPc.unaccounted?]
            omega
          · simp [uncounted, SyncPc.unaccounted?]
            omega
  | counting k size =>
      simp only [uncounted, hsync, SyncPc.unaccounted?, Option.toList_some,
        List.length_append, List.length_singleton, List.sum_append,
        List.sum_singleton] at hflushes hbytes
      obtain rfl := by simpa [syncStep, hsync] using hstep
      refine ⟨hmeasured, ?_, ?_⟩
      · simp [uncounted, SyncPc.unaccounted?]
        omega
      · simp [uncounted, SyncPc.unaccounted?]
        omega

theorem Counts.step (hh : Counts h) (hcond : Counting h e) (hstep : step cfg h e = some h') :
    Counts h' := by
  by_cases he : ∃ e', e = .ckpt e'
  · obtain ⟨e', rfl⟩ := he
    exact hh.ckpt hcond (ckptStep_of_step hstep)
  have hframe := syncFrame_of_step (not_exists.mp he) hstep
  have hmeasured : Measured h'.ckpt := by
    unfold Measured content
    simp only [hframe.worker, hframe.temporary]
    exact hh.measured
  cases e with
  | ckpt e' => exact absurd ⟨e', rfl⟩ he
  | saveSync k partialData data =>
      obtain ⟨⟨-, -, hidle⟩, hstep⟩ := Option.ite_none_right_eq_some.mp hstep
      obtain rfl := Option.some.inj hstep
      exact hh.stay hmeasured rfl rfl rfl rfl
        (by simp [uncounted, hidle, SyncPc.unaccounted?])
  | sync => exact hh.sync hmeasured hstep
  | raise =>
      simp only [FlushHistory.step] at hstep
      split at hstep
      · next hsync =>
          obtain rfl := Option.some.inj hstep
          exact hh.stay hmeasured rfl rfl rfl rfl
            (by simp [uncounted, hsync, SyncPc.unaccounted?])
      · next hsync =>
          obtain rfl := Option.some.inj hstep
          exact hh.stay hmeasured rfl rfl rfl rfl
            (by simp [uncounted, hsync, SyncPc.unaccounted?])
      · cases hstep

end FlushHistory

end Tempo
