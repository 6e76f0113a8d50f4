import Tempo.CheckpointRuns

/-!
# The pending-bytes counter

`save_async` adds a job's size to `_bytes_pending` after queueing it, and
`_do_flush` takes it off in two places: when the source file is missing and in
the statistics after the rename.  A flush that leaves by an exception before
these, or returns from its throttle wait at the stop flag, takes nothing off.
What such exits leak is the only difference between the counter and the sizes
of the jobs in the queue.
-/

namespace Tempo

namespace FlushPc

/-- The job whose size the flush has still to take off the counter. -/
def unaccounted? : FlushPc → Option FlushJob
  | .unlink _ => none
  | pc => pc.job?

end FlushPc

namespace CheckpointManager

variable {cfg : CkptConfig} {s t : CkptState}

/-- The sizes of the jobs in the queue. -/
def queuedBytes (s : CkptState) : Int := (s.queue.map (·.sizeBytes)).sum

/-- What the counter has still to lose for the flush in progress. -/
def inFlightBytes (w : FlushPc) : Int :=
  w.unaccounted?.elim 0 fun job => job.sizeBytes

/-- What the counter has still to gain for the save in progress. -/
def uncountedBytes : SaverPc → Int
  | .counting _ _ size => size
  | _ => 0

/-- The bytes by which the counter is too high. -/
def surplusBytes (s : CkptState) : Int :=
  s.bytesPending - queuedBytes s - inFlightBytes s.worker +
    uncountedBytes s.saver

/-- The bytes a step leaves on the counter for good: those of a flush that
ends by an exception before its statistics or returns at the stop flag. -/
def leakedBytes (s : CkptState) : CkptEvent → Int
  | .worker .next =>
      match s.worker with
      | .openSrc job =>
          if s.localDir job.localName = none then job.sizeBytes else 0
      | .rename job _ =>
          if s.lustreDir (tmpName job.remoteName) = none then job.sizeBytes
          else 0
      | _ => 0
  | .worker (.fail _) => inFlightBytes s.worker
  | .worker (.gate false) => if s.stop then inFlightBytes s.worker else 0
  | _ => 0

/-- A step that leaves the counter, the queue and the save alone changes the
surplus by what the flush gives up. -/
theorem surplusBytes_of_same (hsame : t.bytesPending = s.bytesPending ∧
      t.queue = s.queue ∧ t.saver = s.saver) :
    surplusBytes t =
      surplusBytes s + (inFlightBytes s.worker - inFlightBytes t.worker) := by
  obtain ⟨hpending, hqueue, hsaver⟩ := hsame
  simp only [surplusBytes, queuedBytes, hpending, hqueue, hsaver]
  omega

/-- A step from one statement of a flush to another of the same flush, or from
one outside a flush to another. -/
theorem surplusBytes_stay (hsame : t.bytesPending = s.bytesPending ∧
      t.queue = s.queue ∧ t.saver = s.saver)
    (hworker : inFlightBytes t.worker = inFlightBytes s.worker) :
    surplusBytes t = surplusBytes s + 0 := by
  rw [surplusBytes_of_same hsame, hworker, Int.sub_self]

/-- A step that gives the flush up, its job unaccounted. -/
theorem surplusBytes_drop (hsame : t.bytesPending = s.bytesPending ∧
      t.queue = s.queue ∧ t.saver = s.saver) (hworker : t.worker = .taskDone) :
    surplusBytes t = surplusBytes s + inFlightBytes s.worker := by
  rw [surplusBytes_of_same hsame, hworker]
  exact congrArg _ (Int.sub_zero _)

/-- A statement of the flush thread raises the surplus by what it leaks. -/
theorem surplusBytes_worker {i : FlushInput}
    (hstep : workerStep cfg s i = some t) :
    surplusBytes t = surplusBytes s + leakedBytes s (.worker i) := by
  cases flushStep_of_step hstep with
  | take hpc hqueue =>
      simp [surplusBytes, queuedBytes, inFlightBytes, FlushPc.unaccounted?, FlushPc.job?,
        leakedBytes, hpc, hqueue]
      omega
  | missing hpc hfile =>
      simp [surplusBytes, queuedBytes, inFlightBytes, FlushPc.unaccounted?, FlushPc.job?,
        leakedBytes, hpc]
      omega
  | account hpc =>
      simp [surplusBytes, queuedBytes, inFlightBytes, FlushPc.unaccounted?, FlushPc.job?,
        leakedBytes, hpc]
      omega
  | vanished hpc hfile =>
      refine Eq.trans (surplusBytes_drop (s := s) ⟨rfl, rfl, rfl⟩ rfl) ?_
      simp [leakedBytes, inFlightBytes, FlushPc.unaccounted?, FlushPc.job?, hpc, hfile]
  | lost hpc htmp =>
      refine Eq.trans (surplusBytes_drop (s := s) ⟨rfl, rfl, rfl⟩ rfl) ?_
      simp [leakedBytes, inFlightBytes, FlushPc.unaccounted?, FlushPc.job?, hpc, htmp]
  | givesUp hpc hstop =>
      -- at the stop flag the call returns with its job unaccounted
      refine Eq.trans (surplusBytes_drop (s := s) ⟨rfl, rfl, rfl⟩ rfl) ?_
      simp [leakedBytes, hstop]
  | failWrite hpc => exact surplusBytes_drop ⟨rfl, rfl, rfl⟩ rfl
  | fail hjob hpc => exact surplusBytes_drop ⟨rfl, rfl, rfl⟩ rfl
  | openSrc hpc hfile =>
      refine Eq.trans (surplusBytes_stay (s := s) ⟨rfl, rfl, rfl⟩ (by rw [hpc]; rfl)) ?_
      simp [leakedBytes, hpc, hfile]
  | rename hpc htmp =>
      refine Eq.trans (surplusBytes_stay (s := s) ⟨rfl, rfl, rfl⟩ (by rw [hpc]; rfl)) ?_
      simp [leakedBytes, hpc, htmp]
  | waits hpc hgoing =>
      refine Eq.trans (surplusBytes_stay (s := s) ⟨rfl, rfl, rfl⟩ (by rw [hpc])) ?_
      simp [leakedBytes, hgoing]
  | read hpc hi =>
      have hleaked : leakedBytes s (.worker i) = 0 := by
        rcases hi with rfl | ⟨n, rfl⟩ <;> simp [leakedBytes, hpc]
      obtain ⟨worker, hmoves, hworker⟩ := afterRead_moves s _ _ _
      rw [hmoves, hleaked]
      refine surplusBytes_stay ⟨rfl, rfl, rfl⟩ ?_
      rw [hpc]
      obtain rfl | rfl | ⟨chunk, rfl⟩ := hworker <;> rfl
  | poll hpc _ | halt hpc _ | empty hpc _ | found hpc _ | openTmp hpc | resize hpc
  | unpaced hpc _ | blocked hpc _ _ | granted hpc _ _ | passes hpc | recompute hpc
  | write hpc | unlink hpc | taskDone hpc =>
      refine Eq.trans (surplusBytes_stay (s := s) ⟨rfl, rfl, rfl⟩ (by rw [hpc]; rfl)) ?_
      simp [leakedBytes, hpc]

/-- A save that queues a job and counts it leaves nothing over. -/
theorem surplusBytes_saver (hstep : saverStep cfg s = some t) :
    surplusBytes t = surplusBytes s := by
  cases hpc : s.saver with
  | idle => simp [saverStep, hpc] at hstep
  | written k data =>
      cases hfile : s.localDir (ckptName cfg.rank k) with
      | none =>
          obtain rfl := by simpa [saverStep, hpc, hfile] using hstep
          simp [surplusBytes, queuedBytes, uncountedBytes, hpc]
      | some content =>
          obtain rfl := by simpa [saverStep, hpc, hfile] using hstep
          cases hlustre : cfg.hasLustre <;>
            simp [surplusBytes, queuedBytes, uncountedBytes, hpc]
  | enqueuing k data size =>
      by_cases hfull : queueFull cfg s.queue
      · obtain rfl := by simpa [saverStep, hpc, hfull] using hstep
        simp [surplusBytes, queuedBytes, uncountedBytes, hpc]
      · obtain rfl := by simpa [saverStep, hpc, hfull] using hstep
        simp [surplusBytes, queuedBytes, uncountedBytes, flushJob, hpc]
        omega
  | counting k data size =>
      obtain rfl := by simpa [saverStep, hpc] using hstep
      simp [surplusBytes, queuedBytes, uncountedBytes, hpc]
      omega
  | writing k data | returning k data =>
      obtain rfl := by simpa [saverStep, hpc] using hstep
      simp [surplusBytes, queuedBytes, uncountedBytes, hpc]

/-- Every step raises the surplus by what it leaks. -/
theorem surplusBytes_step {e : CkptEvent} (hstep : step cfg s e = some t) :
    surplusBytes t = surplusBytes s + leakedBytes s e := by
  cases e with
  | save k partialData data =>
      obtain ⟨hidle, rfl⟩ := by simpa [step] using hstep
      simp [surplusBytes, queuedBytes, uncountedBytes, leakedBytes, hidle]
  | saver => exact (surplusBytes_saver hstep).trans (Int.add_zero _).symm
  | worker i => exact surplusBytes_worker hstep
  | shutdown =>
      obtain rfl := by simpa [step] using hstep
      simp [surplusBytes, queuedBytes, leakedBytes]

theorem inFlightBytes_nonneg (w : FlushPc) : 0 ≤ inFlightBytes w := by
  unfold inFlightBytes
  cases w.unaccounted? with
  | none => exact le_refl _
  | some job => exact Int.natCast_nonneg _

theorem leakedBytes_nonneg (s : CkptState) (e : CkptEvent) :
    0 ≤ leakedBytes s e := by
  unfold leakedBytes
  split
  · split
    · split <;> simp
    · split <;> simp
    · exact le_refl _
  · exact inFlightBytes_nonneg _
  · split
    · exact inFlightBytes_nonneg _
    · exact le_refl _
  · exact le_refl _

/-- A step that leaves no bytes on the counter: no flush of a job that has a
size ends by an exception before its statistics or returns at the stop flag. -/
def Accounted (s : CkptState) (e : CkptEvent) : Prop := leakedBytes s e = 0

/-- **The pending-byte counter is exact** in a quiescent state if and only if
every step of the run was accounted for. -/
theorem pending_bytes_exact_iff {localDir lustreDir : Dir}
    {es : List CkptEvent}
    (hrun : Runs.exec (step cfg) (init cfg localDir lustreDir) es = some s)
    (hsaver : s.saver = .idle) (hflush : s.worker.job? = none) :
    s.bytesPending = (s.queue.map fun job => (job.sizeBytes : Int)).sum ↔
      Runs.Meets (step cfg) Accounted (init cfg localDir lustreDir) es := by
  have hbalance : surplusBytes s = surplusBytes (init cfg localDir lustreDir) +
      Runs.total (step cfg) leakedBytes (init cfg localDir lustreDir) es :=
    Runs.exec_balance trivial (fun _ _ _ _ _ => trivial)
      (fun _ _ _ (_ : True) => surplusBytes_step) hrun
  have hstart : surplusBytes (init cfg localDir lustreDir) = 0 := rfl
  have hquiet : inFlightBytes s.worker = 0 := by
    unfold inFlightBytes FlushPc.unaccounted?
    split
    · rfl
    · rw [hflush]
      rfl
  have hend : surplusBytes s =
      s.bytesPending - (s.queue.map fun job => (job.sizeBytes : Int)).sum := by
    simp [surplusBytes, queuedBytes, hquiet, hsaver, uncountedBytes]
  rw [hend, hstart, zero_add] at hbalance
  unfold Accounted
  rw [← Runs.total_eq_zero_iff leakedBytes_nonneg, ← hbalance]
  omega

instance Accounted.decidable (s : CkptState) (e : CkptEvent) :
    Decidable (Accounted s e) :=
  inferInstanceAs (Decidable (_ = _))

/-- Two bytes are saved, and their flush fails once its files are open. -/
def failedFlushEvents : List CkptEvent :=
  saveEvents 7 [1, 1] ++ openEvents ++ [.worker (.fail 0), .worker .next]

/-- The counter keeps the two bytes of the failed flush with nothing queued and
no call in progress. -/
theorem failed_flush_stays_pending :
    ∃ s, Runs.Reachable (step byteChunks)
        (init byteChunks (fun _ => none) (fun _ => none)) s ∧
      s.saver = .idle ∧ s.worker.job? = none ∧ s.queue = [] ∧
      s.bytesPending = 2 :=
  Runs.Reachable.exists_of_exec failedFlushEvents (by decide +kernel)

/-- A checkpoint is saved and flushed, and a later one is queued. -/
theorem pending_bytes_exact_queued :
    ∃ s, Runs.exec (step byteChunks)
        (init byteChunks (fun _ => none) (fun _ => none))
        (saveEvents 7 [1, 1] ++ openEvents ++ rawChunkEvents ++ chunkEvents ++
          closeEvents ++ saveEvents 8 [2]) = some s ∧
      s.bytesPending = (s.queue.map fun job => (job.sizeBytes : Int)).sum := by
  obtain ⟨s, hrun, hsaver, hflush⟩ : ∃ s ∈ Runs.exec (step byteChunks)
        (init byteChunks (fun _ => none) (fun _ => none))
        (saveEvents 7 [1, 1] ++ openEvents ++ rawChunkEvents ++ chunkEvents ++
          closeEvents ++ saveEvents 8 [2]),
      s.saver = .idle ∧ s.worker.job? = none := by
    decide +kernel
  exact ⟨s, hrun,
    (pending_bytes_exact_iff hrun hsaver hflush).mpr (by decide +kernel)⟩

end CheckpointManager

end Tempo
