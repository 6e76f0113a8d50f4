import Tempo.CheckpointDurability

/-!
# Runs of the checkpoint manager

The invariant of `CheckpointDurability` read along whole runs.

When a step is saved again while its earlier version is being flushed, both
saves and both jobs share one local, one temporary and one final name.  The
copy of the earlier version then continues, after what has been read ahead, in the
bytes of the later one and publishes a mixture, and the unlink removes the later
version from the local directory.  `resave_keeps_newest` is the guarantee of all runs that keep the
two apart, and `resave_mixes_versions` is a run that does not.

When the steps of all saves are distinct the condition holds by itself, since
a flush job of a step exists only after the one save of that step.
-/

namespace Tempo

namespace CheckpointManager

variable {cfg : CkptConfig} {found : Dir}

/-! ### Saving a step again -/

/-- **A re-saved step keeps its newest version**, in every run in which saves
and the copies of the same step stay apart.  A final remote file is one
complete saved version or what was found there, and the newest completed
version of a step is in its local file or at its final name. -/
theorem resave_keeps_newest {localDir lustreDir : Dir} {s : CkptState}
    (hrun : Runs.Reach (step cfg) Apart (init cfg localDir lustreDir) s) :
    (∀ k c, s.lustreDir (ckptName cfg.rank k) = some c →
      lustreDir (ckptName cfg.rank k) = some c ∨ (k, c) ∈ s.saves) ∧
    ∀ k c, newest s.saves k = some c → ¬ Writing s k →
      s.localDir (ckptName cfg.rank k) = some c ∨
        s.lustreDir (ckptName cfg.rank k) = some c := by
  have hpres : ∀ s e t, (Durable cfg lustreDir s ∧ ReaderOk cfg s) → Apart s e →
      step cfg s e = some t → Durable cfg lustreDir t ∧ ReaderOk cfg t := by
    intro s e t hs hapart hstep
    exact ⟨hs.1.step hs.2 hapart hstep, hs.2.step hstep⟩
  obtain ⟨hinv, -⟩ := hrun.invariant ⟨durable_init, readerOk_init⟩ hpres
  refine ⟨hinv.remote_ok, fun k c hc hw => ?_⟩
  exact (hinv.current k c hc hw).imp_right And.right

instance Writing.decidable (s : CkptState) (k : Int) :
    Decidable (Writing s k) :=
  match h : s.saver with
  | .writing j _ =>
      decidable_of_iff (j = k) (by simp [Writing, h])
  | .idle | .written _ _ | .enqueuing _ _ _ | .counting _ _ _
  | .returning _ _ => isFalse (by simp [Writing, h])

instance Apart.decidable (s : CkptState) : ∀ e, Decidable (Apart s e)
  | .save k _ _ =>
      inferInstanceAs (Decidable (∀ job ∈ s.copying?, job.step ≠ k))
  | .worker .next =>
      match h : s.worker with
      | .read job off =>
          decidable_of_iff (s.chunkBytes = 0 → ¬ Writing s job.step ∧
              (content s.localDir job.localName).drop off = [])
            (by simp [Apart, h])
      | .poll | .get | .check _ | .openSrc _ | .openTmp _ | .resize _ _
      | .pace _ _ | .gate _ _ | .recompute _ _ | .write _ _ _ | .rename _ _
      | .account _ _ | .unlink _ | .taskDone | .stopped =>
          isTrue (by simp [Apart, h])
  | .worker (.raw _) =>
      match h : s.worker with
      | .read job 0 =>
          decidable_of_iff (s.reader.held = [] → ¬ Writing s job.step)
            (by simp [Apart, h])
      | .read _ (_ + 1) | .poll | .get | .check _ | .openSrc _ | .openTmp _
      | .resize _ _ | .pace _ _ | .gate _ _ | .recompute _ _ | .write _ _ _
      | .rename _ _ | .account _ _ | .unlink _ | .taskDone | .stopped =>
          isTrue (by simp [Apart, h])
  | .worker (.target _) | .worker (.rate _ _) | .worker (.gate _)
  | .worker (.fail _) | .saver | .shutdown => isTrue trivial

/-- A step with no I/O error and no overflow of the job queue. -/
def Faultless (cfg : CkptConfig) (s : CkptState) : CkptEvent → Prop
  | .saver => queueFull cfg s.queue = false
  | .worker (.fail _) => False
  | _ => True

instance Faultless.decidable (s : CkptState) :
    ∀ e, Decidable (Faultless cfg s e)
  | .saver => inferInstanceAs (Decidable (_ = _))
  | .worker (.fail _) => isFalse id
  | .save _ _ _ | .worker .next | .worker (.target _) | .worker (.rate _ _)
  | .worker (.gate _) | .worker (.raw _) | .shutdown => isTrue trivial

/-- A whole `save_async` call. -/
def saveEvents (step : Int) (data : Bytes) : List CkptEvent :=
  [.save step [] data, .saver, .saver, .saver, .saver, .saver]

/-- The flush thread takes a job and opens its files. -/
def openEvents : List CkptEvent := List.replicate 5 (.worker .next)

/-- One round of the copy loop, with a raw read. -/
def rawChunkEvents : List CkptEvent :=
  [.worker (.target none), .worker .next, .worker .next, .worker (.raw 8192),
    .worker .next]

/-- One round, answered from what has been read ahead. -/
def chunkEvents : List CkptEvent :=
  [.worker (.target none), .worker .next, .worker .next, .worker .next]

/-- The last round of the copy loop, the rename and the unlink. -/
def closeEvents : List CkptEvent :=
  [.worker (.target none), .worker .next, .worker .next, .worker (.raw 8192),
    .worker .next, .worker .next, .worker .next, .worker .next]

/-- The flush thread takes a job whose file is gone. -/
def missingEvents : List CkptEvent := List.replicate 4 (.worker .next)

def byteChunks : CkptConfig := { flushChunkBytes := 1 }

/-- The second save lands after the first version has been read, and the first byte
of it copied. -/
def resaveEvents : List CkptEvent :=
  saveEvents 7 [1, 1] ++ openEvents ++ rawChunkEvents ++ saveEvents 7 [2, 2, 2] ++
    chunkEvents ++ rawChunkEvents ++ closeEvents ++ missingEvents

/-- **A re-saved step can be mixed and lost.**  Without any fault, all jobs
processed and both threads idle, the final file is neither saved version and
the newest version is nowhere. -/
theorem resave_mixes_versions :
    ∃ s, Runs.Reach (step byteChunks) (Faultless byteChunks)
        (init byteChunks (fun _ => none) (fun _ => none)) s ∧
      s.saver = .idle ∧ s.worker = .poll ∧ s.queue = [] ∧
      s.saves = [(7, [1, 1]), (7, [2, 2, 2])] ∧
      s.localDir (ckptName 0 7) = none ∧
      s.lustreDir (ckptName 0 7) = some [1, 1, 2] :=
  Runs.Reach.exists_of_exec resaveEvents (by decide +kernel)
    (by decide +kernel)

/-- The second save comes after the first flush, and is flushed too. -/
theorem resave_keeps_newest_apart :
    ∃ s, Runs.Reach (step byteChunks) Apart
        (init byteChunks (fun _ => none) (fun _ => none)) s ∧
      newest s.saves 7 = some [2, 2] ∧
      (s.localDir (ckptName 0 7) = some [2, 2] ∨
        s.lustreDir (ckptName 0 7) = some [2, 2]) := by
  obtain ⟨s, hrun, hnew, hidle⟩ : ∃ s,
      Runs.Reach (step byteChunks) Apart
        (init byteChunks (fun _ => none) (fun _ => none)) s ∧
      newest s.saves 7 = some [2, 2] ∧ ¬ Writing s 7 :=
    Runs.Reach.exists_of_exec
      (saveEvents 7 [1, 1] ++ openEvents ++ rawChunkEvents ++ chunkEvents ++
        closeEvents ++ saveEvents 7 [2, 2] ++ openEvents ++ rawChunkEvents)
      (by decide +kernel) (by decide +kernel)
  exact ⟨s, hrun, hnew,
    (resave_keeps_newest hrun).2 7 [2, 2] hnew hidle⟩

/-! ### Saves of distinct steps -/

/-- The condition that all saves are of different steps. -/
def Distinct (s : CkptState) : CkptEvent → Prop
  | .save step _ _ => step ∉ s.begun
  | _ => True

/-- What the histories of a run with distinct steps satisfy. -/
structure Once (s : CkptState) : Prop where
  saves_begun : ∀ p ∈ s.saves, p.1 ∈ s.begun
  writing_begun : ∀ k, Writing s k → k ∈ s.begun
  writing_new : ∀ k data, Writing s k → (k, data) ∉ s.saves
  saves_unique : ∀ k c d, (k, c) ∈ s.saves → (k, d) ∈ s.saves → c = d

theorem once_init {localDir lustreDir : Dir} :
    Once (init cfg localDir lustreDir) where
  saves_begun := by simp [init]
  writing_begun := by simp [init, Writing]
  writing_new := by simp [init]
  saves_unique := by simp [init]

/-- A step that does not touch the histories. -/
theorem Once.congr {s t : CkptState} (h : Once s) (hsaves : t.saves = s.saves)
    (hbegun : t.begun = s.begun) (hwriting : ∀ k, Writing t k → Writing s k) :
    Once t where
  saves_begun := by rw [hsaves, hbegun]; exact h.saves_begun
  writing_begun := fun k hk => by
    rw [hbegun]; exact h.writing_begun k (hwriting k hk)
  writing_new := fun k data hk => by
    rw [hsaves]; exact h.writing_new k data (hwriting k hk)
  saves_unique := by rw [hsaves]; exact h.saves_unique

/-- The flush thread does not touch the training thread or the histories. -/
theorem workerStep_frame {s t : CkptState} {i : FlushInput}
    (hstep : workerStep cfg s i = some t) :
    t.saver = s.saver ∧ t.saves = s.saves ∧ t.begun = s.begun := by
  cases flushStep_of_step hstep <;> exact ⟨rfl, rfl, rfl⟩

theorem Once.step {s t : CkptState} {e : CkptEvent} (h : Once s)
    (hdistinct : Distinct s e) (hstep : step cfg s e = some t) : Once t := by
  cases e with
  | save k partialData data =>
      obtain ⟨hidle, rfl⟩ := by
        simpa [CheckpointManager.step] using hstep
      exact
        { saves_begun := fun p hp =>
            List.mem_append_left _ (h.saves_begun p hp)
          writing_begun := by rintro j ⟨d, hd⟩; cases hd; simp
          writing_new := by
            rintro j d ⟨d', hd⟩ hmem
            cases hd
            exact hdistinct (h.saves_begun _ hmem)
          saves_unique := h.saves_unique }
  | saver =>
      cases hpc : s.saver with
      | writing k data =>
          obtain rfl := by
            simpa [CheckpointManager.step, saverStep, hpc] using hstep
          have hw : Writing s k := ⟨data, hpc⟩
          have hnew : ∀ c, (k, c) ∉ s.saves := fun c => h.writing_new k c hw
          exact
            { saves_begun := by
                intro p hp
                rcases List.mem_append.mp hp with hp | hp
                · exact h.saves_begun p hp
                · obtain rfl := List.mem_singleton.mp hp
                  exact h.writing_begun k hw
              writing_begun := by rintro j ⟨d, hd⟩; cases hd
              writing_new := by rintro j d ⟨d', hd⟩; cases hd
              saves_unique := by
                intro j c d hc hd
                rcases List.mem_append.mp hc with hc | hc <;>
                  rcases List.mem_append.mp hd with hd | hd
                · exact h.saves_unique j c d hc hd
                · cases List.mem_singleton.mp hd; exact absurd hc (hnew c)
                · cases List.mem_singleton.mp hc; exact absurd hd (hnew d)
                · cases List.mem_singleton.mp hc
                  cases List.mem_singleton.mp hd
                  rfl }
      | idle => simp [CheckpointManager.step, saverStep, hpc] at hstep
      | written k data =>
          cases hfile : s.localDir (ckptName cfg.rank k) with
          | none =>
              obtain rfl := by
                simpa [CheckpointManager.step, saverStep, hpc, hfile]
                  using hstep
              exact h.congr rfl rfl (by simp [Writing])
          | some content =>
              obtain rfl := by
                simpa [CheckpointManager.step, saverStep, hpc, hfile]
                  using hstep
              refine h.congr rfl rfl ?_
              cases cfg.hasLustre <;> simp [Writing]
      | enqueuing k data size =>
          by_cases hfull : queueFull cfg s.queue
          · obtain rfl := by
              simpa [CheckpointManager.step, saverStep, hpc, hfull] using hstep
            exact h.congr rfl rfl (by simp [Writing])
          · obtain rfl := by
              simpa [CheckpointManager.step, saverStep, hpc, hfull] using hstep
            exact h.congr rfl rfl (by simp [Writing])
      | counting k data size | returning k data =>
          obtain rfl := by
            simpa [CheckpointManager.step, saverStep, hpc] using hstep
          exact h.congr rfl rfl (by simp [Writing])
  | worker i =>
      obtain ⟨hsaver, hsaves, hbegun⟩ := workerStep_frame hstep
      exact h.congr hsaves hbegun (by simp [Writing, hsaver])
  | shutdown =>
      obtain rfl := by simpa [CheckpointManager.step] using hstep
      exact h.congr rfl rfl fun _ => id

/-- A read of zero bytes is at the end of its file. -/
def ReadsToEnd (s : CkptState) : Prop :=
  ∀ job off, s.worker = .read job off → s.chunkBytes = 0 →
    (content s.localDir job.localName).drop off = []

instance (s : CkptState) : Decidable (ReadsToEnd s) :=
  match h : s.worker with
  | .read job off =>
      decidable_of_iff (s.chunkBytes = 0 →
          (content s.localDir job.localName).drop off = [])
        (by simp [ReadsToEnd, h])
  | .poll | .get | .check _ | .openSrc _ | .openTmp _ | .resize _ _
  | .pace _ _ | .gate _ _ | .recompute _ _ | .write _ _ _ | .rename _ _
  | .account _ _ | .unlink _ | .taskDone | .stopped =>
      isTrue (by simp [ReadsToEnd, h])

/-- A flush of a step exists only after the one save of that step, so the two
are apart. -/
theorem apart_of_distinct {s : CkptState} {e : CkptEvent}
    (hs : Durable cfg found s) (h : Once s) (hdistinct : Distinct s e)
    (hzero : e = .worker .next → ReadsToEnd s) : Apart s e := by
  have hfree : ∀ job off, s.worker = .read job off → ¬ Writing s job.step := by
    intro job off hpc hw
    obtain ⟨d, hd⟩ := (hs.worker_ok job (by rw [hpc]; rfl)).saved
    exact h.writing_new _ _ hw hd
  cases e with
  | save k partialData data =>
      rintro job hjob rfl
      obtain ⟨d, hd⟩ := (hs.worker_ok job (job?_of_copying? hjob)).saved
      exact hdistinct (h.saves_begun _ hd)
  | worker i =>
      cases i with
      | next =>
          intro job off hpc hsize
          exact ⟨hfree job off hpc, hzero rfl job off hpc hsize⟩
      | raw n => exact fun job hpc _ => hfree job 0 hpc
      | _ => trivial
  | _ => trivial

theorem resizeChunk_pos {chunkBytes : Int} (h : 0 < chunkBytes)
    (target : Option Int) : 0 < resizeChunk cfg chunkBytes target := by
  unfold resizeChunk
  split
  · split
    · simp only [minChunkBytes, maxChunkBytes]; omega
    · exact h
  · exact h

/-- The flush thread changes the chunk size by the adaptive block only. -/
theorem workerStep_chunkBytes {s t : CkptState} {i : FlushInput}
    (hstep : workerStep cfg s i = some t) :
    t.chunkBytes = s.chunkBytes ∨
      ∃ target, t.chunkBytes = resizeChunk cfg s.chunkBytes target := by
  cases flushStep_of_step hstep with
  | resize hpc => exact .inr ⟨_, rfl⟩
  | _ => exact .inl rfl

theorem chunk_pos_step {s t : CkptState} {e : CkptEvent} (h : 0 < s.chunkBytes)
    (hstep : step cfg s e = some t) : 0 < t.chunkBytes := by
  cases e with
  | save k partialData data =>
      obtain ⟨-, rfl⟩ := by simpa [CheckpointManager.step] using hstep
      exact h
  | saver =>
      rw [(saverStep_frame hstep).chunk]
      exact h
  | worker i =>
      rcases workerStep_chunkBytes hstep with hsame | ⟨target, hresized⟩
      · rw [hsame]
        exact h
      · rw [hresized]
        exact resizeChunk_pos h target
  | shutdown =>
      obtain rfl := by simpa [CheckpointManager.step] using hstep
      exact h

/-- What runs with saves of distinct steps keep. -/
structure Staged (cfg : CkptConfig) (found : Dir) (s : CkptState) : Prop where
  durable : Durable cfg found s
  reader : ReaderOk cfg s
  once : Once s

theorem staged_init {localDir lustreDir : Dir} :
    Staged cfg lustreDir (init cfg localDir lustreDir) :=
  ⟨durable_init, readerOk_init, once_init⟩

theorem Staged.step {s t : CkptState} {e : CkptEvent} (h : Staged cfg found s)
    (hdistinct : Distinct s e)
    (hzero : e = .worker .next → ReadsToEnd s)
    (hstep : step cfg s e = some t) : Staged cfg found t where
  durable := h.durable.step h.reader
    (apart_of_distinct h.durable h.once hdistinct hzero) hstep
  reader := h.reader.step hstep
  once := h.once.step hdistinct hstep

/-- **Durability.**  In every run with saves of distinct steps, a final remote
file is the checkpoint saved for its step, or what was found there, and every
save that has returned is complete in its local file or at its final remote
name. -/
theorem staged_checkpoint_durable {localDir lustreDir : Dir} {s : CkptState}
    (hchunk : 0 < cfg.flushChunkBytes)
    (hrun : Runs.Reach (step cfg) Distinct (init cfg localDir lustreDir) s) :
    (∀ k c, s.lustreDir (ckptName cfg.rank k) = some c →
      lustreDir (ckptName cfg.rank k) = some c ∨
        ∀ d, (k, d) ∈ s.saves ↔ d = c) ∧
    ∀ k data, (k, data) ∈ s.returned →
      s.localDir (ckptName cfg.rank k) = some data ∨
        s.lustreDir (ckptName cfg.rank k) = some data := by
  have hpres : ∀ s e t, (Staged cfg lustreDir s ∧ 0 < s.chunkBytes) → Distinct s e →
      step cfg s e = some t → Staged cfg lustreDir t ∧ 0 < t.chunkBytes := by
    intro s e t hs hd hstep
    refine ⟨hs.1.step hd (fun _ job off _ hsize => ?_) hstep, chunk_pos_step hs.2 hstep⟩
    exact absurd hsize hs.2.ne'
  obtain ⟨⟨hinv, -, honce⟩, -⟩ := hrun.invariant ⟨staged_init, hchunk⟩ hpres
  refine ⟨fun k c hc => (hinv.remote_ok k c hc).imp_right ?_, ?_⟩
  · exact fun hmem d =>
      ⟨fun hd => honce.saves_unique k d c hd hmem, fun hd => hd ▸ hmem⟩
  · intro k data hret
    have hsaved : (k, data) ∈ s.saves := hinv.returned_ok _ hret
    obtain ⟨c, hc⟩ := exists_newest hsaved
    obtain rfl := honce.saves_unique k c data (mem_of_newest hc) hsaved
    exact (hinv.current k c hc
      (fun hw => honce.writing_new k c hw hsaved)).imp_right And.right

instance Distinct.decidable (s : CkptState) : ∀ e, Decidable (Distinct s e)
  | .save k _ _ => inferInstanceAs (Decidable (k ∉ s.begun))
  | .saver | .worker _ | .shutdown => isTrue trivial

/-- Two steps; the flush of the first fails in the middle of a write. -/
theorem staged_checkpoint_durable_failing :
    ∃ s, Runs.Reach (step byteChunks) Distinct
        (init byteChunks (fun _ => none) (fun _ => none)) s ∧
      s.returned = [(7, [1, 1]), (8, [2, 2])] ∧
      (s.localDir (ckptName 0 7) = some [1, 1] ∨
        s.lustreDir (ckptName 0 7) = some [1, 1]) := by
  obtain ⟨s, hrun, hret⟩ : ∃ s,
      Runs.Reach (step byteChunks) Distinct
        (init byteChunks (fun _ => none) (fun _ => none)) s ∧
      s.returned = [(7, [1, 1]), (8, [2, 2])] :=
    Runs.Reach.exists_of_exec
      (saveEvents 7 [1, 1] ++ openEvents ++ rawChunkEvents ++
        saveEvents 8 [2, 2] ++ [.worker (.fail 0)])
      (by decide +kernel) (by decide +kernel)
  exact ⟨s, hrun, hret,
    (staged_checkpoint_durable (by decide) hrun).2 7 [1, 1] (by simp [hret])⟩

end CheckpointManager

end Tempo
