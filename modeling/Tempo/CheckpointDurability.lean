import Tempo.CheckpointManager

/-!
# Durability of staged checkpoints

The invariant says where a completed save is kept while its flush is in
progress.  As long as no save of a step overwrites the local file that a flush
of the same step is copying (`Apart`), a file at a final remote name is one
complete saved version of its step, and the newest completed version of every
step is in its local file or, once that is unlinked, at its final name.  This
holds through any exception, any stop and any chunk size but zero, because the copy
goes to a temporary name, the rename publishes only a complete copy, and the unlink
comes after the rename.  What the reader has read ahead counts as copied: it is not
read again.
-/

namespace Tempo

/-- The newest completed version of step `k` in a history of saves. -/
def newest (saves : List (Int × Bytes)) (k : Int) : Option Bytes :=
  ((saves.filter fun p => p.1 = k).getLast?).map Prod.snd

theorem newest_append_self (saves : List (Int × Bytes)) (k : Int)
    (data : Bytes) : newest (saves ++ [(k, data)]) k = some data := by
  simp [newest, List.filter_append]

theorem newest_append_ne {saves : List (Int × Bytes)} {k j : Int}
    (data : Bytes) (h : k ≠ j) :
    newest (saves ++ [(k, data)]) j = newest saves j := by
  simp [newest, List.filter_append, h]

theorem mem_of_newest {saves : List (Int × Bytes)} {k : Int} {data : Bytes}
    (h : newest saves k = some data) : (k, data) ∈ saves := by
  obtain ⟨⟨j, d⟩, hlast, rfl⟩ := Option.map_eq_some_iff.mp h
  obtain ⟨hmem, hk⟩ := List.mem_filter.mp (List.mem_of_getLast? hlast)
  have hjk : j = k := by simpa using hk
  exact hjk ▸ hmem

/-- A step with a completed save has a newest version. -/
theorem exists_newest {saves : List (Int × Bytes)} {k : Int} {data : Bytes}
    (h : (k, data) ∈ saves) : ∃ c, newest saves k = some c := by
  have hne : (saves.filter fun p => p.1 = k) ≠ [] :=
    List.ne_nil_of_mem (List.mem_filter.mpr ⟨h, by simp⟩)
  exact ⟨((saves.filter fun p => p.1 = k).getLast hne).2, by
    rw [newest, List.getLast?_eq_some_getLast hne]; rfl⟩

namespace CheckpointManager

variable {cfg : CkptConfig} {found : Dir}

/-- The training thread is inside `torch.save` for step `k`. -/
def Writing (s : CkptState) (k : Int) : Prop :=
  ∃ data, s.saver = .writing k data

/-- The condition on a step: a save does not open the local file of a step
while a flush of that step is copying it, a flush does not make its first raw
read of a file that is being written, and one that reads zero bytes has none to
copy. -/
def Apart (s : CkptState) : CkptEvent → Prop
  | .save step _ _ => ∀ job, s.copying? = some job → job.step ≠ step
  | .worker (.raw _) =>
      ∀ job, s.worker = .read job 0 → s.reader.held = [] → ¬ Writing s job.step
  | .worker .next =>
      ∀ job off, s.worker = .read job off → s.chunkBytes = 0 →
        ¬ Writing s job.step ∧ (content s.localDir job.localName).drop off = []
  | _ => True

/-- A queued or running job has the names of its step, and the step has been
saved. -/
structure JobOk (cfg : CkptConfig) (saves : List (Int × Bytes))
    (job : FlushJob) : Prop where
  localName_eq : job.localName = ckptName cfg.rank job.step
  remoteName_eq : job.remoteName = ckptName cfg.rank job.step
  saved : ∃ data, (job.step, data) ∈ saves

/-- `c` is the newest version of the job's step, complete in its local file,
and not being overwritten. -/
structure Stable (cfg : CkptConfig) (s : CkptState) (job : FlushJob)
    (c : Bytes) : Prop where
  newest_eq : newest s.saves job.step = some c
  local_eq : s.localDir job.localName = some c
  not_writing : ¬ Writing s job.step

/-- In the copy loop the first `off` bytes of the file are in the temporary
file, and the reader holds the next ones; from the first of them on the file is
stable. -/
def Copied (cfg : CkptConfig) (s : CkptState) (job : FlushJob) (off : Nat) :
    Prop :=
  s.localDir job.localName ≠ none ∧
    ∃ c p, s.lustreDir (tmpName job.remoteName) = some p ∧ p.length = off ∧
      p ++ s.reader.held <+: c ∧ (p ++ s.reader.held ≠ [] → Stable cfg s job c)

/-- What holds at each statement of `_do_flush`. -/
def FlushOk (cfg : CkptConfig) (s : CkptState) : FlushPc → Prop
  | .openTmp job => s.localDir job.localName ≠ none
  | .resize job off | .pace job off | .gate job off | .recompute job off
  | .read job off => Copied cfg s job off
  | .write job off chunk =>
      ∃ c p, Stable cfg s job c ∧
        s.lustreDir (tmpName job.remoteName) = some p ∧ p.length = off ∧
        chunk ≠ [] ∧ p ++ chunk ++ s.reader.held <+: c
  | .rename job _ =>
      ∃ c, Stable cfg s job c ∧
        s.lustreDir (tmpName job.remoteName) = some c
  | .account job _ | .unlink job =>
      ∃ c, Stable cfg s job c ∧ s.lustreDir job.remoteName = some c
  | _ => True

/-- What holds at each statement of `save_async`. -/
def SaverOk (cfg : CkptConfig) (s : CkptState) : SaverPc → Prop
  | .idle => True
  | .writing step _ => s.localDir (ckptName cfg.rank step) ≠ none
  | .written step data | .enqueuing step data _ | .counting step data _
  | .returning step data => (step, data) ∈ s.saves

/-- The invariant of a run from remote files `found`. -/
structure Durable (cfg : CkptConfig) (found : Dir) (s : CkptState) :
    Prop where
  queue_ok : ∀ job ∈ s.queue, JobOk cfg s.saves job
  worker_ok : ∀ job, s.worker.job? = some job → JobOk cfg s.saves job
  saver_ok : SaverOk cfg s s.saver
  returned_ok : ∀ p ∈ s.returned, p ∈ s.saves
  /-- beside what was found there, only complete saved versions are
  published -/
  remote_ok : ∀ k c, s.lustreDir (ckptName cfg.rank k) = some c →
    found (ckptName cfg.rank k) = some c ∨ (k, c) ∈ s.saves
  /-- the newest version is local, or unlinked and published -/
  current : ∀ k c, newest s.saves k = some c → ¬ Writing s k →
    s.localDir (ckptName cfg.rank k) = some c ∨
      s.localDir (ckptName cfg.rank k) = none ∧
        s.lustreDir (ckptName cfg.rank k) = some c
  flush_ok : FlushOk cfg s s.worker

theorem durable_init {localDir lustreDir : Dir} :
    Durable cfg lustreDir (init cfg localDir lustreDir) where
  queue_ok := by simp [init]
  worker_ok := by simp [init, FlushPc.job?]
  saver_ok := trivial
  returned_ok := by simp [init]
  remote_ok := fun _ _ h => .inl h
  current := by simp [init, newest]
  flush_ok := trivial

theorem JobOk.mono {saves : List (Int × Bytes)} {job : FlushJob}
    (h : JobOk cfg saves job) (more : List (Int × Bytes)) :
    JobOk cfg (saves ++ more) job :=
  ⟨h.localName_eq, h.remoteName_eq, h.saved.imp fun _ hd =>
    List.mem_append_left _ hd⟩

/-- The job a running statement works on. -/
theorem job?_of_copying? {s : CkptState} {job : FlushJob}
    (h : s.copying? = some job) : s.worker.job? = some job := by
  unfold CkptState.copying? at h
  cases hw : s.worker <;> simp_all [FlushPc.job?]

/-- While the flush copies a file, the file is stable. -/
theorem FlushOk.stable_of_copying {s : CkptState} {job : FlushJob}
    (h : FlushOk cfg s s.worker) (hjob : s.copying? = some job) :
    ∃ c, Stable cfg s job c := by
  cases hw : s.worker with
  | resize job' off | pace job' off | gate job' off | recompute job' off
  | read job' off =>
      rw [hw] at h
      obtain ⟨hsome, rfl⟩ := by simpa [CkptState.copying?, hw] using hjob
      obtain ⟨-, c, p, -, rfl, -, hc⟩ := h
      refine ⟨c, hc fun hnil => ?_⟩
      obtain ⟨rfl, hheld⟩ := List.append_eq_nil_iff.mp hnil
      exact hsome rfl hheld
  | write job' off chunk =>
      rw [hw] at h
      obtain rfl := by simpa [CkptState.copying?, hw] using hjob
      obtain ⟨c, -, hc, -⟩ := h
      exact ⟨c, hc⟩
  | rename job' off | account job' off | unlink job' =>
      rw [hw] at h
      obtain rfl := by simpa [CkptState.copying?, hw] using hjob
      obtain ⟨c, hc, -⟩ := h
      exact ⟨c, hc⟩
  | _ => simp [CkptState.copying?, hw] at hjob

/-! ### The training thread -/

/-- `t` differs from `s` only in what concerns the local file of step `k`. -/
structure SameBut (cfg : CkptConfig) (k : Int) (s t : CkptState) : Prop where
  local_eq : ∀ j, j ≠ k → t.localDir (ckptName cfg.rank j) =
    s.localDir (ckptName cfg.rank j)
  local_ne : s.localDir (ckptName cfg.rank k) ≠ none →
    t.localDir (ckptName cfg.rank k) ≠ none
  lustre_eq : t.lustreDir = s.lustreDir
  reader_eq : t.reader = s.reader
  newest_eq : ∀ j, j ≠ k → newest t.saves j = newest s.saves j
  writing : ∀ j, j ≠ k → Writing t j → Writing s j

section SameBut

variable {k : Int} {s t : CkptState}

theorem SameBut.stable (hst : SameBut cfg k s t) {job : FlushJob} {c : Bytes}
    (hname : job.localName = ckptName cfg.rank job.step) (hne : job.step ≠ k)
    (h : Stable cfg s job c) : Stable cfg t job c where
  newest_eq := by rw [hst.newest_eq _ hne, h.newest_eq]
  local_eq := by rw [hname, hst.local_eq _ hne, ← hname, h.local_eq]
  not_writing := fun hw => h.not_writing (hst.writing _ hne hw)

theorem SameBut.local_ne_none (hst : SameBut cfg k s t) {job : FlushJob}
    (hname : job.localName = ckptName cfg.rank job.step)
    (h : s.localDir job.localName ≠ none) :
    t.localDir job.localName ≠ none := by
  rw [hname] at h ⊢
  by_cases hk : job.step = k
  · rw [hk] at h ⊢; exact hst.local_ne h
  · rw [hst.local_eq _ hk]; exact h

/-- The flush does not notice, unless it is copying step `k`. -/
theorem SameBut.flushOk (hst : SameBut cfg k s t)
    (hname : ∀ job, s.worker.job? = some job →
      job.localName = ckptName cfg.rank job.step)
    (hne : ∀ job, s.copying? = some job → job.step ≠ k)
    (h : FlushOk cfg s s.worker) : FlushOk cfg t s.worker := by
  cases hw : s.worker with
  | openTmp job =>
      rw [hw] at hname h
      exact hst.local_ne_none (hname job rfl) h
  | resize job off | pace job off | gate job off | recompute job off
  | read job off =>
      rw [hw] at hname h
      obtain ⟨hlocal, c, p, htmp, rfl, hbegins, hstable⟩ := h
      refine ⟨hst.local_ne_none (hname job rfl) hlocal, c, p,
        by rw [hst.lustre_eq, htmp], rfl, by rw [hst.reader_eq]; exact hbegins,
        fun hsome => ?_⟩
      rw [hst.reader_eq] at hsome
      refine hst.stable (hname job rfl) (hne job ?_) (hstable hsome)
      simp only [CkptState.copying?, hw]
      refine if_neg fun hnone => hsome ?_
      rw [List.length_eq_zero_iff.mp hnone.1, hnone.2]
      rfl
  | write job off chunk =>
      rw [hw] at hname h
      obtain ⟨c, p, hstable, htmp, hlen, hchunk, hbegins⟩ := h
      exact ⟨c, p, hst.stable (hname job rfl)
          (hne job (by simp [CkptState.copying?, hw])) hstable,
        by rw [hst.lustre_eq, htmp], hlen, hchunk,
        by rw [hst.reader_eq]; exact hbegins⟩
  | rename job off | account job off | unlink job =>
      rw [hw] at hname h
      obtain ⟨c, hstable, hfile⟩ := h
      exact ⟨c, hst.stable (hname job rfl)
          (hne job (by simp [CkptState.copying?, hw])) hstable,
        by rw [hst.lustre_eq, hfile]⟩
  | _ => trivial

end SameBut

/-- `save_async` opens the local file of a step that is not being copied. -/
theorem Durable.save {s t : CkptState} (hs : Durable cfg found s) {k : Int}
    {partialData data : Bytes}
    (hapart : ∀ job, s.copying? = some job → job.step ≠ k)
    (hstep : step cfg s (.save k partialData data) = some t) :
    Durable cfg found t := by
  obtain ⟨hidle, rfl⟩ := by simpa [step] using hstep
  have hnot : ∀ j, ¬ Writing s j := by simp [Writing, hidle]
  have hsame : SameBut cfg k s { s with
      localDir := Function.update s.localDir (ckptName cfg.rank k)
        (some partialData)
      begun := s.begun ++ [k]
      saver := .writing k data } :=
    { local_eq := fun j hj => Function.update_of_ne
        (fun h => hj (ckptName_injective h)) _ _
      local_ne := by simp
      lustre_eq := rfl
      reader_eq := rfl
      newest_eq := fun _ _ => rfl
      writing := by rintro j hj ⟨d, hd⟩; cases hd; exact absurd rfl hj }
  exact
    { queue_ok := hs.queue_ok
      worker_ok := hs.worker_ok
      saver_ok := by simp [SaverOk]
      returned_ok := hs.returned_ok
      remote_ok := hs.remote_ok
      current := by
        intro j c hc hw
        have hj : j ≠ k := fun h => hw ⟨data, by simp [h]⟩
        rw [hsame.local_eq j hj]
        exact hs.current j c hc (hnot j)
      flush_ok := hsame.flushOk (fun job h => (hs.worker_ok job h).localName_eq)
        hapart hs.flush_ok }

/-- `torch.save` completes the local file. -/
theorem Durable.saved {s t : CkptState} (hs : Durable cfg found s) {k : Int}
    {data : Bytes} (hsaver : s.saver = .writing k data)
    (hstep : saverStep cfg s = some t) : Durable cfg found t := by
  have hopen : s.localDir (ckptName cfg.rank k) ≠ none := by
    have h := hs.saver_ok
    rw [hsaver] at h
    exact h
  obtain ⟨old, hold⟩ := Option.ne_none_iff_exists'.mp hopen
  obtain rfl := by simpa [saverStep, hsaver, hold] using hstep
  have hwriting : Writing s k := ⟨data, hsaver⟩
  have hsame : SameBut cfg k s { s with
      localDir := Function.update s.localDir (ckptName cfg.rank k) (some data)
      saves := s.saves ++ [(k, data)]
      saver := .written k data } :=
    { local_eq := fun j hj => Function.update_of_ne
        (fun h => hj (ckptName_injective h)) _ _
      local_ne := by simp
      lustre_eq := rfl
      reader_eq := rfl
      newest_eq := fun j hj => newest_append_ne _ (Ne.symm hj)
      writing := by rintro j _ ⟨d, hd⟩; cases hd }
  -- a flush that copies step `k` would have found the file stable
  have hapart : ∀ job, s.copying? = some job → job.step ≠ k := by
    rintro job hjob rfl
    obtain ⟨c, hstable⟩ := hs.flush_ok.stable_of_copying hjob
    exact hstable.not_writing hwriting
  exact
    { queue_ok := fun job h => (hs.queue_ok job h).mono _
      worker_ok := fun job h => (hs.worker_ok job h).mono _
      saver_ok := by simp [SaverOk]
      returned_ok := fun p h => List.mem_append_left _ (hs.returned_ok p h)
      remote_ok := fun j c h =>
        (hs.remote_ok j c h).imp_right (List.mem_append_left _)
      current := by
        intro j c hc _
        by_cases hj : j = k
        · subst hj
          rw [newest_append_self] at hc
          exact .inl (by simpa using hc)
        · rw [hsame.local_eq j hj]
          refine hs.current j c (by rw [← hsame.newest_eq j hj]; exact hc) ?_
          rintro ⟨d, hd⟩
          rw [hsaver] at hd
          cases hd
          exact hj rfl
      flush_ok := hsame.flushOk (fun job h => (hs.worker_ok job h).localName_eq)
        hapart hs.flush_ok }

/-- A step that leaves the files and the history of saves alone. -/
theorem Durable.move {s t : CkptState} (hs : Durable cfg found s)
    (hlocal : t.localDir = s.localDir) (hlustre : t.lustreDir = s.lustreDir)
    (hsaves : t.saves = s.saves) (hwriting : ∀ k, Writing t k ↔ Writing s k)
    (hqueue : ∀ job ∈ t.queue, JobOk cfg s.saves job)
    (hworker : ∀ job, t.worker.job? = some job → JobOk cfg s.saves job)
    (hsaver : SaverOk cfg t t.saver)
    (hreturned : ∀ p ∈ t.returned, p ∈ s.saves)
    (hflush : FlushOk cfg t t.worker) : Durable cfg found t where
  queue_ok := by rw [hsaves]; exact hqueue
  worker_ok := by rw [hsaves]; exact hworker
  saver_ok := hsaver
  returned_ok := by rw [hsaves]; exact hreturned
  remote_ok := by rw [hsaves, hlustre]; exact hs.remote_ok
  current := by
    intro k c hc hw
    rw [hlocal, hlustre]
    exact hs.current k c (by rw [← hsaves]; exact hc)
      (fun h => hw ((hwriting k).mpr h))
  flush_ok := hflush

/-- Two states with the same files, reader, saves and `torch.save` in progress
agree on what a flush relies on. -/
theorem FlushOk.congr {s t : CkptState} {w : FlushPc} (h : FlushOk cfg s w)
    (hlocal : t.localDir = s.localDir) (hlustre : t.lustreDir = s.lustreDir)
    (hreader : t.reader = s.reader) (hsaves : t.saves = s.saves)
    (hwriting : ∀ k, Writing t k ↔ Writing s k) : FlushOk cfg t w := by
  have hstable : ∀ job c, Stable cfg s job c → Stable cfg t job c :=
    fun job c h => ⟨by rw [hsaves, h.newest_eq], by rw [hlocal, h.local_eq],
      fun hw => h.not_writing ((hwriting _).mp hw)⟩
  cases w with
  | openTmp job => simpa only [FlushOk, hlocal] using h
  | resize job off | pace job off | gate job off | recompute job off
  | read job off =>
      obtain ⟨hopen, c, p, htmp, hlen, hbegins, hc⟩ := h
      refine ⟨by rw [hlocal]; exact hopen, c, p, by rw [hlustre]; exact htmp, hlen, ?_⟩
      rw [hreader]
      exact ⟨hbegins, fun hsome => hstable _ _ (hc hsome)⟩
  | write job off chunk =>
      obtain ⟨c, p, hc, htmp, hrest⟩ := h
      refine ⟨c, p, hstable _ _ hc, by rw [hlustre]; exact htmp, ?_⟩
      rw [hreader]
      exact hrest
  | rename job off | account job off | unlink job =>
      obtain ⟨c, hc, hfile⟩ := h
      exact ⟨c, hstable _ _ hc, by rw [hlustre]; exact hfile⟩
  | _ => trivial

/-- A statement of `save_async` that touches no file. -/
theorem Durable.congrSaver {s t : CkptState} (hs : Durable cfg found s)
    (hwriting : ∀ k, Writing t k ↔ Writing s k)
    (hlocal : t.localDir = s.localDir) (hlustre : t.lustreDir = s.lustreDir)
    (hsaves : t.saves = s.saves) (hreader : t.reader = s.reader)
    (hworker : t.worker = s.worker)
    (hqueue : ∀ job ∈ t.queue, JobOk cfg s.saves job)
    (hsaver : SaverOk cfg t t.saver)
    (hreturned : ∀ p ∈ t.returned, p ∈ s.saves) : Durable cfg found t :=
  hs.move hlocal hlustre hsaves hwriting hqueue
    (hworker ▸ hs.worker_ok) hsaver hreturned
    (hworker ▸ hs.flush_ok.congr hlocal hlustre hreader hsaves hwriting)

/-- Every statement of `save_async` keeps the invariant. -/
theorem Durable.saver {s t : CkptState} (hs : Durable cfg found s)
    (hstep : saverStep cfg s = some t) : Durable cfg found t := by
  have hsaver := hs.saver_ok
  cases hpc : s.saver with
  | idle => simp [saverStep, hpc] at hstep
  | writing k data => exact hs.saved hpc hstep
  | written k data =>
      rw [hpc] at hsaver
      cases hfile : s.localDir (ckptName cfg.rank k) with
      | none =>
          -- `stat` raises and `save_async` ends
          obtain rfl := by simpa [saverStep, hpc, hfile] using hstep
          exact hs.congrSaver (by simp [Writing, hpc]) rfl rfl rfl rfl rfl
            hs.queue_ok trivial hs.returned_ok
      | some content =>
          obtain rfl := by simpa [saverStep, hpc, hfile] using hstep
          refine hs.congrSaver ?_ rfl rfl rfl rfl rfl hs.queue_ok ?_
            hs.returned_ok
          · intro j; cases cfg.hasLustre <;> simp [Writing, hpc]
          · dsimp only; cases cfg.hasLustre <;> exact hsaver
  | enqueuing k data size =>
      rw [hpc] at hsaver
      by_cases hfull : queueFull cfg s.queue = true
      · obtain rfl := by simpa [saverStep, hpc, hfull] using hstep
        exact hs.congrSaver (by simp [Writing, hpc]) rfl rfl rfl rfl rfl
          hs.queue_ok hsaver hs.returned_ok
      · obtain rfl := by simpa [saverStep, hpc, hfull] using hstep
        refine hs.congrSaver (by simp [Writing, hpc]) rfl rfl rfl rfl rfl
          ?_ hsaver hs.returned_ok
        intro job hjob
        rcases List.mem_append.mp hjob with hold | hnew
        · exact hs.queue_ok job hold
        · obtain rfl := List.mem_singleton.mp hnew
          exact ⟨rfl, rfl, data, hsaver⟩
  | counting k data size =>
      rw [hpc] at hsaver
      obtain rfl := by simpa [saverStep, hpc] using hstep
      exact hs.congrSaver (by simp [Writing, hpc]) rfl rfl rfl rfl rfl
        hs.queue_ok hsaver hs.returned_ok
  | returning k data =>
      rw [hpc] at hsaver
      obtain rfl := by simpa [saverStep, hpc] using hstep
      refine hs.congrSaver (by simp [Writing, hpc]) rfl rfl rfl rfl rfl
        hs.queue_ok trivial ?_
      intro p hp
      rcases List.mem_append.mp hp with hold | hnew
      · exact hs.returned_ok p hold
      · obtain rfl := List.mem_singleton.mp hnew
        exact hsaver

/-! ### The flush thread -/

/-- A statement of the flush thread that leaves every final name and every
local file alone: it may change the queue, the counters, and the temporary
file of its job. -/
theorem Durable.flushMove {s t : CkptState} (hs : Durable cfg found s)
    (hlocal : t.localDir = s.localDir)
    (hremote : ∀ k, t.lustreDir (ckptName cfg.rank k) =
      s.lustreDir (ckptName cfg.rank k))
    (hsaves : t.saves = s.saves) (hsaver : t.saver = s.saver)
    (hreturned : t.returned = s.returned)
    (hqueue : ∀ job ∈ t.queue, JobOk cfg s.saves job)
    (hworker : ∀ job, t.worker.job? = some job → JobOk cfg s.saves job)
    (hflush : FlushOk cfg t t.worker) : Durable cfg found t where
  queue_ok := by rw [hsaves]; exact hqueue
  worker_ok := by rw [hsaves]; exact hworker
  saver_ok := by
    have h := hs.saver_ok
    rw [hsaver]
    cases hpc : s.saver with
    | idle => trivial
    | writing k data =>
        rw [hpc] at h
        simpa only [SaverOk, hlocal] using h
    | written k data | enqueuing k data size | counting k data size
    | returning k data =>
        rw [hpc] at h
        simpa only [SaverOk, hsaves] using h
  returned_ok := by rw [hreturned, hsaves]; exact hs.returned_ok
  remote_ok := by
    intro k c h
    rw [hsaves]
    exact hs.remote_ok k c (by rw [← hremote]; exact h)
  current := by
    intro k c hc hw
    rw [hlocal, hremote]
    exact hs.current k c (by rw [← hsaves]; exact hc)
      (fun ⟨d, hd⟩ => hw ⟨d, by rw [hsaver]; exact hd⟩)
  flush_ok := hflush

/-- Writing to a temporary name changes no final name. -/
theorem update_tmp_ckptName {job : FlushJob} {saves : List (Int × Bytes)}
    (hjob : JobOk cfg saves job) (dir : Dir) (x : Option Bytes) (k : Int) :
    Function.update dir (tmpName job.remoteName) x (ckptName cfg.rank k) =
      dir (ckptName cfg.rank k) := by
  rw [hjob.remoteName_eq]
  exact Function.update_of_ne (tmpName_ne_final _ _ _ _).symm _ _

/-- Before the first raw read nothing has been taken; at it the file is the newest
version, which nobody writes. -/
theorem Copied.stable {s : CkptState} {job : FlushJob} {off : Nat}
    (hs : Durable cfg found s) (h : Copied cfg s job off) (hjob : JobOk cfg s.saves job)
    (hapart : off = 0 → s.reader.held = [] → ¬ Writing s job.step) :
    ∃ c p, Stable cfg s job c ∧ s.lustreDir (tmpName job.remoteName) = some p ∧
      p.length = off ∧ p ++ s.reader.held <+: c := by
  obtain ⟨hopen, c, p, htmp, hlen, hbegins, hstable⟩ := h
  by_cases hnone : p ++ s.reader.held = []
  · obtain ⟨rfl, hheld⟩ := List.append_eq_nil_iff.mp hnone
    have hfree := hapart hlen.symm hheld
    obtain ⟨data, hsaved⟩ := hjob.saved
    obtain ⟨c', hc'⟩ := exists_newest hsaved
    have hlocal := hs.current job.step c' hc' hfree
    rw [← hjob.localName_eq] at hlocal
    refine ⟨c', [], ⟨hc', hlocal.resolve_right fun h => hopen h.1, hfree⟩, htmp, hlen, ?_⟩
    rw [hheld]
    exact List.nil_prefix
  · exact ⟨c, p, hstable hnone, htmp, hlen, hbegins⟩

/-- What a step inside a read leaves the flush with. -/
theorem FlushOk.afterRead {s : CkptState} {job : FlushJob} {off : Nat} {i : FlushInput}
    {r : Option Bytes × BufferedReader UInt8} {data c p : Bytes}
    (h : ReadStep cfg s job off i r data) (hstable : Stable cfg s job c)
    (htmp : s.lustreDir (tmpName job.remoteName) = some p) (hlen : p.length = off)
    (hbegins : p ++ s.reader.held <+: c)
    (hzero : i = .next → s.chunkBytes = 0 → c.drop off = []) :
    FlushOk cfg (CheckpointManager.afterRead s job off r)
      (CheckpointManager.afterRead s job off r).worker := by
  have hcontent : content s.localDir job.localName = c := by
    simp [content, hstable.local_eq]
  rw [← hcontent] at hbegins hzero
  have htaken := h.begins hlen hbegins
  have hcomplete := fun hend => h.complete hlen hbegins hend hzero
  rw [hcontent] at htaken hcomplete
  obtain ⟨returned, reader⟩ := r
  cases returned with
  | none =>
      exact ⟨by simp [CheckpointManager.afterRead, hstable.local_eq], c, p, htmp, hlen,
        htaken, fun _ => ⟨hstable.newest_eq, hstable.local_eq, hstable.not_writing⟩⟩
  | some chunk =>
      simp only [CheckpointManager.afterRead]
      split
      · next hend =>
          -- nothing left to read
          have hall : p = c := hcomplete (by rw [hend])
          refine ⟨c, ⟨hstable.newest_eq, hstable.local_eq, hstable.not_writing⟩, ?_⟩
          rw [← hall]
          exact htmp
      · next hmore =>
          refine ⟨c, p, ⟨hstable.newest_eq, hstable.local_eq, hstable.not_writing⟩, htmp,
            hlen, hmore, ?_⟩
          rw [List.append_assoc]
          exact htaken

/-- A step inside a read: at the end of the file the temporary file is complete, and
otherwise what is taken continues it. -/
theorem Durable.read {s t : CkptState} (hs : Durable cfg found s) {job : FlushJob}
    {off : Nat} {i : FlushInput} (hreader : ReaderOk cfg s)
    (hpc : s.worker = .read job off) (hi : i = .next ∨ ∃ n, i = .raw n)
    (hapart : Apart s (.worker i)) (hstep : workerStep cfg s i = some t) :
    Durable cfg found t := by
  have hjob := hs.worker_ok job (by rw [hpc]; rfl)
  have hflush := hs.flush_ok
  rw [hpc] at hflush
  obtain ⟨r, data, h, rfl⟩ := workerStep_read hreader hpc hi hstep
  have hjobs : ∀ job', (CheckpointManager.afterRead s job off r).worker.job? = some job' →
      JobOk cfg s.saves job' := by
    have hsame : (CheckpointManager.afterRead s job off r).worker.job? = some job := by
      simp only [CheckpointManager.afterRead]
      split
      · rfl
      · split <;> rfl
    intro job' hjob'
    obtain rfl := Option.some.inj (hsame.symm.trans hjob')
    exact hjob
  refine hs.flushMove rfl (fun _ => rfl) rfl rfl rfl hs.queue_ok hjobs ?_
  by_cases hcalls : i = .next ∧ s.chunkBytes ≠ 0 ∧ off = 0 ∧ s.reader.held = []
  · -- the first call starts, and nothing has been taken yet
    obtain ⟨rfl, hsize, rfl, hheld⟩ := hcalls
    obtain ⟨hopen, c, p, htmp, hlen, -, -⟩ := hflush
    have hnone := h.kept
    rw [hheld, h.raw rfl] at hnone
    obtain ⟨hreturned, hheld'⟩ := List.append_eq_nil_iff.mp hnone
    have hgoes : r.1 = none := by
      cases hr : r.1 with
      | none => rfl
      | some chunk =>
          rw [hr] at hreturned
          obtain rfl : chunk = [] := hreturned
          rcases h.ends hr with ⟨-, hzero⟩ | ⟨hne, -⟩
          · exact absurd hzero hsize
          · exact absurd rfl hne
    obtain rfl := List.length_eq_zero_iff.mp hlen
    change r.2.held = [] at hheld'
    simp only [CheckpointManager.afterRead, hgoes]
    refine ⟨hopen, [], [], htmp, rfl, ?_, fun hsome => absurd hheld' hsome⟩
    dsimp only
    rw [hheld']
    exact List.prefix_rfl
  · obtain ⟨c, p, hstable, htmp, hlen, hbegins⟩ := Copied.stable hs hflush hjob <| by
      rintro rfl hheld
      rcases hi with rfl | ⟨n, rfl⟩
      · exact (hapart job 0 hpc (by simpa [hheld] using hcalls)).1
      · exact hapart job hpc hheld
    refine FlushOk.afterRead h hstable htmp hlen hbegins ?_
    rintro rfl hsize
    have hend := (hapart job off hpc hsize).2
    simpa [content, hstable.local_eq] using hend

/-- Writing a chunk extends the copy. -/
theorem Durable.write {s t : CkptState} (hs : Durable cfg found s) {job : FlushJob}
    {off : Nat} {chunk : Bytes} (hpc : s.worker = .write job off chunk)
    (hstep : workerStep cfg s .next = some t) : Durable cfg found t := by
  have hjob := hs.worker_ok job (by rw [hpc]; rfl)
  have hflush := hs.flush_ok
  rw [hpc] at hflush
  obtain ⟨c, p, hstable, htmp, hlen, -, hbegins⟩ := hflush
  obtain rfl := by simpa [workerStep, hpc] using hstep
  refine hs.flushMove rfl (update_tmp_ckptName hjob _ _) rfl rfl rfl
    hs.queue_ok (by simpa [FlushPc.job?] using hjob) ?_
  refine ⟨?_, c, p ++ chunk, ?_, ?_, hbegins, fun _ => ⟨hstable.newest_eq,
    hstable.local_eq, hstable.not_writing⟩⟩
  · simp [hstable.local_eq]
  · simp [content, htmp]
  · rw [List.length_append, hlen]

/-- The rename publishes the newest version, complete. -/
theorem Durable.rename {s t : CkptState} (hs : Durable cfg found s) {job : FlushJob}
    {off : Nat} (hpc : s.worker = .rename job off)
    (hstep : workerStep cfg s .next = some t) : Durable cfg found t := by
  have hjob := hs.worker_ok job (by rw [hpc]; rfl)
  have hflush := hs.flush_ok
  rw [hpc] at hflush
  obtain ⟨c, hstable, htmp⟩ := hflush
  obtain rfl := by simpa [workerStep, hpc, htmp] using hstep
  have hfinal : ∀ k, Function.update
      (Function.update s.lustreDir (tmpName job.remoteName) none)
        job.remoteName (some c) (ckptName cfg.rank k) =
      if k = job.step then some c else s.lustreDir (ckptName cfg.rank k) := by
    intro k
    by_cases hk : k = job.step
    · rw [if_pos hk, hk, ← hjob.remoteName_eq, Function.update_self]
    · have hne : ckptName cfg.rank k ≠ job.remoteName := by
        rw [hjob.remoteName_eq]
        exact fun h => hk (ckptName_injective h)
      rw [if_neg hk, Function.update_of_ne hne, update_tmp_ckptName hjob]
  exact
    { queue_ok := hs.queue_ok
      worker_ok := by simpa [FlushPc.job?] using hjob
      saver_ok := hs.saver_ok
      returned_ok := hs.returned_ok
      remote_ok := by
        intro k d h
        dsimp only at h
        rw [hfinal] at h
        split at h
        · next hk =>
            obtain rfl := Option.some.inj h
            exact .inr (hk ▸ mem_of_newest hstable.newest_eq)
        · exact hs.remote_ok k d h
      current := by
        intro k d hd hw
        by_cases hk : k = job.step
        · subst hk
          obtain rfl : c = d := by
            simpa [hstable.newest_eq] using hd
          exact .inl (by rw [← hjob.localName_eq]; exact hstable.local_eq)
        · dsimp only
          rw [hfinal, if_neg hk]
          exact hs.current k d hd hw
      flush_ok := ⟨c, ⟨hstable.newest_eq, hstable.local_eq,
        hstable.not_writing⟩, by simp⟩ }

/-- The unlink removes a local file whose content is published. -/
theorem Durable.unlink {s t : CkptState} (hs : Durable cfg found s) {job : FlushJob}
    (hpc : s.worker = .unlink job)
    (hstep : workerStep cfg s .next = some t) : Durable cfg found t := by
  have hjob := hs.worker_ok job (by rw [hpc]; rfl)
  have hflush := hs.flush_ok
  rw [hpc] at hflush
  obtain ⟨c, hstable, hfile⟩ := hflush
  obtain rfl := by simpa [workerStep, hpc] using hstep
  have hother : ∀ k, k ≠ job.step → Function.update s.localDir job.localName
      none (ckptName cfg.rank k) = s.localDir (ckptName cfg.rank k) := by
    intro k hk
    rw [hjob.localName_eq]
    exact Function.update_of_ne (fun h => hk (ckptName_injective h)) _ _
  exact
    { queue_ok := hs.queue_ok
      worker_ok := by simp [FlushPc.job?]
      saver_ok := by
        have h := hs.saver_ok
        cases hsv : s.saver with
        | writing k data =>
            rw [hsv] at h
            have hk : k ≠ job.step := by
              rintro rfl
              exact hstable.not_writing ⟨data, hsv⟩
            simpa only [SaverOk, hother k hk] using h
        | idle => trivial
        | written k data | enqueuing k data size | counting k data size
        | returning k data => rw [hsv] at h; exact h
      returned_ok := hs.returned_ok
      remote_ok := hs.remote_ok
      current := by
        intro k d hd hw
        by_cases hk : k = job.step
        · subst hk
          obtain rfl : c = d := by simpa [hstable.newest_eq] using hd
          exact .inr ⟨by simp [hjob.localName_eq],
            by rw [← hjob.remoteName_eq]; exact hfile⟩
        · dsimp only
          rw [hother k hk]
          exact hs.current k d hd hw
      flush_ok := trivial }

/-- A statement that changes neither directory: it advances the thread from a
statement of the flush of `job` to `w`, and may change the counters, the chunk
size and the queue. -/
theorem Durable.advance {s t : CkptState} (hs : Durable cfg found s)
    (hfiles : t.localDir = s.localDir ∧ t.lustreDir = s.lustreDir ∧
      t.reader = s.reader)
    (hthread : t.saves = s.saves ∧ t.saver = s.saver ∧
      t.returned = s.returned)
    (hqueue : ∀ job ∈ t.queue, job ∈ s.queue)
    (hworker : ∀ job, t.worker.job? = some job → JobOk cfg s.saves job)
    (hflush : FlushOk cfg s t.worker) : Durable cfg found t :=
  hs.flushMove hfiles.1 (fun _ => by rw [hfiles.2.1]) hthread.1 hthread.2.1
    hthread.2.2 (fun job h => hs.queue_ok job (hqueue job h)) hworker
    (hflush.congr hfiles.1 hfiles.2.1 hfiles.2.2 hthread.1 fun k => by
      simp only [Writing, hthread.2.1])

/-- A statement that only moves the flush thread, to `w`. -/
theorem Durable.goto {s : CkptState} (hs : Durable cfg found s) {w : FlushPc}
    (hworker : ∀ job, w.job? = some job → JobOk cfg s.saves job)
    (hflush : FlushOk cfg s w) : Durable cfg found { s with worker := w } := by
  exact hs.advance ⟨rfl, rfl, rfl⟩ ⟨rfl, rfl, rfl⟩ (fun _ => id)
    hworker hflush

/-- A statement that leaves the flush of a job, or that is outside of one. -/
theorem Durable.idle {s : CkptState} (hs : Durable cfg found s) {w : FlushPc}
    (hjob : w.job? = none) (hflush : FlushOk cfg s w) :
    Durable cfg found { s with worker := w } := by
  apply hs.goto
  · simp [hjob]
  · exact hflush

/-- The counters of the flush thread are not part of the invariant. -/
theorem Durable.count {s : CkptState} (hs : Durable cfg found s)
    (lustre : Nat) (pending : Int) (flushes waits unfinished : Nat) :
    Durable cfg found { s with
      bytesLustre := lustre
      bytesPending := pending
      flushCount := flushes
      throttleWaits := waits
      unfinished := unfinished } := by
  exact hs.advance ⟨rfl, rfl, rfl⟩ ⟨rfl, rfl, rfl⟩ (fun _ => id)
    hs.worker_ok hs.flush_ok

/-- Every statement of the flush thread keeps the invariant. -/
theorem Durable.worker {s t : CkptState} (hs : Durable cfg found s) {i : FlushInput}
    (hreader : ReaderOk cfg s) (hapart : Apart s (.worker i))
    (hstep : workerStep cfg s i = some t) : Durable cfg found t := by
  have hflush := hs.flush_ok
  have hjob := hs.worker_ok
  cases flushStep_of_step hstep with
  | poll hpc hgoing | halt hpc hstop | empty hpc hqueue | vanished hpc hfile
  | lost hpc htmp | fail hflushing hpc => exact hs.idle rfl trivial
  | @take job rest hpc hqueue =>
      have hmem : ∀ job' ∈ rest, job' ∈ s.queue := by simp_all
      refine hs.advance ⟨rfl, rfl, rfl⟩ ⟨rfl, rfl, rfl⟩ hmem ?_ trivial
      intro job' h
      obtain rfl := Option.some.inj h
      exact hs.queue_ok job (by simp [hqueue])
  | missing hpc hfile => exact (hs.idle (w := .taskDone) rfl trivial).count _ _ _ _ _
  | found hpc hfile =>
      rw [hpc] at hjob
      exact hs.goto hjob trivial
  | openSrc hpc hfile =>
      rw [hpc] at hjob
      exact hs.flushMove rfl (fun _ => rfl) rfl rfl rfl hs.queue_ok hjob
        (by simp [FlushOk, hfile])
  | @openTmp job hpc =>
      rw [hpc] at hflush hjob
      have hopened : s.reader = .ready [] := by
        unfold ReaderOk at hreader
        rw [hpc] at hreader
        exact hreader
      refine hs.flushMove rfl (update_tmp_ckptName (hjob job rfl) _ _) rfl
        rfl rfl hs.queue_ok hjob ⟨hflush, [], [], by simp, rfl, ?_, ?_⟩
      · simp [hopened]
      · simp [hopened]
  | resize hpc =>
      rw [hpc] at hflush hjob
      exact hs.advance ⟨rfl, rfl, rfl⟩ ⟨rfl, rfl, rfl⟩ (fun _ => id) hjob hflush
  | unpaced hpc hmonitor | blocked hpc hmonitor hr | passes hpc
  | recompute hpc =>
      rw [hpc] at hflush hjob
      exact hs.goto hjob hflush
  | @granted job off est r hpc hmonitor hr =>
      rw [hpc] at hflush hjob
      exact (hs.goto (w := .read job off) hjob hflush).count _ _ _ _ _
  | @waits job off hpc hgoing =>
      rw [hpc] at hflush hjob
      exact (hs.goto (w := .gate job off) hjob hflush).count _ _ _ _ _
  | givesUp hpc hstop =>
      -- the call returns, leaving only the temporary file
      exact (hs.idle (w := .taskDone) rfl trivial).count _ _ _ _ _
  | read hpc hi =>
      exact hs.read hreader hpc hi hapart hstep
  | write hpc => exact hs.write hpc hstep
  | rename hpc htmp => exact hs.rename hpc hstep
  | @account job off hpc =>
      rw [hpc] at hflush hjob
      exact (hs.goto (w := .unlink job) hjob hflush).count _ _ _ _ _
  | unlink hpc => exact hs.unlink hpc hstep
  | taskDone hpc => exact (hs.idle (w := .poll) rfl trivial).count _ _ _ _ _
  | @failWrite job off chunk n hpc =>
      -- at most the temporary file has changed
      have hnamed := hjob job (by rw [hpc]; rfl)
      exact hs.flushMove rfl (update_tmp_ckptName hnamed _ _) rfl rfl rfl
        hs.queue_ok (by simp [FlushPc.job?]) trivial

/-- One step of either thread keeps the invariant. -/
theorem Durable.step {s t : CkptState} {e : CkptEvent} (hs : Durable cfg found s)
    (hreader : ReaderOk cfg s) (hapart : Apart s e) (hstep : step cfg s e = some t) :
    Durable cfg found t := by
  cases e with
  | save k partialData data => exact hs.save hapart hstep
  | saver => exact hs.saver hstep
  | worker i => exact hs.worker hreader hapart hstep
  | shutdown =>
      obtain rfl := by simpa [CheckpointManager.step] using hstep
      exact hs.advance ⟨rfl, rfl, rfl⟩ ⟨rfl, rfl, rfl⟩ (fun _ => id)
        hs.worker_ok hs.flush_ok

end CheckpointManager

end Tempo
