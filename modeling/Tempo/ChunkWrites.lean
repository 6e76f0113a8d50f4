import Mathlib.Algebra.Order.BigOperators.Group.List
import Tempo.PacedFlush

/-!
# The chunk writes to come

How many chunks the flush thread may still write: of the file that it is copying, with
what its reader holds of it, and of the files of the queued jobs.  Only none, one and
more are told apart, and more is two.  A file that is about to be written again, and
then longer than what has been read of it, counts for two: a read may end at the end of
the version before.

While there is at most one to come, no statement of the thread adds to it, and one that
writes a chunk takes it away (`worker_writes`).
-/

namespace Tempo

namespace CheckpointManager

/-- The copy loop sets the size of its chunks. -/
def resizes (cfg : CkptConfig) : Bool := cfg.adaptiveChunk && cfg.hasMonitor

/-- How many chunk writes copying `left` bytes takes, if the chunk size can be reset
or not. -/
def chunkWrites (mayResize : Bool) (chunkBytes : Int) (left : Nat) : Nat :=
  if left = 0 ∨ mayResize = false ∧ (chunkBytes = 0 ∨ chunkBytes < -1) then 0
  else if (0 < chunkBytes → left ≤ chunkBytes) ∧ (mayResize = true → left ≤ minChunkBytes)
  then 1
  else 2

/-- The same for a file of which all up to `pos` has been taken and `heldBytes` are held;
a save will still make it as long as `rewritten` says, if that is more than it is. -/
def fileWrites (rewritten : String → Nat) (s : CkptState) (mayResize : Bool)
    (name : String) (heldBytes pos : Nat) : Nat :=
  if pos < rewritten name then 2
  else
    chunkWrites mayResize s.chunkBytes
      (heldBytes + ((content s.localDir name).length - pos))

/-- For a job that has not been begun. -/
def jobWrites (cfg : CkptConfig) (rewritten : String → Nat) (s : CkptState)
    (job : FlushJob) : Nat :=
  fileWrites rewritten s (resizes cfg) job.localName 0 0

/-- For the job of the flush thread, with the chunk that it is about to write. -/
def currentWrites (cfg : CkptConfig) (rewritten : String → Nat) (s : CkptState) : Nat :=
  let ahead := s.reader.held.length
  match s.worker with
  | .check job | .openSrc job | .openTmp job => jobWrites cfg rewritten s job
  | .resize job off =>
      fileWrites rewritten s (resizes cfg) job.localName ahead (off + ahead)
  | .pace job off | .gate job off | .recompute job off | .read job off =>
      fileWrites rewritten s false job.localName ahead (off + ahead)
  | .write job off chunk =>
      1 + fileWrites rewritten s (resizes cfg) job.localName ahead
        (off + chunk.length + ahead)
  | _ => 0

/-- For the jobs in the queue, and for the one of `saved` bytes that a save will put
there. -/
def pendingWrites (cfg : CkptConfig) (rewritten : String → Nat) (saved : Option Nat)
    (s : CkptState) : Nat :=
  (s.queue.map (jobWrites cfg rewritten s)).sum +
    (saved.map (chunkWrites (resizes cfg) s.chunkBytes)).getD 0

/-- For all of them, unless the thread has ended. -/
def writesToCome (cfg : CkptConfig) (rewritten : String → Nat) (saved : Option Nat)
    (s : CkptState) : Nat :=
  if s.worker = .stopped then 0
  else currentWrites cfg rewritten s + pendingWrites cfg rewritten saved s

variable {cfg : CkptConfig} {rewritten rewritten' : String → Nat}
  {saved saved' : Option Nat}
  {s t : CkptState} {i : FlushInput}

/-! ### Chunks -/

theorem chunkWrites_le_two (mayResize : Bool) (chunkBytes : Int) (left : Nat) :
    chunkWrites mayResize chunkBytes left ≤ 2 := by
  unfold chunkWrites
  split
  · omega
  · split <;> omega

theorem chunkWrites_mono {mayResize : Bool} {chunkBytes : Int} {left left' : Nat}
    (h : left ≤ left') :
    chunkWrites mayResize chunkBytes left ≤ chunkWrites mayResize chunkBytes left' := by
  by_cases hnone : left = 0 ∨ mayResize = false ∧ (chunkBytes = 0 ∨ chunkBytes < -1)
  · rw [chunkWrites, if_pos hnone]
    exact Nat.zero_le _
  · have hnone' : ¬ (left' = 0 ∨
        mayResize = false ∧ (chunkBytes = 0 ∨ chunkBytes < -1)) := fun h' =>
      hnone (h'.imp_left fun h₀ => by omega)
    simp only [chunkWrites, if_neg hnone, if_neg hnone']
    split
    · split <;> omega
    · next hmore =>
        rw [if_neg fun hone => hmore
          ⟨fun hpos => (Int.ofNat_le.mpr h).trans (hone.1 hpos),
            fun hresize => (Int.ofNat_le.mpr h).trans (hone.2 hresize)⟩]

/-- Resetting the size adds nothing to what it may lead to. -/
theorem chunkWrites_resize {mayResize : Bool} (h : mayResize = true → resizes cfg = true)
    (chunkBytes : Int) (target : Option Int) (left : Nat) :
    chunkWrites mayResize (resizeChunk cfg chunkBytes target) left ≤
      chunkWrites (resizes cfg) chunkBytes left := by
  by_cases hresizes : resizes cfg = true
  · have hnone : ∀ h₀ : left ≠ 0, ¬ (left = 0 ∨
        resizes cfg = false ∧ (chunkBytes = 0 ∨ chunkBytes < -1)) := by
      simp [hresizes]
    by_cases hzero : left = 0
    · simp [chunkWrites, hzero]
    rw [chunkWrites.eq_def (resizes cfg), if_neg (hnone hzero)]
    by_cases hone : (0 < chunkBytes → (left : Int) ≤ chunkBytes) ∧
        (resizes cfg = true → (left : Int) ≤ minChunkBytes)
    · rw [if_pos hone]
      have hmin := hone.2 hresizes
      have hnew : 0 < resizeChunk cfg chunkBytes target →
          (left : Int) ≤ resizeChunk cfg chunkBytes target := by
        unfold resizeChunk
        split
        · split
          · exact fun _ => hmin.trans (le_max_left _ _)
          · exact hone.1
        · exact hone.1
      rw [chunkWrites, if_pos (⟨hnew, fun _ => hmin⟩ : _ ∧ _)]
      split <;> omega
    · rw [if_neg hone]
      exact chunkWrites_le_two _ _ _
  · have hsame : resizeChunk cfg chunkBytes target = chunkBytes := by
      unfold resizeChunk
      split
      · exact if_neg hresizes
      · rfl
    obtain rfl : mayResize = resizes cfg := by
      cases mayResize with
      | true => exact absurd (h rfl) hresizes
      | false => exact (Bool.eq_false_iff.mpr hresizes).symm
    rw [hsame]

/-- A chunk is taken from what is one chunk: nothing is left. -/
theorem chunkWrites_take {mayResize : Bool} {chunkBytes : Int} {chunk left : Nat}
    (hsize : -1 ≤ chunkBytes) (hzero : chunkBytes ≠ 0) (hpos : 0 < chunk)
    (hchunk : (chunk : Int) = chunkBytes ∨ left = 0)
    (hle : chunkWrites false chunkBytes (chunk + left) ≤ 1) :
    1 + chunkWrites mayResize chunkBytes left ≤
      chunkWrites false chunkBytes (chunk + left) := by
  have hsome : ¬ (chunk + left = 0 ∨
      false = false ∧ (chunkBytes = 0 ∨ chunkBytes < -1)) := by
    omega
  rw [chunkWrites.eq_def false, if_neg hsome] at hle ⊢
  by_cases hone : (0 < chunkBytes → ((chunk + left : Nat) : Int) ≤ chunkBytes) ∧
      (false = true → ((chunk + left : Nat) : Int) ≤ minChunkBytes)
  · obtain rfl : left = 0 := by
      have hfits := hone.1
      omega
    rw [if_pos hone, chunkWrites, if_pos (Or.inl rfl)]
  · rw [if_neg hone] at hle
    omega

/-! ### Files -/

/-- A file that has not grown, or only as a save was to make it. -/
theorem fileWrites_mono {mayResize mayResize' : Bool} {name : String} {heldBytes pos : Nat}
    (hchunk : ∀ left, chunkWrites mayResize t.chunkBytes left ≤
      chunkWrites mayResize' s.chunkBytes left)
    (hrewritten : rewritten' name ≤ rewritten name)
    (hlength : (content t.localDir name).length ≤
      max (content s.localDir name).length (rewritten name)) :
    fileWrites rewritten' t mayResize name heldBytes pos ≤
      fileWrites rewritten s mayResize' name heldBytes pos := by
  unfold fileWrites
  by_cases hpos : pos < rewritten name
  · rw [if_pos hpos]
    split
    · exact le_rfl
    · exact chunkWrites_le_two _ _ _
  · rw [if_neg hpos, if_neg (by omega)]
    exact (hchunk _).trans (chunkWrites_mono (by omega))

/-- What is taken from the file is held. -/
theorem fileWrites_hold {mayResize : Bool} {name : String} {heldBytes pos more : Nat}
    (hmore : more ≤ (content s.localDir name).length - pos) :
    fileWrites rewritten s mayResize name (heldBytes + more) (pos + more) ≤
      fileWrites rewritten s mayResize name heldBytes pos := by
  unfold fileWrites
  by_cases hpos : pos < rewritten name
  · rw [if_pos hpos]
    split
    · exact le_rfl
    · exact chunkWrites_le_two _ _ _
  · rw [if_neg hpos, if_neg (by omega)]
    exact chunkWrites_mono (by omega)

/-- A chunk is taken from a file that is one chunk. -/
theorem fileWrites_take {mayResize : Bool} {name : String} {heldBytes pos chunk : Nat}
    (hsize : -1 ≤ s.chunkBytes) (hzero : s.chunkBytes ≠ 0) (hpos : 0 < chunk)
    (hchunk : (chunk : Int) = s.chunkBytes ∨
      heldBytes = 0 ∧ (content s.localDir name).length ≤ pos)
    (hle : fileWrites rewritten s false name (chunk + heldBytes) pos ≤ 1) :
    1 + fileWrites rewritten s mayResize name heldBytes pos ≤
      fileWrites rewritten s false name (chunk + heldBytes) pos := by
  unfold fileWrites at hle ⊢
  by_cases hrewritten : pos < rewritten name
  · rw [if_pos hrewritten] at hle
    omega
  · rw [if_neg hrewritten, Nat.add_assoc] at hle ⊢
    rw [if_neg hrewritten]
    exact chunkWrites_take hsize hzero hpos (by omega) hle

/-! ### The flush thread -/

/-- What a statement of the flush thread leaves of the files to copy: it may reset the
chunk size and unlink a file, and takes jobs only from the head of the queue. -/
structure FlushFrame (cfg : CkptConfig) (s t : CkptState) : Prop where
  saver : t.saver = s.saver
  chunk : ∃ target, t.chunkBytes = resizeChunk cfg s.chunkBytes target
  files : ∀ name, (content t.localDir name).length ≤ (content s.localDir name).length
  queue : t.queue = s.queue ∨
    ∃ job, s.queue = job :: t.queue ∧ s.worker = .get ∧ t.worker = .check job

theorem flushFrame_of_step (hstep : workerStep cfg s i = some t) : FlushFrame cfg s t := by
  have hsame : ∃ target, s.chunkBytes = resizeChunk cfg s.chunkBytes target := ⟨none, rfl⟩
  cases flushStep_of_step hstep with
  | take hpc hqueue => exact ⟨rfl, hsame, fun _ => le_rfl, .inr ⟨_, hqueue, hpc, rfl⟩⟩
  | resize hpc => exact ⟨rfl, ⟨_, rfl⟩, fun _ => le_rfl, .inl rfl⟩
  | @unlink job hpc =>
      refine ⟨rfl, hsame, fun name => ?_, .inl rfl⟩
      unfold content
      by_cases hname : name = job.localName
      · simp [hname]
      · simp [Function.update_of_ne hname]
  | read hpc hi =>
      obtain ⟨worker, hmoves, -⟩ := afterRead_moves s _ _ _
      rw [hmoves]
      exact ⟨rfl, hsame, fun _ => le_rfl, .inl rfl⟩
  | _ => exact ⟨rfl, hsame, fun _ => le_rfl, .inl rfl⟩

theorem FlushFrame.fileWrites_le (h : FlushFrame cfg s t) {mayResize : Bool}
    (hresizes : mayResize = true → resizes cfg = true) (name : String)
    (heldBytes pos : Nat) :
    fileWrites rewritten t mayResize name heldBytes pos ≤
      fileWrites rewritten s (resizes cfg) name heldBytes pos := by
  obtain ⟨target, hchunk⟩ := h.chunk
  refine fileWrites_mono (fun left => ?_) le_rfl ((h.files name).trans (le_max_left _ _))
  rw [hchunk]
  exact chunkWrites_resize hresizes _ _ _

theorem FlushFrame.jobWrites_le (h : FlushFrame cfg s t) (job : FlushJob) :
    jobWrites cfg rewritten t job ≤ jobWrites cfg rewritten s job :=
  h.fileWrites_le id _ _ _

/-- What is pending is not more, and a job that is taken is no more pending. -/
theorem FlushFrame.pendingWrites_le (h : FlushFrame cfg s t) :
    pendingWrites cfg rewritten saved t ≤ pendingWrites cfg rewritten saved s ∧
      ∀ job, s.queue = job :: t.queue →
        jobWrites cfg rewritten t job + pendingWrites cfg rewritten saved t ≤
          pendingWrites cfg rewritten saved s := by
  have hjobs : ∀ jobs : List FlushJob, (jobs.map (jobWrites cfg rewritten t)).sum ≤
      (jobs.map (jobWrites cfg rewritten s)).sum := fun jobs =>
    List.sum_le_sum fun job _ => h.jobWrites_le job
  have hsaved : (saved.map (chunkWrites (resizes cfg) t.chunkBytes)).getD 0 ≤
      (saved.map (chunkWrites (resizes cfg) s.chunkBytes)).getD 0 := by
    obtain ⟨target, hchunk⟩ := h.chunk
    cases saved with
    | none => exact le_rfl
    | some size =>
        simp only [Option.map_some, Option.getD_some, hchunk]
        exact chunkWrites_resize id _ _ _
  have htaken : ∀ job, s.queue = job :: t.queue →
      jobWrites cfg rewritten t job + pendingWrites cfg rewritten saved t ≤
        pendingWrites cfg rewritten saved s := by
    intro job hqueue
    have hjob : jobWrites cfg rewritten t job ≤ jobWrites cfg rewritten s job :=
      h.jobWrites_le job
    have hrest := hjobs t.queue
    simp only [pendingWrites, hqueue, List.map_cons, List.sum_cons]
    omega
  refine ⟨?_, htaken⟩
  rcases h.queue with hqueue | ⟨job, hqueue, -, -⟩
  · have hrest := hjobs s.queue
    simp only [pendingWrites, hqueue]
    omega
  · have hless := htaken job hqueue
    omega

/-- The read, in a file that is at most one chunk. -/
theorem currentWrites_read {job : FlushJob} {off : Nat} (hreader : ReaderOk cfg s)
    (hpc : s.worker = .read job off) (hi : i = .next ∨ ∃ n, i = .raw n)
    (hle : currentWrites cfg rewritten s ≤ 1) (hstep : workerStep cfg s i = some t) :
    currentWrites cfg rewritten t ≤ currentWrites cfg rewritten s := by
  obtain ⟨⟨returned, reader⟩, data, h, rfl⟩ := workerStep_read hreader hpc hi hstep
  have hmore : data.length ≤
      (content s.localDir job.localName).length - (off + s.reader.held.length) := by
    simpa using h.takes.length_le
  have hhold : fileWrites rewritten s false job.localName
      (s.reader.held.length + data.length) (off + s.reader.held.length + data.length) ≤
      fileWrites rewritten s false job.localName s.reader.held.length
        (off + s.reader.held.length) :=
    fileWrites_hold hmore
  have hkept := congrArg List.length h.kept
  rw [List.length_append, List.length_append] at hkept
  simp only [currentWrites, hpc] at hle ⊢
  dsimp only at hkept
  cases returned with
  | none =>
      dsimp only [afterRead]
      rw [Option.getD_none, List.length_nil, Nat.zero_add] at hkept
      rw [hkept, ← Nat.add_assoc]
      exact hhold
  | some chunk =>
      rw [Option.getD_some] at hkept
      by_cases hnil : chunk = []
      · simp [afterRead, hnil]
      simp only [afterRead, if_neg hnil]
      -- the chunk and what is held then are what was held and what was taken
      have hpos := List.length_pos_of_ne_nil hnil
      have hzero : s.chunkBytes ≠ 0 := by
        intro hzero
        by_cases hi : i = .next
        · have hended : some chunk = some [] := h.size_zero hi hzero
          exact hnil (Option.some.inj hended)
        · exact (h.reading hi).1 hzero
      have hchunk : (chunk.length : Int) = s.chunkBytes ∨ reader.held.length = 0 ∧
          (content s.localDir job.localName).length ≤
            off + s.reader.held.length + data.length := by
        refine (h.length chunk rfl).imp_right ?_
        rintro ⟨rfl, hend⟩
        have hend := List.drop_eq_nil_iff.mp hend
        omega
      rw [← hkept] at hhold
      have htake : 1 + fileWrites rewritten s (resizes cfg) job.localName
          reader.held.length (off + s.reader.held.length + data.length) ≤ _ :=
        fileWrites_take h.neg_one_le hzero hpos hchunk (hhold.trans hle)
      have hplace : off + chunk.length + reader.held.length =
          off + s.reader.held.length + data.length := by
        omega
      rw [hplace]
      exact htake.trans hhold

/-- The other statements. -/
theorem currentWrites_step (hreader : ReaderOk cfg s)
    (hle : currentWrites cfg rewritten s ≤ 1) (hbusy : s.worker ≠ .get)
    (hstep : workerStep cfg s i = some t) :
    s.worker.atWrite.toNat + currentWrites cfg rewritten t ≤
      currentWrites cfg rewritten s := by
  have hframe := flushFrame_of_step hstep
  cases flushStep_of_step hstep with
  | empty hpc _ | take hpc _ => exact absurd hpc hbusy
  | read hpc hi => simpa [hpc, FlushPc.atWrite] using currentWrites_read hreader hpc hi hle hstep
  | openTmp hpc =>
      have hempty : s.reader = .ready [] := by simpa [ReaderOk, hpc] using hreader
      simp [currentWrites, hpc, hempty, jobWrites, fileWrites, FlushPc.atWrite]
  | @resize job off x hpc =>
      have hfile : fileWrites rewritten _ false job.localName s.reader.held.length
          (off + s.reader.held.length) ≤ fileWrites rewritten s (resizes cfg)
          job.localName s.reader.held.length (off + s.reader.held.length) :=
        hframe.fileWrites_le (by simp) _ _ _
      simpa [currentWrites, hpc, FlushPc.atWrite] using hfile
  | fail hjob hpc =>
      have hno : s.worker.atWrite = false := by
        cases hw : s.worker with
        | write job off chunk => exact absurd hw (hpc _ _ _)
        | _ => rfl
      simp [currentWrites, hno]
  | _ hpc => simp [currentWrites, hpc, jobWrites, fileWrites, FlushPc.atWrite]

/-- **Each chunk write is one of those that were to come**, while these are at most
one. -/
theorem worker_writes (hreader : ReaderOk cfg s)
    (hle : writesToCome cfg rewritten saved s ≤ 1)
    (hstep : workerStep cfg s i = some t) :
    s.worker.atWrite.toNat + writesToCome cfg rewritten saved t ≤
      writesToCome cfg rewritten saved s := by
  have hframe := flushFrame_of_step hstep
  have hpending : pendingWrites cfg rewritten saved t ≤ pendingWrites cfg rewritten saved s :=
    hframe.pendingWrites_le.1
  have hgoes : s.worker ≠ .stopped := by
    intro hpc
    cases i <;> simp [workerStep, hpc, FlushPc.job?] at hstep
  have hless : writesToCome cfg rewritten saved t ≤
      currentWrites cfg rewritten t + pendingWrites cfg rewritten saved t := by
    unfold writesToCome
    split
    · exact Nat.zero_le _
    · exact le_rfl
  have hall : writesToCome cfg rewritten saved s =
      currentWrites cfg rewritten s + pendingWrites cfg rewritten saved s := if_neg hgoes
  by_cases hget : s.worker = .get
  · have hnone : currentWrites cfg rewritten s = 0 := by simp [currentWrites, hget]
    have hwrite : s.worker.atWrite.toNat = 0 := by rw [hget]; rfl
    rcases hframe.queue with hqueue | ⟨job, hqueue, -, hcheck⟩
    · have hpoll : currentWrites cfg rewritten t = 0 := by
        cases i with
        | next =>
            cases hq : s.queue with
            | nil =>
                obtain rfl := by simpa [workerStep, hget, hq] using hstep
                simp [currentWrites]
            | cons job rest =>
                obtain rfl := by simpa [workerStep, hget, hq] using hstep
                simp [hq] at hqueue
        | _ => simp [workerStep, hget, FlushPc.job?] at hstep
      omega
    · have htake : jobWrites cfg rewritten t job + pendingWrites cfg rewritten saved t ≤
          pendingWrites cfg rewritten saved s :=
        hframe.pendingWrites_le.2 job hqueue
      have hjob : currentWrites cfg rewritten t = jobWrites cfg rewritten t job := by
        simp [currentWrites, hcheck]
      omega
  · have hcurrent : s.worker.atWrite.toNat + currentWrites cfg rewritten t ≤
        currentWrites cfg rewritten s :=
      currentWrites_step hreader (by omega) hget hstep
    omega

/-! ### The save -/

/-- What a save leaves of the files to copy: it makes a file no longer than it was to
make it. -/
structure SaveFrame (rewritten rewritten' : String → Nat) (s t : CkptState) : Prop where
  worker : t.worker = s.worker
  reader : t.reader = s.reader
  chunk : t.chunkBytes = s.chunkBytes
  rewritten_le : ∀ name, rewritten' name ≤ rewritten name
  files : ∀ name, (content t.localDir name).length ≤
    max (content s.localDir name).length (rewritten name)

theorem SaveFrame.fileWrites_le (h : SaveFrame rewritten rewritten' s t) (mayResize : Bool)
    (name : String) (heldBytes pos : Nat) :
    fileWrites rewritten' t mayResize name heldBytes pos ≤
      fileWrites rewritten s mayResize name heldBytes pos :=
  fileWrites_mono (fun left => by rw [h.chunk]) (h.rewritten_le name) (h.files name)

theorem SaveFrame.currentWrites_le (h : SaveFrame rewritten rewritten' s t) :
    currentWrites cfg rewritten' t ≤ currentWrites cfg rewritten s := by
  unfold currentWrites jobWrites
  rw [h.worker, h.reader]
  cases s.worker <;>
    first
    | exact le_rfl
    | exact h.fileWrites_le _ _ _ _
    | exact Nat.add_le_add_left (h.fileWrites_le _ _ _ _) 1

theorem SaveFrame.queue_le (h : SaveFrame rewritten rewritten' s t) (jobs : List FlushJob) :
    (jobs.map (jobWrites cfg rewritten' t)).sum ≤
      (jobs.map (jobWrites cfg rewritten s)).sum :=
  List.sum_le_sum fun _ _ => h.fileWrites_le _ _ _ _

/-- Nothing is queued; the save may have failed. -/
theorem SaveFrame.writesToCome_le (h : SaveFrame rewritten rewritten' s t)
    (hqueue : t.queue = s.queue) (hsaved : saved' = saved ∨ saved' = none) :
    writesToCome cfg rewritten' saved' t ≤ writesToCome cfg rewritten saved s := by
  have hcurrent : currentWrites cfg rewritten' t ≤ currentWrites cfg rewritten s :=
    h.currentWrites_le
  have hqueued : (s.queue.map (jobWrites cfg rewritten' t)).sum ≤
      (s.queue.map (jobWrites cfg rewritten s)).sum := h.queue_le s.queue
  have hrest : (saved'.map (chunkWrites (resizes cfg) t.chunkBytes)).getD 0 ≤
      (saved.map (chunkWrites (resizes cfg) s.chunkBytes)).getD 0 := by
    rw [h.chunk]
    rcases hsaved with rfl | rfl
    · exact le_rfl
    · exact Nat.zero_le _
  unfold writesToCome pendingWrites
  rw [h.worker, hqueue]
  split
  · exact le_rfl
  · omega

/-- The job of the save is queued. -/
theorem SaveFrame.writesToCome_queued (h : SaveFrame rewritten rewritten' s t)
    {job : FlushJob} {size : Nat} (hqueue : t.queue = s.queue ++ [job])
    (hwritten : rewritten' job.localName = 0)
    (hfile : (content t.localDir job.localName).length ≤ size) :
    writesToCome cfg rewritten' none t ≤ writesToCome cfg rewritten (some size) s := by
  have hcurrent : currentWrites cfg rewritten' t ≤ currentWrites cfg rewritten s :=
    h.currentWrites_le
  have hqueued : (s.queue.map (jobWrites cfg rewritten' t)).sum ≤
      (s.queue.map (jobWrites cfg rewritten s)).sum := h.queue_le s.queue
  have hjob : jobWrites cfg rewritten' t job ≤
      chunkWrites (resizes cfg) s.chunkBytes size := by
    rw [jobWrites, fileWrites, hwritten, if_neg (Nat.not_lt_zero 0), h.chunk]
    exact chunkWrites_mono (by omega)
  unfold writesToCome pendingWrites
  rw [h.worker, hqueue]
  split
  · exact le_rfl
  · simp only [List.map_append, List.sum_append, List.map_singleton, List.sum_singleton,
      Option.map_none, Option.getD_none, Option.map_some, Option.getD_some]
    omega

/-- The file of a save is no longer than what was saved, from its completion on. -/
def SavedFile (cfg : CkptConfig) (s : CkptState) : Prop :=
  match s.saver with
  | .written k data | .enqueuing k data _ =>
      (content s.localDir (ckptName cfg.rank k)).length ≤ data.length
  | _ => True

theorem SavedFile.step {e : CkptEvent} (hs : SavedFile cfg s) (hstep : step cfg s e = some t) :
    SavedFile cfg t := by
  cases e with
  | save k partialData data =>
      obtain ⟨-, rfl⟩ := by simpa [CheckpointManager.step] using hstep
      trivial
  | saver =>
      change saverStep cfg s = some t at hstep
      cases hpc : s.saver with
      | idle => simp [saverStep, hpc] at hstep
      | writing k data =>
          obtain rfl := by simpa [saverStep, hpc] using hstep
          cases hfile : s.localDir (ckptName cfg.rank k) <;>
            simp [SavedFile, content, hfile]
      | written k data =>
          unfold SavedFile at hs
          rw [hpc] at hs
          cases hfile : s.localDir (ckptName cfg.rank k) with
          | none =>
              obtain rfl := by simpa [saverStep, hpc, hfile] using hstep
              trivial
          | some c =>
              obtain rfl := by simpa [saverStep, hpc, hfile] using hstep
              cases hlustre : cfg.hasLustre with
              | true => simpa [SavedFile, hlustre] using hs
              | false => simp [SavedFile]
      | enqueuing k data size =>
          by_cases hfull : queueFull cfg s.queue = true
          · obtain rfl := by simpa [saverStep, hpc, hfull] using hstep
            trivial
          · obtain rfl := by simpa [saverStep, hpc, hfull] using hstep
            trivial
      | counting k data size | returning k data =>
          obtain rfl := by simpa [saverStep, hpc] using hstep
          trivial
  | worker i =>
      have hframe := flushFrame_of_step hstep
      unfold SavedFile at hs ⊢
      rw [hframe.saver]
      split <;> simp_all only <;> exact (hframe.files _).trans hs
  | shutdown =>
      obtain rfl := by simpa [CheckpointManager.step] using hstep
      exact hs

end CheckpointManager

end Tempo
