import Mathlib.Algebra.Order.Field.Rat
import Mathlib.Logic.Function.Basic
import Tempo.BufferedReader
import Tempo.CheckpointNames
import Tempo.Runs

/-!
# The checkpoint manager

`save_async` runs on the training thread: `torch.save` to the local directory,
then a flush job for the background thread.  `_flush_worker` takes the jobs and
`_do_flush` copies each file chunk by chunk to a temporary name in the Lustre
directory, renames it to the final name and unlinks the local file.  The two
threads share the local directory, the job queue, the stop flag and the
counters, so both are given here statement by statement, and a run is any
interleaving of their statements.

The two directories are distinct maps from file names to contents.  Writing a
file is two steps, one that opens it (and may leave any partial content) and
one that completes it; a rename is one step.  The copy loop reads its source
through the `BufferedReader` that `open` makes, so a read is as many steps as it
makes raw reads, and may return bytes that have been read ahead.  What the threads
learn from the clock, the kernel and the phase monitor comes with the event: the
adaptive chunk target, what a raw read gives at most, the flush rate, whether the
gate is open.  An I/O exception can be
raised at every statement of `_do_flush`, and the stop flag can be set at any
point.  The write samples and the millisecond accumulators only feed those
estimates and the log, and are left out.
-/

namespace Tempo

/-- File contents. -/
abbrev Bytes := List UInt8

/-- A directory: the content of each file that exists. -/
abbrev Dir := String → Option Bytes

/-- `_FlushJob`, with its two paths given by their file names. -/
structure FlushJob where
  localName : String
  remoteName : String
  step : Int
  rank : Int
  sizeBytes : Nat
  deriving DecidableEq, Repr

/-- Arguments of `CheckpointManager.__init__`; `hasLustre` and `hasMonitor` say
that `lustre_dir` and `phase_monitor` are not `None`.  `bufferSize` is the buffer
of `open(src, "rb")`, which Python takes from the file system. -/
structure CkptConfig where
  rank : Int := 0
  maxPending : Int := 3
  flushChunkBytes : Int := 128 * 1024 * 1024
  adaptiveChunk : Bool := false
  hasMonitor : Bool := false
  hasLustre : Bool := true
  bufferSize : ℕ+ := 8192
  deriving DecidableEq, Repr

def minChunkBytes : Int := 4 * 1024 * 1024

def maxChunkBytes : Int := 512 * 1024 * 1024

/-- Where the training thread stands in `save_async`. -/
inductive SaverPc
  | idle
  /-- inside `torch.save`, the file opened and not complete -/
  | writing (step : Int) (data : Bytes)
  /-- before `local_path.stat()` -/
  | written (step : Int) (data : Bytes)
  /-- before `put_nowait` -/
  | enqueuing (step : Int) (data : Bytes) (sizeBytes : Nat)
  /-- job queued, before `_bytes_pending += size_bytes` -/
  | counting (step : Int) (data : Bytes) (sizeBytes : Nat)
  | returning (step : Int) (data : Bytes)
  deriving DecidableEq

/-- Where the flush thread stands.  `off` is the number of bytes copied so
far. -/
inductive FlushPc
  /-- `while not self._stop.is_set()` -/
  | poll
  /-- `self._queue.get(timeout=0.1)` -/
  | get
  /-- `src.exists()` -/
  | check (job : FlushJob)
  /-- `mkdir`, then `open(src)` -/
  | openSrc (job : FlushJob)
  /-- `open(tmp_dst, "wb")` -/
  | openTmp (job : FlushJob)
  /-- head of the copy loop: adaptive resizing -/
  | resize (job : FlushJob) (off : Nat)
  /-- first `get_dynamic_flush_rate` -/
  | pace (job : FlushJob) (off : Nat)
  /-- `wait_for_io_allowed` -/
  | gate (job : FlushJob) (off : Nat)
  /-- second `get_dynamic_flush_rate`, whose value is ignored -/
  | recompute (job : FlushJob) (off : Nat)
  /-- `fsrc.read(self.chunk_bytes)`, before or inside the call -/
  | read (job : FlushJob) (off : Nat)
  /-- `fdst.write(chunk)`; `off` still excludes the chunk -/
  | write (job : FlushJob) (off : Nat) (chunk : Bytes)
  /-- files closed, before `tmp_dst.rename(dst)` -/
  | rename (job : FlushJob) (off : Nat)
  /-- statistics after the rename -/
  | account (job : FlushJob) (off : Nat)
  /-- `src.unlink(missing_ok=True)` -/
  | unlink (job : FlushJob)
  /-- `finally: self._queue.task_done()` -/
  | taskDone
  | stopped
  deriving DecidableEq

namespace FlushPc

/-- The job whose `_do_flush` call is running. -/
def job? : FlushPc → Option FlushJob
  | .poll | .get | .taskDone | .stopped => none
  | .check job | .openSrc job | .openTmp job | .resize job _ | .pace job _
  | .gate job _ | .recompute job _ | .read job _ | .write job _ _
  | .rename job _ | .account job _ | .unlink job => some job

/-- In the copy loop, from the gate to the write. -/
def pacing : FlushPc → Bool
  | .gate _ _ | .recompute _ _ | .read _ _ | .write _ _ _ => true
  | _ => false

end FlushPc

/-- The shared state of the two threads, and the reader of the file that is being
copied.  `begun`, `saves` and `returned` are histories: the steps whose save has
started, and the saves whose file was completed, and which returned. -/
structure CkptState where
  chunkBytes : Int
  localDir : Dir
  lustreDir : Dir
  queue : List FlushJob := []
  unfinished : Nat := 0
  stop : Bool := false
  bytesLocal : Nat := 0
  bytesLustre : Nat := 0
  bytesPending : Int := 0
  flushCount : Nat := 0
  throttleWaits : Nat := 0
  saver : SaverPc := .idle
  worker : FlushPc := .poll
  reader : BufferedReader UInt8 := .ready []
  begun : List Int := []
  saves : List (Int × Bytes) := []
  returned : List (Int × Bytes) := []

/-- The flush has taken something from the source file that it has not yet
finished with: it has read a part of it, or all of it, and has not unlinked
it. -/
def CkptState.copying? (s : CkptState) : Option FlushJob :=
  match s.worker with
  | .resize job off | .pace job off | .gate job off | .recompute job off
  | .read job off => if off = 0 ∧ s.reader.held = [] then none else some job
  | .write job _ _ | .rename job _ | .account job _ | .unlink job => some job
  | _ => none

/-- What the flush thread learns at a statement. -/
inductive FlushInput
  /-- nothing -/
  | next
  /-- the adaptive chunk target, if there are samples to compute one -/
  | target (t : Option Int)
  /-- the bandwidth estimate and the rate the monitor grants -/
  | rate (est r : ℚ)
  /-- the result of `wait_for_io_allowed` -/
  | gate (allowed : Bool)
  /-- a raw read of the source, which gives at most `n` bytes -/
  | raw (n : Nat)
  /-- an exception; at a write, after `n` bytes of the chunk -/
  | fail (n : Nat)
  deriving DecidableEq

inductive CkptEvent
  /-- call `save_async`: `torch.save` opens the file, leaving `partial` in it -/
  | save (step : Int) (partialData data : Bytes)
  /-- the next statement of the running `save_async` -/
  | saver
  /-- the next statement of the flush thread -/
  | worker (i : FlushInput)
  /-- `self._stop.set()` in `shutdown` -/
  | shutdown
  deriving DecidableEq

namespace CheckpointManager

/-- The state after `__init__`, with the files found in the two directories. -/
def init (cfg : CkptConfig) (localDir lustreDir : Dir) : CkptState :=
  { chunkBytes := cfg.flushChunkBytes, localDir, lustreDir }

/-- The job `save_async` queues for a step. -/
def flushJob (cfg : CkptConfig) (step : Int) (sizeBytes : Nat) : FlushJob :=
  { localName := ckptName cfg.rank step
    remoteName := ckptName cfg.rank step
    step, rank := cfg.rank, sizeBytes }

/-- `queue.Queue(maxsize)` is full; a non-positive size is no bound. -/
def queueFull (cfg : CkptConfig) (q : List FlushJob) : Bool :=
  0 < cfg.maxPending ∧ cfg.maxPending ≤ q.length

/-- The next statement of `save_async`. -/
def saverStep (cfg : CkptConfig) (s : CkptState) : Option CkptState :=
  match s.saver with
  | .idle => none
  | .writing step data =>
      -- a file unlinked while it was being written stays unlinked
      some { s with
        localDir := match s.localDir (ckptName cfg.rank step) with
          | some _ =>
              Function.update s.localDir (ckptName cfg.rank step) (some data)
          | none => s.localDir
        saves := s.saves ++ [(step, data)]
        saver := .written step data }
  | .written step data =>
      match s.localDir (ckptName cfg.rank step) with
      | none => some { s with saver := .idle }
      | some content =>
          some { s with
            bytesLocal := s.bytesLocal + content.length
            saver :=
              if cfg.hasLustre then .enqueuing step data content.length
              else .returning step data }
  | .enqueuing step data size =>
      if queueFull cfg s.queue then
        some { s with saver := .returning step data }
      else
        some { s with
          queue := s.queue ++ [flushJob cfg step size]
          unfinished := s.unfinished + 1
          saver := .counting step data size }
  | .counting step data size =>
      some { s with
        bytesPending := s.bytesPending + size
        saver := .returning step data }
  | .returning step data =>
      some { s with
        returned := s.returned ++ [(step, data)]
        saver := .idle }

/-- Writing a file removes none. -/
theorem exists_update {dir : Dir} {name key : String} {data : Bytes}
    (h : dir name ≠ none) :
    ∃ c, Function.update dir key (some data) name = some c := by
  by_cases hname : name = key
  · exact ⟨data, by rw [hname, Function.update_self]⟩
  · rw [Function.update_of_ne hname]
    exact Option.ne_none_iff_exists'.mp h

/-- What a statement of `save_async` does not touch: the flush thread, the
remote files and the local files that are there, what is queued and what is
saved. -/
structure SaverFrame (s t : CkptState) : Prop where
  worker : t.worker = s.worker
  reader : t.reader = s.reader
  lustre : t.lustreDir = s.lustreDir
  chunk : t.chunkBytes = s.chunkBytes
  queue : ∃ jobs, t.queue = s.queue ++ jobs ∧
    t.unfinished = s.unfinished + jobs.length
  saves : s.saves <+: t.saves
  local_kept : ∀ name, s.localDir name ≠ none → ∃ c, t.localDir name = some c

theorem saverStep_frame {cfg : CkptConfig} {s t : CkptState}
    (hstep : saverStep cfg s = some t) : SaverFrame s t := by
  have hstay : ∃ jobs, s.queue = s.queue ++ jobs ∧
      s.unfinished = s.unfinished + jobs.length :=
    ⟨[], (List.append_nil _).symm, rfl⟩
  have hkept : ∀ name, s.localDir name ≠ none →
      ∃ c, s.localDir name = some c := fun name h =>
    Option.ne_none_iff_exists'.mp h
  cases hpc : s.saver with
  | idle => simp [saverStep, hpc] at hstep
  | writing k data =>
      cases hfile : s.localDir (ckptName cfg.rank k) with
      | none =>
          obtain rfl := by simpa [saverStep, hpc, hfile] using hstep
          exact ⟨rfl, rfl, rfl, rfl, hstay, List.prefix_append _ _, hkept⟩
      | some c =>
          obtain rfl := by simpa [saverStep, hpc, hfile] using hstep
          exact ⟨rfl, rfl, rfl, rfl, hstay, List.prefix_append _ _,
            fun name h => exists_update h⟩
  | written k data =>
      cases hfile : s.localDir (ckptName cfg.rank k) with
      | none | some c =>
          obtain rfl := by simpa [saverStep, hpc, hfile] using hstep
          exact ⟨rfl, rfl, rfl, rfl, hstay, List.prefix_rfl, hkept⟩
  | enqueuing k data size =>
      by_cases hfull : queueFull cfg s.queue
      · obtain rfl := by simpa [saverStep, hpc, hfull] using hstep
        exact ⟨rfl, rfl, rfl, rfl, hstay, List.prefix_rfl, hkept⟩
      · obtain rfl := by simpa [saverStep, hpc, hfull] using hstep
        exact ⟨rfl, rfl, rfl, rfl, ⟨[_], rfl, rfl⟩, List.prefix_rfl, hkept⟩
  | counting k data size | returning k data =>
      obtain rfl := by simpa [saverStep, hpc] using hstep
      exact ⟨rfl, rfl, rfl, rfl, hstay, List.prefix_rfl, hkept⟩

/-- `self.chunk_bytes` after the adaptive block. -/
def resizeChunk (cfg : CkptConfig) (chunkBytes : Int) (target : Option Int) :
    Int :=
  match target with
  | some t =>
      if cfg.adaptiveChunk && cfg.hasMonitor then
        max minChunkBytes (min maxChunkBytes t)
      else chunkBytes
  | none => chunkBytes

/-- The soft throttle counts a wait: `_token_wait_s > 0`. -/
def throttles (chunkBytes : Int) (est r : ℚ) : Bool :=
  r < est * (95 / 100) ∧
    0 < (chunkBytes : ℚ) / max r 1 - (chunkBytes : ℚ) / max est 1

/-- Content of a file that is open for reading. -/
def content (dir : Dir) (name : String) : Bytes := (dir name).getD []

/-- `fsrc.read` has returned a chunk, or goes on. -/
def afterRead (s : CkptState) (job : FlushJob) (off : Nat)
    (r : Option Bytes × BufferedReader UInt8) : CkptState :=
  { s with
    reader := r.2
    worker :=
      match r.1 with
      | none => .read job off
      | some chunk => if chunk = [] then .rename job off else .write job off chunk }

/-- What a raw read of the source gives. -/
def rawChunk (cfg : CkptConfig) (s : CkptState) (job : FlushJob) (off : Nat)
    (got : Bytes) (filled n : Nat) : Bytes :=
  BufferedReader.rawRead
    (BufferedReader.request cfg.bufferSize s.chunkBytes got filled) n
    ((content s.localDir job.localName).drop (off + got.length))

/-- The next statement of the flush thread, given what it learns there. -/
def workerStep (cfg : CkptConfig) (s : CkptState) (i : FlushInput) :
    Option CkptState :=
  match s.worker, i with
  | .poll, .next =>
      some { s with worker := if s.stop then .stopped else .get }
  | .get, .next =>
      match s.queue with
      | [] => some { s with worker := .poll }
      | job :: rest => some { s with queue := rest, worker := .check job }
  | .check job, .next =>
      match s.localDir job.localName with
      | none =>
          some { s with
            bytesPending := s.bytesPending - job.sizeBytes
            worker := .taskDone }
      | some _ => some { s with worker := .openSrc job }
  | .openSrc job, .next =>
      match s.localDir job.localName with
      | none => some { s with worker := .taskDone }
      | some _ => some { s with reader := .ready [], worker := .openTmp job }
  | .openTmp job, .next =>
      some { s with
        lustreDir := Function.update s.lustreDir (tmpName job.remoteName)
          (some [])
        worker := .resize job 0 }
  | .resize job off, .target t =>
      some { s with
        chunkBytes := resizeChunk cfg s.chunkBytes t
        worker := .pace job off }
  | .pace job off, .next =>
      if cfg.hasMonitor then none
      else some { s with worker := .read job off }
  | .pace job off, .rate est r =>
      if !cfg.hasMonitor then none
      else if r ≤ 0 then some { s with worker := .gate job off }
      else
        some { s with
          throttleWaits :=
            s.throttleWaits + (throttles s.chunkBytes est r).toNat
          worker := .read job off }
  | .gate job off, .gate true => some { s with worker := .recompute job off }
  | .gate job off, .gate false =>
      some { s with
        throttleWaits := s.throttleWaits + 1
        worker := if s.stop then .taskDone else .gate job off }
  | .recompute job off, .rate _ _ => some { s with worker := .read job off }
  | .read job off, .next =>
      match s.reader with
      | .ready ahead =>
          -- a size below -1 raises, and one above `sys.maxsize`
          if s.chunkBytes < -1 ∨ 2 ^ 63 ≤ s.chunkBytes then none
          else
            some (afterRead s job off (BufferedReader.start s.chunkBytes ahead))
      | .reading _ _ => none
  | .read job off, .raw n =>
      match s.reader with
      | .ready _ => none
      | .reading got filled =>
          if n = 0 then none
          else
            some (afterRead s job off
              (BufferedReader.feed cfg.bufferSize s.chunkBytes got filled
                (rawChunk cfg s job off got filled n)))
  | .write job off chunk, .next =>
      let tmp := tmpName job.remoteName
      some { s with
        lustreDir := Function.update s.lustreDir tmp
          (some (content s.lustreDir tmp ++ chunk))
        worker := .resize job (off + chunk.length) }
  | .rename job off, .next =>
      let tmp := tmpName job.remoteName
      match s.lustreDir tmp with
      | none => some { s with worker := .taskDone }
      | some data =>
          some { s with
            lustreDir := Function.update
              (Function.update s.lustreDir tmp none) job.remoteName (some data)
            worker := .account job off }
  | .account job off, .next =>
      some { s with
        bytesLustre := s.bytesLustre + off
        bytesPending := s.bytesPending - job.sizeBytes
        flushCount := s.flushCount + 1
        worker := .unlink job }
  | .unlink job, .next =>
      some { s with
        localDir := Function.update s.localDir job.localName none
        worker := .taskDone }
  | .taskDone, .next =>
      some { s with unfinished := s.unfinished - 1, worker := .poll }
  | .write job _ chunk, .fail n =>
      -- the part of the chunk written before the exception stays
      let tmp := tmpName job.remoteName
      some { s with
        lustreDir := Function.update s.lustreDir tmp
          (some (content s.lustreDir tmp ++ chunk.take n))
        worker := .taskDone }
  | pc, .fail _ =>
      if pc.job?.isSome then some { s with worker := .taskDone } else none
  | _, _ => none

/-- What a statement of the flush thread does. -/
inductive FlushStep (cfg : CkptConfig) (s : CkptState) : FlushInput → CkptState → Prop
  | poll (hpc : s.worker = .poll) (hgoing : s.stop = false) :
      FlushStep cfg s .next { s with worker := .get }
  | halt (hpc : s.worker = .poll) (hstop : s.stop = true) :
      FlushStep cfg s .next { s with worker := .stopped }
  | empty (hpc : s.worker = .get) (hqueue : s.queue = []) :
      FlushStep cfg s .next { s with worker := .poll }
  | take {job : FlushJob} {rest : List FlushJob} (hpc : s.worker = .get)
      (hqueue : s.queue = job :: rest) :
      FlushStep cfg s .next { s with queue := rest, worker := .check job }
  | missing {job : FlushJob} (hpc : s.worker = .check job)
      (hfile : s.localDir job.localName = none) :
      FlushStep cfg s .next
        { s with
          bytesPending := s.bytesPending - job.sizeBytes
          worker := .taskDone }
  | found {job : FlushJob} {c : Bytes} (hpc : s.worker = .check job)
      (hfile : s.localDir job.localName = some c) :
      FlushStep cfg s .next { s with worker := .openSrc job }
  | vanished {job : FlushJob} (hpc : s.worker = .openSrc job)
      (hfile : s.localDir job.localName = none) :
      FlushStep cfg s .next { s with worker := .taskDone }
  | openSrc {job : FlushJob} {c : Bytes} (hpc : s.worker = .openSrc job)
      (hfile : s.localDir job.localName = some c) :
      FlushStep cfg s .next { s with reader := .ready [], worker := .openTmp job }
  | openTmp {job : FlushJob} (hpc : s.worker = .openTmp job) :
      FlushStep cfg s .next
        { s with
          lustreDir := Function.update s.lustreDir (tmpName job.remoteName) (some [])
          worker := .resize job 0 }
  | resize {job : FlushJob} {off : Nat} {x : Option Int}
      (hpc : s.worker = .resize job off) :
      FlushStep cfg s (.target x)
        { s with
          chunkBytes := resizeChunk cfg s.chunkBytes x
          worker := .pace job off }
  | unpaced {job : FlushJob} {off : Nat} (hpc : s.worker = .pace job off)
      (hmonitor : cfg.hasMonitor = false) :
      FlushStep cfg s .next { s with worker := .read job off }
  | blocked {job : FlushJob} {off : Nat} {est r : ℚ}
      (hpc : s.worker = .pace job off) (hmonitor : cfg.hasMonitor = true) (hr : r ≤ 0) :
      FlushStep cfg s (.rate est r) { s with worker := .gate job off }
  | granted {job : FlushJob} {off : Nat} {est r : ℚ}
      (hpc : s.worker = .pace job off) (hmonitor : cfg.hasMonitor = true) (hr : 0 < r) :
      FlushStep cfg s (.rate est r)
        { s with
          throttleWaits := s.throttleWaits + (throttles s.chunkBytes est r).toNat
          worker := .read job off }
  | passes {job : FlushJob} {off : Nat} (hpc : s.worker = .gate job off) :
      FlushStep cfg s (.gate true) { s with worker := .recompute job off }
  | waits {job : FlushJob} {off : Nat} (hpc : s.worker = .gate job off)
      (hgoing : s.stop = false) :
      FlushStep cfg s (.gate false)
        { s with
          throttleWaits := s.throttleWaits + 1
          worker := .gate job off }
  | givesUp {job : FlushJob} {off : Nat} (hpc : s.worker = .gate job off)
      (hstop : s.stop = true) :
      FlushStep cfg s (.gate false)
        { s with throttleWaits := s.throttleWaits + 1, worker := .taskDone }
  | recompute {job : FlushJob} {off : Nat} {est r : ℚ}
      (hpc : s.worker = .recompute job off) :
      FlushStep cfg s (.rate est r) { s with worker := .read job off }
  | read {job : FlushJob} {off : Nat} {i : FlushInput}
      {r : Option Bytes × BufferedReader UInt8} (hpc : s.worker = .read job off)
      (hi : i = .next ∨ ∃ n, i = .raw n) :
      FlushStep cfg s i (afterRead s job off r)
  | write {job : FlushJob} {off : Nat} {chunk : Bytes}
      (hpc : s.worker = .write job off chunk) :
      FlushStep cfg s .next
        { s with
          lustreDir := Function.update s.lustreDir (tmpName job.remoteName)
            (some (content s.lustreDir (tmpName job.remoteName) ++ chunk))
          worker := .resize job (off + chunk.length) }
  | lost {job : FlushJob} {off : Nat} (hpc : s.worker = .rename job off)
      (htmp : s.lustreDir (tmpName job.remoteName) = none) :
      FlushStep cfg s .next { s with worker := .taskDone }
  | rename {job : FlushJob} {off : Nat} {data : Bytes} (hpc : s.worker = .rename job off)
      (htmp : s.lustreDir (tmpName job.remoteName) = some data) :
      FlushStep cfg s .next
        { s with
          lustreDir := Function.update
            (Function.update s.lustreDir (tmpName job.remoteName) none)
            job.remoteName (some data)
          worker := .account job off }
  | account {job : FlushJob} {off : Nat} (hpc : s.worker = .account job off) :
      FlushStep cfg s .next
        { s with
          bytesLustre := s.bytesLustre + off
          bytesPending := s.bytesPending - job.sizeBytes
          flushCount := s.flushCount + 1
          worker := .unlink job }
  | unlink {job : FlushJob} (hpc : s.worker = .unlink job) :
      FlushStep cfg s .next
        { s with
          localDir := Function.update s.localDir job.localName none
          worker := .taskDone }
  | taskDone (hpc : s.worker = .taskDone) :
      FlushStep cfg s .next { s with unfinished := s.unfinished - 1, worker := .poll }
  | failWrite {job : FlushJob} {off : Nat} {chunk : Bytes} {n : Nat}
      (hpc : s.worker = .write job off chunk) :
      FlushStep cfg s (.fail n)
        { s with
          lustreDir := Function.update s.lustreDir (tmpName job.remoteName)
            (some (content s.lustreDir (tmpName job.remoteName) ++ chunk.take n))
          worker := .taskDone }
  | fail {job : FlushJob} {n : Nat} (hjob : s.worker.job? = some job)
      (hpc : ∀ job off chunk, s.worker ≠ .write job off chunk) :
      FlushStep cfg s (.fail n) { s with worker := .taskDone }

theorem flushStep_of_step {cfg : CkptConfig} {s t : CkptState} {i : FlushInput}
    (hstep : workerStep cfg s i = some t) : FlushStep cfg s i t := by
  unfold workerStep at hstep
  dsimp only at hstep
  split at hstep
  · next hpc =>
      obtain rfl := Option.some.inj hstep
      by_cases hstop : s.stop = true
      · rw [if_pos hstop]
        exact .halt hpc hstop
      · rw [if_neg hstop]
        exact .poll hpc (Bool.eq_false_iff.mpr hstop)
  · next hpc =>
      split at hstep
      · next hqueue =>
          obtain rfl := Option.some.inj hstep
          exact .empty hpc hqueue
      · next hqueue =>
          obtain rfl := Option.some.inj hstep
          exact .take hpc hqueue
  · next hpc =>
      split at hstep
      · next hfile =>
          obtain rfl := Option.some.inj hstep
          exact .missing hpc hfile
      · next hfile =>
          obtain rfl := Option.some.inj hstep
          exact .found hpc hfile
  · next hpc =>
      split at hstep
      · next hfile =>
          obtain rfl := Option.some.inj hstep
          exact .vanished hpc hfile
      · next hfile =>
          obtain rfl := Option.some.inj hstep
          exact .openSrc hpc hfile
  · next hpc =>
      obtain rfl := Option.some.inj hstep
      exact .openTmp hpc
  · next hpc =>
      obtain rfl := Option.some.inj hstep
      exact .resize hpc
  · next hpc =>
      obtain ⟨hmonitor, rfl⟩ := by simpa using hstep
      exact .unpaced hpc hmonitor
  · next hpc =>
      split at hstep
      · cases hstep
      · next hmonitor =>
          have hon : cfg.hasMonitor = true := by simpa using hmonitor
          split at hstep
          · next hr =>
              obtain rfl := Option.some.inj hstep
              exact .blocked hpc hon hr
          · next hr =>
              obtain rfl := Option.some.inj hstep
              exact .granted hpc hon (not_le.mp hr)
  · next hpc =>
      obtain rfl := Option.some.inj hstep
      exact .passes hpc
  · next hpc =>
      obtain rfl := Option.some.inj hstep
      by_cases hstop : s.stop = true
      · simp only [if_pos hstop]
        exact .givesUp hpc hstop
      · simp only [if_neg hstop]
        exact .waits hpc (Bool.eq_false_iff.mpr hstop)
  · next hpc =>
      obtain rfl := Option.some.inj hstep
      exact .recompute hpc
  · next hpc =>
      split at hstep
      · split at hstep
        · cases hstep
        · obtain rfl := Option.some.inj hstep
          exact .read hpc (.inl rfl)
      · cases hstep
  · next hpc =>
      split at hstep
      · cases hstep
      · split at hstep
        · cases hstep
        · obtain rfl := Option.some.inj hstep
          exact .read hpc (.inr ⟨_, rfl⟩)
  · next hpc =>
      obtain rfl := Option.some.inj hstep
      exact .write hpc
  · next hpc =>
      split at hstep
      · next htmp =>
          obtain rfl := Option.some.inj hstep
          exact .lost hpc htmp
      · next htmp =>
          obtain rfl := Option.some.inj hstep
          exact .rename hpc htmp
  · next hpc =>
      obtain rfl := Option.some.inj hstep
      exact .account hpc
  · next hpc =>
      obtain rfl := Option.some.inj hstep
      exact .unlink hpc
  · next hpc =>
      obtain rfl := Option.some.inj hstep
      exact .taskDone hpc
  · next hpc =>
      obtain rfl := Option.some.inj hstep
      exact .failWrite hpc
  · next hpc =>
      split at hstep
      · next hjob =>
          obtain ⟨job, hsome⟩ := Option.isSome_iff_exists.mp hjob
          obtain rfl := Option.some.inj hstep
          exact .fail hsome hpc
      · cases hstep
  · cases hstep

/-- Where the thread comes to from the read, and that nothing else changes. -/
theorem afterRead_moves (s : CkptState) (job : FlushJob) (off : Nat)
    (r : Option Bytes × BufferedReader UInt8) :
    ∃ worker, afterRead s job off r = { s with reader := r.2, worker } ∧
      (worker = .read job off ∨ worker = .rename job off ∨
        ∃ chunk, worker = .write job off chunk) := by
  obtain ⟨returned, reader⟩ := r
  refine ⟨_, rfl, ?_⟩
  cases returned with
  | none => exact .inl rfl
  | some chunk =>
      dsimp only
      split
      · exact .inr (.inl rfl)
      · exact .inr (.inr ⟨chunk, rfl⟩)

/-- The reader is between two calls in the copy loop, but in its read. -/
def ReaderOk (cfg : CkptConfig) (s : CkptState) : Prop :=
  match s.worker with
  | .openTmp _ => s.reader = .ready []
  | .read _ _ => s.reader.Sound cfg.bufferSize s.chunkBytes
  | .resize _ _ | .pace _ _ | .gate _ _ | .recompute _ _ | .write _ _ _ =>
      ∃ ahead, s.reader = .ready ahead
  | _ => True

/-- What a step inside `fsrc.read` does: it takes `data` from the source, and
returns or keeps all that it holds. -/
structure ReadStep (cfg : CkptConfig) (s : CkptState) (job : FlushJob) (off : Nat)
    (i : FlushInput) (r : Option Bytes × BufferedReader UInt8) (data : Bytes) :
    Prop where
  takes : data <+: (content s.localDir job.localName).drop
    (off + s.reader.held.length)
  /-- only a raw read takes anything -/
  raw : i = .next → data = []
  kept : r.1.getD [] ++ r.2.held = s.reader.held ++ data
  sound : r.2.Sound cfg.bufferSize s.chunkBytes
  ready : ∀ chunk, r.1 = some chunk → ∃ ahead, r.2 = .ready ahead
  goes : r.1 = none → (i ≠ .next → data ≠ []) ∧
    ∃ filled, r.2 = .reading (s.reader.held ++ data) filled
  size_valid : i = .next → -1 ≤ s.chunkBytes ∧ s.chunkBytes < 2 ^ 63
  neg_one_le : -1 ≤ s.chunkBytes
  size_zero : i = .next → s.chunkBytes = 0 → r.1 = some []
  reading : i ≠ .next → s.chunkBytes ≠ 0 ∧ ∃ got filled, s.reader = .reading got filled
  /-- nothing is returned for the size zero, and at the end of the file -/
  ends : r.1 = some [] → i = .next ∧ s.chunkBytes = 0 ∨
    i ≠ .next ∧ s.reader.held = [] ∧
      (content s.localDir job.localName).drop off = []
  /-- a chunk is as long as asked for, or ends the file -/
  length : ∀ chunk, r.1 = some chunk → (chunk.length : Int) = s.chunkBytes ∨
    chunk = s.reader.held ∧ (content s.localDir job.localName).drop
      (off + s.reader.held.length) = []

/-- With `p` copied, all that has been taken is still the beginning of the file. -/
theorem ReadStep.begins {cfg : CkptConfig} {s : CkptState} {job : FlushJob} {off : Nat}
    {i : FlushInput} {r : Option Bytes × BufferedReader UInt8} {data p : Bytes}
    (h : ReadStep cfg s job off i r data) (hlen : p.length = off)
    (hbegins : p ++ s.reader.held <+: content s.localDir job.localName) :
    p ++ (r.1.getD [] ++ r.2.held) <+: content s.localDir job.localName := by
  have htakes := h.takes
  obtain ⟨later, hlater⟩ := hbegins
  rw [← hlater] at htakes ⊢
  rw [h.kept, ← List.append_assoc, List.prefix_append_right_inj]
  rwa [← hlen, ← List.length_append, List.drop_left] at htakes

/-- Where the read returns nothing for want of bytes, what is copied is the file. -/
theorem ReadStep.complete {cfg : CkptConfig} {s : CkptState} {job : FlushJob} {off : Nat}
    {i : FlushInput} {r : Option Bytes × BufferedReader UInt8} {data p : Bytes}
    (h : ReadStep cfg s job off i r data) (hlen : p.length = off)
    (hbegins : p ++ s.reader.held <+: content s.localDir job.localName)
    (hnothing : r.1 = some [])
    (hzero : i = .next → s.chunkBytes = 0 →
      (content s.localDir job.localName).drop off = []) :
    p = content s.localDir job.localName := by
  have hdone : (content s.localDir job.localName).drop off = [] := by
    rcases h.ends hnothing with ⟨hi, hsize⟩ | ⟨-, -, hdone⟩
    · exact hzero hi hsize
    · exact hdone
  obtain ⟨later, hlater⟩ := (List.prefix_append p s.reader.held).trans hbegins
  rw [← hlater, ← hlen, List.drop_left] at hdone
  rw [← hlater, hdone, List.append_nil]

theorem workerStep_read {cfg : CkptConfig} {s t : CkptState} {i : FlushInput}
    {job : FlushJob} {off : Nat} (hreader : ReaderOk cfg s)
    (hpc : s.worker = .read job off) (hi : i = .next ∨ ∃ n, i = .raw n)
    (hstep : workerStep cfg s i = some t) :
    ∃ r data, ReadStep cfg s job off i r data ∧ t = afterRead s job off r := by
  unfold ReaderOk at hreader
  rw [hpc] at hreader
  dsimp only at hreader
  rcases hi with rfl | ⟨n, rfl⟩
  · cases hr : s.reader with
    | reading got filled => simp [workerStep, hpc, hr] at hstep
    | ready ahead =>
        simp only [workerStep, hpc, hr] at hstep
        split at hstep
        · cases hstep
        · next hvalid =>
            refine ⟨_, [], ?_, (Option.some.inj hstep).symm⟩
            refine
              { takes := List.nil_prefix
                raw := fun _ => rfl
                kept := ?_
                sound := BufferedReader.start_sound _ (by omega) _
                ready := fun _ => BufferedReader.start_ready
                goes := fun h => ⟨fun hnext => absurd rfl hnext, 0, ?_⟩
                size_valid := fun _ => by omega
                neg_one_le := by omega
                size_zero := fun _ h => by rw [h]; exact BufferedReader.start_zero _
                reading := fun h => absurd rfl h
                ends := fun h => .inl ⟨rfl, BufferedReader.start_eq_nil h⟩
                length := fun chunk h => .inl (BufferedReader.start_length h) }
            · rw [hr, List.append_nil]
              exact BufferedReader.start_held _ _
            · rw [hr, List.append_nil]
              exact BufferedReader.start_none h
  · cases hr : s.reader with
    | ready ahead => simp [workerStep, hpc, hr] at hstep
    | reading got filled =>
        rw [hr] at hreader
        simp only [workerStep, hpc, hr] at hstep
        split at hstep
        · cases hstep
        · next hn =>
            have hpos : 0 < n := Nat.pos_of_ne_zero hn
            have hnil : rawChunk cfg s job off got filled n = [] ↔
                (content s.localDir job.localName).drop (off + got.length) = [] :=
              BufferedReader.rawRead_eq_nil_iff hreader hpos
            refine ⟨_, rawChunk cfg s job off got filled n, ?_,
              (Option.some.inj hstep).symm⟩
            refine
              { takes := by rw [hr]; exact BufferedReader.rawRead_prefix _ _ _
                raw := fun h => by cases h
                kept := by rw [hr]; exact BufferedReader.feed_held _ _ _ _ _
                sound := BufferedReader.feed_sound hreader _
                ready := fun _ => BufferedReader.feed_ready
                goes := fun h => ?_
                size_valid := fun h => by cases h
                neg_one_le := hreader.neg_one_le
                size_zero := fun h => by cases h
                reading := fun _ => ⟨hreader.size_ne_zero, got, filled, hr⟩
                ends := fun h => .inr ?_
                length := fun chunk h => ?_ }
            · obtain ⟨hmore, hgoes⟩ := BufferedReader.feed_none h
              rw [hr]
              exact ⟨fun _ => hmore, hgoes⟩
            · obtain ⟨rfl, hend⟩ := BufferedReader.feed_eq_nil hreader.size_ne_zero h
              rw [hr]
              exact ⟨by simp, rfl, hnil.mp hend⟩
            · rw [hr]
              refine (BufferedReader.feed_length hreader h).imp_right ?_
              rintro ⟨hend, rfl⟩
              exact ⟨rfl, hnil.mp hend⟩

/-- How the flush thread comes to a statement between the first rate call and
the write. -/
inductive Enters (cfg : CkptConfig) (s : CkptState) :
    FlushInput → FlushPc → Prop
  | blocked {job : FlushJob} {off : Nat} {est r : ℚ}
      (hpc : s.worker = .pace job off) (hr : r ≤ 0) :
      Enters cfg s (.rate est r) (.gate job off)
  | waits {job : FlushJob} {off : Nat} (hpc : s.worker = .gate job off) :
      Enters cfg s (.gate false) (.gate job off)
  | passes {job : FlushJob} {off : Nat} (hpc : s.worker = .gate job off) :
      Enters cfg s (.gate true) (.recompute job off)
  | unpaced {job : FlushJob} {off : Nat} (hpc : s.worker = .pace job off)
      (hmonitor : cfg.hasMonitor = false) : Enters cfg s .next (.read job off)
  | granted {job : FlushJob} {off : Nat} {est r : ℚ}
      (hpc : s.worker = .pace job off) (hr : 0 < r) :
      Enters cfg s (.rate est r) (.read job off)
  | recomputed {job : FlushJob} {off : Nat} {est r : ℚ}
      (hpc : s.worker = .recompute job off) :
      Enters cfg s (.rate est r) (.read job off)
  | reading {job : FlushJob} {off : Nat} {i : FlushInput}
      (hpc : s.worker = .read job off) (hi : i = .next ∨ ∃ n, i = .raw n) :
      Enters cfg s i (.read job off)
  | reads {job : FlushJob} {off : Nat} {chunk : Bytes} {i : FlushInput}
      (hpc : s.worker = .read job off) (hi : i = .next ∨ ∃ n, i = .raw n)
      (hne : chunk ≠ []) : Enters cfg s i (.write job off chunk)

theorem enters_of_step {cfg : CkptConfig} {s t : CkptState} {i : FlushInput}
    (hstep : workerStep cfg s i = some t) (hat : t.worker.pacing = true) :
    Enters cfg s i t.worker ∧ t.chunkBytes = s.chunkBytes := by
  cases flushStep_of_step hstep with
  | unpaced hpc hmonitor => exact ⟨.unpaced hpc hmonitor, rfl⟩
  | blocked hpc _ hr => exact ⟨.blocked hpc hr, rfl⟩
  | granted hpc _ hr => exact ⟨.granted hpc hr, rfl⟩
  | passes hpc => exact ⟨.passes hpc, rfl⟩
  | waits hpc hgoing => exact ⟨.waits hpc, rfl⟩
  | recompute hpc => exact ⟨.recomputed hpc, rfl⟩
  | @read job off _ r hpc hi =>
      refine ⟨?_, rfl⟩
      obtain ⟨returned, reader⟩ := r
      cases returned with
      | none => exact .reading hpc hi
      | some chunk =>
          simp only [afterRead] at hat ⊢
          split at hat
          · cases hat
          · next hne =>
              rw [if_neg hne]
              exact .reads hpc hi hne
  | _ => cases hat

theorem ReaderOk.worker {cfg : CkptConfig} {s t : CkptState} {i : FlushInput}
    (hs : ReaderOk cfg s) (hstep : workerStep cfg s i = some t) : ReaderOk cfg t := by
  cases flushStep_of_step hstep with
  | read hpc hi =>
      obtain ⟨⟨returned, reader⟩, data, h, hafter⟩ := workerStep_read hs hpc hi hstep
      rw [hafter]
      cases returned with
      | none => exact h.sound
      | some chunk =>
          obtain ⟨later, hready⟩ := h.ready chunk rfl
          simp only [ReaderOk, afterRead]
          by_cases hend : chunk = []
          · simp [hend]
          · simp only [if_neg hend]
            exact ⟨later, hready⟩
  | openSrc hpc hfile => exact rfl
  | openTmp hpc => exact ⟨[], by simpa [ReaderOk, hpc] using hs⟩
  | unpaced hpc hmonitor | granted hpc hmonitor hr | recompute hpc =>
      obtain ⟨ahead, hready⟩ : ∃ ahead, s.reader = .ready ahead := by
        simpa [ReaderOk, hpc] using hs
      simp [ReaderOk, hready, BufferedReader.Sound]
  | resize hpc | blocked hpc hmonitor hr | passes hpc | waits hpc hgoing
  | write hpc =>
      simpa [ReaderOk, hpc] using hs
  | _ => trivial

/-- One step of the manager. -/
def step (cfg : CkptConfig) (s : CkptState) : CkptEvent → Option CkptState
  | .save step partialData data =>
      if s.saver = .idle then
        some { s with
          localDir := Function.update s.localDir (ckptName cfg.rank step)
            (some partialData)
          begun := s.begun ++ [step]
          saver := .writing step data }
      else none
  | .saver => saverStep cfg s
  | .worker i => workerStep cfg s i
  | .shutdown => some { s with stop := true }

theorem readerOk_init {cfg : CkptConfig} {localDir lustreDir : Dir} :
    ReaderOk cfg (init cfg localDir lustreDir) :=
  trivial

theorem ReaderOk.step {cfg : CkptConfig} {s t : CkptState} {e : CkptEvent}
    (hs : ReaderOk cfg s) (hstep : step cfg s e = some t) : ReaderOk cfg t := by
  cases e with
  | save k partialData data =>
      obtain ⟨-, rfl⟩ := by simpa [CheckpointManager.step] using hstep
      exact hs
  | saver =>
      have hframe := saverStep_frame hstep
      unfold ReaderOk at hs ⊢
      rw [hframe.worker, hframe.reader, hframe.chunk]
      exact hs
  | worker i => exact hs.worker hstep
  | shutdown =>
      obtain rfl := by simpa [CheckpointManager.step] using hstep
      exact hs

end CheckpointManager

end Tempo
