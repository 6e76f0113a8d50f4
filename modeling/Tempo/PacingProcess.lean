import Mathlib.Data.Rat.Floor
import Tempo.PacingDaemon

/-!
# The daemon as an object with a thread

`PacingDaemon` owns a thread that runs `run_loop`, an io_uring and a token
bucket.  The owner calls `start`, `stop` and the destructor; `running_` is both
its record of what it has started and the thread's way of saying that the
Lustre file could not be opened.  The body of the loop is the one of
`Tempo.PacingDaemon`, statement by statement, with the token bucket and the
submission queue in the place of its inputs; what the loop does with io_uring
between those statements is added here.

A write is prepared in the submission queue, taken by the kernel, completed by
the kernel at any time, and its completion consumed by the thread.  A waiting
call that times out may do so at any time.  A joinable thread that is
overwritten or destroyed terminates the process.
-/

namespace Tempo

/-- What the constructor is given, as far as the model reads it; `sqEntries` is
`uring_depth` as the kernel rounds it. -/
structure ProcessConfig where
  rateBytesPerSec : UInt64 := 5 * 1024 * 1024 * 1024
  burstBytes : UInt64 := 256 * 1024 * 1024
  strictGate : Bool := true
  sqEntries : Nat := 128

/-- `TokenBucket`; the clock is in nanoseconds. -/
structure TokenBucket where
  rateBpns : ℚ
  burst : ℚ
  tokens : ℚ
  lastNs : Nat

namespace TokenBucket

def new (rateBytesPerSec burstBytes : UInt64) (now : Nat) : TokenBucket :=
  { rateBpns := (rateBytesPerSec.toNat : ℚ) / 1000000000
    burst := burstBytes.toNat
    tokens := burstBytes.toNat
    lastNs := now }

def refill (b : TokenBucket) (now : Nat) : TokenBucket :=
  if now ≤ b.lastNs then b
  else
    { b with
      tokens := min (b.tokens + ((now : ℚ) - b.lastNs) * b.rateBpns) b.burst
      lastNs := now }

/-- The bytes granted, which may be fewer than wanted. -/
def tryConsume (b : TokenBucket) (want : UInt64) (now : Nat) :
    TokenBucket × UInt64 :=
  let b := b.refill now
  if b.tokens ≤ 0 then (b, 0)
  else
    let grant : ℚ := min want.toNat b.tokens
    ({ b with tokens := b.tokens - grant }, UInt64.ofNat ⌊grant⌋.toNat)

end TokenBucket

/-- The two queues, and what the kernel has taken and not completed. -/
structure Uring where
  sq : List WriteSqe := []
  inFlight : List WriteSqe := []
  cq : List WriteSqe := []

namespace Uring

/-- `io_uring_submit`, of which the kernel takes the first `n` entries. -/
def submit (ring : Uring) (n : Nat) : Uring :=
  { ring with
    sq := ring.sq.drop n
    inFlight := ring.inFlight ++ ring.sq.take n }

/-- The kernel completes a write. -/
def complete (ring : Uring) (i : Nat) : Option Uring :=
  (ring.inFlight[i]?).map fun sqe =>
    { ring with
      inFlight := ring.inFlight.eraseIdx i
      cq := ring.cq ++ [sqe] }

/-- All writes that are not done with. -/
def outstanding (ring : Uring) : List WriteSqe :=
  ring.sq ++ ring.inFlight ++ ring.cq

end Uring

/-- Where the thread stands in `run_loop`. -/
inductive ThreadPc
  /-- `open_lustre()` -/
  | opening
  /-- `while (running_.load())` -/
  | top
  /-- at the statement that the loop's own position names -/
  | body
  /-- `io_uring_wait_cqe_timeout`, then `continue` -/
  | timedWait
  /-- the submission queue is full: `io_uring_submit` -/
  | sqFull
  /-- `io_uring_wait_cqe` -/
  | waitCqe
  /-- `while (io_uring_peek_cqe(..) == 0)` -/
  | collect
  /-- `io_uring_cq_ready`, after the loop -/
  | cqReady
  /-- `while (pending-- > 0)` -/
  | drainCq (pending : Nat)
  /-- `::close(lustre_fd)` -/
  | closing
  | returned
  deriving DecidableEq

/-- Where the owner stands. -/
inductive OwnerPc
  | idle
  /-- `io_uring_queue_init` -/
  | startInit
  /-- `create_directories` -/
  | startDirs
  /-- `thread_ = std::thread(..)` -/
  | startSpawn
  /-- `thread_.join()`; in the destructor's call of `stop`, or not -/
  | stopJoin (dtor : Bool)
  /-- `io_uring_queue_exit` -/
  | stopRing (dtor : Bool)
  /-- the members are destroyed -/
  | dtorMembers
  | destroyed
  /-- `std::terminate` -/
  | terminated
  deriving DecidableEq

/-- What the thread learns at a statement. -/
inductive ThreadInput
  | next
  /-- how `open_lustre` ends -/
  | opened (ok : Bool)
  /-- no FFN window within `ffn_wait_us` -/
  | attention
  /-- what the bucket reads from the clock -/
  | clock (now : Nat)
  /-- how many entries `io_uring_submit` gets taken -/
  | submitted (n : Nat)
  /-- a timed wait ends without a completion -/
  | timeout
  | spurious

/-- The object; `thread` is `thread_` when that is joinable.  `flushed` (the
blocks submitted, with the last reading of the clock), `consumed`, `allocated`
and `released` are histories. -/
structure PacingProcess (cap : Capacity) (ι : Type*) where
  loop : PacingDaemon cap ι
  bucket : TokenBucket
  running : Bool := false
  thread : Option ThreadPc := none
  uring : Option Uring := none
  owner : OwnerPc := .idle
  allocated : Nat := 0
  released : Nat := 0
  flushed : List (Nat × KVBlock) := []
  consumed : List WriteSqe := []

namespace PacingProcess

variable {cap : Capacity} {ι : Type*}

inductive Event (ι : Type*)
  /-- producer `p` calls `absorb` -/
  | absorb (p : ι) (blk : KVBlock)
  /-- the next access of producer `p` -/
  | producer (p : ι)
  | spurious (p : ι)
  /-- the owner calls `start` -/
  | start
  /-- the owner calls `stop` -/
  | stop
  /-- the owner calls the destructor -/
  | destroy
  /-- the next statement of the owner's call, and whether it succeeds -/
  | owner (ok : Bool)
  /-- the next statement of the thread -/
  | thread (i : ThreadInput)
  /-- the kernel completes the `i`-th write in flight -/
  | kernel (i : Nat)

/-- After the constructor. -/
def init (cfg : ProcessConfig) (found : Fin cap.size → KVBlock) (now : Nat) :
    PacingProcess cap ι :=
  { loop := .init found
    bucket := .new cfg.rateBytesPerSec cfg.burstBytes now }

/-- Where the thread goes on after a statement of the loop's body. -/
def nextPc : DaemonPc → DaemonPc → ThreadPc
  | .gate, .gate => .top
  | .draining, .gate => .timedWait
  | .reabsorb _, .gate => .timedWait
  | .getSqe _, .retrySqe _ => .sqFull
  | .retrySqe _, .gate => .collect
  | .submit _, .gate => .collect
  | _, _ => .body

/-- Consume a completion, if there is one. -/
def reap (s : PacingProcess cap ι) (pc : ThreadPc) :
    Option (PacingProcess cap ι) :=
  match s.uring with
  | some ring =>
      match ring.cq with
      | [] => none
      | sqe :: rest =>
          some { s with
            uring := some { ring with cq := rest }
            consumed := s.consumed ++ [sqe]
            thread := some pc }
  | none => none

/-- `io_uring_submit`. -/
def submitRing (s : PacingProcess cap ι) (n : Nat) : PacingProcess cap ι :=
  { s with uring := s.uring.map (·.submit n) }

/-- `io_uring_get_sqe` has an entry to give. -/
def sqeFree (cfg : ProcessConfig) (s : PacingProcess cap ι) : Bool :=
  s.uring.any fun ring => decide (ring.sq.length < cfg.sqEntries)

/-- The entry for a block is prepared and submitted. -/
def flush (s : PacingProcess cap ι) (blk : KVBlock) (n : Nat) :
    PacingProcess cap ι :=
  { s with
    uring := s.uring.map fun ring =>
      { ring with sq := ring.sq ++ [prepWrite blk] }.submit n
    flushed := s.flushed ++ [(s.bucket.lastNs, blk)] }

variable [DecidableEq ι]

/-- A statement of the loop's body, with what it learns. -/
def advance (cfg : ProcessConfig) (s : PacingProcess cap ι) (i : DaemonInput) :
    Option (PacingProcess cap ι) :=
  (s.loop.daemonStep cfg.strictGate i).map fun loop =>
    { s with loop, thread := some (nextPc s.loop.pc loop.pc) }

/-- The next statement of the loop's body. -/
def bodyStep (cfg : ProcessConfig) (s : PacingProcess cap ι)
    (i : ThreadInput) : Option (PacingProcess cap ι) :=
  match s.loop.pc, i with
  | .gate, .attention => s.advance cfg .attention
  | .gate, .next | .draining, .next | .reabsorb _, .next => s.advance cfg .next
  | .reabsorb _, .spurious => s.advance cfg .spurious
  | .consume blk, .clock now =>
      let taken := s.bucket.tryConsume blk.sizeBytes now
      { s with bucket := taken.1 }.advance cfg (.granted taken.2)
  | .getSqe _, .next | .retrySqe _, .next =>
      s.advance cfg (.sqe (s.sqeFree cfg))
  | .submit blk, .submitted n => (s.flush blk n).advance cfg .next
  | _, _ => none

/-- The next statement of the thread. -/
def threadStep (cfg : ProcessConfig) (s : PacingProcess cap ι)
    (i : ThreadInput) : Option (PacingProcess cap ι) :=
  match s.thread, i with
  | some .opening, .opened true => some { s with thread := some .top }
  | some .opening, .opened false =>
      some { s with running := false, thread := some .returned }
  | some .top, .next =>
      some { s with thread := some (if s.running then .body else .cqReady) }
  | some .body, i => s.bodyStep cfg i
  | some .timedWait, .timeout => some { s with thread := some .top }
  | some .timedWait, .next => s.reap .top
  | some .sqFull, .submitted n =>
      some { s.submitRing n with thread := some .waitCqe }
  | some .waitCqe, .next => s.reap .body
  | some .collect, .next =>
      (s.reap .collect).orElse fun _ => some { s with thread := some .top }
  | some .cqReady, .next =>
      some { s with
        thread := some (.drainCq (s.uring.elim 0 (·.cq.length))) }
  | some (.drainCq 0), .next => some { s with thread := some .closing }
  | some (.drainCq (k + 1)), .next =>
      (s.reap (.drainCq k)).orElse fun _ =>
        some { s with thread := some (.drainCq k) }
  | some .closing, .next => some { s with thread := some .returned }
  | _, _ => none

omit [DecidableEq ι] in
/-- The next statement of `start`, `stop` or the destructor. -/
def ownerStep (s : PacingProcess cap ι) (ok : Bool) :
    Option (PacingProcess cap ι) :=
  match s.owner with
  | .startInit =>
      if ok then
        some { s with
          uring := some {}
          allocated := s.allocated + 1
          owner := .startDirs }
      else some { s with running := false, owner := .idle }
  | .startDirs => some { s with owner := if ok then .startSpawn else .idle }
  | .startSpawn =>
      if ok then
        match s.thread with
        | some _ => some { s with owner := .terminated }
        | none => some { s with thread := some .opening, owner := .idle }
      else some { s with owner := .idle }
  | .stopJoin dtor =>
      match s.thread with
      | none => some { s with owner := .stopRing dtor }
      | some .returned =>
          some { s with thread := none, owner := .stopRing dtor }
      | some _ => none
  | .stopRing dtor =>
      some { s with
        uring := none
        released := s.released + s.uring.elim 0 fun _ => 1
        owner := if dtor then .dtorMembers else .idle }
  | .dtorMembers =>
      some { s with
        owner := if s.thread.isSome then .terminated else .destroyed }
  | .idle | .destroyed | .terminated => none

/-- One step of one party. -/
def step (cfg : ProcessConfig) (s : PacingProcess cap ι) :
    Event ι → Option (PacingProcess cap ι)
  | .absorb p blk =>
      (s.loop.step cfg.strictGate (.absorb p blk)).map fun loop =>
        { s with loop }
  | .producer p =>
      (s.loop.step cfg.strictGate (.producer p)).map fun loop =>
        { s with loop }
  | .spurious p =>
      (s.loop.step cfg.strictGate (.spurious p)).map fun loop =>
        { s with loop }
  | .start =>
      if s.owner = .idle then
        -- `running_.exchange(true)`
        some (if s.running then s
          else { s with running := true, owner := .startInit })
      else none
  | .stop =>
      if s.owner = .idle then
        -- `running_.exchange(false)`
        some (if s.running then
            { s with running := false, owner := .stopJoin false }
          else s)
      else none
  | .destroy =>
      if s.owner = .idle then
        some (if s.running then
            { s with running := false, owner := .stopJoin true }
          else { s with owner := .dtorMembers })
      else none
  | .owner ok => s.ownerStep ok
  | .thread i =>
      if s.owner = .terminated then none else s.threadStep cfg i
  | .kernel i =>
      s.uring.bind fun ring =>
        (ring.complete i).map fun ring => { s with uring := some ring }

/-! ## What a step can do -/

/-- Where the thread consumes a completion, and where it goes on. -/
inductive Reaps : ThreadPc → ThreadPc → Prop
  | timedWait : Reaps .timedWait .top
  | waitCqe : Reaps .waitCqe .body
  | collect : Reaps .collect .collect
  | drainCq (k : Nat) : Reaps (.drainCq (k + 1)) (.drainCq k)

/-- What a statement of the thread can do. -/
inductive ThreadMove (cfg : ProcessConfig) (s : PacingProcess cap ι) :
    ThreadInput → PacingProcess cap ι → Prop
  | opened (hthread : s.thread = some .opening) :
      ThreadMove cfg s (.opened true) { s with thread := some .top }
  | failed (hthread : s.thread = some .opening) :
      ThreadMove cfg s (.opened false)
        { s with running := false, thread := some .returned }
  | test (hthread : s.thread = some .top) :
      ThreadMove cfg s .next
        { s with thread := some (if s.running then .body else .cqReady) }
  | body {i : ThreadInput} {d : DaemonInput} {loop : PacingDaemon cap ι}
      (hthread : s.thread = some .body) (hi : ∀ ok, i ≠ .opened ok)
      (hpc : ∀ blk, s.loop.pc ≠ .consume blk ∧ s.loop.pc ≠ .submit blk)
      (hloop : s.loop.daemonStep cfg.strictGate d = some loop) :
      ThreadMove cfg s i
        { s with loop, thread := some (nextPc s.loop.pc loop.pc) }
  | consume {blk : KVBlock} {now : Nat} {loop : PacingDaemon cap ι}
      (hthread : s.thread = some .body) (hpc : s.loop.pc = .consume blk)
      (hloop : s.loop.daemonStep cfg.strictGate
        (.granted (s.bucket.tryConsume blk.sizeBytes now).2) = some loop) :
      ThreadMove cfg s (.clock now)
        { s with
          loop
          bucket := (s.bucket.tryConsume blk.sizeBytes now).1
          thread := some (nextPc s.loop.pc loop.pc) }
  | submit {blk : KVBlock} {n : Nat} {loop : PacingDaemon cap ι}
      (hthread : s.thread = some .body) (hpc : s.loop.pc = .submit blk)
      (hloop : s.loop.daemonStep cfg.strictGate .next = some loop) :
      ThreadMove cfg s (.submitted n)
        { s.flush blk n with
          loop
          thread := some (nextPc s.loop.pc loop.pc) }
  | timeout (hthread : s.thread = some .timedWait) :
      ThreadMove cfg s .timeout { s with thread := some .top }
  | sqFull {n : Nat} (hthread : s.thread = some .sqFull) :
      ThreadMove cfg s (.submitted n)
        { s.submitRing n with thread := some .waitCqe }
  | reap {pc pc' : ThreadPc} {ring : Uring} {sqe : WriteSqe}
      {rest : List WriteSqe} (hreaps : Reaps pc pc')
      (hthread : s.thread = some pc) (huring : s.uring = some ring)
      (hcq : ring.cq = sqe :: rest) :
      ThreadMove cfg s .next
        { s with
          uring := some { ring with cq := rest }
          consumed := s.consumed ++ [sqe]
          thread := some pc' }
  | collected (hthread : s.thread = some .collect) :
      ThreadMove cfg s .next { s with thread := some .top }
  | count (hthread : s.thread = some .cqReady) :
      ThreadMove cfg s .next
        { s with thread := some (.drainCq (s.uring.elim 0 (·.cq.length))) }
  | skip {k : Nat} (hthread : s.thread = some (.drainCq (k + 1)))
      (hcq : s.uring.elim [] (·.cq) = []) :
      ThreadMove cfg s .next { s with thread := some (.drainCq k) }
  | drained (hthread : s.thread = some (.drainCq 0)) :
      ThreadMove cfg s .next { s with thread := some .closing }
  | closed (hthread : s.thread = some .closing) :
      ThreadMove cfg s .next { s with thread := some .returned }

variable {cfg : ProcessConfig} {s t : PacingProcess cap ι}

omit [DecidableEq ι] in
/-- A completion is consumed when there is one. -/
theorem reap_cases (s : PacingProcess cap ι) (pc : ThreadPc) :
    (s.reap pc = none ∧ s.uring.elim [] (·.cq) = []) ∨
      ∃ ring sqe rest, s.uring = some ring ∧ ring.cq = sqe :: rest ∧
        s.reap pc = some { s with
          uring := some { ring with cq := rest }
          consumed := s.consumed ++ [sqe]
          thread := some pc } := by
  cases huring : s.uring with
  | none => exact .inl ⟨by simp [reap, huring], rfl⟩
  | some ring =>
      cases hcq : ring.cq with
      | nil => exact .inl ⟨by simp [reap, huring, hcq], by simp [hcq]⟩
      | cons sqe rest =>
          exact .inr ⟨ring, sqe, rest, rfl, hcq, by simp [reap, huring, hcq]⟩

theorem move_of_advance {i : ThreadInput} {d : DaemonInput}
    (hthread : s.thread = some .body) (hi : ∀ ok, i ≠ .opened ok)
    (hpc : ∀ blk, s.loop.pc ≠ .consume blk ∧ s.loop.pc ≠ .submit blk)
    (hstep : s.advance cfg d = some t) : ThreadMove cfg s i t := by
  obtain ⟨loop, hloop, rfl⟩ := Option.map_eq_some_iff.mp hstep
  exact .body hthread hi hpc hloop

theorem move_of_bodyStep {i : ThreadInput} (hthread : s.thread = some .body)
    (hstep : s.bodyStep cfg i = some t) : ThreadMove cfg s i t := by
  unfold bodyStep at hstep
  split at hstep
  · next hpc => exact move_of_advance hthread (by simp) (by simp [hpc]) hstep
  · next hpc => exact move_of_advance hthread (by simp) (by simp [hpc]) hstep
  · next hpc => exact move_of_advance hthread (by simp) (by simp [hpc]) hstep
  · next hpc => exact move_of_advance hthread (by simp) (by simp [hpc]) hstep
  · next hpc => exact move_of_advance hthread (by simp) (by simp [hpc]) hstep
  · next blk now hpc =>
      obtain ⟨loop, hloop, rfl⟩ := Option.map_eq_some_iff.mp hstep
      exact .consume hthread hpc hloop
  · next hpc => exact move_of_advance hthread (by simp) (by simp [hpc]) hstep
  · next hpc => exact move_of_advance hthread (by simp) (by simp [hpc]) hstep
  · next blk n hpc =>
      obtain ⟨loop, hloop, rfl⟩ := Option.map_eq_some_iff.mp hstep
      exact .submit hthread hpc hloop
  · cases hstep

/-- A call that consumes a completion. -/
theorem move_of_reap {pc pc' : ThreadPc} (hreaps : Reaps pc pc')
    (hthread : s.thread = some pc) (hstep : s.reap pc' = some t) :
    ThreadMove cfg s .next t := by
  obtain ⟨hnone, -⟩ | ⟨ring, sqe, rest, huring, hcq, hsome⟩ := s.reap_cases pc'
  · rw [hnone] at hstep
    cases hstep
  · obtain rfl := Option.some.inj (hsome.symm.trans hstep)
    exact .reap hreaps hthread huring hcq

theorem move_of_threadStep {i : ThreadInput}
    (hstep : s.threadStep cfg i = some t) : ThreadMove cfg s i t := by
  unfold threadStep at hstep
  split at hstep
  · next hthread =>
      obtain rfl := Option.some.inj hstep
      exact .opened hthread
  · next hthread =>
      obtain rfl := Option.some.inj hstep
      exact .failed hthread
  · next hthread =>
      obtain rfl := Option.some.inj hstep
      exact .test hthread
  · next hthread => exact move_of_bodyStep hthread hstep
  · next hthread =>
      obtain rfl := Option.some.inj hstep
      exact .timeout hthread
  · next hthread => exact move_of_reap .timedWait hthread hstep
  · next hthread =>
      obtain rfl := Option.some.inj hstep
      exact .sqFull hthread
  · next hthread => exact move_of_reap .waitCqe hthread hstep
  · next hthread =>
      cases hreap : s.reap .collect with
      | none =>
          obtain rfl := by simpa [hreap] using hstep
          exact .collected hthread
      | some u =>
          obtain rfl : u = t := by simpa [hreap] using hstep
          exact move_of_reap .collect hthread hreap
  · next hthread =>
      obtain rfl := Option.some.inj hstep
      exact .count hthread
  · next hthread =>
      obtain rfl := Option.some.inj hstep
      exact .drained hthread
  · next k hthread =>
      cases hreap : s.reap (.drainCq k) with
      | none =>
          obtain rfl := by simpa [hreap] using hstep
          obtain ⟨-, hcq⟩ | ⟨ring, sqe, rest, -, -, hsome⟩ :=
            s.reap_cases (.drainCq k)
          · exact .skip hthread hcq
          · simp [hsome] at hreap
      | some u =>
          obtain rfl : u = t := by simpa [hreap] using hstep
          exact move_of_reap (.drainCq k) hthread hreap
  · next hthread =>
      obtain rfl := Option.some.inj hstep
      exact .closed hthread
  · cases hstep

/-- What the thread does not touch, and how it can touch `running_`. -/
structure ThreadFrame (s : PacingProcess cap ι) (i : ThreadInput)
    (t : PacingProcess cap ι) : Prop where
  owner : t.owner = s.owner
  allocated : t.allocated = s.allocated
  released : t.released = s.released
  uring : t.uring.isSome = s.uring.isSome
  started : s.thread.isSome
  joinable : t.thread.isSome
  running : t.running = s.running ∨
    s.thread = some .opening ∧ i = .opened false ∧ t.running = false ∧
      t.thread = some .returned

omit [DecidableEq ι] in
/-- Two statements of a thread that has been started and leaves the rest
alone. -/
theorem ThreadFrame.of_thread {i : ThreadInput} {pc pc' : ThreadPc}
    (hthread : s.thread = some pc) (hthread' : t.thread = some pc')
    (howner : t.owner = s.owner) (hallocated : t.allocated = s.allocated)
    (hreleased : t.released = s.released)
    (huring : t.uring.isSome = s.uring.isSome)
    (hrunning : t.running = s.running) : s.ThreadFrame i t where
  owner := howner
  allocated := hallocated
  released := hreleased
  uring := huring
  started := by simp [hthread]
  joinable := by simp [hthread']
  running := .inl hrunning

theorem ThreadMove.frame {i : ThreadInput} (hmove : ThreadMove cfg s i t) :
    s.ThreadFrame i t := by
  cases hmove with
  | opened hthread | test hthread | timeout hthread | collected hthread
  | count hthread | skip hthread | drained hthread | closed hthread
  | body hthread | consume hthread =>
      exact .of_thread hthread rfl rfl rfl rfl rfl rfl
  | failed hthread =>
      exact {
        owner := rfl
        allocated := rfl
        released := rfl
        uring := rfl
        started := by simp [hthread]
        joinable := rfl
        running := .inr ⟨hthread, rfl, rfl, rfl⟩ }
  | submit hthread =>
      exact .of_thread hthread rfl rfl rfl rfl (by simp [flush]) rfl
  | sqFull hthread =>
      exact .of_thread hthread rfl rfl rfl rfl (by simp [submitRing]) rfl
  | reap hreaps hthread huring hcq =>
      exact .of_thread hthread rfl rfl rfl rfl (by simp [huring]) rfl

theorem frame_of_step {i : ThreadInput}
    (hstep : s.step cfg (.thread i) = some t) :
    s.owner ≠ .terminated ∧ ThreadMove cfg s i t := by
  by_cases howner : s.owner = .terminated
  · simp [step, howner] at hstep
  · exact ⟨howner, move_of_threadStep (by simpa [step, howner] using hstep)⟩

/-- What a call of the owner, or a statement of it, can do. -/
inductive OwnerMove (s : PacingProcess cap ι) : PacingProcess cap ι → Prop
  | again (howner : s.owner = .idle) : OwnerMove s s
  | start (howner : s.owner = .idle) (hrunning : s.running = false) :
      OwnerMove s { s with running := true, owner := .startInit }
  | stop (dtor : Bool) (howner : s.owner = .idle) (hrunning : s.running = true) :
      OwnerMove s { s with running := false, owner := .stopJoin dtor }
  | destroy (howner : s.owner = .idle) (hrunning : s.running = false) :
      OwnerMove s { s with owner := .dtorMembers }
  | init (howner : s.owner = .startInit) :
      OwnerMove s { s with
        uring := some {}
        allocated := s.allocated + 1
        owner := .startDirs }
  | initFailed (howner : s.owner = .startInit) :
      OwnerMove s { s with running := false, owner := .idle }
  | dirs (howner : s.owner = .startDirs) :
      OwnerMove s { s with owner := .startSpawn }
  | thrown (howner : s.owner = .startDirs ∨ s.owner = .startSpawn) :
      OwnerMove s { s with owner := .idle }
  | spawn (howner : s.owner = .startSpawn) (hthread : s.thread = none) :
      OwnerMove s { s with thread := some .opening, owner := .idle }
  | overwrite (howner : s.owner = .startSpawn) (hthread : s.thread.isSome) :
      OwnerMove s { s with owner := .terminated }
  | joined (dtor : Bool) (howner : s.owner = .stopJoin dtor)
      (hthread : s.thread = none ∨ s.thread = some .returned) :
      OwnerMove s { s with thread := none, owner := .stopRing dtor }
  | ring (dtor : Bool) (howner : s.owner = .stopRing dtor) :
      OwnerMove s { s with
        uring := none
        released := s.released + s.uring.elim 0 fun _ => 1
        owner := if dtor then .dtorMembers else .idle }
  | members (howner : s.owner = .dtorMembers) (hthread : s.thread = none) :
      OwnerMove s { s with owner := .destroyed }
  | joinable (howner : s.owner = .dtorMembers) (hthread : s.thread.isSome) :
      OwnerMove s { s with owner := .terminated }

omit [DecidableEq ι] in
theorem move_of_ownerStep {ok : Bool} (hstep : s.ownerStep ok = some t) :
    OwnerMove s t := by
  unfold ownerStep at hstep
  split at hstep
  · next howner =>
      split at hstep
      · obtain rfl := Option.some.inj hstep
        exact .init howner
      · obtain rfl := Option.some.inj hstep
        exact .initFailed howner
  · next howner =>
      obtain rfl := Option.some.inj hstep
      split
      · exact .dirs howner
      · exact .thrown (.inl howner)
  · next howner =>
      split at hstep
      · split at hstep
        · next hthread =>
            obtain rfl := Option.some.inj hstep
            exact .overwrite howner (by simp [hthread])
        · next hthread =>
            obtain rfl := Option.some.inj hstep
            exact .spawn howner hthread
      · obtain rfl := Option.some.inj hstep
        exact .thrown (.inr howner)
  · next dtor howner =>
      split at hstep
      · next hthread =>
          obtain rfl := Option.some.inj hstep
          have hjoined := OwnerMove.joined dtor howner (.inl hthread)
          rwa [← hthread] at hjoined
      · next hthread =>
          obtain rfl := Option.some.inj hstep
          exact .joined dtor howner (.inr hthread)
      · cases hstep
  · next dtor howner =>
      obtain rfl := Option.some.inj hstep
      exact .ring dtor howner
  · next howner =>
      obtain rfl := Option.some.inj hstep
      split
      · next hthread => exact .joinable howner hthread
      · next hthread => exact .members howner (by simpa using hthread)
  · cases hstep
  · cases hstep
  · cases hstep

/-- Who makes a step, and what it can do. -/
inductive Move (cfg : ProcessConfig) (s : PacingProcess cap ι) :
    Event ι → PacingProcess cap ι → Prop
  | producers {e : Event ι} {e' : PacingDaemon.Event ι}
      {loop : PacingDaemon cap ι}
      (hloop : s.loop.step cfg.strictGate e' = some loop)
      (hpc : loop.pc = s.loop.pc) (hthread : ∀ i, e ≠ .thread i) :
      Move cfg s e { s with loop }
  | owner {e : Event ι} {u : PacingProcess cap ι}
      (hthread : ∀ i, e ≠ .thread i) (hmove : OwnerMove s u) : Move cfg s e u
  | thread {i : ThreadInput} {u : PacingProcess cap ι}
      (halive : s.owner ≠ .terminated) (hmove : ThreadMove cfg s i u) :
      Move cfg s (.thread i) u
  | kernel {i : Nat} {ring ring' : Uring} (huring : s.uring = some ring)
      (hring : ring.complete i = some ring') :
      Move cfg s (.kernel i) { s with uring := some ring' }

omit [DecidableEq ι] in
/-- An access of `absorb` does not itself move the loop. -/
theorem pc_of_absorbing (s : PacingDaemon cap ι) (i : Option ι)
    (absorber : SpikeAbsorber cap (Option ι)) :
    (s.absorbing i absorber).pc = s.pc := by
  unfold PacingDaemon.absorbing
  split
  · rfl
  · cases i <;> rfl

theorem move_of_step {e : Event ι} (hstep : s.step cfg e = some t) :
    Move cfg s e t := by
  cases e with
  | absorb p _ | spurious p =>
      obtain ⟨loop, hloop, rfl⟩ := Option.map_eq_some_iff.mp hstep
      have hpc : loop.pc = s.loop.pc := by
        obtain ⟨absorber, -, rfl⟩ := Option.map_eq_some_iff.mp hloop
        rfl
      exact .producers hloop hpc (by simp)
  | producer p =>
      obtain ⟨loop, hloop, rfl⟩ := Option.map_eq_some_iff.mp hstep
      have hpc : loop.pc = s.loop.pc := by
        obtain ⟨absorber, -, rfl⟩ := Option.map_eq_some_iff.mp hloop
        exact pc_of_absorbing _ _ _
      exact .producers hloop hpc (by simp)
  | start =>
      simp only [step, Option.ite_none_right_eq_some, Option.some.injEq] at hstep
      obtain ⟨howner, rfl⟩ := hstep
      refine .owner (by simp) ?_
      split
      · exact .again howner
      · next hrunning => exact .start howner (by simpa using hrunning)
  | stop =>
      simp only [step, Option.ite_none_right_eq_some, Option.some.injEq] at hstep
      obtain ⟨howner, rfl⟩ := hstep
      refine .owner (by simp) ?_
      split
      · next hrunning => exact .stop false howner hrunning
      · exact .again howner
  | destroy =>
      simp only [step, Option.ite_none_right_eq_some, Option.some.injEq] at hstep
      obtain ⟨howner, rfl⟩ := hstep
      refine .owner (by simp) ?_
      split
      · next hrunning => exact .stop true howner hrunning
      · next hrunning => exact .destroy howner (by simpa using hrunning)
  | owner ok => exact .owner (by simp) (move_of_ownerStep hstep)
  | thread i =>
      obtain ⟨halive, hmove⟩ := frame_of_step hstep
      exact .thread halive hmove
  | kernel i =>
      obtain ⟨ring, huring, hmap⟩ := Option.bind_eq_some_iff.mp hstep
      obtain ⟨ring', hring, rfl⟩ := Option.map_eq_some_iff.mp hmap
      exact .kernel huring hring

omit [DecidableEq ι] in
/-- What the owner does not touch. -/
theorem OwnerMove.frame (hmove : OwnerMove s t) :
    t.loop = s.loop ∧ t.bucket = s.bucket ∧ t.flushed = s.flushed := by
  cases hmove <;> exact ⟨rfl, rfl, rfl⟩

/-- **The object runs the loop of `Tempo.PacingDaemon`.**  A step of the object
is a step of the loop and its producers, or nothing to them. -/
theorem loop_of_step {e : Event ι} (hstep : s.step cfg e = some t) :
    t.loop = s.loop ∨
      ∃ e', s.loop.step cfg.strictGate e' = some t.loop := by
  cases move_of_step hstep with
  | producers hloop => exact .inr ⟨_, hloop⟩
  | owner _ hmove => exact .inl hmove.frame.1
  | kernel => exact .inl rfl
  | thread _ hmove =>
      cases hmove with
      | body _ _ _ hloop => exact .inr ⟨.daemon _, hloop⟩
      | consume _ _ hloop => exact .inr ⟨.daemon _, hloop⟩
      | submit _ _ hloop => exact .inr ⟨.daemon _, hloop⟩
      | _ => exact .inl rfl

theorem loop_reachable {found : Fin cap.size → KVBlock} {now : Nat}
    {cond : PacingProcess cap ι → Event ι → Prop}
    (hrun : Runs.Reach (step cfg) cond (init cfg found now) s) :
    Runs.Reachable (PacingDaemon.step cfg.strictGate) (PacingDaemon.init found)
      s.loop :=
  hrun.simulate loop (fun _ _ => trivial) fun _ _ _ _ _ => loop_of_step

end PacingProcess

end Tempo
