import Mathlib.Algebra.Order.Field.Rat
import Tempo.FifoLog

/-!
# The soft absorber

`_SoftAbsorber` queues the tensors of `TEMPOStorageBackend.put` under a
condition variable, and one thread pops them, paces them with a token bucket and
puts them to the backing store.  The thread's loop is given statement by
statement; `absorb` is one step, since it holds the lock throughout.  The
backing store does not fail, and a `sleep` raises when its argument does not
exist or is negative.

The outer loop stops at the stop flag whatever is queued, the inner test only
when the queue is empty.  What is queued when `shutdown` sets the flag is
therefore put to the store only if the thread is still going to pop it, which
it does at most once (`Drainable`).
-/

namespace Tempo

/-- The fields of `TEMPOConfig` that the soft absorber uses. -/
structure SoftConfig where
  rateGbps : ℚ := 5
  burstMb : Int := 256

namespace SoftConfig

def rateBps (cfg : SoftConfig) : ℚ := cfg.rateGbps * 1000000000

def burstB (cfg : SoftConfig) : ℚ := cfg.burstMb * 1024 * 1024

/-- `time.sleep(size / rate_bps)` does not raise. -/
def canSleep (cfg : SoftConfig) (size : Nat) : Prop :=
  cfg.rateBps ≠ 0 ∧ 0 ≤ (size : ℚ) / cfg.rateBps

instance (cfg : SoftConfig) (size : Nat) : Decidable (cfg.canSleep size) :=
  inferInstanceAs (Decidable (_ ∧ _))

end SoftConfig

/-- Where the flush thread stands. -/
inductive SoftPc (α : Type*)
  /-- `while not self._stop.is_set()` -/
  | top
  /-- `with self._cond` -/
  | acquire
  /-- `while not self._queue and not self._stop.is_set()`, lock held -/
  | inner
  /-- in `self._cond.wait` -/
  | waiting
  /-- after the inner loop, up to the pop, lock held -/
  | decide
  | refill (item : α)
  /-- `time.sleep` and the second refill -/
  | sleep (item : α)
  /-- `self._backing.put` -/
  | put (item : α)
  | exited
  /-- ended by an exception -/
  | crashed (item : α)
  deriving DecidableEq

namespace SoftPc

variable {α : Type*}

/-- The item popped and not yet put. -/
def item? : SoftPc α → Option α
  | .refill item | .sleep item | .put item | .crashed item => some item
  | _ => none

/-- The thread holds the lock. -/
def locked : SoftPc α → Bool
  | .inner => true
  | .decide => true
  | _ => false

/-- How many items the thread pops before it looks at the stop flag again. -/
def pops : SoftPc α → Nat
  | .acquire | .inner | .waiting | .decide => 1
  | _ => 0

end SoftPc

/-- Where the caller of `shutdown` stands. -/
inductive ShutdownPc
  | idle
  /-- `self._cond.notify_all()` -/
  | notify
  /-- `self._thread.join` -/
  | join
  | joined
  deriving DecidableEq

/-- The absorber; `absorbed`, `puts` and `beforeStop` are histories: the items
absorbed, those put to the store, and those absorbed before the last call of
`shutdown`. -/
structure SoftAbsorber (κ τ : Type*) where
  queue : List (κ × τ) := []
  stop : Bool := false
  tokens : ℚ
  lastT : ℚ
  worker : SoftPc (κ × τ) := .top
  shutdown : ShutdownPc := .idle
  absorbed : List (κ × τ) := []
  puts : List (κ × τ) := []
  beforeStop : List (κ × τ) := []

namespace SoftAbsorber

variable {κ τ : Type*}

inductive Event (κ τ : Type*)
  | absorb (key : κ) (tensor : τ)
  /-- the next statement of the flush thread; `now` is what it reads from the
  clock -/
  | worker (now : ℚ)
  /-- `shutdown` is called and sets the stop flag -/
  | shutdown
  /-- the next statement of `shutdown` -/
  | closing

/-- After `__init__`, with the thread's first reading of the clock. -/
def init (cfg : SoftConfig) (now : ℚ) : SoftAbsorber κ τ :=
  { tokens := cfg.burstB, lastT := now }

/-- The bucket, refilled up to `now`. -/
def refilled (cfg : SoftConfig) (s : SoftAbsorber κ τ) (now : ℚ) : ℚ :=
  min (s.tokens + (now - s.lastT) * cfg.rateBps) cfg.burstB

/-- The next statement of the flush thread. -/
def workerStep (cfg : SoftConfig) (nbytes : τ → Nat) (s : SoftAbsorber κ τ)
    (now : ℚ) : Option (SoftAbsorber κ τ) :=
  match s.worker with
  | .top => some { s with worker := if s.stop then .exited else .acquire }
  | .acquire => some { s with worker := .inner }
  | .inner =>
      some { s with
        worker := if s.queue = [] ∧ s.stop = false then .waiting else .decide }
  | .waiting => some { s with worker := .inner }
  | .decide =>
      match s.queue with
      | [] => some { s with worker := if s.stop then .exited else .top }
      | item :: rest => some { s with queue := rest, worker := .refill item }
  | .refill item =>
      let tokens := s.refilled cfg now
      some { s with
        tokens
        lastT := now
        worker := if tokens < nbytes item.2 then .sleep item else .put item }
  | .sleep item =>
      if cfg.canSleep (nbytes item.2) then
        -- `last_t` stays at the first reading
        some { s with tokens := s.refilled cfg now, worker := .put item }
      else some { s with worker := .crashed item }
  | .put item =>
      some { s with
        tokens := s.tokens - nbytes item.2
        puts := s.puts ++ [item]
        worker := .top }
  | .exited | .crashed _ => none

/-- The thread has ended. -/
def ended (s : SoftAbsorber κ τ) : Bool :=
  match s.worker with
  | .exited => true
  | .crashed _ => true
  | _ => false

/-- One step of one thread. -/
def step (cfg : SoftConfig) (nbytes : τ → Nat) (s : SoftAbsorber κ τ) :
    Event κ τ → Option (SoftAbsorber κ τ)
  | .absorb key tensor =>
      if s.worker.locked then none
      else
        some { s with
          queue := s.queue ++ [(key, tensor)]
          absorbed := s.absorbed ++ [(key, tensor)] }
  | .worker now => s.workerStep cfg nbytes now
  | .shutdown =>
      if s.shutdown = .idle ∨ s.shutdown = .joined then
        some { s with
          stop := true
          shutdown := .notify
          beforeStop := s.absorbed }
      else none
  | .closing =>
      match s.shutdown with
      | .notify =>
          if s.worker.locked then none else some { s with shutdown := .join }
      | .join => if s.ended then some { s with shutdown := .joined } else none
      | _ => none

/-- The thread is going to pop what is queued. -/
def Drainable (s : SoftAbsorber κ τ) : Prop :=
  s.queue.length ≤ s.worker.pops

/-- The condition on a step: `shutdown` is called with no more queued than the
thread is going to pop, and the thread does not fall asleep for a time that
does not exist. -/
def Orderly (cfg : SoftConfig) (nbytes : τ → Nat) (s : SoftAbsorber κ τ) :
    Event κ τ → Prop
  | .shutdown => s.Drainable
  | .worker _ => ∀ item, s.worker = .sleep item → cfg.canSleep (nbytes item.2)
  | _ => True

/-- Nothing is lost on the way: what was absorbed has been put, is held by the
thread or is queued. -/
def Intact (s : SoftAbsorber κ τ) : Prop :=
  s.absorbed = s.puts ++ s.worker.item?.toList ++ s.queue

/-- The absorber seen as a queue. -/
def log (s : SoftAbsorber κ τ) : FifoLog (κ × τ) := ⟨s.absorbed, s.puts⟩

section Steps

variable {cfg : SoftConfig} {nbytes : τ → Nat} {s t : SoftAbsorber κ τ}

theorem intact_init (now : ℚ) :
    Intact (init cfg now : SoftAbsorber κ τ) := rfl

/-- What a statement of the thread can do: change the thread's position, which
keeps the item held and the pops promised unless the queue is empty; pop an
item; or put the item held. -/
theorem workerStep_cases {now : ℚ}
    (hstep : s.workerStep cfg nbytes now = some t) :
    s.worker ≠ .exited ∧
      ((∃ w tokens lastT, t = { s with worker := w, tokens, lastT } ∧
          w.item? = s.worker.item? ∧
          (s.queue = [] ∨ s.worker.pops ≤ w.pops) ∧
          ∀ item, w = .crashed item →
            s.worker = .sleep item ∧ ¬ cfg.canSleep (nbytes item.2)) ∨
        (∃ item rest, s.worker = .decide ∧ s.queue = item :: rest ∧
          t = { s with queue := rest, worker := .refill item }) ∨
        ∃ item tokens, s.worker = .put item ∧
          t = { s with
            tokens, puts := s.puts ++ [item], worker := .top }) := by
  cases hpc : s.worker with
  | top =>
      obtain rfl := by simpa [workerStep, hpc] using hstep
      refine ⟨by simp, .inl ⟨_, _, _, rfl, ?_, .inr (Nat.zero_le _), ?_⟩⟩ <;>
        split <;> simp [SoftPc.item?]
  | acquire | waiting =>
      obtain rfl := by simpa [workerStep, hpc] using hstep
      exact ⟨by simp, .inl ⟨_, _, _, rfl, rfl, .inr le_rfl, by simp⟩⟩
  | inner =>
      obtain rfl := by simpa [workerStep, hpc] using hstep
      refine ⟨by simp, .inl ⟨_, _, _, rfl, ?_, .inr ?_, ?_⟩⟩ <;>
        split <;> simp [SoftPc.item?, SoftPc.pops]
  | decide =>
      cases hq : s.queue with
      | nil =>
          obtain rfl := by simpa [workerStep, hpc, hq] using hstep
          refine ⟨by simp, .inl ⟨_, _, _, rfl, ?_, .inl rfl, ?_⟩⟩ <;>
            split <;> simp [SoftPc.item?]
      | cons item rest =>
          obtain rfl := by simpa [workerStep, hpc, hq] using hstep
          exact ⟨by simp, .inr (.inl ⟨item, rest, rfl, rfl, rfl⟩)⟩
  | refill item =>
      obtain rfl := by simpa [workerStep, hpc] using hstep
      refine ⟨by simp, .inl ⟨_, _, _, rfl, ?_, .inr (Nat.zero_le _), ?_⟩⟩ <;>
        split <;> simp [SoftPc.item?]
  | sleep item =>
      by_cases hsleep : cfg.canSleep (nbytes item.2)
      · obtain rfl := by simpa [workerStep, hpc, hsleep] using hstep
        exact ⟨by simp, .inl ⟨_, _, _, rfl, rfl, .inr le_rfl, by simp⟩⟩
      · obtain rfl := by simpa [workerStep, hpc, hsleep] using hstep
        refine ⟨by simp, .inl ⟨_, _, _, rfl, rfl, .inr le_rfl, ?_⟩⟩
        intro other hother
        obtain rfl := SoftPc.crashed.inj hother
        exact ⟨rfl, hsleep⟩
  | put item =>
      obtain rfl := by simpa [workerStep, hpc] using hstep
      exact ⟨by simp, .inr (.inr ⟨item, _, rfl, rfl⟩)⟩
  | exited => simp [workerStep, hpc] at hstep
  | crashed item => simp [workerStep, hpc] at hstep

/-- `shutdown` goes on; it joins only a thread that has ended. -/
theorem closing_cases (hstep : s.step cfg nbytes .closing = some t) :
    ∃ pc, t = { s with shutdown := pc } ∧ (pc = .joined → s.ended = true) := by
  cases hpc : s.shutdown with
  | notify =>
      obtain ⟨-, rfl⟩ := by simpa [SoftAbsorber.step, hpc] using hstep
      exact ⟨_, rfl, by simp⟩
  | join =>
      obtain ⟨hended, rfl⟩ := by simpa [SoftAbsorber.step, hpc] using hstep
      exact ⟨_, rfl, fun _ => hended⟩
  | _ => simp [SoftAbsorber.step, hpc] at hstep

/-- A statement of the thread moves an item from the queue to the thread, or
from the thread to the store. -/
theorem Intact.worker (hs : s.Intact) {now : ℚ}
    (hstep : s.workerStep cfg nbytes now = some t) : t.Intact := by
  unfold Intact at hs ⊢
  obtain ⟨-, ⟨w, tokens, lastT, rfl, hitem, -⟩ | ⟨item, rest, hpc, hq, rfl⟩ |
    ⟨item, tokens, hpc, rfl⟩⟩ := workerStep_cases hstep
  · rw [hs, ← hitem]
  · rw [hs, hpc, hq]
    simp [SoftPc.item?]
  · rw [hs, hpc]
    simp [SoftPc.item?]

theorem Intact.step (hs : s.Intact) {e : Event κ τ}
    (hstep : s.step cfg nbytes e = some t) : t.Intact := by
  cases e with
  | absorb key tensor =>
      obtain ⟨-, rfl⟩ := by simpa [SoftAbsorber.step] using hstep
      unfold Intact at hs ⊢
      rw [hs]
      simp
  | worker now => exact hs.worker hstep
  | shutdown =>
      obtain ⟨-, rfl⟩ := by simpa [SoftAbsorber.step] using hstep
      exact hs
  | closing =>
      obtain ⟨pc, rfl, -⟩ := closing_cases hstep
      exact hs

/-- **Refinement.**  An `absorb` is a push to the abstract queue, a put to the
store a pop, and every other step is nothing to it. -/
theorem log_step (hs : s.Intact) {e : Event κ τ}
    (hstep : s.step cfg nbytes e = some t) :
    t.log = s.log ∨ ∃ op, FifoLog.step s.log op = some t.log := by
  cases e with
  | absorb key tensor =>
      obtain ⟨-, rfl⟩ := by simpa [SoftAbsorber.step] using hstep
      exact .inr ⟨.push (key, tensor), rfl⟩
  | worker now =>
      obtain ⟨-, ⟨w, tokens, lastT, rfl, -⟩ | ⟨item, rest, -, -, rfl⟩ |
        ⟨item, tokens, hpc, rfl⟩⟩ := workerStep_cases hstep
      · exact .inl rfl
      · exact .inl rfl
      · have hnext : s.absorbed[s.puts.length]? = some item := by
          rw [hs, hpc]
          simp [SoftPc.item?]
        exact .inr ⟨.pop, FifoLog.step_pop hnext⟩
  | shutdown =>
      obtain ⟨-, rfl⟩ := by simpa [SoftAbsorber.step] using hstep
      exact .inl rfl
  | closing =>
      obtain ⟨pc, rfl, -⟩ := closing_cases hstep
      exact .inl rfl

/-- What holds in orderly runs: the items absorbed before `shutdown` have been
put, or the thread holds one of them or is going to pop it. -/
structure Kept (s : SoftAbsorber κ τ) : Prop where
  intact : s.Intact
  before : s.beforeStop <+: s.absorbed
  promise : s.beforeStop.length ≤
    s.puts.length + s.worker.item?.toList.length + s.worker.pops
  alive : ∀ item, s.worker ≠ .crashed item
  joined : s.shutdown = .joined → s.worker = .exited

theorem kept_init (now : ℚ) : Kept (init cfg now : SoftAbsorber κ τ) where
  intact := rfl
  before := List.prefix_refl _
  promise := Nat.zero_le _
  alive := by simp [init]
  joined := by simp [init]

/-- How many items there are. -/
theorem Intact.length_eq (hs : s.Intact) : s.absorbed.length =
    s.puts.length + s.worker.item?.toList.length + s.queue.length := by
  rw [hs]
  simp only [List.length_append]

theorem Kept.worker (hs : s.Kept) {now : ℚ}
    (horderly : ∀ item, s.worker = .sleep item → cfg.canSleep (nbytes item.2))
    (hstep : s.workerStep cfg nbytes now = some t) : t.Kept := by
  have hintact := hs.intact.worker hstep
  have hpromise := hs.promise
  obtain ⟨hrunning, hmoves⟩ := workerStep_cases hstep
  have hopen : s.shutdown ≠ .joined := fun h => hrunning (hs.joined h)
  obtain ⟨w, tokens, lastT, rfl, hitem, hpops, hcrash⟩ |
    ⟨item, rest, hpc, hq, rfl⟩ | ⟨item, tokens, hpc, rfl⟩ := hmoves
  · refine ⟨hintact, hs.before, ?_, ?_, fun h => absurd h hopen⟩
    · dsimp only
      rw [hitem]
      rcases hpops with hempty | hpops
      · -- everything absorbed has been put or is held
        have hlen := hs.before.length_le
        have habsorbed := hs.intact.length_eq
        rw [hempty, List.length_nil] at habsorbed
        omega
      · omega
    · intro item hw
      obtain ⟨hsleep, hnever⟩ := hcrash item hw
      exact hnever (horderly item hsleep)
  · rw [hpc] at hpromise
    exact ⟨hintact, hs.before, hpromise, by simp, fun h => absurd h hopen⟩
  · rw [hpc] at hpromise
    refine ⟨hintact, hs.before, ?_, by simp, fun h => absurd h hopen⟩
    simpa [SoftPc.item?, SoftPc.pops] using hpromise

theorem Kept.step (hs : s.Kept) {e : Event κ τ}
    (horderly : s.Orderly cfg nbytes e)
    (hstep : s.step cfg nbytes e = some t) : t.Kept := by
  have hintact := hs.intact.step hstep
  cases e with
  | absorb key tensor =>
      obtain ⟨-, rfl⟩ := by simpa [SoftAbsorber.step] using hstep
      exact ⟨hintact, hs.before.trans (List.prefix_append _ _), hs.promise,
        hs.alive, hs.joined⟩
  | worker now => exact hs.worker horderly hstep
  | shutdown =>
      obtain ⟨-, rfl⟩ := by simpa [SoftAbsorber.step] using hstep
      refine ⟨hintact, List.prefix_refl _, ?_, hs.alive, by simp⟩
      have hlen := hs.intact.length_eq
      have hdrain : s.queue.length ≤ s.worker.pops := horderly
      dsimp only
      omega
  | closing =>
      obtain ⟨pc, rfl, hjoined⟩ := closing_cases hstep
      refine ⟨hintact, hs.before, hs.promise, hs.alive, fun hpc => ?_⟩
      have hended := hjoined hpc
      have halive := hs.alive
      unfold ended at hended
      cases hw : s.worker <;> simp_all

end Steps

/-- **The soft absorber loses nothing in orderly runs.**  The store receives the
puts in the order of absorption, each item at most once, and when `shutdown` has
joined the thread every item absorbed before it has been put. -/
theorem orderly_shutdown_drains {cfg : SoftConfig} {nbytes : τ → Nat} {now : ℚ}
    {s : SoftAbsorber κ τ}
    (hrun : Runs.Reach (step cfg nbytes) (Orderly cfg nbytes) (init cfg now)
      s) :
    s.puts <+: s.absorbed ∧
      (s.shutdown = .joined → s.beforeStop <+: s.puts) := by
  have hs : s.Kept :=
    hrun.invariant (kept_init now) fun _ _ _ h horderly => h.step horderly
  have hlog : Runs.Reachable FifoLog.step {} s.log :=
    hrun.simulate log
      (fun _ hrun' => hrun'.invariant (intact_init now)
        fun _ _ _ h _ => h.step)
      fun _ _ _ h _ => log_step h
  have hlogged : s.puts <+: s.absorbed := FifoLog.popped_prefix hlog
  refine ⟨hlogged, fun hjoined => ?_⟩
  have hpromise := hs.promise
  rw [hs.joined hjoined] at hpromise
  exact List.prefix_of_prefix_length_le hs.before hlogged
    (by simpa [SoftPc.item?, SoftPc.pops] using hpromise)

/-- Two items are absorbed, the thread pops one, and `shutdown` is called. -/
def overtakenEvents : List (Event Nat Nat) :=
  [.absorb 1 100, .absorb 2 100, .worker 0, .worker 0, .worker 0, .worker 0,
    .shutdown, .worker 1, .worker 1, .worker 1, .closing, .closing]

/-- The second item is lost: the thread has been joined and the store never
receives it. -/
theorem shutdown_drops_queued :
    ∃ s : SoftAbsorber Nat Nat, Runs.Reachable (step {} id) (init {} 0) s ∧
      s.shutdown = .joined ∧ s.worker = .exited ∧
      s.beforeStop = [(1, 100), (2, 100)] ∧ s.puts = [(1, 100)] :=
  Runs.Reachable.exists_of_exec overtakenEvents (by decide +kernel)

instance Orderly.decidable {cfg : SoftConfig} {nbytes : τ → Nat}
    (s : SoftAbsorber κ τ) : ∀ e, Decidable (Orderly cfg nbytes s e)
  | .shutdown => inferInstanceAs (Decidable (_ ≤ _))
  | .worker _ =>
      match h : s.worker with
      | .sleep item =>
          decidable_of_iff (cfg.canSleep (nbytes item.2)) (by simp [Orderly, h])
      | .top | .acquire | .inner | .waiting | .decide | .refill _ | .put _
      | .exited | .crashed _ => isTrue (by simp [Orderly, h])
  | .absorb _ _ | .closing => isTrue trivial

/-- The thread is about to pop the one item queued when `shutdown` is
called. -/
theorem orderly_shutdown_drains_last :
    ∃ s : SoftAbsorber Nat Nat,
      Runs.Reach (step {} id) (Orderly {} id) (init {} 0) s ∧
      s.beforeStop = [(1, 100)] ∧ s.beforeStop <+: s.puts := by
  obtain ⟨s, hrun, hjoined, hbefore⟩ : ∃ s : SoftAbsorber Nat Nat,
      Runs.Reach (step {} id) (Orderly {} id) (init {} 0) s ∧
      s.shutdown = .joined ∧ s.beforeStop = [(1, 100)] :=
    Runs.Reach.exists_of_exec
      [.worker 0, .worker 0, .worker 0, .absorb 1 100, .shutdown, .closing,
        .worker 0, .worker 0, .worker 0, .worker 1, .worker 1, .worker 1,
        .closing]
      (by decide +kernel) (by decide +kernel)
  exact ⟨s, hrun, hbefore, (orderly_shutdown_drains hrun).2 hjoined⟩

end SoftAbsorber

end Tempo
