import Mathlib.Algebra.Order.Field.Rat
import Mathlib.Data.Finset.Erase
import Mathlib.Data.Finset.Insert
import Mathlib.Data.Multiset.AddSub
import Tempo.Runs

/-!
# Completions of a GPU-driven endpoint

`GpuDrivenEndpoint` keeps a registry of transfer descriptors, hands triggered
ones to the NIC and waits for them on one completion queue.  The NIC, the
threads that wait and the clock are events; the lists of completed transfers
and of answers given by `wait_completion` are history.

A transfer over the inject threshold is sent with its handle as context and
leaves that context in the queue when it completes.  A smaller one is injected
and leaves nothing.  A wait marks its own descriptor as soon as it has read
any entries, whatever their contexts, so that an answer is about the right
transfer only when the entries read were.
-/

namespace Tempo

namespace GpuDriven

/-- `TransferDescriptor`; its handle is its place among the descriptors ever
registered. -/
structure TransferDescriptor where
  srcPtr : Nat
  destAddr : Nat
  length : Nat
  tc : Nat
  inFlight : Bool := false
  done : Bool := false
  tTriggered : ℚ := 0
  tComplete : ℚ := 0

/-- The entries of `_stats` that triggers and waits update. -/
structure Stats where
  cpuFallbackSends : Nat := 0
  completions : Nat := 0
  bytesSent : Nat := 0
  avgLatencyUs : ℚ := 0

/-- Which of `_LIBFABRIC`, `_ep` and `_cq` are not `None`, and the endpoint's
default traffic class. -/
structure Config where
  libfabric : Bool := true
  ep : Bool := true
  cq : Bool := true
  defaultTc : Nat := 4

/-- Where a thread is in `wait_completion`. -/
inductive WaitPc where
  | idle
  | check (handleId : Nat)
  | poll (handleId : Nat)
  deriving DecidableEq

structure Endpoint (ι : Type*) where
  /-- Every descriptor ever registered, by handle. -/
  objects : List TransferDescriptor := []
  /-- The handles still in `_descriptors`. -/
  descriptors : Finset Nat := ∅
  stats : Stats := {}
  waits : ι → WaitPc := fun _ => .idle
  /-- Transfers the NIC has accepted from `fi_send`. -/
  sent : Multiset Nat := 0
  /-- Transfers the NIC has accepted from `fi_inject`. -/
  injected : Multiset Nat := 0
  /-- Contexts in the completion queue. -/
  cq : Multiset Nat := 0
  completed : List Nat := []
  answers : List (Nat × Bool) := []

/-- What one turn of the polling loop meets. -/
inductive PollEvent where
  | entries (batch : Multiset Nat) (now : ℚ)
  | again
  | error
  | deadline

inductive Event (ι : Type*) where
  | register (srcPtr destAddr length : Nat) (tc : Option Nat)
  | trigger (handleId : Nat) (ret : Int) (now : ℚ)
  | sendCompletes (handleId : Nat)
  | injectCompletes (handleId : Nat)
  | call (i : ι) (handleId : Nat)
  | check (i : ι)
  | poll (i : ι) (p : PollEvent)
  | deregister (handleId : Nat)

/-- `INJECT_THRESHOLD`. -/
def injectThreshold : Nat := 4096

/-- The number of contexts `fi_cq_read` is asked for. -/
def cqBatch : Nat := 8

namespace Endpoint

variable {ι : Type*}

/-- `desc._done` of the descriptor with this handle. -/
def isDone (s : Endpoint ι) (h : Nat) : Bool :=
  (s.objects[h]?).any (·.done)

/-- `self._descriptors.get(handle_id)`. -/
def lookup (s : Endpoint ι) (h : Nat) : Option TransferDescriptor :=
  if h ∈ s.descriptors then s.objects[h]? else none

def setDone (s : Endpoint ι) (h : Nat) : Endpoint ι :=
  { s with objects := s.objects.modify h fun d => { d with done := true } }

def registerTransfer (cfg : Config) (s : Endpoint ι)
    (srcPtr destAddr length : Nat) (tc : Option Nat) : Endpoint ι :=
  { s with
    objects := s.objects ++
      [{ srcPtr, destAddr, length, tc := tc.getD cfg.defaultTc }]
    descriptors := insert s.objects.length s.descriptors }

/-- The fabric part of `trigger_from_cpu`: the NIC accepts the transfer when
the call returns zero. -/
def launch (s : Endpoint ι) (h : Nat) (desc : TransferDescriptor)
    (ret : Int) : Endpoint ι :=
  if ret ≠ 0 then s
  else if desc.length ≤ injectThreshold then
    { s with injected := h ::ₘ s.injected }
  else { s with sent := h ::ₘ s.sent }

/-- `trigger_from_cpu` is one step: outside the lock it touches its own
descriptor only.  Without a fabric the transfer completes at once. -/
def triggerFromCpu (cfg : Config) (s : Endpoint ι) (h : Nat) (ret : Int)
    (now : ℚ) : Endpoint ι :=
  match s.lookup h with
  | none => s
  | some desc =>
      if !cfg.libfabric || !cfg.ep then
        { s.setDone h with completed := h :: s.completed }
      else
        launch
          { s with
            objects := s.objects.modify h fun d =>
              { d with inFlight := true, tTriggered := now }
            stats := { s.stats with
              cpuFallbackSends := s.stats.cpuFallbackSends + 1 } }
          h desc ret

section Wait

variable [DecidableEq ι]

def answer (s : Endpoint ι) (i : ι) (h : Nat) (result : Bool) : Endpoint ι :=
  { s with
    waits := Function.update s.waits i .idle
    answers := (h, result) :: s.answers }

/-- The lookup at the start of `wait_completion`. -/
def callWait (s : Endpoint ι) (i : ι) (h : Nat) : Endpoint ι :=
  match s.lookup h with
  | none => s.answer i h false
  | some _ => { s with waits := Function.update s.waits i (.check h) }

/-- From `if desc._done` to the start of the polling loop. -/
def checkWait (cfg : Config) (s : Endpoint ι) (i : ι) (h : Nat) :
    Endpoint ι :=
  if s.isDone h then s.answer i h true
  else if !cfg.libfabric || !cfg.cq then
    (if h ∈ s.descriptors then s.setDone h else s).answer i h true
  else { s with waits := Function.update s.waits i (.poll h) }

/-- The bookkeeping of a wait that has read entries. -/
def markComplete (s : Endpoint ι) (h : Nat) (now : ℚ) : Endpoint ι :=
  match s.objects[h]? with
  | none => s
  | some desc =>
      let latUs := (now - desc.tTriggered) * 1000000
      let n := s.stats.completions + 1
      let old := s.stats.avgLatencyUs
      { s with
        objects := s.objects.modify h fun d =>
          { d with done := true, tComplete := now }
        stats := { s.stats with
          avgLatencyUs := old + (latUs - old) / n
          completions := n
          bytesSent := s.stats.bytesSent + desc.length } }

/-- One turn of the polling loop.  `fi_cq_read` removes the contexts it
returns, and none of them is looked at. -/
def pollWait (s : Endpoint ι) (i : ι) (h : Nat) :
    PollEvent → Option (Endpoint ι)
  | .entries batch now =>
      if batch ≠ 0 ∧ batch.card ≤ cqBatch ∧ batch ≤ s.cq then
        some ((markComplete { s with cq := s.cq - batch } h now).answer
          i h true)
      else none
  | .again => some s
  | .error | .deadline => some (s.answer i h false)

end Wait

/-- A transfer accepted from `fi_send` completes: its context is queued. -/
def sendCompletes (s : Endpoint ι) (h : Nat) : Option (Endpoint ι) :=
  if h ∈ s.sent then
    some { s with
      sent := s.sent.erase h
      cq := h ::ₘ s.cq
      completed := h :: s.completed }
  else none

/-- A transfer accepted from `fi_inject` completes: nothing is queued. -/
def injectCompletes (s : Endpoint ι) (h : Nat) : Option (Endpoint ι) :=
  if h ∈ s.injected then
    some { s with
      injected := s.injected.erase h
      completed := h :: s.completed }
  else none

def deregister (s : Endpoint ι) (h : Nat) : Endpoint ι :=
  { s with descriptors := s.descriptors.erase h }

end Endpoint

open Endpoint

variable {ι : Type*} {cfg : Config} {s t : Endpoint ι}

def step [DecidableEq ι] (cfg : Config) (s : Endpoint ι) : Event ι → Option (Endpoint ι)
  | .register src dest length tc =>
      some (s.registerTransfer cfg src dest length tc)
  | .trigger h ret now => some (s.triggerFromCpu cfg h ret now)
  | .sendCompletes h => s.sendCompletes h
  | .injectCompletes h => s.injectCompletes h
  | .call i h =>
      match s.waits i with
      | .idle => some (s.callWait i h)
      | .check _ | .poll _ => none
  | .check i =>
      match s.waits i with
      | .check h => some (s.checkWait cfg i h)
      | .idle | .poll _ => none
  | .poll i p =>
      match s.waits i with
      | .poll h => s.pollWait i h p
      | .idle | .check _ => none
  | .deregister h => some (s.deregister h)

section Marks

/-- Updates that keep every `_done` flag. -/
theorem isDone_of_keep {h : Nat} {f : TransferDescriptor → TransferDescriptor}
    (hobjects : t.objects = s.objects.modify h f)
    (hkeep : ∀ d, (f d).done = d.done) (c : Nat) : t.isDone c = s.isDone c := by
  unfold isDone
  rw [hobjects, List.getElem?_modify]
  by_cases heq : h = c
  · cases s.objects[c]? <;> simp [heq, hkeep]
  · cases s.objects[c]? <;> simp [heq]

/-- Updates that set the `_done` flag of one descriptor. -/
theorem isDone_of_set {h : Nat} {f : TransferDescriptor → TransferDescriptor}
    (hobjects : t.objects = s.objects.modify h f)
    (hset : ∀ d, (f d).done = true) (c : Nat) :
    t.isDone c = true ↔
      s.isDone c = true ∨ c = h ∧ h < s.objects.length := by
  unfold isDone
  rw [hobjects, List.getElem?_modify]
  by_cases heq : h = c
  · subst heq
    by_cases hlt : h < s.objects.length
    · simp [hlt, hset]
    · simp [hlt]
  · have hne : ¬ c = h := fun h' => heq h'.symm
    cases hc : s.objects[c]? <;> simp [heq, hne]

@[simp]
theorem isDone_register (src dest length : Nat) (tc : Option Nat) (c : Nat) :
    (s.registerTransfer cfg src dest length tc).isDone c = s.isDone c := by
  unfold isDone registerTransfer
  dsimp only
  rcases Nat.lt_trichotomy c s.objects.length with hlt | heq | hgt
  · rw [List.getElem?_append_left hlt]
  · subst heq
    simp
  · rw [List.getElem?_append_right hgt.le,
      List.getElem?_eq_none (l := s.objects) hgt.le]
    rw [List.getElem?_eq_none]
    simp
    omega

/-- A wait that has read entries marks its own descriptor only. -/
theorem isDone_markComplete {h c : Nat} {now : ℚ}
    (hdone : (s.markComplete h now).isDone c = true) :
    c = h ∨ s.isDone c = true := by
  unfold markComplete at hdone
  split at hdone
  · exact .inr hdone
  · rw [isDone_of_set (s := s) rfl fun _ => rfl] at hdone
    exact hdone.symm.imp_left And.left

theorem markComplete_completed (h : Nat) (now : ℚ) :
    (s.markComplete h now).completed = s.completed := by
  unfold markComplete
  split <;> rfl

theorem markComplete_cq (h : Nat) (now : ℚ) :
    (s.markComplete h now).cq = s.cq := by
  unfold markComplete
  split <;> rfl

theorem answer_completed [DecidableEq ι] (i : ι) (h : Nat) (result : Bool) :
    (s.answer i h result).completed = s.completed := rfl

theorem answer_cq [DecidableEq ι] (i : ι) (h : Nat) (result : Bool) :
    (s.answer i h result).cq = s.cq := rfl

theorem lookup_lt {h : Nat} {desc : TransferDescriptor}
    (hfound : s.lookup h = some desc) : h < s.objects.length := by
  unfold lookup at hfound
  split at hfound
  · exact (List.getElem?_eq_some_iff.mp hfound).1
  · cases hfound

end Marks

/-- The trigger of `h` would be an `fi_inject`. -/
def Injects (cfg : Config) (s : Endpoint ι) (h : Nat) : Prop :=
  cfg.libfabric = true ∧ cfg.ep = true ∧
    ∃ desc ∈ s.lookup h, desc.length ≤ injectThreshold

/-- Nothing is injected; a wait without a queue to poll is on a transfer
already marked done; and a batch of entries is read only by a wait whose own
entry is queued or whose transfer is already marked done, and takes no last
entry of another transfer that is not marked done. -/
def Attributable (cfg : Config) (s : Endpoint ι) : Event ι → Prop
  | .trigger h ret _ => ret = 0 → ¬ Injects cfg s h
  | .check i =>
      match s.waits i with
      | .check h =>
          s.isDone h = true ∨ cfg.libfabric = true ∧ cfg.cq = true
      | .idle | .poll _ => True
  | .poll i (.entries batch _) =>
      match s.waits i with
      | .poll h =>
          (h ∈ s.cq ∨ s.isDone h = true) ∧
            ∀ c ∈ batch, c = h ∨ s.isDone c = true ∨ c ∈ s.cq - batch
      | .idle | .check _ => True
  | _ => True

/-- Every completed transfer is marked done or has its entry queued, and only
completed transfers are marked, queued or answered for. -/
structure Custody (s : Endpoint ι) : Prop where
  answered : ∀ h, (h, true) ∈ s.answers → h ∈ s.completed
  done : ∀ h, s.isDone h = true → h ∈ s.completed
  queued : ∀ h ∈ s.cq, h ∈ s.completed
  kept : ∀ h ∈ s.completed, s.isDone h = true ∨ h ∈ s.cq
  made : ∀ h ∈ s.completed, h < s.objects.length
  sent : ∀ h ∈ s.sent, h < s.objects.length
  injected : s.injected = 0

theorem custody_init : Custody ({} : Endpoint ι) := by
  constructor <;> simp [isDone]

namespace Custody

/-- Answers about transfers already marked done, and answers of `False`. -/
theorem answer [DecidableEq ι] (hs : Custody s) (i : ι) {h : Nat} {result : Bool}
    (hdone : result = true → h ∈ s.completed) :
    Custody (s.answer i h result) where
  answered c hc := by
    rcases List.mem_cons.mp hc with heq | hold
    · obtain ⟨rfl, rfl⟩ := Prod.mk.inj heq
      exact hdone rfl
    · exact hs.answered c hold
  done := hs.done
  queued := hs.queued
  kept := hs.kept
  made := hs.made
  sent := hs.sent
  injected := hs.injected

/-- The thread's position is no part of it. -/
theorem setWaits (hs : Custody s) (waits : ι → WaitPc) :
    Custody { s with waits } :=
  ⟨hs.answered, hs.done, hs.queued, hs.kept, hs.made, hs.sent, hs.injected⟩

/-- Nor is anything of a descriptor but its `_done` flag. -/
theorem touch (hs : Custody s) {h : Nat}
    {f : TransferDescriptor → TransferDescriptor}
    (hkeep : ∀ d, (f d).done = d.done) (stats : Stats) :
    Custody { s with objects := s.objects.modify h f, stats } := by
  have hmark := isDone_of_keep (s := s)
    (t := { s with objects := s.objects.modify h f, stats }) rfl hkeep
  refine ⟨hs.answered, fun c hc => hs.done c (hmark c ▸ hc), hs.queued, ?_,
    ?_, ?_, hs.injected⟩
  · intro c hc
    rw [hmark]
    exact hs.kept c hc
  · intro c hc
    rw [List.length_modify]
    exact hs.made c hc
  · intro c hc
    rw [List.length_modify]
    exact hs.sent c hc

/-- A transfer that has completed is marked done. -/
theorem mark (hs : Custody s) {h : Nat}
    {f : TransferDescriptor → TransferDescriptor}
    (hset : ∀ d, (f d).done = true) (hlt : h < s.objects.length)
    {completed : List Nat}
    (hcompleted : ∀ c, c ∈ completed ↔ c = h ∨ c ∈ s.completed)
    (stats : Stats) :
    Custody { s with objects := s.objects.modify h f, stats, completed } := by
  have hmark := isDone_of_set (s := s)
    (t := { s with objects := s.objects.modify h f, stats, completed }) rfl
    hset
  have hold : ∀ c ∈ s.completed, c ∈ completed :=
    fun c hc => (hcompleted c).mpr (.inr hc)
  refine ⟨fun c hc => hold c (hs.answered c hc), ?_,
    fun c hc => hold c (hs.queued c hc), ?_, ?_, ?_, hs.injected⟩
  · intro c hc
    rcases (hmark c).mp hc with hdone | ⟨rfl, -⟩
    · exact hold c (hs.done c hdone)
    · exact (hcompleted c).mpr (.inl rfl)
  · intro c hc
    rw [hmark]
    rcases (hcompleted c).mp hc with rfl | hc
    · exact .inl (.inr ⟨rfl, hlt⟩)
    · exact (hs.kept c hc).imp_left .inl
  · intro c hc
    rw [List.length_modify]
    rcases (hcompleted c).mp hc with rfl | hc
    · exact hlt
    · exact hs.made c hc
  · intro c hc
    rw [List.length_modify]
    exact hs.sent c hc

theorem register (hs : Custody s) (src dest length : Nat) (tc : Option Nat) :
    Custody (s.registerTransfer cfg src dest length tc) where
  answered := hs.answered
  done c hc := hs.done c (by simpa using hc)
  queued := hs.queued
  kept c hc := by
    rw [isDone_register]
    exact hs.kept c hc
  made c hc := by
    have hlt := hs.made c hc
    unfold registerTransfer
    rw [List.length_append]
    omega
  sent c hc := by
    have hlt := hs.sent c hc
    unfold registerTransfer
    rw [List.length_append]
    omega
  injected := hs.injected

theorem trigger (hs : Custody s) {h : Nat} {ret : Int} {now : ℚ}
    (hinject : ret = 0 → ¬ Injects cfg s h) :
    Custody (s.triggerFromCpu cfg h ret now) := by
  unfold triggerFromCpu
  split
  · exact hs
  next desc hfound =>
    have hlt := lookup_lt hfound
    split
    · exact hs.mark (fun _ => rfl) hlt (fun _ => List.mem_cons) s.stats
    next hfabric =>
      have htouch := hs.touch (h := h)
        (f := fun d => { d with inFlight := true, tTriggered := now })
        (fun _ => rfl)
        { s.stats with cpuFallbackSends := s.stats.cpuFallbackSends + 1 }
      unfold launch
      split
      · exact htouch
      next hret =>
        have hlarge : ¬ desc.length ≤ injectThreshold := fun hle =>
          hinject (by simpa using hret)
            ⟨by simp_all, by simp_all, desc, hfound, hle⟩
        rw [if_neg hlarge]
        refine ⟨htouch.answered, htouch.done, htouch.queued, htouch.kept,
          htouch.made, fun c hc => ?_, htouch.injected⟩
        rcases Multiset.mem_cons.mp hc with rfl | hold
        · simpa using hlt
        · exact htouch.sent c hold

theorem sendCompletes (hs : Custody s) {h : Nat}
    (hstep : s.sendCompletes h = some t) : Custody t := by
  unfold Endpoint.sendCompletes at hstep
  split at hstep
  next hsent =>
    obtain rfl := Option.some.inj hstep
    refine ⟨fun c hc => List.mem_cons_of_mem _ (hs.answered c hc),
      fun c hc => List.mem_cons_of_mem _ (hs.done c hc), ?_, ?_, ?_,
      fun c hc => hs.sent c (Multiset.mem_of_mem_erase hc), hs.injected⟩
    · intro c hc
      rcases Multiset.mem_cons.mp hc with rfl | hold
      · exact List.mem_cons_self
      · exact List.mem_cons_of_mem _ (hs.queued c hold)
    · intro c hc
      rcases List.mem_cons.mp hc with rfl | hold
      · exact .inr (Multiset.mem_cons_self _ _)
      · exact (hs.kept c hold).imp_right Multiset.mem_cons_of_mem
    · intro c hc
      rcases List.mem_cons.mp hc with rfl | hold
      · exact hs.sent c hsent
      · exact hs.made c hold
  · cases hstep

/-- Entries may be removed when what they are about is marked done. -/
theorem take (hs : Custody s) {batch : Multiset Nat}
    (hbatch : ∀ c ∈ batch, s.isDone c = true ∨ c ∈ s.cq - batch) :
    Custody { s with cq := s.cq - batch } := by
  refine ⟨hs.answered, hs.done,
    fun c hc => hs.queued c (Multiset.mem_of_le (Multiset.sub_le_self _ _) hc),
    ?_, hs.made, hs.sent, hs.injected⟩
  intro c hc
  rcases hs.kept c hc with hdone | hqueued
  · exact .inl hdone
  · by_cases hleft : c ∈ s.cq - batch
    · exact .inr hleft
    · have htaken : c ∈ batch := by
        rw [Multiset.mem_sub] at hleft
        have hcount := Multiset.count_pos.mpr hqueued
        exact Multiset.count_pos.mp (by omega)
      exact hbatch c htaken

theorem check [DecidableEq ι] (hs : Custody s) (i : ι) {h : Nat}
    (hcond : s.isDone h = true ∨ cfg.libfabric = true ∧ cfg.cq = true) :
    Custody (s.checkWait cfg i h) := by
  unfold checkWait
  split
  next hdone => exact hs.answer i fun _ => hs.done h hdone
  next hdone =>
    obtain ⟨hlib, hcq⟩ := hcond.resolve_left hdone
    rw [if_neg (by simp [hlib, hcq])]
    exact hs.setWaits _

/-- A wait that reads entries of its own, or is on a transfer marked done. -/
theorem poll [DecidableEq ι] (hs : Custody s) {i : ι} {h : Nat}
    {batch : Multiset Nat} {now : ℚ}
    (hown : h ∈ s.cq ∨ s.isDone h = true)
    (hothers : ∀ c ∈ batch,
      c = h ∨ s.isDone c = true ∨ c ∈ s.cq - batch)
    (hstep : s.pollWait i h (.entries batch now) = some t) : Custody t := by
  unfold pollWait at hstep
  dsimp only at hstep
  split at hstep
  · obtain rfl := Option.some.inj hstep
    have hcompleted : h ∈ s.completed :=
      hown.elim (hs.queued h) (hs.done h)
    have hlt := hs.made h hcompleted
    have hsame : ∀ c, c ∈ s.completed ↔ c = h ∨ c ∈ s.completed :=
      fun c => ⟨.inr, fun hc => hc.elim (fun heq => heq ▸ hcompleted) id⟩
    unfold markComplete
    dsimp only
    rw [List.getElem?_eq_getElem hlt]
    refine answer ?_ i fun _ => ?_
    · refine (hs.mark (h := h) (fun _ => rfl) hlt hsame _).take fun c hc => ?_
      rw [isDone_of_set (s := s) rfl fun _ => rfl]
      rcases hothers c hc with rfl | hdone | hleft
      · exact .inl (.inr ⟨rfl, hlt⟩)
      · exact .inl (.inl hdone)
      · exact .inr hleft
    · exact hcompleted
  · cases hstep

/-- The condition on batches is exact: any other read answers for a transfer
that has not completed or loses the entry of one that has. -/
theorem poll_iff [DecidableEq ι] (hs : Custody s) {i : ι} {h : Nat}
    {batch : Multiset Nat} {now : ℚ}
    (hstep : s.pollWait i h (.entries batch now) = some t) :
    Custody t ↔ (h ∈ s.cq ∨ s.isDone h = true) ∧
      ∀ c ∈ batch, c = h ∨ s.isDone c = true ∨ c ∈ s.cq - batch := by
  constructor
  · intro ht
    unfold pollWait at hstep
    dsimp only at hstep
    split at hstep
    next hbatch =>
      obtain rfl := Option.some.inj hstep
      refine ⟨?_, fun c hc => ?_⟩
      · have hcompleted := ht.answered h List.mem_cons_self
        rw [answer_completed, markComplete_completed] at hcompleted
        exact (hs.kept h hcompleted).symm
      · have hqueued := Multiset.mem_of_le hbatch.2.2 hc
        have hkept := ht.kept c
        rw [answer_completed, markComplete_completed, answer_cq,
          markComplete_cq] at hkept
        rcases hkept (hs.queued c hqueued) with hdone | hleft
        · exact (isDone_markComplete hdone).imp_right .inl
        · exact .inr (.inr hleft)
    · cases hstep
  · rintro ⟨hown, hothers⟩
    exact hs.poll hown hothers hstep

theorem step [DecidableEq ι] (hs : Custody s) {e : Event ι}
    (hcond : Attributable cfg s e) (hstep : step cfg s e = some t) :
    Custody t := by
  cases e with
  | register src dest length tc =>
      obtain rfl := Option.some.inj hstep
      exact hs.register src dest length tc
  | trigger h ret now =>
      obtain rfl := Option.some.inj hstep
      exact hs.trigger hcond
  | sendCompletes h => exact hs.sendCompletes hstep
  | injectCompletes h =>
      simp [GpuDriven.step, injectCompletes, hs.injected] at hstep
  | call i h =>
      cases hpc : s.waits i with
      | idle =>
          obtain rfl := by simpa [GpuDriven.step, hpc] using hstep
          unfold callWait
          split
          · exact hs.answer i (by simp)
          · exact hs.setWaits _
      | check _ | poll _ => simp [GpuDriven.step, hpc] at hstep
  | check i =>
      cases hpc : s.waits i with
      | check h =>
          obtain rfl := by simpa [GpuDriven.step, hpc] using hstep
          exact hs.check i (by simpa [Attributable, hpc] using hcond)
      | idle | poll _ => simp [GpuDriven.step, hpc] at hstep
  | poll i p =>
      cases hpc : s.waits i with
      | poll h =>
          have hpoll : s.pollWait i h p = some t := by
            simpa [GpuDriven.step, hpc] using hstep
          cases p with
          | entries batch now =>
              obtain ⟨hown, hothers⟩ : (h ∈ s.cq ∨ s.isDone h = true) ∧
                  ∀ c ∈ batch, c = h ∨ s.isDone c = true ∨
                    c ∈ s.cq - batch := by
                simpa [Attributable, hpc] using hcond
              exact hs.poll hown hothers hpoll
          | again =>
              obtain rfl := Option.some.inj hpoll
              exact hs
          | error | deadline =>
              obtain rfl := Option.some.inj hpoll
              exact hs.answer i (by simp)
      | idle | check _ => simp [GpuDriven.step, hpc] at hstep
  | deregister h =>
      obtain rfl := Option.some.inj hstep
      exact ⟨hs.answered, hs.done, hs.queued, hs.kept, hs.made, hs.sent,
        hs.injected⟩

end Custody

/-- **A completion is attributed to its own transfer** in runs whose batches
are attributable: a wait answers `True` only when its transfer has completed,
and the entry of a completed transfer stays queued until a wait on that
transfer has taken it and marked it done, so that no wait on it times out for
want of the entry. -/
theorem completion_attributed [DecidableEq ι]
    (hrun : Runs.Reach (step cfg) (Attributable cfg) {} s) :
    (∀ h, (h, true) ∈ s.answers → h ∈ s.completed) ∧
      ∀ h ∈ s.completed, s.isDone h = true ∨ h ∈ s.cq := by
  have hs : Custody s :=
    hrun.invariant custody_init fun _ _ _ h hcond => h.step hcond
  exact ⟨hs.answered, hs.kept⟩

/-- Two transfers of 8192 bytes are sent, the second completes first, and one
thread waits for the first and then for the second. -/
def crossedEvents : List (Event Unit) :=
  [.register 0 7 8192 none, .register 8192 7 8192 none, .trigger 0 0 0,
    .trigger 1 0 0, .sendCompletes 1, .call () 0, .check (),
    .poll () (.entries {1} 1), .call () 1, .check (), .poll () .again,
    .poll () .deadline]

/-- The wait for the first transfer answers `True` on the second one's entry,
and the wait for the second times out although it has completed. -/
theorem crossed_completion :
    ∃ s : Endpoint Unit, Runs.Reachable (step {}) {} s ∧
      (0, true) ∈ s.answers ∧ 0 ∉ s.completed ∧
      (1, false) ∈ s.answers ∧ 1 ∈ s.completed ∧ s.isDone 1 = false ∧
      1 ∉ s.cq :=
  Runs.Reachable.exists_of_exec crossedEvents (by decide +kernel)

/-- A transfer of 4096 bytes is injected, completes, and is waited for in
vain. -/
theorem injected_completion_unseen :
    ∃ s : Endpoint Unit, Runs.Reachable (step {}) {} s ∧
      (0, false) ∈ s.answers ∧ 0 ∈ s.completed ∧ s.isDone 0 = false ∧
      0 ∉ s.cq :=
  Runs.Reachable.exists_of_exec
    [.register 0 7 4096 none, .trigger 0 0 0, .injectCompletes 0, .call () 0,
      .check (), .poll () .again, .poll () .deadline]
    (by decide +kernel)

instance Injects.decidable (cfg : Config) (s : Endpoint ι) (h : Nat) :
    Decidable (Injects cfg s h) :=
  match hfound : s.lookup h with
  | none => isFalse (by simp [Injects, hfound])
  | some desc =>
      decidable_of_iff (cfg.libfabric = true ∧ cfg.ep = true ∧
        desc.length ≤ injectThreshold) (by simp [Injects, hfound])

instance Attributable.decidable (cfg : Config) (s : Endpoint ι) :
    ∀ e, Decidable (Attributable cfg s e)
  | .trigger _ ret _ => inferInstanceAs (Decidable (ret = 0 → _))
  | .check i =>
      match hpc : s.waits i with
      | .check h =>
          decidable_of_iff
            (s.isDone h = true ∨ cfg.libfabric = true ∧ cfg.cq = true)
            (by simp [Attributable, hpc])
      | .idle | .poll _ => isTrue (by simp [Attributable, hpc])
  | .poll i (.entries batch _) =>
      match hpc : s.waits i with
      | .poll h =>
          decidable_of_iff ((h ∈ s.cq ∨ s.isDone h = true) ∧
            ∀ c ∈ batch, c = h ∨ s.isDone c = true ∨ c ∈ s.cq - batch)
            (by simp [Attributable, hpc])
      | .idle | .check _ => isTrue (by simp [Attributable, hpc])
  | .poll _ .again | .poll _ .error | .poll _ .deadline
  | .register _ _ _ _ | .sendCompletes _ | .injectCompletes _ | .call _ _
  | .deregister _ => isTrue trivial

/-- Two transfers complete out of order and each wait reads its own entry. -/
theorem completion_attributed_in_order :
    ∃ s : Endpoint Unit,
      Runs.Reach (step {}) (Attributable {}) {} s ∧
      0 ∈ s.completed ∧ 1 ∈ s.completed ∧
      (s.isDone 0 = true ∨ 0 ∈ s.cq) := by
  obtain ⟨s, hrun, hzero, hone⟩ : ∃ s : Endpoint Unit,
      Runs.Reach (step {}) (Attributable {}) {} s ∧
      (0, true) ∈ s.answers ∧ (1, true) ∈ s.answers :=
    Runs.Reach.exists_of_exec
      [.register 0 7 8192 none, .register 8192 7 8192 none, .trigger 0 0 0,
        .trigger 1 0 0, .sendCompletes 1, .call () 1, .check (),
        .poll () (.entries {1} 1), .sendCompletes 0, .call () 0, .check (),
        .poll () (.entries {0} 2)]
      (by decide +kernel) (by decide +kernel)
  obtain ⟨hanswered, hkept⟩ := completion_attributed hrun
  have hcompleted := hanswered 0 hzero
  exact ⟨s, hrun, hcompleted, hanswered 1 hone, hkept 0 hcompleted⟩

end GpuDriven

end Tempo
