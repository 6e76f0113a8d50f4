import Mathlib.Data.Prod.Lex
import Tempo.PriorityHeap
import Tempo.PriorityRace

/-!
# Jobs submitted by several threads

`submit_job` holds the lock twice: it takes a number for the job, and at the end it pushes
the job on the heap and counts what became of it.  In between the gain is computed under
the lock and the flag is read without it, and other threads do the same.

No interleaving loses a job or gives a number twice (`jobs_conserved`): each number is in
the hands of one thread, or that of a job on the heap, or of one whose gain raised.  The
heap stays a heap, and its first entry is a job of the highest gain.  The heap is that of
`heapq` here, where `ServiceGain.heap` is only the jobs.
-/

namespace Tempo

open PriorityHeap Runs

variable {ι K : Type*} [DecidableEq ι] [Field K] [LinearOrder K]

/-- Where a thread is in `submit_job`. -/
inductive SubmitPc (K : Type*)
  | idle
  /-- the number is taken, the gain is not computed yet -/
  | opened (jobId : Nat) (step : Int)
  | scored (jobId : Nat) (gain : K) (pc : PriorityPc K)

/-- The number in the hands of a thread. -/
def SubmitPc.jobId? : SubmitPc K → Option Nat
  | .idle => none
  | .opened jobId _ | .scored jobId _ _ => some jobId

/-- What `_JobEntry` is compared by. -/
def JobEntry.key (e : JobEntry K) : K ×ₗ K ×ₗ Nat :=
  toLex (e.negGain, toLex (e.enqueueTime, e.jobId))

/-- The scheduler with its heap, and the threads.  `returned` and `raised` are history:
the priorities that were returned, and the jobs whose gain raised. -/
structure SubmitRace (ι K : Type*) where
  scheduler : ServiceGain K
  queue : List (K ×ₗ K ×ₗ Nat) := []
  threads : ι → SubmitPc K := fun _ => .idle
  returned : List (FlushPriority K) := []
  raised : List Nat := []

inductive SubmitEvent (ι K : Type*)
  /-- the first locked block -/
  | openJob (i : ι) (step : Int)
  | score (i : ι)
  /-- the next statement that reads the flag -/
  | read (i : ι)
  /-- the second locked block -/
  | closeJob (i : ι) (now : K)
  | setCongested (flag : Bool)
  | markCommitted (step : Int)
  | updateStep (step : Int)

namespace SubmitRace

variable (exp : K → K)

def setThread (s : SubmitRace ι K) (i : ι) (pc : SubmitPc K) : SubmitRace ι K :=
  { s with threads := Function.update s.threads i pc }

/-- The job is pushed and counted, and its priority returned. -/
def finish (s : SubmitRace ι K) (i : ι) (now : K) (p : FlushPriority K) : SubmitRace ι K :=
  { s.setThread i .idle with
    scheduler := s.scheduler.closeJob now p
    queue := push s.queue
      (JobEntry.key { negGain := -p.gain, enqueueTime := now, jobId := p.jobId })
    returned := p :: s.returned }

def step (s : SubmitRace ι K) : SubmitEvent ι K → Option (SubmitRace ι K)
  | .openJob i n =>
      match s.threads i with
      | .idle =>
          some
            { s.setThread i (.opened (s.scheduler.jobCounter + 1) n) with
              scheduler := s.scheduler.openJob n }
      | .opened .. | .scored .. => none
  | .score i =>
      match s.threads i with
      | .opened jobId n =>
          match s.scheduler.computeGain exp n with
          | none => some { s.setThread i .idle with raised := jobId :: s.raised }
          | some gain => some (s.setThread i (.scored jobId gain .defer))
      | .idle | .scored .. => none
  | .read i =>
      match s.threads i with
      | .scored jobId gain pc =>
          (PriorityRun.step s.scheduler gain { congested := s.scheduler.congested, pc }
            .submit).map fun r => s.setThread i (.scored jobId gain r.pc)
      | .idle | .opened .. => none
  | .closeJob i now =>
      match s.threads i with
      | .scored jobId gain (.done deferrable allocatedBps recomputeFallback) =>
          some (s.finish i now { jobId, gain, deferrable, allocatedBps, recomputeFallback })
      | .idle | .opened .. | .scored .. => none
  | .setCongested flag => some { s with scheduler := s.scheduler.setCongested flag }
  | .markCommitted n => some { s with scheduler := s.scheduler.markCommitted n }
  | .updateStep n => some { s with scheduler := s.scheduler.updateStep n }

/-- Where the number of a job may be. -/
structure Placed (s : SubmitRace ι K) : Prop where
  all : ∀ n, 0 < n → n ≤ s.scheduler.jobCounter →
    (∃ i, (s.threads i).jobId? = some n) ∨ n ∈ s.returned.map (·.jobId) ∨ n ∈ s.raised
  held : ∀ i n, (s.threads i).jobId? = some n → 0 < n ∧ n ≤ s.scheduler.jobCounter ∧
    n ∉ s.returned.map (·.jobId) ∧ n ∉ s.raised
  owner : ∀ i j n, (s.threads i).jobId? = some n → (s.threads j).jobId? = some n → i = j
  given : ∀ n, n ∈ s.returned.map (·.jobId) ++ s.raised → 0 < n ∧ n ≤ s.scheduler.jobCounter
  once : (s.returned.map (·.jobId) ++ s.raised).Nodup

/-- The heap is one of the jobs whose priorities were returned. -/
structure Queued (s : SubmitRace ι K) : Prop where
  ordered : Ordered s.queue
  perm : s.queue.Perm (s.scheduler.heap.map JobEntry.key)
  jobs : s.scheduler.heap.map (fun e => (e.negGain, e.jobId)) =
    s.returned.map fun p => (-p.gain, p.jobId)
  counted : s.scheduler.jobsDeferred + s.scheduler.jobsExpedited +
    s.scheduler.recomputeRecommended = s.scheduler.heap.length
  submitted : s.scheduler.jobsSubmitted = s.scheduler.jobCounter

variable {exp} {s t : SubmitRace ι K} {e : SubmitEvent ι K} {i : ι} {pc : SubmitPc K}

omit [Field K] [LinearOrder K] in
theorem jobId?_setThread (s : SubmitRace ι K) (i : ι) (pc : SubmitPc K) (j : ι) :
    ((s.setThread i pc).threads j).jobId? = if j = i then pc.jobId? else (s.threads j).jobId? := by
  unfold setThread
  by_cases hj : j = i
  · subst hj
    simp
  · simp [hj]

omit [Field K] [LinearOrder K] in
/-- A thread goes on with the number it has. -/
theorem Placed.setThread (hs : Placed s) (hpc : pc.jobId? = (s.threads i).jobId?) :
    Placed (s.setThread i pc) := by
  have hsame : ∀ j, ((s.setThread i pc).threads j).jobId? = (s.threads j).jobId? := by
    intro j
    rw [jobId?_setThread]
    split
    next hj => rw [hj, hpc]
    next => rfl
  exact
    { all := fun n hpos hle => by
        simp only [hsame]
        exact hs.all n hpos hle
      held := fun j n hn => hs.held j n (by rwa [← hsame])
      owner := fun j k n hj hk => hs.owner j k n (by rwa [← hsame]) (by rwa [← hsame])
      given := hs.given
      once := hs.once }

omit [Field K] [LinearOrder K] in
/-- A number is taken. -/
theorem Placed.openJob (hs : Placed s) (hidle : (s.threads i).jobId? = none) (n : Int) :
    Placed
      { s.setThread i (.opened (s.scheduler.jobCounter + 1) n) with
        scheduler := s.scheduler.openJob n } := by
  have hnew : ∀ j m, ((s.setThread i (.opened (s.scheduler.jobCounter + 1) n)).threads
      j).jobId? = some m ↔
        (j = i ∧ m = s.scheduler.jobCounter + 1) ∨ (j ≠ i ∧ (s.threads j).jobId? = some m) := by
    intro j m
    rw [jobId?_setThread]
    by_cases hj : j = i
    · simp [hj, SubmitPc.jobId?, eq_comm]
    · simp [hj]
  have hfresh : ∀ m, m ∈ s.returned.map (·.jobId) ++ s.raised →
      m ≠ s.scheduler.jobCounter + 1 := by
    intro m hm heq
    have hle := (hs.given m hm).2
    omega
  refine
    { all := fun m hpos hle => ?_
      held := fun j m hm => ?_
      owner := fun j k m hj hk => ?_
      given := fun m hm => ⟨(hs.given m hm).1, (hs.given m hm).2.trans (Nat.le_succ _)⟩
      once := hs.once }
  · rcases Nat.lt_or_ge s.scheduler.jobCounter m with hlast | hold
    · have hle' : m ≤ s.scheduler.jobCounter + 1 := hle
      exact .inl ⟨i, (hnew i m).mpr (.inl ⟨rfl, by omega⟩)⟩
    · rcases hs.all m hpos hold with ⟨j, hj⟩ | hdone
      · have hne : j ≠ i := by
          rintro rfl
          rw [hidle] at hj
          cases hj
        exact .inl ⟨j, (hnew j m).mpr (.inr ⟨hne, hj⟩)⟩
      · exact .inr hdone
  · rcases (hnew j m).mp hm with ⟨-, rfl⟩ | ⟨-, hold⟩
    · refine ⟨Nat.succ_pos _, le_rfl, fun hmem => ?_, fun hmem => ?_⟩
      · exact hfresh _ (List.mem_append_left _ hmem) rfl
      · exact hfresh _ (List.mem_append_right _ hmem) rfl
    · obtain ⟨hpos, hle, hnot⟩ := hs.held j m hold
      exact ⟨hpos, hle.trans (Nat.le_succ _), hnot⟩
  · rcases (hnew j m).mp hj with ⟨rfl, rfl⟩ | ⟨-, hj'⟩
    · rcases (hnew k _).mp hk with ⟨rfl, -⟩ | ⟨-, hk'⟩
      · rfl
      · have hle := (hs.held k _ hk').2.1
        omega
    · rcases (hnew k m).mp hk with ⟨-, rfl⟩ | ⟨-, hk'⟩
      · have hle := (hs.held j _ hj').2.1
        omega
      · exact hs.owner j k m hj' hk'

omit [Field K] [LinearOrder K] in
/-- A number leaves the hands of its thread. -/
theorem Placed.release (hs : Placed s) {n : Nat} (hn : (s.threads i).jobId? = some n)
    {returned : List (FlushPriority K)} {raised : List Nat} {scheduler : ServiceGain K}
    {queue : List (K ×ₗ K ×ₗ Nat)}
    (hcounter : scheduler.jobCounter = s.scheduler.jobCounter)
    (hmem : ∀ m, m ∈ returned.map (·.jobId) ++ raised ↔
      m = n ∨ m ∈ s.returned.map (·.jobId) ++ s.raised)
    (honce : (returned.map (·.jobId) ++ raised).Nodup) :
    Placed { s.setThread i .idle with scheduler, queue, returned, raised } := by
  have hnew : ∀ j m, ((s.setThread i SubmitPc.idle).threads j).jobId? = some m ↔
      j ≠ i ∧ (s.threads j).jobId? = some m := by
    intro j m
    rw [jobId?_setThread]
    by_cases hj : j = i
    · simp [hj, SubmitPc.jobId?]
    · simp [hj]
  have hthis := hs.held i n hn
  refine
    { all := fun m hpos hle => ?_
      held := fun j m hm => ?_
      owner := fun j k m hj hk => hs.owner j k m ((hnew j m).mp hj).2 ((hnew k m).mp hk).2
      given := fun m hm => ?_
      once := honce }
  · dsimp only at hle ⊢
    rw [← List.mem_append, hmem]
    rcases hs.all m hpos (hcounter ▸ hle) with ⟨j, hj⟩ | hdone
    · by_cases hji : j = i
      · subst hji
        exact .inr (.inl (Option.some.inj (hj.symm.trans hn)))
      · exact .inl ⟨j, (hnew j m).mpr ⟨hji, hj⟩⟩
    · exact .inr (.inr (List.mem_append.mpr hdone))
  · obtain ⟨hne, hold⟩ := (hnew j m).mp hm
    obtain ⟨hpos, hle, hnot, hnot'⟩ := hs.held j m hold
    have hout : m ∉ returned.map (·.jobId) ++ raised := by
      rw [hmem, List.mem_append]
      rintro (rfl | hin | hin)
      · exact hne (hs.owner j i m hold hn)
      · exact hnot hin
      · exact hnot' hin
    rw [List.mem_append, not_or] at hout
    exact ⟨hpos, hcounter ▸ hle, hout⟩
  · dsimp only
    rw [hcounter]
    rcases (hmem m).mp hm with rfl | hold
    · exact ⟨hthis.1, hthis.2.1⟩
    · exact hs.given m hold

omit [DecidableEq ι] [Field K] [LinearOrder K] in
/-- Where only the flag, the steps and the commits change. -/
theorem Placed.frame (hs : Placed s) {scheduler : ServiceGain K}
    (hcounter : scheduler.jobCounter = s.scheduler.jobCounter) :
    Placed { s with scheduler } where
  all := fun n hpos hle => hs.all n hpos (hcounter ▸ hle)
  held := fun i n hn => by
    dsimp only
    rw [hcounter]
    exact hs.held i n hn
  owner := hs.owner
  given := fun n hn => by
    dsimp only
    rw [hcounter]
    exact hs.given n hn
  once := hs.once

omit [LinearOrder K] in
theorem closeJob_counter (g : ServiceGain K) (now : K) (p : FlushPriority K) :
    (g.closeJob now p).jobCounter = g.jobCounter := by
  unfold ServiceGain.closeJob
  dsimp only
  split
  · rfl
  · split <;> rfl

theorem Placed.finish (hs : Placed s) {now : K} {p : FlushPriority K}
    (hp : (s.threads i).jobId? = some p.jobId) : Placed (s.finish i now p) := by
  obtain ⟨-, -, hnot, hnot'⟩ := hs.held i p.jobId hp
  refine hs.release hp (closeJob_counter _ _ _) (fun m => ?_) ?_
  · rw [List.map_cons, List.cons_append]
    exact List.mem_cons
  · rw [List.map_cons, List.cons_append]
    refine List.nodup_cons.mpr ⟨?_, hs.once⟩
    rw [List.mem_append, not_or]
    exact ⟨hnot, hnot'⟩

omit [Field K] [LinearOrder K] in
theorem Placed.raise (hs : Placed s) {n : Nat} (hn : (s.threads i).jobId? = some n) :
    Placed { s.setThread i .idle with raised := n :: s.raised } := by
  obtain ⟨-, -, hnot, hnot'⟩ := hs.held i n hn
  refine hs.release hn rfl (fun m => ?_) ?_
  · simp only [List.mem_append, List.mem_cons]
    tauto
  · refine List.perm_middle.nodup_iff.mpr (List.nodup_cons.mpr ⟨?_, hs.once⟩)
    rw [List.mem_append, not_or]
    exact ⟨hnot, hnot'⟩

theorem Placed.step (hs : Placed s) (hstep : s.step exp e = some t) : Placed t := by
  cases e with
  | openJob i n =>
      unfold SubmitRace.step at hstep
      dsimp only at hstep
      split at hstep
      next hidle =>
        obtain rfl := Option.some.inj hstep
        exact hs.openJob (by rw [hidle]; rfl) n
      next => cases hstep
      next => cases hstep
  | score i =>
      unfold SubmitRace.step at hstep
      dsimp only at hstep
      split at hstep
      next jobId n hopened =>
        have hheld : (s.threads i).jobId? = some jobId := by
          rw [hopened]
          rfl
        split at hstep
        next =>
          obtain rfl := Option.some.inj hstep
          exact hs.raise hheld
        next gain _ =>
          obtain rfl := Option.some.inj hstep
          exact hs.setThread hheld.symm
      next => cases hstep
      next => cases hstep
  | read i =>
      unfold SubmitRace.step at hstep
      dsimp only at hstep
      split at hstep
      next jobId gain pc hscored =>
        obtain ⟨r, -, rfl⟩ := Option.map_eq_some_iff.mp hstep
        refine hs.setThread ?_
        rw [hscored]
        rfl
      next => cases hstep
      next => cases hstep
  | closeJob i now =>
      unfold SubmitRace.step at hstep
      dsimp only at hstep
      split at hstep
      next jobId gain deferrable allocatedBps recomputeFallback hdone =>
        obtain rfl := Option.some.inj hstep
        refine hs.finish ?_
        rw [hdone]
        rfl
      all_goals cases hstep
  | setCongested flag =>
      obtain rfl := Option.some.inj hstep
      exact hs.frame rfl
  | markCommitted n =>
      obtain rfl := Option.some.inj hstep
      exact hs.frame rfl
  | updateStep n =>
      obtain rfl := Option.some.inj hstep
      exact hs.frame rfl

/-! ## The heap -/

omit [DecidableEq ι] in
theorem Queued.frame (hs : Queued s) {t : SubmitRace ι K} (hqueue : t.queue = s.queue)
    (hheap : t.scheduler.heap = s.scheduler.heap) (hreturned : t.returned = s.returned)
    (hcounts : t.scheduler.jobsDeferred + t.scheduler.jobsExpedited +
      t.scheduler.recomputeRecommended = s.scheduler.jobsDeferred +
        s.scheduler.jobsExpedited + s.scheduler.recomputeRecommended)
    (hsubmitted : t.scheduler.jobsSubmitted = t.scheduler.jobCounter) : Queued t where
  ordered := hqueue ▸ hs.ordered
  perm := by
    rw [hqueue, hheap]
    exact hs.perm
  jobs := by
    rw [hheap, hreturned]
    exact hs.jobs
  counted := by
    rw [hcounts, hheap]
    exact hs.counted
  submitted := hsubmitted

omit [LinearOrder K] in
theorem closeJob_frame (g : ServiceGain K) (now : K) (p : FlushPriority K) :
    (g.closeJob now p).heap =
        { negGain := -p.gain, enqueueTime := now, jobId := p.jobId } :: g.heap ∧
      (g.closeJob now p).jobsDeferred + (g.closeJob now p).jobsExpedited +
          (g.closeJob now p).recomputeRecommended =
        g.jobsDeferred + g.jobsExpedited + g.recomputeRecommended + 1 ∧
      (g.closeJob now p).jobsSubmitted = g.jobsSubmitted := by
  unfold ServiceGain.closeJob
  dsimp only
  split
  · exact ⟨rfl, by dsimp only; omega, rfl⟩
  · split
    · exact ⟨rfl, by dsimp only; omega, rfl⟩
    · exact ⟨rfl, by dsimp only; omega, rfl⟩

theorem Queued.finish (hs : Queued s) (i : ι) (now : K) (p : FlushPriority K) :
    Queued (s.finish i now p) := by
  obtain ⟨hheap, hcounts, hsubmitted⟩ := closeJob_frame s.scheduler now p
  exact
    { ordered := hs.ordered.push _
      perm := by
        unfold SubmitRace.finish
        dsimp only
        rw [hheap, List.map_cons]
        exact (push_perm _ _).trans (hs.perm.cons _)
      jobs := by
        unfold SubmitRace.finish
        dsimp only
        rw [hheap, List.map_cons, List.map_cons, hs.jobs]
      counted := by
        unfold SubmitRace.finish
        dsimp only
        rw [hcounts, hheap, List.length_cons, hs.counted]
      submitted := by
        unfold SubmitRace.finish
        dsimp only
        rw [hsubmitted, closeJob_counter, hs.submitted] }

theorem Queued.step (hs : Queued s) (hstep : s.step exp e = some t) : Queued t := by
  have hsubmitted := hs.submitted
  cases e with
  | openJob i n =>
      unfold SubmitRace.step at hstep
      dsimp only at hstep
      split at hstep
      next =>
        obtain rfl := Option.some.inj hstep
        exact hs.frame rfl rfl rfl rfl (congrArg Nat.succ hsubmitted)
      next => cases hstep
      next => cases hstep
  | score i =>
      unfold SubmitRace.step at hstep
      dsimp only at hstep
      split at hstep
      next =>
        split at hstep
        next =>
          obtain rfl := Option.some.inj hstep
          exact hs.frame rfl rfl rfl rfl hsubmitted
        next =>
          obtain rfl := Option.some.inj hstep
          exact hs.frame rfl rfl rfl rfl hsubmitted
      next => cases hstep
      next => cases hstep
  | read i =>
      unfold SubmitRace.step at hstep
      dsimp only at hstep
      split at hstep
      next =>
        obtain ⟨r, -, rfl⟩ := Option.map_eq_some_iff.mp hstep
        exact hs.frame rfl rfl rfl rfl hsubmitted
      next => cases hstep
      next => cases hstep
  | closeJob i now =>
      unfold SubmitRace.step at hstep
      dsimp only at hstep
      split at hstep
      next =>
        obtain rfl := Option.some.inj hstep
        exact hs.finish i now _
      all_goals cases hstep
  | setCongested flag =>
      obtain rfl := Option.some.inj hstep
      exact hs.frame rfl rfl rfl rfl hsubmitted
  | markCommitted n =>
      obtain rfl := Option.some.inj hstep
      exact hs.frame rfl rfl rfl rfl hsubmitted
  | updateStep n =>
      obtain rfl := Option.some.inj hstep
      exact hs.frame rfl rfl rfl rfl hsubmitted

/-- The scheduler that `TEMPOSchedulerV2` builds, with no job yet. -/
def new (milestoneInterval : Int) : SubmitRace ι K where
  scheduler := .ofMilestone milestoneInterval

omit [DecidableEq ι] in
/-- The first entry of the heap is the job of a returned priority, and none of those has a
higher gain. -/
theorem Queued.first [IsStrictOrderedRing K] (hs : Queued s) {first : K ×ₗ K ×ₗ Nat}
    (hfirst : s.queue[0]? = some first) :
    (∃ p ∈ s.returned, (ofLex first).1 = -p.gain) ∧
      ∀ p ∈ s.returned, p.gain ≤ -(ofLex first).1 := by
  have hof : ∀ key, key ∈ s.queue ↔ ∃ entry ∈ s.scheduler.heap, entry.key = key := by
    intro key
    rw [hs.perm.mem_iff, List.mem_map]
  have hjob : ∀ gain jobId, (∃ entry ∈ s.scheduler.heap, (entry.negGain, entry.jobId) =
      (-gain, jobId)) ↔ ∃ p ∈ s.returned, (-p.gain, p.jobId) = (-gain, jobId) := by
    intro gain jobId
    rw [← List.mem_map, hs.jobs, List.mem_map]
  constructor
  · obtain ⟨entry, hentry, rfl⟩ := (hof first).mp (List.mem_of_getElem? hfirst)
    obtain ⟨p, hp, hsame⟩ := (hjob (-entry.negGain) entry.jobId).mp
      ⟨entry, hentry, by rw [neg_neg]⟩
    refine ⟨p, hp, ?_⟩
    have hgain := congrArg Prod.fst hsame
    rw [neg_neg] at hgain
    exact hgain.symm
  · intro p hp
    obtain ⟨entry, hentry, hsame⟩ := (hjob p.gain p.jobId).mpr ⟨p, hp, rfl⟩
    have hle := hs.ordered.le_of_mem hfirst ((hof entry.key).mpr ⟨entry, hentry, rfl⟩)
    have hgain : (ofLex first).1 ≤ entry.negGain := Prod.Lex.monotone_fst _ _ hle
    have hneg : entry.negGain = -p.gain := congrArg Prod.fst hsame
    rw [hneg] at hgain
    exact le_neg.mp hgain

/-- **No job is lost, and none is numbered twice.**  In every interleaving of threads in
`submit_job` with changes of the flag, the step and the commit: each number up to the count
of jobs is in the hands of exactly one thread, or that of one priority that was returned,
or of one job whose gain raised; there is an entry on the heap for each priority that was
returned, counted as deferred, expedited or recomputed; and the first entry has the highest
gain of them. -/
theorem jobs_conserved [IsStrictOrderedRing K] (exp : K → K) (milestoneInterval : Int)
    (hreach : Reachable (step exp) (new milestoneInterval : SubmitRace ι K) s) :
    (∀ n, 0 < n ∧ n ≤ s.scheduler.jobsSubmitted ↔
        (∃ i, (s.threads i).jobId? = some n) ∨ n ∈ s.returned.map (·.jobId) ++ s.raised) ∧
      (∀ i n, (s.threads i).jobId? = some n → n ∉ s.returned.map (·.jobId) ++ s.raised ∧
        ∀ j, (s.threads j).jobId? = some n → j = i) ∧
      (s.returned.map (·.jobId) ++ s.raised).Nodup ∧
      s.scheduler.jobsDeferred + s.scheduler.jobsExpedited +
        s.scheduler.recomputeRecommended = s.queue.length ∧
      s.queue.length = s.returned.length ∧
      ∀ first, s.queue[0]? = some first →
        (∃ p ∈ s.returned, (ofLex first).1 = -p.gain) ∧
          ∀ p ∈ s.returned, p.gain ≤ -(ofLex first).1 := by
  have hplaced : Placed s := by
    refine hreach.invariant ?_ fun _ _ _ hs _ hstep => Placed.step hs hstep
    exact
      { all := fun n hpos hle => absurd (hpos.trans_le hle) (lt_irrefl 0)
        held := fun _ _ hnone => by cases hnone
        owner := fun _ _ _ hnone => by cases hnone
        given := fun _ hnone => by cases hnone
        once := List.nodup_nil }
  have hqueued : Queued s := by
    refine hreach.invariant ?_ fun _ _ _ hs _ hstep => Queued.step hs hstep
    exact
      { ordered := ordered_nil
        perm := .nil
        jobs := rfl
        counted := rfl
        submitted := rfl }
  have hlength : s.queue.length = s.scheduler.heap.length := by
    rw [hqueued.perm.length_eq, List.length_map]
  have hreturned : s.scheduler.heap.length = s.returned.length := by
    simpa using congrArg List.length hqueued.jobs
  refine ⟨fun n => ⟨fun ⟨hpos, hle⟩ => ?_, ?_⟩, fun i n hn => ⟨?_, fun j hj => ?_⟩,
    hplaced.once, hqueued.counted.trans hlength.symm, hlength.trans hreturned,
    fun first hfirst => hqueued.first hfirst⟩
  · rw [List.mem_append]
    exact hplaced.all n hpos (hqueued.submitted ▸ hle)
  · rw [hqueued.submitted]
    rintro (⟨i, hi⟩ | hdone)
    · exact ⟨(hplaced.held i n hi).1, (hplaced.held i n hi).2.1⟩
    · exact hplaced.given n hdone
  · rw [List.mem_append, not_or]
    exact (hplaced.held i n hn).2.2
  · exact hplaced.owner j i n hj hn

/-- Two threads in `submit_job` at once; the second one returns first, with a milestone. -/
theorem jobs_conserved_two :
    ∃ s : SubmitRace Bool ℚ, s.returned.map (·.jobId) = [1, 2] ∧
      ∀ first, s.queue[0]? = some first →
        (∃ p ∈ s.returned, (ofLex first).1 = -p.gain) ∧
          ∀ p ∈ s.returned, p.gain ≤ -(ofLex first).1 := by
  obtain ⟨s, hreach, hreturned⟩ : ∃ s, Reachable (step fun _ => 1)
      (new 500 : SubmitRace Bool ℚ) s ∧ s.returned.map (·.jobId) = [1, 2] :=
    Reachable.exists_of_exec
      [.openJob false 7, .openJob true 500, .score false, .score true, .read false, .read true,
        .setCongested true, .read true, .read true, .read true, .closeJob true 3,
        .read false, .read false, .read false, .closeJob false 4]
      (by decide +kernel)
  exact ⟨s, hreturned, (jobs_conserved (fun _ => 1) 500 hreach).2.2.2.2.2⟩

end SubmitRace

end Tempo
