import Mathlib.Algebra.Order.BigOperators.Group.List
import Mathlib.Algebra.Order.Field.Basic
import Mathlib.Tactic.Linarith
import Tempo.PacedFlush

/-!
# The rate budget of a flush

Each round of the copy loop asks the phase monitor for a rate before it reads
and writes a chunk.  A rate of zero sends it to the gate, and once the gate is
open it asks again, but does not look at the answer; a rate well below the
bandwidth estimate makes it sleep for the difference, but at most 50 ms.  The
state here is that of `PacedFlush` with what `_do_flush` keeps for this: the
write samples, the estimate of the round, the rates it was told and the sleep
it took.  `queries` records what the monitor was asked and when, that is, the
monitor as each call found it.

The sleep is the argument of `time.sleep`, zero where it is not called.
-/

namespace Tempo

/-- A call of `get_dynamic_flush_rate`: the monitor as the call finds it, and
the `nccl_bw_bps` passed. -/
structure RateQuery where
  monitor : PhaseMonitor
  ncclBps : ℚ

/-- The value the call returns. -/
def RateQuery.rate (q : RateQuery) (est : ℚ) : ℚ :=
  q.monitor.getDynamicFlushRate est q.ncclBps flushCeilingBps flushSafetyMargin

/-- `_est_bw`: 1 GB/s without samples, else bytes per millisecond times a
thousand. -/
def estBw (samples : List (ℚ × ℚ)) : ℚ :=
  if samples = [] then 1000000000
  else (samples.map Prod.fst).sum / (samples.map Prod.snd).sum * 1000

/-- `_write_samples` after a write; at most eight are kept. -/
def keepSample (samples : List (ℚ × ℚ)) (sample : ℚ × ℚ) : List (ℚ × ℚ) :=
  let appended := samples ++ [sample]
  if 8 < appended.length then appended.tail else appended

/-- `_token_wait_s`. -/
def tokenWait (chunkBytes : Int) (est r : ℚ) : ℚ :=
  (chunkBytes : ℚ) / max r 1 - (chunkBytes : ℚ) / max est 1

/-- The sleep of the soft throttle. -/
def softPause (chunkBytes : Int) (est r : ℚ) : ℚ :=
  if r ≤ 0 then 0
  else if CheckpointManager.throttles chunkBytes est r then
    min (tokenWait chunkBytes est r) (1 / 20)
  else 0

/-- The flush under the monitor with its pacing variables; `rates` are the
values returned in this round. -/
structure BudgetFlush where
  paced : PacedFlush
  samples : List (ℚ × ℚ) := []
  est : ℚ := 0
  rates : List ℚ := []
  pause : ℚ := 0
  queries : List RateQuery := []

inductive BudgetEvent
  /-- a rate call, with the `nccl_bw_bps` the first one of a round passes and
  the duration estimate it finds -/
  | query (ncclBps emaNcclMs : ℚ)
  /-- `fdst.write(chunk)`, which takes `ms` milliseconds -/
  | write (ms : ℚ)
  /-- any other step -/
  | other (e : PacedEvent)

/-- A rate call, or the next statement of the flush thread when that is a
write: these come as events of their own. -/
def PacedEvent.isPaced (atWrite : Bool) : PacedEvent → Bool
  | .rate _ _ _ => true
  | .manager (.worker .next) => atWrite
  | _ => false

/-- At `open(tmp_dst, "wb")`, with `_write_samples` just made. -/
def FlushPc.opening : FlushPc → Bool
  | .openTmp _ => true
  | _ => false

namespace BudgetFlush

def init (cfg : CkptConfig) (localDir lustreDir : Dir) : BudgetFlush :=
  { paced := PacedFlush.init cfg localDir lustreDir }

/-- The monitor as a call finds it: the duration estimate may be older. -/
def found (s : BudgetFlush) (emaNcclMs : ℚ) : PhaseMonitor :=
  { s.paced.monitor with emaNcclMs }

/-- The first call of a round, and the soft throttle after it. -/
def firstQuery (cfg : CkptConfig) (s : BudgetFlush) (q : RateQuery) :
    Option BudgetFlush :=
  let est := estBw s.samples
  (PacedFlush.step cfg s.paced
      (.rate est q.ncclBps q.monitor.emaNcclMs)).map fun paced =>
    { s with
      paced
      est
      rates := [q.rate est]
      pause := softPause s.paced.manager.chunkBytes est (q.rate est)
      queries := [q] }

/-- The second call of a round, after the gate. -/
def secondQuery (cfg : CkptConfig) (s : BudgetFlush) (q : RateQuery) :
    Option BudgetFlush :=
  (PacedFlush.step cfg s.paced
      (.rate s.est q.ncclBps q.monitor.emaNcclMs)).map fun paced =>
    { s with
      paced
      rates := s.rates ++ [q.rate s.est]
      queries := s.queries ++ [q] }

def step (cfg : CkptConfig) (s : BudgetFlush) :
    BudgetEvent → Option BudgetFlush
  | .query ncclBps emaNcclMs =>
      match s.paced.manager.worker with
      | .pace _ _ => s.firstQuery cfg ⟨s.found emaNcclMs, ncclBps⟩
      | .recompute _ _ => s.secondQuery cfg ⟨s.found emaNcclMs, 0⟩
      | _ => none
  | .write ms =>
      match s.paced.manager.worker with
      | .write _ _ chunk =>
          if ms < 0 then none
          else
            (PacedFlush.step cfg s.paced (.manager (.worker .next))).map
              fun paced =>
                { s with
                  paced
                  samples :=
                    keepSample s.samples (chunk.length, ms + 1 / 1000000) }
      | _ => none
  | .other e =>
      if e.isPaced s.paced.manager.worker.atWrite then none
      else
        (PacedFlush.step cfg s.paced e).map fun paced =>
          { s with
            paced
            samples :=
              if s.paced.manager.worker.opening then [] else s.samples }

/-! ### What has been asked in a round -/

/-- What the round has been told when it comes to the read. -/
inductive Told (s : BudgetFlush) : Prop
  | granted (q : RateQuery) (hqueries : s.queries = [q])
      (hrates : s.rates = [q.rate s.est]) (hpos : 0 < q.rate s.est)
      (hpause : s.pause =
        softPause s.paced.manager.chunkBytes s.est (q.rate s.est))
  | blocked (q q' : RateQuery) (hqueries : s.queries = [q, q'])
      (hrates : s.rates = [q.rate s.est, q'.rate s.est])
      (hzero : q.rate s.est ≤ 0) (hunknown : q'.ncclBps = 0)

/-- What holds at the statements between the first rate call and the write. -/
def RoundOk (s : BudgetFlush) : FlushPc → Prop
  | .gate _ _ | .recompute _ _ =>
      0 < s.est ∧ ∃ q, s.queries = [q] ∧ s.rates = [q.rate s.est] ∧
        q.rate s.est ≤ 0
  | .read _ _ => 0 < s.est ∧ Told s
  | .write _ _ chunk => 0 < s.est ∧ Told s ∧ chunk ≠ []
  | _ => True

/-- The invariant. -/
structure Inv (s : BudgetFlush) : Prop where
  sampled : ∀ p ∈ s.samples, 0 < p.1 ∧ 0 < p.2
  round : RoundOk s s.paced.manager.worker

variable {cfg : CkptConfig} {localDir lustreDir : Dir} {s t : BudgetFlush}

theorem sum_pos_of_ne_nil {l : List ℚ} (hne : l ≠ [])
    (hpos : ∀ x ∈ l, 0 < x) : 0 < l.sum := by
  cases l with
  | nil => exact absurd rfl hne
  | cons x l =>
      have hrest : 0 ≤ l.sum := List.sum_nonneg fun y hy =>
        (hpos y (List.mem_cons_of_mem x hy)).le
      rw [List.sum_cons]
      have hx := hpos x List.mem_cons_self
      linarith

/-- The estimate is positive. -/
theorem estBw_pos {samples : List (ℚ × ℚ)}
    (h : ∀ p ∈ samples, 0 < p.1 ∧ 0 < p.2) : 0 < estBw samples := by
  unfold estBw
  split
  · decide
  · next hne =>
      have hbytes : 0 < (samples.map Prod.fst).sum := by
        refine sum_pos_of_ne_nil (by simpa using hne) ?_
        simpa using fun x y hp => (h (x, y) hp).1
      have hms : 0 < (samples.map Prod.snd).sum := by
        refine sum_pos_of_ne_nil (by simpa using hne) ?_
        simpa using fun y x hp => (h (x, y) hp).2
      exact mul_pos (div_pos hbytes hms) (by decide)

theorem mem_keepSample {samples : List (ℚ × ℚ)} {p sample : ℚ × ℚ}
    (h : p ∈ keepSample samples sample) : p ∈ samples ∨ p = sample := by
  have hall : p ∈ samples ++ [sample] := by
    unfold keepSample at h
    dsimp only at h
    split at h
    · exact List.mem_of_mem_tail h
    · exact h
  simpa using hall

/-- A statement that belongs to no round. -/
theorem RoundOk.of_not_pacing {w : FlushPc} (h : w.pacing = false) :
    RoundOk s w := by
  cases w with
  | gate job off | recompute job off | read job off | write job off chunk =>
      cases h
  | _ => trivial

theorem Told.frame (h : Told s) {paced : PacedFlush}
    {samples : List (ℚ × ℚ)}
    (hchunk : paced.manager.chunkBytes = s.paced.manager.chunkBytes) :
    Told { s with paced, samples } := by
  cases h with
  | granted q hqueries hrates hpos hpause =>
      refine .granted q hqueries hrates hpos ?_
      dsimp only
      rw [hchunk]
      exact hpause
  | blocked q q' hqueries hrates hzero hunknown =>
      exact .blocked q q' hqueries hrates hzero hunknown

/-- A step that is not a rate call changes nothing about the round. -/
theorem RoundOk.frame {w : FlushPc} (h : RoundOk s w) {paced : PacedFlush}
    {samples : List (ℚ × ℚ)}
    (hchunk : paced.manager.chunkBytes = s.paced.manager.chunkBytes) :
    RoundOk { s with paced, samples } w := by
  cases w with
  | gate job off | recompute job off => exact h
  | read job off => exact ⟨h.1, h.2.frame hchunk⟩
  | write job off chunk => exact ⟨h.1, h.2.1.frame hchunk, h.2.2⟩
  | _ => trivial

theorem heard_rate {p q : PacedFlush} {e : PacedEvent} {est r : ℚ} {b : Bool}
    (hstep : PacedFlush.step cfg p e = some q)
    (h : p.heard e = some (.rate est r)) : e.isPaced b = true := by
  cases e with
  | rate est' nccl ema => rfl
  | manager e =>
      cases e with
      | worker i =>
          obtain rfl : i = .rate est r := Option.some.inj h
          simp [PacedFlush.step, CkptEvent.asksMonitor] at hstep
      | save _ _ _ | saver | shutdown => cases h
  | _ => cases h

theorem inv_init : Inv (init cfg localDir lustreDir) :=
  ⟨by simp [init], trivial⟩

theorem Inv.query {ncclBps emaNcclMs : ℚ} (hs : Inv s)
    (hstep : step cfg s (.query ncclBps emaNcclMs) = some t) : Inv t := by
  have hround := hs.round
  cases hpc : s.paced.manager.worker with
  | pace job off =>
      simp only [BudgetFlush.step, hpc] at hstep
      obtain ⟨paced, hpaced, rfl⟩ := Option.map_eq_some_iff.mp hstep
      have hworker := (PacedFlush.step_heard hpaced rfl).1
      refine ⟨hs.sampled, ?_⟩
      dsimp only
      cases hpacing : paced.manager.worker.pacing with
      | false => exact .of_not_pacing hpacing
      | true =>
          obtain ⟨henters, hchunk⟩ :=
            CheckpointManager.enters_of_step hworker hpacing
          have hest := estBw_pos hs.sampled
          generalize hw : paced.manager.worker = w at henters
          cases henters with
          | blocked hpc' hr =>
              exact ⟨hest, ⟨s.found emaNcclMs, ncclBps⟩, rfl, rfl, hr⟩
          | granted hpc' hr =>
              refine ⟨hest, .granted ⟨s.found emaNcclMs, ncclBps⟩ rfl rfl hr ?_⟩
              dsimp only
              rw [hchunk]
          | recomputed hpc' | reading hpc' hread | reads hpc' hread hne =>
              rw [hpc] at hpc'; cases hpc'
  | recompute job off =>
      rw [hpc] at hround
      obtain ⟨hest, q, hqueries, hrates, hzero⟩ := hround
      simp only [BudgetFlush.step, hpc] at hstep
      obtain ⟨paced, hpaced, rfl⟩ := Option.map_eq_some_iff.mp hstep
      have hworker := (PacedFlush.step_heard hpaced rfl).1
      refine ⟨hs.sampled, ?_⟩
      dsimp only
      cases hpacing : paced.manager.worker.pacing with
      | false => exact .of_not_pacing hpacing
      | true =>
          obtain ⟨henters, -⟩ :=
            CheckpointManager.enters_of_step hworker hpacing
          generalize hw : paced.manager.worker = w at henters
          cases henters with
          | recomputed hpc' =>
              exact ⟨hest, .blocked q ⟨s.found emaNcclMs, 0⟩
                (by simp [hqueries]) (by simp [hrates]) hzero rfl⟩
          | blocked hpc' hr | granted hpc' hr | reading hpc' hread
          | reads hpc' hread hne => rw [hpc] at hpc'; cases hpc'
  | _ => simp [BudgetFlush.step, hpc] at hstep

theorem Inv.write {ms : ℚ} (hs : Inv s)
    (hstep : step cfg s (.write ms) = some t) : Inv t := by
  have hround := hs.round
  cases hpc : s.paced.manager.worker with
  | write job off chunk =>
      rw [hpc] at hround
      obtain ⟨-, -, hne⟩ := hround
      by_cases hms : ms < 0
      · simp [BudgetFlush.step, hpc, hms] at hstep
      · simp only [BudgetFlush.step, hpc, if_neg hms] at hstep
        obtain ⟨paced, hpaced, rfl⟩ := Option.map_eq_some_iff.mp hstep
        have hworker := (PacedFlush.step_heard hpaced rfl).1
        refine ⟨?_, ?_⟩
        · intro p hp
          rcases mem_keepSample hp with hp | rfl
          · exact hs.sampled p hp
          · have hlen := List.length_pos_of_ne_nil hne
            refine ⟨Nat.cast_pos.mpr hlen, ?_⟩
            dsimp only
            linarith
        · refine .of_not_pacing ?_
          by_contra hpacing
          obtain ⟨henters, -⟩ := CheckpointManager.enters_of_step hworker
            (by simpa using hpacing)
          generalize paced.manager.worker = w at henters
          cases henters with
          | unpaced hpc' hmonitor => rw [hpc] at hpc'; cases hpc'
          | reading hpc' hread => rw [hpc] at hpc'; cases hpc'
          | reads hpc' hread hne => rw [hpc] at hpc'; cases hpc'
  | _ => simp [BudgetFlush.step, hpc] at hstep

theorem Inv.other {e : PacedEvent} (hs : Inv s)
    (hstep : step cfg s (.other e) = some t) : Inv t := by
  have hround := hs.round
  cases hown : e.isPaced s.paced.manager.worker.atWrite with
  | true => simp [BudgetFlush.step, hown] at hstep
  | false =>
      simp only [BudgetFlush.step, hown, Bool.false_eq_true, if_false] at hstep
      obtain ⟨paced, hpaced, rfl⟩ := Option.map_eq_some_iff.mp hstep
      refine ⟨?_, ?_⟩
      · intro p hp
        dsimp only at hp
        split at hp
        · cases hp
        · exact hs.sampled p hp
      · dsimp only
        cases hheard : s.paced.heard e with
        | none =>
            obtain ⟨hworker, hchunk⟩ := PacedFlush.step_unheard hpaced hheard
            rw [hworker]
            exact hround.frame hchunk
        | some i =>
            have hworker := (PacedFlush.step_heard hpaced hheard).1
            cases hpacing : paced.manager.worker.pacing with
            | false => exact .of_not_pacing hpacing
            | true =>
                obtain ⟨henters, hchunk⟩ :=
                  CheckpointManager.enters_of_step hworker hpacing
                generalize paced.manager.worker = w at henters
                cases henters with
                | waits hpc | passes hpc =>
                    rw [hpc] at hround
                    exact hround
                | reading hpc hread =>
                    rw [hpc] at hround
                    exact ⟨hround.1, hround.2.frame hchunk⟩
                | reads hpc hread hne =>
                    rw [hpc] at hround
                    exact ⟨hround.1, hround.2.frame hchunk, hne⟩
                | unpaced hpc hmonitor => cases hmonitor
                | blocked hpc hr | granted hpc hr | recomputed hpc =>
                    -- a rate call comes as `query`
                    rw [heard_rate hpaced hheard] at hown
                    cases hown

theorem Inv.step {e : BudgetEvent} (hs : Inv s)
    (hstep : step cfg s e = some t) : Inv t := by
  cases e with
  | query ncclBps emaNcclMs => exact hs.query hstep
  | write ms => exact hs.write hstep
  | other e => exact hs.other hstep

/-! ### The budget -/

/-- The rate granted is positive exactly outside the NCCL phase and while the
share left beside the NCCL estimate is. -/
theorem getDynamicFlushRate_pos_iff {m : PhaseMonitor} {est : ℚ}
    (hest : 0 < est) :
    0 < m.getDynamicFlushRate est 0 flushCeilingBps flushSafetyMargin ↔
      m.phase ≠ .ncclComm ∧
        (0 < m.emaNcclMs →
          typicalAllreduceBytes / (m.emaNcclMs * (1 / 1000)) <
            9 / 10 * flushCeilingBps) := by
  by_cases hphase : m.phase = .ncclComm
  · simp [PhaseMonitor.getDynamicFlushRate_nccl hphase, hphase]
  · have hceiling : (0 : ℚ) < flushCeilingBps := by decide
    have hmax : max flushCeilingBps 1 = flushCeilingBps := by decide
    -- what is left of the ceiling beside an estimate
    have hshare : ∀ nccl : ℚ,
        0 < min est (flushCeilingBps *
          max 0 (1 - nccl / flushCeilingBps - flushSafetyMargin)) ↔
          nccl < 9 / 10 * flushCeilingBps := by
      intro nccl
      rw [lt_min_iff, mul_pos_iff_of_pos_left hceiling, lt_max_iff]
      have hdiv : nccl / flushCeilingBps < 9 / 10 ↔
          nccl < 9 / 10 * flushCeilingBps := div_lt_iff₀ hceiling
      rw [← hdiv]
      simp only [hest, true_and, lt_irrefl, false_or, flushSafetyMargin]
      constructor
      · intro h; linarith
      · intro h; linarith
    unfold PhaseMonitor.getDynamicFlushRate
    rw [if_neg hphase]
    dsimp only
    rw [hmax, hshare]
    by_cases hema : 0 < m.emaNcclMs
    · simp [hphase, hema]
    · have hzero : (0 : ℚ) < 9 / 10 * flushCeilingBps := by linarith
      simp [hphase, hema, hzero]

/-- The pause taken covers the wait asked for exactly when that is at most
50 ms. -/
theorem tokenWait_le_softPause_iff {chunkBytes : Int} {est r : ℚ}
    (hr : 0 < r) (hslow : r < est * (95 / 100)) :
    tokenWait chunkBytes est r ≤ softPause chunkBytes est r ↔
      tokenWait chunkBytes est r ≤ 1 / 20 := by
  unfold softPause
  rw [if_neg (not_le.mpr hr)]
  by_cases hwait : 0 < tokenWait chunkBytes est r
  · have hthrottles : CheckpointManager.throttles chunkBytes est r = true :=
      decide_eq_true ⟨hslow, hwait⟩
    rw [if_pos hthrottles, le_min_iff]
    exact ⟨And.right, fun h => ⟨le_rfl, h⟩⟩
  · have hthrottles :
        ¬ CheckpointManager.throttles chunkBytes est r = true := fun h =>
      hwait (of_decide_eq_true h).2
    rw [if_neg hthrottles]
    have hle := not_lt.mp hwait
    exact ⟨fun _ => by linarith, fun _ => hle⟩

/-- What the budget asks of the round that writes a chunk. -/
structure InBudget (s : BudgetFlush) : Prop where
  last_pos : ∃ r, s.rates.getLast? = some r ∧ 0 < r
  pause_covers : ∀ r, s.rates.head? = some r → 0 < r →
    r < s.est * (95 / 100) →
    tokenWait s.paced.manager.chunkBytes s.est r ≤ s.pause

/-- The monitor as the calls of the round found it leaves the flush in its
budget: the first call grants something, and if that is well below the
estimate the wait for it is at most 50 ms; or it grants nothing, and the second
call finds the monitor outside the NCCL phase with a duration estimate that
leaves some bandwidth. -/
def Affordable (chunkBytes : Int) (est : ℚ) : List RateQuery → Prop
  | [q] =>
      q.rate est < est * (95 / 100) →
        tokenWait chunkBytes est (q.rate est) ≤ 1 / 20
  | [_, q] =>
      q.monitor.phase ≠ .ncclComm ∧
        (0 < q.monitor.emaNcclMs →
          typicalAllreduceBytes / (q.monitor.emaNcclMs * (1 / 1000)) <
            9 / 10 * flushCeilingBps)
  | _ => False

/-- **The rate budget.**  In every reachable state in which a chunk is about to
be written, the last rate returned is positive and the pause covers the soft
throttle exactly when the monitor's answers in this round were affordable. -/
theorem inBudget_iff
    (hrun : Runs.Reachable (step cfg) (init cfg localDir lustreDir) s)
    {job : FlushJob} {off : Nat} {chunk : Bytes}
    (hpc : s.paced.manager.worker = .write job off chunk) :
    InBudget s ↔
      Affordable s.paced.manager.chunkBytes s.est s.queries := by
  have hinv : Inv s := hrun.invariant inv_init fun _ _ _ hs _ => hs.step
  have hround := hinv.round
  rw [hpc] at hround
  obtain ⟨hest, htold, -⟩ := hround
  cases htold with
  | granted q hqueries hrates hpos hpause =>
      rw [hqueries]
      constructor
      · intro h hslow
        have hcovers := h.pause_covers _ (by rw [hrates]; rfl) hpos hslow
        rw [hpause] at hcovers
        exact (tokenWait_le_softPause_iff hpos hslow).mp hcovers
      · intro h
        refine ⟨⟨_, by rw [hrates]; rfl, hpos⟩, ?_⟩
        rintro r hr - hslow
        rw [hrates] at hr
        obtain rfl := Option.some.inj hr
        rw [hpause]
        exact (tokenWait_le_softPause_iff hpos hslow).mpr (h hslow)
  | blocked q q' hqueries hrates hzero hunknown =>
      rw [hqueries]
      have hpos : 0 < q'.rate s.est ↔ Affordable
          s.paced.manager.chunkBytes s.est [q, q'] := by
        unfold RateQuery.rate
        rw [hunknown]
        exact getDynamicFlushRate_pos_iff hest
      rw [← hpos]
      constructor
      · intro h
        obtain ⟨r, hlast, hr⟩ := h.last_pos
        rw [hrates] at hlast
        obtain rfl := Option.some.inj hlast
        exact hr
      · intro h
        refine ⟨⟨_, by rw [hrates]; rfl, h⟩, ?_⟩
        rintro r hr hr' -
        rw [hrates] at hr
        obtain rfl := Option.some.inj hr
        exact absurd hr' (not_lt.mpr hzero)

/-- An NCCL phase of `d` seconds, and a saved step taken by the flush thread up
to its first rate call. -/
def pacedEvents (d : ℚ) : List BudgetEvent :=
  [BudgetEvent.other (.setPhase .ncclComm)] ++
    List.replicate 4 (BudgetEvent.other (.trainer 0)) ++
    [BudgetEvent.other (.setPhase .compute)] ++
    List.replicate 4 (BudgetEvent.other (.trainer d)) ++
    [BudgetEvent.other (.manager (.save 7 [] [1, 1]))] ++
    List.replicate 3 (BudgetEvent.other (.manager .saver)) ++
    List.replicate 5 (BudgetEvent.other (.manager (.worker .next))) ++
    [BudgetEvent.other (.manager (.worker (.target none)))]

/-- The file is read up to its end. -/
def readEvents : List BudgetEvent :=
  [.other (.manager (.worker .next)), .other (.manager (.worker (.raw 8192))),
    .other (.manager (.worker (.raw 8192)))]

/-- After an NCCL phase of 1 ms the rate is zero outside the NCCL phase as
well, and the chunk is written at that rate; after one of 4.7 ms the first
128 MiB chunk would have to wait for 142 ms, and waits for 50. -/
theorem budget_exceeded :
    (∃ s, Runs.Reachable (step {})
        (init {} (fun _ => none) (fun _ => none)) s ∧
      s.paced.monitor.emaNcclMs = 1 ∧
      s.paced.manager.worker.atWrite = true ∧ ¬ InBudget s) ∧
    ∃ s, Runs.Reachable (step {})
        (init {} (fun _ => none) (fun _ => none)) s ∧
      s.paced.monitor.emaNcclMs = 47 / 10 ∧
      s.paced.manager.worker.atWrite = true ∧ ¬ InBudget s := by
  constructor
  · obtain ⟨s, hrun, hema, hat, hrates⟩ : ∃ s, Runs.Reachable (step {})
          (init {} (fun _ => none) (fun _ => none)) s ∧
        s.paced.monitor.emaNcclMs = 1 ∧
        s.paced.manager.worker.atWrite = true ∧ s.rates = [0, 0] :=
      Runs.Reachable.exists_of_exec
        (pacedEvents (1 / 1000) ++ [.query 0 1, .other (.gate true),
          .query 0 1] ++ readEvents)
        (by decide +kernel)
    refine ⟨s, hrun, hema, hat, fun h => ?_⟩
    obtain ⟨r, hlast, hr⟩ := h.last_pos
    rw [hrates] at hlast
    obtain rfl := Option.some.inj hlast
    exact lt_irrefl _ hr
  · obtain ⟨s, hrun, hema, hat, r, hrates, hpos, hslow, hwait⟩ : ∃ s,
        Runs.Reachable (step {})
          (init {} (fun _ => none) (fun _ => none)) s ∧
        s.paced.monitor.emaNcclMs = 47 / 10 ∧
        s.paced.manager.worker.atWrite = true ∧
        ∃ r ∈ s.rates.head?, 0 < r ∧ r < s.est * (95 / 100) ∧
          s.pause < tokenWait s.paced.manager.chunkBytes s.est r :=
      Runs.Reachable.exists_of_exec
        (pacedEvents (47 / 10000) ++ [.query 0 (47 / 10)] ++ readEvents)
        (by decide +kernel)
    refine ⟨s, hrun, hema, hat, fun h => ?_⟩
    exact absurd (h.pause_covers r hrates hpos hslow) (not_le.mpr hwait)

instance Affordable.decidable (chunkBytes : Int) (est : ℚ) :
    ∀ qs, Decidable (Affordable chunkBytes est qs)
  | [q] =>
      inferInstanceAs (Decidable (q.rate est < est * (95 / 100) →
        tokenWait chunkBytes est (q.rate est) ≤ 1 / 20))
  | [_, q] =>
      inferInstanceAs (Decidable (q.monitor.phase ≠ .ncclComm ∧
        (0 < q.monitor.emaNcclMs →
          typicalAllreduceBytes / (q.monitor.emaNcclMs * (1 / 1000)) <
            9 / 10 * flushCeilingBps)))
  | [] | _ :: _ :: _ :: _ => isFalse id

/-- The flush waits for an NCCL phase of 10 ms to end and writes at the full
rate. -/
theorem inBudget_iff_waited :
    ∃ s, Runs.Reachable (step {})
        (init {} (fun _ => none) (fun _ => none)) s ∧
      s.rates = [0, 1000000000] ∧ InBudget s := by
  obtain ⟨s, hrun, hrates, hpc, haffordable⟩ : ∃ s, Runs.Reachable (step {})
        (init {} (fun _ => none) (fun _ => none)) s ∧
      s.rates = [0, 1000000000] ∧
      s.paced.manager.worker =
        .write (CheckpointManager.flushJob {} 7 2) 0 [1, 1] ∧
      Affordable s.paced.manager.chunkBytes s.est s.queries :=
    Runs.Reachable.exists_of_exec
      (pacedEvents (1 / 100) ++ [.other (.setPhase .ncclComm)] ++
        List.replicate 4 (BudgetEvent.other (.trainer 1)) ++
        [.query 0 10, .other (.gate false), .other (.setPhase .compute)] ++
        List.replicate 4 (BudgetEvent.other (.trainer (101 / 100))) ++
        [.other (.gate true), .query 0 10] ++ readEvents)
      (by decide +kernel)
  exact ⟨s, hrun, hrates, (inBudget_iff hrun hpc).mpr haffordable⟩

end BudgetFlush

end Tempo
