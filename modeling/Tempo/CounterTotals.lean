import Mathlib.Algebra.BigOperators.Fin
import Mathlib.Algebra.Order.BigOperators.Group.Finset
import Mathlib.Algebra.Order.Group.Int
import Mathlib.Data.Int.ConditionallyCompleteOrder
import Mathlib.Order.CompletePartialOrder
import Mathlib.Order.ConditionallyCompleteLattice.Basic
import Tempo.HeldReadings

/-!
# The totals of the hardware counters

`CassiniHWCounters` polls four counters of each NIC, adds up by how much they rise,
and raises a flag where the congestion counters rise by enough together.  A read that
fails gives the value before it.  Before the first read that value is 0, which no
counter was ever seen to have: where the initial read of a counter fails, its whole
value is counted when a poll first reads it (`telescopes_iff`).
-/

namespace Tempo

open HeldReadings

/-- The keys of `_CASSINI_COUNTERS`. -/
inductive HwCounter
  | congestionFlits
  | reliabilityRetx
  | txStallNs
  | hwmarkPct
  deriving DecidableEq, Repr

/-- `_CASSINI_COUNTERS`, in its order. -/
def HwCounter.names : List HwCounter :=
  [.congestionFlits, .reliabilityRetx, .txStallNs, .hwmarkPct]

/-- What `_read_cassini_counter` gives for each counter of each NIC. -/
abbrev CounterReads (n : Nat) := Fin n → HwCounter → Option Int

/-- `CassiniHWCounters`. -/
structure HwCounters (n : Nat) where
  prev : Fin n → HwCounter → Int
  delta : Fin n → HwCounter → Int
  congested : Bool
  totalCongestionEvents : Int
  totalRetx : Int
  totalStallNs : Int

namespace HwCounters

variable {n : Nat}

/-- The constructor. -/
def new : HwCounters n where
  prev _ _ := 0
  delta _ _ := 0
  congested := false
  totalCongestionEvents := 0
  totalRetx := 0
  totalStallNs := 0

/-- `_read_nic_counters`. -/
def readNicCounters (s : HwCounters n) (reads : CounterReads n) (i : Fin n) :
    HwCounter → Int :=
  fun name => (reads i name).getD (s.prev i name)

/-- The values before the first poll. -/
def initialise (s : HwCounters n) (reads : CounterReads n) : HwCounters n :=
  (List.finRange n).foldl
    (fun s i => { s with prev := Function.update s.prev i (s.readNicCounters reads i) }) s

/-- The turn of the inner loop for one counter, with `total_congestion_flits`. -/
def pollCounter (i : Fin n) (curr : HwCounter → Int) (acc : Int × HwCounters n)
    (name : HwCounter) : Int × HwCounters n :=
  let delta := max 0 (curr name - acc.2.prev i name)
  let s :=
    { acc.2 with
      delta := Function.update acc.2.delta i
        (Function.update (acc.2.delta i) name delta) }
  match name with
  | .congestionFlits => (acc.1 + delta, s)
  | .reliabilityRetx => (acc.1, { s with totalRetx := s.totalRetx + delta })
  | .txStallNs => (acc.1, { s with totalStallNs := s.totalStallNs + delta })
  | .hwmarkPct => (acc.1, s)

/-- The turn of the outer loop for one NIC. -/
def pollNic (reads : CounterReads n) (acc : Int × HwCounters n) (i : Fin n) :
    Int × HwCounters n :=
  let curr := acc.2.readNicCounters reads i
  let polled := HwCounter.names.foldl (pollCounter i curr) acc
  (polled.1, { polled.2 with prev := Function.update polled.2.prev i curr })

/-- A poll of `_poll_loop`. -/
def poll (congestionThreshold : Int) (reads : CounterReads n) (s : HwCounters n) :
    HwCounters n :=
  let polled := (List.finRange n).foldl (pollNic reads) (0, s)
  let newCongested := decide (congestionThreshold ≤ polled.1)
  { polled.2 with
    totalCongestionEvents :=
      if newCongested && !polled.2.congested then polled.2.totalCongestionEvents + 1
      else polled.2.totalCongestionEvents
    congested := newCongested }

/-- `_poll_loop`, after `t` polls; the reads at time 0 are those before the first. -/
def run (congestionThreshold : Int) (reads : Nat → CounterReads n) : Nat → HwCounters n
  | 0 => new.initialise (reads 0)
  | t + 1 => poll congestionThreshold (reads (t + 1)) (run congestionThreshold reads t)

/-- The readings of one counter. -/
def series (reads : Nat → CounterReads n) (i : Fin n) (name : HwCounter) :
    Nat → Option Int :=
  fun t => reads t i name

variable {s : HwCounters n} {reads : CounterReads n} {acc : Int × HwCounters n}
  {i : Fin n} {name : HwCounter}

/-- What a poll finds a counter to have risen by. -/
def risen (s : HwCounters n) (reads : CounterReads n) (i : Fin n) (name : HwCounter) :
    Int :=
  max 0 (s.readNicCounters reads i name - s.prev i name)

theorem pollNic_eq : pollNic reads acc i =
    (acc.1 + acc.2.risen reads i .congestionFlits,
      { acc.2 with
        prev := Function.update acc.2.prev i (acc.2.readNicCounters reads i)
        delta := Function.update acc.2.delta i (acc.2.risen reads i)
        totalRetx := acc.2.totalRetx + acc.2.risen reads i .reliabilityRetx
        totalStallNs := acc.2.totalStallNs + acc.2.risen reads i .txStallNs }) := by
  have hdelta : (HwCounter.names.foldl
      (pollCounter i (acc.2.readNicCounters reads i)) acc).2.delta =
      Function.update acc.2.delta i (acc.2.risen reads i) := by
    funext j name
    by_cases hj : j = i
    · subst hj
      cases name <;> simp [HwCounter.names, pollCounter, risen]
    · simp [HwCounter.names, pollCounter, hj]
  unfold pollNic
  dsimp only
  rw [hdelta]
  rfl

/-- What polling the NICs of a list, each once, has done. -/
structure Polled (reads : CounterReads n) (nics : List (Fin n)) (acc acc' : Int × HwCounters n) :
    Prop where
  prev : ∀ i name, acc'.2.prev i name =
    if i ∈ nics then acc.2.readNicCounters reads i name else acc.2.prev i name
  delta : ∀ i name, acc'.2.delta i name =
    if i ∈ nics then acc.2.risen reads i name else acc.2.delta i name
  flits : acc'.1 = acc.1 + (nics.map fun i => acc.2.risen reads i .congestionFlits).sum
  retx : acc'.2.totalRetx =
    acc.2.totalRetx + (nics.map fun i => acc.2.risen reads i .reliabilityRetx).sum
  stall : acc'.2.totalStallNs =
    acc.2.totalStallNs + (nics.map fun i => acc.2.risen reads i .txStallNs).sum

theorem foldl_pollNic (nics : List (Fin n)) (hnodup : nics.Nodup) :
    Polled reads nics acc (nics.foldl (pollNic reads) acc) := by
  induction nics generalizing acc with
  | nil => exact ⟨by simp, by simp, by simp, by simp, by simp⟩
  | cons i nics ih =>
      obtain ⟨hnot, hrest⟩ := List.nodup_cons.mp hnodup
      have hother : ∀ j ∈ nics, ∀ name,
          (pollNic reads acc i).2.risen reads j name = acc.2.risen reads j name := by
        intro j hj name
        have hne : j ≠ i := fun h => hnot (h ▸ hj)
        simp [pollNic_eq, risen, readNicCounters, hne]
      have hsum : ∀ name,
          (nics.map fun j => (pollNic reads acc i).2.risen reads j name).sum =
            (nics.map fun j => acc.2.risen reads j name).sum := by
        intro name
        congr 1
        exact List.map_congr_left fun j hj => hother j hj name
      have hlater : Polled reads nics (pollNic reads acc i)
          (nics.foldl (pollNic reads) (pollNic reads acc i)) := ih hrest
      refine ⟨?_, ?_, ?_, ?_, ?_⟩
      · intro j name
        rw [List.foldl_cons, hlater.prev j name]
        by_cases hj : j = i
        · subst hj
          simp [hnot, pollNic_eq]
        · simp [hj, pollNic_eq, readNicCounters]
      · intro j name
        rw [List.foldl_cons, hlater.delta j name]
        by_cases hj : j = i
        · subst hj
          simp [hnot, pollNic_eq]
        · by_cases hmem : j ∈ nics
          · simp [hj, hmem, hother]
          · simp [hj, hmem, pollNic_eq]
      · rw [List.foldl_cons, hlater.flits, hsum, List.map_cons, List.sum_cons, pollNic_eq]
        omega
      · rw [List.foldl_cons, hlater.retx, hsum, List.map_cons, List.sum_cons, pollNic_eq]
        dsimp only
        omega
      · rw [List.foldl_cons, hlater.stall, hsum, List.map_cons, List.sum_cons, pollNic_eq]
        dsimp only
        omega

/-- What a poll of every NIC has done. -/
theorem polled_all (reads : CounterReads n) (s : HwCounters n) :
    Polled reads (List.finRange n) (0, s) ((List.finRange n).foldl (pollNic reads) (0, s)) :=
  foldl_pollNic _ (List.nodup_finRange n)

section Poll

variable (congestionThreshold : Int) (reads : CounterReads n) (s : HwCounters n)

theorem poll_prev (i : Fin n) (name : HwCounter) : (poll congestionThreshold reads s).prev i name =
    (reads i name).getD (s.prev i name) := by
  have hprev := (polled_all reads s).prev i name
  rw [if_pos (List.mem_finRange i)] at hprev
  exact hprev

theorem poll_delta (i : Fin n) (name : HwCounter) :
    (poll congestionThreshold reads s).delta i name = s.risen reads i name := by
  have hdelta := (polled_all reads s).delta i name
  rw [if_pos (List.mem_finRange i)] at hdelta
  exact hdelta

theorem poll_totalRetx : (poll congestionThreshold reads s).totalRetx =
    s.totalRetx + ∑ i, s.risen reads i .reliabilityRetx := by
  rw [Fin.sum_univ_def]
  exact (polled_all reads s).retx

theorem poll_totalStallNs : (poll congestionThreshold reads s).totalStallNs =
    s.totalStallNs + ∑ i, s.risen reads i .txStallNs := by
  rw [Fin.sum_univ_def]
  exact (polled_all reads s).stall

/-- The flag is about the rises that `congestion_flit_rate` reports. -/
theorem poll_congested : (poll congestionThreshold reads s).congested = true ↔
    congestionThreshold ≤
      ∑ i, (poll congestionThreshold reads s).delta i .congestionFlits := by
  have hflits := (polled_all reads s).flits
  rw [zero_add, ← Fin.sum_univ_def] at hflits
  simp only [poll_delta]
  rw [← hflits]
  exact decide_eq_true_iff

end Poll

section Initialise

theorem initialise_prev : (s.initialise reads).prev i name =
    (reads i name).getD (s.prev i name) := by
  have hfold : ∀ (nics : List (Fin n)) (s : HwCounters n),
      (nics.foldl
        (fun s i =>
          { s with prev := Function.update s.prev i (s.readNicCounters reads i) })
        s).prev i name =
        if i ∈ nics then (reads i name).getD (s.prev i name) else s.prev i name := by
    intro nics
    induction nics with
    | nil => simp
    | cons j nics ih =>
        intro s
        rw [List.foldl_cons, ih]
        by_cases hj : i = j
        · subst hj
          cases hread : reads i name with
          | none => simp [readNicCounters, hread]
          | some v => simp [readNicCounters, hread]
        · simp [hj]
  have hall := hfold (List.finRange n) s
  rwa [if_pos (List.mem_finRange i)] at hall

theorem initialise_totals (s : HwCounters n) (reads : CounterReads n) :
    (s.initialise reads).totalRetx = s.totalRetx ∧
    (s.initialise reads).totalStallNs = s.totalStallNs := by
  unfold initialise
  induction List.finRange n generalizing s with
  | nil => exact ⟨rfl, rfl⟩
  | cons j nics ih => exact ih _

end Initialise

section Run

variable {congestionThreshold : Int} {reads : Nat → CounterReads n} {t : Nat}

theorem run_prev : (run congestionThreshold reads t).prev i name =
    held (series reads i name) 0 t := by
  induction t with
  | zero => exact initialise_prev
  | succ t ih =>
      rw [held_succ, ← ih]
      exact poll_prev _ _ _ i name

theorem run_risen :
    (run congestionThreshold reads t).risen (reads (t + 1)) i name =
      max 0 (held (series reads i name) 0 (t + 1) - held (series reads i name) 0 t) := by
  unfold risen readNicCounters
  rw [held_succ, run_prev]
  rfl

/-- A total that each poll raises by what one counter has risen by. -/
theorem total_eq_sum_gain (total : Nat → Int) (hstart : total 0 = 0)
    (hpoll : ∀ t, total (t + 1) =
      total t + ∑ i, (run congestionThreshold reads t).risen (reads (t + 1)) i name) :
    total t = ∑ i, gain (series reads i name) 0 t := by
  induction t with
  | zero => simpa [gain] using hstart
  | succ t ih =>
      rw [hpoll t, ih, ← Finset.sum_add_distrib]
      simp only [run_risen]
      rfl

theorem run_totalRetx : (run congestionThreshold reads t).totalRetx =
    ∑ i, gain (series reads i .reliabilityRetx) 0 t := by
  apply total_eq_sum_gain (fun t => (run congestionThreshold reads t).totalRetx)
  · exact (initialise_totals new (reads 0)).1
  · intro t
    exact poll_totalRetx congestionThreshold (reads (t + 1))
      (run congestionThreshold reads t)

theorem run_totalStallNs : (run congestionThreshold reads t).totalStallNs =
    ∑ i, gain (series reads i .txStallNs) 0 t := by
  apply total_eq_sum_gain (fun t => (run congestionThreshold reads t).totalStallNs)
  · exact (initialise_totals new (reads 0)).2
  · intro t
    exact poll_totalStallNs congestionThreshold (reads (t + 1))
      (run congestionThreshold reads t)

theorem run_congested : (run congestionThreshold reads (t + 1)).congested = true ↔
    congestionThreshold ≤ ∑ i,
      max 0 (held (series reads i .congestionFlits) 0 (t + 1) -
        held (series reads i .congestionFlits) 0 t) := by
  have hpoll := poll_congested congestionThreshold (reads (t + 1))
    (run congestionThreshold reads t)
  simp only [poll_delta, run_risen] at hpoll
  exact hpoll

end Run

section Totals

variable (truth : Nat → Fin n → HwCounter → Int) (ok : Nat → Fin n → HwCounter → Bool)
  (congestionThreshold : Int)

/-- The reads of the true values, of which some fail. -/
def observed : Nat → CounterReads n :=
  fun t i name => if ok t i name then some (truth t i name) else none

/-- The totals after `t` polls are the rises from the first read to the last. -/
def Telescopes (t : Nat) : Prop :=
  (run congestionThreshold (observed truth ok) t).totalRetx =
      ∑ i, rise (series (observed truth ok) i .reliabilityRetx) t ∧
    (run congestionThreshold (observed truth ok) t).totalStallNs =
      ∑ i, rise (series (observed truth ok) i .txStallNs) t

/-- At the poll after `t`, no congestion counter is above its last read. -/
def Quiet (t : Nat) : Prop :=
  ∀ i, ∀ v ∈ last (series (observed truth ok) i .congestionFlits) t,
    truth (t + 1) i .congestionFlits ≤ v

/-- The value of a congestion counter that the poll after `t` is the first to read. -/
def lateFlits (t : Nat) (i : Fin n) : Int :=
  if (last (series (observed truth ok) i .congestionFlits) t).isSome then 0
  else (observed truth ok (t + 1) i .congestionFlits).elim 0 (max 0)

/-- Within `T` polls, a counter that is totalled and not read before them is first
read at no more than 0, and quiet polls come upon fewer flits in the counters they
read first than the threshold has. -/
def StartsSeen (T : Nat) : Prop :=
  (∀ i, ∀ name ∈ [HwCounter.reliabilityRetx, .txStallNs],
      ok 0 i name ∨ ∀ v ∈ first (series (observed truth ok) i name) T, v ≤ 0) ∧
    ∀ t < T, Quiet truth ok t → ∑ i, lateFlits truth ok t i < congestionThreshold

variable {truth} {ok} {congestionThreshold} {t T : Nat}

theorem observed_rising (hmono : ∀ i name, Monotone fun t => truth t i name)
    (i : Fin n) (name : HwCounter) : Rising (series (observed truth ok) i name) := by
  intro s t a b hle ha hb
  unfold series observed at ha hb
  split at ha
  · split at hb
    · obtain rfl := Option.some.inj ha
      obtain rfl := Option.some.inj hb
      exact hmono i name hle
    · cases hb
  · cases ha

/-- The totals telescope where no default was counted. -/
theorem telescopes_at_iff (hmono : ∀ i name, Monotone fun t => truth t i name) :
    Telescopes truth ok congestionThreshold t ↔
      ∀ i, ∀ name ∈ [HwCounter.reliabilityRetx, .txStallNs],
        startup (series (observed truth ok) i name) 0 t = 0 := by
  have hzero : ∀ name : HwCounter,
      ∑ i, gain (series (observed truth ok) i name) 0 t =
          ∑ i, rise (series (observed truth ok) i name) t ↔
        ∀ i, startup (series (observed truth ok) i name) 0 t = 0 := by
    intro name
    have hsplit : ∑ i, gain (series (observed truth ok) i name) 0 t =
        ∑ i, rise (series (observed truth ok) i name) t +
          ∑ i, startup (series (observed truth ok) i name) 0 t := by
      rw [← Finset.sum_add_distrib]
      apply Finset.sum_congr rfl
      intro i _
      exact gain_eq (observed_rising hmono i name) t
    rw [hsplit, add_eq_left, Finset.sum_eq_zero_iff_of_nonneg fun i _ => startup_nonneg]
    simp
  unfold Telescopes
  rw [run_totalRetx, run_totalStallNs, hzero, hzero, ← forall_and]
  simp

theorem startup_observed_eq_zero_iff {i : Fin n} {name : HwCounter} :
    startup (series (observed truth ok) i name) 0 t = 0 ↔
      ok 0 i name ∨ ∀ v ∈ first (series (observed truth ok) i name) t, v ≤ 0 := by
  have hread : (series (observed truth ok) i name 0).isSome ↔ ok 0 i name := by
    unfold series observed
    cases ok 0 i name <;> simp
  rw [startup_eq_zero_iff, hread]

/-- What a quiet poll adds up for the flag. -/
theorem quiet_rise (hquiet : Quiet truth ok t) (i : Fin n) :
    max 0 (held (series (observed truth ok) i .congestionFlits) 0 (t + 1) -
        held (series (observed truth ok) i .congestionFlits) 0 t) =
      lateFlits truth ok t i := by
  have hnext : series (observed truth ok) i .congestionFlits (t + 1) =
      observed truth ok (t + 1) i .congestionFlits := rfl
  rw [held_succ, hnext]
  unfold lateFlits held
  cases hlast : last (series (observed truth ok) i .congestionFlits) t with
  | none =>
      cases observed truth ok (t + 1) i .congestionFlits with
      | none => simp
      | some u => simp
  | some v =>
      have hle := hquiet i v hlast
      unfold observed
      cases ok (t + 1) i .congestionFlits with
      | false => simp
      | true => simpa using hle

theorem quiet_congested (hquiet : Quiet truth ok t) :
    (run congestionThreshold (observed truth ok) (t + 1)).congested = false ↔
      ∑ i, lateFlits truth ok t i < congestionThreshold := by
  rw [← Bool.not_eq_true, run_congested, not_le]
  simp only [quiet_rise hquiet]

/-- **The totals telescope, and quiet polls leave the flag down, exactly where the
default of no counter is taken for a reading.** -/
theorem telescopes_iff (congestionThreshold : Int)
    (truth : Nat → Fin n → HwCounter → Int)
    (hmono : ∀ i name, Monotone fun t => truth t i name)
    (ok : Nat → Fin n → HwCounter → Bool) (T : Nat) :
    (∀ t ≤ T, Telescopes truth ok congestionThreshold t) ∧
        (∀ t < T, Quiet truth ok t →
          (run congestionThreshold (observed truth ok) (t + 1)).congested = false) ↔
      StartsSeen truth ok congestionThreshold T := by
  apply and_congr
  · simp only [telescopes_at_iff hmono, startup_observed_eq_zero_iff]
    constructor
    · intro hall
      exact hall T le_rfl
    · intro hend t ht i name hname
      refine (hend i name hname).imp_right fun hfirst v hv => ?_
      exact hfirst v (first_mono ht hv)
  · refine forall₂_congr fun t _ => forall_congr' fun hquiet => ?_
    exact quiet_congested hquiet

/-- One NIC, whose first read comes late for two counters that stand at 0. -/
theorem telescopes_zero :
    (∀ t ≤ 2, Telescopes (fun t (_ : Fin 1) _ => (t : Int) - 1)
        (fun t _ _ => decide (0 < t)) 1 t) ∧
        (∀ t < 2, Quiet (fun t (_ : Fin 1) _ => (t : Int) - 1)
            (fun t _ _ => decide (0 < t)) t →
          (run 1 (observed (fun t (_ : Fin 1) _ => (t : Int) - 1)
            (fun t _ _ => decide (0 < t))) (t + 1)).congested = false) ↔
      StartsSeen (fun t (_ : Fin 1) _ => (t : Int) - 1) (fun t _ _ => decide (0 < t)) 1 2 :=
  telescopes_iff 1 _ (fun _ _ s t hle => by dsimp only; omega) _ 2

/-- A retransmit counter that stands at 5 all along and is not read at first. -/
theorem not_telescopes_late :
    ¬ Telescopes (fun _ (_ : Fin 1) _ => (5 : Int)) (fun t _ _ => decide (0 < t)) 1 1 := by
  rintro ⟨hretx, _⟩
  revert hretx
  decide

end Totals

end HwCounters

end Tempo
