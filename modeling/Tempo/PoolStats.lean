import Tempo.GpuDriven
import Tempo.MachineFamily
import Tempo.RunningMean

/-!
# What a pool of endpoints counts

`GpuDrivenPool` has an endpoint for each NIC and passes each call on to the one that it
names; a call for a NIC without an endpoint does nothing.  So an endpoint makes the run
of the calls for its NIC, and its statistics are those of the waits that have read
entries there: how many, how long after their triggers on average, and how many bytes
their transfers have (`pool_stats`).  A wait counts its own transfer, as in
`Tempo.GpuDriven`, whatever the entries are of.

A trigger falls back to the CPU: no doorbell page is mapped.
-/

namespace Tempo.GpuDriven

open MachineFamily OrderedDict RunningMean Runs

variable {ι : Type*} [DecidableEq ι] {cfg : Config} {s t : Endpoint ι} {e : Event ι}
  {es : List (Event ι)}

/-- The latency and the length that a wait measures, if it does. -/
def measures (s : Endpoint ι) : Event ι → Option (ℚ × Nat)
  | .poll i (.entries _ now) =>
      match s.waits i with
      | .poll h => (s.objects[h]?).map fun desc => ((now - desc.tTriggered) * 1000000, desc.length)
      | .idle | .check _ => none
  | _ => none

/-- What the waits of a run measure, the first one first. -/
def measured (cfg : Config) (s : Endpoint ι) : List (Event ι) → List (ℚ × Nat)
  | [] => []
  | e :: es => (measures s e).toList ++ (step cfg s e).elim [] fun t => measured cfg t es

/-- The statistics of what was measured. -/
structure Counts (stats : Stats) (found : List (ℚ × Nat)) : Prop where
  latency : Means stats.avgLatencyUs stats.completions (found.map Prod.fst)
  bytes : stats.bytesSent = (found.map Prod.snd).sum

theorem Counts.push {stats : Stats} {found : List (ℚ × Nat)} (h : Counts stats found)
    (latency : ℚ) (length : Nat) :
    Counts
      { stats with
        avgLatencyUs := RunningMean.push stats.avgLatencyUs stats.completions latency
        completions := stats.completions + 1
        bytesSent := stats.bytesSent + length }
      (found ++ [(latency, length)]) where
  latency := by
    rw [List.map_append]
    exact h.latency.push latency
  bytes := by simp [h.bytes]

theorem counts_of_eq {stats stats' : Stats} {found : List (ℚ × Nat)} (h : Counts stats found)
    (hcompletions : stats'.completions = stats.completions)
    (hbytes : stats'.bytesSent = stats.bytesSent)
    (hlatency : stats'.avgLatencyUs = stats.avgLatencyUs) : Counts stats' found where
  latency := by
    rw [hlatency, hcompletions]
    exact h.latency
  bytes := hbytes.trans h.bytes

/-- The statistics but for the sends are those of before. -/
structure Uncounted (s t : Endpoint ι) : Prop where
  completions : t.stats.completions = s.stats.completions
  bytes : t.stats.bytesSent = s.stats.bytesSent
  latency : t.stats.avgLatencyUs = s.stats.avgLatencyUs

omit [DecidableEq ι] in
theorem uncounted_trigger (cfg : Config) (s : Endpoint ι) (h : Nat) (ret : Int) (now : ℚ) :
    Uncounted s (s.triggerFromCpu cfg h ret now) := by
  unfold Endpoint.triggerFromCpu
  split
  · exact ⟨rfl, rfl, rfl⟩
  · split
    · exact ⟨rfl, rfl, rfl⟩
    · unfold Endpoint.launch
      split
      · exact ⟨rfl, rfl, rfl⟩
      · split <;> exact ⟨rfl, rfl, rfl⟩

theorem uncounted_call (s : Endpoint ι) (i : ι) (h : Nat) : Uncounted s (s.callWait i h) := by
  unfold Endpoint.callWait
  split <;> exact ⟨rfl, rfl, rfl⟩

theorem uncounted_check (cfg : Config) (s : Endpoint ι) (i : ι) (h : Nat) :
    Uncounted s (s.checkWait cfg i h) := by
  unfold Endpoint.checkWait
  split
  · exact ⟨rfl, rfl, rfl⟩
  · split
    · split <;> exact ⟨rfl, rfl, rfl⟩
    · exact ⟨rfl, rfl, rfl⟩

/-- A wait that reads entries is counted, and nothing else is. -/
theorem counts_step {found : List (ℚ × Nat)} (hs : Counts s.stats found)
    (hstep : step cfg s e = some t) : Counts t.stats (found ++ (measures s e).toList) := by
  have hquiet : Uncounted s t → measures s e = none →
      Counts t.stats (found ++ (measures s e).toList) := by
    intro hframe hnone
    rw [hnone, Option.toList_none, List.append_nil]
    exact counts_of_eq hs hframe.completions hframe.bytes hframe.latency
  cases e with
  | register src dest length tc =>
      obtain rfl := Option.some.inj hstep
      exact hquiet ⟨rfl, rfl, rfl⟩ rfl
  | trigger h ret now =>
      obtain rfl := Option.some.inj hstep
      exact hquiet (uncounted_trigger cfg s h ret now) rfl
  | sendCompletes h =>
      obtain ⟨-, hsome⟩ := Option.ite_none_right_eq_some.mp hstep
      obtain rfl := Option.some.inj hsome
      exact hquiet ⟨rfl, rfl, rfl⟩ rfl
  | injectCompletes h =>
      obtain ⟨-, hsome⟩ := Option.ite_none_right_eq_some.mp hstep
      obtain rfl := Option.some.inj hsome
      exact hquiet ⟨rfl, rfl, rfl⟩ rfl
  | call i h =>
      unfold GpuDriven.step at hstep
      dsimp only at hstep
      split at hstep
      · obtain rfl := Option.some.inj hstep
        exact hquiet (uncounted_call s i h) rfl
      · cases hstep
      · cases hstep
  | check i =>
      unfold GpuDriven.step at hstep
      dsimp only at hstep
      split at hstep
      next h _ =>
        obtain rfl := Option.some.inj hstep
        exact hquiet (uncounted_check cfg s i h) rfl
      · cases hstep
      · cases hstep
  | poll i p =>
      unfold GpuDriven.step at hstep
      dsimp only at hstep
      split at hstep
      next h hwait =>
        cases p with
        | entries batch now =>
            obtain ⟨-, hsome⟩ := Option.ite_none_right_eq_some.mp hstep
            obtain rfl := Option.some.inj hsome
            unfold measures
            dsimp only [Endpoint.answer, Endpoint.markComplete]
            rw [hwait]
            dsimp only
            cases hdesc : s.objects[h]? with
            | none =>
                dsimp only
                simpa using hs
            | some desc =>
                exact hs.push ((now - desc.tTriggered) * 1000000) desc.length
        | again =>
            obtain rfl := Option.some.inj hstep
            exact hquiet ⟨rfl, rfl, rfl⟩ rfl
        | error =>
            obtain rfl := Option.some.inj hstep
            exact hquiet ⟨rfl, rfl, rfl⟩ rfl
        | deadline =>
            obtain rfl := Option.some.inj hstep
            exact hquiet ⟨rfl, rfl, rfl⟩ rfl
      · cases hstep
      · cases hstep
  | deregister h =>
      obtain rfl := Option.some.inj hstep
      exact hquiet ⟨rfl, rfl, rfl⟩ rfl

theorem counts_exec {found : List (ℚ × Nat)} (hs : Counts s.stats found)
    (hexec : exec (step cfg) s es = some t) :
    Counts t.stats (found ++ measured cfg s es) := by
  induction es generalizing s found with
  | nil =>
      obtain rfl := Option.some.inj hexec
      simpa [measured] using hs
  | cons e es ih =>
      obtain ⟨mid, hmid, hrest⟩ := Option.bind_eq_some_iff.mp hexec
      have hfirst := ih (counts_step hs hmid) hrest
      rw [measured, hmid, Option.elim_some, ← List.append_assoc]
      exact hfirst

/-- The pool: an endpoint for each NIC, and calls that name one. -/
def newPool (ι : Type*) (nNics : Nat) : Dict Nat (Endpoint ι) :=
  (List.range nNics).foldl (fun d i => assign d i {}) ∅

def poolStep (cfg : Config) : Dict Nat (Endpoint ι) → Nat × Event ι →
    Option (Dict Nat (Endpoint ι)) :=
  MachineFamily.step (step cfg)

omit [DecidableEq ι] in
theorem lookup_newPool (nNics nic : Nat) :
    (newPool ι nNics).lookup nic = if nic < nNics then some {} else none := by
  have hlookup := lookup_foldl_assign_of (fun _ => ({} : Endpoint ι)) (List.range nNics) ∅ nic
  rw [newPool, hlookup]
  simp

/-- **Each endpoint counts its own waits.**  In every run of a pool, whatever the calls for
the other NICs and the interleaving of the threads: an endpoint has the state of the calls
for its NIC, `completions` is how many of its waits have read entries, `bytes_sent` is the
sum of their lengths, and `avg_latency_us` times the completions is the sum of their
latencies. -/
theorem pool_stats {nNics nic : Nat} {calls : List (Nat × Event ι)}
    {pool : Dict Nat (Endpoint ι)} (hnic : nic < nNics)
    (hexec : exec (poolStep cfg) (newPool ι nNics) calls = some pool) :
    ∃ endpoint, pool.lookup nic = some endpoint ∧
      exec (step cfg) {} (addressed nic calls) = some endpoint ∧
      endpoint.stats.completions = (measured cfg {} (addressed nic calls)).length ∧
      endpoint.stats.bytesSent = ((measured cfg {} (addressed nic calls)).map Prod.snd).sum ∧
      endpoint.stats.avgLatencyUs * endpoint.stats.completions =
        ((measured cfg {} (addressed nic calls)).map Prod.fst).sum := by
  have hown := exec_lookup hexec nic
  have htaken := exec_isSome_iff.mp (Option.isSome_of_mem hexec) nic {} (by
    rw [lookup_newPool, if_pos hnic])
  obtain ⟨endpoint, hendpoint⟩ := Option.isSome_iff_exists.mp htaken
  rw [lookup_newPool, if_pos hnic, Option.bind_some, hendpoint] at hown
  have hnew : Counts ({} : Endpoint ι).stats [] := ⟨means_nil _, rfl⟩
  have hcounts := counts_exec hnew hendpoint
  rw [List.nil_append] at hcounts
  refine ⟨endpoint, hown, hendpoint, ?_, hcounts.bytes, hcounts.latency.sum_eq⟩
  rw [← hcounts.latency.length_eq, List.length_map]

/-- Two NICs: a transfer of 8192 bytes on the second takes 3 s. -/
theorem pool_stats_two :
    ∃ pool : Dict Nat (Endpoint Unit), ∃ endpoint, pool.lookup 1 = some endpoint ∧
      endpoint.stats.bytesSent = 8192 ∧
      endpoint.stats.avgLatencyUs * endpoint.stats.completions = 3000000 := by
  obtain ⟨pool, hpool⟩ : ∃ pool, exec (poolStep {}) (newPool Unit 2)
      [(1, .register 0 0 8192 none), (0, .register 0 0 100 none), (1, .trigger 0 0 1),
        (1, .sendCompletes 0), (5, .deregister 0), (1, .call () 0), (1, .check ()),
        (1, .poll () (.entries {0} 4))] = some pool := ⟨_, rfl⟩
  obtain ⟨endpoint, hlookup, -, -, hbytes, hlatency⟩ :=
    pool_stats (show 1 < 2 by decide) hpool
  exact ⟨pool, endpoint, hlookup, hbytes.trans (by decide +kernel),
    hlatency.trans (by decide +kernel)⟩

end Tempo.GpuDriven
