import Mathlib.Data.Bool.Count
import Mathlib.Data.Finset.Card
import Mathlib.Data.List.Destutter
import Mathlib.Data.List.Infix
import Tempo.FfnWait

/-!
# The phases of the launched kernels

CUPTI calls back at every launch of a kernel, in the thread that launches.  The name of
the kernel is looked for in a table, ATTENTION before FFN, and a kernel of one of the two
sets the phase; the counters are of the changes, and each is added to after the exchange.

Over every interleaving the phase is that of the last kernel in the table, and the counters
are behind its changes by the threads that have not counted theirs (`launches_counted`).
-/

namespace Tempo

open Runs

/-- `kPatterns` -/
def kPatterns : List (String × GpuPhase) :=
  [("paged_attention_v1", .attention), ("paged_attention_v2", .attention),
    ("flash_fwd_kernel", .attention), ("flash_bwd_kernel", .attention),
    ("flash_fwd_splitkv_kernel", .attention), ("context_attention_fwd", .attention),
    ("token_attention_fwd", .attention), ("extend_attention_fwd", .attention),
    ("scaled_dot_product_fused", .attention), ("efficient_attention_forward", .attention),
    ("AttentionForwardFromBlockedInput", .attention), ("Attention", .attention),
    ("cutlass_gemm", .ffn), ("cutlass3x", .ffn), ("cublas", .ffn), ("ampere_bf16", .ffn),
    ("ampere_fp16", .ffn), ("sm80_xmma", .ffn), ("sm90_xmma", .ffn), ("volta_sgemm", .ffn),
    ("volta_hgemm", .ffn), ("fused_gelu_linear", .ffn), ("activation_kernel", .ffn),
    ("splitKreduce_kernel", .ffn)]

/-- `strstr(name, substr)` finds something. -/
def strstr (name substr : String) : Bool :=
  decide (substr.toList <:+: name.toList)

/-- `classify_kernel`; no name is `nullptr`. -/
def classifyKernel : Option String → GpuPhase
  | none => .unknown
  | some name =>
      if name = "" then .unknown
      else
        match kPatterns.find? fun entry => strstr name entry.1 with
        | some entry => entry.2
        | none => .other

inductive CallbackDomain
  | runtimeApi
  | other
  deriving DecidableEq

inductive CallbackSite
  | enter
  | exit
  deriving DecidableEq

/-- The runtime call that is traced. -/
inductive CallbackId
  | launchKernel
  | launchKernelExC
  | graphLaunch
  | other
  deriving DecidableEq

structure CuptiCallback where
  domain : CallbackDomain := .runtimeApi
  site : CallbackSite := .enter
  cbid : CallbackId := .launchKernel
  symbolName : Option String

/-- `cupti_callback`: the phase it sets, if any. -/
def cuptiCallback (cb : CuptiCallback) : Option GpuPhase :=
  if cb.domain ≠ .runtimeApi then none
  else if cb.site ≠ .enter then none
  else if cb.cbid ≠ .launchKernel ∧ cb.cbid ≠ .launchKernelExC ∧ cb.cbid ≠ .graphLaunch then
    none
  else
    let p := classifyKernel cb.symbolName
    if p = .attention ∨ p = .ffn then some p else none

/-- The patterns of a phase. -/
def patternsOf (p : GpuPhase) : List String :=
  (kPatterns.filter fun entry => entry.2 = p).map (·.1)

/-- The table has the patterns of ATTENTION first, and then those of FFN. -/
theorem kPatterns_eq : kPatterns =
    (patternsOf .attention).map (·, .attention) ++ (patternsOf .ffn).map (·, .ffn) := by
  decide

/-- A part of a table where every entry has one value. -/
theorem find?_const {α β : Type*} (keys : List α) (value : β) (p : α → Bool) :
    (keys.map (·, value)).find? (fun entry => p entry.1) =
      (keys.find? p).map (·, value) := by
  rw [List.find?_map]
  rfl

/-- Two values that take turns. -/
theorem count_le_of_turns {α : Type*} [DecidableEq α] {l : List α} {a b : α}
    (hchain : l.IsChain (· ≠ ·)) (hmem : ∀ x ∈ l, x = a ∨ x = b) (hne : a ≠ b) :
    l.count a ≤ l.count b + 1 := by
  have hturns : (l.map (· == a)).IsChain (· ≠ ·) := by
    refine (List.isChain_map _).mpr (hchain.imp_of_mem_imp fun x y hx hy hxy hsame => ?_)
    rcases hmem x hx with rfl | rfl <;> rcases hmem y hy with rfl | rfl <;> simp_all
  have htrue : (l.map (· == a)).count true = l.count a := by
    rw [List.count_eq_countP, List.countP_map, List.count_eq_countP]
    refine List.countP_congr fun x _ => ?_
    simp
  have hfalse : (l.map (· == a)).count false = l.count b := by
    rw [List.count_eq_countP, List.countP_map, List.count_eq_countP]
    refine List.countP_congr fun x hx => ?_
    rcases hmem x hx with rfl | rfl
    · simp [hne]
    · simp [hne.symm]
  rw [← htrue, ← hfalse]
  exact hturns.count_true_le_count_false_add_one

/-- The patterns of ATTENTION are tried before those of FFN. -/
theorem classifyKernel_eq {name : String} (hname : name ≠ "") :
    classifyKernel (some name) =
      if (patternsOf .attention).any (strstr name) then .attention
      else if (patternsOf .ffn).any (strstr name) then .ffn else .other := by
  have hany : ∀ patterns : List String,
      patterns.any (strstr name) = (patterns.find? (strstr name)).isSome := by
    intro patterns
    rw [Bool.eq_iff_iff, List.any_eq_true, List.find?_isSome]
  unfold classifyKernel
  dsimp only
  rw [if_neg hname, kPatterns_eq, List.find?_append, find?_const, find?_const, hany, hany]
  cases (patternsOf .attention).find? (strstr name) with
  | some pattern => rfl
  | none =>
      cases (patternsOf .ffn).find? (strstr name) with
      | some pattern => rfl
      | none => rfl

/-- The first match is of ATTENTION if there is one, however many of FFN there are. -/
theorem classifyKernel_attention_iff (name : String) :
    classifyKernel (some name) = .attention ↔
      ∃ pattern ∈ patternsOf .attention, strstr name pattern = true := by
  by_cases hempty : name = ""
  · subst hempty
    decide
  · rw [classifyKernel_eq hempty, ← List.any_eq_true]
    split
    next hfirst => simp [hfirst]
    next hfirst =>
        refine iff_of_false ?_ hfirst
        split <;> simp

theorem classifyKernel_ffn_iff (name : String) :
    classifyKernel (some name) = .ffn ↔
      (∃ pattern ∈ patternsOf .ffn, strstr name pattern = true) ∧
        ¬ ∃ pattern ∈ patternsOf .attention, strstr name pattern = true := by
  by_cases hempty : name = ""
  · subst hempty
    decide
  · rw [classifyKernel_eq hempty, ← List.any_eq_true, ← List.any_eq_true]
    split
    next hfirst => simp [hfirst]
    next hfirst =>
        rw [and_iff_left hfirst]
        split
        next hsecond => simp [hsecond]
        next hsecond => simp [hsecond]

theorem cuptiCallback_gates {cb : CuptiCallback} {p : GpuPhase}
    (hp : cuptiCallback cb = some p) :
    (p = .attention ∨ p = .ffn) ∧ classifyKernel cb.symbolName = p := by
  unfold cuptiCallback at hp
  split at hp
  · cases hp
  · split at hp
    · cases hp
    · split at hp
      · cases hp
      · dsimp only at hp
        split at hp
        next hgates =>
          obtain rfl := Option.some.inj hp
          exact ⟨hgates, rfl⟩
        next => cases hp

/-! ## The counters -/

/-- The counter a setter is about to add to. -/
def SetterPc.counts : SetterPc → Option GpuPhase
  | .attnCount => some .attention
  | .ffnCount => some .ffn
  | _ => none

namespace FfnMonitor

variable {ι : Type*}

def counter (s : FfnMonitor ι) : GpuPhase → UInt64
  | .attention => s.attnCount
  | .ffn => s.ffnCount
  | _ => 0

/-- The counter of `p` is behind `n` by the setters that are about to add to it. -/
def Lags (s : FfnMonitor ι) (p : GpuPhase) (n : Nat) : Prop :=
  ∃ pending : Finset ι, (∀ i, i ∈ pending ↔ (s.setters i).counts = some p) ∧
    s.counter p + UInt64.ofNat pending.card = UInt64.ofNat n

variable {s t : FfnMonitor ι} {p q : GpuPhase} {n : Nat} {i : ι}

theorem Lags.keep (h : s.Lags p n)
    (hsetters : ∀ j, (t.setters j).counts = (s.setters j).counts)
    (hcounter : t.counter p = s.counter p) : t.Lags p n := by
  obtain ⟨pending, hpending, hcount⟩ := h
  refine ⟨pending, fun j => ?_, ?_⟩
  · rw [hpending, hsetters]
  · rw [hcounter, hcount]

/-- No setter counts any more. -/
theorem Lags.eq_of_none (h : s.Lags p n) (hnone : ∀ i, (s.setters i).counts ≠ some p) :
    s.counter p = UInt64.ofNat n := by
  obtain ⟨pending, hpending, hcount⟩ := h
  have hempty : pending = ∅ := by
    refine Finset.eq_empty_of_forall_notMem fun j hj => ?_
    exact hnone j ((hpending j).mp hj)
  rw [← hcount, hempty]
  simp

variable [DecidableEq ι]

theorem counts_setSetter {pc : SetterPc} (hpc : pc.counts = (s.setters i).counts) (j : ι) :
    ((s.setSetter i pc).setters j).counts = (s.setters j).counts := by
  by_cases hj : j = i
  · rw [hj, setters_setSetter_self, hpc]
  · rw [setters_setSetter_of_ne hj]

/-- A setter has moved to `pc`. -/
theorem counts_moved {pc : SetterPc} (ht : t.setters = (s.setSetter i pc).setters) :
    (t.setters i).counts = pc.counts ∧
      ∀ j, j ≠ i → (t.setters j).counts = (s.setters j).counts := by
  rw [ht]
  exact ⟨by rw [setters_setSetter_self], fun j hj => by rw [setters_setSetter_of_ne hj]⟩

/-- A setter has changed the phase to `q`. -/
theorem Lags.start {pc : SetterPc} (h : s.Lags p n) (hidle : (s.setters i).counts = none)
    (hpc : pc.counts = some q) (ht : t.setters = (s.setSetter i pc).setters)
    (hcounter : t.counter p = s.counter p) : t.Lags p (if q = p then n + 1 else n) := by
  obtain ⟨pending, hpending, hcount⟩ := h
  obtain ⟨hi, hother⟩ := counts_moved ht
  rw [hpc] at hi
  have hout : i ∉ pending := by
    rw [hpending, hidle]
    simp
  by_cases hq : q = p
  · subst hq
    refine ⟨insert i pending, fun j => ?_, ?_⟩
    · by_cases hj : j = i
      · subst hj
        simp [hi]
      · rw [Finset.mem_insert, or_iff_right hj, hpending, hother j hj]
    · rw [Finset.card_insert_of_notMem hout, hcounter, if_pos rfl, UInt64.ofNat_add,
        UInt64.ofNat_add, ← UInt64.add_assoc, hcount]
  · refine ⟨pending, fun j => ?_, ?_⟩
    · by_cases hj : j = i
      · subst hj
        simp [hi, hq, hout]
      · rw [hpending, hother j hj]
    · rw [hcounter, hcount, if_neg hq]

/-- A setter counts its change. -/
theorem Lags.count {pc : SetterPc} (h : s.Lags p n) (hi : (s.setters i).counts = some q)
    (hpc : pc.counts = none) (ht : t.setters = (s.setSetter i pc).setters)
    (hcounter : t.counter p = if q = p then s.counter p + 1 else s.counter p) : t.Lags p n := by
  obtain ⟨pending, hpending, hcount⟩ := h
  obtain ⟨hdone, hother⟩ := counts_moved ht
  rw [hpc] at hdone
  by_cases hq : q = p
  · subst hq
    have hin : i ∈ pending := (hpending i).mpr hi
    refine ⟨pending.erase i, fun j => ?_, ?_⟩
    · by_cases hj : j = i
      · subst hj
        simp [hdone]
      · rw [Finset.mem_erase, and_iff_right hj, hpending, hother j hj]
    · have hcard : pending.card = 1 + (pending.erase i).card := by
        rw [Finset.card_erase_of_mem hin]
        have hpos := Finset.card_pos.mpr ⟨i, hin⟩
        omega
      rw [hcard, UInt64.ofNat_add, ← UInt64.add_assoc] at hcount
      rw [hcounter, if_pos rfl]
      exact hcount
  · have hout : i ∉ pending := by
      rw [hpending, hi]
      simpa using hq
    refine ⟨pending, fun j => ?_, ?_⟩
    · by_cases hj : j = i
      · subst hj
        simp [hdone, hout]
      · rw [hpending, hother j hj]
    · rw [hcounter, if_neg hq, hcount]

/-- The exchange: it starts a count where the phase changes. -/
theorem Lags.setPhase (hp : p = .attention ∨ p = .ffn) (hq : q = .attention ∨ q = .ffn)
    (h : s.Lags p n) (hstep : s.step (.setPhase i q) = some t) :
    t.phase = q ∧ t.Lags p (if s.phase ≠ q ∧ q = p then n + 1 else n) := by
  unfold FfnMonitor.step at hstep
  dsimp only at hstep
  split at hstep
  next hidle =>
    split at hstep
    next hsame =>
      obtain rfl := Option.some.inj hstep
      refine ⟨hsame, ?_⟩
      rwa [if_neg fun hne => hne.1 hsame]
    next hchange =>
      have hnone : (s.setters i).counts = none := by
        rw [hidle]
        rfl
      have hchange' : (s.phase ≠ q ∧ q = p) ↔ q = p := and_iff_right hchange
      simp only [hchange']
      rcases hq with rfl | rfl
      all_goals
        obtain rfl := Option.some.inj hstep
        refine ⟨rfl, h.start hnone rfl rfl ?_⟩
        rcases hp with rfl | rfl <;> rfl
  next => cases hstep

omit [DecidableEq ι] in
theorem counter_notifyAll : s.notifyAll.counter p = s.counter p := by
  unfold notifyAll
  split
  · cases p <;> rfl
  · rfl

omit [DecidableEq ι] in
/-- What the waiter does has no part in the counts. -/
theorem waiterStep_frame {pc : WaiterPc} (hstep : s.waiterStep pc = some t) :
    t = { s with waiter := t.waiter, owner := t.owner, returned := t.returned } := by
  cases pc <;> grind [waiterStep]

omit [DecidableEq ι] in
/-- Where only the waiter, the mutex and what was returned may differ. -/
theorem Lags.frame (h : s.Lags p n)
    (ht : t = { s with waiter := t.waiter, owner := t.owner, returned := t.returned }) :
    t.phase = s.phase ∧ t.Lags p n := by
  rw [ht]
  exact ⟨rfl, h.keep (fun _ => rfl) (by cases p <;> rfl)⟩

/-- Every other statement: none changes the phase, and the counters go up by what was
pending. -/
theorem Lags.other {e : Event ι} (he : ∀ j q, e ≠ .setPhase j q) (h : s.Lags p n)
    (hstep : s.step e = some t) : t.phase = s.phase ∧ t.Lags p n := by
  cases e with
  | setPhase j q => exact absurd rfl (he j q)
  | setter j =>
      have hmove : s.setterStep j (s.setters j) = some t := hstep
      cases hpc : s.setters j with
      | idle =>
          rw [hpc] at hmove
          cases hmove
      | attnCount =>
          rw [hpc] at hmove
          obtain rfl := Option.some.inj hmove
          refine ⟨rfl, h.count (i := j) (by rw [hpc]; rfl) rfl rfl ?_⟩
          cases p <;> rfl
      | ffnCount =>
          rw [hpc] at hmove
          obtain rfl := Option.some.inj hmove
          refine ⟨rfl, h.count (i := j) (by rw [hpc]; rfl) rfl rfl ?_⟩
          cases p <;> rfl
      | lock =>
          rw [hpc] at hmove
          unfold setterStep at hmove
          dsimp only at hmove
          split at hmove
          · obtain rfl := Option.some.inj hmove
            exact ⟨rfl, h.keep (counts_setSetter (by rw [hpc]; rfl)) (by cases p <;> rfl)⟩
          · cases hmove
      | notify =>
          rw [hpc] at hmove
          obtain rfl := Option.some.inj hmove
          obtain ⟨hphase, -, hsetters, -, -⟩ := notifyAll_frame (s := s)
          have hsame : SetterPc.unlock.counts = (s.notifyAll.setters j).counts := by
            rw [hsetters, hpc]
            rfl
          refine ⟨hphase, h.keep (fun k => ?_) ?_⟩
          · exact (counts_setSetter hsame k).trans (by rw [hsetters])
          · exact Eq.trans (by cases p <;> rfl) counter_notifyAll
      | unlock =>
          rw [hpc] at hmove
          obtain rfl := Option.some.inj hmove
          exact ⟨rfl, h.keep (counts_setSetter (by rw [hpc]; rfl)) (by cases p <;> rfl)⟩
  | wait => exact h.frame (by grind [FfnMonitor.step])
  | waiter => exact h.frame (waiterStep_frame hstep)
  | wake timedOut => exact h.frame (by grind [FfnMonitor.step])

end FfnMonitor

/-! ## The launches -/

/-- The monitor under the callbacks.  `launched` is history: the callbacks, the last one
first. -/
structure KernelMonitor (ι : Type*) where
  monitor : FfnMonitor ι := {}
  launched : List CuptiCallback := []

inductive KernelEvent (ι : Type*)
  /-- the callback in thread `i`, up to its exchange -/
  | callback (i : ι) (cb : CuptiCallback)
  /-- the next statement of `_set_phase` in thread `i` -/
  | setter (i : ι)
  | wait
  | waiter
  | wake (timedOut : Bool)

namespace KernelMonitor

variable {ι : Type*}

/-- The phases that the callbacks set, the last one first. -/
def phases (s : KernelMonitor ι) : List GpuPhase :=
  s.launched.filterMap cuptiCallback

/-- The changes of the phase. -/
def changes (s : KernelMonitor ι) : List GpuPhase :=
  s.phases.destutter (· ≠ ·)

variable [DecidableEq ι]

/-- The monitor takes a step of its own. -/
def monitorStep (s : KernelMonitor ι) (e : FfnMonitor.Event ι) : Option (KernelMonitor ι) :=
  (s.monitor.step e).map fun monitor => { s with monitor }

def step (s : KernelMonitor ι) : KernelEvent ι → Option (KernelMonitor ι)
  | .callback i cb =>
      -- a thread that is in a callback launches nothing
      if s.monitor.setters i = .idle then
        let s' := { s with launched := cb :: s.launched }
        match cuptiCallback cb with
        | some p => s'.monitorStep (.setPhase i p)
        | none => some s'
      else none
  | .setter i => s.monitorStep (.setter i)
  | .wait => s.monitorStep .wait
  | .waiter => s.monitorStep .waiter
  | .wake timedOut => s.monitorStep (.wake timedOut)

/-- The phase is the last one set, and the counters lag behind its changes. -/
structure Tallied (s : KernelMonitor ι) : Prop where
  phase : s.monitor.phase = s.phases.head?.getD .unknown
  lags : ∀ p, p = .attention ∨ p = .ffn → s.monitor.Lags p (s.changes.count p)

variable {s t : KernelMonitor ι} {p q : GpuPhase}

omit [DecidableEq ι] in
theorem mem_phases (hp : p ∈ s.phases) : p = .attention ∨ p = .ffn := by
  obtain ⟨cb, -, hcb⟩ := List.mem_filterMap.mp hp
  exact (cuptiCallback_gates hcb).1

/-- A phase is a change where it is not the one before. -/
theorem count_destutter_cons (l : List GpuPhase) (hq : q = .attention ∨ q = .ffn) :
    ((q :: l).destutter (· ≠ ·)).count p =
      if l.head?.getD .unknown ≠ q ∧ q = p then (l.destutter (· ≠ ·)).count p + 1
      else (l.destutter (· ≠ ·)).count p := by
  cases l with
  | nil =>
      have hne : GpuPhase.unknown ≠ q := by
        rcases hq with rfl | rfl <;> decide
      by_cases hp : q = p
      · subst hp
        simp [hne]
      · simp [hp]
  | cons r l =>
      by_cases hr : q = r
      · subst hr
        rw [List.destutter_cons_cons, if_neg (not_not.mpr rfl), List.destutter_cons',
          if_neg fun hne => hne.1 rfl]
      · have hrq : (r :: l).head?.getD .unknown ≠ q := Ne.symm hr
        rw [List.destutter_cons_cons, if_pos hr, List.count_cons, List.destutter_cons']
        by_cases hp : q = p
        · rw [if_pos (beq_iff_eq.mpr hp), if_pos ⟨hrq, hp⟩]
        · rw [if_neg (mt beq_iff_eq.mp hp), if_neg fun h => hp h.2, Nat.add_zero]

theorem Tallied.monitorStep (hs : s.Tallied) {e : FfnMonitor.Event ι}
    (he : ∀ j q, e ≠ .setPhase j q) (hstep : s.monitorStep e = some t) : t.Tallied := by
  obtain ⟨m, hm, rfl⟩ := Option.map_eq_some_iff.mp hstep
  have hframe := fun p hp => (hs.lags p hp).other he hm
  refine ⟨?_, fun p hp => (hframe p hp).2⟩
  exact (hframe .ffn (.inr rfl)).1.trans hs.phase

theorem Tallied.callback (hs : s.Tallied) {i : ι} {cb : CuptiCallback}
    (hstep : s.step (.callback i cb) = some t) : t.Tallied := by
  unfold step at hstep
  dsimp only at hstep
  split at hstep
  next hidle =>
    split at hstep
    next q hq =>
      obtain ⟨m, hm, rfl⟩ := Option.map_eq_some_iff.mp hstep
      have hgate := (cuptiCallback_gates hq).1
      have hmoved := fun p hp => (hs.lags p hp).setPhase hp hgate hm
      have hphases : KernelMonitor.phases { s with monitor := m, launched := cb :: s.launched } =
          q :: s.phases := by
        unfold phases
        rw [List.filterMap_cons, hq]
      refine ⟨?_, fun p hp => ?_⟩
      · rw [hphases]
        exact (hmoved .ffn (.inr rfl)).1
      · unfold changes
        rw [hphases, count_destutter_cons _ hgate, ← hs.phase]
        exact (hmoved p hp).2
    next hnone =>
      obtain rfl := Option.some.inj hstep
      have hphases : KernelMonitor.phases { s with launched := cb :: s.launched } =
          s.phases := by
        unfold phases
        rw [List.filterMap_cons, hnone]
      refine ⟨?_, fun p hp => ?_⟩
      · rw [hphases]
        exact hs.phase
      · unfold changes
        rw [hphases]
        exact hs.lags p hp
  next => cases hstep

/-- A callback that sets the phase. -/
def sets (cb : CuptiCallback) : Bool := (cuptiCallback cb).isSome

/-- Some pattern of `p` is in the name. -/
def Named (p : GpuPhase) (cb : CuptiCallback) : Prop :=
  ∃ name, cb.symbolName = some name ∧ ∃ pattern ∈ patternsOf p, strstr name pattern = true

omit [DecidableEq ι] in
/-- The last phase that was set is that of the last callback that sets one. -/
theorem head?_phases : s.phases.head? = (s.launched.find? sets).bind cuptiCallback := by
  unfold phases
  induction s.launched with
  | nil => rfl
  | cons cb l ih =>
      have hsets : sets cb = (cuptiCallback cb).isSome := rfl
      rw [List.filterMap_cons, List.find?_cons, hsets]
      cases hcb : cuptiCallback cb with
      | none => exact ih
      | some p => simp [hcb]

omit [DecidableEq ι] in
theorem attention_iff (hs : s.monitor.phase = s.phases.head?.getD .unknown) :
    s.monitor.phase = .attention ↔
      ∃ cb, s.launched.find? sets = some cb ∧ Named .attention cb := by
  rw [hs, head?_phases]
  cases hfind : s.launched.find? sets with
  | none => simp
  | some cb =>
      have hsets := List.find?_some hfind
      obtain ⟨p, hp⟩ := Option.isSome_iff_exists.mp hsets
      obtain ⟨-, hclass⟩ := cuptiCallback_gates hp
      have hnamed : p = .attention ↔ Named .attention cb := by
        unfold Named
        cases hname : cb.symbolName with
        | none =>
            rw [hname] at hclass
            simp [← hclass, classifyKernel]
        | some name =>
            rw [hname] at hclass
            rw [← hclass, classifyKernel_attention_iff]
            simp
      rw [Option.bind_some, hp, Option.getD_some, hnamed]
      simp

/-- **The phase is that of the last kernel in the table, and no change is missed or counted
twice.**  In every interleaving of callbacks with `_set_phase` and `wait_for_ffn`: the
phase is ATTENTION exactly if the last kernel that sets one has a pattern of ATTENTION in
its name, whatever else is in it; each counter is behind the changes to its phase by the
threads that have not counted theirs; and the changes to the two phases take turns. -/
theorem launches_counted (hreach : Reachable step ({} : KernelMonitor ι) s) :
    (s.monitor.phase = .attention ↔
        ∃ cb, s.launched.find? sets = some cb ∧ Named .attention cb) ∧
      (s.monitor.phase = .unknown ↔ s.phases = []) ∧
      s.monitor.Lags .attention (s.changes.count .attention) ∧
      s.monitor.Lags .ffn (s.changes.count .ffn) ∧
      s.changes.count .attention ≤ s.changes.count .ffn + 1 ∧
      s.changes.count .ffn ≤ s.changes.count .attention + 1 := by
  have hs : s.Tallied := by
    refine hreach.invariant ⟨rfl, ?_⟩ fun s e t hs _ hstep => ?_
    · rintro p (rfl | rfl)
      · exact ⟨∅, fun i => by simp [SetterPc.counts], rfl⟩
      · exact ⟨∅, fun i => by simp [SetterPc.counts], rfl⟩
    · cases e with
      | callback i cb => exact hs.callback hstep
      | setter i => exact hs.monitorStep (by simp) hstep
      | wait => exact hs.monitorStep (by simp) hstep
      | waiter => exact hs.monitorStep (by simp) hstep
      | wake timedOut => exact hs.monitorStep (by simp) hstep
  have hchain : s.changes.IsChain (· ≠ ·) := List.isChain_destutter _ _
  have hmem : ∀ p ∈ s.changes, p = .attention ∨ p = .ffn := fun p hp =>
    mem_phases ((List.destutter_sublist _ _).mem hp)
  refine ⟨attention_iff hs.phase, ?_, hs.lags _ (.inl rfl), hs.lags _ (.inr rfl),
    count_le_of_turns hchain hmem (by decide),
    count_le_of_turns hchain (fun p hp => (hmem p hp).symm) (by decide)⟩
  rw [hs.phase]
  constructor
  · intro hunknown
    cases hphases : s.phases with
    | nil => rfl
    | cons p l =>
        rw [hphases] at hunknown
        have hgate := mem_phases (s := s) (p := p) (hphases ▸ List.mem_cons_self)
        have hp : p = .unknown := hunknown
        rcases hgate with rfl | rfl <;> cases hp
  · intro hphases
    rw [hphases]
    rfl

/-- Two threads launch, and both of them have yet to count. -/
theorem launches_counted_two :
    ∃ s : KernelMonitor Bool, s.monitor.attnCount = 0 ∧ s.phases = [.ffn, .attention] ∧
      s.monitor.Lags .attention (s.changes.count .attention) := by
  obtain ⟨s, hreach, hattn, hphases⟩ : ∃ s, Reachable step ({} : KernelMonitor Bool) s ∧
      s.monitor.attnCount = 0 ∧ s.phases = [.ffn, .attention] :=
    Reachable.exists_of_exec
      [.callback true { symbolName := some "flash_fwd_kernel<cutlass_gemm>" },
        .callback false { symbolName := some "cublasSgemm", cbid := .graphLaunch }]
      (by decide +kernel)
  exact ⟨s, hattn, hphases, (launches_counted hreach).2.2.1⟩

end KernelMonitor

end Tempo
