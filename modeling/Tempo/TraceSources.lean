import Mathlib.Algebra.Order.BigOperators.Group.Finset
import Mathlib.Data.List.Sort
import Tempo.TraceCsv

/-!
# The sources of a trace

Besides BurstGPT files a trace comes from ShareGPT files, which have no times, or is drawn
from the distributions of BurstGPT.  The JSON document is given as a value, and so are the
numbers that are drawn.

Whatever the source, what `load` returns starts no earlier than zero and has tokens in
every request.  It is sorted unless an arrival time is `nan`, and the times between its
requests add up to its length if all are finite (`loaded_sorted`).
-/

namespace Tempo

open Csv (Text)

/-- A JSON document that Python has read. -/
inductive Json
  | null
  | bool (b : Bool)
  | num (x : PyFloat)
  | str (s : String)
  | arr (items : List Json)
  | obj (fields : List (String × Json))

inductive SourceError
  | trace (e : TraceError)
  | attributeError
  | typeError
  | keyError (key : String)
  | indexError
  deriving DecidableEq

namespace Json

/-- Of several fields with one name the last counts. -/
def get (fields : List (String × Json)) (key : String) : Option Json :=
  (fields.reverse.find? fun entry => entry.1 = key).map (·.2)

/-- What a loop goes through. -/
def items : Json → Except SourceError (List Json)
  | .arr items => .ok items
  | .obj fields => .ok (fields.map fun entry => .str entry.1)
  | .str s => .ok (s.toList.map fun c => .str (String.singleton c))
  | .null | .bool _ | .num _ => .error .typeError

/-- `entry.get("conversations", [])` -/
def conversations : Json → Except SourceError Json
  | .obj fields => .ok ((get fields "conversations").getD (.arr []))
  | _ => .error .attributeError

/-- `len(c["value"].split()) * 1.3`; `words` is the number of words of a text. -/
def tokens (words : String → Nat) (fields : List (String × Json)) : Except SourceError ℚ :=
  match get fields "value" with
  | some (.str value) => .ok (words value * (13 / 10))
  | some _ => .error .attributeError
  | none => .error (.keyError "value")

/-- `human_toks` or `gpt_toks` -/
def tokensOf (words : String → Nat) (role : String) : List Json → Except SourceError ℚ
  | [] => .ok 0
  | .obj fields :: rest =>
      match get fields "from" with
      | some (.str sender) =>
          if sender = role then
            (tokens words fields).bind fun count =>
              (tokensOf words role rest).map (count + ·)
          else tokensOf words role rest
      | _ => tokensOf words role rest
  | _ :: _ => .error .attributeError

end Json

/-- The numbers that NumPy draws, in the order of the draws, and its powers. -/
structure TraceRng where
  exponential : Nat → ℚ
  uniform : Nat → ℚ
  lognormalInput : Nat → ℚ
  lognormalOutput : Nat → ℚ
  pow : ℚ → ℚ → ℚ

/-- What is documented of the draws and powers. -/
structure TraceRng.Sound (rng : TraceRng) : Prop where
  exponential : ∀ k, 0 ≤ rng.exponential k
  pow : ∀ x y, 0 < x → 0 < rng.pow x y

namespace TraceLoader

/-- The loop of `_load_sharegpt`; `loaded` is `len(reqs)`. -/
def sharegptLoop (words : String → Nat) (rng : TraceRng) (nRequests : Int) :
    List Json → Nat → ℚ → Except SourceError (List Request)
  | [], _, _ => .ok []
  | entry :: rest, loaded, cumArrival =>
      if nRequests ≤ loaded then .ok []
      else do
        let convs ← (← entry.conversations).items
        let humanToks ← Json.tokensOf words "human" convs
        let gptToks ← Json.tokensOf words "gpt" convs
        let arrival := cumArrival + rng.exponential loaded
        let reqs ← sharegptLoop words rng nRequests rest (loaded + 1) arrival
        let r : Request :=
          { requestId := loaded
            arrivalS := arrival
            inputTokens := max 1 (truncate humanToks)
            outputTokens := max 1 (truncate gptToks)
            model := some "llama" }
        .ok (r :: reqs)

/-- `_load_sharegpt` of a file with this suffix and document. -/
def loadSharegpt (words : String → Nat) (rng : TraceRng) (suffix : String) (data : Json)
    (nRequests : Int) : Except SourceError (List Request) :=
  if suffix = ".json" then
    data.items.bind fun entries => sharegptLoop words rng nRequests entries 0 0
  else
    .error (.trace (.valueError ("Unsupported ShareGPT file format: " ++ suffix ++
      ". Expected .json")))

/-- `_BURSTGPT_GPT35` and `_BURSTGPT_GPT4`, as far as they are used with given draws. -/
structure ParetoParams where
  alpha : ℚ
  xMin : ℚ
  pos : 0 < xMin

theorem gpt35_xMin_pos : (0 : ℚ) < 4 / 100 := by norm_num

def burstgptGpt35 : ParetoParams where
  alpha := 12 / 10
  xMin := 4 / 100
  pos := gpt35_xMin_pos

theorem gpt4_xMin_pos : (0 : ℚ) < 12 / 100 := by norm_num

def burstgptGpt4 : ParetoParams where
  alpha := 14 / 10
  xMin := 12 / 100
  pos := gpt4_xMin_pos

/-- `np.clip(u, 1e-9, 1 - 1e-9)` -/
def clip (u : ℚ) : ℚ :=
  min (max u (1 / 10 ^ 9)) (1 - 1 / 10 ^ 9)

def iat (params : ParetoParams) (rng : TraceRng) (i : Nat) : ℚ :=
  params.xMin / rng.pow (clip (rng.uniform i)) (1 / params.alpha)

/-- `_synthesise`; of no requests there is no last arrival to report. -/
def synthesise (py : PyText) (rng : TraceRng) (model : Text) (nRequests : Int) :
    Except SourceError (List Request) :=
  let params := if isIn "gpt-4".toList (py.lower model) then burstgptGpt4 else burstgptGpt35
  if nRequests < 0 then .error (.trace (.valueError "negative dimensions are not allowed"))
  else if nRequests = 0 then .error .indexError
  else
    .ok <| (List.range nRequests.toNat).map fun i : Nat =>
      { requestId := i
        arrivalS := ∑ j ∈ Finset.range (i + 1), iat params rng j
        inputTokens := max 1 (truncate (rng.lognormalInput i))
        outputTokens := max 1 (truncate (rng.lognormalOutput i))
        model := some "synthetic-gpt-3.5" }

/-- What a loader reads. -/
structure TraceInput where
  path : String
  text : Text
  suffix : String
  data : Json
  model : Text

/-- The requests of the source. -/
def fetchFrom (py : PyText) (words : String → Nat) (rng : TraceRng) (input : TraceInput)
    (l : FloatLoader) (nRequests : Int) (startS : ℚ) :
    Except SourceError (List FloatRequest) :=
  if l.synthetic then
    (synthesise py rng input.model nRequests).map (List.map RequestAt.toFloat)
  else if l.traceType = "burstgpt" then
    (loadBurstgpt py input.path input.text nRequests startS).mapError .trace
  else if l.traceType = "sharegpt" then
    (loadSharegpt words rng input.suffix input.data nRequests).map
      (List.map RequestAt.toFloat)
  else .error (.trace (.valueError ("Unknown trace_type: " ++ py.reprText l.traceType)))

/-- `load` from the sources themselves. -/
def loadFrom (py : PyText) (words : String → Nat) (rng : TraceRng) (input : TraceInput)
    (l : FloatLoader) (nRequests : Int) (startS : ℚ) :
    Except SourceError (List FloatRequest) × FloatLoader :=
  match fetchFrom py words rng input l nRequests startS with
  | .error e => (.error e, l)
  | .ok requests =>
      let l := { l with requests := py.sort requests }
      match checkStatistics l with
      | .error e => (.error (.trace e), l)
      | .ok _ => (.ok l.requests, l)

/-- A request does not arrive before zero and is not without tokens. -/
def Sound (r : FloatRequest) : Prop :=
  ¬ r.arrivalS < 0 ∧ 1 ≤ r.inputTokens ∧ 1 ≤ r.outputTokens

theorem sound_toFloat {r : Request} (harrival : 0 ≤ r.arrivalS) (hinput : 1 ≤ r.inputTokens)
    (houtput : 1 ≤ r.outputTokens) : Sound r.toFloat :=
  ⟨fun hlt => absurd (PyFloat.finite_lt_iff.mp hlt) (not_lt.mpr harrival), hinput, houtput⟩

variable {words : String → Nat} {rng : TraceRng} {nRequests : Int} {requests : List Request}

theorem sharegptLoop_ok (hrng : rng.Sound) {entries : List Json} {loaded : Nat}
    {cumArrival : ℚ} (hcum : 0 ≤ cumArrival)
    (h : sharegptLoop words rng nRequests entries loaded cumArrival = .ok requests) :
    (requests ≠ [] → (loaded + requests.length : Int) ≤ nRequests) ∧
      ∀ r ∈ requests, Sound r.toFloat := by
  induction entries generalizing requests loaded cumArrival with
  | nil =>
      obtain rfl := Except.ok.inj h
      exact ⟨fun hne => absurd rfl hne, fun _ hnone => by cases hnone⟩
  | cons entry rest ih =>
      unfold sharegptLoop at h
      split at h
      next =>
        obtain rfl := Except.ok.inj h
        exact ⟨fun hne => absurd rfl hne, fun _ hnone => by cases hnone⟩
      next hroom =>
        obtain ⟨_, -, h⟩ := exists_of_bind_eq_ok h
        obtain ⟨convs, -, h⟩ := exists_of_bind_eq_ok h
        obtain ⟨humanToks, -, h⟩ := exists_of_bind_eq_ok h
        obtain ⟨gptToks, -, h⟩ := exists_of_bind_eq_ok h
        obtain ⟨reqs, hrest, h⟩ := exists_of_bind_eq_ok h
        obtain rfl := Except.ok.inj h
        have harrival : 0 ≤ cumArrival + rng.exponential loaded :=
          add_nonneg hcum (hrng.exponential loaded)
        obtain ⟨hlength, hreqs⟩ := ih harrival hrest
        refine ⟨fun _ => ?_, fun r hr => ?_⟩
        · rcases reqs with - | ⟨first, reqs⟩
          · simp only [List.length_singleton]
            omega
          · have hmore := hlength (List.cons_ne_nil _ _)
            simp only [List.length_cons, Nat.cast_add, Nat.cast_one] at hmore ⊢
            omega
        · rcases List.mem_cons.mp hr with rfl | hr
          · exact sound_toFloat harrival (le_max_left 1 _) (le_max_left 1 _)
          · exact hreqs r hr

theorem iat_pos (hrng : rng.Sound) (params : ParetoParams) (i : Nat) :
    0 < iat params rng i := by
  refine div_pos params.pos (hrng.pow _ _ ?_)
  unfold clip
  exact lt_min (lt_max_of_lt_right (by norm_num)) (by norm_num)

theorem synthesise_ok {py : PyText} {model : Text} (hrng : rng.Sound)
    (h : synthesise py rng model nRequests = .ok requests) :
    (requests.length : Int) = nRequests ∧ ∀ r ∈ requests, Sound r.toFloat := by
  unfold synthesise at h
  dsimp only at h
  split at h
  · cases h
  · split at h
    · cases h
    next hneg hzero =>
      obtain rfl := Except.ok.inj h
      refine ⟨by rw [List.length_map, List.length_range]; omega, fun r hr => ?_⟩
      obtain ⟨i, -, rfl⟩ := List.mem_map.mp hr
      exact sound_toFloat (Finset.sum_nonneg fun j _ => (iat_pos hrng _ j).le)
        (le_max_left 1 _) (le_max_left 1 _)

theorem exists_of_map_eq_ok {ε α β : Type} {x : Except ε α} {f : α → β} {b : β}
    (h : x.map f = .ok b) : ∃ a, x = .ok a ∧ f a = b := by
  cases x with
  | error e => cases h
  | ok a => exact ⟨a, rfl, Except.ok.inj h⟩

/-- Of every source: no more requests than asked for, and sound ones. -/
theorem fetchFrom_ok {py : PyText} {input : TraceInput} {l : FloatLoader} {startS : ℚ}
    {requests : List FloatRequest} (hrng : rng.Sound)
    (h : fetchFrom py words rng input l nRequests startS = .ok requests) :
    (requests ≠ [] → (requests.length : Int) ≤ nRequests) ∧ ∀ r ∈ requests, Sound r := by
  unfold fetchFrom at h
  split at h
  · obtain ⟨drawn, hdrawn, rfl⟩ := exists_of_map_eq_ok h
    obtain ⟨hlength, hsound⟩ := synthesise_ok hrng hdrawn
    rw [List.length_map, List.forall_mem_map]
    exact ⟨fun _ => hlength.le, hsound⟩
  · split at h
    · cases hload : loadBurstgpt py input.path input.text nRequests startS with
      | error e =>
          rw [hload] at h
          cases h
      | ok loaded =>
          rw [hload] at h
          obtain rfl := Except.ok.inj h
          obtain ⟨-, hlength, hsound⟩ := loadBurstgpt_ok py nRequests startS hload
          exact ⟨fun _ => hlength, hsound⟩
    · split at h
      · obtain ⟨read, hread, rfl⟩ := exists_of_map_eq_ok h
        unfold loadSharegpt at hread
        split at hread
        · obtain ⟨entries, -, hloop⟩ := exists_of_bind_eq_ok hread
          obtain ⟨hlength, hsound⟩ := sharegptLoop_ok hrng le_rfl hloop
          rw [List.length_map, List.forall_mem_map]
          exact ⟨fun hne => by simpa using hlength (by simpa using hne), hsound⟩
        · cases hread
      · cases h

/-! ## What comes out of `load` -/

open TraceLoaderAt

theorem interArrivalTimes_sum (l : TraceLoader) :
    l.interArrivalTimes.sum = l.arrivalTimes.getLastD 0 - l.arrivalTimes.headD 0 := by
  unfold interArrivalTimes
  induction l.arrivalTimes with
  | nil => simp
  | cons a times ih =>
      cases times with
      | nil => simp
      | cons b times =>
          rw [List.tail_cons] at ih ⊢
          rw [List.zipWith_cons_cons, List.sum_cons, ih]
          simp

theorem interArrivalTimes_nonneg {l : TraceLoader}
    (hsorted : l.arrivalTimes.Pairwise (· ≤ ·)) : ∀ gap ∈ l.interArrivalTimes, 0 ≤ gap := by
  unfold interArrivalTimes
  generalize l.arrivalTimes = times at hsorted ⊢
  induction times with
  | nil => simp
  | cons a times ih =>
      cases times with
      | nil => simp
      | cons b times =>
          obtain ⟨hfirst, hrest⟩ := List.pairwise_cons.mp hsorted
          intro gap hgap
          rw [List.tail_cons, List.zipWith_cons_cons] at hgap
          rcases List.mem_cons.mp hgap with rfl | hgap
          · exact sub_nonneg.mpr (hfirst b List.mem_cons_self)
          · exact ih hrest gap hgap

/-- Numbers come in their order, as long as all are numbers. -/
theorem pairwise_sort (py : PyText) {requests : List FloatRequest}
    (hnumbers : ∀ r ∈ requests, r.arrivalS ≠ .nan) :
    (py.sort requests).Pairwise fun a b => ¬ b.arrivalS < a.arrivalS := by
  have htrans : ∀ a b c : FloatRequest,
      decide (a.arrivalS.order ≤ b.arrivalS.order) = true →
      decide (b.arrivalS.order ≤ c.arrivalS.order) = true →
      decide (a.arrivalS.order ≤ c.arrivalS.order) = true :=
    fun a b c hab hbc => decide_eq_true ((of_decide_eq_true hab).trans (of_decide_eq_true hbc))
  have htotal : ∀ a b : FloatRequest, (decide (a.arrivalS.order ≤ b.arrivalS.order) ||
      decide (b.arrivalS.order ≤ a.arrivalS.order)) = true := by
    intro a b
    simpa using le_total a.arrivalS.order b.arrivalS.order
  rw [py.sort_ordered requests hnumbers]
  refine (List.pairwise_mergeSort htrans htotal requests).imp fun hab hlt => ?_
  exact absurd hlt.2.2 (not_lt.mpr (of_decide_eq_true hab))

/-- Finite requests are those of a trace. -/
theorem exists_floats {l : FloatLoader}
    (hfinite : ∀ r ∈ l.requests, ∃ q, r.arrivalS = .finite q) :
    ∃ t : TraceLoader, l = t.floats := by
  obtain ⟨requests, hrequests⟩ : ∃ requests : List Request,
      l.requests = requests.map RequestAt.toFloat := by
    generalize l.requests = requests at hfinite
    induction requests with
    | nil => exact ⟨[], rfl⟩
    | cons r rest ih =>
        rw [List.forall_mem_cons] at hfinite
        obtain ⟨⟨q, hq⟩, hrest⟩ := hfinite
        obtain ⟨requests, rfl⟩ := ih hrest
        refine ⟨{ r with arrivalS := q } :: requests, ?_⟩
        rw [List.map_cons]
        congr 1
        cases r
        cases hq
        rfl
  refine ⟨{ traceType := l.traceType, requests, synthetic := l.synthetic }, ?_⟩
  cases l
  cases hrequests
  rfl

/-- A trace without an end has a request that never arrives. -/
theorem exists_infinite {l : FloatLoader} (hsound : ∀ r ∈ l.requests, Sound r)
    (hduration : l.duration = .infinite false) :
    ∃ r ∈ l.requests, r.arrivalS = .infinite false := by
  unfold duration at hduration
  split at hduration
  next hmany =>
    have hne : l.requests ≠ [] := List.ne_nil_of_length_pos (by omega)
    have hfirst := (hsound _ (List.head_mem hne)).1
    unfold arrivalTimes at hduration
    rw [List.getLastD_eq_getLast?, List.getLast?_map, List.getLast?_eq_some_getLast hne,
      List.headD_eq_head?_getD, List.head?_map, List.head?_eq_some_head hne] at hduration
    refine ⟨_, List.getLast_mem hne, ?_⟩
    change (l.requests.getLast hne).arrivalS - (l.requests.head hne).arrivalS = _ at hduration
    exact PyFloat.eq_infinite_of_sub hfirst hduration
  next => cases hduration

/-- What `statistics` raises of requests that are sound. -/
theorem checkStatistics_error {l : FloatLoader} {e : TraceError}
    (hsound : ∀ r ∈ l.requests, Sound r) (h : checkStatistics l = .error e) :
    l.requests = [] ∨ ∃ r ∈ l.requests, r.arrivalS = .infinite false := by
  unfold checkStatistics at h
  split at h
  next hempty => exact .inl hempty
  next =>
    split at h
    next hpos =>
      refine .inr (exists_infinite hsound ?_)
      cases hduration : l.duration with
      | finite q =>
          rw [hduration] at h
          cases h
      | infinite negative =>
          cases negative with
          | false => rfl
          | true =>
              rw [hduration] at hpos
              exact absurd hpos (by decide)
      | nan =>
          rw [hduration] at hpos
          exact absurd hpos (by decide)
    next => cases h

/-- **Every trace that is loaded is sound, whatever its source.**  For every file, document
and draw: if `load` returns, the loader has at least one request and no more than asked for,
none of them before zero and each with tokens; unless an arrival time is `nan` they come in
the order of their arrivals, and if all are finite the times between them are not negative
and add up to the length of the trace.  If it raises, the loader has the requests of before,
or none, or one that never arrives. -/
theorem loaded_sorted (py : PyText) (words : String → Nat) (rng : TraceRng)
    (hrng : rng.Sound) (input : TraceInput) (l : FloatLoader) (nRequests : Int) (startS : ℚ) :
    (∀ e l', loadFrom py words rng input l nRequests startS = (.error e, l') →
        l'.requests = l.requests ∨ l'.requests = [] ∨
          ∃ r ∈ l'.requests, r.arrivalS = .infinite false) ∧
      ∀ requests l', loadFrom py words rng input l nRequests startS = (.ok requests, l') →
        l'.requests = requests ∧ requests ≠ [] ∧ (requests.length : Int) ≤ nRequests ∧
          (∀ r ∈ requests,
            ¬ r.arrivalS < 0 ∧ 1 ≤ r.inputTokens ∧ 1 ≤ r.outputTokens) ∧
          ((∀ r ∈ requests, r.arrivalS ≠ .nan) →
            requests.Pairwise fun a b => ¬ b.arrivalS < a.arrivalS) ∧
          ((∀ r ∈ requests, ∃ q, r.arrivalS = .finite q) →
            ∃ t : TraceLoader, l' = t.floats ∧ (∀ gap ∈ t.interArrivalTimes, 0 ≤ gap) ∧
              t.interArrivalTimes.sum =
                t.arrivalTimes.getLastD 0 - t.arrivalTimes.headD 0) := by
  unfold loadFrom
  split
  next e hfetch =>
    refine ⟨fun e' l' h => .inl ?_, fun requests l' h => ?_⟩
    · obtain ⟨-, rfl⟩ := Prod.mk.inj h
      rfl
    · cases (Prod.mk.inj h).1
  next fetched hfetch =>
    obtain ⟨hlength, hsound⟩ := fetchFrom_ok hrng hfetch
    have hperm := py.sort_perm fetched
    have hsound' : ∀ r ∈ py.sort fetched, Sound r := fun r hr =>
      hsound r (hperm.mem_iff.mp hr)
    dsimp only
    split
    next e hstats =>
      refine ⟨fun e' l' h => .inr ?_, fun requests l' h => ?_⟩
      · obtain ⟨-, rfl⟩ := Prod.mk.inj h
        exact checkStatistics_error hsound' hstats
      · cases (Prod.mk.inj h).1
    next hstats =>
      refine ⟨fun e' l' h => ?_, fun requests l' h => ?_⟩
      · cases (Prod.mk.inj h).1
      · obtain ⟨hok, rfl⟩ := Prod.mk.inj h
        obtain rfl := Except.ok.inj hok
        have hloaded : py.sort fetched ≠ [] := by
          intro hempty
          rw [checkStatistics, if_pos hempty] at hstats
          cases hstats
        have hne : fetched ≠ [] := by
          rintro rfl
          exact hloaded hperm.eq_nil
        have hsorted : (∀ r ∈ py.sort fetched, r.arrivalS ≠ .nan) →
            (py.sort fetched).Pairwise fun a b => ¬ b.arrivalS < a.arrivalS := fun hnumbers =>
          pairwise_sort py fun r hr => hnumbers r (hperm.mem_iff.mpr hr)
        refine ⟨rfl, hloaded, ?_, hsound', hsorted, fun hfinite => ?_⟩
        · rw [hperm.length_eq]
          exact hlength hne
        · obtain ⟨t, ht⟩ := exists_floats (l := { l with requests := py.sort fetched }) hfinite
          have hrequests : py.sort fetched = t.requests.map RequestAt.toFloat :=
            congrArg TraceLoaderAt.requests ht
          have hnumbers : ∀ r ∈ py.sort fetched, r.arrivalS ≠ .nan := by
            intro r hr hnan
            obtain ⟨q, hq⟩ := hfinite r hr
            rw [hq] at hnan
            cases hnan
          have hpairs := hsorted hnumbers
          rw [hrequests, List.pairwise_map] at hpairs
          refine ⟨t, ht, interArrivalTimes_nonneg ?_, interArrivalTimes_sum t⟩
          refine List.pairwise_map.mpr (hpairs.imp fun {a b} hab => not_lt.mp fun hlt => ?_)
          exact hab (PyFloat.finite_lt_iff.mpr hlt)

/-- A generator of ones. -/
def onesRng : TraceRng where
  exponential _ := 1
  uniform _ := 1
  lognormalInput _ := 1
  lognormalOutput _ := 1
  pow _ _ := 1

/-- A document of two entries; the second one says more. -/
def twoEntries : TraceInput where
  path := ""
  text := []
  suffix := ".json"
  data :=
    .arr [.obj [], .obj [("conversations", .arr
      [.obj [("from", .str "human"), ("value", .str "a long question")],
        .obj [("from", .str "gpt"), ("value", .str "yes")]])]]
  model := []

def twoLoaded : TraceLoader where
  traceType := "sharegpt"
  requests :=
    [{ requestId := 0, arrivalS := 1, inputTokens := 1, outputTokens := 1
       model := some "llama" },
      { requestId := 1, arrivalS := 2, inputTokens := 19, outputTokens := 3
        model := some "llama" }]

theorem loaded_sorted_two :
    loadFrom asciiText String.length onesRng twoEntries { traceType := "sharegpt" } 10 0 =
        (.ok twoLoaded.floats.requests, twoLoaded.floats) ∧
      (twoLoaded.floats.requests.Pairwise fun a b => ¬ b.arrivalS < a.arrivalS) ∧
      ∃ t : TraceLoader, twoLoaded.floats = t.floats ∧
        (∀ gap ∈ t.interArrivalTimes, 0 ≤ gap) ∧
        t.interArrivalTimes.sum = t.arrivalTimes.getLastD 0 - t.arrivalTimes.headD 0 := by
  have hfetch : fetchFrom asciiText String.length onesRng twoEntries
      { traceType := "sharegpt" } 10 0 = .ok twoLoaded.floats.requests := by decide +kernel
  have hsame : asciiText.sort twoLoaded.floats.requests = twoLoaded.floats.requests :=
    List.mergeSort_of_pairwise (by decide +kernel)
  have hload : loadFrom asciiText String.length onesRng twoEntries
      { traceType := "sharegpt" } 10 0 =
        (.ok twoLoaded.floats.requests, twoLoaded.floats) := by
    have hcheck : checkStatistics
        { traceType := "sharegpt", requests := twoLoaded.floats.requests } = .ok () := by
      decide +kernel
    rw [loadFrom, hfetch]
    dsimp only
    rw [hsame, hcheck]
    rfl
  obtain ⟨-, -, -, -, hsorted, hfinite⟩ :=
    (loaded_sorted asciiText String.length onesRng
      ⟨fun _ => zero_le_one, fun _ _ _ => one_pos⟩ twoEntries { traceType := "sharegpt" }
      10 0).2 _ _ hload
  refine ⟨hload, hsorted (by decide +kernel), hfinite fun r hr => ?_⟩
  obtain ⟨q, _, rfl⟩ := List.mem_map.mp hr
  exact ⟨_, rfl⟩

end TraceLoader

end Tempo
