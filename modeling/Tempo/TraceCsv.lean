import Mathlib.Data.List.Find
import Mathlib.Data.List.Infix
import Mathlib.Tactic.Linarith
import Tempo.Csv
import Tempo.NumberText
import Tempo.TraceLoader

/-!
# Traces in files

`TraceLoader` writes its requests to a file and loads a BurstGPT trace from one.  The
loader finds its columns by parts of their names; the time column has to have `time` in
its name.  The writer calls it `arrival_s`, so that no file it writes is loaded again
(`not_loadsBack`).  Under another name for this one column every such file is
(`load_renamed`).
-/

namespace Tempo

open Csv (Text Row)
open NumberText (TextRules)

/-- Python's functions between texts and values: those of `int`, `str.lower`, `repr` of
a text, `float` and `repr` of a number, and the timestamp of an ISO-8601 text; and the
sort of a list by arrival times, which promises nothing about the order if one is `nan`. -/
structure PyText where
  rules : TextRules
  lower : Text → Text
  lower_ascii : ∀ text : Text, (∀ c ∈ text, c.toNat < 128) → lower text = text.map Char.toLower
  reprText : String → String
  float : Text → Option PyFloat
  reprFloat : PyFloat → Text
  isoTimestamp : Text → Option ℚ
  sort : List FloatRequest → List FloatRequest
  sort_perm : ∀ requests, (sort requests).Perm requests
  sort_ordered : ∀ requests, (∀ r ∈ requests, r.arrivalS ≠ .nan) →
    sort requests = requests.mergeSort fun a b => decide (a.arrivalS.order ≤ b.arrivalS.order)

namespace TraceLoader

/-! ## Writing -/

/-- The field names of `write_csv`. -/
def csvFields : Row :=
  ["request_id", "arrival_s", "input_tokens", "output_tokens", "model", "ttft_ms",
    "tpot_ms", "e2e_ms", "slo_met"].map String.toList

def csvInt (z : Int) : Text :=
  (toString z).toList

/-- A missing model is written as an empty text. -/
def csvRow (py : PyText) (r : FloatRequest) : Row :=
  [csvInt r.requestId, py.reprFloat r.arrivalS, csvInt r.inputTokens,
    csvInt r.outputTokens, (r.model.getD "").toList, py.reprFloat (.finite r.ttftMs),
    py.reprFloat (.finite r.tpotMs), py.reprFloat (.finite r.e2eMs),
    (if r.sloMet then "True" else "False").toList]

/-- `write_csv`, the text of the file. -/
def writeCsv (py : PyText) (l : FloatLoader) : Text :=
  Csv.write (csvFields :: l.requests.map (csvRow py))

/-! ## Columns -/

/-- `needle in text` -/
def isIn (needle text : Text) : Bool :=
  text.tails.any fun rest => needle.isPrefixOf rest

/-- The first column with all of these in its name. -/
def findColumn (py : PyText) (needles : List String) (cols : Row) : Option Text :=
  cols.find? fun c => needles.all fun needle => isIn needle.toList (py.lower c)

/-- `ts_col`, `id_col`, `in_col`, `out_col` and `model_col`. -/
structure Columns where
  ts : Text
  id : Option Text
  input : Text
  output : Text
  model : Option Text
  deriving DecidableEq

def columnsOf (py : PyText) (cols : Row) : Option Columns := do
  let ts ← findColumn py ["time"] cols
  let input ← findColumn py ["input", "token"] cols
  let output ← findColumn py ["output", "token"] cols
  some
    { ts := ts
      id := findColumn py ["id"] cols
      input := input
      output := output
      model := findColumn py ["model"] cols }

/-- The text of a list of texts. -/
def reprList (py : PyText) (cols : Row) : String :=
  "[" ++ ", ".intercalate (cols.map fun c => py.reprText (String.ofList c)) ++ "]"

def missingColumns (py : PyText) (path : String) (cols : Row) : String :=
  "BurstGPT CSV at " ++ path ++ " is missing expected columns.\nFound: " ++
    reprList py cols ++ "\nExpected: timestamp/time, input_tokens, output_tokens"

def noValidRequests (path : String) : String :=
  "No valid requests parsed from " ++ path ++
    ". Check the CSV format or use --trace-type synthetic."

/-! ## Rows -/

/-- The row of a `DictReader`: what the row is too short for is missing, and of columns
with the same name the last one counts. -/
def dictRow (cols row : Row) : List (Text × Option Text) :=
  (cols.zip (row.map some ++ List.replicate (cols.length - row.length) none)).reverse

/-- The text in a column, if there is one. -/
def cell (row : List (Text × Option Text)) (col : Text) : Option Text :=
  (row.lookup col).join

/-- A number, or else a date. -/
def parseTime (py : PyText) (c : Columns) (row : List (Text × Option Text)) :
    Option PyFloat := do
  let raw ← cell row c.ts
  py.float raw <|> (py.isoTimestamp raw).map .finite

/-- What a row raises: an error that is caught, so that the row is skipped, or one that
is not. -/
inductive RowError
  | skipped
  | raised (e : TraceError)

/-- A `ValueError` is caught, an `OverflowError` is not. -/
def rowError : TraceError → RowError
  | .overflowError message => .raised (.overflowError message)
  | .runtimeError message => .raised (.runtimeError message)
  | .valueError _ => .skipped

def orSkipped {α : Type} : Option α → Except RowError α
  | some a => .ok a
  | none => .error .skipped

/-- `int(float(text))` -/
def parseTokens (py : PyText) (col : Text) (row : List (Text × Option Text)) :
    Except RowError Int := do
  let raw ← orSkipped (cell row col)
  let value ← orSkipped (py.float raw)
  value.toInt.mapError rowError

/-- A model is missing where the row is too short. -/
def parseModel (c : Columns) (row : List (Text × Option Text)) : Option (Option Text) :=
  match c.model with
  | some col => row.lookup col
  | none => some (some "unknown".toList)

def parseId (py : PyText) (c : Columns) (row : List (Text × Option Text)) (loaded : Nat) :
    Option Int :=
  match c.id with
  | some col => (cell row col).bind py.rules.int
  | none => some loaded

/-- The request of a row after `loaded` others. -/
def parseRequest (py : PyText) (c : Columns) (row : List (Text × Option Text))
    (loaded : Nat) (arrival : PyFloat) : Except RowError FloatRequest := do
  let input ← parseTokens py c.input row
  let output ← parseTokens py c.output row
  let model ← orSkipped (parseModel c row)
  let id ← orSkipped (parseId py c row loaded)
  .ok
    { requestId := id
      arrivalS := arrival
      inputTokens := max 1 input
      outputTokens := max 1 output
      model := model.map String.ofList }

/-- `reqs` and `t0` -/
structure Progress where
  requests : List FloatRequest := []
  t0 : Option PyFloat := none

/-- A malformed row is skipped; it may still be the one that sets `t0`. -/
def loadRow (py : PyText) (c : Columns) (startS : ℚ) (p : Progress)
    (row : List (Text × Option Text)) : Except TraceError Progress :=
  match parseTime py c row with
  | none => .ok p
  | some ts =>
      let t0 := p.t0.getD ts
      let arrival := ts - t0
      if arrival < .finite startS then .ok { p with t0 := some t0 }
      else
        match parseRequest py c row p.requests.length (arrival - .finite startS) with
        | .error .skipped => .ok { p with t0 := some t0 }
        | .error (.raised e) => .error e
        | .ok r => .ok { requests := p.requests ++ [r], t0 := some t0 }

def loadRows (py : PyText) (c : Columns) (nRequests : Int) (startS : ℚ) :
    List (List (Text × Option Text)) → Progress → Except TraceError Progress
  | [], p => .ok p
  | row :: rest, p =>
      if nRequests ≤ p.requests.length then .ok p
      else (loadRow py c startS p row).bind (loadRows py c nRequests startS rest)

def checkLoaded (path : String) (requests : List FloatRequest) :
    Except TraceError (List FloatRequest) :=
  if requests = [] then .error (.runtimeError (noValidRequests path)) else .ok requests

/-- `_load_burstgpt` of a file with this text; the reader of rows passes over those that
are empty. -/
def loadBurstgpt (py : PyText) (path : String) (text : Text) (nRequests : Int)
    (startS : ℚ) : Except TraceError (List FloatRequest) :=
  let rows := Csv.read text
  let cols := rows.headD []
  match columnsOf py cols with
  | none => .error (.valueError (missingColumns py path cols))
  | some c =>
      let dicts := (rows.tail.filter fun row => row ≠ []).map (dictRow cols)
      (loadRows py c nRequests startS dicts {}).bind fun p => checkLoaded path p.requests

/-- The other sources of requests. -/
structure OtherSources where
  synthesise : Int → List Request
  loadSharegpt : Int → Except TraceError (List Request)

/-- The requests that `load` gets from its source. -/
def fetch (py : PyText) (others : OtherSources) (path : String) (text : Text)
    (l : FloatLoader) (nRequests : Int) (startS : ℚ) :
    Except TraceError (List FloatRequest) :=
  if l.synthetic then .ok ((others.synthesise nRequests).map RequestAt.toFloat)
  else if l.traceType = "burstgpt" then loadBurstgpt py path text nRequests startS
  else if l.traceType = "sharegpt" then
    (others.loadSharegpt nRequests).map (List.map RequestAt.toFloat)
  else .error (.valueError ("Unknown trace_type: " ++ py.reprText l.traceType))

/-- `load`; what it reports of the statistics can fail. -/
def load (py : PyText) (others : OtherSources) (path : String) (text : Text)
    (l : FloatLoader) (nRequests : Int) (startS : ℚ) :
    Except TraceError (List FloatRequest) × FloatLoader :=
  match fetch py others path text l nRequests startS with
  | .error e => (.error e, l)
  | .ok requests =>
      let l := { l with requests := py.sort requests }
      match checkStatistics l with
      | .error e => (.error e, l)
      | .ok _ => (.ok l.requests, l)

/-! ## What is loaded -/

theorem exists_of_bind_eq_ok {ε α β : Type} {x : Except ε α} {f : α → Except ε β} {b : β}
    (h : (x >>= f) = .ok b) : ∃ a, x = .ok a ∧ f a = .ok b := by
  cases x with
  | error e => cases h
  | ok a => exact ⟨a, rfl, h⟩

section Loaded

variable (py : PyText) (c : Columns) (nRequests : Int) (startS : ℚ) {p q : Progress}

/-- Each request loaded arrives at the start or later and has tokens. -/
def Progress.Valid (p : Progress) : Prop :=
  ∀ r ∈ p.requests, ¬ r.arrivalS < 0 ∧ 1 ≤ r.inputTokens ∧ 1 ≤ r.outputTokens

theorem parseRequest_eq_ok {row : List (Text × Option Text)} {loaded : Nat}
    {arrival : PyFloat} {r : FloatRequest}
    (h : parseRequest py c row loaded arrival = .ok r) :
    r.arrivalS = arrival ∧ 1 ≤ r.inputTokens ∧ 1 ≤ r.outputTokens := by
  unfold parseRequest at h
  obtain ⟨input, _, h⟩ := exists_of_bind_eq_ok h
  obtain ⟨output, _, h⟩ := exists_of_bind_eq_ok h
  obtain ⟨model, _, h⟩ := exists_of_bind_eq_ok h
  obtain ⟨id, _, h⟩ := exists_of_bind_eq_ok h
  obtain rfl := Except.ok.inj h
  exact ⟨rfl, le_max_left 1 input, le_max_left 1 output⟩

/-- A row adds one request at most. -/
theorem loadRow_cases {row : List (Text × Option Text)}
    (h : loadRow py c startS p row = .ok q) :
    q.requests = p.requests ∨
      ∃ r, q.requests = p.requests ++ [r] ∧
        ¬ r.arrivalS < 0 ∧ 1 ≤ r.inputTokens ∧ 1 ≤ r.outputTokens := by
  unfold loadRow at h
  cases htime : parseTime py c row with
  | none =>
      rw [htime] at h
      obtain rfl := Except.ok.inj h
      exact Or.inl rfl
  | some ts =>
      rw [htime] at h
      dsimp only at h
      split at h
      · obtain rfl := Except.ok.inj h
        exact Or.inl rfl
      next hlate =>
        split at h
        · obtain rfl := Except.ok.inj h
          exact Or.inl rfl
        · cases h
        next r hr =>
          obtain rfl := Except.ok.inj h
          obtain ⟨harrival, htokens⟩ := parseRequest_eq_ok py c hr
          refine Or.inr ⟨r, rfl, ?_, htokens⟩
          rw [harrival]
          exact PyFloat.not_sub_lt_zero hlate

theorem loadRow_valid (hp : p.Valid) {row : List (Text × Option Text)}
    (h : loadRow py c startS p row = .ok q) : q.Valid := by
  unfold Progress.Valid
  rcases loadRow_cases py c startS h with hsame | ⟨r, hmore, hr⟩
  · rw [hsame]
    exact hp
  · rw [hmore]
    intro r' hr'
    rcases List.mem_append.mp hr' with hold | hnew
    · exact hp r' hold
    · rw [List.mem_singleton.mp hnew]
      exact hr

theorem loadRow_length {row : List (Text × Option Text)}
    (h : loadRow py c startS p row = .ok q) :
    q.requests.length ≤ p.requests.length + 1 := by
  rcases loadRow_cases py c startS h with hsame | ⟨r, hmore, _⟩
  · rw [hsame]
    exact Nat.le_succ _
  · rw [hmore, List.length_append]
    exact le_refl _

theorem loadRows_ok {rows : List (List (Text × Option Text))} (hp : p.Valid)
    (hroom : (p.requests.length : Int) ≤ max 0 nRequests)
    (h : loadRows py c nRequests startS rows p = .ok q) :
    q.Valid ∧ (q.requests.length : Int) ≤ max 0 nRequests := by
  induction rows generalizing p with
  | nil =>
      obtain rfl := Except.ok.inj h
      exact ⟨hp, hroom⟩
  | cons row rest ih =>
      unfold loadRows at h
      split at h
      · obtain rfl := Except.ok.inj h
        exact ⟨hp, hroom⟩
      · obtain ⟨next, hnext, hrest⟩ := exists_of_bind_eq_ok h
        have hlength := loadRow_length py c startS hnext
        exact ih (loadRow_valid py c startS hp hnext) (by omega) hrest

/-- Of every file that is loaded at all: there are requests, not more than asked for,
none of which arrives before the start or is without tokens. -/
theorem loadBurstgpt_ok {path : String} {text : Text} {requests : List FloatRequest}
    (h : loadBurstgpt py path text nRequests startS = .ok requests) :
    requests ≠ [] ∧ (requests.length : Int) ≤ nRequests ∧
      ∀ r ∈ requests, ¬ r.arrivalS < 0 ∧ 1 ≤ r.inputTokens ∧ 1 ≤ r.outputTokens := by
  unfold loadBurstgpt at h
  dsimp only at h
  split at h
  · cases h
  next c _ =>
    obtain ⟨p, hrows, h⟩ := exists_of_bind_eq_ok h
    unfold checkLoaded at h
    split at h
    · cases h
    next hne =>
      obtain rfl := Except.ok.inj h
      have hnone : ∀ r ∈ ({} : Progress).requests,
          ¬ r.arrivalS < 0 ∧ 1 ≤ r.inputTokens ∧ 1 ≤ r.outputTokens :=
        fun r hr => by cases hr
      obtain ⟨hvalid, hlength⟩ :=
        loadRows_ok py c nRequests startS hnone (le_max_left 0 nRequests) hrows
      have hpos := List.length_pos_iff.mpr hne
      exact ⟨hne, by omega, hvalid⟩

end Loaded

/-! ## Files that are loaded again -/

section Again

variable (py : PyText) (others : OtherSources) (path : String)
  (l : FloatLoader) (nRequests : Int)

/-- `str.lower` leaves the name as it is. -/
def isLower (name : Text) : Bool :=
  name.all fun c => decide (c.toNat < 128) && c.toLower == c

theorem lower_of_isLower {name : Text} (hname : isLower name) : py.lower name = name := by
  have hchars : ∀ c ∈ name, c.toNat < 128 ∧ c.toLower = c := by
    simpa [isLower] using hname
  rw [py.lower_ascii name fun c hc => (hchars c hc).1,
    List.map_congr_left fun c hc => (hchars c hc).2, List.map_id']

/-- What is looked for in names in lower case. -/
theorem findColumn_of_isLower {cols : Row} (hcols : cols.all isLower)
    (needles : List String) : findColumn py needles cols =
      cols.find? fun c => needles.all fun needle => isIn needle.toList c := by
  refine List.find?_congr fun c hc => ?_
  rw [lower_of_isLower py (List.all_eq_true.mp hcols c hc)]

/-- The ids, arrival times, token counts and models of a trace. -/
def shape (requests : List FloatRequest) :
    List (Int × PyFloat × Int × Int × Option String) :=
  requests.map fun r => (r.requestId, r.arrivalS, r.inputTokens, r.outputTokens, r.model)

/-- Loading this text as a BurstGPT trace gives these requests back. -/
def LoadsBack (text : Text) (requests : List FloatRequest) : Prop :=
  ∃ loaded, (load py others path text {} nRequests 0).1 = .ok loaded ∧
    shape loaded = shape requests

/-- The numbers of a request are read as they are printed. -/
structure PrintsBack (r : FloatRequest) : Prop where
  id : py.rules.int (csvInt r.requestId) = some r.requestId
  arrival : py.float (py.reprFloat r.arrivalS) = some r.arrivalS
  input : py.float (csvInt r.inputTokens) = some (.finite r.inputTokens)
  output : py.float (csvInt r.outputTokens) = some (.finite r.outputTokens)

/-! ### As they are written -/

theorem columnsOf_csvFields : columnsOf py csvFields = none := by
  have htime : findColumn py ["time"] csvFields = none := by
    rw [findColumn_of_isLower py (by decide +kernel)]
    decide +kernel
  simp [columnsOf, htime]

/-- No file that is written has a time column. -/
theorem loadBurstgpt_writeCsv (startS : ℚ) :
    loadBurstgpt py path (writeCsv py l) nRequests startS =
      .error (.valueError (missingColumns py path csvFields)) := by
  unfold loadBurstgpt writeCsv
  rw [Csv.read_write]
  dsimp only [List.headD_cons]
  rw [columnsOf_csvFields]

theorem load_writeCsv (startS : ℚ) :
    load py others path (writeCsv py l) {} nRequests startS =
      (.error (.valueError (missingColumns py path csvFields)), {}) := by
  have hfetch : fetch py others path (writeCsv py l) {} nRequests startS =
      .error (.valueError (missingColumns py path csvFields)) :=
    loadBurstgpt_writeCsv py path l nRequests startS
  rw [load, hfetch]

/-- No trace is loaded from the file that is written of it. -/
theorem not_loadsBack :
    ¬ LoadsBack py others path nRequests (writeCsv py l) l.requests := by
  rintro ⟨loaded, hload, _⟩
  rw [load_writeCsv] at hload
  cases hload

/-- `int` of ASCII texts. -/
def asciiInts : TextRules where
  decode bytes := some (bytes.map NumberText.charOf)
  isSpace c := c == ' ' || (9 ≤ c.toNat && c.toNat ≤ 13)
  decimal c := if c.isDigit then some (c.toNat - 48) else none
  maxDigits := some 4300

/-- Python's functions on ASCII texts, whole numbers, `nan` and `inf`. -/
def asciiText : PyText where
  rules := asciiInts
  lower := List.map Char.toLower
  lower_ascii _ _ := rfl
  reprText text := "'" ++ text ++ "'"
  float text :=
    if text = "nan".toList then some .nan
    else if text = "inf".toList then some (.infinite false)
    else (asciiInts.int (text.takeWhile (· ≠ '.'))).map fun z => .finite z
  reprFloat
    | .finite q => (toString q.num ++ ".0").toList
    | .infinite negative => if negative then "-inf".toList else "inf".toList
    | .nan => "nan".toList
  isoTimestamp _ := none
  sort requests := requests.mergeSort fun a b => decide (a.arrivalS.order ≤ b.arrivalS.order)
  sort_perm requests := List.mergeSort_perm requests _
  sort_ordered _ _ := rfl

/-- Two requests, two seconds apart. -/
def twoRequests : TraceLoader where
  requests :=
    [{ requestId := 0, arrivalS := 0, inputTokens := 100, outputTokens := 20 },
      { requestId := 1, arrivalS := 2, inputTokens := 100, outputTokens := 20 }]

def noOthers : OtherSources where
  synthesise _ := []
  loadSharegpt _ := .ok []

theorem twoRequests_not_loaded :
    twoRequests.requests ≠ [] ∧
      (∀ r ∈ twoRequests.requests, PrintsBack asciiText r.toFloat ∧ 0 ≤ r.arrivalS ∧
        1 ≤ r.inputTokens ∧ 1 ≤ r.outputTokens ∧ r.model ≠ none) ∧
      (twoRequests.requests.Pairwise fun a b => a.arrivalS ≤ b.arrivalS) ∧
      (∀ r ∈ twoRequests.requests.head?, r.arrivalS = 0) ∧
      (load asciiText noOthers "trace.csv" (writeCsv asciiText twoRequests.floats) {}
        2000 0).1 =
          .error (.valueError (missingColumns asciiText "trace.csv" csvFields)) ∧
      ¬ LoadsBack asciiText noOthers "trace.csv" 2000
        (writeCsv asciiText twoRequests.floats) twoRequests.floats.requests := by
  have hload := load_writeCsv asciiText noOthers "trace.csv" twoRequests.floats 2000 0
  refine ⟨by decide, ?_, by decide +kernel, by decide +kernel, ?_, ?_⟩
  · intro r hr
    have htwo := List.mem_pair.mp hr
    rcases htwo with rfl | rfl
    · exact ⟨⟨by decide +kernel, by decide +kernel, by decide +kernel, by decide +kernel⟩,
        by decide +kernel, by decide, by decide, by decide⟩
    · exact ⟨⟨by decide +kernel, by decide +kernel, by decide +kernel, by decide +kernel⟩,
        by decide +kernel, by decide, by decide, by decide⟩
  · rw [hload]
  · rintro ⟨loaded, hloaded, _⟩
    rw [hload] at hloaded
    cases hloaded

/-! ### Under another name of the time column -/

/-- The field names with `timestamp` in place of `arrival_s`. -/
def timestampFields : Row :=
  csvFields.set 1 "timestamp".toList

def timestampColumns : Columns where
  ts := "timestamp".toList
  id := some "request_id".toList
  input := "input_tokens".toList
  output := "output_tokens".toList
  model := some "model".toList

theorem columnsOf_timestampFields :
    columnsOf py timestampFields = some timestampColumns := by
  have hlower : timestampFields.all isLower := by decide +kernel
  unfold columnsOf
  simp only [findColumn_of_isLower py hlower]
  decide +kernel

/-- A request of a file, where the times of its answer are not loaded. -/
def asLoaded (r : Request) : Request where
  requestId := r.requestId
  arrivalS := r.arrivalS
  inputTokens := r.inputTokens
  outputTokens := r.outputTokens
  model := some (r.model.getD "")

variable {py} {r : Request} {p : Progress}

theorem truncate_intCast (z : Int) : truncate (z : ℚ) = z := by
  simp [truncate]

theorem parseRequest_timestamp (hprints : PrintsBack py r.toFloat)
    (hinput : 1 ≤ r.inputTokens) (houtput : 1 ≤ r.outputTokens) (loaded : Nat) :
    parseRequest py timestampColumns (dictRow timestampFields (csvRow py r.toFloat)) loaded
      (.finite r.arrivalS) = .ok (asLoaded r).toFloat := by
  have hid : parseId py timestampColumns (dictRow timestampFields (csvRow py r.toFloat))
      loaded = py.rules.int (csvInt r.toFloat.requestId) := rfl
  have hin : parseTokens py timestampColumns.input
      (dictRow timestampFields (csvRow py r.toFloat)) =
      (orSkipped (py.float (csvInt r.toFloat.inputTokens))).bind fun value =>
        value.toInt.mapError rowError := rfl
  have hout : parseTokens py timestampColumns.output
      (dictRow timestampFields (csvRow py r.toFloat)) =
      (orSkipped (py.float (csvInt r.toFloat.outputTokens))).bind fun value =>
        value.toInt.mapError rowError := rfl
  have hmodel : parseModel timestampColumns (dictRow timestampFields (csvRow py r.toFloat)) =
      some (some (r.model.getD "").toList) := rfl
  have hwhole : ∀ z : Int, (PyFloat.finite z).toInt = .ok z := fun z =>
    congrArg Except.ok (truncate_intCast z)
  unfold parseRequest
  rw [hin, hout, hmodel, hid, hprints.input, hprints.output, hprints.id]
  simp [orSkipped, hwhole, Except.mapError, Except.bind, bind, asLoaded, RequestAt.toFloat,
    hinput, houtput]

/-- The time of the first request is zero, and so are all times counted from. -/
theorem loadRow_timestamp (hprints : PrintsBack py r.toFloat) (hinput : 1 ≤ r.inputTokens)
    (houtput : 1 ≤ r.outputTokens) (harrival : 0 ≤ r.arrivalS)
    (ht0 : p.t0 = some 0 ∨ p.t0 = none ∧ r.arrivalS = 0) :
    loadRow py timestampColumns 0 p (dictRow timestampFields (csvRow py r.toFloat)) =
      .ok { requests := p.requests ++ [(asLoaded r).toFloat], t0 := some 0 } := by
  have htime : parseTime py timestampColumns
      (dictRow timestampFields (csvRow py r.toFloat)) = some (.finite r.arrivalS) := by
    have hraw : parseTime py timestampColumns
        (dictRow timestampFields (csvRow py r.toFloat)) =
          (py.float (py.reprFloat r.toFloat.arrivalS) <|>
            (py.isoTimestamp (py.reprFloat r.toFloat.arrivalS)).map .finite) :=
      rfl
    rw [hraw, hprints.arrival]
    rfl
  have horigin : p.t0.getD (.finite r.arrivalS) = .finite 0 := by
    rcases ht0 with hset | ⟨hunset, hzero⟩
    · rw [hset]
      rfl
    · rw [hunset, hzero]
      rfl
  have hlate : ¬ PyFloat.finite r.arrivalS < .finite 0 := by
    rw [PyFloat.finite_lt_iff]
    exact not_lt.mpr harrival
  unfold loadRow
  rw [htime]
  dsimp only
  rw [horigin, PyFloat.finite_sub, PyFloat.finite_sub, sub_zero, sub_zero, if_neg hlate,
    parseRequest_timestamp hprints hinput houtput]
  rfl

theorem loadRows_timestamp (requests : List Request)
    (hprints : ∀ r ∈ requests, PrintsBack py r.toFloat)
    (htokens : ∀ r ∈ requests, 1 ≤ r.inputTokens ∧ 1 ≤ r.outputTokens)
    (harrival : ∀ r ∈ requests, 0 ≤ r.arrivalS)
    (ht0 : p.t0 = some 0 ∨ p.t0 = none ∧ ∀ r ∈ requests.head?, r.arrivalS = 0)
    (hn : (p.requests.length + requests.length : Int) ≤ nRequests) :
    ∃ q, loadRows py timestampColumns nRequests 0
        (requests.map fun r => dictRow timestampFields (csvRow py r.toFloat)) p = .ok q ∧
      q.requests = p.requests ++ (requests.map asLoaded).map RequestAt.toFloat := by
  induction requests generalizing p with
  | nil => exact ⟨p, rfl, by simp⟩
  | cons r rest ih =>
      rw [List.forall_mem_cons] at hprints htokens harrival
      rw [List.length_cons] at hn
      push_cast at hn
      have hone := loadRow_timestamp (p := p) hprints.1 htokens.1.1 htokens.1.2 harrival.1
        (by simpa using ht0)
      obtain ⟨q, hrest, hq⟩ := ih
        (p := { requests := p.requests ++ [(asLoaded r).toFloat], t0 := some 0 })
        hprints.2 htokens.2 harrival.2 (Or.inl rfl) (by simp; omega)
      refine ⟨q, ?_, by simp [hq]⟩
      rw [List.map_cons, loadRows, if_neg (by omega), hone]
      exact hrest

theorem loadBurstgpt_timestamp (requests : List Request) (hne : requests ≠ [])
    (hprints : ∀ r ∈ requests, PrintsBack py r.toFloat)
    (htokens : ∀ r ∈ requests, 1 ≤ r.inputTokens ∧ 1 ≤ r.outputTokens)
    (harrival : ∀ r ∈ requests, 0 ≤ r.arrivalS)
    (hfirst : ∀ r ∈ requests.head?, r.arrivalS = 0)
    (hn : (requests.length : Int) ≤ nRequests) :
    loadBurstgpt py path
        (Csv.write (timestampFields :: (requests.map RequestAt.toFloat).map (csvRow py)))
      nRequests 0 = .ok ((requests.map asLoaded).map RequestAt.toFloat) := by
  have hrows : ((requests.map RequestAt.toFloat).map (csvRow py)).filter
      (fun row => row ≠ []) = (requests.map RequestAt.toFloat).map (csvRow py) := by
    refine List.filter_eq_self.mpr fun row hrow => ?_
    obtain ⟨r, _, rfl⟩ := List.mem_map.mp hrow
    simp [csvRow]
  obtain ⟨q, hrun, hq⟩ := loadRows_timestamp nRequests (p := {}) requests hprints htokens
    harrival (Or.inr ⟨rfl, hfirst⟩) (by simpa using hn)
  have hne' : q.requests ≠ [] := by simpa [hq] using hne
  unfold loadBurstgpt
  rw [Csv.read_write]
  dsimp only [List.headD_cons, List.tail_cons]
  rw [columnsOf_timestampFields]
  dsimp only
  rw [hrows, List.map_map, List.map_map]
  change (loadRows py timestampColumns nRequests 0
    (requests.map fun r => dictRow timestampFields (csvRow py r.toFloat)) {}).bind _ = _
  rw [hrun]
  change checkLoaded path q.requests = _
  rw [checkLoaded, if_neg hne', hq]
  rfl

/-- A model that is there is there again. -/
theorem shape_asLoaded (requests : List Request) (hmodel : ∀ r ∈ requests, r.model ≠ none) :
    shape ((requests.map asLoaded).map RequestAt.toFloat) =
      shape (requests.map RequestAt.toFloat) := by
  unfold shape
  rw [List.map_map, List.map_map, List.map_map]
  refine List.map_congr_left fun r hr => ?_
  obtain ⟨model, hsome⟩ := Option.ne_none_iff_exists'.mp (hmodel r hr)
  simp [asLoaded, RequestAt.toFloat, hsome]

/-- Requests that come sorted and finite are what is loaded. -/
theorem load_of_fetch {text : Text} {startS : ℚ} {loader : FloatLoader}
    {requests : List Request}
    (hfetch : fetch py others path text loader nRequests startS =
      .ok (requests.map RequestAt.toFloat))
    (hne : requests ≠ [])
    (hsorted : requests.Pairwise fun a b => a.arrivalS ≤ b.arrivalS) :
    (load py others path text loader nRequests startS).1 =
      .ok (requests.map RequestAt.toFloat) := by
  have hfinite : ∀ r ∈ requests.map RequestAt.toFloat, r.arrivalS ≠ .nan := by
    intro r hr
    obtain ⟨q, _, rfl⟩ := List.mem_map.mp hr
    simp [RequestAt.toFloat]
  have hsame : py.sort (requests.map RequestAt.toFloat) = requests.map RequestAt.toFloat := by
    rw [py.sort_ordered _ hfinite]
    refine List.mergeSort_of_pairwise (List.pairwise_map.mpr (hsorted.imp ?_))
    intro a b hab
    simpa [RequestAt.toFloat, PyFloat.order] using hab
  let t : TraceLoader := { traceType := loader.traceType, requests
                           synthetic := loader.synthetic }
  obtain ⟨stats, hstats⟩ : ∃ stats, t.statistics equalNumpy = .ok stats := ⟨_, if_neg hne⟩
  have hcheck : checkStatistics { loader with requests := requests.map RequestAt.toFloat } =
      .ok () := by
    have hfloats := checkStatistics_floats equalNumpy t
    rw [hstats] at hfloats
    exact hfloats
  rw [load, hfetch]
  dsimp only
  rw [hsame, hcheck]

/-- With the time column under its other name, a trace that begins at zero is loaded
back. -/
theorem load_renamed (l : TraceLoader) (hne : l.requests ≠ [])
    (hprints : ∀ r ∈ l.requests, PrintsBack py r.toFloat)
    (htokens : ∀ r ∈ l.requests, 1 ≤ r.inputTokens ∧ 1 ≤ r.outputTokens)
    (harrival : ∀ r ∈ l.requests, 0 ≤ r.arrivalS)
    (hsorted : l.requests.Pairwise fun a b => a.arrivalS ≤ b.arrivalS)
    (hfirst : ∀ r ∈ l.requests.head?, r.arrivalS = 0)
    (hmodel : ∀ r ∈ l.requests, r.model ≠ none)
    (hn : (l.requests.length : Int) ≤ nRequests) :
    LoadsBack py others path nRequests
      (Csv.write (timestampFields :: l.floats.requests.map (csvRow py)))
      l.floats.requests := by
  have hfetch : fetch py others path
      (Csv.write (timestampFields :: l.floats.requests.map (csvRow py))) {} nRequests 0 =
        .ok ((l.requests.map asLoaded).map RequestAt.toFloat) :=
    loadBurstgpt_timestamp path nRequests l.requests hne hprints htokens harrival hfirst hn
  refine ⟨(l.requests.map asLoaded).map RequestAt.toFloat, ?_,
    shape_asLoaded l.requests hmodel⟩
  refine load_of_fetch others path nRequests hfetch (by simpa using hne) ?_
  exact List.pairwise_map.mpr hsorted

theorem load_renamed_two :
    LoadsBack asciiText noOthers "trace.csv" 2000
      (Csv.write (timestampFields :: twoRequests.floats.requests.map (csvRow asciiText)))
      twoRequests.floats.requests := by
  have hprints : ∀ r ∈ twoRequests.requests, PrintsBack asciiText r.toFloat := by
    intro r hr
    rcases List.mem_pair.mp hr with rfl | rfl
    · exact ⟨by decide +kernel, by decide +kernel, by decide +kernel, by decide +kernel⟩
    · exact ⟨by decide +kernel, by decide +kernel, by decide +kernel, by decide +kernel⟩
  exact load_renamed noOthers "trace.csv" 2000 twoRequests (by decide) hprints
    (by decide +kernel) (by decide +kernel) (by decide +kernel) (by decide +kernel)
    (by decide +kernel) (by decide)

end Again

end TraceLoader

end Tempo
