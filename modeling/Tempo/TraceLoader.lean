import Mathlib.Algebra.Order.Field.Rat
import Mathlib.Data.List.Count
import Mathlib.Order.WithBot
import Tempo.SortedWindows
import Tempo.TopologyRouter

/-!
# The statistics of a trace

`TraceLoader` holds the requests of a trace and sums them up.  What NumPy computes of
a list of numbers is given; the peak rate is counted by the loader itself.

The arrival times that are read from a file can be infinite or no numbers at all; those
of the statistics are finite.
-/

namespace Tempo

inductive TraceError
  | runtimeError (message : String)
  | valueError (message : String)
  | overflowError (message : String)
  deriving DecidableEq

/-- A Python number; finite ones are exact. -/
inductive PyFloat
  | finite (q : ℚ)
  | infinite (negative : Bool)
  | nan
  deriving DecidableEq

namespace PyFloat

instance : Zero PyFloat := ⟨finite 0⟩

instance : One PyFloat := ⟨finite 1⟩

def sub : PyFloat → PyFloat → PyFloat
  | finite a, finite b => finite (a - b)
  | nan, _ | _, nan => nan
  | infinite s, infinite t => if s = t then nan else infinite s
  | infinite s, finite _ => infinite s
  | finite _, infinite t => infinite !t

instance : Sub PyFloat := ⟨sub⟩

/-- Where a number stands; `nan` stands nowhere, and is not asked for. -/
def order : PyFloat → WithBot (WithTop ℚ)
  | finite q => ((q : WithTop ℚ) : WithBot (WithTop ℚ))
  | infinite true => ⊥
  | infinite false | nan => ⊤

/-- No comparison holds of `nan`. -/
instance : LT PyFloat := ⟨fun x y => x ≠ nan ∧ y ≠ nan ∧ x.order < y.order⟩

instance (x y : PyFloat) : Decidable (x < y) :=
  inferInstanceAs (Decidable (x ≠ nan ∧ y ≠ nan ∧ x.order < y.order))

/-- `int` -/
def toInt : PyFloat → Except TraceError Int
  | finite q => .ok (truncate q)
  | infinite _ => .error (.overflowError "cannot convert float infinity to integer")
  | nan => .error (.valueError "cannot convert float NaN to integer")

@[simp] theorem finite_sub (a b : ℚ) : finite a - finite b = finite (a - b) := rfl

@[simp] theorem finite_lt_iff {a b : ℚ} : finite a < finite b ↔ a < b := by
  show finite a ≠ nan ∧ finite b ≠ nan ∧ (finite a).order < (finite b).order ↔ a < b
  simp [order]

/-- A number that is not below another one is not below it either once both are brought
down. -/
theorem not_sub_lt_zero {x : PyFloat} {b : ℚ} (h : ¬ x < finite b) : ¬ x - finite b < 0 := by
  cases x with
  | finite a =>
      rw [finite_lt_iff] at h
      exact fun hlt => absurd (finite_lt_iff.mp hlt) (by linarith)
  | infinite negative =>
      cases negative with
      | true =>
          have hbelow : (⊥ : WithBot (WithTop ℚ)) < ((b : WithTop ℚ) : WithBot (WithTop ℚ)) :=
            WithBot.bot_lt_coe _
          exact absurd ⟨by simp, by simp, hbelow⟩ h
      | false =>
          have habove : (infinite false).order = ⊤ := rfl
          exact fun hlt => not_top_lt (habove ▸ hlt.2.2)
  | nan => exact fun hlt => hlt.1 rfl

/-- From a number that is not below zero only infinity is infinitely far. -/
theorem eq_infinite_of_sub {x y : PyFloat} (hy : ¬ y < 0) (h : x - y = infinite false) :
    x = infinite false := by
  rcases y with b | (_ | _) | _
  · rcases x with a | (_ | _) | _ <;> first | rfl | cases h
  · rcases x with a | (_ | _) | _ <;> first | rfl | cases h
  · exact absurd (by decide) hy
  · rcases x with a | (_ | _) | _ <;> first | rfl | cases h

end PyFloat

/-- `Request`; a model is missing where a row of a file is too short to have one. -/
structure RequestAt (Time : Type) where
  requestId : Int
  arrivalS : Time
  inputTokens : Int
  outputTokens : Int
  model : Option String := some "gpt-3.5-turbo"
  ttftMs : ℚ := 0
  tpotMs : ℚ := 0
  e2eMs : ℚ := 0
  sloMet : Bool := true
  deriving DecidableEq

/-- A request with a finite arrival time. -/
abbrev Request := RequestAt ℚ

/-- A request as it is read. -/
abbrev FloatRequest := RequestAt PyFloat

structure TraceStats where
  nRequests : Nat
  durationS : ℚ
  meanRps : ℚ
  peakRps : ℚ
  burstRatio : ℚ
  medianInputTok : ℚ
  p99InputTok : ℚ
  medianOutputTok : ℚ
  p99OutputTok : ℚ
  cvIat : ℚ
  traceSource : String
  synthetic : Bool
  deriving DecidableEq

/-- The functions of NumPy that the statistics call. -/
structure Numpy where
  mean : List ℚ → ℚ
  std : List ℚ → ℚ
  median : List ℚ → ℚ
  percentile : List ℚ → ℚ → ℚ

/-- What NumPy computes of a list of equal values. -/
def equalNumpy : Numpy where
  mean values := values.headD 0
  std _ := 0
  median values := values.headD 0
  percentile values _ := values.headD 0

structure TraceLoaderAt (Time : Type) where
  traceType : String := "burstgpt"
  requests : List (RequestAt Time) := []
  synthetic : Bool := false

/-- A loader of requests with finite arrival times. -/
abbrev TraceLoader := TraceLoaderAt ℚ

abbrev FloatLoader := TraceLoaderAt PyFloat

namespace RequestAt

def toFloat (r : Request) : FloatRequest where
  requestId := r.requestId
  arrivalS := .finite r.arrivalS
  inputTokens := r.inputTokens
  outputTokens := r.outputTokens
  model := r.model
  ttftMs := r.ttftMs
  tpotMs := r.tpotMs
  e2eMs := r.e2eMs
  sloMet := r.sloMet

end RequestAt

namespace TraceLoaderAt

def floats (l : TraceLoader) : FloatLoader where
  traceType := l.traceType
  requests := l.requests.map RequestAt.toFloat
  synthetic := l.synthetic

variable {Time : Type}

/-- `arrival_times` -/
def arrivalTimes (l : TraceLoaderAt Time) : List Time :=
  l.requests.map (·.arrivalS)

/-- `inter_arrival_times` -/
def interArrivalTimes [Sub Time] (l : TraceLoaderAt Time) : List Time :=
  l.arrivalTimes.zipWith (fun earlier later => later - earlier) l.arrivalTimes.tail

/-- `dur`, from the first request to the last. -/
def duration [Zero Time] [One Time] [Sub Time] (l : TraceLoaderAt Time) : Time :=
  if 1 < l.requests.length then
    l.arrivalTimes.getLastD 0 - l.arrivalTimes.headD 0
  else 1

end TraceLoaderAt

namespace TraceLoader

/-- `np.sum((arrivals >= t) & (arrivals < t + 1.0))` -/
def windowCount (l : TraceLoader) (t : ℚ) : Nat :=
  l.arrivalTimes.countP fun a => decide (t ≤ a) && decide (a < t + 1)

/-- `rps_per_window` -/
def rpsPerWindow (l : TraceLoader) : List Nat :=
  (List.range (truncate l.duration + 1).toNat).map fun t : Nat => l.windowCount (t : ℚ)

/-- `peak_rps` -/
def peakRps (l : TraceLoader) : ℚ :=
  if 0 < l.duration then
    (l.rpsPerWindow.max?.getD 0 : Nat)
  else l.requests.length

/-- `statistics` -/
def statistics (np : Numpy) (l : TraceLoader) : Except TraceError TraceStats :=
  if l.requests = [] then
    .error (.runtimeError "Call load() before statistics()")
  else
    let n := l.requests.length
    let dur := l.duration
    let iats := l.interArrivalTimes
    let inputs := l.requests.map fun r => (r.inputTokens : ℚ)
    let outputs := l.requests.map fun r => (r.outputTokens : ℚ)
    .ok
      { nRequests := n
        durationS := dur
        meanRps := n / max (1 / 10 ^ 6) dur
        peakRps := l.peakRps
        burstRatio := l.peakRps / max 1 (n / max (1 / 10 ^ 6) dur)
        medianInputTok := np.median inputs
        p99InputTok := np.percentile inputs 99
        medianOutputTok := np.median outputs
        p99OutputTok := np.percentile outputs 99
        cvIat := if iats = [] then 0 else np.std iats / np.mean iats
        traceSource := if l.synthetic then "synthetic" else l.traceType
        synthetic := l.synthetic }

/-- What `statistics` raises. -/
def checkStatistics (l : FloatLoader) : Except TraceError Unit :=
  if l.requests = [] then
    .error (.runtimeError "Call load() before statistics()")
  else if 0 < l.duration then
    l.duration.toInt.map fun _ => ()
  else .ok ()

theorem arrivalTimes_floats (l : TraceLoader) :
    l.floats.arrivalTimes = l.arrivalTimes.map .finite := by
  simp [TraceLoaderAt.arrivalTimes, TraceLoaderAt.floats, RequestAt.toFloat]

theorem duration_floats (l : TraceLoader) : l.floats.duration = .finite l.duration := by
  have hlength : l.floats.requests.length = l.requests.length := List.length_map _
  have hzero : (0 : PyFloat) = .finite 0 := rfl
  unfold TraceLoaderAt.duration
  rw [hlength, arrivalTimes_floats]
  split
  · rw [List.getLastD_eq_getLast?, List.getLast?_map, List.headD_eq_head?_getD,
      List.head?_map, hzero, Option.getD_map, Option.getD_map, PyFloat.finite_sub,
      List.getLastD_eq_getLast?, List.headD_eq_head?_getD]
  · rfl

/-- Of finite arrival times it raises what the statistics themselves do. -/
theorem checkStatistics_floats (np : Numpy) (l : TraceLoader) :
    checkStatistics l.floats = (l.statistics np).map fun _ => () := by
  have hempty : l.floats.requests = [] ↔ l.requests = [] := by
    simp [TraceLoaderAt.floats]
  have hduration : l.floats.duration = .finite l.duration := duration_floats l
  unfold checkStatistics statistics
  rw [hduration]
  by_cases hnone : l.requests = []
  · rw [if_pos (hempty.mpr hnone), if_pos hnone]
    rfl
  · rw [if_neg fun h => hnone (hempty.mp h), if_neg hnone]
    split <;> rfl

end TraceLoader

end Tempo
