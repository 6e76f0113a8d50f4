import Mathlib.Data.Rat.Cast.Defs
import Mathlib.Tactic.Linarith
import Tempo.Runs

/-!
# The traffic class of a fabric endpoint

`CXIEndpointQoS` keeps the class it believes its endpoint to have and asks
`fi_setopt` for a class only when it differs.  What the adapter really has is the
class of the last call that `fi_setopt` accepted, so the list of calls made is kept
next to the object.

`set_tc` stores a class once it is accepted.  The constructor stores its own before
it asks, and does not look at the answer (`tracks_iff_constructed`).
-/

namespace Tempo

open Runs

/-- `CXI_TC`. -/
inductive CxiTc
  | unspecified
  | bestEffort
  | storage
  | bulk
  | lowLatency
  deriving DecidableEq, Repr

/-- What is passed to `fi_setopt`. -/
def CxiTc.value : CxiTc → Nat
  | unspecified => 0
  | bestEffort => 1
  | storage => 2
  | bulk => 4
  | lowLatency => 6

/-- `_GAIN_TO_CXI_TC`. -/
def gainToCxiTcTable : List (ℚ × CxiTc) :=
  [(7 / 10, .lowLatency), (4 / 10, .bulk), (15 / 100, .storage), (0, .bestEffort)]

/-- `_FI_OPT_ENDPOINT`. -/
def fiOptEndpoint : Nat := 0

/-- `_FI_OPT_CXI_TRAFFIC_CLASS`. -/
def fiOptCxiTrafficClass : Nat := 0x4210

/-- What the module finds at import: whether `libfabric` loads, and whether the
machine has CXI devices. -/
structure LibFabric where
  loaded : Bool
  cxiDevices : Bool

/-- `_LIBFABRIC_AVAILABLE`. -/
def LibFabric.available (lib : LibFabric) : Bool :=
  lib.loaded && lib.cxiDevices

/-- One call of `fi_setopt` with its arguments and what it returned. -/
structure Setopt where
  epPtr : Int
  level : Nat
  optname : Nat
  optval : CxiTc
  ret : Int
  deriving DecidableEq, Repr

/-- `CXIEndpointQoS`. -/
structure EndpointQos where
  epPtr : Int
  current : CxiTc
  dryRun : Bool
  setCount : Nat := 0
  deriving DecidableEq, Repr

section Gain

variable {K : Type*} [DivisionRing K] [LinearOrder K]

/-- `gain_to_cxi_tc`. -/
def gainToCxiTc (gainScore : K) : CxiTc :=
  ((gainToCxiTcTable.find? fun row => ((row.1 : ℚ) : K) ≤ gainScore).map Prod.snd).getD
    .bestEffort

end Gain

namespace EndpointQos

variable {lib : LibFabric} {q : EndpointQos} {tc : CxiTc} {ret : Int}

/-- `_apply`; `ret` is what `fi_setopt` returns if it is called.  The answer, the
object after it and the calls made. -/
def apply (lib : LibFabric) (q : EndpointQos) (tc : CxiTc) (ret : Int) :
    Bool × EndpointQos × List Setopt :=
  if q.dryRun then
    (true, { q with setCount := q.setCount + 1 }, [])
  else if lib.loaded = false ∨ q.epPtr = 0 then
    (false, q, [])
  else
    let call : Setopt :=
      { epPtr := q.epPtr, level := fiOptEndpoint, optname := fiOptCxiTrafficClass,
        optval := tc, ret }
    if ret ≠ 0 then
      (false, q, [call])
    else
      (true, { q with setCount := q.setCount + 1 }, [call])

/-- The constructor, which drops the answer of `_apply`. -/
def init (lib : LibFabric) (epPtr : Int) (initialTc : CxiTc) (dryRun : Bool)
    (ret : Int) : EndpointQos × List Setopt :=
  let q : EndpointQos :=
    { epPtr, current := initialTc, dryRun := dryRun || !lib.available }
  if q.dryRun = false then (apply lib q initialTc ret).2 else (q, [])

/-- `set_tc`. -/
def setTc (lib : LibFabric) (q : EndpointQos) (tc : CxiTc) (ret : Int) :
    Bool × EndpointQos × List Setopt :=
  if tc = q.current then
    (false, q, [])
  else
    let result := apply lib q tc ret
    if result.1 then
      (true, { result.2.1 with current := tc }, result.2.2)
    else
      result

/-- `set_tc_for_gain`. -/
def setTcForGain {K : Type*} [DivisionRing K] [LinearOrder K] (lib : LibFabric)
    (q : EndpointQos) (gainScore : K) (ret : Int) :
    CxiTc × EndpointQos × List Setopt :=
  let tc := gainToCxiTc gainScore
  (tc, (setTc lib q tc ret).2)

/-- The endpoint's own calls can reach the adapter. -/
structure Live (lib : LibFabric) (q : EndpointQos) : Prop where
  wet : q.dryRun = false
  loaded : lib.loaded = true
  pointer : q.epPtr ≠ 0

/-- The call that `_apply` makes. -/
def setopt (q : EndpointQos) (tc : CxiTc) (ret : Int) : Setopt :=
  { epPtr := q.epPtr, level := fiOptEndpoint, optname := fiOptCxiTrafficClass,
    optval := tc, ret }

theorem apply_epPtr : (apply lib q tc ret).2.1.epPtr = q.epPtr := by
  grind [apply]

theorem apply_dryRun : (apply lib q tc ret).2.1.dryRun = q.dryRun := by
  grind [apply]

theorem init_epPtr {epPtr : Int} {dryRun : Bool} :
    (init lib epPtr tc dryRun ret).1.epPtr = epPtr := by
  grind [init, apply_epPtr]

theorem init_dryRun {epPtr : Int} {dryRun : Bool} :
    (init lib epPtr tc dryRun ret).1.dryRun = (dryRun || !lib.available) := by
  grind [init, apply_dryRun]

theorem apply_accepted (hlive : Live lib q) :
    apply lib q tc 0 =
      (true, { q with setCount := q.setCount + 1 }, [q.setopt tc 0]) := by
  simp [apply, setopt, hlive.wet, hlive.loaded, hlive.pointer]

theorem apply_refused (hlive : Live lib q) (hret : ret ≠ 0) :
    apply lib q tc ret = (false, q, [q.setopt tc ret]) := by
  simp [apply, setopt, hlive.wet, hlive.loaded, hlive.pointer, hret]

theorem setTc_same : setTc lib q q.current ret = (false, q, []) := by
  simp [setTc]

theorem setTc_accepted (hlive : Live lib q) (htc : tc ≠ q.current) :
    setTc lib q tc 0 =
      (true, { q with current := tc, setCount := q.setCount + 1 },
        [q.setopt tc 0]) := by
  simp [setTc, htc, apply_accepted hlive]

theorem setTc_refused (hlive : Live lib q) (htc : tc ≠ q.current) (hret : ret ≠ 0) :
    setTc lib q tc ret = (false, q, [q.setopt tc ret]) := by
  simp [setTc, htc, apply_refused hlive hret]

end EndpointQos

/-- A call on the object, with the answer that `fi_setopt` has for it. -/
inductive QosCall (K : Type*)
  | setTc (tc : CxiTc) (ret : Int)
  | setTcForGain (gainScore : K) (ret : Int)

/-- The object, and the calls of `fi_setopt` so far, the last one last. -/
structure EndpointRun where
  qos : EndpointQos
  setopts : List Setopt
  deriving DecidableEq, Repr

namespace EndpointRun

open EndpointQos

variable {K : Type*} [DivisionRing K] [LinearOrder K] {lib : LibFabric}
  {s t : EndpointRun}

/-- After the constructor. -/
def start (lib : LibFabric) (epPtr : Int) (initialTc : CxiTc) (dryRun : Bool)
    (ret : Int) : EndpointRun :=
  let built := init lib epPtr initialTc dryRun ret
  { qos := built.1, setopts := built.2 }

/-- The run after a call that left `result`. -/
def after (s : EndpointRun) (result : EndpointQos × List Setopt) : EndpointRun :=
  { qos := result.1, setopts := s.setopts ++ result.2 }

def step (lib : LibFabric) (s : EndpointRun) : QosCall K → Option EndpointRun
  | .setTc tc ret => some (s.after (EndpointQos.setTc lib s.qos tc ret).2)
  | .setTcForGain gainScore ret =>
      some (s.after (EndpointQos.setTcForGain lib s.qos gainScore ret).2)

/-- The class of the last call that `fi_setopt` accepted. -/
def programmed (s : EndpointRun) : Option CxiTc :=
  (s.setopts.reverse.find? fun call => call.ret = 0).map Setopt.optval

/-- `current_tc` is what the adapter has, and `set_tc` leaves `fi_setopt` alone only
for the class that the adapter has. -/
def Tracks (lib : LibFabric) (s : EndpointRun) : Prop :=
  s.programmed = some s.qos.current ∧
    ∀ tc ret, (EndpointQos.setTc lib s.qos tc ret).1 = false →
      (EndpointQos.setTc lib s.qos tc ret).2.2 = [] → s.programmed = some tc

/-- A live endpoint whose class is the one programmed. -/
structure Synced (lib : LibFabric) (s : EndpointRun) : Prop where
  live : Live lib s.qos
  current : s.programmed = some s.qos.current

theorem programmed_append_accepted (s : EndpointRun) (q : EndpointQos) (tc : CxiTc) :
    (s.after (q, [s.qos.setopt tc 0])).programmed = some tc := by
  simp [programmed, after, setopt]

theorem programmed_append_refused (s : EndpointRun) (q : EndpointQos) (tc : CxiTc)
    {ret : Int} (hret : ret ≠ 0) :
    (s.after (q, [s.qos.setopt tc ret])).programmed = s.programmed := by
  simp [programmed, after, setopt, hret]

theorem Synced.tracks (hs : Synced lib s) : Tracks lib s := by
  refine ⟨hs.current, fun tc ret _ hquiet => ?_⟩
  by_cases htc : tc = s.qos.current
  · rw [htc]
    exact hs.current
  · by_cases hret : ret = 0
    · subst hret
      simp [setTc_accepted hs.live htc] at hquiet
    · simp [setTc_refused hs.live htc hret] at hquiet

theorem Synced.setTc (hs : Synced lib s) (tc : CxiTc) (ret : Int) :
    Synced lib (s.after (EndpointQos.setTc lib s.qos tc ret).2) := by
  by_cases htc : tc = s.qos.current
  · have hsame : s.after (EndpointQos.setTc lib s.qos tc ret).2 = s := by
      rw [htc, setTc_same]
      simp [after]
    rw [hsame]
    exact hs
  · by_cases hret : ret = 0
    · subst hret
      rw [setTc_accepted hs.live htc]
      exact ⟨⟨hs.live.wet, hs.live.loaded, hs.live.pointer⟩,
        s.programmed_append_accepted _ tc⟩
    · rw [setTc_refused hs.live htc hret]
      refine ⟨hs.live, ?_⟩
      rw [s.programmed_append_refused _ tc hret]
      exact hs.current

theorem Synced.step {call : QosCall K} (hs : Synced lib s)
    (hstep : step lib s call = some t) : Synced lib t := by
  cases call with
  | setTc tc ret =>
      obtain rfl := Option.some.inj hstep
      exact hs.setTc tc ret
  | setTcForGain gainScore ret =>
      obtain rfl := Option.some.inj hstep
      exact hs.setTc (gainToCxiTc gainScore) ret

theorem start_wet {epPtr : Int} {initialTc : CxiTc} {dryRun : Bool} {ret : Int}
    (hwet : (start lib epPtr initialTc dryRun ret).qos.dryRun = false) :
    dryRun = false ∧ lib.loaded = true ∧ lib.cxiDevices = true := by
  have hkept : (start lib epPtr initialTc dryRun ret).qos.dryRun =
      (dryRun || !lib.available) :=
    init_dryRun
  rw [hkept] at hwet
  simpa [LibFabric.available] using hwet

/-- The object is in step with the adapter after the constructor exactly when its
call was made and accepted. -/
theorem programmed_start_iff {epPtr : Int} {initialTc : CxiTc} {dryRun : Bool}
    {ret : Int} (hwet : (start lib epPtr initialTc dryRun ret).qos.dryRun = false) :
    (start lib epPtr initialTc dryRun ret).programmed =
        some (start lib epPtr initialTc dryRun ret).qos.current ↔
      epPtr ≠ 0 ∧ ret = 0 := by
  obtain ⟨rfl, hloaded, hdevices⟩ := start_wet hwet
  by_cases hptr : epPtr = 0
  · simp [start, init, apply, programmed, LibFabric.available, hloaded, hdevices, hptr]
  · by_cases hret : ret = 0
    · simp [start, init, apply, programmed, LibFabric.available, hloaded, hdevices, hptr,
        hret]
    · simp [start, init, apply, programmed, LibFabric.available, hloaded, hdevices, hptr,
        hret]

/-- **The class kept is the class programmed exactly when the constructor's call
succeeds.** -/
theorem tracks_iff_constructed (lib : LibFabric) (epPtr : Int) (initialTc : CxiTc)
    (dryRun : Bool) (ret : Int)
    (hwet : (start lib epPtr initialTc dryRun ret).qos.dryRun = false)
    (calls : List (QosCall K)) :
    (∀ pre, pre <+: calls →
      ∀ s ∈ exec (step lib) (start lib epPtr initialTc dryRun ret) pre, Tracks lib s) ↔
    epPtr ≠ 0 ∧ ret = 0 := by
  constructor
  · intro hall
    have hfirst : Tracks lib (start lib epPtr initialTc dryRun ret) :=
      hall [] List.nil_prefix _ rfl
    exact (programmed_start_iff hwet).mp hfirst.1
  · intro hmade pre _ s hs
    have hstart : Synced lib (start lib epPtr initialTc dryRun ret) := by
      refine ⟨⟨hwet, (start_wet hwet).2.1, ?_⟩, (programmed_start_iff hwet).mpr hmade⟩
      have hptr : (start lib epPtr initialTc dryRun ret).qos.epPtr = epPtr := init_epPtr
      rw [hptr]
      exact hmade.1
    have hsynced : Synced lib s :=
      (Reachable.of_exec hs).invariant hstart fun _ _ _ hu _ hstep => hu.step hstep
    exact hsynced.tracks

/-- An endpoint that is constructed, then given another class and its own again. -/
theorem tracks_iff_constructed_accepted :
    (∀ pre, pre <+: [QosCall.setTcForGain (3 / 4 : ℚ) (-1), .setTc .bulk 0] →
      ∀ s ∈ exec (step { loaded := true, cxiDevices := true })
        (start { loaded := true, cxiDevices := true } 1 .storage false 0) pre,
        Tracks { loaded := true, cxiDevices := true } s) ↔
    (1 : Int) ≠ 0 ∧ (0 : Int) = 0 :=
  tracks_iff_constructed _ 1 .storage false 0 (by decide) _

/-- The constructor's call is refused: the object says `STORAGE`, which the adapter
never had, and `set_tc` does not ask for it. -/
theorem not_tracks_refused :
    (start { loaded := true, cxiDevices := true } 1 .storage false (-1)).qos.dryRun =
        false ∧
      ∃ s ∈ exec (step { loaded := true, cxiDevices := true })
          (start { loaded := true, cxiDevices := true } 1 .storage false (-1))
          [QosCall.setTc (K := ℚ) .storage 0],
        ¬ Tracks { loaded := true, cxiDevices := true } s := by
  refine ⟨rfl, _, rfl, fun htracks => ?_⟩
  have hcurrent := htracks.1
  revert hcurrent
  decide

end EndpointRun

end Tempo
