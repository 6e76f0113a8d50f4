import Mathlib.Algebra.Order.Field.Basic
import Mathlib.Data.Rat.Cast.Order
import Tempo.EndpointQos
import Tempo.ThresholdLevels

/-!
# Socket classes and fabric classes

`QoSMapper.classify` gives a transfer one of four classes for its socket,
`gain_to_cxi_tc` one of four for its endpoint, and `cxi_tc_to_socket_tc` translates the
second into the first.  Both cut the range of gains at the same thresholds.

`classify` first raises the gain by the urgency, which the other does not know of.  So
the fabric class is that of the socket for the raised gain, and for the gain itself
where raising it reaches no threshold (`classes_agree_iff`).
-/

namespace Tempo

open ThresholdLevels

/-- `TC`. -/
inductive Tc
  | background
  | storage
  | bulk
  | latency
  deriving DecidableEq, Repr

def Tc.value : Tc → Nat
  | background => 0
  | storage => 1
  | bulk => 2
  | latency => 3

/-- `_TC_DSCP`. -/
def tcDscp : Tc → Nat
  | .background => 0
  | .storage => 18
  | .bulk => 34
  | .latency => 46

/-- `_TC_SO_PRIO`. -/
def tcSoPrio : Tc → Nat
  | .background => 0
  | .storage => 2
  | .bulk => 4
  | .latency => 6

/-- The names of the enumeration. -/
def Tc.name : Tc → String
  | background => "BACKGROUND"
  | storage => "STORAGE"
  | bulk => "BULK"
  | latency => "LATENCY"

structure TrafficClass where
  tc : Tc
  dscp : Nat
  tosByte : Nat
  soPrio : Nat
  name : String
  deriving DecidableEq, Repr

/-- `_build_tc`. -/
def buildTc (tc : Tc) : TrafficClass where
  tc := tc
  dscp := tcDscp tc
  tosByte := tcDscp tc <<< 2
  soPrio := tcSoPrio tc
  name := tc.name

/-- `TC_CLASSES[tc]`. -/
def tcClasses (tc : Tc) : TrafficClass :=
  buildTc tc

/-- `traffic_type`. -/
inductive TrafficType
  | kvCache
  | checkpoint
  | nccl
  | bgIo
  | other (name : String)
  deriving DecidableEq

/-- `QoSMapper`, with what classifying reads and counts. -/
structure QosMapper where
  enabled : Bool := true
  counters : Tc → Nat := fun _ => 0
  bytes : Tc → Int := fun _ => 0

/-- `_CXI_TC_TO_SOCKET_TC`, and `cxi_tc_to_socket_tc`. -/
def cxiTcToSocketTc : CxiTc → Tc
  | .unspecified => .background
  | .bestEffort => .background
  | .storage => .storage
  | .bulk => .bulk
  | .lowLatency => .latency

namespace QosMapper

/-- `GAIN_TC3` -/
def gainTc3 : ℚ := 7 / 10

/-- `GAIN_TC2` -/
def gainTc2 : ℚ := 4 / 10

/-- `GAIN_TC1` -/
def gainTc1 : ℚ := 15 / 100

/-- What the urgency is weighted with. -/
def urgencyWeight : ℚ := 8 / 100

section Classify

variable {K : Type*} [DivisionRing K] [LinearOrder K]

/-- `eff` -/
def effectiveGain (gain urgency : K) : K :=
  min 1 (gain + (urgencyWeight : K) * urgency)

/-- The class of a transfer that no fixed class is for. -/
def tcOfGain (eff : K) : Tc :=
  if (gainTc3 : K) ≤ eff then .latency
  else if (gainTc2 : K) ≤ eff then .bulk
  else if (gainTc1 : K) ≤ eff then .storage
  else .background

/-- `classify` -/
def classify (m : QosMapper) (gain : K) (trafficType : TrafficType) (urgency : K)
    (sizeBytes : Int) : TrafficClass × QosMapper :=
  if m.enabled = false then
    (tcClasses .background, m)
  else
    let tc :=
      match trafficType with
      | .nccl => .latency
      | .bgIo => .background
      | _ => tcOfGain (effectiveGain gain urgency)
    (tcClasses tc,
      { m with
        counters := Function.update m.counters tc (m.counters tc + 1)
        bytes := Function.update m.bytes tc (m.bytes tc + sizeBytes) })

end Classify

section Levels

variable {K : Type*} [Field K] [LinearOrder K] [IsStrictOrderedRing K]
  {gain urgency : K} {m : QosMapper} {trafficType : TrafficType} {sizeBytes : Int}

/-- The thresholds of both, in `K`. -/
def thresholds (K : Type*) [DivisionRing K] : List K :=
  [((gainTc1 : ℚ) : K), ((gainTc2 : ℚ) : K), ((gainTc3 : ℚ) : K)]

theorem thresholds_ordered :
    (gainTc1 : K) < (gainTc2 : K) ∧ (gainTc2 : K) < (gainTc3 : K) := by
  constructor
  · exact Rat.cast_lt.mpr (by decide +kernel)
  · exact Rat.cast_lt.mpr (by decide +kernel)

theorem thresholds_le_one : ∀ t ∈ thresholds K, t ≤ 1 := by
  have hone : ∀ q : ℚ, q ≤ 1 → (q : K) ≤ 1 := by
    intro q hq
    rw [← Rat.cast_one]
    exact Rat.cast_le.mpr hq
  intro t ht
  simp only [thresholds, List.mem_cons, List.not_mem_nil, or_false] at ht
  rcases ht with rfl | rfl | rfl
  · exact hone gainTc1 (by decide +kernel)
  · exact hone gainTc2 (by decide +kernel)
  · exact hone gainTc3 (by decide +kernel)

/-- The classes are the levels of the thresholds. -/
theorem tcOfGain_value (eff : K) : (tcOfGain eff).value = level (thresholds K) eff := by
  obtain ⟨h12, h23⟩ := thresholds_ordered (K := K)
  unfold tcOfGain thresholds
  rw [level_cons, level_cons, level_cons]
  by_cases h3 : (gainTc3 : K) ≤ eff
  · have h2 : (gainTc2 : K) ≤ eff := h23.le.trans h3
    have h1 : (gainTc1 : K) ≤ eff := h12.le.trans h2
    simp [h1, h2, h3, level, Tc.value]
  · by_cases h2 : (gainTc2 : K) ≤ eff
    · have h1 : (gainTc1 : K) ≤ eff := h12.le.trans h2
      simp [h1, h2, h3, level, Tc.value]
    · by_cases h1 : (gainTc1 : K) ≤ eff
      · simp [h1, h2, h3, level, Tc.value]
      · simp [h1, h2, h3, level, Tc.value]

omit [IsStrictOrderedRing K] in
/-- `gain_to_cxi_tc` is the same ladder. -/
theorem cxiTcToSocketTc_gainToCxiTc (gain : K) :
    cxiTcToSocketTc (gainToCxiTc gain) = tcOfGain gain := by
  have h3 : ((7 / 10 : ℚ) : K) = (gainTc3 : K) := rfl
  have h2 : ((4 / 10 : ℚ) : K) = (gainTc2 : K) := rfl
  have h1 : ((15 / 100 : ℚ) : K) = (gainTc1 : K) := rfl
  unfold gainToCxiTc gainToCxiTcTable tcOfGain
  simp only [List.find?_cons, List.find?_nil, h1, h2, h3]
  by_cases hlatency : (gainTc3 : K) ≤ gain
  · simp [hlatency, cxiTcToSocketTc]
  · by_cases hbulk : (gainTc2 : K) ≤ gain
    · simp [hlatency, hbulk, cxiTcToSocketTc]
    · by_cases hstorage : (gainTc1 : K) ≤ gain
      · simp [hlatency, hbulk, hstorage, cxiTcToSocketTc]
      · by_cases hzero : 0 ≤ gain
        · simp [hlatency, hbulk, hstorage, hzero, cxiTcToSocketTc]
        · simp [hlatency, hbulk, hstorage, hzero, cxiTcToSocketTc]

omit [IsStrictOrderedRing K] in
theorem gainToCxiTc_ne_unspecified (gain : K) : gainToCxiTc gain ≠ .unspecified := by
  have hrows : ∀ row ∈ gainToCxiTcTable, row.2 ≠ .unspecified := by decide
  unfold gainToCxiTc
  cases hrow : gainToCxiTcTable.find? fun row => ((row.1 : ℚ) : K) ≤ gain with
  | none => simp
  | some row => exact hrows row (List.mem_of_find?_eq_some hrow)

/-- Of classes in use, the socket has them in the order of the fabric. -/
theorem value_le_of_socket {a b : CxiTc} (hb : b ≠ .unspecified)
    (h : (cxiTcToSocketTc a).value ≤ (cxiTcToSocketTc b).value) : a.value ≤ b.value := by
  revert hb h
  cases a <;> cases b <;> decide

omit [IsStrictOrderedRing K] in
/-- Enabled, a mapper has its own class for the transfers that no fixed class is for. -/
theorem classify_tc (henabled : m.enabled = true)
    (htype : trafficType = .checkpoint ∨ trafficType = .kvCache) :
    (m.classify gain trafficType urgency sizeBytes).1.tc =
      tcOfGain (effectiveGain gain urgency) := by
  unfold classify
  rw [if_neg (by simp [henabled])]
  rcases htype with rfl | rfl
  · rfl
  · rfl

theorem gain_le_raised (hurgency : 0 ≤ urgency) :
    gain ≤ gain + (urgencyWeight : K) * urgency := by
  have hweight : (0 : K) ≤ (urgencyWeight : K) := by
    rw [← Rat.cast_zero]
    exact Rat.cast_le.mpr (by decide +kernel)
  exact le_add_of_nonneg_right (mul_nonneg hweight hurgency)

theorem tc_eq_iff {a b : Tc} : a = b ↔ a.value = b.value := by
  constructor
  · exact congrArg Tc.value
  · cases a <;> cases b <;> decide

/-- The classes agree at the gain itself where the urgency lifts it over no threshold. -/
theorem socket_eq_iff (hurgency : 0 ≤ urgency) :
    cxiTcToSocketTc (gainToCxiTc gain) = tcOfGain (effectiveGain gain urgency) ↔
      ∀ t ∈ thresholds K, t ≤ gain + (urgencyWeight : K) * urgency → t ≤ gain := by
  rw [cxiTcToSocketTc_gainToCxiTc, tc_eq_iff, tcOfGain_value, tcOfGain_value,
    effectiveGain, level_min thresholds_le_one, level_eq_iff (gain_le_raised hurgency)]

theorem tcOfGain_mono {eff eff' : K} (h : eff ≤ eff') :
    (tcOfGain eff).value ≤ (tcOfGain eff').value := by
  rw [tcOfGain_value, tcOfGain_value]
  exact level_mono h

theorem effectiveGain_mono {gain' : K} (h : gain ≤ gain') :
    effectiveGain gain urgency ≤ effectiveGain gain' urgency :=
  min_le_min_left 1 (add_le_add_left h _)

/-- **The fabric class of the raised gain is the socket class**; for the gain itself it
is where raising it reaches no threshold, and both rise with the gain. -/
theorem classes_agree_iff (m : QosMapper) (henabled : m.enabled = true)
    (htype : trafficType = .checkpoint ∨ trafficType = .kvCache) (gain : K)
    (hurgency : 0 ≤ urgency) (sizeBytes : Int) :
    cxiTcToSocketTc (gainToCxiTc (effectiveGain gain urgency)) =
        (m.classify gain trafficType urgency sizeBytes).1.tc ∧
      (cxiTcToSocketTc (gainToCxiTc gain) =
          (m.classify gain trafficType urgency sizeBytes).1.tc ↔
        ∀ t ∈ thresholds K, t ≤ gain + (urgencyWeight : K) * urgency → t ≤ gain) ∧
      ∀ gain', gain ≤ gain' →
        (gainToCxiTc gain).value ≤ (gainToCxiTc gain').value ∧
          (m.classify gain trafficType urgency sizeBytes).1.tc.value ≤
            (m.classify gain' trafficType urgency sizeBytes).1.tc.value := by
  simp only [classify_tc henabled htype]
  refine ⟨cxiTcToSocketTc_gainToCxiTc _, socket_eq_iff hurgency, fun gain' h => ⟨?_, ?_⟩⟩
  · apply value_le_of_socket (gainToCxiTc_ne_unspecified gain')
    rw [cxiTcToSocketTc_gainToCxiTc, cxiTcToSocketTc_gainToCxiTc]
    exact tcOfGain_mono h
  · exact tcOfGain_mono (effectiveGain_mono h)

end Levels

/-- A gain well inside its class, with the default urgency. -/
theorem classes_agree_inside :
    cxiTcToSocketTc (gainToCxiTc (effectiveGain (1 / 2 : ℚ) (1 / 2))) =
        (({} : QosMapper).classify (1 / 2 : ℚ) .checkpoint (1 / 2) 0).1.tc ∧
      (cxiTcToSocketTc (gainToCxiTc (1 / 2 : ℚ)) =
          (({} : QosMapper).classify (1 / 2 : ℚ) .checkpoint (1 / 2) 0).1.tc ↔
        ∀ t ∈ thresholds ℚ, t ≤ 1 / 2 + (urgencyWeight : ℚ) * (1 / 2) → t ≤ 1 / 2) ∧
      ∀ gain', (1 / 2 : ℚ) ≤ gain' →
        (gainToCxiTc (1 / 2 : ℚ)).value ≤ (gainToCxiTc gain').value ∧
          (({} : QosMapper).classify (1 / 2 : ℚ) .checkpoint (1 / 2) 0).1.tc.value ≤
            (({} : QosMapper).classify gain' .checkpoint (1 / 2) 0).1.tc.value :=
  classes_agree_iff {} rfl (Or.inl rfl) (1 / 2) (by norm_num) 0

/-- The default urgency lifts a gain of 0.66 into the highest class. -/
theorem classes_differ :
    cxiTcToSocketTc (gainToCxiTc (66 / 100 : ℚ)) = .bulk ∧
      (({} : QosMapper).classify (66 / 100 : ℚ) .kvCache (1 / 2) 0).1.tc = .latency := by
  decide +kernel

end QosMapper

end Tempo
