import Mathlib.Data.List.Sort
import Mathlib.Tactic.Linarith
import Mathlib.Tactic.NormNum
import Tempo.OrderedDict
import Tempo.Runs

/-!
# The NIC that a flush leaves by

`NVLinkRouter` smooths the transmit rate of each NIC, from the byte counters and from
what flushes report.  `select_egress_gpu` leaves a GPU at its own NIC up to the
saturation threshold, and above it takes the least loaded NIC.  Whether that one is
saturated too is never asked: it only has to be used less by 0.05 of the link
(`proper_iff`).
-/

namespace Tempo

open OrderedDict Runs

/-- `NICStats`. -/
structure NicStats where
  name : String
  gpuIdx : Nat
  emaTxBps : ℚ := 0
  prevTx : Int := 0
  lastPollTs : ℚ := 0

/-- The parameters of a router; NIC `i` of the list is that of GPU `i`. -/
structure NvlinkConfig where
  nicNames : List String
  saturationThreshold : ℚ := 8 / 10
  pollIntervalS : ℚ := 5 / 1000

/-- `NVLinkRouter`. -/
structure NvlinkRouter where
  nicStats : Dict String NicStats
  reroutes : Nat := 0

/-- `_LINK_BPS` -/
def linkBps : ℚ := 200 * 10 ^ 9 / 8

namespace NicStats

/-- `util_fraction` -/
def utilFraction (s : NicStats) : ℚ :=
  min 1 (s.emaTxBps / linkBps)

/-- The EMA with `_EMA_ALPHA`, after a rate. -/
def smooth (s : NicStats) (bps : ℚ) : NicStats :=
  { s with emaTxBps := 3 / 10 * bps + (1 - 3 / 10) * s.emaTxBps }

/-- `_read_nic`, where the counter file says `txBytes`, if it can be read. -/
def readNic (s : NicStats) (txBytes : Option Int) (now : ℚ) : NicStats :=
  match txBytes with
  | none => s
  | some tx =>
      let smoothed :=
        if 0 < s.lastPollTs then
          let dt := max (1 / 1000000) (now - s.lastPollTs)
          s.smooth ((max 0 (tx - s.prevTx) : Int) / dt)
        else s
      { smoothed with prevTx := tx, lastPollTs := now }

theorem smooth_gpuIdx (s : NicStats) (bps : ℚ) : (s.smooth bps).gpuIdx = s.gpuIdx := rfl

theorem readNic_gpuIdx (s : NicStats) (txBytes : Option Int) (now : ℚ) :
    (s.readNic txBytes now).gpuIdx = s.gpuIdx := by
  unfold readNic
  cases txBytes with
  | none => rfl
  | some tx =>
      dsimp only
      split <;> rfl

/-- Higher rates are higher fractions. -/
theorem utilFraction_mono {s s' : NicStats} (h : s.emaTxBps ≤ s'.emaTxBps) :
    s.utilFraction ≤ s'.utilFraction := by
  apply min_le_min_left
  apply div_le_div_of_nonneg_right h
  norm_num [linkBps]

end NicStats

/-- What changes the state of a router: one turn of the poll loop, a flush reported, and
a selection. -/
inductive NvlinkEvent
  | readNic (nic : String) (txBytes : Option Int) (now : ℚ)
  | recordFlushBytes (gpuIdx : Nat) (nBytes : Int)
  | selectEgressGpu (primaryGpu : Nat)

namespace NvlinkRouter

variable {cfg : NvlinkConfig} {r t : NvlinkRouter} {e : NvlinkEvent} {primary gpu : Nat}

/-- The constructor; a name given twice has the statistics of the later GPU. -/
def new (cfg : NvlinkConfig) : NvlinkRouter where
  nicStats := cfg.nicNames.zipIdx.foldl
    (fun d entry => assign d entry.1 { name := entry.1, gpuIdx := entry.2 }) ∅

/-- `_gpu_to_nic.get` -/
def gpuToNic (cfg : NvlinkConfig) (gpu : Nat) : Option String :=
  cfg.nicNames[gpu]?

/-- The statistics of all NICs. -/
def values (r : NvlinkRouter) : List NicStats :=
  r.nicStats.entries.map Sigma.snd

/-- `ranked` -/
def ranked (r : NvlinkRouter) : List NicStats :=
  r.values.insertionSort fun s s' => s.emaTxBps ≤ s'.emaTxBps

/-- `select_egress_gpu`; `none` is for a `KeyError` or an `IndexError`. -/
def selectEgressGpu (cfg : NvlinkConfig) (r : NvlinkRouter) (primaryGpu : Nat) :
    Option (NvlinkRouter × Nat) :=
  match gpuToNic cfg primaryGpu with
  | none => some (r, primaryGpu)
  | some primaryNic =>
      (r.nicStats.lookup primaryNic).bind fun primary =>
        if primary.utilFraction ≤ cfg.saturationThreshold then
          some (r, primaryGpu)
        else
          r.ranked.head?.map fun best =>
            if best.utilFraction < primary.utilFraction - 5 / 100 then
              ({ r with reroutes := r.reroutes + 1 }, best.gpuIdx)
            else
              (r, primaryGpu)

/-- `need_nvlink_relay` -/
def needNvlinkRelay (srcGpu egressGpu : Nat) : Bool := srcGpu != egressGpu

/-- `record_flush_bytes` -/
def recordFlushBytes (cfg : NvlinkConfig) (r : NvlinkRouter) (gpuIdx : Nat)
    (nBytes : Int) : Option NvlinkRouter :=
  match gpuToNic cfg gpuIdx with
  | none => some r
  | some nic =>
      (r.nicStats.lookup nic).map fun stat =>
        { r with
          nicStats := assign r.nicStats nic
            (stat.smooth (nBytes / max cfg.pollIntervalS (1 / 1000000))) }

/-- `get_nic_util` -/
def getNicUtil (cfg : NvlinkConfig) (r : NvlinkRouter) (gpuIdx : Nat) : ℚ :=
  match gpuToNic cfg gpuIdx with
  | none => 0
  | some nic => (r.nicStats.lookup nic).elim 0 NicStats.utilFraction

def step (cfg : NvlinkConfig) (r : NvlinkRouter) : NvlinkEvent → Option NvlinkRouter
  | .readNic nic txBytes now =>
      (r.nicStats.lookup nic).map fun stat =>
        { r with nicStats := assign r.nicStats nic (stat.readNic txBytes now) }
  | .recordFlushBytes gpuIdx nBytes => r.recordFlushBytes cfg gpuIdx nBytes
  | .selectEgressGpu primaryGpu => (r.selectEgressGpu cfg primaryGpu).map Prod.fst

/-- There are statistics for each NIC and no other, with a GPU it belongs to. -/
structure Wired (cfg : NvlinkConfig) (r : NvlinkRouter) : Prop where
  keys : ∀ nic, nic ∈ r.nicStats ↔ nic ∈ cfg.nicNames
  owner : ∀ nic stat, r.nicStats.lookup nic = some stat →
    gpuToNic cfg stat.gpuIdx = some nic

theorem new_wired (cfg : NvlinkConfig) : Wired cfg (new cfg) := by
  have hfold : ∀ (entries : List (String × Nat)) (d : Dict String NicStats),
      (∀ nic, nic ∈ entries.foldl
          (fun d entry => assign d entry.1 { name := entry.1, gpuIdx := entry.2 }) d ↔
        nic ∈ d ∨ nic ∈ entries.map Prod.fst) ∧
      ∀ nic stat, (entries.foldl
          (fun d entry => assign d entry.1 { name := entry.1, gpuIdx := entry.2 })
          d).lookup nic = some stat →
        d.lookup nic = some stat ∨ (nic, stat.gpuIdx) ∈ entries := by
    intro entries
    induction entries with
    | nil => simp
    | cons entry entries ih =>
        intro d
        obtain ⟨hkeys, hlookup⟩ :=
          ih (assign d entry.1 { name := entry.1, gpuIdx := entry.2 })
        refine ⟨fun nic => ?_, fun nic stat hstat => ?_⟩
        · rw [List.foldl_cons, hkeys, mem_assign, List.map_cons, List.mem_cons]
          tauto
        · rw [List.foldl_cons] at hstat
          rcases hlookup nic stat hstat with hassigned | hmem
          · rw [lookup_assign] at hassigned
            by_cases hnic : nic = entry.1
            · rw [if_pos hnic] at hassigned
              obtain rfl := Option.some.inj hassigned
              subst hnic
              exact Or.inr List.mem_cons_self
            · rw [if_neg hnic] at hassigned
              exact Or.inl hassigned
          · exact Or.inr (List.mem_cons_of_mem _ hmem)
  obtain ⟨hkeys, hlookup⟩ := hfold cfg.nicNames.zipIdx ∅
  refine ⟨fun nic => ?_, fun nic stat hstat => ?_⟩
  · have hall := hkeys nic
    rw [List.zipIdx_map_fst] at hall
    simpa [new] using hall
  · rcases hlookup nic stat hstat with hnone | hmem
    · simp at hnone
    · exact List.mem_zipIdx_iff_getElem?.mp hmem

/-- New values for statistics that are there, of the same GPU. -/
theorem Wired.assign (hr : Wired cfg r) {nic : String} {stat stat' : NicStats}
    (hstat : r.nicStats.lookup nic = some stat) (hgpu : stat'.gpuIdx = stat.gpuIdx)
    (reroutes : Nat) :
    Wired cfg { nicStats := OrderedDict.assign r.nicStats nic stat', reroutes } := by
  refine ⟨fun nic' => ?_, fun nic' s hs => ?_⟩
  · rw [mem_assign, ← hr.keys]
    constructor
    · rintro (rfl | hmem)
      · exact mem_of_lookup hstat
      · exact hmem
    · exact Or.inr
  · rw [lookup_assign] at hs
    by_cases hnic : nic' = nic
    · rw [if_pos hnic] at hs
      obtain rfl := Option.some.inj hs
      rw [hgpu, hnic]
      exact hr.owner nic stat hstat
    · rw [if_neg hnic] at hs
      exact hr.owner nic' s hs

theorem Wired.lookup (hr : Wired cfg r) {nic : String} (hnic : gpuToNic cfg gpu = some nic) :
    ∃ stat, r.nicStats.lookup nic = some stat :=
  exists_lookup ((hr.keys nic).mpr (List.mem_of_getElem? hnic))

theorem mem_values {stat : NicStats} :
    stat ∈ r.values ↔ ∃ nic, r.nicStats.lookup nic = some stat := by
  unfold values
  rw [List.mem_map]
  constructor
  · rintro ⟨⟨nic, s⟩, hmem, rfl⟩
    exact ⟨nic, AList.mem_lookup_iff.mpr hmem⟩
  · rintro ⟨nic, hstat⟩
    exact ⟨⟨nic, stat⟩, AList.mem_lookup_iff.mp hstat, rfl⟩

/-- The least loaded NIC is one of those with statistics, and its fraction is least. -/
theorem head_ranked {best : NicStats} (hbest : r.ranked.head? = some best) :
    best ∈ r.values ∧ ∀ stat ∈ r.values, best.utilFraction ≤ stat.utilFraction := by
  have hperm : r.ranked.Perm r.values := List.perm_insertionSort _ _
  obtain ⟨rest, hranked⟩ := List.head?_eq_some_iff.mp hbest
  have hsorted : r.ranked.Pairwise fun s s' => s.emaTxBps ≤ s'.emaTxBps :=
    List.pairwise_insertionSort _ _
  refine ⟨hperm.mem_iff.mp (hranked ▸ List.mem_cons_self), fun stat hstat => ?_⟩
  apply NicStats.utilFraction_mono
  have hmem := hperm.mem_iff.mpr hstat
  rw [hranked] at hmem hsorted
  rcases List.mem_cons.mp hmem with rfl | hlater
  · exact le_rfl
  · exact (List.pairwise_cons.mp hsorted).1 stat hlater

theorem getNicUtil_of_lookup {nic : String} {stat : NicStats}
    (hnic : gpuToNic cfg gpu = some nic) (hstat : r.nicStats.lookup nic = some stat) :
    getNicUtil cfg r gpu = stat.utilFraction := by
  unfold getNicUtil
  rw [hnic]
  dsimp only
  rw [hstat]
  rfl

/-- Every statistics are those of a GPU. -/
theorem Wired.gpu_of_values (hr : Wired cfg r) {stat : NicStats} (hstat : stat ∈ r.values) :
    stat.gpuIdx < cfg.nicNames.length ∧
      getNicUtil cfg r stat.gpuIdx = stat.utilFraction := by
  obtain ⟨nic, hlookup⟩ := mem_values.mp hstat
  have hnic := hr.owner nic stat hlookup
  obtain ⟨hlt, _⟩ := List.getElem?_eq_some_iff.mp hnic
  exact ⟨hlt, getNicUtil_of_lookup hnic hlookup⟩

/-- Every GPU of the node has statistics. -/
theorem Wired.values_of_gpu (hr : Wired cfg r) (hgpu : gpu < cfg.nicNames.length) :
    ∃ nic stat, gpuToNic cfg gpu = some nic ∧ r.nicStats.lookup nic = some stat ∧
      stat ∈ r.values ∧ getNicUtil cfg r gpu = stat.utilFraction := by
  have hnic : gpuToNic cfg gpu = some cfg.nicNames[gpu] := List.getElem?_eq_getElem hgpu
  obtain ⟨stat, hstat⟩ := hr.lookup hnic
  exact ⟨_, stat, hnic, hstat, mem_values.mpr ⟨_, hstat⟩, getNicUtil_of_lookup hnic hstat⟩

/-- Every NIC is above the saturation threshold. -/
def Saturated (cfg : NvlinkConfig) (r : NvlinkRouter) : Prop :=
  ∀ gpu < cfg.nicNames.length, cfg.saturationThreshold < getNicUtil cfg r gpu

/-- The NIC of a known GPU is above the threshold, and another is used less by more than
0.05. -/
structure Improves (cfg : NvlinkConfig) (r : NvlinkRouter) (primary : Nat) : Prop where
  known : primary < cfg.nicNames.length
  above : cfg.saturationThreshold < getNicUtil cfg r primary
  better : ∃ gpu < cfg.nicNames.length,
    getNicUtil cfg r gpu < getNicUtil cfg r primary - 5 / 100

/-- What `select_egress_gpu` answers. -/
theorem selectEgressGpu_cases (hr : Wired cfg r) (primary : Nat) :
    ∃ r' egress, r.selectEgressGpu cfg primary = some (r', egress) ∧
      r'.nicStats = r.nicStats ∧
      ((¬ Improves cfg r primary ∧ egress = primary) ∨
        (Improves cfg r primary ∧ egress ≠ primary ∧ egress < cfg.nicNames.length ∧
          ∀ gpu < cfg.nicNames.length, getNicUtil cfg r egress ≤ getNicUtil cfg r gpu)) := by
  unfold selectEgressGpu
  by_cases hknown : primary < cfg.nicNames.length
  · obtain ⟨nic, stat, hnic, hstat, hmem, hutil⟩ := hr.values_of_gpu hknown
    rw [hnic]
    dsimp only
    rw [hstat, Option.bind_some, ← hutil]
    by_cases hbelow : getNicUtil cfg r primary ≤ cfg.saturationThreshold
    · rw [if_pos hbelow]
      refine ⟨r, primary, rfl, rfl, Or.inl ⟨fun himproves => ?_, rfl⟩⟩
      exact absurd himproves.above (not_lt.mpr hbelow)
    · rw [if_neg hbelow]
      obtain ⟨best, hbest⟩ : ∃ best, r.ranked.head? = some best := by
        apply Option.ne_none_iff_exists'.mp
        rw [ne_eq, List.head?_eq_none_iff]
        intro hempty
        have hperm : r.ranked.Perm r.values := List.perm_insertionSort _ _
        have hranked := hperm.mem_iff.mpr hmem
        rw [hempty] at hranked
        cases hranked
      rw [hbest, Option.map_some]
      obtain ⟨hvalue, hleast⟩ := head_ranked hbest
      obtain ⟨hbestGpu, hbestUtil⟩ := hr.gpu_of_values hvalue
      have hlowest : ∀ gpu < cfg.nicNames.length,
          getNicUtil cfg r best.gpuIdx ≤ getNicUtil cfg r gpu := by
        intro gpu hgpu
        obtain ⟨_, s, _, _, hs, hsUtil⟩ := hr.values_of_gpu hgpu
        rw [hbestUtil, hsUtil]
        exact hleast s hs
      rw [← hbestUtil]
      by_cases hbetter :
          getNicUtil cfg r best.gpuIdx < getNicUtil cfg r primary - 5 / 100
      · rw [if_pos hbetter]
        refine ⟨_, _, rfl, rfl, Or.inr ⟨⟨hknown, not_le.mp hbelow, _, hbestGpu, hbetter⟩,
          fun hsame => ?_, hbestGpu, hlowest⟩⟩
        rw [hsame] at hbetter
        linarith
      · rw [if_neg hbetter]
        refine ⟨_, _, rfl, rfl, Or.inl ⟨fun himproves => ?_, rfl⟩⟩
        obtain ⟨gpu, hgpu, hlower⟩ := himproves.better
        exact hbetter ((hlowest gpu hgpu).trans_lt hlower)
  · have hnone : gpuToNic cfg primary = none :=
      List.getElem?_eq_none (not_lt.mp hknown)
    rw [hnone]
    exact ⟨r, primary, rfl, rfl, Or.inl ⟨fun himproves => hknown himproves.known, rfl⟩⟩

theorem step_wired (hr : Wired cfg r) (hstep : step cfg r e = some t) : Wired cfg t := by
  cases e with
  | readNic nic txBytes now =>
      obtain ⟨stat, hstat, rfl⟩ := Option.map_eq_some_iff.mp hstep
      exact hr.assign hstat (stat.readNic_gpuIdx txBytes now) _
  | recordFlushBytes gpuIdx nBytes =>
      unfold step recordFlushBytes at hstep
      dsimp only at hstep
      split at hstep
      · obtain rfl := Option.some.inj hstep
        exact hr
      · obtain ⟨stat, hstat, rfl⟩ := Option.map_eq_some_iff.mp hstep
        exact hr.assign hstat (stat.smooth_gpuIdx _) _
  | selectEgressGpu primary =>
      obtain ⟨⟨r', egress⟩, hselect, rfl⟩ := Option.map_eq_some_iff.mp hstep
      obtain ⟨r'', egress', hsome, hstats, _⟩ := selectEgressGpu_cases hr primary
      obtain ⟨rfl, rfl⟩ := Prod.mk.inj (Option.some.inj (hselect.symm.trans hsome))
      exact ⟨fun nic => by rw [hstats]; exact hr.keys nic,
        fun nic stat hstat => hr.owner nic stat (by rw [← hstats]; exact hstat)⟩

theorem reachable_wired (hreach : Reachable (step cfg) (new cfg) r) : Wired cfg r :=
  hreach.invariant (new_wired cfg) fun _ _ _ hr _ hstep => step_wired hr hstep

/-- Another GPU is only taken from a saturated NIC to one that is not and that no other
is below, and none where all are saturated. -/
structure Proper (cfg : NvlinkConfig) (r : NvlinkRouter) (primary egress : Nat) : Prop where
  reroute : egress ≠ primary →
    cfg.saturationThreshold < getNicUtil cfg r primary ∧
      egress < cfg.nicNames.length ∧
      getNicUtil cfg r egress ≤ cfg.saturationThreshold ∧
      ∀ gpu < cfg.nicNames.length, getNicUtil cfg r egress ≤ getNicUtil cfg r gpu
  fallback : Saturated cfg r → egress = primary

/-- **A selection is proper exactly where, if all NICs are saturated, none is used less
than the primary by more than 0.05.** -/
theorem proper_iff (cfg : NvlinkConfig) {r : NvlinkRouter}
    (hreach : Reachable (step cfg) (new cfg) r) (primary : Nat) :
    ∃ r' egress, r.selectEgressGpu cfg primary = some (r', egress) ∧
      (Proper cfg r primary egress ↔
        (primary < cfg.nicNames.length → Saturated cfg r →
          ∀ gpu < cfg.nicNames.length,
            getNicUtil cfg r primary - 5 / 100 ≤ getNicUtil cfg r gpu)) := by
  obtain ⟨r', egress, hselect, _, ⟨hstay, rfl⟩ | ⟨himproves, hne, hlt, hlowest⟩⟩ :=
    selectEgressGpu_cases (reachable_wired hreach) primary
  · refine ⟨r', egress, hselect, iff_of_true ⟨fun hne => absurd rfl hne, fun _ => rfl⟩ ?_⟩
    intro hknown hsaturated gpu hgpu
    by_contra hlower
    exact hstay ⟨hknown, hsaturated egress hknown, gpu, hgpu, not_le.mp hlower⟩
  · refine ⟨r', egress, hselect, ?_⟩
    obtain ⟨hknown, habove, gpu, hgpu, hlower⟩ := himproves
    constructor
    · intro hproper _ hsaturated
      exact absurd (hproper.fallback hsaturated) hne
    · intro hclose
      have hfree : ¬ Saturated cfg r := by
        intro hsaturated
        have hle := hclose hknown hsaturated gpu hgpu
        linarith
      refine ⟨fun _ => ⟨habove, hlt, ?_, hlowest⟩, fun hsaturated => absurd hsaturated hfree⟩
      unfold Saturated at hfree
      push Not at hfree
      obtain ⟨other, hother, hle⟩ := hfree
      exact (hlowest other hother).trans hle

instance : Decidable (Saturated cfg r) := by
  unfold Saturated
  infer_instance

/-- A node with two NICs. -/
def twoNics : NvlinkConfig where
  nicNames := ["hsn0", "hsn1"]

/-- One NIC has flushed 10^9 bytes, the other is idle. -/
theorem proper_one_busy :
    ∃ r ∈ exec (step twoNics) (new twoNics) [.recordFlushBytes 0 (10 ^ 9)],
      ∃ r' egress, r.selectEgressGpu twoNics 0 = some (r', egress) ∧
        (Proper twoNics r 0 egress ↔
          (0 < twoNics.nicNames.length → Saturated twoNics r →
            ∀ gpu < twoNics.nicNames.length,
              getNicUtil twoNics r 0 - 5 / 100 ≤ getNicUtil twoNics r gpu)) := by
  obtain ⟨r, hr⟩ : ∃ r, exec (step twoNics) (new twoNics)
      [.recordFlushBytes 0 (10 ^ 9)] = some r :=
    Option.isSome_iff_exists.mp (by decide +kernel)
  exact ⟨r, hr, proper_iff twoNics (Reachable.of_exec hr) 0⟩

/-- Both NICs are above the threshold, at 1 and 0.852: the flush of GPU 0 leaves by the
other one. -/
theorem not_proper_both_busy :
    ∃ r, Reachable (step twoNics) (new twoNics) r ∧
      ∃ r' egress, r.selectEgressGpu twoNics 0 = some (r', egress) ∧
        ¬ Proper twoNics r 0 egress := by
  have hrun : (exec (step twoNics) (new twoNics)
      [.recordFlushBytes 0 (10 ^ 9), .recordFlushBytes 1 (355 * 10 ^ 6)]).any
      (fun r => decide (Saturated twoNics r) &&
        (r.selectEgressGpu twoNics 0).any fun selected => selected.2 == 1) = true := by
    decide +kernel
  obtain ⟨r, hr, hboth⟩ := (Option.any_eq_true _ _).mp hrun
  obtain ⟨hsaturated, hselect⟩ := Bool.and_eq_true_iff.mp hboth
  obtain ⟨⟨r', egress⟩, hsome, hegress⟩ := (Option.any_eq_true _ _).mp hselect
  refine ⟨r, Reachable.of_exec hr, r', egress, hsome, fun hproper => ?_⟩
  have hprimary := hproper.fallback (of_decide_eq_true hsaturated)
  simp [hprimary] at hegress

end NvlinkRouter

end Tempo
