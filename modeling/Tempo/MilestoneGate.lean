import Mathlib.Tactic.Linarith
import Mathlib.Tactic.Ring
import Tempo.SchedulerRuns

/-!
# Milestones at the gates of V2

Two deciders of `TEMPOSchedulerV2.checkpoint` can keep a step from being saved:
the PCIe look-ahead, and the service gain.  The milestone override is in the
gain only, so a milestone is saved exactly when its flush fits on the bus in
the window it is given (`FlushFits`).
-/

namespace Tempo

namespace ServiceGain

variable {exp : ℚ → ℚ} {g : ServiceGain ℚ} {m n : Int} {now : ℚ}

/-- What no call changes of the scheduler that `TEMPOSchedulerV2` builds. -/
structure Built (m : Int) (g : ServiceGain ℚ) : Prop where
  interval : g.milestoneInterval = m
  deadline : g.sloDeadlineSteps = 100

theorem built_ofMilestone (m : Int) : (ofMilestone m).Built m := ⟨rfl, rfl⟩

theorem Built.closeJob (h : g.Built m) (p : FlushPriority ℚ) :
    (g.closeJob now p).Built m := by
  unfold ServiceGain.closeJob
  dsimp only
  split
  · exact ⟨h.interval, h.deadline⟩
  · split <;> exact ⟨h.interval, h.deadline⟩

theorem Built.submitJob (h : g.Built m) :
    (g.submitJob exp n now).1.Built m := by
  have hopened : (g.openJob n).Built m := ⟨h.interval, h.deadline⟩
  unfold ServiceGain.submitJob
  dsimp only
  cases (g.openJob n).computeGain exp n with
  | none => exact hopened
  | some gain => exact hopened.closeJob _

/-- A milestone has the milestone gain, whatever else the scheduler knows. -/
theorem Built.jobGain_milestone (h : g.Built m) (hn : 0 < n) (hm : m ∣ n) :
    g.jobGain exp n = some milestoneGain := by
  have hinterval : (g.openJob n).milestoneInterval = m := h.interval
  have hdeadline : (g.openJob n).sloDeadlineSteps = 100 := h.deadline
  have hne : m ≠ 0 := by
    rintro rfl
    exact hn.ne' (Int.zero_dvd.mp hm)
  have hmilestone : (g.openJob n).isMilestone n = true := by
    simp [isMilestone, hinterval, hn, Int.emod_eq_zero_of_dvd hm]
  unfold jobGain computeGain
  rw [if_neg (by rw [hdeadline]; decide), if_neg (by simp [hinterval, hne]),
    if_pos hmilestone]

end ServiceGain

namespace PCIePressurePredictor

/-- The look-ahead defers a flush that presses on the bus by half again what it
carries, unless idle rails have the headroom for it. -/
theorem routeDecision_defer_iff (kvBytes : Int) (window nccl : ℚ)
    (nIdleRails : Int) :
    routeDecision kvBytes window nccl nIdleRails 0 = .defer ↔
      96000000000 ≤ predictFlushBw kvBytes window + nccl ∧
        (0 < nIdleRails → (64000000000 - nccl) * nIdleRails <
          predictFlushBw kvBytes window) := by
  have hceiling : ceilingOr (ceilingOr (0 : ℚ)) = 64000000000 := by
    norm_num [ceilingOr, pcieCeilingBps]
  have hpressure : ∀ q : ℚ,
      pciePressure (predictFlushBw kvBytes window) nccl (ceilingOr 0) < q ↔
        predictFlushBw kvBytes window + nccl < q * 64000000000 := by
    intro q
    unfold pciePressure
    rw [hceiling, div_lt_iff₀ (by norm_num)]
  unfold routeDecision
  dsimp only
  simp only [hpressure]
  generalize predictFlushBw kvBytes window = flushBw
  have hone : ceilingOr (0 : ℚ) = 64000000000 := by
    norm_num [ceilingOr, pcieCeilingBps]
  rw [hone]
  split
  next hproceed =>
    simp only [reduceCtorEq, false_iff]
    rintro ⟨hover, -⟩
    norm_num at hproceed
    linarith
  next =>
    split
    next hlimit =>
      obtain ⟨hidle, hfits⟩ := hlimit
      rw [max_eq_right (by omega)] at hfits
      simp only [reduceCtorEq, false_iff]
      rintro ⟨-, hover⟩
      exact absurd (hover hidle) (not_lt.mpr hfits)
    next hlimit =>
      split
      next hdelay =>
        simp only [reduceCtorEq, false_iff]
        rintro ⟨hover, -⟩
        norm_num at hdelay
        linarith
      next hdelay =>
        simp only [true_iff]
        refine ⟨by norm_num at hdelay; linarith, fun hidle => ?_⟩
        rw [max_eq_right (by omega)] at hlimit
        exact lt_of_not_ge fun hfits => hlimit ⟨hidle, hfits⟩

end PCIePressurePredictor

namespace Scheduler

variable {cfg : SchedConfig} {s t : Scheduler} {m n : Int}
  {metadata : Option Metadata} {env : CkptEnv}

/-- The bus can take the flush: with the collectives it needs less than half
again the ceiling of 64 GB/s, or there are idle rails with enough headroom.
The window to flush in is half an NCCL phase, and 10 ms at least. -/
def FlushFits (metadata : Option Metadata) (env : CkptEnv) : Prop :=
  let flushBw : ℚ := kvBytes (metadata.getD {}) /
    max (10 / 1000) (env.ncclPhaseDurationMs / 2000)
  flushBw + env.ncclBps < 96000000000 ∨
    (0 < env.nIdleRails ∧
      flushBw ≤ (64000000000 - env.ncclBps) * env.nIdleRails)

theorem lookAheadDefers_iff :
    lookAheadDefers metadata env = true ↔ ¬ FlushFits metadata env := by
  have hwindow : env.ncclPhaseDurationMs * (1 / 1000) * (5 / 10) =
      env.ncclPhaseDurationMs / 2000 := by
    ring
  have hmax : ∀ x : ℚ, max (max (10 / 1000) x) (1 / 1000000000) =
      max (10 / 1000) x := fun x =>
    max_eq_left (le_trans (by norm_num) (le_max_left _ _))
  have hdefers : lookAheadDefers metadata env = true ↔
      lookAhead (metadata.getD {}) env = .defer := by
    unfold lookAheadDefers
    cases lookAhead (metadata.getD {}) env <;> simp
  rw [hdefers]
  unfold lookAhead FlushFits
  dsimp only
  rw [PCIePressurePredictor.routeDecision_defer_iff]
  unfold PCIePressurePredictor.predictFlushBw
  rw [hmax, hwindow]
  simp only [not_or, not_lt, not_and, not_le]

/-- The service gain is there and has the property. -/
def GainHas (P : ServiceGain ℚ → Prop) (s : Scheduler) : Prop :=
  ∃ g, s.svcGain = some g ∧ P g

/-- The calls that V2 makes of the service gain keep the property. -/
structure GainKept (exp : ℚ → ℚ) (P : ServiceGain ℚ → Prop) : Prop where
  updateStep : ∀ g n, P g → P (g.updateStep n)
  submitJob : ∀ g n now, P g → P (g.submitJob exp n now).1

section GainHas

variable {P : ServiceGain ℚ → Prop}

theorem GainHas.map {f : ServiceGain ℚ → ServiceGain ℚ} (h : GainHas P s)
    (hf : ∀ g, P g → P (f g)) :
    GainHas P { s with svcGain := s.svcGain.map f } := by
  obtain ⟨g, hg, hbuilt⟩ := h
  exact ⟨f g, by simp [hg], hf g hbuilt⟩

theorem GainHas.submitJob (hP : GainKept cfg.exp P) (h : GainHas P s) (n : Int)
    (now : ℚ) : GainHas P (submitJob cfg s n now).1 := by
  obtain ⟨g, hg, hbuilt⟩ := h
  unfold Scheduler.submitJob
  rw [hg]
  exact ⟨_, rfl, hP.submitJob g n now hbuilt⟩

theorem GainHas.checkpointV1 (h : GainHas P s) :
    GainHas P (checkpointV1 cfg s n env).1 := by
  unfold Scheduler.checkpointV1
  cases cfg.mode with
  | tempo => exact h
  | baseline => dsimp only; split <;> exact h

theorem GainHas.gateV2 (hP : GainKept cfg.exp P) (h : GainHas P s) :
    GainHas P (gateV2 cfg s n env).1 := by
  have hsubmitted : GainHas P (Scheduler.submitJob cfg s n env.submitV2).1 :=
    h.submitJob hP n env.submitV2
  unfold Scheduler.gateV2
  dsimp only
  split
  · exact hsubmitted
  · split
    · exact hsubmitted
    · exact hsubmitted.checkpointV1

theorem GainHas.deferV2 (hP : GainKept cfg.exp P) (h : GainHas P s) :
    GainHas P (deferV2 cfg s n env).1 := by
  have hsubmitted : GainHas P (Scheduler.submitJob cfg s n env.submitV2).1 :=
    h.submitJob hP n env.submitV2
  unfold Scheduler.deferV2
  dsimp only
  split <;> exact hsubmitted

/-- A checkpoint of V2 keeps what its calls of the service gain keep. -/
theorem GainHas.checkpointV2 (hP : GainKept cfg.exp P) (h : GainHas P s) :
    GainHas P (checkpointV2 cfg s n metadata env).1 := by
  have hupdated : GainHas P
      { s with svcGain := s.svcGain.map (·.updateStep n) } :=
    h.map fun g hg => hP.updateStep g n hg
  unfold Scheduler.checkpointV2
  dsimp only
  split
  · exact hupdated.checkpointV1
  · split
    · exact hupdated.deferV2 hP
    · exact hupdated.gateV2 hP
    · exact hupdated.gateV2 hP
    · exact hupdated.gateV2 hP

end GainHas

/-- The service gain is there, as it was built. -/
def GainBuilt (m : Int) (s : Scheduler) : Prop :=
  ∃ g, s.svcGain = some g ∧ g.Built m

theorem gainKept_built (exp : ℚ → ℚ) (m : Int) :
    GainKept exp (ServiceGain.Built m) where
  updateStep _ _ h := ⟨h.interval, h.deadline⟩
  submitJob _ _ _ h := h.submitJob

/-- A `TEMPOSchedulerV2` under the events of the layered scheduler; it has no
nano-overlap controller. -/
def stepV2 (cfg : SchedConfig) (s : Scheduler) : SchedEvent → Option Scheduler
  | .checkpoint n env => some (checkpointV2 cfg s n env.metadata env).1
  | .nanoIo _ _ _ => none
  | e => s.step cfg e

theorem GainBuilt.stepV2 {e : SchedEvent} (h : GainBuilt m s)
    (hstep : stepV2 cfg s e = some t) : GainBuilt m t := by
  cases e with
  | checkpoint n env =>
      obtain rfl := Option.some.inj hstep
      exact GainHas.checkpointV2 (gainKept_built cfg.exp m) h
  | nanoIo _ _ _ => cases hstep
  | updateStep _ | markCommitted _ | setCongested _ =>
      obtain rfl := Option.some.inj hstep
      exact GainHas.map h fun g hg => ⟨hg.interval, hg.deadline⟩
  | setGlobalLinkSaturated _ | registerPeerGroups _ =>
      obtain rfl := Option.some.inj hstep
      exact h

/-- The service gain neither raises for a milestone nor recommends to recompute
it. -/
theorem GainBuilt.milestone (h : GainBuilt m s) (hn : 0 < n) (hm : m ∣ n) :
    gainRaises cfg s n = false ∧ recommendsRecompute cfg s n = false := by
  obtain ⟨g, hg, hbuilt⟩ := h
  have hgain : g.jobGain cfg.exp n = some ServiceGain.milestoneGain :=
    hbuilt.jobGain_milestone hn hm
  unfold gainRaises recommendsRecompute
  rw [hg]
  simp only [Option.any_some, hgain, Option.isNone_some, true_and]
  norm_num [ServiceGain.milestoneGain, ServiceGain.recomputeThresh,
    ServiceGain.deferralThresh]

/-- **A milestone is saved exactly when its flush fits**: in every state that a
V2 scheduler reaches in mode `tempo`, a call for a milestone reaches
`save_async`, once, unless the look-ahead finds the bus overloaded. -/
theorem milestone_saved_iff (hmode : cfg.mode = .tempo)
    (hrun : Runs.Reachable (stepV2 cfg)
      (init (some (.ofMilestone m)) none none none) s)
    (hn : 0 < n) (hm : m ∣ n) :
    (checkpointV2 cfg s n metadata env).1.saved = n :: s.saved ↔
      FlushFits metadata env := by
  have hbuilt : GainBuilt m s :=
    hrun.invariant ⟨_, rfl, ServiceGain.built_ofMilestone m⟩
      fun _ _ _ h _ => h.stepV2
  obtain ⟨hraises, hrecompute⟩ : gainRaises cfg s n = false ∧
      recommendsRecompute cfg s n = false := hbuilt.milestone hn hm
  have hended := ended_checkpointV2 hmode s n metadata env
  rw [hraises, hrecompute, Bool.or_false] at hended
  cases hdefers : lookAheadDefers metadata env with
  | true =>
      rw [(hended.deferred rfl hdefers).2]
      refine iff_of_false ?_ (lookAheadDefers_iff.mp hdefers)
      exact fun h => absurd (congrArg List.length h) (by simp)
  | false =>
      refine iff_of_true (hended.reached rfl hdefers) ?_
      by_contra hover
      rw [lookAheadDefers_iff.mpr hover] at hdefers
      cases hdefers

/-- Four gigabytes are due, with no collective running and one idle rail. -/
def overloadEnv : CkptEnv :=
  { metadata := some { sizeBytes := some 4000000000 } }

/-- The milestone of step 500 is deferred and never saved. -/
theorem milestone_deferred :
    ∃ s, Runs.Reachable (stepV2 routedConfig)
        (init (some (.ofMilestone 500)) none none none) s ∧
      (checkpointV2 routedConfig s 500 overloadEnv.metadata overloadEnv).1.saved
        = [] :=
  ⟨_, .refl, by decide +kernel⟩

/-- Under congestion a milestone of default size is saved. -/
theorem milestone_saved_congested :
    ∃ s, Runs.Reachable (stepV2 routedConfig)
        (init (some (.ofMilestone 500)) none none none) s ∧
      (checkpointV2 routedConfig s 1000 none {}).1.saved = 1000 :: s.saved := by
  have hrun : Runs.Reachable (stepV2 routedConfig)
      (init (some (.ofMilestone 500)) none none none) _ :=
    Runs.Reach.refl.tail (e := .setCongested true) trivial rfl
  refine ⟨_, hrun, (milestone_saved_iff rfl hrun (by decide) (by decide)).mpr ?_⟩
  left
  norm_num [kvBytes]

end Scheduler

end Tempo
