import Mathlib.Algebra.Group.Prod
import Tempo.MilestoneGate

/-!
# Jobs registered by a checkpoint call

`TEMPOSchedulerV3.checkpoint` submits a job to the service gain for its QoS
class, and unless the router defers the call goes on to
`TEMPOSchedulerV2.checkpoint`, every path of which submits one again.  So a call
on V3 registers one job when the router defers it and two otherwise.  A job
whose gain cannot be computed is counted as submitted and nothing else.
-/

namespace Tempo

namespace ServiceGain

variable {exp : ℚ → ℚ} {g : ServiceGain ℚ} {m n : Int} {now : ℚ}

/-- Jobs submitted, queued, and counted by what became of them. -/
def tally (g : ServiceGain ℚ) : Nat × Nat × Nat :=
  (g.jobsSubmitted, g.heap.length,
    g.jobsDeferred + g.jobsExpedited + g.recomputeRecommended)

theorem tally_closeJob (p : FlushPriority ℚ) :
    (g.closeJob now p).tally = g.tally + (0, 1, 1) := by
  unfold closeJob tally
  dsimp only
  split
  · simp
    omega
  · split
    · simp
      omega
    · simp
      omega

/-- A job is queued and counted once, unless its gain raises. -/
theorem tally_submitJob :
    (g.submitJob exp n now).1.tally =
      g.tally + if (g.jobGain exp n).isNone then (1, 0, 0) else (1, 1, 1) := by
  have hopened : (g.openJob n).tally = g.tally + (1, 0, 0) := by
    simp [tally, openJob]
  unfold submitJob jobGain
  dsimp only
  cases (g.openJob n).computeGain exp n with
  | none => exact hopened
  | some gain =>
      dsimp only
      rw [tally_closeJob, hopened, add_assoc]
      rfl

/-- The gain raises only where a milestone is looked for with no interval. -/
theorem Built.jobGain_isNone (h : g.Built m) :
    (g.jobGain exp n).isNone = true ↔ 0 < n ∧ m = 0 := by
  have hinterval : (g.openJob n).milestoneInterval = m := h.interval
  have hdeadline : (g.openJob n).sloDeadlineSteps = 100 := h.deadline
  unfold jobGain computeGain
  rw [if_neg (by rw [hdeadline]; decide), hinterval]
  by_cases hraises : 0 < n ∧ m = 0
  · simp [hraises]
  · rw [if_neg hraises]
    simp only [hraises, iff_false]
    split <;> simp

end ServiceGain

namespace Scheduler

variable {cfg : SchedConfig} {s t : Scheduler} {m n : Int}
  {metadata : Option Metadata} {env : CkptEnv} {now : ℚ}

/-- The tally of the service gain, where there is one. -/
def tally (s : Scheduler) : Option (Nat × Nat × Nat) :=
  s.svcGain.map ServiceGain.tally

/-- What one submission adds to the tally. -/
def registered (cfg : SchedConfig) (s : Scheduler) (n : Int) : Nat × Nat × Nat :=
  if gainRaises cfg s n then (1, 0, 0) else (1, 1, 1)

theorem tally_submitJob :
    (submitJob cfg s n now).1.tally = s.tally.map (· + registered cfg s n) := by
  unfold tally registered gainRaises submitJob
  cases hg : s.svcGain with
  | none => simp [hg]
  | some g => simp [ServiceGain.tally_submitJob]

theorem tally_checkpointV1 : (checkpointV1 cfg s n env).1.tally = s.tally := by
  unfold checkpointV1
  cases cfg.mode with
  | tempo => rfl
  | baseline => dsimp only; split <;> rfl

/-- Every path of V2 submits one job. -/
theorem tally_checkpointV2 (hmode : cfg.mode = .tempo) :
    (checkpointV2 cfg s n metadata env).1.tally =
      s.tally.map (· + registered cfg s n) := by
  have hsubmitted : (submitJob cfg
      { s with svcGain := s.svcGain.map (·.updateStep n) } n env.submitV2).1.tally =
        s.tally.map (· + registered cfg s n) := by
    rw [tally_submitJob]
    unfold tally registered gainRaises
    cases s.svcGain <;> rfl
  have hgate : (gateV2 cfg
      { s with svcGain := s.svcGain.map (·.updateStep n) } n env).1.tally =
        s.tally.map (· + registered cfg s n) := by
    unfold gateV2
    dsimp only
    split
    · exact hsubmitted
    · split
      · exact hsubmitted
      · rw [tally_checkpointV1]
        exact hsubmitted
  have hdefer : (deferV2 cfg
      { s with svcGain := s.svcGain.map (·.updateStep n) } n env).1.tally =
        s.tally.map (· + registered cfg s n) := by
    unfold deferV2
    dsimp only
    split <;> exact hsubmitted
  unfold checkpointV2
  dsimp only
  rw [if_neg (by simp [hmode])]
  split
  · exact hdefer
  · exact hgate
  · exact hgate
  · exact hgate

/-- V3 submits a job of its own; V2 submits another unless the call has ended by
then. -/
theorem tally_checkpointV3 (hmode : cfg.mode = .tempo) :
    (checkpointV3 cfg s n metadata env).1.tally =
      (s.tally.map (· + registered cfg s n)).map
        (· + if gainRaises cfg s n || routerDefers cfg s metadata env then 0
          else registered cfg s n) := by
  have hnothing : ∀ o : Option (Nat × Nat × Nat), o.map (· + 0) = o := by
    intro o
    cases o <;> simp
  have htally : (submitJob cfg s n env.submitV3).1.tally =
      s.tally.map (· + registered cfg s n) := tally_submitJob
  have hframe := submitJob_frame cfg s n env.submitV3
  have hraised := submitJob_gainRaises cfg s n env.submitV3
  unfold checkpointV3
  dsimp only
  rcases submitJob_cases cfg s n env.submitV3 with
    ⟨hraises, e, hsubmit⟩ | ⟨hraises, p, hsubmit, -⟩
  · rw [hsubmit]
    dsimp only
    rw [htally, hraises, Bool.true_or, if_pos rfl, hnothing]
  · rw [hsubmit]
    dsimp only
    generalize (submitJob cfg s n env.submitV3).1 = u at *
    have hagain : registered cfg u n = registered cfg s n := by
      unfold registered
      rw [hraised]
    have hrouter : u.topoRouter = s.topoRouter := by rw [hframe]
    rw [hraises, Bool.false_or, ← htally]
    cases htopo : s.topoRouter with
    | none =>
        rw [hrouter, htopo]
        dsimp only
        rw [tally_checkpointV2 hmode, hagain]
        simp [routerDefers, htopo]
    | some router =>
        rw [hrouter, htopo]
        dsimp only
        simp only [routerDefers, htopo, Option.any_some]
        split
        next htier =>
          rw [htier, if_pos (beq_self_eq_true _), hnothing]
          rfl
        next htier =>
          rw [beq_false_of_ne htier, tally_checkpointV2 hmode]
          generalize (router.routeKvPlacement _ _ _ _).1 = routed
          have hrouted : registered cfg { u with topoRouter := some routed } n =
              registered cfg s n := hagain
          rw [hrouted, if_neg Bool.false_ne_true]
          rfl

/-- V3 keeps the service gain as it was built, as V2 does. -/
theorem GainBuilt.checkpointV3 (h : GainBuilt m s) :
    GainBuilt m (checkpointV3 cfg s n metadata env).1 := by
  have hkept := gainKept_built cfg.exp m
  have hsubmitted : GainBuilt m (submitJob cfg s n env.submitV3).1 :=
    GainHas.submitJob hkept h n env.submitV3
  unfold Scheduler.checkpointV3
  dsimp only
  split
  · exact hsubmitted
  · split
    · exact GainHas.checkpointV2 hkept hsubmitted
    · split
      · exact hsubmitted
      · exact GainHas.checkpointV2 hkept hsubmitted

end Scheduler

/-- The two classes. -/
inductive SchedClass where
  | v2
  | v3
  deriving DecidableEq

/-- A scheduler and the number of its `checkpoint` calls. -/
structure JobRun where
  sched : Scheduler
  calls : Nat := 0

namespace JobRun

open Scheduler

/-- A call, or an event of another thread. -/
def step (cfg : SchedConfig) (cls : SchedClass) (r : JobRun) :
    SchedEvent → Option JobRun
  | .checkpoint n env =>
      some {
        sched :=
          match cls with
          | .v2 => (checkpointV2 cfg r.sched n env.metadata env).1
          | .v3 => (checkpointV3 cfg r.sched n env.metadata env).1
        calls := r.calls + 1 }
  | e => (r.sched.step cfg e).map fun t => { r with sched := t }

/-- No more jobs than calls, in the counter or in the heap, and every job
counted once by what became of it. -/
def OneJobEach (r : JobRun) : Prop :=
  ∀ g ∈ r.sched.svcGain,
    g.jobsSubmitted ≤ r.calls ∧ g.heap.length ≤ r.calls ∧
      g.jobsSubmitted =
        g.jobsDeferred + g.jobsExpedited + g.recomputeRecommended

/-- The gain can be computed, and on V3 the router defers the call. -/
def OneJobCall (cfg : SchedConfig) (cls : SchedClass) (interval : Int)
    (r : JobRun) : SchedEvent → Prop
  | .checkpoint n env =>
      (0 < n → interval ≠ 0) ∧
        (cls = .v2 ∨ routerDefers cfg r.sched env.metadata env = true)
  | _ => True

/-- Each call so far has registered one job. -/
structure Tallied (interval : Int) (r : JobRun) : Prop where
  built : GainBuilt interval r.sched
  tally : r.sched.tally = some (r.calls, r.calls, r.calls)

variable {cfg : SchedConfig} {cls : SchedClass} {interval : Int} {r : JobRun}

theorem Tallied.oneJobEach (h : r.Tallied interval) : r.OneJobEach := by
  intro g hg
  have htally := h.tally
  unfold Scheduler.tally at htally
  rw [Option.mem_def.mp hg, Option.map_some, Option.some.injEq] at htally
  unfold ServiceGain.tally at htally
  simp only [Prod.mk.injEq] at htally
  omega

theorem not_oneJobEach {a b c : Nat} (htally : r.sched.tally = some (a, b, c))
    (hover : r.calls < a ∨ a ≠ c) : ¬ r.OneJobEach := by
  intro hone
  unfold Scheduler.tally at htally
  obtain ⟨g, hg, htally⟩ := Option.map_eq_some_iff.mp htally
  have hcounts := hone g hg
  unfold ServiceGain.tally at htally
  simp only [Prod.mk.injEq] at htally
  omega

/-- What a call has registered in the end. -/
theorem sched_tally (hmode : cfg.mode = .tempo) {n : Int} {env : CkptEnv}
    {t : JobRun} (hstep : JobRun.step cfg cls r (.checkpoint n env) = some t) :
    t.sched.tally =
      (r.sched.tally.map (· + registered cfg r.sched n)).map
        (· + if cls = .v2 ∨ gainRaises cfg r.sched n = true ∨
            routerDefers cfg r.sched env.metadata env = true then 0
          else registered cfg r.sched n) := by
  obtain rfl := Option.some.inj hstep
  cases cls with
  | v2 =>
      dsimp only
      rw [tally_checkpointV2 hmode, if_pos (.inl rfl)]
      cases r.sched.tally <;> simp
  | v3 =>
      dsimp only
      rw [tally_checkpointV3 hmode]
      simp only [reduceCtorEq, false_or, Bool.or_eq_true]

theorem built_call {n : Int} {env : CkptEnv} {t : JobRun}
    (h : GainBuilt interval r.sched)
    (hstep : JobRun.step cfg cls r (.checkpoint n env) = some t) :
    GainBuilt interval t.sched ∧ t.calls = r.calls + 1 := by
  obtain rfl := Option.some.inj hstep
  refine ⟨?_, rfl⟩
  cases cls with
  | v2 => exact GainHas.checkpointV2 (gainKept_built cfg.exp interval) h
  | v3 => exact h.checkpointV3

theorem oneJobCall_iff (h : GainBuilt interval r.sched) {n : Int}
    {env : CkptEnv} :
    OneJobCall cfg cls interval r (.checkpoint n env) ↔
      gainRaises cfg r.sched n = false ∧
        (cls = .v2 ∨ routerDefers cfg r.sched env.metadata env = true) := by
  obtain ⟨g, hg, hbuilt⟩ := h
  apply and_congr_left'
  unfold gainRaises
  rw [hg, Option.any_some, ← Bool.not_eq_true, hbuilt.jobGain_isNone, not_and]

/-- A call registers one job if it meets the condition. -/
theorem Tallied.call (hmode : cfg.mode = .tempo) (h : r.Tallied interval) {n : Int}
    {env : CkptEnv} {t : JobRun}
    (hstep : JobRun.step cfg cls r (.checkpoint n env) = some t) :
    (t.OneJobEach → OneJobCall cfg cls interval r (.checkpoint n env)) ∧
      (OneJobCall cfg cls interval r (.checkpoint n env) → t.Tallied interval) := by
  obtain ⟨hbuilt, hcalls⟩ := built_call h.built hstep
  have htally := sched_tally hmode hstep
  rw [h.tally] at htally
  rw [oneJobCall_iff h.built]
  cases hgain : gainRaises cfg r.sched n with
  | true =>
      -- the gain raises: one job is submitted, none queued or counted
      have hregistered : registered cfg r.sched n = (1, 0, 0) := by
        simp [registered, hgain]
      rw [hgain, if_pos (.inr (.inl rfl)), hregistered] at htally
      refine ⟨fun hone => ?_, fun h => absurd h.1 Bool.true_eq_false_eq_False.elim⟩
      exact absurd hone (not_oneJobEach htally (.inr (by simp)))
  | false =>
      have hregistered : registered cfg r.sched n = (1, 1, 1) := by
        simp [registered, hgain]
      rw [hgain, hregistered] at htally
      by_cases hends : cls = .v2 ∨
          routerDefers cfg r.sched env.metadata env = true
      · rw [if_pos (hends.imp_right .inr)] at htally
        refine ⟨fun _ => ⟨rfl, hends⟩, fun _ => ⟨hbuilt, ?_⟩⟩
        rw [htally, hcalls]
        rfl
      · -- V3 goes on to V2, which submits the job again
        have htwice : ¬ (cls = .v2 ∨ false = true ∨
            routerDefers cfg r.sched env.metadata env = true) := by
          simpa using hends
        rw [if_neg htwice] at htally
        refine ⟨fun hone => ?_, fun h => absurd h.2 hends⟩
        refine absurd hone (not_oneJobEach htally (.inl ?_))
        rw [hcalls]
        simp

/-- One event: the others leave the jobs alone. -/
theorem Tallied.step (hmode : cfg.mode = .tempo) (h : r.Tallied interval)
    (e : SchedEvent) :
    ∃ t, JobRun.step cfg cls r e = some t ∧
      (t.OneJobEach → OneJobCall cfg cls interval r e) ∧
      (OneJobCall cfg cls interval r e → t.Tallied interval) := by
  cases e with
  | checkpoint n env => exact ⟨_, rfl, h.call hmode rfl⟩
  | nanoIo layerId data env =>
      exact ⟨_, rfl, fun _ => trivial, fun _ => ⟨h.built, h.tally⟩⟩
  | updateStep k | markCommitted k | setCongested flag =>
      refine ⟨_, rfl, fun _ => trivial, fun _ => ⟨?_, ?_⟩⟩
      · exact GainHas.map h.built fun g hg => ⟨hg.interval, hg.deadline⟩
      · obtain ⟨g, hg, -⟩ := h.built
        have htally := h.tally
        unfold Scheduler.tally at htally ⊢
        rw [hg] at htally
        simp only [hg, Option.map_some]
        exact htally
  | setGlobalLinkSaturated flag | registerPeerGroups groups =>
      exact ⟨_, rfl, fun _ => trivial, fun _ => ⟨h.built, h.tally⟩⟩

/-- **One checkpoint call is one job**, in every state of a run, exactly when in
each call the gain can be computed and, on V3, the router defers. -/
theorem one_job_each_iff (hmode : cfg.mode = .tempo) (cls : SchedClass)
    (interval : Int) (router : Option TopologyRouter) (es : List SchedEvent) :
    (∀ pre, pre <+: es →
        ∀ t ∈ Runs.exec (JobRun.step cfg cls)
          { sched := Scheduler.init (some (.ofMilestone interval)) router none none }
          pre,
          t.OneJobEach) ↔
      Runs.Meets (JobRun.step cfg cls) (OneJobCall cfg cls interval)
        { sched := Scheduler.init (some (.ofMilestone interval)) router none none }
        es := by
  refine Runs.Meets.iff_prefixes_of_kept (Q := Tallied interval)
    (fun _ h => h.oneJobEach) ⟨⟨_, rfl, ServiceGain.built_ofMilestone interval⟩, rfl⟩ ?_
  intro r e h
  exact h.step hmode e

instance OneJobCall.decidable (cfg : SchedConfig) (cls : SchedClass)
    (interval : Int) (r : JobRun) :
    ∀ e, Decidable (OneJobCall cfg cls interval r e)
  | .checkpoint _ _ => inferInstanceAs (Decidable (_ ∧ _))
  | .nanoIo _ _ _ | .updateStep _ | .markCommitted _ | .setCongested _
  | .setGlobalLinkSaturated _ | .registerPeerGroups _ => isTrue trivial

/-- Two calls on V2. -/
theorem one_job_each_v2 :
    ∃ t ∈ Runs.exec (JobRun.step routedConfig .v2)
        { sched := Scheduler.init (some (.ofMilestone 500)) none none none }
        [.checkpoint 1 {}, .checkpoint 2 overloadEnv],
      t.calls = 2 ∧ t.OneJobEach := by
  obtain ⟨t, ht, hcalls⟩ : ∃ t ∈ Runs.exec (JobRun.step routedConfig .v2)
      { sched := Scheduler.init (some (.ofMilestone 500)) none none none }
      [.checkpoint 1 {}, .checkpoint 2 overloadEnv], t.calls = 2 := by
    decide +kernel
  refine ⟨t, ht, hcalls, ?_⟩
  exact (one_job_each_iff rfl .v2 500 none _).mpr (by decide +kernel) _
    (List.prefix_refl _) t ht

/-- The first call on V3 registers two jobs. -/
theorem v3_registers_twice :
    ∃ t ∈ Runs.exec (JobRun.step routedConfig .v3)
        { sched := Scheduler.init (some (.ofMilestone 500))
            (some (TopologyRouter.new 0 0 (1 / 5))) none none }
        [.checkpoint 1 {}],
      t.calls = 1 ∧ t.sched.svcGain.map (·.jobsSubmitted) = some 2 ∧
        t.sched.svcGain.map (·.heap.length) = some 2 ∧ ¬ t.OneJobEach := by
  unfold OneJobEach
  decide +kernel

end JobRun

end Tempo
