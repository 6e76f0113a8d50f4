import Tempo.SchedulerRuns

/-!
# Baseline mode under the upper layers

In baseline mode the call is to write to Lustre and wait.  `TEMPOSchedulerV2`
tests the mode before anything else; V3 and V4 do not, and what they put in front
of V2 can end the call in either mode: the cache, the service gain where it
raises, and the router.
-/

namespace Tempo

open Runs

/-- The two classes above V2. -/
inductive UpperClass where
  | v3
  | v4
  deriving DecidableEq

namespace Scheduler

variable {cfg : SchedConfig} {cls : UpperClass} {s t : Scheduler} {n : Int}
  {metadata : Option Metadata} {env : CkptEnv}

/-- `checkpoint` of the class. -/
def checkpointOf (cfg : SchedConfig) (s : Scheduler) (n : Int) (env : CkptEnv) :
    UpperClass → Scheduler
  | .v3 => (checkpointV3 cfg s n env.metadata env).1
  | .v4 => (checkpointV4 cfg s n env).1

/-- A call, or an event of another thread. -/
def upperStep (cfg : SchedConfig) (cls : UpperClass) (s : Scheduler) :
    SchedEvent → Option Scheduler
  | .checkpoint n env => some (checkpointOf cfg s n env cls)
  | e => s.step cfg e

/-- A call makes one call of `save_sync_lustre`, for its step. -/
def SyncsOnce (cfg : SchedConfig) (cls : UpperClass) (s : Scheduler) :
    SchedEvent → Prop
  | .checkpoint n env => (checkpointOf cfg s n env cls).synced = n :: s.synced
  | _ => True

/-- The router has no peer in its group, and finds the links congested and the
window closing. -/
def linkDefers (cfg : SchedConfig) (s : Scheduler) (env : CkptEnv) : Bool :=
  s.topoRouter.any fun router =>
    (router.localPeers.filter router.isSameGroup).isEmpty &&
      router.mustDefer (safeWindow cfg env) env.hwCongested

/-- The call misses the cache, where there is one; its gain can be computed; and
the router does not defer it. -/
def Unhindered (cfg : SchedConfig) (cls : UpperClass) (s : Scheduler) :
    SchedEvent → Prop
  | .checkpoint n env =>
      (cls = .v4 → (lookupCache cfg s n env).2 = false) ∧
        gainRaises cfg s n = false ∧ linkDefers cfg s env = false
  | _ => True

/-- The size does not matter to the router's deferral. -/
theorem routerDefers_eq (metadata : Option Metadata) :
    routerDefers cfg s metadata env = linkDefers cfg s env := by
  unfold routerDefers linkDefers
  cases s.topoRouter with
  | none => rfl
  | some router =>
      simp only [Option.any_some]
      unfold TopologyRouter.routeKvPlacement
      dsimp only [Option.getD_none]
      cases hpeers : router.localPeers.filter router.isSameGroup with
      | nil =>
          cases router.mustDefer (safeWindow cfg env) env.hwCongested with
          | true => rfl
          | false => rfl
      | cons peer peers => simp [List.min?_cons]

/-- V2 tests the mode first. -/
theorem synced_checkpointV2 (hmode : cfg.mode = .baseline)
    (hdir : cfg.lustreDir = true) :
    (checkpointV2 cfg s n metadata env).1.synced = n :: s.synced := by
  unfold checkpointV2 checkpointV1
  simp [hmode, hdir]

/-- V3 comes to V2 unless the gain raises or the router defers. -/
theorem synced_checkpointV3 (hmode : cfg.mode = .baseline)
    (hdir : cfg.lustreDir = true) (s : Scheduler) (n : Int)
    (metadata : Option Metadata) (env : CkptEnv) :
    (checkpointV3 cfg s n metadata env).1.synced =
      if gainRaises cfg s n || linkDefers cfg s env then s.synced
      else n :: s.synced := by
  have hframe := submitJob_frame cfg s n env.submitV3
  rw [← routerDefers_eq metadata]
  unfold checkpointV3
  dsimp only
  rcases submitJob_cases cfg s n env.submitV3 with
    ⟨hraises, e, hsubmit⟩ | ⟨hraises, p, hsubmit, -⟩
  · rw [hsubmit, hraises, Bool.true_or, if_pos rfl, hframe]
  · rw [hsubmit, hraises, Bool.false_or]
    dsimp only
    generalize (submitJob cfg s n env.submitV3).1 = u at *
    have hrouter : u.topoRouter = s.topoRouter := by rw [hframe]
    have hsynced : u.synced = s.synced := by rw [hframe]
    cases htopo : s.topoRouter with
    | none =>
        have hgoes : routerDefers cfg s metadata env ≠ true := by
          simp [routerDefers, htopo]
        rw [hrouter, htopo, if_neg hgoes, ← hsynced]
        exact synced_checkpointV2 hmode hdir
    | some router =>
        rw [hrouter, htopo]
        dsimp only
        split
        next htier =>
          have hdefers : routerDefers cfg s metadata env = true := by
            rw [routerDefers, htopo, Option.any_some, beq_iff_eq]
            exact htier
          rw [if_pos hdefers, hsynced]
        next htier =>
          have hgoes : routerDefers cfg s metadata env ≠ true := by
            rw [routerDefers, htopo, Option.any_some, Ne, beq_iff_eq]
            exact htier
          rw [if_neg hgoes, ← hsynced]
          exact synced_checkpointV2 hmode hdir

theorem synced_registerToken : (registerToken cfg s n env).synced = s.synced :=
  rfl

/-- V4 comes to V3 unless it hits the cache. -/
theorem synced_checkpointV4 (hmode : cfg.mode = .baseline)
    (hdir : cfg.lustreDir = true) :
    (checkpointV4 cfg s n env).1.synced =
      if (lookupCache cfg s n env).2 || (gainRaises cfg s n || linkDefers cfg s env)
      then s.synced else n :: s.synced := by
  have hframe := lookupCache_frame cfg s n env
  have hsynced : (lookupCache cfg s n env).1.synced = s.synced := by rw [hframe]
  unfold checkpointV4
  dsimp only
  cases hhit : (lookupCache cfg s n env).2 with
  | true => exact hsynced
  | false =>
      generalize (lookupCache cfg s n env).1 = u at *
      have hgain : u.svcGain = s.svcGain := by rw [hframe]
      have hrouter : u.topoRouter = s.topoRouter := by rw [hframe]
      have hraises : gainRaises cfg { u with nanoStep := u.nanoStep.map fun _ => n }
          n = gainRaises cfg s n := by
        unfold gainRaises
        rw [← hgain]
      have hdefers : linkDefers cfg { u with nanoStep := u.nanoStep.map fun _ => n }
          env = linkDefers cfg s env := by
        unfold linkDefers
        rw [← hrouter]
      have hbelow := synced_checkpointV3 hmode hdir
        { u with nanoStep := u.nanoStep.map fun _ => n } n
        (some (estimated cfg env)) env
      rw [hraises, hdefers] at hbelow
      rw [if_neg Bool.false_ne_true, Bool.false_or, ← hsynced]
      refine Eq.trans ?_ hbelow
      unfold delegateV4
      dsimp only
      split
      · rfl
      · exact synced_registerToken

/-- One call is synchronous exactly when it comes through to V2. -/
theorem syncsOnce_iff (hmode : cfg.mode = .baseline) (hdir : cfg.lustreDir = true)
    (s : Scheduler) (e : SchedEvent) :
    SyncsOnce cfg cls s e ↔ Unhindered cfg cls s e := by
  cases e with
  | checkpoint n env =>
      have hmore : s.synced ≠ n :: s.synced := (List.cons_ne_self n s.synced).symm
      unfold SyncsOnce Unhindered checkpointOf
      cases cls with
      | v3 =>
          dsimp only
          rw [synced_checkpointV3 hmode hdir]
          cases gainRaises cfg s n <;> cases linkDefers cfg s env <;> simp [hmore]
      | v4 =>
          dsimp only
          rw [synced_checkpointV4 hmode hdir]
          cases (lookupCache cfg s n env).2 <;> cases gainRaises cfg s n <;>
            cases linkDefers cfg s env <;> simp [hmore]
  | _ => exact Iff.rfl

/-- **Baseline mode writes synchronously exactly in unhindered runs.**  From any
state, each call of a run makes one call of `save_sync_lustre` for its step
exactly when each call of the run is unhindered. -/
theorem synced_once_iff (cfg : SchedConfig) (cls : UpperClass)
    (hmode : cfg.mode = .baseline) (hdir : cfg.lustreDir = true) (s : Scheduler)
    (events : List SchedEvent) :
    Meets (upperStep cfg cls) (SyncsOnce cfg cls) s events ↔
      Meets (upperStep cfg cls) (Unhindered cfg cls) s events :=
  Meets.congr (fun _ => True) trivial (fun _ _ _ _ _ => trivial)
    fun s e _ => syncsOnce_iff hmode hdir s e

/-- One rank in baseline mode. -/
def controlConfig : SchedConfig :=
  { routedConfig with mode := .baseline }

instance (cfg : SchedConfig) (cls : UpperClass) (s : Scheduler) :
    ∀ e, Decidable (SyncsOnce cfg cls s e)
  | .checkpoint _ _ => inferInstanceAs (Decidable (_ = _))
  | .nanoIo _ _ _ | .updateStep _ | .markCommitted _ | .setCongested _
  | .setGlobalLinkSaturated _ | .registerPeerGroups _ => isTrue trivial

instance (cfg : SchedConfig) (cls : UpperClass) (s : Scheduler) :
    ∀ e, Decidable (Unhindered cfg cls s e)
  | .checkpoint _ _ => inferInstanceAs (Decidable ((_ → _ = _) ∧ _ = _ ∧ _ = _))
  | .nanoIo _ _ _ | .updateStep _ | .markCommitted _ | .setCongested _
  | .setGlobalLinkSaturated _ | .registerPeerGroups _ => isTrue trivial

/-- A repeated step hits the cache and is not written. -/
theorem repeated_step_not_synced :
    ¬ ∀ (cfg : SchedConfig) (cls : UpperClass), cfg.mode = .baseline →
      cfg.lustreDir = true → ∀ s events,
        Reachable (upperStep cfg cls) (init none (some (TopologyRouter.new 0 0 (1 / 5)))
          (some fun _ => none) (some 0)) s →
        Meets (upperStep cfg cls) (SyncsOnce cfg cls) s events := by
  intro hall
  have hmeets := hall controlConfig .v4 rfl rfl _ [.checkpoint 10 {}, .checkpoint 10 {}]
    .refl
  exact absurd hmeets (by decide +kernel)

theorem synced_once_iff_two :
    Meets (upperStep controlConfig .v4) (SyncsOnce controlConfig .v4) routedScheduler
      [.checkpoint 10 {}, .checkpoint 20 {}] :=
  (synced_once_iff controlConfig .v4 rfl rfl routedScheduler _).mpr (by decide +kernel)

end Scheduler

end Tempo
