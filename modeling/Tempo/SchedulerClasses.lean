import Tempo.CallBinding
import Tempo.NexusCoordinator
import Tempo.SchedulerRuns

/-!
# The scheduler classes and their checkpoint calls

`TEMPOSchedulerV5` and `TEMPOSchedulerV6` put window coordination and hardware
selection in front of V4 and change the signature of `checkpoint`: what was
`metadata` is now `filename` and `force`.  They pass these on by name to a
method that does not have them.  So no call of theirs gets past that link
(`checkpoint_served_iff`), while the calls of the four classes below are served
whenever the layers they consist of do not raise.
-/

namespace Tempo

open CallBinding

/-- The scheduler classes, each derived from the one before. -/
inductive SchedulerClass where
  | v1
  | v2
  | v3
  | v4
  | v5
  | v6
  deriving DecidableEq

namespace SchedulerClass

/-- The parameters of `checkpoint`, without `self`. -/
def signature : SchedulerClass → List Parameter
  | .v1 | .v2 | .v3 | .v4 =>
      [{ name := "state_dict" }, { name := "step" },
        { name := "metadata", required := false }]
  | .v5 =>
      [{ name := "state_dict" }, { name := "step" },
        { name := "filename", required := false },
        { name := "force", required := false }]
  | .v6 =>
      [{ name := "state_dict" }, { name := "step" },
        { name := "filename", required := false },
        { name := "force", required := false },
        { name := "gain_score", required := false }]

/-- The class a `super()` call reaches. -/
def base? : SchedulerClass → Option SchedulerClass
  | .v1 => none
  | .v2 => some .v1
  | .v3 => some .v2
  | .v4 => some .v3
  | .v5 => some .v4
  | .v6 => some .v5

/-- What a class passes to `super().checkpoint`. -/
def superArguments : SchedulerClass → Arguments
  | .v1 | .v2 | .v3 | .v4 => { positional := 3 }
  | .v5 | .v6 => { positional := 2, keywords := ["filename", "force"] }

/-- The call `checkpoint(state_dict, step)`. -/
def documented : Arguments := { positional := 2 }

/-- Every class takes the documented call. -/
theorem documented_binds (c : SchedulerClass) :
    bind c.signature documented = .ok () := by
  cases c <;> rfl

/-- The call of a class to its base binds, but for that of V5. -/
theorem super_binds_iff {c b : SchedulerClass} (hb : c.base? = some b) :
    bind b.signature c.superArguments = .ok () ↔ c ≠ .v5 := by
  cases c <;> cases hb <;> decide

/-- V4 has no `filename`. -/
theorem v5_super_error :
    bind SchedulerClass.v4.signature SchedulerClass.v5.superArguments =
      .error (.unexpectedKeyword "filename") := by
  decide

end SchedulerClass

/-- How a `checkpoint` call of any class can raise. -/
inductive CallError where
  | ckpt (e : CkptError)
  | typeError (e : BindError)
  deriving DecidableEq

/-- A scheduler of any class; the parts a class does not have are not used. -/
structure ClassScheduler (worldSize : Nat) where
  layers : Scheduler := {}
  /-- `nexus` is not `None`. -/
  nexus : Option (NexusCoordinator worldSize) := none
  /-- `_v6_egress_nic` of the checkpoint manager. -/
  egressNic : Option Nat := none

/-- The flags of V5 and V6 next to the configuration of the layers. -/
structure ClassConfig where
  layers : SchedConfig
  enableNexus : Bool := true

/-- The surroundings of a call in the upper two classes. -/
structure ClassEnv (worldSize : Nat) extends CkptEnv where
  /-- The gossip tensor after the `all_reduce`, when it succeeds. -/
  reduced : Option (Fin worldSize → WithTop ℚ) := none
  /-- Seconds from the start of the call to its end. -/
  elapsedSeconds : ℚ := 0
  /-- What the NVLink router selects. -/
  egressGpu : Nat := 0

namespace ClassScheduler

variable {worldSize : Nat}

/-- A call of one of the layers, as a call of its class. -/
def ofLayer {α : Type} (s : ClassScheduler worldSize)
    (called : Scheduler × Except CkptError α) :
    ClassScheduler worldSize × Except CallError Unit :=
  ({ s with layers := called.1 },
    match called.2 with
    | .ok _ => .ok ()
    | .error e => .error (.ckpt e))

/-- `super().checkpoint(..)` of a class: the body of its base, if the arguments
bind. -/
def superCall (c b : SchedulerClass) (s : ClassScheduler worldSize)
    (body : ClassScheduler worldSize × Except CallError Unit) :
    ClassScheduler worldSize × Except CallError Unit :=
  invoke b.signature c.superArguments (fun e => (s, .error (.typeError e))) body

/-- `TEMPOSchedulerV5.checkpoint`: V4 within this rank's window. -/
def checkpointV5 (cfg : ClassConfig) (s : ClassScheduler worldSize)
    (step : Int) (env : ClassEnv worldSize) :
    ClassScheduler worldSize × Except CallError Unit :=
  let toV4 (s : ClassScheduler worldSize) :=
    superCall .v5 .v4 s
      (s.ofLayer (s.layers.checkpointV4 cfg.layers step env.toCkptEnv))
  match s.nexus with
  | none => toV4 s
  | some nexus =>
      if cfg.enableNexus ∧ cfg.layers.mode = .tempo then
        let waited :=
          (nexus.computeWindow BinaryRounding.binary64.round step none none env.reduced).1
        let called := toV4 { s with nexus := some waited }
        match called.2 with
        | .error e => (called.1, .error e)
        | .ok () =>
            ({ called.1 with
              nexus := called.1.nexus.map
                (·.recordFlushTime BinaryRounding.binary64.round env.elapsedSeconds) }, .ok ())
      else toV4 s

/-- `TEMPOSchedulerV6.checkpoint`: the egress NIC is selected first. -/
def checkpointV6 (cfg : ClassConfig) (s : ClassScheduler worldSize)
    (step : Int) (env : ClassEnv worldSize) :
    ClassScheduler worldSize × Except CallError Unit :=
  if cfg.layers.mode ≠ .tempo then
    superCall .v6 .v5 s (checkpointV5 cfg s step env)
  else
    let s := { s with egressNic := some env.egressGpu }
    superCall .v6 .v5 s (checkpointV5 cfg s step env)

/-- The body of `checkpoint` in each class, for the documented call: it has no
metadata. -/
def body (cfg : ClassConfig) (s : ClassScheduler worldSize) (step : Int)
    (env : ClassEnv worldSize) :
    SchedulerClass → ClassScheduler worldSize × Except CallError Unit
  | .v1 => s.ofLayer (s.layers.checkpointV1 cfg.layers step env.toCkptEnv)
  | .v2 =>
      s.ofLayer (s.layers.checkpointV2 cfg.layers step none env.toCkptEnv)
  | .v3 =>
      s.ofLayer (s.layers.checkpointV3 cfg.layers step none env.toCkptEnv)
  | .v4 =>
      s.ofLayer (s.layers.checkpointV4 cfg.layers step
        { env.toCkptEnv with metadata := none })
  | .v5 => s.checkpointV5 cfg step { env with metadata := none }
  | .v6 => s.checkpointV6 cfg step { env with metadata := none }

/-- `checkpoint(state_dict, step)` on a scheduler of a class. -/
def checkpoint (c : SchedulerClass) (cfg : ClassConfig)
    (s : ClassScheduler worldSize) (step : Int) (env : ClassEnv worldSize) :
    ClassScheduler worldSize × Except CallError Unit :=
  invoke c.signature SchedulerClass.documented
    (fun e => (s, .error (.typeError e))) (s.body cfg step env c)

end ClassScheduler

/-! ### The calls of the layers -/

namespace Scheduler

variable {cfg : SchedConfig} {s s' t : Scheduler} {n : Int}
  {metadata : Option Metadata} {env : CkptEnv}

/-- A call has been served: it reached a save of its step, or returned without
one, on a deferral or a cache hit. -/
def Served (s : Scheduler) (n : Int) (t : Scheduler) (returns : Bool) : Prop :=
  t.saved = n :: s.saved ∨ t.synced = n :: s.synced ∨ returns = true

/-- A call can be written somewhere. -/
def Writable (cfg : SchedConfig) : Prop :=
  cfg.mode = .tempo ∨ cfg.lustreDir = true

theorem served_of_same {returns : Bool} (hsaved : t.saved = s.saved)
    (hsynced : t.synced = s.synced) :
    Served s n t returns ↔ returns = true := by
  unfold Served
  rw [hsaved, hsynced]
  simp

theorem served_congr {returns : Bool} (hsaved : s'.saved = s.saved)
    (hsynced : s'.synced = s.synced) :
    Served s' n t returns ↔ Served s n t returns := by
  unfold Served
  rw [hsaved, hsynced]

theorem served_checkpointV1 :
    Served s n (checkpointV1 cfg s n env).1 (checkpointV1 cfg s n env).2.isOk ↔
      Writable cfg := by
  unfold checkpointV1 Writable
  cases hmode : cfg.mode with
  | tempo => exact iff_of_true (.inl rfl) (.inl rfl)
  | baseline =>
      cases hdir : cfg.lustreDir with
      | true => exact iff_of_true (.inr (.inl rfl)) (.inr rfl)
      | false =>
          rw [if_neg (by simp)]
          exact (served_of_same rfl rfl).trans (by simp)

section Submit

variable (cfg s n) (now : ℚ)

theorem submitJob_saved : (submitJob cfg s n now).1.saved = s.saved := by
  rw [submitJob_frame]

theorem submitJob_synced : (submitJob cfg s n now).1.synced = s.synced := by
  rw [submitJob_frame]

end Submit

theorem served_deferV2 :
    Served s n (deferV2 cfg s n env).1 (deferV2 cfg s n env).2.isOk ↔
      gainRaises cfg s n = false := by
  unfold deferV2
  dsimp only
  rcases submitJob_cases cfg s n env.submitV2 with
    ⟨hraises, e, hsubmit⟩ | ⟨hraises, p, hsubmit, -⟩ <;>
  · rw [hsubmit, hraises]
    exact (served_of_same (submitJob_saved ..) (submitJob_synced ..)).trans
      (by simp)

theorem served_gateV2 (hmode : cfg.mode = .tempo) :
    Served s n (gateV2 cfg s n env).1 (gateV2 cfg s n env).2.isOk ↔
      gainRaises cfg s n = false := by
  unfold gateV2
  dsimp only
  rcases submitJob_cases cfg s n env.submitV2 with
    ⟨hraises, e, hsubmit⟩ | ⟨hraises, p, hsubmit, -⟩
  · rw [hsubmit, hraises]
    exact (served_of_same (submitJob_saved ..) (submitJob_synced ..)).trans
      (by simp)
  · rw [hsubmit, hraises]
    dsimp only
    split
    · exact (served_of_same (submitJob_saved ..) (submitJob_synced ..)).trans
        (by simp)
    · rw [← served_congr (submitJob_saved ..) (submitJob_synced ..),
        served_checkpointV1]
      exact iff_of_true (.inl hmode) rfl

theorem gainRaises_updateStep :
    gainRaises cfg { s with svcGain := s.svcGain.map (·.updateStep n) } n =
      gainRaises cfg s n := by
  unfold gainRaises
  cases s.svcGain <;> rfl

/-- When a V2 call is served. -/
def ServesV2 (cfg : SchedConfig) (s : Scheduler) (n : Int) : Prop :=
  if cfg.mode = .tempo then gainRaises cfg s n = false
  else cfg.lustreDir = true

theorem served_checkpointV2 :
    Served s n (checkpointV2 cfg s n metadata env).1
        (checkpointV2 cfg s n metadata env).2.isOk ↔
      ServesV2 cfg s n := by
  have hstart : ∀ t r, Served s n t r ↔
      Served { s with svcGain := s.svcGain.map (·.updateStep n) } n t r :=
    fun _ _ => served_congr rfl rfl
  unfold checkpointV2 ServesV2
  dsimp only
  rw [hstart]
  by_cases hmode : cfg.mode = .tempo
  · rw [if_neg (not_not.mpr hmode), if_pos hmode]
    cases lookAhead (metadata.getD {}) env with
    | defer => rw [served_deferV2, gainRaises_updateStep]
    | proceed _ | rateLimit _ | microDelay _ =>
        rw [served_gateV2 hmode, gainRaises_updateStep]
  · rw [if_pos hmode, if_neg hmode, served_checkpointV1, Writable,
      or_iff_right hmode]

/-- When a V3 call is served. -/
def ServesV3 (cfg : SchedConfig) (s : Scheduler) (n : Int)
    (metadata : Option Metadata) (env : CkptEnv) : Prop :=
  gainRaises cfg s n = false ∧
    (routerDefers cfg s metadata env = true ∨ Writable cfg)

theorem served_checkpointV3 :
    Served s n (checkpointV3 cfg s n metadata env).1
        (checkpointV3 cfg s n metadata env).2.isOk ↔
      ServesV3 cfg s n metadata env := by
  have hstart : ∀ t r, Served s n t r ↔
      Served (submitJob cfg s n env.submitV3).1 n t r := fun _ _ =>
    served_congr (submitJob_saved ..).symm (submitJob_synced ..).symm
  have hraised := submitJob_gainRaises cfg s n env.submitV3
  have hrouter : (submitJob cfg s n env.submitV3).1.topoRouter =
      s.topoRouter := by rw [submitJob_frame]
  have hwritable : gainRaises cfg s n = false →
      (ServesV2 cfg (submitJob cfg s n env.submitV3).1 n ↔ Writable cfg) := by
    intro hraises
    unfold ServesV2 Writable
    rw [hraised, hraises]
    split
    next hmode => exact iff_of_true rfl (.inl hmode)
    next hmode => exact (or_iff_right hmode).symm
  unfold checkpointV3 ServesV3
  dsimp only
  rcases submitJob_cases cfg s n env.submitV3 with
    ⟨hraises, e, hsubmit⟩ | ⟨hraises, p, hsubmit, -⟩
  · rw [hsubmit, hraises]
    exact (served_of_same (submitJob_saved ..) (submitJob_synced ..)).trans
      (by simp)
  · rw [hsubmit, hraises, hstart, and_iff_right rfl, ← hwritable hraises]
    dsimp only
    generalize (submitJob cfg s n env.submitV3).1 = u at *
    rw [hrouter]
    cases htopo : s.topoRouter with
    | none =>
        dsimp only
        rw [isOk_map, served_checkpointV2]
        simp [routerDefers, htopo]
    | some router =>
        dsimp only
        simp only [routerDefers, htopo, Option.any_some]
        split
        next htier =>
          rw [htier]
          exact iff_of_true (.inr (.inr rfl)) (.inl rfl)
        next htier =>
          rw [isOk_map, beq_false_of_ne htier]
          generalize (router.routeKvPlacement _ _ _ _).1 = routed
          have hrouted : ∀ v : Scheduler, v.saved = u.saved →
              v.synced = u.synced → v.svcGain = u.svcGain →
              (Served u n (checkpointV2 cfg v n metadata env).1
                  (checkpointV2 cfg v n metadata env).2.isOk ↔
                ServesV2 cfg u n) := by
            intro v hsaved hsynced hgain
            rw [← served_congr hsaved hsynced, served_checkpointV2]
            unfold ServesV2 gainRaises
            rw [hgain]
          refine (hrouted { u with topoRouter := some routed } rfl rfl rfl).trans ?_
          simp

/-- When a V4 call is served. -/
def ServesV4 (cfg : SchedConfig) (s : Scheduler) (n : Int) (env : CkptEnv) :
    Prop :=
  (lookupCache cfg s n env).2 = true ∨
    ServesV3 cfg s n (some (estimated cfg env)) env

theorem served_delegateV4 :
    Served s n (delegateV4 cfg s n env).1 (delegateV4 cfg s n env).2.isOk ↔
      ServesV3 cfg s n (some (estimated cfg env)) env := by
  have hbelow : Served { s with nanoStep := s.nanoStep.map fun _ => n } n _ _ ↔
      ServesV3 cfg { s with nanoStep := s.nanoStep.map fun _ => n } n
        (some (estimated cfg env)) env := served_checkpointV3
  unfold delegateV4
  dsimp only
  refine Iff.trans ?_ hbelow
  generalize checkpointV3 cfg _ n (some (estimated cfg env)) env = below
  rcases below with ⟨u, result⟩
  cases result <;> exact Iff.rfl

theorem served_checkpointV4 :
    Served s n (checkpointV4 cfg s n env).1 (checkpointV4 cfg s n env).2.isOk ↔
      ServesV4 cfg s n env := by
  unfold checkpointV4 ServesV4
  dsimp only
  rw [lookupCache_frame]
  cases hhit : (lookupCache cfg s n env).2 with
  | true => exact iff_of_true (.inr (.inr rfl)) (.inl rfl)
  | false =>
      simp only [Bool.false_eq_true, if_false, false_or]
      exact served_delegateV4

end Scheduler

namespace ClassScheduler

open Scheduler

variable {worldSize : Nat} {cfg : ClassConfig} {s : ClassScheduler worldSize}
  {n : Int} {env : ClassEnv worldSize}

/-- V5 has no call that binds. -/
theorem checkpointV5_typeError :
    (s.checkpointV5 cfg n env).2 =
      .error (.typeError (.unexpectedKeyword "filename")) := by
  have hlink : ∀ (u : ClassScheduler worldSize) body,
      superCall .v5 .v4 u body =
        (u, .error (.typeError (.unexpectedKeyword "filename"))) := fun u body =>
    invoke_of_error SchedulerClass.v5_super_error
  unfold checkpointV5
  simp only [hlink]
  split
  · rfl
  · split <;> rfl

theorem checkpointV6_typeError :
    (s.checkpointV6 cfg n env).2 =
      .error (.typeError (.unexpectedKeyword "filename")) := by
  have hlink : ∀ (u : ClassScheduler worldSize) body,
      superCall .v6 .v5 u body = body := fun u body =>
    invoke_of_ok ((SchedulerClass.super_binds_iff rfl).mpr (by decide))
  unfold checkpointV6
  simp only [hlink]
  split <;> exact checkpointV5_typeError

/-- The condition on class, configuration and state under which the documented
call is served. -/
def Serves (cfg : SchedConfig) (s : Scheduler) (n : Int) (env : CkptEnv) :
    SchedulerClass → Prop
  | .v1 => Writable cfg
  | .v2 => ServesV2 cfg s n
  | .v3 => ServesV3 cfg s n none env
  | .v4 => ServesV4 cfg s n { env with metadata := none }
  | .v5 | .v6 => False

/-- **The documented call is served** by the classes up to V4, in the cases in
which their layers do not raise, and never by V5 and V6. -/
theorem checkpoint_served_iff (c : SchedulerClass) (cfg : ClassConfig)
    (s : ClassScheduler worldSize) (n : Int) (env : ClassEnv worldSize) :
    (Served s.layers n (s.checkpoint c cfg n env).1.layers
        (s.checkpoint c cfg n env).2.isOk ∧
      ∀ e, (s.checkpoint c cfg n env).2 ≠ .error (.typeError e)) ↔
    Serves cfg.layers s.layers n env.toCkptEnv c := by
  have hbody : s.checkpoint c cfg n env = s.body cfg n env c :=
    invoke_of_ok c.documented_binds
  have hlayer : ∀ {α : Type} (called : Scheduler × Except CkptError α),
      (Served s.layers n (s.ofLayer called).1.layers
          (s.ofLayer called).2.isOk ∧
        ∀ e, (s.ofLayer called).2 ≠ .error (.typeError e)) ↔
      Served s.layers n called.1 called.2.isOk := by
    intro α called
    unfold ofLayer
    cases called.2 <;> simp
  rw [hbody]
  unfold body Serves
  cases c with
  | v1 => exact (hlayer _).trans served_checkpointV1
  | v2 => exact (hlayer _).trans served_checkpointV2
  | v3 => exact (hlayer _).trans served_checkpointV3
  | v4 => exact (hlayer _).trans served_checkpointV4
  | v5 =>
      refine iff_of_false ?_ id
      rintro ⟨-, hbinds⟩
      exact hbinds _ checkpointV5_typeError
  | v6 =>
      refine iff_of_false ?_ id
      rintro ⟨-, hbinds⟩
      exact hbinds _ checkpointV6_typeError

/-- A V5 scheduler with nothing but the layers of V1, in mode `tempo`: the call
raises and nothing is saved. -/
theorem checkpoint_rejected :
    (checkpoint .v5 { layers := routedConfig } ({} : ClassScheduler 1) 10
        {}).2 = .error (.typeError (.unexpectedKeyword "filename")) ∧
      (checkpoint .v5 { layers := routedConfig } ({} : ClassScheduler 1) 10
        {}).1.layers.saved = [] :=
  ⟨rfl, rfl⟩

end ClassScheduler

end Tempo
