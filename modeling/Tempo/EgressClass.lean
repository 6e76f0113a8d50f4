import Tempo.FabricQos
import Tempo.NvlinkRouter

/-!
# The class of the NIC that a checkpoint leaves by

`TEMPOSchedulerV6.checkpoint` asks for the class of the checkpoint's gain on the NIC of
its own GPU, lets the router choose the NIC to leave by, asks for the class there too if
it is another one, and records the choice for the flush.  Then it goes on as the version
before it.

In any state that polls, reported flushes and earlier checkpoints can lead to, the NIC
recorded is one of the node, and its object keeps the class of the gain unless
`fi_setopt` refused it or there was no endpoint to ask; NICs that are neither the own one
nor the chosen one are left alone.
-/

namespace Tempo

open OrderedDict Runs
open NvlinkRouter (needNvlinkRelay)

/-- What the constructor is given, and the library that is found. -/
structure V6Config where
  rank : Nat := 0
  mode : String := "tempo"
  nGpusPerNode : Nat := 4
  nvlinkSaturationThreshold : ℚ := 8 / 10
  enableNvlinkRouting : Bool := true
  enableCxiTcControl : Bool := true
  cxiDryRun : Bool := true
  lib : LibFabric

/-- `TEMPOSchedulerV6`; `egressNic` is `_v6_egress_nic` of the checkpoint manager. -/
structure TempoV6 where
  fabricQos : Option FabricQos
  nvlinkRouter : Option NvlinkRouter
  egressNic : Option Nat := none

inductive V6Error
  | zeroDivisionError
  | pool (e : PoolError)
  deriving DecidableEq

/-- What changes the state: the poll thread of the router, a flush reported to it, and a
checkpoint with the answers that `fi_setopt` has for the NICs. -/
inductive V6Event
  | readNic (nic : String) (txBytes : Option Int) (now : ℚ)
  | recordFlushBytes (gpuIdx : Nat) (nBytes : Int)
  | checkpoint (gainScore : ℚ) (ret : Nat → Int)

namespace V6Config

/-- `_local_gpu` -/
def localGpu (cfg : V6Config) : Nat :=
  cfg.rank % cfg.nGpusPerNode

/-- The parameters of the router; the names of its NICs are its default ones. -/
def nvlink (cfg : V6Config) : NvlinkConfig where
  nicNames := (List.range cfg.nGpusPerNode).map fun i => "hsn" ++ toString i
  saturationThreshold := cfg.nvlinkSaturationThreshold

/-- The manager of the classes, before it is attached to a pool. -/
def manager (cfg : V6Config) : FabricQos where
  nNics := cfg.nGpusPerNode
  dryRun := cfg.cxiDryRun

end V6Config

namespace TempoV6

variable (cfg : V6Config)

/-- The constructor, as far as it concerns the NICs.  `pool` has the pointers of the
endpoints, if there is a pool, and `ret` is what `fi_setopt` answers when the manager is
attached to it. -/
def new (pool : Option (Nat → EpHandle)) (ret : Nat → Int) : Except V6Error TempoV6 :=
  if cfg.nGpusPerNode = 0 then .error .zeroDivisionError
  else
    let nvlinkRouter :=
      if cfg.enableNvlinkRouting then some (NvlinkRouter.new cfg.nvlink) else none
    if cfg.enableCxiTcControl then
      match pool with
      | none => .ok { fabricQos := some cfg.manager, nvlinkRouter }
      | some pool =>
          match cfg.manager.attachPool cfg.lib pool ret with
          | (_, .error e) => .error (.pool e)
          | (m, .ok _) => .ok { fabricQos := some m, nvlinkRouter }
    else .ok { fabricQos := none, nvlinkRouter }

/-- `apply_for_gain` on a NIC, if classes are controlled. -/
def applyForGain (fabricQos : Option FabricQos) (nicIdx : Nat) (gainScore : ℚ)
    (ret : Int) : Option FabricQos :=
  fabricQos.map fun m => (m.applyForGain cfg.lib nicIdx gainScore ret).2

/-- `checkpoint`, up to its call of the version before it. -/
def checkpoint (s : TempoV6) (gainScore : ℚ) (ret : Nat → Int) : Option TempoV6 :=
  if cfg.mode ≠ "tempo" then
    some s
  else
    let own := cfg.localGpu
    let fabricQos := applyForGain cfg s.fabricQos own gainScore (ret own)
    match s.nvlinkRouter with
    | none => some { s with fabricQos, egressNic := some own }
    | some router =>
        (router.selectEgressGpu cfg.nvlink own).map fun selected =>
          { fabricQos :=
              if needNvlinkRelay own selected.2 then
                applyForGain cfg fabricQos selected.2 gainScore (ret selected.2)
              else fabricQos
            nvlinkRouter := some selected.1
            egressNic := some selected.2 }

/-- A step of the router alone. -/
def route (s : TempoV6) (e : NvlinkEvent) : Option TempoV6 :=
  s.nvlinkRouter.bind fun router =>
    (router.step cfg.nvlink e).map fun router => { s with nvlinkRouter := some router }

def step (s : TempoV6) : V6Event → Option TempoV6
  | .readNic nic txBytes now => s.route cfg (.readNic nic txBytes now)
  | .recordFlushBytes gpuIdx nBytes => s.route cfg (.recordFlushBytes gpuIdx nBytes)
  | .checkpoint gainScore ret => s.checkpoint cfg gainScore ret

/-- The object of a NIC, with the calls it made. -/
def endpoint (s : TempoV6) (nicIdx : Nat) : Option EndpointRun :=
  s.fabricQos.bind fun m => m.endpoints.lookup nicIdx

/-- The router has statistics for every NIC of the node. -/
def Wired (s : TempoV6) : Prop :=
  ∀ router, s.nvlinkRouter = some router → NvlinkRouter.Wired cfg.nvlink router

variable {cfg : V6Config} {s t : TempoV6} {own nicIdx : Nat} {gainScore : ℚ} {ret : Int}
  {f : Option FabricQos}

/-! ## What asking for a class does -/

/-- The object of a NIC of a manager, if there is one. -/
def objectOf (f : Option FabricQos) (nicIdx : Nat) : Option EndpointRun :=
  f.bind fun m => m.endpoints.lookup nicIdx

theorem objectOf_applyForGain (f : Option FabricQos) (nicIdx : Nat) (gainScore : ℚ)
    (ret : Int) (j : Nat) :
    objectOf (applyForGain cfg f nicIdx gainScore ret) j =
      if j = nicIdx then
        (objectOf f j).bind fun ep =>
          EndpointRun.step (K := ℚ) cfg.lib ep (.setTc (gainToCxiTc gainScore) ret)
      else objectOf f j := by
  cases f with
  | none => simp [objectOf, applyForGain]
  | some m => exact MachineFamily.lookup_step FabricQos.step_setTc j

/-- What `fi_setopt` is not asked for, or accepts. -/
def Accepted (lib : LibFabric) (ep : EndpointRun) (ret : Int) : Prop :=
  ep.qos.dryRun = true ∨ lib.loaded = true ∧ ep.qos.epPtr ≠ 0 ∧ ret = 0

instance (lib : LibFabric) (ep : EndpointRun) (ret : Int) : Decidable (Accepted lib ep ret) :=
  inferInstanceAs (Decidable (_ ∨ _))

theorem current_setTc (lib : LibFabric) (ep : EndpointRun) (tc : CxiTc) (ret : Int) :
    (EndpointQos.setTc lib ep.qos tc ret).2.1.current =
      if Accepted lib ep ret then tc else ep.qos.current := by
  grind [EndpointQos.setTc, EndpointQos.apply, Accepted]

/-- An object before and after it was asked for a class: it keeps the class if it is
accepted, and an object in step with its adapter stays so. -/
structure Answered (lib : LibFabric) (before after : EndpointRun) (tc : CxiTc) (ret : Int) :
    Prop where
  current : after.qos.current = if Accepted lib before ret then tc else before.qos.current
  synced : EndpointRun.Synced lib before → EndpointRun.Synced lib after ∧
    after.programmed = if ret = 0 then some tc else before.programmed

theorem answered_setTc (lib : LibFabric) (ep : EndpointRun) (tc : CxiTc) (ret : Int) :
    Answered lib ep (ep.after (EndpointQos.setTc lib ep.qos tc ret).2) tc ret where
  current := current_setTc lib ep tc ret
  synced := by
    intro hsynced
    have hstep : EndpointRun.step (K := ℚ) lib ep (.setTc tc ret) =
        some (ep.after (EndpointQos.setTc lib ep.qos tc ret).2) := rfl
    obtain ⟨hafter, hcurrent⟩ := FabricQos.synced_step hsynced hstep
    refine ⟨hafter, ?_⟩
    rw [hafter.current, hcurrent, hsynced.current, FabricQos.answered, ← apply_ite some]

/-- The objects of a manager before and after that of a NIC was asked for the class of a
gain. -/
structure Asked (cfg : V6Config) (f g : Option FabricQos) (nicIdx : Nat) (gainScore : ℚ)
    (ret : Int) : Prop where
  answered : ∀ ep, objectOf f nicIdx = some ep → ∃ ep', objectOf g nicIdx = some ep' ∧
    Answered cfg.lib ep ep' (gainToCxiTc gainScore) ret
  others : ∀ j, j ≠ nicIdx → objectOf g j = objectOf f j

theorem asked_applyForGain :
    Asked cfg f (applyForGain cfg f nicIdx gainScore ret) nicIdx gainScore ret where
  answered := by
    intro ep hep
    refine ⟨_, ?_, answered_setTc cfg.lib ep (gainToCxiTc gainScore) ret⟩
    rw [objectOf_applyForGain, if_pos rfl, hep]
    rfl
  others := by
    intro j hj
    rw [objectOf_applyForGain, if_neg hj]

/-! ## A checkpoint -/

theorem needNvlinkRelay_iff (srcGpu egressGpu : Nat) :
    needNvlinkRelay srcGpu egressGpu = true ↔ srcGpu ≠ egressGpu :=
  bne_iff_ne

/-- What a checkpoint has done where it recorded `egress`. -/
structure Left (cfg : V6Config) (s t : TempoV6) (gainScore : ℚ) (ret : Nat → Int)
    (egress : Nat) : Prop where
  recorded : t.egressNic = some egress
  known : egress < cfg.nGpusPerNode
  asked : ∀ nicIdx, nicIdx = egress ∨ nicIdx = cfg.localGpu →
    ∀ ep, s.endpoint nicIdx = some ep → ∃ ep', t.endpoint nicIdx = some ep' ∧
      Answered cfg.lib ep ep' (gainToCxiTc gainScore) (ret nicIdx)
  others : ∀ nicIdx, nicIdx ≠ egress → nicIdx ≠ cfg.localGpu →
    t.endpoint nicIdx = s.endpoint nicIdx
  rerouted : egress ≠ cfg.localGpu → ∃ router, s.nvlinkRouter = some router ∧
    NvlinkRouter.Improves cfg.nvlink router cfg.localGpu

theorem localGpu_lt (hgpus : 0 < cfg.nGpusPerNode) : cfg.localGpu < cfg.nGpusPerNode :=
  Nat.mod_lt _ hgpus

theorem nvlink_length : cfg.nvlink.nicNames.length = cfg.nGpusPerNode := by
  simp [V6Config.nvlink]

/-- The checkpoint leaves by the own NIC. -/
theorem left_own (hgpus : 0 < cfg.nGpusPerNode) {ret : Nat → Int}
    (hasked : Asked cfg s.fabricQos t.fabricQos cfg.localGpu gainScore (ret cfg.localGpu))
    (hrecorded : t.egressNic = some cfg.localGpu) :
    Left cfg s t gainScore ret cfg.localGpu where
  recorded := hrecorded
  known := localGpu_lt hgpus
  asked := by
    intro nicIdx hnic
    obtain rfl : nicIdx = cfg.localGpu := hnic.elim id id
    exact hasked.answered
  others := fun nicIdx _ hown => hasked.others nicIdx hown
  rerouted := fun hne => absurd rfl hne

/-- The checkpoint leaves by another NIC, which is asked after the own one. -/
theorem left_other {ret : Nat → Int} {egress : Nat}
    (hown : Asked cfg s.fabricQos f cfg.localGpu gainScore (ret cfg.localGpu))
    (hegress : Asked cfg f t.fabricQos egress gainScore (ret egress))
    (hne : egress ≠ cfg.localGpu) (hlt : egress < cfg.nGpusPerNode)
    (hrecorded : t.egressNic = some egress)
    (himproves : ∃ router, s.nvlinkRouter = some router ∧
      NvlinkRouter.Improves cfg.nvlink router cfg.localGpu) :
    Left cfg s t gainScore ret egress where
  recorded := hrecorded
  known := hlt
  asked := by
    rintro nicIdx (rfl | rfl) ep hep
    · exact hegress.answered ep ((hown.others _ hne).trans hep)
    · obtain ⟨ep', hep', hanswered⟩ := hown.answered ep hep
      exact ⟨ep', (hegress.others _ hne.symm).trans hep', hanswered⟩
  others := fun nicIdx hchosen hother =>
    (hegress.others nicIdx hchosen).trans (hown.others nicIdx hother)
  rerouted := fun _ => himproves

/-- Every checkpoint of a wired router goes through. -/
theorem Wired.checkpoint (hs : Wired cfg s) (hmode : cfg.mode = "tempo")
    (hgpus : 0 < cfg.nGpusPerNode) (gainScore : ℚ) (ret : Nat → Int) :
    ∃ t egress, s.checkpoint cfg gainScore ret = some t ∧ Wired cfg t ∧
      Left cfg s t gainScore ret egress := by
  have hown : Asked cfg s.fabricQos
      (applyForGain cfg s.fabricQos cfg.localGpu gainScore (ret cfg.localGpu))
      cfg.localGpu gainScore (ret cfg.localGpu) := asked_applyForGain
  unfold TempoV6.checkpoint
  rw [if_neg (by simp [hmode])]
  cases hrouter : s.nvlinkRouter with
  | none =>
      exact ⟨_, _, rfl, fun router hsome => by simp at hsome, left_own hgpus hown rfl⟩
  | some router =>
      have hwired := hs router hrouter
      obtain ⟨router', egress, hselect, hstats, hcase⟩ :=
        NvlinkRouter.selectEgressGpu_cases hwired cfg.localGpu
      have hwired' : NvlinkRouter.Wired cfg.nvlink router' :=
        ⟨fun nic => by rw [hstats]; exact hwired.keys nic,
          fun nic stat hstat => hwired.owner nic stat (by rw [← hstats]; exact hstat)⟩
      have hrouted : ∀ r, some router' = some r → NvlinkRouter.Wired cfg.nvlink r := by
        rintro r hr
        obtain rfl := Option.some.inj hr
        exact hwired'
      dsimp only
      rw [hselect, Option.map_some]
      rcases hcase with ⟨_, rfl⟩ | ⟨himproves, hne, hlt, _⟩
      · have hno : needNvlinkRelay cfg.localGpu cfg.localGpu = false := by
          simp [needNvlinkRelay]
        simp only [hno, Bool.false_eq_true, if_false]
        exact ⟨_, _, rfl, hrouted, left_own hgpus hown rfl⟩
      · rw [nvlink_length] at hlt
        have hyes : needNvlinkRelay cfg.localGpu egress = true :=
          (needNvlinkRelay_iff _ _).mpr (Ne.symm hne)
        simp only [hyes, if_true]
        exact ⟨_, egress, rfl, hrouted, left_other hown asked_applyForGain hne hlt rfl
          ⟨router, hrouter, himproves⟩⟩

theorem Wired.route (hs : Wired cfg s) {e : NvlinkEvent} (hstep : s.route cfg e = some t) :
    Wired cfg t := by
  obtain ⟨router, hrouter, hmap⟩ := Option.bind_eq_some_iff.mp hstep
  obtain ⟨router', hrouter', rfl⟩ := Option.map_eq_some_iff.mp hmap
  intro r hr
  obtain rfl := Option.some.inj hr
  exact NvlinkRouter.step_wired (hs router hrouter) hrouter'

theorem Wired.step (hs : Wired cfg s) (hgpus : 0 < cfg.nGpusPerNode) {e : V6Event}
    (hstep : s.step cfg e = some t) : Wired cfg t := by
  cases e with
  | readNic nic txBytes now => exact hs.route hstep
  | recordFlushBytes gpuIdx nBytes => exact hs.route hstep
  | checkpoint gainScore ret =>
      by_cases hmode : cfg.mode = "tempo"
      · obtain ⟨t', _, hsome, ht', _⟩ := hs.checkpoint hmode hgpus gainScore ret
        obtain rfl := Option.some.inj (hsome.symm.trans hstep)
        exact ht'
      · have hsame : s.checkpoint cfg gainScore ret = some s := by
          unfold TempoV6.checkpoint
          rw [if_pos hmode]
        obtain rfl := Option.some.inj (hsame.symm.trans hstep)
        exact hs

/-- The constructor returns only on a node with GPUs. -/
theorem new_ok {pool : Option (Nat → EpHandle)} {ret : Nat → Int}
    (hnew : new cfg pool ret = .ok s) :
    0 < cfg.nGpusPerNode ∧ s.nvlinkRouter =
      if cfg.enableNvlinkRouting then some (NvlinkRouter.new cfg.nvlink) else none := by
  unfold new at hnew
  split at hnew
  · cases hnew
  next hgpus =>
    refine ⟨Nat.pos_of_ne_zero hgpus, ?_⟩
    dsimp only at hnew
    split at hnew
    · cases pool with
      | none =>
          obtain rfl := Except.ok.inj hnew
          rfl
      | some pool =>
          dsimp only at hnew
          split at hnew
          · cases hnew
          · obtain rfl := Except.ok.inj hnew
            rfl
    · obtain rfl := Except.ok.inj hnew
      rfl

theorem wired_new {pool : Option (Nat → EpHandle)} {ret : Nat → Int}
    (hnew : new cfg pool ret = .ok s) : Wired cfg s := by
  intro router hrouter
  rw [(new_ok hnew).2] at hrouter
  obtain ⟨_, hmade⟩ := Option.ite_none_right_eq_some.mp hrouter
  obtain rfl := Option.some.inj hmade
  exact NvlinkRouter.new_wired cfg.nvlink

/-- **A checkpoint leaves by a NIC of its class.**  In every state that polls, flushes
and checkpoints lead to from the constructor, a checkpoint records a NIC of the node.
The objects of that NIC and of the own one keep the class of the gain if they do not ask
`fi_setopt` for it or if it is accepted, else the class they had, and those in step with
their adapters stay so; all other objects are left alone.  Another NIC than the own one
is taken only where the router improves on it. -/
theorem checkpoint_left (cfg : V6Config) (hmode : cfg.mode = "tempo")
    (pool : Option (Nat → EpHandle)) (built : Nat → Int) {s₀ s : TempoV6}
    (hnew : new cfg pool built = .ok s₀) (hreach : Reachable (step cfg) s₀ s)
    (gainScore : ℚ) (ret : Nat → Int) :
    ∃ t egress, s.checkpoint cfg gainScore ret = some t ∧
      Left cfg s t gainScore ret egress := by
  have hgpus := (new_ok hnew).1
  have hs : Wired cfg s :=
    hreach.invariant (wired_new hnew) fun _ _ _ hu _ hstep => hu.step hgpus hstep
  obtain ⟨t, egress, hsome, _, hleft⟩ := hs.checkpoint hmode hgpus gainScore ret
  exact ⟨t, egress, hsome, hleft⟩

/-- A node with two NICs that can be programmed. -/
def twoGpus : V6Config where
  nGpusPerNode := 2
  cxiDryRun := false
  lib := { loaded := true, cxiDevices := true }

/-- The own NIC is busy, and the checkpoint leaves by the other one, whose object then has
the class of the gain. -/
theorem checkpoint_left_busy :
    ∃ s₀ s t ep ep', new twoGpus (some fun n => .integer (n + 1)) (fun _ => 0) = .ok s₀ ∧
      Reachable (step twoGpus) s₀ s ∧
      s.checkpoint twoGpus (9 / 10) (fun _ => 0) = some t ∧ t.egressNic = some 1 ∧
      s.endpoint 1 = some ep ∧ t.endpoint 1 = some ep' ∧
      Answered twoGpus.lib ep ep' .lowLatency 0 := by
  obtain ⟨s₀, hnew⟩ : ∃ s₀,
      new twoGpus (some fun n => .integer (n + 1)) (fun _ => 0) = .ok s₀ := ⟨_, rfl⟩
  obtain ⟨s, hs⟩ : ∃ s, exec (step twoGpus) s₀ [.recordFlushBytes 0 (10 ^ 9)] = some s := by
    obtain rfl := Except.ok.inj hnew
    exact Option.isSome_iff_exists.mp (by decide +kernel)
  have hchosen : (exec (step twoGpus) s₀ [.recordFlushBytes 0 (10 ^ 9)]).bind (fun s =>
      (s.checkpoint twoGpus (9 / 10) fun _ => 0).bind (·.egressNic)) = some 1 := by
    obtain rfl := Except.ok.inj hnew
    decide +kernel
  obtain ⟨ep, hep⟩ : ∃ ep, s.endpoint 1 = some ep := by
    have hobject : ((exec (step twoGpus) s₀ [.recordFlushBytes 0 (10 ^ 9)]).bind
        (·.endpoint 1)).isSome := by
      obtain rfl := Except.ok.inj hnew
      decide +kernel
    rw [hs] at hobject
    exact Option.isSome_iff_exists.mp hobject
  have hreach := Reachable.of_exec hs
  obtain ⟨t, egress, hsome, hleft⟩ := checkpoint_left twoGpus rfl _ _ hnew hreach (9 / 10)
    fun _ => 0
  rw [hs, Option.bind_some, hsome, Option.bind_some, hleft.recorded] at hchosen
  obtain rfl := Option.some.inj hchosen
  obtain ⟨ep', hep', hanswered⟩ := hleft.asked 1 (Or.inl rfl) ep hep
  have hclass : gainToCxiTc (9 / 10 : ℚ) = .lowLatency := by decide +kernel
  exact ⟨s₀, s, t, ep, ep', hnew, hreach, hsome, hleft.recorded, hep, hep',
    hclass ▸ hanswered⟩

end TempoV6

end Tempo
