import Tempo.EndpointQos
import Tempo.MachineFamily

/-!
# The traffic classes of a pool of endpoints

`FabricQoSManager` keeps a `CXIEndpointQoS` for each NIC of the node.  `attach_pool`
makes them from the endpoints of the pool, and a class is then asked for one NIC by a
gain, or for all of them at once.  `attach_pool` takes `int` of a pointer, which is a
number only where the pool keeps integers; of a `ctypes.c_void_p` it raises
(`attachPool_ok_iff`).

What a NIC is programmed with depends on the calls for this NIC only.  Where
`fi_setopt` accepts them, it is the class that was last asked for.
-/

namespace Tempo

open OrderedDict Runs

/-- `FabricQoSManager`.  Each object is kept with the calls of `fi_setopt` it made. -/
structure FabricQos where
  nNics : Nat := 4
  dryRun : Bool := false
  defaultTc : CxiTc := .storage
  endpoints : Dict Nat EndpointRun := ∅

/-- The `_ep` of a NIC's endpoint: none, where the endpoint or the pool has none; an
integer; or a `ctypes.c_void_p`. -/
inductive EpHandle
  | absent
  | integer (ptr : Int)
  | voidPointer (ptr : Nat)

inductive PoolError
  | valueError
  deriving DecidableEq

/-- `ep_ptr`.  For `int` a `c_void_p` is a text of eight bytes, and no number: an address
has a zero byte at its end. -/
def EpHandle.toInt : EpHandle → Except PoolError Int
  | absent => .ok 0
  | integer ptr => .ok ptr
  | voidPointer _ => .error .valueError

/-- A call on the manager, with the answers that `fi_setopt` has for the NICs. -/
inductive FabricCall (K : Type*)
  | applyForGain (nicIdx : Nat) (gainScore : K) (ret : Int)
  | setAllTc (tc : CxiTc) (ret : Nat → Int)

namespace FabricQos

variable {K : Type*} [DivisionRing K] [LinearOrder K] (lib : LibFabric)

/-- The loop of `attach_pool`. -/
def attachNics (pool : Nat → EpHandle) (ret : Nat → Int) :
    List Nat → FabricQos → FabricQos × Except PoolError Unit
  | [], m => (m, .ok ())
  | nicIdx :: rest, m =>
      match (pool nicIdx).toInt with
      | .error e => (m, .error e)
      | .ok epPtr =>
          attachNics pool ret rest { m with
            endpoints := assign m.endpoints nicIdx
              (.start lib epPtr m.defaultTc m.dryRun (ret nicIdx)) }

/-- `attach_pool`, where `ret` is what `fi_setopt` answers to the constructors. -/
def attachPool (m : FabricQos) (pool : Nat → EpHandle) (ret : Nat → Int) :
    FabricQos × Except PoolError Unit :=
  attachNics lib pool ret (List.range m.nNics) m

/-- `set_tc` of the object of a NIC. -/
def setTc (m : FabricQos) (nicIdx : Nat) (tc : CxiTc) (ret : Int) : FabricQos :=
  match m.endpoints.lookup nicIdx with
  | none => m
  | some ep =>
      { m with
        endpoints := assign m.endpoints nicIdx
          (ep.after (EndpointQos.setTc lib ep.qos tc ret).2) }

/-- `apply_for_gain`; a NIC that is not in the pool is only logged. -/
def applyForGain (m : FabricQos) (nicIdx : Nat) (gainScore : K) (ret : Int) :
    CxiTc × FabricQos :=
  let tc := gainToCxiTc gainScore
  (tc, m.setTc lib nicIdx tc ret)

/-- `set_all_tc` -/
def setAllTc (m : FabricQos) (tc : CxiTc) (ret : Nat → Int) : FabricQos :=
  m.endpoints.keys.foldl (fun m nicIdx => m.setTc lib nicIdx tc (ret nicIdx)) m

def step (m : FabricQos) : FabricCall K → Option FabricQos
  | .applyForGain nicIdx gainScore ret => some (m.applyForGain lib nicIdx gainScore ret).2
  | .setAllTc tc ret => some (m.setAllTc lib tc ret)

/-- The calls of `set_tc` that a call on the manager makes. -/
def requests (nics : List Nat) : FabricCall K → List (Nat × QosCall K)
  | .applyForGain nicIdx gainScore ret => [(nicIdx, .setTc (gainToCxiTc gainScore) ret)]
  | .setAllTc tc ret => nics.map fun nicIdx => (nicIdx, .setTc tc (ret nicIdx))

/-- The class that a call leaves, where `current` was there before it. -/
def answered (current : CxiTc) : QosCall K → CxiTc
  | .setTc tc ret => if ret = 0 then tc else current
  | .setTcForGain gainScore ret => if ret = 0 then gainToCxiTc gainScore else current

variable {lib} {m m' : FabricQos} {nicIdx : Nat} {tc : CxiTc} {ret : Int}
  {call : FabricCall K}

/-! ## The manager is a family of endpoints -/

theorem attachNics_ok_iff (pool : Nat → EpHandle) (ret : Nat → Int) (nics : List Nat)
    (m : FabricQos) :
    (attachNics lib pool ret nics m).2 = .ok () ↔
      ∀ nicIdx ∈ nics, ∃ epPtr, (pool nicIdx).toInt = .ok epPtr := by
  induction nics generalizing m with
  | nil => exact iff_of_true rfl fun _ hnone => by cases hnone
  | cons nicIdx rest ih =>
      rw [List.forall_mem_cons]
      unfold attachNics
      cases hptr : (pool nicIdx).toInt with
      | error e => simp
      | ok epPtr =>
          dsimp only
          rw [ih]
          simp

/-- A pool is attached where no pointer in it is a `c_void_p`. -/
theorem attachPool_ok_iff (pool : Nat → EpHandle) (ret : Nat → Int) :
    (m.attachPool lib pool ret).2 = .ok () ↔
      ∀ nicIdx < m.nNics, ∀ ptr, pool nicIdx ≠ .voidPointer ptr := by
  unfold attachPool
  rw [attachNics_ok_iff]
  simp only [List.mem_range]
  refine forall₂_congr fun nicIdx _ => ?_
  cases pool nicIdx <;> simp [EpHandle.toInt]

theorem lookup_attachNics {pool : Nat → EpHandle} {ret : Nat → Int} {nics : List Nat}
    {m m' : FabricQos} (hattach : attachNics lib pool ret nics m = (m', .ok ()))
    {nicIdx : Nat} {epPtr : Int} (hptr : (pool nicIdx).toInt = .ok epPtr) :
    m'.endpoints.lookup nicIdx =
      if nicIdx ∈ nics then some (.start lib epPtr m.defaultTc m.dryRun (ret nicIdx))
      else m.endpoints.lookup nicIdx := by
  induction nics generalizing m with
  | nil =>
      obtain ⟨rfl, -⟩ := Prod.mk.inj hattach
      simp
  | cons first rest ih =>
      unfold attachNics at hattach
      cases hfirst : (pool first).toInt with
      | error e =>
          rw [hfirst] at hattach
          cases (Prod.mk.inj hattach).2
      | ok firstPtr =>
          rw [hfirst] at hattach
          rw [ih hattach]
          dsimp only
          rw [lookup_assign]
          by_cases hsame : nicIdx = first
          · subst hsame
            obtain rfl := Except.ok.inj (hfirst.symm.trans hptr)
            simp
          · simp [hsame]

/-- The object of an attached NIC. -/
theorem lookup_attachPool {pool : Nat → EpHandle} {ret : Nat → Int} {m₀ : FabricQos}
    (hattach : m.attachPool lib pool ret = (m₀, .ok ())) (hnic : nicIdx < m.nNics) :
    ∃ epPtr, (pool nicIdx).toInt = .ok epPtr ∧
      m₀.endpoints.lookup nicIdx =
        some (.start lib epPtr m.defaultTc m.dryRun (ret nicIdx)) := by
  have hok := (attachNics_ok_iff pool ret (List.range m.nNics) m).mp
    (congrArg Prod.snd hattach)
  obtain ⟨epPtr, hptr⟩ := hok nicIdx (List.mem_range.mpr hnic)
  refine ⟨epPtr, hptr, ?_⟩
  rw [lookup_attachNics hattach hptr, if_pos (List.mem_range.mpr hnic)]

theorem step_setTc : MachineFamily.step (EndpointRun.step (K := K) lib) m.endpoints
    (nicIdx, .setTc tc ret) = some (m.setTc lib nicIdx tc ret).endpoints := by
  unfold setTc MachineFamily.step
  cases m.endpoints.lookup nicIdx <;> rfl

theorem keys_setTc : (m.setTc lib nicIdx tc ret).endpoints.keys = m.endpoints.keys := by
  unfold setTc
  cases hlookup : m.endpoints.lookup nicIdx with
  | none => rfl
  | some ep => exact keys_assign_of_mem (mem_of_lookup hlookup) _

theorem exec_setAll (nics : List Nat) (tc : CxiTc) (ret : Nat → Int) (m : FabricQos) :
    exec (MachineFamily.step (EndpointRun.step (K := K) lib)) m.endpoints
        (nics.map fun nicIdx => (nicIdx, .setTc tc (ret nicIdx))) =
      some (nics.foldl (fun m nicIdx => m.setTc lib nicIdx tc (ret nicIdx)) m).endpoints ∧
    (nics.foldl (fun m nicIdx => m.setTc lib nicIdx tc (ret nicIdx)) m).endpoints.keys =
      m.endpoints.keys := by
  induction nics generalizing m with
  | nil => exact ⟨rfl, rfl⟩
  | cons nicIdx nics ih =>
      obtain ⟨hexec, hkeys⟩ := ih (m.setTc lib nicIdx tc (ret nicIdx))
      refine ⟨?_, hkeys.trans keys_setTc⟩
      rw [List.map_cons, exec, step_setTc, Option.bind_some, List.foldl_cons]
      exact hexec

/-- A call on the manager is its requests, one after the other. -/
theorem exec_requests (hstep : step lib m call = some m') :
    exec (MachineFamily.step (EndpointRun.step (K := K) lib)) m.endpoints
        (requests m.endpoints.keys call) = some m'.endpoints ∧
      m'.endpoints.keys = m.endpoints.keys := by
  cases call with
  | applyForGain nicIdx gainScore ret =>
      obtain rfl := Option.some.inj hstep
      refine ⟨?_, keys_setTc⟩
      rw [requests, exec, step_setTc]
      rfl
  | setAllTc tc ret =>
      obtain rfl := Option.some.inj hstep
      exact exec_setAll _ tc ret m

/-- A run of the manager is a run of the family on its requests. -/
theorem exec_calls {calls : List (FabricCall K)} (hexec : exec (step lib) m calls = some m') :
    exec (MachineFamily.step (EndpointRun.step (K := K) lib)) m.endpoints
      (calls.flatMap (requests m.endpoints.keys)) = some m'.endpoints := by
  induction calls generalizing m with
  | nil =>
      obtain rfl := Option.some.inj hexec
      rfl
  | cons call calls ih =>
      obtain ⟨mid, hmid, hrest⟩ := Option.bind_eq_some_iff.mp hexec
      obtain ⟨hfirst, hkeys⟩ := exec_requests hmid
      have hlater := ih hrest
      rw [hkeys] at hlater
      rw [List.flatMap_cons, exec_append, hfirst, Option.bind_some]
      exact hlater

/-! ## The class of a NIC -/

open EndpointRun in
/-- What a call does to the class that is programmed. -/
theorem synced_step {s t : EndpointRun} {call : QosCall K} (hs : Synced lib s)
    (hstep : EndpointRun.step lib s call = some t) :
    Synced lib t ∧ t.qos.current = answered s.qos.current call := by
  refine ⟨hs.step hstep, ?_⟩
  have hset : ∀ tc ret, (EndpointQos.setTc lib s.qos tc ret).2.1.current =
      if ret = 0 then tc else s.qos.current := by
    intro tc ret
    by_cases htc : tc = s.qos.current
    · subst htc
      rw [EndpointQos.setTc_same, ite_self]
    · by_cases hret : ret = 0
      · subst hret
        rw [EndpointQos.setTc_accepted hs.live htc, if_pos rfl]
      · rw [EndpointQos.setTc_refused hs.live htc hret, if_neg hret]
  cases call with
  | setTc tc ret =>
      obtain rfl := Option.some.inj hstep
      exact hset tc ret
  | setTcForGain gainScore ret =>
      obtain rfl := Option.some.inj hstep
      exact hset (gainToCxiTc gainScore) ret

open EndpointRun in
theorem synced_exec {s t : EndpointRun} {calls : List (QosCall K)} (hs : Synced lib s)
    (hexec : exec (EndpointRun.step lib) s calls = some t) :
    t.programmed = some (calls.foldl answered s.qos.current) := by
  induction calls generalizing s with
  | nil =>
      obtain rfl := Option.some.inj hexec
      exact hs.current
  | cons call calls ih =>
      obtain ⟨mid, hmid, hrest⟩ := Option.bind_eq_some_iff.mp hexec
      obtain ⟨hmidSynced, hcurrent⟩ := synced_step hs hmid
      rw [List.foldl_cons, ← hcurrent]
      exact ih hmidSynced hrest

/-- The calls of `set_tc` for one NIC, over calls on the manager. -/
def asked (m : FabricQos) (calls : List (FabricCall K)) (nicIdx : Nat) :
    List (QosCall K) :=
  MachineFamily.addressed nicIdx (calls.flatMap (requests m.endpoints.keys))

open EndpointRun in
theorem synced_start {epPtr ret : Int} {initialTc : CxiTc}
    (hlib : lib.available = true) (hptr : epPtr ≠ 0) (hret : ret = 0) :
    Synced lib (.start lib epPtr initialTc false ret) ∧
      (start lib epPtr initialTc false ret).qos.current = initialTc := by
  obtain ⟨hloaded, hdevices⟩ := (Bool.and_eq_true_iff).mp hlib
  have hwet : (start lib epPtr initialTc false ret).qos.dryRun = false := by
    simp [start, EndpointQos.init_dryRun, hlib]
  refine ⟨⟨⟨hwet, hloaded, ?_⟩, (programmed_start_iff hwet).mpr ⟨hptr, hret⟩⟩, ?_⟩
  · rw [start, EndpointQos.init_epPtr]
    exact hptr
  · simp [start, EndpointQos.init, EndpointQos.apply, hlib, hloaded, hptr, hret]

/-- **A NIC has the class that was last asked of it and accepted.**  After any calls
for any NICs, an attached NIC is where the calls for it alone would have brought it. -/
theorem programmed_answered (lib : LibFabric) (m : FabricQos) (pool : Nat → EpHandle)
    (ret : Nat → Int) {m₀ m' : FabricQos}
    (hattach : m.attachPool lib pool ret = (m₀, .ok ()))
    (calls : List (FabricCall K)) (hexec : exec (step lib) m₀ calls = some m') (nicIdx : Nat)
    (hnic : nicIdx < m.nNics) :
    ∃ epPtr ep, (pool nicIdx).toInt = .ok epPtr ∧
      m'.endpoints.lookup nicIdx = some ep ∧
      exec (EndpointRun.step lib) (.start lib epPtr m.defaultTc m.dryRun (ret nicIdx))
        (asked m₀ calls nicIdx) = some ep ∧
      (lib.available = true → m.dryRun = false → epPtr ≠ 0 → ret nicIdx = 0 →
        ep.programmed = some ((asked m₀ calls nicIdx).foldl answered m.defaultTc)) := by
  obtain ⟨epPtr, hpool, hstart⟩ := lookup_attachPool hattach hnic
  have hfamily := exec_calls hexec
  have hlookup := MachineFamily.exec_lookup hfamily nicIdx
  rw [hstart, Option.bind_some] at hlookup
  have hrun := MachineFamily.exec_isSome_iff.mp (Option.isSome_of_mem hfamily) nicIdx
    (.start lib epPtr m.defaultTc m.dryRun (ret nicIdx)) hstart
  obtain ⟨ep, hep⟩ := Option.isSome_iff_exists.mp hrun
  refine ⟨epPtr, ep, hpool, hlookup.trans hep, hep, fun hlib hwet hptr hret => ?_⟩
  rw [hwet] at hep
  obtain ⟨hsynced, hcurrent⟩ : EndpointRun.Synced lib
      (.start lib epPtr m.defaultTc false (ret nicIdx)) ∧ _ :=
    synced_start hlib hptr hret
  rw [← hcurrent]
  exact synced_exec hsynced hep

/-- Two NICs are given a class, and one is refused another. -/
theorem programmed_answered_two :
    ∃ ep : EndpointRun, ep.programmed = some .bulk := by
  obtain ⟨epPtr, ep, hpool, _, _, hprogrammed⟩ := programmed_answered
    { loaded := true, cxiDevices := true } { nNics := 2 } (fun n => .integer (n + 1))
    (fun _ => 0) rfl
    [FabricCall.setAllTc .bulk fun _ => 0, .applyForGain 0 (9 / 10 : ℚ) (-1),
      .applyForGain 1 (9 / 10) 0] rfl 0 (by decide)
  obtain rfl : 0 + 1 = epPtr := Except.ok.inj hpool
  exact ⟨ep, (hprogrammed rfl rfl (by decide) rfl).trans (by decide +kernel)⟩

end FabricQos

end Tempo
