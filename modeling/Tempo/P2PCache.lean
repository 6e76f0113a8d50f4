import Mathlib.Algebra.Order.Field.Rat
import Tempo.CheckpointManager
import Tempo.ConsistentHashRing

/-!
# The peer-to-peer cache store

`_LocalTierStore` keeps recent entries in DRAM and spills the least recently
used ones to files, which an index lists; `P2PCacheStore` routes a key to the
ranks that own it and serves what this rank owns from its local store.

The disk maps the digest that names a file to its content.  An operation is
given what the machine does during it: the clock, which writes fail and how,
whether the file can be read, and what the network answers.  Owners of a key
are distinct, so the surroundings of the local calls of one operation are
indexed by the owner they are made for.
-/

namespace Tempo

open OrderedDict

inductive Tier where
  | dram
  | nvme
  deriving DecidableEq

/-- `_CacheEntry`. -/
structure CacheEntry where
  key : String
  data : Bytes
  sizeBytes : Nat
  tier : Tier
  lastAccess : ℚ
  hitCount : Nat := 0

/-- What becomes of one write of a file: it succeeds, the file cannot be
opened, or the write fails after some bytes. -/
inductive WriteOutcome where
  | ok
  | openFails
  | writeFails (written : Nat)
  deriving DecidableEq

/-- What the machine does during one call of the local store. -/
structure TierEnv where
  now : ℚ := 0
  write : String → WriteOutcome := fun _ => .ok
  readable : Bool := true

/-- The byte budgets. -/
structure TierLimits where
  dram : Int
  nvme : Int

structure TierStore where
  dram : Dict String CacheEntry := ∅
  dramBytes : Int := 0
  nvmeIndex : Dict String CacheEntry := ∅
  nvmeBytes : Int := 0
  hitsDram : Nat := 0
  hitsNvme : Nat := 0
  misses : Nat := 0
  evictions : Nat := 0
  /-- The files under `nvme_root`, by the digest that names them. -/
  files : Nat → Option Bytes

namespace TierStore

variable (lim : TierLimits) (md5 : String → Nat)

/-- The content of a file after a write of `data`. -/
def written (old : Option Bytes) (data : Bytes) : WriteOutcome → Option Bytes
  | .ok => some data
  | .openFails => old
  | .writeFails n => some (data.take n)

def nvmeWrite (s : TierStore) (key : String) (data : Bytes)
    (outcome : WriteOutcome) : TierStore :=
  { s with
    files := Function.update s.files (md5 key)
      (written (s.files (md5 key)) data outcome) }

def nvmeRead (s : TierStore) (key : String) (readable : Bool) :
    Option Bytes :=
  if readable then s.files (md5 key) else none

/-- `min(self._dram, key=last_access)`. -/
def victim (s : TierStore) : Option (Σ _ : String, CacheEntry) :=
  least CacheEntry.lastAccess s.dram

/-- Pop a victim from DRAM and spill it if the NVMe budget admits it. -/
def spill (env : TierEnv) (s : TierStore) (key : String)
    (entry : CacheEntry) : TierStore :=
  let s := { s with
    dram := s.dram.erase key
    dramBytes := s.dramBytes - entry.sizeBytes
    evictions := s.evictions + 1 }
  if s.nvmeBytes + entry.sizeBytes ≤ lim.nvme then
    { s.nvmeWrite md5 key entry.data (env.write key) with
      nvmeIndex := assign s.nvmeIndex key { entry with tier := .nvme }
      nvmeBytes := s.nvmeBytes + entry.sizeBytes }
  else s

/-- The loop of `_evict_dram_if_needed`: at most one turn for each entry in
DRAM. -/
def evictLoop (env : TierEnv) (needed : Nat) : Nat → TierStore → TierStore
  | 0, s => s
  | turns + 1, s =>
      if lim.dram < s.dramBytes + needed then
        match s.victim with
        | none => s
        | some ⟨key, entry⟩ =>
            evictLoop env needed turns (s.spill lim md5 env key entry)
      else s

def evictDramIfNeeded (env : TierEnv) (s : TierStore) (needed : Nat) :
    TierStore :=
  evictLoop lim md5 env needed s.dram.entries.length s

def put (env : TierEnv) (s : TierStore) (key : String) (data : Bytes) :
    TierStore :=
  let size := data.length
  let s := s.evictDramIfNeeded lim md5 env size
  { s with
    dram := assign s.dram key
      { key, data, sizeBytes := size, tier := .dram, lastAccess := env.now }
    dramBytes := s.dramBytes + size }

/-- Put an entry read from its file back into DRAM. -/
def promote (env : TierEnv) (s : TierStore) (key : String) (e : CacheEntry)
    (data : Bytes) : TierStore :=
  let s := s.evictDramIfNeeded lim md5 env data.length
  { s with
    dram := assign s.dram key
      { key, data, sizeBytes := data.length, tier := .dram,
        lastAccess := env.now, hitCount := e.hitCount + 1 }
    dramBytes := s.dramBytes + data.length
    nvmeIndex := s.nvmeIndex.erase key
    nvmeBytes := s.nvmeBytes - e.sizeBytes
    hitsNvme := s.hitsNvme + 1 }

def get (env : TierEnv) (s : TierStore) (key : String) :
    TierStore × Option Bytes :=
  match s.dram.lookup key with
  | some e =>
      ({ s with
          dram := assign s.dram key
            { e with lastAccess := env.now, hitCount := e.hitCount + 1 }
          hitsDram := s.hitsDram + 1 },
        some e.data)
  | none =>
      match s.nvmeIndex.lookup key with
      | none => ({ s with misses := s.misses + 1 }, none)
      | some e =>
          match s.nvmeRead md5 key env.readable with
          | none => ({ s with misses := s.misses + 1 }, none)
          | some data => (s.promote lim md5 env key e data, some data)

/-- The `_dram.pop` of `P2PCacheStore.evict`. -/
def popDram (s : TierStore) (key : String) : TierStore :=
  { s with dram := s.dram.erase key }

section Evict

variable {lim : TierLimits} {md5 : String → Nat} {env : TierEnv}
  {s : TierStore} {key k : String} {entry : CacheEntry}

@[simp]
theorem spill_dram :
    (s.spill lim md5 env key entry).dram = s.dram.erase key := by
  unfold spill
  dsimp only
  split <;> rfl

theorem length_spill_victim {v : Σ _ : String, CacheEntry}
    (h : s.victim = some v) :
    (s.spill lim md5 env v.1 v.2).dram.entries.length < s.dram.entries.length := by
  rw [spill_dram]
  exact length_erase_lt (mem_of_lookup (lookup_of_least h))

/-- With a turn for each entry in DRAM the loop ends as the source's does: the
new entry fits, or DRAM is empty. -/
theorem evictLoop_room {needed : Nat} (turns : Nat) :
    ∀ {s : TierStore}, s.dram.entries.length ≤ turns →
      (s.evictLoop lim md5 env needed turns).dramBytes + needed ≤ lim.dram ∨
        (s.evictLoop lim md5 env needed turns).dram.entries = [] := by
  induction turns with
  | zero =>
      intro s hturns
      exact .inr (List.length_eq_zero_iff.mp (Nat.le_zero.mp hturns))
  | succ turns ih =>
      intro s hturns
      unfold evictLoop
      split
      next hover =>
        cases hvictim : s.victim with
        | none => exact .inr (least_eq_none.mp hvictim)
        | some v =>
            have hshorter : (s.spill lim md5 env v.1 v.2).dram.entries.length <
                s.dram.entries.length := length_spill_victim hvictim
            apply ih
            omega
      next hfits => exact .inl (not_lt.mp hfits)

theorem evictDramIfNeeded_room (needed : Nat) :
    (s.evictDramIfNeeded lim md5 env needed).dramBytes + needed ≤ lim.dram ∨
      (s.evictDramIfNeeded lim md5 env needed).dram.entries = [] :=
  evictLoop_room _ le_rfl

end Evict

section Holds

/-- The key has an entry in one of the tiers. -/
def Holds (s : TierStore) (key : String) : Prop :=
  key ∈ s.dram ∨ key ∈ s.nvmeIndex

variable {lim : TierLimits} {md5 : String → Nat} {env : TierEnv}
  {s : TierStore} {key k : String} {entry : CacheEntry} {data : Bytes}

theorem mem_spill_nvmeIndex {k : String}
    (h : k ∈ (s.spill lim md5 env key entry).nvmeIndex) :
    k = key ∨ k ∈ s.nvmeIndex := by
  unfold spill at h
  dsimp only at h
  split at h
  · exact mem_assign.mp h
  · exact .inr h

theorem holds_spill (hentry : s.dram.lookup key = some entry)
    (h : (s.spill lim md5 env key entry).Holds k) : s.Holds k := by
  have hkey : key ∈ s.dram := mem_of_lookup hentry
  rcases h with hdram | hindex
  · rw [spill_dram] at hdram
    exact .inl (AList.mem_erase.mp hdram).2
  · rcases mem_spill_nvmeIndex hindex with rfl | hold
    · exact .inl hkey
    · exact .inr hold

theorem holds_evictLoop {needed : Nat} (turns : Nat) :
    ∀ {s : TierStore},
      (s.evictLoop lim md5 env needed turns).Holds k → s.Holds k := by
  induction turns with
  | zero => exact fun h => h
  | succ turns ih =>
      intro s h
      unfold evictLoop at h
      split at h
      · cases hvictim : s.victim with
        | none =>
            rw [hvictim] at h
            exact h
        | some v =>
            rw [hvictim] at h
            exact holds_spill (lookup_of_least hvictim) (ih h)
      · exact h

/-- A put adds its key only. -/
theorem holds_put (h : (s.put lim md5 env key data).Holds k) :
    k = key ∨ s.Holds k := by
  rcases h with hdram | hindex
  · exact (mem_assign.mp hdram).imp_right fun h' =>
      holds_evictLoop _ (.inl h')
  · exact .inr (holds_evictLoop _ (.inr hindex))

theorem holds_put_self : (s.put lim md5 env key data).Holds key :=
  .inl (mem_assign.mpr (.inl rfl))

/-- A get returns data of keys held only, and adds none. -/
theorem holds_get (h : (s.get lim md5 env key).1.Holds k) : s.Holds k := by
  unfold get at h
  split at h
  next e hdram =>
    have hkey : key ∈ s.dram := mem_of_lookup hdram
    rcases h with h' | h'
    · exact (mem_assign.mp h').elim (fun heq => .inl (heq ▸ hkey)) .inl
    · exact .inr h'
  · split at h
    · exact h
    next e hindex =>
      have hkey : key ∈ s.nvmeIndex := mem_of_lookup hindex
      split at h
      · exact h
      · rcases h with h' | h'
        · exact (mem_assign.mp h').elim (fun heq => .inr (heq ▸ hkey))
            fun h'' => holds_evictLoop _ (.inl h'')
        · exact holds_evictLoop _ (.inr (AList.mem_erase.mp h').2)

theorem holds_of_get (h : (s.get lim md5 env key).2 = some data) :
    s.Holds key := by
  unfold get at h
  split at h
  next e hdram => exact .inl (mem_of_lookup hdram)
  · split at h
    · cases h
    next e hindex => exact .inr (mem_of_lookup hindex)

end Holds

end TierStore

/-- The parameters of a `P2PCacheStore`. -/
structure P2PConfig where
  rank : Int := 0
  worldSize : Nat := 1
  replication : Int := 2
  simulation : Bool := true
  limits : TierLimits
  /-- The ranks in `_peer_addrs`. -/
  peerAddrs : List Int := []

structure P2PCacheStore where
  localStore : TierStore
  putsLocal : Nat := 0
  putsRemote : Nat := 0
  getsLocal : Nat := 0
  getsRemote : Nat := 0
  getsMiss : Nat := 0

/-- What the machine and the network do during one operation, by owner. -/
structure P2PEnv where
  tier : Int → TierEnv := fun _ => {}
  remotePut : Int → Bool := fun _ => false
  remoteGet : Int → Option Bytes := fun _ => none

namespace P2PCacheStore

variable (cfg : P2PConfig) (md5 : String → Nat)

/-- The owners of a key on the ring of all ranks. -/
def owners (key : String) : List Int :=
  (ConsistentHashRing.ofWorld md5 cfg.worldSize).getNodes md5 key
    cfg.replication

/-- An owner is served from the local store. -/
def servesLocally (owner : Int) : Bool :=
  owner == cfg.rank || cfg.simulation

/-- `_remote_put`: whether the peer has taken the data. -/
def remotePut (env : P2PEnv) (owner : Int) : Bool :=
  cfg.simulation || (owner ∈ cfg.peerAddrs && env.remotePut owner)

/-- `_remote_get`. -/
def remoteGet (env : P2PEnv) (owner : Int) : Option Bytes :=
  if cfg.simulation then none
  else if owner ∈ cfg.peerAddrs then env.remoteGet owner
  else none

/-- The loop of `put` over the owners; it returns where the data was stored. -/
def putLoop (env : P2PEnv) (key : String) (data : Bytes) :
    List Int → P2PCacheStore → List Int → P2PCacheStore × List Int
  | [], s, storedOn => (s, storedOn)
  | owner :: rest, s, storedOn =>
      if servesLocally cfg owner then
        putLoop env key data rest
          { s with
            localStore :=
              s.localStore.put cfg.limits md5 (env.tier owner) key data
            putsLocal := s.putsLocal + 1 }
          (storedOn ++ [cfg.rank])
      else if remotePut cfg env owner then
        putLoop env key data rest
          { s with putsRemote := s.putsRemote + 1 } (storedOn ++ [owner])
      else putLoop env key data rest s storedOn

def put (env : P2PEnv) (s : P2PCacheStore) (key : String) (data : Bytes) :
    P2PCacheStore × List Int :=
  putLoop cfg md5 env key data (owners cfg md5 key) s []

/-- The loop of `get`: replicas in order until a hit. -/
def getLoop (env : P2PEnv) (key : String) :
    List Int → P2PCacheStore → P2PCacheStore × Option Bytes
  | [], s => ({ s with getsMiss := s.getsMiss + 1 }, none)
  | owner :: rest, s =>
      if servesLocally cfg owner then
        let found := s.localStore.get cfg.limits md5 (env.tier owner) key
        match found.2 with
        | some data =>
            ({ s with localStore := found.1, getsLocal := s.getsLocal + 1 },
              some data)
        | none => getLoop env key rest { s with localStore := found.1 }
      else
        match remoteGet cfg env owner with
        | some data =>
            ({ s with getsRemote := s.getsRemote + 1 }, some data)
        | none => getLoop env key rest s

def get (env : P2PEnv) (s : P2PCacheStore) (key : String) :
    P2PCacheStore × Option Bytes :=
  getLoop cfg md5 env key (owners cfg md5 key) s

/-- Explicit eviction. -/
def evict (s : P2PCacheStore) (key : String) : P2PCacheStore :=
  if cfg.rank ∈ owners cfg md5 key ∨ cfg.simulation then
    { s with localStore := s.localStore.popDram key }
  else s

section Preserved

variable {cfg : P2PConfig} {md5 : String → Nat} {env : P2PEnv} {key : String}
  {data : Bytes} {P : TierStore → Prop}

/-- Every local put of a replicated put meets `C`. -/
def EveryPut (cfg : P2PConfig) (md5 : String → Nat)
    (C : TierStore → TierEnv → Prop) (env : P2PEnv) (key : String)
    (data : Bytes) : List Int → TierStore → Prop
  | [], _ => True
  | owner :: rest, s =>
      if servesLocally cfg owner then
        C s (env.tier owner) ∧
          EveryPut cfg md5 C env key data rest
            (s.put cfg.limits md5 (env.tier owner) key data)
      else EveryPut cfg md5 C env key data rest s

/-- Every local get that a replicated get makes until its hit meets `C`. -/
def EveryGet (cfg : P2PConfig) (md5 : String → Nat)
    (C : TierStore → TierEnv → Prop) (env : P2PEnv) (key : String) :
    List Int → TierStore → Prop
  | [], _ => True
  | owner :: rest, s =>
      if servesLocally cfg owner then
        C s (env.tier owner) ∧
          ((s.get cfg.limits md5 (env.tier owner) key).2 = none →
            EveryGet cfg md5 C env key rest
              (s.get cfg.limits md5 (env.tier owner) key).1)
      else
        remoteGet cfg env owner = none → EveryGet cfg md5 C env key rest s

instance EveryPut.decidable (C : TierStore → TierEnv → Prop)
    [hdec : ∀ s e, Decidable (C s e)] :
    ∀ l s, Decidable (EveryPut cfg md5 C env key data l s)
  | [], _ => isTrue trivial
  | owner :: rest, s =>
      have := EveryPut.decidable C rest s
      have := EveryPut.decidable C rest
        (s.put cfg.limits md5 (env.tier owner) key data)
      inferInstanceAs (Decidable
        (if servesLocally cfg owner then _ ∧ _ else _))

instance EveryGet.decidable (C : TierStore → TierEnv → Prop)
    [hdec : ∀ s e, Decidable (C s e)] :
    ∀ l s, Decidable (EveryGet cfg md5 C env key l s)
  | [], _ => isTrue trivial
  | owner :: rest, s =>
      have := EveryGet.decidable C rest s
      have := EveryGet.decidable C rest
        (s.get cfg.limits md5 (env.tier owner) key).1
      inferInstanceAs (Decidable
        (if servesLocally cfg owner then _ ∧ (_ → _) else _ → _))

/-- What each local put preserves, a replicated put preserves. -/
theorem EveryPut.preserves {C : TierStore → TierEnv → Prop}
    (hput : ∀ t owner, P t → C t (env.tier owner) →
      P (t.put cfg.limits md5 (env.tier owner) key data))
    (l : List Int) :
    ∀ {s : P2PCacheStore} {storedOn : List Int}, P s.localStore →
      EveryPut cfg md5 C env key data l s.localStore →
      P (putLoop cfg md5 env key data l s storedOn).1.localStore := by
  induction l with
  | nil => exact fun h _ => h
  | cons owner l ih =>
      intro s storedOn h hall
      unfold EveryPut at hall
      unfold putLoop
      split
      next hlocal =>
        rw [if_pos hlocal] at hall
        exact ih (hput _ _ h hall.1) hall.2
      next hremote =>
        rw [if_neg hremote] at hall
        split
        · exact ih h hall
        · exact ih h hall

/-- The same for a get, which asks the owners in turn. -/
theorem EveryGet.preserves {C : TierStore → TierEnv → Prop}
    (hget : ∀ t owner, P t → C t (env.tier owner) →
      P (t.get cfg.limits md5 (env.tier owner) key).1)
    (l : List Int) :
    ∀ {s : P2PCacheStore}, P s.localStore →
      EveryGet cfg md5 C env key l s.localStore →
      P (getLoop cfg md5 env key l s).1.localStore := by
  induction l with
  | nil => exact fun h _ => h
  | cons owner l ih =>
      intro s h hall
      unfold EveryGet at hall
      unfold getLoop
      split
      next hlocal =>
        rw [if_pos hlocal] at hall
        dsimp only
        split
        · exact hget _ _ h hall.1
        next hmiss => exact ih (hget _ _ h hall.1) (hall.2 hmiss)
      next hremote =>
        rw [if_neg hremote] at hall
        split
        · exact h
        next hmiss => exact ih h (hall hmiss)

/-- What holds of every local put while an invariant of them does. -/
theorem everyPut_of_invariant {C : TierStore → TierEnv → Prop}
    (hmeets : ∀ t owner, P t → C t (env.tier owner))
    (hput : ∀ t owner, P t →
      P (t.put cfg.limits md5 (env.tier owner) key data))
    (l : List Int) :
    ∀ {s : TierStore}, P s → EveryPut cfg md5 C env key data l s := by
  induction l with
  | nil => exact fun _ => trivial
  | cons owner l ih =>
      intro s h
      unfold EveryPut
      split
      · exact ⟨hmeets s owner h, ih (hput s owner h)⟩
      · exact ih h

theorem EveryGet.mono {C D : TierStore → TierEnv → Prop}
    (himp : ∀ t e, C t e → D t e) (l : List Int) :
    ∀ {s : TierStore}, EveryGet cfg md5 C env key l s →
      EveryGet cfg md5 D env key l s := by
  induction l with
  | nil => exact fun _ => trivial
  | cons owner l ih =>
      intro s h
      unfold EveryGet at h ⊢
      split
      next hlocal =>
        rw [if_pos hlocal] at h
        exact ⟨himp _ _ h.1, fun hmiss => ih (h.2 hmiss)⟩
      next hremote =>
        rw [if_neg hremote] at h
        exact fun hmiss => ih (h hmiss)

theorem everyGet_of_forall {C : TierStore → TierEnv → Prop} (hC : ∀ t e, C t e)
    (l : List Int) :
    ∀ s : TierStore, EveryGet cfg md5 C env key l s := by
  induction l with
  | nil => exact fun _ => trivial
  | cons owner l ih =>
      intro s
      unfold EveryGet
      split
      · exact ⟨hC _ _, fun _ => ih _⟩
      · exact fun _ => ih s

theorem putLoop_preserves
    (hput : ∀ t owner, P t →
      P (t.put cfg.limits md5 (env.tier owner) key data))
    (l : List Int) {s : P2PCacheStore} {storedOn : List Int}
    (h : P s.localStore) :
    P (putLoop cfg md5 env key data l s storedOn).1.localStore :=
  EveryPut.preserves (C := fun _ _ => True) (fun t owner ht _ => hput t owner ht) l h
    (everyPut_of_invariant (fun _ _ _ => trivial) hput l h)

theorem getLoop_preserves
    (hget : ∀ t owner, P t →
      P (t.get cfg.limits md5 (env.tier owner) key).1)
    (l : List Int) {s : P2PCacheStore} (h : P s.localStore) :
    P (getLoop cfg md5 env key l s).1.localStore :=
  EveryGet.preserves (C := fun _ _ => True) (fun t owner ht _ => hget t owner ht) l h
    (everyGet_of_forall (fun _ _ => trivial) l _)

end Preserved

section Holds

variable {cfg : P2PConfig} {md5 : String → Nat} {env : P2PEnv}
  {s : P2PCacheStore} {key k : String} {data : Bytes}

/-- Some owner of the key is served from the local store. -/
def StoresLocally (cfg : P2PConfig) (md5 : String → Nat) (key : String) :
    Prop :=
  ∃ owner ∈ owners cfg md5 key, servesLocally cfg owner = true

theorem holds_putLoop (l : List Int) :
    ∀ {s : P2PCacheStore} {storedOn : List Int},
      (putLoop cfg md5 env key data l s storedOn).1.localStore.Holds k →
        (k = key ∧ ∃ owner ∈ l, servesLocally cfg owner = true) ∨
          s.localStore.Holds k := by
  induction l with
  | nil => exact fun h => .inr h
  | cons owner l ih =>
      intro s storedOn h
      have hlater : ∀ {t : P2PCacheStore} {storedOn' : List Int},
          (putLoop cfg md5 env key data l t storedOn').1.localStore.Holds k →
            (k = key ∧ ∃ o ∈ owner :: l, servesLocally cfg o = true) ∨
              t.localStore.Holds k := fun h' =>
        (ih h').imp_left fun ⟨heq, o, ho, hserves⟩ =>
          ⟨heq, o, List.mem_cons_of_mem _ ho, hserves⟩
      unfold putLoop at h
      split at h
      next hserves =>
        rcases hlater h with hkey | hput
        · exact .inl hkey
        · exact (TierStore.holds_put hput).imp_left fun heq =>
            ⟨heq, owner, List.mem_cons_self, hserves⟩
      · split at h
        · have hrest := hlater h
          exact hrest
        · exact hlater h

/-- A put adds its key only, and only where an owner is local. -/
theorem holds_put (h : (s.put cfg md5 env key data).1.localStore.Holds k) :
    (k = key ∧ StoresLocally cfg md5 key) ∨ s.localStore.Holds k :=
  holds_putLoop _ h

theorem holds_putLoop_of_holds (l : List Int) :
    ∀ {s : P2PCacheStore} {storedOn : List Int},
      s.localStore.Holds key ∨ (∃ owner ∈ l, servesLocally cfg owner = true) →
        (putLoop cfg md5 env key data l s storedOn).1.localStore.Holds key := by
  induction l with
  | nil => exact fun h => h.elim id (by simp)
  | cons owner l ih =>
      intro s storedOn h
      unfold putLoop
      split
      · exact ih (.inl TierStore.holds_put_self)
      next hserves =>
        have hrest : s.localStore.Holds key ∨
            ∃ o ∈ l, servesLocally cfg o = true :=
          h.imp_right fun ⟨o, ho, hlocal⟩ =>
            (List.mem_cons.mp ho).elim (fun heq => absurd (heq ▸ hlocal) hserves)
              fun ho' => ⟨o, ho', hlocal⟩
        split <;> exact ih hrest

theorem holds_put_self (s : P2PCacheStore) (env : P2PEnv) (data : Bytes)
    (h : StoresLocally cfg md5 key) :
    (s.put cfg md5 env key data).1.localStore.Holds key :=
  holds_putLoop_of_holds _ (.inr h)

theorem holds_getLoop (l : List Int) :
    ∀ {s : P2PCacheStore},
      (getLoop cfg md5 env key l s).1.localStore.Holds k →
        s.localStore.Holds k := by
  induction l with
  | nil => exact fun h => h
  | cons owner l ih =>
      intro s h
      unfold getLoop at h
      split at h
      · dsimp only at h
        split at h
        · exact TierStore.holds_get h
        · exact TierStore.holds_get (ih h)
      · split at h
        · exact h
        · exact ih h

/-- A get adds no key. -/
theorem holds_get (h : (s.get cfg md5 env key).1.localStore.Holds k) :
    s.localStore.Holds k :=
  holds_getLoop _ h

theorem holds_of_getLoop (hpeers : cfg.peerAddrs = []) (l : List Int) :
    ∀ {s : P2PCacheStore},
      (getLoop cfg md5 env key l s).2 = some data →
        s.localStore.Holds key := by
  induction l with
  | nil => exact fun h => nomatch h
  | cons owner l ih =>
      intro s h
      unfold getLoop at h
      split at h
      · dsimp only at h
        split at h
        next hfound => exact TierStore.holds_of_get hfound
        · exact TierStore.holds_get (ih h)
      · have hremote : remoteGet cfg env owner = none := by
          simp [remoteGet, hpeers]
        rw [hremote] at h
        exact ih h

/-- Without known peers a get returns data of keys held only. -/
theorem holds_of_get (hpeers : cfg.peerAddrs = [])
    (h : (s.get cfg md5 env key).2 = some data) : s.localStore.Holds key :=
  holds_of_getLoop hpeers _ h

end Holds

end P2PCacheStore

end Tempo
