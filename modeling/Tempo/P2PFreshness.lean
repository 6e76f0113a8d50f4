import Mathlib.Data.Finset.Insert
import Mathlib.Data.Set.Function
import Tempo.P2PCache
import Tempo.Runs

/-!
# Freshness of the cache store

A key can be in DRAM, in the NVMe index and on disk at once.  What a read of a
key outside DRAM would find on NVMe (`nvmeView`) has to be the newest data of
that key; a spill that does not leave the victim's own data there, and an
eviction of a key that NVMe still serves, are what makes it stale.
-/

namespace Tempo

open OrderedDict

namespace TierStore

variable {lim : TierLimits} {md5 : String → Nat} {env : TierEnv}
  {s : TierStore} {key : String} {entry : CacheEntry}

/-- What a read of `key` finds on NVMe when `key` is not in DRAM. -/
def nvmeView (md5 : String → Nat) (s : TierStore) (key : String) :
    Option Bytes :=
  if key ∈ s.nvmeIndex then s.files (md5 key) else none

theorem nvmeView_of_read {data : Bytes} {readable : Bool}
    (hindex : s.nvmeIndex.lookup key = some entry)
    (hread : s.nvmeRead md5 key readable = some data) :
    s.nvmeView md5 key = some data := by
  have hmem : key ∈ s.nvmeIndex := mem_of_lookup hindex
  unfold nvmeView
  unfold nvmeRead at hread
  rw [if_pos hmem]
  split at hread
  · exact hread
  · cases hread

/-- After this spill NVMe serves the victim's data or nothing: the budget
admits it and its file is written in full, or could not be opened and is no
older one; or the budget does not admit it and NVMe serves no older data. -/
def SpillSafe (lim : TierLimits) (md5 : String → Nat) (env : TierEnv)
    (s : TierStore) (key : String) (entry : CacheEntry) : Prop :=
  if s.nvmeBytes + entry.sizeBytes ≤ lim.nvme then
    match env.write key with
    | .ok => True
    | .openFails => ∀ old ∈ s.files (md5 key), old = entry.data
    | .writeFails n => entry.data.length ≤ n
  else ∀ old ∈ s.nvmeView md5 key, old = entry.data

/-- Every victim of the eviction loop but `key` itself is spilled safely. -/
def SpillsSafe (lim : TierLimits) (md5 : String → Nat) (env : TierEnv)
    (key : String) (needed : Nat) : Nat → TierStore → Prop
  | 0, _ => True
  | turns + 1, s =>
      lim.dram < s.dramBytes + needed →
        match s.victim with
        | none => True
        | some ⟨k, entry⟩ =>
            (k ≠ key → SpillSafe lim md5 env s k entry) ∧
              SpillsSafe lim md5 env key needed turns
                (s.spill lim md5 env k entry)

section Spill

/-- A spill leaves what NVMe serves for other keys. -/
theorem nvmeView_spill_ne {k : String} (hne : k ≠ key)
    (hfile : k ∈ s.nvmeIndex → md5 k ≠ md5 key) :
    (s.spill lim md5 env key entry).nvmeView md5 k = s.nvmeView md5 k := by
  unfold spill
  dsimp only
  split
  · unfold nvmeView nvmeWrite
    dsimp only
    by_cases hk : k ∈ s.nvmeIndex
    · have hmem : k ∈ assign s.nvmeIndex key { entry with tier := .nvme } :=
        mem_assign.mpr (.inr hk)
      rw [if_pos hmem, if_pos hk, Function.update_of_ne (hfile hk)]
    · have hnot : k ∉ assign s.nvmeIndex key { entry with tier := .nvme } :=
        fun h => (mem_assign.mp h).elim hne hk
      rw [if_neg hnot, if_neg hk]
  · rfl

/-- A safe spill leaves NVMe serving the victim's data or nothing. -/
theorem nvmeView_spill_self (hsafe : SpillSafe lim md5 env s key entry)
    {d : Bytes}
    (hd : (s.spill lim md5 env key entry).nvmeView md5 key = some d) :
    d = entry.data := by
  unfold SpillSafe at hsafe
  unfold spill at hd
  dsimp only at hd
  split at hd
  next hadmit =>
    rw [if_pos hadmit] at hsafe
    have hmem : key ∈ assign s.nvmeIndex key { entry with tier := .nvme } :=
      mem_assign.mpr (.inl rfl)
    unfold nvmeView nvmeWrite at hd
    dsimp only at hd
    rw [if_pos hmem, Function.update_self] at hd
    cases hwrite : env.write key with
    | ok =>
        rw [hwrite] at hd
        exact (Option.some.inj hd).symm
    | openFails =>
        rw [hwrite] at hd hsafe
        exact hsafe d hd
    | writeFails n =>
        rw [hwrite] at hd hsafe
        have htake : entry.data.take n = entry.data :=
          List.take_of_length_le hsafe
        exact (Option.some.inj hd).symm.trans htake
  next hfull =>
    rw [if_neg hfull] at hsafe
    exact hsafe d hd

end Spill

/-- Outside `skip`, DRAM holds the newest data of a key, and so does NVMe for
keys not in DRAM. -/
structure Fresh (md5 : String → Nat) (keys : Finset String)
    (latest : String → Option Bytes) (skip : String → Prop)
    (s : TierStore) : Prop where
  dram : ∀ k e, ¬ skip k → s.dram.lookup k = some e →
    latest k = some e.data
  nvme : ∀ k d, ¬ skip k → k ∉ s.dram → s.nvmeView md5 k = some d →
    latest k = some d
  dramKeys : ∀ k ∈ s.dram, k ∈ keys
  indexKeys : ∀ k ∈ s.nvmeIndex, k ∈ keys

namespace Fresh

variable {keys : Finset String} {latest : String → Option Bytes}
  {skip : String → Prop}

theorem mono {skip' : String → Prop} (hs : s.Fresh md5 keys latest skip)
    (himp : ∀ k, skip k → skip' k) : s.Fresh md5 keys latest skip' :=
  ⟨fun k e hk => hs.dram k e fun h => hk (himp k h),
    fun k d hk => hs.nvme k d fun h => hk (himp k h), hs.dramKeys,
    hs.indexKeys⟩

theorem spill (hinj : Set.InjOn md5 keys) (hs : s.Fresh md5 keys latest skip)
    (hentry : s.dram.lookup key = some entry)
    (hsafe : ¬ skip key → SpillSafe lim md5 env s key entry) :
    (s.spill lim md5 env key entry).Fresh md5 keys latest skip := by
  have hkey : key ∈ s.dram := mem_of_lookup hentry
  constructor
  · intro k e hk hlookup
    rw [spill_dram] at hlookup
    exact hs.dram k e hk (lookup_of_lookup_erase hlookup).2
  · intro k d hk hnot hview
    by_cases heq : k = key
    · subst heq
      rw [nvmeView_spill_self (hsafe hk) hview]
      exact hs.dram k entry hk hentry
    · have hfile : k ∈ s.nvmeIndex → md5 k ≠ md5 key := fun hmem hmd5 =>
        heq (hinj (hs.indexKeys k hmem) (hs.dramKeys key hkey) hmd5)
      rw [nvmeView_spill_ne heq hfile] at hview
      refine hs.nvme k d hk (fun hmem => hnot ?_) hview
      rw [spill_dram]
      exact AList.mem_erase.mpr ⟨heq, hmem⟩
  · intro k hk
    rw [spill_dram] at hk
    exact hs.dramKeys k (AList.mem_erase.mp hk).2
  · intro k hk
    rcases mem_spill_nvmeIndex hk with rfl | hold
    · exact hs.dramKeys k hkey
    · exact hs.indexKeys k hold

/-- The condition on a spill is exact: any other leaves older or broken data
to be served. -/
theorem spill_iff (hinj : Set.InjOn md5 keys)
    (hs : s.Fresh md5 keys latest skip)
    (hentry : s.dram.lookup key = some entry) (hkey : ¬ skip key) :
    (s.spill lim md5 env key entry).Fresh md5 keys latest skip ↔
      SpillSafe lim md5 env s key entry := by
  refine ⟨fun ht => ?_, fun hsafe => hs.spill hinj hentry fun _ => hsafe⟩
  have hserved : ∀ d,
      (s.spill lim md5 env key entry).nvmeView md5 key = some d →
        d = entry.data := by
    intro d hd
    have hgone : key ∉ (s.spill lim md5 env key entry).dram := by
      rw [spill_dram]
      exact fun h => (AList.mem_erase.mp h).1 rfl
    have hlatest := ht.nvme key d hkey hgone hd
    rw [hs.dram key entry hkey hentry] at hlatest
    exact (Option.some.inj hlatest).symm
  unfold SpillSafe
  unfold TierStore.spill at hserved
  dsimp only at hserved
  split at hserved
  next hadmit =>
    rw [if_pos hadmit]
    have hmem : key ∈ OrderedDict.assign s.nvmeIndex key
        { entry with tier := .nvme } := mem_assign.mpr (.inl rfl)
    unfold nvmeView nvmeWrite at hserved
    dsimp only at hserved
    rw [if_pos hmem, Function.update_self] at hserved
    cases hwrite : env.write key with
    | ok => trivial
    | openFails =>
        rw [hwrite] at hserved
        exact hserved
    | writeFails n =>
        rw [hwrite] at hserved
        exact List.take_eq_self_iff _ |>.mp (hserved _ rfl)
  next hfull =>
    rw [if_neg hfull]
    exact hserved

/-- The eviction loop keeps everything but `key` fresh, one spill at a
time. -/
theorem evictLoop (hinj : Set.InjOn md5 keys) {needed : Nat} (turns : Nat) :
    ∀ {s : TierStore}, s.Fresh md5 keys latest (· = key) →
      SpillsSafe lim md5 env key needed turns s →
      (TierStore.evictLoop lim md5 env needed turns s).Fresh md5 keys latest
        (· = key) := by
  induction turns with
  | zero => exact fun hs _ => hs
  | succ turns ih =>
      intro s hs hsafe
      unfold SpillsSafe at hsafe
      unfold TierStore.evictLoop
      split
      next hover =>
        have hvictims := hsafe hover
        cases hvictim : s.victim with
        | none => exact hs
        | some v =>
            rw [hvictim] at hvictims
            exact ih (hs.spill hinj (lookup_of_least hvictim) hvictims.1)
              hvictims.2
      · exact hs

/-- What was skipped is fresh again once its newest data is in DRAM. -/
theorem assign {latest' : String → Option Bytes} {t : TierStore}
    (hs : s.Fresh md5 keys latest (· = key)) (hkey : key ∈ keys)
    (hdata : latest' key = some entry.data)
    (hother : ∀ k, k ≠ key → latest' k = latest k)
    (hdram : t.dram = OrderedDict.assign s.dram key entry)
    (hindex : ∀ k ∈ t.nvmeIndex, k ∈ s.nvmeIndex)
    (hfiles : t.files = s.files) :
    t.Fresh md5 keys latest' fun _ => False := by
  constructor
  · intro k e _ hlookup
    rw [hdram, lookup_assign] at hlookup
    by_cases heq : k = key
    · rw [if_pos heq] at hlookup
      obtain rfl := Option.some.inj hlookup
      rw [heq, hdata]
    · rw [if_neg heq] at hlookup
      rw [hother k heq]
      exact hs.dram k e heq hlookup
  · intro k d _ hnot hview
    rw [hdram, mem_assign, not_or] at hnot
    have hold : s.nvmeView md5 k = some d := by
      unfold nvmeView at hview ⊢
      split at hview
      next hmem =>
        rw [if_pos (hindex k hmem), ← hfiles]
        exact hview
      · cases hview
    rw [hother k hnot.1]
    exact hs.nvme k d hnot.1 hnot.2 hold
  · intro k hk
    rw [hdram, mem_assign] at hk
    exact hk.elim (fun heq => heq ▸ hkey) (hs.dramKeys k)
  · exact fun k hk => hs.indexKeys k (hindex k hk)

/-- A put whose victims other than the key itself are spilled safely. -/
theorem put (hinj : Set.InjOn md5 keys)
    (hs : s.Fresh md5 keys latest fun _ => False) (hkey : key ∈ keys)
    {data : Bytes}
    (hsafe : SpillsSafe lim md5 env key data.length s.dram.entries.length s) :
    (s.put lim md5 env key data).Fresh md5 keys
      (Function.update latest key (some data)) fun _ => False := by
  have hloop := (hs.mono fun _ => False.elim).evictLoop hinj _ hsafe
  exact hloop.assign hkey (Function.update_self ..)
    (fun k hk => Function.update_of_ne hk _ _) rfl (fun _ h => h) rfl

/-- Data found on NVMe is promoted with victims spilled safely. -/
theorem promote (hinj : Set.InjOn md5 keys)
    (hs : s.Fresh md5 keys latest fun _ => False) (hkey : key ∈ keys)
    {data : Bytes} (hdata : latest key = some data)
    (hsafe : SpillsSafe lim md5 env key data.length s.dram.entries.length s) :
    (s.promote lim md5 env key entry data).Fresh md5 keys latest
      fun _ => False := by
  have hloop := (hs.mono fun _ => False.elim).evictLoop hinj _ hsafe
  exact hloop.assign hkey hdata (fun _ _ => rfl) rfl
    (fun _ h => (AList.mem_erase.mp h).2) rfl

/-- What a get returns is the newest data. -/
theorem get_eq (hs : s.Fresh md5 keys latest fun _ => False) {d : Bytes}
    (hget : (s.get lim md5 env key).2 = some d) : latest key = some d := by
  unfold TierStore.get at hget
  split at hget
  next e hdram =>
    obtain rfl := Option.some.inj hget
    exact hs.dram key e not_false hdram
  next hdram =>
    split at hget
    · cases hget
    next e hindex =>
      split at hget
      · cases hget
      next data hread =>
        obtain rfl := Option.some.inj hget
        exact hs.nvme key _ not_false (AList.lookup_eq_none.mp hdram)
          (nvmeView_of_read hindex hread)

theorem get (hinj : Set.InjOn md5 keys)
    (hs : s.Fresh md5 keys latest fun _ => False) (hkey : key ∈ keys)
    (hsafe : ∀ data, s.dram.lookup key = none →
      s.nvmeView md5 key = some data →
      SpillsSafe lim md5 env key data.length s.dram.entries.length s) :
    (s.get lim md5 env key).1.Fresh md5 keys latest fun _ => False := by
  unfold TierStore.get
  split
  next e hdram =>
    have hdata := hs.dram key e not_false hdram
    refine (hs.mono fun _ => False.elim).assign hkey ?_ (fun _ _ => rfl) rfl
      (fun _ h => h) rfl
    exact hdata
  next hdram =>
    split
    · exact ⟨hs.dram, hs.nvme, hs.dramKeys, hs.indexKeys⟩
    next e hindex =>
      split
      · exact ⟨hs.dram, hs.nvme, hs.dramKeys, hs.indexKeys⟩
      next data hread =>
        have hview := nvmeView_of_read hindex hread
        have hdata :=
          hs.nvme key data not_false (AList.lookup_eq_none.mp hdram) hview
        exact hs.promote hinj hkey hdata (hsafe data hdram hview)

/-- An eviction from DRAM of a key that NVMe does not serve. -/
theorem popDram (hs : s.Fresh md5 keys latest fun _ => False)
    (hview : s.nvmeView md5 key = none) :
    (s.popDram key).Fresh md5 keys (Function.update latest key none)
      fun _ => False := by
  constructor
  · intro k e _ hlookup
    obtain ⟨hne, hold⟩ := lookup_of_lookup_erase hlookup
    rw [Function.update_of_ne hne]
    exact hs.dram k e not_false hold
  · intro k d _ hnot hserved
    have hold : s.nvmeView md5 k = some d := hserved
    by_cases heq : k = key
    · subst heq
      rw [hview] at hold
      cases hold
    · rw [Function.update_of_ne heq]
      refine hs.nvme k d not_false (fun hmem => hnot ?_) hold
      exact AList.mem_erase.mpr ⟨heq, hmem⟩
  · exact fun k hk => hs.dramKeys k (AList.mem_erase.mp hk).2
  · exact hs.indexKeys

end Fresh

end TierStore

/-- One operation on the store, with its surroundings. -/
inductive CacheOp where
  | put (key : String) (data : Bytes) (env : P2PEnv)
  | get (key : String) (env : P2PEnv)
  | evict (key : String)

/-- A store together with the data last put under each key and not evicted
since. -/
structure CacheSession where
  store : P2PCacheStore
  latest : String → Option Bytes := fun _ => none

namespace CacheSession

open P2PCacheStore TierStore

variable {cfg : P2PConfig} {md5 : String → Nat} {s t : CacheSession}

def step (cfg : P2PConfig) (md5 : String → Nat) (s : CacheSession) :
    CacheOp → Option CacheSession
  | .put key data env =>
      some {
        store := (s.store.put cfg md5 env key data).1
        latest := Function.update s.latest key (some data) }
  | .get key env => some { s with store := (s.store.get cfg md5 env key).1 }
  | .evict key =>
      some {
        store := s.store.evict cfg md5 key
        latest := Function.update s.latest key none }

/-- The operation uses one of `keys`; a put and a promotion spill every victim
but their own key safely; and an evicted key is not served from NVMe. -/
def Coherent (cfg : P2PConfig) (md5 : String → Nat) (keys : Finset String)
    (s : CacheSession) : CacheOp → Prop
  | .put key data env =>
      key ∈ keys ∧
        SpillsSafe cfg.limits md5 (env.tier 0) key data.length
          s.store.localStore.dram.entries.length s.store.localStore
  | .get key env =>
      key ∈ keys ∧ (s.store.localStore.dram.lookup key = none →
        ∀ data ∈ s.store.localStore.nvmeView md5 key,
          SpillsSafe cfg.limits md5 (env.tier 0) key data.length
            s.store.localStore.dram.entries.length s.store.localStore)
  | .evict key =>
      key ∈ keys ∧ s.store.localStore.nvmeView md5 key = none

/-- In simulation with one rank the store is its local store. -/
structure Single (cfg : P2PConfig) : Prop where
  world : cfg.worldSize = 1
  simulation : cfg.simulation = true

section Single

variable (hsingle : Single cfg) {p : P2PCacheStore} {env : P2PEnv}
  {key : String}

include hsingle

theorem owners_single : owners cfg md5 key = [0] := by
  unfold owners
  rw [hsingle.world]
  exact ConsistentHashRing.ofWorld_one key cfg.replication

theorem servesLocally_single (owner : Int) : servesLocally cfg owner = true := by
  simp [servesLocally, hsingle.simulation]

theorem put_single (data : Bytes) :
    (p.put cfg md5 env key data).1.localStore =
      p.localStore.put cfg.limits md5 (env.tier 0) key data := by
  unfold P2PCacheStore.put
  rw [owners_single hsingle]
  simp [putLoop, servesLocally_single hsingle]

theorem get_single :
    (p.get cfg md5 env key).1.localStore =
        (p.localStore.get cfg.limits md5 (env.tier 0) key).1 ∧
      (p.get cfg md5 env key).2 =
        (p.localStore.get cfg.limits md5 (env.tier 0) key).2 := by
  unfold P2PCacheStore.get
  rw [owners_single hsingle]
  unfold getLoop
  rw [if_pos (servesLocally_single hsingle 0)]
  dsimp only
  split
  next data hfound => exact ⟨rfl, hfound.symm⟩
  next hfound => exact ⟨rfl, hfound.symm⟩

theorem evict_single :
    (p.evict cfg md5 key).localStore = p.localStore.popDram key := by
  unfold P2PCacheStore.evict
  rw [if_pos (.inr hsingle.simulation)]

end Single

/-- Every key of a fresh session has its newest data. -/
def Fresh (md5 : String → Nat) (keys : Finset String) (s : CacheSession) :
    Prop :=
  s.store.localStore.Fresh md5 keys s.latest fun _ => False

theorem Fresh.step {keys : Finset String} (hsingle : Single cfg)
    (hinj : Set.InjOn md5 keys) (hs : s.Fresh md5 keys) {op : CacheOp}
    (hcond : s.Coherent cfg md5 keys op) (hstep : s.step cfg md5 op = some t) :
    t.Fresh md5 keys := by
  unfold Fresh at hs ⊢
  cases op with
  | put key data env =>
      obtain rfl := Option.some.inj hstep
      rw [put_single hsingle]
      exact hs.put hinj hcond.1 hcond.2
  | get key env =>
      obtain rfl := Option.some.inj hstep
      rw [(get_single hsingle).1]
      exact hs.get hinj hcond.1 fun data hdram => hcond.2 hdram data
  | evict key =>
      obtain rfl := Option.some.inj hstep
      rw [evict_single hsingle]
      exact hs.popDram hcond.2

/-- A session on a new store, over whatever files it finds. -/
def init (found : Nat → Option Bytes) : CacheSession :=
  { store := { localStore := { files := found } } }

/-- What every operation of the local store preserves holds in every state of
every run. -/
theorem localStore_invariant {P : TierStore → Prop} {found : Nat → Option Bytes}
    (hinit : P { files := found })
    (hput : ∀ t env key data, P t → P (t.put cfg.limits md5 env key data))
    (hget : ∀ t env key, P t → P (t.get cfg.limits md5 env key).1)
    (hpop : ∀ t key, P t → P (t.popDram key))
    (hrun : Runs.Reachable (step cfg md5) (init found) s) :
    P s.store.localStore := by
  apply hrun.invariant hinit
  intro s op t hs _ hstep
  cases op with
  | put key data env =>
      obtain rfl := Option.some.inj hstep
      exact putLoop_preserves (fun u _ hu => hput u _ key data hu) _ hs
  | get key env =>
      obtain rfl := Option.some.inj hstep
      exact getLoop_preserves (fun u _ hu => hget u _ key hu) _ hs
  | evict key =>
      obtain rfl := Option.some.inj hstep
      show P (P2PCacheStore.evict cfg md5 s.store key).localStore
      unfold P2PCacheStore.evict
      split
      · exact hpop _ key hs
      · exact hs

theorem fresh_init (keys : Finset String) (found : Nat → Option Bytes) :
    (init found).Fresh md5 keys := by
  constructor <;> simp [init, nvmeView]

/-- **The two-tier store serves no stale data** in runs that spill and evict
coherently: whatever a get returns is the data of the newest put of its key,
with no eviction since. -/
theorem get_latest {keys : Finset String} {found : Nat → Option Bytes}
    (hsingle : Single cfg) (hinj : Set.InjOn md5 keys)
    (hrun : Runs.Reach (step cfg md5) (Coherent cfg md5 keys) (init found) s)
    {key : String} {env : P2PEnv} {d : Bytes}
    (hget : (s.store.get cfg md5 env key).2 = some d) :
    s.latest key = some d := by
  have hs : s.Fresh md5 keys :=
    hrun.invariant (fresh_init keys found) fun _ _ _ h hcond hstep =>
      h.step hsingle hinj hcond hstep
  rw [(get_single hsingle).2] at hget
  exact hs.get_eq hget

/-- A key is put, spilled, put again and driven out of DRAM once more when
NVMe is full: each entry has one byte and DRAM holds one entry. -/
def skippedSpillOps : List CacheOp :=
  [.put "a" [1] {}, .put "b" [2] {}, .put "a" [3] {}, .put "b" [4] {}]

def tightConfig : P2PConfig :=
  { limits := { dram := 1, nvme := 2 } }

def letterDigest (key : String) : Nat :=
  if key = "a" then 1 else if key = "b" then 2 else 0

/-- The second spill of the key is skipped, its first version is still
indexed, and a get returns that. -/
theorem stale_after_skipped_spill :
    ∃ s : CacheSession,
      Runs.Reachable (step tightConfig letterDigest) (init fun _ => none) s ∧
      s.latest "a" = some [3] ∧
      (s.store.get tightConfig letterDigest {} "a").2 = some [1] :=
  Runs.Reachable.exists_of_exec skippedSpillOps (by decide +kernel)

/-- A key that has been spilled is still served after its eviction. -/
theorem served_after_evict :
    ∃ s : CacheSession,
      Runs.Reachable (step tightConfig letterDigest) (init fun _ => none) s ∧
      s.latest "a" = none ∧
      (s.store.get tightConfig letterDigest {} "a").2 = some [1] :=
  Runs.Reachable.exists_of_exec
    [.put "a" [1] {}, .put "b" [2] {}, .evict "a"] (by decide +kernel)

instance SpillSafe.decidable (lim : TierLimits) (md5 : String → Nat)
    (env : TierEnv) (s : TierStore) (key : String) (entry : CacheEntry) :
    Decidable (SpillSafe lim md5 env s key entry) :=
  if hadmit : s.nvmeBytes + entry.sizeBytes ≤ lim.nvme then
    match hwrite : env.write key with
    | .ok => isTrue (by simp [SpillSafe, hadmit, hwrite])
    | .openFails =>
        decidable_of_iff (∀ old ∈ s.files (md5 key), old = entry.data)
          (by simp [SpillSafe, hadmit, hwrite])
    | .writeFails n =>
        decidable_of_iff (entry.data.length ≤ n)
          (by simp [SpillSafe, hadmit, hwrite])
  else
    decidable_of_iff (∀ old ∈ s.nvmeView md5 key, old = entry.data)
      (by simp [SpillSafe, hadmit])

instance SpillsSafe.decidable (lim : TierLimits) (md5 : String → Nat)
    (env : TierEnv) (key : String) (needed : Nat) :
    ∀ turns s, Decidable (SpillsSafe lim md5 env key needed turns s)
  | 0, _ => isTrue trivial
  | turns + 1, s =>
      match hvictim : s.victim with
      | none => isTrue (by simp [SpillsSafe, hvictim])
      | some ⟨k, entry⟩ =>
          have := SpillsSafe.decidable lim md5 env key needed turns
            (s.spill lim md5 env k entry)
          decidable_of_iff (lim.dram < s.dramBytes + needed →
            (k ≠ key → SpillSafe lim md5 env s k entry) ∧
              SpillsSafe lim md5 env key needed turns
                (s.spill lim md5 env k entry))
            (by simp [SpillsSafe, hvictim])

instance Coherent.decidable (cfg : P2PConfig) (md5 : String → Nat)
    (keys : Finset String) (s : CacheSession) :
    ∀ op, Decidable (Coherent cfg md5 keys s op)
  | .put _ _ _ => inferInstanceAs (Decidable (_ ∧ _))
  | .get _ _ => inferInstanceAs (Decidable (_ ∧ (_ → _)))
  | .evict _ => inferInstanceAs (Decidable (_ ∧ _ = none))

/-- A key is spilled and promoted again. -/
theorem get_latest_promoted :
    ∃ s : CacheSession,
      Runs.Reach (step tightConfig letterDigest)
        (Coherent tightConfig letterDigest {"a", "b"}) (init fun _ => none) s ∧
      (s.store.get tightConfig letterDigest {} "a").2 = some [1] ∧
      s.latest "a" = some [1] := by
  obtain ⟨s, hrun, hget⟩ : ∃ s : CacheSession,
      Runs.Reach (step tightConfig letterDigest)
        (Coherent tightConfig letterDigest {"a", "b"}) (init fun _ => none) s ∧
      (s.store.get tightConfig letterDigest {} "a").2 = some [1] :=
    Runs.Reach.exists_of_exec
      [.put "a" [1] {}, .put "b" [2] {}, .get "a" {}]
      (by decide +kernel) (by decide +kernel)
  have hinj : Set.InjOn letterDigest ({"a", "b"} : Finset String) := by
    intro x hx y hy h
    simp only [Finset.coe_insert, Finset.coe_singleton, Set.mem_insert_iff,
      Set.mem_singleton_iff] at hx hy
    rcases hx with rfl | rfl <;> rcases hy with rfl | rfl <;>
      simp_all [letterDigest]
  exact ⟨s, hrun, hget, get_latest ⟨rfl, rfl⟩ hinj hrun hget⟩

end CacheSession

end Tempo
