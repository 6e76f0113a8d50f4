import Tempo.P2PCache
import Tempo.Runs

/-!
# Reading through the cache

`get_or_put` serves a key from the cache, or asks a producer and stores what it gives.
Where the data of a key is a function of the key, a cache is to be seen in the time only:
whatever the limits evict, spill and promote, a key is served with its own data or not at
all (`read_through`).  Files that were in the directory before do no harm, and files that
cannot be read only miss; but a write of a file must not fail, and the digests of the keys
must be apart.
-/

namespace Tempo

open OrderedDict Runs

namespace P2PCacheStore

variable (cfg : P2PConfig) (md5 : String → Nat)

/-- A read through the cache, where the producer would give `produced`. -/
def getOrPut (getEnv putEnv : P2PEnv) (s : P2PCacheStore) (key : String) (produced : Bytes) :
    P2PCacheStore × Bytes :=
  let found := s.get cfg md5 getEnv key
  match found.2 with
  | some data => (found.1, data)
  | none => ((found.1.put cfg md5 putEnv key produced).1, produced)

end P2PCacheStore

/-- A call of the store. -/
inductive CacheCall
  | put (key : String) (data : Bytes) (env : P2PEnv)
  | get (key : String) (env : P2PEnv)
  | getOrPut (key : String) (produced : Bytes) (getEnv putEnv : P2PEnv)
  | evict (key : String)

namespace ReadThrough

variable (cfg : P2PConfig) (md5 : String → Nat)

def step (s : P2PCacheStore) : CacheCall → Option P2PCacheStore
  | .put key data env => some (s.put cfg md5 env key data).1
  | .get key env => some (s.get cfg md5 env key).1
  | .getOrPut key produced getEnv putEnv =>
      some (s.getOrPut cfg md5 getEnv putEnv key produced).1
  | .evict key => some (s.evict cfg md5 key)

def start (files : Nat → Option Bytes) : P2PCacheStore where
  localStore := { files }

/-- No write of a file fails. -/
def Writes (env : P2PEnv) : Prop := ∀ owner key, (env.tier owner).write key = .ok

/-- A peer answers with the data of the key or not at all. -/
def Answers (f : String → Bytes) (env : P2PEnv) (key : String) : Prop :=
  ∀ owner data, env.remoteGet owner = some data → data = f key

/-- The data of a key is that of `f`, wherever it comes from. -/
def Faithful (f : String → Bytes) (keys : Set String) (_ : P2PCacheStore) : CacheCall → Prop
  | .put key data env => key ∈ keys ∧ data = f key ∧ Writes env
  | .get key env => key ∈ keys ∧ Answers f env key ∧ Writes env
  | .getOrPut key produced getEnv putEnv =>
      key ∈ keys ∧ produced = f key ∧ Answers f getEnv key ∧ Writes getEnv ∧ Writes putEnv
  | .evict _ => True

/-- A local store that holds each key with its data: in DRAM, or in the file of the key. -/
structure Holding (f : String → Bytes) (keys : Set String) (s : TierStore) : Prop where
  dram : ∀ key entry, s.dram.lookup key = some entry → key ∈ keys ∧ entry.data = f key
  nvme : ∀ key, key ∈ s.nvmeIndex → key ∈ keys ∧ s.files (md5 key) = some (f key)

variable {cfg md5} {f : String → Bytes} {keys : Set String} {s : TierStore}
  {p q : P2PCacheStore} {env : TierEnv} {key : String} {lim : TierLimits}

theorem Holding.spill (hs : Holding md5 f keys s) (hinj : Set.InjOn md5 keys)
    (hwrite : ∀ key, env.write key = .ok) {entry : CacheEntry}
    (hentry : s.dram.lookup key = some entry) :
    Holding md5 f keys (s.spill lim md5 env key entry) := by
  obtain ⟨hkey, hdata⟩ := hs.dram key entry hentry
  refine ⟨fun other entry' hother => ?_, ?_⟩
  · rw [TierStore.spill_dram] at hother
    exact hs.dram other entry' (lookup_of_lookup_erase hother).2
  · unfold TierStore.spill
    dsimp only
    split
    · intro other hother
      have hfile : (s.nvmeWrite md5 key entry.data (env.write key)).files (md5 key) =
          some (f key) := by
        rw [TierStore.nvmeWrite, hwrite, hdata]
        exact Function.update_self ..
      rcases mem_assign.mp hother with rfl | hold
      · exact ⟨hkey, hfile⟩
      · obtain ⟨hkeys, hsame⟩ := hs.nvme other hold
        refine ⟨hkeys, ?_⟩
        by_cases heq : other = key
        · subst heq
          exact hfile
        · have happart : md5 other ≠ md5 key := fun hmd5 => heq (hinj hkeys hkey hmd5)
          rw [← hsame]
          exact Function.update_of_ne happart ..
    · exact hs.nvme

theorem Holding.evictLoop (hinj : Set.InjOn md5 keys) (hwrite : ∀ key, env.write key = .ok)
    {needed : Nat} (turns : Nat) :
    ∀ {s : TierStore}, Holding md5 f keys s →
      Holding md5 f keys (s.evictLoop lim md5 env needed turns) := by
  induction turns with
  | zero => exact fun hs => hs
  | succ turns ih =>
      intro s hs
      unfold TierStore.evictLoop
      split
      · cases hvictim : s.victim with
        | none => exact hs
        | some v => exact ih (hs.spill hinj hwrite (lookup_of_least hvictim))
      · exact hs

/-- An entry with the data of its key is put in. -/
theorem Holding.assign (hs : Holding md5 f keys s) (hkey : key ∈ keys) {entry : CacheEntry}
    (hdata : entry.data = f key) {t : TierStore} (hdram : t.dram = assign s.dram key entry)
    (hindex : ∀ k, k ∈ t.nvmeIndex → k ∈ s.nvmeIndex) (hfiles : t.files = s.files) :
    Holding md5 f keys t := by
  refine ⟨fun other entry' hother => ?_, fun other hother => ?_⟩
  · rw [hdram, lookup_assign] at hother
    split at hother
    next heq =>
      obtain rfl := Option.some.inj hother
      exact heq ▸ ⟨hkey, hdata⟩
    next => exact hs.dram other entry' hother
  · rw [hfiles]
    exact hs.nvme other (hindex other hother)

theorem Holding.put (hs : Holding md5 f keys s) (hinj : Set.InjOn md5 keys)
    (hwrite : ∀ key, env.write key = .ok) (hkey : key ∈ keys) :
    Holding md5 f keys (s.put lim md5 env key (f key)) :=
  (Holding.evictLoop hinj hwrite _ hs).assign hkey rfl rfl (fun _ => id) rfl

/-- A get leaves the data of the keys, and gives the data of its own. -/
theorem Holding.get (lim : TierLimits) (hs : Holding md5 f keys s) (hinj : Set.InjOn md5 keys)
    (hwrite : ∀ key, env.write key = .ok) (key : String) :
    Holding md5 f keys (s.get lim md5 env key).1 ∧
      ∀ data, (s.get lim md5 env key).2 = some data → data = f key := by
  unfold TierStore.get
  split
  next entry hentry =>
    obtain ⟨hkey, hdata⟩ := hs.dram key entry hentry
    have hread : { entry with lastAccess := env.now, hitCount := entry.hitCount + 1 }.data =
        f key := hdata
    exact ⟨hs.assign hkey hread rfl (fun _ => id) rfl,
      fun data hsome => (Option.some.inj hsome).symm.trans hdata⟩
  next hdram =>
    split
    next => exact ⟨⟨hs.dram, hs.nvme⟩, fun data hnone => by cases hnone⟩
    next entry hentry =>
      obtain ⟨hkey, hfile⟩ := hs.nvme key (mem_of_lookup hentry)
      split
      next => exact ⟨⟨hs.dram, hs.nvme⟩, fun data hnone => by cases hnone⟩
      next data hread =>
        have hdata : data = f key := by
          unfold TierStore.nvmeRead at hread
          split at hread
          · exact Option.some.inj (hread.symm.trans hfile)
          · cases hread
        subst hdata
        refine ⟨?_, fun data hsome => (Option.some.inj hsome).symm⟩
        exact (Holding.evictLoop hinj hwrite _ hs).assign hkey rfl rfl
          (fun k hk => (AList.mem_erase.mp hk).2) rfl

theorem Holding.popDram (hs : Holding md5 f keys s) (key : String) :
    Holding md5 f keys (s.popDram key) :=
  ⟨fun other entry hother => hs.dram other entry (lookup_of_lookup_erase hother).2, hs.nvme⟩

section Store

open P2PCacheStore

variable {getEnv putEnv : P2PEnv}

theorem Holding.store_put (hp : Holding md5 f keys p.localStore) (hinj : Set.InjOn md5 keys)
    (hwrites : Writes putEnv) (hkey : key ∈ keys) :
    Holding md5 f keys (p.put cfg md5 putEnv key (f key)).1.localStore :=
  putLoop_preserves (P := Holding md5 f keys)
    (fun _ owner ht => ht.put hinj (hwrites owner) hkey) _ hp

/-- The replicas are asked in turn, and each that answers has the data. -/
theorem Holding.getLoop (hinj : Set.InjOn md5 keys) (hwrites : Writes getEnv)
    (hanswers : Answers f getEnv key) (l : List Int) :
    ∀ {p : P2PCacheStore}, Holding md5 f keys p.localStore →
      Holding md5 f keys (getLoop cfg md5 getEnv key l p).1.localStore ∧
        ∀ data, (getLoop cfg md5 getEnv key l p).2 = some data → data = f key := by
  induction l with
  | nil => exact fun hp => ⟨hp, fun data hnone => by cases hnone⟩
  | cons owner l ih =>
      intro p hp
      obtain ⟨hheld, hdata⟩ := hp.get cfg.limits hinj (hwrites owner) key
      unfold P2PCacheStore.getLoop
      split
      next hlocal =>
        dsimp only
        split
        next data hfound =>
          exact ⟨hheld, fun data' hsome => Option.some.inj hsome ▸ hdata data hfound⟩
        next hmiss => exact ih hheld
      next hremote =>
        split
        next data hfound =>
          refine ⟨hp, fun data' hsome => Option.some.inj hsome ▸ ?_⟩
          unfold remoteGet at hfound
          split at hfound
          · cases hfound
          · split at hfound
            · exact hanswers owner data hfound
            · cases hfound
        next hmiss => exact ih hp

theorem Holding.store_get (cfg : P2PConfig) (hp : Holding md5 f keys p.localStore)
    (hinj : Set.InjOn md5 keys) (hwrites : Writes getEnv) (hanswers : Answers f getEnv key) :
    Holding md5 f keys (p.get cfg md5 getEnv key).1.localStore ∧
      ∀ data, (p.get cfg md5 getEnv key).2 = some data → data = f key :=
  Holding.getLoop hinj hwrites hanswers _ hp

theorem Holding.getOrPut (cfg : P2PConfig) (hp : Holding md5 f keys p.localStore)
    (hinj : Set.InjOn md5 keys) (hkey : key ∈ keys) (hanswers : Answers f getEnv key)
    (hget : Writes getEnv) (hput : Writes putEnv) :
    Holding md5 f keys (p.getOrPut cfg md5 getEnv putEnv key (f key)).1.localStore ∧
      (p.getOrPut cfg md5 getEnv putEnv key (f key)).2 = f key := by
  obtain ⟨hheld, hdata⟩ := hp.store_get cfg hinj hget hanswers
  unfold P2PCacheStore.getOrPut
  dsimp only
  split
  next data hfound => exact ⟨hheld, hdata data hfound⟩
  next hmiss => exact ⟨hheld.store_put hinj hput hkey, rfl⟩

theorem Holding.step (hp : Holding md5 f keys p.localStore) (hinj : Set.InjOn md5 keys)
    {call : CacheCall} (hcall : Faithful f keys p call) (hstep : step cfg md5 p call = some q) :
    Holding md5 f keys q.localStore := by
  cases call with
  | put key data env =>
      obtain rfl := Option.some.inj hstep
      obtain ⟨hkey, rfl, hwrites⟩ := hcall
      exact hp.store_put hinj hwrites hkey
  | get key env =>
      obtain rfl := Option.some.inj hstep
      exact (hp.store_get cfg hinj hcall.2.2 hcall.2.1).1
  | getOrPut key produced getEnv putEnv =>
      obtain rfl := Option.some.inj hstep
      obtain ⟨hkey, rfl, hanswers, hget, hput⟩ := hcall
      exact (hp.getOrPut cfg hinj hkey hanswers hget hput).1
  | evict key =>
      obtain rfl := Option.some.inj hstep
      unfold P2PCacheStore.evict
      split
      · exact hp.popDram key
      · exact hp

/-! ## A read leaves its key in DRAM -/

theorem mem_dram_put (data : Bytes) : key ∈ (s.put lim md5 env key data).dram :=
  mem_assign.mpr (.inl rfl)

theorem mem_dram_get {data : Bytes} (hfound : (s.get lim md5 env key).2 = some data) :
    key ∈ (s.get lim md5 env key).1.dram := by
  unfold TierStore.get at hfound ⊢
  split
  next => exact mem_assign.mpr (.inl rfl)
  next hdram =>
    rw [hdram] at hfound
    dsimp only at hfound
    split
    next hindex =>
      rw [hindex] at hfound
      cases hfound
    next entry hindex =>
      rw [hindex] at hfound
      dsimp only at hfound
      split
      next hread =>
        rw [hread] at hfound
        cases hfound
      next => exact mem_assign.mpr (.inl rfl)

theorem mem_dram_putLoop (hsim : cfg.simulation = true) (data : Bytes) (l : List Int) :
    ∀ {p : P2PCacheStore} {storedOn : List Int}, key ∈ p.localStore.dram ∨ l ≠ [] →
      key ∈ (putLoop cfg md5 putEnv key data l p storedOn).1.localStore.dram := by
  induction l with
  | nil => exact fun h => h.elim id fun hne => absurd rfl hne
  | cons owner l ih =>
      intro p storedOn _
      unfold putLoop
      rw [if_pos (by simp [servesLocally, hsim])]
      exact ih (.inl (mem_dram_put data))

/-- In simulation a replica that has the key serves it, and keeps it in DRAM. -/
theorem mem_dram_getLoop (hsim : cfg.simulation = true) (l : List Int) :
    ∀ {p : P2PCacheStore} {data : Bytes},
      (getLoop cfg md5 getEnv key l p).2 = some data →
        key ∈ (getLoop cfg md5 getEnv key l p).1.localStore.dram := by
  induction l with
  | nil => exact fun hfound => by cases hfound
  | cons owner l ih =>
      intro p data hfound
      unfold getLoop at hfound ⊢
      rw [if_pos (by simp [servesLocally, hsim])] at hfound ⊢
      dsimp only at hfound ⊢
      split
      next data' hserved => exact mem_dram_get hserved
      next hmiss =>
        rw [hmiss] at hfound
        exact ih hfound

theorem mem_dram_getOrPut (hsim : cfg.simulation = true) (howners : owners cfg md5 key ≠ [])
    (produced : Bytes) :
    key ∈ (p.getOrPut cfg md5 getEnv putEnv key produced).1.localStore.dram := by
  unfold P2PCacheStore.getOrPut
  dsimp only
  split
  next data hfound => exact mem_dram_getLoop hsim _ hfound
  next => exact mem_dram_putLoop hsim _ _ (.inr howners)

/-- A key that is in DRAM is served, whatever becomes of the files. -/
theorem get_of_mem_dram (hsim : cfg.simulation = true) (howners : owners cfg md5 key ≠ [])
    (hp : Holding md5 f keys p.localStore) (hkey : key ∈ p.localStore.dram) (env : P2PEnv) :
    (p.get cfg md5 env key).2 = some (f key) := by
  obtain ⟨entry, hentry⟩ := exists_lookup hkey
  unfold P2PCacheStore.get
  cases howned : owners cfg md5 key with
  | nil => exact absurd howned howners
  | cons owner l =>
      have hserved : (p.localStore.get cfg.limits md5 (env.tier owner) key).2 =
          some (f key) := by
        unfold TierStore.get
        rw [hentry, ← (hp.dram key entry hentry).2]
      unfold getLoop
      rw [if_pos (by simp [servesLocally, hsim])]
      dsimp only
      rw [hserved]

/-- **The cache of a function is to be seen in the time only.**  In every run in which the
data of each key is that of `f`, no write of a file fails and the digests of the keys are
apart: a get gives the data of its key or nothing, a read through the cache gives the data
of its key, and in simulation the next get of this key is served without the producer. -/
theorem read_through (hinj : Set.InjOn md5 keys) {files : Nat → Option Bytes}
    (hreach : Reach (step cfg md5) (Faithful f keys) (start files) p) (hkey : key ∈ keys)
    (hanswers : Answers f getEnv key) (hget : Writes getEnv) (hput : Writes putEnv) :
    (∀ data, (p.get cfg md5 getEnv key).2 = some data → data = f key) ∧
      (p.getOrPut cfg md5 getEnv putEnv key (f key)).2 = f key ∧
      (cfg.simulation = true → 0 < cfg.worldSize → ∀ env,
        ((p.getOrPut cfg md5 getEnv putEnv key (f key)).1.get cfg md5 env key).2 =
          some (f key)) := by
  have hempty : Holding md5 f keys (start files).localStore :=
    { dram := fun _ _ hlookup => by cases hlookup
      nvme := fun _ hmem => absurd hmem (AList.notMem_empty _) }
  have hstep : ∀ s call t, Holding md5 f keys s.localStore → Faithful f keys s call →
      step cfg md5 s call = some t → Holding md5 f keys t.localStore :=
    fun _ _ _ hs hcall hstep => hs.step hinj hcall hstep
  have hp : Holding md5 f keys p.localStore := hreach.invariant hempty hstep
  have hread := hp.getOrPut cfg hinj hkey hanswers hget hput
  refine ⟨(hp.store_get cfg hinj hget hanswers).2, hread.2, fun hsim hworld env => ?_⟩
  have howners : owners cfg md5 key ≠ [] :=
    ConsistentHashRing.ofWorld_ne_nil hworld key cfg.replication
  exact get_of_mem_dram hsim howners hread.1 (mem_dram_getOrPut hsim howners _) env

/-- Room for one entry: the first key is spilled, and read from its file. -/
theorem read_through_spilled :
    let cfg : P2PConfig := { limits := { dram := 1, nvme := 1 } }
    let digest (key : String) : Nat := if key = "a" then 1 else 2
    let data (key : String) : Bytes := if key = "a" then [1] else [2]
    ∃ p : P2PCacheStore, "a" ∉ p.localStore.dram ∧
      (p.getOrPut cfg digest {} {} "a" (data "a")).2 = data "a" := by
  intro cfg digest data
  have hclean : Writes {} := fun _ _ => rfl
  have hsilent : ∀ key, Answers data {} key := fun _ _ _ hnone => by cases hnone
  have hinj : Set.InjOn digest {"a", "b"} := by
    rintro x (rfl | rfl) y (rfl | rfl) h
    · rfl
    · exact absurd h (by decide)
    · exact absurd h (by decide)
    · rfl
  have hreach : Reach (step cfg digest) (Faithful data {"a", "b"}) (start fun _ => none)
      ((((start fun _ => none).getOrPut cfg digest {} {} "a" [1]).1.put cfg digest {} "b"
        [2]).1) :=
    .tail (e := .put "b" [2] {})
      (.tail (e := .getOrPut "a" [1] {} {}) .refl
        ⟨.inl rfl, rfl, hsilent "a", hclean, hclean⟩ rfl)
      ⟨.inr rfl, rfl, hclean⟩ rfl
  refine ⟨_, ?_, (read_through hinj hreach (.inl rfl) (hsilent "a") hclean hclean).2.1⟩
  decide +kernel

end Store

end ReadThrough

end Tempo
