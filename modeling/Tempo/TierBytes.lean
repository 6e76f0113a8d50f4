import Mathlib.Tactic.Linarith
import Tempo.P2PFreshness

/-!
# The byte counters of the cache store

Every path of `_LocalTierStore` changes a dictionary and its counter
separately.  Two of them forget the old entry of the key: a put over an entry in
DRAM, or of a key that is in the NVMe index, and the explicit eviction.  The
counters only drift upwards (`put_dramDrift`, `popDram_dramDrift`), so what has
been lost stays lost; without such operations they are exact in every state
(`counters_exact_iff`).
-/

namespace Tempo

open OrderedDict

namespace TierStore

variable {lim : TierLimits} {md5 : String → Nat} {env : TierEnv}
  {s : TierStore} {key k : String} {entry : CacheEntry} {data : Bytes}

/-- The sizes of the entries of a tier together. -/
def tierSize (tier : Dict String CacheEntry) : Int :=
  total (fun e : CacheEntry => (e.sizeBytes : Int)) tier

/-- The size of the entry of a key, or nothing. -/
def entrySize (tier : Dict String CacheEntry) (key : String) : Int :=
  share (fun e : CacheEntry => (e.sizeBytes : Int)) tier key

/-- How far a counter is above the sizes. -/
def dramDrift (s : TierStore) : Int := s.dramBytes - tierSize s.dram

def nvmeDrift (s : TierStore) : Int := s.nvmeBytes - tierSize s.nvmeIndex

/-- The counters are exact, and no key is in both tiers. -/
structure Exact (s : TierStore) : Prop where
  dram : s.dramBytes = tierSize s.dram
  nvme : s.nvmeBytes = tierSize s.nvmeIndex
  apart : ∀ k, k ∈ s.dram → k ∉ s.nvmeIndex

theorem entrySize_nonneg (tier : Dict String CacheEntry) (key : String) :
    0 ≤ entrySize tier key := by
  unfold entrySize share
  cases tier.lookup key with
  | none => exact le_refl _
  | some e => exact Int.natCast_nonneg _

/-- The key has no entry, or an empty one. -/
theorem entrySize_eq_zero_iff {tier : Dict String CacheEntry} :
    entrySize tier key = 0 ↔ ∀ e ∈ tier.lookup key, e.sizeBytes = 0 := by
  unfold entrySize share
  cases tier.lookup key with
  | none => simp
  | some e => simp

theorem tierSize_erase (tier : Dict String CacheEntry) (key : String) :
    tierSize (tier.erase key) = tierSize tier - entrySize tier key := by
  have hshare := share_add_total_erase (fun e : CacheEntry => (e.sizeBytes : Int))
    tier key
  unfold tierSize entrySize
  omega

theorem tierSize_assign (tier : Dict String CacheEntry) (key : String)
    (e : CacheEntry) :
    tierSize (assign tier key e) =
      tierSize tier - entrySize tier key + e.sizeBytes := by
  have hshare := share_add_total_assign (fun e : CacheEntry => (e.sizeBytes : Int))
    tier key e
  unfold tierSize entrySize
  omega

theorem exact_iff :
    s.Exact ↔ s.dramDrift = 0 ∧ s.nvmeDrift = 0 ∧
      ∀ k, k ∈ s.dram → k ∉ s.nvmeIndex := by
  unfold dramDrift nvmeDrift
  constructor
  · exact fun h => ⟨by rw [h.dram]; omega, by rw [h.nvme]; omega, h.apart⟩
  · exact fun h => ⟨by omega, by omega, h.2.2⟩

section Spill

/-- A spilled entry is taken off the DRAM counter. -/
theorem spill_dramDrift (hentry : s.dram.lookup key = some entry) :
    (s.spill lim md5 env key entry).dramDrift = s.dramDrift := by
  have hsize : entrySize s.dram key = entry.sizeBytes := share_of_lookup hentry
  have hbytes : (s.spill lim md5 env key entry).dramBytes =
      s.dramBytes - entry.sizeBytes := by
    unfold spill
    dsimp only
    split <;> rfl
  unfold dramDrift
  rw [spill_dram, hbytes, tierSize_erase, hsize]
  omega

/-- An entry of the key that was in the index already stays on the counter. -/
theorem spill_nvmeDrift (lim : TierLimits) (md5 : String → Nat) (env : TierEnv)
    (s : TierStore) (key : String) (entry : CacheEntry) :
    (s.spill lim md5 env key entry).nvmeDrift = s.nvmeDrift ∨
      (s.spill lim md5 env key entry).nvmeDrift =
        s.nvmeDrift + entrySize s.nvmeIndex key := by
  unfold spill nvmeDrift
  dsimp only
  split
  · right
    dsimp only [nvmeWrite]
    rw [tierSize_assign]
    dsimp only
    omega
  · exact .inl rfl

theorem mem_spill_of_mem (h : k ∈ s.nvmeIndex) :
    k ∈ (s.spill lim md5 env key entry).nvmeIndex := by
  unfold spill
  dsimp only
  split
  · exact mem_assign.mpr (.inr h)
  · exact h

theorem lookup_spill_ne (hne : k ≠ key) :
    (s.spill lim md5 env key entry).nvmeIndex.lookup k =
      s.nvmeIndex.lookup k := by
  unfold spill
  dsimp only
  split
  · dsimp only [nvmeWrite]
    rw [lookup_assign, if_neg hne]
  · rfl

theorem Exact.spill (h : s.Exact) (hentry : s.dram.lookup key = some entry) :
    (s.spill lim md5 env key entry).Exact := by
  have hkey : key ∈ s.dram := mem_of_lookup hentry
  have hnew : entrySize s.nvmeIndex key = 0 := share_of_notMem (h.apart key hkey)
  obtain ⟨hdram, hnvme, -⟩ := exact_iff.mp h
  refine exact_iff.mpr ⟨?_, ?_, ?_⟩
  · rw [spill_dramDrift hentry, hdram]
  · rcases spill_nvmeDrift lim md5 env s key entry with heq | heq
    · rw [heq, hnvme]
    · rw [heq, hnvme, hnew]
      rfl
  · intro k hk hindex
    rw [spill_dram] at hk
    obtain ⟨hne, hk⟩ := AList.mem_erase.mp hk
    rcases mem_spill_nvmeIndex hindex with heq | hold
    · exact hne heq
    · exact h.apart k hk hold

end Spill

section Room

/-- Every spill of the eviction loop meets `C`. -/
def EverySpill (lim : TierLimits) (md5 : String → Nat) (env : TierEnv)
    (C : TierStore → String → CacheEntry → Prop) (needed : Nat) :
    Nat → TierStore → Prop
  | 0, _ => True
  | turns + 1, s =>
      lim.dram < s.dramBytes + needed →
        match s.victim with
        | none => True
        | some ⟨k, entry⟩ =>
            C s k entry ∧
              EverySpill lim md5 env C needed turns (s.spill lim md5 env k entry)

instance EverySpill.decidable (C : TierStore → String → CacheEntry → Prop)
    [hdec : ∀ s k e, Decidable (C s k e)] (needed : Nat) :
    ∀ turns s, Decidable (EverySpill lim md5 env C needed turns s)
  | 0, _ => isTrue trivial
  | turns + 1, s =>
      match hvictim : s.victim with
      | none => isTrue (by simp [EverySpill, hvictim])
      | some ⟨k, entry⟩ =>
          have := EverySpill.decidable C needed turns (s.spill lim md5 env k entry)
          decidable_of_iff (lim.dram < s.dramBytes + needed →
            C s k entry ∧
              EverySpill lim md5 env C needed turns (s.spill lim md5 env k entry))
            (by simp [EverySpill, hvictim])

/-- What spills that meet `C` preserve. -/
theorem EverySpill.preserves {P : TierStore → Prop}
    {C : TierStore → String → CacheEntry → Prop} {needed : Nat}
    (hspill : ∀ (s : TierStore) (key : String) (entry : CacheEntry), P s →
      s.dram.lookup key = some entry → C s key entry →
        P (s.spill lim md5 env key entry))
    (turns : Nat) :
    ∀ {s : TierStore}, P s → EverySpill lim md5 env C needed turns s →
      P (s.evictLoop lim md5 env needed turns) := by
  induction turns with
  | zero => exact fun h _ => h
  | succ turns ih =>
      intro s h hall
      unfold EverySpill at hall
      unfold evictLoop
      split
      next hover =>
        have hvictims := hall hover
        cases hvictim : s.victim with
        | none => exact h
        | some v =>
            rw [hvictim] at hvictims
            exact ih (hspill s v.1 v.2 h (lookup_of_least hvictim) hvictims.1)
              hvictims.2
      · exact h

/-- What holds of every victim while an invariant of the loop does. -/
theorem everySpill_of_invariant {P : TierStore → Prop}
    {C : TierStore → String → CacheEntry → Prop} {needed : Nat}
    (hmeets : ∀ (s : TierStore) (key : String) (entry : CacheEntry), P s →
      s.dram.lookup key = some entry → lim.dram < s.dramBytes + needed →
        C s key entry)
    (hspill : ∀ (s : TierStore) (key : String) (entry : CacheEntry), P s →
      s.dram.lookup key = some entry → C s key entry →
        P (s.spill lim md5 env key entry))
    (turns : Nat) :
    ∀ {s : TierStore}, P s → EverySpill lim md5 env C needed turns s := by
  induction turns with
  | zero => exact fun _ => trivial
  | succ turns ih =>
      intro s h
      unfold EverySpill
      intro hover
      cases hvictim : s.victim with
      | none => trivial
      | some v =>
          have hentry := lookup_of_least hvictim
          have hcond := hmeets s v.1 v.2 h hentry hover
          exact ⟨hcond, ih (hspill s v.1 v.2 h hentry hcond)⟩

/-- What the eviction loop preserves. -/
theorem evictLoop_induct {P : TierStore → Prop} {needed : Nat}
    (hspill : ∀ (s : TierStore) (key : String) (entry : CacheEntry), P s →
      s.dram.lookup key = some entry → P (s.spill lim md5 env key entry))
    (turns : Nat) {s : TierStore} (h : P s) :
    P (s.evictLoop lim md5 env needed turns) :=
  EverySpill.preserves (C := fun _ _ _ => True)
    (fun t key entry ht hentry _ => hspill t key entry ht hentry) turns h
    (everySpill_of_invariant (fun _ _ _ _ _ _ => trivial)
      (fun t key entry ht hentry _ => hspill t key entry ht hentry) turns h)

variable {needed : Nat}

theorem Exact.room (h : s.Exact) :
    (s.evictDramIfNeeded lim md5 env needed).Exact :=
  evictLoop_induct (fun _ _ _ h hentry => h.spill hentry) _ h

/-- Making room loses no drift and no indexed key. -/
theorem room_drift (lim : TierLimits) (md5 : String → Nat) (env : TierEnv)
    (s : TierStore) (needed : Nat) (k : String) :
    s.dramDrift ≤ (s.evictDramIfNeeded lim md5 env needed).dramDrift ∧
      s.nvmeDrift ≤ (s.evictDramIfNeeded lim md5 env needed).nvmeDrift ∧
      (k ∈ s.nvmeIndex →
        k ∈ (s.evictDramIfNeeded lim md5 env needed).nvmeIndex) := by
  refine evictLoop_induct (P := fun t => s.dramDrift ≤ t.dramDrift ∧
    s.nvmeDrift ≤ t.nvmeDrift ∧ (k ∈ s.nvmeIndex → k ∈ t.nvmeIndex)) ?_ _
    ⟨le_refl _, le_refl _, id⟩
  rintro t key entry ⟨hdram, hnvme, hindex⟩ hentry
  refine ⟨?_, ?_, fun hk => mem_spill_of_mem (hindex hk)⟩
  · rwa [spill_dramDrift hentry]
  · have hold := entrySize_nonneg t.nvmeIndex key
    rcases spill_nvmeDrift lim md5 env t key entry with heq | heq <;> omega

/-- A key that is not in DRAM is no victim. -/
theorem room_notMem (hkey : key ∉ s.dram) :
    key ∉ (s.evictDramIfNeeded lim md5 env needed).dram ∧
      (s.evictDramIfNeeded lim md5 env needed).nvmeIndex.lookup key =
        s.nvmeIndex.lookup key := by
  refine evictLoop_induct (P := fun t => key ∉ t.dram ∧
    t.nvmeIndex.lookup key = s.nvmeIndex.lookup key) ?_ _ ⟨hkey, rfl⟩
  rintro t k entry ⟨hnot, hlookup⟩ hentry
  have hne : key ≠ k := by
    rintro rfl
    exact hnot (mem_of_lookup hentry)
  constructor
  · rw [spill_dram]
    exact fun h => hnot (AList.mem_erase.mp h).2
  · rw [lookup_spill_ne hne, hlookup]

end Room

section Operations

/-- A put finds no entry of its key in the way: once room is made, the key is
not in the index, nor in DRAM with bytes in it. -/
def PutAccounted (lim : TierLimits) (md5 : String → Nat) (env : TierEnv)
    (s : TierStore) (key : String) (data : Bytes) : Prop :=
  let s := s.evictDramIfNeeded lim md5 env data.length
  key ∉ s.nvmeIndex ∧ ∀ e ∈ s.dram.lookup key, e.sizeBytes = 0

/-- The counters have run ahead, or the key is in both tiers. -/
def Lost (s : TierStore) (key : String) : Prop :=
  0 < s.dramDrift ∨ 0 < s.nvmeDrift ∨ key ∈ s.dram ∧ key ∈ s.nvmeIndex

theorem Lost.not_exact (h : s.Lost key) : ¬ s.Exact := by
  intro hexact
  obtain ⟨hdram, hnvme, hapart⟩ := exact_iff.mp hexact
  rcases h with hd | hn | ⟨hk, hindex⟩
  · omega
  · omega
  · exact hapart key hk hindex

/-- A put leaves the bytes of the old entry on the counter. -/
theorem put_dramDrift (lim : TierLimits) (md5 : String → Nat) (env : TierEnv)
    (s : TierStore) (key : String) (data : Bytes) :
    (s.put lim md5 env key data).dramDrift =
      (s.evictDramIfNeeded lim md5 env data.length).dramDrift +
        entrySize (s.evictDramIfNeeded lim md5 env data.length).dram key := by
  unfold put dramDrift
  dsimp only
  rw [tierSize_assign]
  dsimp only
  omega

theorem put_nvmeDrift :
    (s.put lim md5 env key data).nvmeDrift =
      (s.evictDramIfNeeded lim md5 env data.length).nvmeDrift := rfl

theorem mem_put_dram : key ∈ (s.put lim md5 env key data).dram :=
  mem_assign.mpr (.inl rfl)

theorem Lost.put (h : s.Lost key) : (s.put lim md5 env key data).Lost key := by
  obtain ⟨hdram, hnvme, hindex⟩ := room_drift lim md5 env s data.length key
  have hold := entrySize_nonneg
    (s.evictDramIfNeeded lim md5 env data.length).dram key
  have hafter := put_dramDrift lim md5 env s key data
  rcases h with hd | hn | ⟨-, hk⟩
  · exact .inl (by omega)
  · exact .inr (.inl (hn.trans_le hnvme))
  · exact .inr (.inr ⟨mem_put_dram, hindex hk⟩)

/-- A put that is accounted for keeps the counters exact. -/
theorem Exact.put (h : s.Exact) (hput : s.PutAccounted lim md5 env key data) :
    (s.put lim md5 env key data).Exact := by
  obtain ⟨hindex, hsize⟩ := hput
  have hroom : (s.evictDramIfNeeded lim md5 env data.length).Exact := h.room
  obtain ⟨hdram, hnvme, hapart⟩ := exact_iff.mp hroom
  refine exact_iff.mpr ⟨?_, ?_, ?_⟩
  · rw [put_dramDrift, hdram, entrySize_eq_zero_iff.mpr hsize]
    rfl
  · rw [put_nvmeDrift, hnvme]
  · intro k hk
    rcases mem_assign.mp hk with rfl | hk
    · exact hindex
    · exact hapart k hk

/-- Any other loses track. -/
theorem Exact.lost_of_put (h : s.Exact)
    (hput : ¬ s.PutAccounted lim md5 env key data) :
    (s.put lim md5 env key data).Lost key := by
  have hroom : (s.evictDramIfNeeded lim md5 env data.length).Exact := h.room
  obtain ⟨hdram, -, -⟩ := exact_iff.mp hroom
  by_cases hindex :
      key ∈ (s.evictDramIfNeeded lim md5 env data.length).nvmeIndex
  · exact .inr (.inr ⟨mem_put_dram, hindex⟩)
  · have hsize : entrySize
        (s.evictDramIfNeeded lim md5 env data.length).dram key ≠ 0 := by
      intro hzero
      exact hput ⟨hindex, entrySize_eq_zero_iff.mp hzero⟩
    have hpos := lt_of_le_of_ne (entrySize_nonneg _ _) hsize.symm
    left
    rw [put_dramDrift, hdram]
    omega

theorem Exact.promote (h : s.Exact) (hkey : key ∉ s.dram)
    (hentry : s.nvmeIndex.lookup key = some entry) :
    (s.promote lim md5 env key entry data).Exact := by
  have hroom : (s.evictDramIfNeeded lim md5 env data.length).Exact := h.room
  obtain ⟨hnot, hlookup⟩ :
      key ∉ (s.evictDramIfNeeded lim md5 env data.length).dram ∧
        (s.evictDramIfNeeded lim md5 env data.length).nvmeIndex.lookup key =
          s.nvmeIndex.lookup key := room_notMem hkey
  rw [hentry] at hlookup
  have hnone : entrySize (s.evictDramIfNeeded lim md5 env data.length).dram key
      = 0 := share_of_notMem hnot
  have hsize : entrySize
      (s.evictDramIfNeeded lim md5 env data.length).nvmeIndex key =
        entry.sizeBytes := share_of_lookup hlookup
  unfold TierStore.promote
  dsimp only
  constructor
  · dsimp only
    rw [tierSize_assign, hnone, hroom.dram]
    dsimp only
    omega
  · dsimp only
    rw [tierSize_erase, hsize, hroom.nvme]
  · intro k hk hindex
    obtain ⟨hne, hindex⟩ := AList.mem_erase.mp hindex
    rcases mem_assign.mp hk with heq | hk
    · exact hne heq
    · exact hroom.apart k hk hindex

/-- A get moves entries without losing track of any. -/
theorem Exact.get (h : s.Exact) : (s.get lim md5 env key).1.Exact := by
  unfold TierStore.get
  split
  next e hdram =>
    have hkey : key ∈ s.dram := mem_of_lookup hdram
    have hsize : entrySize s.dram key = e.sizeBytes := share_of_lookup hdram
    constructor
    · dsimp only
      rw [tierSize_assign, hsize, h.dram]
      dsimp only
      omega
    · exact h.nvme
    · intro k hk
      rcases mem_assign.mp hk with rfl | hk
      · exact h.apart k hkey
      · exact h.apart k hk
  next hdram =>
    have hkey : key ∉ s.dram := AList.lookup_eq_none.mp hdram
    split
    · exact ⟨h.dram, h.nvme, h.apart⟩
    next e hindex =>
      split
      · exact ⟨h.dram, h.nvme, h.apart⟩
      · exact h.promote hkey hindex

/-- An explicit eviction leaves the bytes of the entry on the counter. -/
theorem popDram_dramDrift :
    (s.popDram key).dramDrift = s.dramDrift + entrySize s.dram key := by
  unfold popDram dramDrift
  dsimp only
  rw [tierSize_erase]
  omega

theorem Exact.popDram_iff (h : s.Exact) :
    (s.popDram key).Exact ↔ ∀ e ∈ s.dram.lookup key, e.sizeBytes = 0 := by
  obtain ⟨hdram, hnvme, hapart⟩ := exact_iff.mp h
  have hafter : (s.popDram key).dramDrift = 0 + entrySize s.dram key := by
    rw [popDram_dramDrift, hdram]
  rw [exact_iff, hafter, zero_add, entrySize_eq_zero_iff]
  refine and_iff_left ⟨hnvme, fun k hk => ?_⟩
  exact hapart k (AList.mem_erase.mp hk).2

end Operations

end TierStore

namespace P2PCacheStore

open TierStore

variable {cfg : P2PConfig} {md5 : String → Nat} {env : P2PEnv}
  {s : P2PCacheStore} {key : String} {data : Bytes}

/-- Every local put of a replicated put is accounted for. -/
def PutsAccounted (cfg : P2PConfig) (md5 : String → Nat) (env : P2PEnv)
    (key : String) (data : Bytes) : List Int → TierStore → Prop
  | [], _ => True
  | owner :: rest, s =>
      if servesLocally cfg owner then
        s.PutAccounted cfg.limits md5 (env.tier owner) key data ∧
          PutsAccounted cfg md5 env key data rest
            (s.put cfg.limits md5 (env.tier owner) key data)
      else PutsAccounted cfg md5 env key data rest s

theorem lost_putLoop (owners : List Int) {storedOn : List Int}
    (h : s.localStore.Lost key) :
    (putLoop cfg md5 env key data owners s storedOn).1.localStore.Lost key :=
  putLoop_preserves (P := fun t => t.Lost key) (fun _ _ hlost => hlost.put)
    owners h

/-- Replication repeats the put. -/
theorem exact_putLoop_iff (owners : List Int) :
    ∀ {s : P2PCacheStore} {storedOn : List Int}, s.localStore.Exact →
      ((putLoop cfg md5 env key data owners s storedOn).1.localStore.Exact ↔
        PutsAccounted cfg md5 env key data owners s.localStore) := by
  induction owners with
  | nil => exact fun h => iff_of_true h trivial
  | cons owner owners ih =>
      intro s storedOn h
      unfold putLoop PutsAccounted
      split
      · by_cases hput : s.localStore.PutAccounted cfg.limits md5
            (env.tier owner) key data
        · rw [and_iff_right hput]
          exact ih (h.put hput)
        · refine iff_of_false ?_ fun hall => hput hall.1
          apply Lost.not_exact
          apply lost_putLoop
          exact h.lost_of_put hput
      · split
        · exact ih h
        · exact ih h

theorem exact_getLoop (owners : List Int) (h : s.localStore.Exact) :
    (getLoop cfg md5 env key owners s).1.localStore.Exact :=
  getLoop_preserves (P := TierStore.Exact) (fun _ _ hexact => hexact.get) owners h

end P2PCacheStore

namespace CacheSession

open P2PCacheStore TierStore

variable {cfg : P2PConfig} {md5 : String → Nat} {s : CacheSession}

/-- The operation is accounted for: no local put finds an entry of its key in
the way, and an explicit eviction pops no bytes from DRAM. -/
def Accounted (cfg : P2PConfig) (md5 : String → Nat) (s : CacheSession) :
    CacheOp → Prop
  | .put key data env =>
      PutsAccounted cfg md5 env key data (owners cfg md5 key) s.store.localStore
  | .get _ _ => True
  | .evict key =>
      cfg.rank ∈ owners cfg md5 key ∨ cfg.simulation →
        ∀ e ∈ s.store.localStore.dram.lookup key, e.sizeBytes = 0

theorem exact_step_iff (h : s.store.localStore.Exact) (op : CacheOp) :
    ∃ t, step cfg md5 s op = some t ∧
      (t.store.localStore.Exact ↔ Accounted cfg md5 s op) := by
  cases op with
  | put key data env => exact ⟨_, rfl, exact_putLoop_iff _ h⟩
  | get key env => exact ⟨_, rfl, iff_of_true (exact_getLoop _ h) trivial⟩
  | evict key =>
      refine ⟨_, rfl, ?_⟩
      unfold Accounted P2PCacheStore.evict
      dsimp only
      by_cases hpops : cfg.rank ∈ owners cfg md5 key ∨ cfg.simulation = true
      · rw [if_pos hpops, forall_prop_of_true hpops]
        exact h.popDram_iff
      · rw [if_neg hpops]
        exact iff_of_true h fun hpops' => absurd hpops' hpops

/-- **The byte counters** are exact in every state of a run exactly when every
operation is accounted for. -/
theorem counters_exact_iff (cfg : P2PConfig) (md5 : String → Nat)
    (found : Nat → Option Bytes) (ops : List CacheOp) :
    (∀ pre, pre <+: ops →
        ∀ t ∈ Runs.exec (step cfg md5) (init found) pre,
          t.store.localStore.Exact) ↔
      Runs.Meets (step cfg md5) (Accounted cfg md5) (init found) ops := by
  refine Runs.Meets.iff_prefixes (P := fun s : CacheSession => s.store.localStore.Exact)
    ⟨rfl, rfl, fun k hk => ?_⟩ fun s op h => exact_step_iff h op
  exact absurd hk (AList.notMem_empty k)

/-- A put over an entry, an eviction, and a put of a key that has been spilled
each break one part. -/
theorem counters_drift :
    (∃ s : CacheSession,
      Runs.Reachable (step tightConfig letterDigest) (init fun _ => none) s ∧
      s.store.localStore.dramBytes = 1 ∧
      tierSize s.store.localStore.dram = 0) ∧
    (∃ s : CacheSession,
      Runs.Reachable (step { limits := { dram := 8, nvme := 8 } } letterDigest)
        (init fun _ => none) s ∧
      s.store.localStore.dramBytes = 2 ∧
      tierSize s.store.localStore.dram = 1) ∧
    ∃ s : CacheSession,
      Runs.Reachable (step tightConfig letterDigest) (init fun _ => none) s ∧
      "a" ∈ s.store.localStore.dram ∧ "a" ∈ s.store.localStore.nvmeIndex :=
  ⟨Runs.Reachable.exists_of_exec [.put "a" [1] {}, .evict "a"]
      (by decide +kernel),
    Runs.Reachable.exists_of_exec [.put "a" [1] {}, .put "a" [2] {}]
      (by decide +kernel),
    Runs.Reachable.exists_of_exec
      [.put "a" [1] {}, .put "b" [2] {}, .put "a" [3] {}] (by decide +kernel)⟩

end CacheSession

end Tempo
