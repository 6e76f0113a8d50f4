import Mathlib.Algebra.Order.BigOperators.Group.Finset
import Tempo.DramBudget

/-!
# The disk budget of the cache store

A spill is admitted by the NVMe counter, which follows the index.  A file has an
index entry when it is written and loses it when its data is promoted to DRAM,
but nothing removes the file: it stays under the root and is not counted any
more (`strayBytes`).  A spill that the counter admits keeps the files within
`nvme_limit` exactly when these stray files fit beside the entries of the index
(`spill_budget_iff`), and so do runs whose every admitted spill has that room.
Without a promotion there are no stray files.
-/

namespace Tempo

open OrderedDict

namespace TierStore

variable {lim : TierLimits} {md5 : String → Nat} {env : TierEnv}
  {keys : Finset String} {s : TierStore} {key : String} {entry : CacheEntry}
  {data : Bytes}

/-- The size of the file that a digest names. -/
def fileBytes (s : TierStore) (digest : Nat) : Int :=
  (s.files digest).elim 0 fun content => content.length

/-- Whatever files are taken together stay within the limit. -/
def DiskInBudget (lim : TierLimits) (s : TierStore) : Prop :=
  ∀ digests : Finset Nat, ∑ d ∈ digests, s.fileBytes d ≤ lim.nvme

/-- The files that the index does not list, other than that of `key`. -/
def strayBytes (md5 : String → Nat) (keys : Finset String) (s : TierStore)
    (key : String) : Int :=
  ∑ k ∈ (keys.erase key).filter (· ∉ s.nvmeIndex), s.fileBytes (md5 k)

/-- If the counter admits the victim, then it fits beside the other entries of
the index and the stray files. -/
def SpillFits (lim : TierLimits) (md5 : String → Nat) (keys : Finset String)
    (s : TierStore) (key : String) (entry : CacheEntry) : Prop :=
  s.nvmeBytes + entry.sizeBytes ≤ lim.nvme →
    s.strayBytes md5 keys key ≤
      lim.nvme - (tierSize s.nvmeIndex - entrySize s.nvmeIndex key) -
        entry.sizeBytes

/-- The files are those of `keys`, every entry of the index has its file, and
together they are within the limit. -/
structure DiskBudget (lim : TierLimits) (md5 : String → Nat)
    (keys : Finset String) (s : TierStore) : Prop where
  named : ∀ d, s.files d ≠ none → ∃ k ∈ keys, md5 k = d
  listed : ∀ k, ∀ e ∈ s.nvmeIndex.lookup k, s.fileBytes (md5 k) = e.sizeBytes
  indexKeys : ∀ k ∈ s.nvmeIndex, k ∈ keys
  dramKeys : ∀ k ∈ s.dram, k ∈ keys
  sized : s.Sized
  budget : ∑ k ∈ keys, s.fileBytes (md5 k) ≤ lim.nvme

theorem fileBytes_nonneg (s : TierStore) (digest : Nat) :
    0 ≤ s.fileBytes digest := by
  unfold fileBytes
  cases s.files digest with
  | none => exact le_refl _
  | some content => exact Int.natCast_nonneg _

theorem DiskBudget.inBudget (hinj : Set.InjOn md5 keys)
    (h : s.DiskBudget lim md5 keys) : s.DiskInBudget lim := by
  intro digests
  have hnone : ∀ d ∈ digests, d ∉ keys.image md5 → s.fileBytes d = 0 := by
    intro d _ hd
    have hfile : s.files d = none := by
      by_contra hfile
      obtain ⟨k, hk, rfl⟩ := h.named d hfile
      exact hd (Finset.mem_image_of_mem md5 hk)
    simp [fileBytes, hfile]
  calc ∑ d ∈ digests, s.fileBytes d
      = ∑ d ∈ digests.filter (· ∈ keys.image md5), s.fileBytes d := by
        rw [Finset.sum_filter]
        apply Finset.sum_congr rfl
        intro d hd
        split
        · rfl
        next hnot => exact hnone d hd hnot
    _ ≤ ∑ d ∈ keys.image md5, s.fileBytes d := by
        apply Finset.sum_le_sum_of_subset_of_nonneg
        · intro d hd
          exact (Finset.mem_filter.mp hd).2
        · intro d _ _
          exact s.fileBytes_nonneg d
    _ = ∑ k ∈ keys, s.fileBytes (md5 k) := Finset.sum_image hinj
    _ ≤ lim.nvme := h.budget

section Spill

theorem DiskBudget.entrySize_eq (h : s.DiskBudget lim md5 keys) {k : String}
    (hk : k ∈ s.nvmeIndex) :
    entrySize s.nvmeIndex k = s.fileBytes (md5 k) := by
  obtain ⟨e, he⟩ := exists_lookup hk
  rw [h.listed k e he]
  exact share_of_lookup he

/-- The other files are those of the index and the stray ones. -/
theorem DiskBudget.sum_others (h : s.DiskBudget lim md5 keys) (hkey : key ∈ keys) :
    ∑ k ∈ keys.erase key, s.fileBytes (md5 k) =
      s.strayBytes md5 keys key +
        (tierSize s.nvmeIndex - entrySize s.nvmeIndex key) := by
  have hsplit : ∀ k, s.fileBytes (md5 k) =
      (if k ∉ s.nvmeIndex then s.fileBytes (md5 k) else 0) +
        entrySize s.nvmeIndex k := by
    intro k
    by_cases hk : k ∈ s.nvmeIndex
    · rw [h.entrySize_eq hk]
      simp [hk]
    · have hnone : entrySize s.nvmeIndex k = 0 := share_of_notMem hk
      rw [hnone]
      simp [hk]
  have hindex : ∑ k ∈ keys, entrySize s.nvmeIndex k = tierSize s.nvmeIndex :=
    sum_share_eq_total h.indexKeys
  have herase := Finset.sum_erase_add keys (entrySize s.nvmeIndex) hkey
  unfold strayBytes
  rw [Finset.sum_congr rfl fun k _ => hsplit k, Finset.sum_add_distrib,
    Finset.sum_filter]
  omega

theorem spill_admitted (hwrite : env.write key = .ok)
    (hadmitted : s.nvmeBytes + entry.sizeBytes ≤ lim.nvme) :
    (s.spill lim md5 env key entry).files =
        Function.update s.files (md5 key) (some entry.data) ∧
      (s.spill lim md5 env key entry).nvmeIndex =
        assign s.nvmeIndex key { entry with tier := .nvme } := by
  unfold spill
  dsimp only
  rw [if_pos hadmitted, hwrite]
  exact ⟨rfl, rfl⟩

theorem spill_refused (hfull : ¬ s.nvmeBytes + entry.sizeBytes ≤ lim.nvme) :
    (s.spill lim md5 env key entry).files = s.files ∧
      (s.spill lim md5 env key entry).nvmeIndex = s.nvmeIndex := by
  unfold spill
  dsimp only
  rw [if_neg hfull]
  exact ⟨rfl, rfl⟩

theorem fileBytes_congr {t : TierStore} (h : t.files = s.files) :
    t.fileBytes = s.fileBytes := by
  funext d
  unfold fileBytes
  rw [h]

theorem fileBytes_spill (hwrite : env.write key = .ok)
    (hadmitted : s.nvmeBytes + entry.sizeBytes ≤ lim.nvme) (d : Nat) :
    (s.spill lim md5 env key entry).fileBytes d =
      if d = md5 key then (entry.data.length : Int) else s.fileBytes d := by
  unfold fileBytes
  rw [(spill_admitted hwrite hadmitted).1, Function.update_apply]
  split <;> rfl

/-- A spill that the counter admits keeps the files within the limit exactly
when the stray ones fit. -/
theorem spill_budget_iff (hinj : Set.InjOn md5 keys)
    (h : s.DiskBudget lim md5 keys) (hentry : s.dram.lookup key = some entry)
    (hwrite : env.write key = .ok)
    (hadmitted : s.nvmeBytes + entry.sizeBytes ≤ lim.nvme) :
    ∑ k ∈ keys, (s.spill lim md5 env key entry).fileBytes (md5 k) ≤ lim.nvme ↔
      s.SpillFits lim md5 keys key entry := by
  have hkey : key ∈ keys := h.dramKeys key (mem_of_lookup hentry)
  have hsize := h.sized key entry hentry
  have hothers : ∑ k ∈ keys.erase key,
      (s.spill lim md5 env key entry).fileBytes (md5 k) =
        ∑ k ∈ keys.erase key, s.fileBytes (md5 k) := by
    apply Finset.sum_congr rfl
    intro k hk
    have hne : md5 k ≠ md5 key := by
      intro hmd5
      have heq := hinj (Finset.mem_of_mem_erase hk) hkey hmd5
      exact Finset.ne_of_mem_erase hk heq
    rw [fileBytes_spill hwrite hadmitted, if_neg hne]
  have hown : (s.spill lim md5 env key entry).fileBytes (md5 key) =
      entry.sizeBytes := by
    rw [fileBytes_spill hwrite hadmitted, if_pos rfl, hsize]
  rw [← Finset.sum_erase_add keys _ hkey, hothers, hown, h.sum_others hkey]
  unfold SpillFits
  rw [forall_prop_of_true hadmitted]
  constructor <;> intro hfits <;> omega

/-- An entry leaves DRAM, and the files and the index stay. -/
theorem DiskBudget.dropped {t : TierStore} (h : s.DiskBudget lim md5 keys)
    (hfiles : t.files = s.files) (hindex : t.nvmeIndex = s.nvmeIndex)
    (hdram : t.dram = s.dram.erase key) : t.DiskBudget lim md5 keys := by
  have hbytes := fileBytes_congr hfiles
  constructor
  · rw [hfiles]
    exact h.named
  · rw [hbytes, hindex]
    exact h.listed
  · rw [hindex]
    exact h.indexKeys
  · intro k hk
    rw [hdram] at hk
    exact h.dramKeys k (AList.mem_erase.mp hk).2
  · exact h.sized.erase hdram
  · rw [hbytes]
    exact h.budget

/-- The victim goes to its file and into the index. -/
theorem DiskBudget.admitted (hinj : Set.InjOn md5 keys)
    (h : s.DiskBudget lim md5 keys) (hentry : s.dram.lookup key = some entry)
    (hwrite : env.write key = .ok)
    (hadmitted : s.nvmeBytes + entry.sizeBytes ≤ lim.nvme)
    (hfits : s.SpillFits lim md5 keys key entry) :
    (s.spill lim md5 env key entry).DiskBudget lim md5 keys := by
  have hkey : key ∈ keys := h.dramKeys key (mem_of_lookup hentry)
  constructor
  · intro d hd
    rw [(spill_admitted hwrite hadmitted).1] at hd
    by_cases heq : d = md5 key
    · exact ⟨key, hkey, heq.symm⟩
    · rw [Function.update_of_ne heq] at hd
      exact h.named d hd
  · intro k e he
    rw [fileBytes_spill hwrite hadmitted]
    rw [(spill_admitted hwrite hadmitted).2, lookup_assign] at he
    by_cases heq : k = key
    · subst heq
      rw [if_pos rfl] at he ⊢
      obtain rfl := Option.some.inj he
      exact congrArg Nat.cast (h.sized k entry hentry).symm
    · have hk : k ∈ s.nvmeIndex := by
        rw [if_neg heq] at he
        exact mem_of_lookup he
      have hne : md5 k ≠ md5 key := fun hmd5 =>
        heq (hinj (h.indexKeys k hk) hkey hmd5)
      rw [if_neg heq] at he
      rw [if_neg hne]
      exact h.listed k e he
  · intro k hk
    rcases mem_spill_nvmeIndex hk with rfl | hold
    · exact hkey
    · exact h.indexKeys k hold
  · intro k hk
    rw [spill_dram] at hk
    exact h.dramKeys k (AList.mem_erase.mp hk).2
  · exact h.sized.erase spill_dram
  · exact (spill_budget_iff hinj h hentry hwrite hadmitted).mpr hfits

theorem DiskBudget.spill (hinj : Set.InjOn md5 keys)
    (h : s.DiskBudget lim md5 keys) (hentry : s.dram.lookup key = some entry)
    (hwrite : env.write key = .ok) (hfits : s.SpillFits lim md5 keys key entry) :
    (s.spill lim md5 env key entry).DiskBudget lim md5 keys := by
  by_cases hadmitted : s.nvmeBytes + entry.sizeBytes ≤ lim.nvme
  · exact h.admitted hinj hentry hwrite hadmitted hfits
  · obtain ⟨hfiles, hindex⟩ := spill_refused hadmitted
    exact h.dropped hfiles hindex spill_dram

end Spill

section Operations

/-- The spills of the loop that makes room for `needed` bytes all fit. -/
def SpillsFit (lim : TierLimits) (md5 : String → Nat) (keys : Finset String)
    (env : TierEnv) (s : TierStore) (needed : Nat) : Prop :=
  EverySpill lim md5 env (SpillFits lim md5 keys) needed s.dram.entries.length s

/-- So do those of a get that is served from NVMe. -/
def PromotionFits (lim : TierLimits) (md5 : String → Nat)
    (keys : Finset String) (env : TierEnv) (s : TierStore) (key : String) :
    Prop :=
  s.dram.lookup key = none → key ∈ s.nvmeIndex →
    ∀ data ∈ s.nvmeRead md5 key env.readable,
      SpillsFit lim md5 keys env s data.length

theorem DiskBudget.room (hinj : Set.InjOn md5 keys) {needed : Nat}
    (hwrite : ∀ k, env.write k = .ok) (h : s.DiskBudget lim md5 keys)
    (hfits : s.SpillsFit lim md5 keys env needed) :
    (s.evictDramIfNeeded lim md5 env needed).DiskBudget lim md5 keys :=
  EverySpill.preserves
    (fun _ k _ ht hentry hspill => ht.spill hinj hentry (hwrite k) hspill) _ h hfits

/-- An entry goes into DRAM; the index loses at most entries, and the files
stay. -/
theorem DiskBudget.assign {t : TierStore} (h : s.DiskBudget lim md5 keys)
    (hkey : key ∈ keys) (hentry : entry.sizeBytes = entry.data.length)
    (hdram : t.dram = OrderedDict.assign s.dram key entry)
    (hindex : ∀ k, ∀ e ∈ t.nvmeIndex.lookup k, e ∈ s.nvmeIndex.lookup k)
    (hfiles : t.files = s.files) : t.DiskBudget lim md5 keys := by
  have hbytes := fileBytes_congr hfiles
  constructor
  · rw [hfiles]
    exact h.named
  · intro k e he
    rw [hbytes]
    exact h.listed k e (hindex k e he)
  · intro k hk
    obtain ⟨e, he⟩ := exists_lookup hk
    exact h.indexKeys k (mem_of_lookup (hindex k e he))
  · intro k hk
    rw [hdram, mem_assign] at hk
    rcases hk with rfl | hk
    · exact hkey
    · exact h.dramKeys k hk
  · exact h.sized.assign hentry hdram
  · rw [hbytes]
    exact h.budget

theorem DiskBudget.put (hinj : Set.InjOn md5 keys)
    (hwrite : ∀ k, env.write k = .ok) (hkey : key ∈ keys)
    (h : s.DiskBudget lim md5 keys)
    (hfits : s.SpillsFit lim md5 keys env data.length) :
    (s.put lim md5 env key data).DiskBudget lim md5 keys := by
  have hroom := h.room hinj hwrite hfits
  exact hroom.assign hkey rfl rfl (fun _ _ he => he) rfl

theorem DiskBudget.promote (hinj : Set.InjOn md5 keys)
    (hwrite : ∀ k, env.write k = .ok) (hkey : key ∈ keys)
    (h : s.DiskBudget lim md5 keys)
    (hfits : s.SpillsFit lim md5 keys env data.length) :
    (s.promote lim md5 env key entry data).DiskBudget lim md5 keys := by
  have hroom := h.room hinj hwrite hfits
  refine hroom.assign hkey rfl rfl ?_ rfl
  intro k e he
  exact (lookup_of_lookup_erase he).2

theorem DiskBudget.get (hinj : Set.InjOn md5 keys)
    (hwrite : ∀ k, env.write k = .ok) (hkey : key ∈ keys)
    (h : s.DiskBudget lim md5 keys)
    (hfits : s.PromotionFits lim md5 keys env key) :
    (s.get lim md5 env key).1.DiskBudget lim md5 keys := by
  unfold TierStore.get
  split
  next e hdram =>
    let touched : CacheEntry :=
      { e with lastAccess := env.now, hitCount := e.hitCount + 1 }
    have htouched : touched.sizeBytes = touched.data.length :=
      h.sized key e hdram
    exact h.assign hkey htouched rfl (fun _ _ he => he) rfl
  next hdram =>
    split
    · exact ⟨h.named, h.listed, h.indexKeys, h.dramKeys, h.sized, h.budget⟩
    next e hindex =>
      have hmem : key ∈ s.nvmeIndex := mem_of_lookup hindex
      split
      · exact ⟨h.named, h.listed, h.indexKeys, h.dramKeys, h.sized, h.budget⟩
      next data hread =>
        exact h.promote hinj hwrite hkey (hfits hdram hmem data hread)

theorem DiskBudget.popDram (h : s.DiskBudget lim md5 keys) :
    (s.popDram key).DiskBudget lim md5 keys :=
  h.dropped rfl rfl rfl

end Operations

section NoStrays

/-- Every file is listed, and the counter is not behind the index. -/
structure NoStrays (md5 : String → Nat) (keys : Finset String) (s : TierStore) :
    Prop where
  listed : ∀ k ∈ keys, k ∉ s.nvmeIndex → s.fileBytes (md5 k) = 0
  drift : 0 ≤ s.nvmeDrift
  dramKeys : ∀ k ∈ s.dram, k ∈ keys

/-- Without stray files what the counter admits fits. -/
theorem NoStrays.spillFits (h : s.NoStrays md5 keys) :
    s.SpillFits lim md5 keys key entry := by
  intro hadmitted
  have hnone : s.strayBytes md5 keys key = 0 := by
    apply Finset.sum_eq_zero
    intro k hk
    obtain ⟨hmem, hnot⟩ := Finset.mem_filter.mp hk
    exact h.listed k (Finset.mem_of_mem_erase hmem) hnot
  have hdrift := h.drift
  have hold := entrySize_nonneg s.nvmeIndex key
  unfold nvmeDrift at hdrift
  omega

theorem NoStrays.spill (hinj : Set.InjOn md5 keys)
    (hwrite : ∀ k, env.write k = .ok) (h : s.NoStrays md5 keys)
    (hentry : s.dram.lookup key = some entry) :
    (s.spill lim md5 env key entry).NoStrays md5 keys := by
  have hkey : key ∈ keys := h.dramKeys key (mem_of_lookup hentry)
  constructor
  · intro k hk hnot
    have hold : k ∉ s.nvmeIndex := fun hmem => hnot (mem_spill_of_mem hmem)
    by_cases hadmitted : s.nvmeBytes + entry.sizeBytes ≤ lim.nvme
    · have hne : k ≠ key := by
        rintro rfl
        rw [(spill_admitted (hwrite k) hadmitted).2] at hnot
        exact hnot (mem_assign.mpr (.inl rfl))
      have hmd5 : md5 k ≠ md5 key := fun heq => hne (hinj hk hkey heq)
      rw [fileBytes_spill (hwrite key) hadmitted, if_neg hmd5]
      exact h.listed k hk hold
    · rw [fileBytes_congr (spill_refused hadmitted).1]
      exact h.listed k hk hold
  · have hdrift := h.drift
    have hold := entrySize_nonneg s.nvmeIndex key
    rcases spill_nvmeDrift lim md5 env s key entry with heq | heq <;> omega
  · intro k hk
    rw [spill_dram] at hk
    exact h.dramKeys k (AList.mem_erase.mp hk).2

variable (hinj : Set.InjOn md5 keys) (hwrite : ∀ k, env.write k = .ok)

include hinj hwrite

theorem NoStrays.spillsFit (h : s.NoStrays md5 keys) (needed : Nat) :
    s.SpillsFit lim md5 keys env needed :=
  everySpill_of_invariant (fun _ _ _ ht _ _ => ht.spillFits)
    (fun _ _ _ ht hentry _ => ht.spill hinj hwrite hentry) _ h

theorem NoStrays.put (hkey : key ∈ keys) (h : s.NoStrays md5 keys) :
    (s.put lim md5 env key data).NoStrays md5 keys := by
  have hroom : (s.evictDramIfNeeded lim md5 env data.length).NoStrays md5 keys :=
    evictLoop_induct (fun _ _ _ ht hentry => ht.spill hinj hwrite hentry) _ h
  constructor
  · exact hroom.listed
  · rw [put_nvmeDrift]
    exact hroom.drift
  · intro k hk
    rcases mem_assign.mp hk with rfl | hk
    · exact hkey
    · exact hroom.dramKeys k hk

omit hinj hwrite

/-- A get that promotes nothing moves no entry. -/
theorem NoStrays.get (h : s.NoStrays md5 keys)
    (hnone : s.dram.lookup key = none → key ∈ s.nvmeIndex →
      s.nvmeRead md5 key env.readable = none) :
    (s.get lim md5 env key).1.NoStrays md5 keys := by
  unfold TierStore.get
  split
  next e hdram =>
    have hkey : key ∈ s.dram := mem_of_lookup hdram
    refine ⟨h.listed, h.drift, fun k hk => ?_⟩
    rcases mem_assign.mp hk with rfl | hk
    · exact h.dramKeys k hkey
    · exact h.dramKeys k hk
  next hdram =>
    split
    · exact ⟨h.listed, h.drift, h.dramKeys⟩
    next e hindex =>
      have hmem : key ∈ s.nvmeIndex := mem_of_lookup hindex
      rw [hnone hdram hmem]
      exact ⟨h.listed, h.drift, h.dramKeys⟩

end NoStrays

end TierStore

namespace CacheSession

open P2PCacheStore TierStore

variable {cfg : P2PConfig} {md5 : String → Nat} {keys : Finset String}
  {s t : CacheSession}

/-- The operation uses one of `keys`, and its file writes succeed. -/
def WritesOk (keys : Finset String) : CacheOp → Prop
  | .put key _ env =>
      key ∈ keys ∧ ∀ owner k, (env.tier owner).write k = .ok
  | .get key env => key ∈ keys ∧ ∀ owner k, (env.tier owner).write k = .ok
  | .evict key => key ∈ keys

/-- Every spill of the operation that the counter admits has room for the victim
beside the entries of the index and the stray files. -/
def StraysFit (cfg : P2PConfig) (md5 : String → Nat) (keys : Finset String)
    (s : CacheSession) : CacheOp → Prop
  | .put key data env =>
      EveryPut cfg md5
        (fun t e => t.SpillsFit cfg.limits md5 keys e data.length) env key data
        (owners cfg md5 key) s.store.localStore
  | .get key env =>
      EveryGet cfg md5 (fun t e => t.PromotionFits cfg.limits md5 keys e key) env
        key (owners cfg md5 key) s.store.localStore
  | .evict _ => True

theorem diskBudget_init (hlimit : 0 ≤ cfg.limits.nvme) :
    (init fun _ => none).store.localStore.DiskBudget cfg.limits md5 keys := by
  constructor
  · intro d hd
    exact absurd rfl hd
  · intro k e he
    cases he
  · intro k hk
    exact absurd hk (AList.notMem_empty k)
  · intro k hk
    exact absurd hk (AList.notMem_empty k)
  · intro k e he
    cases he
  · simpa [fileBytes, init] using hlimit

theorem diskBudget_step (hinj : Set.InjOn md5 keys)
    (h : s.store.localStore.DiskBudget cfg.limits md5 keys) {op : CacheOp}
    (hwrites : WritesOk keys op) (hfits : StraysFit cfg md5 keys s op)
    (hstep : step cfg md5 s op = some t) :
    t.store.localStore.DiskBudget cfg.limits md5 keys := by
  cases op with
  | put key data env =>
      obtain rfl := Option.some.inj hstep
      obtain ⟨hkey, hok⟩ := hwrites
      refine EveryPut.preserves (fun u owner hu hspills => ?_) _ h hfits
      exact hu.put hinj (hok owner) hkey hspills
  | get key env =>
      obtain rfl := Option.some.inj hstep
      obtain ⟨hkey, hok⟩ := hwrites
      refine EveryGet.preserves (fun u owner hu hpromotion => ?_) _ h hfits
      exact hu.get hinj (hok owner) hkey hpromotion
  | evict key =>
      obtain rfl := Option.some.inj hstep
      show (P2PCacheStore.evict cfg md5 s.store key).localStore.DiskBudget _ _ _
      unfold P2PCacheStore.evict
      split
      · exact h.popDram
      · exact h

/-- **The NVMe tier stays within its disk budget** in every run whose admitted
spills have room beside the stray files. -/
theorem disk_in_budget (hinj : Set.InjOn md5 keys) (hlimit : 0 ≤ cfg.limits.nvme)
    (hrun : Runs.Reach (step cfg md5)
      (fun s op => WritesOk keys op ∧ StraysFit cfg md5 keys s op)
      (init fun _ => none) s) :
    s.store.localStore.DiskInBudget cfg.limits := by
  apply DiskBudget.inBudget hinj
  apply hrun.invariant (diskBudget_init hlimit)
  intro s op t h hcond hstep
  exact diskBudget_step hinj h hcond.1 hcond.2 hstep

/-- No get of the operation is served from NVMe. -/
def NoPromotion (cfg : P2PConfig) (md5 : String → Nat) (s : CacheSession) :
    CacheOp → Prop
  | .get key env =>
      EveryGet cfg md5
        (fun t e => t.dram.lookup key = none → key ∈ t.nvmeIndex →
          t.nvmeRead md5 key e.readable = none)
        env key (owners cfg md5 key) s.store.localStore
  | _ => True

theorem noStrays_init :
    (init fun _ => none).store.localStore.NoStrays md5 keys := by
  refine ⟨fun _ _ _ => rfl, le_refl _, fun k hk => ?_⟩
  exact absurd hk (AList.notMem_empty k)

theorem noStrays_step (hinj : Set.InjOn md5 keys)
    (h : s.store.localStore.NoStrays md5 keys) {op : CacheOp}
    (hwrites : WritesOk keys op) (hpromotes : NoPromotion cfg md5 s op)
    (hstep : step cfg md5 s op = some t) :
    t.store.localStore.NoStrays md5 keys := by
  cases op with
  | put key data env =>
      obtain rfl := Option.some.inj hstep
      obtain ⟨hkey, hok⟩ := hwrites
      refine putLoop_preserves (fun u owner hu => ?_) _ h
      exact hu.put hinj (hok owner) hkey
  | get key env =>
      obtain rfl := Option.some.inj hstep
      refine EveryGet.preserves (fun u owner hu hnone => ?_) _ h hpromotes
      exact hu.get hnone
  | evict key =>
      obtain rfl := Option.some.inj hstep
      show (P2PCacheStore.evict cfg md5 s.store key).localStore.NoStrays _ _
      unfold P2PCacheStore.evict
      split
      · exact ⟨h.listed, h.drift,
          fun k hk => h.dramKeys k (AList.mem_erase.mp hk).2⟩
      · exact h

/-- Runs that promote nothing have no stray files, so their spills fit. -/
theorem straysFit_of_noPromotion (hinj : Set.InjOn md5 keys)
    (hrun : Runs.Reach (step cfg md5)
      (fun s op => WritesOk keys op ∧ NoPromotion cfg md5 s op)
      (init fun _ => none) s) :
    Runs.Reach (step cfg md5)
      (fun s op => WritesOk keys op ∧ StraysFit cfg md5 keys s op)
      (init fun _ => none) s := by
  refine hrun.recond fun s op hs hcond => ⟨hcond.1, ?_⟩
  have h : s.store.localStore.NoStrays md5 keys := by
    apply hs.invariant noStrays_init
    intro u op v hu hcond hstep
    exact noStrays_step hinj hu hcond.1 hcond.2 hstep
  cases op with
  | put key data env =>
      obtain ⟨⟨hkey, hok⟩, -⟩ := hcond
      refine everyPut_of_invariant (fun w owner hw => ?_) (fun w owner hw => ?_) _ h
      · exact hw.spillsFit hinj (hok owner) data.length
      · exact hw.put hinj (hok owner) hkey
  | get key env =>
      refine EveryGet.mono (fun w e hnone => ?_) _ hcond.2
      intro hdram hmem data hread
      rw [hnone hdram hmem] at hread
      cases hread
  | evict key => trivial

instance SpillFits.decidable (lim : TierLimits) (md5 : String → Nat)
    (keys : Finset String) (s : TierStore) (key : String) (entry : CacheEntry) :
    Decidable (s.SpillFits lim md5 keys key entry) :=
  inferInstanceAs (Decidable (_ → _))

instance SpillsFit.decidable (lim : TierLimits) (md5 : String → Nat)
    (keys : Finset String) (env : TierEnv) (s : TierStore) (needed : Nat) :
    Decidable (s.SpillsFit lim md5 keys env needed) :=
  EverySpill.decidable _ _ _ _

instance PromotionFits.decidable (lim : TierLimits) (md5 : String → Nat)
    (keys : Finset String) (env : TierEnv) (s : TierStore) (key : String) :
    Decidable (s.PromotionFits lim md5 keys env key) :=
  inferInstanceAs (Decidable (_ → _ → _))

instance StraysFit.decidable (cfg : P2PConfig) (md5 : String → Nat)
    (keys : Finset String) (s : CacheSession) :
    ∀ op, Decidable (StraysFit cfg md5 keys s op)
  | .put _ _ _ => EveryPut.decidable _ _ _
  | .get _ _ => EveryGet.decidable _ _ _
  | .evict _ => isTrue trivial

/-- Three keys with digests of their own. -/
def letters : Finset String := {"a", "b", "c"}

theorem letterDigest_injOn : Set.InjOn letterDigest letters := by
  intro x hx y hy h
  simp only [letters, Finset.coe_insert, Finset.coe_singleton,
    Set.mem_insert_iff, Set.mem_singleton_iff] at hx hy
  rcases hx with rfl | rfl | rfl <;> rcases hy with rfl | rfl | rfl <;>
    simp_all [letterDigest]

/-- A promotion leaves a file behind that its key is spilled to again. -/
theorem disk_in_budget_promoted :
    ∃ s : CacheSession,
      Runs.Reach (step tightConfig letterDigest)
        (fun s op => WritesOk letters op ∧
          StraysFit tightConfig letterDigest letters s op)
        (init fun _ => none) s ∧
      s.store.localStore.fileBytes 1 = 1 ∧
      s.store.localStore.DiskInBudget tightConfig.limits := by
  obtain ⟨s, hrun, hfile⟩ : ∃ s : CacheSession,
      Runs.Reach (step tightConfig letterDigest)
        (fun s op => WritesOk letters op ∧
          StraysFit tightConfig letterDigest letters s op)
        (init fun _ => none) s ∧
      s.store.localStore.fileBytes 1 = 1 := by
    refine Runs.Reach.exists_of_exec [.put "a" [1] {}, .put "b" [2] {},
      .get "a" {}, .put "c" [3] {}] ?_ (by decide +kernel)
    apply Runs.Meets.and
    · apply Runs.Meets.of_mem
      simp [WritesOk, letters]
    · decide +kernel
  exact ⟨s, hrun, hfile, disk_in_budget letterDigest_injOn (by decide) hrun⟩

/-- With room for two entries in DRAM and one on NVMe, a promotion leaves a file
behind, and the next spill is admitted beside it. -/
theorem disk_over_budget :
    Set.InjOn letterDigest letters ∧
    ∃ s : CacheSession,
      Runs.Reach (step { limits := { dram := 2, nvme := 1 } } letterDigest)
        (fun _ op => WritesOk letters op) (init fun _ => none) s ∧
      s.store.localStore.nvmeBytes = 1 ∧
      ¬ s.store.localStore.DiskInBudget { dram := 2, nvme := 1 } := by
  refine ⟨letterDigest_injOn, ?_⟩
  obtain ⟨s, hrun, hcount, hsize⟩ : ∃ s : CacheSession,
      Runs.Reach (step { limits := { dram := 2, nvme := 1 } } letterDigest)
        (fun _ op => WritesOk letters op) (init fun _ => none) s ∧
      s.store.localStore.nvmeBytes = 1 ∧
      s.store.localStore.fileBytes 1 + s.store.localStore.fileBytes 2 = 2 := by
    refine Runs.Reach.exists_of_exec
      [.put "a" [1] {}, .put "c" [3] {}, .put "b" [2] {}, .get "a" {},
        .put "c" [3] {}] ?_ (by decide +kernel)
    apply Runs.Meets.of_mem
    simp [WritesOk, letters]
  refine ⟨s, hrun, hcount, fun hbudget => ?_⟩
  have hfiles := hbudget {1, 2}
  rw [Finset.sum_pair (by decide), hsize] at hfiles
  exact absurd hfiles (by decide)

end CacheSession

end Tempo
