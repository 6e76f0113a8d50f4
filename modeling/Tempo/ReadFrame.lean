import Tempo.DiskBudget

/-!
# What a read leaves of the other entries

A get that is served from NVMe makes room in DRAM before the index gives up the
entry it promotes.  A victim that the NVMe counter does not admit then is
dropped: its data is nowhere.  So the get keeps every other entry retrievable
when each of its victims is admitted, and only then if no key is in both tiers
(`get_keeps_others`).  Each is when the two tiers together have room for the
promoted data and the largest entry of DRAM once more, less one byte.
-/

namespace Tempo

open OrderedDict

namespace TierStore

variable {lim : TierLimits} {md5 : String → Nat} {env : TierEnv}
  {s : TierStore} {key k : String} {entry : CacheEntry}

/-- The data that a get of the key would return. -/
def retrieve (md5 : String → Nat) (s : TierStore) (key : String) :
    Option Bytes :=
  match s.dram.lookup key with
  | some e => some e.data
  | none => s.nvmeView md5 key

/-- The counter admits the entry on NVMe. -/
def Admitted (lim : TierLimits) (s : TierStore) (_ : String)
    (entry : CacheEntry) : Prop :=
  s.nvmeBytes + entry.sizeBytes ≤ lim.nvme

/-- Every victim of a get is admitted. -/
def Admits (lim : TierLimits) (md5 : String → Nat) (env : TierEnv)
    (s : TierStore) (key : String) : Prop :=
  s.dram.lookup key = none → key ∈ s.nvmeIndex →
    ∀ data ∈ s.nvmeRead md5 key env.readable,
      EverySpill lim md5 env (Admitted lim) data.length s.dram.entries.length s

/-- After the get, whatever else was retrievable still is. -/
def KeepsOthers (lim : TierLimits) (md5 : String → Nat) (env : TierEnv)
    (s : TierStore) (key : String) : Prop :=
  ∀ k, k ≠ key → ∀ d ∈ s.retrieve md5 k,
    (s.get lim md5 env key).1.retrieve md5 k = some d

/-- The get changes what is retrieved for a key that was retrievable. -/
def Changes (lim : TierLimits) (md5 : String → Nat) (env : TierEnv)
    (s : TierStore) (key k : String) : Prop :=
  (s.retrieve md5 k).isSome ∧
    (s.get lim md5 env key).1.retrieve md5 k ≠ s.retrieve md5 k

instance Changes.decidable (lim : TierLimits) (md5 : String → Nat)
    (env : TierEnv) (s : TierStore) (key k : String) :
    Decidable (s.Changes lim md5 env key k) :=
  inferInstanceAs (Decidable (_ ∧ _))

theorem Changes.not_keepsOthers (h : s.Changes lim md5 env key k) (hne : k ≠ key) :
    ¬ s.KeepsOthers lim md5 env key := by
  intro hkeeps
  obtain ⟨d, hd⟩ := Option.isSome_iff_exists.mp h.1
  exact h.2 ((hkeeps k hne d hd).trans hd.symm)

/-- `retrieve` is what a get returns, if the file can be read. -/
theorem get_eq_retrieve (h : env.readable = true) :
    (s.get lim md5 env key).2 = s.retrieve md5 key := by
  unfold get retrieve
  cases hdram : s.dram.lookup key with
  | some e => rfl
  | none =>
      unfold nvmeView nvmeRead
      rw [if_pos h]
      cases hindex : s.nvmeIndex.lookup key with
      | none =>
          rw [if_neg (AList.lookup_eq_none.mp hindex)]
      | some e =>
          have hmem : key ∈ s.nvmeIndex := mem_of_lookup hindex
          rw [if_pos hmem]
          dsimp only
          split
          next hnone => exact hnone.symm
          next data hsome => exact hsome.symm

theorem retrieve_of_not_holds (h : ¬ s.Holds k) : s.retrieve md5 k = none := by
  unfold Holds at h
  rw [not_or] at h
  unfold retrieve nvmeView
  rw [AList.lookup_eq_none.mpr h.1, if_neg h.2]

section Spill

/-- An admitted victim is retrieved from its file. -/
theorem retrieve_spill (hentry : s.dram.lookup key = some entry)
    (hinj : Set.InjOn md5 {k | s.Holds k}) (hwrite : env.write key = .ok)
    (hadmitted : s.Admitted lim key entry) (k : String) :
    (s.spill lim md5 env key entry).retrieve md5 k = s.retrieve md5 k := by
  have hkey : key ∈ s.dram := mem_of_lookup hentry
  unfold retrieve
  rw [spill_dram]
  by_cases heq : k = key
  · subst heq
    rw [AList.lookup_erase, hentry]
    dsimp only
    unfold nvmeView
    rw [(spill_admitted hwrite hadmitted).1, (spill_admitted hwrite hadmitted).2,
      if_pos (mem_assign.mpr (.inl rfl)), Function.update_self]
  · rw [AList.lookup_erase_ne heq]
    have hfile : k ∈ s.nvmeIndex → md5 k ≠ md5 key := fun hmem hmd5 =>
      heq (hinj (.inr hmem) (.inl hkey) hmd5)
    rw [nvmeView_spill_ne heq hfile]

/-- A victim that is not admitted is nowhere, if NVMe had no entry of it. -/
theorem not_holds_spill (hfull : ¬ s.Admitted lim key entry)
    (hnot : key ∉ s.nvmeIndex) :
    ¬ (s.spill lim md5 env key entry).Holds key := by
  rintro (hdram | hindex)
  · rw [spill_dram] at hdram
    exact (AList.mem_erase.mp hdram).1 rfl
  · rw [(spill_refused hfull).2] at hindex
    exact hnot hindex

end Spill

section Room

variable {needed : Nat}

/-- With every victim admitted, making room moves data and loses none. -/
theorem retrieve_room (hinj : Set.InjOn md5 {k | s.Holds k})
    (hwrite : ∀ k, env.write k = .ok)
    (hadmits : EverySpill lim md5 env (Admitted lim) needed
      s.dram.entries.length s) (k : String) :
    (s.evictDramIfNeeded lim md5 env needed).retrieve md5 k =
      s.retrieve md5 k := by
  have hloop := EverySpill.preserves
    (P := fun t => (∀ k, t.retrieve md5 k = s.retrieve md5 k) ∧
      ∀ k, t.Holds k → s.Holds k)
    (fun t key entry ht hentry hadmitted => by
      constructor
      · intro j
        have hinj' : Set.InjOn md5 {k | t.Holds k} := hinj.mono ht.2
        rw [retrieve_spill hentry hinj' (hwrite key) hadmitted, ht.1]
      · intro j hj
        exact ht.2 j (holds_spill hentry hj))
    _ ⟨fun _ => rfl, fun _ h => h⟩ hadmits
  exact hloop.1 k

/-- A victim leaves DRAM, so no key gets into both tiers. -/
theorem apart_spill (hapart : ∀ k ∈ s.dram, k ∉ s.nvmeIndex) :
    ∀ k ∈ (s.spill lim md5 env key entry).dram,
      k ∉ (s.spill lim md5 env key entry).nvmeIndex := by
  intro k hk hindex
  rw [spill_dram] at hk
  obtain ⟨hne, hk⟩ := AList.mem_erase.mp hk
  rcases mem_spill_nvmeIndex hindex with heq | hold
  · exact hne heq
  · exact hapart k hk hold

/-- Otherwise the first victim that is not admitted is lost. -/
theorem exists_dropped (turns : Nat) :
    ∀ {s : TierStore}, (∀ k ∈ s.dram, k ∉ s.nvmeIndex) →
      ¬ EverySpill lim md5 env (Admitted lim) needed turns s →
      ∃ k e, s.dram.lookup k = some e ∧
        ¬ (s.evictLoop lim md5 env needed turns).Holds k := by
  induction turns with
  | zero => exact fun _ hnot => absurd trivial hnot
  | succ turns ih =>
      intro s hapart hnot
      unfold EverySpill at hnot
      rw [Classical.not_imp] at hnot
      obtain ⟨hover, hnot⟩ := hnot
      unfold evictLoop
      rw [if_pos hover]
      cases hvictim : s.victim with
      | none =>
          rw [hvictim] at hnot
          exact absurd trivial hnot
      | some v =>
          rw [hvictim] at hnot
          have hentry := lookup_of_least hvictim
          have hmem : v.1 ∈ s.dram := mem_of_lookup hentry
          by_cases hadmitted : s.Admitted lim v.1 v.2
          · -- a later victim is lost
            obtain ⟨k, e, he, hlost⟩ :=
              ih (apart_spill hapart) fun hrest => hnot ⟨hadmitted, hrest⟩
            refine ⟨k, e, ?_, hlost⟩
            rw [spill_dram] at he
            exact (lookup_of_lookup_erase he).2
          · refine ⟨v.1, v.2, hentry, fun hholds => ?_⟩
            exact not_holds_spill hadmitted (hapart v.1 hmem)
              (holds_evictLoop turns hholds)

/-- While a victim is looked for, DRAM is over its limit; what both tiers have
to spare then admits any entry of DRAM. -/
theorem everySpill_admitted {largest : Nat} (turns : Nat)
    (hlargest : ∀ k, ∀ e ∈ s.dram.lookup k, e.sizeBytes ≤ largest)
    (hroom : s.dramBytes + s.nvmeBytes + needed + largest ≤
      lim.dram + lim.nvme + 1) :
    EverySpill lim md5 env (Admitted lim) needed turns s := by
  refine everySpill_of_invariant
    (P := fun t => (∀ k, ∀ e ∈ t.dram.lookup k, e.sizeBytes ≤ largest) ∧
      t.dramBytes + t.nvmeBytes + needed + largest ≤ lim.dram + lim.nvme + 1)
    ?_ ?_ turns ⟨hlargest, hroom⟩
  · rintro t key entry ⟨hsizes, hspare⟩ hentry hover
    have hsize := hsizes key entry hentry
    unfold Admitted
    omega
  · rintro t key entry ⟨hsizes, hspare⟩ hentry hadmitted
    have hbytes : (t.spill lim md5 env key entry).dramBytes +
        (t.spill lim md5 env key entry).nvmeBytes = t.dramBytes + t.nvmeBytes := by
      unfold Admitted at hadmitted
      unfold spill
      dsimp only
      rw [if_pos hadmitted]
      dsimp only [nvmeWrite]
      omega
    constructor
    · intro k e he
      rw [spill_dram] at he
      exact hsizes k e (lookup_of_lookup_erase he).2
    · rw [hbytes]
      exact hspare

end Room

section Get

/-- What a key is retrieved from. -/
theorem retrieve_congr {t : TierStore}
    (hdram : t.dram.lookup k = s.dram.lookup k)
    (hindex : k ∈ t.nvmeIndex ↔ k ∈ s.nvmeIndex) (hfiles : t.files = s.files) :
    t.retrieve md5 k = s.retrieve md5 k := by
  unfold retrieve nvmeView
  rw [hdram, hfiles]
  simp only [hindex]

theorem retrieve_get (hinj : Set.InjOn md5 {k | s.Holds k})
    (hwrite : ∀ k, env.write k = .ok) (hadmits : s.Admits lim md5 env key)
    (hne : k ≠ key) :
    (s.get lim md5 env key).1.retrieve md5 k = s.retrieve md5 k := by
  unfold get
  split
  next e hdram =>
    apply retrieve_congr
    · exact (lookup_assign _ _ _ _).trans (if_neg hne)
    · exact Iff.rfl
    · rfl
  next hdram =>
    split
    · exact retrieve_congr rfl Iff.rfl rfl
    next e hindex =>
      have hmem : key ∈ s.nvmeIndex := mem_of_lookup hindex
      split
      · exact retrieve_congr rfl Iff.rfl rfl
      next data hread =>
        rw [← retrieve_room hinj hwrite (hadmits hdram hmem data hread) k]
        apply retrieve_congr
        · exact (lookup_assign _ _ _ _).trans (if_neg hne)
        · exact AList.mem_erase.trans (and_iff_right hne)
        · rfl

/-- What is held nowhere once room is made stays so. -/
theorem not_holds_promote {data : Bytes} (hne : k ≠ key)
    (h : ¬ (s.evictDramIfNeeded lim md5 env data.length).Holds k) :
    ¬ (s.promote lim md5 env key entry data).Holds k := by
  rintro (hdram | hindex)
  · exact h (.inl ((mem_assign.mp hdram).resolve_left hne))
  · exact h (.inr (AList.mem_erase.mp hindex).2)

theorem admits_of_keepsOthers (hapart : ∀ k ∈ s.dram, k ∉ s.nvmeIndex)
    (hkeeps : s.KeepsOthers lim md5 env key) : s.Admits lim md5 env key := by
  intro hdram hmem data hread
  by_contra hnot
  obtain ⟨k, e, he, hlost⟩ := exists_dropped _ hapart hnot
  have hne : k ≠ key := by
    rintro rfl
    rw [hdram] at he
    cases he
  have hbefore : s.retrieve md5 k = some e.data := by
    unfold retrieve
    rw [he]
  have hafter := hkeeps k hne e.data hbefore
  obtain ⟨entry, hentry⟩ := exists_lookup hmem
  have hget : (s.get lim md5 env key).1 = s.promote lim md5 env key entry data := by
    unfold get
    rw [hdram, hentry]
    dsimp only
    rw [Option.mem_def.mp hread]
  rw [hget, retrieve_of_not_holds (not_holds_promote hne hlost)] at hafter
  cases hafter

/-- **Reading keeps the other entries** when, and with no key in both tiers only
when, the counter admits each victim; and it does when both tiers have room for
the data read and the largest entry of DRAM once more, less one byte. -/
theorem get_keeps_others (hinj : Set.InjOn md5 {k | s.Holds k})
    (hwrite : ∀ k, env.write k = .ok) :
    (s.Admits lim md5 env key → s.KeepsOthers lim md5 env key) ∧
      ((∀ k ∈ s.dram, k ∉ s.nvmeIndex) →
        s.KeepsOthers lim md5 env key → s.Admits lim md5 env key) ∧
      ∀ largest : Nat, (∀ k, ∀ e ∈ s.dram.lookup k, e.sizeBytes ≤ largest) →
        (∀ data ∈ s.retrieve md5 key,
          s.dramBytes + s.nvmeBytes + data.length + largest ≤
            lim.dram + lim.nvme + 1) →
        s.KeepsOthers lim md5 env key := by
  have hkeeps : s.Admits lim md5 env key → s.KeepsOthers lim md5 env key := by
    intro hadmits k hne d hd
    rw [retrieve_get hinj hwrite hadmits hne]
    exact hd
  refine ⟨hkeeps, fun hapart => admits_of_keepsOthers hapart, ?_⟩
  intro largest hlargest hroom
  apply hkeeps
  intro hdram hmem data hread
  apply everySpill_admitted _ hlargest
  apply hroom
  unfold retrieve
  rw [hdram]
  obtain ⟨e, he⟩ := exists_lookup hmem
  exact nvmeView_of_read he hread

end Get

end TierStore

namespace CacheSession

open P2PCacheStore TierStore

/-- With a byte in each tier and room for another on NVMe, both stay
retrievable. -/
theorem get_keeps_others_roomy :
    ∃ s : CacheSession,
      Runs.Reachable (step tightConfig letterDigest) (init fun _ => none) s ∧
      s.store.localStore.retrieve letterDigest "a" = some [1] ∧
      "b" ∈ s.store.localStore.nvmeIndex ∧
      s.store.localStore.KeepsOthers tightConfig.limits letterDigest {} "b" := by
  obtain ⟨s, hrun, hbefore, hindex, hdramKeys, hindexKeys, hsizes, hroom⟩ :
      ∃ s : CacheSession,
        Runs.Reachable (step tightConfig letterDigest) (init fun _ => none) s ∧
        s.store.localStore.retrieve letterDigest "a" = some [1] ∧
        "b" ∈ s.store.localStore.nvmeIndex ∧
        (∀ k ∈ s.store.localStore.dram.keys, k ∈ letters) ∧
        (∀ k ∈ s.store.localStore.nvmeIndex.keys, k ∈ letters) ∧
        (∀ e ∈ s.store.localStore.dram.entries, e.2.sizeBytes ≤ 1) ∧
        ∀ data ∈ s.store.localStore.retrieve letterDigest "b",
          s.store.localStore.dramBytes + s.store.localStore.nvmeBytes +
              data.length + (1 : Nat) ≤
            tightConfig.limits.dram + tightConfig.limits.nvme + 1 :=
    Runs.Reachable.exists_of_exec [.put "b" [2] {}, .put "a" [1] {}]
      (by decide +kernel)
  have hinj : Set.InjOn letterDigest {k | s.store.localStore.Holds k} := by
    apply letterDigest_injOn.mono
    rintro k (hk | hk)
    · exact hdramKeys k (AList.mem_keys.mp hk)
    · exact hindexKeys k (AList.mem_keys.mp hk)
  refine ⟨s, hrun, hbefore, hindex, ?_⟩
  refine (get_keeps_others hinj fun _ => rfl).2.2 1 (fun k e he => ?_) hroom
  exact hsizes ⟨k, e⟩ (AList.mem_lookup_iff.mp he)

/-- A get drops the only entry of DRAM while the byte it promotes still counts
on NVMe; loses it where the write of its file fails; and damages a third entry
whose digest is that of the victim. -/
theorem get_loses_others :
    (∃ s : CacheSession,
      Runs.Reachable (step { limits := { dram := 1, nvme := 1 } } letterDigest)
        (init fun _ => none) s ∧
      tierSize s.store.localStore.dram + tierSize s.store.localStore.nvmeIndex ≤
        1 + 1 ∧
      (∀ e ∈ s.store.localStore.dram.entries, e.2.sizeBytes ≤ 1) ∧
      (∀ e ∈ s.store.localStore.nvmeIndex.entries, e.2.sizeBytes ≤ 1) ∧
      ¬ s.store.localStore.KeepsOthers { dram := 1, nvme := 1 } letterDigest {}
        "b") ∧
    (∃ s : CacheSession,
      Runs.Reachable (step tightConfig letterDigest) (init fun _ => none) s ∧
      ¬ s.store.localStore.KeepsOthers tightConfig.limits letterDigest
        { write := fun _ => .openFails } "b") ∧
    ∃ s : CacheSession,
      Runs.Reachable (step { limits := { dram := 1, nvme := 4 } } fun _ => 0)
        (init fun _ => none) s ∧
      ¬ s.store.localStore.KeepsOthers { dram := 1, nvme := 4 } (fun _ => 0) {}
        "b" := by
  refine ⟨?_, ?_, ?_⟩
  · obtain ⟨s, hrun, hfill, hdram, hindex, hchanged⟩ : ∃ s : CacheSession,
        Runs.Reachable (step { limits := { dram := 1, nvme := 1 } } letterDigest)
          (init fun _ => none) s ∧
        tierSize s.store.localStore.dram +
            tierSize s.store.localStore.nvmeIndex ≤ 1 + 1 ∧
        (∀ e ∈ s.store.localStore.dram.entries, e.2.sizeBytes ≤ 1) ∧
        (∀ e ∈ s.store.localStore.nvmeIndex.entries, e.2.sizeBytes ≤ 1) ∧
        s.store.localStore.Changes { dram := 1, nvme := 1 } letterDigest {} "b"
          "a" :=
      Runs.Reachable.exists_of_exec [.put "b" [2] {}, .put "a" [1] {}]
        (by decide +kernel)
    exact ⟨s, hrun, hfill, hdram, hindex, hchanged.not_keepsOthers (by decide)⟩
  · obtain ⟨s, hrun, hchanged⟩ : ∃ s : CacheSession,
        Runs.Reachable (step tightConfig letterDigest) (init fun _ => none) s ∧
        s.store.localStore.Changes tightConfig.limits letterDigest
          { write := fun _ => .openFails } "b" "a" :=
      Runs.Reachable.exists_of_exec [.put "b" [2] {}, .put "a" [1] {}]
        (by decide +kernel)
    exact ⟨s, hrun, hchanged.not_keepsOthers (by decide)⟩
  · obtain ⟨s, hrun, hchanged⟩ : ∃ s : CacheSession,
        Runs.Reachable (step { limits := { dram := 1, nvme := 4 } } fun _ => 0)
          (init fun _ => none) s ∧
        s.store.localStore.Changes { dram := 1, nvme := 4 } (fun _ => 0) {} "b"
          "c" :=
      Runs.Reachable.exists_of_exec
        [.put "c" [3] {}, .put "b" [2] {}, .put "a" [1] {}] (by decide +kernel)
    exact ⟨s, hrun, hchanged.not_keepsOthers (by decide)⟩

end CacheSession

end Tempo
