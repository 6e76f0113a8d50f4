import Tempo.TierBytes

/-!
# The DRAM budget of the cache store

The eviction loop makes room by the DRAM counter, which other operations let run
ahead of the entries but never fall behind them (`0 ≤ dramDrift`).  So when the
loop stops because the new entry fits, it also fits beside what is really there;
otherwise DRAM is empty and the new entry is alone in it.  Hits move no bytes
and an explicit eviction only takes some away.
-/

namespace Tempo

open OrderedDict

namespace TierStore

variable {lim : TierLimits} {md5 : String → Nat} {env : TierEnv}
  {s : TierStore} {key : String} {entry : CacheEntry} {data : Bytes}

/-- The bytes of data resident in DRAM. -/
def residentBytes (s : TierStore) : Int :=
  total (fun e : CacheEntry => (e.data.length : Int)) s.dram

/-- Within the budget, or one entry alone. -/
def DramInBudget (lim : TierLimits) (s : TierStore) : Prop :=
  s.residentBytes ≤ lim.dram ∨ s.dram.entries.length = 1

/-- Every entry in DRAM is recorded with the size of its data. -/
def Sized (s : TierStore) : Prop :=
  ∀ k, ∀ e ∈ s.dram.lookup k, e.sizeBytes = e.data.length

/-- The budget by recorded sizes, with what keeps it. -/
structure DramBudget (lim : TierLimits) (s : TierStore) : Prop where
  drift : 0 ≤ s.dramDrift
  sized : s.Sized
  budget : tierSize s.dram ≤ lim.dram ∨ s.dram.entries.length = 1

section Sizes

theorem Sized.residentBytes (h : s.Sized) :
    s.residentBytes = tierSize s.dram := by
  unfold TierStore.residentBytes tierSize total
  congr 1
  apply List.map_congr_left
  intro e he
  dsimp only
  rw [h e.1 e.2 (AList.mem_lookup_iff.mpr he)]

theorem DramBudget.inBudget (h : s.DramBudget lim) : s.DramInBudget lim := by
  unfold DramInBudget
  rw [h.sized.residentBytes]
  exact h.budget

theorem tierSize_of_empty {tier : Dict String CacheEntry}
    (h : tier.entries = []) : tierSize tier = 0 := by
  unfold tierSize total
  rw [h]
  rfl

theorem Sized.erase {t : TierStore} (h : s.Sized) (hdram : t.dram = s.dram.erase key) :
    t.Sized := by
  intro k e he
  rw [hdram] at he
  exact h k e (lookup_of_lookup_erase he).2

theorem Sized.assign {t : TierStore} (h : s.Sized)
    (hentry : entry.sizeBytes = entry.data.length)
    (hdram : t.dram = OrderedDict.assign s.dram key entry) : t.Sized := by
  intro k e he
  rw [hdram, lookup_assign] at he
  split at he
  · obtain rfl := Option.some.inj he
    exact hentry
  · exact h k e he

end Sizes

section Room

variable {needed : Nat}

/-- The drift stays, and entries are only taken away. -/
theorem room_dramBudget (lim : TierLimits) (md5 : String → Nat) (env : TierEnv)
    (needed : Nat) (h : s.Sized) :
    (s.evictDramIfNeeded lim md5 env needed).Sized ∧
      (s.evictDramIfNeeded lim md5 env needed).dramDrift = s.dramDrift := by
  refine evictLoop_induct (P := fun t => t.Sized ∧ t.dramDrift = s.dramDrift)
    ?_ _ ⟨h, rfl⟩
  rintro t key entry ⟨hsized, hdrift⟩ hentry
  constructor
  · exact hsized.erase spill_dram
  · rw [spill_dramDrift hentry, hdrift]

/-- With a turn for each entry in DRAM, another one changes nothing. -/
theorem evictLoop_succ (turns : Nat) :
    ∀ {s : TierStore}, s.dram.entries.length ≤ turns →
      s.evictLoop lim md5 env needed (turns + 1) =
        s.evictLoop lim md5 env needed turns := by
  induction turns with
  | zero =>
      intro s hturns
      have hempty : s.dram.entries = [] :=
        List.length_eq_zero_iff.mp (Nat.le_zero.mp hturns)
      have hvictim : s.victim = none := least_eq_none.mpr hempty
      unfold evictLoop
      rw [hvictim]
      simp
  | succ turns ih =>
      intro s hturns
      rw [evictLoop, evictLoop]
      cases hvictim : s.victim with
      | none => rfl
      | some v =>
          have hshorter : (s.spill lim md5 env v.1 v.2).dram.entries.length <
              s.dram.entries.length := length_spill_victim hvictim
          dsimp only
          rw [ih]
          omega

/-- More turns than there are entries in DRAM change nothing: the source's loop
stops by its own guard. -/
theorem evictLoop_eq_of_le (turns : Nat) (hturns : s.dram.entries.length ≤ turns) :
    s.evictLoop lim md5 env needed turns =
      s.evictDramIfNeeded lim md5 env needed := by
  unfold evictDramIfNeeded
  induction turns, hturns using Nat.le_induction with
  | base => rfl
  | succ turns hturns ih => rw [evictLoop_succ turns hturns, ih]

end Room

section Operations

/-- An entry put in the room made for it. -/
theorem DramBudget.assign {t : TierStore} (h : s.DramBudget lim)
    (hentry : entry.sizeBytes = entry.data.length)
    (hdram : t.dram =
      OrderedDict.assign (s.evictDramIfNeeded lim md5 env entry.sizeBytes).dram
        key entry)
    (hbytes : t.dramBytes =
      (s.evictDramIfNeeded lim md5 env entry.sizeBytes).dramBytes +
        entry.sizeBytes) : t.DramBudget lim := by
  obtain ⟨hsized, hdrift⟩ :=
    room_dramBudget lim md5 env entry.sizeBytes h.sized
  have hnonneg := h.drift
  have hroom :
      (s.evictDramIfNeeded lim md5 env entry.sizeBytes).dramBytes +
          entry.sizeBytes ≤ lim.dram ∨
        (s.evictDramIfNeeded lim md5 env entry.sizeBytes).dram.entries = [] :=
    evictDramIfNeeded_room entry.sizeBytes
  generalize s.evictDramIfNeeded lim md5 env entry.sizeBytes = room at *
  have hsize : tierSize t.dram =
      tierSize room.dram - entrySize room.dram key + entry.sizeBytes := by
    rw [hdram, tierSize_assign]
  have hold := entrySize_nonneg room.dram key
  unfold dramDrift at hdrift hnonneg
  constructor
  · unfold dramDrift
    omega
  · exact hsized.assign hentry hdram
  · rcases hroom with hfits | hempty
    · left
      omega
    · right
      rw [hdram]
      exact length_assign_of_empty hempty

theorem DramBudget.put (h : s.DramBudget lim) :
    (s.put lim md5 env key data).DramBudget lim := by
  let e : CacheEntry :=
    { key, data, sizeBytes := data.length, tier := .dram, lastAccess := env.now }
  have hentry : e.sizeBytes = e.data.length := rfl
  exact h.assign hentry rfl rfl

theorem DramBudget.promote (h : s.DramBudget lim) :
    (s.promote lim md5 env key entry data).DramBudget lim := by
  let e : CacheEntry :=
    { key, data, sizeBytes := data.length, tier := .dram, lastAccess := env.now,
      hitCount := entry.hitCount + 1 }
  have hentry : e.sizeBytes = e.data.length := rfl
  exact h.assign hentry rfl rfl

/-- A hit in DRAM rewrites the entry with the size it had; one in NVMe puts an
entry. -/
theorem DramBudget.get (h : s.DramBudget lim) :
    (s.get lim md5 env key).1.DramBudget lim := by
  unfold TierStore.get
  split
  next e hdram =>
    have hsize : entrySize s.dram key = e.sizeBytes := share_of_lookup hdram
    have hkey : key ∈ s.dram := mem_of_lookup hdram
    let touched : CacheEntry :=
      { e with lastAccess := env.now, hitCount := e.hitCount + 1 }
    have htouched : touched.sizeBytes = touched.data.length :=
      h.sized key e hdram
    have hsame : tierSize (OrderedDict.assign s.dram key touched) =
        tierSize s.dram := by
      rw [tierSize_assign, hsize]
      dsimp only [touched]
      omega
    constructor
    · have hdrift := h.drift
      unfold dramDrift at hdrift ⊢
      dsimp only
      rwa [hsame]
    · exact h.sized.assign htouched rfl
    · dsimp only
      rw [hsame, length_assign_of_mem hkey]
      exact h.budget
  · split
    · exact ⟨h.drift, h.sized, h.budget⟩
    next e hindex =>
      split
      · exact ⟨h.drift, h.sized, h.budget⟩
      · exact h.promote

theorem DramBudget.popDram (hlimit : 0 ≤ lim.dram) (h : s.DramBudget lim) :
    (s.popDram key).DramBudget lim := by
  have hdrift := h.drift
  have hold := entrySize_nonneg s.dram key
  constructor
  · rw [popDram_dramDrift]
    omega
  · exact h.sized.erase rfl
  · unfold TierStore.popDram
    dsimp only
    rcases h.budget with hwithin | hone
    · left
      rw [tierSize_erase]
      omega
    · rcases length_erase_of_one hone key with hempty | hsame
      · left
        rwa [tierSize_of_empty hempty]
      · exact .inr hsame

end Operations

end TierStore

namespace CacheSession

open P2PCacheStore TierStore

variable {cfg : P2PConfig} {md5 : String → Nat} {s : CacheSession}

/-- **The DRAM tier stays in budget** in every state of every run: the data in
it fits the limit, or it holds exactly one entry.  And every call of the
eviction loop ends, by its guard, after at most a turn for each entry. -/
theorem dram_in_budget {found : Nat → Option Bytes} (hlimit : 0 ≤ cfg.limits.dram)
    (hrun : Runs.Reachable (step cfg md5) (init found) s) :
    s.store.localStore.DramInBudget cfg.limits ∧
      ∀ (t : TierStore) (env : TierEnv) (needed turns : Nat),
        t.dram.entries.length ≤ turns →
          t.evictLoop cfg.limits md5 env needed turns =
              t.evictDramIfNeeded cfg.limits md5 env needed ∧
            ((t.evictLoop cfg.limits md5 env needed turns).dramBytes + needed ≤
                cfg.limits.dram ∨
              (t.evictLoop cfg.limits md5 env needed turns).dram.entries = []) := by
  constructor
  · apply DramBudget.inBudget
    refine localStore_invariant ⟨le_refl _, ?_, .inl hlimit⟩ ?_ ?_ ?_ hrun
    · intro k e he
      cases he
    · exact fun _ _ _ _ h => h.put
    · exact fun _ _ _ h => h.get
    · exact fun _ _ h => h.popDram hlimit
  · intro t env needed turns hturns
    exact ⟨evictLoop_eq_of_le turns hturns, evictLoop_room turns hturns⟩

/-- An entry larger than the limit drives out the rest and stays alone. -/
theorem dram_in_budget_oversized :
    ∃ s : CacheSession,
      Runs.Reachable (step tightConfig letterDigest) (init fun _ => none) s ∧
      s.store.localStore.residentBytes = 3 ∧
      s.store.localStore.DramInBudget tightConfig.limits := by
  obtain ⟨s, hrun, hsize⟩ : ∃ s : CacheSession,
      Runs.Reachable (step tightConfig letterDigest) (init fun _ => none) s ∧
      s.store.localStore.residentBytes = 3 :=
    Runs.Reachable.exists_of_exec [.put "a" [1] {}, .put "b" [2, 3, 4] {}]
      (by decide +kernel)
  exact ⟨s, hrun, hsize, (dram_in_budget (by decide) hrun).1⟩

end CacheSession

end Tempo
