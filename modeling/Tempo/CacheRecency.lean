import Tempo.P2PCache
import Tempo.Recency
import Tempo.Runs

/-!
# What the cache keeps in DRAM

The local store evicts the entry that was used least recently, so what is in DRAM is what
was used last.  A use is a put, or a get that is served; `used` is when the last one of
each key was, unless the key was evicted explicitly after it.  No key outside of DRAM was
used after one that is in it (`dram_most_recent`), whatever the sizes and the limits are,
and whichever files cannot be written or read.
-/

namespace Tempo

open OrderedDict Recency Runs

/-- A call of the local store. -/
inductive TierOp
  | put (key : String) (data : Bytes) (env : TierEnv)
  | get (key : String) (env : TierEnv)
  | evict (key : String)

/-- A local store, when its keys were used last, and the time. -/
structure TierHistory where
  store : TierStore
  used : String → Option ℚ := fun _ => none
  clock : ℚ := 0

namespace TierHistory

variable (lim : TierLimits) (md5 : String → Nat)

/-- An empty store over the files that the directory has. -/
def start (files : Nat → Option Bytes) : TierHistory where
  store := { files }

def step (h : TierHistory) : TierOp → Option TierHistory
  | .put key data env =>
      some
        { store := h.store.put lim md5 env key data
          used := Function.update h.used key (some env.now)
          clock := env.now }
  | .get key env =>
      let found := h.store.get lim md5 env key
      some
        { store := found.1
          used := if found.2.isSome then Function.update h.used key (some env.now) else h.used
          clock := env.now }
  | .evict key =>
      some { h with store := h.store.popDram key, used := Function.update h.used key none }

/-- The clock does not go back. -/
def Timely (h : TierHistory) : TierOp → Prop
  | .put _ _ env => h.clock ≤ env.now
  | .get _ env => h.clock ≤ env.now
  | .evict _ => True

instance (h : TierHistory) : (op : TierOp) → Decidable (Timely h op)
  | .put _ _ env => inferInstanceAs (Decidable (h.clock ≤ env.now))
  | .get _ env => inferInstanceAs (Decidable (h.clock ≤ env.now))
  | .evict _ => isTrue trivial

/-- The last accesses of the keys in DRAM. -/
def accessed (s : TierStore) (key : String) : Option ℚ :=
  (s.dram.lookup key).map CacheEntry.lastAccess

/-- The history of a store whose DRAM holds what was used last. -/
structure Sound (h : TierHistory) : Prop where
  recent : MostRecent (accessed h.store) h.used
  past : ∀ key time, h.used key = some time → time ≤ h.clock

variable {lim md5} {env : TierEnv} {s : TierStore} {used : String → Option ℚ}
  {h t : TierHistory} {op : TierOp} {key : String}

theorem accessed_erase (s : TierStore) (key : String) :
    (fun k => ((s.dram.erase key).lookup k).map CacheEntry.lastAccess) =
      Function.update (accessed s) key none := by
  funext k
  unfold accessed
  by_cases hk : k = key
  · subst hk
    rw [Function.update_self, AList.lookup_erase]
    rfl
  · rw [Function.update_of_ne hk, AList.lookup_erase_ne hk]

theorem accessed_assign (s : TierStore) (key : String) (entry : CacheEntry) :
    (fun k => ((assign s.dram key entry).lookup k).map CacheEntry.lastAccess) =
      Function.update (accessed s) key (some entry.lastAccess) := by
  funext k
  unfold accessed
  rw [lookup_assign]
  by_cases hk : k = key
  · subst hk
    rw [Function.update_self, if_pos rfl]
    rfl
  · rw [Function.update_of_ne hk, if_neg hk]

theorem accessed_spill (s : TierStore) (key : String) (entry : CacheEntry) :
    accessed (s.spill lim md5 env key entry) = Function.update (accessed s) key none := by
  rw [← accessed_erase]
  unfold accessed
  rw [TierStore.spill_dram]

/-- The victim is spilled. -/
theorem mostRecent_spill (hs : MostRecent (accessed s) used) {v : Σ _ : String, CacheEntry}
    (hvictim : s.victim = some v) :
    MostRecent (accessed (s.spill lim md5 env v.1 v.2)) used := by
  rw [accessed_spill]
  have hv : accessed s v.1 = some v.2.lastAccess := by
    unfold accessed
    rw [lookup_of_least hvictim]
    rfl
  refine hs.evict hv fun key time hkey => ?_
  obtain ⟨entry, hentry, rfl⟩ := Option.map_eq_some_iff.mp hkey
  exact least_le hvictim hentry

theorem mostRecent_evictLoop {needed : Nat} (turns : Nat) :
    ∀ {s : TierStore}, MostRecent (accessed s) used →
      MostRecent (accessed (s.evictLoop lim md5 env needed turns)) used := by
  induction turns with
  | zero => exact fun hs => hs
  | succ turns ih =>
      intro s hs
      unfold TierStore.evictLoop
      split
      · cases hvictim : s.victim with
        | none => exact hs
        | some v => exact ih (mostRecent_spill hs hvictim)
      · exact hs

/-- Room is made and an entry is put in. -/
theorem mostRecent_put (hs : MostRecent (accessed s) used)
    (hnow : ∀ key time, used key = some time → time ≤ env.now) (needed : Nat)
    (key : String) (entry : CacheEntry) (hentry : entry.lastAccess = env.now) :
    MostRecent
      (fun k => ((assign (s.evictDramIfNeeded lim md5 env needed).dram key entry).lookup k).map
        CacheEntry.lastAccess)
      (Function.update used key (some env.now)) := by
  rw [accessed_assign, hentry]
  exact (mostRecent_evictLoop _ hs).touch hnow key

theorem Sound.get (hh : Sound h) (hnow : ∀ key time, h.used key = some time → time ≤ env.now)
    (key : String) :
    MostRecent (accessed (h.store.get lim md5 env key).1)
      (if (h.store.get lim md5 env key).2.isSome then
        Function.update h.used key (some env.now) else h.used) := by
  unfold TierStore.get
  cases hdram : h.store.dram.lookup key with
  | some entry =>
      dsimp only [Option.isSome]
      rw [if_pos rfl]
      unfold accessed
      rw [accessed_assign]
      exact hh.recent.touch hnow key
  | none =>
      dsimp only
      cases h.store.nvmeIndex.lookup key with
      | none => exact hh.recent
      | some entry =>
          dsimp only
          cases h.store.nvmeRead md5 key env.readable with
          | none => exact hh.recent
          | some data => exact mostRecent_put hh.recent hnow _ key _ rfl

theorem Sound.step (hh : Sound h) (htimely : Timely h op) (hstep : step lim md5 h op = some t) :
    Sound t := by
  cases op with
  | put key data env =>
      obtain rfl := Option.some.inj hstep
      have hnow : ∀ key time, h.used key = some time → time ≤ env.now :=
        fun key time hused => (hh.past key time hused).trans htimely
      refine ⟨mostRecent_put hh.recent hnow _ key _ rfl, fun k time hused => ?_⟩
      by_cases hk : k = key
      · subst hk
        dsimp only at hused
        rw [Function.update_self] at hused
        exact (Option.some.inj hused).ge
      · dsimp only at hused
        rw [Function.update_of_ne hk] at hused
        exact hnow k time hused
  | get key env =>
      obtain rfl := Option.some.inj hstep
      have hnow : ∀ key time, h.used key = some time → time ≤ env.now :=
        fun key time hused => (hh.past key time hused).trans htimely
      refine ⟨hh.get hnow key, fun k time hused => ?_⟩
      dsimp only at hused
      split at hused
      · by_cases hk : k = key
        · subst hk
          rw [Function.update_self] at hused
          exact (Option.some.inj hused).ge
        · rw [Function.update_of_ne hk] at hused
          exact hnow k time hused
      · exact hnow k time hused
  | evict key =>
      obtain rfl := Option.some.inj hstep
      refine ⟨?_, fun k time hused => ?_⟩
      · have hdrop := hh.recent.drop key
        rw [← accessed_erase] at hdrop
        exact hdrop
      · by_cases hk : k = key
        · subst hk
          dsimp only at hused
          rw [Function.update_self] at hused
          cases hused
        · dsimp only at hused
          rw [Function.update_of_ne hk] at hused
          exact hh.past k time hused

/-- **DRAM holds what was used last.**  In every run in which the clock does not go back,
an entry in DRAM was used last when it says, and no key outside of DRAM was used after
it. -/
theorem dram_most_recent {files : Nat → Option Bytes}
    (hreach : Reach (step lim md5) Timely (start files) h) {entry : CacheEntry}
    (hentry : h.store.dram.lookup key = some entry) :
    h.used key = some entry.lastAccess ∧
      ∀ other time, other ∉ h.store.dram → h.used other = some time →
        time ≤ entry.lastAccess := by
  have hsound : Sound h :=
    hreach.invariant
      { recent := MostRecent.empty, past := fun _ _ hused => by cases hused }
      fun _ _ _ hh htimely hstep => hh.step htimely hstep
  have hheld : accessed h.store key = some entry.lastAccess := by
    unfold accessed
    rw [hentry]
    rfl
  refine ⟨hsound.recent.stamped hheld, fun other time hother hused => ?_⟩
  have hout : accessed h.store other = none := by
    unfold accessed
    rw [AList.lookup_eq_none.mpr hother]
    rfl
  exact hsound.recent.recent hheld hout hused

/-- Room for two entries: the third takes the place of the one that was not read. -/
theorem dram_most_recent_three :
    ∃ h : TierHistory, ∃ entry, h.store.dram.lookup "a" = some entry ∧
      "b" ∉ h.store.dram ∧ h.used "b" = some 2 ∧
      ∀ other time, other ∉ h.store.dram → h.used other = some time →
        time ≤ entry.lastAccess := by
  obtain ⟨h, hreach, ⟨hsome, hb, hused⟩⟩ : ∃ h, Reach (step { dram := 2, nvme := 2 } fun _ => 0)
      Timely (start fun _ => none) h ∧ ((h.store.dram.lookup "a").isSome = true ∧
        "b" ∉ h.store.dram ∧ h.used "b" = some 2) :=
    Reach.exists_of_exec [.put "a" [0] { now := 1 }, .put "b" [1] { now := 2 },
      .get "a" { now := 3 }, .put "c" [2] { now := 4 }] (by decide +kernel) (by decide +kernel)
  obtain ⟨entry, hentry⟩ := Option.isSome_iff_exists.mp hsome
  exact ⟨h, entry, hentry, hb, hused, (dram_most_recent hreach hentry).2⟩

end TierHistory

end Tempo
