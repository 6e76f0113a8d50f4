import Tempo.Runs
import Tempo.Scheduler

/-!
# Checkpoint calls over runs

Each layer of the checkpoint call ends in one of three ways: it raises, it
defers the call and returns, or it reaches the save.  The specification of a
layer (`Ended`) says which, from the state before it and its inputs.  V4
registers its token after any return of V3, so that a deferred step is
registered as if it had been saved.
-/

namespace Tempo

open OrderedDict

namespace ServiceGain

variable {exp : ℚ → ℚ} {g : ServiceGain ℚ} {n : Int} {now : ℚ}

/-- The gain that `submit_job` computes for a step. -/
def jobGain (exp : ℚ → ℚ) (g : ServiceGain ℚ) (n : Int) : Option ℚ :=
  (g.openJob n).computeGain exp n

theorem congested_openJob : (g.openJob n).congested = g.congested := rfl

/-- The gain of a job depends on nothing that submitting one changes. -/
theorem jobGain_submitJob :
    (g.submitJob exp n now).1.jobGain exp n = g.jobGain exp n := by
  unfold submitJob
  dsimp only
  split
  · rfl
  · unfold closeJob
    dsimp only
    split
    · rfl
    · split <;> rfl

theorem congested_submitJob :
    (g.submitJob exp n now).1.congested = g.congested := by
  unfold submitJob
  dsimp only
  split
  · rfl
  · unfold closeJob
    dsimp only
    split
    · rfl
    · split <;> rfl

end ServiceGain

namespace Scheduler

variable {cfg : SchedConfig} {s t : Scheduler} {n : Int}
  {metadata : Option Metadata} {env : CkptEnv}

/-- `compute_gain` raises for this step. -/
def gainRaises (cfg : SchedConfig) (s : Scheduler) (n : Int) : Bool :=
  s.svcGain.any fun g => (g.jobGain cfg.exp n).isNone

/-- The service gain recommends recomputing this step. -/
def recommendsRecompute (cfg : SchedConfig) (s : Scheduler) (n : Int) :
    Bool :=
  s.svcGain.any fun g =>
    g.congested && (g.jobGain cfg.exp n).any fun gain =>
      decide (gain < ServiceGain.recomputeThresh)

/-- The PCIe look-ahead defers this call. -/
def lookAheadDefers (metadata : Option Metadata) (env : CkptEnv) : Bool :=
  match lookAhead (metadata.getD {}) env with
  | .defer => true
  | .proceed _ | .rateLimit _ | .microDelay _ => false

/-- The topology router defers this call. -/
def routerDefers (cfg : SchedConfig) (s : Scheduler)
    (metadata : Option Metadata) (env : CkptEnv) : Bool :=
  s.topoRouter.any fun router =>
    (router.routeKvPlacement
      ((metadata.bind (·.sizeBytes)).getD (256 * 1024 * 1024)) none
      (safeWindow cfg env) env.hwCongested).2.tier == .deferred

/-- Some layer defers this call. -/
def deferred (cfg : SchedConfig) (s : Scheduler) (n : Int)
    (metadata : Option Metadata) (env : CkptEnv) : Bool :=
  routerDefers cfg s metadata env || lookAheadDefers metadata env ||
    recommendsRecompute cfg s n

/-- How a layer leaves the scheduler: it raises without saving, returns without
saving when the call is deferred, and reaches the save otherwise. -/
structure Ended (s : Scheduler) (n : Int) (raises defers : Bool)
    (t : Scheduler) (returns : Bool) : Prop where
  cache : t.p2pCache = s.p2pCache
  skipped : t.skipped = s.skipped
  raised : raises = true → returns = false ∧ t.saved = s.saved
  deferred : raises = false → defers = true →
    returns = true ∧ t.saved = s.saved
  reached : raises = false → defers = false → t.saved = n :: s.saved

/-- Only what the layer below was given counts as its start. -/
theorem Ended.of_start {s' : Scheduler} {raises defers returns : Bool}
    (h : Ended s' n raises defers t returns)
    (hcache : s'.p2pCache = s.p2pCache) (hskipped : s'.skipped = s.skipped)
    (hsaved : s'.saved = s.saved) : Ended s n raises defers t returns :=
  ⟨h.cache.trans hcache, h.skipped.trans hskipped,
    fun hr => ⟨(h.raised hr).1, (h.raised hr).2.trans hsaved⟩,
    fun hr hd => ⟨(h.deferred hr hd).1, (h.deferred hr hd).2.trans hsaved⟩,
    fun hr hd => (h.reached hr hd).trans (congrArg (n :: ·) hsaved)⟩

section Submit

variable (cfg : SchedConfig) (s : Scheduler) (n : Int) (now : ℚ)

/-- Submitting a job changes the service gain only. -/
theorem submitJob_frame :
    (submitJob cfg s n now).1 =
      { s with svcGain := (submitJob cfg s n now).1.svcGain } := by
  unfold submitJob
  cases s.svcGain <;> rfl

theorem submitJob_gainRaises :
    gainRaises cfg (submitJob cfg s n now).1 n = gainRaises cfg s n := by
  unfold gainRaises submitJob
  cases hg : s.svcGain with
  | none => simp [hg]
  | some g => simp [ServiceGain.jobGain_submitJob]

theorem submitJob_recommendsRecompute :
    recommendsRecompute cfg (submitJob cfg s n now).1 n =
      recommendsRecompute cfg s n := by
  unfold recommendsRecompute submitJob
  cases hg : s.svcGain with
  | none => simp [hg]
  | some g =>
      simp [ServiceGain.jobGain_submitJob, ServiceGain.congested_submitJob]

/-- A submission raises, or returns a priority that tells whether to
recompute. -/
theorem submitJob_cases :
    (gainRaises cfg s n = true ∧
        ∃ e, (submitJob cfg s n now).2 = .error e) ∨
      (gainRaises cfg s n = false ∧
        ∃ p, (submitJob cfg s n now).2 = .ok p ∧
          p.any (·.recomputeFallback) = recommendsRecompute cfg s n) := by
  unfold gainRaises recommendsRecompute submitJob
  cases s.svcGain with
  | none => exact .inr ⟨rfl, none, rfl, rfl⟩
  | some g =>
      unfold ServiceGain.submitJob ServiceGain.jobGain
      cases hgain : (g.openJob n).computeGain cfg.exp n with
      | none =>
          refine .inl ⟨?_, .zeroDivision, ?_⟩
          · simp [hgain]
          · simp [hgain]
      | some gain =>
          refine .inr ⟨?_, some ((g.openJob n).priority gain), ?_, ?_⟩
          · simp [hgain]
          · simp [hgain]
          · simp [hgain, ServiceGain.priority, ServiceGain.congested_openJob]

end Submit

theorem ended_checkpointV1 (hmode : cfg.mode = .tempo) (s : Scheduler)
    (n : Int) (env : CkptEnv) :
    Ended s n false false (checkpointV1 cfg s n env).1
      (checkpointV1 cfg s n env).2.isOk := by
  unfold checkpointV1
  rw [hmode]
  exact ⟨rfl, rfl, by simp, by simp, fun _ _ => rfl⟩

theorem ended_deferV2 (cfg : SchedConfig) (s : Scheduler) (n : Int)
    (env : CkptEnv) :
    Ended s n (gainRaises cfg s n) true (deferV2 cfg s n env).1
      (deferV2 cfg s n env).2.isOk := by
  have hframe := submitJob_frame cfg s n env.submitV2
  unfold deferV2
  dsimp only
  rcases submitJob_cases cfg s n env.submitV2 with
    ⟨hraises, e, hsubmit⟩ | ⟨hraises, p, hsubmit, -⟩
  · rw [hsubmit, hraises, hframe]
    exact ⟨rfl, rfl, fun _ => ⟨rfl, rfl⟩, by simp, by simp⟩
  · rw [hsubmit, hraises, hframe]
    exact ⟨rfl, rfl, by simp, fun _ _ => ⟨rfl, rfl⟩, by simp⟩

theorem ended_gateV2 (hmode : cfg.mode = .tempo) (s : Scheduler) (n : Int)
    (env : CkptEnv) :
    Ended s n (gainRaises cfg s n) (recommendsRecompute cfg s n)
      (gateV2 cfg s n env).1 (gateV2 cfg s n env).2.isOk := by
  have hframe := submitJob_frame cfg s n env.submitV2
  unfold gateV2
  dsimp only
  rcases submitJob_cases cfg s n env.submitV2 with
    ⟨hraises, e, hsubmit⟩ | ⟨hraises, p, hsubmit, hrecompute⟩
  · rw [hsubmit, hraises, hframe]
    exact ⟨rfl, rfl, fun _ => ⟨rfl, rfl⟩, by simp, by simp⟩
  · rw [hsubmit, hraises]
    dsimp only
    cases hp : p.any (·.recomputeFallback) with
    | true =>
        rw [← hrecompute, hp, if_pos rfl, hframe]
        exact ⟨rfl, rfl, by simp, fun _ _ => ⟨rfl, rfl⟩, by simp⟩
    | false =>
        rw [← hrecompute, hp, if_neg (by simp)]
        have hsave := ended_checkpointV1 hmode
          (submitJob cfg s n env.submitV2).1 n env
        exact hsave.of_start (by rw [hframe]) (by rw [hframe]) (by rw [hframe])

theorem ended_checkpointV2 (hmode : cfg.mode = .tempo) (s : Scheduler)
    (n : Int) (metadata : Option Metadata) (env : CkptEnv) :
    Ended s n (gainRaises cfg s n)
      (lookAheadDefers metadata env || recommendsRecompute cfg s n)
      (checkpointV2 cfg s n metadata env).1
      (checkpointV2 cfg s n metadata env).2.isOk := by
  have hraises : gainRaises cfg
      { s with svcGain := s.svcGain.map (·.updateStep n) } n =
        gainRaises cfg s n := by
    unfold gainRaises
    cases s.svcGain <;> rfl
  have hrecommends : recommendsRecompute cfg
      { s with svcGain := s.svcGain.map (·.updateStep n) } n =
        recommendsRecompute cfg s n := by
    unfold recommendsRecompute
    cases s.svcGain <;> rfl
  have hgate := ended_gateV2 hmode
    { s with svcGain := s.svcGain.map (·.updateStep n) } n env
  have hdefer := ended_deferV2 cfg
    { s with svcGain := s.svcGain.map (·.updateStep n) } n env
  rw [hraises] at hgate hdefer
  rw [hrecommends] at hgate
  unfold checkpointV2 lookAheadDefers
  dsimp only
  rw [if_neg (by simp [hmode])]
  cases lookAhead (metadata.getD {}) env with
  | defer =>
      rw [Bool.true_or]
      exact hdefer.of_start rfl rfl rfl
  | proceed _ | rateLimit _ | microDelay _ =>
      rw [Bool.false_or]
      exact hgate.of_start rfl rfl rfl

@[simp] theorem isOk_ok {ε α : Type*} (a : α) :
    (Except.ok a : Except ε α).isOk = true := rfl

@[simp] theorem isOk_error {ε α : Type*} (e : ε) :
    (Except.error e : Except ε α).isOk = false := rfl

/-- A result is returned whatever V3 makes of it. -/
theorem isOk_map {ε α β : Type*} (f : α → β) (r : Except ε α) :
    (r.map f).isOk = r.isOk := by
  cases r <;> rfl

theorem ended_checkpointV3 (hmode : cfg.mode = .tempo) (s : Scheduler)
    (n : Int) (metadata : Option Metadata) (env : CkptEnv) :
    Ended s n (gainRaises cfg s n) (deferred cfg s n metadata env)
      (checkpointV3 cfg s n metadata env).1
      (checkpointV3 cfg s n metadata env).2.isOk := by
  have hframe := submitJob_frame cfg s n env.submitV3
  have hraised := submitJob_gainRaises cfg s n env.submitV3
  have hrecommended := submitJob_recommendsRecompute cfg s n
    env.submitV3
  unfold checkpointV3 deferred
  dsimp only
  rcases submitJob_cases cfg s n env.submitV3 with
    ⟨hraises, e, hsubmit⟩ | ⟨hraises, p, hsubmit, -⟩
  · rw [hsubmit, hraises]
    dsimp only
    rw [hframe]
    exact ⟨rfl, rfl, fun _ => ⟨rfl, rfl⟩, by simp, by simp⟩
  · rw [hsubmit]
    dsimp only
    generalize (submitJob cfg s n env.submitV3).1 = u at *
    have hrouter : u.topoRouter = s.topoRouter := by rw [hframe]
    cases htopo : s.topoRouter with
    | none =>
        rw [hrouter, htopo]
        dsimp only
        rw [isOk_map]
        have hv2 := ended_checkpointV2 hmode u n metadata env
        rw [hraised, hrecommended] at hv2
        simp only [routerDefers, htopo, Option.any_none, Bool.false_or]
        exact hv2.of_start (by rw [hframe]) (by rw [hframe]) (by rw [hframe])
    | some router =>
        rw [hrouter, htopo]
        dsimp only
        simp only [routerDefers, htopo, Option.any_some]
        split
        next htier =>
          rw [hraises, htier]
          refine ⟨?_, ?_, by simp, fun _ _ => ⟨rfl, ?_⟩, by simp⟩ <;> rw [hframe]
        next htier =>
          rw [beq_false_of_ne htier, Bool.false_or, isOk_map]
          generalize (router.routeKvPlacement _ _ _ _).1 = routed
          have hv2 := ended_checkpointV2 hmode
            { u with topoRouter := some routed } n metadata env
          rw [← hraised, ← hrecommended]
          exact hv2.of_start (by rw [hframe]) (by rw [hframe]) (by rw [hframe])

/-- Within one rank the cache key determines the step. -/
theorem cacheKey_injective {rank : Nat} {a b : Int}
    (h : cacheKey rank a = cacheKey rank b) : a = b := by
  have hl := congrArg String.toList h
  simp only [cacheKey, String.toList_append] at hl
  have hbegins := List.append_cancel_right (List.append_cancel_right hl)
  exact Int.repr_injective
    (String.toList_inj.mp (List.append_cancel_left hbegins))

/-- The key of a layer's chunk is no step's key. -/
theorem cacheKey_ne_nanoKey (rank : Nat) (a b layer : Int) :
    cacheKey rank a ≠ nanoKey rank b layer := by
  intro h
  have hhead := congrArg (fun k => k.toList.head?) h
  simp [cacheKey, nanoKey, String.toList_append] at hhead

/-- Every step whose token the cache holds has been saved, and so has every
step that was skipped. -/
structure Honest (cfg : SchedConfig) (s : Scheduler) : Prop where
  held : ∀ cache ∈ s.p2pCache, ∀ m,
    cache.localStore.Holds (cacheKey cfg.rank m) → m ∈ s.saved
  skipped : ∀ m ∈ s.skipped, m ∈ s.saved

/-- A checkpoint call that gets past the cache registers its step: either the
step has been saved, or the token is not stored here, or the call raises, or no
layer defers it. -/
def Accounted (cfg : SchedConfig) (s : Scheduler) : SchedEvent → Prop
  | .checkpoint n env =>
      s.p2pCache.isNone = true ∨ n ∈ s.saved ∨
        ¬ P2PCacheStore.StoresLocally cfg.p2p cfg.md5 (cacheKey cfg.rank n) ∨
        gainRaises cfg s n = true ∨
        deferred cfg s n (some (estimated cfg env)) env = false
  | _ => True

section Layers

/-- A lookup changes the cache only. -/
theorem lookupCache_frame (cfg : SchedConfig) (s : Scheduler) (n : Int)
    (env : CkptEnv) :
    (lookupCache cfg s n env).1 =
      { s with p2pCache := (lookupCache cfg s n env).1.p2pCache } := by
  unfold lookupCache
  cases s.p2pCache <;> rfl

/-- A lookup keeps the cache honest, and hits saved steps only. -/
theorem lookupCache_spec (hs : s.Honest cfg) (n : Int) (env : CkptEnv) :
    (lookupCache cfg s n env).1.Honest cfg ∧
      (lookupCache cfg s n env).1.saved = s.saved ∧
      (lookupCache cfg s n env).1.svcGain = s.svcGain ∧
      (lookupCache cfg s n env).1.topoRouter = s.topoRouter ∧
      (lookupCache cfg s n env).1.p2pCache.isNone = s.p2pCache.isNone ∧
      ((lookupCache cfg s n env).2 = true → n ∈ s.saved) := by
  unfold lookupCache
  cases hcache : s.p2pCache with
  | none => exact ⟨hs, rfl, rfl, rfl, by simp [hcache], by simp⟩
  | some cache =>
      refine ⟨⟨?_, hs.skipped⟩, rfl, rfl, rfl, rfl, fun hhit => ?_⟩
      · intro found hfound m hheld
        obtain rfl := Option.some.inj hfound
        exact hs.held cache hcache m (P2PCacheStore.holds_get hheld)
      · obtain ⟨data, hdata⟩ := Option.isSome_iff_exists.mp hhit
        exact hs.held cache hcache n (P2PCacheStore.holds_of_get rfl hdata)

/-- Every step saved before a layer was called is saved after it. -/
theorem Ended.saved_subset {raises defers returns : Bool}
    (h : Ended s n raises defers t returns) : ∀ m ∈ s.saved, m ∈ t.saved := by
  intro m hm
  cases raises with
  | true => rw [(h.raised rfl).2]; exact hm
  | false =>
      cases defers with
      | true => rw [(h.deferred rfl rfl).2]; exact hm
      | false => rw [h.reached rfl rfl]; exact List.mem_cons_of_mem _ hm

/-- Registering a token keeps the cache honest when its step is saved or the
token is not stored here, and only then. -/
theorem registerToken_honest_iff (hs : s.Honest cfg) :
    (registerToken cfg s n env).Honest cfg ↔
      s.p2pCache.isNone = true ∨ n ∈ s.saved ∨
        ¬ P2PCacheStore.StoresLocally cfg.p2p cfg.md5
          (cacheKey cfg.rank n) := by
  constructor
  · intro ht
    cases hcache : s.p2pCache with
    | none => exact .inl rfl
    | some cache =>
        by_cases hlocal : P2PCacheStore.StoresLocally cfg.p2p cfg.md5
            (cacheKey cfg.rank n)
        · have hafter : (registerToken cfg s n env).p2pCache =
              some (cache.put cfg.p2p cfg.md5 env.p2pPut
                (cacheKey cfg.rank n) (token n)).1 := by
            simp [registerToken, hcache]
          have hheld := P2PCacheStore.holds_put_self cache env.p2pPut
            (token n) hlocal
          exact .inr (.inl (ht.held _ hafter n hheld))
        · exact .inr (.inr hlocal)
  · intro hcond
    refine ⟨?_, hs.skipped⟩
    intro after hafter m hheld
    obtain ⟨cache, hcache, rfl⟩ := Option.map_eq_some_iff.mp hafter
    rcases P2PCacheStore.holds_put hheld with ⟨hkey, hlocal⟩ | hold
    · obtain rfl := cacheKey_injective hkey
      rcases hcond with hnone | hsaved | hnot
      · simp [hcache] at hnone
      · exact hsaved
      · exact absurd hlocal hnot
    · exact hs.held cache hcache m hold

/-- A layer below V4 keeps the cache honest. -/
theorem Honest.of_ended {raises defers returns : Bool} (hs : s.Honest cfg)
    (h : Ended s n raises defers t returns) : t.Honest cfg := by
  constructor
  · intro cache hcache m hheld
    rw [h.cache] at hcache
    exact h.saved_subset m (hs.held cache hcache m hheld)
  · intro m hm
    rw [h.skipped] at hm
    exact h.saved_subset m (hs.skipped m hm)

/-- The call past the cache: what is registered has been saved exactly when
the call is accounted for. -/
theorem delegateV4_honest_iff (hmode : cfg.mode = .tempo)
    (hs : s.Honest cfg) :
    (delegateV4 cfg s n env).1.Honest cfg ↔
      Accounted cfg s (.checkpoint n env) := by
  have hbelow : Ended s n (gainRaises cfg s n)
      (deferred cfg s n (some (estimated cfg env)) env) _ _ :=
    (ended_checkpointV3 hmode
      { s with nanoStep := s.nanoStep.map fun _ => n } n
      (some (estimated cfg env)) env).of_start rfl rfl rfl
  have hhonest := hs.of_ended hbelow
  unfold delegateV4 Accounted
  dsimp only
  generalize checkpointV3 cfg { s with nanoStep := s.nanoStep.map fun _ => n } n
    (some (estimated cfg env)) env = below at *
  rcases below with ⟨u, result⟩
  cases hraises : gainRaises cfg s n with
  | true =>
      have hreturns := (hbelow.raised hraises).1
      cases result with
      | error e => exact iff_of_true hhonest (by simp)
      | ok _ => cases hreturns
  | false =>
      cases hdefers : deferred cfg s n (some (estimated cfg env)) env with
      | true =>
          obtain ⟨hreturns, hsaved⟩ := hbelow.deferred hraises hdefers
          cases result with
          | error e => cases hreturns
          | ok _ =>
              rw [registerToken_honest_iff hhonest]
              dsimp only at hsaved ⊢
              rw [hsaved, hbelow.cache]
              simp
      | false =>
          have hsaved : n ∈ u.saved := by
            rw [hbelow.reached hraises hdefers]
            exact List.mem_cons_self
          refine iff_of_true ?_ (by simp)
          cases result with
          | error e => exact hhonest
          | ok _ =>
              exact (registerToken_honest_iff hhonest).mpr (.inr (.inl hsaved))

/-- **One checkpoint call keeps the cache honest exactly when the call is
accounted for.** -/
theorem checkpointV4_honest_iff (hmode : cfg.mode = .tempo)
    (hs : s.Honest cfg) :
    (checkpointV4 cfg s n env).1.Honest cfg ↔
      Accounted cfg s (.checkpoint n env) := by
  obtain ⟨hlooked, hsaved, hgain, hrouter, hcache, hhit⟩ :=
    lookupCache_spec hs n env
  unfold checkpointV4
  dsimp only
  split
  next hfound =>
    have hn := hhit hfound
    refine iff_of_true ⟨hlooked.held, fun m hm => ?_⟩ (.inr (.inl hn))
    rcases List.mem_cons.mp hm with rfl | hold
    · exact hsaved ▸ hn
    · exact hlooked.skipped m hold
  next =>
    rw [delegateV4_honest_iff hmode hlooked]
    unfold Accounted deferred routerDefers recommendsRecompute gainRaises
    dsimp only
    rw [hsaved, hgain, hrouter, hcache]

/-- A layer's chunk is stored under no step's key. -/
theorem nanoIoCallback_honest (hs : s.Honest cfg) (layer : Int)
    (data : Bytes) (p2pEnv : P2PEnv) :
    (nanoIoCallback cfg s layer data p2pEnv).Honest cfg := by
  refine ⟨?_, hs.skipped⟩
  intro after hafter m hheld
  obtain ⟨cache, hcache, rfl⟩ := Option.map_eq_some_iff.mp hafter
  rcases P2PCacheStore.holds_put hheld with ⟨hkey, -⟩ | hold
  · exact absurd hkey (cacheKey_ne_nanoKey _ _ _ _)
  · exact hs.held cache hcache m hold

theorem Honest.step (hmode : cfg.mode = .tempo) (hs : s.Honest cfg)
    {e : SchedEvent} (hcond : Accounted cfg s e)
    (hstep : s.step cfg e = some t) : t.Honest cfg := by
  cases e with
  | checkpoint n env =>
      obtain rfl := Option.some.inj hstep
      exact (checkpointV4_honest_iff hmode hs).mpr hcond
  | nanoIo layer data p2pEnv =>
      obtain rfl := Option.some.inj hstep
      exact nanoIoCallback_honest hs layer data p2pEnv
  | updateStep _ | markCommitted _ | setCongested _
  | setGlobalLinkSaturated _ | registerPeerGroups _ =>
      obtain rfl := Option.some.inj hstep
      exact ⟨hs.held, hs.skipped⟩

end Layers

/-- A new scheduler: its components are there or not, and its cache is empty
over whatever files it finds. -/
def init (svcGain : Option (ServiceGain ℚ)) (topoRouter : Option TopologyRouter)
    (found : Option (Nat → Option Bytes)) (nanoStep : Option Int) :
    Scheduler :=
  { svcGain
    topoRouter
    p2pCache := found.map fun files => { localStore := { files } }
    nanoStep }

/-- **A cache hit means the checkpoint was saved**, in runs whose calls are
accounted for: every step whose token the cache holds has reached `save_async`,
and so has every step that a hit made a call skip. -/
theorem cache_hit_saved {svcGain : Option (ServiceGain ℚ)}
    {topoRouter : Option TopologyRouter}
    {found : Option (Nat → Option Bytes)} {nanoStep : Option Int}
    (hmode : cfg.mode = .tempo)
    (hrun : Runs.Reach (step cfg) (Accounted cfg)
      (init svcGain topoRouter found nanoStep) s) :
    (∀ cache ∈ s.p2pCache, ∀ n,
        cache.localStore.Holds (cacheKey cfg.rank n) → n ∈ s.saved) ∧
      ∀ n ∈ s.skipped, n ∈ s.saved := by
  have hs : s.Honest cfg := by
    refine hrun.invariant ⟨?_, by simp [init]⟩
      fun _ _ _ h hcond => h.step hmode hcond
    intro cache hcache n hheld
    obtain ⟨files, -, rfl⟩ := Option.map_eq_some_iff.mp hcache
    exact absurd hheld (by simp [TierStore.Holds])
  exact ⟨hs.held, hs.skipped⟩

/-- One rank with a router and a cache. -/
def routedConfig : SchedConfig :=
  { p2pLimits := { dram := 4096, nvme := 4096 }
    md5 := fun _ => 0
    exp := fun _ => 1 }

def routedScheduler : Scheduler :=
  init none (some (TopologyRouter.new 0 0 (1 / 5))) (some fun _ => none)
    (some 0)

/-- The global links are saturated when step 10 is due, and no longer when it
is retried. -/
def retriedEvents : List SchedEvent :=
  [.setGlobalLinkSaturated true, .checkpoint 10 {},
    .setGlobalLinkSaturated false, .checkpoint 10 {}]

/-- The deferred step is registered, its retry is a cache hit and skipped, and
the step is never saved. -/
theorem deferred_step_skipped :
    ∃ s, Runs.Reachable (step routedConfig) routedScheduler s ∧
      s.skipped = [10] ∧ s.saved = [] :=
  Runs.Reachable.exists_of_exec retriedEvents (by decide +kernel)

instance Accounted.decidable (cfg : SchedConfig) (s : Scheduler) :
    ∀ e, Decidable (Accounted cfg s e)
  | .checkpoint _ _ =>
      have : ∀ key, Decidable
          (P2PCacheStore.StoresLocally cfg.p2p cfg.md5 key) := fun key =>
        inferInstanceAs (Decidable (∃ owner ∈
          P2PCacheStore.owners cfg.p2p cfg.md5 key,
            P2PCacheStore.servesLocally cfg.p2p owner = true))
      inferInstanceAs (Decidable (_ = true ∨ _ ∈ _ ∨ ¬ _ ∨ _ = true ∨
        _ = false))
  | .nanoIo _ _ _ | .updateStep _ | .markCommitted _ | .setCongested _
  | .setGlobalLinkSaturated _ | .registerPeerGroups _ => isTrue trivial

/-- Step 10 is saved, and then skipped on a cache hit while the links are
saturated. -/
theorem cache_hit_saved_retried :
    ∃ s, Runs.Reach (step routedConfig) (Accounted routedConfig)
        routedScheduler s ∧
      10 ∈ s.skipped ∧ 10 ∈ s.saved := by
  obtain ⟨s, hrun, hskipped⟩ : ∃ s,
      Runs.Reach (step routedConfig) (Accounted routedConfig)
        routedScheduler s ∧ 10 ∈ s.skipped :=
    Runs.Reach.exists_of_exec
      [.checkpoint 10 {}, .setGlobalLinkSaturated true, .checkpoint 10 {}]
      (by decide +kernel) (by decide +kernel)
  exact ⟨s, hrun, hskipped, (cache_hit_saved rfl hrun).2 10 hskipped⟩

end Scheduler

end Tempo
