import Std.Data.String.ToInt
import Tempo.P2PCache
import Tempo.ServiceGain
import Tempo.TopologyRouter

/-!
# The layered checkpoint call

`TEMPOScheduler.checkpoint` saves; `TEMPOSchedulerV2` to `V4` each override it
and call the one below: V2 adds the PCIe look-ahead and the service gain, V3 the
topology router, V4 the sparse size estimate and the peer-to-peer cache.  Each
layer is given here as the source has it, with its own way of returning early.

What other threads and the machine decide about one call (estimates, windows,
counters, the clock, how the save ends) is its surroundings.  `saved` and
`synced` list the steps for which `save_async` and `save_sync_lustre` were
called, `skipped` the steps skipped on a cache hit.
-/

namespace Tempo

open OrderedDict

inductive Mode where
  | tempo
  | baseline
  deriving DecidableEq

/-- The entries of a metadata dictionary that the schedulers read. -/
structure Metadata where
  sizeBytes : Option Int := none
  batchSize : Option Int := none
  seqLen : Option Int := none
  nLayers : Option Int := none
  nHeads : Option Int := none
  headDim : Option Int := none

/-- How a call can raise. -/
inductive CkptError where
  | zeroDivision
  | noLustreDir
  | saveFailed
  deriving DecidableEq

structure SchedConfig where
  rank : Nat := 0
  worldSize : Nat := 1
  mode : Mode := .tempo
  /-- `lustre_dir` is not `None`. -/
  lustreDir : Bool := true
  /-- `sparse_filter` is not `None`. -/
  sparse : Bool := true
  /-- `interleaving` is not `None`. -/
  interleaving : Bool := true
  p2pLimits : TierLimits
  md5 : String → Nat
  /-- `math.exp`. -/
  exp : ℚ → ℚ

/-- The surroundings of one checkpoint call. -/
structure CkptEnv where
  metadata : Option Metadata := none
  /-- `avg_hot_ratio_pct` of the sparse filter. -/
  hotRatioPct : ℚ := 0
  /-- What the router's hardware counters report. -/
  hwCongested : Bool := false
  /-- `get_safe_window_ms()` of the interleaving engine. -/
  safeWindowMs : ℚ := 0
  ncclBps : ℚ := 0
  ncclPhaseDurationMs : ℚ := 0
  nIdleRails : Int := 1
  /-- The clock when V3 and when V2 submit a job. -/
  submitV3 : ℚ := 0
  submitV2 : ℚ := 0
  /-- How `save_async` ends. -/
  saveAsync : Except CkptError String := .ok "step.pt"
  /-- How `save_sync_lustre` ends. -/
  saveSync : Except CkptError String := .ok "step.pt"
  p2pGet : P2PEnv := {}
  p2pPut : P2PEnv := {}

structure Scheduler where
  svcGain : Option (ServiceGain ℚ) := none
  topoRouter : Option TopologyRouter := none
  p2pCache : Option P2PCacheStore := none
  /-- `_step` of the nano-overlap controller. -/
  nanoStep : Option Int := none
  saved : List Int := []
  synced : List Int := []
  skipped : List Int := []

/-- The cache `TEMPOSchedulerV4` builds; nothing adds to its `_peer_addrs`. -/
def SchedConfig.p2p (cfg : SchedConfig) : P2PConfig :=
  { rank := cfg.rank
    worldSize := cfg.worldSize
    simulation := cfg.worldSize == 1
    limits := cfg.p2pLimits }

namespace Scheduler

variable (cfg : SchedConfig)

/-- `TEMPOScheduler.checkpoint`. -/
def checkpointV1 (s : Scheduler) (step : Int) (env : CkptEnv) :
    Scheduler × Except CkptError String :=
  match cfg.mode with
  | .tempo => ({ s with saved := step :: s.saved }, env.saveAsync)
  | .baseline =>
      if cfg.lustreDir then
        ({ s with synced := step :: s.synced }, env.saveSync)
      else (s, .error .noLustreDir)

/-- `self.svc_gain.submit_job(..)` where there is a `svc_gain`. -/
def submitJob (s : Scheduler) (step : Int) (now : ℚ) :
    Scheduler × Except CkptError (Option (FlushPriority ℚ)) :=
  match s.svcGain with
  | none => (s, .ok none)
  | some g =>
      let submitted := g.submitJob cfg.exp step now
      ({ s with svcGain := some submitted.1 },
        match submitted.2 with
        | none => .error .zeroDivision
        | some p => .ok (some p))

/-- The size V2 looks ahead with: exact when the model shape is known. -/
def kvBytes (metadata : Metadata) : Int :=
  match metadata.batchSize, metadata.seqLen, metadata.nLayers,
      metadata.nHeads, metadata.headDim with
  | some b, some l, some n, some h, some d =>
      PCIePressurePredictor.predictKvBytes b l n h d
  | _, _, _, _, _ => metadata.sizeBytes.getD (256 * 1024 * 1024)

/-- The look-ahead of V2: half of the NCCL window is there to flush in. -/
def lookAhead (metadata : Metadata) (env : CkptEnv) : RouteAction ℚ :=
  let flushWindowS :=
    max (10 / 1000) (env.ncclPhaseDurationMs * (1 / 1000) * (5 / 10))
  PCIePressurePredictor.routeDecision (kvBytes metadata) flushWindowS
    env.ncclBps env.nIdleRails 0

/-- The end of V2: the service gain is the final gate. -/
def gateV2 (s : Scheduler) (step : Int) (env : CkptEnv) :
    Scheduler × Except CkptError String :=
  let submitted := submitJob cfg s step env.submitV2
  match submitted.2 with
  | .error e => (submitted.1, .error e)
  | .ok priority =>
      if priority.any (·.recomputeFallback) then (submitted.1, .ok "")
      else checkpointV1 cfg submitted.1 step env

/-- The deferral of V2: the job is submitted and the empty path returned. -/
def deferV2 (s : Scheduler) (step : Int) (env : CkptEnv) :
    Scheduler × Except CkptError String :=
  let submitted := submitJob cfg s step env.submitV2
  match submitted.2 with
  | .error e => (submitted.1, .error e)
  | .ok _ => (submitted.1, .ok "")

/-- `TEMPOSchedulerV2.checkpoint`. -/
def checkpointV2 (s : Scheduler) (step : Int) (metadata : Option Metadata)
    (env : CkptEnv) : Scheduler × Except CkptError String :=
  let s := { s with svcGain := s.svcGain.map (·.updateStep step) }
  if cfg.mode ≠ .tempo then checkpointV1 cfg s step env
  else
    match lookAhead (metadata.getD {}) env with
    | .defer => deferV2 cfg s step env
    | .proceed _ | .rateLimit _ | .microDelay _ => gateV2 cfg s step env

/-- The window V3 gives the router. -/
def safeWindow (env : CkptEnv) : Option ℚ :=
  if cfg.interleaving then some env.safeWindowMs else none

/-- `TEMPOSchedulerV3.checkpoint`. -/
def checkpointV3 (s : Scheduler) (step : Int) (metadata : Option Metadata)
    (env : CkptEnv) : Scheduler × Except CkptError Unit :=
  let submitted := submitJob cfg s step env.submitV3
  let s := submitted.1
  match submitted.2 with
  | .error e => (s, .error e)
  | .ok _ =>
      match s.topoRouter with
      | none =>
          let below := checkpointV2 cfg s step metadata env
          (below.1, below.2.map fun _ => ())
      | some router =>
          let size := (metadata.bind (·.sizeBytes)).getD (256 * 1024 * 1024)
          let routed := router.routeKvPlacement size none (safeWindow cfg env)
            env.hwCongested
          let s := { s with topoRouter := some routed.1 }
          if routed.2.tier = .deferred then (s, .ok ())
          else
            let below := checkpointV2 cfg s step metadata env
            (below.1, below.2.map fun _ => ())

/-- The metadata V4 passes on, with its size estimate. -/
def estimated (env : CkptEnv) : Metadata :=
  let size := (env.metadata.bind (·.sizeBytes)).getD (256 * 1024 * 1024)
  let hint :=
    if cfg.sparse then
      truncate (size * max (5 / 100) (env.hotRatioPct / 100))
    else size
  { env.metadata.getD {} with sizeBytes := some hint }

/-- The cache key of a step. -/
def cacheKey (rank : Nat) (step : Int) : String :=
  "ckpt:step=" ++ Int.repr step ++ ":rank=" ++ Nat.repr rank

/-- The token stored under a step's key. -/
def token (step : Int) : Bytes :=
  ("step=" ++ Int.repr step).toUTF8.data.toList

/-- The lookup of V4: the cache after it, and whether it is a hit. -/
def lookupCache (s : Scheduler) (step : Int) (env : CkptEnv) :
    Scheduler × Bool :=
  match s.p2pCache with
  | none => (s, false)
  | some cache =>
      let found := cache.get cfg.p2p cfg.md5 env.p2pGet (cacheKey cfg.rank step)
      ({ s with p2pCache := some found.1 }, found.2.isSome)

/-- The registration of V4. -/
def registerToken (s : Scheduler) (step : Int) (env : CkptEnv) : Scheduler :=
  { s with p2pCache := s.p2pCache.map fun cache =>
      (cache.put cfg.p2p cfg.md5 env.p2pPut (cacheKey cfg.rank step)
        (token step)).1 }

/-- V4 past the cache: the call goes to V3, and its token is registered when
that returns. -/
def delegateV4 (s : Scheduler) (step : Int) (env : CkptEnv) :
    Scheduler × Except CkptError Unit :=
  let s := { s with nanoStep := s.nanoStep.map fun _ => step }
  let below := checkpointV3 cfg s step (some (estimated cfg env)) env
  match below.2 with
  | .error e => (below.1, .error e)
  | .ok () => (registerToken cfg below.1 step env, .ok ())

/-- `TEMPOSchedulerV4.checkpoint`. -/
def checkpointV4 (s : Scheduler) (step : Int) (env : CkptEnv) :
    Scheduler × Except CkptError Unit :=
  let looked := lookupCache cfg s step env
  if looked.2 then
    ({ looked.1 with skipped := step :: looked.1.skipped }, .ok ())
  else delegateV4 cfg looked.1 step env

/-- The key of a layer's chunk. -/
def nanoKey (rank : Nat) (step layerId : Int) : String :=
  "nano:step=" ++ Int.repr step ++ ":layer=" ++ Int.repr layerId ++ ":rank=" ++
    Nat.repr rank

/-- `_nano_io_callback`. -/
def nanoIoCallback (s : Scheduler) (layerId : Int) (data : Bytes)
    (env : P2PEnv) : Scheduler :=
  { s with p2pCache := s.p2pCache.map fun cache =>
      (cache.put cfg.p2p cfg.md5 env
        (nanoKey cfg.rank (s.nanoStep.getD (-1)) layerId) data).1 }

end Scheduler

/-- A checkpoint call, or what other threads do to the parts it reads. -/
inductive SchedEvent where
  | checkpoint (step : Int) (env : CkptEnv)
  | nanoIo (layerId : Int) (data : Bytes) (env : P2PEnv)
  | updateStep (step : Int)
  | markCommitted (step : Int)
  | setCongested (flag : Bool)
  | setGlobalLinkSaturated (flag : Bool)
  | registerPeerGroups (groups : Dict Nat Int)

namespace Scheduler

def step (cfg : SchedConfig) (s : Scheduler) :
    SchedEvent → Option Scheduler
  | .checkpoint n env => some (s.checkpointV4 cfg n env).1
  | .nanoIo layerId data env => some (s.nanoIoCallback cfg layerId data env)
  | .updateStep n => some { s with svcGain := s.svcGain.map (·.updateStep n) }
  | .markCommitted n =>
      some { s with svcGain := s.svcGain.map (·.markCommitted n) }
  | .setCongested flag =>
      some { s with svcGain := s.svcGain.map (·.setCongested flag) }
  | .setGlobalLinkSaturated flag =>
      some { s with
        topoRouter := s.topoRouter.map (·.setGlobalLinkSaturated flag) }
  | .registerPeerGroups groups =>
      some { s with
        topoRouter := s.topoRouter.map (·.registerPeerGroups groups) }

end Scheduler

end Tempo
