import Mathlib.Algebra.Order.Field.Basic
import Mathlib.Data.Int.Cast.Lemmas

/-!
# Service gain and PCIe look-ahead

`ServiceGainScheduler` scores a checkpoint flush and says whether it may be
deferred or recomputed instead; `PCIePressurePredictor.route_decision` says
whether a flush fits on the bus now.  Floating-point numbers are elements of an
ordered field, and `math.exp` is a function on it.  A computation that divides
by zero has no value, as the source raises there.
-/

namespace Tempo

variable {K : Type*} [Field K] [LinearOrder K]

/-- `_JobEntry`. -/
structure JobEntry (K : Type*) where
  negGain : K
  enqueueTime : K
  jobId : Nat

structure FlushPriority (K : Type*) where
  jobId : Nat
  gain : K
  deferrable : Bool
  allocatedBps : K
  recomputeFallback : Bool

/-- The scheduler; nothing depends on the order of its heap. -/
structure ServiceGain (K : Type*) where
  baseBps : K
  milestoneInterval : Int
  sloDeadlineSteps : Int := 100
  congestionBwFactor : K
  jobCounter : Nat := 0
  heap : List (JobEntry K) := []
  lastCommittedStep : Int := 0
  lastCkptStep : Int := 0
  currentStep : Int := 0
  horizon : Int := 1000
  congested : Bool := false
  jobsSubmitted : Nat := 0
  jobsDeferred : Nat := 0
  jobsExpedited : Nat := 0
  recomputeRecommended : Nat := 0

namespace ServiceGain

/-- The scheduler `TEMPOSchedulerV2` builds. -/
def ofMilestone (milestoneInterval : Int) : ServiceGain K :=
  { baseBps := 25000000000
    milestoneInterval
    congestionBwFactor := 1 / 4 }

def updateStep (g : ServiceGain K) (step : Int) : ServiceGain K :=
  { g with currentStep := step }

def markCommitted (g : ServiceGain K) (step : Int) : ServiceGain K :=
  { g with lastCommittedStep := max g.lastCommittedStep step }

def setCongested (g : ServiceGain K) (flag : Bool) : ServiceGain K :=
  { g with congested := flag }

/-- `_DEFERRAL_THRESH`. -/
def deferralThresh : K := 3 / 10

/-- `_MILESTONE_GAIN`. -/
def milestoneGain : K := 95 / 100

/-- The `0.6` of `submit_job`. -/
def congestedThresh : K := 6 / 10

/-- `_DEFERRAL_THRESH * 0.5`. -/
def recomputeThresh : K := deferralThresh * (5 / 10)

def isMilestone (g : ServiceGain K) (step : Int) : Bool :=
  0 < step && step % g.milestoneInterval == 0

/-- `steps_since_commit`. -/
def stepsSinceCommit (g : ServiceGain K) (step : Int) : Int :=
  max 0 (step - g.lastCommittedStep)

/-- `remaining_budget`. -/
def remainingBudget (g : ServiceGain K) (step : Int) : Int :=
  max 1 (g.sloDeadlineSteps - max 0 (step - g.lastCkptStep))

def learningProgress (g : ServiceGain K) (step : Int) : K :=
  min 1 ((g.stepsSinceCommit step : K) / (max 1 g.horizon : Int))

def recoveryValue (exp : K → K) (g : ServiceGain K) (step : Int) : K :=
  1 - exp (-(1 / 100) * (g.stepsSinceCommit step : K))

def urgency (g : ServiceGain K) (step : Int) : K :=
  max 0 (1 - (g.remainingBudget step : K) / (g.sloDeadlineSteps : K))

/-- The weighted sum. -/
def score (exp : K → K) (g : ServiceGain K) (step : Int) : K :=
  45 / 100 * g.learningProgress step + 35 / 100 * g.recoveryValue exp step +
    20 / 100 * g.urgency step

/-- `compute_gain`; there is no value when the deadline is zero, nor for a
positive step when the milestone interval is. -/
def computeGain (exp : K → K) (g : ServiceGain K) (step : Int) : Option K :=
  if g.sloDeadlineSteps = 0 then none
  else if 0 < step ∧ g.milestoneInterval = 0 then none
  else if g.isMilestone step then some milestoneGain
  else some (min 1 (max 0 (g.score exp step)))

theorem computeGain_eq (exp : K → K) {g : ServiceGain K} (step : Int)
    (hslo : g.sloDeadlineSteps ≠ 0) (hinterval : g.milestoneInterval ≠ 0) :
    g.computeGain exp step =
      some (if g.isMilestone step then milestoneGain
        else min 1 (max 0 (g.score exp step))) := by
  unfold computeGain
  rw [if_neg hslo, if_neg fun h => hinterval h.2]
  split <;> rfl

/-- The first locked block of `submit_job`. -/
def openJob (g : ServiceGain K) (step : Int) : ServiceGain K :=
  { g with
    lastCkptStep := step
    jobCounter := g.jobCounter + 1
    jobsSubmitted := g.jobsSubmitted + 1 }

/-- The priority of a job of this gain. -/
def priority (g : ServiceGain K) (gain : K) : FlushPriority K :=
  let deferrable :=
    (decide (gain < deferralThresh) && !g.congested) ||
      (g.congested && decide (gain < congestedThresh))
  let allocated := g.baseBps * gain
  { jobId := g.jobCounter
    gain
    deferrable
    allocatedBps :=
      if g.congested && deferrable then allocated * g.congestionBwFactor
      else allocated
    recomputeFallback :=
      g.congested && decide (gain < recomputeThresh) }

/-- The second locked block: the job is queued and counted. -/
def closeJob (g : ServiceGain K) (now : K) (p : FlushPriority K) :
    ServiceGain K :=
  let g := { g with
    heap := { negGain := -p.gain, enqueueTime := now, jobId := p.jobId } ::
      g.heap }
  if p.recomputeFallback then
    { g with recomputeRecommended := g.recomputeRecommended + 1 }
  else if p.deferrable then { g with jobsDeferred := g.jobsDeferred + 1 }
  else { g with jobsExpedited := g.jobsExpedited + 1 }

/-- `submit_job`; without a gain it raises after its first block. -/
def submitJob (exp : K → K) (g : ServiceGain K) (step : Int) (now : K) :
    ServiceGain K × Option (FlushPriority K) :=
  let opened := g.openJob step
  match opened.computeGain exp step with
  | none => (opened, none)
  | some gain =>
      let p := opened.priority gain
      (opened.closeJob now p, some p)

end ServiceGain

/-- What `route_decision` returns. -/
inductive RouteAction (K : Type*) where
  | proceed (rateBps : K)
  | rateLimit (safeRateBps : K)
  | microDelay (delayMs : K)
  | defer

namespace PCIePressurePredictor

/-- `PCIE_CEILING_BPS`. -/
def pcieCeilingBps : K := 64000000000

def predictKvBytes (batchSize seqLen nLayers nHeads headDim : Int) : Int :=
  2 * nLayers * nHeads * headDim * seqLen * batchSize * 2

def predictFlushBw (kvBytes : Int) (flushWindowS : K) : K :=
  (kvBytes : K) / max flushWindowS (1 / 1000000000)

/-- `pcie_ceiling_bps if pcie_ceiling_bps > 0 else cls.PCIE_CEILING_BPS`. -/
def ceilingOr (pcieCeiling : K) : K :=
  if 0 < pcieCeiling then pcieCeiling else pcieCeilingBps

def pciePressure (flushBw ncclBw pcieCeiling : K) : K :=
  (flushBw + ncclBw) / ceilingOr pcieCeiling

def routeDecision (kvBytes : Int) (flushWindowS ncclBw : K)
    (nIdleRails : Int) (pcieCeiling : K) : RouteAction K :=
  let ceiling := ceilingOr pcieCeiling
  let flushBw := predictFlushBw kvBytes flushWindowS
  let headroom := ceiling - ncclBw
  let effHeadroom := headroom * (max 1 nIdleRails : Int)
  let pressure := pciePressure flushBw ncclBw ceiling
  if pressure < 90 / 100 then .proceed flushBw
  else if 0 < nIdleRails ∧ flushBw ≤ effHeadroom then
    .rateLimit (effHeadroom * (85 / 100) / (max 1 nIdleRails : Int))
  else if pressure < 150 / 100 then
    let deficit := flushBw + ncclBw - ceiling
    let decayRate := ncclBw / max (flushWindowS * 1000) 1
    .microDelay (max 1 (min 50 (deficit / max decayRate 1)))
  else .defer

end PCIePressurePredictor

end Tempo
