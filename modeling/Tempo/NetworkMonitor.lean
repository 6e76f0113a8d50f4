import Tempo.Runs
import Tempo.TopologyRouter

/-!
# The network monitor and the router it is wired to

`NetworkMonitor` polls the byte counters of the NICs, smooths them, and closes
the I/O gate while the bandwidth is at the threshold or above; without NICs it
polls a simulated bandwidth, which `setSimulatedBps` also judges at once.  A
poll and a simulated value each run under one lock, so an update of the gate
is one step.

`TEMPOSchedulerV3` hangs a hook on the monitor that would pass each flip of the
gate on to the topology router.  No method of the monitor calls it: the flag of
the router is right exactly while the gate stays open.
-/

namespace Tempo

open OrderedDict Runs

structure MonitorConfig where
  congestionThreshold : ℚ := 3 / 4
  linkSpeedBps : ℚ := 200 * 10 ^ 9
  nics : List String

namespace MonitorConfig

variable (cfg : MonitorConfig)

def simulated : Bool := cfg.nics.isEmpty

/-- The bytes per second from which on the link counts as congested. -/
def thresholdBps : ℚ := cfg.linkSpeedBps * cfg.congestionThreshold / 8

end MonitorConfig

/-- The counters of one NIC at one time. -/
structure NicSample where
  ts : ℚ
  tx : Int
  rx : Int

/-- What the monitor knows of one NIC. -/
structure NicState where
  lastSample : Option NicSample := none
  ema : ℚ := 0
  window : List ℚ := []

/-- A deque of at most 64 entries. -/
def pushWindow (window : List ℚ) (x : ℚ) : List ℚ :=
  (window ++ [x]).drop (window.length + 1 - 64)

structure MonitorStats where
  pollCount : Nat := 0
  congestionEvents : Nat := 0
  totalCongestionMs : ℚ := 0
  peakBps : ℚ := 0

structure NetworkMonitor where
  nicState : Dict String NicState
  totalBpsEma : ℚ := 0
  totalBpsPeak : ℚ := 0
  ioAllowed : Bool := true
  stats : MonitorStats := {}
  congestionStart : Option ℚ := none
  simBps : ℚ := 0

/-- One turn of the poll loop: when it starts, what the counters of each NIC
read, and when it judges the bandwidth. -/
structure Poll where
  now : ℚ
  readNicBytes : String → Option (Int × Int)
  updateNow : ℚ

namespace NetworkMonitor

def emaAlpha : ℚ := 1 / 4

def ewma (sample ema : ℚ) : ℚ := emaAlpha * sample + (1 - emaAlpha) * ema

variable (cfg : MonitorConfig) (m : NetworkMonitor)

def new : NetworkMonitor where
  nicState := cfg.nics.foldl (fun d nic => assign d nic {}) ∅

def isCongested : Bool := !m.ioAllowed

/-- The rate of a NIC since its last sample, smoothed. -/
def nicEma (st : NicState) (now : ℚ) (total : Int) : ℚ :=
  match st.lastSample with
  | none => 0
  | some prev =>
      let dt := now - prev.ts
      if dt < 1 / 1000000 then
        st.ema
      else
        ewma (max ((total - (prev.tx + prev.rx) : ℚ) / dt) 0) st.ema

def pollOneNic (now : ℚ) (raw : Option (Int × Int)) (nic : String) :
    NetworkMonitor × ℚ :=
  match raw with
  | none => (m, 0)
  | some (tx, rx) =>
      let st := (m.nicState.lookup nic).getD {}
      let newEma := nicEma st now (tx + rx)
      ({ m with
          nicState := assign m.nicState nic
            { lastSample := some { ts := now, tx, rx }
              ema := newEma
              window := pushWindow st.window newEma } }, newEma)

/-- Poll every NIC and add the rates up. -/
def pollNics (p : Poll) : NetworkMonitor × ℚ :=
  cfg.nics.foldl
    (fun acc nic =>
      let polled := acc.1.pollOneNic p.now (p.readNicBytes nic) nic
      (polled.1, acc.2 + polled.2))
    (m, 0)

/-- Clear the gate or set it, with the time the link was congested. -/
def flipGate (congested : Bool) (now : ℚ) : NetworkMonitor :=
  if congested && m.ioAllowed then
    { m with
      ioAllowed := false
      congestionStart := some now
      stats.congestionEvents := m.stats.congestionEvents + 1 }
  else if !congested && !m.ioAllowed then
    match m.congestionStart with
    | some start =>
        -- a start at time zero is false in Python and stays where it is
        if start ≠ 0 then
          { m with
            ioAllowed := true
            congestionStart := none
            stats.totalCongestionMs :=
              m.stats.totalCongestionMs + (now - start) * 1000 }
        else
          { m with ioAllowed := true }
    | none => { m with ioAllowed := true }
  else
    m

def updateCongestionState (totalBps now : ℚ) : NetworkMonitor :=
  let flipped := m.flipGate (decide (cfg.thresholdBps ≤ totalBps)) now
  if flipped.stats.peakBps < totalBps then
    { flipped with stats.peakBps := totalBps }
  else
    flipped

/-- What a poll does before it judges the bandwidth: sample, smooth, and keep
the peak. -/
def samplePoll (p : Poll) : NetworkMonitor :=
  let counted := { m with stats.pollCount := m.stats.pollCount + 1 }
  let polled := if cfg.simulated then (counted, counted.simBps)
    else counted.pollNics cfg p
  { polled.1 with
    totalBpsEma := ewma polled.2 polled.1.totalBpsEma
    totalBpsPeak := max polled.1.totalBpsPeak polled.2 }

/-- One turn of the poll loop under its lock. -/
def pollOnce (p : Poll) : NetworkMonitor :=
  let sampled := m.samplePoll cfg p
  sampled.updateCongestionState cfg sampled.totalBpsEma p.updateNow

def setSimulatedBps (bps now : ℚ) : NetworkMonitor :=
  { m with simBps := bps }.updateCongestionState cfg bps now

variable {cfg m}

theorem flipGate_ioAllowed (congested : Bool) (now : ℚ) :
    (m.flipGate congested now).ioAllowed = !congested := by
  unfold flipGate
  cases congested <;> cases hgate : m.ioAllowed
  case false.false =>
    simp only [Bool.false_eq_true, ↓reduceIte, Bool.not_false, Bool.and_self]
    cases m.congestionStart with
    | none => rfl
    | some start =>
        dsimp only
        split <;> rfl
  all_goals simp [hgate]

/-- After an update the gate says how the bandwidth compared. -/
theorem updateCongestionState_isCongested (totalBps now : ℚ) :
    (m.updateCongestionState cfg totalBps now).isCongested =
      decide (cfg.thresholdBps ≤ totalBps) := by
  have hflip := flipGate_ioAllowed (m := m)
    (decide (cfg.thresholdBps ≤ totalBps)) now
  unfold updateCongestionState isCongested
  dsimp only
  split <;> simp [hflip]

/-- Every bandwidth that was judged is at most the peak of the statistics. -/
theorem le_peakBps_updateCongestionState (totalBps now : ℚ) :
    totalBps ≤ (m.updateCongestionState cfg totalBps now).stats.peakBps := by
  unfold updateCongestionState
  dsimp only
  split
  next => exact le_refl _
  next hle => exact not_lt.mp hle

end NetworkMonitor

/-- The monitor and the router of `TEMPOSchedulerV3`, and the attribute
`_set_congested` of the monitor, which a new monitor does not have. -/
structure LinkGate where
  netMonitor : NetworkMonitor
  topoRouter : TopologyRouter
  setCongested : Option (Bool → TopologyRouter → TopologyRouter) := none

/-- What reaches the two parts once the scheduler is built. -/
inductive LinkEvent where
  | poll (p : Poll)
  | setSimulatedBps (bps now : ℚ)
  | routeKvPlacement (kvSizeBytes : Int) (availablePeers : Option (List Nat))
      (windowMs : Option ℚ) (hwCongested : Bool)

namespace LinkGate

variable (cfg : MonitorConfig)

/-- The hook: the attribute that was there before, then the router. -/
def patchedSetCong (orig : Option (Bool → TopologyRouter → TopologyRouter))
    (val : Bool) (router : TopologyRouter) : TopologyRouter :=
  (orig.elim router fun set => set val router).setGlobalLinkSaturated val

def wire (g : LinkGate) : LinkGate :=
  { g with setCongested := some (patchedSetCong g.setCongested) }

/-- The parts of a new scheduler.  The monitor is started before the router
exists, so it may have polled already. -/
def new (rank : Nat) (myGroup : Int) (globalLinkQuota : ℚ)
    (early : List Poll) : LinkGate :=
  wire {
    netMonitor := early.foldl (fun m p => m.pollOnce cfg p) (.new cfg)
    topoRouter := .new rank myGroup globalLinkQuota }

def step (g : LinkGate) : LinkEvent → Option LinkGate
  | .poll p => some { g with netMonitor := g.netMonitor.pollOnce cfg p }
  | .setSimulatedBps bps now =>
      some { g with netMonitor := g.netMonitor.setSimulatedBps cfg bps now }
  | .routeKvPlacement size peers window hw =>
      some { g with
        topoRouter := (g.topoRouter.routeKvPlacement size peers window hw).1 }

/-- The bandwidth an event has the monitor judge: the one it is told, or the
smoothed total with the samples of this poll. -/
def judgedBps (g : LinkGate) : LinkEvent → Option ℚ
  | .poll p => some (g.netMonitor.samplePoll cfg p).totalBpsEma
  | .setSimulatedBps bps _ => some bps
  | .routeKvPlacement .. => none

/-- If the event is an update of the gate, the router knows the outcome. -/
def RouterSees (g : LinkGate) (e : LinkEvent) : Prop :=
  (g.judgedBps cfg e).isSome → ∀ h ∈ g.step cfg e,
    h.topoRouter.globalLinkSaturated = h.netMonitor.isCongested

/-- If the event is an update of the gate, it finds the link below the
threshold. -/
def Headroom (g : LinkGate) (e : LinkEvent) : Prop :=
  ∀ bps ∈ g.judgedBps cfg e, bps < cfg.thresholdBps

variable {cfg} {g h : LinkGate} {e : LinkEvent} {es : List LinkEvent}
  {rank : Nat} {myGroup : Int} {quota : ℚ} {early : List Poll}

/-- The hook would do what it is for. -/
theorem patchedSetCong_globalLinkSaturated
    (orig : Option (Bool → TopologyRouter → TopologyRouter)) (val : Bool)
    (router : TopologyRouter) :
    (patchedSetCong orig val router).globalLinkSaturated = val := by
  simp [patchedSetCong, TopologyRouter.setGlobalLinkSaturated]

end LinkGate

namespace TopologyRouter

variable {r : TopologyRouter} {size : Int} {peers : Option (List Nat)}
  {window : Option ℚ} {hw : Bool}

/-- A decision leaves the flag alone. -/
theorem routeKvPlacement_globalLinkSaturated :
    (r.routeKvPlacement size peers window hw).1.globalLinkSaturated =
      r.globalLinkSaturated := by
  unfold routeKvPlacement
  dsimp only
  split
  · rfl
  · split <;> rfl

/-- A router whose flag is down defers only for its own counters. -/
theorem hwCongested_of_deferred (hflag : r.globalLinkSaturated = false)
    (hdefer : (r.routeKvPlacement size peers window hw).2.tier = .deferred) :
    hw = true := by
  unfold routeKvPlacement at hdefer
  dsimp only at hdefer
  split at hdefer
  next => simp at hdefer
  next =>
    split at hdefer
    next hmust =>
      simp only [mustDefer, hflag, Bool.false_or, Bool.and_eq_true] at hmust
      exact hmust.1
    next => simp at hdefer

end TopologyRouter

namespace LinkGate

variable {cfg : MonitorConfig} {g h : LinkGate} {e : LinkEvent}
  {es : List LinkEvent} {rank : Nat} {myGroup : Int} {quota : ℚ}
  {early : List Poll}

/-- No event raises the flag of the router. -/
theorem step_globalLinkSaturated (hstep : g.step cfg e = some h) :
    h.topoRouter.globalLinkSaturated = g.topoRouter.globalLinkSaturated := by
  cases e with
  | poll p =>
      obtain rfl := Option.some.inj hstep
      rfl
  | setSimulatedBps bps now =>
      obtain rfl := Option.some.inj hstep
      rfl
  | routeKvPlacement size peers window hw =>
      obtain rfl := Option.some.inj hstep
      exact TopologyRouter.routeKvPlacement_globalLinkSaturated

/-- An update leaves the gate as the judged bandwidth has it. -/
theorem step_isCongested {bps : ℚ} (hbps : bps ∈ g.judgedBps cfg e)
    (hstep : g.step cfg e = some h) :
    h.netMonitor.isCongested = decide (cfg.thresholdBps ≤ bps) := by
  cases e with
  | poll p =>
      obtain rfl := Option.some.inj hbps
      obtain rfl := Option.some.inj hstep
      exact NetworkMonitor.updateCongestionState_isCongested _ _
  | setSimulatedBps value now =>
      obtain rfl := Option.some.inj hbps
      obtain rfl := Option.some.inj hstep
      exact NetworkMonitor.updateCongestionState_isCongested _ _
  | routeKvPlacement size peers window hw =>
      simp [judgedBps] at hbps

/-- With the flag down, the router knows the outcome of an update exactly when
the gate is left open. -/
theorem routerSees_iff (hflag : g.topoRouter.globalLinkSaturated = false) :
    g.RouterSees cfg e ↔ g.Headroom cfg e := by
  obtain ⟨h, hstep⟩ : ∃ h, g.step cfg e = some h := by
    cases e <;> exact ⟨_, rfl⟩
  have hdown : h.topoRouter.globalLinkSaturated = false :=
    (step_globalLinkSaturated hstep).trans hflag
  unfold RouterSees Headroom
  cases hjudged : g.judgedBps cfg e with
  | none => simp
  | some bps =>
      have hgate : h.netMonitor.isCongested = decide (cfg.thresholdBps ≤ bps) :=
        step_isCongested hjudged hstep
      simp [hstep, hdown, hgate]

/-- Along every run after the scheduler is built, the router knows the outcome
of each update exactly when each update finds the link below the threshold. -/
theorem router_sees_monitor_iff (cfg : MonitorConfig) (rank : Nat)
    (myGroup : Int) (quota : ℚ) (early : List Poll) (es : List LinkEvent) :
    Meets (step cfg) (RouterSees cfg) (new cfg rank myGroup quota early) es ↔
      Meets (step cfg) (Headroom cfg) (new cfg rank myGroup quota early) es := by
  apply Meets.congr fun g => g.topoRouter.globalLinkSaturated = false
  · rfl
  · intro g e h hflag hstep
    exact (step_globalLinkSaturated hstep).trans hflag
  · intro g e hflag
    exact routerSees_iff hflag

/-- A simulated bandwidth of 20 GB/s closes the gate and the router does not
hear of it. -/
theorem router_misses_congestion :
    ¬ ∀ (cfg : MonitorConfig) (rank : Nat) (myGroup : Int) (quota : ℚ)
        (early : List Poll) (es : List LinkEvent),
      Meets (step cfg) (RouterSees cfg)
        (new cfg rank myGroup quota early) es := by
  intro hall
  have hsees := (hall { nics := [] } 0 0 (1 / 5) []
    [.setSimulatedBps (20 * 10 ^ 9) 1]).1
  have hgate := hsees rfl _ rfl
  exact absurd hgate (by decide +kernel)

end LinkGate

end Tempo
