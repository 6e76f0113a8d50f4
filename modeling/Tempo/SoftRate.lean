import Tempo.RateLedger
import Tempo.SoftAbsorber

/-!
# The rate of the soft absorber

The flush thread fills its bucket when it has popped an item and, if that is
not enough, once more after a sleep.  Both times it counts from `last_t`, which
only the first moves: what came in during the sleep is credited again when the
next item is popped.  Here the absorber runs with a clock, and each put is
entered with its time.  The thread keeps to its rate in runs where the second
credit has no effect, because the bucket would be full anyhow.
-/

namespace Tempo

open RateLedger Runs

/-- The soft absorber in time.  `credited` is the time up to which the bucket
has been filled, and `written` what has been put to the store, and when. -/
structure TimedAbsorber (κ τ : Type*) where
  soft : SoftAbsorber κ τ
  clock : ℚ
  credited : ℚ
  written : List (ℚ × ℚ) := []

namespace TimedAbsorber

variable {κ τ : Type*}

/-- The thread starts at `start`. -/
def init (cfg : SoftConfig) (start : ℚ) : TimedAbsorber κ τ :=
  { soft := .init cfg start, clock := start, credited := start }

variable (cfg : SoftConfig) (nbytes : τ → Nat) (s : TimedAbsorber κ τ)

/-- A statement of the thread takes place at `now`. -/
def atTime (now : ℚ) (soft : SoftAbsorber κ τ) : TimedAbsorber κ τ :=
  match s.soft.worker with
  | .refill _ | .sleep _ => { s with soft, clock := now, credited := now }
  | .put item =>
      { s with
        soft
        clock := now
        written := s.written ++ [(now, (nbytes item.2 : ℚ))] }
  | _ => { s with soft, clock := now }

def step (e : SoftAbsorber.Event κ τ) : Option (TimedAbsorber κ τ) :=
  (s.soft.step cfg nbytes e).map fun soft =>
    match e with
    | .worker now => s.atTime nbytes now soft
    | _ => { s with soft }

/-- The end of the sleep the thread is in, if it wakes at once. -/
def wakes : ℚ :=
  match s.soft.worker with
  | .sleep item => s.soft.lastT + nbytes item.2 / cfg.rateBps
  | _ => s.clock

/-- Time does not go back, `sleep(d)` takes at least `d`, and a tensor fits the
bucket. -/
def Timely : SoftAbsorber.Event κ τ → Prop
  | .worker now => s.clock ≤ now ∧ s.wakes cfg nbytes ≤ now
  | .absorb _ tensor => (nbytes tensor : ℚ) ≤ cfg.burstB
  | _ => True

/-- If the event fills the bucket for an item, then nothing has been credited
since `last_t`, or the bucket would be full without it. -/
def CreditsOnce : SoftAbsorber.Event κ τ → Prop
  | .worker now =>
      match s.soft.worker with
      | .refill _ =>
          s.credited = s.soft.lastT ∨
            cfg.burstB ≤ s.soft.tokens + (now - s.credited) * cfg.rateBps
      | _ => True
  | _ => True

instance (e : SoftAbsorber.Event κ τ) : Decidable (s.Timely cfg nbytes e) := by
  cases e <;> unfold Timely <;> infer_instance

instance (e : SoftAbsorber.Event κ τ) : Decidable (s.CreditsOnce cfg e) := by
  cases e with
  | worker now =>
      unfold CreditsOnce
      dsimp only
      split <;> infer_instance
  | _ => exact isTrue trivial

/-- What holds in runs that credit everything once.  The ledger enters each put
with the time of its last refill, which is no later than the put. -/
structure Paced (start : ℚ) : Prop where
  start_le : start ≤ s.credited
  lastT_le : s.soft.lastT ≤ s.credited
  credited_le : s.credited ≤ s.clock
  nonneg : 0 ≤ s.soft.tokens
  fits : ∀ item ∈ s.soft.worker.item?.toList ++ s.soft.queue,
    (nbytes item.2 : ℚ) ≤ cfg.burstB
  asleep : ∀ item, s.soft.worker = .sleep item → s.credited = s.soft.lastT
  enough : ∀ item, s.soft.worker = .put item →
    (nbytes item.2 : ℚ) ≤ s.soft.tokens
  ledger : ∃ spent : List (ℚ × ℚ),
    Ledger.Sound cfg.rateBps cfg.burstB
      { level := s.soft.tokens, time := s.credited, spent } ∧
    List.Forall₂ (fun e f => start ≤ e.1 ∧ e.1 ≤ f.1 ∧ e.2 = f.2)
      spent s.written

variable {cfg nbytes s} {t : TimedAbsorber κ τ} {start now : ℚ}

theorem paced_init (hrate : 0 ≤ cfg.rateBps) (hburst : 0 ≤ cfg.burstB) :
    (init cfg start : TimedAbsorber κ τ).Paced cfg nbytes start where
  start_le := le_rfl
  lastT_le := le_rfl
  credited_le := le_rfl
  nonneg := hburst
  fits := by simp [init, SoftAbsorber.init, SoftPc.item?]
  asleep := by simp [init, SoftAbsorber.init]
  enough := by simp [init, SoftAbsorber.init]
  ledger := ⟨[], .start hrate hburst le_rfl, .nil⟩

/-- A step that leaves the bucket and the clock alone, or lets time pass. -/
theorem Paced.idle (h : s.Paced cfg nbytes start) {soft : SoftAbsorber κ τ}
    {clock : ℚ} (hclock : s.clock ≤ clock)
    (htokens : soft.tokens = s.soft.tokens) (hlast : soft.lastT = s.soft.lastT)
    (hfits : ∀ item ∈ soft.worker.item?.toList ++ soft.queue,
      (nbytes item.2 : ℚ) ≤ cfg.burstB)
    (hworker : soft.worker = s.soft.worker ∨ ∀ item,
      soft.worker ≠ .sleep item ∧ soft.worker ≠ .put item) :
    Paced cfg nbytes { s with soft, clock } start where
  start_le := h.start_le
  lastT_le := by rw [hlast]; exact h.lastT_le
  credited_le := h.credited_le.trans hclock
  nonneg := by rw [htokens]; exact h.nonneg
  fits := hfits
  asleep := by
    intro item hitem
    rcases hworker with hsame | hother
    · rw [hlast]
      exact h.asleep item (hsame.symm.trans hitem)
    · exact absurd hitem (hother item).1
  enough := by
    intro item hitem
    rcases hworker with hsame | hother
    · rw [htokens]
      exact h.enough item (hsame.symm.trans hitem)
    · exact absurd hitem (hother item).2
  ledger := by rw [htokens]; exact h.ledger

/-- Filling the bucket adds at most what has come in since it was filled
last. -/
theorem refilled_le (hcredit : s.credited = s.soft.lastT ∨
      cfg.burstB ≤ s.soft.tokens + (now - s.credited) * cfg.rateBps) :
    s.soft.refilled cfg now ≤
      s.soft.tokens + cfg.rateBps * (now - s.credited) := by
  rw [mul_comm cfg.rateBps]
  unfold SoftAbsorber.refilled
  rcases hcredit with honce | hfull
  · rw [honce]
    exact min_le_left _ _
  · exact (min_le_right _ _).trans hfull

theorem Paced.refilled_nonneg (h : s.Paced cfg nbytes start)
    (hrate : 0 ≤ cfg.rateBps) (hburst : 0 ≤ cfg.burstB)
    (hnow : s.clock ≤ now) : 0 ≤ s.soft.refilled cfg now := by
  have hlast := h.lastT_le
  have hcredited := h.credited_le
  have hadded : 0 ≤ (now - s.soft.lastT) * cfg.rateBps :=
    mul_nonneg (by linarith) hrate
  exact le_min (add_nonneg h.nonneg hadded) hburst

/-- The bucket is filled up to `now`. -/
theorem Paced.fill (h : s.Paced cfg nbytes start) (hrate : 0 ≤ cfg.rateBps)
    (hburst : 0 ≤ cfg.burstB) (hnow : s.clock ≤ now)
    (hcredit : s.credited = s.soft.lastT ∨
      cfg.burstB ≤ s.soft.tokens + (now - s.credited) * cfg.rateBps)
    {soft : SoftAbsorber κ τ}
    (htokens : soft.tokens = s.soft.refilled cfg now) (hlast : soft.lastT ≤ now)
    (hfits : ∀ item ∈ soft.worker.item?.toList ++ soft.queue,
      (nbytes item.2 : ℚ) ≤ cfg.burstB)
    (hasleep : ∀ item, soft.worker = .sleep item → now = soft.lastT)
    (henough : ∀ item, soft.worker = .put item →
      (nbytes item.2 : ℚ) ≤ soft.tokens) :
    Paced cfg nbytes { s with soft, clock := now, credited := now } start where
  start_le := h.start_le.trans (h.credited_le.trans hnow)
  lastT_le := hlast
  credited_le := le_rfl
  nonneg := by
    rw [htokens]
    exact h.refilled_nonneg hrate hburst hnow
  fits := hfits
  asleep := hasleep
  enough := henough
  ledger := by
    obtain ⟨spent, hsound, hwritten⟩ := h.ledger
    refine ⟨spent, ?_, hwritten⟩
    rw [htokens]
    exact hsound.refill hrate (h.credited_le.trans hnow) (refilled_le hcredit)
      (min_le_right _ _)

section Statements

variable {soft : SoftAbsorber κ τ} {item : κ × τ}

/-- The bucket is filled for the item popped. -/
theorem Paced.refill (h : s.Paced cfg nbytes start) (hrate : 0 < cfg.rateBps)
    (hburst : 0 ≤ cfg.burstB) (hpc : s.soft.worker = .refill item)
    (hnow : s.clock ≤ now) (honce : s.CreditsOnce cfg (.worker now))
    (hstep : s.soft.workerStep cfg nbytes now = some soft) :
    (s.atTime nbytes now soft).Paced cfg nbytes start := by
  obtain rfl := by simpa [SoftAbsorber.workerStep, hpc] using hstep
  have hfits := h.fits
  rw [hpc] at hfits
  have hcredit : s.credited = s.soft.lastT ∨ cfg.burstB ≤
      s.soft.tokens + (now - s.credited) * cfg.rateBps := by
    simpa [CreditsOnce, hpc] using honce
  simp only [atTime, hpc]
  refine h.fill hrate.le hburst hnow hcredit rfl le_rfl ?_ ?_ ?_
  · dsimp only
    split <;> exact hfits
  · exact fun _ _ => rfl
  · intro other hother
    dsimp only at hother ⊢
    split at hother
    · cases hother
    · next hle =>
        obtain rfl := SoftPc.put.inj hother
        exact not_lt.mp hle

/-- The thread wakes and fills the bucket again. -/
theorem Paced.sleep (h : s.Paced cfg nbytes start) (hrate : 0 < cfg.rateBps)
    (hburst : 0 ≤ cfg.burstB) (hpc : s.soft.worker = .sleep item)
    (htimely : s.Timely cfg nbytes (.worker now))
    (hstep : s.soft.workerStep cfg nbytes now = some soft) :
    (s.atTime nbytes now soft).Paced cfg nbytes start := by
  obtain ⟨hnow, hwakes⟩ := htimely
  have hfits := h.fits
  rw [hpc] at hfits
  have hfit := hfits item (by simp [SoftPc.item?])
  have hcan : cfg.canSleep (nbytes item.2) :=
    ⟨hrate.ne', div_nonneg (Nat.cast_nonneg _) hrate.le⟩
  obtain rfl := by simpa [SoftAbsorber.workerStep, hpc, hcan] using hstep
  have hlast := h.asleep item hpc
  -- the sleep has made room for the item
  have hslept : (nbytes item.2 : ℚ) ≤ (now - s.soft.lastT) * cfg.rateBps := by
    have hlong : (nbytes item.2 : ℚ) / cfg.rateBps ≤ now - s.soft.lastT := by
      have hwake : s.soft.lastT + nbytes item.2 / cfg.rateBps ≤ now := by
        simpa [wakes, hpc] using hwakes
      linarith
    exact (div_le_iff₀ hrate).mp hlong
  simp only [atTime, hpc]
  refine h.fill hrate.le hburst hnow (.inl hlast) rfl ?_ hfits ?_ ?_
  · exact h.lastT_le.trans (h.credited_le.trans hnow)
  · simp
  · intro other hother
    obtain rfl := SoftPc.put.inj hother
    have hnonneg := h.nonneg
    exact le_min (by linarith) hfit

/-- The item is put, and entered in the ledger. -/
theorem Paced.put (h : s.Paced cfg nbytes start) (hrate : 0 < cfg.rateBps)
    (hpc : s.soft.worker = .put item) (hnow : s.clock ≤ now)
    (hstep : s.soft.workerStep cfg nbytes now = some soft) :
    (s.atTime nbytes now soft).Paced cfg nbytes start := by
  obtain rfl := by simpa [SoftAbsorber.workerStep, hpc] using hstep
  have hfits := h.fits
  rw [hpc] at hfits
  have henough := h.enough item hpc
  simp only [atTime, hpc]
  exact {
    start_le := h.start_le
    lastT_le := h.lastT_le
    credited_le := h.credited_le.trans hnow
    nonneg := sub_nonneg.mpr henough
    fits := fun other hother => hfits other (List.mem_cons_of_mem _ hother)
    asleep := by simp
    enough := by simp
    ledger := by
      obtain ⟨spent, hsound, hwritten⟩ := h.ledger
      refine ⟨spent ++ [(s.credited, (nbytes item.2 : ℚ))], ?_, ?_⟩
      · exact hsound.spend hrate.le (Nat.cast_nonneg _)
          (sub_nonneg.mpr henough) (by simp)
      · exact List.rel_append hwritten (.cons
          ⟨h.start_le, h.credited_le.trans hnow, rfl⟩ .nil) }

/-- A statement of the thread. -/
theorem Paced.worker (h : s.Paced cfg nbytes start) (hrate : 0 < cfg.rateBps)
    (hburst : 0 ≤ cfg.burstB) (htimely : s.Timely cfg nbytes (.worker now))
    (honce : s.CreditsOnce cfg (.worker now))
    (hstep : s.soft.workerStep cfg nbytes now = some soft) :
    (s.atTime nbytes now soft).Paced cfg nbytes start := by
  have hnow := htimely.1
  have hfits := h.fits
  cases hpc : s.soft.worker with
  | top | inner =>
      obtain rfl := by simpa [SoftAbsorber.workerStep, hpc] using hstep
      rw [hpc] at hfits
      simp only [atTime, hpc]
      refine h.idle hnow rfl rfl ?_ (.inr fun item => ?_)
      · split <;> exact hfits
      · dsimp only
        split <;> simp
  | acquire | waiting =>
      obtain rfl := by simpa [SoftAbsorber.workerStep, hpc] using hstep
      rw [hpc] at hfits
      simp only [atTime, hpc]
      exact h.idle hnow rfl rfl hfits (.inr fun item => by simp)
  | decide =>
      rw [hpc] at hfits
      simp only [atTime, hpc]
      cases hq : s.soft.queue with
      | nil =>
          obtain rfl := by simpa [SoftAbsorber.workerStep, hpc, hq] using hstep
          rw [hq] at hfits
          refine h.idle hnow rfl rfl ?_ (.inr fun item => ?_)
          · split <;> exact hfits
          · dsimp only
            split <;> simp
      | cons item rest =>
          obtain rfl := by simpa [SoftAbsorber.workerStep, hpc, hq] using hstep
          rw [hq] at hfits
          exact h.idle hnow rfl rfl hfits (.inr fun item => by simp)
  | refill item => exact h.refill hrate hburst hpc hnow honce hstep
  | sleep item => exact h.sleep hrate hburst hpc htimely hstep
  | put item => exact h.put hrate hpc hnow hstep
  | exited => simp [SoftAbsorber.workerStep, hpc] at hstep
  | crashed item => simp [SoftAbsorber.workerStep, hpc] at hstep

end Statements

theorem Paced.step (h : s.Paced cfg nbytes start) (hrate : 0 < cfg.rateBps)
    (hburst : 0 ≤ cfg.burstB) {e : SoftAbsorber.Event κ τ}
    (htimely : s.Timely cfg nbytes e) (honce : s.CreditsOnce cfg e)
    (hstep : s.step cfg nbytes e = some t) : t.Paced cfg nbytes start := by
  obtain ⟨soft, hsoft, rfl⟩ := Option.map_eq_some_iff.mp hstep
  have hfits := h.fits
  cases e with
  | absorb key tensor =>
      obtain ⟨-, rfl⟩ := by simpa [SoftAbsorber.step] using hsoft
      refine h.idle le_rfl rfl rfl ?_ (.inl rfl)
      intro item hitem
      rw [← List.append_assoc, List.mem_append] at hitem
      rcases hitem with hold | hnew
      · exact hfits item hold
      · obtain rfl := List.mem_singleton.mp hnew
        exact htimely
  | worker now => exact h.worker hrate hburst htimely honce hsoft
  | shutdown =>
      obtain ⟨-, rfl⟩ := by simpa [SoftAbsorber.step] using hsoft
      exact h.idle le_rfl rfl rfl hfits (.inl rfl)
  | closing =>
      obtain ⟨pc, rfl, -⟩ := SoftAbsorber.closing_cases hsoft
      exact h.idle le_rfl rfl rfl hfits (.inl rfl)

/-- **The soft absorber keeps to its rate while nothing is credited twice.**
Within time `t` of its start the thread puts at most `burst + rate * t` bytes
to the store. -/
theorem put_within_rate (cfg : SoftConfig) (nbytes : τ → Nat) (start : ℚ)
    (s : TimedAbsorber κ τ) (hrate : 0 < cfg.rateBps)
    (hburst : 0 ≤ cfg.burstB)
    (hrun : Reach (step cfg nbytes)
      (fun s e => s.Timely cfg nbytes e ∧ s.CreditsOnce cfg e)
      (init cfg start) s) (t : ℚ) (ht : 0 ≤ t) :
    spentBetween start (start + t) s.written ≤
      cfg.burstB + cfg.rateBps * t := by
  have hs : s.Paced cfg nbytes start := by
    apply hrun.invariant (paced_init hrate.le hburst)
    intro s e t hs hcond hstep
    exact hs.step hrate hburst hcond.1 hcond.2 hstep
  obtain ⟨spent, hsound, hwritten⟩ := hs.ledger
  calc spentBetween start (start + t) s.written
      ≤ spentBetween start (start + t) spent :=
        spentBetween_later hwritten hsound.nonneg
    _ ≤ cfg.burstB + cfg.rateBps * (start + t - start) :=
        hsound.within start (start + t) (by linarith)
    _ = cfg.burstB + cfg.rateBps * t := by rw [add_sub_cancel_left]

/-- One gigabyte a second, one megabyte at once. -/
def smallBucket : SoftConfig := { rateGbps := 1, burstMb := 1 }

/-- The thread takes up an item that is there. -/
def takeItem (now : ℚ) : List (SoftAbsorber.Event Nat Nat) :=
  List.replicate 5 (.worker now)

open SoftAbsorber in
/-- Three items of a megabyte: the second is slept for, and the third is paid
with the same time. -/
def threeItems : List (SoftAbsorber.Event Nat Nat) :=
  [Event.absorb 1 1048576, .absorb 2 1048576, .absorb 3 1048576] ++
    takeItem 0 ++ [Event.worker 0] ++
    takeItem 0 ++ [Event.worker (1048576 / 1000000000),
      .worker (1048576 / 1000000000)] ++
    takeItem (1048576 / 1000000000) ++ [Event.worker (1048576 / 1000000000)]

theorem put_above_rate :
    ¬ ∀ (cfg : SoftConfig) (nbytes : Nat → Nat) (start : ℚ)
      (s : TimedAbsorber Nat Nat), 0 < cfg.rateBps → 0 ≤ cfg.burstB →
      Reach (step cfg nbytes) (Timely cfg nbytes) (init cfg start) s →
      ∀ t, 0 ≤ t → spentBetween start (start + t) s.written ≤
        cfg.burstB + cfg.rateBps * t := by
  intro hall
  obtain ⟨s, hreach, hspent⟩ : ∃ s : TimedAbsorber Nat Nat,
      Reach (step smallBucket id) (Timely smallBucket id)
        (init smallBucket 0) s ∧
      spentBetween 0 (0 + 1048576 / 1000000000) s.written = 3145728 :=
    Reach.exists_of_exec threeItems (by decide +kernel) (by decide +kernel)
  have hbound := hall smallBucket id 0 s (by decide +kernel) (by decide +kernel)
    hreach (1048576 / 1000000000) (by norm_num)
  rw [hspent] at hbound
  exact absurd hbound (by decide +kernel)

/-- Two items of a megabyte: the second is slept for. -/
theorem put_within_rate_two :
    ∃ s : TimedAbsorber Nat Nat,
      s.written = [(0, 1048576), (1048576 / 1000000000, 1048576)] ∧
      spentBetween 0 (0 + 1048576 / 1000000000) s.written ≤
        smallBucket.burstB + smallBucket.rateBps *
          (1048576 / 1000000000) := by
  obtain ⟨s, hreach, hwritten⟩ : ∃ s : TimedAbsorber Nat Nat,
      Reach (step smallBucket id)
        (fun s e => s.Timely smallBucket id e ∧ s.CreditsOnce smallBucket e)
        (init smallBucket 0) s ∧
      s.written = [(0, 1048576), (1048576 / 1000000000, 1048576)] :=
    Reach.exists_of_exec (threeItems.take 17) (by decide +kernel)
      (by decide +kernel)
  exact ⟨s, hwritten, put_within_rate smallBucket id 0 s (by decide +kernel)
    (by decide +kernel) hreach _ (by norm_num)⟩

end TimedAbsorber

end Tempo
