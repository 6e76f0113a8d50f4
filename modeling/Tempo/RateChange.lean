import Mathlib.Algebra.Order.Field.Basic
import Mathlib.Data.Rat.Defs
import Mathlib.Algebra.Order.Ring.Rat
import Mathlib.Logic.Function.Basic
import Mathlib.Tactic.Linarith
import Mathlib.Tactic.Ring
import Tempo.Runs

/-!
# Changing the rate of a bucket

The token bucket of `service_gain` fills when an `acquire` looks at it, at the
rate it has then.  `set_rate` sets the rate and wakes the waiting threads, and
does not fill the bucket first: the time since the last look is credited at the
new rate.  What the bucket would hold if it were filled now, `held`, moves with
the rate in force and with the grants, except where a change of the rate raises
it.
-/

namespace Tempo

open Runs

/-- `TokenBucket` of `service_gain`. -/
structure JobBucket where
  rateBps : ℚ
  capacity : ℚ
  tokens : ℚ
  lastTs : ℚ
  deriving DecidableEq

namespace JobBucket

/-- `capacity_bytes or (rate_bps * 0.1)`. -/
def capacityOr (rateBps : ℚ) (capacityBytes : Option ℚ) : ℚ :=
  match capacityBytes with
  | some bytes => if bytes = 0 then rateBps * (1 / 10) else bytes
  | none => rateBps * (1 / 10)

def new (rateBps : ℚ) (capacityBytes : Option ℚ) (now : ℚ) : JobBucket :=
  { rateBps
    capacity := capacityOr rateBps capacityBytes
    tokens := capacityOr rateBps capacityBytes
    lastTs := now }

def setRate (b : JobBucket) (rateBps : ℚ) : JobBucket :=
  { b with rateBps }

def refill (b : JobBucket) (now : ℚ) : JobBucket :=
  { b with
    tokens := min b.capacity (b.tokens + (now - b.lastTs) * b.rateBps)
    lastTs := now }

end JobBucket

/-- Where a thread is in `acquire`. -/
inductive AcquirePc where
  | idle
  /-- before the lock or in the wait -/
  | trying (nBytes deadline : ℚ)
  /-- has found too few tokens, and holds the lock -/
  | short (nBytes deadline : ℚ)
  deriving DecidableEq

/-- The bucket and the threads that call `acquire`.  `granted` is what the calls
that returned true took, and `accrued` the integral of the rate in force. -/
structure JobThrottle (ι : Type*) where
  bucket : JobBucket
  now : ℚ
  callers : ι → AcquirePc := fun _ => .idle
  owner : Option ι := none
  granted : ℚ := 0
  accrued : ℚ := 0

inductive ThrottleEvent (ι : Type*) where
  | acquire (i : ι) (nBytes : ℚ) (timeout : Option ℚ)
  /-- the lock is taken, the bucket filled and the tokens taken, if they
  suffice -/
  | attempt (i : ι)
  /-- the clock is read against the deadline -/
  | check (i : ι)
  | setRate (rateBps : ℚ)
  | pass (dt : ℚ)

namespace JobThrottle

variable {ι : Type*} [DecidableEq ι]

/-- `timeout or 1e9`. -/
def timeoutOr (timeout : Option ℚ) : ℚ :=
  match timeout with
  | some s => if s = 0 then 1000000000 else s
  | none => 1000000000

def setCaller (s : JobThrottle ι) (i : ι) (pc : AcquirePc) : JobThrottle ι :=
  { s with callers := Function.update s.callers i pc }

def step (s : JobThrottle ι) : ThrottleEvent ι → Option (JobThrottle ι)
  | .acquire i nBytes timeout =>
      match s.callers i with
      | .idle => some (s.setCaller i (.trying nBytes (s.now + timeoutOr timeout)))
      | _ => none
  | .attempt i =>
      match s.callers i, s.owner with
      | .trying nBytes deadline, none =>
          let b := s.bucket.refill s.now
          if nBytes ≤ b.tokens then
            some { s.setCaller i .idle with
              bucket := { b with tokens := b.tokens - nBytes }
              granted := s.granted + nBytes }
          else
            some { s.setCaller i (.short nBytes deadline) with
              bucket := b
              owner := some i }
      | _, _ => none
  | .check i =>
      match s.callers i with
      | .short nBytes deadline =>
          if deadline - s.now ≤ 0 then
            some { s.setCaller i .idle with owner := none }
          else some { s.setCaller i (.trying nBytes deadline) with owner := none }
      | _ => none
  | .setRate rateBps =>
      match s.owner with
      | none => some { s with bucket := s.bucket.setRate rateBps }
      | some _ => none
  | .pass dt =>
      some { s with
        now := s.now + dt
        accrued := s.accrued + dt * s.bucket.rateBps }

def init (rateBps : ℚ) (capacityBytes : Option ℚ) (now : ℚ) : JobThrottle ι :=
  { bucket := .new rateBps capacityBytes now
    now }

/-- The clock does not go back, and rates are not negative. -/
def Timely (_ : JobThrottle ι) : ThrottleEvent ι → Prop
  | .setRate rateBps => 0 ≤ rateBps
  | .pass dt => 0 ≤ dt
  | _ => True

/-- The rate is not raised, or no time has passed since the bucket was filled, or
it would be full at the old rate. -/
def Honoured (s : JobThrottle ι) : ThrottleEvent ι → Prop
  | .setRate rateBps =>
      rateBps ≤ s.bucket.rateBps ∨ s.now ≤ s.bucket.lastTs ∨
        s.bucket.capacity ≤
          s.bucket.tokens + (s.now - s.bucket.lastTs) * s.bucket.rateBps
  | _ => True

instance (s : JobThrottle ι) : ∀ e, Decidable (s.Timely e)
  | .setRate _ | .pass _ => inferInstanceAs (Decidable (_ ≤ _))
  | .acquire _ _ _ | .attempt _ | .check _ => isTrue trivial

instance (s : JobThrottle ι) : ∀ e, Decidable (s.Honoured e)
  | .setRate _ => inferInstanceAs (Decidable (_ ∨ _ ∨ _))
  | .pass _ | .acquire _ _ _ | .attempt _ | .check _ => isTrue trivial

/-- What the bucket would hold if it were filled now. -/
def held (s : JobThrottle ι) : ℚ :=
  (s.bucket.refill s.now).tokens

/-- What keeps `held` between empty and full. -/
structure Filling (s : JobThrottle ι) : Prop where
  rate : 0 ≤ s.bucket.rateBps
  capacity : 0 ≤ s.bucket.capacity
  tokens : 0 ≤ s.bucket.tokens
  past : s.bucket.lastTs ≤ s.now

variable {s t : JobThrottle ι} {e : ThrottleEvent ι}

omit [DecidableEq ι] in
theorem held_le_capacity : s.held ≤ s.bucket.capacity :=
  min_le_left _ _

omit [DecidableEq ι] in
theorem Filling.held_nonneg (h : s.Filling) : 0 ≤ s.held := by
  have hcredit := mul_nonneg (sub_nonneg.mpr h.past) h.rate
  exact le_min h.capacity (add_nonneg h.tokens hcredit)

/-- What a step does to the bucket, the clock and the two sums. -/
inductive Moves (s : JobThrottle ι) :
    ThrottleEvent ι → JobThrottle ι → Prop
  | idle {e : ThrottleEvent ι} {t : JobThrottle ι} (hbucket : t.bucket = s.bucket)
      (hnow : t.now = s.now) (hgranted : t.granted = s.granted)
      (haccrued : t.accrued = s.accrued) : Moves s e t
  | attempt {i : ι} {taken : ℚ} {t : JobThrottle ι}
      (hthere : taken ≤ s.held ∨ taken = 0)
      (hbucket : t.bucket =
        { s.bucket.refill s.now with tokens := s.held - taken })
      (hnow : t.now = s.now) (hgranted : t.granted = s.granted + taken)
      (haccrued : t.accrued = s.accrued) : Moves s (.attempt i) t
  | setRate {rateBps : ℚ} :
      Moves s (.setRate rateBps) { s with bucket := s.bucket.setRate rateBps }
  | pass {dt : ℚ} : Moves s (.pass dt)
      { s with now := s.now + dt, accrued := s.accrued + dt * s.bucket.rateBps }

theorem moves_of_step (hstep : s.step e = some t) : s.Moves e t := by
  cases e with
  | acquire i nBytes timeout =>
      unfold step at hstep
      dsimp only at hstep
      split at hstep
      · obtain rfl := Option.some.inj hstep
        exact .idle rfl rfl rfl rfl
      · cases hstep
  | attempt i =>
      unfold step at hstep
      dsimp only at hstep
      split at hstep
      · split at hstep
        · next hthere =>
            obtain rfl := Option.some.inj hstep
            exact .attempt (.inl hthere) rfl rfl rfl rfl
        · obtain rfl := Option.some.inj hstep
          refine .attempt (.inr rfl) ?_ rfl (add_zero _).symm rfl
          rw [sub_zero]
          rfl
      · cases hstep
  | check i =>
      unfold step at hstep
      dsimp only at hstep
      split at hstep
      · split at hstep
        · obtain rfl := Option.some.inj hstep
          exact .idle rfl rfl rfl rfl
        · obtain rfl := Option.some.inj hstep
          exact .idle rfl rfl rfl rfl
      · cases hstep
  | setRate rateBps =>
      unfold step at hstep
      dsimp only at hstep
      split at hstep
      · obtain rfl := Option.some.inj hstep
        exact .setRate
      · cases hstep
  | pass dt =>
      obtain rfl := Option.some.inj hstep
      exact .pass

omit [DecidableEq ι] in
theorem Moves.capacity (hmove : s.Moves e t) :
    t.bucket.capacity = s.bucket.capacity := by
  cases hmove with
  | idle hbucket => rw [hbucket]
  | attempt _ hbucket =>
      rw [hbucket]
      rfl
  | setRate => rfl
  | pass => rfl

omit [DecidableEq ι] in
theorem Filling.step (h : s.Filling) (htimely : s.Timely e)
    (hmove : s.Moves e t) : t.Filling := by
  cases hmove with
  | idle hbucket hnow =>
      exact ⟨by rw [hbucket]; exact h.rate, by rw [hbucket]; exact h.capacity,
        by rw [hbucket]; exact h.tokens, by rw [hbucket, hnow]; exact h.past⟩
  | attempt hthere hbucket hnow =>
      refine ⟨by rw [hbucket]; exact h.rate, by rw [hbucket]; exact h.capacity,
        ?_, by rw [hbucket, hnow]; exact le_rfl⟩
      rw [hbucket]
      rcases hthere with hthere | rfl
      · exact sub_nonneg.mpr hthere
      · exact sub_nonneg.mpr h.held_nonneg
  | setRate => exact ⟨htimely, h.capacity, h.tokens, h.past⟩
  | @pass dt =>
      have hdt : 0 ≤ dt := htimely
      exact ⟨h.rate, h.capacity, h.tokens, h.past.trans (le_add_of_nonneg_right hdt)⟩

omit [DecidableEq ι] in
/-- A change of the rate raises `held` exactly where it is not honoured. -/
theorem held_setRate_le (h : s.Filling) {rateBps : ℚ} :
    held { s with bucket := s.bucket.setRate rateBps } ≤ s.held ↔
      s.Honoured (.setRate rateBps) := by
  unfold held JobBucket.refill JobBucket.setRate Honoured
  dsimp only
  rw [le_min_iff, and_iff_right (min_le_left _ _), min_le_iff, add_le_add_iff_left]
  constructor
  · rintro (hfull | hcredit)
    · exact .inr (.inr hfull)
    · rcases h.past.lt_or_eq with hlater | hsame
      · exact .inl (le_of_mul_le_mul_left hcredit (sub_pos.mpr hlater))
      · exact .inr (.inl hsame.ge)
  · rintro (hless | hnow | hfull)
    · exact .inr (mul_le_mul_of_nonneg_left hless (sub_nonneg.mpr h.past))
    · have hsame : s.now - s.bucket.lastTs = 0 := sub_eq_zero.mpr (hnow.antisymm h.past)
      rw [hsame, zero_mul, zero_mul]
      exact .inr le_rfl
    · exact .inl hfull

omit [DecidableEq ι] in
/-- Grants are paid for by what was held and by the rate in force. -/
theorem Moves.held_add_granted_le (hmove : s.Moves e t) (h : s.Filling)
    (htimely : s.Timely e) (hhonoured : s.Honoured e) :
    t.held + t.granted ≤ s.held + s.granted + (t.accrued - s.accrued) := by
  cases hmove with
  | idle hbucket hnow hgranted haccrued =>
      unfold held
      rw [hbucket, hnow, hgranted, haccrued]
      linarith
  | @attempt i taken t _ hbucket hnow hgranted haccrued =>
      have hstored : t.bucket.tokens = s.held - taken := by rw [hbucket]
      have hlast : t.bucket.lastTs = t.now := by
        rw [hbucket, hnow]
        rfl
      have hheld : t.held ≤ s.held - taken := by
        calc t.held
            ≤ t.bucket.tokens + (t.now - t.bucket.lastTs) * t.bucket.rateBps :=
              min_le_right _ _
          _ = s.held - taken := by rw [hstored, hlast, sub_self, zero_mul, add_zero]
      rw [hgranted, haccrued]
      linarith
  | setRate =>
      have hless := (held_setRate_le h).mpr hhonoured
      dsimp only
      linarith
  | @pass dt =>
      have hdt : 0 ≤ dt := htimely
      have hcredit := mul_nonneg hdt h.rate
      have hheld : held { s with
          now := s.now + dt
          accrued := s.accrued + dt * s.bucket.rateBps } ≤
          s.held + dt * s.bucket.rateBps := by
        unfold held JobBucket.refill
        dsimp only
        rw [← min_add_add_right]
        refine min_le_min (le_add_of_nonneg_right hcredit) ?_
        rw [add_sub_right_comm, add_mul, ← add_assoc]
      dsimp only
      linarith

omit [DecidableEq ι] in
theorem filling_init {rateBps : ℚ} {capacityBytes : Option ℚ} {start : ℚ}
    (hrate : 0 ≤ rateBps) (hcapacity : ∀ bytes ∈ capacityBytes, 0 ≤ bytes) :
    (init rateBps capacityBytes start : JobThrottle ι).Filling := by
  have hburst : 0 ≤ JobBucket.capacityOr rateBps capacityBytes := by
    have htenth : 0 ≤ rateBps * (1 / 10) := mul_nonneg hrate (by norm_num)
    unfold JobBucket.capacityOr
    split
    · split
      · exact htenth
      · exact hcapacity _ rfl
    · exact htenth
  exact ⟨hrate, hburst, hburst, le_rfl⟩

/-- Over a run in which every change of the rate is honoured. -/
theorem held_add_granted_of_reach (h : s.Filling)
    (hreach : Reach step (fun s e => s.Timely e ∧ s.Honoured e) s t) :
    t.Filling ∧ t.bucket.capacity = s.bucket.capacity ∧
      t.held + t.granted ≤ s.held + s.granted + (t.accrued - s.accrued) := by
  induction hreach with
  | refl => exact ⟨h, rfl, by linarith⟩
  | tail _ hcond hstep ih =>
      obtain ⟨hfilling, hcapacity, hpaid⟩ := ih
      have hmove := moves_of_step hstep
      have hstep := hmove.held_add_granted_le hfilling hcond.1 hcond.2
      exact ⟨hfilling.step hcond.1 hmove, hmove.capacity.trans hcapacity, by linarith⟩

/-- **The rate in force is kept where changes of the rate are honoured.**  From
any state reached, at most the capacity and what accrues is granted. -/
theorem granted_within (rateBps : ℚ) (capacityBytes : Option ℚ) (start : ℚ)
    (hrate : 0 ≤ rateBps) (hcapacity : ∀ bytes ∈ capacityBytes, 0 ≤ bytes)
    (s t : JobThrottle ι) (hs : Reach step Timely (init rateBps capacityBytes start) s)
    (ht : Reach step (fun s e => s.Timely e ∧ s.Honoured e) s t) :
    t.granted - s.granted ≤ s.bucket.capacity + (t.accrued - s.accrued) := by
  have hfilling : s.Filling := by
    apply hs.invariant (filling_init hrate hcapacity)
    intro s e t hs hcond hstep
    exact hs.step hcond (moves_of_step hstep)
  obtain ⟨hend, -, hpaid⟩ := held_add_granted_of_reach hfilling ht
  have hfull := held_le_capacity (s := s)
  have hleft := hend.held_nonneg
  linarith

/-- A bucket of ten at one a second is emptied, and the rate set to ten five
seconds later. -/
def raiseEvents : List (ThrottleEvent Unit) :=
  [.acquire () 10 none, .attempt (), .pass 5, .setRate 10, .acquire () 10 none,
    .attempt ()]

/-- Twenty are granted where fifteen were there or accrued. -/
theorem granted_at_new_rate :
    ¬ ∀ (rateBps : ℚ) (capacityBytes : Option ℚ) (start : ℚ),
      0 ≤ rateBps → (∀ bytes ∈ capacityBytes, 0 ≤ bytes) →
      ∀ s t : JobThrottle Unit, Reach step Timely (init rateBps capacityBytes start) s →
        Reach step Timely s t →
        t.granted - s.granted ≤ s.bucket.capacity + (t.accrued - s.accrued) := by
  intro hall
  obtain ⟨t, hreach, hgranted, haccrued⟩ : ∃ t : JobThrottle Unit,
      Reach step Timely (init 1 (some 10) 0) t ∧ t.granted = 20 ∧ t.accrued = 5 :=
    Reach.exists_of_exec raiseEvents (by decide +kernel) (by decide +kernel)
  have hbound := hall 1 (some 10) 0 (by norm_num) (by simp) _ t .refl hreach
  rw [hgranted, haccrued] at hbound
  exact absurd hbound (by decide +kernel)

/-- The rate is set when the bucket has just been filled. -/
theorem granted_within_one :
    ∃ t : JobThrottle Unit, t.granted = 20 ∧ t.bucket.rateBps = 5 ∧
      t.granted - 0 ≤ 10 + (t.accrued - 0) := by
  obtain ⟨t, hreach, hgranted, hrate⟩ : ∃ t : JobThrottle Unit,
      Reach step (fun s e => s.Timely e ∧ s.Honoured e) (init 1 (some 10) 0) t ∧
        t.granted = 20 ∧ t.bucket.rateBps = 5 :=
    Reach.exists_of_exec
      [.acquire () 10 none, .attempt (), .setRate 5, .pass 2, .acquire () 10 none,
        .attempt ()]
      (by decide +kernel) (by decide +kernel)
  exact ⟨t, hgranted, hrate, granted_within 1 (some 10) 0 (by norm_num) (by simp) _ t
    .refl hreach⟩

end JobThrottle

end Tempo
