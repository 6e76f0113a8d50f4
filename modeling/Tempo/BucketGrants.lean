import Mathlib.Algebra.Order.Floor.Semiring
import Mathlib.Tactic.Ring
import Tempo.PacingRate

/-!
# Runs of try_consume

The bucket remembers the largest reading of the clock, since a refill that
finds the clock at or before the last one is skipped.  What a call takes and what
it leaves were there before it or came in since the last reading that was larger
than all before it.  The value returned is what was taken, rounded down.
-/

namespace Tempo

namespace TokenBucket

variable {b : TokenBucket} {now : Nat} {want : UInt64}
  {calls calls' : List (UInt64 × UInt64)}

/-- The bucket after calls, each with what it asks for and what it reads from the
clock. -/
def consume (b : TokenBucket) : List (UInt64 × UInt64) → TokenBucket
  | [] => b
  | (want, now) :: calls => (b.tryConsume want now.toNat).1.consume calls

/-- The values the calls return. -/
def returned (b : TokenBucket) : List (UInt64 × UInt64) → List UInt64
  | [] => []
  | (want, now) :: calls =>
      (b.tryConsume want now.toNat).2 ::
        (b.tryConsume want now.toNat).1.returned calls

@[simp] theorem consume_cons {call : UInt64 × UInt64} :
    b.consume (call :: calls) =
      (b.tryConsume call.1 call.2.toNat).1.consume calls :=
  rfl

@[simp] theorem returned_cons {call : UInt64 × UInt64} :
    b.returned (call :: calls) =
      (b.tryConsume call.1 call.2.toNat).2 ::
        (b.tryConsume call.1 call.2.toNat).1.returned calls :=
  rfl

/-- The largest reading so far. -/
def largestReading (start : Nat) (calls : List (UInt64 × UInt64)) : Nat :=
  calls.foldl (fun largest call => max largest call.2.toNat) start

/-- What the values add up to. -/
def total (values : List UInt64) : ℚ :=
  (values.map fun value => (value.toNat : ℚ)).sum

@[simp] theorem total_nil : total [] = 0 :=
  rfl

@[simp] theorem total_cons {value : UInt64} {values : List UInt64} :
    total (value :: values) = value.toNat + total values :=
  List.sum_cons

theorem refill_lastNs_max : (b.refill now).lastNs = max b.lastNs now := by
  unfold refill
  split
  · next hle => exact (max_eq_left hle).symm
  · next hlt => exact (max_eq_right (not_le.mp hlt).le).symm

/-- A refill at any reading adds at most what came in up to the largest one. -/
theorem Level.refill_any (h : b.Level) (now : Nat) :
    (b.refill now).Level ∧ (b.refill now).tokens ≤
      b.tokens + b.rateBpns * (((b.refill now).lastNs : ℚ) - b.lastNs) := by
  rcases le_total b.lastNs now with hnow | hback
  · rw [refill_lastNs hnow]
    exact h.refill hnow
  · have hskip : b.refill now = b := if_pos hback
    rw [hskip]
    exact ⟨h, by simp⟩

/-- What a call takes out of the refilled bucket. -/
def taken (b : TokenBucket) (want : UInt64) (now : Nat) : ℚ :=
  (b.refill now).tokens - (b.tryConsume want now).1.tokens

/-- What one call does: it takes no more than is there and than is asked for,
and returns what it takes, rounded down. -/
theorem tryConsume_taken (h : b.Level) (want : UInt64) (now : Nat) :
    0 ≤ b.taken want now ∧ b.taken want now ≤ (b.refill now).tokens ∧
      b.taken want now ≤ want.toNat ∧
      (b.tryConsume want now).2.toNat = ⌊b.taken want now⌋₊ := by
  have hfilled := (h.refill_any now).1
  unfold taken tryConsume
  dsimp only
  split
  · simp [hfilled.nonneg]
  · next hsome =>
      have hpos := not_le.mp hsome
      have hwant : (0 : ℚ) ≤ want.toNat := Nat.cast_nonneg _
      have hgrant : 0 ≤ min (want.toNat : ℚ) (b.refill now).tokens :=
        le_min hwant hpos.le
      have hfloor : ⌊min (want.toNat : ℚ) (b.refill now).tokens⌋₊ ≤ want.toNat :=
        Nat.floor_le_of_le (min_le_left _ _)
      rw [sub_sub_cancel]
      refine ⟨hgrant, min_le_right _ _, min_le_left _ _, ?_⟩
      rw [← Int.natCast_floor_eq_floor hgrant, Int.toNat_natCast,
        UInt64.toNat_ofNat_of_lt' (hfloor.trans_lt want.toNat_lt)]

theorem Level.tryConsume (h : b.Level) (want : UInt64) (now : Nat) :
    (b.tryConsume want now).1.Level := by
  obtain ⟨hfilled, -⟩ := h.refill_any now
  obtain ⟨hnonneg, hthere, -⟩ := tryConsume_taken h want now
  have hrate : (b.tryConsume want now).1.rateBpns = b.rateBpns := tryConsume_frame.1
  have hburst : (b.tryConsume want now).1.burst = b.burst := tryConsume_frame.2.1
  have hfull := hfilled.le_burst
  unfold taken at hnonneg hthere
  rw [refill_burst] at hfull
  refine ⟨by rw [hrate]; exact h.rate, by linarith, ?_⟩
  rw [hburst]
  linarith

/-- One call returns at most what leaves the bucket and what comes in. -/
theorem tryConsume_balance (h : b.Level) (want : UInt64) (now : Nat) :
    ((b.tryConsume want now).2.toNat : ℚ) + (b.tryConsume want now).1.tokens ≤
      b.tokens + b.rateBpns *
        (((b.tryConsume want now).1.lastNs : ℚ) - b.lastNs) := by
  obtain ⟨hnonneg, -, -, hreturned⟩ := tryConsume_taken h want now
  obtain ⟨-, hcredit⟩ := h.refill_any now
  have hfloor := Nat.floor_le hnonneg
  rw [tryConsume_frame.2.2, hreturned]
  unfold taken at hfloor ⊢
  linarith

theorem Level.consume (h : b.Level) (calls : List (UInt64 × UInt64)) :
    (b.consume calls).Level := by
  induction calls generalizing b with
  | nil => exact h
  | cons call calls ih => exact ih (h.tryConsume call.1 call.2.toNat)

theorem consume_rateBpns : (b.consume calls).rateBpns = b.rateBpns := by
  induction calls generalizing b with
  | nil => rfl
  | cons call calls ih => exact ih.trans tryConsume_frame.1

theorem consume_burst : (b.consume calls).burst = b.burst := by
  induction calls generalizing b with
  | nil => rfl
  | cons call calls ih => exact ih.trans tryConsume_frame.2.1

theorem consume_lastNs :
    (b.consume calls).lastNs = largestReading b.lastNs calls := by
  induction calls generalizing b with
  | nil => rfl
  | cons call calls ih =>
      have hlast : (b.tryConsume call.1 call.2.toNat).1.lastNs =
          max b.lastNs call.2.toNat :=
        tryConsume_frame.2.2.trans refill_lastNs_max
      exact ih.trans (by rw [hlast]; rfl)

theorem consume_append :
    b.consume (calls ++ calls') = (b.consume calls).consume calls' := by
  induction calls generalizing b with
  | nil => rfl
  | cons call calls ih => exact ih

/-- What the calls return together, and what they leave, was there or came in
up to the largest reading. -/
theorem consume_balance (h : b.Level) (calls : List (UInt64 × UInt64)) :
    total (b.returned calls) + (b.consume calls).tokens ≤
      b.tokens + b.rateBpns * (((b.consume calls).lastNs : ℚ) - b.lastNs) := by
  induction calls generalizing b with
  | nil => simp [returned, consume]
  | cons call calls ih =>
      have hfirst := tryConsume_balance h call.1 call.2.toNat
      have hrest := ih (h.tryConsume call.1 call.2.toNat)
      rw [tryConsume_frame.1] at hrest
      rw [consume_cons, returned_cons, total_cons]
      generalize (b.tryConsume call.1 call.2.toNat).1 = mid at *
      have hsplit : b.rateBpns * (((mid.consume calls).lastNs : ℚ) - b.lastNs) =
          b.rateBpns * (((mid.consume calls).lastNs : ℚ) - mid.lastNs) +
            b.rateBpns * ((mid.lastNs : ℚ) - b.lastNs) := by
        ring
      linarith

theorem new_level (rateBytesPerSec burstBytes start : UInt64) :
    (new rateBytesPerSec burstBytes start.toNat).Level :=
  ⟨div_nonneg (Nat.cast_nonneg _) (by norm_num), Nat.cast_nonneg _, le_rfl⟩

/-- **The bucket never grants more than it has.**  After any calls it is between
empty and full.  The next call returns at most what it is asked for, and takes
less than a byte more than it returns.  Any calls that follow return at most the
burst and what comes in while the largest reading grows. -/
theorem never_overgrants (rateBytesPerSec burstBytes start : UInt64)
    (before calls : List (UInt64 × UInt64)) (want now : UInt64) :
    (0 ≤ ((new rateBytesPerSec burstBytes start.toNat).consume before).tokens ∧
      ((new rateBytesPerSec burstBytes start.toNat).consume before).tokens ≤
        burstBytes.toNat) ∧
    (((new rateBytesPerSec burstBytes start.toNat).consume before).tryConsume want
      now.toNat).2 ≤ want ∧
    ((new rateBytesPerSec burstBytes start.toNat).consume before).taken want
        now.toNat <
      (((new rateBytesPerSec burstBytes start.toNat).consume before).tryConsume want
        now.toNat).2.toNat + 1 ∧
    total (((new rateBytesPerSec burstBytes start.toNat).consume before).returned
        calls) ≤
      burstBytes.toNat + (rateBytesPerSec.toNat : ℚ) / 1000000000 *
        ((largestReading start.toNat (before ++ calls) : ℚ) -
          largestReading start.toNat before) := by
  have hnew := new_level rateBytesPerSec burstBytes start
  have hrate : (new rateBytesPerSec burstBytes start.toNat).rateBpns =
      (rateBytesPerSec.toNat : ℚ) / 1000000000 := rfl
  have hburst : (new rateBytesPerSec burstBytes start.toNat).burst =
      burstBytes.toNat := rfl
  have hlast : (new rateBytesPerSec burstBytes start.toNat).lastNs = start.toNat := rfl
  generalize new rateBytesPerSec burstBytes start.toNat = b at *
  rw [← hrate, ← hburst, ← hlast, ← consume_lastNs, ← consume_lastNs, consume_append]
  have hlevel : (b.consume before).Level := hnew.consume before
  obtain ⟨hnonneg, -, hwant, hreturned⟩ := tryConsume_taken hlevel want now.toNat
  have hfull := hlevel.le_burst
  rw [consume_burst] at hfull
  refine ⟨⟨hlevel.nonneg, hfull⟩, ?_, ?_, ?_⟩
  · rw [UInt64.le_iff_toNat_le, hreturned]
    exact Nat.floor_le_of_le hwant
  · rw [hreturned]
    exact Nat.lt_floor_add_one _
  · have hbalance := consume_balance hlevel calls
    have hleft := (hlevel.consume calls).nonneg
    rw [consume_rateBpns] at hbalance
    linarith

end TokenBucket

end Tempo
