import Tempo.MovingAverage
import Tempo.NexusCoordinator

/-!
# How far windows overlap

The windows of two ranks overlap where the ranks have timed their flushes differently.
But the difference is smoothed like the times are: as long as the clamped times of one
round are within `d` of each other, the averages come within `d` too, whatever they were
before, and the overlap is at most `d` for each rank that flushes no later
(`overlap_bounded`).  In particular windows come apart again once the flushes take the
same time.  This is in exact arithmetic.
-/

namespace Tempo.NexusFleet

open MovingAverage NexusCoordinator

variable {n : Nat} {fleet after : NexusFleet n} {round : NexusRound n}
  {rounds : List (NexusRound n)}

theorem lined_exec (h : fleet.Lined) (hrun : Runs.exec (runRound id) fleet rounds = some after) :
    after.Lined := by
  induction rounds generalizing fleet with
  | nil =>
      obtain rfl := Option.some.inj hrun
      exact h
  | cons round rounds ih =>
      obtain ⟨next, hnext, hrest⟩ := Option.bind_eq_some_iff.mp hrun
      exact ih (Lined.runRound h hnext) hrest

/-- After rounds the average of a rank is that of its clamped flush times. -/
theorem estimates_exec (hrun : Runs.exec (runRound id) fleet rounds = some after) (rank : Fin n) :
    after.estimates rank =
      smoothAll (1 / 4) (fleet.estimates rank)
        (rounds.map fun round => clampedMs id (round.elapsed rank)) := by
  induction rounds generalizing fleet with
  | nil =>
      obtain rfl := Option.some.inj hrun
      rfl
  | cons round rounds ih =>
      obtain ⟨next, hnext, hrest⟩ := Option.bind_eq_some_iff.mp hrun
      have hfirst : next.estimates rank =
          smooth (1 / 4) (clampedMs id (round.elapsed rank)) (fleet.estimates rank) := by
        obtain rfl := Option.some.inj hnext
        rfl
      rw [ih hrest, hfirst]
      rfl

/-- The averages of two ranks come as close as their times are. -/
theorem gap_exec (hrun : Runs.exec (runRound id) fleet rounds = some after)
    {a b : Fin n} {d gap : ℚ}
    (hgap : fleet.estimates a - fleet.estimates b ≤ gap)
    (htimes : ∀ round ∈ rounds,
      clampedMs id (round.elapsed a) - clampedMs id (round.elapsed b) ≤ d) :
    after.estimates a - after.estimates b ≤ d + (3 / 4) ^ rounds.length * (gap - d) := by
  have hbound := smoothAll_le (a := 1 / 4) (by norm_num) (by norm_num)
    (fleet.estimates a - fleet.estimates b)
    (List.forall_mem_map.mpr htimes)
  have hweight : (0 : ℚ) ≤ (3 / 4) ^ rounds.length := by positivity
  have hstart := mul_le_mul_of_nonneg_left hgap hweight
  rw [List.length_map, show (1 : ℚ) - 1 / 4 = 3 / 4 by norm_num] at hbound
  rw [estimates_exec hrun, estimates_exec hrun, smoothAll_map_sub]
  linarith

theorem clampedMs_pos (t : ℚ) : 0 < clampedMs id t :=
  lt_of_lt_of_le (by norm_num [minWindowMs]) (clampedMs_ge t)

theorem estimates_nonneg (hrun : Runs.exec (runRound id) fleet rounds = some after) {rank : Fin n}
    (hstart : 0 ≤ fleet.estimates rank) : 0 ≤ after.estimates rank := by
  rw [estimates_exec hrun]
  exact le_smoothAll_of_le (by norm_num) (by norm_num)
    (List.forall_mem_map.mpr fun _ _ => (clampedMs_pos _).le) hstart

/-- Where the averages are within `gap`, a later window starts at most so much before the
end of an earlier one. -/
theorem overlap_le (h : fleet.Lined) {a b : Fin n} {gap : ℚ}
    (hb : 0 ≤ fleet.estimates b)
    (hgap : fleet.estimates a - fleet.estimates b ≤ gap)
    (hab : (fleet.computed id round a).2.position < (fleet.computed id round b).2.position) :
    (fleet.computed id round a).2.delaySeconds * 1000 + (fleet.computed id round a).2.windowMs -
        (fleet.computed id round b).2.delaySeconds * 1000 ≤
      ((fleet.computed id round a).2.position + 1) * gap := by
  have hdelay : ∀ rank, (fleet.computed id round rank).2.delaySeconds * 1000 =
      (fleet.computed id round rank).2.position * fleet.estimates rank := by
    intro rank
    have hoverlap := (h rank).2
    unfold computed computeWindow assignWindow fillGossip estimates
    simp only [id_eq]
    rw [hoverlap, sub_zero, mul_one, div_mul_cancel₀ _ (by norm_num)]
  have hwindow : (fleet.computed id round a).2.windowMs = fleet.estimates a := rfl
  rw [hdelay, hdelay, hwindow]
  generalize (fleet.computed id round a).2.position = p at hab ⊢
  generalize (fleet.computed id round b).2.position = q at hab ⊢
  have hturn : ((p : ℚ) + 1) * fleet.estimates b ≤ q * fleet.estimates b :=
    mul_le_mul_of_nonneg_right (by exact_mod_cast hab) hb
  have hscaled : ((p : ℚ) + 1) * (fleet.estimates a - fleet.estimates b) ≤ (p + 1) * gap :=
    mul_le_mul_of_nonneg_left hgap (by positivity)
  linarith

/-- **The overlap is bounded, and wears off.**  From ranks whose averages are within `gap`
of each other, after rounds in each of which the clamped flush times are within `d`: the
window of a rank ends at most `d + (3 / 4) ^ k * (gap - d)` for each rank that flushes no
later after the window of a later rank starts, where `k` is the number of rounds. -/
theorem overlap_bounded (h : fleet.Lined) (hstart : ∀ rank, 0 ≤ fleet.estimates rank)
    {d gap : ℚ} (hgap : ∀ a b, fleet.estimates a - fleet.estimates b ≤ gap)
    (htimes : ∀ round ∈ rounds, ∀ a b,
      clampedMs id (round.elapsed a) - clampedMs id (round.elapsed b) ≤ d)
    (hrun : Runs.exec (runRound id) fleet rounds = some after) (round : NexusRound n) {a b : Fin n}
    (hab : (after.computed id round a).2.position < (after.computed id round b).2.position) :
    (after.computed id round a).2.delaySeconds * 1000 + (after.computed id round a).2.windowMs -
        (after.computed id round b).2.delaySeconds * 1000 ≤
      ((after.computed id round a).2.position + 1) *
        (d + (3 / 4) ^ rounds.length * (gap - d)) :=
  overlap_le (lined_exec h hrun) (estimates_nonneg hrun (hstart b))
    (gap_exec hrun (hgap a b) fun round hround => htimes round hround a b) hab

/-- The ranks' averages are 1950 ms apart, and their next four flushes take one second. -/
theorem overlap_bounded_four :
    let fleet : NexusFleet 2 := fun rank => { rank, windowMsEma := if rank = 0 then 2000 else 50 }
    let even := idleRound 1 1 1
    ∃ after, Runs.exec (runRound id) fleet [even, even, even, even] = some after ∧
      (after.computed id even 0).2.delaySeconds * 1000 + (after.computed id even 0).2.windowMs -
          (after.computed id even 1).2.delaySeconds * 1000 ≤
        (((after.computed id even 0).2.position : ℚ) + 1) * (0 + (3 / 4) ^ 4 * (1950 - 0)) := by
  intro fleet even
  obtain ⟨after, hafter⟩ : ∃ after,
      Runs.exec (runRound id) fleet [even, even, even, even] = some after := ⟨_, rfl⟩
  have hposition :
      (after.computed id even 0).2.position < (after.computed id even 1).2.position := by
    obtain rfl := Option.some.inj hafter
    decide +kernel
  have hlined : fleet.Lined := fun _ => ⟨rfl, rfl⟩
  refine ⟨after, hafter, overlap_bounded hlined ?_ ?_ ?_ hafter even hposition⟩
  · decide +kernel
  · decide +kernel
  · intro round hround a b
    obtain rfl : round = even := by simpa using hround
    have hsame : even.elapsed a = even.elapsed b := by
      simp [even, idleRound]
    rw [hsame, sub_self]

end Tempo.NexusFleet
