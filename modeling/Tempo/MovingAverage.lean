import Mathlib.Algebra.Order.Field.Basic
import Mathlib.Tactic.Linarith
import Mathlib.Tactic.Ring

/-!
# Exponential moving averages

A sample moves the average by a fixed part of its distance to it.  The average stays
where the samples and its first value are.  After `n` samples the first value weighs
`(1 - a) ^ n` (`smoothAll_sub_smoothAll`), so what the average was before does not
matter for long: it is above any bound that all samples are above, but for this rest.
-/

namespace MovingAverage

variable {K : Type*} [Field K] [LinearOrder K] [IsStrictOrderedRing K]
  {a lo hi x y : K} {xs : List K}

/-- The average `y` after the sample `x`. -/
def smooth (a x y : K) : K := a * x + (1 - a) * y

/-- The average after samples, the first of the list first. -/
def smoothAll (a y : K) (xs : List K) : K :=
  xs.foldl (fun y x => smooth a x y) y

theorem le_smooth (ha : 0 ≤ a) (ha' : a ≤ 1) (hx : lo ≤ x) (hy : lo ≤ y) :
    lo ≤ smooth a x y := by
  unfold smooth
  calc lo = a * lo + (1 - a) * lo := by ring
    _ ≤ a * x + (1 - a) * y :=
        add_le_add (mul_le_mul_of_nonneg_left hx ha)
          (mul_le_mul_of_nonneg_left hy (by linarith))

theorem smooth_le (ha : 0 ≤ a) (ha' : a ≤ 1) (hx : x ≤ hi) (hy : y ≤ hi) :
    smooth a x y ≤ hi := by
  unfold smooth
  calc a * x + (1 - a) * y ≤ a * hi + (1 - a) * hi :=
        add_le_add (mul_le_mul_of_nonneg_left hx ha)
          (mul_le_mul_of_nonneg_left hy (by linarith))
    _ = hi := by ring

/-- The average stays above what its first value and the samples are above. -/
theorem le_smoothAll_of_le (ha : 0 ≤ a) (ha' : a ≤ 1) (hxs : ∀ x ∈ xs, lo ≤ x)
    (hy : lo ≤ y) : lo ≤ smoothAll a y xs := by
  induction xs generalizing y with
  | nil => exact hy
  | cons x xs ih =>
      exact ih (fun x' hx' => hxs x' (List.mem_cons_of_mem _ hx'))
        (le_smooth ha ha' (hxs x List.mem_cons_self) hy)

theorem smoothAll_le_of_le (ha : 0 ≤ a) (ha' : a ≤ 1) (hxs : ∀ x ∈ xs, x ≤ hi)
    (hy : y ≤ hi) : smoothAll a y xs ≤ hi := by
  induction xs generalizing y with
  | nil => exact hy
  | cons x xs ih =>
      exact ih (fun x' hx' => hxs x' (List.mem_cons_of_mem _ hx'))
        (smooth_le ha ha' (hxs x List.mem_cons_self) hy)

omit [LinearOrder K] [IsStrictOrderedRing K] in
/-- **The first value is forgotten.** -/
theorem smoothAll_sub_smoothAll (a y y' : K) (xs : List K) :
    smoothAll a y xs - smoothAll a y' xs = (1 - a) ^ xs.length * (y - y') := by
  induction xs generalizing y y' with
  | nil => simp [smoothAll]
  | cons x xs ih =>
      have hrest := ih (smooth a x y) (smooth a x y')
      have hfirst : smooth a x y - smooth a x y' = (1 - a) * (y - y') := by
        unfold smooth
        ring
      calc smoothAll a y (x :: xs) - smoothAll a y' (x :: xs)
          = (1 - a) ^ xs.length * (smooth a x y - smooth a x y') := hrest
        _ = (1 - a) ^ (x :: xs).length * (y - y') := by
            rw [hfirst, List.length_cons, pow_succ, mul_assoc]

/-- Samples above a bound bring the average above it, but for the rest of its first
value. -/
theorem le_smoothAll (ha : 0 ≤ a) (ha' : a ≤ 1) (y : K) (hxs : ∀ x ∈ xs, lo ≤ x) :
    lo - (1 - a) ^ xs.length * (lo - y) ≤ smoothAll a y xs := by
  have hfrom : lo ≤ smoothAll a lo xs := le_smoothAll_of_le ha ha' hxs le_rfl
  have hrest := smoothAll_sub_smoothAll a lo y xs
  linarith

/-- Samples below a bound bring the average below it in the same way. -/
theorem smoothAll_le (ha : 0 ≤ a) (ha' : a ≤ 1) (y : K) (hxs : ∀ x ∈ xs, x ≤ hi) :
    smoothAll a y xs ≤ hi + (1 - a) ^ xs.length * (y - hi) := by
  have hfrom : smoothAll a hi xs ≤ hi := smoothAll_le_of_le ha ha' hxs le_rfl
  have hrest := smoothAll_sub_smoothAll a y hi xs
  linarith

omit [LinearOrder K] [IsStrictOrderedRing K] in
/-- The difference of two averages is the average of the differences. -/
theorem smoothAll_map_sub {ι : Type*} (a y y' : K) (f g : ι → K) (is : List ι) :
    smoothAll a y (is.map f) - smoothAll a y' (is.map g) =
      smoothAll a (y - y') (is.map fun i => f i - g i) := by
  induction is generalizing y y' with
  | nil => rfl
  | cons i is ih =>
      have hfirst : smooth a (f i) y - smooth a (g i) y' = smooth a (f i - g i) (y - y') := by
        unfold smooth
        ring
      have hrest := ih (smooth a (f i) y) (smooth a (g i) y')
      rw [hfirst] at hrest
      exact hrest

end MovingAverage
