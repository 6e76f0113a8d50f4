import Mathlib.Algebra.Order.Group.Defs
import Mathlib.Algebra.Order.Group.MinMax
import Mathlib.Tactic.Abel

/-!
# A rising quantity read with gaps

A quantity that never falls is read at the times `0, 1, 2, ...`, and some readings
fail.  A reader that holds its last reading over the gaps, and adds up by how much
the held value rises from one time to the next, counts the rise from the first
reading to the last.  It counts more only where it held a default before the first
reading came (`gain_eq`).
-/

namespace HeldReadings

section Readings

variable {α : Type*} (r : Nat → Option α)

/-- The first reading up to a time. -/
def first : Nat → Option α
  | 0 => r 0
  | t + 1 => (first t).or (r (t + 1))

/-- The last reading up to a time. -/
def last : Nat → Option α
  | 0 => r 0
  | t + 1 => (r (t + 1)).or (last t)

/-- What is held: the last reading, or a default. -/
def held (default : α) (t : Nat) : α :=
  (last r t).getD default

variable {r} {default a b : α} {t : Nat}

theorem held_succ :
    held r default (t + 1) = (r (t + 1)).getD (held r default t) := by
  unfold held
  rw [last]
  cases r (t + 1) with
  | none => rfl
  | some b => rfl

theorem first_none_iff : first r t = none ↔ last r t = none := by
  induction t with
  | zero => exact Iff.rfl
  | succ t ih =>
      rw [first, last, Option.or_eq_none_iff, Option.or_eq_none_iff, ih, and_comm]

theorem first_isSome_of_zero (hzero : (r 0).isSome) : first r t = r 0 := by
  induction t with
  | zero => rfl
  | succ t ih =>
      rw [first, ih]
      obtain ⟨a, ha⟩ := Option.isSome_iff_exists.mp hzero
      rw [ha]
      rfl

/-- The first reading stays the first. -/
theorem first_mono {s : Nat} (hle : s ≤ t) (hfirst : first r s = some a) :
    first r t = some a := by
  induction t, hle using Nat.le_induction with
  | base => exact hfirst
  | succ t _ ih => rw [first, ih, Option.some_or]

/-- The last reading was made at some time. -/
theorem exists_of_last (hlast : last r t = some b) : ∃ s ≤ t, r s = some b := by
  induction t with
  | zero => exact ⟨0, le_rfl, hlast⟩
  | succ t ih =>
      rw [last] at hlast
      cases hread : r (t + 1) with
      | none =>
          rw [hread] at hlast
          obtain ⟨s, hs, hb⟩ := ih hlast
          exact ⟨s, hs.trans (Nat.le_succ t), hb⟩
      | some c =>
          rw [hread] at hlast
          exact ⟨t + 1, le_rfl, hread.trans hlast⟩

end Readings

section Rise

variable {α : Type*} [AddCommGroup α] [LinearOrder α] (r : Nat → Option α)

/-- From the first reading to the last. -/
def rise (t : Nat) : α :=
  match first r t, last r t with
  | some a, some b => b - a
  | _, _ => 0

/-- What a reader that holds its readings adds up. -/
def gain (default : α) : Nat → α
  | 0 => 0
  | t + 1 => gain default t + max 0 (held r default (t + 1) - held r default t)

/-- What the default costs: how far the first reading is above it, if it came
late. -/
def startup (default : α) (t : Nat) : α :=
  if (r 0).isSome then 0 else (first r t).elim 0 fun a => max 0 (a - default)

/-- Later readings are no smaller. -/
def Rising : Prop :=
  ∀ s t a b, s ≤ t → r s = some a → r t = some b → a ≤ b

variable {r} {default : α} {t : Nat}

theorem startup_nonneg : 0 ≤ startup r default t := by
  unfold startup
  split
  · exact le_rfl
  · cases first r t with
    | none => exact le_rfl
    | some a => exact le_max_left _ _

theorem gain_zero : gain r default 0 = rise r 0 + startup r default 0 := by
  unfold gain rise startup first last
  cases r 0 with
  | none => simp
  | some a => simp

variable [IsOrderedAddMonoid α]

theorem startup_eq_zero_iff :
    startup r default t = 0 ↔ (r 0).isSome ∨ ∀ a ∈ first r t, a ≤ default := by
  unfold startup
  by_cases hzero : (r 0).isSome
  · simp [hzero]
  · cases first r t with
    | none => simp [hzero]
    | some a => simp [hzero]

/-- What a step adds to the gain. -/
theorem step_gain (hrising : Rising r) :
    max 0 (held r default (t + 1) - held r default t) =
      (rise r (t + 1) - rise r t) + (startup r default (t + 1) - startup r default t) := by
  cases hread : r (t + 1) with
  | none =>
      have hheld : held r default (t + 1) = held r default t := by
        rw [held_succ, hread]
        rfl
      have hfirst : first r (t + 1) = first r t := by rw [first, hread, Option.or_none]
      have hlast : last r (t + 1) = last r t := by rw [last, hread, Option.none_or]
      simp [hheld, rise, startup, hfirst, hlast]
  | some b =>
      have hheld : held r default (t + 1) = b := by
        rw [held_succ, hread]
        rfl
      have hlast : last r (t + 1) = some b := by rw [last, hread, Option.some_or]
      cases hold : last r t with
      | none =>
          have hnone : first r t = none := first_none_iff.mpr hold
          have hfirst : first r (t + 1) = some b := by
            rw [first, hnone, hread, Option.none_or]
          have hzero : r 0 = none := by
            by_contra hsome
            have hkept := first_isSome_of_zero (t := t) (Option.isSome_iff_ne_none.mpr hsome)
            exact hsome (hkept.symm.trans hnone)
          have hdefault : held r default t = default := by
            unfold held
            rw [hold]
            rfl
          simp [hheld, hdefault, rise, startup, hfirst, hnone, hlast, hzero]
      | some c =>
          obtain ⟨a, ha⟩ : ∃ a, first r t = some a := by
            apply Option.ne_none_iff_exists'.mp
            intro hnone
            rw [first_none_iff, hold] at hnone
            cases hnone
          have hfirst : first r (t + 1) = some a := by rw [first, ha, Option.some_or]
          have hc : held r default t = c := by
            unfold held
            rw [hold]
            rfl
          have hle : c ≤ b := by
            obtain ⟨s, hs, hreadc⟩ := exists_of_last hold
            exact hrising s (t + 1) c b (hs.trans (Nat.le_succ t)) hreadc hread
          have hstart : startup r default (t + 1) = startup r default t := by
            simp [startup, hfirst, ha]
          rw [hheld, hc, max_eq_right (sub_nonneg.mpr hle), hstart, sub_self, add_zero]
          simp [rise, hfirst, ha, hlast, hold]

/-- **The rise is counted, and once what the default costs.** -/
theorem gain_eq (hrising : Rising r) (t : Nat) :
    gain r default t = rise r t + startup r default t := by
  induction t with
  | zero => exact gain_zero
  | succ t ih =>
      rw [gain, ih, step_gain hrising]
      abel

end Rise

end HeldReadings
