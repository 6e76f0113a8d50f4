import Mathlib.Algebra.Order.Floor.Ring
import Mathlib.Data.List.Count
import Mathlib.Tactic.Linarith

/-!
# Counting sorted values in windows

A window is a half-open interval of length one.  In a sorted list the values of a
window stand next to each other, so that more than `k` of them are in one window
exactly where some value and the `k`th after it are (`lt_countIn_iff`).  If the window
may begin anywhere, these two only have to be less than one apart
(`exists_lt_countIn_iff`); if it begins at a whole number, they have the same whole
part (`exists_lt_countIn_int_iff`).
-/

namespace SortedWindows

section Convex

variable {α : Type*} [LinearOrder α] {l : List α} {P : α → Bool} {k : Nat}

theorem le_of_sorted (hsorted : l.Pairwise (· ≤ ·)) {i j : Nat} (hij : i ≤ j) {x y : α}
    (hx : x ∈ l[i]?) (hy : y ∈ l[j]?) : x ≤ y := by
  obtain ⟨hi, rfl⟩ := List.getElem?_eq_some_iff.mp hx
  obtain ⟨hj, rfl⟩ := List.getElem?_eq_some_iff.mp hy
  rcases hij.eq_or_lt with rfl | hlt
  · exact le_refl _
  · exact List.pairwise_iff_getElem.mp hsorted i j hi hj hlt

omit [LinearOrder α] in
/-- Between two values of a list there are others. -/
theorem exists_getElem? {i j : Nat} (hij : i ≤ j) {y : α} (hy : y ∈ l[j]?) :
    ∃ x, x ∈ l[i]? := by
  have hj := (List.getElem?_eq_some_iff.mp hy).1
  exact ⟨l[i], List.getElem?_eq_getElem (by omega)⟩

/-- In a sorted list, what holds between any two values it holds of holds of more than
`k` values exactly where it holds of some value and of the `k`th after it. -/
theorem lt_countP_iff (hsorted : l.Pairwise (· ≤ ·))
    (hconvex : ∀ x y z, x ≤ y → y ≤ z → P x → P z → P y) :
    k < l.countP P ↔ ∃ i, ∃ x ∈ l[i]?, ∃ y ∈ l[i + k]?, P x ∧ P y := by
  induction l generalizing k with
  | nil => simp
  | cons a l ih =>
      obtain ⟨hfirst, hrest⟩ := List.pairwise_cons.mp hsorted
      -- two places of the rest, in the whole list
      have hshift : ∀ i x y, x ∈ l[i]? → y ∈ l[i + k]? →
          x ∈ (a :: l)[i + 1]? ∧ y ∈ (a :: l)[i + 1 + k]? := by
        intro i x y hx hy
        rw [Nat.add_right_comm]
        exact ⟨by simpa using hx, by simpa using hy⟩
      constructor
      · intro hcount
        by_cases ha : P a = true
        · cases k with
          | zero => exact ⟨0, a, rfl, a, rfl, ha, ha⟩
          | succ k =>
              -- the `k`th value of the rest is between `a` and one that counts
              rw [List.countP_cons_of_pos ha, Nat.add_lt_add_iff_right] at hcount
              obtain ⟨i, x, hx, z, hz, _, hPz⟩ := (ih hrest).mp hcount
              obtain ⟨y, hy⟩ := exists_getElem? (Nat.le_add_left k i) hz
              have hay : a ≤ y := hfirst y (List.mem_of_getElem? hy)
              have hyz : y ≤ z := le_of_sorted hrest (Nat.le_add_left k i) hy hz
              refine ⟨0, a, rfl, y, by simpa using hy, ha, ?_⟩
              exact hconvex a y z hay hyz ha hPz
        · rw [List.countP_cons_of_neg ha] at hcount
          obtain ⟨i, x, hx, y, hy, hboth⟩ := (ih hrest).mp hcount
          obtain ⟨hx', hy'⟩ := hshift i x y hx hy
          exact ⟨i + 1, x, hx', y, hy', hboth⟩
      · rintro ⟨i, x, hx, y, hy, hPx, hPy⟩
        cases i with
        | succ i =>
            have hcount : k < l.countP P := by
              refine (ih hrest).mpr ⟨i, x, by simpa using hx, y, ?_, hPx, hPy⟩
              rw [Nat.add_right_comm] at hy
              simpa using hy
            rw [List.countP_cons]
            omega
        | zero =>
            obtain rfl : a = x := by simpa using hx
            rw [List.countP_cons_of_pos hPx]
            cases k with
            | zero => exact Nat.succ_pos _
            | succ k =>
                have hlast : y ∈ l[0 + k]? := by simpa using hy
                obtain ⟨z, hz⟩ := exists_getElem? (Nat.zero_le (0 + k)) hlast
                have hPz : P z = true :=
                  hconvex a z y (hfirst z (List.mem_of_getElem? hz))
                    (le_of_sorted hrest (Nat.zero_le (0 + k)) hz hlast) hPx hPy
                have hcount : k < l.countP P :=
                  (ih hrest).mpr ⟨0, z, hz, y, hlast, hPz, hPy⟩
                omega

end Convex

section Windows

variable {K : Type*} [Field K] [LinearOrder K] [IsStrictOrderedRing K] {l : List K} {k : Nat}
  {t : K}

/-- The number of values from `t` up to one further. -/
def countIn (l : List K) (t : K) : Nat :=
  l.countP fun x => decide (t ≤ x) && decide (x < t + 1)

omit [IsStrictOrderedRing K] in
theorem lt_countIn_iff (hsorted : l.Pairwise (· ≤ ·)) : k < countIn l t ↔
    ∃ i, ∃ x ∈ l[i]?, ∃ y ∈ l[i + k]?, t ≤ x ∧ y < t + 1 := by
  have hconvex : ∀ x y z : K, x ≤ y → y ≤ z →
      (decide (t ≤ x) && decide (x < t + 1)) = true →
      (decide (t ≤ z) && decide (z < t + 1)) = true →
      (decide (t ≤ y) && decide (y < t + 1)) = true := by
    intro x y z hxy hyz hx hz
    simp only [Bool.and_eq_true, decide_eq_true_eq] at hx hz ⊢
    exact ⟨hx.1.trans hxy, hyz.trans_lt hz.2⟩
  unfold countIn
  rw [lt_countP_iff hsorted hconvex]
  simp only [Bool.and_eq_true, decide_eq_true_eq]
  constructor
  · rintro ⟨i, x, hx, y, hy, hxin, hyin⟩
    exact ⟨i, x, hx, y, hy, hxin.1, hyin.2⟩
  · rintro ⟨i, x, hx, y, hy, htx, hyt⟩
    have hxy : x ≤ y := le_of_sorted hsorted (Nat.le_add_right i k) hx hy
    exact ⟨i, x, hx, y, hy, ⟨htx, hxy.trans_lt hyt⟩, htx.trans hxy, hyt⟩

/-- Windows that begin anywhere. -/
theorem exists_lt_countIn_iff (hsorted : l.Pairwise (· ≤ ·)) : (∃ t, k < countIn l t) ↔
    ∃ i, ∃ x ∈ l[i]?, ∃ y ∈ l[i + k]?, y < x + 1 := by
  simp only [lt_countIn_iff hsorted]
  constructor
  · rintro ⟨t, i, x, hx, y, hy, htx, hyt⟩
    exact ⟨i, x, hx, y, hy, hyt.trans_le (add_le_add_left htx 1)⟩
  · rintro ⟨i, x, hx, y, hy, hlt⟩
    exact ⟨x, i, x, hx, y, hy, le_refl x, hlt⟩

omit [IsStrictOrderedRing K] in
/-- Windows that begin at a whole number below `bound`. -/
theorem exists_lt_countIn_int_iff [FloorRing K] (hsorted : l.Pairwise (· ≤ ·))
    (hnonneg : ∀ x ∈ l, 0 ≤ x) {bound : Nat} :
    (∃ t < bound, k < countIn l (t : K)) ↔
      ∃ i, ∃ x ∈ l[i]?, ∃ y ∈ l[i + k]?, ⌊x⌋ = ⌊y⌋ ∧ ⌊x⌋ < bound := by
  have hwhole : ∀ (t : Nat) (x : K), ⌊x⌋ = (t : Int) ↔ (t : K) ≤ x ∧ x < t + 1 := by
    intro t x
    rw [Int.floor_eq_iff, Int.cast_natCast]
  simp only [lt_countIn_iff hsorted]
  constructor
  · rintro ⟨t, ht, i, x, hx, y, hy, htx, hyt⟩
    have hxy : x ≤ y := le_of_sorted hsorted (Nat.le_add_right i k) hx hy
    have hfloor : ⌊x⌋ = (t : Int) := (hwhole t x).mpr ⟨htx, hxy.trans_lt hyt⟩
    have hfloor' : ⌊y⌋ = (t : Int) := (hwhole t y).mpr ⟨htx.trans hxy, hyt⟩
    exact ⟨i, x, hx, y, hy, hfloor.trans hfloor'.symm, by omega⟩
  · rintro ⟨i, x, hx, y, hy, hsame, hbelow⟩
    have hpos : 0 ≤ ⌊x⌋ := Int.floor_nonneg.mpr (hnonneg x (List.mem_of_getElem? hx))
    obtain ⟨t, ht⟩ := Int.eq_ofNat_of_zero_le hpos
    obtain ⟨htx, _⟩ := (hwhole t x).mp ht
    obtain ⟨_, hyt⟩ := (hwhole t y).mp (hsame.symm.trans ht)
    exact ⟨t, by omega, i, x, hx, y, hy, htx, hyt⟩

end Windows

end SortedWindows
