import Mathlib.Algebra.Order.BigOperators.Group.List
import Mathlib.Algebra.Order.Field.Basic
import Mathlib.Tactic.Linarith

/-!
# Spending from a level that refills at a rate

A level is spent from and refilled: a refill adds at most `rate` for each unit
of time since the last one and stops at `burst`.  The ledger keeps each amount
spent with the time of the refill before it.  As long as nothing is spent that
is not there, at most `burst + rate * (t₁ - t₀)` is spent between any two times
(`Ledger.Sound.within`), because what has been spent since `t₀` and what is left
were both there at `t₀` or came in since (`Ledger.Sound.since`).
-/

namespace RateLedger

variable {K : Type*} [Field K] [LinearOrder K]

/-- What was spent at the times from `t₀` to `t₁`. -/
def spentBetween (t₀ t₁ : K) (spent : List (K × K)) : K :=
  ((spent.filter fun e => t₀ ≤ e.1 ∧ e.1 ≤ t₁).map Prod.snd).sum

/-- A level, the time of its last refill, and what has been spent when. -/
structure Ledger (K : Type*) where
  level : K
  time : K
  spent : List (K × K) := []

/-- The ledger has kept to the rate so far. -/
structure Ledger.Sound (rate burst : K) (l : Ledger K) : Prop where
  level_le : l.level ≤ burst
  past : ∀ e ∈ l.spent, e.1 ≤ l.time
  nonneg : ∀ e ∈ l.spent, 0 ≤ e.2
  since : ∀ t₀ ≤ l.time, spentBetween t₀ l.time l.spent + l.level ≤
    burst + rate * (l.time - t₀)
  within : ∀ t₀ t₁, t₀ ≤ t₁ →
    spentBetween t₀ t₁ l.spent ≤ burst + rate * (t₁ - t₀)

variable {rate burst now x t₀ t₁ : K} {l : Ledger K} {spent : List (K × K)}

@[simp] theorem spentBetween_nil : spentBetween t₀ t₁ ([] : List (K × K)) = 0 :=
  rfl

theorem spentBetween_append_of_mem {time : K} (h₀ : t₀ ≤ time)
    (h₁ : time ≤ t₁) : spentBetween t₀ t₁ (spent ++ [(time, x)]) =
      spentBetween t₀ t₁ spent + x := by
  simp [spentBetween, List.filter_append, h₀, h₁]

theorem spentBetween_append_of_not_mem {time : K}
    (h : ¬ (t₀ ≤ time ∧ time ≤ t₁)) :
    spentBetween t₀ t₁ (spent ++ [(time, x)]) = spentBetween t₀ t₁ spent := by
  simp [spentBetween, List.filter_append, h]

/-- Nothing is spent after the last entry. -/
theorem spentBetween_of_past {time : K} (hpast : ∀ e ∈ spent, e.1 ≤ time)
    (h : time ≤ t₁) : spentBetween t₀ t₁ spent = spentBetween t₀ time spent := by
  unfold spentBetween
  congr 2
  apply List.filter_congr
  intro e he
  have hle := hpast e he
  simp [hle, hle.trans h]

theorem spentBetween_of_after {time : K} (hpast : ∀ e ∈ spent, e.1 ≤ time)
    (h : time < t₀) : spentBetween t₀ t₁ spent = 0 := by
  have hempty : (spent.filter fun e => t₀ ≤ e.1 ∧ e.1 ≤ t₁) = [] := by
    apply List.filter_eq_nil_iff.mpr
    intro e he
    have hlt := (hpast e he).trans_lt h
    simp [hlt.not_ge]
  rw [spentBetween, hempty]
  rfl

variable [IsStrictOrderedRing K]

/-- Leaving out entries lowers what was spent. -/
theorem spentBetween_sublist {spent' : List (K × K)}
    (hnonneg : ∀ e ∈ spent, 0 ≤ e.2) (hsub : spent'.Sublist spent) :
    spentBetween t₀ t₁ spent' ≤ spentBetween t₀ t₁ spent := by
  apply ((hsub.filter _).map _).sum_le_sum
  intro y hy
  obtain ⟨e, he, rfl⟩ := List.mem_map.mp hy
  exact hnonneg e (List.mem_filter.mp he).1

/-- Amounts entered with later times count no more. -/
theorem spentBetween_later {late : List (K × K)}
    (hlater : List.Forall₂ (fun e f => t₀ ≤ e.1 ∧ e.1 ≤ f.1 ∧ e.2 = f.2)
      spent late)
    (hnonneg : ∀ e ∈ spent, 0 ≤ e.2) :
    spentBetween t₀ t₁ late ≤ spentBetween t₀ t₁ spent := by
  induction hlater with
  | nil => exact le_rfl
  | @cons e f spent late hef _ ih =>
      obtain ⟨hstart, hle, hsame⟩ := hef
      have hrest := ih fun a ha => hnonneg a (List.mem_cons_of_mem _ ha)
      have hpos := hnonneg e List.mem_cons_self
      unfold spentBetween at hrest ⊢
      by_cases hf : f.1 ≤ t₁
      · have he : e.1 ≤ t₁ := hle.trans hf
        simpa [List.filter_cons, hf, he, hstart, hstart.trans hle, hsame]
          using hrest
      · have hskip : ¬ (t₀ ≤ f.1 ∧ f.1 ≤ t₁) := fun h => hf h.2
        rw [List.filter_cons_of_neg (by simpa using hskip)]
        by_cases he : e.1 ≤ t₁
        · rw [List.filter_cons_of_pos (by simpa using ⟨hstart, he⟩)]
          simp only [List.map_cons, List.sum_cons]
          linarith
        · have hskip' : ¬ (t₀ ≤ e.1 ∧ e.1 ≤ t₁) := fun h => he h.2
          rw [List.filter_cons_of_neg (by simpa using hskip')]
          exact hrest

namespace Ledger.Sound

/-- Before anything is spent. -/
theorem start {level : K} (hrate : 0 ≤ rate) (hburst : 0 ≤ burst)
    (hlevel : level ≤ burst) : Sound rate burst { level, time := now } where
  level_le := hlevel
  past := by simp
  nonneg := by simp
  since := by
    intro t₀ hle
    have hcredit := mul_nonneg hrate (sub_nonneg.mpr hle)
    rw [spentBetween_nil]
    dsimp only at hcredit ⊢
    linarith
  within := by
    intro t₀ t₁ hle
    have hcredit := mul_nonneg hrate (sub_nonneg.mpr hle)
    rw [spentBetween_nil]
    linarith

/-- A refill that adds no more than came in since the last one. -/
theorem refill (h : l.Sound rate burst) {level : K} (hrate : 0 ≤ rate)
    (hnow : l.time ≤ now) (hcredit : level ≤ l.level + rate * (now - l.time))
    (hlevel : level ≤ burst) :
    Sound rate burst { level, time := now, spent := l.spent } where
  level_le := hlevel
  past := fun e he => (h.past e he).trans hnow
  nonneg := h.nonneg
  since := by
    intro t₀ hle
    dsimp only at hle ⊢
    rcases le_or_gt t₀ l.time with hbefore | hafter
    · have hsince := h.since t₀ hbefore
      rw [spentBetween_of_past h.past hnow]
      linarith
    · have hrest := mul_nonneg hrate (sub_nonneg.mpr hle)
      rw [spentBetween_of_after h.past hafter]
      linarith
  within := h.within

/-- A lower level at the same time. -/
theorem lower (h : l.Sound rate burst) {level : K} (hrate : 0 ≤ rate)
    (hle : level ≤ l.level) :
    Sound rate burst { level, time := l.time, spent := l.spent } :=
  h.refill hrate le_rfl (by simpa using hle) (hle.trans h.level_le)

/-- Spending what is there. -/
theorem spend (h : l.Sound rate burst) {level : K} (hrate : 0 ≤ rate)
    (hx : 0 ≤ x) (hthere : 0 ≤ level) (hlevel : level + x ≤ l.level) :
    Sound rate burst
      { level, time := l.time, spent := l.spent ++ [(l.time, x)] } where
  level_le := by
    have hfull := h.level_le
    dsimp only
    linarith
  past := by
    intro e he
    rcases List.mem_append.mp he with hold | hnew
    · exact h.past e hold
    · obtain rfl := List.mem_singleton.mp hnew
      exact le_rfl
  nonneg := by
    intro e he
    rcases List.mem_append.mp he with hold | hnew
    · exact h.nonneg e hold
    · obtain rfl := List.mem_singleton.mp hnew
      exact hx
  since := by
    intro t₀ hle
    have hsince := h.since t₀ hle
    rw [spentBetween_append_of_mem hle le_rfl]
    dsimp only
    linarith
  within := by
    intro t₀ t₁ hle
    by_cases hin : t₀ ≤ l.time ∧ l.time ≤ t₁
    · obtain ⟨h₀, h₁⟩ := hin
      have hsince := h.since t₀ h₀
      have hlater := mul_le_mul_of_nonneg_left
        (sub_le_sub_right h₁ t₀) hrate
      rw [spentBetween_append_of_mem h₀ h₁, spentBetween_of_past h.past h₁]
      linarith
    · rw [spentBetween_append_of_not_mem hin]
      exact h.within t₀ t₁ hle

/-- What was not spent after all. -/
theorem sublist (h : l.Sound rate burst) (hsub : spent.Sublist l.spent) :
    Sound rate burst { level := l.level, time := l.time, spent } where
  level_le := h.level_le
  past := fun e he => h.past e (hsub.subset he)
  nonneg := fun e he => h.nonneg e (hsub.subset he)
  since := by
    intro t₀ hle
    have hsince := h.since t₀ hle
    have hless : spentBetween t₀ l.time spent ≤ spentBetween t₀ l.time l.spent :=
      spentBetween_sublist h.nonneg hsub
    dsimp only
    linarith
  within := fun t₀ t₁ hle =>
    (spentBetween_sublist h.nonneg hsub).trans (h.within t₀ t₁ hle)

end Ledger.Sound

end RateLedger
