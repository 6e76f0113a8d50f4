import Mathlib.Logic.Function.Basic
import Mathlib.Order.Lattice

/-!
# Holding what was used last

`used` says when each key was used last, `held` which keys are held, stamped with a time.
What is held is what was used last: its stamp is its last use, and no key that is not held
was used after it.  This stays so when the key with the least stamp goes, when a key is
used and then held, and when a key is forgotten.
-/

namespace Recency

variable {κ τ : Type*} [DecidableEq κ] [LinearOrder τ]

structure MostRecent (held used : κ → Option τ) : Prop where
  stamped : ∀ {k t}, held k = some t → used k = some t
  recent : ∀ {k t j u}, held k = some t → held j = none → used j = some u → u ≤ t

namespace MostRecent

variable {held used : κ → Option τ} {k : κ} {now t : τ}

omit [DecidableEq κ] in
theorem empty : MostRecent (fun _ : κ => none) (fun _ => (none : Option τ)) where
  stamped := fun h => by cases h
  recent := fun h => by cases h

/-- The key that was used first goes. -/
theorem evict (h : MostRecent held used) (hk : held k = some t)
    (hleast : ∀ j u, held j = some u → t ≤ u) :
    MostRecent (Function.update held k none) used where
  stamped := fun {j u} hj => by
    by_cases hjk : j = k
    · subst hjk
      rw [Function.update_self] at hj
      cases hj
    · rw [Function.update_of_ne hjk] at hj
      exact h.stamped hj
  recent := fun {i u j w} hi hj hw => by
    by_cases hik : i = k
    · subst hik
      rw [Function.update_self] at hi
      cases hi
    · rw [Function.update_of_ne hik] at hi
      by_cases hjk : j = k
      · subst hjk
        have hlast := h.stamped hk
        rw [hw] at hlast
        obtain rfl := Option.some.inj hlast
        exact hleast i u hi
      · rw [Function.update_of_ne hjk] at hj
        exact h.recent hi hj hw

/-- A key is used now, and held. -/
theorem touch (h : MostRecent held used) (hnow : ∀ j u, used j = some u → u ≤ now) (k : κ) :
    MostRecent (Function.update held k (some now)) (Function.update used k (some now)) where
  stamped := fun {j u} hj => by
    by_cases hjk : j = k
    · subst hjk
      rw [Function.update_self] at hj ⊢
      exact hj
    · rw [Function.update_of_ne hjk] at hj ⊢
      exact h.stamped hj
  recent := fun {i u j w} hi hj hw => by
    by_cases hjk : j = k
    · subst hjk
      rw [Function.update_self] at hj
      cases hj
    · rw [Function.update_of_ne hjk] at hj hw
      by_cases hik : i = k
      · subst hik
        rw [Function.update_self] at hi
        obtain rfl := Option.some.inj hi
        exact hnow j w hw
      · rw [Function.update_of_ne hik] at hi
        exact h.recent hi hj hw

/-- A key is forgotten. -/
theorem drop (h : MostRecent held used) (k : κ) :
    MostRecent (Function.update held k none) (Function.update used k none) where
  stamped := fun {j u} hj => by
    by_cases hjk : j = k
    · subst hjk
      rw [Function.update_self] at hj
      cases hj
    · rw [Function.update_of_ne hjk] at hj ⊢
      exact h.stamped hj
  recent := fun {i u j w} hi hj hw => by
    by_cases hjk : j = k
    · subst hjk
      rw [Function.update_self] at hw
      cases hw
    · rw [Function.update_of_ne hjk] at hj hw
      by_cases hik : i = k
      · subst hik
        rw [Function.update_self] at hi
        cases hi
      · rw [Function.update_of_ne hik] at hi
        exact h.recent hi hj hw

end MostRecent

end Recency
