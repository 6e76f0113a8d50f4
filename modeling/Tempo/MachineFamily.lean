import Tempo.OrderedDict
import Tempo.Runs

/-!
# A family of machines under keys

Machines of one kind are kept in a dictionary, and an event names the machine that is
to take it; an event for a key without a machine is lost.  A run of the family is a run
of each machine on the events addressed to it (`exec_lookup`), and it goes through
exactly where each of these does (`exec_isSome_iff`), so the machines do not see each
other.
-/

namespace MachineFamily

open OrderedDict Runs

variable {κ σ ε : Type*} [DecidableEq κ] {member : σ → ε → Option σ} {d d' : Dict κ σ}
  {r : κ × ε} {rs : List (κ × ε)} {k : κ} {s : σ}

/-- One event of the family. -/
def step (member : σ → ε → Option σ) (d : Dict κ σ) (r : κ × ε) : Option (Dict κ σ) :=
  match d.lookup r.1 with
  | none => some d
  | some s => (member s r.2).map (assign d r.1)

/-- The events for one key. -/
def addressed (k : κ) (rs : List (κ × ε)) : List ε :=
  (rs.filter fun r => r.1 = k).map Prod.snd

@[simp]
theorem addressed_nil : addressed k ([] : List (κ × ε)) = [] := rfl

theorem addressed_cons_self (k : κ) (e : ε) (rs : List (κ × ε)) :
    addressed k ((k, e) :: rs) = e :: addressed k rs := by
  simp [addressed]

theorem addressed_cons_of_ne (h : r.1 ≠ k) (rs : List (κ × ε)) :
    addressed k (r :: rs) = addressed k rs := by
  simp [addressed, h]

/-- The machine under the key of the event moves, and no other. -/
theorem lookup_step (hstep : step member d r = some d') (k : κ) :
    d'.lookup k =
      if k = r.1 then (d.lookup k).bind fun s => member s r.2 else d.lookup k := by
  unfold step at hstep
  cases hlookup : d.lookup r.1 with
  | none =>
      rw [hlookup] at hstep
      obtain rfl := Option.some.inj hstep
      split
      next hk => rw [hk, hlookup, Option.bind_none]
      next hk => rfl
  | some s =>
      rw [hlookup] at hstep
      obtain ⟨t, ht, rfl⟩ := Option.map_eq_some_iff.mp hstep
      rw [lookup_assign]
      split
      next hk => rw [hk, hlookup, Option.bind_some, ht]
      next hk => rfl

/-- **Each machine makes its own run.** -/
theorem exec_lookup (hexec : exec (step member) d rs = some d') (k : κ) :
    d'.lookup k = (d.lookup k).bind fun s => exec member s (addressed k rs) := by
  induction rs generalizing d with
  | nil =>
      obtain rfl := Option.some.inj hexec
      simp [exec]
  | cons r rs ih =>
      obtain ⟨mid, hmid, hrest⟩ := Option.bind_eq_some_iff.mp hexec
      rw [ih hrest, lookup_step hmid]
      obtain ⟨j, e⟩ := r
      by_cases hk : k = j
      · subst hk
        rw [if_pos rfl, addressed_cons_self]
        cases d.lookup k <;> rfl
      · rw [if_neg hk, addressed_cons_of_ne (Ne.symm hk)]

/-- The family takes an event where the machine that it is for does. -/
theorem step_isSome_iff : (step member d r).isSome ↔
    ∀ s, d.lookup r.1 = some s → (member s r.2).isSome := by
  unfold step
  cases d.lookup r.1 <;> simp

/-- The family runs where each of its machines does. -/
theorem exec_isSome_iff : (exec (step member) d rs).isSome ↔
    ∀ k s, d.lookup k = some s → (exec member s (addressed k rs)).isSome := by
  induction rs generalizing d with
  | nil => simp [exec]
  | cons r rs ih =>
      obtain ⟨j, e⟩ := r
      rw [exec]
      cases hstep : step member d (j, e) with
      | none =>
          have hstuck : ¬ ∀ s, d.lookup j = some s → (member s e).isSome := by
            rw [← step_isSome_iff (r := (j, e)), hstep]
            simp
          rw [Option.bind_none]
          refine iff_of_false (by simp) fun hall => hstuck fun s hs => ?_
          have hown := hall j s hs
          rw [addressed_cons_self, exec] at hown
          exact Option.isSome_of_isSome_bind hown
      | some mid =>
          rw [Option.bind_some, ih]
          refine forall_congr' fun k => ?_
          rw [lookup_step hstep]
          by_cases hk : k = j
          · subst hk
            rw [if_pos rfl, addressed_cons_self]
            cases hs : d.lookup k with
            | none => simp
            | some s =>
                have htaken : (member s e).isSome :=
                  step_isSome_iff.mp (Option.isSome_of_mem hstep) s hs
                obtain ⟨t, ht⟩ := Option.isSome_iff_exists.mp htaken
                simp [exec, ht]
          · rw [if_neg hk, addressed_cons_of_ne (Ne.symm hk)]

end MachineFamily
