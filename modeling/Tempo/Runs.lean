import Mathlib.Algebra.Order.Monoid.Unbundled.Basic
import Mathlib.Data.Option.Basic
import Mathlib.Logic.Basic

/-!
# Runs of partial labelled steps

A system of threads is given by one partial step function: `step s e` is the
state after event `e`, or `none` where `e` is not enabled in `s`.  Every
choice a thread or its environment makes is part of the event, so a run is
determined by its start and its list of events and can be evaluated.

`total` adds up a cost along a run, for quantities that every step changes by
its cost (`exec_balance`).

`Reach step cond start` collects the states reached by runs whose every step
satisfies `cond` in the state it leaves; with no condition it is plain
reachability.  Conditions are what a result about "all runs in which ..." is
stated with, and `Reach.recond` moves a result from one condition to another.
Nothing here depends on what the states are.
-/

namespace Runs

variable {σ ε τ η : Type*}

/-- States reached from `start` by a run whose every step meets `cond`. -/
inductive Reach (step : σ → ε → Option σ) (cond : σ → ε → Prop)
    (start : σ) : σ → Prop
  | refl : Reach step cond start start
  | tail {s t : σ} {e : ε} (init : Reach step cond start s)
      (hcond : cond s e) (hstep : step s e = some t) :
      Reach step cond start t

/-- States reached from `start` by any run. -/
abbrev Reachable (step : σ → ε → Option σ) (start : σ) : σ → Prop :=
  Reach step (fun _ _ => True) start

/-- Execute a list of events; `none` as soon as one is not enabled. -/
def exec (step : σ → ε → Option σ) : σ → List ε → Option σ
  | s, [] => some s
  | s, e :: es => (step s e).bind fun t => exec step t es

/-- Every step of the run of `es` from `s` meets `cond` in the state it
leaves. -/
def Meets (step : σ → ε → Option σ) (cond : σ → ε → Prop) :
    σ → List ε → Prop
  | _, [] => True
  | s, e :: es => cond s e ∧ ∀ t ∈ step s e, Meets step cond t es

instance Meets.decidable (step : σ → ε → Option σ) (cond : σ → ε → Prop)
    [hdec : ∀ s e, Decidable (cond s e)] :
    ∀ s es, Decidable (Meets step cond s es)
  | _, [] => isTrue trivial
  | s, e :: es =>
      match hstep : step s e with
      | none =>
          decidable_of_iff (cond s e) (by simp [Meets, hstep])
      | some t =>
          have := Meets.decidable step cond t es
          decidable_of_iff (cond s e ∧ Meets step cond t es)
            (by simp [Meets, hstep])

section Reach

variable {step : σ → ε → Option σ} {cond : σ → ε → Prop} {start s t : σ}

theorem Reach.trans (h₁ : Reach step cond start s)
    (h₂ : Reach step cond s t) : Reach step cond start t := by
  induction h₂ with
  | refl => exact h₁
  | tail _ hcond hstep ih => exact ih.tail hcond hstep

/-- A property of the start that every admissible step preserves holds in
every state reached. -/
theorem Reach.invariant {Inv : σ → Prop} (hreach : Reach step cond start t)
    (hstart : Inv start)
    (hpres : ∀ s e t, Inv s → cond s e → step s e = some t → Inv t) :
    Inv t := by
  induction hreach with
  | refl => exact hstart
  | tail _ hcond hstep ih => exact hpres _ _ _ ih hcond hstep

/-- Runs under one condition are runs under another, when the second follows
from the first in the states such runs reach. -/
theorem Reach.recond {cond' : σ → ε → Prop} (hreach : Reach step cond start t)
    (himp : ∀ s e, Reach step cond start s → cond s e → cond' s e) :
    Reach step cond' start t := by
  induction hreach with
  | refl => exact .refl
  | tail hinit hcond hstep ih =>
      exact ih.tail (himp _ _ hinit hcond) hstep

/-- A property of the last state that steps only lose holds in every state a
run leaves. -/
theorem Reach.strengthen {P : σ → Prop} (hreach : Reach step cond start t)
    (hback : ∀ s e t, step s e = some t → P t → P s) (hend : P t) :
    Reach step (fun s e => cond s e ∧ P s) start t := by
  induction hreach with
  | refl => exact .refl
  | tail hinit hcond hstep ih =>
      have hmid := hback _ _ _ hstep hend
      exact (ih hmid).tail ⟨hcond, hmid⟩ hstep

/-- A property that steps preserve while `P` holds, where the last state has `P`
and steps only lose it. -/
theorem Reach.invariant_while {P Inv : σ → Prop}
    (hreach : Reach step cond start t)
    (hback : ∀ s e t, step s e = some t → P t → P s) (hend : P t)
    (hstart : Inv start)
    (hpres : ∀ s e t, Inv s → cond s e → P s → step s e = some t → Inv t) :
    Inv t := by
  apply (hreach.strengthen hback hend).invariant hstart
  intro s e t hs hcond hstep
  exact hpres s e t hs hcond.1 hcond.2 hstep

theorem Reach.reachable (hreach : Reach step cond start t) :
    Reachable step start t :=
  hreach.recond fun _ _ _ _ => trivial

/-- The first step of a run may be taken separately. -/
theorem Reach.head {e : ε} (hcond : cond start e)
    (hstep : step start e = some s) (hreach : Reach step cond s t) :
    Reach step cond start t :=
  (Reach.refl.tail hcond hstep).trans hreach

/-- An executed list of events whose steps meet `cond` is a run under
`cond`. -/
theorem Reach.of_exec {es : List ε} (hexec : exec step start es = some t)
    (hmeets : Meets step cond start es) : Reach step cond start t := by
  induction es generalizing start with
  | nil =>
      obtain rfl : start = t := by simpa [exec] using hexec
      exact .refl
  | cons e es ih =>
      obtain ⟨mid, hstep, hrest⟩ := Option.bind_eq_some_iff.mp hexec
      exact .head hmeets.1 hstep (ih hrest (hmeets.2 mid hstep))

theorem Meets.of_forall (hall : ∀ s e, cond s e) :
    ∀ s es, Meets step cond s es
  | _, [] => trivial
  | s, e :: es => ⟨hall s e, fun t _ => Meets.of_forall hall t es⟩

/-- A condition on the events alone. -/
theorem Meets.of_mem {C : ε → Prop} {es : List ε} (hall : ∀ e ∈ es, C e) (s : σ) :
    Meets step (fun _ e => C e) s es := by
  induction es generalizing s with
  | nil => trivial
  | cons e es ih =>
      refine ⟨hall e List.mem_cons_self, fun t _ => ?_⟩
      exact ih (fun e' he' => hall e' (List.mem_cons_of_mem _ he')) t

theorem Meets.and {cond' : σ → ε → Prop} {es : List ε}
    (h : Meets step cond s es) (h' : Meets step cond' s es) :
    Meets step (fun s e => cond s e ∧ cond' s e) s es := by
  induction es generalizing s with
  | nil => trivial
  | cons e es ih =>
      exact ⟨⟨h.1, h'.1⟩, fun t ht => ih (h.2 t ht) (h'.2 t ht)⟩

/-- Conditions that agree wherever an invariant holds are met by the same
runs. -/
theorem Meets.congr {cond' : σ → ε → Prop} (Inv : σ → Prop) {es : List ε}
    (hstart : Inv s) (hpres : ∀ s e t, Inv s → step s e = some t → Inv t)
    (hiff : ∀ s e, Inv s → (cond s e ↔ cond' s e)) :
    Meets step cond s es ↔ Meets step cond' s es := by
  induction es generalizing s with
  | nil => exact Iff.rfl
  | cons e es ih =>
      apply and_congr (hiff s e hstart)
      apply forall₂_congr
      intro t ht
      exact ih (hpres s e t hstart ht)

/-- A run cut in two. -/
theorem exec_append (s : σ) (es es' : List ε) :
    exec step s (es ++ es') = (exec step s es).bind fun t => exec step t es' := by
  induction es generalizing s with
  | nil => rfl
  | cons e es ih => simp only [List.cons_append, exec, ih, Option.bind_assoc]

/-- A condition on the events alone, along a run that goes through. -/
theorem Meets.iff_forall_mem {C : ε → Prop} {es : List ε}
    (hexec : exec step s es = some t) :
    Meets step (fun _ e => C e) s es ↔ ∀ e ∈ es, C e := by
  induction es generalizing s with
  | nil => exact iff_of_true trivial (by simp)
  | cons e es ih =>
      obtain ⟨mid, hmid, hrest⟩ := Option.bind_eq_some_iff.mp hexec
      have hlater : (∀ u ∈ step s e, Meets step (fun _ e => C e) u es) ↔
          ∀ e ∈ es, C e := by
        rw [← ih hrest, hmid]
        simp
      simp only [Meets, List.forall_mem_cons, hlater]

/-- A property that steps can only lose, and keep exactly where they meet `cond`,
holds at the end of a run exactly when it held at its start and every step meets
`cond`. -/
theorem exec_keeps_iff {P Inv : σ → Prop} {es : List ε}
    (hexec : exec step s es = some t) (hstart : Inv s)
    (hpres : ∀ s e t, Inv s → step s e = some t → Inv t)
    (hstep : ∀ s e t, Inv s → step s e = some t → (P t ↔ P s ∧ cond s e)) :
    P t ↔ P s ∧ Meets step cond s es := by
  induction es generalizing s with
  | nil =>
      obtain rfl : s = t := by simpa [exec] using hexec
      simp [Meets]
  | cons e es ih =>
      obtain ⟨mid, hmid, hrest⟩ := Option.bind_eq_some_iff.mp hexec
      have hlater : (∀ u ∈ step s e, Meets step cond u es) ↔ Meets step cond mid es := by
        rw [hmid]
        simp
      rw [ih hrest (hpres s e mid hstart hmid), hstep s e mid hstart hmid, and_assoc]
      simp only [Meets, hlater]

/-- Where only steps that meet `cond` lead to states with `P`, and those keep the
stronger `Q`, the property `P` holds all along a run exactly when every step meets
`cond`. -/
theorem Meets.iff_prefixes_of_step {P Q : σ → Prop} {es : List ε}
    (hweak : ∀ s, Q s → P s) (hstart : Q s)
    (hstep : ∀ s e, Q s →
      ((∀ t ∈ step s e, P t) → cond s e) ∧ (cond s e → ∀ t ∈ step s e, Q t)) :
    (∀ pre, pre <+: es → ∀ t ∈ exec step s pre, P t) ↔
      Meets step cond s es := by
  induction es generalizing s with
  | nil =>
      refine iff_of_true (fun pre hpre t ht => ?_) trivial
      obtain rfl := List.prefix_nil.mp hpre
      obtain rfl : s = t := by simpa [exec] using ht
      exact hweak s hstart
  | cons e es ih =>
      obtain ⟨hneeds, hkeeps⟩ := hstep s e hstart
      have hexec : ∀ mid ∈ step s e, ∀ pre,
          exec step s (e :: pre) = exec step mid pre := by
        intro mid hmid pre
        rw [exec, Option.mem_def.mp hmid, Option.bind_some]
      constructor
      · intro hall
        have hfirst : ∀ mid ∈ step s e, P mid := by
          intro mid hmid
          refine hall [e] ((List.prefix_cons_inj e).mpr List.nil_prefix) mid ?_
          rw [hexec mid hmid]
          rfl
        refine ⟨hneeds hfirst, fun mid hmid => ?_⟩
        refine (ih (hkeeps (hneeds hfirst) mid hmid)).mp fun pre hpre t ht => ?_
        refine hall (e :: pre) ((List.prefix_cons_inj e).mpr hpre) t ?_
        rwa [hexec mid hmid]
      · rintro ⟨hcond, hrest⟩ pre hpre t ht
        cases pre with
        | nil =>
            obtain rfl : s = t := by simpa [exec] using ht
            exact hweak s hstart
        | cons e' pre =>
            obtain ⟨rfl, hshorter⟩ := List.cons_prefix_cons.mp hpre
            obtain ⟨mid, hmid, hlater⟩ := Option.bind_eq_some_iff.mp ht
            exact (ih (hkeeps hcond mid hmid)).mpr (hrest mid hmid) pre hshorter t hlater

/-- Where every step is enabled, only steps that meet `cond` lead to a state with
`P`, and those keep the stronger `Q`, the property `P` holds all along a run
exactly when every step meets `cond`. -/
theorem Meets.iff_prefixes_of_kept {P Q : σ → Prop} {es : List ε}
    (hweak : ∀ s, Q s → P s) (hstart : Q s)
    (hstep : ∀ s e, Q s →
      ∃ t, step s e = some t ∧ (P t → cond s e) ∧ (cond s e → Q t)) :
    (∀ pre, pre <+: es → ∀ t ∈ exec step s pre, P t) ↔
      Meets step cond s es := by
  apply Meets.iff_prefixes_of_step hweak hstart
  intro s e hs
  obtain ⟨t, ht, hneeds, hkeeps⟩ := hstep s e hs
  refine ⟨fun hall => hneeds (hall t ht), fun hcond u hu => ?_⟩
  obtain rfl : t = u := Option.some.inj (ht.symm.trans hu)
  exact hkeeps hcond

/-- A run that goes through only has enabled steps. -/
theorem Meets.iff_enabled {es : List ε} (hexec : exec step s es = some t) :
    Meets step (fun s e => (step s e).isSome → cond s e) s es ↔
      Meets step cond s es := by
  induction es generalizing s with
  | nil => exact Iff.rfl
  | cons e es ih =>
      obtain ⟨mid, hmid, hrest⟩ := Option.bind_eq_some_iff.mp hexec
      have hlater := ih hrest
      simp only [Meets, hmid, Option.isSome_some, forall_const, Option.mem_def,
        Option.some.injEq, forall_eq', hlater]

/-- The same for a run that goes through, of steps that may be disabled elsewhere. -/
theorem Meets.iff_prefixes_of_exec {P Q : σ → Prop} {es : List ε}
    (hexec : exec step s es = some t) (hweak : ∀ s, Q s → P s) (hstart : Q s)
    (hstep : ∀ s e t, Q s → step s e = some t →
      (P t → cond s e) ∧ (cond s e → Q t)) :
    (∀ pre, pre <+: es → ∀ t ∈ exec step s pre, P t) ↔
      Meets step cond s es := by
  rw [← Meets.iff_enabled hexec]
  apply Meets.iff_prefixes_of_step hweak hstart
  intro s e hs
  constructor
  · intro hall henabled
    obtain ⟨t, ht⟩ := Option.isSome_iff_exists.mp henabled
    exact (hstep s e t hs ht).1 (hall t ht)
  · intro hcond t ht
    exact (hstep s e t hs ht).2 (hcond (Option.isSome_iff_exists.mpr ⟨t, ht⟩))

/-- Where every step is enabled, and keeps a property exactly when it meets
`cond`, the property holds all along a run exactly when every step meets
`cond`. -/
theorem Meets.iff_prefixes {P : σ → Prop} {es : List ε} (hstart : P s)
    (hstep : ∀ s e, P s → ∃ t, step s e = some t ∧ (P t ↔ cond s e)) :
    (∀ pre, pre <+: es → ∀ t ∈ exec step s pre, P t) ↔
      Meets step cond s es := by
  apply Meets.iff_prefixes_of_kept (fun _ h => h) hstart
  intro s e hs
  obtain ⟨t, ht, hiff⟩ := hstep s e hs
  exact ⟨t, ht, hiff.mp, hiff.mpr⟩

/-- An executed list of events that does not meet `cond` has a first event that
fails it. -/
theorem exists_violation {es : List ε} (hexec : exec step start es = some t)
    (hfail : ¬ Meets step cond start es) :
    ∃ u e v, Reach step cond start u ∧ ¬ cond u e ∧ step u e = some v ∧
      Reachable step v t := by
  induction es generalizing start with
  | nil => exact absurd trivial hfail
  | cons e es ih =>
      obtain ⟨mid, hstep, hrest⟩ := Option.bind_eq_some_iff.mp hexec
      by_cases hcond : cond start e
      · have hlater : ¬ Meets step cond mid es := by
          intro hmeets
          apply hfail
          refine ⟨hcond, fun u hu => ?_⟩
          obtain rfl : mid = u := Option.some.inj (hstep.symm.trans hu)
          exact hmeets
        obtain ⟨u, e', v, hreach, hnot, hviolate, hend⟩ := ih hrest hlater
        exact ⟨u, e', v, .head hcond hstep hreach, hnot, hviolate, hend⟩
      · refine ⟨start, e, mid, .refl, hcond, hstep, ?_⟩
        exact Reach.of_exec hrest (Meets.of_forall (fun _ _ => trivial) _ _)

theorem Reachable.of_exec {es : List ε} (hexec : exec step start es = some t) :
    Reachable step start t :=
  Reach.of_exec hexec (Meets.of_forall (fun _ _ => trivial) _ _)

/-- A decidable property of the state a list of events ends in, read off by
executing it. -/
theorem Reach.exists_of_exec {P : σ → Prop} (es : List ε)
    (hmeets : Meets step cond start es) (hend : ∃ t ∈ exec step start es, P t) :
    ∃ t, Reach step cond start t ∧ P t := by
  obtain ⟨t, ht, hP⟩ := hend
  exact ⟨t, .of_exec ht hmeets, hP⟩

theorem Reachable.exists_of_exec {P : σ → Prop} (es : List ε)
    (hend : ∃ t ∈ exec step start es, P t) :
    ∃ t, Reachable step start t ∧ P t :=
  Reach.exists_of_exec es (Meets.of_forall (fun _ _ => trivial) _ _) hend

/-- **Forward simulation.**  If every admissible step between states that
satisfy `Inv` maps to a step of `step'` under `f`, or leaves `f` unchanged,
then runs map to runs. -/
theorem Reach.simulate {step' : τ → η → Option τ} {Inv : σ → Prop}
    (f : σ → τ) (hreach : Reach step cond start t)
    (hinv : ∀ s, Reach step cond start s → Inv s)
    (hsim : ∀ s e t, Inv s → cond s e → step s e = some t →
      f t = f s ∨ ∃ e', step' (f s) e' = some (f t)) :
    Reachable step' (f start) (f t) := by
  induction hreach with
  | refl => exact .refl
  | tail hinit hcond hstep ih =>
      rcases hsim _ _ _ (hinv _ hinit) hcond hstep with heq | ⟨e', he'⟩
      · rw [heq]; exact ih
      · exact ih.tail trivial he'

end Reach

section Total

variable {α : Type*} [AddCommMonoid α] {step : σ → ε → Option σ}
  {cost : σ → ε → α} {s t : σ} {es : List ε}

/-- What the steps of a run cost together. -/
def total (step : σ → ε → Option σ) (cost : σ → ε → α) : σ → List ε → α
  | _, [] => 0
  | s, e :: es => cost s e + (step s e).elim 0 fun t => total step cost t es

/-- A quantity that each step raises by its cost is raised by the total cost
of a run. -/
theorem exec_balance {Inv : σ → Prop} {quantity : σ → α} (hstart : Inv s)
    (hpres : ∀ s e t, Inv s → step s e = some t → Inv t)
    (hstep : ∀ s e t, Inv s → step s e = some t →
      quantity t = quantity s + cost s e)
    (hexec : exec step s es = some t) :
    quantity t = quantity s + total step cost s es := by
  induction es generalizing s with
  | nil =>
      obtain rfl : s = t := by simpa [exec] using hexec
      simp [total]
  | cons e es ih =>
      obtain ⟨mid, hmid, hrest⟩ := Option.bind_eq_some_iff.mp hexec
      have hend := ih (hpres s e mid hstart hmid) hrest
      rw [hend, hstep s e mid hstart hmid, add_assoc]
      simp [total, hmid]

/-- A run of non-negative costs is free exactly when each of its steps is. -/
theorem total_eq_zero_iff [PartialOrder α] [AddLeftMono α]
    (hcost : ∀ s e, 0 ≤ cost s e) :
    total step cost s es = 0 ↔ Meets step (fun s e => cost s e = 0) s es := by
  have hnonneg : ∀ (es : List ε) (s : σ), 0 ≤ total step cost s es := by
    intro es
    induction es with
    | nil => exact fun _ => le_refl _
    | cons e es ih =>
        intro s
        refine add_nonneg (hcost s e) ?_
        cases step s e with
        | none => exact le_refl _
        | some t => exact ih t
  induction es generalizing s with
  | nil => simp [total, Meets]
  | cons e es ih =>
      cases hstep : step s e with
      | none => simp [total, Meets, hstep]
      | some t =>
          simp only [total, Meets, hstep, Option.elim_some, Option.mem_def,
            Option.some.injEq, forall_eq']
          rw [add_eq_zero_iff_of_nonneg (hcost s e) (hnonneg es t)]
          exact and_congr_right fun _ => ih

end Total

end Runs
