import Mathlib.Data.List.Basic

/-!
# Binding the arguments of a call

Python binds a call to the parameters of the method it reaches: positional
arguments fill the parameters from the left, keyword arguments fill theirs by
name, and defaults fill what is left.  A call that does not bind raises
`TypeError` before the body runs.  Values play no part in this, so a call is
given by the number of its positional arguments and the names of the others.
-/

namespace CallBinding

structure Parameter where
  name : String
  required : Bool := true

structure Arguments where
  positional : Nat
  keywords : List String := []

/-- Why a call does not bind. -/
inductive BindError where
  | tooManyPositional
  | unexpectedKeyword (name : String)
  | multipleValues (name : String)
  | missing (name : String)
  deriving DecidableEq

/-- Fill the parameters from the left with this many positional arguments. -/
def fill (keywords : List String) :
    List Parameter → Nat → Except BindError Unit
  | [], 0 => .ok ()
  | [], _ + 1 => .error .tooManyPositional
  | p :: params, k + 1 =>
      if p.name ∈ keywords then .error (.multipleValues p.name)
      else fill keywords params k
  | p :: params, 0 =>
      if p.required ∧ p.name ∉ keywords then .error (.missing p.name)
      else fill keywords params 0

def bind (params : List Parameter) (args : Arguments) :
    Except BindError Unit :=
  match args.keywords.find? fun k => k ∉ params.map Parameter.name with
  | some k => .error (.unexpectedKeyword k)
  | none => fill args.keywords params args.positional

variable {params : List Parameter} {args : Arguments}

theorem fill_eq_ok_iff (keywords : List String) (params : List Parameter)
    (k : Nat) :
    fill keywords params k = .ok () ↔
      k ≤ params.length ∧ (∀ p ∈ params.take k, p.name ∉ keywords) ∧
        ∀ p ∈ params.drop k, p.required = true → p.name ∈ keywords := by
  induction params generalizing k with
  | nil =>
      cases k with
      | zero => simp [fill]
      | succ k => simp [fill]
  | cons p params ih =>
      cases k with
      | zero =>
          unfold fill
          split
          next hmissing =>
            refine iff_of_false (by simp) ?_
            rintro ⟨-, -, hgiven⟩
            exact hmissing.2 (hgiven p List.mem_cons_self hmissing.1)
          next hgiven =>
            have hp : p.required = true → p.name ∈ keywords := fun hr => by
              by_contra hk
              exact hgiven ⟨hr, hk⟩
            rw [ih 0]
            simpa using fun _ => hp
      | succ k =>
          unfold fill
          split
          next htwice =>
            refine iff_of_false (by simp) ?_
            rintro ⟨-, honce, -⟩
            exact honce p (by simp) htwice
          next honce =>
            rw [ih k]
            simp [honce]

/-- **A call binds** exactly when every keyword names a parameter, no parameter
is left over or filled twice, and every required one is filled. -/
theorem bind_eq_ok_iff :
    bind params args = .ok () ↔
      (∀ k ∈ args.keywords, k ∈ params.map Parameter.name) ∧
        args.positional ≤ params.length ∧
        (∀ p ∈ params.take args.positional, p.name ∉ args.keywords) ∧
        ∀ p ∈ params.drop args.positional,
          p.required = true → p.name ∈ args.keywords := by
  unfold bind
  cases hfind : args.keywords.find? fun k => k ∉ params.map Parameter.name with
  | none =>
      have hknown : ∀ k ∈ args.keywords, k ∈ params.map Parameter.name := by
        simpa using List.find?_eq_none.mp hfind
      dsimp only
      rw [fill_eq_ok_iff]
      exact (and_iff_right hknown).symm
  | some k =>
      refine iff_of_false (by simp) ?_
      rintro ⟨hknown, -⟩
      have hunknown := List.find?_some hfind
      simp only [decide_eq_true_eq] at hunknown
      exact hunknown (hknown k (List.mem_of_find?_eq_some hfind))

/-- A keyword the method does not have is a `TypeError`. -/
theorem bind_error_of_unexpected {k : String} (hk : k ∈ args.keywords)
    (hunknown : k ∉ params.map Parameter.name) :
    ∃ name, bind params args = .error (.unexpectedKeyword name) := by
  unfold bind
  cases hfind : args.keywords.find? fun k => k ∉ params.map Parameter.name with
  | none =>
      have hall := List.find?_eq_none.mp hfind k hk
      simp only [decide_eq_true_eq, not_not] at hall
      exact absurd hall hunknown
  | some name => exact ⟨name, rfl⟩

section Invoke

variable {ρ : Type*}

/-- A call of a method: its body, or what a `TypeError` makes of the call. -/
def invoke (params : List Parameter) (args : Arguments)
    (rejected : BindError → ρ) (body : ρ) : ρ :=
  match bind params args with
  | .ok () => body
  | .error e => rejected e

theorem invoke_of_ok {rejected : BindError → ρ} {body : ρ}
    (h : bind params args = .ok ()) :
    invoke params args rejected body = body := by
  unfold invoke
  rw [h]

theorem invoke_of_error {rejected : BindError → ρ} {body : ρ} {e : BindError}
    (h : bind params args = .error e) :
    invoke params args rejected body = rejected e := by
  unfold invoke
  rw [h]

end Invoke

end CallBinding
