import Mathlib.Logic.Function.Basic
import Tempo.SoftAbsorber

/-!
# The patched connector

`install` replaces `store_kv_cache` in the class of the connector.  The new method keeps
the old one, and where a connector has nothing to back it calls the old one; installed
several times, each of the methods keeps the one before.  The first store of a connector
that has something to back it gives it a `TEMPOStorageBackend`, with the configuration of
the last install, and from then on everything goes there.

Over every interleaving with the flush threads no store is lost, doubled or overtaken
(`stores_kept`).
-/

namespace Tempo

open Runs

/-- An attribute of a connector: missing or `None`, or an object and whether it is true. -/
abbrev Attribute (ν : Type*) := Option (ν × Bool)

/-- `getattr(self, "backend", None) or getattr(self, "store", None)` -/
def backingOf {ν : Type*} (backend store : Attribute ν) : Option ν :=
  match backend with
  | some (v, true) => some v
  | some (_, false) | none => store.map (·.1)

/-- `_tempo_backend`, on the soft absorber. -/
structure TempoBackend (ν κ τ : Type*) where
  backing : ν
  cfg : SoftConfig
  absorber : SoftAbsorber κ τ

/-- The class and its connectors.  `patches` are the configurations of the methods that
were installed, the last one first.  `original` are the calls of the method of before all
of them, and `stores` is history. -/
structure StoreHooks (ι ν κ τ : Type*) where
  patches : List SoftConfig := []
  backend : ι → Attribute ν := fun _ => none
  store : ι → Attribute ν := fun _ => none
  tempo : ι → Option (TempoBackend ν κ τ) := fun _ => none
  original : ι → List (κ × τ) := fun _ => []
  stores : ι → List (κ × τ) := fun _ => []

inductive StoreHookEvent (ι ν κ τ : Type*)
  | install (cfg : SoftConfig)
  /-- the connector sets its attributes -/
  | assign (i : ι) (backend store : Attribute ν)
  /-- `store_kv_cache`; `now` is what a new flush thread reads from the clock -/
  | storeKvCache (i : ι) (key : κ) (kvTensor : τ) (now : ℚ)
  /-- the next statement of the flush thread -/
  | worker (i : ι) (now : ℚ)

namespace StoreHooks

variable {ι ν κ τ : Type*} [DecidableEq ι]

def setTempo (s : StoreHooks ι ν κ τ) (i : ι) (b : TempoBackend ν κ τ) :
    StoreHooks ι ν κ τ :=
  { s with tempo := Function.update s.tempo i (some b) }

/-- A step of the absorber of connector `i`. -/
def absorberStep (nbytes : τ → Nat) (s : StoreHooks ι ν κ τ) (i : ι) (b : TempoBackend ν κ τ)
    (e : SoftAbsorber.Event κ τ) : Option (StoreHooks ι ν κ τ) :=
  (b.absorber.step b.cfg nbytes e).map fun absorber => s.setTempo i { b with absorber }

/-- The method that the patches make of the original one. -/
def callPatched (nbytes : τ → Nat) (cpu : τ → τ) (s : StoreHooks ι ν κ τ) (i : ι) (key : κ)
    (kvTensor : τ) (now : ℚ) : List SoftConfig → Option (StoreHooks ι ν κ τ)
  | [] =>
      some { s with
        original := Function.update s.original i (s.original i ++ [(key, kvTensor)]) }
  | cfg :: original =>
      match s.tempo i with
      | some b => s.absorberStep nbytes i b (.absorb key (cpu kvTensor))
      | none =>
          match backingOf (s.backend i) (s.store i) with
          | none => s.callPatched nbytes cpu i key kvTensor now original
          | some backing =>
              s.absorberStep nbytes i { backing, cfg, absorber := .init cfg now }
                (.absorb key (cpu kvTensor))

def step (nbytes : τ → Nat) (cpu : τ → τ) (s : StoreHooks ι ν κ τ) :
    StoreHookEvent ι ν κ τ → Option (StoreHooks ι ν κ τ)
  | .install cfg => some { s with patches := cfg :: s.patches }
  | .assign i backend store =>
      some { s with
        backend := Function.update s.backend i backend
        store := Function.update s.store i store }
  | .storeKvCache i key kvTensor now =>
      callPatched nbytes cpu
        { s with stores := Function.update s.stores i (s.stores i ++ [(key, kvTensor)]) }
        i key kvTensor now s.patches
  | .worker i now =>
      match s.tempo i with
      | some b => s.absorberStep nbytes i b (.worker now)
      | none => none

/-- What the absorber of a connector was given. -/
def absorbed (s : StoreHooks ι ν κ τ) (i : ι) : List (κ × τ) :=
  ((s.tempo i).map fun b => b.absorber.absorbed).getD []

/-- What became of the stores of a connector that went to TEMPO: put to the backing
object, in the hands of the flush thread, or queued. -/
def under (s : StoreHooks ι ν κ τ) (i : ι) : List (κ × τ) :=
  match s.tempo i with
  | none => []
  | some b => b.absorber.puts ++ b.absorber.worker.item?.toList ++ b.absorber.queue

/-- What was stored is with the original method or with the absorber. -/
structure Kept (cpu : τ → τ) (s : StoreHooks ι ν κ τ) : Prop where
  split : ∀ i, (s.stores i).map (Prod.map id cpu) =
    (s.original i).map (Prod.map id cpu) ++ s.absorbed i
  intact : ∀ i, ∀ b ∈ s.tempo i, b.absorber.Intact
  patched : ∀ i, (s.tempo i).isSome → s.patches ≠ []

variable {nbytes : τ → Nat} {cpu : τ → τ} {s t : StoreHooks ι ν κ τ} {i : ι} {key : κ}
  {kvTensor : τ} {now : ℚ} {patches : List SoftConfig}

/-- A patched call is one `absorb`, by the backend there is or by a new one, or one call of
the original method. -/
theorem callPatched_cases
    (hcall : s.callPatched nbytes cpu i key kvTensor now patches = some t) :
    (∃ b, patches ≠ [] ∧
        (s.tempo i = some b ∨ s.tempo i = none ∧ b.absorber = .init b.cfg now) ∧
        s.absorberStep nbytes i b (.absorb key (cpu kvTensor)) = some t) ∨
      (patches = [] ∨ s.tempo i = none) ∧
        t = { s with
          original := Function.update s.original i (s.original i ++ [(key, kvTensor)]) } := by
  induction patches with
  | nil => exact .inr ⟨.inl rfl, (Option.some.inj hcall).symm⟩
  | cons cfg original ih =>
      unfold callPatched at hcall
      split at hcall
      next b hb => exact .inl ⟨b, by simp, .inl hb, hcall⟩
      next hnone =>
        split at hcall
        next =>
          rcases ih hcall with ⟨b, -, hb, hstep⟩ | ⟨-, ht⟩
          · exact .inl ⟨b, by simp, hb, hstep⟩
          · exact .inr ⟨.inr hnone, ht⟩
        next backing _ => exact .inl ⟨_, by simp, .inr ⟨hnone, rfl⟩, hcall⟩

omit [DecidableEq ι] in
theorem absorbed_of_tempo {b : TempoBackend ν κ τ} (hb : s.tempo i = some b) :
    s.absorbed i = b.absorber.absorbed := by
  unfold absorbed
  rw [hb]
  rfl

/-- The other connectors are as they were. -/
theorem absorberStep_frame {b : TempoBackend ν κ τ} {e : SoftAbsorber.Event κ τ}
    (hstep : s.absorberStep nbytes i b e = some t) :
    ∃ absorber, b.absorber.step b.cfg nbytes e = some absorber ∧
      t = s.setTempo i { b with absorber } := by
  obtain ⟨absorber, habsorber, rfl⟩ := Option.map_eq_some_iff.mp hstep
  exact ⟨absorber, habsorber, rfl⟩

theorem tempo_setTempo_self (s : StoreHooks ι ν κ τ) (b : TempoBackend ν κ τ) :
    (s.setTempo i b).tempo i = some b :=
  Function.update_self ..

theorem tempo_setTempo_of_ne (s : StoreHooks ι ν κ τ) {j : ι} (hj : j ≠ i)
    (b : TempoBackend ν κ τ) : (s.setTempo i b).tempo j = s.tempo j :=
  Function.update_of_ne hj ..

theorem workerStep_absorbed {cfg : SoftConfig} {a a' : SoftAbsorber κ τ}
    (hstep : a.workerStep cfg nbytes now = some a') : a'.absorbed = a.absorbed := by
  obtain ⟨-, ⟨_, _, _, rfl, -⟩ | ⟨_, _, -, -, rfl⟩ | ⟨_, _, -, rfl⟩⟩ :=
    SoftAbsorber.workerStep_cases hstep
  all_goals rfl

/-- Connector `i` has stored `stores`, and its absorber is intact and has what the original
method has not. -/
theorem Kept.absorber (hs : s.Kept cpu) {b : TempoBackend ν κ τ}
    {stores : List (κ × τ)} (hpatches : s.patches ≠ [])
    (hsplit : stores.map (Prod.map id cpu) =
      (s.original i).map (Prod.map id cpu) ++ b.absorber.absorbed)
    (hintact : b.absorber.Intact) :
    Kept cpu
      (StoreHooks.setTempo { s with stores := Function.update s.stores i stores } i b) where
  split := by
    intro j
    by_cases hj : j = i
    · subst hj
      rw [absorbed_of_tempo (tempo_setTempo_self _ _)]
      unfold setTempo
      dsimp only
      rw [Function.update_self]
      exact hsplit
    · have hold := hs.split j
      unfold absorbed at hold ⊢
      rw [tempo_setTempo_of_ne _ hj]
      unfold setTempo
      dsimp only
      rw [Function.update_of_ne hj]
      exact hold
  intact := by
    intro j b₁ hb₁
    by_cases hj : j = i
    · subst hj
      rw [tempo_setTempo_self] at hb₁
      obtain rfl := Option.some.inj hb₁
      exact hintact
    · rw [tempo_setTempo_of_ne _ hj] at hb₁
      exact hs.intact j b₁ hb₁
  patched := fun _ _ => hpatches

theorem Kept.step (hs : s.Kept cpu) {e : StoreHookEvent ι ν κ τ}
    (hstep : s.step nbytes cpu e = some t) : t.Kept cpu := by
  cases e with
  | install cfg =>
      obtain rfl := Option.some.inj hstep
      exact ⟨hs.split, hs.intact, fun _ _ => List.cons_ne_nil _ _⟩
  | assign i backend store =>
      obtain rfl := Option.some.inj hstep
      exact ⟨hs.split, hs.intact, hs.patched⟩
  | storeKvCache i key kvTensor now =>
      rcases callPatched_cases hstep with ⟨b, hpatches, hb, hmove⟩ | ⟨hnone, rfl⟩
      · obtain ⟨absorber, habsorb, rfl⟩ := absorberStep_frame hmove
        have hintact : b.absorber.Intact ∧ b.absorber.absorbed = s.absorbed i := by
          rcases hb with hb | ⟨hnone, hinit⟩
          · exact ⟨hs.intact i b hb, (absorbed_of_tempo hb).symm⟩
          · have hempty : s.absorbed i = [] := by
              unfold absorbed
              rw [show s.tempo i = none from hnone]
              rfl
            rw [hinit, hempty]
            exact ⟨SoftAbsorber.intact_init now, rfl⟩
        refine hs.absorber hpatches ?_ (hintact.1.step habsorb)
        obtain ⟨-, rfl⟩ := by simpa [SoftAbsorber.step] using habsorb
        rw [List.map_append, hs.split, hintact.2, List.append_assoc]
        rfl
      · have hout : s.tempo i = none := by
          rcases hnone with hpatches | hnone
          · by_contra hsome
            exact hs.patched i (Option.isSome_iff_ne_none.mpr hsome) hpatches
          · exact hnone
        refine ⟨fun j => ?_, hs.intact, hs.patched⟩
        have hold := hs.split j
        by_cases hj : j = i
        · subst hj
          unfold absorbed at hold ⊢
          dsimp only
          rw [hout] at hold ⊢
          rw [Function.update_self, Function.update_self, List.map_append, hold,
            List.map_append]
          simp
        · dsimp only
          rw [Function.update_of_ne hj, Function.update_of_ne hj]
          exact hold
  | worker i now =>
      unfold StoreHooks.step at hstep
      dsimp only at hstep
      split at hstep
      next b hb =>
        obtain ⟨absorber, hmove, rfl⟩ := absorberStep_frame hstep
        have hsome : (s.tempo i).isSome := by
          rw [hb]
          rfl
        have hsplit : (s.stores i).map (Prod.map id cpu) =
            (s.original i).map (Prod.map id cpu) ++ absorber.absorbed := by
          rw [workerStep_absorbed hmove, ← absorbed_of_tempo hb]
          exact hs.split i
        have hkept : Kept cpu (StoreHooks.setTempo
            { s with stores := Function.update s.stores i (s.stores i) } i
            { b with absorber }) :=
          hs.absorber (hs.patched i hsome) hsplit ((hs.intact i b hb).step hmove)
        rwa [Function.update_eq_self] at hkept
      next => cases hstep

/-- The backend of a connector stays. -/
theorem tempo_step {e : StoreHookEvent ι ν κ τ} (hs : s.Kept cpu)
    (hstep : s.step nbytes cpu e = some t) {b : TempoBackend ν κ τ} (hb : s.tempo i = some b) :
    (∃ b', t.tempo i = some b' ∧ b'.backing = b.backing ∧ b'.cfg = b.cfg) ∧
      t.original i = s.original i := by
  cases e with
  | install cfg =>
      obtain rfl := Option.some.inj hstep
      exact ⟨⟨b, hb, rfl, rfl⟩, rfl⟩
  | assign j backend store =>
      obtain rfl := Option.some.inj hstep
      exact ⟨⟨b, hb, rfl, rfl⟩, rfl⟩
  | storeKvCache j key kvTensor now =>
      rcases callPatched_cases hstep with ⟨b₁, -, hb₁, hmove⟩ | ⟨hnone, rfl⟩
      · obtain ⟨absorber, -, rfl⟩ := absorberStep_frame hmove
        refine ⟨?_, rfl⟩
        by_cases hj : i = j
        · subst hj
          have hsame : b₁.backing = b.backing ∧ b₁.cfg = b.cfg := by
            rcases hb₁ with hb₁ | ⟨hnone, -⟩
            · obtain rfl := Option.some.inj (hb₁.symm.trans hb)
              exact ⟨rfl, rfl⟩
            · cases hnone.symm.trans hb
          exact ⟨_, tempo_setTempo_self _ _, hsame⟩
        · exact ⟨b, (tempo_setTempo_of_ne _ hj _).trans hb, rfl, rfl⟩
      · refine ⟨⟨b, hb, rfl, rfl⟩, Function.update_of_ne ?_ _ _⟩
        rintro rfl
        rcases hnone with hpatches | hnone
        · exact hs.patched i (Option.isSome_of_mem hb) hpatches
        · cases hnone.symm.trans hb
  | worker j now =>
      unfold StoreHooks.step at hstep
      dsimp only at hstep
      split at hstep
      next b₁ hb₁ =>
        obtain ⟨absorber, -, rfl⟩ := absorberStep_frame hstep
        refine ⟨?_, rfl⟩
        by_cases hj : i = j
        · subst hj
          obtain rfl := Option.some.inj (hb₁.symm.trans hb)
          exact ⟨_, tempo_setTempo_self _ _, rfl, rfl⟩
        · exact ⟨b, (tempo_setTempo_of_ne _ hj _).trans hb, rfl, rfl⟩
      next => cases hstep

/-- **No store is lost, doubled or overtaken.**  For every order of installs, stores and
statements of the flush threads, and however often the patch is installed: what a connector
has stored is, in its order, what went to the original method, what was put to the backing
object, what the flush thread holds and what is queued.  Once a connector has a backend it
keeps it, with its backing object and its configuration, and the original method gets
nothing more. -/
theorem stores_kept (nbytes : τ → Nat) (cpu : τ → τ)
    (hreach : Reachable (step nbytes cpu) ({} : StoreHooks ι ν κ τ) s) (i : ι) :
    (s.stores i).map (Prod.map id cpu) =
        (s.original i).map (Prod.map id cpu) ++ s.under i ∧
      ∀ b, s.tempo i = some b → ∀ t, Reachable (step nbytes cpu) s t →
        (∃ b', t.tempo i = some b' ∧ b'.backing = b.backing ∧ b'.cfg = b.cfg) ∧
          t.original i = s.original i := by
  have hs : s.Kept cpu := by
    refine hreach.invariant ⟨fun _ => rfl, ?_, ?_⟩ fun _ _ _ hs _ hstep => hs.step hstep
    · rintro _ _ ⟨⟩
    · rintro _ ⟨⟩
  constructor
  · rw [hs.split i]
    unfold absorbed under
    cases hb : s.tempo i with
    | none => rfl
    | some b => exact congrArg _ (hs.intact i b hb)
  · intro b hb t ht
    induction ht with
    | refl => exact ⟨⟨b, hb, rfl, rfl⟩, rfl⟩
    | tail hmid _ hstep ih =>
        obtain ⟨⟨b₁, hb₁, hbacking, hcfg⟩, horiginal⟩ := ih
        have hkept := hmid.invariant hs fun _ _ _ hs _ hstep => Kept.step hs hstep
        obtain ⟨⟨b₂, hb₂, hbacking₂, hcfg₂⟩, horiginal₂⟩ := tempo_step hkept hstep hb₁
        exact ⟨⟨b₂, hb₂, hbacking₂.trans hbacking, hcfg₂.trans hcfg⟩,
          horiginal₂.trans horiginal⟩

/-- Two installs: the first store finds no object to back it, the second one does. -/
theorem stores_kept_two :
    ∃ s : StoreHooks Unit Nat String Nat, s.original () = [("a", 1)] ∧
      (s.stores ()).map (Prod.map id id) =
        (s.original ()).map (Prod.map id id) ++ s.under () := by
  obtain ⟨s, hreach, horiginal⟩ : ∃ s, Reachable (step id id)
      ({} : StoreHooks Unit Nat String Nat) s ∧ s.original () = [("a", 1)] :=
    Reachable.exists_of_exec
      [.install {}, .install { rateGbps := 2 }, .assign () (some (3, false)) none,
        .storeKvCache () "a" 1 0, .assign () (some (3, false)) (some (4, true)),
        .storeKvCache () "b" 2 1, .worker () 2]
      (by decide +kernel)
  exact ⟨s, horiginal, (stores_kept id id hreach ()).1⟩

end StoreHooks

end Tempo
