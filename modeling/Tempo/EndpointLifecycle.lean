import Mathlib.Data.List.Nodup
import Mathlib.Data.List.Range
import Tempo.Runs

/-!
# Opening and closing a GPU-driven endpoint

`open` makes six objects of libfabric one after the other and then a pinned buffer; an
exception on the way leaves the endpoint open, with what it has got so far.  `close` frees
the buffer and closes the objects if there is an endpoint among them, and forgets none.

The buffers are freed exactly once in every run.  The objects are closed at most once as
long as no endpoint that was closed is opened again in vain (`closed_once`); after that the
next `close` closes those it closed before (`closed_again`).
-/

namespace Tempo

open Runs

/-- The objects of an endpoint, by their places among all that were made. -/
structure FabricObjects where
  fiInfo : Option Nat := none
  fabric : Option Nat := none
  domain : Option Nat := none
  cq : Option Nat := none
  av : Option Nat := none
  ep : Option Nat := none
  deriving DecidableEq

namespace FabricObjects

/-- `_open_libfabric`, up to the object number `made`; the first one is `next`. -/
def openLibfabric (o : FabricObjects) (made next : Nat) : FabricObjects where
  fiInfo := if 0 < made then some next else o.fiInfo
  fabric := if 1 < made then some (next + 1) else o.fabric
  domain := if 2 < made then some (next + 2) else o.domain
  cq := if 3 < made then some (next + 3) else o.cq
  av := if 4 < made then some (next + 4) else o.av
  ep := if 5 < made then some (next + 5) else o.ep

/-- What `close` closes, in its order. -/
def closes (o : FabricObjects) : List Nat :=
  match o.ep with
  | none => []
  | some ep => ep :: [o.cq, o.av, o.domain, o.fabric, o.fiInfo].reduceOption

end FabricObjects

/-- `GpuDrivenEndpoint` as far as it owns things.  `closed`, `allocated` and `freed` are the
calls of libfabric and CUDA, and `next` is the number of objects and buffers made. -/
structure EndpointLifecycle where
  opened : Bool := false
  objects : FabricObjects := {}
  stagingBufHost : Option Nat := none
  next : Nat := 0
  closed : List Nat := []
  allocated : List Nat := []
  freed : List Nat := []

/-- Which of `_LIBFABRIC` and `_LIBCUDART` were found. -/
structure EndpointLibraries where
  libfabric : Bool := true
  libcudart : Bool := true

inductive LifecycleEvent
  /-- `open`, with an exception after so many objects, and whether there is a buffer -/
  | openEndpoint (raises : Option (Fin 7)) (buffer : Bool)
  /-- `close`, with an exception after so many calls -/
  | close (raises : Option Nat)

namespace EndpointLifecycle

variable (lib : EndpointLibraries)

/-- `_alloc_staging_buf` -/
def allocStagingBuf (s : EndpointLifecycle) (buffer : Bool) : EndpointLifecycle :=
  if lib.libcudart && buffer then
    { s with
      stagingBufHost := some s.next
      next := s.next + 1
      allocated := s.allocated ++ [s.next] }
  else s

/-- `_free_staging_buf` -/
def freeStagingBuf (s : EndpointLifecycle) : EndpointLifecycle :=
  if lib.libcudart then
    { s with stagingBufHost := none, freed := s.freed ++ s.stagingBufHost.toList }
  else s

/-- `_open_libfabric` -/
def openLibfabric (s : EndpointLifecycle) (made : Nat) : EndpointLifecycle :=
  { s with
    opened := true
    objects := s.objects.openLibfabric made s.next
    next := s.next + made }

def openEndpoint (s : EndpointLifecycle) (raises : Option (Fin 7)) (buffer : Bool) :
    EndpointLifecycle :=
  if s.opened then s
  else if lib.libfabric then
    match raises with
    | some made => s.openLibfabric made
    | none => (s.openLibfabric 6).allocStagingBuf lib buffer
  else { s with opened := true }

def close (s : EndpointLifecycle) (raises : Option Nat) : EndpointLifecycle :=
  if s.opened then
    let s := s.freeStagingBuf lib
    let calls := if lib.libfabric then s.objects.closes else []
    { s with
      opened := false
      closed := s.closed ++ calls.take (raises.getD calls.length) }
  else s

def step (s : EndpointLifecycle) : LifecycleEvent → Option EndpointLifecycle
  | .openEndpoint raises buffer => some (s.openEndpoint lib raises buffer)
  | .close raises => some (s.close lib raises)

/-- An endpoint that has been opened is not opened in vain. -/
def Reopens (s : EndpointLifecycle) : LifecycleEvent → Prop
  | .openEndpoint (some made) _ => s.opened = false → s.objects.ep ≠ none → made = 6
  | _ => True

instance (s : EndpointLifecycle) : ∀ e, Decidable (s.Reopens e)
  | .openEndpoint (some made) _ =>
      inferInstanceAs (Decidable (s.opened = false → s.objects.ep ≠ none → made = 6))
  | .openEndpoint none _ | .close _ => isTrue trivial

/-- A buffer is freed once, and no later than the endpoint is closed. -/
structure Buffered (s : EndpointLifecycle) : Prop where
  account : s.allocated = s.freed ++ s.stagingBufHost.toList
  fresh : ∀ n ∈ s.allocated, n < s.next
  once : s.allocated.Nodup
  closed : s.opened = false → s.stagingBufHost = none
  cuda : s.stagingBufHost ≠ none → lib.libcudart = true

/-- What has been closed is not what is open. -/
structure Apart (s : EndpointLifecycle) : Prop where
  once : s.closed.Nodup
  fresh : ∀ n ∈ s.closed, n < s.next
  own : ∀ n ∈ s.objects.closes, n < s.next
  distinct : s.objects.closes.Nodup
  current : s.opened = true → s.objects.closes.Disjoint s.closed
  library : lib.libfabric = false → s.closed = []

variable {lib} {s t : EndpointLifecycle} {e : LifecycleEvent}

/-- What becomes of the fields that have no part in the buffers. -/
theorem Buffered.frame (hs : s.Buffered lib) {opened : Bool} {objects : FabricObjects}
    {next : Nat} {closed : List Nat} (hnext : s.next ≤ next)
    (hclosed : opened = false → s.stagingBufHost = none) :
    Buffered lib { s with opened, objects, next, closed } where
  account := hs.account
  fresh := fun n hn => (hs.fresh n hn).trans_le hnext
  once := hs.once
  closed := hclosed
  cuda := hs.cuda

theorem Buffered.alloc (hs : s.Buffered lib) (hnone : s.stagingBufHost = none)
    (hopen : s.opened = true) (buffer : Bool) : (s.allocStagingBuf lib buffer).Buffered lib := by
  unfold allocStagingBuf
  split
  next hbuffer =>
    have haccount := hs.account
    rw [hnone, Option.toList_none, List.append_nil] at haccount
    refine ⟨?_, fun n hn => ?_, ?_, fun hshut => ?_, fun _ => ?_⟩
    · exact congrArg (· ++ [s.next]) haccount
    · rcases List.mem_append.mp hn with hold | hnew
      · exact (hs.fresh n hold).trans (Nat.lt_succ_self _)
      · rw [List.mem_singleton.mp hnew]
        exact Nat.lt_succ_self _
    · refine List.nodup_append.mpr ⟨hs.once, List.nodup_singleton _, fun n hn m hm => ?_⟩
      rw [List.mem_singleton.mp hm]
      exact (hs.fresh n hn).ne
    · rw [hopen] at hshut
      cases hshut
    · rw [Bool.and_eq_true] at hbuffer
      exact hbuffer.1
  next => exact hs

theorem Buffered.free (hs : s.Buffered lib) :
    (s.freeStagingBuf lib).Buffered lib ∧ (s.freeStagingBuf lib).stagingBufHost = none := by
  unfold freeStagingBuf
  split
  next =>
    refine ⟨⟨?_, hs.fresh, hs.once, fun _ => rfl, fun hsome => absurd rfl hsome⟩, rfl⟩
    simpa using hs.account
  next hcuda => exact ⟨hs, by_contra fun hsome => hcuda (hs.cuda hsome)⟩

theorem Buffered.step (hs : s.Buffered lib) (hstep : s.step lib e = some t) :
    t.Buffered lib := by
  cases e with
  | openEndpoint raises buffer =>
      obtain rfl := Option.some.inj hstep
      unfold EndpointLifecycle.openEndpoint
      split
      next => exact hs
      next hshut =>
        have hnone := hs.closed (Bool.not_eq_true _ ▸ hshut)
        have hmade : ∀ made, (s.openLibfabric made).Buffered lib := fun made =>
          hs.frame (Nat.le_add_right _ _) fun _ => hnone
        split
        next =>
          cases raises with
          | some made => exact hmade made
          | none => exact (hmade 6).alloc hnone rfl buffer
        next => exact hs.frame le_rfl fun _ => hnone
  | close raises =>
      obtain rfl := Option.some.inj hstep
      unfold EndpointLifecycle.close
      split
      next =>
        obtain ⟨hfree, hnone⟩ := hs.free
        exact hfree.frame le_rfl fun _ => hnone
      next => exact hs

/-! ## The objects -/

theorem closes_all (o : FabricObjects) (n : Nat) :
    (o.openLibfabric 6 n).closes = [n + 5, n + 3, n + 4, n + 2, n + 1, n] := rfl

/-- Without an endpoint there is nothing to close. -/
theorem closes_unless {o : FabricObjects} (hep : o.ep = none) {made : Nat} (hmade : made < 6)
    (n : Nat) : (o.openLibfabric made n).closes = [] := by
  have hnone : (o.openLibfabric made n).ep = none := by
    unfold FabricObjects.openLibfabric
    dsimp only
    rw [if_neg (by omega), hep]
  unfold FabricObjects.closes
  rw [hnone]

/-- The new objects, or none of them. -/
theorem Apart.openLibfabric (hs : s.Apart lib) {made : Nat} (hmade : made ≤ 6)
    (hwhole : s.objects.ep ≠ none → made = 6) : (s.openLibfabric made).Apart lib := by
  have hcases : (s.openLibfabric made).objects.closes = [] ∨
      made = 6 ∧ (s.openLibfabric made).objects.closes =
        [s.next + 5, s.next + 3, s.next + 4, s.next + 2, s.next + 1, s.next] := by
    by_cases hall : made = 6
    · subst hall
      exact .inr ⟨rfl, closes_all _ _⟩
    · refine .inl (closes_unless ?_ (by omega) _)
      by_contra hsome
      exact hall (hwhole hsome)
  refine ⟨hs.once, fun n hn => (hs.fresh n hn).trans_le (Nat.le_add_right _ _), ?_, ?_, ?_,
    hs.library⟩
  · rcases hcases with hnil | ⟨rfl, hsix⟩
    · rw [hnil]
      simp
    · rw [hsix]
      intro n hn
      have hnext : (s.openLibfabric 6).next = s.next + 6 := rfl
      simp only [List.mem_cons, List.not_mem_nil, or_false] at hn
      omega
  · rcases hcases with hnil | ⟨-, hsix⟩
    · rw [hnil]
      exact List.nodup_nil
    · rw [hsix]
      simp
  · intro _ n hn hclosed
    have hold := hs.fresh n hclosed
    rcases hcases with hnil | ⟨-, hsix⟩
    · rw [hnil] at hn
      cases hn
    · rw [hsix] at hn
      simp only [List.mem_cons, List.not_mem_nil, or_false] at hn
      omega

/-- Where only the buffers differ. -/
theorem Apart.frame (hs : s.Apart lib) {stagingBufHost : Option Nat} {next : Nat}
    {allocated freed : List Nat} (hnext : s.next ≤ next) :
    Apart lib { s with stagingBufHost, next, allocated, freed } where
  once := hs.once
  fresh := fun n hn => (hs.fresh n hn).trans_le hnext
  own := fun n hn => (hs.own n hn).trans_le hnext
  distinct := hs.distinct
  current := hs.current
  library := hs.library

theorem Apart.alloc (hs : s.Apart lib) (buffer : Bool) :
    (s.allocStagingBuf lib buffer).Apart lib := by
  unfold allocStagingBuf
  split
  next => exact hs.frame (Nat.le_succ _)
  next => exact hs

theorem Apart.free (hs : s.Apart lib) : (s.freeStagingBuf lib).Apart lib := by
  unfold freeStagingBuf
  split
  next => exact hs.frame le_rfl
  next => exact hs

theorem Apart.close (hs : s.Apart lib) (hopen : s.opened = true) {calls : List Nat}
    (hcalls : calls.Sublist s.objects.closes) (hlib : lib.libfabric = false → calls = []) :
    Apart lib { s with opened := false, closed := s.closed ++ calls } where
  once := by
    refine List.nodup_append.mpr ⟨hs.once, hcalls.nodup hs.distinct, fun n hn m hm => ?_⟩
    rintro rfl
    exact hs.current hopen (hcalls.subset hm) hn
  fresh := by
    intro n hn
    rcases List.mem_append.mp hn with hold | hnew
    · exact hs.fresh n hold
    · exact hs.own n (hcalls.subset hnew)
  own := hs.own
  distinct := hs.distinct
  current := by
    intro hshut
    cases hshut
  library := by
    intro hnone
    rw [hs.library hnone, hlib hnone, List.append_nil]

theorem Apart.step (hs : s.Apart lib) (hcond : Reopens s e) (hstep : s.step lib e = some t) :
    t.Apart lib := by
  cases e with
  | openEndpoint raises buffer =>
      obtain rfl := Option.some.inj hstep
      unfold EndpointLifecycle.openEndpoint
      split
      next => exact hs
      next hshut =>
        have hfalse : s.opened = false := Bool.not_eq_true _ ▸ hshut
        split
        next =>
          cases raises with
          | some made =>
              refine hs.openLibfabric (Nat.lt_succ_iff.mp made.isLt) fun hep => ?_
              exact congrArg Fin.val (hcond hfalse hep)
          | none => exact (hs.openLibfabric le_rfl fun _ => rfl).alloc buffer
        next hlib =>
          have hnone := hs.library (Bool.not_eq_true _ ▸ hlib)
          refine ⟨hs.once, hs.fresh, hs.own, hs.distinct, fun _ => ?_, hs.library⟩
          rw [hnone]
          exact List.disjoint_nil_right _
  | close raises =>
      obtain rfl := Option.some.inj hstep
      unfold EndpointLifecycle.close
      split
      next hopen =>
        have hfree := hs.free
        have hopen' : (s.freeStagingBuf lib).opened = true := by
          unfold freeStagingBuf
          split <;> exact hopen
        refine hfree.close hopen' ((List.take_sublist _ _).trans ?_) fun hlib => ?_
        · split
          next => exact .refl _
          next => exact List.nil_sublist _
        · rw [if_neg (by rw [hlib]; decide), List.take_nil]
      next => exact hs

/-- **Nothing is freed or closed twice.**  For every sequence of `open` and `close` in which
no endpoint that was there before is opened in vain, and every exception on the way: the
objects are closed at most once, the buffers that were allocated are those that were freed
and the one that is held, and once closed the endpoint holds none. -/
theorem closed_once (hreach : Reach (step lib) Reopens ({} : EndpointLifecycle) s) :
    s.closed.Nodup ∧ s.allocated.Nodup ∧ s.allocated = s.freed ++ s.stagingBufHost.toList ∧
      (s.opened = false → s.stagingBufHost = none) := by
  have happart : s.Apart lib := by
    refine hreach.invariant ⟨List.nodup_nil, ?_, ?_, List.nodup_nil, fun hopen => ?_,
      fun _ => rfl⟩ fun _ _ _ hs hcond hstep => Apart.step hs hcond hstep
    · intro n hn
      cases hn
    · intro n hn
      cases hn
    · cases hopen
  have hbuffered : s.Buffered lib := by
    refine hreach.invariant ⟨rfl, ?_, List.nodup_nil, fun _ => rfl, fun hsome => absurd rfl hsome⟩
      fun _ _ _ hs _ hstep => Buffered.step hs hstep
    intro n hn
    cases hn
  exact ⟨happart.once, hbuffered.once, hbuffered.account, hbuffered.closed⟩

/-- Opened, closed and opened again, with an exception the first time. -/
theorem closed_once_twice :
    ∃ s : EndpointLifecycle, s.closed = [9, 7, 8, 6, 5, 4] ∧ s.closed.Nodup ∧
      s.allocated = s.freed ++ s.stagingBufHost.toList := by
  obtain ⟨s, hreach, hclosed⟩ : ∃ s, Reach (step {}) Reopens ({} : EndpointLifecycle) s ∧
      s.closed = [9, 7, 8, 6, 5, 4] :=
    Reach.exists_of_exec
      [.openEndpoint (some 4) true, .close none, .openEndpoint none true, .close none]
      (by decide +kernel) (by decide +kernel)
  obtain ⟨honce, -, haccount, -⟩ := closed_once hreach
  exact ⟨s, hclosed, honce, haccount⟩

/-- An endpoint that is opened again in vain is closed again. -/
theorem closed_again (hshut : s.opened = false) (hlib : lib.libfabric = true) {ep : Nat}
    (hep : s.objects.ep = some ep) {made : Fin 7} (hmade : made.val < 6) (buffer : Bool) :
    ∃ calls, ((s.openEndpoint lib (some made) buffer).close lib none).closed =
      s.closed ++ calls ∧ ep ∈ calls := by
  have hsame : (s.openLibfabric made).objects.ep = some ep := by
    unfold openLibfabric FabricObjects.openLibfabric
    dsimp only
    rw [if_neg (by omega), hep]
  have hopened : s.openEndpoint lib (some made) buffer = s.openLibfabric made := by
    unfold openEndpoint
    rw [hshut, if_neg (by decide), if_pos hlib]
  have hfree : ((s.openLibfabric made).freeStagingBuf lib).objects =
      (s.openLibfabric made).objects ∧
        ((s.openLibfabric made).freeStagingBuf lib).closed = s.closed := by
    unfold freeStagingBuf
    split <;> exact ⟨rfl, rfl⟩
  refine ⟨(s.openLibfabric made).objects.closes, ?_, ?_⟩
  · rw [hopened]
    have hopen : (s.openLibfabric made).opened = true := rfl
    unfold close
    rw [if_pos hopen]
    dsimp only
    rw [if_pos hlib, hfree.1, hfree.2, Option.getD_none, List.take_length]
  · unfold FabricObjects.closes
    rw [hsame]
    exact List.mem_cons_self

end EndpointLifecycle

end Tempo
