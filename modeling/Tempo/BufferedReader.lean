import Mathlib.Data.List.Basic
import Mathlib.Data.PNat.Notation
import Mathlib.Data.PNat.Defs

/-!
# Buffered readers

A reader in front of a raw file that may change while it is read.  `read(size)`
is answered from what has been read ahead, if that is enough.  Otherwise the call
takes all of that and goes to the raw file: for whole buffers, straight into the
result, as long as a buffer is missing, and then through the buffer for the rest,
of which more may come than is wanted.  A raw read may give less than it was asked
for, and gives nothing at the end of the file only, which ends the call.  A
negative size asks for everything up to the end.

The call and each of its raw reads are steps of their own.  `held` is what has
come from the raw file and has not been returned.  No step loses any of it
(`start_held`, `feed_held`), so what a reader returns is what the raw file gave, in
its order, whatever has become of the file in the meantime.
-/

/-- Between two calls, with what has been read ahead, or in a call that waits for a
raw read, with what it has gathered and how much of the buffer it has filled. -/
inductive BufferedReader (α : Type*)
  | ready (ahead : List α)
  | reading (got : List α) (filled : Nat)
  deriving DecidableEq

namespace BufferedReader

variable {α : Type*}

/-- What has come from the raw file and has not been returned. -/
def held : BufferedReader α → List α
  | .ready ahead => ahead
  | .reading got _ => got

@[simp]
theorem held_ready (ahead : List α) : (ready ahead).held = ahead := rfl

@[simp]
theorem held_reading (got : List α) (filled : Nat) : (reading got filled).held = got :=
  rfl

/-- `read(size)` is called: the list, if it is returned at once, and the reader
then. -/
def start (size : Int) (ahead : List α) : Option (List α) × BufferedReader α :=
  if 0 ≤ size ∧ size.toNat ≤ ahead.length then
    (some (ahead.take size.toNat), .ready (ahead.drop size.toNat))
  else (none, .reading ahead 0)

/-- How much a call asks the raw file for; `none` is everything. -/
def request (bufferSize : ℕ+) (size : Int) (got : List α) (filled : Nat) : Option Nat :=
  if size < 0 then none
  else
    let missing := size.toNat - got.length
    if bufferSize ≤ missing then some (bufferSize * (missing / bufferSize))
    else some (bufferSize - filled)

/-- What a raw read gives of the `rest` of the file when it gives at most `n`. -/
def rawRead (request : Option Nat) (n : Nat) (rest : List α) : List α :=
  rest.take (request.elim n (min n))

/-- A raw read has given `data`. -/
def feed (bufferSize : ℕ+) (size : Int) (got : List α) (filled : Nat) (data : List α) :
    Option (List α) × BufferedReader α :=
  if data = [] then (some got, .ready [])
  else if size < 0 then (none, .reading (got ++ data) 0)
  else
    let missing := size.toNat - got.length
    if missing ≤ data.length then
      (some (got ++ data.take missing), .ready (data.drop missing))
    else
      (none, .reading (got ++ data)
        (if bufferSize ≤ missing then 0 else filled + data.length))

variable {bufferSize : ℕ+} {size : Int} {ahead got data rest chunk : List α}
  {filled n : Nat}

/-! ## Nothing is lost -/

theorem start_held (size : Int) (ahead : List α) :
    (start size ahead).1.getD [] ++ (start size ahead).2.held = ahead := by
  unfold start
  split
  · exact List.take_append_drop _ _
  · rfl

theorem feed_held (bufferSize : ℕ+) (size : Int) (got : List α) (filled : Nat)
    (data : List α) :
    (feed bufferSize size got filled data).1.getD [] ++
      (feed bufferSize size got filled data).2.held = got ++ data := by
  unfold feed
  split
  · next hend => simp [hend]
  · split
    · rfl
    · dsimp only
      split
      · simp
      · rfl

/-- A call that does not return goes on with a raw read. -/
theorem start_none (h : (start size ahead).1 = none) :
    (start size ahead).2 = .reading ahead 0 := by
  unfold start at h ⊢
  split at h
  · cases h
  · next hshort => rw [if_neg hshort]

theorem feed_none (h : (feed bufferSize size got filled data).1 = none) :
    data ≠ [] ∧ ∃ more, (feed bufferSize size got filled data).2 =
      .reading (got ++ data) more := by
  unfold feed at h ⊢
  split at h
  · cases h
  · next hmore =>
      refine ⟨hmore, ?_⟩
      rw [if_neg hmore]
      split
      · exact ⟨_, rfl⟩
      · next hsized =>
          rw [if_neg hsized] at h
          dsimp only at h ⊢
          split
          · next hfull =>
              rw [if_pos hfull] at h
              cases h
          · exact ⟨_, rfl⟩

/-- After a call that has returned. -/
theorem start_ready (h : (start size ahead).1 = some chunk) :
    ∃ later, (start size ahead).2 = .ready later := by
  unfold start at h ⊢
  split at h
  · next hfull =>
      rw [if_pos hfull]
      exact ⟨_, rfl⟩
  · cases h

theorem feed_ready (h : (feed bufferSize size got filled data).1 = some chunk) :
    ∃ later, (feed bufferSize size got filled data).2 = .ready later := by
  unfold feed at h ⊢
  split
  · exact ⟨_, rfl⟩
  · next hmore =>
      rw [if_neg hmore] at h
      split
      · next hall =>
          rw [if_pos hall] at h
          cases h
      · next hsized =>
          rw [if_neg hsized] at h
          dsimp only at h ⊢
          split
          · exact ⟨_, rfl⟩
          · next hshort =>
              rw [if_neg hshort] at h
              cases h

/-! ## When a call returns nothing -/

/-- What holds of a call in progress: it is for everything, or it is short of what it
was asked for, and the buffer has room for what is missing. -/
def Sound (bufferSize : ℕ+) (size : Int) : BufferedReader α → Prop
  | .ready _ => True
  | .reading got filled =>
      size = -1 ∨ got.length < size.toNat ∧
        (filled = 0 ∨ filled + (size.toNat - got.length) < bufferSize)

theorem start_sound (bufferSize : ℕ+) (hsize : -1 ≤ size) (ahead : List α) :
    (start size ahead).2.Sound bufferSize size := by
  unfold start
  split
  · trivial
  · next hshort =>
      simp only [Sound, true_or, and_true]
      omega

theorem feed_sound (h : (reading got filled).Sound bufferSize size) (data : List α) :
    (feed bufferSize size got filled data).2.Sound bufferSize size := by
  unfold feed
  split
  · trivial
  · split
    · next hall =>
        unfold Sound at h ⊢
        omega
    · next hsized =>
        dsimp only
        split
        · trivial
        · next hshort =>
            refine .inr ⟨by rw [List.length_append]; omega, ?_⟩
            split
            · exact .inl rfl
            · next hlast =>
                rw [List.length_append]
                unfold Sound at h
                omega

theorem Sound.size_ne_zero (h : (reading got filled).Sound bufferSize size) : size ≠ 0 := by
  unfold Sound at h
  omega

theorem Sound.neg_one_le (h : (reading got filled).Sound bufferSize size) : -1 ≤ size := by
  unfold Sound at h
  omega

/-- A raw read gives nothing at the end of the file only. -/
theorem rawRead_eq_nil_iff (h : (reading got filled).Sound bufferSize size) (hn : 0 < n) :
    rawRead (request bufferSize size got filled) n rest = [] ↔ rest = [] := by
  have hpos : 0 < (request bufferSize size got filled).elim n (min n) := by
    unfold request
    split
    · exact hn
    · next hsized =>
        dsimp only
        split
        · next hwhole =>
            have hbuffers := Nat.div_pos hwhole bufferSize.pos
            exact lt_min hn (Nat.mul_pos bufferSize.pos hbuffers)
        · unfold Sound at h
          refine lt_min hn ?_
          omega
  rw [rawRead, List.take_eq_nil_iff]
  exact or_iff_right hpos.ne'

theorem rawRead_prefix (request : Option Nat) (n : Nat) (rest : List α) :
    rawRead request n rest <+: rest :=
  List.take_prefix _ _

theorem start_zero (ahead : List α) : (start 0 ahead).1 = some [] := by
  simp [start]

theorem start_eq_nil (h : (start size ahead).1 = some []) : size = 0 := by
  unfold start at h
  split at h
  · next hfull =>
      have hnil := List.take_eq_nil_iff.mp (Option.some.inj h)
      rcases hnil with hzero | rfl
      · omega
      · rw [List.length_nil] at hfull
        omega
  · cases h

theorem feed_eq_nil (hsize : size ≠ 0)
    (h : (feed bufferSize size got filled data).1 = some []) : got = [] ∧ data = [] := by
  unfold feed at h
  split at h
  · next hend => exact ⟨Option.some.inj h, hend⟩
  · next hmore =>
      split at h
      · cases h
      · dsimp only at h
        split at h
        · obtain ⟨rfl, hnone⟩ := List.append_eq_nil_iff.mp (Option.some.inj h)
          have hshort := (List.take_eq_nil_iff.mp hnone).resolve_right hmore
          rw [List.length_nil] at hshort
          omega
        · cases h

/-! ## How much a call returns -/

theorem start_length (h : (start size ahead).1 = some chunk) :
    (chunk.length : Int) = size := by
  unfold start at h
  split at h
  · next hfull =>
      obtain rfl := Option.some.inj h
      rw [List.length_take]
      omega
  · cases h

/-- A call returns what it was asked for, or all that it has got at the end of the
file. -/
theorem feed_length (hsound : (reading got filled).Sound bufferSize size)
    (h : (feed bufferSize size got filled data).1 = some chunk) :
    (chunk.length : Int) = size ∨ data = [] ∧ chunk = got := by
  unfold feed at h
  split at h
  · next hend => exact .inr ⟨hend, (Option.some.inj h).symm⟩
  · split at h
    · cases h
    · dsimp only at h
      split at h
      · obtain rfl := Option.some.inj h
        left
        rw [List.length_append, List.length_take]
        unfold Sound at hsound
        omega
      · cases h

end BufferedReader
