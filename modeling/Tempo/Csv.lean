import Mathlib.Data.List.Basic

/-!
# Comma-separated values

A writer that quotes a field only where it must, and the reader of such files, which
goes through a text character by character.  What is written is read back, whatever
the fields are (`read_write`).
-/

namespace Csv

abbrev Text := List Char

abbrev Row := List Text

/-! ## Writing -/

/-- The characters that a field is quoted for. -/
def isSpecial (c : Char) : Bool :=
  c == ',' || c == '"' || c == '\r' || c == '\n'

/-- A quote within quotes stands twice. -/
def doubled (field : Text) : Text :=
  field.flatMap fun c => if c = '"' then ['"', '"'] else [c]

def quoted (field : Text) : Text :=
  '"' :: (doubled field ++ ['"'])

def encodeField (field : Text) : Text :=
  if field.any isSpecial then quoted field else field

def joined : Row → Text
  | [] => []
  | [field] => encodeField field
  | field :: next :: rest => encodeField field ++ ',' :: joined (next :: rest)

/-- An empty field that is alone in its row is quoted, a row without any is empty. -/
def encodeRow (row : Row) : Text :=
  if row = [[]] then quoted [] else joined row

def write (rows : List Row) : Text :=
  rows.flatMap fun row => encodeRow row ++ ['\r', '\n']

/-! ## Reading -/

inductive State where
  | startRecord
  | afterReturn
  | startField
  | inField
  | inQuoted
  | quoteInQuoted
  deriving DecidableEq

/-- The reader after some text: the field and the row it is in, and the rows before. -/
structure Reader where
  state : State := .startRecord
  field : Text := []
  fields : Row := []
  rows : List Row := []

def isNewline (c : Char) : Bool :=
  c == '\r' || c == '\n'

def endsField (c : Char) : Bool :=
  c == ',' || isNewline c

namespace Reader

def addChar (r : Reader) (state : State) (c : Char) : Reader :=
  { r with state := state, field := r.field ++ [c] }

def endRecord (r : Reader) (c : Char) : Reader where
  state := if c = '\r' then .afterReturn else .startRecord
  rows := r.rows ++ [r.fields]

def saveField (r : Reader) : Reader :=
  { r with state := .startField, field := [], fields := r.fields ++ [r.field] }

def endField (r : Reader) (c : Char) : Reader :=
  if c = ',' then r.saveField else r.saveField.endRecord c

def atField (r : Reader) (c : Char) : Reader :=
  if endsField c then r.endField c
  else if c = '"' then { r with state := .inQuoted }
  else r.addChar .inField c

/-- A line of its own end only is a row without fields. -/
def atRecord (r : Reader) (c : Char) : Reader :=
  if isNewline c then r.endRecord c else r.atField c

def step (r : Reader) (c : Char) : Reader :=
  match r.state with
  | .startRecord => r.atRecord c
  | .afterReturn => if c = '\n' then { r with state := .startRecord } else r.atRecord c
  | .startField => r.atField c
  | .inField => if endsField c then r.endField c else r.addChar .inField c
  | .inQuoted =>
      if c = '"' then { r with state := .quoteInQuoted } else r.addChar .inQuoted c
  | .quoteInQuoted =>
      if c = '"' then r.addChar .inQuoted c
      else if endsField c then r.endField c
      else r.addChar .inField c

/-- The text ends; a row that has been begun is complete. -/
def finish (r : Reader) : List Row :=
  match r.state with
  | .startRecord => r.rows
  | .afterReturn => r.rows
  | _ => (r.saveField.endRecord '\n').rows

end Reader

def read (text : Text) : List Row :=
  (text.foldl Reader.step {}).finish

/-! ## A field -/

section Field

variable {r : Reader} {field : Text} {c : Char}

theorem quote_of_endsField (hc : endsField c) : c ≠ '"' := by
  rintro rfl
  exact absurd hc (by decide)

theorem endsField_of_not_special (hc : isSpecial c = false) :
    endsField c = false ∧ c ≠ '"' := by
  simp only [isSpecial, Bool.or_eq_false_iff, beq_eq_false_iff_ne] at hc
  obtain ⟨⟨⟨hcomma, hquote⟩, hreturn⟩, hfeed⟩ := hc
  refine ⟨?_, hquote⟩
  simp [endsField, isNewline, hcomma, hreturn, hfeed]

/-- Within quotes. -/
theorem foldl_doubled (hstate : r.state = .inQuoted) :
    (doubled field).foldl Reader.step r = { r with field := r.field ++ field } := by
  induction field generalizing r with
  | nil => simp [doubled]
  | cons c rest ih =>
      have hcons : doubled (c :: rest) =
          (if c = '"' then ['"', '"'] else [c]) ++ doubled rest := by
        simp [doubled]
      have hone : (if c = '"' then ['"', '"'] else [c]).foldl Reader.step r =
          r.addChar .inQuoted c := by
        by_cases hquote : c = '"'
        · subst hquote
          simp [Reader.step, Reader.addChar, hstate]
        · simp [Reader.step, hstate, hquote]
      rw [hcons, List.foldl_append, hone, ih rfl]
      simp [Reader.addChar, hstate]

/-- Without quotes, after the first character. -/
theorem foldl_plain (hstate : r.state = .inField) (hplain : field.any isSpecial = false) :
    field.foldl Reader.step r = { r with field := r.field ++ field } := by
  induction field generalizing r with
  | nil => simp
  | cons c rest ih =>
      rw [List.any_cons, Bool.or_eq_false_iff] at hplain
      have hone : r.step c = r.addChar .inField c := by
        simp [Reader.step, hstate, (endsField_of_not_special hplain.1).1]
      rw [List.foldl_cons, hone, ih rfl hplain.2]
      simp [Reader.addChar, hstate]

/-- What ends a field after its text as quoted saves it. -/
theorem step_quoted (hstate : r.state = .startField) (hfield : r.field = [])
    (hc : endsField c) :
    ((quoted field).foldl Reader.step r).step c =
      Reader.endField { r with field := field } c := by
  have hopen : r.step '"' = { r with state := .inQuoted } := by
    simp [Reader.step, Reader.atField, hstate, endsField, isNewline]
  rw [quoted, List.foldl_cons, hopen, List.foldl_append, foldl_doubled rfl]
  simp [Reader.step, quote_of_endsField hc, hc, Reader.endField, Reader.saveField, hfield]

/-- What ends a field after its text as written saves it. -/
theorem step_encodeField (hstate : r.state = .startField) (hfield : r.field = [])
    (hc : endsField c) :
    ((encodeField field).foldl Reader.step r).step c =
      Reader.endField { r with field := field } c := by
  unfold encodeField
  split
  · exact step_quoted hstate hfield hc
  next hplain =>
    rw [Bool.not_eq_true] at hplain
    cases field with
    | nil =>
        obtain ⟨state, field, fields, rows⟩ := r
        subst hstate hfield
        simp [Reader.step, Reader.atField, hc]
    | cons first rest =>
        rw [List.any_cons, Bool.or_eq_false_iff] at hplain
        obtain ⟨hends, hquote⟩ := endsField_of_not_special hplain.1
        have hone : r.step first = r.addChar .inField first := by
          simp [Reader.step, Reader.atField, hstate, hends, hquote]
        rw [List.foldl_cons, hone, foldl_plain rfl hplain.2]
        simp [Reader.step, Reader.addChar, hc, Reader.endField, Reader.saveField, hfield]

end Field

/-! ## A row -/

section Row

variable {r : Reader} {row : Row}

theorem foldl_joined (hstate : r.state = .startField) (hfield : r.field = [])
    (hrow : row ≠ []) :
    ((joined row).foldl Reader.step r).step '\r' =
      Reader.endRecord { r with fields := r.fields ++ row } '\r' := by
  induction row using joined.induct generalizing r with
  | case1 => exact absurd rfl hrow
  | case2 field =>
      rw [joined, step_encodeField hstate hfield (by decide)]
      rfl
  | case3 field next rest ih =>
      rw [joined, List.foldl_append, List.foldl_cons,
        step_encodeField hstate hfield (by decide)]
      rw [ih rfl rfl (by simp)]
      simp [Reader.endField, Reader.saveField, Reader.endRecord]

/-- The text of a row that has fields does not begin with the end of a line. -/
theorem encodeRow_first (hrow : row ≠ []) :
    ∃ first rest, encodeRow row = first :: rest ∧ isNewline first = false := by
  have hfield : ∀ field : Text, field ≠ [] →
      ∃ first rest, encodeField field = first :: rest ∧ isNewline first = false := by
    intro field hne
    unfold encodeField
    split
    · exact ⟨'"', _, rfl, by decide⟩
    next hplain =>
      cases field with
      | nil => exact absurd rfl hne
      | cons first rest =>
          rw [Bool.not_eq_true, List.any_cons, Bool.or_eq_false_iff] at hplain
          have hends := (endsField_of_not_special hplain.1).1
          exact ⟨first, rest, rfl, (Bool.or_eq_false_iff.mp hends).2⟩
  unfold encodeRow
  split
  · exact ⟨'"', _, rfl, by decide⟩
  next hmore =>
    match row with
    | [field] =>
        exact hfield field (by rintro rfl; exact hmore rfl)
    | [] :: next :: rest => exact ⟨',', _, rfl, by decide⟩
    | (c :: field) :: next :: rest =>
        obtain ⟨first, text, htext, hfirst⟩ := hfield (c :: field) (by simp)
        refine ⟨first, text ++ ',' :: joined (next :: rest), ?_, hfirst⟩
        rw [joined, htext, List.cons_append]

/-- At the start of a record the reader goes on as at the start of a field. -/
theorem foldl_startRecord (text : Text) {first : Char} (hfirst : isNewline first = false) :
    (first :: text).foldl Reader.step { r with state := .startRecord } =
      (first :: text).foldl Reader.step { r with state := .startField } := by
  rw [List.foldl_cons, List.foldl_cons]
  congr 1
  simp [Reader.step, Reader.atRecord, hfirst, Reader.atField, Reader.endField,
    Reader.saveField, Reader.addChar]

theorem foldl_encodeRow (rows : List Row) :
    (encodeRow row ++ ['\r', '\n']).foldl Reader.step { rows := rows } =
      { rows := rows ++ [row] } := by
  have hend : ((encodeRow row).foldl Reader.step { rows := rows }).step '\r' =
      { state := .afterReturn, rows := rows ++ [row] } := by
    by_cases hrow : row = []
    · subst hrow
      rfl
    · obtain ⟨first, text, htext, hfirst⟩ := encodeRow_first hrow
      have hstart := foldl_startRecord (r := { rows := rows }) text hfirst
      rw [htext, hstart, ← htext]
      unfold encodeRow
      split
      next hempty =>
        rw [hempty]
        exact step_quoted rfl rfl (by decide)
      · exact foldl_joined rfl rfl hrow
  rw [List.foldl_append, List.foldl_cons, hend]
  rfl

end Row

/-- What is written is read back. -/
theorem read_write (rows : List Row) : read (write rows) = rows := by
  have hrun : ∀ before : List Row, (write rows).foldl Reader.step { rows := before } =
      { rows := before ++ rows } := by
    induction rows with
    | nil => simp [write]
    | cons row rest ih =>
        intro before
        have hcons : write (row :: rest) =
            (encodeRow row ++ ['\r', '\n']) ++ write rest := by
          simp [write]
        rw [hcons, List.foldl_append, foldl_encodeRow, ih]
        simp
  unfold read
  rw [show ({} : Reader) = { rows := [] } from rfl, hrun]
  rfl

end Csv
