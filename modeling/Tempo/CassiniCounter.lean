import Tempo.CheckpointManager
import Tempo.NumberText

/-!
# The two readers of the Cassini counters

`cassini_open_nic` opens the counter files of a NIC and keeps the first 63 bytes
of their names; `cassini_read_counter` takes the first name that agrees that far,
and reads a number from the first 31 bytes of its file.  The Python fallback
opens the file of the counter itself, looks under a second root where the first
gives no integer, and reads the whole text; it passes over a file that is not there or
not permitted, and any other error leaves it.  Here every file is read by `lseek` and
`read`, and the files do not change.

A path leads to the bytes of a file, or to an error; subpaths are C strings.
-/

namespace Tempo

open NumberText

/-- A string without a null byte. -/
structure CString where
  bytes : Bytes
  noNul : 0 ∉ bytes
  deriving DecidableEq

/-- An error of the operating system, as Python names it; `other` may be
`NotADirectoryError`, `IsADirectoryError` or one of reading. -/
inductive OsError
  | fileNotFound
  | permission
  | other
  deriving DecidableEq

/-- `_read_sysfs_counter` catches the error. -/
def OsError.caught : OsError → Bool
  | .other => false
  | _ => true

/-- What is found under a path. -/
inductive CounterFile
  /-- `open` fails -/
  | closed (error : OsError)
  /-- it opens, and `read` fails; Python does not open a directory -/
  | unreadable (error : OsError)
  | text (bytes : Bytes)
  deriving DecidableEq

/-- `open` gives a file descriptor. -/
def CounterFile.opens : CounterFile → Bool
  | .closed _ => false
  | _ => true

abbrev CounterFiles := Bytes → CounterFile

/-- The bytes of an ASCII string. -/
def ascii (text : String) : Bytes :=
  text.toUTF8.data.toList

/-- What the library keeps of an open counter file. -/
structure CtrHandle where
  path : Bytes
  name : Bytes
  deriving DecidableEq

namespace CassiniCounter

/-- `/sys/bus/cxi/devices/cxi{n}/stats` -/
def cxiRoot (nic : Fin 8) : Bytes :=
  ascii "/sys/bus/cxi/devices/cxi" ++ ascii (Nat.repr nic) ++ ascii "/stats"

/-- `/sys/class/net/hsn{n}/device/stats` -/
def hsnRoot (nic : Fin 8) : Bytes :=
  ascii "/sys/class/net/hsn" ++ ascii (Nat.repr nic) ++ ascii "/device/stats"

section Library

/-- The path that `_build_path` writes. -/
def cxiPath (nic : Fin 8) (subpath : CString) : Bytes :=
  cxiRoot nic ++ ascii "/" ++ subpath.bytes

/-- `_build_path`, into a buffer of 256 bytes. -/
def buildPath (nic : Fin 8) (subpath : CString) : Option Bytes :=
  if (cxiPath nic subpath).length < 256 then some (cxiPath nic subpath) else none

/-- One turn of the loop of `cassini_open_nic`. -/
def openCounter (files : CounterFiles) (nic : Fin 8) (subpath : CString) :
    Option CtrHandle :=
  match buildPath nic subpath with
  | none => none
  | some path =>
      if (files path).opens then some { path, name := subpath.bytes.take 63 } else none

/-- The handles after `cassini_open_nic`. -/
def cassiniOpenNic (files : CounterFiles) (nic : Fin 8) (subpaths : List CString) :
    List CtrHandle :=
  (subpaths.take 16).filterMap (openCounter files nic)

/-- `strncmp(a, b, 63) == 0` -/
def sameName (a b : Bytes) : Bool :=
  a.take 63 == b.take 63

/-- `lseek` and `read` of at most 31 bytes, and `strtoull`. -/
def readFallback (text : Bytes) : Int :=
  let buf := text.take 31
  if buf = [] then -1 else (strtoull buf).toInt64.toInt

/-- `cassini_read_counter`. -/
def cassiniReadCounter (files : CounterFiles) (handles : List CtrHandle)
    (subpath : CString) : Int :=
  match handles.find? fun h => sameName h.name subpath.bytes with
  | none => -1
  | some h =>
      match files h.path with
      | .text text => readFallback text
      | _ => -1

/-- `_read_cassini_counter` with the library. -/
def readCassiniCounter (files : CounterFiles) (nic : Fin 8)
    (subpaths : List CString) (subpath : CString) : Option Int :=
  let val := cassiniReadCounter files (cassiniOpenNic files nic subpaths) subpath
  if 0 ≤ val then some val else none

end Library

section Fallback

/-- `os.path.join` -/
def joinPath (root path : Bytes) : Bytes :=
  if path.head? = some 47 then path
  else if root.getLast? = some 47 ∨ root = [] then root ++ path
  else root ++ 47 :: path

/-- The string of a `Path`: without empty components and dots. -/
def posixPath (path : Bytes) : Bytes :=
  let parts := (path.splitOn 47).filter fun part => part ≠ [] ∧ part ≠ [46]
  let anchor :=
    if path.head? ≠ some 47 then []
    else if path.take 2 = [47, 47] ∧ path.take 3 ≠ [47, 47, 47] then [47, 47]
    else [47]
  let whole := anchor ++ [47].intercalate parts
  if whole = [] then [46] else whole

/-- `_read_sysfs_counter` -/
def readSysfsCounter (rules : TextRules) (files : CounterFiles) (path : Bytes) :
    Except OsError (Option Int) :=
  match files (posixPath path) with
  | .text bytes => .ok (rules.intOf bytes)
  | .closed error | .unreadable error => if error.caught then .ok none else .error error

/-- The loop of `_read_cassini_counter` over the roots. -/
def readRoots (rules : TextRules) (files : CounterFiles) (subpath : CString) :
    List Bytes → Except OsError (Option Int)
  | [] => .ok none
  | root :: rest => do
      match ← readSysfsCounter rules files (joinPath root subpath.bytes) with
      | some val => pure (some val)
      | none => readRoots rules files subpath rest

/-- `_read_cassini_counter` without the library. -/
def readCassiniFallback (rules : TextRules) (files : CounterFiles) (nic : Fin 8)
    (subpath : CString) : Except OsError (Option Int) :=
  readRoots rules files subpath [cxiRoot nic, hsnRoot nic]

end Fallback

/-- The file that the library takes for a subpath: that of the first subpath
which agrees with it in 63 bytes and can be opened. -/
def takenFile (files : CounterFiles) (nic : Fin 8) (subpaths : List CString)
    (subpath : CString) : Option CounterFile :=
  (subpaths.find? fun other =>
    other.bytes.take 63 = subpath.bytes.take 63 ∧ (files (cxiPath nic other)).opens).map
      fun other => files (cxiPath nic other)

/-- The file of the subpath under a root. -/
def ownFile (files : CounterFiles) (subpath : CString) (root : Bytes) : CounterFile :=
  files (posixPath (joinPath root subpath.bytes))

/-- The file is a text that is this integer. -/
def Holds (rules : TextRules) (z : Int) : CounterFile → Prop
  | .text bytes => rules.Numeral bytes z
  | _ => False

/-- The file is a text that is no integer, or it is not there or not permitted. -/
def Passed (rules : TextRules) : CounterFile → Prop
  | .text bytes => ∀ z, ¬ rules.Numeral bytes z
  | .closed error | .unreadable error => error.caught = true

variable {rules : TextRules} {files : CounterFiles} {nic : Fin 8}
  {subpaths : List CString} {subpath : CString} {file : CounterFile} {z : Int}

theorem intOf_eq_none_iff {bytes : Bytes} :
    rules.intOf bytes = none ↔ ∀ z, ¬ rules.Numeral bytes z := by
  rw [Option.eq_none_iff_forall_ne_some]
  exact forall_congr' fun z => not_congr TextRules.intOf_eq_some_iff

theorem readSysfsCounter_eq_some_iff {root : Bytes} :
    readSysfsCounter rules files (joinPath root subpath.bytes) = .ok (some z) ↔
      Holds rules z (ownFile files subpath root) := by
  unfold readSysfsCounter ownFile
  split
  · next bytes hfile =>
      rw [hfile, Except.ok.injEq]
      exact TextRules.intOf_eq_some_iff
  · next error hfile =>
      rw [hfile]
      cases error <;> simp [Holds, OsError.caught]
  · next error hfile =>
      rw [hfile]
      cases error <;> simp [Holds, OsError.caught]

theorem readSysfsCounter_eq_none_iff {root : Bytes} :
    readSysfsCounter rules files (joinPath root subpath.bytes) = .ok none ↔
      Passed rules (ownFile files subpath root) := by
  unfold readSysfsCounter ownFile
  split
  · next bytes hfile =>
      rw [hfile, Except.ok.injEq]
      exact intOf_eq_none_iff
  · next error hfile =>
      rw [hfile]
      cases error <;> simp [Passed, OsError.caught]
  · next error hfile =>
      rw [hfile]
      cases error <;> simp [Passed, OsError.caught]

/-- The next root is looked under where the file is passed over. -/
theorem readRoots_cons_eq_some_iff {root : Bytes} {roots : List Bytes} :
    readRoots rules files subpath (root :: roots) = .ok (some z) ↔
      Holds rules z (ownFile files subpath root) ∨ Passed rules (ownFile files subpath root) ∧
        readRoots rules files subpath roots = .ok (some z) := by
  rw [← readSysfsCounter_eq_some_iff, ← readSysfsCounter_eq_none_iff, readRoots]
  cases readSysfsCounter rules files (joinPath root subpath.bytes) with
  | error e => simp [bind, Except.bind]
  | ok first => cases first <;> simp [bind, Except.bind, pure, Except.pure]

theorem readRoots_cons_eq_none_iff {root : Bytes} {roots : List Bytes} :
    readRoots rules files subpath (root :: roots) = .ok none ↔
      Passed rules (ownFile files subpath root) ∧
        readRoots rules files subpath roots = .ok none := by
  rw [← readSysfsCounter_eq_none_iff, readRoots]
  cases readSysfsCounter rules files (joinPath root subpath.bytes) with
  | error e => simp [bind, Except.bind]
  | ok first => cases first <;> simp [bind, Except.bind, pure, Except.pure]

theorem readCassiniFallback_eq_some_iff :
    readCassiniFallback rules files nic subpath = .ok (some z) ↔
      Holds rules z (ownFile files subpath (cxiRoot nic)) ∨
        Passed rules (ownFile files subpath (cxiRoot nic)) ∧
          Holds rules z (ownFile files subpath (hsnRoot nic)) := by
  unfold readCassiniFallback
  rw [readRoots_cons_eq_some_iff, readRoots_cons_eq_some_iff]
  simp [readRoots]

theorem readCassiniFallback_eq_none_iff :
    readCassiniFallback rules files nic subpath = .ok none ↔
      Passed rules (ownFile files subpath (cxiRoot nic)) ∧
        Passed rules (ownFile files subpath (hsnRoot nic)) := by
  unfold readCassiniFallback
  rw [readRoots_cons_eq_none_iff, readRoots_cons_eq_none_iff]
  simp [readRoots]

/-- A counter that is there is opened under its name. -/
theorem openCounter_eq (hshort : (cxiPath nic subpath).length < 256) :
    openCounter files nic subpath =
      if (files (cxiPath nic subpath)).opens then
        some { path := cxiPath nic subpath, name := subpath.bytes.take 63 }
      else none := by
  unfold openCounter buildPath
  rw [if_pos hshort]

/-- The handle that is found leads to the file that is taken. -/
theorem find_handle (files : CounterFiles) (subpath : CString)
    (hshort : ∀ other ∈ subpaths, (cxiPath nic other).length < 256) :
    ((subpaths.filterMap (openCounter files nic)).find? fun h =>
        sameName h.name subpath.bytes).map (fun h => files h.path) =
      takenFile files nic subpaths subpath := by
  induction subpaths with
  | nil => rfl
  | cons other rest ih =>
      have hrest := ih fun o ho => hshort o (List.mem_cons_of_mem _ ho)
      unfold takenFile at hrest ⊢
      rw [List.filterMap_cons, openCounter_eq (hshort other List.mem_cons_self),
        List.find?_cons]
      cases hopens : (files (cxiPath nic other)).opens with
      | false =>
          simpa [hopens] using hrest
      | true =>
          have hname : sameName (other.bytes.take 63) subpath.bytes =
              decide (other.bytes.take 63 = subpath.bytes.take 63) := by
            simp [sameName, List.take_take, beq_eq_decide]
          simp only [if_true, List.find?_cons, hname, and_true]
          by_cases hsame : other.bytes.take 63 = subpath.bytes.take 63
          · simp [hsame]
          · simpa [hsame] using hrest

/-- What the library makes of a text. -/
def taken (text : Bytes) : Option Int :=
  if text = [] then none else wrapped (leading (text.take 31))

theorem readFallback_eq {text : Bytes} :
    (if 0 ≤ readFallback text then some (readFallback text) else none) =
      taken text := by
  unfold readFallback taken
  dsimp only
  by_cases hempty : text = []
  · rw [if_pos hempty, hempty]
    rfl
  · have hbuf : text.take 31 ≠ [] := by simpa using hempty
    rw [if_neg hempty, if_neg hbuf, ← signed_strtoull]
    rfl

theorem readCassiniCounter_eq (hlen : subpaths.length ≤ 16)
    (hshort : ∀ other ∈ subpaths, (cxiPath nic other).length < 256) :
    readCassiniCounter files nic subpaths subpath =
      match takenFile files nic subpaths subpath with
      | some (.text text) => taken text
      | _ => none := by
  rw [← find_handle files subpath hshort]
  unfold readCassiniCounter cassiniReadCounter cassiniOpenNic
  rw [List.take_of_length_le hlen]
  cases (subpaths.filterMap (openCounter files nic)).find? fun h =>
      sameName h.name subpath.bytes with
  | none => rfl
  | some h =>
      dsimp only [Option.map_some]
      cases files h.path with
      | closed error | unreadable error => rfl
      | text text => exact readFallback_eq

/-- Let `z` be the number that the text of the file taken begins with, within 31
bytes.  If `z` fits 63 bits, and the same after the wrap, the subpath's own file is that
number, or it is passed over and the one under the second root is.  Otherwise both are
passed over. -/
def Matching (rules : TextRules) (files : CounterFiles) (nic : Fin 8)
    (subpaths : List CString) (subpath : CString) : Prop :=
  let own := ownFile files subpath (cxiRoot nic)
  let second := ownFile files subpath (hsnRoot nic)
  let number (z : Int) := Holds rules z own ∨ Passed rules own ∧ Holds rules z second
  match takenFile files nic subpaths subpath with
  | some (.text (byte :: rest)) =>
      let z := leading ((byte :: rest).take 31)
      if 0 ≤ z ∧ z < 2 ^ 63 then number z
      else if -2 ^ 64 < z ∧ z < -2 ^ 63 then number (z + 2 ^ 64)
      else Passed rules own ∧ Passed rules second
  | _ => Passed rules own ∧ Passed rules second

instance (z : Int) : ∀ file, Decidable (Holds rules z file)
  | .text _ => decidable_of_iff _ TextRules.intOf_eq_some_iff
  | .closed _ | .unreadable _ => isFalse id

instance : ∀ file, Decidable (Passed rules file)
  | .text _ => decidable_of_iff _ intOf_eq_none_iff
  | .closed _ | .unreadable _ => inferInstanceAs (Decidable (_ = _))

instance : Decidable (Matching rules files nic subpaths subpath) := by
  unfold Matching
  dsimp only
  split
  · infer_instance
  · infer_instance

/-- **The two readers agree exactly where the texts match.** -/
theorem readers_agree_iff (rules : TextRules) (files : CounterFiles) (nic : Fin 8)
    (subpaths : List CString) (hlen : subpaths.length ≤ 16)
    (hshort : ∀ other ∈ subpaths, (cxiPath nic other).length < 256)
    (subpath : CString) :
    readCassiniFallback rules files nic subpath =
        .ok (readCassiniCounter files nic subpaths subpath) ↔
      Matching rules files nic subpaths subpath := by
  rw [readCassiniCounter_eq hlen hshort]
  unfold Matching
  dsimp only
  cases takenFile files nic subpaths subpath with
  | none => exact readCassiniFallback_eq_none_iff
  | some file =>
      cases file with
      | closed error | unreadable error => exact readCassiniFallback_eq_none_iff
      | text bytes =>
          cases bytes with
          | nil => exact readCassiniFallback_eq_none_iff
          | cons byte rest =>
              have hwrapped : taken (byte :: rest) =
                  wrapped (leading ((byte :: rest).take 31)) :=
                if_neg (List.cons_ne_nil _ _)
              dsimp only
              rw [hwrapped]
              unfold wrapped
              split
              · exact readCassiniFallback_eq_some_iff
              · split
                · exact readCassiniFallback_eq_some_iff
                · exact readCassiniFallback_eq_none_iff

/-- Python's tables on ASCII texts. -/
def asciiRules : TextRules where
  decode bytes := if bytes.all (· < 128) then some (bytes.map charOf) else none
  isSpace c := c = ' ' ∨ (9 ≤ c.toNat ∧ c.toNat ≤ 13) ∨ (28 ≤ c.toNat ∧ c.toNat ≤ 31)
  decimal c := if 48 ≤ c.toNat ∧ c.toNat ≤ 57 then some (c.toNat - 48) else none
  maxDigits := some 4300

/-- `flit_cntr/congestion` -/
def congestion : CString :=
  ⟨ascii "flit_cntr/congestion", by decide +kernel⟩

/-- The first NIC has this one file. -/
def oneFile (text : Bytes) : CounterFiles := fun path =>
  if path = cxiPath 0 congestion then .text text else .closed .fileNotFound

theorem readers_agree_one :
    readCassiniFallback asciiRules (oneFile (ascii "42\n")) 0 congestion =
      .ok (readCassiniCounter (oneFile (ascii "42\n")) 0 [congestion] congestion) :=
  (readers_agree_iff asciiRules (oneFile (ascii "42\n")) 0 [congestion] (by decide)
    (by decide +kernel) congestion).mpr (by decide +kernel)

/-- A text without a number is 0 for the library, and no integer for Python. -/
theorem readers_differ :
    ¬ ∀ (rules : TextRules) (files : CounterFiles) (nic : Fin 8)
      (subpaths : List CString), subpaths.length ≤ 16 → subpaths.Nodup →
      (∀ other ∈ subpaths, (cxiPath nic other).length < 256) →
      ∀ subpath ∈ subpaths,
        readCassiniFallback rules files nic subpath =
          .ok (readCassiniCounter files nic subpaths subpath) := by
  intro h
  have hagree := h asciiRules (oneFile (ascii "n/a\n")) 0 [congestion] (by decide)
    (by decide +kernel) (by decide +kernel) congestion List.mem_cons_self
  have hread : readCassiniCounter (oneFile (ascii "n/a\n")) 0 [congestion] congestion =
      some 0 := by decide +kernel
  have hfall : readCassiniFallback asciiRules (oneFile (ascii "n/a\n")) 0 congestion =
      .ok none := by decide +kernel
  rw [hread, hfall] at hagree
  cases hagree

section Plain

variable {ds : Bytes}

/-- A name that no other agrees with leads to its own file. -/
theorem takenFile_own (hmem : subpath ∈ subpaths)
    (hunique : ∀ other ∈ subpaths,
      other.bytes.take 63 = subpath.bytes.take 63 → other = subpath)
    (hopens : (files (cxiPath nic subpath)).opens = true) :
    takenFile files nic subpaths subpath = some (files (cxiPath nic subpath)) := by
  unfold takenFile
  cases hfound : subpaths.find? fun other =>
      other.bytes.take 63 = subpath.bytes.take 63 ∧ (files (cxiPath nic other)).opens with
  | none =>
      have hnone := List.find?_eq_none.mp hfound subpath hmem
      simp [hopens] at hnone
  | some other =>
      have hsame := List.find?_some hfound
      simp only [decide_eq_true_eq] at hsame
      obtain rfl := hunique other (List.mem_of_find?_eq_some hfound) hsame.1
      rfl

/-- A line of digits that fits 63 bits, under a name of its own, matches. -/
theorem matching_of_plain (hplain : rules.Plain ds.length) (hmem : subpath ∈ subpaths)
    (hunique : ∀ other ∈ subpaths,
      other.bytes.take 63 = subpath.bytes.take 63 → other = subpath)
    (hpath : posixPath (joinPath (cxiRoot nic) subpath.bytes) = cxiPath nic subpath)
    (hfile : files (cxiPath nic subpath) = .text (ds ++ [10])) (hne : ds ≠ [])
    (hds : ∀ byte ∈ ds, isDigit byte) (hlen : ds.length ≤ 31)
    (hsmall : digitsValue (ds.map digitOf) < 2 ^ 63) :
    Matching rules files nic subpaths subpath := by
  have hopens : (files (cxiPath nic subpath)).opens = true := by
    rw [hfile]
    rfl
  have htaken := takenFile_own hmem hunique hopens
  have hown : Holds rules (digitsValue (ds.map digitOf))
      (ownFile files subpath (cxiRoot nic)) := by
    unfold ownFile
    rw [hpath, hfile]
    exact TextRules.intOf_eq_some_iff.mp (hplain.intOf hne hds)
  have hbegins : leading ((ds ++ [10]).take 31) = digitsValue (ds.map digitOf) := by
    rw [List.take_append, List.take_of_length_le hlen]
    apply leading_digits hne hds
    cases 31 - ds.length with
    | zero => rfl
    | succ n => rfl
  unfold Matching
  dsimp only
  rw [htaken, hfile]
  cases hline : ds ++ [10] with
  | nil => simp at hline
  | cons byte rest =>
      rw [hline] at hbegins
      dsimp only
      rw [hbegins, if_pos ⟨Int.natCast_nonneg _, by exact_mod_cast hsmall⟩]
      exact .inl hown

end Plain

end CassiniCounter

end Tempo
