import Mathlib.Algebra.Order.Ring.Int
import Mathlib.Data.List.Basic
import Mathlib.Data.List.TakeWhile

/-!
# Integers read from text

C's `strtoull` takes the number that a text begins with and leaves the rest;
where there is none it gives 0, and where the number is too large the largest
one.  Python's `int` takes a text that is an integer and nothing else
(`intOf_eq_some_iff`).  The bytes are read by the "C" locale; how Python decodes them,
and what it counts as blanks and digits, is given by its tables (`TextRules`).
-/

namespace NumberText

/-- The value of decimal digits. -/
def digitsValue (digits : List Nat) : Nat :=
  digits.foldl (fun value digit => 10 * value + digit) 0

section Strtoull

/-- `isspace` -/
def isBlank (byte : UInt8) : Bool :=
  byte == 32 || (9 ≤ byte && byte ≤ 13)

/-- `isdigit` -/
def isDigit (byte : UInt8) : Bool :=
  48 ≤ byte && byte ≤ 57

/-- The number of the digits that the text begins with. -/
def magnitude (text : List UInt8) : Nat :=
  digitsValue ((text.takeWhile isDigit).map fun byte => byte.toNat - 48)

/-- The number that the text begins with, 0 if there is none. -/
def leading (text : List UInt8) : Int :=
  match text.dropWhile isBlank with
  | 45 :: rest => -magnitude rest
  | 43 :: rest => magnitude rest
  | rest => magnitude rest

/-- `strtoull(text, NULL, 10)`; a minus sign negates the number that has been
read. -/
def strtoull (text : List UInt8) : UInt64 :=
  match text.dropWhile isBlank with
  | 45 :: rest =>
      if magnitude rest < 2 ^ 64 then -UInt64.ofNat (magnitude rest)
      else UInt64.ofNat (2 ^ 64 - 1)
  | 43 :: rest => UInt64.ofNat (min (magnitude rest) (2 ^ 64 - 1))
  | rest => UInt64.ofNat (min (magnitude rest) (2 ^ 64 - 1))

/-- A number that is not negative as a signed one. -/
def signed (value : UInt64) : Option Int :=
  if 0 ≤ value.toInt64.toInt then some value.toInt64.toInt else none

/-- What is left of a number that is read unsigned and used signed. -/
def wrapped (z : Int) : Option Int :=
  if 0 ≤ z ∧ z < 2 ^ 63 then some z
  else if -2 ^ 64 < z ∧ z < -2 ^ 63 then some (z + 2 ^ 64)
  else none

theorem toInt64_toInt (value : UInt64) : value.toInt64.toInt =
    if value.toNat < 2 ^ 63 then (value.toNat : Int)
    else (value.toNat : Int) - 2 ^ 64 := by
  have hlt := value.toNat_lt
  have hbmod : value.toInt64.toInt = (value.toNat : Int).bmod (2 ^ 64) :=
    BitVec.toInt_eq_toNat_bmod _
  rw [hbmod, Int.bmod_def]
  split <;> omega

theorem signed_ofNat {m : Nat} (h : m < 2 ^ 64) :
    signed (UInt64.ofNat m) = if m < 2 ^ 63 then some (m : Int) else none := by
  have hvalue : (UInt64.ofNat m).toNat = m := UInt64.toNat_ofNat_of_lt' h
  unfold signed
  rw [toInt64_toInt, hvalue]
  split
  · rw [if_pos (by omega)]
  · rw [if_neg (by omega)]

/-- A number without a minus sign. -/
theorem signed_plain (m : Nat) :
    signed (UInt64.ofNat (min m (2 ^ 64 - 1))) = wrapped m := by
  rw [signed_ofNat (by omega)]
  unfold wrapped
  by_cases hsmall : m < 2 ^ 63
  · rw [if_pos (by omega), if_pos (by omega)]
    congr 1
    omega
  · rw [if_neg (by omega), if_neg (by omega), if_neg (by omega)]

/-- A negated number is positive again from 2^63 on. -/
theorem signed_negated (m : Nat) :
    signed (if m < 2 ^ 64 then -UInt64.ofNat m else UInt64.ofNat (2 ^ 64 - 1)) =
      wrapped (-m) := by
  split
  · next hlt =>
      rcases Nat.eq_zero_or_pos m with rfl | hpos
      · decide
      have hvalue : (-UInt64.ofNat m).toNat = 2 ^ 64 - m := by
        rw [UInt64.toNat_neg, UInt64.toNat_ofNat_of_lt' hlt]
        exact Nat.mod_eq_of_lt (Nat.sub_lt (by decide) hpos)
      unfold signed wrapped
      rw [toInt64_toInt, hvalue, if_neg (show ¬ (0 ≤ -(m : Int) ∧ _) by omega)]
      by_cases hwraps : 2 ^ 63 < m
      · rw [if_pos (show 2 ^ 64 - m < 2 ^ 63 by omega), if_pos (by omega),
          if_pos (by omega)]
        congr 1
        omega
      · rw [if_neg (show ¬ 2 ^ 64 - m < 2 ^ 63 by omega), if_neg (by omega),
          if_neg (by omega)]
  · next hlarge =>
      rw [signed_ofNat (by decide), if_neg (by decide)]
      unfold wrapped
      rw [if_neg (by omega), if_neg (by omega)]

/-- What `strtoull` gives as a signed number depends on the number that the text
begins with only. -/
theorem signed_strtoull (text : List UInt8) :
    signed (strtoull text) = wrapped (leading text) := by
  unfold strtoull leading
  split
  · exact signed_negated _
  · exact signed_plain _
  · exact signed_plain _

end Strtoull

/-- How Python reads a text: the codec, `str.isspace`, `unicodedata.decimal`, and
the number of digits that `int` takes at most, if that is limited. -/
structure TextRules where
  decode : List UInt8 → Option (List Char)
  isSpace : Char → Bool
  decimal : Char → Option Nat
  maxDigits : Option Nat

namespace TextRules

variable (rules : TextRules)

/-- `str.strip` -/
def strip (text : List Char) : List Char :=
  ((text.dropWhile rules.isSpace).reverse.dropWhile rules.isSpace).reverse

/-- Digits, each of which may have an underscore before it. -/
def moreDigits : List Char → Option (List Nat)
  | [] => some []
  | '_' :: c :: rest =>
      match rules.decimal c with
      | some digit => (moreDigits rest).map (digit :: ·)
      | none => none
  | c :: rest =>
      match rules.decimal c with
      | some digit => (moreDigits rest).map (digit :: ·)
      | none => none

/-- Digits with underscores between them. -/
def digits : List Char → Option (List Nat)
  | [] => none
  | c :: rest =>
      match rules.decimal c with
      | some digit => (rules.moreDigits rest).map (digit :: ·)
      | none => none

/-- The number of the digits, if there are not too many. -/
def natural (text : List Char) : Option Nat :=
  match rules.digits text with
  | some ds =>
      if rules.maxDigits.any (· < ds.length) then none else some (digitsValue ds)
  | none => none

/-- `int(text)` -/
def int (text : List Char) : Option Int :=
  match rules.strip text with
  | '-' :: rest => (rules.natural rest).map fun m : Nat => -(m : Int)
  | '+' :: rest => (rules.natural rest).map fun m : Nat => (m : Int)
  | rest => (rules.natural rest).map fun m : Nat => (m : Int)

/-- The integer in a file of these bytes. -/
def intOf (bytes : List UInt8) : Option Int :=
  (rules.decode bytes).bind rules.int

/-! ### What is an integer -/

/-- `mid` with blanks around it, which neither begins nor ends with one. -/
def Framed (text mid : List Char) : Prop :=
  ∃ front back, text = front ++ mid ++ back ∧ (∀ c ∈ front, rules.isSpace c = true) ∧
    (∀ c ∈ back, rules.isSpace c = true) ∧ (∀ c ∈ mid.head?, rules.isSpace c = false) ∧
    ∀ c ∈ mid.getLast?, rules.isSpace c = false

/-- Digits, each of which may have an underscore before it, with their numbers. -/
inductive MoreDigits : List Char → List Nat → Prop
  | nil : MoreDigits [] []
  | digit {c : Char} {d : Nat} {text : List Char} {ds : List Nat}
      (hc : c = '_' → text = []) (hd : rules.decimal c = some d)
      (more : MoreDigits text ds) : MoreDigits (c :: text) (d :: ds)
  | under {c : Char} {d : Nat} {text : List Char} {ds : List Nat}
      (hd : rules.decimal c = some d) (more : MoreDigits text ds) :
      MoreDigits ('_' :: c :: text) (d :: ds)

/-- Not too many digits, with underscores between them, and their value. -/
inductive Unsigned : List Char → Nat → Prop
  | intro {c : Char} {d : Nat} {text : List Char} {ds : List Nat}
      (hd : rules.decimal c = some d) (more : rules.MoreDigits text ds)
      (hmax : ∀ m ∈ rules.maxDigits, (d :: ds).length ≤ m) :
      Unsigned (c :: text) (digitsValue (d :: ds))

/-- The same after a sign or none. -/
inductive Signed : List Char → Int → Prop
  | minus {text : List Char} {m : Nat} (h : rules.Unsigned text m) :
      Signed ('-' :: text) (-m)
  | plus {text : List Char} {m : Nat} (h : rules.Unsigned text m) : Signed ('+' :: text) m
  | bare {text : List Char} {m : Nat} (hsign : ∀ c ∈ text.head?, c ≠ '-' ∧ c ≠ '+')
      (h : rules.Unsigned text m) : Signed text m

/-- The bytes are the integer `z` in decimal, with blanks around it. -/
def Numeral (bytes : List UInt8) (z : Int) : Prop :=
  ∃ text mid, rules.decode bytes = some text ∧ rules.Framed text mid ∧ rules.Signed mid z

variable {rules : TextRules} {text mid : List Char} {ds : List Nat} {m : Nat} {z : Int}
  {bytes : List UInt8}

theorem strip_eq_iff : rules.strip text = mid ↔ rules.Framed text mid := by
  constructor
  · rintro rfl
    have hback := List.takeWhile_append_dropWhile
      (p := rules.isSpace) (l := (text.dropWhile rules.isSpace).reverse)
    have hrest : rules.strip text ++
        ((text.dropWhile rules.isSpace).reverse.takeWhile rules.isSpace).reverse =
        text.dropWhile rules.isSpace := by
      unfold strip
      rw [← List.reverse_append, hback, List.reverse_reverse]
    refine ⟨text.takeWhile rules.isSpace,
      ((text.dropWhile rules.isSpace).reverse.takeWhile rules.isSpace).reverse, ?_, ?_, ?_,
      ?_, ?_⟩
    · rw [List.append_assoc, hrest, List.takeWhile_append_dropWhile]
    · exact fun c hc => List.mem_takeWhile_imp hc
    · exact fun c hc => List.mem_takeWhile_imp (List.mem_reverse.mp hc)
    · intro c hc
      obtain ⟨tail, hmid⟩ := List.head?_eq_some_iff.mp hc
      rw [hmid, List.cons_append] at hrest
      have hhead := List.head?_dropWhile_not rules.isSpace text
      rw [← hrest] at hhead
      simpa using hhead
    · intro c hc
      unfold strip at hc
      rw [List.getLast?_reverse] at hc
      have hhead := List.head?_dropWhile_not rules.isSpace
        (text.dropWhile rules.isSpace).reverse
      rw [Option.mem_def.mp hc] at hhead
      simpa using hhead
  · rintro ⟨front, back, rfl, hfront, hback, hhead, hlast⟩
    have hstart : (mid ++ back).dropWhile rules.isSpace = mid ++ back ∨ mid = [] := by
      cases mid with
      | nil => exact .inr rfl
      | cons c tail =>
          exact .inl (List.dropWhile_cons_of_neg (by simp [hhead c rfl]))
    have hend : mid.reverse.dropWhile rules.isSpace = mid.reverse := by
      cases hrev : mid.reverse with
      | nil => rfl
      | cons c tail =>
          have hc : mid.getLast? = some c := by
            rw [← List.head?_reverse, hrev]
            rfl
          exact List.dropWhile_cons_of_neg (by simp [hlast c hc])
    unfold strip
    rw [List.append_assoc, List.dropWhile_append_of_pos hfront]
    rcases hstart with hkept | rfl
    · rw [hkept, List.reverse_append,
        List.dropWhile_append_of_pos fun c hc => hback c (List.mem_reverse.mp hc), hend,
        List.reverse_reverse]
    · rw [List.nil_append, List.dropWhile_eq_nil_iff.mpr hback]
      rfl

theorem moreDigits_eq_some_iff :
    rules.moreDigits text = some ds ↔ rules.MoreDigits text ds := by
  constructor
  · intro h
    fun_induction rules.moreDigits text generalizing ds with
    | case1 =>
        obtain rfl := Option.some.inj h
        exact .nil
    | case2 c rest d hd ih =>
        obtain ⟨tail, htail, rfl⟩ := Option.map_eq_some_iff.mp h
        exact .under hd (ih htail)
    | case3 => cases h
    | case4 c rest hplain d hd ih =>
        obtain ⟨tail, htail, rfl⟩ := Option.map_eq_some_iff.mp h
        refine .digit ?_ hd (ih htail)
        rintro rfl
        cases rest with
        | nil => rfl
        | cons c' tail' => exact (hplain c' tail' rfl rfl).elim
    | case5 => cases h
  · intro h
    induction h with
    | nil => rfl
    | digit hc hd _ ih =>
        rw [moreDigits]
        · simp [hd, ih]
        · rintro c' rest rfl rfl
          cases hc rfl
    | under hd _ ih =>
        rw [moreDigits]
        simp [hd, ih]

theorem natural_eq_some_iff : rules.natural text = some m ↔ rules.Unsigned text m := by
  constructor
  · intro h
    unfold natural at h
    split at h
    · next ds hds =>
        obtain ⟨hmax, h⟩ := Option.ite_none_left_eq_some.mp h
        obtain rfl := Option.some.inj h
        unfold digits at hds
        split at hds
        · cases hds
        · split at hds
          · next c rest d hd =>
              obtain ⟨tail, htail, rfl⟩ := Option.map_eq_some_iff.mp hds
              refine .intro hd (moreDigits_eq_some_iff.mp htail) fun m hm => ?_
              rw [Option.mem_def.mp hm] at hmax
              simpa using hmax
          · cases hds
    · cases h
  · rintro ⟨hd, more, hmax⟩
    have hallowed : ∀ n, (∀ m ∈ rules.maxDigits, n ≤ m) →
        rules.maxDigits.any (· < n) = false := by
      intro n hn
      cases hdef : rules.maxDigits with
      | none => rfl
      | some m => simpa using hn m hdef
    unfold natural digits
    simp only [hd, moreDigits_eq_some_iff.mpr more, Option.map_some]
    rw [hallowed _ hmax]
    rfl

theorem int_eq_some_iff : rules.int text = some z ↔ rules.Signed (rules.strip text) z := by
  unfold int
  generalize rules.strip text = body
  constructor
  · intro h
    split at h
    · obtain ⟨m, hm, rfl⟩ := Option.map_eq_some_iff.mp h
      exact .minus (natural_eq_some_iff.mp hm)
    · obtain ⟨m, hm, rfl⟩ := Option.map_eq_some_iff.mp h
      exact .plus (natural_eq_some_iff.mp hm)
    · next hminus hplus =>
        obtain ⟨m, hm, rfl⟩ := Option.map_eq_some_iff.mp h
        refine .bare (fun c hc => ?_) (natural_eq_some_iff.mp hm)
        obtain ⟨rest, rfl⟩ := List.head?_eq_some_iff.mp hc
        exact ⟨fun heq => hminus rest (by rw [heq]), fun heq => hplus rest (by rw [heq])⟩
  · intro h
    cases h with
    | minus h | plus h => simp [natural_eq_some_iff.mpr h]
    | bare hsign h =>
        have hvalue := natural_eq_some_iff.mpr h
        split
        · exact absurd rfl (hsign '-' rfl).1
        · exact absurd rfl (hsign '+' rfl).2
        · rw [hvalue]
          rfl

/-- **What `int` takes for an integer.** -/
theorem intOf_eq_some_iff : rules.intOf bytes = some z ↔ rules.Numeral bytes z := by
  constructor
  · intro h
    obtain ⟨text, hdecode, hint⟩ := Option.bind_eq_some_iff.mp h
    exact ⟨text, _, hdecode, strip_eq_iff.mp rfl, int_eq_some_iff.mp hint⟩
  · rintro ⟨text, mid, hdecode, hframed, hsigned⟩
    unfold intOf
    rw [hdecode, Option.bind_some, int_eq_some_iff, strip_eq_iff.mpr hframed]
    exact hsigned

end TextRules

section Plain

/-- The character of an ASCII byte. -/
def charOf (byte : UInt8) : Char :=
  Char.ofNat byte.toNat

/-- The number of a digit. -/
def digitOf (byte : UInt8) : Nat :=
  byte.toNat - 48

/-- The rules read digits and the line feed as ASCII has them, and take this many
digits. -/
structure TextRules.Plain (rules : TextRules) (length : Nat) : Prop where
  decode : ∀ bytes : List UInt8, (∀ byte ∈ bytes, byte < 128) →
    rules.decode bytes = some (bytes.map charOf)
  newline : rules.isSpace (charOf 10) = true
  visible : ∀ byte, isDigit byte → rules.isSpace (charOf byte) = false
  decimal : ∀ byte, isDigit byte → rules.decimal (charOf byte) = some (digitOf byte)
  allowed : rules.maxDigits.any (· < length) = false

variable {rules : TextRules} {byte : UInt8} {ds rest : List UInt8}

theorem isDigit_iff : isDigit byte = true ↔ 48 ≤ byte.toNat ∧ byte.toNat ≤ 57 := by
  simp [isDigit, UInt8.le_iff_toNat_le]

theorem isDigit_ascii (h : isDigit byte) : byte < 128 := by
  rw [isDigit_iff] at h
  rw [UInt8.lt_iff_toNat_lt]
  exact lt_of_le_of_lt h.2 (by decide)

/-- A digit is neither a blank nor a sign. -/
theorem isDigit_first (h : isDigit byte) :
    isBlank byte = false ∧ byte ≠ 45 ∧ byte ≠ 43 := by
  have hge := (isDigit_iff.mp h).1
  refine ⟨?_, ?_, ?_⟩
  · have hspace : byte ≠ 32 := by
      rintro rfl
      exact absurd h (by decide)
    have hcontrol : ¬ byte ≤ 13 := by
      rw [UInt8.le_iff_toNat_le]
      exact fun hle => absurd (le_trans hge hle) (by decide)
    simp [isBlank, hspace, hcontrol]
  · rintro rfl
    exact absurd h (by decide)
  · rintro rfl
    exact absurd h (by decide)

/-- The digits that a text begins with are taken. -/
theorem leading_digits (hne : ds ≠ []) (hds : ∀ byte ∈ ds, isDigit byte)
    (hrest : rest.takeWhile isDigit = []) :
    leading (ds ++ rest) = digitsValue (ds.map digitOf) := by
  have hvalue : magnitude (ds ++ rest) = digitsValue (ds.map digitOf) := by
    unfold magnitude
    rw [List.takeWhile_append_of_pos hds, hrest, List.append_nil]
    rfl
  cases ds with
  | nil => exact absurd rfl hne
  | cons d tail =>
      obtain ⟨hblank, hminus, hplus⟩ := isDigit_first (hds d List.mem_cons_self)
      unfold leading
      rw [List.cons_append, List.dropWhile_cons_of_neg (by simp [hblank])]
      split
      · next heq => exact absurd (List.cons.inj heq).1 hminus
      · next heq => exact absurd (List.cons.inj heq).1 hplus
      · exact congrArg Nat.cast hvalue

theorem charOf_toNat (byte : UInt8) : (charOf byte).toNat = byte.toNat := by
  have hvalid : byte.toNat.isValidChar :=
    Or.inl (lt_of_lt_of_le byte.toNat_lt (by decide))
  unfold charOf Char.ofNat
  rw [dif_pos hvalid]
  rfl

/-- The character of a digit is no other one. -/
theorem charOf_ne (h : isDigit byte) {c : Char} (hc : c.toNat < 48 ∨ 57 < c.toNat) :
    charOf byte ≠ c := by
  rintro rfl
  rw [isDigit_iff] at h
  rw [charOf_toNat] at hc
  omega

theorem TextRules.Plain.moreDigits {length : Nat} (hplain : rules.Plain length)
    (hds : ∀ byte ∈ ds, isDigit byte) :
    rules.moreDigits (ds.map charOf) = some (ds.map digitOf) := by
  induction ds with
  | nil => rfl
  | cons d tail ih =>
      have hd := hds d List.mem_cons_self
      have htail := ih fun byte hb => hds byte (List.mem_cons_of_mem _ hb)
      have hunder : charOf d ≠ '_' := charOf_ne hd (by decide)
      rw [List.map_cons, TextRules.moreDigits]
      · rw [hplain.decimal d hd, htail]
        rfl
      · intro c rest heq _
        exact hunder heq

theorem TextRules.Plain.digits {length : Nat} (hplain : rules.Plain length)
    (hne : ds ≠ []) (hds : ∀ byte ∈ ds, isDigit byte) :
    rules.digits (ds.map charOf) = some (ds.map digitOf) := by
  cases ds with
  | nil => exact absurd rfl hne
  | cons d tail =>
      rw [List.map_cons, TextRules.digits, hplain.decimal d (hds d List.mem_cons_self),
        hplain.moreDigits fun byte hb => hds byte (List.mem_cons_of_mem _ hb)]
      rfl

/-- The line feed is stripped, and nothing else. -/
theorem TextRules.Plain.strip {length : Nat} (hplain : rules.Plain length)
    (hne : ds ≠ []) (hds : ∀ byte ∈ ds, isDigit byte) :
    rules.strip ((ds ++ [10]).map charOf) = ds.map charOf := by
  have hkept : ∀ l : List UInt8, l ≠ [] → (∀ byte ∈ l, isDigit byte) →
      ∀ more, ((l.map charOf) ++ more).dropWhile rules.isSpace =
        (l.map charOf) ++ more := by
    intro l hl hdigits more
    cases l with
    | nil => exact absurd rfl hl
    | cons d tail =>
        have hd := hplain.visible d (hdigits d List.mem_cons_self)
        rw [List.map_cons, List.cons_append, List.dropWhile_cons_of_neg (by simp [hd])]
  have hback : ((ds.map charOf).reverse).dropWhile rules.isSpace =
      (ds.map charOf).reverse := by
    have hrev := hkept ds.reverse (by simpa using hne) (by simpa using hds) []
    simpa using hrev
  unfold TextRules.strip
  rw [List.map_append, hkept ds hne hds, List.reverse_append]
  have hfeed : ((List.map charOf [10]).reverse ++ (ds.map charOf).reverse).dropWhile
      rules.isSpace = ((ds.map charOf).reverse).dropWhile rules.isSpace :=
    List.dropWhile_cons_of_pos hplain.newline
  rw [hfeed, hback, List.reverse_reverse]

/-- A line of digits is an integer. -/
theorem TextRules.Plain.intOf (hplain : rules.Plain ds.length) (hne : ds ≠ [])
    (hds : ∀ byte ∈ ds, isDigit byte) :
    rules.intOf (ds ++ [10]) = some (digitsValue (ds.map digitOf) : Int) := by
  have hnatural : rules.natural (ds.map charOf) =
      some (digitsValue (ds.map digitOf)) := by
    unfold TextRules.natural
    rw [hplain.digits hne hds]
    dsimp only
    rw [List.length_map, hplain.allowed]
    rfl
  have hascii : ∀ byte ∈ ds ++ [10], byte < 128 := by
    intro byte hb
    rcases List.mem_append.mp hb with hb | hb
    · exact isDigit_ascii (hds byte hb)
    · rw [List.mem_singleton.mp hb]
      decide
  unfold TextRules.intOf TextRules.int
  rw [hplain.decode _ hascii, Option.bind_some, hplain.strip hne hds]
  cases ds with
  | nil => exact absurd rfl hne
  | cons d tail =>
      have hd := hds d List.mem_cons_self
      split
      · next heq => exact absurd (List.cons.inj heq).1 (charOf_ne hd (by decide))
      · next heq => exact absurd (List.cons.inj heq).1 (charOf_ne hd (by decide))
      · rw [hnatural]
        rfl

end Plain

end NumberText
