import Mathlib.Data.List.TakeWhile
import Mathlib.Data.UInt

/-!
# Update messages

An editor announces a change of its text as `action:length:L:offset:O:text:T`, where the action is
`+`, `-` or `=`. `textUpdater` reads a message by counting colons: the characters before the first
one are the action, those between the second and the third the length, those between the fourth
and the fifth the offset, and everything after the sixth, colons included, is the text. The two
numbers are then read by `int.Parse`.

`parseFields_updateMessage` and `parseInt_decimal` say that what was written is read back.
-/

set_option autoImplicit false
set_option relaxedAutoImplicit false

namespace NovaIde.Client

/-- A string of the client: its UTF-16 code units. -/
abbrev Text := List UInt16

/-- Named once, for the tests whether a text is in a list. -/
instance : LawfulBEq Text := inferInstance

/-- The code unit of an ASCII character. -/
def unit (char : Char) : UInt16 := char.val.toUInt16

/-- The code units of an ASCII literal. -/
def str (literal : String) : Text := literal.toList.map unit

/-- The separator of the parts of a message. -/
def colon : UInt16 := unit ':'

/-- The line feed the Enter key inserts. -/
def newline : UInt16 := unit '\n'

/-- `int.MaxValue`. -/
def int32Max : ℕ := 2147483647

/-- The largest length a string of the runtime can have. -/
def maxLength : ℕ := 1073741791

/-- `int.ToString` of a number that is not negative. -/
def decimal (number : ℕ) : Text := (Nat.toDigits 10 number).map unit

/-- `int.ToString`. -/
def intText (number : ℤ) : Text :=
  if number < 0 then unit '-' :: decimal number.natAbs else decimal number.toNat

theorem intText_natCast (number : ℕ) : intText (number : ℤ) = decimal number := by
  simp [intText]

/-- The message of an update. -/
def updateMessage (action : Text) (length offset : ℕ) (text : Text) : Text :=
  action ++ str ":length:" ++ decimal length ++ str ":offset:" ++ decimal offset ++
    str ":text:" ++ text

def ADDITION_IDENTIFIER : Text := str "+"
def DELETION_IDENTIFIER : Text := str "-"
def MULTIPLE_ACTION_IDENTIFIER : Text := str "="

/-! ### Reading the fields -/

def ACTION : ℕ := 0
def LENGTH : ℕ := 2
def OFFSET : ℕ := 4
def TEXT : ℕ := 6

/-- The variables of the parsing loop. -/
structure UpdateFields where
  action : Text := []
  strLength : Text := []
  strOffset : Text := []
  text : Text := []
  parser : ℕ := 0
deriving DecidableEq, Repr

/-- The body of the parsing loop. -/
def parseStep (fields : UpdateFields) (char : UInt16) : UpdateFields :=
  if char ≠ colon ∧ fields.parser = ACTION then { fields with action := fields.action ++ [char] }
  else if char ≠ colon ∧ fields.parser = LENGTH then
    { fields with strLength := fields.strLength ++ [char] }
  else if char ≠ colon ∧ fields.parser = OFFSET then
    { fields with strOffset := fields.strOffset ++ [char] }
  else if fields.parser = TEXT then { fields with text := fields.text ++ [char] }
  else if char = colon ∧ fields.parser ≠ TEXT then { fields with parser := fields.parser + 1 }
  else fields

/-- The parsing loop of `textUpdater`. -/
def parseFields (update : Text) : UpdateFields := update.foldl parseStep {}

/-- The fields after a chunk without a colon has been read into the current one. -/
def UpdateFields.append (fields : UpdateFields) (chunk : Text) : UpdateFields :=
  if fields.parser = ACTION then { fields with action := fields.action ++ chunk }
  else if fields.parser = LENGTH then { fields with strLength := fields.strLength ++ chunk }
  else if fields.parser = OFFSET then { fields with strOffset := fields.strOffset ++ chunk }
  else fields

/-- Before the text, a chunk without a colon is appended to the current field. -/
theorem foldl_parseStep_chunk {chunk : Text} (hchunk : colon ∉ chunk) :
    ∀ {fields : UpdateFields}, fields.parser ≠ TEXT →
      chunk.foldl parseStep fields = fields.append chunk := by
  induction chunk with
  | nil =>
    intro fields _
    simp [UpdateFields.append]
  | cons char rest ih =>
    intro fields hparser
    have hchar : char ≠ colon := fun h ↦ hchunk (by simp [h])
    have hrest : colon ∉ rest := fun h ↦ hchunk (by simp [h])
    have hstep : parseStep fields char = fields.append [char] := by
      simp [parseStep, UpdateFields.append, hchar, hparser]
    have hkept : (fields.append [char]).parser = fields.parser := by
      unfold UpdateFields.append
      split_ifs <;> rfl
    rw [List.foldl_cons, hstep, ih hrest (by rwa [hkept])]
    unfold UpdateFields.append
    split_ifs <;> simp_all

/-- Before the text, a colon starts the next field. -/
theorem parseStep_colon {fields : UpdateFields} (hparser : fields.parser ≠ TEXT) :
    parseStep fields colon = { fields with parser := fields.parser + 1 } := by
  simp [parseStep, hparser]

/-- After the sixth colon everything is text. -/
theorem foldl_parseStep_text (rest : Text) :
    ∀ {fields : UpdateFields}, fields.parser = TEXT →
      rest.foldl parseStep fields = { fields with text := fields.text ++ rest } := by
  induction rest with
  | nil =>
    intro fields _
    simp
  | cons char rest ih =>
    intro fields hparser
    have hstep : parseStep fields char = { fields with text := fields.text ++ [char] } := by
      simp [parseStep, hparser, ACTION, LENGTH, OFFSET, TEXT]
    rw [List.foldl_cons, hstep, ih (by exact hparser)]
    simp

/-- A chunk without a colon followed by a colon, before the text. -/
theorem foldl_parseStep_field {chunk rest : Text} (hchunk : colon ∉ chunk) {fields : UpdateFields}
    (hparser : fields.parser ≠ TEXT) :
    (chunk ++ colon :: rest).foldl parseStep fields =
      rest.foldl parseStep
        { fields.append chunk with parser := fields.parser + 1 } := by
  have hkept : (fields.append chunk).parser = fields.parser := by
    unfold UpdateFields.append
    split_ifs <;> rfl
  rw [List.foldl_append, foldl_parseStep_chunk hchunk hparser, List.foldl_cons,
    parseStep_colon (by rwa [hkept]), hkept]

/-- The code unit of a decimal digit. -/
def isDigitUnit (char : UInt16) : Bool := unit '0' ≤ char && char ≤ unit '9'

/-- The characters of a printed number are digits, and their code units are their values. -/
theorem toNat_unit_of_mem_toDigits {number : ℕ} {digit : Char}
    (hdigit : digit ∈ Nat.toDigits 10 number) :
    (unit digit).toNat = digit.toNat ∧ 48 ≤ digit.toNat ∧ digit.toNat ≤ 57 := by
  have hrange : digit.isDigit = true := Nat.isDigit_of_mem_toDigits (by decide) (by decide) hdigit
  have hbounds : 48 ≤ digit.toNat ∧ digit.toNat ≤ 57 := by
    simpa [Char.isDigit, UInt32.le_iff_toNat_le] using hrange
  refine ⟨?_, hbounds⟩
  have hvalue : (unit digit).toNat = digit.toNat % 65536 := UInt32.toNat_toUInt16 digit.val
  omega

/-- The digits of a printed number. -/
theorem isDigitUnit_of_mem_decimal {number : ℕ} {char : UInt16} (hchar : char ∈ decimal number) :
    isDigitUnit char = true := by
  obtain ⟨digit, hdigit, rfl⟩ := List.mem_map.mp hchar
  obtain ⟨hvalue, hlower, hupper⟩ := toNat_unit_of_mem_toDigits hdigit
  have hzero : (unit '0').toNat = 48 := by decide
  have hnine : (unit '9').toNat = 57 := by decide
  simp [isDigitUnit, UInt16.le_iff_toNat_le, hvalue, hzero, hnine, hlower, hupper]

theorem colon_notMem_decimal (number : ℕ) : colon ∉ decimal number := by
  intro hcolon
  have hdigit := isDigitUnit_of_mem_decimal hcolon
  revert hdigit
  decide

/-- The parsing loop reads back the action, the two printed numbers and the text. -/
theorem parseFields_updateMessage {action : Text} (haction : colon ∉ action) (length offset : ℕ)
    (text : Text) :
    parseFields (updateMessage action length offset text) =
      ⟨action, decimal length, decimal offset, text, TEXT⟩ := by
  have hmessage : updateMessage action length offset text =
      action ++ colon :: (str "length" ++ colon :: (decimal length ++ colon :: (str "offset" ++
        colon :: (decimal offset ++ colon :: (str "text" ++ colon :: text))))) := by
    simp [updateMessage, str, colon]
  have hlabel : colon ∉ str "length" ∧ colon ∉ str "offset" ∧ colon ∉ str "text" := by decide
  rw [parseFields, hmessage, foldl_parseStep_field haction (by simp [TEXT]),
    foldl_parseStep_field hlabel.1 (by simp [TEXT]),
    foldl_parseStep_field (colon_notMem_decimal _) (by simp [TEXT]),
    foldl_parseStep_field hlabel.2.1 (by simp [TEXT]),
    foldl_parseStep_field (colon_notMem_decimal _) (by simp [TEXT]),
    foldl_parseStep_field hlabel.2.2 (by simp [TEXT]), foldl_parseStep_text _ (by rfl)]
  simp [UpdateFields.append, ACTION, LENGTH, OFFSET, TEXT]

/-! ### Reading a number -/

/-- The ways an update can stop `textUpdater`. -/
inductive Fault
  /-- `FormatException` of `int.Parse` -/
  | format
  /-- `OverflowException` of `int.Parse` -/
  | overflow
  /-- `ArgumentOutOfRangeException` of `String.Insert` -/
  | insertRange
  /-- `ArgumentOutOfRangeException` of `String.Remove` -/
  | removeRange
  /-- `ArgumentOutOfRangeException` of `TextBox.CaretIndex` -/
  | caretRange
deriving DecidableEq, Repr

/-- The white space `int.Parse` allows around a number. -/
def isWhite (char : UInt16) : Bool := char = 0x20 || (0x09 ≤ char && char ≤ 0x0D)

/-- The sign `int.Parse` allows before a number, and the rest. -/
def splitSign : Text → ℤ × Text
  | [] => (1, [])
  | char :: rest =>
    if char = unit '-' then (-1, rest) else if char = unit '+' then (1, rest) else (1, char :: rest)

/-- The value of a sequence of digits. -/
def digitsValue (digits : Text) : ℕ :=
  digits.foldl (fun value digit ↦ value * 10 + (digit.toNat - (unit '0').toNat)) 0

/-- `int.Parse` in the invariant culture: white space, a sign, digits, white space, and null
characters at the end. -/
def parseInt (text : Text) : Except Fault ℤ :=
  let (sign, body) := splitSign (text.dropWhile isWhite)
  let digits := body.takeWhile isDigitUnit
  let trail := (body.dropWhile isDigitUnit).dropWhile isWhite
  if digits = [] || trail.any (· ≠ 0) then .error .format
  else
    let value := sign * digitsValue digits
    if -(int32Max : ℤ) - 1 ≤ value ∧ value ≤ int32Max then .ok value else .error .overflow

/-- Printing a number and reading its digits gives the number back. -/
theorem digitsValue_decimal (number : ℕ) : digitsValue (decimal number) = number := by
  have hfold : ∀ digits : List Char, (∀ digit ∈ digits, digit ∈ Nat.toDigits 10 number) →
      ∀ value, (digits.map unit).foldl
        (fun value digit ↦ value * 10 + (digit.toNat - (unit '0').toNat)) value =
          Nat.ofDigitChars 10 digits value := by
    intro digits
    induction digits with
    | nil => simp
    | cons digit rest ih =>
      intro hdigits value
      have hvalue := (toNat_unit_of_mem_toDigits (hdigits digit (by simp))).1
      have hzero : (unit '0').toNat = '0'.toNat := by decide
      rw [List.map_cons, List.foldl_cons, ih (fun other hother ↦ hdigits other (by simp [hother])),
        Nat.ofDigitChars_cons, hvalue, hzero, Nat.mul_comm]
  rw [digitsValue, decimal, hfold _ (fun _ hdigit ↦ hdigit), Nat.ofDigitChars_ten_toDigits]

/-- A digit is neither white space nor a sign. -/
theorem not_isWhite_of_isDigitUnit {char : UInt16} (hdigit : isDigitUnit char = true) :
    isWhite char = false ∧ char ≠ unit '-' ∧ char ≠ unit '+' := by
  have hzero : (unit '0').toNat = 48 := by decide
  have hnine : (unit '9').toNat = 57 := by decide
  simp only [isDigitUnit, Bool.and_eq_true, decide_eq_true_eq, UInt16.le_iff_toNat_le, hzero,
    hnine] at hdigit
  have hspace : char ≠ 0x20 := by
    rintro rfl
    revert hdigit
    decide
  have hcontrol : ¬ char ≤ 0x0D := by
    rw [UInt16.le_iff_toNat_le]
    have hreturn : (0x0D : UInt16).toNat = 13 := rfl
    omega
  refine ⟨by simp [isWhite, hspace, hcontrol], ?_, ?_⟩
  · rintro rfl
    revert hdigit
    decide
  · rintro rfl
    revert hdigit
    decide

/-- Before digits `int.Parse` finds neither white space nor a sign. -/
theorem splitSign_digits {digits : Text} (hne : digits ≠ [])
    (hdigits : ∀ char ∈ digits, isDigitUnit char = true) :
    splitSign (digits.dropWhile isWhite) = (1, digits) := by
  obtain ⟨char, rest, hcons⟩ := List.exists_cons_of_ne_nil hne
  have hdigit : isDigitUnit char = true := hdigits char (by rw [hcons]; simp)
  have hother := not_isWhite_of_isDigitUnit hdigit
  rw [hcons, List.dropWhile_cons_of_neg (by simp [hother.1]), splitSign, if_neg hother.2.1,
    if_neg hother.2.2]

/-- `int.Parse` of digits is their value, or overflows. -/
theorem parseInt_digits {digits : Text} (hne : digits ≠ [])
    (hdigits : ∀ char ∈ digits, isDigitUnit char = true) :
    parseInt digits =
      if digitsValue digits ≤ int32Max then .ok (digitsValue digits : ℤ) else .error .overflow := by
  have htake : digits.takeWhile isDigitUnit = digits := List.takeWhile_eq_self_iff.mpr hdigits
  have hdrop : digits.dropWhile isDigitUnit = [] := List.dropWhile_eq_nil_iff.mpr hdigits
  have hrange : (-(int32Max : ℤ) - 1 ≤ digitsValue digits ∧ (digitsValue digits : ℤ) ≤ int32Max) ↔
      digitsValue digits ≤ int32Max := by
    omega
  simp only [parseInt, splitSign_digits hne hdigits, htake, hdrop, one_mul, hrange]
  simp [hne]

/-- A printed number consists of digits. -/
theorem decimal_digits (number : ℕ) :
    decimal number ≠ [] ∧ ∀ char ∈ decimal number, isDigitUnit char = true :=
  ⟨by simp [decimal, Nat.toDigits_ne_nil], fun _ hchar ↦ isDigitUnit_of_mem_decimal hchar⟩

/-- `int.Parse` reads back a printed number that fits. -/
theorem parseInt_decimal {number : ℕ} (hnumber : number ≤ int32Max) :
    parseInt (decimal number) = .ok number := by
  have hvalue := digitsValue_decimal number
  rw [parseInt_digits (decimal_digits number).1 (decimal_digits number).2, hvalue, if_pos hnumber]

end NovaIde.Client
