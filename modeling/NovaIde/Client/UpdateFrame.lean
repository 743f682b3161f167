import NovaIde.Client.Editor

/-!
# The fixed-width frame

`MessageHelper` pads its numbers with expressions such as `'0' + '0' + messageID.ToString()`. The
sum of two characters is a number in this language, so all paddings but those with a single `'0'`
put `96`, `144`, `192` or `240` in front of the text; and the padding of the offset is chosen by the
length of its text as if that were its value. `BuildUpdateMessage` composes the frame and drops it.

No frame has the widths it was made for, and frames of different arguments can be the same:
`frame_spec` says which.
-/

set_option autoImplicit false
set_option relaxedAutoImplicit false

namespace NovaIde.Client

/-! ### Sums of characters and strings -/

/-- An operand of `+`. -/
inductive Operand
  | char (value : UInt16)
  | number (value : ℤ)
  | string (value : Text)
deriving DecidableEq, Repr

namespace Operand

/-- `ToString`. -/
def toText : Operand → Text
  | char value => [value]
  | number value => intText value
  | string value => value

/-- The value of an operand that is no string. -/
def toNumber : Operand → ℤ
  | char value => value.toNat
  | number value => value
  | string _ => 0

/-- `+`: with a string on one side the texts are joined, and otherwise the numbers added. -/
def plus : Operand → Operand → Operand
  | string first, second => string (first ++ second.toText)
  | first, string second => string (first.toText ++ second)
  | first, second => number (wrapInt32 (first.toNumber + second.toNumber))

instance : Add Operand := ⟨plus⟩

end Operand

/-- The character `'0'`. -/
def nought : Operand := .char (unit '0')

/-! ### The fields of the frame -/

/-- `MsgIDToString`. -/
def msgIDToString (messageID : ℤ) : Text :=
  if messageID < 10 then (nought + nought + .string (intText messageID)).toText
  else if messageID < 100 then (nought + .string (intText messageID)).toText
  else intText messageID

/-- `dataLenToString`. -/
def dataLenToString (dLen : ℤ) : Text :=
  if dLen < 10 then (nought + nought + nought + nought + .string (intText dLen)).toText
  else if dLen < 100 then (nought + nought + nought + .string (intText dLen)).toText
  else if dLen < 1000 then (nought + nought + .string (intText dLen)).toText
  else if dLen < 10000 then (nought + .string (intText dLen)).toText
  else intText dLen

/-- `formatOffset`. -/
def formatOffset (offset : Text) : Text :=
  if offset.length < 10 then (nought + nought + nought + nought + nought + .string offset).toText
  else if offset.length < 100 then (nought + nought + nought + nought + .string offset).toText
  else if offset.length < 1000 then (nought + nought + nought + .string offset).toText
  else if offset.length < 10000 then (nought + nought + .string offset).toText
  else if offset.length < 100000 then (nought + .string offset).toText
  else offset

/-- The `updateMessage` that `BuildUpdateMessage` composes before it returns zero. -/
def buildUpdateMessage (memberID : UInt16) (messageID : ℤ) (operationID : UInt16) (dataLen : ℤ)
    (offset text : Text) : Text :=
  let sMsgID := msgIDToString messageID
  let sDataLen := dataLenToString dataLen
  let formattedOffset := formatOffset offset
  [memberID] ++ sMsgID ++ [operationID] ++ sDataLen ++ formattedOffset ++ text

/-- The texts of the sums in front of a string. -/
theorem noughts_plus_string (text : Text) :
    (nought + .string text).toText = str "0" ++ text ∧
      (nought + nought + .string text).toText = str "96" ++ text ∧
      (nought + nought + nought + .string text).toText = str "144" ++ text ∧
      (nought + nought + nought + nought + .string text).toText = str "192" ++ text ∧
      (nought + nought + nought + nought + nought + .string text).toText = str "240" ++ text := by
  have htwo : nought + nought = .number 96 := by decide
  have hthree : nought + nought + nought = .number 144 := by decide
  have hfour : nought + nought + nought + nought = .number 192 := by decide
  have hfive : nought + nought + nought + nought + nought = .number 240 := by decide
  rw [hfive, hfour, hthree, htwo]
  exact ⟨rfl, rfl, rfl, rfl, rfl⟩

/-! ### Zero padding -/

/-- Digits with zeros in front, up to a width. -/
def zeroPadded (width : ℕ) (digits : Text) : Text :=
  List.replicate (width - digits.length) (unit '0') ++ digits

theorem length_zeroPadded {width : ℕ} {digits : Text} (hdigits : digits.length ≤ width) :
    (zeroPadded width digits).length = width := by
  rw [zeroPadded, List.length_append, List.length_replicate]
  omega

theorem length_decimal_le_iff {number width : ℕ} (hwidth : 0 < width) :
    (decimal number).length ≤ width ↔ number < 10 ^ width := by
  rw [decimal, List.length_map]
  exact Nat.length_toDigits_le_iff (by decide) hwidth

/-- Padding does not change the value. -/
theorem digitsValue_zeroPadded (width : ℕ) (digits : Text) :
    digitsValue (zeroPadded width digits) = digitsValue digits := by
  have hzeros : ∀ count, (List.replicate count (unit '0')).foldl
      (fun value digit ↦ value * 10 + (digit.toNat - (unit '0').toNat)) 0 = 0 := by
    intro count
    induction count with
    | zero => rfl
    | succ count ih =>
      rw [List.replicate_succ, List.foldl_cons]
      exact ih
  rw [digitsValue, zeroPadded, List.foldl_append, hzeros, digitsValue]

theorem zeroPadded_decimal_injective {width first second : ℕ}
    (heq : zeroPadded width (decimal first) = zeroPadded width (decimal second)) :
    first = second := by
  have hvalue := congrArg digitsValue heq
  rwa [digitsValue_zeroPadded, digitsValue_zeroPadded, digitsValue_decimal,
    digitsValue_decimal] at hvalue

/-- Numbers in fields of one width, and what follows them, are told apart. -/
theorem zeroPadded_append_eq_iff {width first second : ℕ} (hwidth : 0 < width)
    (hfirst : first < 10 ^ width) (hsecond : second < 10 ^ width) (rest other : Text) :
    zeroPadded width (decimal first) ++ rest = zeroPadded width (decimal second) ++ other ↔
      first = second ∧ rest = other := by
  constructor
  · intro heq
    have hfirstLength := length_zeroPadded ((length_decimal_le_iff hwidth).mpr hfirst)
    have hsecondLength := length_zeroPadded ((length_decimal_le_iff hwidth).mpr hsecond)
    obtain ⟨hfield, hrest⟩ := List.append_inj heq (hfirstLength.trans hsecondLength.symm)
    exact ⟨zeroPadded_decimal_injective hfield, hrest⟩
  · rintro ⟨rfl, rfl⟩
    rfl

/-- A number with a digit less than the width is padded with one zero. -/
theorem zeroPadded_of_length {width : ℕ} {digits : Text} (hlength : digits.length + 1 = width) :
    zeroPadded width digits = str "0" ++ digits := by
  have hone : width - digits.length = 1 := by omega
  rw [zeroPadded, hone]
  rfl

theorem zeroPadded_of_full {width : ℕ} {digits : Text} (hlength : digits.length = width) :
    zeroPadded width digits = digits := by
  rw [zeroPadded, hlength, Nat.sub_self]
  rfl

/-- The number a message number is written as. -/
def messageCode (messageID : ℕ) : ℕ := if messageID < 10 then 960 + messageID else messageID

/-- The number a length of two digits or more is written as. -/
def lengthCode (dataLen : ℕ) : ℕ :=
  if dataLen < 100 then 14400 + dataLen
  else if dataLen < 1000 then 96000 + dataLen
  else dataLen

theorem messageCode_lt {messageID : ℕ} (hmessageID : messageID < 1000) :
    messageCode messageID < 10 ^ 3 := by
  unfold messageCode
  split_ifs <;> omega

theorem lengthCode_lt {dataLen : ℕ} (hdataLen : dataLen < 100000) :
    lengthCode dataLen < 10 ^ 5 := by
  unfold lengthCode
  split_ifs <;> omega

/-- The exact length of a printed number. -/
theorem length_decimal {number width : ℕ} (hlower : 10 ^ width ≤ number)
    (hupper : number < 10 ^ (width + 1)) : (decimal number).length = width + 1 := by
  have hle := (length_decimal_le_iff (Nat.succ_pos width)).mpr hupper
  rcases Nat.eq_zero_or_pos width with rfl | hpositive
  · have hne := List.length_pos_iff.mpr (decimal_digits number).1
    omega
  · have hnot := mt (length_decimal_le_iff hpositive).mp (Nat.not_lt.mpr hlower)
    omega

theorem length_decimal_single {number : ℕ} (hnumber : number < 10) :
    (decimal number).length = 1 := by
  have hle := (@length_decimal_le_iff _ 1 (by decide)).mpr hnumber
  have hne := List.length_pos_iff.mpr (decimal_digits number).1
  omega

/-- A digit behind a number is its last digit. -/
theorem decimal_append_digit {front digit : ℕ} (hfront : 0 < front) (hdigit : digit < 10) :
    decimal front ++ decimal digit = decimal (10 * front + digit) := by
  rw [decimal, decimal, ← List.map_append,
    Nat.toDigits_append_toDigits (by decide) hfront hdigit, decimal]

/-- A number behind another one is read with it as one number. -/
theorem decimal_append_decimal {front : ℕ} (hfront : 0 < front) (number : ℕ) :
    decimal front ++ decimal number =
      decimal (front * 10 ^ (decimal number).length + number) := by
  induction number using Nat.strong_induction_on with
  | _ number ih =>
    rcases Nat.lt_or_ge number 10 with hsingle | hlonger
    · rw [decimal_append_digit hfront hsingle, length_decimal_single hsingle, pow_one, mul_comm]
    · have hdigit : number % 10 < 10 := Nat.mod_lt _ (by decide)
      have hnumber : decimal number = decimal (number / 10) ++ decimal (number % 10) := by
        rw [decimal_append_digit (by omega) hdigit, Nat.div_add_mod]
      have hpositive : 0 < front * 10 ^ (decimal (number / 10)).length + number / 10 :=
        Nat.add_pos_right _ (Nat.div_pos hlonger (by decide))
      have hvalue : 10 * (front * 10 ^ (decimal (number / 10)).length + number / 10) +
          number % 10 = front * 10 ^ ((decimal (number / 10)).length + 1) + number := by
        rw [mul_add, add_assoc, Nat.div_add_mod, pow_succ, ← mul_assoc front, mul_comm 10]
      rw [hnumber, ← List.append_assoc, ih (number / 10) (by omega),
        decimal_append_digit hpositive hdigit, ← hnumber, hvalue, hnumber, List.length_append,
        length_decimal_single hdigit]

/-- The message number is written with three digits. -/
theorem msgIDToString_eq {messageID : ℕ} (hmessageID : messageID < 1000) :
    msgIDToString messageID = zeroPadded 3 (decimal (messageCode messageID)) := by
  unfold msgIDToString messageCode
  rw [intText_natCast, (noughts_plus_string _).1, (noughts_plus_string _).2.1]
  split_ifs with hone hsame htwo hsame <;> try omega
  · rw [show str "96" = decimal 96 by decide, decimal_append_decimal (by decide),
      length_decimal_single hsame,
      zeroPadded_of_full (@length_decimal _ 2 (by omega) (by omega))]
    rfl
  · rw [zeroPadded_of_length]
    rw [@length_decimal _ 1 (by omega) (by omega)]
  · rw [zeroPadded_of_full (@length_decimal _ 2 (by omega) (by omega))]

/-- The length is written with four digits when it has one itself. -/
theorem dataLenToString_of_lt_ten {dataLen : ℕ} (hdataLen : dataLen < 10) :
    dataLenToString dataLen = str "192" ++ decimal dataLen := by
  rw [dataLenToString, if_pos (by omega), intText_natCast, (noughts_plus_string _).2.2.2.1]

/-- Other lengths are written with five. -/
theorem dataLenToString_of_ge_ten {dataLen : ℕ} (hlower : 10 ≤ dataLen)
    (hupper : dataLen < 100000) :
    dataLenToString dataLen = zeroPadded 5 (decimal (lengthCode dataLen)) := by
  rw [dataLenToString, if_neg (by omega), intText_natCast, (noughts_plus_string _).1,
    (noughts_plus_string _).2.1, (noughts_plus_string _).2.2.1, lengthCode]
  rcases Nat.lt_or_ge dataLen 100 with htwo | hthree
  · rw [if_pos (by omega), if_pos htwo, show str "144" = decimal 144 by decide,
      decimal_append_decimal (by decide), @length_decimal _ 1 (by omega) (by omega),
      zeroPadded_of_full (@length_decimal _ 4 (by omega) (by omega))]
    rfl
  rw [if_neg (show ¬ (dataLen : ℤ) < 100 by omega), if_neg (show ¬ dataLen < 100 by omega)]
  rcases Nat.lt_or_ge dataLen 1000 with hthousand | hfour
  · rw [if_pos (by omega), if_pos hthousand, show str "96" = decimal 96 by decide,
      decimal_append_decimal (by decide), @length_decimal _ 2 (by omega) (by omega),
      zeroPadded_of_full (@length_decimal _ 4 (by omega) (by omega))]
    rfl
  rw [if_neg (show ¬ (dataLen : ℤ) < 1000 by omega), if_neg (show ¬ dataLen < 1000 by omega)]
  rcases Nat.lt_or_ge dataLen 10000 with hmyriad | hfive
  · rw [if_pos (by omega), zeroPadded_of_length]
    rw [@length_decimal _ 3 (by omega) (by omega)]
  · rw [if_neg (by omega),
      zeroPadded_of_full (@length_decimal _ 4 (by omega) (by omega))]

/-- An offset of fewer than ten characters has `240` put in front of it. -/
theorem formatOffset_of_length {offset : Text} (hoffset : offset.length < 10) :
    formatOffset offset = str "240" ++ offset := by
  rw [formatOffset, if_pos hoffset, (noughts_plus_string _).2.2.2.2]

/-! ### Frames -/

/-- Arguments in the ranges the widths are made for. -/
structure FrameArguments where
  memberID : UInt16
  messageID : ℕ
  operationID : UInt16
  dataLen : ℕ
  offset : Text
  text : Text
  messageID_lt : messageID < 1000
  dataLen_lt : dataLen < 100000
  offset_ne : offset ≠ []
  offset_digits : ∀ char ∈ offset, isDigitUnit char = true
  offset_length : offset.length ≤ 6

namespace FrameArguments

/-- The frame composed of the arguments. -/
def frame (arguments : FrameArguments) : Text :=
  buildUpdateMessage arguments.memberID arguments.messageID arguments.operationID
    arguments.dataLen arguments.offset arguments.text

/-- The frame with a message number of three characters, a length of five and an offset of six, all
padded with zeros, and the text from position 16 on. -/
def FixedWidth (arguments : FrameArguments) : Prop :=
  arguments.frame =
    arguments.memberID :: (zeroPadded 3 (decimal arguments.messageID) ++
      arguments.operationID :: (zeroPadded 5 (decimal arguments.dataLen) ++
        (zeroPadded 6 arguments.offset ++ arguments.text)))

/-- The same arguments, with offsets compared as numbers. -/
def Same (first second : FrameArguments) : Prop :=
  first.memberID = second.memberID ∧ first.messageID = second.messageID ∧
    first.operationID = second.operationID ∧ first.dataLen = second.dataLen ∧
    digitsValue first.offset = digitsValue second.offset ∧ first.text = second.text

/-- Message numbers that are written alike: a single digit behind `96` is a number of three. -/
def SameMessageField (first second : ℕ) : Prop :=
  first = second ∨ (first < 10 ∧ second = 960 + first) ∨ (second < 10 ∧ first = 960 + second)

/-- Lengths that are written alike: two digits behind `144` and three behind `96` are numbers of
five. -/
def SameLengthField (first second : ℕ) : Prop :=
  first = second ∨
    (10 ≤ first ∧ first < 100 ∧ second = 14400 + first) ∨
    (10 ≤ second ∧ second < 100 ∧ first = 14400 + second) ∨
    (100 ≤ first ∧ first < 1000 ∧ second = 96000 + first) ∨
    (100 ≤ second ∧ second < 1000 ∧ first = 96000 + second)

/-! ### Frames that are the same -/

theorem messageCode_eq_iff {first second : ℕ} (hfirst : first < 1000) (hsecond : second < 1000) :
    messageCode first = messageCode second ↔ SameMessageField first second := by
  unfold messageCode SameMessageField
  split_ifs <;> omega

theorem lengthCode_eq_iff {first second : ℕ} (hfirst : 10 ≤ first) (hsecond : 10 ≤ second)
    (hfirstUpper : first < 100000) (hsecondUpper : second < 100000) :
    lengthCode first = lengthCode second ↔ SameLengthField first second := by
  unfold lengthCode SameLengthField
  split_ifs <;> omega

/-- A number of one digit is one character. -/
theorem decimal_of_single {number : ℕ} (hnumber : number < 10) :
    ∃ digit, decimal number = [digit] :=
  List.length_eq_one_iff.mp (length_decimal_single hnumber)

theorem decimal_injective {first second : ℕ} (heq : decimal first = decimal second) :
    first = second := by
  have hvalue := congrArg digitsValue heq
  rwa [digitsValue_decimal, digitsValue_decimal] at hvalue

/-- The character at position five, which is the second one of `240` behind four characters and the
first one behind five, tells the lengths of one digit from the others. -/
theorem lengthField_ne {first second : ℕ} (hfirst : first < 10) (hsecond : 10 ≤ second)
    (hsecondUpper : second < 100000) (rest other : Text) :
    dataLenToString first ++ (str "240" ++ rest) ≠
      dataLenToString second ++ (str "240" ++ other) := by
  intro heq
  have hlength := length_zeroPadded
    ((length_decimal_le_iff (by decide)).mpr (lengthCode_lt hsecondUpper))
  obtain ⟨digit, hdigit⟩ := decimal_of_single hfirst
  have hfive := congrArg (fun frame : Text ↦ frame[5]?) heq
  simp only [dataLenToString_of_lt_ten hfirst, dataLenToString_of_ge_ten hsecond hsecondUpper,
    hdigit, List.getElem?_append_right hlength.le, hlength] at hfive
  cases hfive

/-- Lengths of one digit are told apart by their field. -/
theorem dataLenToString_append_eq_of_lt_ten {first second : ℕ} (hfirst : first < 10)
    (hsecond : second < 10) (rest other : Text) :
    dataLenToString first ++ rest = dataLenToString second ++ other ↔
      SameLengthField first second ∧ rest = other := by
  constructor
  · intro heq
    rw [dataLenToString_of_lt_ten hfirst, dataLenToString_of_lt_ten hsecond, List.append_assoc,
      List.append_assoc] at heq
    have hlength := (length_decimal_single hfirst).trans (length_decimal_single hsecond).symm
    obtain ⟨hdigit, hrest⟩ := List.append_inj (List.append_cancel_left heq) hlength
    exact ⟨Or.inl (decimal_injective hdigit), hrest⟩
  · rintro ⟨hfield, rfl⟩
    have hsame : first = second := by
      unfold SameLengthField at hfield
      omega
    rw [hsame]

/-- Longer lengths are told apart as far as they are written differently. -/
theorem dataLenToString_append_eq_of_ge_ten {first second : ℕ} (hfirst : 10 ≤ first)
    (hsecond : 10 ≤ second) (hfirstUpper : first < 100000) (hsecondUpper : second < 100000)
    (rest other : Text) :
    dataLenToString first ++ rest = dataLenToString second ++ other ↔
      SameLengthField first second ∧ rest = other := by
  rw [dataLenToString_of_ge_ten hfirst hfirstUpper,
    dataLenToString_of_ge_ten hsecond hsecondUpper,
    ← lengthCode_eq_iff hfirst hsecond hfirstUpper hsecondUpper]
  exact zeroPadded_append_eq_iff (by decide) (lengthCode_lt hfirstUpper)
    (lengthCode_lt hsecondUpper) rest other

/-- Two length fields, each followed by what every offset field starts with, are the same when the
lengths are written alike and the rest is the same. -/
theorem lengthField_eq_iff {first second : ℕ} (hfirst : first < 100000)
    (hsecond : second < 100000) (rest other : Text) :
    dataLenToString first ++ (str "240" ++ rest) =
        dataLenToString second ++ (str "240" ++ other) ↔
      SameLengthField first second ∧ rest = other := by
  have hdifferent : ∀ {single longer : ℕ}, single < 10 → 10 ≤ longer →
      ¬ SameLengthField single longer ∧ ¬ SameLengthField longer single := by
    intro single longer hsingle hlonger
    unfold SameLengthField
    omega
  rcases Nat.lt_or_ge first 10 with hsingle | hlonger
  · rcases Nat.lt_or_ge second 10 with hother | hother
    · rw [dataLenToString_append_eq_of_lt_ten hsingle hother, List.append_cancel_left_eq]
    · exact iff_of_false (lengthField_ne hsingle hother hsecond rest other)
        fun hsame ↦ (hdifferent hsingle hother).1 hsame.1
  · rcases Nat.lt_or_ge second 10 with hother | hother
    · exact iff_of_false (lengthField_ne hother hlonger hfirst other rest).symm
        fun hsame ↦ (hdifferent hother hlonger).2 hsame.1
    · rw [dataLenToString_append_eq_of_ge_ten hlonger hother hfirst hsecond,
        List.append_cancel_left_eq]

/-- The frame by its fields. -/
theorem frame_eq (arguments : FrameArguments) :
    arguments.frame =
      arguments.memberID :: (zeroPadded 3 (decimal (messageCode arguments.messageID)) ++
        arguments.operationID :: (dataLenToString arguments.dataLen ++
          (str "240" ++ (arguments.offset ++ arguments.text)))) := by
  have hoffset : arguments.offset.length < 10 := arguments.offset_length.trans_lt (by decide)
  simp only [frame, buildUpdateMessage, msgIDToString_eq arguments.messageID_lt,
    formatOffset_of_length hoffset, List.append_assoc, List.cons_append, List.nil_append]

/-- Two frames are the same when the messages and the lengths are written alike and the offsets,
each followed by the text, are the same characters. -/
theorem frame_eq_iff (first second : FrameArguments) :
    first.frame = second.frame ↔
      first.memberID = second.memberID ∧ SameMessageField first.messageID second.messageID ∧
        first.operationID = second.operationID ∧ SameLengthField first.dataLen second.dataLen ∧
        first.offset ++ first.text = second.offset ++ second.text := by
  rw [frame_eq, frame_eq, List.cons_eq_cons,
    zeroPadded_append_eq_iff (by decide) (messageCode_lt first.messageID_lt)
      (messageCode_lt second.messageID_lt),
    messageCode_eq_iff first.messageID_lt second.messageID_lt, List.cons_eq_cons,
    lengthField_eq_iff first.dataLen_lt second.dataLen_lt]

/-! ### The width of the fields -/

/-- The digits `240` are no zeros. -/
theorem offsetField_ne (offset text : Text) :
    str "240" ++ (offset ++ text) ≠ zeroPadded 6 offset ++ text := by
  intro heq
  rw [zeroPadded, List.append_assoc] at heq
  have hzeros := List.append_cancel_right heq
  have htwo : unit '2' ∈ List.replicate (6 - offset.length) (unit '0') := by
    rw [← hzeros]
    decide
  exact absurd (List.eq_of_mem_replicate htwo) (by decide)

/-- A length of one digit has no zero in front of it. -/
theorem singleLength_ne {dataLen : ℕ} (hdataLen : dataLen < 10) (rest other : Text) :
    dataLenToString dataLen ++ rest ≠ zeroPadded 5 (decimal dataLen) ++ other := by
  intro heq
  have hhead := congrArg List.head? heq
  rw [dataLenToString_of_lt_ten hdataLen, zeroPadded, length_decimal_single hdataLen] at hhead
  cases hhead

/-- No frame has its fields padded with zeros. -/
theorem not_fixedWidth (arguments : FrameArguments) : ¬ arguments.FixedWidth := by
  intro hfixed
  rw [FixedWidth, frame_eq] at hfixed
  obtain ⟨-, hfields⟩ := List.cons_eq_cons.mp hfixed
  obtain ⟨-, hfields⟩ := (zeroPadded_append_eq_iff (by decide)
    (messageCode_lt arguments.messageID_lt) arguments.messageID_lt _ _).mp hfields
  obtain ⟨-, hfields⟩ := List.cons_eq_cons.mp hfields
  rcases Nat.lt_or_ge arguments.dataLen 10 with hsingle | hlonger
  · exact singleLength_ne hsingle _ _ hfields
  · rw [dataLenToString_of_ge_ten hlonger arguments.dataLen_lt] at hfields
    obtain ⟨-, hfields⟩ := (zeroPadded_append_eq_iff (by decide)
      (lengthCode_lt arguments.dataLen_lt) arguments.dataLen_lt _ _).mp hfields
    exact offsetField_ne arguments.offset arguments.text hfields

end FrameArguments

/-! ### What the frame tells -/

/-- No frame has the widths it is made for; and two argument tuples have the same frame just when
their members and operations are the same, their message numbers and lengths are written alike, and
their offsets with the texts behind them are the same characters. -/
theorem frame_spec (first second : FrameArguments) :
    ¬ first.FixedWidth ∧
      (first.frame = second.frame ↔
        first.memberID = second.memberID ∧
          FrameArguments.SameMessageField first.messageID second.messageID ∧
          first.operationID = second.operationID ∧
          FrameArguments.SameLengthField first.dataLen second.dataLen ∧
          first.offset ++ first.text = second.offset ++ second.text) :=
  ⟨first.not_fixedWidth, first.frame_eq_iff second⟩

/-- The insertion of `a` at the offset 1 as the message 5. -/
def fifthFrame : FrameArguments where
  memberID := unit '1'
  messageID := 5
  operationID := unit '1'
  dataLen := 1
  offset := str "1"
  text := str "a"
  messageID_lt := by decide
  dataLen_lt := by decide
  offset_ne := by decide
  offset_digits := List.all_eq_true.mp (show (str "1").all isDigitUnit = true by decide)
  offset_length := by decide

/-- The same insertion as the message 965. -/
def laterFrame : FrameArguments :=
  { fifthFrame with messageID := 965, messageID_lt := by decide }

/-- The frame of the message 5 is `1965119212401a`, which is the frame of the message 965 too. -/
theorem not_frame_unique :
    ¬ ((∀ arguments : FrameArguments, arguments.FixedWidth) ∧
      ∀ first second : FrameArguments, first.frame = second.frame → first.Same second) := by
  rintro ⟨-, hunique⟩
  have hframe : fifthFrame.frame = laterFrame.frame := by decide +kernel
  have hmessageID := (hunique fifthFrame laterFrame hframe).2.1
  exact absurd hmessageID (by decide)

end NovaIde.Client
