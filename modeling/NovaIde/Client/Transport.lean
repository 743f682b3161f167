import NovaIde.Client.UpdateMessage

/-!
# Strings on the wire

Updates are sent as `Encoding.UTF8.GetBytes` of the string and read with `Encoding.ASCII.GetString`.
The two agree on ASCII text (`asciiGetString_utf8GetBytes`); every byte of anything else is read as
a question mark, so a text arrives with its ASCII characters as they are and runs of question marks
in place of the others (`garbled_asReceived`). What the server sends is read with
`Encoding.UTF8.GetString`, which puts replacement characters where the bytes are no UTF-8.
-/

set_option autoImplicit false
set_option relaxedAutoImplicit false

namespace NovaIde.Client

/-- The bytes of a datagram. -/
abbrev Datagram := List UInt8

/-! ### UTF-8 -/

def isHighSurrogate (char : UInt16) : Bool := 0xD800 ≤ char && char ≤ 0xDBFF

def isLowSurrogate (char : UInt16) : Bool := 0xDC00 ≤ char && char ≤ 0xDFFF

/-- The UTF-8 encoding of a code point. -/
def encodeScalar (scalar : ℕ) : Datagram :=
  if scalar < 0x80 then [scalar.toUInt8]
  else if scalar < 0x800 then
    [(0xC0 + scalar / 0x40).toUInt8, (0x80 + scalar % 0x40).toUInt8]
  else if scalar < 0x10000 then
    [(0xE0 + scalar / 0x1000).toUInt8, (0x80 + scalar / 0x40 % 0x40).toUInt8,
      (0x80 + scalar % 0x40).toUInt8]
  else
    [(0xF0 + scalar / 0x40000).toUInt8, (0x80 + scalar / 0x1000 % 0x40).toUInt8,
      (0x80 + scalar / 0x40 % 0x40).toUInt8, (0x80 + scalar % 0x40).toUInt8]

/-- The encoding of a code unit that is not half of a pair: a lone surrogate is replaced. -/
def encodeUnit (char : UInt16) : Datagram :=
  if isHighSurrogate char || isLowSurrogate char then encodeScalar 0xFFFD
  else encodeScalar char.toNat

/-- `Encoding.UTF8.GetBytes`. -/
def utf8GetBytes : Text → Datagram
  | [] => []
  | [char] => encodeUnit char
  | high :: low :: rest =>
    if isHighSurrogate high && isLowSurrogate low then
      encodeScalar (0x10000 + (high.toNat - 0xD800) * 0x400 + (low.toNat - 0xDC00)) ++
        utf8GetBytes rest
    else encodeUnit high ++ utf8GetBytes (low :: rest)

/-! ### ASCII -/

/-- `Encoding.ASCII.GetString`. -/
def asciiGetString (data : Datagram) : Text :=
  data.map fun byte ↦ if byte < 0x80 then byte.toUInt16 else unit '?'

/-- A text of ASCII characters. -/
def IsAscii (text : Text) : Prop := ∀ char ∈ text, char < 0x80

instance (text : Text) : Decidable (IsAscii text) := List.decidableBAll _ text

theorem isAscii_append {first second : Text} :
    IsAscii (first ++ second) ↔ IsAscii first ∧ IsAscii second :=
  List.forall_mem_append

/-- An ASCII character is not half of a surrogate pair. -/
theorem not_surrogate_of_ascii {char : UInt16} (hchar : char < 0x80) :
    isHighSurrogate char = false ∧ isLowSurrogate char = false := by
  have hsmall : char.toNat < 128 := UInt16.lt_iff_toNat_lt.mp hchar
  have hhigh : (0xD800 : UInt16).toNat = 55296 := rfl
  have hlow : (0xDC00 : UInt16).toNat = 56320 := rfl
  constructor
  · simp only [isHighSurrogate, Bool.and_eq_false_iff, decide_eq_false_iff_not,
      UInt16.le_iff_toNat_le]
    omega
  · simp only [isLowSurrogate, Bool.and_eq_false_iff, decide_eq_false_iff_not,
      UInt16.le_iff_toNat_le]
    omega

/-- An ASCII character is one byte. -/
theorem encodeUnit_of_ascii {char : UInt16} (hchar : char < 0x80) :
    encodeUnit char = [char.toUInt8] := by
  have hsmall : char.toNat < 128 := UInt16.lt_iff_toNat_lt.mp hchar
  have hplain := not_surrogate_of_ascii hchar
  simp only [encodeUnit, hplain.1, hplain.2, Bool.or_self, Bool.false_eq_true, if_false,
    encodeScalar, if_pos hsmall]
  rfl

/-- The byte of an ASCII character has its value. -/
theorem toNat_toUInt8_of_ascii {char : UInt16} (hchar : char < 0x80) :
    char.toUInt8.toNat = char.toNat := by
  have hsmall : char.toNat < 128 := UInt16.lt_iff_toNat_lt.mp hchar
  rw [UInt16.toNat_toUInt8]
  omega

/-- An ASCII character is one byte and reads as itself. -/
theorem asciiGetString_encodeUnit {char : UInt16} (hchar : char < 0x80) :
    asciiGetString (encodeUnit char) = [char] := by
  have hvalue := toNat_toUInt8_of_ascii hchar
  have hrange : char.toUInt8 < 0x80 := by
    rw [UInt8.lt_iff_toNat_lt, hvalue]
    exact UInt16.lt_iff_toNat_lt.mp hchar
  have hsame : char.toUInt8.toUInt16 = char := by
    rw [← UInt16.toNat_inj, UInt8.toNat_toUInt16, hvalue]
  simp only [encodeUnit_of_ascii hchar, asciiGetString, List.map_cons, List.map_nil,
    if_pos hrange, hsame]

/-- The bytes of ASCII text are those of its characters. -/
theorem utf8GetBytes_cons_of_ascii {char : UInt16} (hchar : char < 0x80) (rest : Text) :
    utf8GetBytes (char :: rest) = encodeUnit char ++ utf8GetBytes rest := by
  cases rest with
  | nil => simp [utf8GetBytes]
  | cons next rest => simp [utf8GetBytes, not_surrogate_of_ascii hchar]

/-- The bytes of ASCII text are its characters. -/
theorem utf8GetBytes_of_ascii {text : Text} (htext : IsAscii text) :
    utf8GetBytes text = text.map UInt16.toUInt8 := by
  induction text with
  | nil => rfl
  | cons char rest ih =>
    have hchar : char < 0x80 := htext char (by simp)
    rw [utf8GetBytes_cons_of_ascii hchar, encodeUnit_of_ascii hchar,
      ih fun other hother ↦ htext other (by simp [hother])]
    rfl

/-- ASCII text arrives as it was sent. -/
theorem asciiGetString_utf8GetBytes {text : Text} (htext : IsAscii text) :
    asciiGetString (utf8GetBytes text) = text := by
  induction text with
  | nil => rfl
  | cons char rest ih =>
    have hchar : char < 0x80 := htext char (by simp)
    have hread := asciiGetString_encodeUnit hchar
    have hrest := ih fun other hother ↦ htext other (by simp [hother])
    unfold asciiGetString at hread hrest ⊢
    rw [utf8GetBytes_cons_of_ascii hchar, List.map_append, hread, hrest]
    rfl

/-! ### Text that is not ASCII -/

/-- A text sent as UTF-8 and read as ASCII. -/
def asReceived (text : Text) : Text := asciiGetString (utf8GetBytes text)

/-- How a text arrives: ASCII characters as they are, and question marks for every group of
others. -/
inductive Garbled : Text → Text → Prop
  | nil : Garbled [] []
  | kept {char : UInt16} {text received : Text} (hchar : char < 0x80)
      (hrest : Garbled text received) : Garbled (char :: text) (char :: received)
  | replaced {chars marks text received : Text} (hchars : ∀ char ∈ chars, ¬ char < 0x80)
      (hsome : chars ≠ []) (hmarks : ∀ mark ∈ marks, mark = unit '?') (hmarked : marks ≠ [])
      (hrest : Garbled text received) : Garbled (chars ++ text) (marks ++ received)

/-- Every byte of the encoding of a character past ASCII is read as a question mark. -/
theorem asciiGetString_encodeScalar {scalar : ℕ} (hlower : 0x80 ≤ scalar)
    (hupper : scalar < 0x110000) :
    asciiGetString (encodeScalar scalar) ≠ [] ∧
      ∀ mark ∈ asciiGetString (encodeScalar scalar), mark = unit '?' := by
  have hmark : ∀ byte : ℕ, 0x80 ≤ byte → byte < 0x100 →
      (if byte.toUInt8 < 0x80 then byte.toUInt8.toUInt16 else unit '?') = unit '?' := by
    intro byte hbyte hsize
    refine if_neg fun hsmall ↦ ?_
    rw [UInt8.lt_iff_toNat_lt, Nat.toUInt8_eq, UInt8.toNat_ofNat', Nat.mod_eq_of_lt hsize] at hsmall
    exact absurd hsmall (Nat.not_lt.mpr hbyte)
  unfold encodeScalar
  split_ifs with h80 h800 h10000
  · omega
  · simp only [asciiGetString, List.map_cons, List.map_nil, ne_eq, List.cons_ne_nil,
      not_false_eq_true, true_and, List.mem_cons, List.not_mem_nil, or_false]
    rintro mark (rfl | rfl)
    · exact hmark _ (by omega) (by omega)
    · exact hmark _ (by omega) (by omega)
  · simp only [asciiGetString, List.map_cons, List.map_nil, ne_eq, List.cons_ne_nil,
      not_false_eq_true, true_and, List.mem_cons, List.not_mem_nil, or_false]
    rintro mark (rfl | rfl | rfl)
    · exact hmark _ (by omega) (by omega)
    · exact hmark _ (by omega) (by omega)
    · exact hmark _ (by omega) (by omega)
  · simp only [asciiGetString, List.map_cons, List.map_nil, ne_eq, List.cons_ne_nil,
      not_false_eq_true, true_and, List.mem_cons, List.not_mem_nil, or_false]
    rintro mark (rfl | rfl | rfl | rfl)
    · exact hmark _ (by omega) (by omega)
    · exact hmark _ (by omega) (by omega)
    · exact hmark _ (by omega) (by omega)
    · exact hmark _ (by omega) (by omega)

/-- A character past ASCII on its own arrives as question marks. -/
theorem asciiGetString_encodeUnit_of_not_ascii {char : UInt16} (hchar : ¬ char < 0x80) :
    asciiGetString (encodeUnit char) ≠ [] ∧
      ∀ mark ∈ asciiGetString (encodeUnit char), mark = unit '?' := by
  unfold encodeUnit
  split_ifs
  · exact asciiGetString_encodeScalar (by omega) (by omega)
  · have hlower : 0x80 ≤ char.toNat := by
      rw [UInt16.lt_iff_toNat_lt] at hchar
      exact Nat.le_of_not_lt hchar
    have hupper := char.toNat_lt
    exact asciiGetString_encodeScalar hlower (by omega)

@[simp] theorem asciiGetString_append (first second : Datagram) :
    asciiGetString (first ++ second) = asciiGetString first ++ asciiGetString second :=
  List.map_append

/-- Half of a surrogate pair is no ASCII character. -/
theorem not_ascii_of_surrogate {char : UInt16}
    (hchar : isHighSurrogate char = true ∨ isLowSurrogate char = true) : ¬ char < 0x80 := by
  intro hascii
  obtain ⟨hhigh, hlow⟩ := not_surrogate_of_ascii hascii
  rcases hchar with hchar | hchar
  · rw [hhigh] at hchar
    cases hchar
  · rw [hlow] at hchar
    cases hchar

/-- A character that is not half of a pair arrives on its own. -/
theorem garbled_encodeUnit {char : UInt16} {text received : Text} (hrest : Garbled text received) :
    Garbled (char :: text) (asciiGetString (encodeUnit char) ++ received) := by
  by_cases hchar : char < 0x80
  · rw [asciiGetString_encodeUnit hchar]
    exact .kept hchar hrest
  · obtain ⟨hmarked, hmarks⟩ := asciiGetString_encodeUnit_of_not_ascii hchar
    have hgarbled : Garbled ([char] ++ text) (asciiGetString (encodeUnit char) ++ received) :=
      .replaced (by simpa using hchar) (by simp) hmarks hmarked hrest
    exact hgarbled

/-- Every text arrives in this way. -/
theorem garbled_asReceived (text : Text) : Garbled text (asReceived text) := by
  unfold asReceived
  induction text using utf8GetBytes.induct with
  | case1 => exact .nil
  | case2 char =>
    have hgarbled : Garbled [char] (asciiGetString (encodeUnit char) ++ []) :=
      garbled_encodeUnit .nil
    simpa [utf8GetBytes] using hgarbled
  | case3 high low rest hpair ih =>
    rw [utf8GetBytes, if_pos hpair, asciiGetString_append]
    rw [Bool.and_eq_true] at hpair
    have hhigh : high.toNat ≤ 0xDBFF := by
      have hbounds := hpair.1
      simp only [isHighSurrogate, Bool.and_eq_true, decide_eq_true_eq, UInt16.le_iff_toNat_le]
        at hbounds
      exact hbounds.2
    have hlow : low.toNat ≤ 0xDFFF := by
      have hbounds := hpair.2
      simp only [isLowSurrogate, Bool.and_eq_true, decide_eq_true_eq, UInt16.le_iff_toNat_le]
        at hbounds
      exact hbounds.2
    have hchars : ∀ char ∈ [high, low], ¬ char < 0x80 := by
      intro char hchar
      rcases List.mem_cons.mp hchar with rfl | hchar
      · exact not_ascii_of_surrogate (.inl hpair.1)
      · rw [List.mem_singleton.mp hchar]
        exact not_ascii_of_surrogate (.inr hpair.2)
    have hscalar : 0x80 ≤ 0x10000 + (high.toNat - 0xD800) * 0x400 + (low.toNat - 0xDC00) ∧
        0x10000 + (high.toNat - 0xD800) * 0x400 + (low.toNat - 0xDC00) < 0x110000 := by
      omega
    obtain ⟨hmarked, hmarks⟩ := asciiGetString_encodeScalar hscalar.1 hscalar.2
    exact .replaced hchars (by simp) hmarks hmarked ih
  | case4 high low rest hpair ih =>
    rw [utf8GetBytes, if_neg hpair, asciiGetString_append]
    exact garbled_encodeUnit ih

/-- An ASCII character cuts the encoding of a text. -/
theorem utf8GetBytes_append_cons {char : UInt16} (hchar : char < 0x80) (text rest : Text) :
    utf8GetBytes (text ++ char :: rest) = utf8GetBytes text ++ utf8GetBytes (char :: rest) := by
  have hplain := not_surrogate_of_ascii hchar
  induction text using utf8GetBytes.induct with
  | case1 => rfl
  | case2 last => simp [utf8GetBytes, hplain]
  | case3 high low text hpair ih =>
    simp only [List.cons_append, utf8GetBytes, if_pos hpair, ih, List.append_assoc]
  | case4 high low text hpair ih =>
    simp only [List.cons_append] at ih
    simp only [List.cons_append, utf8GetBytes, if_neg hpair, ih, List.append_assoc]

/-- An ASCII character cuts the text that arrives. -/
theorem asReceived_append_cons {char : UInt16} (hchar : char < 0x80) (text rest : Text) :
    asReceived (text ++ char :: rest) = asReceived text ++ char :: asReceived rest := by
  rw [asReceived, utf8GetBytes_append_cons hchar, asciiGetString_append,
    utf8GetBytes_cons_of_ascii hchar, asciiGetString_append, asciiGetString_encodeUnit hchar]
  rfl

/-- ASCII text in front of a text arrives as it was sent. -/
theorem asReceived_append_of_ascii {first : Text} (hfirst : IsAscii first) (rest : Text) :
    asReceived (first ++ rest) = first ++ asReceived rest := by
  induction first with
  | nil => rfl
  | cons char first ih =>
    have hchar : char < 0x80 := hfirst char (by simp)
    have hcut := asReceived_append_cons hchar [] (first ++ rest)
    rw [List.nil_append] at hcut
    rw [List.cons_append, hcut, ih fun other hother ↦ hfirst other (by simp [hother])]
    rfl

/-- ASCII text arrives as it is. -/
theorem asReceived_of_ascii {text : Text} (htext : IsAscii text) : asReceived text = text :=
  asciiGetString_utf8GetBytes htext

/-- A printed number is ASCII. -/
theorem isAscii_decimal (number : ℕ) : IsAscii (decimal number) := by
  intro char hchar
  have hdigit := isDigitUnit_of_mem_decimal hchar
  simp only [isDigitUnit, Bool.and_eq_true, decide_eq_true_eq, UInt16.le_iff_toNat_le] at hdigit
  have hnine : (unit '9').toNat = 57 := by decide
  rw [UInt16.lt_iff_toNat_lt]
  exact lt_of_le_of_lt (hdigit.2.trans_eq hnine) (by decide)

/-- The message of an update is ASCII when its action and its text are. -/
theorem isAscii_updateMessage {action text : Text} {length offset : ℕ} (haction : IsAscii action)
    (htext : IsAscii text) : IsAscii (updateMessage action length offset text) := by
  have hlabels : IsAscii (str ":length:") ∧ IsAscii (str ":offset:") ∧ IsAscii (str ":text:") := by
    decide
  simp only [updateMessage, isAscii_append]
  exact ⟨⟨⟨⟨⟨⟨haction, hlabels.1⟩, isAscii_decimal _⟩, hlabels.2.1⟩, isAscii_decimal _⟩,
    hlabels.2.2⟩, htext⟩

section Garbled

variable {text received : Text}

/-- Everything that arrives is ASCII. -/
theorem isAscii_asReceived (text : Text) : IsAscii (asReceived text) := by
  intro char hchar
  obtain ⟨byte, -, rfl⟩ := List.mem_map.mp hchar
  split_ifs with hbyte
  · rw [UInt16.lt_iff_toNat_lt, UInt8.toNat_toUInt16]
    exact UInt8.lt_iff_toNat_lt.mp hbyte
  · decide

/-- What arrives is the question mark and characters that were sent. -/
theorem Garbled.mem (hgarbled : Garbled text received) {char : UInt16} (hchar : char ∈ received) :
    char ∈ text ∨ char = unit '?' := by
  induction hgarbled with
  | nil => simp at hchar
  | kept hascii _ ih =>
    rcases List.mem_cons.mp hchar with rfl | hchar
    · exact .inl (by simp)
    · exact (ih hchar).imp (List.mem_cons_of_mem _) id
  | replaced hchars hsome hmarks hmarked _ ih =>
    rcases List.mem_append.mp hchar with hmark | hchar
    · exact .inr (hmarks char hmark)
    · exact (ih hchar).imp (List.mem_append_right _) id

/-- A text that arrives without question marks is ASCII, and arrives as it was sent. -/
theorem Garbled.eq_of_notMem (hgarbled : Garbled text received) (hmark : unit '?' ∉ received) :
    IsAscii text ∧ received = text := by
  induction hgarbled with
  | nil => exact ⟨by simp [IsAscii], rfl⟩
  | kept hascii _ ih =>
    obtain ⟨hrest, heq⟩ := ih fun h ↦ hmark (by simp [h])
    refine ⟨fun other hother ↦ ?_, by rw [heq]⟩
    rcases List.mem_cons.mp hother with rfl | hother
    · exact hascii
    · exact hrest other hother
  | replaced hchars hsome hmarks hmarked _ ih =>
    obtain ⟨mark, marks, rfl⟩ := List.exists_cons_of_ne_nil hmarked
    exact absurd (by simp [hmarks mark (by simp)]) hmark

/-- Text arrives as text. -/
theorem Garbled.ne_nil (hgarbled : Garbled text received) (htext : text ≠ []) :
    received ≠ [] := by
  cases hgarbled with
  | nil => exact htext
  | kept hascii _ => simp
  | replaced hchars hsome hmarks hmarked _ => simp [hmarked]

end Garbled

/-! ### Reading UTF-8 -/

/-- The state of the decoder: the code point read so far, how many bytes it still needs, and the
range of the next one. -/
structure DecoderState where
  codePoint : ℕ := 0
  bytesNeeded : ℕ := 0
  lower : UInt8 := 0x80
  upper : UInt8 := 0xBF
deriving DecidableEq, Repr

/-- The code units of a code point. -/
def encodeUtf16 (codePoint : ℕ) : Text :=
  if codePoint < 0x10000 then [codePoint.toUInt16]
  else
    [(0xD800 + (codePoint - 0x10000) / 0x400).toUInt16,
      (0xDC00 + (codePoint - 0x10000) % 0x400).toUInt16]

/-- The first byte of a code point. -/
def decodeLead (byte : UInt8) : Text × DecoderState :=
  if byte < 0x80 then ([byte.toUInt16], {})
  else if 0xC2 ≤ byte ∧ byte ≤ 0xDF then
    ([], { codePoint := byte.toNat - 0xC0, bytesNeeded := 1 })
  else if 0xE0 ≤ byte ∧ byte ≤ 0xEF then
    ([], { codePoint := byte.toNat - 0xE0, bytesNeeded := 2
           lower := if byte = 0xE0 then 0xA0 else 0x80
           upper := if byte = 0xED then 0x9F else 0xBF })
  else if 0xF0 ≤ byte ∧ byte ≤ 0xF4 then
    ([], { codePoint := byte.toNat - 0xF0, bytesNeeded := 3
           lower := if byte = 0xF0 then 0x90 else 0x80
           upper := if byte = 0xF4 then 0x8F else 0xBF })
  else ([0xFFFD], {})

/-- One byte: the characters that end with it. A sequence that is cut short is replaced, and the
byte that cuts it is read as a first one. -/
def decodeByte (state : DecoderState) (byte : UInt8) : Text × DecoderState :=
  if state.bytesNeeded = 0 then decodeLead byte
  else if state.lower ≤ byte ∧ byte ≤ state.upper then
    let codePoint := state.codePoint * 0x40 + (byte.toNat - 0x80)
    if state.bytesNeeded = 1 then (encodeUtf16 codePoint, {})
    else ([], { codePoint, bytesNeeded := state.bytesNeeded - 1 })
  else (0xFFFD :: (decodeLead byte).1, (decodeLead byte).2)

/-- `Encoding.UTF8.GetString`, from a state of the decoder. -/
def utf8GetStringFrom (state : DecoderState) : Datagram → Text
  | [] => if state.bytesNeeded = 0 then [] else [0xFFFD]
  | byte :: rest => (decodeByte state byte).1 ++ utf8GetStringFrom (decodeByte state byte).2 rest

/-- `Encoding.UTF8.GetString`. -/
def utf8GetString (data : Datagram) : Text := utf8GetStringFrom {} data

/-- Bytes found to be ASCII one after the other. -/
theorem lt_of_all {data : Datagram} (hall : data.all (· < 0x80) = true) :
    ∀ byte ∈ data, byte < 0x80 := by
  simpa using hall

/-- An ASCII byte is read as the character it is. -/
theorem utf8GetString_cons {byte : UInt8} (hbyte : byte < 0x80) (rest : Datagram) :
    utf8GetString (byte :: rest) = byte.toUInt16 :: utf8GetString rest := by
  have hread : decodeByte {} byte = ([byte.toUInt16], {}) := by
    rw [decodeByte, if_pos rfl, decodeLead, if_pos hbyte]
  rw [utf8GetString, utf8GetStringFrom, hread, List.singleton_append]
  rfl

/-- ASCII bytes are read as the characters they are. -/
theorem utf8GetString_of_ascii {data : Datagram} (hdata : ∀ byte ∈ data, byte < 0x80) :
    utf8GetString data = data.map UInt8.toUInt16 := by
  induction data with
  | nil => rfl
  | cons byte rest ih =>
    rw [utf8GetString_cons (hdata byte (by simp)), List.map_cons,
      ih fun other hother ↦ hdata other (by simp [hother])]

end NovaIde.Client
