import Mathlib.Data.List.Basic
import Mathlib.Data.UInt

/-!
# Requests and their fields

A request is a byte string `I:FIELD:FIELD:...` with a one-letter identifier. `getDetails` reads
everything after the first two bytes, starts a new field at every `:` and drops every other byte
that is not a letter, a digit, `@` or `.`, so a field never holds a quote, a blank or a separator
(`kept_of_mem_getDetails`). The handlers index the resulting vector without looking at its size;
`detailAt` is such an access and faults past the end.
-/

set_option autoImplicit false
set_option relaxedAutoImplicit false

namespace NovaIde.Server

/-- A byte string of the server. -/
abbrev Bytes := List UInt8

/-- The bytes of an ASCII literal. -/
def ascii (literal : String) : Bytes := literal.toList.map Char.toUInt8

/-- `std::to_string` of a natural number. -/
def toText (number : ℕ) : Bytes := (Nat.toDigits 10 number).map Char.toUInt8

/-- A number is never printed as the empty string. -/
theorem toText_ne_nil (number : ℕ) : toText number ≠ [] := by
  simp [toText, Nat.toDigits_ne_nil]

/-- `std::isalpha` in the default locale. -/
def isalpha (byte : UInt8) : Bool :=
  ('A'.toUInt8 ≤ byte && byte ≤ 'Z'.toUInt8) || ('a'.toUInt8 ≤ byte && byte ≤ 'z'.toUInt8)

/-- `std::isdigit` in the default locale. -/
def isdigit (byte : UInt8) : Bool := '0'.toUInt8 ≤ byte && byte ≤ '9'.toUInt8

/-- The text of a number consists of digits. -/
theorem isdigit_of_mem_toText {number : ℕ} {byte : UInt8} (hbyte : byte ∈ toText number) :
    isdigit byte = true := by
  obtain ⟨digit, hdigit, rfl⟩ := List.mem_map.mp hbyte
  have hrange : digit.isDigit = true := Nat.isDigit_of_mem_toDigits (by decide) (by decide) hdigit
  obtain ⟨hlower, hupper⟩ : 48 ≤ digit.toNat ∧ digit.toNat ≤ 57 := by
    simpa [Char.isDigit, UInt32.le_iff_toNat_le] using hrange
  have hbyte : digit.toUInt8.toNat = digit.toNat % 256 := UInt32.toNat_toUInt8 digit.val
  have hvalue : digit.toUInt8.toNat = digit.toNat := by omega
  have hzero : ('0'.toUInt8).toNat = 48 := rfl
  have hnine : ('9'.toUInt8).toNat = 57 := rfl
  simp only [isdigit, Bool.and_eq_true, decide_eq_true_eq, UInt8.le_iff_toNat_le, hzero, hnine,
    hvalue]
  exact ⟨hlower, hupper⟩

/-- The byte that separates two fields. -/
def seperationIdentifier : UInt8 := ':'.toUInt8

/-- The bytes `getDetails` keeps in a field: `@`, `.`, letters and digits. -/
def isKept (byte : UInt8) : Bool :=
  byte == '@'.toUInt8 || byte == '.'.toUInt8 || isalpha byte || isdigit byte

/-- The loop of `getDetails` over the remaining bytes, with the fields pushed so far and the field
being read. -/
def detailsLoop (details : List Bytes) (tStr : Bytes) : Bytes → List Bytes
  | [] => details ++ [tStr]
  | byte :: rest =>
    if byte = seperationIdentifier then detailsLoop (details ++ [tStr]) [] rest
    else if isKept byte then detailsLoop details (tStr ++ [byte]) rest
    else detailsLoop details tStr rest

/-- `AccountHandler::getDetails`: the fields of a request, read from its third byte on. -/
def getDetails (userInfo : Bytes) : List Bytes := detailsLoop [] [] (userInfo.drop 2)

/-- Every byte of every field pushed by the loop is a kept one, when the fields before and the
field being read hold only kept bytes. -/
theorem kept_of_mem_detailsLoop (rest : Bytes) :
    ∀ (details : List Bytes) (tStr : Bytes),
      (∀ field ∈ details, ∀ byte ∈ field, isKept byte) → (∀ byte ∈ tStr, isKept byte) →
        ∀ field ∈ detailsLoop details tStr rest, ∀ byte ∈ field, isKept byte := by
  induction rest with
  | nil =>
    intro details tStr hdetails htStr field hfield
    rcases List.mem_append.mp hfield with hold | hnew
    · exact hdetails field hold
    · rw [List.mem_singleton.mp hnew]
      exact htStr
  | cons byte rest ih =>
    intro details tStr hdetails htStr
    simp only [detailsLoop]
    split_ifs with hseparator hkept
    · refine ih _ _ (fun field hfield ↦ ?_) (by simp)
      rcases List.mem_append.mp hfield with hold | hnew
      · exact hdetails field hold
      · rw [List.mem_singleton.mp hnew]
        exact htStr
    · refine ih _ _ hdetails fun other hother ↦ ?_
      rcases List.mem_append.mp hother with hold | hnew
      · exact htStr other hold
      · rw [List.mem_singleton.mp hnew]
        exact hkept
    · exact ih _ _ hdetails htStr

/-- The fields of a request hold only letters, digits, `@` and `.`. In particular the literals of
an SQL statement built from them are the fields themselves. -/
theorem kept_of_mem_getDetails {userInfo field : Bytes} (hfield : field ∈ getDetails userInfo) :
    ∀ byte ∈ field, isKept byte :=
  kept_of_mem_detailsLoop _ [] [] (by simp) (by simp) field hfield

/-- The loop keeps a run of kept bytes in the current field. -/
theorem detailsLoop_kept {chunk : Bytes} (hchunk : ∀ byte ∈ chunk, isKept byte) :
    ∀ (details : List Bytes) (tStr rest : Bytes),
      detailsLoop details tStr (chunk ++ rest) = detailsLoop details (tStr ++ chunk) rest := by
  induction chunk with
  | nil => simp
  | cons byte chunk ih =>
    intro details tStr rest
    have hkept : isKept byte = true := hchunk byte (by simp)
    have hseparator : byte ≠ seperationIdentifier := by
      rintro rfl
      revert hkept
      decide
    rw [List.cons_append, detailsLoop, if_neg hseparator, if_pos hkept,
      ih fun other hother ↦ hchunk other (by simp [hother])]
    simp

/-- The details of kept fields, each behind a separator. -/
theorem detailsLoop_join {fields : List Bytes} (hfields : ∀ field ∈ fields, ∀ byte ∈ field,
    isKept byte) : ∀ (details : List Bytes) {first : Bytes}, (∀ byte ∈ first, isKept byte) →
      detailsLoop details [] (first ++ fields.flatMap (seperationIdentifier :: ·)) =
        details ++ first :: fields := by
  induction fields with
  | nil =>
    intro details first hfirst
    rw [detailsLoop_kept hfirst]
    rfl
  | cons field fields ih =>
    intro details first hfirst
    rw [detailsLoop_kept hfirst, List.flatMap_cons, List.cons_append, detailsLoop, if_pos rfl,
      ih (fun other hother ↦ hfields other (by simp [hother])) _ (hfields field (by simp))]
    simp

/-- A field that has been pushed stays where it is. -/
theorem head_detailsLoop (rest : Bytes) : ∀ (first : Bytes) (details : List Bytes) (tStr : Bytes),
    (detailsLoop (first :: details) tStr rest)[0]? = some first := by
  induction rest with
  | nil => exact fun _ _ _ ↦ rfl
  | cons byte rest ih =>
    intro first details tStr
    rw [detailsLoop]
    split_ifs
    · exact ih first (details ++ [tStr]) []
    · exact ih first details (tStr ++ [byte])
    · exact ih first details tStr

/-- The first field of a request does not depend on what follows it. -/
theorem head_detailsLoop_congr (chunk : Bytes) (rest other : Bytes) : ∀ tStr : Bytes,
    (detailsLoop [] tStr ((chunk ++ seperationIdentifier :: rest).takeWhile (· ≠ 0)))[0]? =
      (detailsLoop [] tStr ((chunk ++ seperationIdentifier :: other).takeWhile (· ≠ 0)))[0]? := by
  induction chunk with
  | nil =>
    intro tStr
    have hcut : ∀ rest : Bytes, (seperationIdentifier :: rest).takeWhile (· ≠ 0) =
        seperationIdentifier :: rest.takeWhile (· ≠ 0) := fun rest ↦ rfl
    rw [List.nil_append, List.nil_append, hcut, hcut, detailsLoop, if_pos rfl, detailsLoop,
      if_pos rfl]
    exact (head_detailsLoop _ tStr [] []).trans (head_detailsLoop _ tStr [] []).symm
  | cons byte chunk ih =>
    intro tStr
    rw [List.cons_append, List.cons_append]
    by_cases hzero : byte = 0
    · rw [List.takeWhile_cons_of_neg (by simp [hzero]),
        List.takeWhile_cons_of_neg (by simp [hzero])]
    · rw [List.takeWhile_cons_of_pos (by simp [hzero]),
        List.takeWhile_cons_of_pos (by simp [hzero])]
      simp only [detailsLoop]
      split_ifs
      · exact (head_detailsLoop _ tStr [] []).trans (head_detailsLoop _ tStr [] []).symm
      · exact ih (tStr ++ [byte])
      · exact ih tStr

/-- The size of the buffer `acceptClient` receives into. -/
def bufferSize : ℕ := 256

/-- `Server::acceptClient`: the request read from the zeroed buffer, up to the first zero byte. A
datagram that fills the buffer must bring that byte itself, and a longer one makes the server
throw. -/
def acceptClient (datagram : Bytes) : Option Bytes :=
  if datagram.length < bufferSize ∨ datagram.length = bufferSize ∧ 0 ∈ datagram then
    some (datagram.takeWhile (· ≠ 0))
  else none

/-- The fault of a handler that indexes the details vector past its end. -/
structure AccessFault where
  index : ℕ
  size : ℕ
deriving DecidableEq, Repr

/-- `details[index]`. -/
def detailAt (details : List Bytes) (index : ℕ) : Except AccessFault Bytes :=
  match details[index]? with
  | some field => .ok field
  | none => .error ⟨index, details.length⟩

@[simp] theorem detailAt_eq_ok {details : List Bytes} {index : ℕ} {field : Bytes} :
    detailAt details index = .ok field ↔ details[index]? = some field := by
  unfold detailAt
  split <;> simp_all

/-- A sequence of two fallible computations returns exactly when both do. -/
theorem except_bind_eq_ok {ε α β : Type} {first : Except ε α} {second : α → Except ε β}
    {value : β} :
    (first >>= second) = .ok value ↔ ∃ middle, first = .ok middle ∧ second middle = .ok value := by
  cases first <;> simp [bind, Except.bind]

theorem except_ok_bind {ε α β : Type} (value : α) (next : α → Except ε β) :
    (Except.ok value >>= next) = next value := rfl

/-- A mapped computation that returns a pair returns the two parts of the image. -/
theorem except_map_toOption_eq_some {ε α β γ : Type} {computation : Except ε α} {f : α → β × γ}
    {left : β} {right : γ} :
    (computation.map f).toOption = some (left, right) ↔
      ∃ middle, computation = .ok middle ∧ (f middle).1 = left ∧ (f middle).2 = right := by
  cases computation <;> simp [Except.map, Except.toOption, Prod.ext_iff]

/-- The kinds of requests the server knows, by their first byte. -/
inductive RequestKind
  | login
  | signup
  | session
  | codeCheck
  | mailCode
  | newPass
deriving DecidableEq, Repr

/-- The kind of a request. The first byte of an empty string is the terminator, which no kind
has. -/
def requestKind (userInfo : Bytes) : Option RequestKind :=
  let identifier := userInfo.headD 0
  if identifier = 'L'.toUInt8 then some .login
  else if identifier = 'S'.toUInt8 then some .signup
  else if identifier = 'J'.toUInt8 then some .session
  else if identifier = 'C'.toUInt8 then some .codeCheck
  else if identifier = 'V'.toUInt8 then some .mailCode
  else if identifier = 'N'.toUInt8 then some .newPass
  else none

end NovaIde.Server
