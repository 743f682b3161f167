import Mathlib.Tactic.IntervalCases
import NovaIde.Client.UpdateMessage

/-!
# What the parsers make of any message

`int.Parse` accepts white space, a sign, digits, white space and null characters, when the number
fits (`exists_parseInt_iff`). The loop of `textUpdater` cuts any message at its first six colons:
the fields between them that count are the first, the third and the fifth, and the text is
everything behind the sixth (`parseFields_spec`).
-/

set_option autoImplicit false
set_option relaxedAutoImplicit false

namespace NovaIde.Client

/-! ### Numbers -/

/-- A text that `int.Parse` accepts: white space, a sign, digits, white space and null characters,
with a value in the range of `int`. -/
def IsIntText (text : Text) : Prop :=
  ∃ white sign digits trail nulls, text = white ++ (sign ++ (digits ++ (trail ++ nulls))) ∧
    (∀ char ∈ white, isWhite char = true) ∧
    (sign = [] ∨ sign = [unit '-'] ∨ sign = [unit '+']) ∧
    digits ≠ [] ∧ (∀ char ∈ digits, isDigitUnit char = true) ∧
    (∀ char ∈ trail, isWhite char = true) ∧ (∀ char ∈ nulls, char = 0) ∧
    digitsValue digits ≤ if sign = [unit '-'] then int32Max + 1 else int32Max

/-- The sign a text starts with, and the rest behind it. -/
theorem splitSign_spec (text : Text) : ∃ sign, text = sign ++ (splitSign text).2 ∧
    (sign = [] ∨ sign = [unit '-'] ∨ sign = [unit '+']) ∧
    (splitSign text).1 = if sign = [unit '-'] then -1 else 1 := by
  cases text with
  | nil => exact ⟨[], rfl, Or.inl rfl, rfl⟩
  | cons char rest =>
    rw [splitSign]
    split_ifs with hminus hplus
    · exact ⟨[unit '-'], by rw [hminus]; rfl, Or.inr (Or.inl rfl), rfl⟩
    · exact ⟨[unit '+'], by rw [hplus]; rfl, Or.inr (Or.inr rfl), rfl⟩
    · exact ⟨[], rfl, Or.inl rfl, rfl⟩

/-- Behind a sign or none, in front of a digit, `splitSign` finds that sign. -/
theorem splitSign_append {sign body : Text} {digit : UInt16}
    (hsign : sign = [] ∨ sign = [unit '-'] ∨ sign = [unit '+'])
    (hdigit : isDigitUnit digit = true) :
    splitSign (sign ++ digit :: body) =
      (if sign = [unit '-'] then -1 else 1, digit :: body) := by
  obtain ⟨-, hminus, hplus⟩ := not_isWhite_of_isDigitUnit hdigit
  rcases hsign with rfl | rfl | rfl
  · rw [List.nil_append, splitSign, if_neg hminus, if_neg hplus]
    rfl
  · rfl
  · rfl

/-- A text is cut behind the characters with a property when the next one does not have it. -/
theorem span_append {property : UInt16 → Bool} {first rest : Text}
    (hfirst : ∀ char ∈ first, property char = true)
    (hrest : ∀ char ∈ rest.head?, property char = false) :
    (first ++ rest).takeWhile property = first ∧ (first ++ rest).dropWhile property = rest := by
  have hcut : rest.takeWhile property = [] ∧ rest.dropWhile property = rest := by
    cases rest with
    | nil => exact ⟨rfl, rfl⟩
    | cons char rest => simp [hrest char rfl]
  rw [List.takeWhile_append_of_pos hfirst, List.dropWhile_append_of_pos hfirst, hcut.1, hcut.2,
    List.append_nil]
  exact ⟨rfl, rfl⟩

/-- `int.Parse` by the sign and the body it finds. -/
theorem parseInt_of_splitSign {text body : Text} {factor : ℤ}
    (hsplit : splitSign (text.dropWhile isWhite) = (factor, body)) :
    parseInt text =
      if body.takeWhile isDigitUnit = [] ∨
          ∃ char ∈ (body.dropWhile isDigitUnit).dropWhile isWhite, char ≠ 0 then
        .error .format
      else if -(int32Max : ℤ) - 1 ≤ factor * digitsValue (body.takeWhile isDigitUnit) ∧
          factor * digitsValue (body.takeWhile isDigitUnit) ≤ int32Max then
        .ok (factor * digitsValue (body.takeWhile isDigitUnit))
      else .error .overflow := by
  simp only [parseInt, hsplit]
  refine if_congr ?_ rfl rfl
  simp

/-- What `int.Parse` accepts is a number as it is written. -/
theorem isIntText_of_parseInt {text : Text} {value : ℤ} (hvalue : parseInt text = .ok value) :
    IsIntText text := by
  obtain ⟨sign, hbody, hsign, hfactor⟩ := splitSign_spec (text.dropWhile isWhite)
  generalize hsplit : splitSign (text.dropWhile isWhite) = parts at hbody hfactor
  obtain ⟨factor, body⟩ := parts
  rw [parseInt_of_splitSign hsplit] at hvalue
  split_ifs at hvalue with hformat hrange
  rw [not_or] at hformat
  refine ⟨text.takeWhile isWhite, sign, body.takeWhile isDigitUnit,
    (body.dropWhile isDigitUnit).takeWhile isWhite,
    (body.dropWhile isDigitUnit).dropWhile isWhite, ?_, fun _ ↦ List.mem_takeWhile_imp, hsign,
    hformat.1, fun _ ↦ List.mem_takeWhile_imp, fun _ ↦ List.mem_takeWhile_imp, ?_, ?_⟩
  · rw [List.takeWhile_append_dropWhile, List.takeWhile_append_dropWhile, ← hbody,
      List.takeWhile_append_dropWhile]
  · intro char hchar
    by_contra hne
    exact hformat.2 ⟨char, hchar, hne⟩
  · simp only at hfactor
    rw [hfactor] at hrange
    split_ifs at hrange ⊢ <;> omega

/-- A number as it is written is accepted. -/
theorem exists_parseInt_of_isIntText {text : Text} (hnumber : IsIntText text) :
    ∃ value, parseInt text = .ok value := by
  obtain ⟨white, sign, digits, trail, nulls, rfl, hwhite, hsign, hne, hdigits, htrail, hnulls,
    hrange⟩ := hnumber
  obtain ⟨digit, rest, rfl⟩ := List.exists_cons_of_ne_nil hne
  have hdigit : isDigitUnit digit = true := hdigits digit (by simp)
  have hhead : ∀ char ∈ (sign ++ (digit :: rest ++ (trail ++ nulls))).head?,
      isWhite char = false := by
    rcases hsign with rfl | rfl | rfl
    · simpa using (not_isWhite_of_isDigitUnit hdigit).1
    · simp only [List.cons_append, List.head?_cons, Option.mem_def, Option.some.injEq,
        forall_eq']
      decide
    · simp only [List.cons_append, List.head?_cons, Option.mem_def, Option.some.injEq,
        forall_eq']
      decide
  have hafter : ∀ char ∈ (trail ++ nulls).head?, isDigitUnit char = false := by
    intro char hchar
    rcases List.mem_append.mp (List.mem_of_mem_head? hchar) with hmem | hmem
    · by_contra hother
      have hwhite := (not_isWhite_of_isDigitUnit (Bool.of_not_eq_false hother)).1
      rw [htrail char hmem] at hwhite
      cases hwhite
    · rw [hnulls char hmem]
      decide
  have hlast : ∀ char ∈ nulls.head?, isWhite char = false := by
    intro char hchar
    rw [hnulls char (List.mem_of_mem_head? hchar)]
    decide
  have hsplit : splitSign ((white ++ (sign ++ (digit :: rest ++ (trail ++ nulls)))).dropWhile
      isWhite) = (if sign = [unit '-'] then -1 else 1, digit :: rest ++ (trail ++ nulls)) := by
    rw [(span_append hwhite hhead).2]
    exact splitSign_append hsign hdigit
  rw [parseInt_of_splitSign hsplit, (span_append hdigits hafter).1,
    (span_append hdigits hafter).2, (span_append htrail hlast).2, if_neg, if_pos]
  · exact ⟨_, rfl⟩
  · split_ifs at hrange ⊢ <;> omega
  · rintro (hnil | ⟨char, hchar, hzero⟩)
    · cases hnil
    · exact hzero (hnulls char hchar)

/-- The texts `int.Parse` accepts. -/
theorem exists_parseInt_iff (text : Text) :
    (∃ value, parseInt text = .ok value) ↔ IsIntText text :=
  ⟨fun ⟨_, hvalue⟩ ↦ isIntText_of_parseInt hvalue, exists_parseInt_of_isIntText⟩

/-! ### Fields -/

/-- What follows so many colons. -/
def afterColons : ℕ → Text → Text
  | 0, text => text
  | _ + 1, [] => []
  | colons + 1, char :: rest =>
    if char = colon then afterColons colons rest else afterColons (colons + 1) rest

/-- The field between two colons, by the number of colons before it. -/
def fieldAt (colons : ℕ) (text : Text) : Text := (afterColons colons text).takeWhile (· ≠ colon)

@[simp] theorem afterColons_nil (colons : ℕ) : afterColons colons [] = [] := by
  cases colons <;> rfl

@[simp] theorem fieldAt_nil (colons : ℕ) : fieldAt colons [] = [] := by
  simp [fieldAt]

@[simp] theorem afterColons_zero (text : Text) : afterColons 0 text = text := by
  cases text <;> rfl

theorem fieldAt_zero_cons (char : UInt16) (rest : Text) :
    fieldAt 0 (char :: rest) = if char = colon then [] else char :: fieldAt 0 rest := by
  by_cases hchar : char = colon
  · simp [fieldAt, hchar]
  · simp [fieldAt, hchar]

theorem afterColons_succ_cons (colons : ℕ) (char : UInt16) (rest : Text) :
    afterColons (colons + 1) (char :: rest) =
      if char = colon then afterColons colons rest else afterColons (colons + 1) rest := rfl

theorem fieldAt_succ_cons (colons : ℕ) (char : UInt16) (rest : Text) :
    fieldAt (colons + 1) (char :: rest) =
      if char = colon then fieldAt colons rest else fieldAt (colons + 1) rest := by
  rw [fieldAt, afterColons_succ_cons]
  split_ifs <;> rfl

/-- The parser never counts past the text. -/
theorem parser_parseStep_le {fields : UpdateFields} (hparser : fields.parser ≤ TEXT)
    (char : UInt16) : (parseStep fields char).parser ≤ TEXT := by
  unfold parseStep
  split_ifs with haction hlength hoffset htext hcolon
  · exact hparser
  · exact hparser
  · exact hparser
  · exact hparser
  · exact hparser.lt_of_ne htext
  · exact hparser

/-- What the loop adds to the fields read so far, at every position before the text. -/
theorem foldl_parseStep_spec (text : Text) : ∀ fields : UpdateFields, fields.parser ≤ TEXT →
    (text.foldl parseStep fields).action =
        fields.action ++ (if fields.parser = 0 then fieldAt 0 text else []) ∧
      (text.foldl parseStep fields).strLength =
        fields.strLength ++ (if fields.parser ≤ 2 then fieldAt (2 - fields.parser) text else []) ∧
      (text.foldl parseStep fields).strOffset =
        fields.strOffset ++ (if fields.parser ≤ 4 then fieldAt (4 - fields.parser) text else []) ∧
      (text.foldl parseStep fields).text = fields.text ++ afterColons (6 - fields.parser) text := by
  induction text with
  | nil => simp
  | cons char rest ih =>
    intro fields hparser
    obtain ⟨haction, hlength, hoffset, htext⟩ :=
      ih (parseStep fields char) (parser_parseStep_le hparser char)
    rw [List.foldl_cons, haction, hlength, hoffset, htext]
    obtain ⟨action, strLength, strOffset, body, parser⟩ := fields
    have hbound : parser < 7 := Nat.lt_succ_of_le hparser
    by_cases hchar : char = colon
    · interval_cases parser <;>
        simp [parseStep, hchar, ACTION, LENGTH, OFFSET, TEXT, fieldAt_zero_cons,
          fieldAt_succ_cons, afterColons_succ_cons]
    · interval_cases parser <;>
        simp [parseStep, hchar, ACTION, LENGTH, OFFSET, TEXT, fieldAt_zero_cons,
          fieldAt_succ_cons, afterColons_succ_cons]

/-- The fields `textUpdater` reads from any message. -/
theorem parseFields_spec (update : Text) :
    (parseFields update).action = fieldAt 0 update ∧
      (parseFields update).strLength = fieldAt 2 update ∧
      (parseFields update).strOffset = fieldAt 4 update ∧
      (parseFields update).text = afterColons 6 update := by
  rw [parseFields]
  simpa using foldl_parseStep_spec update {} (Nat.zero_le _)

end NovaIde.Client
