import NovaIde.Client.UpdateReplay

/-!
# What an update does to any text

Peers edit at the same time, so an update can meet a text it was not made for. `Shown` is what such
an update leaves in the text box, the text and the caret, or nothing when an exception ends the
updater thread. The dispatcher actions are read as functions of the text, the caret and the numbers
of the update (`shown_applyAddition`, `shown_applyDeletion`, `shown_applyMultiple`), and everything
else is arithmetic.

The code tests the offset before it removes, but not the end of the range, it does not test the
offset before it inserts, and it subtracts the length of a removed range from a caret that may stand
inside. `passes_iff` is the exact condition under which a pass of `textUpdater` ends without an
exception.
-/

set_option autoImplicit false
set_option relaxedAutoImplicit false

namespace NovaIde.Client

open Foundation

/-! ### The text box -/

/-- A text and a caret in it, or nothing after an exception. -/
abbrev Shown := Option (Text × ℕ)

/-- What code of the updater leaves in the text box. -/
def shown : EStateM.Result Fault Ide Unit → Shown
  | .ok _ ide => some (ide.text, ide.caret)
  | .error _ _ => none

/-- The text box after an assignment of the caret. -/
def caretAt (text : Text) (position : ℤ) : Shown :=
  if position < 0 then none else some (text, min position.toNat text.length)

/-- The text after `String.Insert`, if the offset is in range. -/
def inserted (text : Text) (offset : ℕ) (added : Text) : Option Text :=
  if offset ≤ text.length then some (splice text offset 0 added) else none

/-- The text after a removal, if it is in range when it is tried. -/
def removed (text : Text) (offset count : ℕ) : Option Text :=
  if offset ≤ text.length ∧ text ≠ [] then
    if offset + count ≤ text.length then some (splice text offset count []) else none
  else some text

/-- The text box after an addition. -/
def additionShown (hosting : Bool) (text : Text) (caret length offset : ℕ) (added : Text) : Shown :=
  (inserted text offset added).bind fun text ↦
    (caretAt text
      (if offset > caret then caret
      else if offset = caret then caret + 1
      else wrapInt32 (caret + length))).map fun (text, caret) ↦
        (text, if added = [newline] ∧ hosting = false then min (caret + 1) text.length else caret)

/-- The text box after a deletion. -/
def deletionShown (text : Text) (caret offset count : ℕ) : Shown :=
  if text.length = 1 then some ([], 0)
  else
    (removed text offset count).bind fun text ↦
      caretAt text (if offset ≥ caret then caret else caret - count)

/-- The text after the first half of a replacement, if it ends without an exception. -/
def replacedRemoved (text : Text) (caret offset count : ℕ) : Option Text :=
  if text.length = 1 then some []
  else if offset < caret ∧ caret < count then none
  else removed text offset count

/-- The text box after a replacement. -/
def multipleShown (text : Text) (caret length offset : ℕ) (added : Text) : Shown :=
  (replacedRemoved text caret offset length).bind fun text ↦
    (inserted text offset added).bind fun text ↦
      caretAt text (if offset ≥ caret then caret else caret + added.length)

section Shown

variable {ide : Ide}

@[simp] theorem hosting_textBoxTextChanged (ide : Ide) (changes : List TextChange) :
    (ide.textBoxTextChanged changes).hosting = ide.hosting := by
  obtain ⟨_, _, _, hframe⟩ := textBoxTextChanged_frame ide changes
  rw [hframe]

@[simp] theorem hosting_assignText (ide : Ide) (text : Text) :
    (ide.assignText text).hosting = ide.hosting := by
  unfold Ide.assignText
  split_ifs
  · rfl
  · exact hosting_textBoxTextChanged _ _

/-- A new text puts the caret at its start. -/
theorem caret_assignText {text : Text} (htext : text ≠ ide.text) :
    (ide.assignText text).caret = 0 := by
  obtain ⟨_, _, _, hframe⟩ := textBoxTextChanged_frame { ide with text, caret := 0 }
    [⟨0, text.length, ide.text.length⟩]
  rw [Ide.assignText, if_neg htext, hframe]

/-- What an assignment of the caret leaves in the text box. -/
theorem shown_setCaretIndex (position : ℤ) :
    shown ((setCaretIndex position).run ide) = caretAt ide.text position := by
  rw [run_setCaretIndex, caretAt]
  split_ifs <;> rfl

/-- What code leaves in the text box when it goes on after another piece of code. -/
theorem shown_bind {α : Type} (first : UiAction α) (next : α → UiAction Unit) :
    shown ((first >>= next).run ide) =
      match first.run ide with
      | .ok value ide => shown ((next value).run ide)
      | .error _ _ => none := by
  rw [EStateM.run_bind]
  cases first.run ide <;> rfl

/-- `String.Insert` at an offset that is not negative. -/
theorem run_stringInsert_eq (text : Text) (offset : ℕ) (added : Text) :
    (stringInsert text offset added).run ide =
      match inserted text offset added with
      | some text => .ok text ide
      | none => .error .insertRange ide := by
  have hrange : ((0 : ℤ) ≤ offset ∧ (offset : ℤ) ≤ text.length) ↔ offset ≤ text.length := by
    omega
  rw [run_stringInsert, inserted, Int.toNat_natCast]
  simp only [hrange]
  split_ifs <;> rfl

/-- The caret of an addition is set to a position that does not depend on the text box. -/
theorem run_moveCaretPastAddition {length offset prev : ℕ} (hprev : prev < int32Max)
    (added : Text) :
    (moveCaretPastAddition ⟨ADDITION_IDENTIFIER, length, offset, added, prev, 0⟩).run ide =
      (setCaretIndex (if offset > prev then prev
        else if offset = prev then prev + 1
        else wrapInt32 (prev + length))).run ide := by
  have hnext : wrapInt32 ((prev : ℤ) + 1) = prev + 1 := wrapInt32_of_range (by omega) (by omega)
  simp only [moveCaretPastAddition, gt_iff_lt, Int.ofNat_lt, Int.natCast_inj, hnext]
  split_ifs <;> rfl

/-- The second move of the caret after an addition, which only a member makes. -/
theorem shown_second_move (added : Text) :
    shown ((if added = [newline] then do
        if !(← get).hosting then setCaretIndex ((← get).caret + 1)
      else pure () : UiAction Unit).run ide) =
      some (ide.text, if added = [newline] ∧ ide.hosting = false
        then min (ide.caret + 1) ide.text.length else ide.caret) := by
  by_cases hnewline : added = [newline]
  · rw [if_pos hnewline, EStateM.run_bind, EStateM.run_get]
    cases hhosting : ide.hosting with
    | true =>
      simp only [hhosting, Bool.not_true, Bool.false_eq_true, Bool.true_eq_false, and_false,
        if_false]
      rfl
    | false =>
      have hnext : ¬ (ide.caret : ℤ) + 1 < 0 := by omega
      simp only [hhosting, hnewline, Bool.not_false, if_true, shown_bind, EStateM.run_get,
        shown_setCaretIndex, caretAt, if_neg hnext, and_self]
      rfl
  · rw [if_neg hnewline, if_neg fun h ↦ hnewline h.1]
    rfl

/-- The dispatcher action of an addition. -/
theorem shown_applyAddition {length offset prev : ℕ} (hprev : prev < int32Max) (added : Text) :
    shown ((applyAddition ⟨ADDITION_IDENTIFIER, length, offset, added, prev, 0⟩).run ide) =
      additionShown ide.hosting ide.text prev length offset added := by
  simp only [applyAddition, EStateM.run_bind, EStateM.run_get, run_stringInsert_eq, additionShown]
  cases inserted ide.text offset added with
  | none => rfl
  | some text =>
    simp only [run_setText, run_moveCaretPastAddition hprev, run_setCaretIndex, Option.bind_some,
      caretAt]
    generalize (if offset > prev then (prev : ℤ) else if offset = prev then prev + 1
      else wrapInt32 (prev + length)) = position
    by_cases hnegative : position < 0
    · rw [if_pos hnegative, if_pos hnegative]
      rfl
    · rw [if_neg hnegative, if_neg hnegative]
      refine (shown_second_move added).trans ?_
      simp only [Ide.placeCaret, text_assignText, hosting_assignText, Option.map_some]

/-- The removal in a deletion and in a replacement. -/
theorem run_removeInRange_eq (offset count : ℕ) :
    (removeInRange offset count).run ide =
      match removed ide.text offset count with
      | some text => .ok () (ide.assignText text)
      | none => .error .removeRange ide := by
  have hremove : ((0 : ℤ) ≤ offset ∧ (0 : ℤ) ≤ count ∧ (offset : ℤ) + count ≤ ide.text.length) ↔
      offset + count ≤ ide.text.length := by
    omega
  have hkept : ide.assignText ide.text = ide := if_pos rfl
  have htry : (stringRemove ide.text offset count >>= setText).run ide =
      match (if offset + count ≤ ide.text.length then some (splice ide.text offset count [])
        else none) with
      | some text => .ok () (ide.assignText text)
      | none => .error .removeRange ide := by
    simp only [EStateM.run_bind, run_stringRemove, hremove, Int.toNat_natCast]
    split_ifs <;> rfl
  simp only [removeInRange, removed, EStateM.run_bind, EStateM.run_get, Int.ofNat_lt,
    Int.natCast_inj]
  by_cases hinside : offset < ide.text.length
  · have hne : ide.text ≠ [] := List.ne_nil_of_length_pos (by omega)
    rw [if_pos hinside, if_pos ⟨hinside.le, hne⟩]
    exact htry
  · rw [if_neg hinside]
    by_cases hend : offset = ide.text.length ∧ ide.text.length ≠ 0
    · have hne : ide.text ≠ [] := List.ne_nil_of_length_pos (Nat.pos_of_ne_zero hend.2)
      rw [if_pos hend, if_pos ⟨hend.1.le, hne⟩]
      exact htry
    · have houtside : ¬ (offset ≤ ide.text.length ∧ ide.text ≠ []) := by
        rintro ⟨hle, hne⟩
        have hpositive := List.length_pos_of_ne_nil hne
        exact hend ⟨by omega, hpositive.ne'⟩
      rw [if_neg hend, if_neg houtside]
      exact congrArg (EStateM.Result.ok ()) hkept.symm

/-- Clearing a text of length one. -/
theorem assignText_nil (hone : ide.text.length = 1) :
    (ide.assignText []).text = [] ∧ (ide.assignText []).caret = 0 := by
  refine ⟨text_assignText _ _, caret_assignText fun hempty ↦ ?_⟩
  simp [← hempty] at hone

/-- The dispatcher action of a deletion. -/
theorem shown_applyDeletion {length offset count prev : ℕ} (hprev : prev ≤ int32Max)
    (hcount : count ≤ int32Max) (digits : Text) :
    shown ((applyDeletion ⟨DELETION_IDENTIFIER, length, offset, digits, prev, count⟩).run ide) =
      deletionShown ide.text prev offset count := by
  have hmove : wrapInt32 ((prev : ℤ) - count) = prev - count :=
    wrapInt32_of_range (by omega) (by omega)
  simp only [applyDeletion, deletionShown, shown_bind, EStateM.run_get]
  by_cases hone : ide.text.length = 1
  · rw [if_pos hone, if_pos hone, run_setText, shown, (assignText_nil hone).1,
      (assignText_nil hone).2]
  · rw [if_neg hone, if_neg hone, shown_bind, run_removeInRange_eq]
    cases hremoved : removed ide.text offset count with
    | none => rfl
    | some text =>
      simp only [ge_iff_le, Int.ofNat_le, hmove, Option.bind_some]
      split_ifs <;> simp only [shown_setCaretIndex, text_assignText]

/-- The text after the first half of a replacement. -/
theorem shown_removeReplaced {length offset prev : ℕ} (hprev : prev ≤ int32Max)
    (hlength : length ≤ int32Max) (added : Text) :
    (shown ((removeReplaced
        ⟨MULTIPLE_ACTION_IDENTIFIER, length, offset, added, prev, 0⟩).run ide)).map Prod.fst =
      replacedRemoved ide.text prev offset length := by
  have hmove : wrapInt32 ((prev : ℤ) - length) = prev - length :=
    wrapInt32_of_range (by omega) (by omega)
  simp only [removeReplaced, replacedRemoved, shown_bind, EStateM.run_get]
  by_cases hone : ide.text.length = 1
  · rw [if_pos hone, if_pos hone, run_setText, shown, (assignText_nil hone).1]
    rfl
  · rw [if_neg hone, if_neg hone, shown_bind, run_removeInRange_eq]
    cases hremoved : removed ide.text offset length with
    | none => exact (ite_self none).symm
    | some text =>
      simp only [Int.ofNat_lt, hmove]
      by_cases hbefore : offset < prev
      · have hnegative : (prev : ℤ) - length < 0 ↔ prev < length := by omega
        rw [if_pos hbefore, shown_setCaretIndex, text_assignText, caretAt]
        simp only [hnegative, hbefore, true_and]
        split_ifs <;> rfl
      · rw [if_neg hbefore, if_neg fun h ↦ hbefore h.1]
        exact congrArg some (text_assignText ide text)

/-- The second half of a replacement. -/
theorem shown_insertReplacement {length offset prev : ℕ} {added : Text}
    (hprev : prev + added.length ≤ int32Max) :
    shown ((insertReplacement
        ⟨MULTIPLE_ACTION_IDENTIFIER, length, offset, added, prev, 0⟩).run ide) =
      (inserted ide.text offset added).bind fun text ↦
        caretAt text (if offset ≥ prev then prev else prev + added.length) := by
  have hmove : wrapInt32 ((prev : ℤ) + added.length) = prev + added.length :=
    wrapInt32_of_range (by omega) (by omega)
  simp only [insertReplacement, EStateM.run_bind, EStateM.run_get, run_stringInsert_eq]
  cases inserted ide.text offset added with
  | none => rfl
  | some text =>
    simp only [run_setText, ge_iff_le, Int.ofNat_le, hmove, Option.bind_some]
    split_ifs <;> simp only [shown_setCaretIndex, text_assignText]

/-- The dispatcher action of a replacement. -/
theorem shown_applyMultiple {length offset prev : ℕ} {added : Text}
    (hlength : length ≤ int32Max) (hprev : prev + added.length ≤ int32Max) :
    shown ((applyMultiple
        ⟨MULTIPLE_ACTION_IDENTIFIER, length, offset, added, prev, 0⟩).run ide) =
      multipleShown ide.text prev length offset added := by
  have hfirst := @shown_removeReplaced { ide with tokens := ide.tokens + 2 } length offset prev
    (by omega) hlength added
  simp only [applyMultiple, shown_bind, run_addTokens, multipleShown]
  simp only at hfirst
  rw [← hfirst]
  cases (removeReplaced ⟨MULTIPLE_ACTION_IDENTIFIER, length, offset, added, prev, 0⟩).run
      { ide with tokens := ide.tokens + 2 } with
  | ok value after => exact shown_insertReplacement hprev
  | error fault after => rfl

end Shown

/-! ### Well-formed updates -/

/-- A well-formed update: an action, two numbers that are not negative, and a text, which for a
deletion is a number that is not negative. -/
inductive RemoteUpdate
  | addition (length offset : ℕ) (text : Text)
  | deletion (length offset : ℕ) (digits : Text)
  | replacement (length offset : ℕ) (text : Text)
deriving DecidableEq, Repr

namespace RemoteUpdate

/-- The message of an update. -/
def message : RemoteUpdate → Text
  | .addition length offset text => updateMessage ADDITION_IDENTIFIER length offset text
  | .deletion length offset digits => updateMessage DELETION_IDENTIFIER length offset digits
  | .replacement length offset text => updateMessage MULTIPLE_ACTION_IDENTIFIER length offset text

/-- The text of an update: a number for a deletion, and else a string the runtime can hold. -/
def WellFormed : RemoteUpdate → Prop
  | .addition _ _ text | .replacement _ _ text => text.length ≤ maxLength
  | .deletion _ _ digits => digits ≠ [] ∧ ∀ char ∈ digits, isDigitUnit char = true

instance : DecidablePred WellFormed
  | .addition _ _ text | .replacement _ _ text =>
    inferInstanceAs (Decidable (text.length ≤ maxLength))
  | .deletion _ _ digits =>
    decidable_of_iff (digits ≠ [] ∧ digits.all isDigitUnit = true)
      (by rw [WellFormed, List.all_eq_true])

/-- The text box after one pass of `textUpdater` over an update. -/
def shownIn (hosting : Bool) (text : Text) (caret : ℕ) : RemoteUpdate → Shown
  | .addition length offset added =>
    if length ≤ int32Max ∧ offset ≤ int32Max then
      additionShown hosting text caret length offset added
    else none
  | .deletion length offset digits =>
    if length ≤ int32Max ∧ offset ≤ int32Max ∧ digitsValue digits ≤ int32Max then
      deletionShown text caret offset (digitsValue digits)
    else none
  | .replacement length offset added =>
    if length ≤ int32Max ∧ offset ≤ int32Max then multipleShown text caret length offset added
    else none

end RemoteUpdate

section Pass

variable {ide : Ide}

/-- Reading a printed number on the updater thread. -/
theorem run_parse_digits {digits : Text} (hne : digits ≠ [])
    (hdigits : ∀ char ∈ digits, isDigitUnit char = true) :
    (parse digits).run ide =
      if digitsValue digits ≤ int32Max then .ok (digitsValue digits : ℤ) ide
      else .error .overflow ide := by
  rw [run_parse, parseInt_digits hne hdigits]
  split_ifs <;> rfl

theorem run_parse_decimal (number : ℕ) :
    (parse (decimal number)).run ide =
      if number ≤ int32Max then .ok (number : ℤ) ide else .error .overflow ide := by
  rw [run_parse_digits (decimal_digits number).1 (decimal_digits number).2, digitsValue_decimal]

/-- An update whose length or offset is no `int` is not read. -/
theorem run_receiveUpdate_of_overflow {action : Text} (haction : colon ∉ action)
    {length offset : ℕ} (hnumbers : ¬ (length ≤ int32Max ∧ offset ≤ int32Max)) (text : Text)
    (prev : ℕ) :
    (receiveUpdate (updateMessage action length offset text) prev).run ide =
      .error .overflow ide := by
  simp only [receiveUpdate, parseFields_updateMessage haction, EStateM.run_bind, run_parse_decimal]
  by_cases hlength : length ≤ int32Max
  · have hoffset : ¬ offset ≤ int32Max := fun hoffset ↦ hnumbers ⟨hlength, hoffset⟩
    simp only [if_pos hlength, if_neg hoffset]
  · simp only [if_neg hlength]

/-- A deletion is read when its number is an `int`, too. -/
theorem run_receiveUpdate_digits {length offset : ℕ} (hlength : length ≤ int32Max)
    (hoffset : offset ≤ int32Max) {digits : Text} (hne : digits ≠ [])
    (hdigits : ∀ char ∈ digits, isDigitUnit char = true) (prev : ℕ) :
    (receiveUpdate (updateMessage DELETION_IDENTIFIER length offset digits) prev).run ide =
      if digitsValue digits ≤ int32Max then
        .ok ⟨DELETION_IDENTIFIER, length, offset, digits, prev, digitsValue digits⟩
          { ide with tokens := ide.tokens + 1 }
      else .error .overflow ide := by
  have haction : colon ∉ DELETION_IDENTIFIER := by decide
  have hother : DELETION_IDENTIFIER ≠ ADDITION_IDENTIFIER := by decide
  simp only [receiveUpdate, parseFields_updateMessage haction, EStateM.run_bind, run_parse_decimal,
    if_pos hlength, if_pos hoffset, if_neg hother, if_true, run_parse_digits hne hdigits]
  split_ifs <;> rfl

/-- A pass reads its update with the caret of the editor and calls the dispatcher. -/
theorem shown_pass {update : Text} (hne : update ≠ []) :
    shown ((textUpdaterPass update).run ide) =
      match (receiveUpdate update ide.caret).run ide with
      | .ok pending ide => shown ((dispatchUpdate pending).run ide)
      | .error _ _ => none := by
  simp only [textUpdaterPass, ne_eq, hne, not_false_eq_true, if_true, shown_bind, EStateM.run_get]
  cases (receiveUpdate update ide.caret).run ide <;> rfl

/-- One pass of `textUpdater` over a well-formed update. -/
theorem shown_textUpdaterPass (hcaret : ide.caret ≤ ide.text.length)
    (hmax : ide.text.length ≤ maxLength) {update : RemoteUpdate} (hupdate : update.WellFormed) :
    shown ((textUpdaterPass update.message).run ide) =
      update.shownIn ide.hosting ide.text ide.caret := by
  have hbounds : 2 * maxLength < int32Max := by decide
  have hne : ∀ (action : Text) (length offset : ℕ) (text : Text),
      updateMessage action length offset text ≠ [] := by
    simp [updateMessage, str]
  cases update with
  | addition length offset added =>
    rw [RemoteUpdate.message, shown_pass (hne _ _ _ _), RemoteUpdate.shownIn]
    by_cases hnumbers : length ≤ int32Max ∧ offset ≤ int32Max
    · rw [if_pos hnumbers, run_receiveUpdate_addition hnumbers.1 hnumbers.2]
      exact shown_applyAddition (by omega) added
    · rw [if_neg hnumbers, run_receiveUpdate_of_overflow (by decide) hnumbers]
  | deletion length offset digits =>
    rw [RemoteUpdate.message, shown_pass (hne _ _ _ _), RemoteUpdate.shownIn]
    by_cases hnumbers : length ≤ int32Max ∧ offset ≤ int32Max
    · rw [run_receiveUpdate_digits hnumbers.1 hnumbers.2 hupdate.1 hupdate.2]
      by_cases hcount : digitsValue digits ≤ int32Max
      · rw [if_pos hcount, if_pos ⟨hnumbers.1, hnumbers.2, hcount⟩]
        exact shown_applyDeletion (by omega) hcount digits
      · rw [if_neg hcount, if_neg fun h ↦ hcount h.2.2]
    · rw [run_receiveUpdate_of_overflow (by decide) hnumbers,
        if_neg fun h ↦ hnumbers ⟨h.1, h.2.1⟩]
  | replacement length offset added =>
    have hadded : added.length ≤ maxLength := hupdate
    rw [RemoteUpdate.message, shown_pass (hne _ _ _ _), RemoteUpdate.shownIn]
    by_cases hnumbers : length ≤ int32Max ∧ offset ≤ int32Max
    · rw [if_pos hnumbers, run_receiveUpdate_multiple hnumbers.1 hnumbers.2]
      exact shown_applyMultiple hnumbers.1 (by omega)
    · rw [if_neg hnumbers, run_receiveUpdate_of_overflow (by decide) hnumbers]

end Pass

/-! ### Updates that are in range -/

/-- The updates that a text and a caret in it are ready for: their numbers are of type `int`, and
- an addition starts in the text and does not move the caret past `int.MaxValue`;
- a deletion, in a text of more than one character, ends in the text unless it starts behind it, and
  is not longer than the text before a caret behind its start;
- a replacement starts at the start of a text of at most one character; in a longer one it ends in
  the text and is not longer than the text before a caret behind its start. -/
def RemoteUpdate.InRange (text : Text) (caret : ℕ) : RemoteUpdate → Prop
  | .addition length offset _ =>
    length ≤ int32Max ∧ offset ≤ text.length ∧ (offset < caret → caret + length ≤ int32Max)
  | .deletion length offset digits =>
    length ≤ int32Max ∧ offset ≤ int32Max ∧ digitsValue digits ≤ int32Max ∧
      (1 < text.length →
        (offset ≤ text.length → offset + digitsValue digits ≤ text.length) ∧
          (offset < caret → digitsValue digits ≤ caret))
  | .replacement length offset _ =>
    length ≤ int32Max ∧
      if text.length ≤ 1 then offset = 0
      else offset + length ≤ text.length ∧ (offset < caret → length ≤ caret)

section InRange

variable {text : Text} {caret length offset count : ℕ}

theorem isSome_caretAt {position : ℤ} : (caretAt text position).isSome = true ↔ 0 ≤ position := by
  unfold caretAt
  split_ifs <;> simp <;> omega

/-- The caret of an addition is moved by 32-bit arithmetic. -/
theorem wrapInt32_add_nonneg (hcaret : caret ≤ int32Max) (hlength : length ≤ int32Max) :
    0 ≤ wrapInt32 ((caret : ℤ) + length) ↔ caret + length ≤ int32Max := by
  unfold int32Max at *
  have hmodulus : ((2 ^ 32 : ℕ) : ℤ) = 4294967296 := rfl
  rw [wrapInt32, Int.bmod_def, hmodulus]
  split_ifs <;> omega

theorem isSome_additionShown (hcaret : caret < int32Max) (hlength : length ≤ int32Max)
    (hosting : Bool) (added : Text) :
    (additionShown hosting text caret length offset added).isSome = true ↔
      offset ≤ text.length ∧ (offset < caret → caret + length ≤ int32Max) := by
  rw [additionShown, inserted]
  by_cases hoffset : offset ≤ text.length
  · rw [if_pos hoffset, Option.bind_some, Option.isSome_map, isSome_caretAt]
    by_cases hbehind : offset < caret
    · rw [if_neg (by omega), if_neg (by omega), wrapInt32_add_nonneg hcaret.le hlength]
      simp [hoffset, hbehind]
    · refine iff_of_true ?_ ⟨hoffset, fun h ↦ absurd h hbehind⟩
      split_ifs <;> omega
  · simp [hoffset]

theorem isSome_removed : (removed text offset count).isSome = true ↔
    (text ≠ [] → offset ≤ text.length → offset + count ≤ text.length) := by
  unfold removed
  split_ifs with htried hinside
  · simp [hinside]
  · simpa [htried.1, htried.2] using hinside
  · simp only [Option.isSome_some, true_iff]
    exact fun hne hle ↦ absurd ⟨hle, hne⟩ htried

/-- The caret is set whatever the text is. -/
theorem isSome_bind_caretAt (first : Option Text) (position : ℤ) :
    (first.bind fun text ↦ caretAt text position).isSome = true ↔
      first.isSome = true ∧ 0 ≤ position := by
  cases first <;> simp [isSome_caretAt]

theorem isSome_deletionShown (hcaret : caret ≤ text.length) :
    (deletionShown text caret offset count).isSome = true ↔
      (1 < text.length → (offset ≤ text.length → offset + count ≤ text.length) ∧
        (offset < caret → count ≤ caret)) := by
  have hempty : text ≠ [] ↔ text.length ≠ 0 := List.length_eq_zero_iff.not.symm
  rw [deletionShown]
  by_cases hone : text.length = 1
  · simp [hone]
  · rw [if_neg hone, isSome_bind_caretAt, isSome_removed, hempty]
    split_ifs with hbehind
    · omega
    · omega

/-- The second half of a replacement only needs its offset in range. -/
theorem isSome_replaced (added : Text) :
    ((inserted text offset added).bind fun text ↦
      caretAt text (if offset ≥ caret then caret else caret + added.length)).isSome = true ↔
        offset ≤ text.length := by
  have hposition : (0 : ℤ) ≤ if offset ≥ caret then (caret : ℤ) else caret + added.length := by
    split_ifs <;> omega
  rw [isSome_bind_caretAt, and_iff_left hposition, inserted]
  split_ifs with hoffset <;> simp [hoffset]

/-- In a text of more than one character a replacement removes its range, and what is left has room
for the second half. -/
theorem isSome_multipleShown_of_long (hlong : 1 < text.length) (added : Text) :
    (multipleShown text caret length offset added).isSome = true ↔
      offset + length ≤ text.length ∧ (offset < caret → length ≤ caret) := by
  have hone : text.length ≠ 1 := hlong.ne'
  have hne : text ≠ [] := List.ne_nil_of_length_pos (by omega)
  rw [multipleShown, replacedRemoved, if_neg hone]
  by_cases hinside : offset < caret ∧ caret < length
  · rw [if_pos hinside]
    exact iff_of_false (by simp) fun h ↦ absurd (h.2 hinside.1) (by omega)
  · have hfits : offset < caret → length ≤ caret := fun hbefore ↦
      Nat.le_of_not_lt fun hshort ↦ hinside ⟨hbefore, hshort⟩
    rw [if_neg hinside, removed]
    by_cases htried : offset ≤ text.length
    · rw [if_pos ⟨htried, hne⟩]
      by_cases hrange : offset + length ≤ text.length
      · have hlength : (splice text offset length []).length + length =
            text.length + ([] : Text).length := length_splice hrange
        rw [List.length_nil] at hlength
        rw [if_pos hrange, Option.bind_some, isSome_replaced]
        exact iff_of_true (by omega) ⟨hrange, hfits⟩
      · rw [if_neg hrange]
        exact iff_of_false (by simp) fun h ↦ hrange h.1
    · rw [if_neg fun h ↦ htried h.1, Option.bind_some, isSome_replaced]
      exact iff_of_false htried fun h ↦ htried (by omega)

theorem isSome_multipleShown (hcaret : caret ≤ text.length) (added : Text) :
    (multipleShown text caret length offset added).isSome = true ↔
      if text.length ≤ 1 then offset = 0
      else offset + length ≤ text.length ∧ (offset < caret → length ≤ caret) := by
  split_ifs with hshort
  · by_cases hone : text.length = 1
    · rw [multipleShown, replacedRemoved, if_pos hone, Option.bind_some, isSome_replaced,
        List.length_nil, Nat.le_zero]
    · have hempty : text = [] := List.length_eq_zero_iff.mp (by omega)
      subst hempty
      rw [List.length_nil] at hcaret
      rw [multipleShown, replacedRemoved, if_neg (by simp), if_neg (by omega), removed,
        if_neg (by simp), Option.bind_some, isSome_replaced, List.length_nil, Nat.le_zero]
  · exact isSome_multipleShown_of_long (by omega) added

end InRange

section Passes

variable {ide : Ide}

/-- A pass ends without an exception when it leaves something in the text box. -/
theorem isSome_shown (result : EStateM.Result Fault Ide Unit) :
    (shown result).isSome = true ↔ ∃ after, result = .ok () after := by
  cases result <;> simp [shown]

/-- Assumes: a caret in the text, strings the runtime can hold, and a well-formed update. One pass
of `textUpdater` over the update ends without an exception exactly when the update is in range. -/
theorem passes_iff (hcaret : ide.caret ≤ ide.text.length) (hmax : ide.text.length ≤ maxLength)
    {update : RemoteUpdate} (hupdate : update.WellFormed) :
    (∃ after, (textUpdaterPass update.message).run ide = .ok () after) ↔
      update.InRange ide.text ide.caret := by
  have hbounds : maxLength < int32Max := by decide
  rw [← isSome_shown, shown_textUpdaterPass hcaret hmax hupdate]
  cases update with
  | addition length offset added =>
    rw [RemoteUpdate.shownIn, RemoteUpdate.InRange]
    split_ifs with hnumbers
    · rw [isSome_additionShown (by omega) hnumbers.1]
      exact (and_iff_right hnumbers.1).symm
    · refine iff_of_false (by simp) fun h ↦ hnumbers ⟨h.1, by omega⟩
  | deletion length offset digits =>
    rw [RemoteUpdate.shownIn, RemoteUpdate.InRange]
    split_ifs with hnumbers
    · rw [isSome_deletionShown hcaret]
      tauto
    · exact iff_of_false (by simp) fun h ↦ hnumbers ⟨h.1, h.2.1, h.2.2.1⟩
  | replacement length offset added =>
    rw [RemoteUpdate.shownIn, RemoteUpdate.InRange]
    by_cases hnumbers : length ≤ int32Max ∧ offset ≤ int32Max
    · rw [if_pos hnumbers, isSome_multipleShown hcaret]
      exact (and_iff_right hnumbers.1).symm
    · rw [if_neg hnumbers]
      refine iff_of_false (by simp) fun ⟨hlength, hrange⟩ ↦ hnumbers ⟨hlength, ?_⟩
      split_ifs at hrange <;> omega

/-- The last characters of a text are deleted while the caret stands at its end. -/
theorem passes_iff_tail :
    (∃ after, (textUpdaterPass (RemoteUpdate.deletion 0 1 (str "2")).message).run
        { text := str "abc", caret := 3 } = .ok () after) ↔
      (RemoteUpdate.deletion 0 1 (str "2")).InRange (str "abc") 3 :=
  passes_iff (by decide) (by decide) (by decide)

/-- An insertion that was made behind text the receiver does not have. -/
theorem not_passes :
    ¬ ∀ (ide : Ide) (update : RemoteUpdate), ide.caret ≤ ide.text.length →
      ide.text.length ≤ maxLength → update.WellFormed →
        ∃ after, (textUpdaterPass update.message).run ide = .ok () after := by
  intro hall
  have hpasses := hall {} (.addition 1 1 (str "x")) (by decide) (by decide) (by decide)
  rw [← isSome_shown, shown_textUpdaterPass (by decide) (by decide) (by decide)] at hpasses
  revert hpasses
  decide

end Passes

end NovaIde.Client
