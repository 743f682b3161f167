import NovaIde.Client.Editor

/-!
# Replaying an announced edit

Each message stands for the edit it announces (`Announcement`), and one pass of `textUpdater`
performs exactly that edit, unless the caret gets in the way: a caret inside the removed range,
closer to the start of the text than the range is long, is moved to a negative position, and the
assignment throws (`run_textUpdaterPass`). No insertion or removal is ever out of range.
-/

set_option autoImplicit false
set_option relaxedAutoImplicit false

namespace NovaIde.Client

open Foundation

/-! ### Receiving an announced edit -/

/-- The messages that announce an edit. The Enter key announces an insertion with length zero. -/
inductive Announcement (edit : Edit) : Text → Prop
  | insertion {length : ℕ} (hlength : length ≤ edit.added.length) (hremoved : edit.removed = 0)
      (hadded : edit.added ≠ []) :
      Announcement edit (updateMessage ADDITION_IDENTIFIER length edit.offset edit.added)
  | replacement (hremoved : 0 < edit.removed) (hadded : edit.added ≠ []) :
      Announcement edit
        (updateMessage MULTIPLE_ACTION_IDENTIFIER edit.removed edit.offset edit.added)
  | deletion (hremoved : 0 < edit.removed) (hadded : edit.added = []) :
      Announcement edit
        (updateMessage DELETION_IDENTIFIER 0 edit.offset (decimal edit.removed))

section Receive

variable {ide : Ide} {length offset count : ℕ}

theorem run_receiveUpdate_addition (hlength : length ≤ int32Max) (hoffset : offset ≤ int32Max)
    (text : Text) (prevCursosrPosition : ℕ) :
    (receiveUpdate (updateMessage ADDITION_IDENTIFIER length offset text) prevCursosrPosition).run
        ide =
      .ok ⟨ADDITION_IDENTIFIER, length, offset, text, prevCursosrPosition, 0⟩
        { ide with tokens := ide.tokens + 1 } := by
  have haction : colon ∉ ADDITION_IDENTIFIER := by decide
  simp [receiveUpdate, parseFields_updateMessage haction, run_parse, parseInt_decimal hlength,
    parseInt_decimal hoffset, -bind_pure_comp]

theorem run_receiveUpdate_deletion (hoffset : offset ≤ int32Max) (hcount : count ≤ int32Max)
    (prevCursosrPosition : ℕ) :
    (receiveUpdate (updateMessage DELETION_IDENTIFIER 0 offset (decimal count))
        prevCursosrPosition).run ide =
      .ok ⟨DELETION_IDENTIFIER, 0, offset, decimal count, prevCursosrPosition, count⟩
        { ide with tokens := ide.tokens + 1 } := by
  have haction : colon ∉ DELETION_IDENTIFIER := by decide
  have hother : DELETION_IDENTIFIER ≠ ADDITION_IDENTIFIER := by decide
  simp [receiveUpdate, parseFields_updateMessage haction, run_parse, parseInt_decimal hoffset,
    parseInt_decimal hcount, parseInt_decimal (Nat.zero_le int32Max), hother, -bind_pure_comp]

theorem run_receiveUpdate_multiple (hlength : length ≤ int32Max) (hoffset : offset ≤ int32Max)
    (text : Text) (prevCursosrPosition : ℕ) :
    (receiveUpdate (updateMessage MULTIPLE_ACTION_IDENTIFIER length offset text)
        prevCursosrPosition).run ide =
      .ok ⟨MULTIPLE_ACTION_IDENTIFIER, length, offset, text, prevCursosrPosition, 0⟩ ide := by
  have haction : colon ∉ MULTIPLE_ACTION_IDENTIFIER := by decide
  have hother : MULTIPLE_ACTION_IDENTIFIER ≠ ADDITION_IDENTIFIER ∧
      MULTIPLE_ACTION_IDENTIFIER ≠ DELETION_IDENTIFIER := by decide
  simp [receiveUpdate, parseFields_updateMessage haction, run_parse, parseInt_decimal hlength,
    parseInt_decimal hoffset, hother, -bind_pure_comp]

end Receive

/-! ### Applying an announced edit -/

section Apply

variable {ide : Ide} {length offset count prev : ℕ} {text : Text}

/-- An addition within the text inserts it, takes one token and moves the caret. -/
theorem run_applyAddition (htokens : ide.tokens ≠ 0) (hoffset : offset ≤ ide.text.length)
    (htext : text ≠ []) (hprev : prev < int32Max) (hlength : prev + length ≤ int32Max) :
    ∃ position,
      (applyAddition ⟨ADDITION_IDENTIFIER, length, offset, text, prev, 0⟩).run ide =
        .ok () ({ ide with
          text := splice ide.text offset 0 text
          tokens := ide.tokens - 1 }.placeCaret position) := by
  have hrange : (0 : ℤ) ≤ offset ∧ (offset : ℤ) ≤ ide.text.length := by omega
  have hne : splice ide.text offset 0 text ≠ ide.text := splice_insert_ne.mpr htext
  have hset := assignText_of_not_announces (not_announces_of_tokens htokens) hne
  have hmove : ∀ ide : Ide, ∃ position,
      (moveCaretPastAddition ⟨ADDITION_IDENTIFIER, length, offset, text, prev, 0⟩).run ide =
        .ok () (ide.placeCaret position) := by
    intro ide
    simp only [moveCaretPastAddition]
    split_ifs
    · exact ⟨_, by rw [run_setCaretIndex, if_neg (by simp)]⟩
    · exact ⟨_, run_setCaretIndex_wrap (by omega) (by omega)⟩
    · exact ⟨_, run_setCaretIndex_wrap (by omega) (by omega)⟩
  obtain ⟨position, hposition⟩ := hmove
    { ide with text := splice ide.text offset 0 text, caret := 0, tokens := ide.tokens - 1 }
  simp only [applyAddition, EStateM.run_bind, EStateM.run_get, run_stringInsert, if_pos hrange,
    Int.toNat_natCast, run_setText, hset, hposition]
  by_cases hnewline : text = [newline]
  · simp only [if_pos hnewline, EStateM.run_bind, EStateM.run_get]
    split_ifs
    · refine ⟨min position (splice ide.text offset 0 text).length + 1, ?_⟩
      simp only [EStateM.run_bind, EStateM.run_get]
      rw [run_setCaretIndex, if_neg (by omega)]
      rfl
    · exact ⟨position, rfl⟩
  · rw [if_neg hnewline]
    exact ⟨position, rfl⟩

/-- A removal within the text removes the range and takes one token. -/
theorem run_removeInRange (htokens : ide.tokens ≠ 0) (hcount : 0 < count)
    (hrange : offset + count ≤ ide.text.length) :
    (removeInRange offset count).run ide =
      .ok () { ide with
        text := splice ide.text offset count [], caret := 0, tokens := ide.tokens - 1 } := by
  have hinside : (offset : ℤ) < ide.text.length := by omega
  have hremove : (0 : ℤ) ≤ offset ∧ (0 : ℤ) ≤ count ∧ (offset : ℤ) + count ≤ ide.text.length := by
    omega
  have hset := assignText_of_not_announces (not_announces_of_tokens htokens)
    ((splice_remove_ne hrange).mpr hcount.ne')
  simp only [removeInRange, EStateM.run_bind, EStateM.run_get, if_pos hinside, run_stringRemove,
    if_pos hremove, Int.toNat_natCast, run_setText, hset]

/-- Whether a caret survives the removal of a range: the text has length one, so that the caret is
not moved, or the caret stands before the range, or far enough behind the start of the text. -/
def CaretFits (text : Text) (caret offset removed : ℕ) : Prop :=
  text.length = 1 ∨ caret ≤ offset ∨ removed ≤ caret

/-- Moving the caret behind a removed range: it is set, or the assignment throws because the range
is longer than the text before the caret. -/
theorem run_setCaretIndex_sub (hprev : prev ≤ int32Max) (hcount : count ≤ int32Max) (ide : Ide) :
    (setCaretIndex (wrapInt32 (prev - count))).run ide =
      if count ≤ prev then .ok () (ide.placeCaret (prev - count)) else .error .caretRange ide := by
  rw [wrapInt32_of_range (by omega) (by omega), run_setCaretIndex]
  split_ifs with hnegative hfits hfits
  · omega
  · rfl
  · rw [← Nat.cast_sub hfits, Int.toNat_natCast]
  · omega

/-- The removal of a deletion or of a replacement, and the move of the caret after it: the range is
removed and one token taken, or the move throws after the removal because the caret does not fit. -/
theorem run_removal (htokens : ide.tokens ≠ 0) (hcount : 0 < count)
    (hrange : offset + count ≤ ide.text.length) {move : UiAction Unit}
    (hmove : ∀ {ide : Ide}, ide.caret = 0 →
      ((prev ≤ offset ∨ count ≤ prev) ∧ ∃ position,
        move.run ide = .ok () (ide.placeCaret position)) ∨
      ¬ (prev ≤ offset ∨ count ≤ prev) ∧ move.run ide = .error .caretRange ide)
    {removal : UiAction Unit}
    (hremoval : removal = do
      if (← get).text.length = 1 then setText []
      else
        removeInRange offset count
        move) :
    (CaretFits ide.text prev offset count ∧ ∃ position,
      removal.run ide =
        .ok () ({ ide with
          text := splice ide.text offset count []
          tokens := ide.tokens - 1 }.placeCaret position)) ∨
    ¬ CaretFits ide.text prev offset count ∧ ∃ ide', removal.run ide = .error .caretRange ide' := by
  simp only [hremoval, EStateM.run_bind, EStateM.run_get]
  by_cases hone : ide.text.length = 1
  · have hempty : splice ide.text offset count [] = [] := splice_of_length_one hone hcount hrange
    have hne : ([] : Text) ≠ ide.text := by
      intro heq
      simp [← heq] at hone
    refine Or.inl ⟨Or.inl hone, 0, ?_⟩
    rw [if_pos hone, run_setText, assignText_of_not_announces (not_announces_of_tokens htokens) hne,
      hempty]
    rfl
  · simp only [if_neg hone, EStateM.run_bind, run_removeInRange htokens hcount hrange]
    have hcaret : ({ ide with
        text := splice ide.text offset count []
        caret := 0
        tokens := ide.tokens - 1 } : Ide).caret = 0 := rfl
    rcases hmove hcaret with ⟨hfits, position, hposition⟩ | ⟨hfits, hfault⟩
    · exact Or.inl ⟨Or.inr hfits, position, hposition⟩
    · exact Or.inr ⟨not_or.mpr ⟨hone, hfits⟩, _, hfault⟩

/-- A deletion within the text. -/
theorem run_applyDeletion (htokens : ide.tokens ≠ 0) (hcount : 0 < count)
    (hrange : offset + count ≤ ide.text.length) (hmax : ide.text.length ≤ int32Max)
    (hprev : prev ≤ ide.text.length) :
    (CaretFits ide.text prev offset count ∧ ∃ position,
      (applyDeletion ⟨DELETION_IDENTIFIER, 0, offset, decimal count, prev, count⟩).run ide =
        .ok () ({ ide with
          text := splice ide.text offset count []
          tokens := ide.tokens - 1 }.placeCaret position)) ∨
    ¬ CaretFits ide.text prev offset count ∧ ∃ ide',
      (applyDeletion ⟨DELETION_IDENTIFIER, 0, offset, decimal count, prev, count⟩).run ide =
        .error .caretRange ide' := by
  refine run_removal htokens hcount hrange (fun {ide} _ ↦ ?_) rfl
  dsimp only
  by_cases hbehind : prev ≤ offset
  · refine Or.inl ⟨Or.inl hbehind, prev, ?_⟩
    rw [if_pos (by exact_mod_cast hbehind), run_setCaretIndex, if_neg (by omega)]
    rfl
  · rw [if_neg (by exact_mod_cast hbehind), run_setCaretIndex_sub (by omega) (by omega)]
    by_cases hshort : count ≤ prev
    · exact Or.inl ⟨Or.inr hshort, prev - count, if_pos hshort⟩
    · exact Or.inr ⟨not_or.mpr ⟨hbehind, hshort⟩, if_neg hshort⟩

/-- The first half of a replacement within the text. -/
theorem run_removeReplaced (htokens : ide.tokens ≠ 0) (hcount : 0 < count)
    (hrange : offset + count ≤ ide.text.length) (hmax : ide.text.length ≤ int32Max)
    (hprev : prev ≤ ide.text.length) :
    (CaretFits ide.text prev offset count ∧ ∃ position,
      (removeReplaced ⟨MULTIPLE_ACTION_IDENTIFIER, count, offset, text, prev, 0⟩).run ide =
        .ok () ({ ide with
          text := splice ide.text offset count []
          tokens := ide.tokens - 1 }.placeCaret position)) ∨
    ¬ CaretFits ide.text prev offset count ∧ ∃ ide',
      (removeReplaced ⟨MULTIPLE_ACTION_IDENTIFIER, count, offset, text, prev, 0⟩).run ide =
        .error .caretRange ide' := by
  refine run_removal htokens hcount hrange (fun {ide} hcaret ↦ ?_) rfl
  dsimp only
  by_cases hbehind : prev ≤ offset
  · refine Or.inl ⟨Or.inl hbehind, 0, ?_⟩
    rw [if_neg (by omega), Ide.placeCaret, Nat.zero_min, ← hcaret]
    rfl
  · rw [if_pos (by omega), run_setCaretIndex_sub (by omega) (by omega)]
    by_cases hshort : count ≤ prev
    · exact Or.inl ⟨Or.inr hshort, prev - count, if_pos hshort⟩
    · exact Or.inr ⟨not_or.mpr ⟨hbehind, hshort⟩, if_neg hshort⟩

/-- The second half of a replacement inserts the new text, takes one token and moves the caret. -/
theorem run_insertReplacement (count : ℕ) (htokens : ide.tokens ≠ 0)
    (hoffset : offset ≤ ide.text.length) (htext : text ≠ [])
    (hprev : prev + text.length ≤ int32Max) :
    ∃ position,
      (insertReplacement ⟨MULTIPLE_ACTION_IDENTIFIER, count, offset, text, prev, 0⟩).run ide =
        .ok () ({ ide with
          text := splice ide.text offset 0 text
          tokens := ide.tokens - 1 }.placeCaret position) := by
  have hrange : (0 : ℤ) ≤ offset ∧ (offset : ℤ) ≤ ide.text.length := by omega
  have hne : splice ide.text offset 0 text ≠ ide.text := splice_insert_ne.mpr htext
  have hset := assignText_of_not_announces (not_announces_of_tokens htokens) hne
  simp only [insertReplacement, EStateM.run_bind, EStateM.run_get, run_stringInsert, if_pos hrange,
    Int.toNat_natCast, run_setText, hset]
  split_ifs
  · exact ⟨prev, by rw [run_setCaretIndex, if_neg (by omega)]; rfl⟩
  · exact ⟨_, run_setCaretIndex_wrap (by omega) (by omega)⟩

/-- A replacement within the text replaces the range, gives back the two tokens it brought and moves
the caret, or throws between its two halves if the caret does not fit. -/
theorem run_applyMultiple (htokens : 0 ≤ ide.tokens) (hcount : 0 < count) (htext : text ≠ [])
    (hrange : offset + count ≤ ide.text.length) (hmax : ide.text.length ≤ int32Max)
    (hprev : prev ≤ ide.text.length) (hsum : prev + text.length ≤ int32Max) :
    (CaretFits ide.text prev offset count ∧ ∃ position,
      (applyMultiple ⟨MULTIPLE_ACTION_IDENTIFIER, count, offset, text, prev, 0⟩).run ide =
        .ok () ({ ide with text := splice ide.text offset count text }.placeCaret position)) ∨
    ¬ CaretFits ide.text prev offset count ∧ ∃ ide',
      (applyMultiple ⟨MULTIPLE_ACTION_IDENTIFIER, count, offset, text, prev, 0⟩).run ide =
        .error .caretRange ide' := by
  have htwo : ({ ide with tokens := ide.tokens + 2 } : Ide).tokens ≠ 0 := by
    simp only [ne_eq]
    omega
  simp only [applyMultiple, EStateM.run_bind, run_addTokens]
  rcases run_removeReplaced htwo hcount hrange hmax hprev with
    ⟨hfits, position, hposition⟩ | ⟨hfits, ide', hfault⟩
  · have hone : (({ ide with
        text := splice ide.text offset count []
        tokens := ide.tokens + 2 - 1 } : Ide).placeCaret position).tokens ≠ 0 := by
      simp only [Ide.placeCaret, ne_eq]
      omega
    have hlength : (splice ide.text offset count []).length + count =
        ide.text.length + ([] : Text).length := length_splice hrange
    rw [List.length_nil] at hlength
    obtain ⟨position', hposition'⟩ := run_insertReplacement count hone
      (show offset ≤ (splice ide.text offset count []).length by omega) htext hsum
    refine Or.inl ⟨hfits, position', ?_⟩
    have htokens' : ide.tokens + 2 - 1 - 1 = ide.tokens := by omega
    have hwhole : splice (splice ide.text offset count []) offset 0 text =
        splice ide.text offset count text := splice_splice (by omega)
    rw [hposition]
    refine hposition'.trans ?_
    simp only [Ide.placeCaret, htokens', hwhole]
  · refine Or.inr ⟨hfits, ide', ?_⟩
    rw [hfault]

end Apply

/-! ### One message -/

theorem length_apply {edit : Edit} {text : Text}
    (hrange : edit.offset + edit.removed ≤ text.length) :
    (edit.apply text).length + edit.removed = text.length + edit.added.length :=
  length_splice hrange

/-- Whether an edit finds the caret of the editor it is replayed in fitting. -/
def Edit.Fits (edit : Edit) (ide : Ide) : Prop :=
  edit.removed = 0 ∨ CaretFits ide.text ide.caret edit.offset edit.removed

/-- One pass of `textUpdater` over a message performs the announced edit and gives back every token
it took, or throws because of the caret, according to whether the caret fits. -/
theorem run_textUpdaterPass {edit : Edit} {message : Text} (hmessage : Announcement edit message)
    {ide : Ide} (htokens : ide.tokens = 0) (hcaret : ide.caret ≤ ide.text.length)
    (hrange : edit.offset + edit.removed ≤ ide.text.length) (hmax : ide.text.length ≤ maxLength)
    (hmax' : (edit.apply ide.text).length ≤ maxLength) :
    (edit.Fits ide ∧ ∃ position, (textUpdaterPass message).run ide =
      .ok () ({ ide with text := edit.apply ide.text }.placeCaret position)) ∨
    ¬ edit.Fits ide ∧ ∃ ide', (textUpdaterPass message).run ide = .error .caretRange ide' := by
  have hlengths := length_apply hrange
  have hbounds : 2 * maxLength < int32Max := by decide
  have hpass : (textUpdaterPass message).run ide =
      match (receiveUpdate message ide.caret).run ide with
      | .ok pending ide => (dispatchUpdate pending).run ide
      | .error fault ide => .error fault ide := by
    have hne : message ≠ [] := by
      cases hmessage <;> simp [updateMessage, str, unit]
    simp only [textUpdaterPass, ne_eq, hne, not_false_eq_true, if_true, EStateM.run_bind,
      EStateM.run_get]
    cases (receiveUpdate message ide.caret).run ide <;> rfl
  have hback : ({ ide with tokens := ide.tokens + 1 } : Ide).tokens ≠ 0 := by
    simp [htokens]
  rw [hpass]
  cases hmessage with
  | @insertion length hlength hremoved hadded =>
    obtain ⟨position, hposition⟩ := run_applyAddition hback
      (show edit.offset ≤ ide.text.length by omega) hadded
      (show ide.caret < int32Max by omega) (show ide.caret + length ≤ int32Max by omega)
    refine Or.inl ⟨Or.inl hremoved, position, ?_⟩
    rw [run_receiveUpdate_addition (by omega) (by omega)]
    simp only [dispatchUpdate, if_true, hposition, Edit.apply, hremoved, add_sub_cancel_right]
  | replacement hremoved hadded =>
    have hother : MULTIPLE_ACTION_IDENTIFIER ≠ ADDITION_IDENTIFIER ∧
        MULTIPLE_ACTION_IDENTIFIER ≠ DELETION_IDENTIFIER := by decide
    rw [run_receiveUpdate_multiple (by omega) (by omega)]
    simp only [dispatchUpdate, hother.1, hother.2, if_false, if_true]
    rcases run_applyMultiple (le_of_eq htokens.symm) hremoved hadded hrange (by omega) hcaret
        (by omega) with ⟨hfits, happlied⟩ | ⟨hfits, hfault⟩
    · exact Or.inl ⟨Or.inr hfits, happlied⟩
    · refine Or.inr ⟨?_, hfault⟩
      simpa [Edit.Fits, hremoved.ne'] using hfits
  | deletion hremoved hadded =>
    have hother : DELETION_IDENTIFIER ≠ ADDITION_IDENTIFIER := by decide
    rw [run_receiveUpdate_deletion (by omega) (by omega)]
    simp only [dispatchUpdate, hother, if_false, if_true]
    rcases run_applyDeletion hback hremoved hrange (by simp only; omega)
        (show ide.caret ≤ ide.text.length from hcaret) with
      ⟨hfits, position, hposition⟩ | ⟨hfits, ide', hfault⟩
    · refine Or.inl ⟨Or.inr hfits, position, ?_⟩
      simp only [hposition, Edit.apply, hadded, add_sub_cancel_right]
    · refine Or.inr ⟨?_, ide', hfault⟩
      simpa [Edit.Fits, hremoved.ne'] using hfits

end NovaIde.Client
