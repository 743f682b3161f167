import NovaIde.Client.UpdateReplay

/-!
# Edits that are announced

In a session, with no token left, an editor announces the edits of its user: an insertion other
than a lone newline, a deletion by Backspace, a replacement without a newline, and Enter, whose
message comes from the key handler. `emits_of_editOf` says that each adds exactly one message to the
announced ones, and that the message stands for the edit.
-/

set_option autoImplicit false
set_option relaxedAutoImplicit false

namespace NovaIde.Client

open Foundation

/-! ### Actions -/

/-- What a user does. -/
inductive UserAction
  | placeCaret (position : ℕ)
  | pressBack
  | pressEnter
  | makeEdit (edit : Edit)
deriving DecidableEq, Repr

/-- The handlers an action runs. -/
def Ide.act (ide : Ide) : UserAction → Ide
  | .placeCaret position => ide.placeCaret position
  | .pressBack => ide.notepadPreviewKeyDown .back
  | .pressEnter => ide.notepadPreviewKeyDown .enter
  | .makeEdit edit => ide.userEdit edit

/-- The edit an action makes, if it makes one. -/
def Ide.editOf (ide : Ide) : UserAction → Option Edit
  | .placeCaret _ | .pressBack => none
  | .pressEnter => some ide.enterEdit
  | .makeEdit edit => some edit

/-- The user edits `TextBox_TextChanged` emits a message for: an insertion other than a lone
newline, a replacement whose new text has no newline, a deletion with the deletion flag set. -/
def Edit.Emitted (edit : Edit) (deletionFlag : Bool) : Prop :=
  if edit.removed = 0 then edit.added ≠ [] ∧ edit.added ≠ [newline]
  else if edit.added = [] then deletionFlag = true
  else newline ∉ edit.added

/-- An action that is possible in the text box and whose edit, if it makes one, is emitted. -/
def Ide.Allows (ide : Ide) : UserAction → Prop
  | .placeCaret _ | .pressBack => True
  | .pressEnter => ide.text.length + 1 ≤ maxLength
  | .makeEdit edit =>
    edit.offset + edit.removed ≤ ide.text.length ∧ (edit.apply ide.text).length ≤ maxLength ∧
      edit.Emitted ide.deletionFlag

instance (edit : Edit) (deletionFlag : Bool) : Decidable (edit.Emitted deletionFlag) :=
  inferInstanceAs (Decidable (if edit.removed = 0 then edit.added ≠ [] ∧ edit.added ≠ [newline]
    else if edit.added = [] then deletionFlag = true else newline ∉ edit.added))

instance (ide : Ide) : DecidablePred ide.Allows
  | .placeCaret _ | .pressBack => inferInstanceAs (Decidable True)
  | .pressEnter => inferInstanceAs (Decidable (ide.text.length + 1 ≤ maxLength))
  | .makeEdit edit => inferInstanceAs (Decidable (edit.offset + edit.removed ≤ ide.text.length ∧
      (edit.apply ide.text).length ≤ maxLength ∧ edit.Emitted ide.deletionFlag))

/-! ### Their messages -/

/-- The second editor made an edit, and announced it by the message. -/
structure Emits (edit : Edit) (message : Text) (before after : Ide) : Prop where
  range : edit.offset + edit.removed ≤ before.text.length
  length : (edit.apply before.text).length ≤ maxLength
  announcement : Announcement edit message
  text : after.text = edit.apply before.text
  announced : after.announced = before.announced ++ [message]
  announces : after.announces = true
  caret : after.caret ≤ after.text.length

section Announcing

variable {ide : Ide}

/-- Announcing changes neither the text nor what decides whether the editor announces. -/
theorem announces_textBoxTextChanged (hannounces : ide.announces = true) (change : TextChange) :
    (ide.textBoxTextChanged [change]).announces = true ∧
      (ide.textBoxTextChanged [change]).caret = ide.caret := by
  obtain ⟨pendingUndo, hchanged⟩ := textBoxTextChanged_of_announces hannounces change
  obtain ⟨messages, flag, hframe⟩ := announceChange_frame ide change
  rw [hchanged, hframe]
  exact ⟨hannounces, rfl⟩

/-- The message `TextBox_TextChanged` builds for an edit. -/
def Edit.message (edit : Edit) : Text :=
  if edit.removed = 0 then
    updateMessage ADDITION_IDENTIFIER edit.added.length edit.offset edit.added
  else if edit.added = [] then
    updateMessage DELETION_IDENTIFIER 0 edit.offset (decimal edit.removed)
  else updateMessage MULTIPLE_ACTION_IDENTIFIER edit.removed edit.offset edit.added

/-- The message of an emitted edit stands for the edit. -/
theorem announcement_message {edit : Edit} {deletionFlag : Bool}
    (hemitted : edit.Emitted deletionFlag) : Announcement edit edit.message := by
  unfold Edit.message
  by_cases hremoved : edit.removed = 0
  · simp only [Edit.Emitted, if_pos hremoved] at hemitted
    rw [if_pos hremoved]
    exact .insertion le_rfl hremoved hemitted.1
  · rw [if_neg hremoved]
    by_cases hadded : edit.added = []
    · rw [if_pos hadded]
      exact .deletion (Nat.pos_of_ne_zero hremoved) hadded
    · rw [if_neg hadded]
      exact .replacement (Nat.pos_of_ne_zero hremoved) hadded

/-- An emitted edit removes or adds something. -/
theorem Edit.Emitted.changes {edit : Edit} {deletionFlag : Bool}
    (hemitted : edit.Emitted deletionFlag) : edit.removed ≠ 0 ∨ edit.added ≠ [] := by
  by_cases hremoved : edit.removed = 0
  · simp only [Edit.Emitted, if_pos hremoved] at hemitted
    exact .inr hemitted.1
  · exact .inl hremoved

/-- A user edit in the text adds its message to the announced ones exactly when it is emitted, and
else none. -/
theorem announced_userEdit (hannounces : ide.announces = true) {edit : Edit}
    (hrange : edit.offset + edit.removed ≤ ide.text.length)
    (hsome : edit.removed ≠ 0 ∨ edit.added ≠ []) :
    (ide.userEdit edit).announced =
      ide.announced ++ if edit.Emitted ide.deletionFlag then [edit.message] else [] := by
  obtain ⟨offset, removed, added⟩ := edit
  simp only at hrange hsome
  have hread : ((splice ide.text offset removed added).drop offset).take added.length = added :=
    take_drop_splice (by omega)
  have hlength : (splice ide.text offset removed added).length + removed =
      ide.text.length + added.length := length_splice hrange
  obtain ⟨pendingUndo, hchanged⟩ := textBoxTextChanged_of_announces
    (show ({ ide with
      text := splice ide.text offset removed added
      caret := offset + added.length } : Ide).announces = true from hannounces)
    ⟨offset, added.length, removed⟩
  simp only [Ide.userEdit, Edit.apply, hchanged, Edit.message, Edit.Emitted]
  by_cases hremoved : removed = 0
  · subst hremoved
    have hadded : added ≠ [] := hsome.resolve_left (by simp)
    have hinside : offset + added.length ≤ (splice ide.text offset 0 added).length := by omega
    by_cases hnewline : added = [newline]
    · subst hnewline
      simp only [List.length_singleton] at hread hinside
      simp [Ide.announceChange, hread, hinside]
    · simp [Ide.announceChange, Ide.addTextChange, hread, hinside, hnewline, hadded]
  · have hpositive : 0 < removed := Nat.pos_of_ne_zero hremoved
    by_cases hadded : added = []
    · subst hadded
      by_cases hflag : ide.deletionFlag = true
      · simp [Ide.announceChange, Ide.addTextChange, hremoved, hflag]
      · simp [Ide.announceChange, hremoved, hflag]
    · have hsomething : 0 < added.length := List.length_pos_iff.mpr hadded
      by_cases hnewline : newline ∈ added
      · simp [Ide.announceChange, hremoved, hread, hnewline, hpositive, hsomething, hadded]
      · simp [Ide.announceChange, Ide.addTextChange, hremoved, hread, hnewline, hpositive,
          hsomething, hadded]

/-- The assignment of the Enter key is not announced by the event it raises: what it reports
contains a newline. -/
theorem announced_assignText_newline (hannounces : ide.announces = true)
    (hcaret : ide.caret ≤ ide.text.length) :
    (ide.assignText (ide.enterEdit.apply ide.text)).announced = ide.announced := by
  have hne : ide.enterEdit.apply ide.text ≠ ide.text :=
    splice_insert_ne.mpr (by simp [Ide.enterEdit])
  obtain ⟨pendingUndo, hchanged⟩ := textBoxTextChanged_of_announces
    (show ({ ide with
      text := ide.enterEdit.apply ide.text
      caret := 0 } : Ide).announces = true from hannounces)
    ⟨0, (ide.enterEdit.apply ide.text).length, ide.text.length⟩
  rw [Ide.assignText, if_neg hne, hchanged]
  have hmem : newline ∈ ide.enterEdit.apply ide.text := by
    simp [Edit.apply, Ide.enterEdit, splice]
  by_cases hempty : ide.text = []
  · have hcaret' : ide.caret = 0 := by simpa [hempty] using hcaret
    simp [Ide.announceChange, Edit.apply, Ide.enterEdit, splice, hempty]
  · have hlength : 0 < (ide.enterEdit.apply ide.text).length := List.length_pos_of_mem hmem
    simp [Ide.announceChange, hempty, hmem, hlength, List.length_pos_iff.mpr hempty]

theorem sessionStarted_of_announces (hannounces : ide.announces = true) :
    ide.sessionStarted = true := by
  simp only [Ide.announces, Bool.and_eq_true] at hannounces
  exact hannounces.2

/-- An action that makes no edit changes the caret and the deletion flag only. -/
theorem act_of_editOf_eq_none {action : UserAction} (hedit : ide.editOf action = none) :
    ∃ caret flag, (ide.caret ≤ ide.text.length → caret ≤ ide.text.length) ∧
      ide.act action = { ide with caret, deletionFlag := flag } := by
  cases action with
  | placeCaret position =>
    exact ⟨min position ide.text.length, ide.deletionFlag, fun _ ↦ Nat.min_le_right _ _, rfl⟩
  | pressBack =>
    simp only [Ide.act, Ide.notepadPreviewKeyDown]
    split_ifs
    · exact ⟨ide.caret, true, id, rfl⟩
    · exact ⟨ide.caret, ide.deletionFlag, id, rfl⟩
  | pressEnter => cases hedit
  | makeEdit edit => cases hedit

/-- An allowed action that makes an edit announces it. -/
theorem emits_of_editOf (hannounces : ide.announces = true) (hcaret : ide.caret ≤ ide.text.length)
    {action : UserAction} (hallows : ide.Allows action) {edit : Edit}
    (hedit : ide.editOf action = some edit) :
    ∃ message, Emits edit message ide (ide.act action) := by
  cases action with
  | placeCaret position => cases hedit
  | pressBack => cases hedit
  | pressEnter =>
    cases hedit
    have hsession := sessionStarted_of_announces hannounces
    have hgrown : (ide.enterEdit.apply ide.text).length + 0 =
        ide.text.length + [newline].length := length_splice hcaret
    have hassigned : (ide.assignText (ide.enterEdit.apply ide.text)).announces = true := by
      rw [Ide.assignText]
      split_ifs
      · exact hannounces
      · exact (announces_textBoxTextChanged (by exact hannounces) _).1
    have hact : ide.act .pressEnter =
        { ide.assignText (ide.enterEdit.apply ide.text) with
          caret := ide.caret + 1 }.addTextChange
            (updateMessage ADDITION_IDENTIFIER 0 ide.caret [newline]) := if_pos hsession
    have htext : (ide.act .pressEnter).text = ide.enterEdit.apply ide.text := by
      simp only [hact, Ide.addTextChange, text_assignText]
    simp only [List.length_singleton, Ide.Allows] at hgrown hallows
    refine ⟨_, hcaret, by omega, .insertion (Nat.zero_le _) rfl (by simp [Ide.enterEdit]), htext,
      ?_, ?_, ?_⟩
    · simp only [hact, Ide.addTextChange, announced_assignText_newline hannounces hcaret]
      rfl
    · rw [hact]
      exact hassigned
    · rw [htext, hact]
      simp only [Ide.addTextChange]
      omega
  | makeEdit made =>
    cases hedit
    obtain ⟨hrange, hlength, hemitted⟩ := hallows
    have hadded := announced_userEdit hannounces hrange hemitted.changes
    rw [if_pos hemitted] at hadded
    have hevent := announces_textBoxTextChanged
      (show ({ ide with
        text := edit.apply ide.text
        caret := edit.offset + edit.added.length } : Ide).announces = true from hannounces)
      ⟨edit.offset, edit.added.length, edit.removed⟩
    have hgrown := length_apply hrange
    refine ⟨_, hrange, hlength, announcement_message hemitted, text_userEdit ide edit, hadded,
      hevent.1, ?_⟩
    simp only [Ide.act, text_userEdit]
    simp only [Ide.userEdit, hevent.2]
    omega

end Announcing

end NovaIde.Client
