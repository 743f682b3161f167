import NovaIde.Client.AnnouncedEdits

/-!
# Which user edits are announced

Whether an edit of the user is announced depends on its shape, on newlines in what it adds, and for
a deletion on a flag that only the Backspace key sets. An edit that passes these tests adds one
message, which makes the old text into the new one (`announcedOnce_plain`); any other edit adds none
(`announced_userEdit`). Enter is announced by its key handler, and what its assignment reports is
not (`announced_assignText_newline`).
-/

set_option autoImplicit false
set_option relaxedAutoImplicit false

namespace NovaIde.Client

open Foundation

/-! ### Edits of the user -/

/-- What the user does to change the text: an edit without a key that the editor handles (typing,
pasting, the Delete key, cutting, replacing a selection), Backspace, or Enter. -/
inductive UserEdit
  | plain (edit : Edit)
  | backspace (offset removed : ℕ)
  | enter
deriving DecidableEq, Repr

/-- The edit that is made in an editor. -/
def UserEdit.editIn (ide : Ide) : UserEdit → Edit
  | .plain edit => edit
  | .backspace offset removed => ⟨offset, removed, []⟩
  | .enter => ide.enterEdit

/-- The handlers a user edit runs: that of the key, and that of the change it reports. -/
def Ide.makeUserEdit (ide : Ide) : UserEdit → Ide
  | .plain edit => ide.userEdit edit
  | .backspace offset removed => (ide.notepadPreviewKeyDown .back).userEdit ⟨offset, removed, []⟩
  | .enter => ide.notepadPreviewKeyDown .enter

/-- The edit lies in the text, changes it, and leaves a string the runtime can hold. -/
structure Edit.Changes (edit : Edit) (text : Text) : Prop where
  range : edit.offset + edit.removed ≤ text.length
  changes : edit.apply text ≠ text
  length : text.length ≤ maxLength ∧ (edit.apply text).length ≤ maxLength

/-- Whether a user edit is one that the tests of `TextBox_TextChanged` let through, or one of a key
that the editor handles. -/
def UserEdit.Encoded (deletionFlag : Bool) : UserEdit → Prop
  | .plain edit => edit.Emitted deletionFlag
  | .backspace _ _ | .enter => True

/-- What one pass of `textUpdater` makes of a text in an editor whose caret is at the start. -/
def appliedTo (update text : Text) : Option Text :=
  match (textUpdaterPass update).run { text } with
  | .ok _ ide => some ide.text
  | .error _ _ => none

/-- A user edit adds exactly one update, which makes the old text into the new one. -/
def AnnouncedOnce (ide : Ide) (made : UserEdit) : Prop :=
  ∃ update, (ide.makeUserEdit made).announced = ide.announced ++ [update] ∧
    appliedTo update ide.text = some (ide.makeUserEdit made).text

/-! ### What is announced -/

section Announced

variable {ide : Ide} {edit : Edit}

/-- The message of an edit does to the text what the edit does. -/
theorem appliedTo_of_announcement {message text : Text} (hmessage : Announcement edit message)
    (hchanges : edit.Changes text) : appliedTo message text = some (edit.apply text) := by
  have hfits : edit.Fits { text } := .inr (.inr (.inl (Nat.zero_le _)))
  have hstart : ({ text } : Ide).caret ≤ text.length := Nat.zero_le _
  rcases run_textUpdaterPass hmessage (by rfl) hstart hchanges.range hchanges.length.1
    hchanges.length.2 with ⟨-, position, hrun⟩ | ⟨hnot, -⟩
  · rw [appliedTo, hrun]
    rfl
  · exact absurd hfits hnot

/-- An edit that changes the text removes or adds something. -/
theorem Edit.Changes.something (hchanges : edit.Changes ide.text) :
    edit.removed ≠ 0 ∨ edit.added ≠ [] := by
  by_contra hnothing
  push Not at hnothing
  refine hchanges.changes ?_
  simp [Edit.apply, splice, hnothing.1, hnothing.2]

/-- An edit that is emitted is announced once. -/
theorem announcedOnce_plain (hannounces : ide.announces = true) (hchanges : edit.Changes ide.text)
    (hemitted : edit.Emitted ide.deletionFlag) : AnnouncedOnce ide (.plain edit) := by
  have hadded := announced_userEdit hannounces hchanges.range hchanges.something
  rw [if_pos hemitted] at hadded
  refine ⟨edit.message, hadded, ?_⟩
  rw [appliedTo_of_announcement (announcement_message hemitted) hchanges, Ide.makeUserEdit,
    text_userEdit]

/-- Backspace sets the flag that its deletion needs. -/
theorem announcedOnce_backspace (hannounces : ide.announces = true) {offset removed : ℕ}
    (hchanges : Edit.Changes ⟨offset, removed, []⟩ ide.text) :
    AnnouncedOnce ide (.backspace offset removed) := by
  have hkey : ide.notepadPreviewKeyDown .back = { ide with deletionFlag := true } :=
    if_pos (sessionStarted_of_announces hannounces)
  have hemitted : Edit.Emitted ⟨offset, removed, []⟩ true := by
    have hremoved := (splice_remove_ne hchanges.range).mp hchanges.changes
    simp only at hremoved
    simp [Edit.Emitted, hremoved]
  have honce := @announcedOnce_plain { ide with deletionFlag := true } _ hannounces hchanges
    hemitted
  simpa only [AnnouncedOnce, Ide.makeUserEdit, hkey] using honce

/-- Enter is announced by its own handler. -/
theorem announcedOnce_enter (hannounces : ide.announces = true)
    (hcaret : ide.caret ≤ ide.text.length) (hchanges : ide.enterEdit.Changes ide.text) :
    AnnouncedOnce ide .enter := by
  have hgrown := length_apply hchanges.range
  have hallows : ide.Allows .pressEnter := by
    have hlength := hchanges.length.2
    simp only [Ide.enterEdit, List.length_singleton] at hgrown hlength
    simp only [Ide.Allows]
    omega
  obtain ⟨message, hemits⟩ := emits_of_editOf hannounces hcaret hallows rfl
  refine ⟨message, hemits.announced, ?_⟩
  rw [appliedTo_of_announcement hemits.announcement hchanges]
  exact congrArg some hemits.text.symm

/-- Assumes: a started session without tokens and outside a file switch, a caret in the text, and a
user edit that changes the text. The edit is announced by exactly one update, which makes the old
text into the new one, exactly when it is one that is encoded. -/
theorem announcedOnce_iff (hannounces : ide.announces = true)
    (hcaret : ide.caret ≤ ide.text.length) {made : UserEdit}
    (hchanges : (made.editIn ide).Changes ide.text) :
    AnnouncedOnce ide made ↔ made.Encoded ide.deletionFlag := by
  cases made with
  | plain edit =>
    have hchanges : edit.Changes ide.text := hchanges
    refine ⟨fun ⟨update, hadded, _⟩ ↦ ?_, announcedOnce_plain hannounces hchanges⟩
    by_contra hemitted
    have hkept := announced_userEdit hannounces hchanges.range hchanges.something
    rw [if_neg (by exact hemitted), List.append_nil] at hkept
    have hsame : ide.announced ++ [update] = ide.announced := hadded.symm.trans hkept
    simp at hsame
  | backspace offset removed =>
    exact iff_of_true (announcedOnce_backspace hannounces hchanges) trivial
  | enter => exact iff_of_true (announcedOnce_enter hannounces hcaret hchanges) trivial

/-- Backspace over a selection in a session of a member. -/
theorem announcedOnce_iff_selection :
    AnnouncedOnce { text := str "a\nb", sessionStarted := true, hosting := false }
        (.backspace 0 2) ↔
      UserEdit.Encoded false (.backspace 0 2) :=
  announcedOnce_iff (by decide) (by decide) ⟨by decide, by decide, by decide⟩

/-- The Delete key, in a session where Backspace has not been pressed, announces nothing. -/
theorem not_announcedOnce :
    ¬ ∀ (ide : Ide) (made : UserEdit), ide.announces = true → ide.caret ≤ ide.text.length →
      (made.editIn ide).Changes ide.text → AnnouncedOnce ide made := by
  intro hall
  let ide : Ide := { text := str "ab", sessionStarted := true }
  obtain ⟨update, hadded, -⟩ := hall ide (.plain ⟨0, 1, []⟩) (by decide) (by decide)
    ⟨by decide, by decide, by decide⟩
  have hkept : (ide.makeUserEdit (.plain ⟨0, 1, []⟩)).announced = [] := by decide
  rw [hkept] at hadded
  simp at hadded

end Announced

end NovaIde.Client
