import NovaIde.Client.AnnouncedEdits
import NovaIde.Client.UpdateEffects

/-!
# Where a remote update leaves the caret

An edit moves the positions of a text: those before it stay, those behind it move with the text, and
those in the removed range end at its start (`PositionImage`). `textUpdater` computes the caret from
the numbers of the message instead. It moves a caret at the offset of an insertion by one, whatever
is inserted; the length in a message of Enter is zero, so that a host leaves its caret in front of
the new line, and a member moves its caret by one more wherever it stands; a removed range is
subtracted from a caret that stands inside it; and the caret of a replacement is computed from where
it was before the removal. `keepsCaret_iff` says when the caret is nevertheless where it should be.
-/

set_option autoImplicit false
set_option relaxedAutoImplicit false

namespace NovaIde.Client

open Foundation

/-! ### Images of positions -/

/-- Where a position stands after a removal. -/
def removalImage (offset count position : ℕ) : ℕ :=
  if position ≤ offset then position
  else if position < offset + count then offset
  else position - count

/-- Where a position may stand after an insertion: at the offset, on either side of it. -/
def InsertionImage (offset count position image : ℕ) : Prop :=
  if position < offset then image = position
  else if offset < position then image = position + count
  else image = position ∨ image = position + count

instance (offset count position image : ℕ) :
    Decidable (InsertionImage offset count position image) := by
  unfold InsertionImage
  infer_instance

/-- Where a position may stand after an edit, which is a removal followed by an insertion. Removing
or inserting nothing moves no position. -/
def Edit.PositionImage (edit : Edit) (position image : ℕ) : Prop :=
  InsertionImage edit.offset edit.added.length (removalImage edit.offset edit.removed position)
    image

/-- Inserting nothing moves no position. -/
theorem insertionImage_zero {offset position image : ℕ} :
    InsertionImage offset 0 position image ↔ image = position := by
  unfold InsertionImage
  split_ifs <;> omega

/-- The image of a position under a deletion. -/
theorem positionImage_deletion {offset count position image : ℕ} :
    Edit.PositionImage ⟨offset, count, []⟩ position image ↔
      image = removalImage offset count position :=
  insertionImage_zero

/-! ### Updates as they are sent -/

/-- What the handlers announce: an edit by the message of `TextBox_TextChanged`, and Enter by that
of the key handler. -/
inductive SentUpdate
  | edit (edit : Edit)
  | enter (offset : ℕ)
deriving DecidableEq, Repr

namespace SentUpdate

/-- The edit announced. -/
def made : SentUpdate → Edit
  | .edit made => made
  | .enter offset => ⟨offset, 0, [newline]⟩

/-- The message sent. -/
def message : SentUpdate → Text
  | .edit made => made.message
  | .enter offset => updateMessage ADDITION_IDENTIFIER 0 offset [newline]

/-- Whether a handler sends the update: Enter always, an edit when the tests of
`TextBox_TextChanged` let it through. -/
def Sent : SentUpdate → Prop
  | .edit made => made.Emitted true
  | .enter _ => True

instance (sent : SentUpdate) : Decidable sent.Sent := by
  cases sent <;> unfold Sent <;> infer_instance

end SentUpdate

/-- The update fits a text: its edit lies in the text, and the text before and after it is a string
the runtime can hold. -/
structure SentUpdate.Fits (sent : SentUpdate) (text : Text) : Prop where
  isSent : sent.Sent
  range : sent.made.offset + sent.made.removed ≤ text.length
  length : text.length ≤ maxLength ∧ (sent.made.apply text).length ≤ maxLength

/-- One pass of `textUpdater` over the update leaves the caret at an image of where it was. -/
def KeepsCaret (ide : Ide) (sent : SentUpdate) : Prop :=
  ∃ after, (textUpdaterPass sent.message).run ide = .ok () after ∧
    sent.made.PositionImage ide.caret after.caret

/-- Where the caret may stand for an update to keep it, in a text of some length.
- An insertion of more than one character does not start at the caret.
- A text of one character may be deleted; in a longer one the caret is not inside the range.
- A text of one character may be replaced; in a longer one the caret is not behind the start of the
  range, or it stands at the end of the text, or the range ends there and is not longer than the
  text before the caret.
- Enter of the peer does not come before the caret of a host, and comes before that of a member, or
  both at the end of the text. -/
def SentUpdate.CaretKept (hosting : Bool) (length caret : ℕ) : SentUpdate → Prop
  | .edit ⟨offset, removed, added⟩ =>
    if removed = 0 then offset = caret → added.length = 1
    else if added = [] then length = 1 ∨ caret ≤ offset ∨ offset + removed ≤ caret
    else length = 1 ∨ caret ≤ offset ∨ caret = length ∨
      offset + removed = length ∧ removed ≤ caret
  | .enter offset =>
    if hosting then caret ≤ offset else offset < caret ∨ offset = caret ∧ caret = length

section CaretKept

variable {ide : Ide}

/-- What a pass leaves in the text box decides whether the caret is kept. -/
theorem keepsCaret_iff_shown {sent : SentUpdate} {outcome : Shown}
    (hshown : shown ((textUpdaterPass sent.message).run ide) = outcome) :
    KeepsCaret ide sent ↔ ∃ text caret, outcome = some (text, caret) ∧
      sent.made.PositionImage ide.caret caret := by
  subst hshown
  unfold KeepsCaret
  cases (textUpdaterPass sent.message).run ide with
  | ok value after => simp [shown]
  | error fault after => simp [shown]

/-- The position at which a caret in a text is set. -/
theorem caretAt_natCast (text : Text) (position : ℕ) :
    caretAt text position = some (text, min position text.length) :=
  if_neg (by omega)

/-- An addition in range. -/
theorem additionShown_of_range {hosting : Bool} {text added : Text} {caret length offset : ℕ}
    (hoffset : offset ≤ text.length) (hsum : caret + length ≤ int32Max) :
    additionShown hosting text caret length offset added =
      some (splice text offset 0 added,
        let moved := min (if offset > caret then caret else if offset = caret then caret + 1
          else caret + length) (splice text offset 0 added).length
        if added = [newline] ∧ hosting = false
          then min (moved + 1) (splice text offset 0 added).length else moved) := by
  have hwrap : wrapInt32 ((caret : ℤ) + length) = ((caret + length : ℕ) : ℤ) := by
    rw [wrapInt32_of_range (by omega) (by omega)]
    rfl
  have hposition : (if offset > caret then (caret : ℤ) else if offset = caret then (caret : ℤ) + 1
      else wrapInt32 (caret + length)) =
        ((if offset > caret then caret else if offset = caret then caret + 1
          else caret + length : ℕ) : ℤ) := by
    rw [hwrap]
    split_ifs <;> rfl
  rw [additionShown, inserted, if_pos hoffset, Option.bind_some, hposition, caretAt_natCast,
    Option.map_some]

/-- A pass that leaves a text and a caret keeps the caret when that is an image. -/
theorem keepsCaret_iff_of_shown {sent : SentUpdate} {text : Text} {caret : ℕ}
    (hshown : shown ((textUpdaterPass sent.message).run ide) = some (text, caret)) :
    KeepsCaret ide sent ↔ sent.made.PositionImage ide.caret caret := by
  simp [keepsCaret_iff_shown hshown]

/-- An update whose edit adds a text to the text and removes nothing. -/
theorem keepsCaret_addition {sent : SentUpdate} {length offset : ℕ} {added : Text}
    (hcaret : ide.caret ≤ ide.text.length) (hmade : sent.made = ⟨offset, 0, added⟩)
    (hmessage : sent.message = updateMessage ADDITION_IDENTIFIER length offset added)
    (hoffset : offset ≤ ide.text.length) (hmax : ide.text.length + added.length ≤ maxLength)
    (hlength : length ≤ added.length) :
    KeepsCaret ide sent ↔ InsertionImage offset added.length ide.caret
      (let moved := min (if offset > ide.caret then ide.caret
          else if offset = ide.caret then ide.caret + 1 else ide.caret + length)
        (ide.text.length + added.length)
      if added = [newline] ∧ ide.hosting = false
        then min (moved + 1) (ide.text.length + added.length) else moved) := by
  have hbounds : 2 * maxLength < int32Max := by decide
  have hgrown : (splice ide.text offset 0 added).length + 0 = ide.text.length + added.length :=
    length_splice hoffset
  rw [Nat.add_zero] at hgrown
  have hformed : (RemoteUpdate.addition length offset added).WellFormed :=
    (show added.length ≤ maxLength by omega)
  have hshown := shown_textUpdaterPass hcaret (by omega) hformed
  rw [RemoteUpdate.message, ← hmessage, RemoteUpdate.shownIn, if_pos (by omega),
    additionShown_of_range hoffset (by omega), hgrown] at hshown
  rw [keepsCaret_iff_of_shown hshown, hmade, Edit.PositionImage]
  have hkept : removalImage offset 0 ide.caret = ide.caret := by
    unfold removalImage
    split_ifs <;> omega
  simp only [hkept]

/-- An insertion other than a lone newline. -/
theorem keepsCaret_insertion {offset : ℕ} {added : Text} (hcaret : ide.caret ≤ ide.text.length)
    (hfits : (SentUpdate.edit ⟨offset, 0, added⟩).Fits ide.text) :
    KeepsCaret ide (.edit ⟨offset, 0, added⟩) ↔ (offset = ide.caret → added.length = 1) := by
  have hemitted : added ≠ [] ∧ added ≠ [newline] := hfits.isSent
  have hoffset : offset ≤ ide.text.length := hfits.range
  have hgrown := length_apply hfits.range
  have hmax := hfits.length.2
  simp only [SentUpdate.made] at hgrown hmax
  have hpositive : 0 < added.length := List.length_pos_iff.mpr hemitted.1
  rw [keepsCaret_addition hcaret rfl rfl hoffset (by omega) le_rfl, InsertionImage]
  simp only [hemitted.2, false_and, if_false]
  split_ifs <;> omega

/-- Enter. -/
theorem keepsCaret_enter {offset : ℕ} (hcaret : ide.caret ≤ ide.text.length)
    (hfits : (SentUpdate.enter offset).Fits ide.text) :
    KeepsCaret ide (.enter offset) ↔
      if ide.hosting then ide.caret ≤ offset
      else offset < ide.caret ∨ offset = ide.caret ∧ ide.caret = ide.text.length := by
  have hoffset : offset ≤ ide.text.length := hfits.range
  have hgrown := length_apply hfits.range
  have hmax := hfits.length.2
  simp only [SentUpdate.made, List.length_singleton] at hgrown hmax
  rw [keepsCaret_addition hcaret rfl rfl hoffset (by simp only [List.length_singleton]; omega)
    (Nat.zero_le _), InsertionImage]
  cases hhosting : ide.hosting with
  | true =>
    simp only [List.length_singleton, Bool.true_eq_false, and_false, if_false, if_true]
    split_ifs <;> omega
  | false =>
    simp only [List.length_singleton, and_self, if_true, Bool.false_eq_true, if_false]
    split_ifs <;> omega

/-- A removal in range. -/
theorem removed_of_range {text : Text} {offset count : ℕ} (hcount : count ≠ 0)
    (hrange : offset + count ≤ text.length) :
    removed text offset count = some (splice text offset count []) ∧
      (splice text offset count []).length = text.length - count := by
  have hne : text ≠ [] := List.ne_nil_of_length_pos (by omega)
  have hlength : (splice text offset count []).length + count =
      text.length + ([] : Text).length := length_splice hrange
  rw [List.length_nil] at hlength
  exact ⟨by rw [removed, if_pos ⟨by omega, hne⟩, if_pos hrange], by omega⟩

/-- A deletion. -/
theorem keepsCaret_deletion {offset count : ℕ} (hcaret : ide.caret ≤ ide.text.length)
    (hcount : count ≠ 0) (hfits : (SentUpdate.edit ⟨offset, count, []⟩).Fits ide.text) :
    KeepsCaret ide (.edit ⟨offset, count, []⟩) ↔
      ide.text.length = 1 ∨ ide.caret ≤ offset ∨ offset + count ≤ ide.caret := by
  have hbounds : 2 * maxLength < int32Max := by decide
  have hrange : offset + count ≤ ide.text.length := hfits.range
  have hmax := hfits.length.1
  have hmessage : (SentUpdate.edit ⟨offset, count, []⟩).message =
      (RemoteUpdate.deletion 0 offset (decimal count)).message := by
    simp [SentUpdate.message, Edit.message, hcount, RemoteUpdate.message]
  have hformed : (RemoteUpdate.deletion 0 offset (decimal count)).WellFormed :=
    decimal_digits count
  have hshown := shown_textUpdaterPass hcaret hmax hformed
  rw [← hmessage, RemoteUpdate.shownIn, digitsValue_decimal, if_pos (by omega),
    deletionShown] at hshown
  by_cases hone : ide.text.length = 1
  · rw [if_pos hone] at hshown
    rw [keepsCaret_iff_of_shown hshown, SentUpdate.made, positionImage_deletion, removalImage]
    split_ifs <;> omega
  · obtain ⟨hremoved, hlength⟩ := removed_of_range hcount hrange
    rw [if_neg hone, hremoved, Option.bind_some] at hshown
    by_cases hbehind : ide.caret ≤ offset
    · rw [if_pos hbehind, caretAt_natCast, hlength] at hshown
      rw [keepsCaret_iff_of_shown hshown, SentUpdate.made, positionImage_deletion, removalImage,
        if_pos hbehind]
      omega
    · rw [if_neg hbehind] at hshown
      by_cases hlong : ide.caret < count
      · rw [caretAt, if_pos (by omega)] at hshown
        rw [keepsCaret_iff_shown hshown]
        exact iff_of_false (by simp) (by omega)
      · rw [← Nat.cast_sub (by omega), caretAt_natCast, hlength] at hshown
        rw [keepsCaret_iff_of_shown hshown, SentUpdate.made, positionImage_deletion,
          removalImage]
        split_ifs <;> omega

/-- The second half of a replacement in range. -/
theorem replaced_of_range {text added : Text} {caret offset : ℕ} (hoffset : offset ≤ text.length) :
    ((inserted text offset added).bind fun text ↦
      caretAt text (if offset ≥ caret then caret else caret + added.length)) =
        some (splice text offset 0 added,
          min (if caret ≤ offset then caret else caret + added.length)
            (text.length + added.length)) := by
  have hgrown : (splice text offset 0 added).length + 0 = text.length + added.length :=
    length_splice hoffset
  have hposition : (if offset ≥ caret then (caret : ℤ) else caret + added.length) =
      ((if caret ≤ offset then caret else caret + added.length : ℕ) : ℤ) := by
    split_ifs <;> rfl
  rw [inserted, if_pos hoffset, Option.bind_some, hposition, caretAt_natCast, ← hgrown,
    Nat.add_zero]

/-- A replacement. -/
theorem keepsCaret_replacement {offset count : ℕ} {added : Text}
    (hcaret : ide.caret ≤ ide.text.length) (hcount : count ≠ 0) (hadded : added ≠ [])
    (hfits : (SentUpdate.edit ⟨offset, count, added⟩).Fits ide.text) :
    KeepsCaret ide (.edit ⟨offset, count, added⟩) ↔
      ide.text.length = 1 ∨ ide.caret ≤ offset ∨ ide.caret = ide.text.length ∨
        offset + count = ide.text.length ∧ count ≤ ide.caret := by
  have hbounds : 2 * maxLength < int32Max := by decide
  have hrange : offset + count ≤ ide.text.length := hfits.range
  have hmax := hfits.length
  have hgrown := length_apply hfits.range
  simp only [SentUpdate.made] at hgrown hmax
  have hmessage : (SentUpdate.edit ⟨offset, count, added⟩).message =
      (RemoteUpdate.replacement count offset added).message := by
    simp [SentUpdate.message, Edit.message, hcount, hadded, RemoteUpdate.message]
  have hformed : (RemoteUpdate.replacement count offset added).WellFormed :=
    (show added.length ≤ maxLength by omega)
  have hshown := shown_textUpdaterPass hcaret hmax.1 hformed
  rw [← hmessage, RemoteUpdate.shownIn, if_pos (by omega), multipleShown,
    replacedRemoved] at hshown
  by_cases hone : ide.text.length = 1
  · have hstart : removalImage offset count ide.caret = offset := by
      unfold removalImage
      split_ifs <;> omega
    rw [if_pos hone, Option.bind_some, replaced_of_range (by simp; omega),
      List.length_nil] at hshown
    rw [keepsCaret_iff_of_shown hshown, SentUpdate.made, Edit.PositionImage, hstart,
      InsertionImage]
    simp only [Nat.lt_irrefl, if_false, Nat.zero_add]
    split_ifs <;> omega
  · obtain ⟨hremoved, hlength⟩ := removed_of_range hcount hrange
    rw [if_neg hone, hremoved] at hshown
    by_cases hbehind : ide.caret ≤ offset
    · have hstays : removalImage offset count ide.caret = ide.caret := if_pos hbehind
      rw [if_neg (by omega), Option.bind_some, replaced_of_range (by omega), hlength,
        if_pos hbehind] at hshown
      rw [keepsCaret_iff_of_shown hshown, SentUpdate.made, Edit.PositionImage, hstays,
        InsertionImage]
      dsimp only
      split_ifs <;> omega
    · by_cases hlong : ide.caret < count
      · rw [if_pos (by omega), Option.bind_none] at hshown
        rw [keepsCaret_iff_shown hshown]
        exact iff_of_false (by simp) (by omega)
      · rw [if_neg (by omega), Option.bind_some, replaced_of_range (by omega), hlength,
          if_neg hbehind] at hshown
        rw [keepsCaret_iff_of_shown hshown, SentUpdate.made, Edit.PositionImage, InsertionImage]
        have hpositive : 0 < added.length := List.length_pos_iff.mpr hadded
        by_cases hinside : ide.caret < offset + count
        · have hfirst : removalImage offset count ide.caret = offset := by
            rw [removalImage, if_neg hbehind, if_pos hinside]
          simp only [hfirst, Nat.lt_irrefl, if_false]
          omega
        · have hmoved : removalImage offset count ide.caret = ide.caret - count := by
            rw [removalImage, if_neg hbehind, if_neg hinside]
          rw [hmoved]
          dsimp only
          split_ifs <;> omega

/-- Assumes: a caret in the text and a sent update that fits the text. One pass of `textUpdater`
over the update leaves the caret at its image exactly when the caret stands where the update keeps
it. -/
theorem keepsCaret_iff (hcaret : ide.caret ≤ ide.text.length) {sent : SentUpdate}
    (hfits : sent.Fits ide.text) :
    KeepsCaret ide sent ↔ sent.CaretKept ide.hosting ide.text.length ide.caret := by
  cases sent with
  | enter offset => exact keepsCaret_enter hcaret hfits
  | edit made =>
    obtain ⟨offset, count, added⟩ := made
    rw [SentUpdate.CaretKept]
    split_ifs with hcount hadded
    · subst hcount
      exact keepsCaret_insertion hcaret hfits
    · subst hadded
      exact keepsCaret_deletion hcaret hcount hfits
    · exact keepsCaret_replacement hcaret hcount hadded hfits

/-- A selection in the middle of a text is replaced while the caret stands at its end. -/
theorem keepsCaret_iff_selection :
    KeepsCaret { text := str "abcd", caret := 4 } (.edit ⟨1, 2, str "xyz"⟩) ↔
      (SentUpdate.edit ⟨1, 2, str "xyz"⟩).CaretKept true 4 4 :=
  keepsCaret_iff (by decide) ⟨by decide, by decide, by decide⟩

/-- Two characters are pasted at the caret of another editor, which moves by one. -/
theorem not_keepsCaret :
    ¬ ∀ (ide : Ide) (sent : SentUpdate), ide.caret ≤ ide.text.length → sent.Fits ide.text →
      KeepsCaret ide sent := by
  intro hall
  have hfits : (SentUpdate.edit ⟨0, 0, str "ab"⟩).Fits [] := ⟨by decide, by decide, by decide⟩
  have hkept : KeepsCaret {} (.edit ⟨0, 0, str "ab"⟩) := hall {} _ (by decide) hfits
  rw [keepsCaret_insertion (by decide) hfits] at hkept
  exact absurd (hkept rfl) (by decide)

end CaretKept

end NovaIde.Client
