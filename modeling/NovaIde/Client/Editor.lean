import Mathlib.Data.Int.Basic
import NovaIde.Foundation.Splice
import NovaIde.Client.UpdateMessage

/-!
# The editor

`Ide` holds the text box and the flags that decide what a change of its text does.
`textBoxTextChanged` handles the event such a change raises: with no tokens left, outside a file
switch and in a session it announces the change to the other side, and in every other case it takes
one token. An assignment of `notepad.Text` replaces the whole text and is reported as such; a user
edit is reported as the range it replaced.

`textUpdater` applies the updates that arrive. Its thread reads a message, the caret and, for an
addition or a deletion, adds a token (`receiveUpdate`); the change of the text box itself is one
action of the dispatcher (`dispatchUpdate`). Both may throw, and what was done before stays done.
-/

set_option autoImplicit false
set_option relaxedAutoImplicit false

namespace NovaIde.Client

open Foundation

/-- A change of the text box as the event reports it. -/
structure TextChange where
  offset : ℕ
  addedLength : ℕ
  removedLength : ℕ
deriving DecidableEq, Repr

/-- The part of `Ide` that editing reads and writes. -/
structure Ide where
  /-- `notepad.Text` -/
  text : Text := []
  /-- `notepad.CaretIndex` -/
  caret : ℕ := 0
  tokens : ℤ := 0
  deletionFlag : Bool := false
  updatingFiles : Bool := false
  sessionStarted : Bool := false
  /-- `P2PCM.GetHost()` -/
  hosting : Bool := true
  /-- The updates handed to `AddTextChange` so far. -/
  announced : List Text := []
  /-- The undo actions queued by `BeginInvoke` that have not run. -/
  pendingUndo : ℕ := 0
deriving DecidableEq, Repr

/-! ### Announcing changes -/

/-- `SyncManager.AddTextChange`. -/
def Ide.addTextChange (ide : Ide) (update : Text) : Ide :=
  { ide with announced := ide.announced ++ [update] }

/-- The body of the loop of `TextBox_TextChanged` over the reported changes. Offsets are never
negative, so the test `offset >= 0` is not repeated. -/
def Ide.announceChange (ide : Ide) (change : TextChange) : Ide :=
  let { offset, addedLength, removedLength } := change
  let addedText := (ide.text.drop offset).take addedLength
  if offset + addedLength ≤ ide.text.length ∧ removedLength = 0 then
    if addedText ≠ [newline] then
      ide.addTextChange (updateMessage ADDITION_IDENTIFIER addedLength offset addedText)
    else ide
  else if addedLength > 0 ∧ removedLength > 0 then
    let ide :=
      if newline ∉ addedText then
        ide.addTextChange (updateMessage MULTIPLE_ACTION_IDENTIFIER removedLength offset addedText)
      else ide
    { ide with deletionFlag := false }
  else if ide.deletionFlag then
    { ide.addTextChange
        (updateMessage DELETION_IDENTIFIER addedLength offset (decimal removedLength)) with
      deletionFlag := false }
  else ide

/-- Whether `TextBox_TextChanged` announces. -/
def Ide.announces (ide : Ide) : Bool :=
  ide.tokens = 0 && !ide.updatingFiles && ide.sessionStarted

/-- `TextBox_TextChanged`. The member also queues the undo of its own change. -/
def Ide.textBoxTextChanged (ide : Ide) (changes : List TextChange) : Ide :=
  if ide.announces then
    let ide := changes.foldl Ide.announceChange ide
    if ide.hosting then ide else { ide with pendingUndo := ide.pendingUndo + 1 }
  else { ide with tokens := ide.tokens - 1 }

/-- `notepad.Text = text`: an assignment of the text already there raises no event. -/
def Ide.assignText (ide : Ide) (text : Text) : Ide :=
  if text = ide.text then ide
  else
    { ide with text, caret := 0 }.textBoxTextChanged [⟨0, text.length, ide.text.length⟩]

/-! ### The user -/

/-- A user edit: the range it replaces and what it puts there. -/
structure Edit where
  offset : ℕ
  removed : ℕ
  added : Text
deriving DecidableEq, Repr

/-- The text after an edit. -/
def Edit.apply (edit : Edit) (text : Text) : Text :=
  splice text edit.offset edit.removed edit.added

/-- A user edit, reported as one change. -/
def Ide.userEdit (ide : Ide) (edit : Edit) : Ide :=
  { ide with
    text := edit.apply ide.text
    caret := edit.offset + edit.added.length }.textBoxTextChanged
      [⟨edit.offset, edit.added.length, edit.removed⟩]

/-- The keys `notepad_PreviewKeyDown` looks at. -/
inductive Key
  | enter
  | back
deriving DecidableEq, Repr

/-- The edit the Enter key makes in a session. -/
def Ide.enterEdit (ide : Ide) : Edit := ⟨ide.caret, 0, [newline]⟩

/-- `notepad_PreviewKeyDown`. -/
def Ide.notepadPreviewKeyDown (ide : Ide) (key : Key) : Ide :=
  if ide.sessionStarted then
    match key with
    | .enter =>
      let caretIndex := ide.caret
      let ide := ide.assignText (ide.enterEdit.apply ide.text)
      { ide with caret := caretIndex + 1 }.addTextChange
        (updateMessage ADDITION_IDENTIFIER 0 caretIndex [newline])
    | .back => { ide with deletionFlag := true }
  else ide

/-- The user puts the caret somewhere. -/
def Ide.placeCaret (ide : Ide) (position : ℕ) : Ide :=
  { ide with caret := min position ide.text.length }

/-- The undo action queued by the member: when the text box can undo, it takes back an edit, here
given as the edit that does so. -/
def Ide.runUndo (ide : Ide) (undo : Option Edit) : Ide :=
  let ide := { ide with pendingUndo := ide.pendingUndo - 1 }
  match undo with
  | none => ide
  | some edit => { ide with tokens := ide.tokens + 1 }.userEdit edit

/-! ### Files -/

/-- `LoadFileIntoIDE`: a file that cannot be read leaves the text alone. -/
def Ide.loadFileIntoIDE (ide : Ide) (fileContent : Option Text) : Ide :=
  match fileContent with
  | some content => ide.assignText content
  | none => ide

/-- `switchFile`, with what the file read contains. -/
def Ide.switchFile (ide : Ide) (fileContent : Option Text) : Ide :=
  { { ide with updatingFiles := true }.loadFileIntoIDE fileContent with updatingFiles := false }

/-- `setOtherUser`, with the texts that removing the old files and loading the received ones put
into the text box. -/
def Ide.setOtherUser (ide : Ide) (loaded : List Text) : Ide :=
  { loaded.foldl Ide.assignText { ide with updatingFiles := true } with
    updatingFiles := false
    sessionStarted := true }

/-! ### Applying updates -/

/-- Code that works on the editor and may throw, keeping what it did until then. -/
abbrev UiAction := EStateM Fault Ide

/-- `int` arithmetic. -/
def wrapInt32 (value : ℤ) : ℤ := Int.bmod value (2 ^ 32)

/-- `String.Insert`. -/
def stringInsert (text : Text) (offset : ℤ) (value : Text) : UiAction Text :=
  if 0 ≤ offset ∧ offset ≤ text.length then pure (splice text offset.toNat 0 value)
  else throw .insertRange

/-- `String.Remove`. -/
def stringRemove (text : Text) (offset count : ℤ) : UiAction Text :=
  if 0 ≤ offset ∧ 0 ≤ count ∧ offset + count ≤ text.length then
    pure (splice text offset.toNat count.toNat [])
  else throw .removeRange

/-- An assignment of `notepad.Text`. -/
def setText (text : Text) : UiAction Unit := modify (·.assignText text)

/-- An assignment of `notepad.CaretIndex`: a position past the end becomes the end. -/
def setCaretIndex (position : ℤ) : UiAction Unit :=
  if position < 0 then throw .caretRange else modify (·.placeCaret position.toNat)

/-- `int.Parse` on the updater thread. -/
def parse (text : Text) : UiAction ℤ :=
  match parseInt text with
  | .ok value => pure value
  | .error fault => throw fault

/-- An update that has been read and not yet applied. -/
structure PendingUpdate where
  action : Text
  length : ℤ
  offset : ℤ
  text : Text
  prevCursosrPosition : ℤ
  deleteLen : ℤ := 0
deriving DecidableEq, Repr

/-- `this.tokens += count`. -/
def addTokens (count : ℤ) : UiAction Unit :=
  modify fun ide ↦ { ide with tokens := ide.tokens + count }

/-- `textUpdater` from the message to the call of the dispatcher, with the caret it reads. -/
def receiveUpdate (update : Text) (prevCursosrPosition : ℕ) : UiAction PendingUpdate := do
  let { action, strLength, strOffset, text, .. } := parseFields update
  let length ← parse strLength
  let offset ← parse strOffset
  if action = ADDITION_IDENTIFIER then
    addTokens 1
    return { action, length, offset, text, prevCursosrPosition }
  else if action = DELETION_IDENTIFIER then
    let deleteLen ← parse text
    addTokens 1
    return { action, length, offset, text, prevCursosrPosition, deleteLen }
  else
    return { action, length, offset, text, prevCursosrPosition }

/-- Where an addition puts the caret. -/
def moveCaretPastAddition (update : PendingUpdate) : UiAction Unit :=
  if update.offset > update.prevCursosrPosition then setCaretIndex update.prevCursosrPosition
  else if update.offset = update.prevCursosrPosition then
    setCaretIndex (wrapInt32 (update.prevCursosrPosition + 1))
  else setCaretIndex (wrapInt32 (update.prevCursosrPosition + update.length))

/-- The dispatcher action of an addition. -/
def applyAddition (update : PendingUpdate) : UiAction Unit := do
  setText (← stringInsert (← get).text update.offset update.text)
  moveCaretPastAddition update
  if update.text = [newline] then
    if !(← get).hosting then setCaretIndex ((← get).caret + 1)

/-- The removal in a deletion and in a replacement: nothing is removed past the end. -/
def removeInRange (offset count : ℤ) : UiAction Unit := do
  let text := (← get).text
  if offset < text.length then setText (← stringRemove text offset count)
  else if offset = text.length ∧ text.length ≠ 0 then setText (← stringRemove text offset count)

/-- The dispatcher action of a deletion. -/
def applyDeletion (update : PendingUpdate) : UiAction Unit := do
  if (← get).text.length = 1 then setText []
  else
    removeInRange update.offset update.deleteLen
    if update.offset ≥ update.prevCursosrPosition then setCaretIndex update.prevCursosrPosition
    else setCaretIndex (wrapInt32 (update.prevCursosrPosition - update.deleteLen))

/-- The first half of a replacement: the old text is removed. -/
def removeReplaced (update : PendingUpdate) : UiAction Unit := do
  if (← get).text.length = 1 then setText []
  else
    removeInRange update.offset update.length
    if update.offset < update.prevCursosrPosition then
      setCaretIndex (wrapInt32 (update.prevCursosrPosition - update.length))

/-- The second half of a replacement: the new text is inserted. -/
def insertReplacement (update : PendingUpdate) : UiAction Unit := do
  setText (← stringInsert (← get).text update.offset update.text)
  if update.offset ≥ update.prevCursosrPosition then setCaretIndex update.prevCursosrPosition
  else setCaretIndex (wrapInt32 (update.prevCursosrPosition + update.text.length))

/-- The dispatcher action of a replacement. -/
def applyMultiple (update : PendingUpdate) : UiAction Unit := do
  addTokens 2
  removeReplaced update
  insertReplacement update

/-- The call of the dispatcher, by the action of the update. -/
def dispatchUpdate (update : PendingUpdate) : UiAction Unit :=
  if update.action = ADDITION_IDENTIFIER then applyAddition update
  else if update.action = DELETION_IDENTIFIER then applyDeletion update
  else if update.action = MULTIPLE_ACTION_IDENTIFIER then applyMultiple update
  else pure ()

/-- One pass of the loop of `textUpdater` without interruption. -/
def textUpdaterPass (update : Text) : UiAction Unit := do
  if update ≠ [] then
    let pending ← receiveUpdate update (← get).caret
    dispatchUpdate pending

/-! ### What single operations do -/

section Operations

variable {ide : Ide}

/-- An event that is not announced takes a token. -/
theorem textBoxTextChanged_of_not_announces (hannounces : ide.announces = false)
    (changes : List TextChange) :
    ide.textBoxTextChanged changes = { ide with tokens := ide.tokens - 1 } := by
  rw [Ide.textBoxTextChanged, hannounces]
  rfl

/-- Nothing is announced while there are tokens. -/
theorem not_announces_of_tokens (htokens : ide.tokens ≠ 0) : ide.announces = false := by
  simp [Ide.announces, htokens]

/-- An editor that announces has no tokens. -/
theorem tokens_of_announces (hannounces : ide.announces = true) : ide.tokens = 0 := by
  simp only [Ide.announces, Bool.and_eq_true, decide_eq_true_eq] at hannounces
  exact hannounces.1.1

/-- An assignment that changes the text and is not announced takes a token. -/
theorem assignText_of_not_announces (hannounces : ide.announces = false) {text : Text}
    (htext : text ≠ ide.text) :
    ide.assignText text = { ide with text, caret := 0, tokens := ide.tokens - 1 } := by
  rw [Ide.assignText, if_neg htext, textBoxTextChanged_of_not_announces (by exact hannounces)]

/-- Announcing a change may add messages and clear the deletion flag, and touches nothing else. -/
theorem announceChange_frame (ide : Ide) (change : TextChange) :
    ∃ messages flag, ide.announceChange change =
      { ide with announced := ide.announced ++ messages, deletionFlag := flag } := by
  obtain ⟨offset, addedLength, removedLength⟩ := change
  simp only [Ide.announceChange, Ide.addTextChange]
  split_ifs
  · exact ⟨[_], ide.deletionFlag, rfl⟩
  · exact ⟨[], ide.deletionFlag, by simp⟩
  · exact ⟨[], false, by simp⟩
  · exact ⟨[_], false, rfl⟩
  · exact ⟨[_], false, rfl⟩
  · exact ⟨[], ide.deletionFlag, by simp⟩

/-- The event of a change takes a token or announces, may queue an undo, and touches nothing
else. -/
theorem textBoxTextChanged_frame (ide : Ide) (changes : List TextChange) :
    ∃ messages flag pendingUndo, ide.textBoxTextChanged changes =
      { ide with
        announced := ide.announced ++ messages
        deletionFlag := flag
        pendingUndo
        tokens := if ide.announces then ide.tokens else ide.tokens - 1 } := by
  have hfold : ∀ ide : Ide, ∃ messages flag, changes.foldl Ide.announceChange ide =
      { ide with announced := ide.announced ++ messages, deletionFlag := flag } := by
    induction changes with
    | nil => exact fun ide ↦ ⟨[], ide.deletionFlag, by simp⟩
    | cons change rest ih =>
      intro ide
      obtain ⟨messages, flag, hframe⟩ := announceChange_frame ide change
      obtain ⟨messages', flag', hrest⟩ := ih (ide.announceChange change)
      refine ⟨messages ++ messages', flag', ?_⟩
      rw [List.foldl_cons, hrest, hframe, List.append_assoc]
  obtain ⟨messages, flag, hframe⟩ := hfold ide
  by_cases hannounces : ide.announces = true
  · simp only [Ide.textBoxTextChanged, if_pos hannounces, hframe]
    by_cases hhosting : ide.hosting = true
    · exact ⟨messages, flag, ide.pendingUndo, if_pos hhosting⟩
    · exact ⟨messages, flag, ide.pendingUndo + 1, if_neg hhosting⟩
  · refine ⟨[], ide.deletionFlag, ide.pendingUndo, ?_⟩
    simp only [Ide.textBoxTextChanged, if_neg hannounces, List.append_nil]

/-- While the editor announces, an event with a single change announces that change and queues at
most an undo. -/
theorem textBoxTextChanged_of_announces (hannounces : ide.announces = true) (change : TextChange) :
    ∃ pendingUndo, ide.textBoxTextChanged [change] =
      { ide.announceChange change with pendingUndo } := by
  simp only [Ide.textBoxTextChanged, if_pos hannounces, List.foldl_cons, List.foldl_nil]
  by_cases hhosting : (ide.announceChange change).hosting = true
  · exact ⟨(ide.announceChange change).pendingUndo, if_pos hhosting⟩
  · exact ⟨(ide.announceChange change).pendingUndo + 1, if_neg hhosting⟩

@[simp] theorem text_textBoxTextChanged (ide : Ide) (changes : List TextChange) :
    (ide.textBoxTextChanged changes).text = ide.text := by
  obtain ⟨_, _, _, hframe⟩ := textBoxTextChanged_frame ide changes
  rw [hframe]

@[simp] theorem updatingFiles_textBoxTextChanged (ide : Ide) (changes : List TextChange) :
    (ide.textBoxTextChanged changes).updatingFiles = ide.updatingFiles := by
  obtain ⟨_, _, _, hframe⟩ := textBoxTextChanged_frame ide changes
  rw [hframe]

@[simp] theorem tokens_textBoxTextChanged (ide : Ide) (changes : List TextChange) :
    (ide.textBoxTextChanged changes).tokens =
      if ide.announces then ide.tokens else ide.tokens - 1 := by
  obtain ⟨_, _, _, hframe⟩ := textBoxTextChanged_frame ide changes
  rw [hframe]

@[simp] theorem text_assignText (ide : Ide) (text : Text) : (ide.assignText text).text = text := by
  unfold Ide.assignText
  split_ifs with htext
  · exact htext.symm
  · exact text_textBoxTextChanged _ _

@[simp] theorem updatingFiles_assignText (ide : Ide) (text : Text) :
    (ide.assignText text).updatingFiles = ide.updatingFiles := by
  unfold Ide.assignText
  split_ifs
  · rfl
  · exact updatingFiles_textBoxTextChanged _ _

@[simp] theorem text_userEdit (ide : Ide) (edit : Edit) :
    (ide.userEdit edit).text = edit.apply ide.text :=
  text_textBoxTextChanged _ _

@[simp] theorem run_setText (text : Text) :
    (setText text).run ide = .ok () (ide.assignText text) := rfl

@[simp] theorem run_addTokens (count : ℤ) :
    (addTokens count).run ide = .ok () { ide with tokens := ide.tokens + count } := rfl

theorem run_setCaretIndex (position : ℤ) :
    (setCaretIndex position).run ide =
      if position < 0 then .error .caretRange ide else .ok () (ide.placeCaret position.toNat) := by
  unfold setCaretIndex
  split_ifs <;> rfl

theorem run_stringInsert (text : Text) (offset : ℤ) (value : Text) :
    (stringInsert text offset value).run ide =
      if 0 ≤ offset ∧ offset ≤ text.length then .ok (splice text offset.toNat 0 value) ide
      else .error .insertRange ide := by
  unfold stringInsert
  split_ifs <;> rfl

theorem run_stringRemove (text : Text) (offset count : ℤ) :
    (stringRemove text offset count).run ide =
      if 0 ≤ offset ∧ 0 ≤ count ∧ offset + count ≤ text.length then
        .ok (splice text offset.toNat count.toNat []) ide
      else .error .removeRange ide := by
  unfold stringRemove
  split_ifs <;> rfl

theorem run_parse (text : Text) :
    (parse text).run ide =
      match parseInt text with
      | .ok value => .ok value ide
      | .error fault => .error fault ide := by
  unfold parse
  cases parseInt text <;> rfl

/-- `int` arithmetic is exact within its range. -/
theorem wrapInt32_of_range {value : ℤ} (hlower : -(int32Max : ℤ) - 1 ≤ value)
    (hupper : value ≤ int32Max) : wrapInt32 value = value := by
  unfold int32Max at hlower hupper
  exact Int.bmod_eq_of_le (by omega) (by omega)

/-- A caret position within the range of `int` is set as it is, up to the end of the text. -/
theorem run_setCaretIndex_wrap {position : ℤ} (hlower : 0 ≤ position)
    (hupper : position ≤ int32Max) :
    (setCaretIndex (wrapInt32 position)).run ide = .ok () (ide.placeCaret position.toNat) := by
  rw [wrapInt32_of_range (by omega) hupper, run_setCaretIndex, if_neg (by omega)]

end Operations

end NovaIde.Client
