import NovaIde.Client.Editor

/-!
# What the code takes from the tokens

`textUpdater` adds tokens for the events its assignments raise, and the events take them. `Takes`
says how many tokens a piece of its code takes, and that it changes nothing else but the text and
the caret, even when it throws: a calculus with a rule for sequences and one for each operation.
From it, `takes_dispatchUpdate` says which updates take the tokens that were added for them.

The handlers of the user interface take tokens too, by events that are not announced.
-/

set_option autoImplicit false
set_option relaxedAutoImplicit false

namespace NovaIde.Client

open Foundation

/-! ### Updates and their tokens -/

/-- Whether a removal as `textUpdater` performs it changes the text. -/
def RemovesFrom (text : Text) (offset count : ℤ) : Prop :=
  text.length = 1 ∨ offset < text.length ∧ count ≠ 0

instance (text : Text) (offset count : ℤ) : Decidable (RemovesFrom text offset count) :=
  inferInstanceAs (Decidable (_ ∨ _))

/-- Whether an update changes the text each time `textUpdater` adds a token for it. -/
def PendingUpdate.Changes (update : PendingUpdate) (text : Text) : Prop :=
  if update.action = ADDITION_IDENTIFIER then update.text ≠ []
  else if update.action = DELETION_IDENTIFIER then RemovesFrom text update.offset update.deleteLen
  else if update.action = MULTIPLE_ACTION_IDENTIFIER then
    RemovesFrom text update.offset update.length ∧ update.text ≠ []
  else True

instance (update : PendingUpdate) (text : Text) : Decidable (update.Changes text) :=
  inferInstanceAs (Decidable (if update.action = ADDITION_IDENTIFIER then update.text ≠ []
    else if update.action = DELETION_IDENTIFIER then
      RemovesFrom text update.offset update.deleteLen
    else if update.action = MULTIPLE_ACTION_IDENTIFIER then
      RemovesFrom text update.offset update.length ∧ update.text ≠ []
    else True))

/-- The text after a removal as `textUpdater` performs it: a text of length one is cleared, and past
the end nothing is removed. -/
def textWithout (text : Text) (offset count : ℤ) : Text :=
  if text.length = 1 then []
  else if offset < text.length then splice text offset.toNat count.toNat [] else text

/-- The text after an update. -/
def PendingUpdate.textAfter (update : PendingUpdate) (text : Text) : Text :=
  if update.action = ADDITION_IDENTIFIER then splice text update.offset.toNat 0 update.text
  else if update.action = DELETION_IDENTIFIER then textWithout text update.offset update.deleteLen
  else if update.action = MULTIPLE_ACTION_IDENTIFIER then
    splice (textWithout text update.offset update.length) update.offset.toNat 0 update.text
  else text

/-- The tokens added for an update that is not yet applied: those of a replacement are added when
it is. -/
def PendingUpdate.owed (update : PendingUpdate) : ℤ :=
  if update.action = ADDITION_IDENTIFIER ∨ update.action = DELETION_IDENTIFIER then 1 else 0

/-! ### The calculus -/

/-- The second editor has the text and so many tokens less than the first, and otherwise differs in
its caret only. -/
def Took (count : ℤ) (text : Text) (before after : Ide) : Prop :=
  ∃ caret, after = { before with text, caret, tokens := before.tokens - count }

section Took

variable {first second : ℤ} {text text' : Text} {ide middle last : Ide}

theorem Took.trans (hfirst : Took first text' ide middle) (hsecond : Took second text middle last) :
    Took (first + second) text ide last := by
  obtain ⟨_, rfl⟩ := hfirst
  obtain ⟨caret, rfl⟩ := hsecond
  exact ⟨caret, by simp only [Int.sub_sub]⟩

theorem Took.text_eq (htook : Took first text ide last) : last.text = text := by
  obtain ⟨_, rfl⟩ := htook
  rfl

theorem Took.tokens (htook : Took first text ide last) : last.tokens = ide.tokens - first := by
  obtain ⟨_, rfl⟩ := htook
  rfl

theorem Took.announced (htook : Took first text ide last) : last.announced = ide.announced := by
  obtain ⟨_, rfl⟩ := htook
  rfl

theorem Took.updatingFiles (htook : Took first text ide last) :
    last.updatingFiles = ide.updatingFiles := by
  obtain ⟨_, rfl⟩ := htook
  rfl

theorem took_zero (ide : Ide) : Took 0 ide.text ide ide := ⟨ide.caret, by simp⟩

/-- An assignment that is not announced takes a token exactly when it changes the text. -/
theorem took_assignText (hannounces : ide.announces = false) (text : Text) :
    Took (if text = ide.text then 0 else 1) text ide (ide.assignText text) := by
  split_ifs with htext
  · exact ⟨ide.caret, by simp [Ide.assignText, htext]⟩
  · exact ⟨0, assignText_of_not_announces hannounces htext⟩

/-- Assignments that are not announced take no token exactly when none of them changes the text. -/
theorem took_foldl_assignText (loaded : List Text) :
    ∀ {ide : Ide}, ide.updatingFiles = true →
      ∃ (count : ℕ) (text : Text), Took count text ide (loaded.foldl Ide.assignText ide) ∧
        (count = 0 ↔ ∀ content ∈ loaded, content = ide.text) := by
  induction loaded with
  | nil => exact fun {ide} _ ↦ ⟨0, ide.text, took_zero ide, by simp⟩
  | cons content rest ih =>
    intro ide hupdating
    have hannounces : ide.announces = false := by simp [Ide.announces, hupdating]
    have htook := took_assignText hannounces content
    obtain ⟨count, text, hrest, hcount⟩ := ih (htook.updatingFiles.trans hupdating)
    rw [text_assignText] at hcount
    have hwhole := htook.trans hrest
    by_cases hcontent : content = ide.text
    · rw [if_pos hcontent, zero_add] at hwhole
      exact ⟨count, text, hwhole, by rw [hcount]; simp [hcontent]⟩
    · rw [if_neg hcontent] at hwhole
      refine ⟨1 + count, text, by exact_mod_cast hwhole, iff_of_false (by omega) fun hall ↦ ?_⟩
      exact hcontent (hall content (by simp))

end Took

/-- Code that changes nothing but the text, the caret and the tokens, and when it does not throw
leaves this text and takes so many tokens. -/
def Takes {α : Type} (count : ℤ) (text : Text) (action : UiAction α) (ide : Ide) : Prop :=
  match action.run ide with
  | .ok _ ide' => Took count text ide ide'
  | .error _ ide' => ∃ other otherText, Took other otherText ide ide'

section Takes

variable {α β : Type} {ide : Ide} {first second : ℤ} {text text' : Text}

theorem takes_pure (value : α) : Takes 0 ide.text (pure value) ide := took_zero ide

theorem Takes.of_run {action : UiAction α} {value : α} {ide' : Ide}
    (htakes : Takes first text action ide) (hrun : action.run ide = .ok value ide') :
    Took first text ide ide' := by
  rwa [Takes, hrun] at htakes

/-- Code in sequence takes what its parts take. -/
theorem Takes.bind {action : UiAction α} {next : α → UiAction β}
    (hfirst : Takes first text' action ide)
    (hsecond : ∀ value middle, action.run ide = .ok value middle →
      Takes second text (next value) middle) :
    Takes (first + second) text (action >>= next) ide := by
  simp only [Takes, EStateM.run_bind] at hfirst hsecond ⊢
  cases haction : action.run ide with
  | error fault middle => simpa only [haction] using hfirst
  | ok value middle =>
    simp only [haction] at hfirst
    have hnext := hsecond value middle haction
    simp only
    cases hrun : (next value).run middle with
    | ok result last =>
      rw [hrun] at hnext
      exact hfirst.trans hnext
    | error fault last =>
      rw [hrun] at hnext
      obtain ⟨other, otherText, htook⟩ := hnext
      exact ⟨_, _, hfirst.trans htook⟩

/-- Code followed by code that takes nothing and leaves the text. -/
theorem Takes.bind_zero {action : UiAction α} {next : α → UiAction β}
    (hfirst : Takes first text action ide)
    (hsecond : ∀ value middle, Takes 0 middle.text (next value) middle) :
    Takes first text (action >>= next) ide := by
  have hwhole : Takes (first + 0) text (action >>= next) ide :=
    hfirst.bind fun value middle hrun ↦ by
      have hnext := hsecond value middle
      rwa [(hfirst.of_run hrun).text_eq] at hnext
  rwa [Int.add_zero] at hwhole

theorem takes_get_bind {next : Ide → UiAction β} (hnext : Takes first text (next ide) ide) :
    Takes first text (get >>= next) ide :=
  hnext

theorem takes_stringInsert_bind {whole value : Text} {offset : ℤ} {next : Text → UiAction β}
    (hnext : Takes first text (next (splice whole offset.toNat 0 value)) ide) :
    Takes first text (stringInsert whole offset value >>= next) ide := by
  unfold Takes
  rw [EStateM.run_bind, run_stringInsert]
  split_ifs
  · exact hnext
  · exact ⟨0, ide.text, took_zero ide⟩

theorem takes_stringRemove_bind {whole : Text} {offset count : ℤ} {next : Text → UiAction β}
    (hnext : 0 ≤ offset ∧ 0 ≤ count ∧ offset + count ≤ whole.length →
      Takes first text (next (splice whole offset.toNat count.toNat [])) ide) :
    Takes first text (stringRemove whole offset count >>= next) ide := by
  unfold Takes
  rw [EStateM.run_bind, run_stringRemove]
  split_ifs with hrange
  · exact hnext hrange
  · exact ⟨0, ide.text, took_zero ide⟩

theorem takes_setText (htokens : ide.tokens ≠ 0) (text : Text) :
    Takes (if text = ide.text then 0 else 1) text (setText text) ide :=
  took_assignText (not_announces_of_tokens htokens) text

theorem takes_setCaretIndex (position : ℤ) : Takes 0 ide.text (setCaretIndex position) ide := by
  unfold Takes
  rw [run_setCaretIndex]
  split_ifs
  · exact ⟨0, ide.text, took_zero ide⟩
  · exact ⟨min position.toNat ide.text.length, by simp [Ide.placeCaret]⟩

theorem takes_addTokens_bind {count : ℤ} {next : Unit → UiAction β}
    (hnext : Takes first text (next ()) { ide with tokens := ide.tokens + count }) :
    Takes (first - count) text (addTokens count >>= next) ide := by
  have hadded : Takes (-count) ide.text (addTokens count) ide := ⟨ide.caret, by simp⟩
  have hwhole := hadded.bind fun value middle hrun ↦ by
    cases hrun
    exact hnext
  rwa [neg_add_eq_sub] at hwhole

end Takes

/-! ### Applying an update -/

section Dispatch

variable {ide : Ide} {offset count : ℤ}

/-- An insertion takes a token unless it inserts nothing. -/
theorem takes_insert (htokens : ide.tokens ≠ 0) (value : Text) {move : UiAction Unit}
    (hmove : ∀ {ide : Ide}, Takes 0 ide.text move ide) :
    Takes (if value = [] then 0 else 1) (splice ide.text offset.toNat 0 value)
      (do
        setText (← stringInsert (← get).text offset value)
        move : UiAction Unit) ide := by
  refine takes_get_bind (takes_stringInsert_bind ?_)
  have hchanged : splice ide.text offset.toNat 0 value = ide.text ↔ value = [] :=
    not_iff_not.mp splice_insert_ne
  have htakes := (takes_setText htokens (splice ide.text offset.toNat 0 value)).bind_zero
    fun _ _ ↦ hmove
  simpa only [hchanged] using htakes

/-- A removal takes a token unless it removes nothing. -/
theorem takes_remove (htokens : ide.tokens ≠ 0) (offset count : ℤ) :
    Takes (if count = 0 then 0 else 1) (splice ide.text offset.toNat count.toNat [])
      (do setText (← stringRemove ide.text offset count) : UiAction Unit) ide := by
  refine takes_stringRemove_bind fun hrange ↦ ?_
  have hchanged : splice ide.text offset.toNat count.toNat [] = ide.text ↔ count = 0 := by
    rw [← not_iff_not, ← ne_eq, splice_remove_ne (by omega)]
    omega
  have htakes := takes_setText htokens (splice ide.text offset.toNat count.toNat [])
  simpa only [hchanged] using htakes

/-- The removal of an update takes a token unless it starts past the end or removes nothing: at the
end of the text only the removal of nothing is in range. -/
theorem takes_removeInRange (htokens : ide.tokens ≠ 0) (offset count : ℤ) :
    Takes (if offset < ide.text.length ∧ count ≠ 0 then 1 else 0)
      (if offset < ide.text.length then splice ide.text offset.toNat count.toNat [] else ide.text)
      (removeInRange offset count) ide := by
  refine takes_get_bind ?_
  by_cases hinside : offset < ide.text.length
  · simp only [if_pos hinside]
    simpa only [hinside, true_and, ne_eq, ite_not] using takes_remove htokens offset count
  · simp only [if_neg hinside, if_neg fun hboth : _ ∧ count ≠ 0 ↦ hinside hboth.1]
    split_ifs with hend
    · refine takes_stringRemove_bind fun hrange ↦ ?_
      have hcount : count = 0 := by omega
      have hsame : splice ide.text offset.toNat count.toNat [] = ide.text := by
        simp [splice, hcount]
      have htakes := takes_setText htokens ide.text
      rw [hsame]
      rwa [if_pos rfl] at htakes
    · exact takes_pure _

/-- The removal of a deletion or of a replacement, and the move of the caret after it. -/
theorem takes_removal (htokens : ide.tokens ≠ 0) {move : UiAction Unit}
    (hmove : ∀ {ide : Ide}, Takes 0 ide.text move ide) :
    Takes (if RemovesFrom ide.text offset count then 1 else 0) (textWithout ide.text offset count)
      (do
        if (← get).text.length = 1 then setText []
        else
          removeInRange offset count
          move : UiAction Unit) ide := by
  refine takes_get_bind ?_
  by_cases hone : ide.text.length = 1
  · have hempty : ([] : Text) ≠ ide.text := fun heq ↦ by simp [← heq] at hone
    have htakes := takes_setText htokens []
    rw [if_neg hempty] at htakes
    rwa [if_pos (show RemovesFrom ide.text offset count from Or.inl hone), textWithout,
      if_pos hone, if_pos hone]
  · have htakes := (takes_removeInRange htokens offset count).bind_zero fun _ _ ↦ hmove
    simpa only [RemovesFrom, textWithout, hone, false_or, if_false] using htakes

variable (update : PendingUpdate)

theorem takes_applyAddition (htokens : ide.tokens ≠ 0) :
    Takes (if update.text = [] then 0 else 1) (splice ide.text update.offset.toNat 0 update.text)
      (applyAddition update) ide := by
  refine takes_insert htokens update.text fun {ide} ↦ ?_
  have hmove : Takes 0 ide.text (moveCaretPastAddition update) ide := by
    unfold moveCaretPastAddition
    split_ifs
    · exact takes_setCaretIndex _
    · exact takes_setCaretIndex _
    · exact takes_setCaretIndex _
  refine hmove.bind_zero fun _ middle ↦ ?_
  split_ifs
  · refine takes_get_bind ?_
    split_ifs
    · exact takes_get_bind (takes_setCaretIndex _)
    · exact takes_pure _
  · exact takes_pure _

theorem takes_applyDeletion (htokens : ide.tokens ≠ 0) :
    Takes (if RemovesFrom ide.text update.offset update.deleteLen then 1 else 0)
      (textWithout ide.text update.offset update.deleteLen) (applyDeletion update) ide := by
  refine takes_removal htokens fun {ide} ↦ ?_
  split_ifs
  · exact takes_setCaretIndex _
  · exact takes_setCaretIndex _

theorem takes_removeReplaced (htokens : ide.tokens ≠ 0) :
    Takes (if RemovesFrom ide.text update.offset update.length then 1 else 0)
      (textWithout ide.text update.offset update.length) (removeReplaced update) ide := by
  refine takes_removal htokens fun {ide} ↦ ?_
  split_ifs
  · exact takes_setCaretIndex _
  · exact takes_pure _

theorem takes_insertReplacement (htokens : ide.tokens ≠ 0) :
    Takes (if update.text = [] then 0 else 1) (splice ide.text update.offset.toNat 0 update.text)
      (insertReplacement update) ide := by
  refine takes_insert htokens update.text fun {ide} ↦ ?_
  split_ifs
  · exact takes_setCaretIndex _
  · exact takes_setCaretIndex _

/-- A replacement adds two tokens and takes one for each half that changes the text. -/
theorem takes_applyMultiple (htokens : 0 ≤ ide.tokens) :
    Takes ((if RemovesFrom ide.text update.offset update.length then 1 else 0) +
        (if update.text = [] then 0 else 1) - 2)
      (splice (textWithout ide.text update.offset update.length) update.offset.toNat 0 update.text)
      (applyMultiple update) ide := by
  refine takes_addTokens_bind ?_
  have hadded : ({ ide with tokens := ide.tokens + 2 } : Ide).tokens = ide.tokens + 2 := rfl
  have hremoval := takes_removeReplaced update
    (show ({ ide with tokens := ide.tokens + 2 } : Ide).tokens ≠ 0 by omega)
  refine hremoval.bind fun _ middle hrun ↦ ?_
  have htook := hremoval.of_run hrun
  have hinsertion := takes_insertReplacement update (show middle.tokens ≠ 0 by
    rw [htook.tokens, hadded]
    split_ifs <;> omega)
  rwa [htook.text_eq] at hinsertion

/-- Applying an update takes at most the tokens it is owed, and all of them exactly when it makes
the changes it should. -/
theorem takes_dispatchUpdate (howed : update.owed ≤ ide.tokens) :
    ∃ taken, Takes taken (update.textAfter ide.text) (dispatchUpdate update) ide ∧
      taken ≤ update.owed ∧ (taken = update.owed ↔ update.Changes ide.text) := by
  unfold PendingUpdate.owed at howed ⊢
  unfold PendingUpdate.Changes PendingUpdate.textAfter dispatchUpdate
  by_cases hadd : update.action = ADDITION_IDENTIFIER
  · simp only [if_pos hadd, if_pos (Or.inl hadd : _ ∨ update.action = _)] at howed ⊢
    refine ⟨_, takes_applyAddition update (by omega), ?_⟩
    split_ifs with hempty <;> simp [hempty]
  by_cases hdelete : update.action = DELETION_IDENTIFIER
  · simp only [if_neg hadd, if_pos hdelete, if_pos (Or.inr hdelete : update.action = _ ∨ _)]
      at howed ⊢
    refine ⟨_, takes_applyDeletion update (by omega), ?_⟩
    split_ifs with hremoves <;> simp [hremoves]
  have hneither : ¬ (update.action = ADDITION_IDENTIFIER ∨ update.action = DELETION_IDENTIFIER) :=
    not_or.mpr ⟨hadd, hdelete⟩
  by_cases hmultiple : update.action = MULTIPLE_ACTION_IDENTIFIER
  · simp only [if_neg hadd, if_neg hdelete, if_neg hneither, if_pos hmultiple] at howed ⊢
    refine ⟨_, takes_applyMultiple update howed, ?_⟩
    split_ifs with hremoves hempty <;> simp [*]
  · simp only [if_neg hadd, if_neg hdelete, if_neg hneither, if_neg hmultiple] at howed ⊢
    exact ⟨0, takes_pure _, by simp⟩

end Dispatch

/-! ### Reading an update -/

/-- The two halves of code that did not throw. -/
theorem bind_ok {α β : Type} {action : UiAction α} {next : α → UiAction β} {ide ide' : Ide}
    {result : β} (hrun : (action >>= next).run ide = .ok result ide') :
    ∃ value middle, action.run ide = .ok value middle ∧
      (next value).run middle = .ok result ide' := by
  rw [EStateM.run_bind] at hrun
  cases haction : action.run ide with
  | ok value middle => exact ⟨value, middle, rfl, by rwa [haction] at hrun⟩
  | error fault middle =>
    rw [haction] at hrun
    cases hrun

/-- Reading an update adds the token the update is then owed. -/
theorem run_receiveUpdate_ok {ide ide' : Ide} {update : Text} {prevCursosrPosition : ℕ}
    {pending : PendingUpdate}
    (hrun : (receiveUpdate update prevCursosrPosition).run ide = .ok pending ide') :
    ide' = { ide with tokens := ide.tokens + pending.owed } := by
  have hparse : ∀ (text : Text) {value : ℤ} {middle last : Ide},
      (parse text).run middle = .ok value last → last = middle := by
    intro text value middle last hparse
    rw [run_parse] at hparse
    split at hparse
    · cases hparse
      rfl
    · cases hparse
  obtain ⟨length, _, hlength, hrun⟩ := bind_ok hrun
  obtain ⟨offset, _, hoffset, hrun⟩ := bind_ok hrun
  rw [hparse _ hlength] at hoffset
  rw [hparse _ hoffset] at hrun
  split_ifs at hrun with hadd hdelete
  · cases hrun
    simp [PendingUpdate.owed, hadd]
  · obtain ⟨deleteLen, _, hdeleteLen, hrun⟩ := bind_ok hrun
    rw [hparse _ hdeleteLen] at hrun
    cases hrun
    simp [PendingUpdate.owed, hdelete]
  · cases hrun
    simp [PendingUpdate.owed, hadd, hdelete]

/-! ### The handlers of the user interface -/

theorem tokens_assignText (ide : Ide) (text : Text) :
    (ide.assignText text).tokens =
      if text = ide.text ∨ ide.announces = true then ide.tokens else ide.tokens - 1 := by
  unfold Ide.assignText
  split_ifs with htext hboth hboth
  · rfl
  · exact absurd (Or.inl htext) hboth
  · have hannounces := hboth.resolve_left htext
    rw [tokens_textBoxTextChanged, if_pos (by exact hannounces)]
  · rw [tokens_textBoxTextChanged, if_neg (by exact fun h ↦ hboth (Or.inr h))]

theorem tokens_userEdit (ide : Ide) (edit : Edit) :
    (ide.userEdit edit).tokens = if ide.announces then ide.tokens else ide.tokens - 1 :=
  tokens_textBoxTextChanged _ _

/-- Enter changes the text, so outside a session it does nothing and in a session its assignment
takes a token unless it is announced. -/
theorem tokens_pressEnter (ide : Ide) :
    (ide.notepadPreviewKeyDown .enter).tokens =
      if ide.sessionStarted = true ∧ ide.announces = false then ide.tokens - 1 else ide.tokens := by
  have hne : ide.enterEdit.apply ide.text ≠ ide.text :=
    splice_insert_ne.mpr (by simp [Ide.enterEdit])
  unfold Ide.notepadPreviewKeyDown
  by_cases hsession : ide.sessionStarted = true
  · simp only [Ide.addTextChange, tokens_assignText, hne, false_or, hsession]
    cases ide.announces <;> simp
  · simp [hsession]

/-- A file switch takes a token when it changes the text. -/
theorem tokens_switchFile {ide : Ide} (fileContent : Option Text) :
    (ide.switchFile fileContent).tokens =
      if ∀ content ∈ fileContent, content = ide.text then ide.tokens else ide.tokens - 1 := by
  cases fileContent with
  | none => simp [Ide.switchFile, Ide.loadFileIntoIDE]
  | some content => simp [Ide.switchFile, Ide.loadFileIntoIDE, tokens_assignText, Ide.announces]

/-- The texts loaded at the start of the session take no token exactly when none of them is new. -/
theorem tokens_setOtherUser (ide : Ide) (loaded : List Text) :
    ∃ count : ℕ, (ide.setOtherUser loaded).tokens = ide.tokens - count ∧
      (count = 0 ↔ ∀ content ∈ loaded, content = ide.text) := by
  obtain ⟨count, _, htook, hcount⟩ := took_foldl_assignText loaded
    (show ({ ide with updatingFiles := true } : Ide).updatingFiles = true from rfl)
  exact ⟨count, htook.tokens, hcount⟩

/-- An undo gives back the token it brings, and announces nothing. -/
theorem runUndo_kept {ide : Ide} (htokens : 0 ≤ ide.tokens) (undo : Option Edit) :
    (ide.runUndo undo).tokens = ide.tokens ∧ (ide.runUndo undo).announced = ide.announced := by
  cases undo with
  | none => exact ⟨rfl, rfl⟩
  | some edit =>
    have hsilent : ({ ide with
        text := edit.apply ide.text
        caret := edit.offset + edit.added.length
        pendingUndo := ide.pendingUndo - 1
        tokens := ide.tokens + 1 } : Ide).announces = false :=
      not_announces_of_tokens (by simp only; omega)
    have hundone := textBoxTextChanged_of_not_announces hsilent
      [⟨edit.offset, edit.added.length, edit.removed⟩]
    have hwhole : ide.runUndo (some edit) = _ := hundone
    rw [hwhole]
    exact ⟨Int.add_sub_cancel _ _, rfl⟩

/-- Whether the event of an assignment is one that `TextBox_TextChanged` announces nothing for: a
lone newline in an empty text, a text with a newline in place of another, or no text while the
deletion flag is not set. -/
def Ide.Ignores (ide : Ide) (content : Text) : Prop :=
  if ide.text = [] then content = [newline]
  else if content = [] then ide.deletionFlag = false
  else newline ∈ content

instance (ide : Ide) (content : Text) : Decidable (ide.Ignores content) :=
  inferInstanceAs (Decidable (if ide.text = [] then content = [newline]
    else if content = [] then ide.deletionFlag = false else newline ∈ content))

/-- An assignment that changes the text of an announcing editor announces nothing exactly when its
event is ignored. -/
theorem announced_assignText_iff {ide : Ide} (hannounces : ide.announces = true) {content : Text}
    (hcontent : content ≠ ide.text) :
    (ide.assignText content).announced = ide.announced ↔ ide.Ignores content := by
  obtain ⟨pendingUndo, hchanged⟩ := textBoxTextChanged_of_announces
    (show ({ ide with text := content, caret := 0 } : Ide).announces = true from hannounces)
    ⟨0, content.length, ide.text.length⟩
  rw [Ide.assignText, if_neg hcontent, hchanged]
  by_cases hold : ide.text = []
  · by_cases hnewline : content = [newline]
    · simp [Ide.Ignores, Ide.announceChange, hold, hnewline]
    · simp [Ide.Ignores, Ide.announceChange, Ide.addTextChange, hold, hnewline]
  · have hlength : 0 < ide.text.length := List.length_pos_iff.mpr hold
    by_cases hempty : content = []
    · cases hflag : ide.deletionFlag <;>
        simp [Ide.Ignores, Ide.announceChange, Ide.addTextChange, hold, hempty, hflag]
    · have hlength' : 0 < content.length := List.length_pos_iff.mpr hempty
      by_cases hnewline : newline ∈ content <;>
        simp [Ide.Ignores, Ide.announceChange, Ide.addTextChange, hold, hempty, hlength, hlength',
          hnewline]

end NovaIde.Client
