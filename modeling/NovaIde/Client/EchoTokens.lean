import NovaIde.Foundation.EventRun
import NovaIde.Client.UpdaterTokens

/-!
# The tokens that suppress echoes

An update from the other side changes the text box, and the change raises the same event as a user
edit. So that it is not announced back, `textUpdater` adds a token for every event it is about to
raise, and the event takes it. An event outside a session or during a file switch takes a token
too, though nothing was added for it, and an update that raises fewer events than it added tokens
for leaves some behind.

`ClientState` runs the handlers of the user interface and the two halves of `textUpdater`, in any
order, from construction on. `balanced_iff_tokenNeutral` says which steps keep the tokens equal to
those the pending update is owed, and `echoSuppressed` that nothing is echoed and no insertion is
missed as long as all do.
-/

set_option autoImplicit false
set_option relaxedAutoImplicit false

namespace NovaIde.Client

open Foundation Foundation.EventRun

/-! ### One client -/

/-- A client: its editor and its updater thread, which waits for an update or for the dispatcher. -/
structure ClientState where
  ide : Ide := {}
  pending : Option PendingUpdate := none
  /-- An exception on the updater thread ends the process. -/
  running : Bool := true
deriving DecidableEq, Repr

/-- What happens to a client. -/
inductive ClientEvent
  | userEdit (edit : Edit)
  | keyDown (key : Key)
  | placeCaret (position : ℕ)
  /-- The other side turns out to be the host. -/
  | connectAsMember
  /-- A file is selected. -/
  | switchFile (fileContent : Option Text)
  /-- The open file is removed or a new one is made: another text is assigned outside a switch. -/
  | loadFile (content : Text)
  /-- The session starts. -/
  | setOtherUser (loaded : List Text)
  /-- The updater thread reads an update, and the caret some time before. -/
  | receiveUpdate (update : Text) (prevCursosrPosition : ℕ)
  /-- The dispatcher applies the update. -/
  | applyUpdate
  /-- A queued undo runs. -/
  | undo (undo : Option Edit)
deriving DecidableEq, Repr

/-- Whether a text admits an edit, and the edit does something. -/
def Edit.Possible (edit : Edit) (text : Text) : Prop :=
  edit.offset + edit.removed ≤ text.length ∧ (edit.removed ≠ 0 ∨ edit.added ≠ [])

instance (edit : Edit) (text : Text) : Decidable (edit.Possible text) :=
  inferInstanceAs (Decidable (_ ∧ _))

/-- The client after code of the updater thread, which ends the process by throwing. -/
def ClientState.afterThread {α : Type} (client : ClientState) (pending : α → Option PendingUpdate) :
    EStateM.Result Fault Ide α → ClientState
  | .ok value ide => { client with ide, pending := pending value }
  | .error _ ide => { client with ide, running := false }

/-- One step of a client. -/
def ClientState.step (client : ClientState) (event : ClientEvent) : Option (ClientState × Unit) :=
  if client.running then
    match event with
    | .userEdit edit =>
      if edit.Possible client.ide.text then
        some ({ client with ide := client.ide.userEdit edit }, ())
      else none
    | .keyDown key => some ({ client with ide := client.ide.notepadPreviewKeyDown key }, ())
    | .placeCaret position => some ({ client with ide := client.ide.placeCaret position }, ())
    | .connectAsMember => some ({ client with ide := { client.ide with hosting := false } }, ())
    | .switchFile fileContent =>
      some ({ client with ide := client.ide.switchFile fileContent }, ())
    | .loadFile content => some ({ client with ide := client.ide.assignText content }, ())
    | .setOtherUser loaded => some ({ client with ide := client.ide.setOtherUser loaded }, ())
    | .receiveUpdate update prevCursosrPosition =>
      if update ≠ [] ∧ client.pending = none then
        some (client.afterThread some ((receiveUpdate update prevCursosrPosition).run client.ide),
          ())
      else none
    | .applyUpdate =>
      match client.pending with
      | some update =>
        some (client.afterThread (fun _ ↦ none) ((dispatchUpdate update).run client.ide), ())
      | none => none
    | .undo undo =>
      if client.ide.pendingUndo ≠ 0 ∧ ∀ edit ∈ undo, edit.Possible client.ide.text then
        some ({ client with ide := client.ide.runUndo undo }, ())
      else none
  else none

/-- The steps of a run of a client. -/
abbrev ClientRecord := StepRecord ClientState ClientEvent Unit

/-- The runs of a client from construction. -/
abbrev ClientRun : List ClientRecord → ClientState → Prop :=
  Run ClientState.step {}

/-! ### The property and its condition -/

/-- Whether the text box is changed by the updater thread or by loading a file. -/
def ClientEvent.isOwnChange : ClientEvent → Bool
  | .switchFile _ | .loadFile _ | .setOtherUser _ | .applyUpdate => true
  | _ => false

/-- Whether the user inserts text. -/
def ClientEvent.isInsertion : ClientEvent → Bool
  | .userEdit edit => edit.removed = 0
  | .keyDown key => key = .enter
  | _ => false

/-- A change by the updater thread or by loading a file announces nothing, and an insertion of the
user in a session, with no file switch and no update being applied, finds no token. -/
def EchoSuppressed (record : ClientRecord) : Prop :=
  (record.event.isOwnChange = true → record.after.ide.announced = record.before.ide.announced) ∧
    (record.event.isInsertion = true → record.before.ide.sessionStarted = true →
      record.before.ide.updatingFiles = false → record.before.pending = none →
        record.before.ide.tokens = 0)

instance (record : ClientRecord) : Decidable (EchoSuppressed record) :=
  inferInstanceAs (Decidable (_ ∧ _))

/-- The tokens a client should have. -/
def ClientState.owed (client : ClientState) : ℤ := client.pending.elim 0 PendingUpdate.owed

/-- Whether a step takes as many tokens as it adds: the user changes the text in a session and not
while an addition or a deletion is pending, files are loaded over the same text or outside a switch
under the same circumstances, and an update makes every change it is expected to make. -/
def ClientState.TokenNeutral (client : ClientState) : ClientEvent → Prop
  | .userEdit _ => client.ide.sessionStarted = true ∧ client.owed = 0
  | .keyDown .enter => client.ide.sessionStarted = true → client.owed = 0
  | .keyDown .back | .placeCaret _ | .connectAsMember | .receiveUpdate _ _ | .undo _ => True
  | .switchFile fileContent => ∀ content ∈ fileContent, content = client.ide.text
  | .loadFile content =>
    content = client.ide.text ∨ client.ide.sessionStarted = true ∧ client.owed = 0
  | .setOtherUser loaded => ∀ content ∈ loaded, content = client.ide.text
  | .applyUpdate => ∀ update ∈ client.pending, update.Changes client.ide.text

/-- A file loaded outside a switch is loaded over the same text, or its event is ignored. -/
def ClientState.LoadIgnored (client : ClientState) : ClientEvent → Prop
  | .loadFile content => content = client.ide.text ∨ client.ide.Ignores content
  | _ => True

/-- The condition on a step: it is token neutral, and loading a file announces nothing. -/
structure Neutral (record : ClientRecord) : Prop where
  tokenNeutral : record.before.TokenNeutral record.event
  loadIgnored : record.before.LoadIgnored record.event

instance (client : ClientState) : DecidablePred client.TokenNeutral
  | .userEdit _ =>
    inferInstanceAs (Decidable (client.ide.sessionStarted = true ∧ client.owed = 0))
  | .keyDown .enter =>
    inferInstanceAs (Decidable (client.ide.sessionStarted = true → client.owed = 0))
  | .keyDown .back | .placeCaret _ | .connectAsMember | .receiveUpdate _ _ | .undo _ =>
    inferInstanceAs (Decidable True)
  | .switchFile fileContent =>
    inferInstanceAs (Decidable (∀ content ∈ fileContent, content = client.ide.text))
  | .loadFile content => inferInstanceAs (Decidable (content = client.ide.text ∨
      client.ide.sessionStarted = true ∧ client.owed = 0))
  | .setOtherUser loaded =>
    inferInstanceAs (Decidable (∀ content ∈ loaded, content = client.ide.text))
  | .applyUpdate =>
    inferInstanceAs (Decidable (∀ update ∈ client.pending, update.Changes client.ide.text))

instance (client : ClientState) : DecidablePred client.LoadIgnored
  | .loadFile content =>
    inferInstanceAs (Decidable (content = client.ide.text ∨ client.ide.Ignores content))
  | .userEdit _ | .keyDown _ | .placeCaret _ | .connectAsMember | .switchFile _ | .setOtherUser _
  | .receiveUpdate _ _ | .applyUpdate | .undo _ => inferInstanceAs (Decidable True)

instance (record : ClientRecord) : Decidable (Neutral record) :=
  decidable_of_iff
    (record.before.TokenNeutral record.event ∧ record.before.LoadIgnored record.event)
    ⟨fun hboth ↦ ⟨hboth.1, hboth.2⟩, fun hneutral ↦ ⟨hneutral.1, hneutral.2⟩⟩

/-! ### Balance -/

/-- The tokens are those of the pending update, and no file switch is under way. -/
structure ClientState.Balanced (client : ClientState) : Prop where
  tokens : client.ide.tokens = client.owed
  updatingFiles : client.ide.updatingFiles = false

section Balance

variable {client client' : ClientState} {event : ClientEvent}

/-- A process that has ended takes no step. -/
theorem running_of_step (hstep : client.step event = some (client', ())) :
    client.running = true := by
  by_contra hdead
  simp [ClientState.step, hdead] at hstep

/-- The updater thread reads an update when it has none pending. -/
theorem step_receiveUpdate {update : Text} {prevCursosrPosition : ℕ}
    (hstep : client.step (.receiveUpdate update prevCursosrPosition) = some (client', ())) :
    update ≠ [] ∧ client.pending = none ∧
      client' = client.afterThread some
        ((receiveUpdate update prevCursosrPosition).run client.ide) := by
  simp only [ClientState.step, if_pos (running_of_step hstep)] at hstep
  split_ifs at hstep with hidle
  cases hstep
  exact ⟨hidle.1, hidle.2, rfl⟩

/-- The dispatcher applies the update that is pending. -/
theorem step_applyUpdate (hstep : client.step .applyUpdate = some (client', ())) :
    ∃ update, client.pending = some update ∧
      client' = client.afterThread (fun _ ↦ none) ((dispatchUpdate update).run client.ide) := by
  simp only [ClientState.step, if_pos (running_of_step hstep)] at hstep
  cases hpending : client.pending with
  | none => simp [hpending] at hstep
  | some update =>
    rw [hpending] at hstep
    cases hstep
    exact ⟨update, rfl, rfl⟩

/-- A queued undo runs when it is possible. -/
theorem step_undo {undo : Option Edit} (hstep : client.step (.undo undo) = some (client', ())) :
    (client.ide.pendingUndo ≠ 0 ∧ ∀ edit ∈ undo, edit.Possible client.ide.text) ∧
      client' = { client with ide := client.ide.runUndo undo } := by
  simp only [ClientState.step, if_pos (running_of_step hstep)] at hstep
  split_ifs at hstep with hqueued
  cases hstep
  exact ⟨hqueued, rfl⟩

/-- A balanced client announces the changes of its text in a session when no addition or deletion is
pending. -/
theorem ClientState.Balanced.announces_iff (hbalanced : client.Balanced) :
    client.ide.announces = true ↔ client.ide.sessionStarted = true ∧ client.owed = 0 := by
  simp [Ide.announces, hbalanced.tokens, hbalanced.updatingFiles, and_comm]

/-- A handler of the user interface leaves a client balanced when it leaves the tokens owed. -/
theorem balanced_iff_tokens {ide : Ide} (hupdating : ide.updatingFiles = false) :
    ({ client with ide } : ClientState).Balanced ↔ ide.tokens = client.owed :=
  ⟨fun hbalanced ↦ hbalanced.tokens, fun htokens ↦ ⟨htokens, hupdating⟩⟩

theorem owed_nonneg (client : ClientState) : 0 ≤ client.owed := by
  unfold ClientState.owed
  cases client.pending with
  | none => exact le_rfl
  | some update =>
    simp only [Option.elim_some, PendingUpdate.owed]
    split_ifs <;> decide

/-- A step of a balanced client leaves it balanced exactly when it is token neutral. -/
theorem balanced_iff_tokenNeutral (hbalanced : client.Balanced)
    (hstep : client.step event = some (client', ())) (hrunning : client'.running = true) :
    client'.Balanced ↔ client.TokenNeutral event := by
  have halive := running_of_step hstep
  have htokens := hbalanced.tokens
  have hupdating := hbalanced.updatingFiles
  have hannounces := hbalanced.announces_iff
  have hunfolded := hstep
  simp only [ClientState.step, if_pos halive] at hunfolded
  cases event with
  | userEdit edit =>
    simp only at hunfolded
    split_ifs at hunfolded
    cases hunfolded
    rw [balanced_iff_tokens (by simpa [Ide.userEdit] using hupdating), tokens_userEdit,
      ClientState.TokenNeutral, ← hannounces]
    split_ifs with hann
    · exact iff_of_true htokens hann
    · exact iff_of_false (by omega) hann
  | keyDown key =>
    cases hunfolded
    cases key with
    | enter =>
      have hfiles : (client.ide.notepadPreviewKeyDown .enter).updatingFiles = false := by
        unfold Ide.notepadPreviewKeyDown
        split_ifs
        · simpa [Ide.addTextChange] using hupdating
        · exact hupdating
      rw [balanced_iff_tokens hfiles, tokens_pressEnter, ClientState.TokenNeutral]
      split_ifs with htaken
      · refine iff_of_false (by omega) fun hneutral ↦ ?_
        simp [hannounces.mpr ⟨htaken.1, hneutral htaken.1⟩] at htaken
      · refine iff_of_true htokens fun hsession ↦ (hannounces.mp ?_).2
        simpa [hsession] using htaken
    | back =>
      unfold Ide.notepadPreviewKeyDown
      split_ifs
      · exact iff_of_true ⟨htokens, hupdating⟩ trivial
      · exact iff_of_true ⟨htokens, hupdating⟩ trivial
  | placeCaret position =>
    cases hunfolded
    exact iff_of_true ⟨htokens, hupdating⟩ trivial
  | connectAsMember =>
    cases hunfolded
    exact iff_of_true ⟨htokens, hupdating⟩ trivial
  | switchFile fileContent =>
    cases hunfolded
    rw [balanced_iff_tokens rfl, tokens_switchFile, ClientState.TokenNeutral]
    split_ifs with hsame
    · exact iff_of_true htokens hsame
    · exact iff_of_false (by omega) hsame
  | loadFile content =>
    cases hunfolded
    rw [balanced_iff_tokens ((updatingFiles_assignText _ _).trans hupdating), tokens_assignText,
      ClientState.TokenNeutral, ← hannounces]
    split_ifs with hkept
    · exact iff_of_true htokens hkept
    · exact iff_of_false (by omega) hkept
  | setOtherUser loaded =>
    cases hunfolded
    obtain ⟨count, hcounted, hcount⟩ := tokens_setOtherUser client.ide loaded
    rw [balanced_iff_tokens rfl, hcounted, ClientState.TokenNeutral, ← hcount]
    omega
  | receiveUpdate update prevCursosrPosition =>
    obtain ⟨-, hidle, rfl⟩ := step_receiveUpdate hstep
    cases hrun : (receiveUpdate update prevCursosrPosition).run client.ide with
    | ok pending ide =>
      have hread := run_receiveUpdate_ok hrun
      refine iff_of_true ⟨?_, ?_⟩ trivial
      · simp [ClientState.afterThread, ClientState.owed, hread, htokens, hidle]
      · simpa [ClientState.afterThread, hread] using hupdating
    | error fault ide => simp [ClientState.afterThread, hrun] at hrunning
  | applyUpdate =>
    obtain ⟨update, hpending, rfl⟩ := step_applyUpdate hstep
    have howed : client.ide.tokens = update.owed := by
      rw [htokens, ClientState.owed, hpending, Option.elim_some]
    obtain ⟨taken, htakes, -, hchanges⟩ := takes_dispatchUpdate update howed.ge
    cases hrun : (dispatchUpdate update).run client.ide with
    | ok result ide =>
      have htook := htakes.of_run hrun
      rw [ClientState.TokenNeutral, hpending]
      simp only [Option.mem_some_iff, forall_eq', ← hchanges]
      have hleft : ide.tokens = client.ide.tokens - taken := htook.tokens
      constructor
      · intro hbalanced'
        have hnone : ide.tokens = 0 := hbalanced'.tokens
        omega
      · intro htaken
        exact ⟨show ide.tokens = 0 by omega, htook.updatingFiles.trans hupdating⟩
    | error fault ide => simp [ClientState.afterThread, hrun] at hrunning
  | undo undo =>
    obtain ⟨-, rfl⟩ := step_undo hstep
    refine iff_of_true ⟨?_, ?_⟩ trivial
    · exact (runUndo_kept (by rw [htokens]; exact owed_nonneg client) undo).1.trans htokens
    · cases undo <;> simpa [Ide.runUndo, Ide.userEdit] using hupdating

/-- Code that takes tokens announces nothing, even if it throws. -/
theorem Takes.afterThread_announced {α : Type} {count : ℤ} {action : UiAction α}
    {ide : Ide} {text : Text} (htakes : Takes count text action ide)
    (client : ClientState) (pending : α → Option PendingUpdate) :
    (client.afterThread pending (action.run ide)).ide.announced = ide.announced := by
  unfold Takes at htakes
  cases hrun : action.run ide with
  | ok value ide' =>
    rw [hrun] at htakes
    exact htakes.announced
  | error fault ide' =>
    rw [hrun] at htakes
    obtain ⟨other, otherText, htook⟩ := htakes
    exact htook.announced

/-- A balanced client announces nothing in a neutral step that changes the text box on its own
account. -/
theorem announced_of_isOwnChange (hbalanced : client.Balanced)
    (hneutral : client.TokenNeutral event) (hignored : client.LoadIgnored event)
    (hstep : client.step event = some (client', ())) (hown : event.isOwnChange = true) :
    client'.ide.announced = client.ide.announced := by
  have halive := running_of_step hstep
  have hunfolded := hstep
  simp only [ClientState.step, if_pos halive] at hunfolded
  cases event with
  | switchFile fileContent =>
    cases hunfolded
    cases fileContent with
    | none => rfl
    | some content =>
      have hupdating : ({ client.ide with updatingFiles := true } : Ide).announces = false := by
        simp [Ide.announces]
      exact (took_assignText hupdating content).announced
  | loadFile content =>
    cases hunfolded
    by_cases hsame : content = client.ide.text
    · simp [Ide.assignText, hsame]
    · obtain ⟨hsession, howed⟩ := hneutral.resolve_left hsame
      have hannounces := hbalanced.announces_iff.mpr ⟨hsession, howed⟩
      exact (announced_assignText_iff hannounces hsame).mpr
        (hignored.resolve_left hsame)
  | setOtherUser loaded =>
    cases hunfolded
    obtain ⟨count, _, htook, -⟩ := took_foldl_assignText loaded
      (show ({ client.ide with updatingFiles := true } : Ide).updatingFiles = true from rfl)
    exact htook.announced
  | applyUpdate =>
    obtain ⟨update, hpending, rfl⟩ := step_applyUpdate hstep
    have howed : client.ide.tokens = update.owed := by
      rw [hbalanced.tokens, ClientState.owed, hpending, Option.elim_some]
    obtain ⟨taken, htakes, -⟩ := takes_dispatchUpdate update howed.ge
    exact htakes.afterThread_announced client _
  | userEdit _ | keyDown _ | placeCaret _ | connectAsMember | receiveUpdate _ _ | undo _ =>
    cases hown

end Balance

/-! ### Whole runs -/

/-- In a run whose steps are all neutral the client is balanced as long as it runs. -/
theorem balanced_of_run {history : List ClientRecord} {client : ClientState}
    (hrun : ClientRun history client)
    (hneutral : EveryStep (fun _ ↦ Neutral) history)
    (hrunning : client.running = true) : client.Balanced := by
  refine hrun.relation_of_everyStep (fun _ client ↦ client.running = true → client.Balanced)
    (fun _ ↦ ⟨rfl, rfl⟩) ?_ hneutral hrunning
  intro _ before event after observation _ hbalanced hcondition hstep hrunning
  exact (balanced_iff_tokenNeutral (hbalanced (running_of_step hstep)) hstep hrunning).mpr
    hcondition.tokenNeutral

/-- In a run whose steps are all neutral no change by the updater thread or by loading a file is
announced, and every insertion in a session finds no token. -/
theorem echoSuppressed {history : List ClientRecord} {client : ClientState}
    (hrun : ClientRun history client)
    (hneutral : EveryStep (fun _ ↦ Neutral) history) :
    EveryStep (fun _ ↦ EchoSuppressed) history := by
  refine hrun.everyStep_of_everyStep ?_ hneutral
  intro earlier record hearlier hneutrals hneutral hstep
  have hbalanced := balanced_of_run hearlier hneutrals (running_of_step hstep)
  refine ⟨announced_of_isOwnChange hbalanced hneutral.tokenNeutral hneutral.loadIgnored hstep,
    fun _ _ _ hidle ↦ ?_⟩
  rw [hbalanced.tokens, ClientState.owed, hidle, Option.elim_none]

/-- A session in which the other side inserts, replaces and deletes, and the user inserts before,
between and after. -/
theorem echoSuppressed_session : ∃ history client, ClientRun history client ∧
    history.map StepRecord.event =
      [.connectAsMember, .setOtherUser [], .userEdit ⟨0, 0, str "ab"⟩, .undo (some ⟨0, 2, []⟩),
        .receiveUpdate (str "+:length:2:offset:0:text:ab") 0, .applyUpdate, .keyDown .enter,
        .receiveUpdate (str "=:length:2:offset:0:text:c") 0, .userEdit ⟨2, 0, str "d"⟩,
        .applyUpdate, .keyDown .back, .receiveUpdate (str "-:length:0:offset:0:text:1") 1,
        .placeCaret 0, .applyUpdate, .switchFile none, .userEdit ⟨0, 0, str "e"⟩] ∧
    EveryStep (fun _ ↦ EchoSuppressed) history := by
  obtain ⟨history, client, hrun, hevents, hneutral⟩ := exists_run_of_execute ClientState.step {}
    [.connectAsMember, .setOtherUser [], .userEdit ⟨0, 0, str "ab"⟩, .undo (some ⟨0, 2, []⟩),
      .receiveUpdate (str "+:length:2:offset:0:text:ab") 0, .applyUpdate, .keyDown .enter,
      .receiveUpdate (str "=:length:2:offset:0:text:c") 0, .userEdit ⟨2, 0, str "d"⟩,
      .applyUpdate, .keyDown .back, .receiveUpdate (str "-:length:0:offset:0:text:1") 1,
      .placeCaret 0, .applyUpdate, .switchFile none, .userEdit ⟨0, 0, str "e"⟩]
    (fun history _ ↦ decide (EveryStep (fun _ ↦ Neutral) history))
    (by decide +kernel)
  exact ⟨history, client, hrun, hevents, echoSuppressed hrun (of_decide_eq_true hneutral)⟩

/-- A character typed before the session takes a token that was never added, and the first insertion
of the session is not announced. -/
theorem not_echoSuppressed : ∃ history client, ClientRun history client ∧
    ¬ EveryStep (fun _ ↦ EchoSuppressed) history := by
  obtain ⟨history, client, hrun, -, hmissed⟩ := exists_run_of_execute ClientState.step {}
    [.userEdit ⟨0, 0, str "a"⟩, .setOtherUser [], .userEdit ⟨1, 0, str "b"⟩]
    (fun history _ ↦ decide (¬ EveryStep (fun _ ↦ EchoSuppressed) history))
    (by decide +kernel)
  exact ⟨history, client, hrun, of_decide_eq_true hmissed⟩

end NovaIde.Client
