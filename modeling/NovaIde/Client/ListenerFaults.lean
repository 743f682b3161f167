import NovaIde.Client.MessageFields
import NovaIde.Client.PeerListener

/-!
# Datagrams that stop a client

The listener guards the first character of a message by its length, and nothing after it:
`ConfigureSession` indexes the second character and parses what follows it, `ReceiveAndParseMessage`
adds every name to a dictionary, and the updater parses the numbers of every update it is handed.
`survives_iff` says exactly which datagrams get through all of this, in either role.
-/

set_option autoImplicit false
set_option relaxedAutoImplicit false

namespace NovaIde.Client

/-! ### Surviving a datagram -/

/-- The updates a pass of the listener has queued. -/
def newlyQueued (peer next : PeerState) : List Text :=
  (next.updateDeliveryQueue.drop peer.updateDeliveryQueue.length).map UpdateTuple.update ++
    next.updateIDEQueue.drop peer.updateIDEQueue.length

/-- `textUpdater` reads an update without an exception, with any editor behind it. -/
def UpdaterReads (update : Text) : Prop :=
  ∀ (ide : Ide) (prevCursosrPosition : ℕ), ∃ pending ide',
    (receiveUpdate update prevCursosrPosition).run ide = .ok pending ide'

/-- A client survives a datagram: the listener takes it without an exception, and the updater reads
what was queued. -/
def Survives (peer : PeerState) (receiveBytes : Datagram) : Prop :=
  ∃ next, peer.p2pListener receiveBytes = .ok next ∧
    ∀ update ∈ newlyQueued peer next, UpdaterReads update

/-- The messages that stop no client: an update has numbers where its length, its offset and, in a
deletion, its text are; behind the first two characters of an `I` message there is a number; and no
two names of an `F` message are the same. -/
structure Harmless (receivedMessage : Text) : Prop where
  update : isUpdateMessage receivedMessage = true →
    IsIntText (fieldAt 2 receivedMessage) ∧ IsIntText (fieldAt 4 receivedMessage) ∧
      (fieldAt 0 receivedMessage = DELETION_IDENTIFIER →
        IsIntText (afterColons 6 receivedMessage))
  configure : receivedMessage.head? = some INFO_IDENTIFIER → IsIntText (receivedMessage.drop 2)
  files : receivedMessage.head? = some FILES_IDENTIFIER →
    ((pairs ((fileEntries receivedMessage).drop 1)).map Prod.fst).Nodup

/-! ### The updater -/

/-- A sequence of two editor actions returns exactly when the first does and the second does after
it. -/
theorem exists_run_bind_ok {α β : Type} {action : UiAction α} {next : α → UiAction β} {ide : Ide} :
    (∃ value ide', (action >>= next).run ide = .ok value ide') ↔
      ∃ value ide', action.run ide = .ok value ide' ∧
        ∃ final ide'', (next value).run ide' = .ok final ide'' := by
  rw [EStateM.run_bind]
  cases action.run ide with
  | ok value ide' => simp
  | error fault ide' => simp

theorem exists_run_parse_ok {text : Text} {ide : Ide} {property : ℤ → Ide → Prop} :
    (∃ value ide', (parse text).run ide = .ok value ide' ∧ property value ide') ↔
      ∃ value, parseInt text = .ok value ∧ property value ide := by
  rw [run_parse]
  cases parseInt text with
  | ok value => simp
  | error fault => simp

/-- The updater reads an update when its numbers are numbers. -/
theorem updaterReads_iff (update : Text) :
    UpdaterReads update ↔
      IsIntText (fieldAt 2 update) ∧ IsIntText (fieldAt 4 update) ∧
        (fieldAt 0 update = DELETION_IDENTIFIER → IsIntText (afterColons 6 update)) := by
  have hsingle : ∀ (ide : Ide) (prevCursosrPosition : ℕ), (∃ pending ide',
      (receiveUpdate update prevCursosrPosition).run ide = .ok pending ide') ↔
        IsIntText (fieldAt 2 update) ∧ IsIntText (fieldAt 4 update) ∧
          (fieldAt 0 update = DELETION_IDENTIFIER → IsIntText (afterColons 6 update)) := by
    intro ide prevCursosrPosition
    obtain ⟨haction, hlength, hoffset, htext⟩ := parseFields_spec update
    unfold receiveUpdate
    generalize parseFields update = fields at haction hlength hoffset htext
    obtain ⟨action, strLength, strOffset, text, parser⟩ := fields
    subst haction hlength hoffset htext
    have hnotDeletion : ADDITION_IDENTIFIER ≠ DELETION_IDENTIFIER := by decide
    simp only [exists_run_bind_ok, exists_run_parse_ok, ← exists_parseInt_iff]
    rw [← exists_and_right]
    refine exists_congr fun length ↦ and_congr_right fun _ ↦ ?_
    rw [← exists_and_right]
    refine exists_congr fun offset ↦ and_congr_right fun _ ↦ ?_
    split_ifs with haddition hdeletion
    · rw [haddition]
      exact iff_of_true ⟨_, _, rfl⟩ fun hdeletion ↦ absurd hdeletion hnotDeletion
    · rw [exists_run_bind_ok, exists_run_parse_ok]
      refine ⟨fun ⟨deleteLen, hparsed, _⟩ _ ↦ ⟨deleteLen, hparsed⟩, fun hparsed ↦ ?_⟩
      obtain ⟨deleteLen, hparsed⟩ := hparsed hdeletion
      exact ⟨deleteLen, hparsed, _, _, rfl⟩
    · exact iff_of_true ⟨_, _, rfl⟩ fun hdeletion' ↦ absurd hdeletion' hdeletion
  exact ⟨fun hreads ↦ (hsingle {} 0).mp (hreads {} 0), fun hnumbers ide position ↦
    (hsingle ide position).mpr hnumbers⟩

/-! ### The listener -/

section Listener

variable {peer : PeerState} {receiveBytes : Datagram}

/-- A configuration returns when its message holds a number behind the first two characters. -/
theorem exists_configureSession_iff (peer : PeerState) (configurationMessage : Text) :
    (∃ next, peer.configureSession configurationMessage = .ok next) ↔
      IsIntText (configurationMessage.drop 2) := by
  rw [← exists_parseInt_iff, PeerState.configureSession, analyzeConfigurationMessagage]
  have hempty : parseInt [] = .error .format := rfl
  rcases configurationMessage with _ | ⟨identifier, _ | ⟨memberID, rest⟩⟩
  · simp [hempty]
  · simp [hempty]
  · simp only [List.getElem?_cons_succ, List.getElem?_cons_zero, List.drop_succ_cons,
      List.drop_zero]
    cases parseInt rest with
    | ok value => simp
    | error fault => simp

/-- Nothing is queued by a message that is no update. -/
theorem newlyQueued_of_not_update {next : PeerState}
    (hupdate : isUpdateMessage (asciiGetString receiveBytes) = false)
    (hlistened : peer.p2pListener receiveBytes = .ok next) : newlyQueued peer next = [] := by
  obtain ⟨hdelivery, hide, -⟩ := p2pListener_of_not_update hupdate hlistened
  simp [newlyQueued, hdelivery, hide]

/-- A client survives an update when the updater reads it. -/
theorem survives_of_update (hupdate : isUpdateMessage (asciiGetString receiveBytes) = true) :
    Survives peer receiveBytes ↔ UpdaterReads (asciiGetString receiveBytes) := by
  rw [Survives, p2pListener_of_update hupdate]
  simp only [Except.ok.injEq, exists_eq_left']
  split_ifs
  · simp [newlyQueued]
  · simp [newlyQueued]

/-- A client survives another message when the listener takes it. -/
theorem survives_of_not_update
    (hupdate : isUpdateMessage (asciiGetString receiveBytes) = false) :
    Survives peer receiveBytes ↔ ∃ next, peer.p2pListener receiveBytes = .ok next := by
  refine exists_congr fun next ↦ and_iff_left_of_imp fun hlistened ↦ ?_
  rw [newlyQueued_of_not_update hupdate hlistened]
  simp

/-- The listener takes a message that is no update when its configuration returns or its names do
not repeat. -/
theorem exists_p2pListener_iff (hupdate : isUpdateMessage (asciiGetString receiveBytes) = false) :
    (∃ next, peer.p2pListener receiveBytes = .ok next) ↔
      Harmless (asciiGetString receiveBytes) := by
  generalize hmessage : asciiGetString receiveBytes = receivedMessage at hupdate
  have hharmless : Harmless receivedMessage ↔
      (receivedMessage.head? = some INFO_IDENTIFIER → IsIntText (receivedMessage.drop 2)) ∧
        (receivedMessage.head? = some FILES_IDENTIFIER →
          ((pairs ((fileEntries receivedMessage).drop 1)).map Prod.fst).Nodup) :=
    ⟨fun h ↦ ⟨h.configure, h.files⟩, fun h ↦ ⟨by simp [hupdate], h.1, h.2⟩⟩
  rw [hharmless, PeerState.p2pListener, listenerAction, hmessage]
  cases receivedMessage with
  | nil => simp
  | cons char rest =>
    have hother : ¬ (char = unit '+' ∨ char = unit '-' ∨ char = unit '=') := by
      simpa [isUpdateMessage, and_assoc] using hupdate
    simp only [if_neg hother, List.head?_cons, Option.some.injEq]
    by_cases hinfo : char = INFO_IDENTIFIER
    · have hfiles : char ≠ FILES_IDENTIFIER := hinfo ▸ (by decide)
      simp only [if_pos hinfo]
      rw [exists_configureSession_iff]
      exact ⟨fun hnumber ↦ ⟨fun _ ↦ hnumber, fun h ↦ absurd h hfiles⟩, fun h ↦ h.1 hinfo⟩
    · simp only [if_neg hinfo]
      by_cases hfiles : char = FILES_IDENTIFIER
      · simp only [if_pos hfiles]
        cases hreceived : receiveAndParseMessage (char :: rest) with
        | none =>
          refine iff_of_false (by simp) fun h ↦ ?_
          rw [receiveAndParseMessage_eq_some.mpr ⟨h.2 hfiles, rfl⟩] at hreceived
          cases hreceived
        | some files =>
          exact iff_of_true ⟨_, rfl⟩ ⟨fun h ↦ absurd h hinfo,
            fun _ ↦ (receiveAndParseMessage_eq_some.mp hreceived).1⟩
      · simp only [if_neg hfiles]
        exact iff_of_true ⟨peer, rfl⟩ ⟨fun h ↦ absurd h hinfo, fun h ↦ absurd h hfiles⟩

/-- An update is no other kind of message. -/
theorem head?_of_update {receivedMessage : Text}
    (hupdate : isUpdateMessage receivedMessage = true) :
    receivedMessage.head? ≠ some INFO_IDENTIFIER ∧
      receivedMessage.head? ≠ some FILES_IDENTIFIER := by
  cases receivedMessage with
  | nil => simp
  | cons char rest =>
    rw [List.head?_cons, Ne, Option.some.injEq, Ne, Option.some.injEq]
    constructor
    · rintro rfl
      cases hupdate
    · rintro rfl
      cases hupdate

/-- A client survives a datagram, as a host or as a member, exactly when its message is
harmless. -/
theorem survives_iff (peer : PeerState) (receiveBytes : Datagram) :
    Survives peer receiveBytes ↔ Harmless (asciiGetString receiveBytes) := by
  cases hupdate : isUpdateMessage (asciiGetString receiveBytes) with
  | true =>
    rw [survives_of_update hupdate, updaterReads_iff]
    obtain ⟨hinfo, hfiles⟩ := head?_of_update hupdate
    exact ⟨fun hnumbers ↦ ⟨fun _ ↦ hnumbers, fun h ↦ absurd h hinfo, fun h ↦ absurd h hfiles⟩,
      fun hharmless ↦ hharmless.update hupdate⟩
  | false => rw [survives_of_not_update hupdate, exists_p2pListener_iff hupdate]

end Listener

/-- One byte, the identifier of a configuration, stops the listener. -/
theorem not_survives : ¬ ∀ peer receiveBytes, Survives peer receiveBytes := by
  intro hall
  obtain ⟨next, hlistened, -⟩ := hall {} [0x49]
  have hfault : PeerState.p2pListener {} [0x49] = .error .indexRange := by decide
  rw [hfault] at hlistened
  cases hlistened

end NovaIde.Client
