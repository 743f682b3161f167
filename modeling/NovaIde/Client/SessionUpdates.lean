import NovaIde.Client.ConcurrentEditing

/-!
# The updates of a session

Where every update of a session is, and what the two texts have made of those that reached them
(`SessionInvariant`). The updates of the member's user go to the host, and those of both users from
there to the member (`TrafficInvariant`, on top of the pipeline of the host); the text of each
editor is what the updates it took, in the order in which it took them, make of the text at the
start (`EditorInvariant`).

One lemma for each kind of step says that the step keeps the invariant.
-/

set_option autoImplicit false
set_option relaxedAutoImplicit false

namespace NovaIde.Client

open Foundation Foundation.EventRun

/-! ### Plain updates -/

/-- What an update, once read, does to a text. -/
def updateText (update text : Text) : Text :=
  match (receiveUpdate update 0).run {} with
  | .ok pending _ => pending.textAfter text
  | .error _ _ => text

/-- What several updates, one after the other, do to a text. -/
def textAfterUpdates (updates : List Text) (text : Text) : Text :=
  updates.foldl (fun text update ↦ updateText update text) text

@[simp] theorem textAfterUpdates_snoc (updates : List Text) (update text : Text) :
    textAfterUpdates (updates ++ [update]) text =
      updateText update (textAfterUpdates updates text) := by
  rw [textAfterUpdates, List.foldl_append]
  rfl

/-- The updates of insertions and deletions whose numbers fit. -/
inductive PlainUpdate : Text → Prop
  | addition {length offset : ℕ} (text : Text) (hlength : length ≤ int32Max)
      (hoffset : offset ≤ int32Max) :
      PlainUpdate (updateMessage ADDITION_IDENTIFIER length offset text)
  | deletion {offset count : ℕ} (hoffset : offset ≤ int32Max) (hcount : count ≤ int32Max) :
      PlainUpdate (updateMessage DELETION_IDENTIFIER 0 offset (decimal count))

section Plain

variable {update : Text}

/-- The listener takes a plain update for an update. -/
theorem PlainUpdate.isUpdateMessage (hplain : PlainUpdate update) :
    isUpdateMessage update = true := by
  cases hplain <;> rfl

/-- A plain update is read without a fault: it adds one token, and does to a text what the update
does. -/
theorem PlainUpdate.receive (hplain : PlainUpdate update) (prevCursosrPosition : ℕ) (ide : Ide) :
    ∃ pending, (receiveUpdate update prevCursosrPosition).run ide =
        .ok pending { ide with tokens := ide.tokens + 1 } ∧
      pending.message = update ∧ pending.owed = 1 ∧ pending.textAfter = updateText update := by
  cases hplain with
  | @addition length offset text hlength hoffset =>
    refine ⟨_, run_receiveUpdate_addition hlength hoffset text prevCursosrPosition, ?_, rfl, ?_⟩
    · simp [PendingUpdate.message]
    · funext whole
      rw [updateText, run_receiveUpdate_addition hlength hoffset]
      simp [PendingUpdate.textAfter]
  | @deletion offset count hoffset hcount =>
    refine ⟨_, run_receiveUpdate_deletion hoffset hcount prevCursosrPosition, ?_, rfl, ?_⟩
    · simp [PendingUpdate.message]
    · funext whole
      rw [updateText, run_receiveUpdate_deletion hoffset hcount]
      simp [PendingUpdate.textAfter]

end Plain

/-- The message of an insertion or a deletion is a plain update, and does to the text it was made in
what the edit does. -/
theorem plain_of_emits {edit : Edit} {message : Text} {before after : Ide}
    (hemits : Emits edit message before after) (hmax : before.text.length ≤ maxLength)
    (hsimple : edit.removed = 0 ∨ edit.added = []) (hascii : IsAscii edit.added) :
    PlainUpdate message ∧ IsAscii message ∧
      updateText message before.text = edit.apply before.text := by
  have hrange := hemits.range
  have hgrown := length_apply hrange
  have hlength := hemits.length
  have hbounds : maxLength ≤ int32Max := by decide
  cases hemits.announcement with
  | @insertion length hcount hremoved hadded =>
    refine ⟨.addition _ (by omega) (by omega), isAscii_updateMessage (by decide) hascii, ?_⟩
    rw [updateText, run_receiveUpdate_addition (by omega) (by omega)]
    simp [PendingUpdate.textAfter, Edit.apply, hremoved]
  | replacement hremoved hadded =>
    rcases hsimple with hnone | hnone
    · exact absurd hnone hremoved.ne'
    · exact absurd hnone hadded
  | deletion hremoved hadded =>
    have hcount : IsAscii (decimal edit.removed) := isAscii_decimal _
    refine ⟨.deletion (by omega) (by omega), isAscii_updateMessage (by decide) hcount, ?_⟩
    have hother : DELETION_IDENTIFIER ≠ ADDITION_IDENTIFIER := by decide
    have hinside : (edit.offset : ℤ) < before.text.length := by omega
    rw [updateText, run_receiveUpdate_deletion (by omega) (by omega)]
    simp only [PendingUpdate.textAfter, if_neg hother, if_true, textWithout, if_pos hinside,
      Int.toNat_natCast, Edit.apply, hadded]
    split_ifs with hone
    · exact (splice_of_length_one hone hremoved hrange).symm
    · rfl

/-! ### One editor -/

/-- What an editor has made of the updates its updater took and those its own user made: its text
took them in the order of the log, except for the one still pending. An editor that a fault stopped
keeps an update pending for ever. -/
structure EditorInvariant (start : Text) (taken own log : List Text) (client : ClientState) :
    Prop where
  stopped : client.running = true ∨ client.pending ≠ none
  merge : ∃ applied, taken = applied ++ client.pending.toList.map PendingUpdate.message ∧
    Interleaving applied own log
  pending : ∀ update ∈ client.pending, update.textAfter = updateText update.message
  tokens : client.running = true → client.owed ≤ client.ide.tokens
  text : client.running = true →
    client.ide.text = textAfterUpdates log start

section Editor

variable {start : Text} {taken own log : List Text} {client client' : ClientState} {update : Text}

/-- Reading a plain update leaves it pending. -/
theorem EditorInvariant.receive (hinvariant : EditorInvariant start taken own log client)
    (hplain : PlainUpdate update) {prevCursosrPosition : ℕ}
    (hstep : client.step (.receiveUpdate update prevCursosrPosition) = some (client', ())) :
    EditorInvariant start (taken ++ [update]) own log client' := by
  have hrunning := running_of_step hstep
  obtain ⟨_, ⟨applied, htaken, hmerged⟩, _, htokens, htext⟩ := hinvariant
  obtain ⟨pending, hrun, hmessage, howed, hafter⟩ := hplain.receive prevCursosrPosition client.ide
  obtain ⟨-, hidle, hread⟩ := step_receiveUpdate hstep
  rw [hrun, ClientState.afterThread] at hread
  subst hread
  have hnonneg : 0 ≤ client.ide.tokens := by
    simpa [ClientState.owed, hidle] using htokens hrunning
  refine ⟨Or.inl hrunning, ⟨applied, ?_, hmerged⟩, ?_, fun _ ↦ ?_, htext⟩
  · simpa [hidle, hmessage] using htaken
  · simpa [hmessage] using hafter
  · simp only [ClientState.owed, Option.elim_some, howed]
    omega

/-- Applying the pending update makes it the last one the text took, unless it throws; either way
nothing is announced. -/
theorem EditorInvariant.apply (hinvariant : EditorInvariant start taken own log client)
    (hstep : client.step .applyUpdate = some (client', ())) :
    EditorInvariant start taken own (log ++ appliedBy client client') client' ∧
      announcedSince client client' = [] := by
  have hrunning := running_of_step hstep
  obtain ⟨_, ⟨applied, htaken, hmerged⟩, hafter, htokens, htext⟩ := hinvariant
  obtain ⟨update, hpending, rfl⟩ := step_applyUpdate hstep
  have howed : update.owed ≤ client.ide.tokens := by
    simpa [ClientState.owed, hpending] using htokens hrunning
  obtain ⟨count, htakes, hcount, -⟩ := takes_dispatchUpdate update howed
  refine ⟨?_, ?_⟩
  · cases hrun : (dispatchUpdate update).run client.ide with
    | ok result ide =>
      have htook := htakes.of_run hrun
      have hlast : log ++ appliedBy client
          (client.afterThread (fun _ ↦ none) (.ok result ide)) = log ++ [update.message] := by
        simp [appliedBy, ClientState.afterThread, hpending]
      rw [hlast]
      refine ⟨Or.inl hrunning, ⟨applied ++ [update.message], ?_, hmerged.left _⟩, by
        simp [ClientState.afterThread], fun _ ↦ ?_, fun _ ↦ ?_⟩
      · simpa [ClientState.afterThread, hpending] using htaken
      · simp only [ClientState.afterThread, ClientState.owed, Option.elim_none, htook.tokens]
        omega
      · rw [textAfterUpdates_snoc, ← htext hrunning, ← hafter update hpending]
        exact htook.text_eq
    | error fault ide =>
      have hkept : log ++ appliedBy client
          (client.afterThread (fun _ : Unit ↦ none) (.error fault ide)) = log := by
        simp [appliedBy, ClientState.afterThread, hpending]
      rw [hkept]
      refine ⟨Or.inr (by simp [ClientState.afterThread, hpending]), ⟨applied, htaken, hmerged⟩,
        hafter, fun hdead ↦ ?_, fun hdead ↦ ?_⟩
      · cases hdead
      · cases hdead
  · rw [announcedSince, htakes.afterThread_announced, List.drop_length]

/-- An edit of the user makes it the last update the text took. -/
theorem EditorInvariant.edit (hinvariant : EditorInvariant start taken own log client)
    (hrunning : client.running = true) (hannounces : client.ide.announces = true) {edit : Edit}
    {message : Text} {ide : Ide} (hemits : Emits edit message client.ide ide)
    (hdoes : updateText message client.ide.text = edit.apply client.ide.text) :
    EditorInvariant start taken (own ++ [message]) (log ++ [message]) { client with ide } := by
  obtain ⟨_, ⟨applied, htaken, hmerged⟩, hafter, htokens, htext⟩ := hinvariant
  refine ⟨Or.inl hrunning, ⟨applied, htaken, hmerged.right _⟩, hafter, fun _ ↦ ?_, fun _ ↦ ?_⟩
  · have howed := htokens hrunning
    rw [tokens_of_announces hannounces] at howed
    rw [tokens_of_announces hemits.announces]
    exact howed
  · rw [textAfterUpdates_snoc, ← htext hrunning, hemits.text, ← hdoes]

/-- What changes neither the text nor the tokens changes nothing here. -/
theorem EditorInvariant.congr (hinvariant : EditorInvariant start taken own log client) {ide : Ide}
    (htext : ide.text = client.ide.text) (htokens : ide.tokens = client.ide.tokens) :
    EditorInvariant start taken own log { client with ide } := by
  obtain ⟨hstopped, hmerge, hafter, htokens', htext'⟩ := hinvariant
  refine ⟨hstopped, hmerge, hafter, fun hrunning ↦ ?_, fun hrunning ↦ ?_⟩
  · rw [htokens]
    exact htokens' hrunning
  · rw [htext]
    exact htext' hrunning

end Editor

/-- The member's user leaves the text and the tokens as they were, and announces an edit. -/
theorem actAsMember_frame {ide : Ide} {action : UserAction} (hadmits : ide.Admits action) :
    (ide.actAsMember action).text = ide.text ∧ (ide.actAsMember action).tokens = ide.tokens ∧
      match ide.editOf action with
      | none => (ide.actAsMember action).announced = ide.announced
      | some edit => ∃ message, Emits edit message ide (ide.act action) ∧
          (ide.actAsMember action).announced = ide.announced ++ [message] := by
  cases hedit : ide.editOf action with
  | none =>
    obtain ⟨caret, flag, -, hact⟩ := act_of_editOf_eq_none hedit
    simp only [Ide.actAsMember, hedit, hact, and_self]
  | some edit =>
    obtain ⟨hannounces, hcaret, -, hallows, -⟩ := hadmits edit hedit
    obtain ⟨message, hemits⟩ := emits_of_editOf hannounces hcaret hallows hedit
    have htokens : (ide.act action).tokens = ide.tokens := by
      rw [tokens_of_announces hannounces, tokens_of_announces hemits.announces]
    have hkept := runUndo_kept (htokens.trans (tokens_of_announces hannounces)).ge
      (some (edit.inverse ide.text))
    have htext : ((ide.act action).runUndo (some (edit.inverse ide.text))).text = ide.text := by
      have hundone : ((ide.act action).runUndo (some (edit.inverse ide.text))).text =
          (edit.inverse ide.text).apply (ide.act action).text := text_userEdit _ _
      rw [hundone, hemits.text]
      exact splice_undo hemits.range
    simp only [Ide.actAsMember, hedit]
    exact ⟨htext, hkept.1.trans htokens, message, hemits, hkept.2.trans hemits.announced⟩

/-! ### The whole session -/

/-- The output of a run: what its steps show, in order. -/
def SessionOutput.append (log output : SessionOutput) : SessionOutput where
  hostMade := log.hostMade ++ output.hostMade
  hostTook := log.hostTook ++ output.hostTook
  broadcast := log.broadcast ++ output.broadcast
  memberMade := log.memberMade ++ output.memberMade
  memberTook := log.memberTook ++ output.memberTook

@[simp] theorem append_empty (log : SessionOutput) : log.append {} = log := by
  simp [SessionOutput.append]

/-- Where the updates between the two editors are: those the member made are on their way to the
host, and those broadcast on their way to the member's updater. -/
structure TrafficInvariant (log : SessionOutput) (memberTaken : List Text) (traffic : HostTraffic)
    (session : Session) : Prop where
  accounted : Accounted 1 session.host traffic
  plain : ∀ update ∈ log.hostMade ++ log.memberMade, PlainUpdate update ∧ IsAscii update
  changed : traffic.changed = log.hostMade
  toHost : log.memberMade = traffic.received ++ session.toHost.map asciiGetString ++
    session.member.scanning.toList ++ session.member.syncManager.textChangesQueue
  broadcast : log.broadcast = (traffic.sentTo 0).map asciiGetString
  toMember : log.broadcast = memberTaken ++ session.member.syncManager.textUpdateQueue ++
    session.member.forwarding.toList ++ session.member.updateIDEQueue ++
      session.toMember.map asciiGetString

/-- The updates between the editors, and what each editor made of those it got. -/
def SessionInvariant (start : Text) (log : SessionOutput) (session : Session) : Prop :=
  ∃ traffic memberTaken, TrafficInvariant log memberTaken traffic session ∧
    EditorInvariant start traffic.taken log.hostMade log.hostTook session.hostClient ∧
    EditorInvariant start memberTaken [] log.memberTook session.memberClient

section Traffic

variable {log : SessionOutput} {memberTaken : List Text} {traffic : HostTraffic}
  {session : Session}

theorem TrafficInvariant.plain_received
    (hinvariant : TrafficInvariant log memberTaken traffic session) {update : Text}
    (hupdate : update ∈ traffic.received) : PlainUpdate update ∧ IsAscii update := by
  refine hinvariant.plain update (List.mem_append_right _ ?_)
  rw [hinvariant.toHost]
  simp [hupdate]

/-- What was broadcast merges updates of the member and changes of the host, and lacks those still
in hand or queued. -/
theorem TrafficInvariant.broadcast_merged
    (hinvariant : TrafficInvariant log memberTaken traffic session) :
    ∃ fromMembers fromHost,
      traffic.received = fromMembers ++ session.host.distributor.unsent 0 ++
        session.host.updateDeliveryQueue.map UpdateTuple.update ∧
      log.hostMade = fromHost ++ session.host.scanner.unsent 0 ++
        session.host.syncManager.textChangesQueue ∧
      Interleaving fromMembers fromHost log.broadcast := by
  obtain ⟨fromMembers, fromHost, merged, hreceived, hchanged, hmerged, hsent⟩ :=
    hinvariant.accounted.sent 0 Nat.one_pos
  have hascii : ∀ update ∈ merged, asciiGetString (utf8GetBytes update) = update := by
    intro update hupdate
    rcases List.mem_append.mp (hmerged.perm.mem_iff.mp hupdate) with hmember | hhost
    · exact asciiGetString_utf8GetBytes
        (hinvariant.plain_received (by rw [hreceived]; simp [hmember])).2
    · refine asciiGetString_utf8GetBytes (hinvariant.plain update (List.mem_append_left _ ?_)).2
      rw [← hinvariant.changed, hchanged]
      simp [hhost]
  have hread : log.broadcast = merged := by
    rw [hinvariant.broadcast, hsent, List.map_map]
    exact (List.map_congr_left hascii).trans (List.map_id merged)
  rw [hread, ← hinvariant.changed]
  exact ⟨fromMembers, fromHost, hreceived, hchanged, hmerged⟩

theorem TrafficInvariant.plain_broadcast
    (hinvariant : TrafficInvariant log memberTaken traffic session) {update : Text}
    (hupdate : update ∈ log.broadcast) : PlainUpdate update := by
  obtain ⟨fromMembers, fromHost, hreceived, hchanged, hmerged⟩ := hinvariant.broadcast_merged
  rcases List.mem_append.mp (hmerged.perm.mem_iff.mp hupdate) with hmember | hhost
  · exact (hinvariant.plain_received (by rw [hreceived]; simp [hmember])).1
  · refine (hinvariant.plain update (List.mem_append_left _ ?_)).1
    rw [hchanged]
    simp [hhost]

end Traffic

section Step

variable {start : Text} {log output : SessionOutput} {session session' : Session}

/-- An editor that announces nothing queues nothing. -/
theorem setHostClient_of_silent {client : ClientState}
    (hsilent : announcedSince session.hostClient client = []) :
    session.setHostClient client = { session with hostClient := client } := by
  rw [Session.setHostClient, hsilent]
  rfl

theorem setMemberClient_of_silent {client : ClientState}
    (hsilent : announcedSince session.memberClient client = []) :
    session.setMemberClient client = { session with memberClient := client } := by
  rw [Session.setMemberClient, hsilent]
  rfl

theorem announcedSince_of_append {client : ClientState} {ide : Ide} {messages : List Text}
    (hannounced : ide.announced = client.ide.announced ++ messages) :
    announcedSince client { client with ide } = messages := by
  rw [announcedSince, hannounced, List.drop_left]

/-- The edits of a user that types ASCII are announced by plain updates. -/
theorem plain_of_admits {ide : Ide} {action : UserAction} (hadmits : ide.Admits action)
    (hascii : ∀ edit, action = .makeEdit edit → IsAscii edit.added) {edit : Edit}
    (hedit : ide.editOf action = some edit) {message : Text}
    (hemits : Emits edit message ide (ide.act action)) :
    PlainUpdate message ∧ IsAscii message ∧ updateText message ide.text = edit.apply ide.text := by
  obtain ⟨-, -, hmax, -, hsimple⟩ := hadmits edit hedit
  refine plain_of_emits hemits hmax hsimple ?_
  cases action with
  | placeCaret position => cases hedit
  | pressBack => cases hedit
  | pressEnter =>
    cases hedit
    exact (by decide : IsAscii [newline])
  | makeEdit made =>
    cases hedit
    exact hascii edit rfl

theorem SessionInvariant.hostAct (hinvariant : SessionInvariant start log session)
    {action : UserAction} (hascii : ∀ edit, action = .makeEdit edit → IsAscii edit.added)
    (hstep : session.step (.hostAct action) = some (session', output)) :
    SessionInvariant start (log.append output) session' := by
  obtain ⟨traffic, memberTaken, htraffic, hhost, hmember⟩ := hinvariant
  simp only [Session.step] at hstep
  split_ifs at hstep with hallowed
  obtain ⟨hrunning, hadmits⟩ := hallowed
  cases hstep
  cases hedit : session.hostClient.ide.editOf action with
  | none =>
    obtain ⟨caret, flag, -, hact⟩ := act_of_editOf_eq_none hedit
    have hsilent : announcedSince session.hostClient
        { session.hostClient with ide := session.hostClient.ide.act action } = [] :=
      announcedSince_of_append (by rw [hact, List.append_nil])
    rw [setHostClient_of_silent hsilent, hsilent]
    rw [append_empty]
    exact ⟨traffic, memberTaken, { htraffic with }, hhost.congr (by rw [hact]) (by rw [hact]),
      hmember⟩
  | some edit =>
    obtain ⟨hannounces, hcaret, -, hallows, -⟩ := hadmits edit hedit
    obtain ⟨message, hemits⟩ := emits_of_editOf hannounces hcaret hallows hedit
    obtain ⟨hplain, hmessage, hdoes⟩ := plain_of_admits hadmits hascii hedit hemits
    have hmade : announcedSince session.hostClient
        { session.hostClient with ide := session.hostClient.ide.act action } = [message] :=
      announcedSince_of_append hemits.announced
    have hlog : log.append { hostMade := [message], hostTook := [message] } =
        { log with
          hostMade := log.hostMade ++ [message]
          hostTook := log.hostTook ++ [message] } := by
      simp [SessionOutput.append]
    rw [Session.setHostClient, hmade, hlog]
    refine ⟨traffic.record (.addTextChange message) .nothing, memberTaken, { htraffic with
      accounted := accounted_addTextChange htraffic.accounted message
      plain := ?_
      changed := by simp [HostTraffic.record, htraffic.changed] },
      hhost.edit hrunning hannounces hemits hdoes, hmember⟩
    intro update hupdate
    simp only [List.append_assoc, List.mem_append, List.mem_singleton] at hupdate
    rcases hupdate with hold | rfl | hold
    · exact htraffic.plain update (List.mem_append_left _ hold)
    · exact ⟨hplain, hmessage⟩
    · exact htraffic.plain update (List.mem_append_right _ hold)

theorem SessionInvariant.memberAct (hinvariant : SessionInvariant start log session)
    {action : UserAction} (hascii : ∀ edit, action = .makeEdit edit → IsAscii edit.added)
    (hstep : session.step (.memberAct action) = some (session', output)) :
    SessionInvariant start (log.append output) session' := by
  obtain ⟨traffic, memberTaken, htraffic, hhost, hmember⟩ := hinvariant
  simp only [Session.step] at hstep
  split_ifs at hstep with hallowed
  obtain ⟨hrunning, hadmits⟩ := hallowed
  cases hstep
  obtain ⟨htext, htokens, hannounced⟩ := actAsMember_frame hadmits
  cases hedit : session.memberClient.ide.editOf action with
  | none =>
    rw [hedit] at hannounced
    have hsilent : announcedSince session.memberClient
        { session.memberClient with ide := session.memberClient.ide.actAsMember action } = [] :=
      announcedSince_of_append (by rw [hannounced, List.append_nil])
    rw [setMemberClient_of_silent hsilent, hsilent, append_empty]
    exact ⟨traffic, memberTaken, { htraffic with }, hhost, hmember.congr htext htokens⟩
  | some edit =>
    rw [hedit] at hannounced
    obtain ⟨message, hemits, hannounced⟩ := hannounced
    obtain ⟨hplain, hmessage, -⟩ := plain_of_admits hadmits hascii hedit hemits
    have hmade : announcedSince session.memberClient
        { session.memberClient with ide := session.memberClient.ide.actAsMember action } =
          [message] := announcedSince_of_append hannounced
    have hlog : log.append { memberMade := [message] } =
        { log with memberMade := log.memberMade ++ [message] } := by
      simp [SessionOutput.append]
    rw [Session.setMemberClient, hmade, hlog]
    refine ⟨traffic, memberTaken, { htraffic with
      plain := ?_
      toHost := ?_ }, hhost, hmember.congr htext htokens⟩
    · intro update hupdate
      simp only [List.mem_append, List.mem_singleton] at hupdate
      rcases hupdate with hold | hold | rfl
      · exact htraffic.plain update (List.mem_append_left _ hold)
      · exact htraffic.plain update (List.mem_append_right _ hold)
      · exact ⟨hplain, hmessage⟩
    · simp [htraffic.toHost, SynchronizationManager.addTextChanges,
        SynchronizationManager.addTextChange]

/-- An update that arrives at the host is received there. -/
theorem SessionInvariant.hostListen (hinvariant : SessionInvariant start log session)
    (hstep : session.step .hostListen = some (session', output)) :
    SessionInvariant start (log.append output) session' := by
  obtain ⟨traffic, memberTaken, htraffic, hhost, hmember⟩ := hinvariant
  have htoHost := htraffic.toHost
  cases hchannel : session.toHost with
  | nil => simp [Session.step, hchannel] at hstep
  | cons data rest =>
    simp only [Session.step, hchannel] at hstep
    cases hstep
    have hplain : PlainUpdate (asciiGetString data) := by
      refine (htraffic.plain _ (List.mem_append_right _ ?_)).1
      rw [htoHost, hchannel]
      simp
    have hupdate : isUpdateMessage (asciiGetString data) = true := hplain.isUpdateMessage
    have hrecord : traffic.record (.receive data) .nothing =
        { traffic with received := traffic.received ++ [asciiGetString data] } := if_pos hupdate
    rw [append_empty]
    refine ⟨traffic.record (.receive data) .nothing, memberTaken, { htraffic with
      accounted := accounted_receive htraffic.accounted data
      changed := ?_
      toHost := ?_
      broadcast := ?_ }, ?_, hmember⟩
    · rw [hrecord]
      exact htraffic.changed
    · rw [hrecord]
      simpa [hchannel] using htoHost
    · rw [hrecord]
      exact htraffic.broadcast
    · rw [hrecord]
      exact hhost

/-- A sending thread of the host sends to the one endpoint there is, or sends nothing. -/
theorem output_of_sender {host host' : HostState} {event : HostEvent} {output : HostOutput}
    (hsender : event = .distribute ∨ event = .scan)
    (hstep : host.step 1 event = some (host', output)) :
    output = .nothing ∨ ∃ data, output = .sent 0 data := by
  rcases hsender with rfl | rfl
  · cases distributeStep_of_step hstep with
    | take _ _ => exact Or.inl rfl
    | send _ hposition => exact Or.inr ⟨_, by rw [Nat.lt_one_iff.mp hposition]⟩
    | finish _ _ => exact Or.inl rfl
  · cases scanStep_of_step hstep with
    | take _ _ => exact Or.inl rfl
    | send _ hposition => exact Or.inr ⟨_, by rw [Nat.lt_one_iff.mp hposition]⟩
    | finish _ _ => exact Or.inl rfl

/-- A datagram the host sends is on its way to the member. -/
theorem SessionInvariant.send (hinvariant : SessionInvariant start log session)
    {event : HostEvent} (hsender : event = .distribute ∨ event = .scan)
    (hstep : (session.host.step 1 event).map session.afterSender = some (session', output)) :
    SessionInvariant start (log.append output) session' := by
  obtain ⟨traffic, memberTaken, htraffic, hhost, hmember⟩ := hinvariant
  obtain ⟨⟨host, sent⟩, hhoststep, hafter⟩ := Option.map_eq_some_iff.mp hstep
  have haccounted := htraffic.accounted.step hhoststep
  rcases output_of_sender hsender hhoststep with rfl | ⟨data, rfl⟩
  · cases hafter
    have hrecord : traffic.record event .nothing = traffic := by
      rcases hsender with rfl | rfl <;> rfl
    rw [hrecord] at haccounted
    rw [append_empty]
    exact ⟨traffic, memberTaken, { htraffic with accounted := haccounted }, hhost, hmember⟩
  · cases hafter
    have hrecord : traffic.record event (.sent 0 data) =
        { traffic with sent := traffic.sent ++ [(0, data)] } := by
      rcases hsender with rfl | rfl <;> rfl
    have hlog : log.append { broadcast := [asciiGetString data] } =
        { log with broadcast := log.broadcast ++ [asciiGetString data] } := by
      simp [SessionOutput.append]
    rw [hrecord] at haccounted
    rw [hlog]
    refine ⟨_, memberTaken, { htraffic with
      accounted := haccounted
      broadcast := ?_
      toMember := ?_ }, hhost, hmember⟩
    · rw [sentTo_append, if_pos rfl, List.map_append, ← htraffic.broadcast]
      rfl
    · simp [htraffic.toMember]

/-- The host's updater takes an update of the member. -/
theorem SessionInvariant.hostReceive (hinvariant : SessionInvariant start log session)
    {prevCursosrPosition : ℕ}
    (hstep : session.step (.hostReceive prevCursosrPosition) = some (session', output)) :
    SessionInvariant start (log.append output) session' := by
  obtain ⟨traffic, memberTaken, htraffic, hhost, hmember⟩ := hinvariant
  obtain ⟨⟨client, _⟩, hclient, hafter⟩ := Option.map_eq_some_iff.mp hstep
  cases hafter
  have hreceived := htraffic.accounted.received
  have haccounted := accounted_getLastUpdate htraffic.accounted
  have hupdate := (step_receiveUpdate hclient).1
  have hrecord : traffic.record .getLastUpdate
      (.answered session.host.syncManager.getLastUpdate.1) =
        { traffic with taken := traffic.taken ++ [session.host.syncManager.getLastUpdate.1] } :=
    if_pos hupdate
  have htaken : session.host.syncManager.getLastUpdate.1 ∈ traffic.received := by
    rw [hreceived]
    cases hqueue : session.host.syncManager.textUpdateQueue with
    | nil => simp [hqueue] at hupdate
    | cons update rest => simp [SynchronizationManager.getLastUpdate, hqueue]
  rw [hrecord] at haccounted
  rw [append_empty]
  exact ⟨_, memberTaken, { htraffic with accounted := haccounted },
    hhost.receive (htraffic.plain_received htaken).1 hclient, hmember⟩

/-- The host's text takes an update of the member. -/
theorem SessionInvariant.hostApply (hinvariant : SessionInvariant start log session)
    (hstep : session.step .hostApply = some (session', output)) :
    SessionInvariant start (log.append output) session' := by
  obtain ⟨traffic, memberTaken, htraffic, hhost, hmember⟩ := hinvariant
  obtain ⟨⟨client, _⟩, hclient, hafter⟩ := Option.map_eq_some_iff.mp hstep
  cases hafter
  obtain ⟨happlied, hsilent⟩ := hhost.apply hclient
  have hlog : log.append { hostTook := appliedBy session.hostClient client } =
      { log with hostTook := log.hostTook ++ appliedBy session.hostClient client } := by
    simp [SessionOutput.append]
  rw [setHostClient_of_silent hsilent, hsilent, List.append_nil, hlog]
  exact ⟨traffic, memberTaken, { htraffic with }, happlied, hmember⟩

/-- What arrives at the member was broadcast. -/
theorem SessionInvariant.memberListen (hinvariant : SessionInvariant start log session)
    (hstep : session.step .memberListen = some (session', output)) :
    SessionInvariant start (log.append output) session' := by
  obtain ⟨traffic, memberTaken, htraffic, hhost, hmember⟩ := hinvariant
  cases hchannel : session.toMember with
  | nil => simp [Session.step, hchannel] at hstep
  | cons data rest =>
    simp only [Session.step, hchannel] at hstep
    cases hstep
    have hbroadcast : asciiGetString data ∈ log.broadcast := by
      rw [htraffic.toMember, hchannel]
      simp
    have hupdate : isUpdateMessage (asciiGetString data) = true :=
      (htraffic.plain_broadcast hbroadcast).isUpdateMessage
    have hlistened : session.member.p2pListener data = { session.member with
        updateIDEQueue := session.member.updateIDEQueue ++ [asciiGetString data] } :=
      if_pos hupdate
    rw [append_empty, hlistened]
    refine ⟨traffic, memberTaken, { htraffic with toMember := ?_ }, hhost, hmember⟩
    simp [htraffic.toMember, hchannel]

theorem SessionInvariant.memberForward (hinvariant : SessionInvariant start log session)
    (hstep : session.step .memberForward = some (session', output)) :
    SessionInvariant start (log.append output) session' := by
  obtain ⟨traffic, memberTaken, htraffic, hhost, hmember⟩ := hinvariant
  obtain ⟨member, hforward, hafter⟩ := Option.map_eq_some_iff.mp hstep
  cases hafter
  have htoMember := htraffic.toMember
  rw [append_empty]
  simp only [MemberState.enqueueForIDEUpdate] at hforward
  cases hforwarding : session.member.forwarding with
  | some update =>
    simp only [hforwarding] at hforward
    cases hforward
    refine ⟨traffic, memberTaken, { htraffic with toMember := ?_ }, hhost, hmember⟩
    simpa [hforwarding, SynchronizationManager.addIDEUpdate] using htoMember
  | none =>
    cases hqueue : session.member.updateIDEQueue with
    | nil => simp [hforwarding, hqueue] at hforward
    | cons update rest =>
      simp only [hforwarding, hqueue] at hforward
      cases hforward
      refine ⟨traffic, memberTaken, { htraffic with toMember := ?_ }, hhost, hmember⟩
      simpa [hforwarding, hqueue] using htoMember

/-- What the member sends is on its way to the host. -/
theorem SessionInvariant.memberScan (hinvariant : SessionInvariant start log session)
    (hstep : session.step .memberScan = some (session', output)) :
    SessionInvariant start (log.append output) session' := by
  obtain ⟨traffic, memberTaken, htraffic, hhost, hmember⟩ := hinvariant
  obtain ⟨⟨member, sent⟩, hscan, hafter⟩ := Option.map_eq_some_iff.mp hstep
  cases hafter
  have htoHost := htraffic.toHost
  rw [append_empty]
  simp only [MemberState.ideUpdateScanner] at hscan
  cases hscanning : session.member.scanning with
  | some change =>
    simp only [hscanning] at hscan
    cases hscan
    have hchange : asciiGetString (utf8GetBytes change) = change := by
      refine asciiGetString_utf8GetBytes (htraffic.plain change (List.mem_append_right _ ?_)).2
      rw [htoHost, hscanning]
      simp
    refine ⟨traffic, memberTaken, { htraffic with toHost := ?_ }, hhost, hmember⟩
    simpa [hscanning, hchange] using htoHost
  | none =>
    cases hchanges : session.member.syncManager.textChangesQueue with
    | nil => simp [hscanning, hchanges] at hscan
    | cons change rest =>
      simp only [hscanning, hchanges, List.length_cons,
        SynchronizationManager.getLastChange] at hscan
      cases hscan
      refine ⟨traffic, memberTaken, { htraffic with toHost := ?_ }, hhost, hmember⟩
      simpa [hscanning, hchanges] using htoHost

/-- The member's updater takes an update that was broadcast. -/
theorem SessionInvariant.memberReceive (hinvariant : SessionInvariant start log session)
    {prevCursosrPosition : ℕ}
    (hstep : session.step (.memberReceive prevCursosrPosition) = some (session', output)) :
    SessionInvariant start (log.append output) session' := by
  obtain ⟨traffic, memberTaken, htraffic, hhost, hmember⟩ := hinvariant
  obtain ⟨⟨client, _⟩, hclient, hafter⟩ := Option.map_eq_some_iff.mp hstep
  cases hafter
  have htoMember := htraffic.toMember
  have hne := (step_receiveUpdate hclient).1
  rw [append_empty]
  cases hqueue : session.member.syncManager.textUpdateQueue with
  | nil => simp [hqueue] at hne
  | cons update rest =>
    simp only [hqueue] at hclient ⊢
    have hbroadcast : update ∈ log.broadcast := by
      rw [htoMember, hqueue]
      simp
    refine ⟨traffic, memberTaken ++ [update], { htraffic with toMember := ?_ }, hhost,
      hmember.receive (htraffic.plain_broadcast hbroadcast) hclient⟩
    simpa [hqueue] using htoMember

/-- The member's text takes an update that was broadcast. -/
theorem SessionInvariant.memberApply (hinvariant : SessionInvariant start log session)
    (hstep : session.step .memberApply = some (session', output)) :
    SessionInvariant start (log.append output) session' := by
  obtain ⟨traffic, memberTaken, htraffic, hhost, hmember⟩ := hinvariant
  obtain ⟨⟨client, _⟩, hclient, hafter⟩ := Option.map_eq_some_iff.mp hstep
  cases hafter
  obtain ⟨happlied, hsilent⟩ := hmember.apply hclient
  have hlog : log.append { memberTook := appliedBy session.memberClient client } =
      { log with memberTook := log.memberTook ++ appliedBy session.memberClient client } := by
    simp [SessionOutput.append]
  rw [setMemberClient_of_silent hsilent, hsilent, hlog]
  exact ⟨traffic, memberTaken, { htraffic with }, hhost, happlied⟩

/-- Every step keeps the invariant, as long as what the users type is ASCII. -/
theorem SessionInvariant.step (hinvariant : SessionInvariant start log session)
    {event : SessionEvent} (hascii : TypesAscii ⟨session, event, output, session'⟩)
    (hstep : session.step event = some (session', output)) :
    SessionInvariant start (log.append output) session' := by
  cases event with
  | hostAct action =>
    exact hinvariant.hostAct (fun edit hmakes ↦ by subst hmakes; exact hascii) hstep
  | hostListen => exact hinvariant.hostListen hstep
  | distribute => exact hinvariant.send (Or.inl rfl) hstep
  | scan => exact hinvariant.send (Or.inr rfl) hstep
  | hostReceive prevCursosrPosition => exact hinvariant.hostReceive hstep
  | hostApply => exact hinvariant.hostApply hstep
  | memberAct action =>
    exact hinvariant.memberAct (fun edit hmakes ↦ by subst hmakes; exact hascii) hstep
  | memberListen => exact hinvariant.memberListen hstep
  | memberForward => exact hinvariant.memberForward hstep
  | memberScan => exact hinvariant.memberScan hstep
  | memberReceive prevCursosrPosition => exact hinvariant.memberReceive hstep
  | memberApply => exact hinvariant.memberApply hstep

end Step

/-! ### Whole runs -/

/-- What a run shows. -/
def sessionLog (history : List SessionRecord) : SessionOutput where
  hostMade := hostChanges history
  hostTook := hostOrder history
  broadcast := broadcastOrder history
  memberMade := memberChanges history
  memberTook := memberOrder history

theorem sessionLog_snoc (history : List SessionRecord) (record : SessionRecord) :
    sessionLog (history ++ [record]) = (sessionLog history).append record.observation := by
  simp [sessionLog, SessionOutput.append, hostChanges, hostOrder, broadcastOrder, memberChanges,
    memberOrder]

/-- An editor that has taken nothing shows the text it started with. -/
theorem editorInvariant_start (text : Text) (ide : Ide) (htext : ide.text = text)
    (htokens : ide.tokens = 0) : EditorInvariant text [] [] [] { ide } := by
  refine ⟨Or.inl rfl, ⟨[], rfl, .nil⟩, by simp, fun _ ↦ ?_, fun _ ↦ htext⟩
  exact htokens.ge

theorem sessionInvariant_start (text : Text) :
    SessionInvariant text {} (Session.start text) := by
  refine ⟨{}, [], ⟨accounted_start 1, by simp, rfl, rfl, rfl, rfl⟩, ?_, ?_⟩
  · exact editorInvariant_start text _ rfl rfl
  · exact editorInvariant_start text _ rfl rfl

theorem sessionInvariant_of_run {text : Text} {history : List SessionRecord} {session : Session}
    (hrun : SessionRun text history session) (hascii : EveryStep (fun _ ↦ TypesAscii) history) :
    SessionInvariant text (sessionLog history) session := by
  refine hrun.relation_of_everyStep
    (fun history session ↦ SessionInvariant text (sessionLog history) session)
    (sessionInvariant_start text) ?_ hascii
  intro history session event session' output _ hinvariant hascii hstep
  rw [sessionLog_snoc]
  exact hinvariant.step hascii hstep

end NovaIde.Client
