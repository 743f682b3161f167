import NovaIde.Client.AnnouncedEdits
import NovaIde.Client.EchoTokens
import NovaIde.Client.HostPipeline

/-!
# Two editors at once

A host and one member edit the same file over channels that lose, duplicate and reorder nothing. The
host's text takes an edit of its user at once and a member's update when its updater applies it; the
member's text takes every update when its own updater applies it, and the edits of its user only by
way of the host, for it undoes them at once.

`Session.step` interleaves the users, the threads of both sides and the channels. What a step makes,
broadcasts and applies is its output, from which `hostOrder` and `broadcastOrder` are read off: the
order in which the host's text took the updates, and the order in which they were broadcast.
-/

set_option autoImplicit false
set_option relaxedAutoImplicit false

namespace NovaIde.Client

open Foundation Foundation.EventRun

/-! ### The member -/

/-- `SessionMember` with the queues of its `SynchronizationManager`. -/
structure MemberState where
  updateIDEQueue : List Text := []
  syncManager : SynchronizationManager := {}
  /-- The update `EnqueueForIDEUpdate` has dequeued and not yet handed on. -/
  forwarding : Option Text := none
  /-- The change `IDEUpdateScanner` has dequeued and not yet sent. -/
  scanning : Option Text := none
deriving DecidableEq, Repr

/-- What `P2PListener` does with a datagram while `hostFlag` is not set. -/
def MemberState.p2pListener (member : MemberState) (receiveBytes : Datagram) : MemberState :=
  let receivedMessage := asciiGetString receiveBytes
  if isUpdateMessage receivedMessage then
    { member with updateIDEQueue := member.updateIDEQueue ++ [receivedMessage] }
  else member

/-- The next step of `EnqueueForIDEUpdate`. -/
def MemberState.enqueueForIDEUpdate (member : MemberState) : Option MemberState :=
  match member.forwarding with
  | some update =>
    some { member with syncManager := member.syncManager.addIDEUpdate update, forwarding := none }
  | none =>
    match member.updateIDEQueue with
    | update :: rest => some { member with updateIDEQueue := rest, forwarding := some update }
    | [] => none

/-- The next step of `IDEUpdateScanner`, with the datagram it sends to the host. -/
def MemberState.ideUpdateScanner (member : MemberState) : Option (MemberState × List Datagram) :=
  match member.scanning with
  | some change => some ({ member with scanning := none }, [utf8GetBytes change])
  | none =>
    if member.syncManager.textChangesQueue.length ≠ 0 then
      let (change, syncManager) := member.syncManager.getLastChange
      some ({ member with syncManager, scanning := some change }, [])
    else none

/-! ### The users -/

/-- What the users do: they move the caret, press Backspace, and make insertions and deletions that
are announced. The caret of a text box is inside its text, and the text is a string. -/
def Ide.Admits (ide : Ide) (action : UserAction) : Prop :=
  ∀ edit ∈ ide.editOf action, ide.announces = true ∧ ide.caret ≤ ide.text.length ∧
    ide.text.length ≤ maxLength ∧ ide.Allows action ∧ (edit.removed = 0 ∨ edit.added = [])

instance (ide : Ide) (action : UserAction) : Decidable (ide.Admits action) :=
  inferInstanceAs (Decidable (∀ edit ∈ ide.editOf action, _))

/-- The edit that takes back another. -/
def Edit.inverse (edit : Edit) (text : Text) : Edit :=
  ⟨edit.offset, edit.added.length, (text.drop edit.offset).take edit.removed⟩

/-- What the member's user does: an edit is undone at once. -/
def Ide.actAsMember (ide : Ide) (action : UserAction) : Ide :=
  match ide.editOf action with
  | some edit => (ide.act action).runUndo (some (edit.inverse ide.text))
  | none => ide.act action

/-! ### The session -/

/-- The two sides and the channels between them. -/
structure Session where
  host : HostState := {}
  hostClient : ClientState
  member : MemberState := {}
  memberClient : ClientState
  toHost : List Datagram := []
  toMember : List Datagram := []
deriving DecidableEq, Repr

/-- The start of a session on a text. -/
def Session.start (text : Text) : Session where
  hostClient := { ide := { text, sessionStarted := true, hosting := true } }
  memberClient := { ide := { text, sessionStarted := true, hosting := false } }

/-- What happens in a session. -/
inductive SessionEvent
  | hostAct (action : UserAction)
  | hostListen
  | distribute
  | scan
  | hostReceive (prevCursosrPosition : ℕ)
  | hostApply
  | memberAct (action : UserAction)
  | memberListen
  | memberForward
  | memberScan
  | memberReceive (prevCursosrPosition : ℕ)
  | memberApply
deriving DecidableEq, Repr

/-- What a step shows: the updates a side made, those its text took, and those broadcast. -/
structure SessionOutput where
  hostMade : List Text := []
  hostTook : List Text := []
  broadcast : List Text := []
  memberMade : List Text := []
  memberTook : List Text := []
deriving DecidableEq, Repr

/-- The updates announced between two states of a client. -/
def announcedSince (before after : ClientState) : List Text :=
  after.ide.announced.drop before.ide.announced.length

/-- `AddTextChange` for each of several updates. -/
def SynchronizationManager.addTextChanges (manager : SynchronizationManager)
    (updates : List Text) : SynchronizationManager :=
  updates.foldl SynchronizationManager.addTextChange manager

/-- The session after a step of the host's client. -/
def Session.setHostClient (session : Session) (client : ClientState) : Session :=
  { session with
    hostClient := client
    host := { session.host with
      syncManager := session.host.syncManager.addTextChanges
        (announcedSince session.hostClient client) } }

/-- The session after a step of the member's client. -/
def Session.setMemberClient (session : Session) (client : ClientState) : Session :=
  { session with
    memberClient := client
    member := { session.member with
      syncManager := session.member.syncManager.addTextChanges
        (announcedSince session.memberClient client) } }

/-- The session after a step of a sending thread of the host. -/
def Session.afterSender (session : Session) : HostState × HostOutput → Session × SessionOutput
  | (host, .sent _ data) =>
    ({ session with host, toMember := session.toMember ++ [data] },
      { broadcast := [asciiGetString data] })
  | (host, _) => ({ session with host }, {})

/-- The message an update was read from. -/
def PendingUpdate.message (update : PendingUpdate) : Text :=
  updateMessage update.action update.length.toNat update.offset.toNat update.text

/-- The update a client has applied in a step: one that threw stays pending. -/
def appliedBy (before after : ClientState) : List Text :=
  if after.pending = none then before.pending.toList.map PendingUpdate.message else []

/-- One step of a session. -/
def Session.step (session : Session) : SessionEvent → Option (Session × SessionOutput)
  | .hostAct action =>
    if session.hostClient.running = true ∧ session.hostClient.ide.Admits action then
      let client := { session.hostClient with ide := session.hostClient.ide.act action }
      let made := announcedSince session.hostClient client
      some (session.setHostClient client, { hostMade := made, hostTook := made })
    else none
  | .hostListen =>
    match session.toHost with
    | data :: rest =>
      some ({ session with host := session.host.p2pListener data, toHost := rest }, {})
    | [] => none
  | .distribute => (session.host.step 1 .distribute).map session.afterSender
  | .scan => (session.host.step 1 .scan).map session.afterSender
  | .hostReceive prevCursosrPosition =>
    let (update, syncManager) := session.host.syncManager.getLastUpdate
    (session.hostClient.step (.receiveUpdate update prevCursosrPosition)).map fun (client, _) ↦
      ({ session with host := { session.host with syncManager }, hostClient := client }, {})
  | .hostApply =>
    (session.hostClient.step .applyUpdate).map fun (client, _) ↦
      let made := announcedSince session.hostClient client
      (session.setHostClient client,
        { hostMade := made, hostTook := appliedBy session.hostClient client ++ made })
  | .memberAct action =>
    if session.memberClient.running = true ∧ session.memberClient.ide.Admits action then
      let client := { session.memberClient with ide := session.memberClient.ide.actAsMember action }
      some (session.setMemberClient client,
        { memberMade := announcedSince session.memberClient client })
    else none
  | .memberListen =>
    match session.toMember with
    | data :: rest =>
      some ({ session with member := session.member.p2pListener data, toMember := rest }, {})
    | [] => none
  | .memberForward =>
    session.member.enqueueForIDEUpdate.map fun member ↦ ({ session with member }, {})
  | .memberScan =>
    session.member.ideUpdateScanner.map fun (member, sent) ↦
      ({ session with member, toHost := session.toHost ++ sent }, {})
  | .memberReceive prevCursosrPosition =>
    let (update, syncManager) := session.member.syncManager.getLastUpdate
    (session.memberClient.step (.receiveUpdate update prevCursosrPosition)).map fun (client, _) ↦
      ({ session with member := { session.member with syncManager }, memberClient := client }, {})
  | .memberApply =>
    (session.memberClient.step .applyUpdate).map fun (client, _) ↦
      (session.setMemberClient client,
        { memberMade := announcedSince session.memberClient client
          memberTook := appliedBy session.memberClient client })

/-- The steps of a run of a session. -/
abbrev SessionRecord := StepRecord Session SessionEvent SessionOutput

/-- The runs of a session on a text. -/
abbrev SessionRun (text : Text) : List SessionRecord → Session → Prop :=
  Run Session.step (.start text)

/-- The updates made by the host's user. -/
def hostChanges (history : List SessionRecord) : List Text :=
  history.flatMap fun record ↦ record.observation.hostMade

/-- The updates made by the member's user. -/
def memberChanges (history : List SessionRecord) : List Text :=
  history.flatMap fun record ↦ record.observation.memberMade

/-- The updates in the order in which the host's text took them. -/
def hostOrder (history : List SessionRecord) : List Text :=
  history.flatMap fun record ↦ record.observation.hostTook

/-- The updates in the order in which they were broadcast. -/
def broadcastOrder (history : List SessionRecord) : List Text :=
  history.flatMap fun record ↦ record.observation.broadcast

/-- The updates in the order in which the member's text took them. -/
def memberOrder (history : List SessionRecord) : List Text :=
  history.flatMap fun record ↦ record.observation.memberTook

/-- Every queue, every channel and every thread's hand is empty. -/
structure Session.Quiescent (session : Session) : Prop where
  host : session.host = {}
  hostPending : session.hostClient.pending = none
  member : session.member = {}
  memberPending : session.memberClient.pending = none
  toHost : session.toHost = []
  toMember : session.toMember = []

instance (session : Session) : Decidable session.Quiescent :=
  decidable_of_iff
    (session.host = {} ∧ session.hostClient.pending = none ∧ session.member = {} ∧
      session.memberClient.pending = none ∧ session.toHost = [] ∧ session.toMember = [])
    ⟨fun ⟨host, hostPending, member, memberPending, toHost, toMember⟩ ↦
        ⟨host, hostPending, member, memberPending, toHost, toMember⟩,
      fun ⟨host, hostPending, member, memberPending, toHost, toMember⟩ ↦
        ⟨host, hostPending, member, memberPending, toHost, toMember⟩⟩

/-- The text a user types. -/
def SessionEvent.typed : SessionEvent → Text
  | .hostAct (.makeEdit edit) | .memberAct (.makeEdit edit) => edit.added
  | _ => []

/-- What the users type in a step is ASCII. -/
def TypesAscii (record : SessionRecord) : Prop := IsAscii record.event.typed

instance (record : SessionRecord) : Decidable (TypesAscii record) :=
  inferInstanceAs (Decidable (IsAscii _))

end NovaIde.Client
