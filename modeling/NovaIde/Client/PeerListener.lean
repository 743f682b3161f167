import NovaIde.Client.ConcurrentEditing
import NovaIde.Client.FileTransfer
import NovaIde.Client.PeerConnection

/-!
# The listener of a client

`P2PListener` runs on a thread of its own and takes one datagram after another. An update is queued
for the host's distributor or for the member's editor, as `hostFlag` says; an `I` message configures
the session; an `F` message brings files. An exception in any of these leaves the loop, and no state
of the client matters after it, for an exception nobody catches on a thread ends the process.

`HostState` and `MemberState` are the two sides of this state as the queues behind the listener see
it (`p2pListener_hostState`, `p2pListener_memberState`).
-/

set_option autoImplicit false
set_option relaxedAutoImplicit false

namespace NovaIde.Client

/-! ### The state of a client -/

/-- `P2PCommunicator` with what its listener writes in its `SessionHost` and `SessionMember`. -/
structure PeerState where
  communicator : P2PCommunicator := {}
  updateDeliveryQueue : List UpdateTuple := []
  updateIDEQueue : List Text := []
  memberID : UInt16 := unit '9'
  maxMessageID : ℤ := 0
  files : Files := []
  filesRecieved : Bool := false
deriving DecidableEq, Repr

/-- The exceptions that leave the loop of `P2PListener`. -/
inductive ListenerFault
  /-- `IndexOutOfRangeException` of `ConfigurationMessage[1]` -/
  | indexRange
  /-- the exceptions of `int.Parse` -/
  | parse (fault : Fault)
  /-- `ArgumentException` of `Dictionary.Add` -/
  | duplicateKey
deriving DecidableEq, Repr

/-- `GetHost`. -/
def PeerState.getHost (peer : PeerState) : Bool := peer.communicator.hostFlag

/-- `GetID`. -/
def PeerState.getID (peer : PeerState) : UInt16 := if peer.getHost then unit '0' else peer.memberID

/-- `AnalyzeConfigurationMessagage`: everything from index two on is one number. -/
def analyzeConfigurationMessagage (configurationMessage : Text) : Except Fault ℤ :=
  parseInt (configurationMessage.drop 2)

/-- `SessionMember.ConfigureSession`. -/
def PeerState.configureSession (peer : PeerState) (configurationMessage : Text) :
    Except ListenerFault PeerState :=
  match configurationMessage[1]? with
  | none => .error .indexRange
  | some memberID =>
    match analyzeConfigurationMessagage configurationMessage with
    | .error fault => .error (.parse fault)
    | .ok maxMessageID => .ok { peer with memberID, maxMessageID }

/-- One pass of the loop of `P2PListener`. -/
def PeerState.p2pListener (peer : PeerState) (receiveBytes : Datagram) :
    Except ListenerFault PeerState :=
  match listenerAction receiveBytes with
  | .update receivedMessage =>
    if peer.communicator.hostFlag then
      .ok { peer with
        updateDeliveryQueue := peer.updateDeliveryQueue ++ [⟨receivedMessage, true⟩] }
    else .ok { peer with updateIDEQueue := peer.updateIDEQueue ++ [receivedMessage] }
  | .configure receivedMessage => peer.configureSession receivedMessage
  | .parseFiles receivedMessage =>
    match receiveAndParseMessage receivedMessage with
    | none => .error .duplicateKey
    | some files => .ok { peer with files, filesRecieved := true }
  | .ignore => .ok peer

/-! ### What the queues see of it -/

section Queues

variable {peer next : PeerState} {receiveBytes : Datagram}

/-- The listener takes a message for an update by its first character. -/
theorem listenerAction_eq_update {receivedMessage : Text} :
    listenerAction receiveBytes = .update receivedMessage ↔
      isUpdateMessage (asciiGetString receiveBytes) = true ∧
        asciiGetString receiveBytes = receivedMessage := by
  unfold listenerAction isUpdateMessage
  cases asciiGetString receiveBytes with
  | nil => simp
  | cons char rest =>
    by_cases hupdate : char = unit '+' ∨ char = unit '-' ∨ char = unit '='
    · simp [hupdate, or_assoc]
    · simp only [if_neg hupdate]
      split_ifs <;> simp_all

/-- An update is queued by role, and nothing else happens. -/
theorem p2pListener_of_update (hupdate : isUpdateMessage (asciiGetString receiveBytes) = true) :
    peer.p2pListener receiveBytes =
      .ok (if peer.communicator.hostFlag then
        { peer with
          updateDeliveryQueue :=
            peer.updateDeliveryQueue ++ [⟨asciiGetString receiveBytes, true⟩] }
      else
        { peer with updateIDEQueue := peer.updateIDEQueue ++ [asciiGetString receiveBytes] }) := by
  rw [PeerState.p2pListener, listenerAction_eq_update.mpr ⟨hupdate, rfl⟩]
  exact (apply_ite Except.ok _ _ _).symm

/-- Configuring a session touches neither the queues nor the communicator. -/
theorem configureSession_frame {configurationMessage : Text}
    (hconfigured : peer.configureSession configurationMessage = .ok next) :
    next.updateDeliveryQueue = peer.updateDeliveryQueue ∧
      next.updateIDEQueue = peer.updateIDEQueue ∧ next.communicator = peer.communicator := by
  unfold PeerState.configureSession at hconfigured
  split at hconfigured
  · cases hconfigured
  · split at hconfigured
    · cases hconfigured
    · cases hconfigured
      exact ⟨rfl, rfl, rfl⟩

/-- A message that is no update leaves the queues and the communicator alone. -/
theorem p2pListener_of_not_update
    (hupdate : isUpdateMessage (asciiGetString receiveBytes) = false)
    (hlistened : peer.p2pListener receiveBytes = .ok next) :
    next.updateDeliveryQueue = peer.updateDeliveryQueue ∧
      next.updateIDEQueue = peer.updateIDEQueue ∧ next.communicator = peer.communicator := by
  unfold PeerState.p2pListener at hlistened
  split at hlistened
  · next receivedMessage haction =>
    rw [(listenerAction_eq_update.mp haction).1] at hupdate
    cases hupdate
  · exact configureSession_frame hlistened
  · split at hlistened
    · cases hlistened
    · cases hlistened
      exact ⟨rfl, rfl, rfl⟩
  · cases hlistened
    exact ⟨rfl, rfl, rfl⟩

/-- While `hostFlag` is set, the pipeline of the host sees the listener of the client. -/
theorem p2pListener_hostState {host : HostState} (hhost : peer.communicator.hostFlag = true)
    (hqueue : host.updateDeliveryQueue = peer.updateDeliveryQueue)
    (hlistened : peer.p2pListener receiveBytes = .ok next) :
    (host.p2pListener receiveBytes).updateDeliveryQueue = next.updateDeliveryQueue := by
  cases hupdate : isUpdateMessage (asciiGetString receiveBytes) with
  | true =>
    rw [p2pListener_of_update hupdate, if_pos hhost] at hlistened
    cases hlistened
    simp [HostState.p2pListener, hupdate, hqueue]
  | false =>
    rw [(p2pListener_of_not_update hupdate hlistened).1]
    simp [HostState.p2pListener, hupdate, hqueue]

/-- While `hostFlag` is not set, the queue of the member sees the listener of the client. -/
theorem p2pListener_memberState {member : MemberState}
    (hmember : peer.communicator.hostFlag = false)
    (hqueue : member.updateIDEQueue = peer.updateIDEQueue)
    (hlistened : peer.p2pListener receiveBytes = .ok next) :
    (member.p2pListener receiveBytes).updateIDEQueue = next.updateIDEQueue := by
  cases hupdate : isUpdateMessage (asciiGetString receiveBytes) with
  | true =>
    rw [p2pListener_of_update hupdate, hmember] at hlistened
    cases hlistened
    simp [MemberState.p2pListener, hupdate, hqueue]
  | false =>
    rw [(p2pListener_of_not_update hupdate hlistened).2.1]
    simp [MemberState.p2pListener, hupdate, hqueue]

end Queues

end NovaIde.Client
