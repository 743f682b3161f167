import NovaIde.Client.PeerListener

/-!
# Roles over successive sessions

`ConnectP2P` is called once for every session. It stores the address and the port of the details in
both cases, but it touches `hostFlag` only when the details name no host, and then clears it. The
flag is set by the constructor and never again, so it says whether every session so far was one of a
host (`hostFlag_foldl_connected`), and a client that was a member once goes on as a member when it
is made a host: `follows_latest_iff` says exactly when role and peer are those of the latest
session.
-/

set_option autoImplicit false
set_option relaxedAutoImplicit false

namespace NovaIde.Client

/-! ### Session details -/

/-- The type of a peer in session details. -/
inductive PeerType
  | host
  | member
deriving DecidableEq, Repr

/-- The type as it is written. -/
def PeerType.text : PeerType → Text
  | .host => HOST_IDENTIFIER
  | .member => str "C"

/-- Well-formed session details: an address that `IPAddress.Parse` reads, a port and a type. -/
structure SessionDetails where
  ip : Text
  address : ℕ
  port : ℕ
  type : PeerType
  colon_notMem : colon ∉ ip
  address_eq : ipAddressParse ip = some address
  port_le : port ≤ 0xFFFF

/-- The details as the server sends them. -/
def SessionDetails.text (details : SessionDetails) : Text :=
  details.ip ++ str ":" ++ decimal details.port ++ str ":" ++ details.type.text

/-- The calls of `ConnectP2P` of successive sessions. -/
def connectSessions (communicator : P2PCommunicator) (sessions : List SessionDetails) :
    Except ConnectFault P2PCommunicator :=
  sessions.foldlM (fun communicator details ↦ communicator.connectP2P details.text) communicator

/-- Role and peer are those of the given details: the flag, the address, the port, and the queue
every update goes to. -/
structure FollowsDetails (communicator : P2PCommunicator) (details : SessionDetails) : Prop where
  hostFlag : communicator.hostFlag = true ↔ details.type = .host
  ip : communicator.ip = details.ip
  port : communicator.port = details.port
  listener : ∀ peer : PeerState, peer.communicator = communicator →
    ∀ receiveBytes, isUpdateMessage (asciiGetString receiveBytes) = true →
      peer.p2pListener receiveBytes = .ok
        (match details.type with
        | .host => { peer with
            updateDeliveryQueue :=
              peer.updateDeliveryQueue ++ [⟨asciiGetString receiveBytes, true⟩] }
        | .member => { peer with
            updateIDEQueue := peer.updateIDEQueue ++ [asciiGetString receiveBytes] })

/-! ### What a session leaves behind -/

/-- The communicator after `ConnectP2P` on well-formed details. -/
def P2PCommunicator.connected (communicator : P2PCommunicator) (details : SessionDetails) :
    P2PCommunicator :=
  match details.type with
  | .host => { communicator with
      ip := details.ip
      port := details.port
      epList := communicator.epList ++ [⟨details.address, details.port⟩] }
  | .member => { communicator with
      ip := details.ip
      port := details.port
      hostFlag := false
      hostIPEP := some ⟨details.address, details.port⟩ }

theorem connectP2P_text (communicator : P2PCommunicator) (details : SessionDetails) :
    communicator.connectP2P details.text = .ok (communicator.connected details) := by
  have htype : colon ∉ details.type.text := by
    cases details.type <;> decide
  rw [SessionDetails.text, connectP2P_join details.colon_notMem htype details.port_le
    details.address_eq, P2PCommunicator.connected]
  cases details.type with
  | host => exact congrArg Except.ok (if_pos rfl)
  | member => exact congrArg Except.ok (if_neg (by decide))

/-- Every call of `ConnectP2P` on well-formed details returns. -/
theorem connectSessions_eq (sessions : List SessionDetails) : ∀ communicator : P2PCommunicator,
    connectSessions communicator sessions =
      .ok (sessions.foldl P2PCommunicator.connected communicator) := by
  induction sessions with
  | nil => exact fun _ ↦ rfl
  | cons details rest ih =>
    intro communicator
    rw [connectSessions, List.foldlM_cons, connectP2P_text, List.foldl_cons]
    exact ih (communicator.connected details)

theorem hostFlag_connected (communicator : P2PCommunicator) (details : SessionDetails) :
    (communicator.connected details).hostFlag = true ↔
      communicator.hostFlag = true ∧ details.type = .host := by
  unfold P2PCommunicator.connected
  cases details.type with
  | host => simp
  | member => simp

/-- The flag says whether every session so far was one of a host. -/
theorem hostFlag_foldl_connected (sessions : List SessionDetails) :
    ∀ communicator : P2PCommunicator,
      (sessions.foldl P2PCommunicator.connected communicator).hostFlag = true ↔
        communicator.hostFlag = true ∧ ∀ details ∈ sessions, details.type = .host := by
  induction sessions with
  | nil => simp
  | cons details rest ih =>
    intro communicator
    rw [List.foldl_cons, ih, hostFlag_connected, List.forall_mem_cons, and_assoc]

theorem peer_connected (communicator : P2PCommunicator) (details : SessionDetails) :
    (communicator.connected details).ip = details.ip ∧
      (communicator.connected details).port = details.port := by
  unfold P2PCommunicator.connected
  cases details.type <;> exact ⟨rfl, rfl⟩

/-- A communicator with the address and the port of the details follows them when its flag does. -/
theorem followsDetails_iff {communicator : P2PCommunicator} {details : SessionDetails}
    (hip : communicator.ip = details.ip) (hport : communicator.port = details.port) :
    FollowsDetails communicator details ↔
      (communicator.hostFlag = true ↔ details.type = .host) := by
  refine ⟨FollowsDetails.hostFlag, fun hflag ↦ ⟨hflag, hip, hport, ?_⟩⟩
  rintro peer rfl receiveBytes hupdate
  rw [p2pListener_of_update hupdate]
  cases htype : details.type with
  | host => rw [if_pos (hflag.mpr htype)]
  | member =>
    have hmember : ¬ peer.communicator.hostFlag = true := fun hhost ↦ by
      cases htype.symm.trans (hflag.mp hhost)
    rw [if_neg hmember]

/-- After successive sessions role and peer are those of the latest one exactly when it makes the
client a member, or the client has been a host all along. -/
theorem follows_latest_iff (communicator : P2PCommunicator) (earlier : List SessionDetails)
    (latest : SessionDetails) :
    (∃ connected, connectSessions communicator (earlier ++ [latest]) = .ok connected ∧
      FollowsDetails connected latest) ↔
        (latest.type = .host →
          communicator.hostFlag = true ∧ ∀ details ∈ earlier, details.type = .host) := by
  have hpeer := peer_connected (earlier.foldl P2PCommunicator.connected communicator) latest
  simp only [connectSessions_eq, Except.ok.injEq, exists_eq_left', List.foldl_append,
    List.foldl_cons, List.foldl_nil]
  rw [followsDetails_iff hpeer.1 hpeer.2, hostFlag_connected, hostFlag_foldl_connected]
  constructor
  · exact fun hflag hhost ↦ (hflag.mpr hhost).1
  · exact fun hall ↦ ⟨And.right, fun hhost ↦ ⟨hall hhost, hhost⟩⟩

/-- The details of a peer on the same machine. -/
def loopbackDetails (type : PeerType) : SessionDetails where
  ip := str "127.0.0.1"
  address := 0x7F000001
  port := 5000
  type
  colon_notMem := by decide
  address_eq := by decide
  port_le := by decide

/-- A client that was a member first and is then made a host does not become one. -/
theorem not_follows_latest :
    ¬ ∀ communicator earlier latest, ∃ connected,
      connectSessions communicator (earlier ++ [latest]) = .ok connected ∧
        FollowsDetails connected latest := by
  intro hall
  obtain ⟨connected, hconnected, hfollows⟩ :=
    hall {} [loopbackDetails .member] (loopbackDetails .host)
  rw [connectSessions_eq, Except.ok.injEq] at hconnected
  subst hconnected
  have hhost := hfollows.hostFlag.mpr rfl
  rw [hostFlag_foldl_connected] at hhost
  have hmember := hhost.2 (loopbackDetails .member) (by simp)
  cases hmember

end NovaIde.Client
