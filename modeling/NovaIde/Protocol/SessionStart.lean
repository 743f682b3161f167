import NovaIde.Client.ProjectTransfer
import NovaIde.Client.MemberIdentity
import NovaIde.Protocol.ReplyClassification

/-!
# How clients enter a session

After the answer to its invite a client connects to the peer, notes it, starts a listener, sends ten
greetings and, as a host, the information for the new member. Then the editor opens: a host sends
the files of its project, a member waits for files. Between all this the listeners of all clients
receive what is on its way, in any order, or it is lost.

The greetings and the information go to the endpoint noted last, but the files go to the first one
of the list that `ConnectP2P` fills. So only the first member of a host is ever sent files
(`enters_from_first`), and a member gets on exactly if a host that has it first in its list opened a
session, with it or later with another one (`gets_on_iff`). The two lists of a client that is always
a host never drift apart (`lists_agree`), and what its members are told keeps them apart, whoever is
told first (`members_kept_apart`).
-/

set_option autoImplicit false
set_option relaxedAutoImplicit false

namespace NovaIde.Protocol

open Foundation Foundation.EventRun Client

/-! ### Clients -/

def GREETING_MESSAGES_AMOUNT : ℕ := 10

/-- The message of a greeting, encoded. -/
def greetingData : Datagram := utf8GetBytes (str "b")

/-- Where the user interface of a client is with a session. -/
inductive SessionStage
  /-- no session is being started -/
  | atRest
  /-- `ConnectP2P` has returned -/
  | connected
  /-- in `startSesstion`, with so many greetings sent -/
  | greeting (sent : ℕ)
  /-- `startSesstion` has returned -/
  | started
  /-- in the loop of `getFiles` -/
  | waiting
deriving DecidableEq, Repr

/-- A client with the fields of its `P2PCommunicator`: `ep`, which is null at first, and `epList`
are the communicator's own; the list in `peer.communicator` is the one of its `SessionHost`. -/
structure SessionClient where
  peer : PeerState := {}
  ep : Option IPEndPoint := none
  epList : List IPEndPoint := []
  counters : HostCounters := {}
  stage : SessionStage := .atRest
  listening : Bool := false
  running : Bool := true
deriving DecidableEq, Repr

/-- What a client does. -/
inductive ClientAction
  /-- `StartSession.done` with the answer to the invite -/
  | done (message : Text)
  /-- the next step of `startSesstion` -/
  | startSesstion
  /-- `setOtherUser`, with the files that `buildFiles` returns, if nothing throws up to their being
  sent -/
  | setOtherUser (files : Option Files)
  /-- the end of the loop of `getFiles` -/
  | getFiles
  /-- a thread of a session sends an update -/
  | sendUpdate (destination : IPEndPoint) (update : Text)
  /-- the process ends -/
  | exit
deriving DecidableEq, Repr

/-- What is seen of a step: a datagram, the files a member goes on with, or an exception that ends
the process. -/
inductive ClientOutput
  | nothing
  | sent (destination : IPEndPoint) (data : Datagram)
  | entered (files : Files)
  | threw
deriving DecidableEq, Repr

namespace SessionClient

variable (client : SessionClient)

/-- An exception that nobody catches. -/
def throws : SessionClient × ClientOutput := ({ client with running := false }, .threw)

/-- `StartSession.done`, from the answer on. -/
def done (message : Text) : SessionClient × ClientOutput :=
  match StartSession.done message with
  | none => client.throws
  | some .connects =>
    match client.peer.communicator.connectP2P message with
    | .error _ => client.throws
    | .ok communicator =>
      ({ client with peer := { client.peer with communicator }, stage := .connected }, .nothing)
  | some _ => (client, .nothing)

/-- The endpoint that is greeted. -/
def greeted : Option IPEndPoint :=
  if client.peer.communicator.hostFlag then client.epList.getLast? else client.ep

/-- The next step of `startSesstion`. -/
def startSesstion : Option (SessionClient × ClientOutput) :=
  match client.stage with
  | .connected =>
    match ipEndPoint client.peer.communicator.ip client.peer.communicator.port with
    | .error _ => some client.throws
    | .ok endpoint =>
      if client.peer.communicator.hostFlag then
        some ({ client with
          epList := client.epList ++ [endpoint]
          listening := true
          stage := .greeting 0 }, .nothing)
      else
        some ({ client with
          ep := some endpoint
          listening := true
          stage := .greeting 0 }, .nothing)
  | .greeting sent =>
    if sent < GREETING_MESSAGES_AMOUNT then
      match client.greeted with
      | none => some client.throws
      | some destination =>
        some ({ client with stage := .greeting (sent + 1) }, .sent destination greetingData)
    else if client.peer.communicator.hostFlag then
      match client.epList.getLast? with
      | none => some client.throws
      | some destination =>
        let (data, counters) := client.counters.delieverMemberInfo
        some ({ client with counters, stage := .started }, .sent destination data)
    else some ({ client with stage := .started }, .nothing)
  | _ => none

/-- `Ide.setOtherUser`, up to the loop of `getFiles`. -/
def setOtherUser (files : Option Files) : Option (SessionClient × ClientOutput) :=
  if client.stage = .started then
    if client.peer.communicator.hostFlag then
      match files, client.peer.communicator.epList.head? with
      | some files, some destination =>
        some ({ client with stage := .atRest }, .sent destination (sendFiles files))
      | _, _ => some client.throws
    else some ({ client with stage := .waiting }, .nothing)
  else none

/-- One step of a client. A process that has ended takes none. -/
def step (action : ClientAction) : Option (SessionClient × ClientOutput) :=
  if client.running then
    match action with
    | .done message => if client.stage = .atRest then some (client.done message) else none
    | .startSesstion => client.startSesstion
    | .setOtherUser files => client.setOtherUser files
    | .getFiles =>
      if client.stage = .waiting ∧ client.peer.filesRecieved = true then
        some ({ client with stage := .atRest }, .entered client.peer.files)
      else none
    | .sendUpdate destination update =>
      if client.listening = true ∧ (update = [] ∨ isUpdateMessage update = true) ∧
          (destination ∈ client.peer.communicator.epList ∨
            client.peer.communicator.hostIPEP = some destination) then
        some (client, .sent destination (utf8GetBytes update))
      else none
    | .exit => some ({ client with running := false }, .nothing)
  else none

/-- A listener of the client takes a datagram. -/
def receive (data : Datagram) : Option (SessionClient × ClientOutput) :=
  if client.running = true ∧ client.listening = true then
    match client.peer.p2pListener data with
    | .ok peer => some ({ client with peer }, .nothing)
    | .error _ => some client.throws
  else none

end SessionClient

/-! ### All clients -/

/-- A datagram on its way. Nobody reads where it comes from. -/
structure PeerDatagram where
  destination : IPEndPoint
  data : Datagram
deriving DecidableEq, Repr

/-- The clients by the endpoints at which the others reach them, and what is on its way. -/
structure PeerSystem where
  clients : IPEndPoint → SessionClient := fun _ ↦ {}
  inFlight : List PeerDatagram := []

/-- What happens. A datagram is also lost to a listener when the page that waits for the answer to
an invite receives it. -/
inductive PeerEvent
  | act (address : IPEndPoint) (action : ClientAction)
  | receive (index : ℕ)
  | lose (index : ℕ)
deriving DecidableEq, Repr

/-- What a step puts on its way. -/
def ClientOutput.datagrams : ClientOutput → List PeerDatagram
  | .sent destination data => [⟨destination, data⟩]
  | _ => []

/-- One step of the clients. -/
def PeerSystem.step (system : PeerSystem) : PeerEvent → Option (PeerSystem × ClientOutput)
  | .act address action => do
    let (client, output) ← (system.clients address).step action
    return ({ clients := Function.update system.clients address client
              inFlight := system.inFlight ++ output.datagrams }, output)
  | .receive index => do
    let datagram ← system.inFlight[index]?
    let (client, output) ← (system.clients datagram.destination).receive datagram.data
    return ({ clients := Function.update system.clients datagram.destination client
              inFlight := system.inFlight.eraseIdx index }, output)
  | .lose index =>
    if index < system.inFlight.length then
      some ({ system with inFlight := system.inFlight.eraseIdx index }, .nothing)
    else none

/-- The steps of a run of the clients. -/
abbrev PeerRecord := StepRecord PeerSystem PeerEvent ClientOutput

/-- The runs of the clients. -/
abbrev PeerRun : List PeerRecord → PeerSystem → Prop := Run PeerSystem.step {}

/-! ### What a step can do -/

/-- The ways a client takes a step. -/
inductive ClientStep (client : SessionClient) : ClientAction → SessionClient → ClientOutput → Prop
  | fault (action : ClientAction) : ClientStep client action { client with running := false } .threw
  | exit : ClientStep client .exit { client with running := false } .nothing
  | refuse (message : Text) : ClientStep client (.done message) client .nothing
  | connect (message : Text) (communicator : P2PCommunicator) (hstage : client.stage = .atRest)
      (hconnect : client.peer.communicator.connectP2P message = .ok communicator) :
      ClientStep client (.done message)
        { client with peer := { client.peer with communicator }, stage := .connected } .nothing
  | openHost (endpoint : IPEndPoint) (hstage : client.stage = .connected)
      (hhost : client.peer.communicator.hostFlag = true)
      (hendpoint : ipEndPoint client.peer.communicator.ip client.peer.communicator.port =
        .ok endpoint) :
      ClientStep client .startSesstion
        { client with
          epList := client.epList ++ [endpoint]
          listening := true
          stage := .greeting 0 } .nothing
  | openMember (endpoint : IPEndPoint) (hstage : client.stage = .connected)
      (hmember : client.peer.communicator.hostFlag = false) :
      ClientStep client .startSesstion
        { client with
          ep := some endpoint
          listening := true
          stage := .greeting 0 } .nothing
  | greet (sent : ℕ) (destination : IPEndPoint) (hstage : client.stage = .greeting sent) :
      ClientStep client .startSesstion { client with stage := .greeting (sent + 1) }
        (.sent destination greetingData)
  | inform (sent : ℕ) (destination : IPEndPoint) (hstage : client.stage = .greeting sent)
      (hhost : client.peer.communicator.hostFlag = true)
      (hlast : client.epList.getLast? = some destination) :
      ClientStep client .startSesstion
        { client with counters := client.counters.delieverMemberInfo.2, stage := .started }
        (.sent destination client.counters.delieverMemberInfo.1)
  | join (sent : ℕ) (hstage : client.stage = .greeting sent)
      (hmember : client.peer.communicator.hostFlag = false) :
      ClientStep client .startSesstion { client with stage := .started } .nothing
  | transfer (files : Files) (destination : IPEndPoint) (hstage : client.stage = .started)
      (hfirst : client.peer.communicator.epList.head? = some destination) :
      ClientStep client (.setOtherUser (some files)) { client with stage := .atRest }
        (.sent destination (sendFiles files))
  | wait (files : Option Files) (hstage : client.stage = .started) :
      ClientStep client (.setOtherUser files) { client with stage := .waiting } .nothing
  | enter (hstage : client.stage = .waiting) (hreceived : client.peer.filesRecieved = true) :
      ClientStep client .getFiles { client with stage := .atRest } (.entered client.peer.files)
  | update (destination : IPEndPoint) (update : Text)
      (hupdate : update = [] ∨ isUpdateMessage update = true) :
      ClientStep client (.sendUpdate destination update) client
        (.sent destination (utf8GetBytes update))

section Steps

variable {client next : SessionClient} {action : ClientAction} {output : ClientOutput}

theorem clientStep_of_startSesstion (hstep : client.startSesstion = some (next, output)) :
    ClientStep client .startSesstion next output := by
  unfold SessionClient.startSesstion at hstep
  split at hstep
  · next hstage =>
    split at hstep
    · cases hstep
      exact .fault _
    · next endpoint hendpoint =>
      split_ifs at hstep with hhost
      · cases hstep
        exact .openHost endpoint hstage hhost hendpoint
      · cases hstep
        exact .openMember endpoint hstage (by simpa using hhost)
  · next sent hstage =>
    split_ifs at hstep with hsent hhost
    · split at hstep
      · cases hstep
        exact .fault _
      · next destination hdestination =>
        cases hstep
        exact .greet sent destination hstage
    · split at hstep
      · cases hstep
        exact .fault _
      · next destination hlast =>
        cases hstep
        exact .inform sent destination hstage hhost hlast
    · cases hstep
      exact .join sent hstage (by simpa using hhost)
  · cases hstep

theorem clientStep_of_done (hstage : client.stage = .atRest) (message : Text) :
    ClientStep client (.done message) (client.done message).1 (client.done message).2 := by
  unfold SessionClient.done
  split
  · exact .fault _
  · split
    · exact .fault _
    · next communicator hconnect => exact .connect message communicator hstage hconnect
  · exact .refuse message

/-- Every step of a client is one of these, of a process that runs. -/
theorem clientStep_of_step (hstep : client.step action = some (next, output)) :
    client.running = true ∧ ClientStep client action next output := by
  have hrunning : client.running = true := by
    by_contra hended
    rw [SessionClient.step.eq_def, if_neg hended] at hstep
    cases hstep
  rw [SessionClient.step.eq_def, if_pos hrunning] at hstep
  refine ⟨hrunning, ?_⟩
  cases action with
  | done message =>
    simp only at hstep
    split_ifs at hstep with hstage
    have hpair := Option.some.inj hstep
    have hclient := clientStep_of_done hstage message
    rw [hpair] at hclient
    exact hclient
  | startSesstion => exact clientStep_of_startSesstion hstep
  | setOtherUser files =>
    simp only [SessionClient.setOtherUser] at hstep
    split_ifs at hstep with hstage hhost
    · split at hstep
      · next folder destination hfirst =>
        cases hstep
        exact .transfer folder destination hstage hfirst
      · cases hstep
        exact .fault _
    · cases hstep
      exact .wait files hstage
  | getFiles =>
    simp only at hstep
    split_ifs at hstep with hwaiting
    cases hstep
    exact .enter hwaiting.1 hwaiting.2
  | sendUpdate destination update =>
    simp only at hstep
    split_ifs at hstep with hsends
    cases hstep
    exact .update destination update hsends.2.1
  | exit =>
    cases hstep
    exact .exit

end Steps

/-- The ways the clients take a step. -/
inductive PeerStep (system : PeerSystem) : PeerEvent → PeerSystem → ClientOutput → Prop
  | act (address : IPEndPoint) (action : ClientAction) (client : SessionClient)
      (output : ClientOutput) (hclient : ClientStep (system.clients address) action client output) :
      PeerStep system (.act address action)
        { clients := Function.update system.clients address client
          inFlight := system.inFlight ++ output.datagrams } output
  | take (index : ℕ) (datagram : PeerDatagram) (peer : PeerState)
      (hdatagram : system.inFlight[index]? = some datagram)
      (hlistened :
        (system.clients datagram.destination).peer.p2pListener datagram.data = .ok peer) :
      PeerStep system (.receive index)
        { clients := Function.update system.clients datagram.destination
            { system.clients datagram.destination with peer }
          inFlight := system.inFlight.eraseIdx index } .nothing
  | stop (index : ℕ) (datagram : PeerDatagram)
      (hdatagram : system.inFlight[index]? = some datagram) :
      PeerStep system (.receive index)
        { clients := Function.update system.clients datagram.destination
            { system.clients datagram.destination with running := false }
          inFlight := system.inFlight.eraseIdx index } .threw
  | lose (index : ℕ) :
      PeerStep system (.lose index)
        { system with inFlight := system.inFlight.eraseIdx index } .nothing

section Systems

variable {system next : PeerSystem} {event : PeerEvent} {output : ClientOutput}

/-- Every step of the clients is one of these. -/
theorem peerStep_of_step (hstep : system.step event = some (next, output)) :
    PeerStep system event next output := by
  cases event with
  | act address action =>
    simp only [PeerSystem.step, Option.bind_eq_bind, Option.bind_eq_some_iff, Option.pure_def,
      Option.some.injEq] at hstep
    obtain ⟨⟨client, shown⟩, hclient, hpair⟩ := hstep
    cases hpair
    exact .act address action client _ (clientStep_of_step hclient).2
  | receive index =>
    simp only [PeerSystem.step, Option.bind_eq_bind, Option.bind_eq_some_iff, Option.pure_def,
      Option.some.injEq] at hstep
    obtain ⟨datagram, hdatagram, ⟨client, shown⟩, hreceived, hpair⟩ := hstep
    cases hpair
    unfold SessionClient.receive at hreceived
    split_ifs at hreceived
    split at hreceived
    · next peer hlistened =>
      cases hreceived
      exact .take index datagram peer hdatagram hlistened
    · cases hreceived
      exact .stop index datagram hdatagram
  | lose index =>
    simp only [PeerSystem.step] at hstep
    split_ifs at hstep
    cases hstep
    exact .lose index

end Systems

/-! ### Datagrams -/

/-- Whether a listener takes a datagram for a transfer of files. -/
def carriesFiles (data : Datagram) : Bool :=
  match listenerAction data with
  | .parseFiles _ => true
  | _ => false

/-- The message of a datagram that a listener takes for the information for a member. -/
def informs (data : Datagram) : Option Text :=
  match listenerAction data with
  | .configure receivedMessage => some receivedMessage
  | _ => none

/-- What is sent as a transfer of files is taken for one. -/
theorem carriesFiles_sendFiles (files : Files) :
    carriesFiles (sendFiles files) = true ∧ informs (sendFiles files) = none := by
  have hmessage : asciiGetString (sendFiles files) =
      FILES_IDENTIFIER :: messageBody (arrivingEntries files) := asReceived_filesMessage files
  simp only [carriesFiles, informs, listenerAction, hmessage]
  exact ⟨rfl, rfl⟩

/-- What a host sends as the information for a member is taken for it. -/
theorem informs_delieverMemberInfo (counters : HostCounters) :
    carriesFiles counters.delieverMemberInfo.1 = false ∧
      informs counters.delieverMemberInfo.1 = some counters.infoMessage := by
  have hascii : IsAscii counters.infoMessage :=
    isAscii_append.mpr ⟨isAscii_append.mpr ⟨by decide, isAscii_intText _⟩, isAscii_intText _⟩
  have hmessage : asciiGetString counters.delieverMemberInfo.1 = counters.infoMessage :=
    asReceived_of_ascii hascii
  simp only [carriesFiles, informs, listenerAction, hmessage]
  exact ⟨rfl, rfl⟩

/-- A greeting is neither. -/
theorem plain_greeting : carriesFiles greetingData = false ∧ informs greetingData = none := by
  decide +kernel

/-- An update is neither. -/
theorem plain_update {update : Text} (hupdate : update = [] ∨ isUpdateMessage update = true) :
    carriesFiles (utf8GetBytes update) = false ∧ informs (utf8GetBytes update) = none := by
  rcases hupdate with rfl | hupdate
  · decide +kernel
  · cases update with
    | nil => cases hupdate
    | cons char rest =>
      have hchar : char = unit '+' ∨ char = unit '-' ∨ char = unit '=' := by
        simpa [isUpdateMessage, or_assoc] using hupdate
      have hascii : char < 0x80 := by
        rcases hchar with rfl | rfl | rfl <;> decide
      have hmessage : asciiGetString (utf8GetBytes (char :: rest)) = char :: asReceived rest :=
        asReceived_append_cons hascii [] rest
      simp only [carriesFiles, informs, listenerAction, hmessage, if_pos hchar, and_self]

/-- How many members a host has sent their information: all that it noted, but for the one it is
greeting. -/
def SessionClient.informed (client : SessionClient) : ℕ :=
  match client.stage with
  | .greeting _ => if client.peer.communicator.hostFlag then client.epList.length - 1
    else client.epList.length
  | _ => client.epList.length

/-- The ways a client sends a datagram: as part of its user's session, as the information for the
member it connected to last, or as the transfer to the member it connected to first. -/
inductive Sending (client : SessionClient) (action : ClientAction) (next : SessionClient)
    (destination : IPEndPoint) : Datagram → Prop
  | plain {data : Datagram} (hplain : carriesFiles data = false ∧ informs data = none) :
      Sending client action next destination data
  | information (hlast : next.epList.getLast? = some destination)
      (hinformed : client.informed = next.epList.length - 1) :
      Sending client action next destination client.counters.delieverMemberInfo.1
  | transfer (files : Files) (haction : action = .setOtherUser (some files))
      (hfirst : next.peer.communicator.epList.head? = some destination) :
      Sending client action next destination (sendFiles files)

section Effects

variable {client next : SessionClient} {action : ClientAction} {output : ClientOutput}
  {peer listened : PeerState} {destination : IPEndPoint} {data : Datagram}

/-- Everything a client sends is sent in one of these ways. -/
theorem sending_of_clientStep (hclient : ClientStep client action next (.sent destination data)) :
    Sending client action next destination data := by
  cases hclient with
  | greet => exact .plain plain_greeting
  | update _ _ hupdate => exact .plain (plain_update hupdate)
  | inform _ _ hstage hhost hlast =>
    refine .information hlast ?_
    simp [SessionClient.informed, hstage, hhost]
  | transfer files _ _ hfirst => exact .transfer files rfl hfirst

/-- A client's own step leaves alone what its listener writes. -/
theorem listened_of_clientStep (hclient : ClientStep client action next output) :
    next.peer.files = client.peer.files ∧ next.peer.filesRecieved = client.peer.filesRecieved ∧
      next.peer.memberID = client.peer.memberID ∧
        next.peer.maxMessageID = client.peer.maxMessageID := by
  cases hclient <;> exact ⟨rfl, rfl, rfl, rfl⟩

/-- Connecting as a host appends the endpoint of the details to the list, and leaves the role as it
is; connecting as a member leaves the list alone. -/
theorem connectP2P_cases {communicator connected : P2PCommunicator} {details : Text}
    (hconnect : communicator.connectP2P details = .ok connected) :
    (∃ endpoint, ipEndPoint connected.ip connected.port = .ok endpoint ∧
        connected.hostFlag = communicator.hostFlag ∧
        connected.epList = communicator.epList ++ [endpoint]) ∨
      connected.hostFlag = false ∧ connected.epList = communicator.epList := by
  unfold P2PCommunicator.connectP2P at hconnect
  simp only at hconnect
  split at hconnect
  · cases hconnect
  · next port hport =>
    split_ifs at hconnect
    · simp only [P2PCommunicator.addIPEP, bind, Except.bind, pure, Except.pure] at hconnect
      split at hconnect
      · cases hconnect
      · next endpoint hendpoint =>
        cases hconnect
        exact .inl ⟨endpoint, hendpoint, rfl, rfl⟩
    · simp only [P2PCommunicator.updateHostIPEP, bind, Except.bind, pure, Except.pure] at hconnect
      split at hconnect
      · cases hconnect
      · cases hconnect
        exact .inr ⟨rfl, rfl⟩

/-- Both lists of a client only grow at their ends. -/
theorem prefix_of_clientStep (hclient : ClientStep client action next output) :
    client.peer.communicator.epList <+: next.peer.communicator.epList ∧
      client.epList <+: next.epList := by
  cases hclient with
  | connect _ communicator _ hconnect =>
    refine ⟨?_, List.prefix_rfl⟩
    rcases connectP2P_cases hconnect with ⟨endpoint, -, -, hlist⟩ | ⟨-, hlist⟩
    · exact hlist ▸ List.prefix_append _ _
    · exact hlist ▸ List.prefix_rfl
  | openHost => exact ⟨List.prefix_rfl, List.prefix_append _ _⟩
  | _ => exact ⟨List.prefix_rfl, List.prefix_rfl⟩

/-- A configuration is written in one place. -/
theorem configureSession_eq_ok {configurationMessage : Text} :
    peer.configureSession configurationMessage = .ok listened ↔
      ∃ memberID maxMessageID, configurationMessage[1]? = some memberID ∧
        analyzeConfigurationMessagage configurationMessage = .ok maxMessageID ∧
        listened = { peer with memberID, maxMessageID } := by
  unfold PeerState.configureSession
  split
  · next hnone => simp [hnone]
  · next memberID hmember =>
    split
    · next fault hfault => simp [hfault]
    · next maxMessageID hparsed => simp [hmember, hparsed, eq_comm]

/-- What a listener does to the files of a client. -/
theorem files_of_p2pListener (hlistened : peer.p2pListener data = .ok listened) :
    (carriesFiles data = true →
      listened.filesRecieved = true ∧ filesReceived data = some listened.files) ∧
    (carriesFiles data = false →
      listened.filesRecieved = peer.filesRecieved ∧ listened.files = peer.files) := by
  unfold PeerState.p2pListener at hlistened
  unfold carriesFiles filesReceived
  split at hlistened
  · split_ifs at hlistened <;> cases hlistened <;> simp_all
  · obtain ⟨memberID, maxMessageID, -, -, rfl⟩ := configureSession_eq_ok.mp hlistened
    simp_all
  · split at hlistened
    · cases hlistened
    · cases hlistened
      simp_all
  · cases hlistened
    simp_all

/-- What a listener does to the identity of a client. -/
theorem identity_of_p2pListener (hlistened : peer.p2pListener data = .ok listened) :
    (∀ message, informs data = some message → peer.configureSession message = .ok listened) ∧
    (informs data = none →
      listened.memberID = peer.memberID ∧ listened.maxMessageID = peer.maxMessageID) := by
  unfold PeerState.p2pListener at hlistened
  unfold informs
  split at hlistened
  · split_ifs at hlistened <;> cases hlistened <;> simp_all
  · simp_all
  · split at hlistened
    · cases hlistened
    · cases hlistened
      simp_all
  · cases hlistened
    simp_all

/-- A listener leaves the communicator alone. -/
theorem communicator_of_p2pListener (hlistened : peer.p2pListener data = .ok listened) :
    listened.communicator = peer.communicator := by
  cases hupdate : isUpdateMessage (asciiGetString data) with
  | true =>
    rw [p2pListener_of_update hupdate] at hlistened
    split_ifs at hlistened <;> cases hlistened <;> rfl
  | false => exact (p2pListener_of_not_update hupdate hlistened).2.2

end Effects

/-! ### Files -/

/-- A host has sent the files of its project to a member when it opened a session. -/
def SentFiles (history : List PeerRecord) (host member : IPEndPoint) (files : Files) : Prop :=
  ∃ record ∈ history, record.event = .act host (.setOtherUser (some files)) ∧
    record.observation = .sent member (sendFiles files)

/-- Every transfer of files, on its way or received, was sent by a host that has the member first in
its list. -/
structure Traced (history : List PeerRecord) (system : PeerSystem) : Prop where
  inFlight : ∀ datagram ∈ system.inFlight, carriesFiles datagram.data = true →
    ∃ host files, SentFiles history host datagram.destination files ∧
      datagram.data = sendFiles files
  received : ∀ member, (system.clients member).peer.filesRecieved = true →
    ∃ host files, SentFiles history host member files ∧
      filesReceived (sendFiles files) = some (system.clients member).peer.files
  first : ∀ host member files, SentFiles history host member files →
    (system.clients host).peer.communicator.epList.head? = some member

/-- Whether a datagram is lost. -/
def PeerEvent.loses : PeerEvent → Bool
  | .lose _ => true
  | _ => false

/-- No datagram is lost in a step. -/
def NotLost (record : PeerRecord) : Prop := record.event.loses = false

instance (record : PeerRecord) : Decidable (NotLost record) :=
  inferInstanceAs (Decidable (_ = _))

/-- A session that a client opens with the details it is given. -/
def openSession (client : IPEndPoint) (details : String) : List PeerEvent :=
  .act client (.done (str details)) :: List.replicate 12 (.act client .startSesstion)

/-- A host, its first member and its second. -/
def hostEndpoint : IPEndPoint := ⟨0x7F000001, 4000⟩
def firstEndpoint : IPEndPoint := ⟨0x7F000001, 5000⟩
def secondEndpoint : IPEndPoint := ⟨0x7F000001, 6000⟩

/-- The first member gets on with the files of the host, the second one is told its number and
waits, and the host sends the files to the first one again. -/
def twoSessions : List PeerEvent :=
  openSession hostEndpoint "127.0.0.1:5000:H" ++ openSession firstEndpoint "127.0.0.1:4000:C" ++
    [.receive 10, .act hostEndpoint (.setOtherUser (some [(str "a.c", str "int a;")])),
      .act firstEndpoint (.setOtherUser none), .receive 20, .act firstEndpoint .getFiles] ++
    openSession hostEndpoint "127.0.0.1:6000:H" ++ openSession secondEndpoint "127.0.0.1:4000:C" ++
    [.receive 30, .act secondEndpoint (.setOtherUser none),
      .act hostEndpoint (.setOtherUser (some [(str "a.c", str "int b;")]))]

section FilesSent

variable {history : List PeerRecord} {system next : PeerSystem} {event : PeerEvent}
  {output : ClientOutput} {host member : IPEndPoint} {files : Files}

theorem SentFiles.append (hsent : SentFiles history host member files) (record : PeerRecord) :
    SentFiles (history ++ [record]) host member files := by
  obtain ⟨earlier, hmem, hshape⟩ := hsent
  exact ⟨earlier, List.mem_append_left _ hmem, hshape⟩

/-- Files are sent in the last step or were before it. -/
theorem sentFiles_snoc {record : PeerRecord}
    (hsent : SentFiles (history ++ [record]) host member files) :
    SentFiles history host member files ∨
      record.event = .act host (.setOtherUser (some files)) ∧
        record.observation = .sent member (sendFiles files) := by
  obtain ⟨sending, hmem, hshape⟩ := hsent
  rcases List.mem_append.mp hmem with hold | hlast
  · exact .inl ⟨sending, hold, hshape⟩
  · obtain rfl := List.mem_singleton.mp hlast
    exact .inr hshape

/-- The lists of all clients only grow at their ends. -/
theorem prefix_of_peerStep (hstep : PeerStep system event next output) (address : IPEndPoint) :
    (system.clients address).peer.communicator.epList <+:
        (next.clients address).peer.communicator.epList ∧
      (system.clients address).epList <+: (next.clients address).epList := by
  cases hstep with
  | act acting _ client _ hclient =>
    by_cases haddress : address = acting
    · subst haddress
      simpa using prefix_of_clientStep hclient
    · simp [haddress]
  | take _ datagram peer _ hlistened =>
    by_cases haddress : address = datagram.destination
    · subst haddress
      simp [communicator_of_p2pListener hlistened]
    · simp [haddress]
  | stop _ datagram =>
    by_cases haddress : address = datagram.destination
    · subst haddress
      simp
    · simp [haddress]
  | lose => exact ⟨List.prefix_rfl, List.prefix_rfl⟩

/-- Files go to the first endpoint of the list. -/
theorem head?_of_transfer (hstep : PeerStep system event next output)
    (hevent : event = .act host (.setOtherUser (some files)))
    (houtput : output = .sent member (sendFiles files)) :
    (next.clients host).peer.communicator.epList.head? = some member := by
  cases hstep with
  | act address action client _ hclient =>
    obtain ⟨rfl, rfl⟩ := PeerEvent.act.inj hevent
    cases houtput
    simp only [Function.update_self]
    have hcarries := carriesFiles_sendFiles files
    generalize sendFiles files = data at hclient hcarries
    cases sending_of_clientStep hclient with
    | plain hplain => exact absurd (hcarries.1.symm.trans hplain.1) (by decide)
    | information =>
      exact absurd (hcarries.1.symm.trans (informs_delieverMemberInfo _).1) (by decide)
    | transfer sent haction hfirst => exact hfirst
  | take | stop | lose => cases hevent

/-- Every step keeps all transfers traced. -/
theorem Traced.step (htraced : Traced history system)
    (hstep : PeerStep system event next output) :
    Traced (history ++ [⟨system, event, output, next⟩]) next := by
  have hfirst : ∀ host member files,
      SentFiles (history ++ [⟨system, event, output, next⟩]) host member files →
        (next.clients host).peer.communicator.epList.head? = some member := by
    intro host member files hsent
    rcases sentFiles_snoc hsent with hold | ⟨hevent, houtput⟩
    · obtain ⟨added, hadded⟩ := (prefix_of_peerStep hstep host).1
      rw [← hadded, List.head?_append, htraced.first host member files hold]
      rfl
    · exact head?_of_transfer hstep hevent houtput
  have hold : ∀ datagram ∈ system.inFlight, carriesFiles datagram.data = true →
      ∃ host files, SentFiles (history ++ [⟨system, event, output, next⟩]) host
        datagram.destination files ∧ datagram.data = sendFiles files := by
    intro datagram hmem hcarries
    obtain ⟨host, files, hsent, hdata⟩ := htraced.inFlight datagram hmem hcarries
    exact ⟨host, files, hsent.append _, hdata⟩
  have hkept : ∀ member, (next.clients member).peer.filesRecieved =
        (system.clients member).peer.filesRecieved →
      (next.clients member).peer.files = (system.clients member).peer.files →
      (next.clients member).peer.filesRecieved = true →
      ∃ host files, SentFiles (history ++ [⟨system, event, output, next⟩]) host member files ∧
        filesReceived (sendFiles files) = some (next.clients member).peer.files := by
    intro member hflag hfiles hreceived
    obtain ⟨host, files, hsent, hread⟩ := htraced.received member (hflag ▸ hreceived)
    exact ⟨host, files, hsent.append _, hfiles ▸ hread⟩
  refine ⟨?_, ?_, hfirst⟩
  · cases hstep with
    | act address action client _ hclient =>
      intro datagram hmem hcarries
      rcases List.mem_append.mp hmem with hbefore | hnew
      · exact hold datagram hbefore hcarries
      · cases output with
        | sent destination data =>
          obtain rfl := List.mem_singleton.mp hnew
          cases sending_of_clientStep hclient with
          | plain hplain => exact absurd (hplain.1.symm.trans hcarries) (by decide)
          | information =>
            exact absurd ((informs_delieverMemberInfo _).1.symm.trans hcarries) (by decide)
          | transfer files haction _ =>
            subst haction
            exact ⟨address, files, ⟨_, List.mem_append_right _ List.mem_cons_self, rfl, rfl⟩, rfl⟩
        | nothing | entered | threw => cases hnew
    | take | stop | lose =>
      exact fun datagram hmem ↦ hold datagram (List.mem_of_mem_eraseIdx hmem)
  · intro member
    cases hstep with
    | act address action client _ hclient =>
      obtain ⟨hfiles, hflag, -, -⟩ := listened_of_clientStep hclient
      by_cases hmember : member = address
      · subst hmember
        exact hkept member (by simpa using hflag) (by simpa using hfiles)
      · exact hkept member (by simp [hmember]) (by simp [hmember])
    | take index datagram peer hdatagram hlistened =>
      by_cases hmember : member = datagram.destination
      · subst hmember
        obtain ⟨hcarried, hplain⟩ := files_of_p2pListener hlistened
        cases hcarries : carriesFiles datagram.data with
        | true =>
          obtain ⟨host, files, hsent, hdata⟩ :=
            hold datagram (List.mem_of_getElem? hdatagram) hcarries
          intro _
          refine ⟨host, files, hsent, ?_⟩
          rw [← hdata]
          simpa using (hcarried hcarries).2
        | false =>
          obtain ⟨hflag, hfiles⟩ := hplain hcarries
          exact hkept _ (by simpa using hflag) (by simpa using hfiles)
      · exact hkept member (by simp [hmember]) (by simp [hmember])
    | stop index datagram =>
      by_cases hmember : member = datagram.destination
      · subst hmember
        exact hkept _ (by simp) (by simp)
      · exact hkept member (by simp [hmember]) (by simp [hmember])
    | lose => exact hkept member rfl rfl

theorem traced_of_run (hrun : PeerRun history system) : Traced history system := by
  refine hrun.relation Traced ?_ fun _ _ _ _ _ _ htraced hstep ↦
    htraced.step (peerStep_of_step hstep)
  exact ⟨by simp, by simp, by simp [SentFiles]⟩

/-- Whoever gets on with files got them from a host that has it first in its list: they are what it
reads of the files that this host sent when it opened a session. -/
def EntersFromFirst (earlier : List PeerRecord) (record : PeerRecord) : Prop :=
  ∀ member files, record.event = .act member .getFiles → record.observation = .entered files →
    ∃ host folder, SentFiles earlier host member folder ∧
      (record.before.clients host).peer.communicator.epList.head? = some member ∧
      filesReceived (sendFiles folder) = some files

/-- In every run members get on only with files of a host that has them first in its list. -/
theorem enters_from_first (hrun : PeerRun history system) : EveryStep EntersFromFirst history := by
  intro earlier record later hsplit member files hevent houtput
  subst hsplit
  obtain ⟨hearlier, hstep⟩ := hrun.split
  have htraced := traced_of_run hearlier
  have hpeer := peerStep_of_step hstep
  obtain ⟨before, event, output, after⟩ := record
  dsimp only at hevent houtput hpeer htraced ⊢
  subst hevent houtput
  cases hpeer with
  | act _ _ client _ hclient =>
    cases hclient with
    | enter _ hreceived =>
      obtain ⟨host, folder, hsent, hread⟩ := htraced.received member hreceived
      exact ⟨host, folder, hsent, htraced.first _ _ _ hsent, hread⟩

/-- The first of two members gets on. -/
theorem enters_from_first_member : ∃ history system, PeerRun history system ∧
    history.any (fun record ↦ record.observation = .entered [(str "a.c", str "int a;")]) = true ∧
    EveryStep EntersFromFirst history := by
  obtain ⟨history, system, hrun, -, hcheck⟩ := exists_run_of_execute PeerSystem.step {} twoSessions
    (fun history _ ↦
      history.any fun record ↦ record.observation = .entered [(str "a.c", str "int a;")])
    (by decide +kernel)
  exact ⟨history, system, hrun, hcheck, enters_from_first hrun⟩

/-- As long as no datagram is lost, files that were sent to a client whose process runs are on their
way to it or received. -/
def Pending (history : List PeerRecord) (system : PeerSystem) : Prop :=
  ∀ host member files, SentFiles history host member files →
    (system.clients member).running = true →
      (system.clients member).peer.filesRecieved = true ∨
        ∃ datagram ∈ system.inFlight, datagram.destination = member ∧
          carriesFiles datagram.data = true

/-- A datagram that is not the one taken stays on its way. -/
theorem mem_eraseIdx_of_ne {index : ℕ} {datagram other : PeerDatagram}
    (hmem : other ∈ system.inFlight) (hdatagram : system.inFlight[index]? = some datagram)
    (hne : other ≠ datagram) : other ∈ system.inFlight.eraseIdx index := by
  rw [List.mem_eraseIdx_iff_getElem?]
  obtain ⟨position, hposition⟩ := List.mem_iff_getElem?.mp hmem
  refine ⟨position, ?_, hposition⟩
  rintro rfl
  exact hne (Option.some.inj (hposition.symm.trans hdatagram))

/-- A process that has ended stays so. -/
theorem running_of_peerStep (hstep : PeerStep system event next output)
    (hrunning : (next.clients member).running = true) :
    (system.clients member).running = true := by
  cases hstep with
  | act address action client _ hclient =>
    by_cases hmember : member = address
    · subst hmember
      simp only [Function.update_self] at hrunning
      cases hclient <;> first | exact hrunning | cases hrunning
    · simpa [hmember] using hrunning
  | take _ datagram | stop _ datagram =>
    by_cases hmember : member = datagram.destination
    · subst hmember
      simp at hrunning
      try exact hrunning
    · simpa [hmember] using hrunning
  | lose => exact hrunning

/-- A step in which nothing is lost keeps files that were sent pending. -/
theorem Pending.step (hpending : Pending history system) (hkept : event.loses = false)
    (hstep : PeerStep system event next output) :
    Pending (history ++ [⟨system, event, output, next⟩]) next := by
  intro host member files hsent hrunning
  have hbefore : SentFiles history host member files →
      (system.clients member).peer.filesRecieved = true ∨
        ∃ datagram ∈ system.inFlight, datagram.destination = member ∧
          carriesFiles datagram.data = true :=
    fun hold ↦ hpending host member files hold (running_of_peerStep hstep hrunning)
  cases hstep with
  | act address action client _ hclient =>
    have hflag : (Function.update system.clients address client member).peer.filesRecieved =
        (system.clients member).peer.filesRecieved := by
      by_cases hmember : member = address
      · subst hmember
        simpa using (listened_of_clientStep hclient).2.1
      · simp [hmember]
    rcases sentFiles_snoc hsent with hold | ⟨-, houtput⟩
    · rcases hbefore hold with hreceived | ⟨datagram, hmem, hthere⟩
      · exact .inl (hflag.trans hreceived)
      · exact .inr ⟨datagram, List.mem_append_left _ hmem, hthere⟩
    · dsimp only at houtput
      subst houtput
      exact .inr ⟨⟨member, sendFiles files⟩, List.mem_append_right _ List.mem_cons_self, rfl,
        (carriesFiles_sendFiles files).1⟩
  | take index datagram peer hdatagram hlistened =>
    obtain ⟨hcarried, hplain⟩ := files_of_p2pListener hlistened
    have hold : SentFiles history host member files :=
      (sentFiles_snoc hsent).resolve_right fun hlast ↦ by cases hlast.1
    by_cases hmember : member = datagram.destination
    · subst hmember
      simp only [Function.update_self]
      cases hcarries : carriesFiles datagram.data with
      | true => exact .inl (hcarried hcarries).1
      | false =>
        rcases hbefore hold with hreceived | ⟨other, hmem, hthere⟩
        · exact .inl ((hplain hcarries).1.trans hreceived)
        · refine .inr ⟨other, mem_eraseIdx_of_ne hmem hdatagram ?_, hthere⟩
          rintro rfl
          exact absurd (hcarries.symm.trans hthere.2) (by decide)
    · rcases hbefore hold with hreceived | ⟨other, hmem, hthere⟩
      · exact .inl (by simpa [hmember] using hreceived)
      · refine .inr ⟨other, mem_eraseIdx_of_ne hmem hdatagram ?_, hthere⟩
        rintro rfl
        exact hmember hthere.1.symm
  | stop index datagram hdatagram =>
    have hold : SentFiles history host member files :=
      (sentFiles_snoc hsent).resolve_right fun hlast ↦ by cases hlast.1
    by_cases hmember : member = datagram.destination
    · subst hmember
      simp at hrunning
    · rcases hbefore hold with hreceived | ⟨other, hmem, hthere⟩
      · exact .inl (by simpa [hmember] using hreceived)
      · refine .inr ⟨other, mem_eraseIdx_of_ne hmem hdatagram ?_, hthere⟩
        rintro rfl
        exact hmember hthere.1.symm
  | lose index => cases hkept

theorem pending_of_run (hrun : PeerRun history system)
    (hkept : EveryStep (fun _ ↦ NotLost) history) : Pending history system := by
  refine hrun.relation_of_everyStep Pending ?_ (fun _ _ _ _ _ _ hpending hlost hstep ↦
    hpending.step hlost (peerStep_of_step hstep)) hkept
  rintro host member files ⟨record, hmem, -⟩
  cases hmem

/-- As long as no datagram is lost, a member that waits, with no files on their way to it, gets on
exactly if a host that has it first in its list sent it the files of its project; a member that no
host has first goes on waiting. -/
theorem gets_on_iff (hrun : PeerRun history system) (hkept : EveryStep (fun _ ↦ NotLost) history)
    (hrunning : (system.clients member).running = true)
    (hwaiting : (system.clients member).stage = .waiting)
    (harrived : ∀ datagram ∈ system.inFlight, datagram.destination = member →
      carriesFiles datagram.data = false) :
    (∃ next output, system.step (.act member .getFiles) = some (next, output)) ↔
      ∃ host files, SentFiles history host member files ∧
        (system.clients host).peer.communicator.epList.head? = some member := by
  have htraced := traced_of_run hrun
  constructor
  · rintro ⟨next, output, hstep⟩
    cases peerStep_of_step hstep with
    | act _ _ client _ hclient =>
      have hreceived : (system.clients member).peer.filesRecieved = true := by
        by_contra hnone
        simp [PeerSystem.step, SessionClient.step, hrunning, hnone] at hstep
      obtain ⟨host, files, hsent, -⟩ := htraced.received member hreceived
      exact ⟨host, files, hsent, htraced.first _ _ _ hsent⟩
  · rintro ⟨host, files, hsent, -⟩
    have hreceived : (system.clients member).peer.filesRecieved = true := by
      rcases pending_of_run hrun hkept host member files hsent hrunning with hthere | hway
      · exact hthere
      · obtain ⟨datagram, hmem, hdestination, hcarries⟩ := hway
        exact absurd ((harrived datagram hmem hdestination).symm.trans hcarries) (by decide)
    simp [PeerSystem.step, SessionClient.step, hrunning, hwaiting, hreceived]

/-- The second of two members waits, and the files went to the first one. -/
theorem gets_on_iff_second : ∃ history system, PeerRun history system ∧
    (system.clients hostEndpoint).epList = [firstEndpoint, secondEndpoint] ∧
    ((∃ next output, system.step (.act secondEndpoint .getFiles) = some (next, output)) ↔
      ∃ host files, SentFiles history host secondEndpoint files ∧
        (system.clients host).peer.communicator.epList.head? = some secondEndpoint) := by
  obtain ⟨history, system, hrun, -, hcheck⟩ := exists_run_of_execute PeerSystem.step {} twoSessions
    (fun history system ↦ history.all (fun record ↦ !record.event.loses) &&
      (system.clients hostEndpoint).epList = [firstEndpoint, secondEndpoint] &&
      (system.clients secondEndpoint).running && (system.clients secondEndpoint).stage = .waiting &&
      system.inFlight.all fun datagram ↦
        datagram.destination ≠ secondEndpoint || !carriesFiles datagram.data) (by decide +kernel)
  simp only [Bool.and_eq_true, List.all_eq_true, decide_eq_true_eq, Bool.or_eq_true,
    Bool.not_eq_true'] at hcheck
  obtain ⟨⟨⟨⟨hlost, hlist⟩, hrunning⟩, hwaiting⟩, harrived⟩ := hcheck
  refine ⟨history, system, hrun, hlist, gets_on_iff hrun
    (everyStep_iff_forall_mem.mpr fun record hrecord ↦ hlost record hrecord) hrunning hwaiting
    fun datagram hmem hdestination ↦ ?_⟩
  exact (harrived datagram hmem).resolve_left fun hother ↦ hother hdestination

end FilesSent

/-! ### The two lists of a host -/

/-- A client that was a host in all its sessions sends the updates to the endpoints it noted, and
between connecting and noting also to the one it is about to note. -/
def SessionClient.ListsAgree (client : SessionClient) : Prop :=
  client.peer.communicator.hostFlag = true →
    if client.stage = .connected then
      ∃ endpoint, ipEndPoint client.peer.communicator.ip client.peer.communicator.port =
          .ok endpoint ∧
        client.peer.communicator.epList = client.epList ++ [endpoint]
    else client.peer.communicator.epList = client.epList

/-- Every step of a client keeps its lists in agreement. -/
theorem SessionClient.ListsAgree.step {client next : SessionClient} {action : ClientAction}
    {output : ClientOutput} (hagree : client.ListsAgree)
    (hclient : ClientStep client action next output) : next.ListsAgree := by
  intro hhost
  cases hclient with
  | fault | exit | refuse | update => exact hagree hhost
  | connect _ communicator hstage hconnect =>
    rcases connectP2P_cases hconnect with ⟨endpoint, hendpoint, hrole, hlist⟩ | ⟨hmember, -⟩
    · have hbefore := hagree (hrole ▸ hhost)
      rw [if_neg (by simp [hstage])] at hbefore
      rw [if_pos rfl]
      exact ⟨endpoint, hendpoint, hbefore ▸ hlist⟩
    · exact absurd (hmember.symm.trans hhost) (by decide)
  | openHost endpoint hstage _ hendpoint =>
    have hbefore := hagree hhost
    rw [if_pos hstage] at hbefore
    obtain ⟨connected, hconnected, hlist⟩ := hbefore
    rw [hendpoint, Except.ok.injEq] at hconnected
    subst hconnected
    exact hlist
  | openMember _ _ hmember => exact absurd (hmember.symm.trans hhost) (by decide)
  | greet _ _ hstage | inform _ _ hstage | join _ hstage | transfer _ _ hstage | wait _ hstage
  | enter hstage =>
    have hbefore := hagree hhost
    rw [if_neg (by simp [hstage])] at hbefore
    exact hbefore

/-- In every run the endpoints that a host sends the updates to are those whose members it greeted,
in the same order, as long as it has been a host in all its sessions: the two lists of the program,
one appended to in `AddIPEP` and one in `startSesstion`, never drift apart. -/
theorem lists_agree {history : List PeerRecord} {system : PeerSystem}
    (hrun : PeerRun history system) (host : IPEndPoint) : (system.clients host).ListsAgree := by
  refine hrun.invariant (fun system ↦ ∀ host, (system.clients host).ListsAgree) (fun _ _ ↦ rfl) ?_
    host
  intro system event next output hbefore hstep host
  cases peerStep_of_step hstep with
  | act address _ client _ hclient =>
    by_cases hhost : host = address
    · subst hhost
      simpa using (hbefore host).step hclient
    · simpa [hhost] using hbefore host
  | take _ datagram peer _ hlistened =>
    by_cases hhost : host = datagram.destination
    · subst hhost
      have hagree := hbefore datagram.destination
      unfold SessionClient.ListsAgree at *
      simpa [communicator_of_p2pListener hlistened] using hagree
    · simpa [hhost] using hbefore host
  | stop _ datagram =>
    by_cases hhost : host = datagram.destination
    · subst hhost
      simp only [Function.update_self]
      exact hbefore datagram.destination
    · simpa [hhost] using hbefore host
  | lose => exact hbefore host

/-- A host between connecting to its second member and noting it. -/
theorem lists_agree_connected : ∃ history system, PeerRun history system ∧
    (system.clients hostEndpoint).stage = .connected ∧
    (system.clients hostEndpoint).ListsAgree := by
  obtain ⟨history, system, hrun, -, hcheck⟩ := exists_run_of_execute PeerSystem.step {}
    (twoSessions.take 32) (fun _ system ↦ (system.clients hostEndpoint).stage = .connected)
    (by decide +kernel)
  exact ⟨history, system, hrun, of_decide_eq_true hcheck, lists_agree hrun hostEndpoint⟩

/-! ### Identities -/

/-- The counters of a host count the members that were sent their information. -/
def SessionClient.Counted (client : SessionClient) : Prop :=
  client.counters = countersAfter client.informed

/-- Every step of a client keeps its counters counting. -/
theorem SessionClient.Counted.step {client next : SessionClient} {action : ClientAction}
    {output : ClientOutput} (hcounted : client.Counted)
    (hclient : ClientStep client action next output) : next.Counted := by
  unfold SessionClient.Counted SessionClient.informed at *
  cases hclient with
  | fault | exit | refuse | update => exact hcounted
  | connect _ _ hstage | openHost _ hstage | openMember _ hstage | transfer _ _ hstage
  | wait _ hstage | enter hstage | greet _ _ hstage | join _ hstage =>
    simp_all
  | inform sent destination hstage hhost hlast =>
    have hsome : client.epList ≠ [] := by
      rintro hempty
      simp [hempty] at hlast
    have hlength : client.epList.length = client.epList.length - 1 + 1 := by
      have hpositive := List.length_pos_iff.mpr hsome
      omega
    simp only [hstage, hhost, if_true] at hcounted
    simp only [hcounted]
    rw [hlength, countersAfter, Nat.add_sub_cancel]

/-- The member that a host noted at a position is told the number of this position. -/
structure Told (system : PeerSystem) : Prop where
  counted : ∀ host, (system.clients host).Counted
  inFlight : ∀ datagram ∈ system.inFlight, ∀ message, informs datagram.data = some message →
    ∃ host position, (system.clients host).epList[position]? = some datagram.destination ∧
      message = memberInfo (position + 1)
  members : ∀ member,
    ((system.clients member).peer.memberID = unit '9' ∧
        (system.clients member).peer.maxMessageID = 0) ∨
      ∃ host position, (system.clients host).epList[position]? = some member ∧
        (system.clients member).peer.configureSession (memberInfo (position + 1)) =
          .ok (system.clients member).peer

section Identities

variable {history : List PeerRecord} {system next : PeerSystem} {event : PeerEvent}
  {output : ClientOutput} {peer other : PeerState} {message : Text}

/-- A client that was configured by a message would not be changed by it again. -/
theorem configured_again (hconfigured : peer.configureSession message = .ok other) :
    other.configureSession message = .ok other := by
  obtain ⟨memberID, maxMessageID, hmember, hparsed, rfl⟩ := configureSession_eq_ok.mp hconfigured
  exact configureSession_eq_ok.mpr ⟨memberID, maxMessageID, hmember, hparsed, rfl⟩

/-- What a message says of a client depends only on the identity and the largest message number. -/
theorem configured_congr (hconfigured : peer.configureSession message = .ok peer)
    (hidentity : other.memberID = peer.memberID)
    (hlargest : other.maxMessageID = peer.maxMessageID) :
    other.configureSession message = .ok other := by
  obtain ⟨memberID, maxMessageID, hmember, hparsed, hsame⟩ :=
    configureSession_eq_ok.mp hconfigured
  refine configureSession_eq_ok.mpr ⟨memberID, maxMessageID, hmember, hparsed, ?_⟩
  rw [hsame] at hidentity hlargest
  dsimp only at hidentity hlargest
  rw [← hidentity, ← hlargest]

/-- An endpoint keeps its position in the list of a host. -/
theorem getElem?_of_peerStep (hstep : PeerStep system event next output) {host member : IPEndPoint}
    {position : ℕ} (hposition : (system.clients host).epList[position]? = some member) :
    (next.clients host).epList[position]? = some member := by
  obtain ⟨added, hadded⟩ := (prefix_of_peerStep hstep host).2
  rw [← hadded, List.getElem?_append_left (List.getElem?_eq_some_iff.mp hposition).1]
  exact hposition

/-- Every step keeps to the numbers. -/
theorem Told.step (htold : Told system) (hstep : PeerStep system event next output) :
    Told next := by
  have hold : ∀ datagram ∈ system.inFlight, ∀ message, informs datagram.data = some message →
      ∃ host position, (next.clients host).epList[position]? = some datagram.destination ∧
        message = memberInfo (position + 1) := by
    intro datagram hmem message hinforms
    obtain ⟨host, position, hposition, hmessage⟩ := htold.inFlight datagram hmem message hinforms
    exact ⟨host, position, getElem?_of_peerStep hstep hposition, hmessage⟩
  have hkept : ∀ member, (next.clients member).peer.memberID =
        (system.clients member).peer.memberID →
      (next.clients member).peer.maxMessageID = (system.clients member).peer.maxMessageID →
      ((next.clients member).peer.memberID = unit '9' ∧
          (next.clients member).peer.maxMessageID = 0) ∨
        ∃ host position, (next.clients host).epList[position]? = some member ∧
          (next.clients member).peer.configureSession (memberInfo (position + 1)) =
            .ok (next.clients member).peer := by
    intro member hidentity hlargest
    rcases htold.members member with ⟨hnine, hzero⟩ | ⟨host, position, hposition, hconfigured⟩
    · exact .inl ⟨hidentity.trans hnine, hlargest.trans hzero⟩
    · exact .inr ⟨host, position, getElem?_of_peerStep hstep hposition,
        configured_congr hconfigured hidentity hlargest⟩
  refine ⟨fun host ↦ ?_, ?_, fun member ↦ ?_⟩
  · have hcounted := htold.counted host
    cases hstep with
    | act address action client _ hclient =>
      by_cases hhost : host = address
      · subst hhost
        simpa using hcounted.step hclient
      · simpa [hhost] using hcounted
    | take _ datagram peer _ hlistened =>
      by_cases hhost : host = datagram.destination
      · subst hhost
        unfold SessionClient.Counted SessionClient.informed at *
        simpa [communicator_of_p2pListener hlistened] using hcounted
      · simpa [hhost] using hcounted
    | stop _ datagram =>
      by_cases hhost : host = datagram.destination
      · subst hhost
        simp only [Function.update_self]
        exact hcounted
      · simpa [hhost] using hcounted
    | lose => exact hcounted
  · cases hstep with
    | act address action client _ hclient =>
      intro datagram hmem message hinforms
      rcases List.mem_append.mp hmem with hbefore | hnew
      · exact hold datagram hbefore message hinforms
      · cases output with
        | sent destination data =>
          obtain rfl := List.mem_singleton.mp hnew
          cases sending_of_clientStep hclient with
          | plain hplain => exact absurd (hplain.2.symm.trans hinforms) (by simp)
          | transfer files =>
            exact absurd ((carriesFiles_sendFiles files).2.symm.trans hinforms) (by simp)
          | information hlast hinformed =>
            have hmessage : (system.clients address).counters.infoMessage = message :=
              Option.some.inj ((informs_delieverMemberInfo _).2.symm.trans hinforms)
            refine ⟨address, client.epList.length - 1, ?_, ?_⟩
            · simpa [List.getLast?_eq_getElem?] using hlast
            · rw [← hmessage, htold.counted address, hinformed]
              rfl
        | nothing | entered | threw => cases hnew
    | take | stop | lose =>
      exact fun datagram hmem ↦ hold datagram (List.mem_of_mem_eraseIdx hmem)
  · cases hstep with
    | act address action client _ hclient =>
      obtain ⟨-, -, hidentity, hlargest⟩ := listened_of_clientStep hclient
      by_cases hmember : member = address
      · subst hmember
        exact hkept member (by simpa using hidentity) (by simpa using hlargest)
      · exact hkept member (by simp [hmember]) (by simp [hmember])
    | take index datagram peer hdatagram hlistened =>
      by_cases hmember : member = datagram.destination
      · subst hmember
        obtain ⟨hconfigures, hplain⟩ := identity_of_p2pListener hlistened
        cases hinforms : informs datagram.data with
        | some message =>
          obtain ⟨host, position, hposition, rfl⟩ :=
            hold datagram (List.mem_of_getElem? hdatagram) message hinforms
          refine .inr ⟨host, position, hposition, ?_⟩
          simpa using configured_again (hconfigures _ hinforms)
        | none =>
          obtain ⟨hidentity, hlargest⟩ := hplain hinforms
          exact hkept _ (by simpa using hidentity) (by simpa using hlargest)
      · exact hkept member (by simp [hmember]) (by simp [hmember])
    | stop index datagram =>
      by_cases hmember : member = datagram.destination
      · subst hmember
        exact hkept _ (by simp) (by simp)
      · exact hkept member (by simp [hmember]) (by simp [hmember])
    | lose => exact hkept member rfl rfl

theorem told_of_run (hrun : PeerRun history system) : Told system := by
  refine hrun.invariant Told ?_ fun _ _ _ _ htold hstep ↦ htold.step (peerStep_of_step hstep)
  exact ⟨fun _ ↦ rfl, by simp, fun _ ↦ .inl ⟨rfl, rfl⟩⟩

/-- A member that was told its number by a host with at most nine members, and is in the list of no
other host, has the identity and the largest message number of its position in the list. -/
theorem identity_of_position (hrun : PeerRun history system) {host member : IPEndPoint}
    (hnine : (system.clients host).epList.length ≤ 9)
    (honly : ∀ other ≠ host, member ∉ (system.clients other).epList)
    (htold : (system.clients member).peer.maxMessageID ≠ 0) :
    ∃ position < 9, (system.clients host).epList[position]? = some member ∧
      (system.clients member).peer.memberID = digitIdentity (position + 1) ∧
      (system.clients member).peer.maxMessageID = 50 * (position + 1 : ℕ) := by
  rcases (told_of_run hrun).members member with ⟨-, hzero⟩ | ⟨teller, position, hposition, hconfig⟩
  · exact absurd hzero htold
  · obtain rfl : teller = host := by
      by_contra hother
      exact honly teller hother (List.mem_of_getElem? hposition)
    have hlength := (List.getElem?_eq_some_iff.mp hposition).1
    have hlt : position < 9 := by omega
    refine ⟨position, hlt, hposition, ?_⟩
    rw [configureSession_of_lt_ten _ (by omega) (by omega), Except.ok.injEq] at hconfig
    exact ⟨(congrArg PeerState.memberID hconfig).symm,
      (congrArg PeerState.maxMessageID hconfig).symm⟩

/-- In every run, whatever arrives first or is lost: the members that a host with at most nine
members told their numbers, and that no other host noted, have identities that differ from each
other's and from the host's, and message numbers of their own. -/
theorem members_kept_apart (hrun : PeerRun history system) {host first second : IPEndPoint}
    (hnine : (system.clients host).epList.length ≤ 9)
    (honly : ∀ other ≠ host,
      first ∉ (system.clients other).epList ∧ second ∉ (system.clients other).epList)
    (hfirst : (system.clients first).peer.maxMessageID ≠ 0)
    (hsecond : (system.clients second).peer.maxMessageID ≠ 0) (hne : first ≠ second) :
    (system.clients first).peer.memberID ≠ (system.clients second).peer.memberID ∧
      (system.clients first).peer.memberID ≠ unit '0' ∧
      ∀ messageID ∈ (system.clients first).peer.window,
        messageID ∉ (system.clients second).peer.window := by
  obtain ⟨position, hlt, hposition, hidentity, hlargest⟩ :=
    identity_of_position hrun hnine (fun other hother ↦ (honly other hother).1) hfirst
  obtain ⟨position', hlt', hposition', hidentity', hlargest'⟩ :=
    identity_of_position hrun hnine (fun other hother ↦ (honly other hother).2) hsecond
  have hdiffer : position ≠ position' := by
    rintro rfl
    exact hne (Option.some.inj (hposition.symm.trans hposition'))
  refine ⟨fun hsame ↦ hdiffer ?_, fun hzero ↦ ?_, ?_⟩
  · rw [hidentity, hidentity'] at hsame
    have hnumbers := digitIdentity_injective (by omega) (by omega) hsame
    omega
  · rw [hidentity] at hzero
    have hnumber := @digitIdentity_injective _ 0 (by omega) (by decide) hzero
    omega
  · intro messageID hmessage hmessage'
    simp only [PeerState.window, MESSAGE_ID_GAP, Set.mem_ofPred_eq, hlargest, hlargest']
      at hmessage hmessage'
    omega

/-- The client that acts in a step. -/
def PeerEvent.actor : PeerEvent → Option IPEndPoint
  | .act address _ => some address
  | .receive _ | .lose _ => none

/-- A client that never acts notes nobody. -/
theorem epList_of_idle (hrun : PeerRun history system) {address : IPEndPoint}
    (hidle : ∀ record ∈ history, record.event.actor ≠ some address) :
    (system.clients address).epList = [] := by
  refine hrun.relation_of_everyStep (fun _ system ↦ (system.clients address).epList = []) rfl ?_
    (everyStep_iff_forall_mem.mpr hidle)
  intro history system event next output _ hbefore hother hstep
  cases peerStep_of_step hstep with
  | act acting =>
    have hne : address ≠ acting := fun heq ↦ hother (congrArg some heq.symm)
    simpa [hne] using hbefore
  | take _ datagram | stop _ datagram =>
    by_cases haddress : address = datagram.destination
    · subst haddress
      simpa using hbefore
    · simpa [haddress] using hbefore
  | lose => exact hbefore

/-- Two members that were told their numbers. -/
theorem members_kept_apart_two : ∃ history system, PeerRun history system ∧
    (system.clients firstEndpoint).peer.memberID ≠ (system.clients secondEndpoint).peer.memberID ∧
      (system.clients firstEndpoint).peer.memberID ≠ unit '0' ∧
      ∀ messageID ∈ (system.clients firstEndpoint).peer.window,
        messageID ∉ (system.clients secondEndpoint).peer.window := by
  obtain ⟨history, system, hrun, -, hcheck⟩ := exists_run_of_execute PeerSystem.step {} twoSessions
    (fun history system ↦ (system.clients hostEndpoint).epList.length ≤ 9 &&
      (system.clients firstEndpoint).epList = [] && (system.clients secondEndpoint).epList = [] &&
      (system.clients firstEndpoint).peer.maxMessageID ≠ 0 &&
      (system.clients secondEndpoint).peer.maxMessageID ≠ 0 &&
      history.all fun record ↦ record.event.actor.all fun actor ↦
        actor ∈ [hostEndpoint, firstEndpoint, secondEndpoint]) (by decide +kernel)
  simp only [Bool.and_eq_true, List.all_eq_true, Option.all_eq_true, decide_eq_true_eq] at hcheck
  obtain ⟨⟨⟨⟨⟨hnine, hfirst⟩, hsecond⟩, htold⟩, htold'⟩, hactors⟩ := hcheck
  have honly : ∀ other ≠ hostEndpoint, (system.clients other).epList = [] := by
    intro other hother
    by_cases hmember : other ∈ [hostEndpoint, firstEndpoint, secondEndpoint]
    · rcases List.mem_cons.mp hmember with hhost | hmember
      · exact absurd hhost hother
      · rcases List.mem_pair.mp hmember with rfl | rfl
        · exact hfirst
        · exact hsecond
    · exact epList_of_idle hrun fun record hrecord hacts ↦
        hmember (hactors record hrecord other hacts)
  refine ⟨history, system, hrun, members_kept_apart hrun hnine (fun other hother ↦ ?_) htold htold'
    (by decide)⟩
  simp [honly other hother]

end Identities

end NovaIde.Protocol
