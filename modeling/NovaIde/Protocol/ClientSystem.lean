import NovaIde.Protocol.Navigation

/-!
# The server and its clients

Any number of clients run against one server. A client sends a datagram when a page asks for
something and then waits; the server handles the datagrams on their way to it in any order, each in
one step, and its session threads step in between; what it sends is put into the sockets of the
clients in the order of sending, and a client that waits reads the first datagram of its socket.
Nothing is lost or duplicated, but a datagram may stay on its way for ever. Once a client is past
its login anything may arrive at its socket, for its peers know the address, and once it is in a
session its listener reads from the socket too. `Receive` leaves the sender of what it returns in
the endpoint of the next request, so a client that took a datagram of a peer for an answer sends its
next invite to that peer: here that invite is one that stays on its way.

Until its login is accepted a client and the server stay in step: the answers that its pages read
are, in this order, the replies of the server to the requests that they sent
(`exchanges_in_step`).
-/

set_option autoImplicit false
set_option relaxedAutoImplicit false

namespace NovaIde.Protocol

open Foundation Foundation.EventRun Client Server

/-! ### The system -/

/-- A running client: its window, whether `startFlow` has connected its socket, what has arrived
there, and whether a listener reads from it. -/
structure Desk where
  window : Window
  connected : Bool := false
  inbox : List Datagram := []
  listening : Bool := false

/-- The server, its clients, each at its address, and the datagrams on their way to the server. -/
structure NovaSystem where
  server : ServerState
  desks : SockAddr → Desk
  inFlight : List (SockAddr × Datagram) := []

/-- The start: nobody has done anything. -/
def NovaSystem.start (users : List Row) (pathUi : Text) : NovaSystem where
  server := Server.start users
  desks := fun _ ↦ { window := { pathUi } }

/-- What happens in the system. -/
inductive SystemEvent
  /-- `Nova.startFlow` of a client -/
  | startFlow (address : SockAddr)
  | press (address : SockAddr) (button : Press)
  /-- the server receives a datagram that is on its way -/
  | receive (index : ℕ) (environment : Environment)
  /-- a session thread of the server steps -/
  | thread (index : ℕ)
  /-- a client reads the answer it waits for -/
  | answer (address : SockAddr)
  /-- a peer sends something to a client -/
  | peer (address : SockAddr) (data : Datagram)
  /-- the listener of a client reads a datagram -/
  | listen (address : SockAddr)

/-- What a step shows: what the server did, and what a client did. -/
structure SystemOutput where
  served : Option (Event × Observation) := none
  acted : Option (SockAddr × WindowEvent × WindowOutput) := none

/-- The datagram that `GetSessionDetails` sends. -/
def greeting : Datagram := utf8GetBytes (str "a:b")

/-- The datagrams a step of the server sends. -/
def datagramsOf (observation : Observation) : List (SockAddr × Datagram) :=
  observation.replies.map (fun reply ↦ (reply.destination, reply.payload)) ++
    observation.details.map fun details ↦ (details.destination, details.payload)

/-- What of several datagrams arrives at an address. Nothing can be sent to port 0. -/
def arriving (sent : List (SockAddr × Datagram)) (address : SockAddr) : List Datagram :=
  if address.port = 0 then []
  else (sent.filter fun entry ↦ entry.1 = address).map Prod.snd

namespace NovaSystem

variable (system : NovaSystem)

/-- A change of one client. -/
def setDesk (address : SockAddr) (desk : Desk) : NovaSystem :=
  { system with desks := Function.update system.desks address desk }

/-- A client after a step of its window. -/
def setWindow (address : SockAddr) (window : Window) : NovaSystem :=
  system.setDesk address { system.desks address with window }

/-- What a client sends is on its way to the server. -/
def send (address : SockAddr) (data : List Datagram) : NovaSystem :=
  { system with inFlight := system.inFlight ++ data.map fun datagram ↦ (address, datagram) }

/-- The system after a step of the server. -/
def serve (server : ServerState) (observation : Observation) : NovaSystem :=
  { system with
    server
    desks := fun address ↦
      { system.desks address with
        inbox := (system.desks address).inbox ++
          arriving (datagramsOf observation) address } }

/-- One step of the system. A client whose socket is not connected cannot send, and a datagram that
the server does not survive is never received. -/
def step (classes : CharClasses) (endsWith : Text → Text → Bool) :
    SystemEvent → Option (NovaSystem × SystemOutput)
  | .startFlow address =>
    let desk := system.desks address
    if address.port ≠ 0 ∧ desk.connected = false then
      some ((system.setDesk address { desk with connected := true }).send address [greeting], {})
    else none
  | .press address button => do
    let (window, output) ← (system.desks address).window.press classes endsWith button
    if output.sent ≠ none ∧ (system.desks address).connected = false then none
    else
      some ((system.setWindow address window).send address
          (output.sent.toList.map ClientRequest.datagram),
        { acted := some (address, .press button, output) })
  | .receive index environment => do
    let (address, data) ← system.inFlight[index]?
    let userInfo ← acceptClient data
    let event := Event.receive userInfo address environment
    let (server, observation) ← Server.step system.server event
    return ({ system with inFlight := system.inFlight.eraseIdx index }.serve server observation,
      { served := some (event, observation) })
  | .thread index => do
    let (server, observation) ← Server.step system.server (.thread index)
    return (system.serve server observation, { served := some (.thread index, observation) })
  | .answer address =>
    let desk := system.desks address
    match desk.inbox with
    | [] => none
    | data :: rest => do
      let message := utf8GetString data
      let (window, output) ← desk.window.answer message
      return (system.setDesk address { desk with
          window
          inbox := rest
          listening := desk.listening || !output.calls.isEmpty },
        { acted := some (address, .answer message, output) })
  | .peer address data =>
    let desk := system.desks address
    if desk.window.content.needsLogin then
      some (system.setDesk address { desk with inbox := desk.inbox ++ [data] }, {})
    else none
  | .listen address =>
    let desk := system.desks address
    match desk.inbox with
    | [] => none
    | _ :: rest =>
      if desk.listening then some (system.setDesk address { desk with inbox := rest }, {})
      else none

end NovaSystem

/-- A step of a run of the system. -/
abbrev SystemRecord := StepRecord NovaSystem SystemEvent SystemOutput

/-- The runs of the system from a table. -/
abbrev SystemRun (classes : CharClasses) (endsWith : Text → Text → Bool) (users : List Row)
    (pathUi : Text) : List SystemRecord → NovaSystem → Prop :=
  Run (fun system ↦ system.step classes endsWith) (.start users pathUi)

/-! ### What the server sends -/

section Server

variable {server next : ServerState} {userInfo : Bytes} {clientAddr : SockAddr}
  {environment : Environment} {observation : Observation}

/-- The ways the server handles a request: it sends nothing, it replies to the sender, or it replies
to the sender with a new token and stores the address. -/
inductive Received (environment : Environment) (server : ServerState) (userInfo : Bytes)
    (clientAddr : SockAddr) (next : ServerState) (observation : Observation) : Prop
  | silent (hkind : requestKind userInfo = none ∨ requestKind userInfo = some .session)
      (hsent : datagramsOf observation = [])
      (haddresses : next.exchange.clientMap = server.exchange.clientMap)
  | replied (kind : RequestKind) (payload : Bytes) (hkind : requestKind userInfo = some kind)
      (hsession : kind ≠ .session) (hsent : datagramsOf observation = [(clientAddr, payload)])
      (hrefused : kind = .login → pageDone .login (utf8GetString payload) ≠ some .logsIn)
      (haddresses : next.exchange.clientMap = server.exchange.clientMap)
  | admitted (name : Bytes) (hkind : requestKind userInfo = some .login)
      (hname : (getDetails userInfo)[0]? = some name)
      (hsent : datagramsOf observation =
        [(clientAddr, responseText [Server.infoCorrect, environment.sessionToken])])
      (htokens : next.accounts.usersList =
        server.accounts.usersList.assign environment.sessionToken name)
      (haddresses : next.exchange.clientMap = server.exchange.clientMap.assign name clientAddr)

/-- The page logs in on the answer to an accepted login only. -/
theorem logsIn_iff {outcome : Outcome} (hbranch : HasBranch .login outcome) (rest : List Bytes) :
    pageDone .login (utf8GetString (responseText (outcome.code :: rest))) = some .logsIn ↔
      outcome = .infoCorrect := by
  rw [pageDone_code hbranch rest]
  cases outcome <;> decide

/-- The page stays on the answer to a login that is not accepted. -/
theorem refused_of_code {outcome : Outcome} (hbranch : HasBranch .login outcome)
    (hcode : outcome ≠ .infoCorrect) {accounts : Accounts} :
    pageDone .login (utf8GetString (sendResponseByAddr
      (Handled.mk accounts [outcome.code] none).result clientAddr).payload) ≠ some .logsIn :=
  mt (logsIn_iff hbranch []).mp hcode

/-- Every request is handled in one of these ways. -/
theorem received_of_step
    (hstep : Server.step server (.receive userInfo clientAddr environment) =
      some (next, observation)) :
    Received environment server userInfo clientAddr next observation := by
  cases stepShape_of_step hstep with
  | ignored hkind => exact .silent (.inl hkind) rfl rfl
  | session hkind hhandled =>
    obtain ⟨token, wanted, -, -, rfl⟩ := handleSessionReq_eq_ok.mp hhandled
    exact .silent (.inr hkind) rfl rfl
  | @login _ _ _ handled hkind hhandled =>
    obtain ⟨username, password, husername, -, rfl⟩ := handleLogin_eq_ok.mp hhandled
    split_ifs
    · refine .admitted username hkind husername ?_ ?_ ?_
      · simp [datagramsOf, completeLogin, sendResponse, addClientAddress]
      · simp [completeLogin]
      · simp [completeLogin, addClientAddress]
    · exact .replied .login _ hkind (by decide) rfl (fun _ ↦ refused_of_code
        (show HasBranch .login .incorrectPass by decide) (by decide)) rfl
    · exact .replied .login _ hkind (by decide) rfl (fun _ ↦ refused_of_code
        (show HasBranch .login .invalidUser by decide) (by decide)) rfl
  | signup hkind hhandled =>
    exact .replied .signup _ hkind (by decide) rfl (fun h ↦ by cases h) rfl
  | codeCheck hkind hhandled =>
    exact .replied .codeCheck _ hkind (by decide) rfl (fun h ↦ by cases h) rfl
  | mailCode hkind hhandled =>
    exact .replied .mailCode _ hkind (by decide) rfl (fun h ↦ by cases h) rfl
  | newPass hkind hhandled =>
    exact .replied .newPass _ hkind (by decide) rfl (fun h ↦ by cases h) rfl

/-- A session thread changes no address, and sends only to addresses that are stored. -/
theorem thread_of_step {index : ℕ}
    (hstep : Server.step server (.thread index) = some (next, observation)) :
    (∀ name, next.exchange.clientMap.read name = server.exchange.clientMap.read name) ∧
      ∀ entry ∈ datagramsOf observation,
        ∃ name, server.exchange.clientMap.read name = entry.1 := by
  cases stepShape_of_step hstep with
  | thread hhandler hsession =>
    refine ⟨fun name ↦ congrArg Prod.fst (addressesOf_sessionStep hsession name), ?_⟩
    intro entry hentry
    obtain ⟨-, -, hcases⟩ := sessionStep_cases hsession
    rcases hcases with ⟨-, -, rfl, -⟩ | ⟨-, rfl, -⟩ | ⟨-, -, rfl, -⟩ | ⟨-, rfl, -⟩ | ⟨-, rfl, -⟩ |
      ⟨-, -, rfl, -⟩
    case inr.inr.inr.inr.inr =>
      simp only [datagramsOf, detailsSent, List.map_nil, List.nil_append, List.map_cons,
        List.mem_cons, List.not_mem_nil, or_false] at hentry
      rcases hentry with rfl | rfl
      · exact ⟨_, rfl⟩
      · exact ⟨_, rfl⟩
    all_goals simp [datagramsOf] at hentry

end Server

/-! ### What a run shows of one client -/

/-- The request a client sends in a step. -/
def sentBy (address : SockAddr) (record : SystemRecord) : Option ClientRequest :=
  record.observation.acted.bind fun (actor, _, output) ↦
    if actor = address then output.sent else none

/-- The answer that is read in a step of a window. -/
def WindowEvent.read : WindowEvent → Option Text
  | .answer message => some message
  | .press _ => none

/-- The answer a client reads in a step. -/
def readBy (address : SockAddr) (record : SystemRecord) : Option Text :=
  record.observation.acted.bind fun (actor, event, _) ↦
    if actor = address then event.read else none

/-- The request of a client that the server handles in a step, and its reply. -/
def repliedTo (address : SockAddr) (record : SystemRecord) : Option (Bytes × Datagram) :=
  record.observation.served.bind fun (event, observation) ↦
    match event with
    | .receive userInfo clientAddr _ =>
      if clientAddr = address then
        (datagramsOf observation).head?.map fun entry ↦ (userInfo, entry.2)
      else none
    | .thread _ => none

/-- What a run shows of one client: the requests it sent, the replies that the server made to them,
and the answers it read. -/
structure ClientLog where
  sent : List ClientRequest := []
  replies : List (Bytes × Datagram) := []
  read : List Text := []

/-- The log of a client after a step. -/
def ClientLog.record (log : ClientLog) (address : SockAddr) (record : SystemRecord) :
    ClientLog where
  sent := log.sent ++ (sentBy address record).toList
  replies := log.replies ++ (repliedTo address record).toList
  read := log.read ++ (readBy address record).toList

/-- The log of a client in a run. -/
def clientLog (history : List SystemRecord) (address : SockAddr) : ClientLog where
  sent := history.filterMap (sentBy address)
  replies := history.filterMap (repliedTo address)
  read := history.filterMap (readBy address)

theorem clientLog_snoc (history : List SystemRecord) (record : SystemRecord)
    (address : SockAddr) :
    clientLog (history ++ [record]) address =
      (clientLog history address).record address record := by
  simp only [clientLog, ClientLog.record, List.filterMap_append, ClientLog.mk.injEq,
    List.append_cancel_left_eq]
  refine ⟨?_, ?_, ?_⟩
  · cases hsent : sentBy address record <;> simp [hsent]
  · cases hreplied : repliedTo address record <;> simp [hreplied]
  · cases hread : readBy address record <;> simp [hread]

/-- The reply of the server belongs to a request. -/
def Answers (request : ClientRequest) (reply : Bytes × Datagram) : Prop :=
  acceptClient request.datagram = some reply.1

/-- The requests of a client that are on their way. -/
def NovaSystem.onTheWay (system : NovaSystem) (address : SockAddr) : List Datagram :=
  (system.inFlight.filter fun entry ↦ entry.1 = address ∧ entry.2 ≠ greeting).map Prod.snd

/-- The server knows an address, so that it may send details there. -/
def NovaSystem.Knows (system : NovaSystem) (address : SockAddr) : Prop :=
  address.port ≠ 0 ∧ ∃ name, system.server.exchange.clientMap.read name = address

/-- A client before its login and the server are in step: the client waits for nothing, and all its
requests are answered and all answers read; or the last request is on its way; or the answer to it
is the first thing to be read. Only an answer that admits the client may have details behind it. -/
inductive InStep (system : NovaSystem) (address : SockAddr) (log : ClientLog) : Prop
  | idle (hwaiting : (system.desks address).window.waiting = none)
      (hway : system.onTheWay address = []) (hinbox : (system.desks address).inbox = [])
      (hknows : ¬ system.Knows address)
      (hanswered : List.Forall₂ Answers log.sent log.replies)
      (hread : log.replies.map (fun reply ↦ utf8GetString reply.2) = log.read)
  | sent (request : ClientRequest) (answered : List ClientRequest) (hport : address.port ≠ 0)
      (hwaiting : (system.desks address).window.waiting = some request)
      (hway : system.onTheWay address = [request.datagram])
      (hinbox : (system.desks address).inbox = []) (hknows : ¬ system.Knows address)
      (hsent : log.sent = answered ++ [request])
      (hanswered : List.Forall₂ Answers answered log.replies)
      (hread : log.replies.map (fun reply ↦ utf8GetString reply.2) = log.read)
  | replied (request : ClientRequest) (data : Datagram) (rest : List Datagram)
      (hwaiting : (system.desks address).window.waiting = some request)
      (hway : system.onTheWay address = [])
      (hinbox : (system.desks address).inbox = data :: rest)
      (hrest : rest = [] ∧ ¬ system.Knows address ∨
        pageDone request.kind (utf8GetString data) = some .logsIn)
      (hanswered : List.Forall₂ Answers log.sent log.replies)
      (hread : log.replies.map (fun reply ↦ utf8GetString reply.2) =
        log.read ++ [utf8GetString data])

/-- What every state of a run satisfies: only sockets with a port are connected, only clients past
their login listen, every window keeps to some conversation, and every client before its login is in
step with the server. -/
structure SystemInvariant (classes : CharClasses) (history : List SystemRecord)
    (system : NovaSystem) : Prop where
  ports : ∀ address, (system.desks address).connected = true → address.port ≠ 0
  listeners : ∀ address, (system.desks address).listening = true →
    (system.desks address).window.content.needsLogin = true
  windows : ∀ address, ∃ conversation,
    InConversation classes conversation (system.desks address).window
  inStep : ∀ address, (system.desks address).window.content.needsLogin = false →
    InStep system address (clientLog history address)

/-! ### Steps -/

section Frames

variable {system next : NovaSystem} {address : SockAddr} {log : ClientLog}

/-- What a client and the server know of each other is all that keeps them in step. -/
theorem InStep.frame (hinstep : InStep system address log)
    (hwaiting : (next.desks address).window.waiting = (system.desks address).window.waiting)
    (hway : next.onTheWay address = system.onTheWay address)
    (hinbox : (next.desks address).inbox = (system.desks address).inbox)
    (hknows : next.Knows address → system.Knows address) : InStep next address log := by
  cases hinstep with
  | idle hidle hnone hempty hunknown hanswered hread =>
    exact .idle (hwaiting.trans hidle) (hway.trans hnone) (hinbox.trans hempty)
      (mt hknows hunknown) hanswered hread
  | sent request answered hport hasked hsent hempty hunknown hlog hanswered hread =>
    exact .sent request answered hport (hwaiting.trans hasked) (hway.trans hsent)
      (hinbox.trans hempty) (mt hknows hunknown) hlog hanswered hread
  | replied request data rest hasked hnone hfirst hrest hanswered hread =>
    exact .replied request data rest (hwaiting.trans hasked) (hway.trans hnone)
      (hinbox.trans hfirst) (hrest.imp_left fun hnew ↦ ⟨hnew.1, mt hknows hnew.2⟩) hanswered hread

/-- An element of a list, and the list without it. -/
theorem eraseIdx_split {α : Type*} {list : List α} {index : ℕ} {entry : α}
    (hentry : list[index]? = some entry) :
    ∃ before after, list = before ++ entry :: after ∧ list.eraseIdx index = before ++ after := by
  obtain ⟨hindex, rfl⟩ := List.getElem?_eq_some_iff.mp hentry
  refine ⟨list.take index, list.drop (index + 1), ?_, List.eraseIdx_eq_take_drop_succ ..⟩
  rw [List.getElem_cons_drop, List.take_append_drop]

/-- A datagram arrives where it is sent to. -/
theorem arriving_singleton (destination address : SockAddr) (data : Datagram) :
    arriving [(destination, data)] address =
      if address.port ≠ 0 ∧ destination = address then [data] else [] := by
  unfold arriving
  by_cases hport : address.port = 0
  · simp [hport]
  · by_cases hdestination : destination = address <;> simp [hport, hdestination]

/-- A press leads neither past the login nor back before it. -/
theorem needsLogin_of_pressStep {classes : CharClasses} {window window' : Window}
    {button : Press} {output : WindowOutput}
    (hpress : PressStep classes window button window' output) :
    window'.content.needsLogin = window.content.needsLogin := by
  cases hpress with
  | stays | sends => rfl
  | opens page pathUi folderPath hopens => exact hopens.2.2.2.1.symm
  | project textInput hpage =>
    rw [hpage]
    rfl
  | file call hpage hcall => rcases hpage with hpage | hpage <;> rw [hpage] <;> rfl

/-- A window that waits is on the page of the request. -/
theorem needsLogin_of_waiting {classes : CharClasses} {conversation : Conversation}
    {window : Window} {request : ClientRequest}
    (hconversation : InConversation classes conversation window)
    (hwaiting : window.waiting = some request) :
    window.content.needsLogin = request.page.needsLogin := by
  rw [(hconversation.waiting request hwaiting).page]

/-- An answer never leads back before the login. -/
theorem needsLogin_of_answerStep {classes : CharClasses} {conversation : Conversation}
    {window window' : Window} {request : ClientRequest} {message : Text} {accepted : Bool}
    {output : WindowOutput} (hconversation : InConversation classes conversation window)
    (hwaiting : window.waiting = some request)
    (hanswer : AnswerStep window request message accepted window' output)
    (hfront : window'.content.needsLogin = false) : window.content.needsLogin = false := by
  have hneeds := needsLogin_of_waiting hconversation hwaiting
  cases hanswer with
  | stays => exact hfront
  | signup hrequest | login hrequest | email hrequest | code hrequest | newPassword hrequest =>
    rw [hneeds, hrequest]
    rfl
  | invite => simp [Page.needsLogin] at hfront

end Frames

section Steps

variable {classes : CharClasses} {endsWith : Text → Text → Bool} {history : List SystemRecord}
  {system next : NovaSystem} {output : SystemOutput}

@[simp] theorem desks_setDesk_self (system : NovaSystem) (address : SockAddr) (desk : Desk) :
    (system.setDesk address desk).desks address = desk := by
  simp [NovaSystem.setDesk]

theorem desks_setDesk_of_ne (system : NovaSystem) {address other : SockAddr} (desk : Desk)
    (hne : other ≠ address) : (system.setDesk address desk).desks other = system.desks other := by
  simp [NovaSystem.setDesk, hne]

@[simp] theorem onTheWay_setDesk (system : NovaSystem) (address other : SockAddr) (desk : Desk) :
    (system.setDesk address desk).onTheWay other = system.onTheWay other := rfl

@[simp] theorem desks_send (system : NovaSystem) (address : SockAddr) (data : List Datagram) :
    (system.send address data).desks = system.desks := rfl

/-- What a client sends is on the way from it alone. -/
theorem onTheWay_send (system : NovaSystem) (address other : SockAddr) (data : List Datagram) :
    (system.send address data).onTheWay other =
      system.onTheWay other ++
        if address = other then data.filter (fun datagram ↦ datagram ≠ greeting) else [] := by
  unfold NovaSystem.onTheWay NovaSystem.send
  rw [List.filter_append, List.map_append, List.filter_map, List.map_map]
  congr 1
  split_ifs with haddress
  · simp [Function.comp_def, haddress]
  · simp [Function.comp_def, haddress]

/-- A request is no greeting: it begins with its identifier. -/
theorem datagram_ne_greeting (request : ClientRequest) : request.datagram ≠ greeting := by
  have hgreeting : greeting.head? = some 'a'.toUInt8 := by decide
  intro hsame
  rw [← hsame, request.datagram_eq, List.head?_cons] at hgreeting
  revert hgreeting
  cases request <;> simp only [ClientRequest.identifier] <;> decide

/-- A step that shows nothing of a client leaves its log alone. -/
theorem clientLog_of_none {record : SystemRecord} {address : SockAddr}
    (hsent : sentBy address record = none) (hreplied : repliedTo address record = none)
    (hread : readBy address record = none) :
    clientLog (history ++ [record]) address = clientLog history address := by
  simp [clientLog_snoc, ClientLog.record, hsent, hreplied, hread]

/-- The log of a client that acted in a step. -/
theorem clientLog_of_acted {event : SystemEvent} {actor address : SockAddr}
    {acted : WindowEvent} {shown : WindowOutput} :
    clientLog (history ++ [⟨system, event, { acted := some (actor, acted, shown) }, next⟩])
        address =
      if actor = address then
        { clientLog history address with
          sent := (clientLog history address).sent ++ shown.sent.toList
          read := (clientLog history address).read ++ acted.read.toList }
      else clientLog history address := by
  rw [clientLog_snoc]
  by_cases hactor : actor = address <;>
    simp [ClientLog.record, sentBy, readBy, repliedTo, hactor]

/-- A step that changes one client and shows nothing. -/
theorem SystemInvariant.silent {event : SystemEvent} {address : SockAddr} {desk : Desk}
    {data : List Datagram} (hinvariant : SystemInvariant classes history system)
    (hwindow : desk.window = (system.desks address).window)
    (hport : desk.connected = true → address.port ≠ 0)
    (hlistening : desk.listening = (system.desks address).listening)
    (hinbox : desk.window.content.needsLogin = false →
      desk.inbox = (system.desks address).inbox)
    (hdata : ∀ datagram ∈ data, datagram = greeting) :
    SystemInvariant classes
      (history ++ [⟨system, event, {}, (system.setDesk address desk).send address data⟩])
      ((system.setDesk address desk).send address data) := by
  refine ⟨fun other hconnected ↦ ?_, fun other hlistens ↦ ?_, fun other ↦ ?_,
    fun other hfront ↦ ?_⟩
  · rw [desks_send] at hconnected
    by_cases hother : other = address
    · subst hother
      exact hport (by simpa using hconnected)
    · rw [desks_setDesk_of_ne _ _ hother] at hconnected
      exact hinvariant.ports other hconnected
  · rw [desks_send] at hlistens ⊢
    by_cases hother : other = address
    · subst hother
      rw [desks_setDesk_self] at hlistens ⊢
      rw [hwindow]
      exact hinvariant.listeners other (hlistening ▸ hlistens)
    · rw [desks_setDesk_of_ne _ _ hother] at hlistens ⊢
      exact hinvariant.listeners other hlistens
  · rw [desks_send]
    by_cases hother : other = address
    · subst hother
      rw [desks_setDesk_self, hwindow]
      exact hinvariant.windows other
    · rw [desks_setDesk_of_ne _ _ hother]
      exact hinvariant.windows other
  · rw [clientLog_of_none rfl rfl rfl]
    have hway : ((system.setDesk address desk).send address data).onTheWay other =
        system.onTheWay other := by
      have hnone : data.filter (fun datagram ↦ datagram ≠ greeting) = [] := by
        simpa [List.filter_eq_nil_iff] using hdata
      rw [onTheWay_send, onTheWay_setDesk, hnone, ite_self, List.append_nil]
    rw [desks_send] at hfront
    by_cases hother : other = address
    · subst hother
      rw [desks_setDesk_self] at hfront
      refine (hinvariant.inStep other (hwindow ▸ hfront)).frame ?_ hway ?_ id
      · rw [desks_send, desks_setDesk_self, hwindow]
      · rw [desks_send, desks_setDesk_self]
        exact hinbox hfront
    · rw [desks_setDesk_of_ne _ _ hother] at hfront
      refine (hinvariant.inStep other hfront).frame ?_ hway ?_ id
      · rw [desks_send, desks_setDesk_of_ne _ _ hother]
      · rw [desks_send, desks_setDesk_of_ne _ _ hother]

/-- The inbox of a client past its login may change. -/
theorem SystemInvariant.inbox {event : SystemEvent} {address : SockAddr}
    (hinvariant : SystemInvariant classes history system) (inbox : List Datagram)
    (hneeds : (system.desks address).window.content.needsLogin = true) :
    SystemInvariant classes
      (history ++ [⟨system, event, {},
        system.setDesk address { system.desks address with inbox }⟩])
      (system.setDesk address { system.desks address with inbox }) := by
  have hsilent : SystemInvariant classes
      (history ++ [⟨system, event, {},
        (system.setDesk address { system.desks address with inbox }).send address []⟩])
      ((system.setDesk address { system.desks address with inbox }).send address []) :=
    hinvariant.silent rfl (hinvariant.ports address) rfl
      (fun hfront ↦ absurd (hneeds.symm.trans hfront) (by simp)) (by simp)
  simpa [NovaSystem.send] using hsilent

/-- What a press does to a client that is in step. -/
theorem InStep.press {address : SockAddr} {log : ClientLog} {window : Window} {button : Press}
    {shown : WindowOutput} (hinstep : InStep system address log)
    (hwaiting : (system.desks address).window.waiting = none)
    (hpress : PressStep classes (system.desks address).window button window shown)
    (hport : shown.sent ≠ none → address.port ≠ 0) :
    InStep ((system.setWindow address window).send address
        (shown.sent.toList.map ClientRequest.datagram)) address
      { log with sent := log.sent ++ shown.sent.toList } := by
  have hdesk : ((system.setWindow address window).send address
      (shown.sent.toList.map ClientRequest.datagram)).desks address =
        { system.desks address with window } := by
    rw [desks_send, NovaSystem.setWindow, desks_setDesk_self]
  have hway : ((system.setWindow address window).send address
      (shown.sent.toList.map ClientRequest.datagram)).onTheWay address =
        system.onTheWay address ++ shown.sent.toList.map ClientRequest.datagram := by
    rw [onTheWay_send, if_pos rfl, List.filter_eq_self.mpr ?_]
    · rfl
    · intro datagram hdatagram
      obtain ⟨request, -, rfl⟩ := List.mem_map.mp hdatagram
      simpa using datagram_ne_greeting request
  cases hinstep with
  | sent request answered _ hasked => rw [hasked] at hwaiting; cases hwaiting
  | replied request data rest hasked => rw [hasked] at hwaiting; cases hwaiting
  | idle hidle hnone hempty hunknown hanswered hread =>
    have hquiet : shown.sent = none → window.waiting = none →
        InStep ((system.setWindow address window).send address
          (shown.sent.toList.map ClientRequest.datagram)) address
          { log with sent := log.sent ++ shown.sent.toList } := by
      intro hsilent hstill
      refine .idle ?_ ?_ ?_ hunknown ?_ hread
      · rw [hdesk]
        exact hstill
      · rw [hway, hnone, hsilent]
        rfl
      · rw [hdesk]
        exact hempty
      · simpa [hsilent] using hanswered
    cases hpress with
    | stays | opens | project | file => exact hquiet rfl hidle
    | sends request hasks =>
      refine .sent request log.sent (hport (by simp)) ?_ ?_ ?_ hunknown rfl hanswered hread
      · rw [hdesk]
      · rw [hway, hnone]
        rfl
      · rw [hdesk]
        exact hempty

/-- A press at one client keeps every client in step. -/
theorem SystemInvariant.press {address : SockAddr} {button : Press}
    (hinvariant : SystemInvariant classes history system)
    (hstep : system.step classes endsWith (.press address button) = some (next, output)) :
    SystemInvariant classes (history ++ [⟨system, .press address button, output, next⟩]) next := by
  simp only [NovaSystem.step, Option.bind_eq_bind, Option.bind_eq_some_iff] at hstep
  obtain ⟨⟨window, shown⟩, hbutton, hstep⟩ := hstep
  split_ifs at hstep with hsocket
  cases hstep
  obtain ⟨hwaiting, hpress⟩ := pressStep_of_press hbutton
  have hport : shown.sent ≠ none → address.port ≠ 0 := by
    intro hsent
    refine hinvariant.ports address ?_
    simpa [hsent] using hsocket
  refine ⟨fun other hconnected ↦ ?_, fun other hlistens ↦ ?_, fun other ↦ ?_,
    fun other hfront ↦ ?_⟩
  · rw [desks_send, NovaSystem.setWindow] at hconnected
    refine hinvariant.ports other ?_
    by_cases hother : other = address
    · subst hother
      simpa using hconnected
    · rwa [desks_setDesk_of_ne _ _ hother] at hconnected
  · rw [desks_send, NovaSystem.setWindow] at hlistens ⊢
    by_cases hother : other = address
    · subst hother
      rw [desks_setDesk_self] at hlistens ⊢
      exact (needsLogin_of_pressStep hpress).trans (hinvariant.listeners other hlistens)
    · rw [desks_setDesk_of_ne _ _ hother] at hlistens ⊢
      exact hinvariant.listeners other hlistens
  · rw [desks_send, NovaSystem.setWindow]
    by_cases hother : other = address
    · subst hother
      obtain ⟨conversation, hconversation⟩ := hinvariant.windows other
      rw [desks_setDesk_self]
      exact ⟨conversation, hconversation.press hwaiting hpress⟩
    · rw [desks_setDesk_of_ne _ _ hother]
      exact hinvariant.windows other
  · rw [clientLog_of_acted]
    by_cases hother : other = address
    · subst hother
      rw [desks_send, NovaSystem.setWindow, desks_setDesk_self] at hfront
      rw [if_pos rfl]
      have hbefore : (system.desks other).window.content.needsLogin = false :=
        (needsLogin_of_pressStep hpress).symm.trans hfront
      have hnext := (hinvariant.inStep other hbefore).press hwaiting hpress hport
      simpa [WindowEvent.read] using hnext
    · rw [desks_send, NovaSystem.setWindow, desks_setDesk_of_ne _ _ hother] at hfront
      rw [if_neg (Ne.symm hother)]
      refine (hinvariant.inStep other hfront).frame ?_ ?_ ?_ id
      · rw [desks_send, NovaSystem.setWindow, desks_setDesk_of_ne _ _ hother]
      · rw [onTheWay_send, if_neg (Ne.symm hother), List.append_nil]
        rfl
      · rw [desks_send, NovaSystem.setWindow, desks_setDesk_of_ne _ _ hother]

/-- The window that reads an answer waits no longer. -/
theorem waiting_of_answerStep {window window' : Window} {request : ClientRequest} {message : Text}
    {accepted : Bool} {shown : WindowOutput}
    (hanswer : AnswerStep window request message accepted window' shown) :
    window'.waiting = none := by
  cases hanswer with
  | code hrequest hverified =>
    unfold Window.verified at hverified
    split_ifs at hverified <;> cases hverified <;> rfl
  | stays | signup | login | email | newPassword | invite => rfl

/-- An answer that makes the window call the editor leads there. -/
theorem needsLogin_of_calls {window window' : Window} {request : ClientRequest} {message : Text}
    {accepted : Bool} {shown : WindowOutput}
    (hanswer : AnswerStep window request message accepted window' shown)
    (hcalls : shown.calls ≠ []) : window'.content.needsLogin = true := by
  cases hanswer with
  | code hrequest hverified =>
    unfold Window.verified at hverified
    split_ifs at hverified <;> cases hverified <;> exact absurd rfl hcalls
  | stays | signup | login | email | newPassword => exact absurd rfl hcalls
  | invite => rfl

/-- What reading an answer does to a client that is in step and stays before its login. -/
theorem InStep.answer {address : SockAddr} {log : ClientLog} {data : Datagram}
    {rest : List Datagram} {listening : Bool} {window : Window} {shown : WindowOutput}
    (hinstep : InStep system address log)
    (hinbox : (system.desks address).inbox = data :: rest)
    (hanswer : (system.desks address).window.answer (utf8GetString data) = some (window, shown))
    (hfront : window.content.needsLogin = false) :
    InStep (system.setDesk address
        { system.desks address with window, inbox := rest, listening }) address
      { log with
        sent := log.sent ++ shown.sent.toList
        read := log.read ++ [utf8GetString data] } := by
  obtain ⟨request, accepted, hwaiting, -, hstep⟩ := answerStep_of_answer hanswer
  cases hinstep with
  | idle hidle => rw [hidle] at hwaiting; cases hwaiting
  | sent asked answered _ _ _ hempty => rw [hempty] at hinbox; cases hinbox
  | replied asked first others hasked hnone hfirst hrest hanswered hread =>
    obtain ⟨rfl, rfl⟩ : first = data ∧ others = rest := by
      rw [hfirst] at hinbox
      exact List.cons.inj hinbox
    obtain rfl : request = asked := Option.some.inj (hwaiting.symm.trans hasked)
    rcases hrest with ⟨rfl, hunknown⟩ | hadmitted
    · refine .idle ?_ hnone ?_ hunknown ?_ hread
      · rw [desks_setDesk_self]
        exact waiting_of_answerStep hstep
      · rw [desks_setDesk_self]
      · simpa [sent_of_answerStep hstep] using hanswered
    · -- an accepted login would have led past it
      exfalso
      simp only [Window.answer, hwaiting, Option.bind_eq_bind, Option.bind_some, hadmitted,
        Window.follow, Option.some.injEq, Prod.mk.injEq] at hanswer
      rw [← hanswer.1] at hfront
      cases hfront

/-- A client that reads an answer stays in step, and so do the others. -/
theorem SystemInvariant.answer {address : SockAddr}
    (hinvariant : SystemInvariant classes history system)
    (hstep : system.step classes endsWith (.answer address) = some (next, output)) :
    SystemInvariant classes (history ++ [⟨system, .answer address, output, next⟩]) next := by
  simp only [NovaSystem.step] at hstep
  split at hstep
  · cases hstep
  next data rest hinbox =>
  simp only [Option.bind_eq_bind, Option.bind_eq_some_iff, Option.pure_def, Option.some.injEq]
    at hstep
  obtain ⟨⟨window, shown⟩, hanswer, hpair⟩ := hstep
  cases hpair
  obtain ⟨request, accepted, hwaiting, -, hanswerStep⟩ := answerStep_of_answer hanswer
  obtain ⟨conversation, hconversation⟩ := hinvariant.windows address
  refine ⟨fun other hconnected ↦ ?_, fun other hlistens ↦ ?_, fun other ↦ ?_,
    fun other hfront ↦ ?_⟩
  · refine hinvariant.ports other ?_
    by_cases hother : other = address
    · subst hother
      simpa using hconnected
    · rwa [desks_setDesk_of_ne _ _ hother] at hconnected
  · by_cases hother : other = address
    · subst hother
      rw [desks_setDesk_self] at hlistens ⊢
      simp only [Bool.or_eq_true, Bool.not_eq_true', List.isEmpty_eq_false_iff] at hlistens
      rcases hlistens with hbefore | hcalls
      · by_contra hfront
        have hback := needsLogin_of_answerStep hconversation hwaiting hanswerStep
          (Bool.eq_false_of_not_eq_true hfront)
        rw [hinvariant.listeners other hbefore] at hback
        cases hback
      · exact needsLogin_of_calls hanswerStep hcalls
    · rw [desks_setDesk_of_ne _ _ hother] at hlistens ⊢
      exact hinvariant.listeners other hlistens
  · by_cases hother : other = address
    · subst hother
      rw [desks_setDesk_self]
      exact ⟨_, hconversation.answer hwaiting hanswerStep⟩
    · rw [desks_setDesk_of_ne _ _ hother]
      exact hinvariant.windows other
  · rw [clientLog_of_acted]
    by_cases hother : other = address
    · subst hother
      rw [desks_setDesk_self] at hfront
      rw [if_pos rfl]
      have hbefore := needsLogin_of_answerStep hconversation hwaiting hanswerStep hfront
      exact (hinvariant.inStep other hbefore).answer hinbox hanswer hfront
    · rw [desks_setDesk_of_ne _ _ hother] at hfront
      rw [if_neg (Ne.symm hother)]
      refine (hinvariant.inStep other hfront).frame ?_ rfl ?_ id
      · rw [desks_setDesk_of_ne _ _ hother]
      · rw [desks_setDesk_of_ne _ _ hother]

@[simp] theorem onTheWay_serve (system : NovaSystem) (server : ServerState)
    (observation : Observation) (address : SockAddr) :
    (system.serve server observation).onTheWay address = system.onTheWay address := rfl

/-- What arrives at an address was sent there. -/
theorem exists_of_arriving {sent : List (SockAddr × Datagram)} {address : SockAddr}
    (harriving : arriving sent address ≠ []) :
    address.port ≠ 0 ∧ ∃ entry ∈ sent, entry.1 = address := by
  unfold arriving at harriving
  split_ifs at harriving with hport
  · exact absurd rfl harriving
  · obtain ⟨data, hdata⟩ := List.exists_mem_of_ne_nil _ harriving
    obtain ⟨entry, hentry, -⟩ := List.mem_map.mp hdata
    obtain ⟨hmem, haddress⟩ := List.mem_filter.mp hentry
    exact ⟨hport, entry, hmem, of_decide_eq_true haddress⟩

/-- Details go only to clients that the server knows, so a client before its login stays in step
with it. -/
theorem InStep.details {server : ServerState} {observation : Observation} {address : SockAddr}
    {log : ClientLog} (hinstep : InStep system address log)
    (haddresses : ∀ name,
      server.exchange.clientMap.read name = system.server.exchange.clientMap.read name)
    (hsent : ∀ entry ∈ datagramsOf observation,
      ∃ name, system.server.exchange.clientMap.read name = entry.1) :
    InStep (system.serve server observation) address log := by
  have hknows : (system.serve server observation).Knows address → system.Knows address := by
    rintro ⟨hport, name, hname⟩
    exact ⟨hport, name, (haddresses name).symm.trans hname⟩
  have hnothing : ¬ system.Knows address → arriving (datagramsOf observation) address = [] := by
    intro hunknown
    by_contra harriving
    obtain ⟨hport, entry, hentry, rfl⟩ := exists_of_arriving harriving
    exact hunknown ⟨hport, hsent entry hentry⟩
  have hsame : ¬ system.Knows address →
      ((system.serve server observation).desks address).inbox = (system.desks address).inbox := by
    intro hunknown
    simp [NovaSystem.serve, hnothing hunknown]
  by_cases hknown : system.Knows address
  · cases hinstep with
    | idle _ _ _ hunknown | sent _ _ _ _ _ _ hunknown => exact absurd hknown hunknown
    | replied request data rest hasked hnone hfirst hrest hanswered hread =>
      rcases hrest with ⟨-, hunknown⟩ | hadmitted
      · exact absurd hknown hunknown
      · refine .replied request data (rest ++ arriving (datagramsOf observation) address) hasked
          hnone ?_ (.inr hadmitted) hanswered hread
        simp [NovaSystem.serve, hfirst]
  · exact hinstep.frame rfl rfl (hsame hknown) hknows

/-- A session thread of the server keeps every client in step. -/
theorem SystemInvariant.thread {index : ℕ} (hinvariant : SystemInvariant classes history system)
    (hstep : system.step classes endsWith (.thread index) = some (next, output)) :
    SystemInvariant classes (history ++ [⟨system, .thread index, output, next⟩]) next := by
  simp only [NovaSystem.step, Option.bind_eq_bind, Option.bind_eq_some_iff, Option.pure_def,
    Option.some.injEq] at hstep
  obtain ⟨⟨server, observation⟩, hserver, hpair⟩ := hstep
  cases hpair
  obtain ⟨haddresses, hsent⟩ := thread_of_step hserver
  refine ⟨hinvariant.ports, hinvariant.listeners, hinvariant.windows, fun address hfront ↦ ?_⟩
  rw [clientLog_of_none rfl rfl rfl]
  exact (hinvariant.inStep address hfront).details haddresses hsent

/-- What is on the way from a client when the server has received a datagram. -/
theorem onTheWay_eraseIdx {index : ℕ} {sender : SockAddr} {data : Datagram}
    (hentry : system.inFlight[index]? = some (sender, data)) (address : SockAddr) :
    let erased := { system with inFlight := system.inFlight.eraseIdx index }
    if sender = address ∧ data ≠ greeting then
      ∃ before after, system.onTheWay address = before ++ data :: after ∧
        erased.onTheWay address = before ++ after
    else erased.onTheWay address = system.onTheWay address := by
  intro erased
  obtain ⟨before, after, hflight, herased⟩ := eraseIdx_split hentry
  let own : List (SockAddr × Datagram) → List Datagram := fun entries ↦
    (entries.filter fun entry ↦ entry.1 = address ∧ entry.2 ≠ greeting).map Prod.snd
  have happend : ∀ first second, own (first ++ second) = own first ++ own second := by
    simp [own]
  have hbefore : system.onTheWay address = own before ++ own ((sender, data) :: after) := by
    rw [← happend, ← hflight]
    rfl
  have hafter : erased.onTheWay address = own before ++ own after := by
    rw [← happend, ← herased]
    rfl
  rw [hbefore, hafter]
  split_ifs with hcounts
  · refine ⟨own before, own after, ?_, rfl⟩
    simp [own, hcounts]
  · have hskipped : own ((sender, data) :: after) = own after := by
      simp only [own, List.filter_cons, decide_eq_true_eq, if_neg hcounts]
    rw [hskipped]

/-- The server takes the greeting for no request. -/
theorem requestKind_greeting {userInfo : Bytes}
    (hreceived : acceptClient greeting = some userInfo) :
    requestKind userInfo = none := by
  have hgreeting : acceptClient greeting = some (ascii "a:b") := by decide +kernel
  obtain rfl : ascii "a:b" = userInfo := Option.some.inj (hgreeting.symm.trans hreceived)
  decide

/-- What the server handles concerns another client, or is a greeting: the client stays as it
is. -/
theorem InStep.receive_other {index : ℕ} {sender address : SockAddr} {data : Datagram}
    {userInfo : Bytes} {environment : Environment} {server : ServerState}
    {observation : Observation} {log : ClientLog}
    (hinstep : InStep system address log)
    (hentry : system.inFlight[index]? = some (sender, data))
    (hreceived : acceptClient data = some userInfo)
    (hserved : Received environment system.server userInfo sender server observation)
    (hother : ¬ (sender = address ∧ data ≠ greeting)) :
    InStep ({ system with inFlight := system.inFlight.eraseIdx index }.serve server observation)
      address log := by
  have hway := onTheWay_eraseIdx hentry address
  rw [if_neg hother] at hway
  have hsender : datagramsOf observation ≠ [] → sender ≠ address := by
    rintro hsent rfl
    refine hother ⟨rfl, ?_⟩
    rintro rfl
    have hkind := requestKind_greeting hreceived
    cases hserved with
    | silent _ hnone => exact hsent hnone
    | replied _ _ hsome | admitted _ hsome => rw [hkind] at hsome; cases hsome
  have harriving : arriving (datagramsOf observation) address = [] := by
    by_contra hnonempty
    obtain ⟨-, entry, hmem, haddress⟩ := exists_of_arriving hnonempty
    have hne := hsender (List.ne_nil_of_mem hmem)
    cases hserved with
    | silent _ hnone => simp [hnone] at hmem
    | replied _ _ _ _ hsent | admitted _ _ _ hsent =>
      rw [hsent, List.mem_singleton] at hmem
      exact hne (by rw [← haddress, hmem])
  refine hinstep.frame rfl hway ?_ ?_
  · simp [NovaSystem.serve, harriving]
  · rintro ⟨hport, name, hname⟩
    refine ⟨hport, ?_⟩
    cases hserved with
    | silent _ _ haddresses | replied _ _ _ _ _ _ haddresses =>
      exact ⟨name, (congrArg (SubscriptMap.read · name) haddresses).symm.trans hname⟩
    | admitted user _ _ hsent _ haddresses =>
      have hne : sender ≠ address := hsender (by simp [hsent])
      have hread : (system.server.exchange.clientMap.assign user sender).read name = address :=
        (congrArg (SubscriptMap.read · name) haddresses).symm.trans hname
      by_cases huser : name = user
      · rw [huser, SubscriptMap.read_assign_self] at hread
        exact absurd hread hne
      · rw [SubscriptMap.read_assign_of_ne _ _ huser] at hread
        exact ⟨name, hread⟩

/-- A client that waits is answered: the reply becomes the first thing it reads. -/
theorem InStep.replied_of_sent {address : SockAddr} {data : Datagram} {userInfo : Bytes}
    {server : ServerState} {observation : Observation} {log : ClientLog}
    {request : ClientRequest} {answered : List ClientRequest} {payload : Datagram}
    (hport : address.port ≠ 0)
    (hwaiting : (system.desks address).window.waiting = some request)
    (hway : system.onTheWay address = []) (hinbox : (system.desks address).inbox = [])
    (hsent : log.sent = answered ++ [request]) (hdata : data = request.datagram)
    (hreceived : acceptClient data = some userInfo)
    (hanswered : List.Forall₂ Answers answered log.replies)
    (hread : log.replies.map (fun reply ↦ utf8GetString reply.2) = log.read)
    (hpayload : datagramsOf observation = [(address, payload)])
    (hrest : ¬ (system.serve server observation).Knows address ∨
      pageDone request.kind (utf8GetString payload) = some .logsIn) :
    InStep (system.serve server observation) address
      { log with replies := log.replies ++ [(userInfo, payload)] } := by
  subst hdata
  have harriving : arriving (datagramsOf observation) address = [payload] := by
    rw [hpayload, arriving_singleton, if_pos ⟨hport, rfl⟩]
  refine .replied request payload [] hwaiting hway ?_ (hrest.imp_left fun hunknown ↦
    ⟨rfl, hunknown⟩) ?_ ?_
  · simp [NovaSystem.serve, hinbox, harriving]
  · rw [hsent]
    exact List.rel_append hanswered (.cons hreceived .nil)
  · simp [hread]

/-- The server handles the request a client waits for. -/
theorem InStep.receive_own {index : ℕ} {address : SockAddr} {data : Datagram} {userInfo : Bytes}
    {environment : Environment} {server : ServerState} {observation : Observation} {log : ClientLog}
    (hinstep : InStep system address log)
    (hentry : system.inFlight[index]? = some (address, data)) (hdata : data ≠ greeting)
    (hreceived : acceptClient data = some userInfo)
    (hserved : Received environment system.server userInfo address server observation)
    (hkinds : ∀ request, (system.desks address).window.waiting = some request →
      request.kind ≠ .session) :
    InStep ({ system with inFlight := system.inFlight.eraseIdx index }.serve server observation)
      address { log with replies := log.replies ++
        ((datagramsOf observation).head?.map fun entry ↦ (userInfo, entry.2)).toList } := by
  have hway := onTheWay_eraseIdx hentry address
  rw [if_pos ⟨rfl, hdata⟩] at hway
  obtain ⟨before, after, hbefore, hafter⟩ := hway
  cases hinstep with
  | idle _ hnone => simp [hnone] at hbefore
  | replied _ _ _ _ hnone => simp [hnone] at hbefore
  | sent request answered hport hwaiting hone hinbox hunknown hsent hanswered hread =>
    obtain ⟨rfl, rfl, rfl⟩ : before = [] ∧ data = request.datagram ∧ after = [] := by
      rw [hone] at hbefore
      cases before with
      | nil => simpa [eq_comm] using hbefore
      | cons => simp at hbefore
    have hkind := requestKind_of_acceptClient hreceived
    have hsession := hkinds request hwaiting
    cases hserved with
    | silent hnone =>
      rw [hkind] at hnone
      simp [hsession] at hnone
    | replied kind payload hsame _ hpayload _ haddresses =>
      rw [hpayload]
      refine InStep.replied_of_sent hport hwaiting hafter hinbox hsent rfl hreceived hanswered
        hread hpayload (.inl ?_)
      rintro ⟨-, name, hname⟩
      exact hunknown
        ⟨hport, name, (congrArg (SubscriptMap.read · name) haddresses).symm.trans hname⟩
    | admitted name hlogin _ hpayload _ haddresses =>
      rw [hpayload]
      refine InStep.replied_of_sent hport hwaiting hafter hinbox hsent rfl hreceived hanswered
        hread hpayload (.inr ?_)
      have hkind' : request.kind = .login := Option.some.inj (hkind.symm.trans hlogin)
      rw [hkind']
      exact (logsIn_iff (show HasBranch .login .infoCorrect by decide) _).mpr rfl

/-- What the server handles keeps every client in step. -/
theorem SystemInvariant.receive {index : ℕ} {environment : Environment}
    (hinvariant : SystemInvariant classes history system)
    (hstep : system.step classes endsWith (.receive index environment) = some (next, output)) :
    SystemInvariant classes
      (history ++ [⟨system, .receive index environment, output, next⟩]) next := by
  simp only [NovaSystem.step, Option.bind_eq_bind, Option.bind_eq_some_iff, Option.pure_def,
    Option.some.injEq] at hstep
  obtain ⟨⟨sender, data⟩, hentry, userInfo, hreceived, ⟨server, observation⟩, hserver, hpair⟩ :=
    hstep
  cases hpair
  have hserved := received_of_step hserver
  refine ⟨hinvariant.ports, hinvariant.listeners, hinvariant.windows, fun address hfront ↦ ?_⟩
  have hinstep := hinvariant.inStep address hfront
  have hkinds : ∀ request, (system.desks address).window.waiting = some request →
      request.kind ≠ .session := by
    intro request hwaiting hsession
    obtain ⟨conversation, hconversation⟩ := hinvariant.windows address
    have hneeds := needsLogin_of_waiting hconversation hwaiting
    rw [show (system.desks address).window.content.needsLogin = false from hfront] at hneeds
    cases request <;> simp [ClientRequest.kind, ClientRequest.page, Page.needsLogin] at *
  rw [clientLog_snoc]
  by_cases hown : sender = address ∧ data ≠ greeting
  · obtain ⟨rfl, hdata⟩ := hown
    have hnext := hinstep.receive_own hentry hdata hreceived hserved hkinds
    simpa [ClientLog.record, sentBy, readBy, repliedTo] using hnext
  · have hnext := hinstep.receive_other hentry hreceived hserved hown
    have hreplied : repliedTo address ⟨system, .receive index environment,
        { served := some (.receive userInfo sender environment, observation) },
        { system with inFlight := system.inFlight.eraseIdx index }.serve server observation⟩ =
          none := by
      by_cases hsender : sender = address
      · obtain rfl : data = greeting := by
          by_contra hdata
          exact hown ⟨hsender, hdata⟩
        have hkind := requestKind_greeting hreceived
        cases hserved with
        | silent _ hnone => simp [repliedTo, hnone]
        | replied _ _ hsome | admitted _ hsome => rw [hkind] at hsome; cases hsome
      · simp [repliedTo, hsender]
    simpa [ClientLog.record, sentBy, readBy, hreplied] using hnext

/-- Every step of the system keeps the invariant. -/
theorem SystemInvariant.step {event : SystemEvent}
    (hinvariant : SystemInvariant classes history system)
    (hstep : system.step classes endsWith event = some (next, output)) :
    SystemInvariant classes (history ++ [⟨system, event, output, next⟩]) next := by
  cases event with
  | startFlow address =>
    simp only [NovaSystem.step] at hstep
    split_ifs at hstep with hport
    cases hstep
    exact hinvariant.silent rfl (fun _ ↦ hport.1) rfl (fun _ ↦ rfl) (by simp)
  | press address button => exact hinvariant.press hstep
  | receive index environment => exact hinvariant.receive hstep
  | thread index => exact hinvariant.thread hstep
  | answer address => exact hinvariant.answer hstep
  | peer address data =>
    simp only [NovaSystem.step] at hstep
    split_ifs at hstep with hneeds
    cases hstep
    exact hinvariant.inbox _ hneeds
  | listen address =>
    simp only [NovaSystem.step] at hstep
    split at hstep
    · cases hstep
    · split_ifs at hstep with hlistening
      cases hstep
      exact hinvariant.inbox _ (hinvariant.listeners address hlistening)

end Steps

/-! ### Whole runs -/

section Runs

variable {classes : CharClasses} {endsWith : Text → Text → Bool} {users : List Row}
  {pathUi : Text} {history : List SystemRecord} {system : NovaSystem}

theorem systemInvariant_start (classes : CharClasses) (users : List Row) (pathUi : Text) :
    SystemInvariant classes [] (.start users pathUi) := by
  refine ⟨fun address hconnected ↦ absurd hconnected Bool.false_ne_true,
    fun address hlistens ↦ absurd hlistens Bool.false_ne_true,
    fun address ↦ ⟨{}, inConversation_start classes pathUi⟩, fun address _ ↦ ?_⟩
  refine .idle rfl rfl rfl ?_ .nil rfl
  rintro ⟨hport, name, hname⟩
  exact hport (by rw [← hname]; rfl)

theorem systemInvariant_of_run (hrun : SystemRun classes endsWith users pathUi history system) :
    SystemInvariant classes history system :=
  hrun.relation (SystemInvariant classes) (systemInvariant_start classes users pathUi)
    fun _ _ _ _ _ _ hinvariant hstep ↦ hinvariant.step hstep

/-- The requests of a client are answered in order and at most once, and its pages read the answers
in this order; the last request may be on its way still, or the answer to it be the next thing to be
read, exactly while the client waits. -/
def ExchangesInStep (system : NovaSystem) (address : SockAddr) (log : ClientLog) : Prop :=
  ∃ answered pending unread,
    log.sent = answered ++ pending ∧ List.Forall₂ Answers answered log.replies ∧
    log.replies.map (fun reply ↦ utf8GetString reply.2) = log.read ++ unread.map utf8GetString ∧
    system.onTheWay address = pending.map ClientRequest.datagram ∧
    unread <+: (system.desks address).inbox ∧
    pending.length + unread.length = (system.desks address).window.waiting.toList.length

/-- In every run of the server with any number of clients, whatever the order of the steps, every
client that is not past its login exchanges requests and answers with the server in step. A datagram
is handled in one step there, and no answer is lost. -/
theorem exchanges_in_step (hrun : SystemRun classes endsWith users pathUi history system)
    {address : SockAddr} (hfront : (system.desks address).window.content.needsLogin = false) :
    ExchangesInStep system address (clientLog history address) := by
  cases (systemInvariant_of_run hrun).inStep address hfront with
  | idle hwaiting hway hinbox hknows hanswered hread =>
    exact ⟨_, [], [], (List.append_nil _).symm, hanswered, by simp [hread], hway,
      List.nil_prefix, by simp [hwaiting]⟩
  | sent request answered hport hwaiting hway hinbox hknows hsent hanswered hread =>
    exact ⟨answered, [request], [], hsent, hanswered, by simp [hread], hway, List.nil_prefix,
      by simp [hwaiting]⟩
  | replied request data rest hwaiting hway hinbox hrest hanswered hread =>
    exact ⟨_, [], [data], (List.append_nil _).symm, hanswered, hread, hway,
      ⟨rest, by simp [hinbox]⟩, by simp [hwaiting]⟩

/-- The address of a client on this machine. -/
def clientAt (port : UInt16) : SockAddr := ⟨127, 0, 0, 1, port⟩

/-- One client asks for a code for a user that does not exist, while another one logs in. -/
theorem exchanges_in_step_recovery : ∃ history system,
    SystemRun asciiClasses (fun _ _ ↦ true) [plainRow "Hammer"] [] history system ∧
      (system.desks (clientAt 1)).window.content = .recovery ∧
      (clientLog history (clientAt 1)).read = [str "5"] ∧
      ExchangesInStep system (clientAt 1) (clientLog history (clientAt 1)) := by
  obtain ⟨history, system, hrun, -, hcheck⟩ := exists_run_of_execute
    (fun system ↦ NovaSystem.step system asciiClasses fun _ _ ↦ true)
    (.start [plainRow "Hammer"] [])
    [.startFlow (clientAt 1), .startFlow (clientAt 2), .press (clientAt 1) .login,
      .press (clientAt 1) .forgotPassword,
      .press (clientAt 1) (.recoveryDone (str "bob") (str "b@x.y")),
      .press (clientAt 2) .login, .press (clientAt 2) (.loginDone (str "a") (str "b")),
      .receive 3 calmEnvironment, .receive 2 calmEnvironment, .receive 0 calmEnvironment,
      .answer (clientAt 2), .answer (clientAt 1)]
    (fun history system ↦ (system.desks (clientAt 1)).window.content = .recovery &&
      (clientLog history (clientAt 1)).read = [str "5"]) (by decide +kernel)
  simp only [Bool.and_eq_true, decide_eq_true_eq] at hcheck
  exact ⟨history, system, hrun, hcheck.1, hcheck.2, exchanges_in_step hrun (by rw [hcheck.1]; rfl)⟩

end Runs

end NovaIde.Protocol
