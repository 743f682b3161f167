import NovaIde.Protocol.ClientSystem
import NovaIde.Protocol.SessionToken

/-!
# The account every client uses

`Login.done` sends the same username and password whatever was typed. So for the server every
client that is past its login is the same user: its token, and with it every invite that reaches the
server, is resolved to that name (`tokens_shared`). Nobody else ever invites anybody, so that a
session thread only finds both invites when that user asked for itself, and the details it sends
tell a client its own address: no two clients are ever connected (`details_own_address`).

The tokens of a run are taken to consist of the characters `generateSessionToken` draws from. As in
`ClientSystem`, a datagram is handled in one step and no answer is lost, and a session thread sends
the details to both sides in one step.
-/

set_option autoImplicit false
set_option relaxedAutoImplicit false

namespace NovaIde.Protocol

open Foundation Foundation.EventRun Client Server

/-- The username of every login. -/
def sharedName : Bytes := ascii "Hammer"

/-- The token of a client is one that the server resolves to the shared name. -/
def Resolves (server : ServerState) (token : Text) : Prop :=
  ∃ bytes : Bytes, (∀ byte ∈ bytes, isTokenChar byte) ∧ token = bytes.map UInt8.toUInt16 ∧
    server.accounts.usersList bytes = some sharedName

/-- A request is one that the pages send: a login with the shared name, or an invite with a token
that is resolved to it, or one of the others. -/
def FromPage (server : ServerState) : ClientRequest → Prop
  | .sendLogin username password => username = str "Hammer" ∧ password = str "Hammer1234"
  | .sendInvite token _ => Resolves server token
  | _ => True

/-- The tokens that a step issues are over the charset. -/
def TokensOverCharset (record : SystemRecord) : Prop :=
  match record.event with
  | .receive _ environment => environment.sessionToken.all isTokenChar = true
  | _ => True

instance (record : SystemRecord) : Decidable (TokensOverCharset record) := by
  unfold TokensOverCharset
  split <;> infer_instance

/-- What the server keeps to: only the shared name is in the session threads and has invited
anybody, and the two address maps agree. -/
structure SharedServer (server : ServerState) : Prop where
  threads : ∀ handler ∈ server.handlers, handler.current = sharedName ∧
    (handler.stage = .sendDetails → handler.wanted = sharedName)
  invites : ∀ name, name ≠ sharedName → server.exchange.sessionInvites.read name = []
  addresses : ∀ name, (addressesOf server.exchange name).2 = (addressesOf server.exchange name).1

section Server

variable {record : ServerRecord}

/-- A step only logs in the shared name, and only takes invites from it. -/
structure SharedStep (record : ServerRecord) : Prop where
  session : SessionStep record
  login : ∀ name token, issuedToken record = some (name, token) → name = sharedName
  request : ∀ token target, sessionRequest record.event = some (token, target) →
    record.before.accounts.usersList token = some sharedName

/-- A token of the shared name stays one. -/
theorem Resolves.step (hshared : SharedStep record) {token : Text}
    (hresolves : Resolves record.before token) : Resolves record.after token := by
  obtain ⟨bytes, hbytes, rfl, hentry⟩ := hresolves
  refine ⟨bytes, hbytes, rfl, ?_⟩
  cases hshared.session with
  | other _ _ _ _ htokens _ _ | thread _ _ _ _ _ _ htokens _ _ _ => rw [htokens, hentry]
  | login name issued _ hissued _ _ _ htokens _ _ =>
    obtain rfl := hshared.login name issued hissued
    rw [htokens]
    by_cases hsame : bytes = issued
    · rw [hsame, SubscriptMap.assign_self]
    · rw [SubscriptMap.assign_of_ne _ _ hsame, hentry]
  | request sent _ _ hrequest _ _ htokens _ _ =>
    rw [htokens]
    by_cases hsame : bytes = sent
    · subst hsame
      rw [SubscriptMap.touch_eq_self (by simp [hentry]), hentry]
    · rw [SubscriptMap.touch, Function.update_of_ne hsame, hentry]

/-- The name of the shared account is not the empty one. -/
theorem sharedName_ne_nil : sharedName ≠ [] := by decide

/-- A thread of the shared name keeps to it: it finds the invite of its second client to name its
first only when both are the shared name. -/
theorem SharedServer.thread {index : ℕ} {handler handler' : SessionHandler}
    (hserver : SharedServer record.before)
    (hhandler : record.before.handlers[index]? = some handler)
    (hhandlers : record.after.handlers = record.before.handlers.set index handler')
    (hsession : sessionStep record.before.exchange handler =
      some (record.after.exchange, handler', record.observation.details)) :
    SharedServer record.after := by
  obtain ⟨hcurrent, hready⟩ := hserver.threads handler (List.mem_of_getElem? hhandler)
  obtain ⟨hcurrent', hwanted', hcases⟩ := sessionStep_cases hsession
  refine ⟨fun other hother ↦ ?_, fun name hname ↦ ?_, fun name ↦ ?_⟩
  · rw [hhandlers] at hother
    rcases List.mem_or_eq_of_mem_set hother with hold | rfl
    · exact hserver.threads other hold
    · refine ⟨hcurrent'.trans hcurrent, fun hstage ↦ ?_⟩
      have hread : record.before.exchange.sessionInvites.read handler.wanted = handler.current := by
        grind
      rw [hwanted']
      by_contra hne
      rw [hserver.invites _ hne, hcurrent] at hread
      exact sharedName_ne_nil hread.symm
  · have hread := hserver.invites name hname
    rcases hcases with ⟨-, -, -, hinvites, -⟩ | ⟨-, -, hexchange, -⟩ | ⟨-, -, -, hinvites, -⟩ |
      ⟨-, -, hinvites, -⟩ | ⟨-, -, hinvites, -⟩ | ⟨-, -, -, hinvites, -⟩
    · rw [hinvites, SubscriptMap.read_assign_of_ne _ _ (by rwa [hcurrent]), hread]
    · rw [hexchange, hread]
    all_goals simp [hinvites, hread]
  · rw [addressesOf_sessionStep hsession]
    exact hserver.addresses name

/-- Every step of this kind keeps the server to the shared name. -/
theorem SharedServer.step (hserver : SharedServer record.before) (hshared : SharedStep record) :
    SharedServer record.after := by
  cases hshared.session with
  | other _ _ _ _ _ hhandlers hexchange =>
    exact ⟨by rw [hhandlers]; exact hserver.threads, by rw [hexchange]; exact hserver.invites,
      by rw [hexchange]; exact hserver.addresses⟩
  | login name issued clientAddr _ _ _ _ _ hhandlers hexchange =>
    refine ⟨by rw [hhandlers]; exact hserver.threads, by rw [hexchange]; exact hserver.invites, ?_⟩
    intro other
    rw [hexchange]
    by_cases hother : other = name
    · simp [addressesOf, addClientAddress, hother]
    · simpa [addressesOf, addClientAddress, SubscriptMap.read_assign_of_ne _ _ hother]
        using hserver.addresses other
  | request token target _ hrequest _ _ _ hhandlers hexchange =>
    refine ⟨fun handler hhandler ↦ ?_, by rw [hexchange]; exact hserver.invites,
      by rw [hexchange]; exact hserver.addresses⟩
    rw [hhandlers, List.mem_append, List.mem_singleton] at hhandler
    rcases hhandler with hold | rfl
    · exact hserver.threads handler hold
    · exact ⟨SubscriptMap.read_of_some (hshared.request token target hrequest), by simp⟩
  | thread index handler handler' _ _ _ _ hhandler hhandlers hsession =>
    exact hserver.thread hhandler hhandlers hsession

/-- Details tell the address they are sent to. -/
def TellsOwnAddress (details : Details) : Prop :=
  details.recipient = sharedName ∧ details.peer = sharedName ∧
    ∃ role, details.payload = infoText details.destination role

/-- The details a step sends, if any, tell the client that gets them its own address. -/
theorem SharedServer.details (hserver : SharedServer record.before) (hsession : SessionStep record)
    {details : Details} (hdetails : details ∈ record.observation.details) :
    TellsOwnAddress details := by
  cases hsession with
  | other _ _ _ hnone _ _ _ | login _ _ _ _ _ _ hnone _ _ _ | request _ _ _ _ _ hnone _ _ _ =>
    simp [hnone] at hdetails
  | thread index handler handler' _ _ _ _ hhandler hhandlers hsession =>
    obtain ⟨hcurrent, hready⟩ := hserver.threads handler (List.mem_of_getElem? hhandler)
    obtain ⟨-, -, hcases⟩ := sessionStep_cases hsession
    rcases hcases with ⟨-, -, hnone, -⟩ | ⟨-, hnone, -⟩ | ⟨-, -, hnone, -⟩ | ⟨-, hnone, -⟩ |
      ⟨-, hnone, -⟩ | ⟨hstage, -, hsent, -⟩
    case inr.inr.inr.inr.inr =>
      have haddress : record.before.exchange.clientAddresses.read sharedName =
          record.before.exchange.clientMap.read sharedName := hserver.addresses sharedName
      rw [hsent, hcurrent, hready hstage, detailsSent, List.mem_pair] at hdetails
      rcases hdetails with rfl | rfl
      · exact ⟨rfl, rfl, "H", by rw [haddress]⟩
      · exact ⟨rfl, rfl, "C", by rw [haddress]⟩
    all_goals simp [hnone] at hdetails

end Server

/-- What every state of a run satisfies: the server keeps to the shared name, and the clients past
their login, the invites on their way and the logins that are accepted but not read yet have tokens
of it. -/
structure SharedInvariant (system : NovaSystem) : Prop where
  server : SharedServer system.server
  inside : ∀ address, (system.desks address).window.content.needsLogin = true →
    Resolves system.server (system.desks address).window.sessionToken
  way : ∀ entry ∈ system.inFlight, entry.2 = greeting ∨
    ∃ request : ClientRequest, entry.2 = request.datagram ∧ FromPage system.server request
  admitted : ∀ address request data rest,
    (system.desks address).window.waiting = some request → request.kind = .login →
      (system.desks address).inbox = data :: rest →
        pageDone .login (utf8GetString data) = some .logsIn →
          Resolves system.server ((utf8GetString data).drop 2)

section System

variable {classes : CharClasses} {endsWith : Text → Text → Bool} {history : List SystemRecord}
  {system next : NovaSystem} {output : SystemOutput}

/-- A request that the pages send stays one. -/
theorem FromPage.step {record : ServerRecord} (hshared : SharedStep record)
    {request : ClientRequest} (hfrom : FromPage record.before request) :
    FromPage record.after request := by
  cases request with
  | sendInvite token username => exact Resolves.step hshared hfrom
  | sendLogin username password => exact hfrom
  | sendSignup | checkEmail | checkCode | sendNewPassword => trivial

/-- The page an invite is sent from is one past the login, and that of a login is not. -/
theorem page_of_kind (request : ClientRequest) :
    (request.kind = .login → request.page.needsLogin = false) ∧
      (request.page.needsLogin = true → request.kind = .session) := by
  cases request <;> simp [ClientRequest.kind, ClientRequest.page, Page.needsLogin]

/-- A client that waits for the answer to a login is in step with the server. -/
theorem SystemInvariant.inStep_of_login (hsystem : SystemInvariant classes history system)
    {address : SockAddr} {request : ClientRequest}
    (hwaiting : (system.desks address).window.waiting = some request)
    (hlogin : request.kind = .login) : InStep system address (clientLog history address) := by
  obtain ⟨conversation, hconversation⟩ := hsystem.windows address
  refine hsystem.inStep address ?_
  rw [needsLogin_of_waiting hconversation hwaiting]
  exact (page_of_kind request).1 hlogin

/-- A step of a client that changes nothing but its socket keeps to the shared name. -/
theorem SharedInvariant.socket (hinvariant : SharedInvariant system)
    (hsystem : SystemInvariant classes history system) {address : SockAddr} {desk : Desk}
    {data : List Datagram} (hwindow : desk.window = (system.desks address).window)
    (hinbox : desk.inbox = (system.desks address).inbox ∨
      (system.desks address).window.content.needsLogin = true)
    (hdata : ∀ datagram ∈ data, datagram = greeting) :
    SharedInvariant ((system.setDesk address desk).send address data) := by
  refine ⟨hinvariant.server, fun other hneeds ↦ ?_, fun entry hentry ↦ ?_,
    fun other request first rest hwaiting hlogin hfirst hlogsIn ↦ ?_⟩
  · rw [desks_send] at hneeds ⊢
    by_cases hother : other = address
    · subst hother
      rw [desks_setDesk_self, hwindow] at hneeds ⊢
      exact hinvariant.inside other hneeds
    · rw [desks_setDesk_of_ne _ _ hother] at hneeds ⊢
      exact hinvariant.inside other hneeds
  · rcases List.mem_append.mp hentry with hold | hnew
    · exact hinvariant.way entry hold
    · obtain ⟨datagram, hdatagram, rfl⟩ := List.mem_map.mp hnew
      exact .inl (hdata datagram hdatagram)
  · rw [desks_send] at hwaiting hfirst
    by_cases hother : other = address
    · subst hother
      rw [desks_setDesk_self] at hwaiting hfirst
      rw [hwindow] at hwaiting
      rcases hinbox with hsame | hneeds
      · exact hinvariant.admitted other request first rest hwaiting hlogin (hsame ▸ hfirst)
          hlogsIn
      · obtain ⟨conversation, hconversation⟩ := hsystem.windows other
        rw [needsLogin_of_waiting hconversation hwaiting, (page_of_kind request).1 hlogin]
          at hneeds
        cases hneeds
    · rw [desks_setDesk_of_ne _ _ hother] at hwaiting hfirst
      exact hinvariant.admitted other request first rest hwaiting hlogin hfirst hlogsIn

/-- The inbox of a client past its login may change. -/
theorem SharedInvariant.inbox (hinvariant : SharedInvariant system)
    (hsystem : SystemInvariant classes history system) {address : SockAddr} {inbox : List Datagram}
    (hneeds : (system.desks address).window.content.needsLogin = true) :
    SharedInvariant (system.setDesk address { system.desks address with inbox }) := by
  have hsocket : SharedInvariant
      ((system.setDesk address { system.desks address with inbox }).send address []) :=
    hinvariant.socket hsystem rfl (.inr hneeds) (by simp)
  simpa [NovaSystem.send] using hsocket

/-- A press keeps the token. -/
theorem sessionToken_of_pressStep {window window' : Window} {button : Press}
    {shown : WindowOutput} (hpress : PressStep classes window button window' shown) :
    window'.sessionToken = window.sessionToken := by
  cases hpress <;> rfl

/-- A press sends requests of this kind only. -/
theorem SharedInvariant.press (hinvariant : SharedInvariant system)
    (hsystem : SystemInvariant classes history system) {address : SockAddr} {button : Press}
    (hstep : system.step classes endsWith (.press address button) = some (next, output)) :
    SharedInvariant next := by
  simp only [NovaSystem.step, Option.bind_eq_bind, Option.bind_eq_some_iff] at hstep
  obtain ⟨⟨window, shown⟩, hbutton, hstep⟩ := hstep
  split_ifs at hstep
  cases hstep
  obtain ⟨hidle, hpress⟩ := pressStep_of_press hbutton
  refine ⟨hinvariant.server, fun other hneeds ↦ ?_, fun entry hentry ↦ ?_,
    fun other request first rest hwaiting hlogin hfirst hlogsIn ↦ ?_⟩
  · rw [desks_send, NovaSystem.setWindow] at hneeds ⊢
    by_cases hother : other = address
    · subst hother
      rw [desks_setDesk_self] at hneeds ⊢
      have hbefore := (needsLogin_of_pressStep hpress).symm.trans hneeds
      have hresolves := hinvariant.inside other hbefore
      rw [← sessionToken_of_pressStep hpress] at hresolves
      exact hresolves
    · rw [desks_setDesk_of_ne _ _ hother] at hneeds ⊢
      exact hinvariant.inside other hneeds
  · rcases List.mem_append.mp hentry with hold | hnew
    · exact hinvariant.way entry hold
    · obtain ⟨datagram, hdatagram, rfl⟩ := List.mem_map.mp hnew
      obtain ⟨request, hrequest, rfl⟩ := List.mem_map.mp hdatagram
      refine .inr ⟨request, rfl, ?_⟩
      have hpressed : (system.desks address).window.step classes endsWith (.press button) =
          some (window, shown) := hbutton
      have hasks : Asks classes (system.desks address).window request :=
        asks_of_sent hpressed (by simpa using hrequest)
      cases hasks with
      | login hpage => exact ⟨rfl, rfl⟩
      | invite hpage hname =>
        refine hinvariant.inside address ?_
        rw [hpage]
        rfl
      | signup | email | code | newPassword => trivial
  · rw [desks_send, NovaSystem.setWindow] at hwaiting hfirst
    by_cases hother : other = address
    · subst hother
      rw [desks_setDesk_self] at hwaiting hfirst
      cases hpress with
      | stays | opens | project | file =>
        rw [show (system.desks other).window.waiting = some request from hwaiting] at hidle
        cases hidle
      | sends asked hasks =>
        -- a client that has just sent its login has nothing to read
        obtain rfl : asked = request := Option.some.inj hwaiting
        have hfront : (system.desks other).window.content.needsLogin = false := by
          rw [hasks.page]
          exact (page_of_kind asked).1 hlogin
        cases hsystem.inStep other hfront with
        | idle _ _ hempty =>
          rw [show (system.desks other).inbox = first :: rest from hfirst] at hempty
          cases hempty
        | sent _ _ _ hasked | replied _ _ _ hasked =>
          rw [hidle] at hasked
          cases hasked
    · rw [desks_setDesk_of_ne _ _ hother] at hwaiting hfirst
      exact hinvariant.admitted other request first rest hwaiting hlogin hfirst hlogsIn

/-! ### What the server receives -/

/-- The server reads the first field of a request when it consists of the characters it keeps,
whatever the other fields are. -/
theorem head_getDetails {request : ClientRequest} {userInfo : Bytes} {first : Text}
    {others : List Text} (hreceived : acceptClient request.datagram = some userInfo)
    (hfields : request.fields = first :: others) (hfirst : ∀ char ∈ first, isServerChar char) :
    (getDetails userInfo)[0]? = some (utf8GetBytes first) := by
  have hkept := kept_of_serverChars hfirst
  have hnonzero : ∀ byte ∈ utf8GetBytes first, byte ≠ 0 := by
    rintro byte hbyte rfl
    exact absurd (hkept 0 hbyte) (by decide)
  rw [eq_of_acceptClient hreceived, hfields, List.map_cons, List.flatMap_cons, List.cons_append,
    List.takeWhile_cons_of_pos (by decide), getDetails, List.drop_succ_cons, List.drop_succ_cons,
    List.drop_zero, List.takeWhile_append_of_pos (by simpa using hnonzero), detailsLoop_kept hkept]
  cases others with
  | nil => rfl
  | cons second others =>
    rw [List.map_cons, List.flatMap_cons, List.cons_append,
      List.takeWhile_cons_of_pos (by decide), detailsLoop, if_pos rfl]
    exact head_detailsLoop _ _ [] []

/-- What is on the way to the server only logs in the shared name, and only brings invites from
it. -/
theorem SharedInvariant.received (hinvariant : SharedInvariant system) {index : ℕ}
    {sender : SockAddr} {data : Datagram} {userInfo : Bytes}
    (hentry : system.inFlight[index]? = some (sender, data))
    (hreceived : acceptClient data = some userInfo) {first : Bytes}
    (hfirst : (getDetails userInfo)[0]? = some first) :
    (requestKind userInfo = some .login → first = sharedName) ∧
      (requestKind userInfo = some .session →
        system.server.accounts.usersList first = some sharedName) := by
  rcases hinvariant.way (sender, data) (List.mem_of_getElem? hentry) with hgreeting | hrequest
  · have hgreeting : data = greeting := hgreeting
    rw [hgreeting] at hreceived
    simp [requestKind_greeting hreceived]
  · obtain ⟨request, hdata, hfrom⟩ := hrequest
    have hdata : data = request.datagram := hdata
    rw [hdata] at hreceived
    rw [requestKind_of_acceptClient hreceived]
    cases request with
    | sendLogin username password =>
      obtain ⟨rfl, -⟩ := hfrom
      have hchars : (str "Hammer").all isServerChar = true := by decide
      have hhead := head_getDetails hreceived rfl (List.all_eq_true.mp hchars)
      obtain rfl : utf8GetBytes (str "Hammer") = first := Option.some.inj (hhead.symm.trans hfirst)
      have hname : utf8GetBytes (str "Hammer") = sharedName := by decide +kernel
      simp [ClientRequest.kind, hname]
    | sendInvite token username =>
      obtain ⟨bytes, hbytes, rfl, htoken⟩ := hfrom
      obtain ⟨hchars, hsame⟩ := serverChars_token hbytes
      have hhead := head_getDetails hreceived rfl hchars
      rw [hsame] at hhead
      obtain rfl : bytes = first := Option.some.inj (hhead.symm.trans hfirst)
      simp [ClientRequest.kind, htoken]
    | sendSignup | checkEmail | checkCode | sendNewPassword => simp [ClientRequest.kind]

/-- What the server receives only logs in the shared name and brings invites from it. -/
theorem SharedInvariant.sharedStep_receive (hinvariant : SharedInvariant system) {index : ℕ}
    {sender : SockAddr} {data : Datagram} {userInfo : Bytes} {environment : Environment}
    {server : ServerState} {observation : Observation}
    (hentry : system.inFlight[index]? = some (sender, data))
    (hreceived : acceptClient data = some userInfo)
    (hserver : Server.step system.server (.receive userInfo sender environment) =
      some (server, observation)) :
    SharedStep ⟨system.server, .receive userInfo sender environment, observation, server⟩ := by
  refine ⟨sessionStep_of_step hserver, fun name token hissued ↦ ?_,
    fun token target hrequest ↦ ?_⟩
  · simp only [issuedToken] at hissued
    split at hissued
    · next hevent _ =>
      cases hevent
      split_ifs at hissued with hlogin
      obtain ⟨first, hfirst, hpair⟩ := Option.map_eq_some_iff.mp hissued
      cases hpair
      exact (hinvariant.received hentry hreceived hfirst).1 hlogin.1
    · cases hissued
  · simp only [sessionRequest] at hrequest
    split_ifs at hrequest with hsession
    simp only [Option.bind_eq_bind, Option.bind_eq_some_iff, Option.pure_def, Option.some.injEq,
      Prod.mk.injEq] at hrequest
    obtain ⟨first, hfirst, second, -, rfl, rfl⟩ := hrequest
    exact (hinvariant.received hentry hreceived hfirst).2 hsession

/-- The token in the answer to an accepted login, as `Login.done` takes it. -/
theorem drop_responseText {token : Bytes} (htoken : ∀ byte ∈ token, isTokenChar byte) :
    (utf8GetString (responseText [Server.infoCorrect, token])).drop 2 =
      token.map UInt8.toUInt16 := by
  have htaken := loginToken_reply htoken
  rw [responseText_login]
  unfold loginToken at htaken
  split at htaken
  · cases htaken
  · split_ifs at htaken
    exact Option.some.inj htaken

/-- A step of the server keeps the invites that are on their way and the tokens of the clients; it
is enough to look at the accepted logins of the clients that wait for one. -/
theorem SharedInvariant.serve (hinvariant : SharedInvariant system) {event : Event}
    {server : ServerState} {observation : Observation} {inFlight : List (SockAddr × Datagram)}
    (hshared : SharedStep ⟨system.server, event, observation, server⟩)
    (hflight : ∀ entry ∈ inFlight, entry ∈ system.inFlight)
    (hadmitted : ∀ address request data rest,
      (system.desks address).window.waiting = some request → request.kind = .login →
        (system.desks address).inbox = [] →
          arriving (datagramsOf observation) address = data :: rest →
            pageDone .login (utf8GetString data) = some .logsIn →
              Resolves server ((utf8GetString data).drop 2)) :
    SharedInvariant ({ system with inFlight }.serve server observation) := by
  refine ⟨hinvariant.server.step hshared, fun address hneeds ↦ ?_, fun entry hentry ↦ ?_,
    fun address request data rest hwaiting hlogin hfirst hlogsIn ↦ ?_⟩
  · exact (hinvariant.inside address hneeds).step hshared
  · rcases hinvariant.way entry (hflight entry hentry) with hgreeting | hrequest
    · exact .inl hgreeting
    · obtain ⟨request, hdatagram, hfrom⟩ := hrequest
      exact .inr ⟨request, hdatagram, hfrom.step hshared⟩
  · have hwaiting : (system.desks address).window.waiting = some request := hwaiting
    have hfirst : (system.desks address).inbox ++ arriving (datagramsOf observation) address =
        data :: rest := hfirst
    cases hinbox : (system.desks address).inbox with
    | nil =>
      rw [hinbox, List.nil_append] at hfirst
      exact hadmitted address request data rest hwaiting hlogin hinbox hfirst hlogsIn
    | cons old others =>
      rw [hinbox, List.cons_append, List.cons.injEq] at hfirst
      obtain ⟨rfl, -⟩ := hfirst
      exact (hinvariant.admitted address request old others hwaiting hlogin hinbox hlogsIn).step
        hshared

/-- The client that waits for the answer to its login and has nothing to read yet is unknown to the
server, and the login is all that is on the way from it. -/
theorem SystemInvariant.login_sent (hsystem : SystemInvariant classes history system)
    {address : SockAddr} {request : ClientRequest}
    (hwaiting : (system.desks address).window.waiting = some request)
    (hlogin : request.kind = .login) (hinbox : (system.desks address).inbox = []) :
    system.onTheWay address = [request.datagram] ∧ ¬ system.Knows address := by
  cases hsystem.inStep_of_login hwaiting hlogin with
  | idle hidle =>
    rw [hwaiting] at hidle
    cases hidle
  | sent asked _ _ hasked hway _ hunknown =>
    obtain rfl : request = asked := Option.some.inj (hwaiting.symm.trans hasked)
    exact ⟨hway, hunknown⟩
  | replied _ _ _ _ _ hfirst =>
    rw [hinbox] at hfirst
    cases hfirst

/-- What the server receives keeps to the shared name. -/
theorem SharedInvariant.receive (hinvariant : SharedInvariant system)
    (hsystem : SystemInvariant classes history system) {index : ℕ} {environment : Environment}
    (htokens : ∀ byte ∈ environment.sessionToken, isTokenChar byte)
    (hstep : system.step classes endsWith (.receive index environment) = some (next, output)) :
    SharedInvariant next := by
  simp only [NovaSystem.step, Option.bind_eq_bind, Option.bind_eq_some_iff, Option.pure_def,
    Option.some.injEq] at hstep
  obtain ⟨⟨sender, data⟩, hentry, userInfo, hreceived, ⟨server, observation⟩, hserver, hpair⟩ :=
    hstep
  cases hpair
  refine hinvariant.serve (hinvariant.sharedStep_receive hentry hreceived hserver)
    (fun entry ↦ List.mem_of_mem_eraseIdx) ?_
  intro address request first rest hwaiting hlogin hinbox harriving hlogsIn
  obtain ⟨hport, sent, hsent, haddress⟩ :=
    exists_of_arriving (harriving ▸ List.cons_ne_nil first rest)
  cases received_of_step hserver with
  | silent _ hnone => simp [hnone] at hsent
  | replied kind payload hkind _ hpayload hrefused _ =>
    -- the reply goes to a client that waits for its login, so it is the reply to that login
    rw [hpayload, List.mem_singleton] at hsent
    obtain rfl : sender = address := by rw [← haddress, hsent]
    rw [hpayload, arriving_singleton, if_pos ⟨hport, rfl⟩, List.cons.injEq] at harriving
    obtain ⟨rfl, -⟩ := harriving
    have hdata : data ≠ greeting := by
      rintro rfl
      rw [requestKind_greeting hreceived] at hkind
      cases hkind
    have hway : data ∈ system.onTheWay sender := by
      refine List.mem_map.mpr ⟨(sender, data), ?_, rfl⟩
      simpa [hdata] using List.mem_of_getElem? hentry
    rw [(hsystem.login_sent hwaiting hlogin hinbox).1, List.mem_singleton] at hway
    rw [hway] at hreceived
    rw [requestKind_of_acceptClient hreceived, hlogin] at hkind
    exact absurd hlogsIn (hrefused (Option.some.inj hkind).symm)
  | admitted name hkind hname hpayload hassigned _ =>
    rw [hpayload, List.mem_singleton] at hsent
    obtain rfl : sender = address := by rw [← haddress, hsent]
    rw [hpayload, arriving_singleton, if_pos ⟨hport, rfl⟩, List.cons.injEq] at harriving
    obtain ⟨rfl, -⟩ := harriving
    refine ⟨environment.sessionToken, htokens, drop_responseText htokens, ?_⟩
    rw [hassigned, SubscriptMap.assign_self, (hinvariant.received hentry hreceived hname).1 hkind]

/-- A session thread of the server keeps to the shared name. -/
theorem SharedInvariant.thread (hinvariant : SharedInvariant system)
    (hsystem : SystemInvariant classes history system) {index : ℕ}
    (hstep : system.step classes endsWith (.thread index) = some (next, output)) :
    SharedInvariant next := by
  simp only [NovaSystem.step, Option.bind_eq_bind, Option.bind_eq_some_iff, Option.pure_def,
    Option.some.injEq] at hstep
  obtain ⟨⟨server, observation⟩, hserver, hpair⟩ := hstep
  cases hpair
  have hshared : SharedStep ⟨system.server, .thread index, observation, server⟩ :=
    ⟨sessionStep_of_step hserver, by simp [issuedToken], by simp [sessionRequest]⟩
  refine hinvariant.serve hshared (fun _ hentry ↦ hentry) ?_
  intro address request first rest hwaiting hlogin hinbox harriving _
  -- the server does not know this client, so that nothing arrives
  obtain ⟨hport, sent, hsent, haddress⟩ :=
    exists_of_arriving (harriving ▸ List.cons_ne_nil first rest)
  obtain ⟨name, hname⟩ := (Protocol.thread_of_step hserver).2 sent hsent
  exact absurd ⟨hport, name, hname.trans haddress⟩
    (hsystem.login_sent hwaiting hlogin hinbox).2

/-! ### What a client reads -/

/-- A window that is past the login after an answer was so before it, with the same token, or was
admitted by the answer and takes its token from it. -/
theorem sessionToken_of_answer {window window' : Window} {request : ClientRequest} {message : Text}
    {shown : WindowOutput} {conversation : Conversation}
    (hconversation : InConversation classes conversation window)
    (hwaiting : window.waiting = some request)
    (hanswer : window.answer message = some (window', shown))
    (hneeds : window'.content.needsLogin = true) :
    window.content.needsLogin = true ∧ window'.sessionToken = window.sessionToken ∨
      request.kind = .login ∧ pageDone .login message = some .logsIn ∧
        window'.sessionToken = message.drop 2 := by
  obtain ⟨asked, accepted, hasked, -, hstep⟩ := answerStep_of_answer hanswer
  obtain rfl : request = asked := Option.some.inj (hwaiting.symm.trans hasked)
  have hpage := needsLogin_of_waiting hconversation hwaiting
  cases hstep with
  | stays => exact .inl ⟨hneeds, rfl⟩
  | signup | email | newPassword => simp [Window.signedUp, Window.mailed, Page.needsLogin] at hneeds
  | code hrequest hverified =>
    unfold Window.verified at hverified
    split_ifs at hverified <;> cases hverified
    · simp [Page.needsLogin] at hneeds
    · simp [Page.needsLogin] at hneeds
    · exact .inl ⟨hneeds, rfl⟩
  | invite hrequest =>
    rw [hpage, hrequest]
    exact .inl ⟨rfl, rfl⟩
  | login hrequest =>
    have hkind : request.kind = .login := by rw [hrequest]; rfl
    refine .inr ⟨hkind, ?_, rfl⟩
    simp only [Window.answer, hwaiting, hkind, Option.bind_eq_bind, Option.bind_some,
      Option.bind_eq_some_iff] at hanswer
    obtain ⟨branch, hbranch, hfollow⟩ := hanswer
    rcases pageDone_cases hbranch with hrejects | ⟨-, rfl⟩ | ⟨hother, -⟩ | ⟨hother, -⟩ |
      ⟨hother, -⟩ | ⟨hother, -⟩ | ⟨hother, -⟩
    · -- an answer that is not accepted leaves the window on the login page
      have hstays : (window.content = .menu) := by
        cases branch <;> simp only [Branch.accepts, reduceCtorEq] at hrejects
        all_goals
          simp only [Window.follow, Window.shows, Option.some.injEq, Prod.mk.injEq] at hfollow
          exact congrArg Window.content hfollow.1
      rw [hstays, hrequest] at hpage
      simp [ClientRequest.page, Page.needsLogin] at hpage
    · exact hbranch
    all_goals cases hother

/-- A client that reads an answer keeps to the shared name. -/
theorem SharedInvariant.answer (hinvariant : SharedInvariant system)
    (hsystem : SystemInvariant classes history system) {address : SockAddr}
    (hstep : system.step classes endsWith (.answer address) = some (next, output)) :
    SharedInvariant next := by
  simp only [NovaSystem.step] at hstep
  split at hstep
  · cases hstep
  next data rest hinbox =>
  simp only [Option.bind_eq_bind, Option.bind_eq_some_iff, Option.pure_def, Option.some.injEq]
    at hstep
  obtain ⟨⟨window, shown⟩, hanswer, hpair⟩ := hstep
  cases hpair
  obtain ⟨request, accepted, hwaiting, -, hanswerStep⟩ := answerStep_of_answer hanswer
  obtain ⟨conversation, hconversation⟩ := hsystem.windows address
  refine ⟨hinvariant.server, fun other hneeds ↦ ?_, hinvariant.way,
    fun other asked first others hasked hlogin hfirst hlogsIn ↦ ?_⟩
  · by_cases hother : other = address
    · subst hother
      rw [desks_setDesk_self] at hneeds ⊢
      rcases sessionToken_of_answer hconversation hwaiting hanswer hneeds with
        ⟨hbefore, hsame⟩ | ⟨hlogin, hlogsIn, htaken⟩
      · have hresolves := hinvariant.inside other hbefore
        rw [← hsame] at hresolves
        exact hresolves
      · have hresolves := hinvariant.admitted other request data rest hwaiting hlogin hinbox hlogsIn
        rw [← htaken] at hresolves
        exact hresolves
    · rw [desks_setDesk_of_ne _ _ hother] at hneeds ⊢
      exact hinvariant.inside other hneeds
  · by_cases hother : other = address
    · subst hother
      rw [desks_setDesk_self, waiting_of_answerStep hanswerStep] at hasked
      cases hasked
    · rw [desks_setDesk_of_ne _ _ hother] at hasked hfirst
      exact hinvariant.admitted other asked first others hasked hlogin hfirst hlogsIn

/-! ### Steps -/

/-- What the server does in a step of the system. -/
theorem SharedInvariant.served (hinvariant : SharedInvariant system) {event : SystemEvent}
    (hstep : system.step classes endsWith event = some (next, output)) {request : Event}
    {observation : Observation} (hserved : output.served = some (request, observation)) :
    SharedStep ⟨system.server, request, observation, next.server⟩ := by
  cases event with
  | receive index environment =>
    simp only [NovaSystem.step, Option.bind_eq_bind, Option.bind_eq_some_iff, Option.pure_def,
      Option.some.injEq] at hstep
    obtain ⟨⟨sender, data⟩, hentry, userInfo, hreceived, ⟨server, observation⟩, hserver, hpair⟩ :=
      hstep
    cases hpair
    cases hserved
    exact hinvariant.sharedStep_receive hentry hreceived hserver
  | thread index =>
    simp only [NovaSystem.step, Option.bind_eq_bind, Option.bind_eq_some_iff, Option.pure_def,
      Option.some.injEq] at hstep
    obtain ⟨⟨server, observation⟩, hserver, hpair⟩ := hstep
    cases hpair
    cases hserved
    exact ⟨sessionStep_of_step hserver, by simp [issuedToken], by simp [sessionRequest]⟩
  | startFlow | peer =>
    simp only [NovaSystem.step] at hstep
    split_ifs at hstep
    cases hstep
    cases hserved
  | press =>
    simp only [NovaSystem.step, Option.bind_eq_bind, Option.bind_eq_some_iff] at hstep
    obtain ⟨_, -, hstep⟩ := hstep
    split_ifs at hstep
    cases hstep
    cases hserved
  | answer =>
    simp only [NovaSystem.step] at hstep
    split at hstep
    · cases hstep
    · simp only [Option.bind_eq_bind, Option.bind_eq_some_iff, Option.pure_def,
        Option.some.injEq] at hstep
      obtain ⟨_, -, hpair⟩ := hstep
      cases hpair
      cases hserved
  | listen =>
    simp only [NovaSystem.step] at hstep
    split at hstep
    · cases hstep
    · split_ifs at hstep
      cases hstep
      cases hserved

/-- A step of this kind of the system keeps to the shared name. -/
theorem SharedInvariant.step (hinvariant : SharedInvariant system)
    (hsystem : SystemInvariant classes history system) {event : SystemEvent}
    (htokens : TokensOverCharset ⟨system, event, output, next⟩)
    (hstep : system.step classes endsWith event = some (next, output)) :
    SharedInvariant next := by
  cases event with
  | startFlow address =>
    simp only [NovaSystem.step] at hstep
    split_ifs at hstep
    cases hstep
    exact hinvariant.socket hsystem rfl (.inl rfl) (by simp)
  | press address button => exact hinvariant.press hsystem hstep
  | receive index environment =>
    exact hinvariant.receive hsystem (List.all_eq_true.mp htokens) hstep
  | thread index => exact hinvariant.thread hsystem hstep
  | answer address => exact hinvariant.answer hsystem hstep
  | peer address data =>
    simp only [NovaSystem.step] at hstep
    split_ifs at hstep with hneeds
    cases hstep
    exact hinvariant.inbox hsystem hneeds
  | listen address =>
    simp only [NovaSystem.step] at hstep
    split at hstep
    · cases hstep
    · split_ifs at hstep with hlistening
      cases hstep
      exact hinvariant.inbox hsystem (hsystem.listeners address hlistening)

end System

/-! ### Whole runs -/

section Runs

variable {classes : CharClasses} {endsWith : Text → Text → Bool} {users : List Row}
  {pathUi : Text} {history : List SystemRecord} {system : NovaSystem}

theorem sharedInvariant_start (users : List Row) (pathUi : Text) :
    SharedInvariant (.start users pathUi) := by
  refine ⟨⟨?_, fun _ _ ↦ rfl, fun _ ↦ rfl⟩, fun _ hneeds ↦ absurd hneeds Bool.false_ne_true, ?_,
    fun _ _ _ _ hwaiting ↦ ?_⟩
  · intro handler hhandler
    cases hhandler
  · intro entry hentry
    cases hentry
  · cases hwaiting

theorem sharedInvariant_of_run (hrun : SystemRun classes endsWith users pathUi history system)
    (htokens : EveryStep (fun _ ↦ TokensOverCharset) history) : SharedInvariant system :=
  hrun.relation_of_everyStep (fun _ ↦ SharedInvariant) (sharedInvariant_start users pathUi)
    (fun _ _ _ _ _ hrun hshared htokens hstep ↦
      hshared.step (systemInvariant_of_run hrun) htokens hstep) htokens

/-- The server resolves the invite it handles in a step, if any, to the shared name. -/
def InvitesShared (record : SystemRecord) : Prop :=
  ∀ served ∈ record.observation.served, ∀ token target,
    sessionRequest served.1 = some (token, target) →
      record.before.server.accounts.usersList token = some sharedName

/-- In every run in which the tokens are over the charset, with any number of clients, every client
that is past its login holds a token of the shared name, and every invite the server handles comes
from it. -/
theorem tokens_shared (hrun : SystemRun classes endsWith users pathUi history system)
    (htokens : EveryStep (fun _ ↦ TokensOverCharset) history) :
    (∀ address, (system.desks address).window.content.needsLogin = true →
      Resolves system.server (system.desks address).window.sessionToken) ∧
      EveryStep (fun _ ↦ InvitesShared) history := by
  refine ⟨(sharedInvariant_of_run hrun htokens).inside, ?_⟩
  refine hrun.everyStep_of_everyStep ?_ htokens
  intro earlier record hrun htokens _ hstep served hserved token target hrequest
  obtain ⟨event, observation⟩ := served
  exact ((sharedInvariant_of_run hrun htokens).served hstep hserved).request token target hrequest

/-- The row of the shared account. -/
def hammerRow : Row := ⟨sharedName, ascii "Hammer1234", ascii "h@x.y"⟩

/-- A client logs in. -/
theorem tokens_shared_login : ∃ history system,
    SystemRun asciiClasses (fun _ _ ↦ true) [hammerRow] [] history system ∧
      (system.desks (clientAt 1)).window.content = .menu ∧
      Resolves system.server (system.desks (clientAt 1)).window.sessionToken ∧
      EveryStep (fun _ ↦ InvitesShared) history := by
  obtain ⟨history, system, hrun, -, hcheck⟩ := exists_run_of_execute
    (fun system ↦ NovaSystem.step system asciiClasses fun _ _ ↦ true)
    (.start [hammerRow] [])
    [.startFlow (clientAt 1), .press (clientAt 1) .login,
      .press (clientAt 1) (.loginDone (str "a") (str "b")), .receive 1 calmEnvironment,
      .answer (clientAt 1)]
    (fun history system ↦ (system.desks (clientAt 1)).window.content = .menu &&
      EveryStep (fun _ ↦ TokensOverCharset) history) (by decide +kernel)
  simp only [Bool.and_eq_true, decide_eq_true_eq] at hcheck
  obtain ⟨hmenu, htokens⟩ := hcheck
  obtain ⟨hinside, hinvites⟩ := tokens_shared hrun htokens
  exact ⟨history, system, hrun, hmenu, hinside (clientAt 1) (by rw [hmenu]; rfl), hinvites⟩

/-- The details sent in a step, if any, tell the client that gets them its own address. -/
def DetailsOwnAddress (record : SystemRecord) : Prop :=
  ∀ served ∈ record.observation.served, ∀ details ∈ served.2.details, TellsOwnAddress details

/-- In every such run, whoever invites whomever, all details the server ever sends go to the shared
name and tell a client its own address: no client learns the address of another one. A datagram is
handled in one step there, details are sent to both sides in one, and no answer is lost. -/
theorem details_own_address (hrun : SystemRun classes endsWith users pathUi history system)
    (htokens : EveryStep (fun _ ↦ TokensOverCharset) history) :
    EveryStep (fun _ ↦ DetailsOwnAddress) history := by
  refine hrun.everyStep_of_everyStep ?_ htokens
  intro earlier record hrun htokens _ hstep served hserved details hdetails
  obtain ⟨event, observation⟩ := served
  have hshared := sharedInvariant_of_run hrun htokens
  exact hshared.server.details (hshared.served hstep hserved).session hdetails

/-- A client logs in and invites the shared name, and is told its own address twice. -/
theorem details_own_address_session : ∃ history system,
    SystemRun asciiClasses (fun _ _ ↦ true) [hammerRow] [] history system ∧
      (system.desks (clientAt 1)).inbox =
        [ascii "127.0.0.1:1:H", ascii "127.0.0.1:1:C"] ∧
      EveryStep (fun _ ↦ DetailsOwnAddress) history := by
  obtain ⟨history, system, hrun, -, hcheck⟩ := exists_run_of_execute
    (fun system ↦ NovaSystem.step system asciiClasses fun _ _ ↦ true)
    (.start [hammerRow] [])
    [.startFlow (clientAt 1), .press (clientAt 1) .login,
      .press (clientAt 1) (.loginDone (str "a") (str "b")), .receive 1 calmEnvironment,
      .answer (clientAt 1), .press (clientAt 1) .newProject, .press (clientAt 1) .cpp,
      .press (clientAt 1) (.selectDirectory (str "d")),
      .press (clientAt 1) (.projectDone (str "p")), .press (clientAt 1) .startSession,
      .press (clientAt 1) (.sessionDone (str "Hammer")), .receive 1 calmEnvironment, .thread 0,
      .thread 0, .thread 0, .thread 0, .thread 0, .thread 0]
    (fun history system ↦ (system.desks (clientAt 1)).inbox =
        [ascii "127.0.0.1:1:H", ascii "127.0.0.1:1:C"] &&
      EveryStep (fun _ ↦ TokensOverCharset) history) (by decide +kernel)
  simp only [Bool.and_eq_true, decide_eq_true_eq] at hcheck
  exact ⟨history, system, hrun, hcheck.1, details_own_address hrun hcheck.2⟩

end Runs

end NovaIde.Protocol
