import NovaIde.Server.CodeAuthentication

/-!
# Where the reply to an accepted login goes

Every datagram is handled by a thread of its own. The thread of an accepted `L` request stores the
token it generated, then calls `addClientAddress` and then `sendResponse`, and takes the name for
either call out of `usersList` at its token. `sendResponse` subscripts `clientMap` and passes a
pointer to the entry to `sendto`, so the address is read when the datagram is sent. A thread is
modelled by its position in `analyzeUser`, and `analyzeLogin` is one atomic step of it; an error
reply is sent to the address of the request itself.

Between two steps of a thread any other may move. A second login of a username puts its own address
where the reply to the first will look for one. `answered_of_run` says that every accepted request
is answered to its sender in the runs in which no thread does that, or stores for another username
a token that is about to be looked up.
-/

set_option autoImplicit false
set_option relaxedAutoImplicit false

namespace NovaIde.Server

open Foundation Foundation.EventRun

/-! ### The threads -/

/-- The position of the thread of an `L` request in `analyzeUser`. -/
inductive LoginStage
  /-- about to run `handleLogin` -/
  | handleLogin
  /-- refused; about to send the result to the address of the request -/
  | sendByAddr (result : List Bytes)
  /-- accepted; about to store the token for the username -/
  | storeToken (username : Bytes)
  /-- about to call `addClientAddress` for the name stored under the token -/
  | addAddress
  /-- in `sendResponse`, about to look up the entry of the name stored under the token -/
  | lookup
  /-- holding the entry of a name; about to send to the address in it -/
  | send (name : Bytes)
  | finished
deriving DecidableEq, Repr

/-- A thread that serves one `L` request. -/
structure LoginHandler where
  userInfo : Bytes
  clientAddr : SockAddr
  environment : Environment
  stage : LoginStage

/-- The data that the threads share, and the threads. -/
structure LoginSystem where
  accounts : Accounts
  exchange : Exchange
  handlers : List LoginHandler

/-- The username in a result that `analyzeUser` takes for an accepted login. -/
def acceptedLogin : List Bytes → Option Bytes
  | [code, username] => if code = infoCorrect then some username else none
  | _ => none

/-- One atomic step of the `L` branch of `analyzeUser`: the shared data and the position
afterwards, and the reply sent. The subscripts of `usersList` create no entry, since the thread has
stored its token. -/
def analyzeLogin (server : LoginSystem) (handler : LoginHandler) :
    Option (LoginSystem × LoginStage × Option Reply) :=
  let usersToken := handler.environment.sessionToken
  match handler.stage with
  | .handleLogin =>
    (handleLogin handler.environment server.accounts handler.userInfo).toOption.map fun handled ↦
      ({ server with accounts := handled.accounts },
        match acceptedLogin handled.result with
        | some username => .storeToken username
        | none => .sendByAddr handled.result,
        none)
  | .sendByAddr result =>
    some (server, .finished, some (sendResponseByAddr result handler.clientAddr))
  | .storeToken username =>
    let usersList := server.accounts.usersList.assign usersToken username
    some ({ server with accounts := { server.accounts with usersList } }, .addAddress, none)
  | .addAddress =>
    let name := server.accounts.usersList.read usersToken
    some ({ server with exchange := addClientAddress server.exchange name handler.clientAddr },
      .lookup, none)
  | .lookup =>
    let name := server.accounts.usersList.read usersToken
    let exchange := { server.exchange with
      clientAddresses := server.exchange.clientAddresses.touch name
      clientMap := server.exchange.clientMap.touch name }
    some ({ server with exchange }, .send name, none)
  | .send name =>
    some (server, .finished, some (sendResponse server.exchange [infoCorrect, usersToken] name))
  | .finished => none

/-- The events: an `L` request is received and gets a thread, and a thread takes one step. -/
inductive LoginEvent
  | receive (userInfo : Bytes) (clientAddr : SockAddr) (environment : Environment)
  | thread (index : ℕ)

/-- The step function of the threads. -/
def loginStep (server : LoginSystem) : LoginEvent → Option (LoginSystem × Option Reply)
  | .receive userInfo clientAddr environment =>
    if requestKind userInfo = some .login then
      some ({ server with
        handlers := server.handlers ++ [⟨userInfo, clientAddr, environment, .handleLogin⟩] }, none)
    else none
  | .thread index => do
    let handler ← server.handlers[index]?
    let (after, stage, reply) ← analyzeLogin server handler
    return ({ after with handlers := server.handlers.set index { handler with stage } }, reply)

/-- A step of a run of the threads. -/
abbrev LoginRecord := StepRecord LoginSystem LoginEvent (Option Reply)

/-- A run of the threads of `L` requests, none of which has been received at its start. -/
abbrev LoginRun (accounts : Accounts) (exchange : Exchange) :
    List LoginRecord → LoginSystem → Prop :=
  Run loginStep ⟨accounts, exchange, []⟩

/-! ### What is expected of a run -/

/-- The username a request is accepted for. -/
def LoginHandler.acceptedName (handler : LoginHandler) (users : List Row) : Option Bytes := do
  let username ← (getDetails handler.userInfo)[0]?
  let password ← (getDetails handler.userInfo)[1]?
  if doesUserExist handler.environment.sql users username ∧
      doesPasswordMatch handler.environment.sql users username password
    then some username else none

/-- The reply owed to an accepted request. -/
def LoginHandler.owed (handler : LoginHandler) : Reply :=
  ⟨handler.clientAddr, responseText [infoCorrect, handler.environment.sessionToken]⟩

/-- The reply a step sends, with the thread that sends it. -/
def sentReply (record : LoginRecord) : Option (ℕ × Reply) :=
  match record.event with
  | .receive _ _ _ => none
  | .thread index => record.observation.map fun reply ↦ (index, reply)

/-- The replies a thread has sent. -/
def repliesOf (history : List LoginRecord) (index : ℕ) : List Reply :=
  ((history.filterMap sentReply).filter fun sent ↦ sent.1 = index).map Prod.snd

/-- A thread of an accepted request gets on until it has finished, and has then sent exactly one
reply: the token generated for the request, to the address the request came from. -/
structure AnsweredToSender (history : List LoginRecord) (server : LoginSystem) (index : ℕ)
    (handler : LoginHandler) : Prop where
  proceeds : handler.stage ≠ .finished → (loginStep server (.thread index)).isSome
  replies : repliesOf history index = if handler.stage = .finished then [handler.owed] else []

/-- The thread has stored its token and is going to look up the name under it. -/
def LoginStage.holdsToken : LoginStage → Bool
  | .addAddress | .lookup => true
  | _ => false

/-- The thread has stored its address and is going to send to the address stored for its name. -/
def LoginStage.awaitsSend : LoginStage → Bool
  | .lookup | .send _ => true
  | _ => false

/-- The step of a thread takes nothing away from another one: it does not store the token that one
holds for another username, or another address for the username under which that one awaits its
sending. -/
def LoginHandler.Spares (users : List Row) (handler other : LoginHandler) : Prop :=
  match handler.stage with
  | .storeToken username => other.stage.holdsToken →
      other.environment.sessionToken = handler.environment.sessionToken →
        other.acceptedName users = some username
  | .addAddress => other.stage.awaitsSend →
      other.acceptedName users = handler.acceptedName users →
        other.clientAddr = handler.clientAddr
  | _ => True

instance (users : List Row) (handler other : LoginHandler) :
    Decidable (handler.Spares users other) := by
  unfold LoginHandler.Spares
  split <;> infer_instance

/-- The thread a step moves, as it was before the step. -/
def movedLogin (record : LoginRecord) : Option LoginHandler :=
  match record.event with
  | .receive _ _ _ => none
  | .thread index => record.before.handlers[index]?

/-- A step that takes nothing away from a thread on its way to its reply. -/
def Undisturbing (record : LoginRecord) : Prop :=
  ∀ handler ∈ movedLogin record, ∀ other ∈ record.before.handlers,
    handler.Spares record.before.accounts.users other

instance (record : LoginRecord) : Decidable (Undisturbing record) := by
  unfold Undisturbing
  infer_instance

/-! ### What a thread keeps -/

/-- Where a thread stands, given what is stored: whether its request was accepted, the name stored
under its token until it has looked it up, and its address stored for that name until it has sent
its reply. -/
def LoginHandler.OnCourse (server : LoginSystem) (handler : LoginHandler) : Prop :=
  let stored := server.accounts.usersList.read handler.environment.sessionToken
  let accepted := handler.acceptedName server.accounts.users
  match handler.stage with
  | .handleLogin | .finished => True
  | .sendByAddr _ => accepted = none
  | .storeToken username => accepted = some username
  | .addAddress => accepted = some stored
  | .lookup => accepted = some stored ∧ server.exchange.clientMap.read stored = handler.clientAddr
  | .send name => accepted = some name ∧ server.exchange.clientMap.read name = handler.clientAddr

section Threads

variable {server after : LoginSystem} {handler other : LoginHandler} {stage : LoginStage}
  {reply : Option Reply}

/-- `handleLogin` leaves the accounts as they are and accepts the requests with an accepted
name. -/
theorem acceptedLogin_handleLogin {handled : Handled} {accounts : Accounts}
    (hhandled : handleLogin handler.environment accounts handler.userInfo = .ok handled) :
    handled.accounts = accounts ∧
      acceptedLogin handled.result = handler.acceptedName accounts.users := by
  obtain ⟨username, password, husername, hpassword, rfl⟩ := handleLogin_eq_ok.mp hhandled
  refine ⟨rfl, ?_⟩
  simp only [LoginHandler.acceptedName, husername, hpassword, Option.bind_eq_bind,
    Option.bind_some]
  by_cases huser : doesUserExist handler.environment.sql accounts.users username
  · by_cases hmatch : doesPasswordMatch handler.environment.sql accounts.users username password
    · simp [huser, hmatch, acceptedLogin]
    · simp [huser, hmatch, acceptedLogin]
  · simp [huser, acceptedLogin]

/-- An accepted login has two results. -/
theorem result_of_acceptedLogin {result : List Bytes} {username : Bytes}
    (hname : acceptedLogin result = some username) : result = [infoCorrect, username] := by
  unfold acceptedLogin at hname
  split at hname
  · split_ifs at hname with hcode
    rw [hcode, Option.some.inj hname]
  · cases hname

/-- The server answers a login that is not accepted to its sender. -/
theorem completeLogin_refused {environment : Environment} {server : ServerState}
    {clientAddr : SockAddr} {handled : Handled} (hname : acceptedLogin handled.result = none) :
    completeLogin environment server clientAddr handled = answered server clientAddr handled := by
  unfold completeLogin
  split
  · next code username hresult =>
    have hcode : code ≠ infoCorrect := by
      rintro rfl
      simp [acceptedLogin, hresult] at hname
    rw [if_neg hcode]
  · rfl

/-- The ways a thread takes a step. -/
inductive LoginMove (server : LoginSystem) (handler : LoginHandler) :
    LoginSystem → LoginStage → Option Reply → Prop
  | refuse (result : List Bytes) (hstage : handler.stage = .handleLogin)
      (hname : handler.acceptedName server.accounts.users = none) :
      LoginMove server handler server (.sendByAddr result) none
  | accept (username : Bytes) (hstage : handler.stage = .handleLogin)
      (hname : handler.acceptedName server.accounts.users = some username) :
      LoginMove server handler server (.storeToken username) none
  | sendByAddr (result : List Bytes) (hstage : handler.stage = .sendByAddr result) :
      LoginMove server handler server .finished
        (some (sendResponseByAddr result handler.clientAddr))
  | storeToken (username : Bytes) (hstage : handler.stage = .storeToken username) :
      LoginMove server handler
        { server with accounts := { server.accounts with
            usersList := server.accounts.usersList.assign handler.environment.sessionToken
              username } }
        .addAddress none
  | addAddress (name : Bytes) (hstage : handler.stage = .addAddress)
      (hname : name = server.accounts.usersList.read handler.environment.sessionToken) :
      LoginMove server handler
        { server with exchange := addClientAddress server.exchange name handler.clientAddr }
        .lookup none
  | lookup (name : Bytes) (hstage : handler.stage = .lookup)
      (hname : name = server.accounts.usersList.read handler.environment.sessionToken) :
      LoginMove server handler
        { server with exchange := { server.exchange with
            clientAddresses := server.exchange.clientAddresses.touch name
            clientMap := server.exchange.clientMap.touch name } }
        (.send name) none
  | send (name : Bytes) (hstage : handler.stage = .send name) :
      LoginMove server handler server .finished
        (some (sendResponse server.exchange [infoCorrect, handler.environment.sessionToken] name))

/-- Every step of a thread is one of these. -/
theorem loginMove_of_analyzeLogin
    (hstep : analyzeLogin server handler = some (after, stage, reply)) :
    LoginMove server handler after stage reply := by
  unfold analyzeLogin at hstep
  split at hstep
  · next hstage =>
    obtain ⟨handled, hhandled, hpair⟩ := Option.map_eq_some_iff.mp hstep
    cases hresult : handleLogin handler.environment server.accounts handler.userInfo with
    | error fault => simp [hresult, Except.toOption] at hhandled
    | ok value =>
      obtain rfl : value = handled := by simpa [hresult, Except.toOption] using hhandled
      obtain ⟨haccounts, hname⟩ := acceptedLogin_handleLogin hresult
      rw [haccounts, hname] at hpair
      cases haccepted : handler.acceptedName server.accounts.users with
      | none =>
        rw [haccepted] at hpair
        cases hpair
        exact .refuse _ hstage haccepted
      | some username =>
        rw [haccepted] at hpair
        cases hpair
        exact .accept username hstage haccepted
  · next result hstage =>
    cases hstep
    exact .sendByAddr result hstage
  · next username hstage =>
    cases hstep
    exact .storeToken username hstage
  · next hstage =>
    cases hstep
    exact .addAddress _ hstage rfl
  · next hstage =>
    cases hstep
    exact .lookup _ hstage rfl
  · next name hstage =>
    cases hstep
    exact .send name hstage
  · cases hstep

/-- A step of a thread changes no row. -/
theorem LoginMove.users_eq (hmove : LoginMove server handler after stage reply) :
    after.accounts.users = server.accounts.users := by
  cases hmove <;> rfl

/-- A thread stays on course by its own steps. -/
theorem LoginMove.onCourse (hmove : LoginMove server handler after stage reply)
    (hcourse : handler.OnCourse server) :
    ({ handler with stage } : LoginHandler).OnCourse after := by
  cases hmove with
  | refuse result _ hname => exact hname
  | accept username _ hname => exact hname
  | sendByAddr _ _ => exact trivial
  | storeToken username hstage =>
    simp only [LoginHandler.OnCourse, hstage] at hcourse
    simpa [LoginHandler.OnCourse, LoginHandler.acceptedName] using hcourse
  | addAddress name hstage hname =>
    subst hname
    simp only [LoginHandler.OnCourse, hstage] at hcourse
    exact ⟨hcourse, by simp [addClientAddress]⟩
  | lookup name hstage hname =>
    subst hname
    simp only [LoginHandler.OnCourse, hstage] at hcourse
    exact ⟨hcourse.1, by simpa using hcourse.2⟩
  | send name hstage => exact trivial

/-- A thread on course that holds its token finds the username it was accepted for. -/
theorem LoginHandler.OnCourse.stored (hother : other.OnCourse server)
    (hholds : other.stage.holdsToken = true) :
    other.acceptedName server.accounts.users =
      some (server.accounts.usersList.read other.environment.sessionToken) := by
  cases hposition : other.stage with
  | addAddress =>
    simp only [LoginHandler.OnCourse, hposition] at hother
    exact hother
  | lookup =>
    simp only [LoginHandler.OnCourse, hposition] at hother
    exact hother.1
  | _ => simp [hposition, LoginStage.holdsToken] at hholds

/-- A thread stays on course as long as the name under its token and the address it awaits stay. -/
theorem LoginHandler.OnCourse.congr (hother : other.OnCourse server)
    (husers : after.accounts.users = server.accounts.users)
    (htoken : other.stage.holdsToken = true →
      after.accounts.usersList.read other.environment.sessionToken =
        server.accounts.usersList.read other.environment.sessionToken)
    (haddress : ∀ name, other.stage.awaitsSend = true →
      other.acceptedName server.accounts.users = some name →
        server.exchange.clientMap.read name = other.clientAddr →
          after.exchange.clientMap.read name = other.clientAddr) : other.OnCourse after := by
  unfold LoginHandler.OnCourse at hother ⊢
  rw [husers]
  cases hposition : other.stage with
  | handleLogin => trivial
  | finished => trivial
  | sendByAddr _ => simpa only [hposition] using hother
  | storeToken _ => simpa only [hposition] using hother
  | addAddress =>
    simp only [hposition] at hother ⊢
    rw [htoken (by rw [hposition]; rfl)]
    exact hother
  | lookup =>
    simp only [hposition] at hother ⊢
    rw [htoken (by rw [hposition]; rfl)]
    exact ⟨hother.1, haddress _ (by rw [hposition]; rfl) hother.1 hother.2⟩
  | send name =>
    simp only [hposition] at hother ⊢
    exact ⟨hother.1, haddress _ (by rw [hposition]; rfl) hother.1 hother.2⟩

/-- The step of a thread leaves another one on course when it takes nothing away from it. -/
theorem LoginMove.onCourse_other (hmove : LoginMove server handler after stage reply)
    (hcourse : handler.OnCourse server) (hother : other.OnCourse server)
    (hspares : handler.Spares server.accounts.users other) : other.OnCourse after := by
  cases hmove with
  | refuse _ _ _ => exact hother
  | accept _ _ _ => exact hother
  | sendByAddr _ _ => exact hother
  | send _ _ => exact hother
  | lookup name _ _ =>
    exact hother.congr rfl (fun _ ↦ rfl) fun awaited _ _ hread ↦ by simpa using hread
  | storeToken username hstage =>
    refine hother.congr rfl (fun hholds ↦ ?_) fun _ _ _ hread ↦ hread
    by_cases hsame : other.environment.sessionToken = handler.environment.sessionToken
    · simp only [LoginHandler.Spares, hstage] at hspares
      have hname := (hspares hholds hsame).symm.trans (hother.stored hholds)
      rw [hsame] at hname ⊢
      exact (SubscriptMap.read_assign_self _ _ _).trans (Option.some.inj hname)
    · exact SubscriptMap.read_assign_of_ne _ _ hsame
  | addAddress name hstage hname =>
    simp only [LoginHandler.OnCourse, hstage, ← hname] at hcourse
    simp only [LoginHandler.Spares, hstage] at hspares
    refine hother.congr rfl (fun _ ↦ rfl) fun awaited hawaits haccepted hread ↦ ?_
    by_cases hsame : awaited = name
    · rw [hsame]
      refine (SubscriptMap.read_assign_self _ _ _).trans ?_
      exact (hspares hawaits (by rw [haccepted, hcourse, hsame])).symm
    · exact (SubscriptMap.read_assign_of_ne _ _ hsame).trans hread

/-- A thread that has finished takes no step. -/
theorem LoginMove.stage_ne_finished (hmove : LoginMove server handler after stage reply) :
    handler.stage ≠ .finished := by
  cases hmove <;> simp_all

/-- The thread of an accepted request sends its reply with its last step, and no other. -/
theorem LoginMove.reply_eq (hmove : LoginMove server handler after stage reply)
    (hcourse : handler.OnCourse server)
    (haccepted : (handler.acceptedName server.accounts.users).isSome) :
    reply.toList = if stage = .finished then [handler.owed] else [] := by
  cases hmove with
  | sendByAddr result hstage =>
    simp only [LoginHandler.OnCourse, hstage] at hcourse
    simp [hcourse] at haccepted
  | send name hstage =>
    simp only [LoginHandler.OnCourse, hstage] at hcourse
    simp [sendResponse, LoginHandler.owed, hcourse.2]
  | _ => simp

/-- The thread of an accepted request can take its next step. -/
theorem isSome_analyzeLogin (haccepted : (handler.acceptedName server.accounts.users).isSome)
    (hstage : handler.stage ≠ .finished) : (analyzeLogin server handler).isSome := by
  unfold analyzeLogin
  split
  · obtain ⟨username, hname⟩ := Option.isSome_iff_exists.mp haccepted
    simp only [LoginHandler.acceptedName, Option.bind_eq_bind, Option.bind_eq_some_iff] at hname
    obtain ⟨username, husername, password, hpassword, -⟩ := hname
    rw [handleLogin_eq_ok.mpr ⟨username, password, husername, hpassword, rfl⟩]
    rfl
  · rfl
  · rfl
  · rfl
  · rfl
  · rfl
  · contradiction

end Threads

/-! ### The replies of a run -/

section Replies

variable {history : List LoginRecord} {before after : LoginSystem} {observation : Option Reply}

theorem repliesOf_receive (userInfo : Bytes) (clientAddr : SockAddr) (environment : Environment)
    (index : ℕ) :
    repliesOf (history ++ [⟨before, .receive userInfo clientAddr environment, observation, after⟩])
      index = repliesOf history index := by
  simp [repliesOf, sentReply]

theorem repliesOf_thread (moved index : ℕ) :
    repliesOf (history ++ [⟨before, .thread moved, observation, after⟩]) index =
      repliesOf history index ++ if moved = index then observation.toList else [] := by
  cases observation with
  | none => simp [repliesOf, sentReply]
  | some reply =>
    by_cases hmoved : moved = index
    · simp [repliesOf, sentReply, hmoved]
    · simp [repliesOf, sentReply, hmoved]

end Replies

/-- What a step of the threads does: a new thread, or a step of one. -/
theorem loginStep_cases {server next : LoginSystem} {event : LoginEvent} {reply : Option Reply}
    (hstep : loginStep server event = some (next, reply)) :
    (∃ userInfo clientAddr environment, event = .receive userInfo clientAddr environment ∧
      reply = none ∧ next = { server with
        handlers := server.handlers ++ [⟨userInfo, clientAddr, environment, .handleLogin⟩] }) ∨
    ∃ index handler after stage, event = .thread index ∧
      server.handlers[index]? = some handler ∧ LoginMove server handler after stage reply ∧
        next = { after with handlers := server.handlers.set index { handler with stage } } := by
  cases event with
  | receive userInfo clientAddr environment =>
    simp only [loginStep] at hstep
    split at hstep
    · cases hstep
      exact Or.inl ⟨userInfo, clientAddr, environment, rfl, rfl, rfl⟩
    · cases hstep
  | thread index =>
    simp only [loginStep, Option.bind_eq_bind, Option.bind_eq_some_iff] at hstep
    obtain ⟨handler, hhandler, ⟨after, stage, reply⟩, hmove, hpair⟩ := hstep
    cases hpair
    exact Or.inr ⟨index, handler, after, stage, rfl, hhandler, loginMove_of_analyzeLogin hmove, rfl⟩

/-- What holds along a run: every thread is on course, one of an accepted request has sent its
reply exactly when it has finished, and threads to come have sent nothing. -/
structure LoginInvariant (history : List LoginRecord) (server : LoginSystem) : Prop where
  course : ∀ handler ∈ server.handlers, handler.OnCourse server
  replies : ∀ index handler, server.handlers[index]? = some handler →
    (handler.acceptedName server.accounts.users).isSome →
      repliesOf history index = if handler.stage = .finished then [handler.owed] else []
  silent : ∀ index, server.handlers.length ≤ index → repliesOf history index = []

/-- A received request gets a thread and changes nothing else. -/
theorem LoginInvariant.receive {history : List LoginRecord} {server : LoginSystem}
    {userInfo : Bytes} {clientAddr : SockAddr} {environment : Environment}
    {observation : Option Reply} {next : LoginSystem}
    (hinvariant : LoginInvariant history server)
    (hnext : next = { server with
      handlers := server.handlers ++ [⟨userInfo, clientAddr, environment, .handleLogin⟩] }) :
    LoginInvariant
      (history ++ [⟨server, .receive userInfo clientAddr environment, observation, next⟩])
      next := by
  subst hnext
  refine ⟨fun handler hhandler ↦ ?_, fun index handler hhandler haccepted ↦ ?_,
    fun index hindex ↦ ?_⟩
  · rcases List.mem_append.mp hhandler with hold | hnew
    · exact hinvariant.course handler hold
    · rw [List.mem_singleton.mp hnew]
      trivial
  · rw [repliesOf_receive]
    rcases Nat.lt_or_ge index server.handlers.length with hlt | hge
    · rw [List.getElem?_append_left hlt] at hhandler
      exact hinvariant.replies index handler hhandler haccepted
    · rw [List.getElem?_append_right hge] at hhandler
      rw [List.mem_singleton.mp (List.mem_of_getElem? hhandler), hinvariant.silent index hge]
      rfl
  · rw [repliesOf_receive]
    rw [List.length_append] at hindex
    exact hinvariant.silent index (by omega)

/-- A step of a thread that takes nothing away from another one. -/
theorem LoginInvariant.thread {history : List LoginRecord} {server after next : LoginSystem}
    {index : ℕ} {handler : LoginHandler} {stage : LoginStage} {reply : Option Reply}
    (hinvariant : LoginInvariant history server)
    (hhandler : server.handlers[index]? = some handler)
    (hmove : LoginMove server handler after stage reply)
    (hnext : next = { after with handlers := server.handlers.set index { handler with stage } })
    (hundisturbing : Undisturbing ⟨server, .thread index, reply, next⟩) :
    LoginInvariant (history ++ [⟨server, .thread index, reply, next⟩]) next := by
  subst hnext
  have hcourse := hinvariant.course handler (List.mem_of_getElem? hhandler)
  refine ⟨fun other hother ↦ ?_, fun moved other hother haccepted ↦ ?_, fun moved hmoved ↦ ?_⟩
  · rcases List.mem_or_eq_of_mem_set hother with hold | rfl
    · exact hmove.onCourse_other hcourse (hinvariant.course other hold)
        (hundisturbing handler hhandler other hold)
    · exact hmove.onCourse hcourse
  · rw [repliesOf_thread]
    rw [show after.accounts.users = server.accounts.users from hmove.users_eq] at haccepted
    by_cases hindex : index = moved
    · subst hindex
      rw [List.getElem?_set_self (List.getElem?_eq_some_iff.mp hhandler).1] at hother
      obtain rfl := Option.some.inj hother
      have hbefore := hinvariant.replies index handler hhandler haccepted
      rw [hbefore, if_neg hmove.stage_ne_finished, if_pos rfl, List.nil_append,
        hmove.reply_eq hcourse haccepted]
      rfl
    · rw [List.getElem?_set_ne hindex] at hother
      rw [if_neg hindex, List.append_nil]
      exact hinvariant.replies moved other hother haccepted
  · rw [List.length_set] at hmoved
    have hlt := (List.getElem?_eq_some_iff.mp hhandler).1
    rw [repliesOf_thread, if_neg (by omega), List.append_nil]
    exact hinvariant.silent moved hmoved

/-- Assumes: a run of the threads of `L` requests, each step of which takes nothing away from a
thread on its way to its reply. Every accepted request is answered to its sender. -/
theorem answered_of_run {accounts : Accounts} {exchange : Exchange} {history : List LoginRecord}
    {server : LoginSystem} (hrun : LoginRun accounts exchange history server)
    (hundisturbed : EveryStep (fun _ record ↦ Undisturbing record) history) {index : ℕ}
    {handler : LoginHandler} (hhandler : server.handlers[index]? = some handler)
    (haccepted : (handler.acceptedName server.accounts.users).isSome) :
    AnsweredToSender history server index handler := by
  have hinvariant : LoginInvariant history server := by
    refine hrun.relation_of_everyStep LoginInvariant ⟨by simp, by simp, fun _ _ ↦ rfl⟩ ?_
      hundisturbed
    intro history state event next reply _ hinvariant hundisturbing hstep
    rcases loginStep_cases hstep with ⟨userInfo, clientAddr, environment, rfl, -, hnext⟩ |
      ⟨index, handler, after, stage, rfl, hhandler, hmove, hnext⟩
    · exact hinvariant.receive hnext
    · exact hinvariant.thread hhandler hmove hnext hundisturbing
  refine ⟨fun hstage ↦ ?_, hinvariant.replies index handler hhandler haccepted⟩
  obtain ⟨moved, hmoved⟩ := Option.isSome_iff_exists.mp (isSome_analyzeLogin haccepted hstage)
  simp [loginStep, hhandler, hmoved]

/-- The thread of a request that is alone does what the server does with the request in one step. -/
theorem execute_login_alone {server : ServerState} {userInfo : Bytes} {clientAddr : SockAddr}
    {environment : Environment} {handled : Handled}
    (hkind : requestKind userInfo = some .login)
    (hhandled : handleLogin environment server.accounts userInfo = .ok handled) :
    let completed := completeLogin environment server clientAddr handled
    ∃ steps history after, EventRun.execute loginStep [] ⟨server.accounts, server.exchange, []⟩
        (.receive userInfo clientAddr environment :: List.replicate steps (.thread 0)) =
          some (history, after) ∧
      after.accounts = completed.1.accounts ∧ after.exchange = completed.1.exchange ∧
        after.handlers = [⟨userInfo, clientAddr, environment, .finished⟩] ∧
          repliesOf history 0 = completed.2.replies := by
  obtain ⟨haccounts, -⟩ :=
    @acceptedLogin_handleLogin ⟨userInfo, clientAddr, environment, .handleLogin⟩ _ _ hhandled
  cases hname : acceptedLogin handled.result with
  | none =>
    refine ⟨2, _, _, by
      simp [EventRun.execute, loginStep, analyzeLogin, hkind, hhandled, Except.toOption, hname,
        List.replicate]
      exact ⟨rfl, rfl⟩, ?_⟩
    rw [completeLogin_refused hname]
    simp [answered, repliesOf, sentReply, List.filterMap_cons, -List.map_eq_singleton_iff]
  | some username =>
    have hresult := result_of_acceptedLogin hname
    have hentry (map : SubscriptMap Bytes SockAddr) :
        (map.assign username clientAddr).touch username = map.assign username clientAddr :=
      SubscriptMap.touch_eq_self (by simp)
    refine ⟨5, _, _, by
      simp [EventRun.execute, loginStep, analyzeLogin, hkind, hhandled, Except.toOption, hname,
        List.replicate]
      exact ⟨rfl, rfl⟩, ?_⟩
    simp [completeLogin, hresult, haccounts, addClientAddress, hentry, repliesOf, sentReply,
      List.filterMap_cons, -List.map_eq_singleton_iff, sendResponse]

/-- A login of one user, with a token and a port of its own. -/
def loginFrom (token : String) (port : UInt16) : LoginEvent :=
  .receive (ascii "L:ann:ann") ⟨10, 0, 0, 1, port⟩
    { calmEnvironment with sessionToken := ascii token }

/-- The accounts of a server whose table has one user. -/
def annAlone : Accounts := (start [⟨ascii "ann", ascii "ann", ascii "ann"⟩]).accounts

/-- The second login stores its address when the first one has sent its reply. -/
theorem answered_of_run_apart : ∃ history server handler,
    LoginRun annAlone (start []).exchange history server ∧
      server.handlers[0]? = some handler ∧ handler.stage = .finished ∧
        AnsweredToSender history server 0 handler := by
  obtain ⟨history, server, hrun, -, hcheck⟩ := exists_run_of_execute loginStep
    ⟨annAlone, (start []).exchange, []⟩
    ([loginFrom "one" 1, loginFrom "two" 2] ++
      [0, 1, 0, 1, 0, 0, 0, 1, 1, 1].map LoginEvent.thread)
    (fun history server ↦ match server.handlers[0]? with
      | some handler => (handler.acceptedName server.accounts.users).isSome ∧
          handler.stage = .finished ∧ EveryStep (fun _ record ↦ Undisturbing record) history
      | none => False) (by decide)
  split at hcheck
  · next handler hhandler =>
    obtain ⟨haccepted, hstage, hundisturbed⟩ := of_decide_eq_true hcheck
    exact ⟨history, server, handler, hrun, hhandler, hstage,
      answered_of_run hrun hundisturbed hhandler haccepted⟩
  · simp at hcheck

/-- The second login stores its address while the first one has yet to look its own up: both
replies go to the second client. -/
theorem not_answered_of_run :
    ¬ ∀ accounts exchange history server, LoginRun accounts exchange history server →
      ∀ index handler, server.handlers[index]? = some handler →
        (handler.acceptedName server.accounts.users).isSome →
          AnsweredToSender history server index handler := by
  intro hall
  obtain ⟨history, server, hrun, -, hcheck⟩ := exists_run_of_execute loginStep
    ⟨annAlone, (start []).exchange, []⟩
    ([loginFrom "one" 1, loginFrom "two" 2] ++
      [0, 1, 0, 1, 0, 1, 0, 0, 1, 1].map LoginEvent.thread)
    (fun history server ↦ match server.handlers[0]? with
      | some handler => (handler.acceptedName server.accounts.users).isSome ∧
          handler.stage = .finished ∧ repliesOf history 0 ≠ [handler.owed]
      | none => False) (by decide)
  split at hcheck
  · next handler hhandler =>
    obtain ⟨haccepted, hstage, hreplies⟩ := of_decide_eq_true hcheck
    have hanswered := hall _ _ history server hrun 0 handler hhandler haccepted
    rw [hanswered.replies, if_pos hstage] at hreplies
    exact hreplies rfl
  · simp at hcheck

end NovaIde.Server
