import NovaIde.Foundation.EventRun
import NovaIde.Server.AccountHandler
import NovaIde.Server.SessionExchange

/-!
# The server as an event system

The server reacts to two kinds of events. A received datagram is handled by `analyzeUser` in one
step, except that a `J` request only starts a thread; a thread event is one atomic step of one such
thread. Any order of events is a run, so a theorem about runs covers every interleaving of the
session threads with each other and with all other requests. A request that indexes past its
details vector has no defined effect and is no step of a run.

The observers read a step off a record: the fields a request carries, the login it completes, the
mail it sends.
-/

set_option autoImplicit false
set_option relaxedAutoImplicit false

namespace NovaIde.Server

open Foundation Foundation.EventRun

/-- The state of the server: the account side, the data shared by the session threads, and the
threads that serve the `J` requests received so far. -/
structure ServerState where
  accounts : Accounts
  exchange : Exchange
  handlers : List SessionHandler

/-- A reply datagram. -/
structure Reply where
  destination : SockAddr
  payload : Bytes
deriving DecidableEq, Repr

/-- What a step lets the outside see: the result vector of the request, the mail sent, the reply
and the connection details. -/
structure Observation where
  result : List Bytes := []
  mailed : Option Mailing := none
  replies : List Reply := []
  details : List Details := []

/-- The server when it starts, over the table left by earlier lives. -/
def start (users : List Row) : ServerState where
  accounts := ⟨users, .empty Bytes Bytes, .empty Bytes Bytes⟩
  exchange := ⟨.empty Bytes SockAddr, .empty Bytes SockAddr, .empty Bytes Bytes, true⟩
  handlers := []

/-- The text of a response: the results joined by `:`. -/
def responseText (result : List Bytes) : Bytes :=
  (result.foldl (fun text field ↦ text ++ field ++ ascii ":") []).dropLast

/-- The text of a response is its first result, and every other one behind a `:`. -/
theorem responseText_cons (first : Bytes) (rest : List Bytes) :
    responseText (first :: rest) = first ++ rest.flatMap (ascii ":" ++ ·) := by
  have hfold : ∀ (fields : List Bytes) (text : Bytes),
      fields.foldl (fun text field ↦ text ++ field ++ ascii ":") (text ++ ascii ":") =
        text ++ fields.flatMap (ascii ":" ++ ·) ++ ascii ":" := by
    intro fields
    induction fields with
    | nil => simp
    | cons field fields ih =>
      intro text
      rw [List.foldl_cons, ih]
      simp
  rw [responseText, List.foldl_cons, List.nil_append, hfold]
  exact List.dropLast_concat ..

/-- The first field of a response. -/
def firstField (payload : Bytes) : Bytes := payload.takeWhile (· ≠ seperationIdentifier)

/-- The first field of a response is its first result, when that holds no separator. -/
theorem firstField_responseText {first : Bytes} (hfirst : seperationIdentifier ∉ first)
    (rest : List Bytes) : firstField (responseText (first :: rest)) = first := by
  have hall : ∀ byte ∈ first, decide (byte ≠ seperationIdentifier) = true := by
    intro byte hbyte
    simpa using fun heq : byte = seperationIdentifier ↦ hfirst (heq ▸ hbyte)
  rw [firstField, responseText_cons, List.takeWhile_append_of_pos hall]
  cases rest with
  | nil => simp
  | cons field rest => simp [ascii, seperationIdentifier]

/-- The result codes hold no separator. -/
theorem separator_notMem_toText (number : ℕ) : seperationIdentifier ∉ toText number := by
  intro hmem
  have hdigit := isdigit_of_mem_toText hmem
  revert hdigit
  decide

/-- `sendResponseByAddr`. -/
def sendResponseByAddr (result : List Bytes) (clientAddr : SockAddr) : Reply :=
  ⟨clientAddr, responseText result⟩

/-- `sendResponse`: the reply goes to the address stored for the name. -/
def sendResponse (exchange : Exchange) (result : List Bytes) (name : Bytes) : Reply :=
  ⟨exchange.clientMap.read name, responseText result⟩

/-- The part of `analyzeUser` that a handler without further effects ends in: it replies to the
sender of the request. -/
def answered (server : ServerState) (clientAddr : SockAddr) (handled : Handled) :
    ServerState × Observation :=
  ({ server with accounts := handled.accounts },
    { result := handled.result, mailed := handled.mailed
      replies := [sendResponseByAddr handled.result clientAddr] })

/-- The `L` branch of `analyzeUser` after `handleLogin`: an accepted login stores a new token under
the username and the sender's address under the name, and replies with the token. -/
def completeLogin (environment : Environment) (server : ServerState) (clientAddr : SockAddr)
    (handled : Handled) : ServerState × Observation :=
  match handled.result with
  | [code, username] =>
    if code = infoCorrect then
      let usersToken := environment.sessionToken
      let usersList := handled.accounts.usersList.assign usersToken username
      let name := usersList.read usersToken
      let exchange := addClientAddress server.exchange name clientAddr
      ({ server with accounts := { handled.accounts with usersList }, exchange },
        { result := [code, usersToken]
          replies := [sendResponse exchange [code, usersToken] name] })
    else answered server clientAddr handled
  | _ => answered server clientAddr handled

/-- The `J` branch of `analyzeUser` after `handleSessionReq`: a thread enters the session. -/
def enterSession (server : ServerState) (handled : Handled) : ServerState × Observation :=
  match handled.result with
  | [current, wanted] =>
    ({ server with
        accounts := handled.accounts
        handlers := server.handlers ++ [⟨current, wanted, .assignInvite⟩] },
      { result := handled.result })
  | _ => (server, {})

/-- `AccountHandler::analyzeUser`. -/
def analyzeUser (environment : Environment) (server : ServerState) (userInfo : Bytes)
    (clientAddr : SockAddr) : Except AccessFault (ServerState × Observation) :=
  match requestKind userInfo with
  | some .login =>
    (handleLogin environment server.accounts userInfo).map
      (completeLogin environment server clientAddr)
  | some .signup =>
    (handleSignup environment server.accounts userInfo).map (answered server clientAddr)
  | some .session => (handleSessionReq server.accounts userInfo).map (enterSession server)
  | some .codeCheck =>
    (verifyPasscode environment server.accounts userInfo).map (answered server clientAddr)
  | some .mailCode =>
    (handleEmailReq environment server.accounts userInfo).map (answered server clientAddr)
  | some .newPass =>
    (handlePassReset environment server.accounts userInfo).map (answered server clientAddr)
  | none => .ok (server, {})

/-- The events of the server. -/
inductive Event
  /-- a datagram is received and handled -/
  | receive (userInfo : Bytes) (clientAddr : SockAddr) (environment : Environment)
  /-- the session thread at an index takes one atomic step -/
  | thread (index : ℕ)

/-- One atomic step of the session thread at an index. -/
def threadStep (server : ServerState) (index : ℕ) : Option (ServerState × Observation) := do
  let handler ← server.handlers[index]?
  let (exchange, handler', details) ← sessionStep server.exchange handler
  return ({ server with exchange, handlers := server.handlers.set index handler' }, { details })

/-- The step function of the server. -/
def step (server : ServerState) : Event → Option (ServerState × Observation)
  | .receive userInfo clientAddr environment =>
    (analyzeUser environment server userInfo clientAddr).toOption
  | .thread index => threadStep server index

/-- A step of a run of the server. -/
abbrev ServerRecord := StepRecord ServerState Event Observation

/-- A run of the server from a table. -/
abbrev ServerRun (users : List Row) : List ServerRecord → ServerState → Prop :=
  Run step (start users)

end NovaIde.Server
