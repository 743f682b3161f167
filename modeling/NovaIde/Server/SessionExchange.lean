import NovaIde.Foundation.SubscriptMap
import NovaIde.Server.RequestFields

/-!
# Session invites and the exchange of details

A `J` request is served by a thread of its own, which runs `Server::enterSession`: it records the
invite, tests the flag that is meant to prevent two exchange messages, clears it and spins in
`Server::exchangeInfo` until both users have invited each other. All threads share the invite map
and the flag, so a thread is modelled by its position in that program and `sessionStep` is one
atomic step of one thread, a single read or write of the shared data. The block that sends the two
messages is one step.

`sessionInvites` is read through `operator[]`, so a user without an invite reads as one who invited
the user with the empty name.
-/

set_option autoImplicit false
set_option relaxedAutoImplicit false

namespace NovaIde.Server

open Foundation

/-- A `sockaddr_in`: the four address bytes and the port. The default is the zeroed structure that
a map subscript creates. -/
structure SockAddr where
  octet1 : UInt8
  octet2 : UInt8
  octet3 : UInt8
  octet4 : UInt8
  port : UInt16
deriving DecidableEq, Repr, Inhabited

/-- The dotted text `inet_ntop` writes. -/
def inetNtop (address : SockAddr) : Bytes :=
  toText address.octet1.toNat ++ ascii "." ++ toText address.octet2.toNat ++ ascii "." ++
    toText address.octet3.toNat ++ ascii "." ++ toText address.octet4.toNat

/-- `SERVER_IP`. -/
def serverIP : Bytes := ascii "127.0.0.1"

/-- `ipChecker`: addresses whose text begins with `192` are replaced by the server's own. -/
def ipChecker (ip : Bytes) : Bytes := if ip.take 3 = ascii "192" then serverIP else ip

/-- The position of a thread in `enterSession` and `exchangeInfo`. -/
inductive Stage
  /-- about to record the invite -/
  | assignInvite
  /-- about to test `infoExchangeFlag` -/
  | testFlag
  /-- the flag was found set; about to clear it -/
  | clearFlag
  /-- in the loop of `exchangeInfo`, about to read the invite of the first client -/
  | readFirst
  /-- the first comparison held; about to read the invite of the second client -/
  | readSecond
  /-- both comparisons held; about to send the details -/
  | sendDetails
  /-- returned after sending the details -/
  | served
  /-- returned because the flag was found cleared -/
  | skipped
deriving DecidableEq, Repr

/-- A thread that serves one `J` request. -/
structure SessionHandler where
  current : Bytes
  wanted : Bytes
  stage : Stage
deriving DecidableEq, Repr

/-- Connection details sent by `exchangeInfo`: whom they are for, whose they are, the address they
go to and the text. -/
structure Details where
  recipient : Bytes
  peer : Bytes
  destination : SockAddr
  payload : Bytes
deriving DecidableEq, Repr

/-- The part of the server that the session threads share. -/
structure Exchange where
  clientAddresses : SubscriptMap Bytes SockAddr
  clientMap : SubscriptMap Bytes SockAddr
  sessionInvites : SubscriptMap Bytes Bytes
  infoExchangeFlag : Bool

/-- `Server::addClientAddress`. -/
def addClientAddress (exchange : Exchange) (name : Bytes) (clientAddr : SockAddr) : Exchange :=
  { exchange with
    clientAddresses := exchange.clientAddresses.assign name clientAddr
    clientMap := exchange.clientMap.assign name clientAddr }

/-- The text `ip:port:role` of one client's details. -/
def infoText (address : SockAddr) (role : String) : Bytes :=
  ipChecker (inetNtop address) ++ ascii ":" ++ toText address.port.toNat ++ ascii ":" ++ ascii role

/-- The two messages `exchangeInfo` sends: the first client gets the second one's details and the
role of the host, the second client gets the first one's and the role of the member. -/
def detailsSent (exchange : Exchange) (client1 client2 : Bytes) : List Details :=
  let info1 := infoText (exchange.clientAddresses.read client1) "C"
  let info2 := infoText (exchange.clientAddresses.read client2) "H"
  [⟨client1, client2, exchange.clientMap.read client1, info2⟩,
    ⟨client2, client1, exchange.clientMap.read client2, info1⟩]

/-- One atomic step of a session thread: the shared data and the thread afterwards, and the
details sent. A thread that has returned takes no step. -/
def sessionStep (exchange : Exchange) (handler : SessionHandler) :
    Option (Exchange × SessionHandler × List Details) :=
  let { current, wanted, stage } := handler
  match stage with
  | .assignInvite =>
    some ({ exchange with sessionInvites := exchange.sessionInvites.assign current wanted },
      { handler with stage := .testFlag }, [])
  | .testFlag =>
    if exchange.infoExchangeFlag then some (exchange, { handler with stage := .clearFlag }, [])
    else some (exchange, { handler with stage := .skipped }, [])
  | .clearFlag =>
    some ({ exchange with infoExchangeFlag := false }, { handler with stage := .readFirst }, [])
  | .readFirst =>
    let exchange' :=
      { exchange with sessionInvites := exchange.sessionInvites.touch current }
    if exchange.sessionInvites.read current = wanted then
      some (exchange', { handler with stage := .readSecond }, [])
    else some (exchange', { handler with stage := .readFirst }, [])
  | .readSecond =>
    let exchange' :=
      { exchange with sessionInvites := exchange.sessionInvites.touch wanted }
    if exchange.sessionInvites.read wanted = current then
      some (exchange', { handler with stage := .sendDetails }, [])
    else some (exchange', { handler with stage := .readFirst }, [])
  | .sendDetails =>
    let exchange' :=
      { exchange with
        clientAddresses := (exchange.clientAddresses.touch current).touch wanted
        clientMap := (exchange.clientMap.touch current).touch wanted }
    some (exchange', { handler with stage := .served }, detailsSent exchange current wanted)
  | .served => none
  | .skipped => none

/-- Whether a thread can step. A thread in the loop of `exchangeInfo` counts as unable to step
while the rest of its condition is false. -/
def CanStep (exchange : Exchange) (handler : SessionHandler) : Prop :=
  match handler.stage with
  | .assignInvite | .testFlag | .clearFlag | .sendDetails => True
  | .readFirst =>
    exchange.sessionInvites.read handler.current = handler.wanted ∧
      exchange.sessionInvites.read handler.wanted = handler.current
  | .readSecond => exchange.sessionInvites.read handler.wanted = handler.current
  | .served | .skipped => False

instance (exchange : Exchange) (handler : SessionHandler) :
    Decidable (CanStep exchange handler) := by
  unfold CanStep
  split <;> infer_instance

/-- What one step of a session thread can do, case by case in the order of the program. -/
theorem sessionStep_cases {exchange exchange' : Exchange} {handler handler' : SessionHandler}
    {details : List Details}
    (hstep : sessionStep exchange handler = some (exchange', handler', details)) :
    handler'.current = handler.current ∧ handler'.wanted = handler.wanted ∧
      ((handler.stage = .assignInvite ∧ handler'.stage = .testFlag ∧ details = [] ∧
          exchange'.sessionInvites =
            exchange.sessionInvites.assign handler.current handler.wanted ∧
          exchange'.infoExchangeFlag = exchange.infoExchangeFlag) ∨
        (handler.stage = .testFlag ∧ details = [] ∧ exchange' = exchange ∧
          handler'.stage = if exchange.infoExchangeFlag then .clearFlag else .skipped) ∨
        (handler.stage = .clearFlag ∧ handler'.stage = .readFirst ∧ details = [] ∧
          exchange'.sessionInvites = exchange.sessionInvites ∧
          exchange'.infoExchangeFlag = false) ∨
        (handler.stage = .readFirst ∧ details = [] ∧
          exchange'.sessionInvites = exchange.sessionInvites.touch handler.current ∧
          exchange'.infoExchangeFlag = exchange.infoExchangeFlag ∧
          handler'.stage = if exchange.sessionInvites.read handler.current = handler.wanted
            then .readSecond else .readFirst) ∨
        (handler.stage = .readSecond ∧ details = [] ∧
          exchange'.sessionInvites = exchange.sessionInvites.touch handler.wanted ∧
          exchange'.infoExchangeFlag = exchange.infoExchangeFlag ∧
          handler'.stage = if exchange.sessionInvites.read handler.wanted = handler.current
            then .sendDetails else .readFirst) ∨
        (handler.stage = .sendDetails ∧ handler'.stage = .served ∧
          details = detailsSent exchange handler.current handler.wanted ∧
          exchange'.sessionInvites = exchange.sessionInvites ∧
          exchange'.infoExchangeFlag = exchange.infoExchangeFlag)) := by
  obtain ⟨current, wanted, stage⟩ := handler
  cases stage <;> simp only [sessionStep] at hstep
  case assignInvite => cases hstep; simp
  case testFlag => split_ifs at hstep with hflag <;> cases hstep <;> simp [hflag]
  case clearFlag => cases hstep; simp
  case readFirst => split_ifs at hstep with hread <;> cases hstep <;> simp [hread]
  case readSecond => split_ifs at hstep with hread <;> cases hstep <;> simp [hread]
  case sendDetails => cases hstep; simp
  case served => cases hstep
  case skipped => cases hstep

end NovaIde.Server
