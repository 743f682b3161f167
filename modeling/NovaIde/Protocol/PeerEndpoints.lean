import NovaIde.Client.PeerConnection
import NovaIde.Client.Transport
import NovaIde.Server.SessionConsent

/-!
# Matched clients and each other's addresses

A login stores the address it came from in both address maps, so the maps read as the address of the
latest login of a name (`addresses_of_run`). When a session thread sends its two messages, they go
to these addresses, and `ConnectP2P` makes the first client a host with the endpoint of the second
in its list, and the second one a member with the endpoint of the first as its host's
(`peers_connected`).
-/

set_option autoImplicit false
set_option relaxedAutoImplicit false

namespace NovaIde.Protocol

open Foundation Foundation.EventRun Client Server

/-! ### Where a user logged in last -/

/-- The name a step logs in, and the address the request came from. -/
def loginAddress (record : ServerRecord) : Option (Bytes × SockAddr) :=
  match record.event with
  | .receive _ clientAddr _ => (issuedToken record).map fun login ↦ (login.1, clientAddr)
  | .thread _ => none

/-- The address of the latest login of a name. -/
def latestLogin (history : List ServerRecord) : Bytes → Option SockAddr :=
  lastEntry Prod.fst Prod.snd (history.filterMap loginAddress)

theorem latestLogin_append_singleton (history : List ServerRecord) (record : ServerRecord) :
    latestLogin (history ++ [record]) =
      match loginAddress record with
      | some login => Function.update (latestLogin history) login.1 (some login.2)
      | none => latestLogin history := by
  unfold latestLogin
  rw [List.filterMap_append]
  cases hlogin : loginAddress record with
  | none => simp [hlogin]
  | some login => simp [hlogin, lastEntry_append_singleton]

/-- The addresses that the two maps read for a name. -/
def addressesOf (exchange : Exchange) (name : Bytes) : SockAddr × SockAddr :=
  (exchange.clientMap.read name, exchange.clientAddresses.read name)

/-- A thread only touches the address maps. -/
theorem addressesOf_sessionStep {exchange exchange' : Exchange} {handler handler' : SessionHandler}
    {details : List Details}
    (hsession : sessionStep exchange handler = some (exchange', handler', details)) (name : Bytes) :
    addressesOf exchange' name = addressesOf exchange name := by
  obtain ⟨current, wanted, stage⟩ := handler
  cases stage <;> simp only [sessionStep] at hsession
  case assignInvite => cases hsession; rfl
  case testFlag => split_ifs at hsession <;> cases hsession <;> rfl
  case clearFlag => cases hsession; rfl
  case readFirst => split_ifs at hsession <;> cases hsession <;> rfl
  case readSecond => split_ifs at hsession <;> cases hsession <;> rfl
  case sendDetails => cases hsession; simp [addressesOf]
  case served => cases hsession
  case skipped => cases hsession

/-- A request of another kind than a login logs nobody in. -/
theorem loginAddress_eq_none {record : ServerRecord} {userInfo : Bytes} {clientAddr : SockAddr}
    {environment : Environment} (hevent : record.event = .receive userInfo clientAddr environment)
    (hkind : requestKind userInfo ≠ some .login) : loginAddress record = none := by
  have hissued : issuedToken record = none := by
    unfold issuedToken
    split
    · next hreceive _ =>
      cases hevent.symm.trans hreceive
      exact if_neg fun h ↦ hkind h.1
    · rfl
  rw [loginAddress, hevent, hissued]
  rfl

/-- The addresses of a name after a step that may have logged somebody in. -/
def addressesAfter (record : ServerRecord) (name : Bytes) : SockAddr × SockAddr :=
  match loginAddress record with
  | some login =>
    if name = login.1 then (login.2, login.2) else addressesOf record.before.exchange name
  | none => addressesOf record.before.exchange name

theorem addressesAfter_of_none {record : ServerRecord} (hlogin : loginAddress record = none)
    (name : Bytes) : addressesAfter record name = addressesOf record.before.exchange name := by
  rw [addressesAfter, hlogin]

/-- What a step does to the addresses of a name: a login of the name sets both. -/
theorem addresses_of_step {record : ServerRecord}
    (hstep : step record.before record.event = some (record.after, record.observation))
    (name : Bytes) :
    addressesOf record.after.exchange name = addressesAfter record name := by
  obtain ⟨before, event, observation, after⟩ := record
  have hshape : StepShape before event after observation := stepShape_of_step hstep
  clear hstep
  cases hshape with
  | ignored hkind =>
    rw [addressesAfter_of_none (loginAddress_eq_none rfl (by simp [hkind]))]
  | signup hkind | codeCheck hkind | mailCode hkind | newPass hkind =>
    rw [addressesAfter_of_none (loginAddress_eq_none rfl (by simp [hkind]))]
    rfl
  | session hkind hhandled =>
    obtain ⟨token, target, -, -, rfl⟩ := handleSessionReq_eq_ok.mp hhandled
    rw [addressesAfter_of_none (loginAddress_eq_none rfl (by simp [hkind]))]
    rfl
  | @login userInfo clientAddr environment handled hkind hhandled =>
    obtain ⟨username, password, husername, -, rfl⟩ := handleLogin_eq_ok.mp hhandled
    split_ifs
    · by_cases hname : name = username
      · simp [addressesAfter, loginAddress, issuedToken, completeLogin, hkind, husername,
          addressesOf, addClientAddress, hname]
      · simp [addressesAfter, loginAddress, issuedToken, completeLogin, hkind, husername,
          addressesOf, addClientAddress, hname, SubscriptMap.read_assign_of_ne _ _ hname]
    · rw [addressesAfter_of_none rfl]
      rfl
    · rw [addressesAfter_of_none rfl]
      rfl
  | thread hhandler hsession => exact addressesOf_sessionStep hsession name

/-- Both maps read as the address of the latest login. -/
theorem addresses_of_run {users : List Row} {history : List ServerRecord} {server : ServerState}
    (hrun : ServerRun users history server) {name : Bytes} {address : SockAddr}
    (hlogin : latestLogin history name = some address) :
    addressesOf server.exchange name = (address, address) := by
  have hkept := hrun.relation (fun history server ↦ ∀ address,
    latestLogin history name = some address → addressesOf server.exchange name = (address, address))
    (by rintro _ ⟨⟩) ?_
  · exact hkept address hlogin
  intro history state event next observation _ hbefore hstep address hlatest
  rw [@addresses_of_step ⟨state, event, observation, next⟩ hstep name, addressesAfter]
  rw [latestLogin_append_singleton] at hlatest
  cases hissued : loginAddress ⟨state, event, observation, next⟩ with
  | none =>
    rw [hissued] at hlatest
    exact hbefore address hlatest
  | some login =>
    rw [hissued] at hlatest
    by_cases hname : name = login.1
    · subst hname
      obtain rfl : login.2 = address := by simpa using hlatest
      simp
    · simp only [ne_eq, hname, not_false_eq_true, Function.update_of_ne] at hlatest
      simpa [hname] using hbefore address hlatest

/-! ### The messages -/

/-- The address value of four bytes. -/
def addressValue (octet1 octet2 octet3 octet4 : UInt8) : ℕ :=
  octet1.toNat * 0x1000000 + octet2.toNat * 0x10000 + octet3.toNat * 0x100 + octet4.toNat

/-- The endpoint of a user as the peer is meant to see it: the address and the port of the user, the
address being `127.0.0.1` when its text begins with `192`. -/
def endpointOf (address : SockAddr) : IPEndPoint where
  address :=
    if ascii "192" <+: inetNtop address then addressValue 127 0 0 1
    else addressValue address.octet1 address.octet2 address.octet3 address.octet4
  port := address.port.toNat

/-- Bytes as the characters they are. -/
def asText (bytes : Bytes) : Text := bytes.map UInt8.toUInt16

theorem asText_append (first second : Bytes) :
    asText (first ++ second) = asText first ++ asText second :=
  List.map_append

/-- The server and the client print numbers alike. -/
theorem asText_toText (number : ℕ) : asText (toText number) = decimal number := by
  rw [asText, toText, decimal, List.map_map]
  refine List.map_congr_left fun digit hdigit ↦ ?_
  obtain ⟨hvalue, -, hupper⟩ := toNat_unit_of_mem_toDigits hdigit
  have hbyte : digit.toUInt8.toNat = digit.toNat % 256 := UInt32.toNat_toUInt8 digit.val
  rw [← UInt16.toNat_inj, Function.comp_apply, UInt8.toNat_toUInt16, hvalue, hbyte]
  omega

/-- The text of an address. -/
theorem asText_inetNtop (address : SockAddr) :
    asText (inetNtop address) =
      decimal address.octet1.toNat ++ str "." ++ decimal address.octet2.toNat ++ str "." ++
        decimal address.octet3.toNat ++ str "." ++ decimal address.octet4.toNat := by
  have hdot : asText (ascii ".") = str "." := by decide
  simp only [inetNtop, asText_append, asText_toText, hdot]

/-- The address text of the details is read as the address of the endpoint, and holds no colon. -/
theorem ipAddressParse_ipChecker (address : SockAddr) :
    ipAddressParse (asText (ipChecker (inetNtop address))) = some (endpointOf address).address ∧
      colon ∉ asText (ipChecker (inetNtop address)) := by
  have hleads : ascii "192" <+: inetNtop address ↔ (inetNtop address).take 3 = ascii "192" := by
    rw [List.prefix_iff_eq_take, eq_comm]
    rfl
  rw [ipChecker, endpointOf]
  simp only [hleads]
  split_ifs
  · exact ⟨by decide +kernel, by decide +kernel⟩
  · rw [asText_inetNtop]
    refine ⟨ipAddressParse_dotted .., ?_⟩
    simp only [List.mem_append, not_or]
    have hdot : colon ∉ str "." := by decide
    exact ⟨⟨⟨⟨⟨⟨colon_notMem_decimal _, hdot⟩, colon_notMem_decimal _⟩, hdot⟩,
      colon_notMem_decimal _⟩, hdot⟩, colon_notMem_decimal _⟩

/-- The details of a client, as the other one reads them. -/
theorem utf8GetString_infoText (address : SockAddr) (role : String)
    (hrole : ∀ byte ∈ ascii role, byte < 0x80) :
    utf8GetString (infoText address role) = asText (ipChecker (inetNtop address)) ++ str ":" ++
      decimal address.port.toNat ++ str ":" ++ asText (ascii role) := by
  have hdigits : ∀ number, ∀ byte ∈ toText number, byte < 0x80 := by
    have hall : ∀ value : Fin 256, isdigit (UInt8.ofFin value) = true →
        UInt8.ofFin value < 0x80 := by decide +kernel
    exact fun number byte hbyte ↦ hall byte.toFin (isdigit_of_mem_toText hbyte)
  have hdot : ∀ byte ∈ ascii ".", byte < 0x80 := lt_of_all (by decide)
  have hcolon : ∀ byte ∈ ascii ":", byte < 0x80 := lt_of_all (by decide)
  have hip : ∀ byte ∈ ipChecker (inetNtop address), byte < 0x80 := by
    rw [ipChecker]
    split_ifs
    · exact lt_of_all (by decide)
    · simp only [inetNtop, List.forall_mem_append]
      exact ⟨⟨⟨⟨⟨⟨hdigits _, hdot⟩, hdigits _⟩, hdot⟩, hdigits _⟩, hdot⟩, hdigits _⟩
  have hascii : ∀ byte ∈ infoText address role, byte < 0x80 := by
    simp only [infoText, List.forall_mem_append]
    exact ⟨⟨⟨⟨hip, hcolon⟩, hdigits _⟩, hcolon⟩, hrole⟩
  have hread : asText (ascii ":") = str ":" := by decide
  rw [utf8GetString_of_ascii hascii]
  change asText (infoText address role) = _
  simp only [infoText, asText_append, asText_toText, hread]

/-- What `ConnectP2P` makes of the details of a client in a fresh communicator. -/
theorem connectP2P_infoText (address : SockAddr) (role : String)
    (hrole : ∀ byte ∈ ascii role, byte < 0x80) (hcolon : colon ∉ asText (ascii role)) :
    ∃ ip port, P2PCommunicator.connectP2P {} (utf8GetString (infoText address role)) =
      .ok (if asText (ascii role) = HOST_IDENTIFIER then
        { ip, port, epList := [endpointOf address] }
      else { ip, port, hostFlag := false, hostIPEP := some (endpointOf address) }) := by
  obtain ⟨haddress, hip⟩ := ipAddressParse_ipChecker address
  have hport : address.port.toNat ≤ 0xFFFF := Nat.le_of_lt_succ address.port.toNat_lt
  rw [utf8GetString_infoText address role hrole, connectP2P_join hip hcolon hport haddress]
  exact ⟨_, _, rfl⟩

/-! ### Matched clients -/

/-- When a thread sends its details, they go to the addresses from which its two users logged in
last, and connect fresh communicators there: the first as a host that has exactly the endpoint of
the second in its list, the second as a member of the first. -/
def ConnectsPeers (earlier : List ServerRecord) (record : ServerRecord) : Prop :=
  ∀ handler, movedThread record = some handler → handler.stage = .sendDetails →
    ∀ address1 address2, latestLogin earlier handler.current = some address1 →
      latestLogin earlier handler.wanted = some address2 →
        ∃ info2 info1, record.observation.details = [info2, info1] ∧
          info2.destination = address1 ∧ info1.destination = address2 ∧
          (∃ host, P2PCommunicator.connectP2P {} (utf8GetString info2.payload) = .ok host ∧
            host.hostFlag = true ∧ host.epList = [endpointOf address2]) ∧
          ∃ member, P2PCommunicator.connectP2P {} (utf8GetString info1.payload) = .ok member ∧
            member.hostFlag = false ∧ member.hostIPEP = some (endpointOf address1)

/-- In every run, matched users who have logged in are connected to each other's latest address, in
complementary roles. -/
theorem peers_connected {users : List Row} {history : List ServerRecord} {server : ServerState}
    (hrun : ServerRun users history server) : EveryStep ConnectsPeers history := by
  intro earlier record later hsplit handler hmoved hstage address1 address2 hlogin1 hlogin2
  subst hsplit
  obtain ⟨hearlier, hstep⟩ := hrun.split
  obtain ⟨hmap1, haddress1⟩ := Prod.mk.inj (addresses_of_run hearlier hlogin1)
  obtain ⟨hmap2, haddress2⟩ := Prod.mk.inj (addresses_of_run hearlier hlogin2)
  have hsent : record.observation.details =
      detailsSent record.before.exchange handler.current handler.wanted := by
    cases sessionStep_of_step hstep with
    | other _ _ hnone | login _ _ _ _ _ hnone | request _ _ _ _ hnone =>
      cases hnone.symm.trans hmoved
    | thread index moved handler' _ _ hthread _ _ _ hsession =>
      cases hthread.symm.trans hmoved
      obtain ⟨-, -, hcases⟩ := sessionStep_cases hsession
      simp only [hstage, reduceCtorEq, false_and, false_or, true_and] at hcases
      exact hcases.2.1
  rw [detailsSent, hmap1, hmap2, haddress1, haddress2] at hsent
  obtain ⟨ip2, port2, hhost⟩ :=
    connectP2P_infoText address2 "H" (lt_of_all (by decide)) (by decide)
  obtain ⟨ip1, port1, hmember⟩ :=
    connectP2P_infoText address1 "C" (lt_of_all (by decide)) (by decide)
  rw [if_pos (by decide)] at hhost
  rw [if_neg (by decide)] at hmember
  exact ⟨_, _, hsent, rfl, rfl, ⟨_, hhost, rfl, rfl⟩, ⟨_, hmember, rfl, rfl⟩⟩

/-- A login of a plain row from an address. -/
def loginFrom (name : String) (clientAddr : SockAddr) : Event :=
  .receive (ascii ("L:" ++ name ++ ":" ++ name)) clientAddr
    { calmEnvironment with sessionToken := ascii (name ++ "1") }

/-- A user who logs in twice, the second time from a local network, is matched with another one. -/
theorem peers_connected_match :
    ∃ history server, ServerRun [plainRow "ann", plainRow "bob"] history server ∧
      history.any (fun record ↦ record.observation.details.length = 2) = true ∧
      latestLogin history (ascii "ann") = some ⟨192, 168, 0, 7, 4000⟩ ∧
      EveryStep ConnectsPeers history := by
  obtain ⟨history, server, hrun, -, hcheck⟩ := exists_run_of_execute step
    (start [plainRow "ann", plainRow "bob"])
    ([loginFrom "ann" ⟨10, 0, 0, 1, 5000⟩, loginFrom "bob" ⟨8, 8, 4, 4, 65535⟩,
      loginFrom "ann" ⟨192, 168, 0, 7, 4000⟩, request "J:ann1:bob", request "J:bob1:ann"] ++
      [0, 0, 0, 1, 1, 0, 0, 0].map Event.thread)
    (fun history _ ↦ history.any (fun record ↦ record.observation.details.length = 2) ∧
      latestLogin history (ascii "ann") = some ⟨192, 168, 0, 7, 4000⟩) (by decide +kernel)
  obtain ⟨hsent, hlatest⟩ := of_decide_eq_true hcheck
  exact ⟨history, server, hrun, hsent, hlatest, peers_connected hrun⟩

end NovaIde.Protocol
