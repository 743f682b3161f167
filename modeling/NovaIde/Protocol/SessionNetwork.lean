import NovaIde.Client.SharedQueues
import NovaIde.Protocol.SessionStart

/-!
# Updates between clients

A session is a host and its members, each with its threads, and a network between them that may lose
or reorder what is sent but does not duplicate it. A member sends its local changes to the host and
undoes them at once, so that its editor only changes by what the host sends back; the host sends
every update on to all members, the one that it came from included, and hands it to its own editor.

Here the steps of all threads of all clients interleave with what the network does, where each
operation of a `Queue` or a `List` that threads share is one step. Whatever the order, at every
moment each change is in exactly one place on its way to each of the editors (`host_accounted`,
`member_accounted`). So no editor is handed an update twice or one that nobody typed
(`handed_out_once`), and when nothing is lost and everything has come to rest every editor was
handed every update, but for the host's own and those that the host began to send before it knew the
member (`handed_out_at_rest`).
-/

set_option autoImplicit false
set_option relaxedAutoImplicit false

namespace NovaIde.Protocol

open Foundation Foundation.EventRun Client

/-! ### Clients and network -/

/-- The clients by the endpoints at which the others reach them, and what is on its way. -/
structure UpdateNetwork where
  clients : IPEndPoint → ThreadedClient := fun _ ↦ {}
  inFlight : List PeerDatagram := []

/-- What happens. -/
inductive NetworkEvent
  /-- a step of a client, but for its listeners -/
  | act (address : IPEndPoint) (event : ThreadedEvent)
  /-- a listener of the client that a datagram is for receives it -/
  | deliver (index : ℕ)
  | lose (index : ℕ)
  /-- a greeting, the information for a member or files are sent -/
  | send (datagram : PeerDatagram)
  /-- a process ends -/
  | exit (address : IPEndPoint)
deriving DecidableEq, Repr

/-- Whether a listener receives. -/
def listens : ThreadedEvent → Bool
  | .receive _ => true
  | _ => false

/-- Where a client sends what it sends. -/
def posts (client : ThreadedClient) : ThreadedOutput → List PeerDatagram
  | .host (.sent position data) =>
    client.epList[position]?.toList.map fun endpoint ↦ ⟨endpoint, data⟩
  | .toHost data => client.hostIPEP.toList.map fun endpoint ↦ ⟨endpoint, data⟩
  | _ => []

/-- One step of the clients and the network. -/
def UpdateNetwork.step (network : UpdateNetwork) :
    NetworkEvent → Option (UpdateNetwork × ThreadedOutput)
  | .act address event =>
    if listens event then none
    else do
      let (client, output) ← (network.clients address).step event
      return ({ clients := Function.update network.clients address client
                inFlight := network.inFlight ++ posts (network.clients address) output },
        output)
  | .deliver index => do
    let datagram ← network.inFlight[index]?
    let (client, output) ←
      (network.clients datagram.destination).step (.receive datagram.data)
    return ({ clients := Function.update network.clients datagram.destination client
              inFlight := network.inFlight.eraseIdx index }, output)
  | .lose index =>
    if index < network.inFlight.length then
      some ({ network with inFlight := network.inFlight.eraseIdx index }, .host .nothing)
    else none
  | .send datagram =>
    if isUpdateMessage (asciiGetString datagram.data) then none
    else some ({ network with inFlight := network.inFlight ++ [datagram] }, .host .nothing)
  | .exit address =>
    some ({ network with
      clients := Function.update network.clients address
        { network.clients address with running := false } }, .host .nothing)

/-- The steps of a run of the clients and the network. -/
abbrev NetworkRecord := StepRecord UpdateNetwork NetworkEvent ThreadedOutput

/-- The runs of the clients and the network. -/
abbrev NetworkRun : List NetworkRecord → UpdateNetwork → Prop := Run UpdateNetwork.step {}

/-- The ways the clients and the network take a step. -/
inductive NetworkStep (network : UpdateNetwork) :
    NetworkEvent → UpdateNetwork → ThreadedOutput → Prop
  | act (address : IPEndPoint) (event : ThreadedEvent) (client : ThreadedClient)
      (output : ThreadedOutput) (hquiet : listens event = false)
      (hclient : (network.clients address).step event = some (client, output)) :
      NetworkStep network (.act address event)
        { clients := Function.update network.clients address client
          inFlight := network.inFlight ++ posts (network.clients address) output } output
  | deliver (index : ℕ) (datagram : PeerDatagram) (client : ThreadedClient)
      (output : ThreadedOutput) (hdatagram : network.inFlight[index]? = some datagram)
      (hclient : (network.clients datagram.destination).step (.receive datagram.data) =
        some (client, output)) :
      NetworkStep network (.deliver index)
        { clients := Function.update network.clients datagram.destination client
          inFlight := network.inFlight.eraseIdx index } output
  | lose (index : ℕ) (datagram : PeerDatagram)
      (hdatagram : network.inFlight[index]? = some datagram) :
      NetworkStep network (.lose index)
        { network with inFlight := network.inFlight.eraseIdx index } (.host .nothing)
  | send (datagram : PeerDatagram)
      (hother : isUpdateMessage (asciiGetString datagram.data) = false) :
      NetworkStep network (.send datagram)
        { network with inFlight := network.inFlight ++ [datagram] } (.host .nothing)
  | exit (address : IPEndPoint) :
      NetworkStep network (.exit address)
        { network with
          clients := Function.update network.clients address
            { network.clients address with running := false } } (.host .nothing)

/-- Every step is one of these. -/
theorem networkStep_of_step {network next : UpdateNetwork} {event : NetworkEvent}
    {output : ThreadedOutput} (hstep : network.step event = some (next, output)) :
    NetworkStep network event next output := by
  cases event with
  | act address event =>
    simp only [UpdateNetwork.step] at hstep
    split_ifs at hstep with hlistens
    simp only [Option.bind_eq_bind, Option.bind_eq_some_iff, Option.pure_def,
      Option.some.injEq] at hstep
    obtain ⟨⟨client, shown⟩, hclient, hpair⟩ := hstep
    cases hpair
    exact .act address event client _ (by simpa using hlistens) hclient
  | deliver index =>
    simp only [UpdateNetwork.step, Option.bind_eq_bind, Option.bind_eq_some_iff, Option.pure_def,
      Option.some.injEq] at hstep
    obtain ⟨datagram, hdatagram, ⟨client, shown⟩, hclient, hpair⟩ := hstep
    cases hpair
    exact .deliver index datagram client _ hdatagram hclient
  | lose index =>
    simp only [UpdateNetwork.step] at hstep
    split_ifs at hstep with hindex
    cases hstep
    exact .lose index network.inFlight[index] (List.getElem?_eq_getElem hindex)
  | send datagram =>
    simp only [UpdateNetwork.step] at hstep
    split_ifs at hstep with hupdate
    cases hstep
    exact .send datagram (by simpa using hupdate)
  | exit address =>
    cases hstep
    exact .exit address

/-! ### The part of a client -/

/-- The step of a client in a step of the network, if it is one of this client. -/
def stepOf (address : IPEndPoint) (record : NetworkRecord) : List ThreadedRecord :=
  match record.event with
  | .act other event =>
    if other = address then
      [⟨record.before.clients other, event, record.observation, record.after.clients other⟩]
    else []
  | .deliver index =>
    record.before.inFlight[index]?.toList.flatMap fun datagram ↦
      if datagram.destination = address then
        [⟨record.before.clients address, .receive datagram.data, record.observation,
          record.after.clients address⟩]
      else []
  | _ => []

/-- The steps of a client in a run. -/
def stepsOf (address : IPEndPoint) (history : List NetworkRecord) : List ThreadedRecord :=
  history.flatMap (stepOf address)

/-- What a client sent in a run. -/
def postedBy (address : IPEndPoint) (history : List NetworkRecord) : List PeerDatagram :=
  (stepsOf address history).flatMap fun record ↦ posts record.before record.observation

/-- What the network lost in a run. -/
def lostIn (history : List NetworkRecord) : List PeerDatagram :=
  history.flatMap fun record ↦
    match record.event with
    | .lose index => record.before.inFlight[index]?.toList
    | _ => []

section Parts

variable {history : List NetworkRecord} {network next : UpdateNetwork} {event : NetworkEvent}
  {output : ThreadedOutput} {address : IPEndPoint}

theorem stepsOf_snoc (address : IPEndPoint) (history : List NetworkRecord)
    (record : NetworkRecord) :
    stepsOf address (history ++ [record]) = stepsOf address history ++ stepOf address record := by
  simp [stepsOf]

/-- What the steps of a client keep, and the end of its process too, holds of its part of a run of
the network. The steps may be those that are allowed to the client. -/
theorem part_of_run (allowed : IPEndPoint → ThreadedEvent → Prop)
    (part : IPEndPoint → List ThreadedRecord → ThreadedClient → Prop)
    (hreceive : ∀ address data, allowed address (.receive data))
    (hstart : ∀ address, part address [] {})
    (hstep : ∀ address steps client event next output, part address steps client →
      allowed address event → client.step event = some (next, output) →
        part address (steps ++ [⟨client, event, output, next⟩]) next)
    (hexit : ∀ address steps client, part address steps client →
      part address steps { client with running := false })
    (hrun : NetworkRun history network)
    (hallowed : ∀ record ∈ history, ∀ address event, record.event = .act address event →
      allowed address event) (address : IPEndPoint) :
    part address (stepsOf address history) (network.clients address) := by
  induction hrun with
  | start => exact hstart address
  | @extend history network next event output hrun hnetwork ih =>
    have hbefore := ih fun record hmem ↦ hallowed record (List.mem_append_left _ hmem)
    have hnow := hallowed _ (List.mem_append_right history (List.mem_singleton_self _))
    rw [stepsOf_snoc]
    cases networkStep_of_step hnetwork with
    | act other event client _ hquiet hclient =>
      by_cases hsame : other = address
      · subst hsame
        simpa [stepOf] using hstep other _ _ event client output hbefore (hnow other event rfl)
          hclient
      · simpa [stepOf, hsame, Ne.symm hsame] using hbefore
    | deliver index datagram client _ hdatagram hclient =>
      by_cases hsame : datagram.destination = address
      · subst hsame
        simpa [stepOf, hdatagram] using
          hstep _ _ _ _ client output hbefore (hreceive _ datagram.data) hclient
      · simpa [stepOf, hdatagram, hsame, Ne.symm hsame] using hbefore
    | lose => simpa [stepOf] using hbefore
    | send => simpa [stepOf] using hbefore
    | exit other =>
      by_cases hsame : other = address
      · subst hsame
        simpa [stepOf] using hexit other _ _ hbefore
      · simpa [stepOf, Ne.symm hsame] using hbefore

end Parts

/-! ### What the network does -/

/-- The updates that datagrams are read as. -/
def readAs (data : List Datagram) : List Text := (data.map asciiGetString).filter isUpdateMessage

/-- What arrives of texts that are sent. -/
def arrivalsOf (texts : List Text) : List Text := (texts.map asReceived).filter isUpdateMessage

/-- The updates in datagrams for a client. -/
def towards (address : IPEndPoint) (datagrams : List PeerDatagram) : List Text :=
  readAs ((datagrams.filter fun datagram ↦ datagram.destination = address).map PeerDatagram.data)

section Network

variable {history : List NetworkRecord} {network : UpdateNetwork} {address : IPEndPoint}

@[simp] theorem readAs_nil : readAs [] = [] := rfl

@[simp] theorem readAs_append (data others : List Datagram) :
    readAs (data ++ others) = readAs data ++ readAs others := by
  simp [readAs]

@[simp] theorem arrivalsOf_nil : arrivalsOf [] = [] := rfl

@[simp] theorem readAs_map_utf8GetBytes (texts : List Text) :
    readAs (texts.map utf8GetBytes) = arrivalsOf texts := by
  rw [readAs, List.map_map]
  rfl

/-- Empty datagrams are read as no update. -/
@[simp] theorem readAs_replicate_nil (blanks : ℕ) :
    readAs (List.replicate blanks (utf8GetBytes [])) = [] := by
  have hempty : isUpdateMessage (asciiGetString (utf8GetBytes [])) = false := by decide
  simp [readAs, hempty]

theorem isAscii_asciiGetString (data : Datagram) : IsAscii (asciiGetString data) := by
  intro char hchar
  obtain ⟨byte, -, rfl⟩ := List.mem_map.mp hchar
  split_ifs with hbyte
  · rw [UInt16.lt_iff_toNat_lt, UInt8.toNat_toUInt16]
    exact UInt8.lt_iff_toNat_lt.mp hbyte
  · decide

/-- What is received arrives as it is when it is sent on. -/
theorem arrivalsOf_received (event : ThreadedEvent) :
    arrivalsOf event.received = event.received := by
  cases event with
  | receive receiveBytes =>
    simp only [ThreadedEvent.received]
    split_ifs with hupdate
    · have hsame : asReceived (asciiGetString receiveBytes) = asciiGetString receiveBytes :=
        asReceived_of_ascii (isAscii_asciiGetString receiveBytes)
      simp [arrivalsOf, hsame, hupdate]
    · rfl
  | _ => rfl

@[simp] theorem towards_nil (address : IPEndPoint) : towards address [] = [] := rfl

@[simp] theorem towards_append (address : IPEndPoint) (datagrams others : List PeerDatagram) :
    towards address (datagrams ++ others) =
      towards address datagrams ++ towards address others := by
  simp [towards]

/-- What is in a datagram that a client takes is received, and nothing of it by the others. -/
theorem towards_singleton (address : IPEndPoint) (datagram : PeerDatagram) :
    towards address [datagram] =
      if datagram.destination = address then
        (ThreadedEvent.receive datagram.data).received
      else [] := by
  simp only [towards, ThreadedEvent.received]
  split_ifs with hsame hupdate
  · simp [hsame, readAs, hupdate]
  · simp [hsame, readAs, hupdate]
  · simp [hsame]

/-- A datagram leaves the network. -/
theorem perm_towards_eraseIdx {datagrams : List PeerDatagram} {index : ℕ} {datagram : PeerDatagram}
    (hdatagram : datagrams[index]? = some datagram) (address : IPEndPoint) :
    (towards address datagrams).Perm
      (towards address [datagram] ++ towards address (datagrams.eraseIdx index)) := by
  obtain ⟨hindex, rfl⟩ := List.getElem?_eq_some_iff.mp hdatagram
  rw [← towards_append]
  exact (((List.getElem_cons_eraseIdx_perm hindex).symm.filter _).map _ |>.map _).filter _

theorem postedBy_snoc (address : IPEndPoint) (history : List NetworkRecord)
    (record : NetworkRecord) :
    postedBy address (history ++ [record]) = postedBy address history ++
      (stepOf address record).flatMap fun step ↦ posts step.before step.observation := by
  simp [postedBy, stepsOf]

theorem lostIn_snoc (history : List NetworkRecord) (record : NetworkRecord) :
    lostIn (history ++ [record]) = lostIn history ++ lostIn [record] := by
  simp [lostIn]

/-- A listener answers nothing. -/
theorem output_of_receive {client next : ThreadedClient} {receiveBytes : Datagram}
    {output : ThreadedOutput}
    (hstep : client.step (.receive receiveBytes) = some (next, output)) :
    output = .host .nothing := by
  obtain ⟨-, hstep⟩ := threadedStep_of_step hstep
  cases hstep
  rfl

/-- What is sent in a step of the network. -/
def postedIn (record : NetworkRecord) : List PeerDatagram :=
  match record.event with
  | .act address _ => posts (record.before.clients address) record.observation
  | _ => []

/-- What is sent and on its way before a step of the network is received, on its way or lost after
it. -/
theorem arrivals_of_step {next : UpdateNetwork} {event : NetworkEvent} {output : ThreadedOutput}
    (hstep : NetworkStep network event next output) (address : IPEndPoint) :
    (towards address (postedIn ⟨network, event, output, next⟩) ++
      towards address network.inFlight).Perm
    (receivedIn (stepOf address ⟨network, event, output, next⟩) ++
      towards address next.inFlight ++
        towards address (lostIn [⟨network, event, output, next⟩])) := by
  cases hstep with
  | act other event client _ hquiet hclient =>
    have hnone : event.received = [] := by
      cases event with
      | receive => cases hquiet
      | _ => rfl
    have hreceived : receivedIn (stepOf address ⟨network, .act other event, output,
        { clients := Function.update network.clients other client
          inFlight := network.inFlight ++ posts (network.clients other) output }⟩) = [] := by
      simp only [stepOf, receivedIn]
      split_ifs <;> simp [hnone]
    rw [hreceived]
    simpa [postedIn, lostIn] using List.perm_append_comm
  | deliver index datagram client _ hdatagram hclient =>
    have hreceived : receivedIn (stepOf address ⟨network, .deliver index, output,
        { clients := Function.update network.clients datagram.destination client
          inFlight := network.inFlight.eraseIdx index }⟩) = towards address [datagram] := by
      rw [towards_singleton]
      simp only [stepOf, hdatagram, receivedIn]
      split_ifs <;> simp_all
    rw [hreceived]
    simpa [postedIn, lostIn] using perm_towards_eraseIdx hdatagram address
  | lose index datagram hdatagram =>
    have hleft := perm_towards_eraseIdx hdatagram address
    simpa [postedIn, lostIn, stepOf, receivedIn, hdatagram] using
      hleft.trans List.perm_append_comm
  | send datagram hother =>
    have hnone : towards address [datagram] = [] := by
      rw [towards_singleton]
      simp [ThreadedEvent.received, hother]
    simp [postedIn, lostIn, stepOf, receivedIn, hnone]
  | exit other => simp [postedIn, lostIn, stepOf, receivedIn]

/-- What one of the clients sends in a step is added to what they sent. -/
theorem posted_of_step {clients : List IPEndPoint} {next : UpdateNetwork} {event : NetworkEvent}
    {output : ThreadedOutput} (hstep : NetworkStep network event next output)
    (hnodup : clients.Nodup)
    (hactor : ∀ address action, event = .act address action → address ∈ clients)
    (history : List NetworkRecord) (address : IPEndPoint) :
    (clients.flatMap fun sender ↦
      towards address (postedBy sender (history ++ [⟨network, event, output, next⟩]))).Perm
    ((clients.flatMap fun sender ↦ towards address (postedBy sender history)) ++
      towards address (postedIn ⟨network, event, output, next⟩)) := by
  have hsilent : (∀ sender, (stepOf sender ⟨network, event, output, next⟩).flatMap
      (fun step ↦ posts step.before step.observation) = []) →
      postedIn ⟨network, event, output, next⟩ = [] →
      (clients.flatMap fun sender ↦
        towards address (postedBy sender (history ++ [⟨network, event, output, next⟩]))).Perm
      ((clients.flatMap fun sender ↦ towards address (postedBy sender history)) ++
        towards address (postedIn ⟨network, event, output, next⟩)) := by
    intro hnone hposted
    rw [hposted, towards_nil, List.append_nil]
    refine List.Perm.of_eq (congrArg (fun has ↦ clients.flatMap has) (funext fun sender ↦ ?_))
    rw [postedBy_snoc, hnone, List.append_nil]
  cases hstep with
  | act other event client _ hquiet hclient =>
    have hchanged := perm_flatMap_of_ne
      (fun sender ↦ towards address (postedBy sender history))
      (fun sender ↦ towards address (postedBy sender (history ++
        [⟨network, .act other event, output,
          { clients := Function.update network.clients other client
            inFlight := network.inFlight ++ posts (network.clients other) output }⟩])))
      hnodup (hactor other event rfl) fun sender _ hne ↦ by
        simp [postedBy_snoc, stepOf, Ne.symm hne]
    rw [List.perm_iff_count] at hchanged ⊢
    intro update
    have hchanged := hchanged update
    simp only [List.count_append] at hchanged ⊢
    have hown : postedBy other (history ++ [⟨network, .act other event, output,
        { clients := Function.update network.clients other client
          inFlight := network.inFlight ++ posts (network.clients other) output }⟩]) =
        postedBy other history ++ posts (network.clients other) output := by
      simp [postedBy_snoc, stepOf]
    rw [hown, towards_append, List.count_append] at hchanged
    simp only [postedIn]
    omega
  | deliver index datagram client _ hdatagram hclient =>
    obtain rfl := output_of_receive hclient
    refine hsilent (fun sender ↦ ?_) rfl
    by_cases hsame : datagram.destination = sender <;> simp [stepOf, hdatagram, hsame, posts]
  | lose => exact hsilent (fun _ ↦ rfl) rfl
  | send => exact hsilent (fun _ ↦ rfl) rfl
  | exit => exact hsilent (fun _ ↦ rfl) rfl

/-- What the clients sent to an address was received there, is on its way or is lost. -/
theorem arrivals_of_run {clients : List IPEndPoint} (hrun : NetworkRun history network)
    (hnodup : clients.Nodup)
    (hactors : ∀ record ∈ history, ∀ address event, record.event = .act address event →
      address ∈ clients) (address : IPEndPoint) :
    (clients.flatMap fun sender ↦ towards address (postedBy sender history)).Perm
      (receivedIn (stepsOf address history) ++ towards address network.inFlight ++
        towards address (lostIn history)) := by
  induction hrun with
  | start =>
    have hnone : (clients.flatMap fun sender ↦ towards address (postedBy sender [])) = [] :=
      List.flatMap_eq_nil_iff.mpr fun sender _ ↦ rfl
    rw [hnone]
    exact .nil
  | @extend history network next event output hrun hnetwork ih =>
    have hstep := networkStep_of_step hnetwork
    have hbefore := ih fun record hmem ↦ hactors record (List.mem_append_left _ hmem)
    have hposted := posted_of_step hstep hnodup
      (hactors _ (List.mem_append_right history (List.mem_singleton_self _))) history address
    have hmoved := arrivals_of_step hstep address
    rw [List.perm_iff_count]
    intro update
    have hbefore := hbefore.count_eq update
    have hposted := hposted.count_eq update
    have hmoved := hmoved.count_eq update
    rw [lostIn_snoc, stepsOf_snoc]
    have happend : ∀ steps others : List ThreadedRecord,
        receivedIn (steps ++ others) = receivedIn steps ++ receivedIn others := by
      simp [receivedIn]
    rw [happend]
    simp only [towards_append, List.count_append] at hbefore hposted hmoved ⊢
    omega

end Network

/-! ### A host and its members -/

/-- The host opens sessions with members, and they open sessions with the host. -/
def joinsOnly (host : IPEndPoint) (members : List IPEndPoint) (address : IPEndPoint) :
    ThreadedEvent → Bool
  | .connectP2P .host endpoint => address = host && endpoint ∈ members
  | .connectP2P .member endpoint => address ≠ host && endpoint = host
  | _ => true

/-- An event of a host and its members: nobody else takes a step, and all sessions are theirs. -/
def ofSession (host : IPEndPoint) (members : List IPEndPoint) : NetworkEvent → Bool
  | .act address event => address ∈ host :: members && joinsOnly host members address event
  | _ => true

/-- A run of a host and its members. -/
def KeepsToSession (host : IPEndPoint) (members : List IPEndPoint) (history : List NetworkRecord) :
    Prop :=
  ∀ record ∈ history, ofSession host members record.event = true

/-- What stays true of a client that is only ever a host. -/
structure HostSide (members : List IPEndPoint) (steps : List ThreadedRecord)
    (client : ThreadedClient) : Prop where
  hostFlag : client.hostFlag = true
  memberScanners : client.memberScanners = []
  members : ∀ endpoint ∈ client.epList, endpoint ∈ members
  received : receivedAsHost steps = receivedIn steps
  silent : sentToHostIn steps = []
  sent : ∀ record ∈ steps, record.before.epList <+: client.epList ∧
    ∀ position data, record.observation = .host (.sent position data) →
      position < record.before.epList.length

/-- What stays true of a client that is only ever a member. -/
structure MemberSide (host : IPEndPoint) (steps : List ThreadedRecord) (client : ThreadedClient) :
    Prop where
  epList : client.epList = []
  threads : client.distributors = [] ∧ client.scanners = []
  role : client.hostFlag = client.hostIPEP.isNone
  connecting : client.connecting = true → client.hostFlag = false
  hostIPEP : ∀ endpoint, client.hostIPEP = some endpoint → endpoint = host
  received : receivedAsHost steps = []
  loops : begunLoops steps = []
  posted : (steps.flatMap fun record ↦ posts record.before record.observation) =
    (sentToHostIn steps).map fun data ↦ ⟨host, data⟩

section Sides

variable {host address : IPEndPoint} {members : List IPEndPoint} {steps : List ThreadedRecord}
  {client next : ThreadedClient} {event : ThreadedEvent} {output : ThreadedOutput}

/-- A loop only sends to positions of the list. -/
theorem sent_lt_of_step {position : ℕ} {data : Datagram}
    (hstep : ThreadedStep client event next (.host (.sent position data))) :
    position < client.epList.length := by
  cases hstep with
  | scan _ _ _ _ _ _ hchange => cases hchange
  | memberScan _ _ _ _ _ _ hchange => cases hchange
  | broadcast _ _ _ _ _ hloop =>
    cases hloop with
    | send _ _ hposition => exact hposition
  | broadcastChange _ _ _ _ _ hloop =>
    cases hloop with
    | send _ _ hposition => exact hposition

/-- Only a thread of a member sends to a host, and only a thread of a host begins a loop. -/
theorem silent_of_step (hstep : ThreadedStep client event next output) :
    (client.memberScanners = [] → output.sentToHost = []) ∧
      (client.distributors = [] → client.scanners = [] →
        output.loops = [] ∧ ∀ position data, output ≠ .host (.sent position data)) := by
  cases hstep with
  | sendChange _ _ hstage =>
    refine ⟨fun hnone ↦ ?_, fun _ _ ↦ ⟨rfl, by simp⟩⟩
    rw [hnone] at hstage
    cases hstage
  | broadcast _ _ _ _ hstage hloop =>
    refine ⟨fun _ ↦ hloop.silent.2, fun hnone _ ↦ ?_⟩
    rw [hnone] at hstage
    cases hstage
  | broadcastChange _ _ _ _ hstage hloop =>
    refine ⟨fun _ ↦ hloop.silent.2, fun _ hnone ↦ ?_⟩
    rw [hnone] at hstage
    cases hstage
  | scan _ _ _ _ _ hstage hchange =>
    refine ⟨fun _ ↦ hchange.conserves.2.2.2.2.2.2.1, fun _ hnone ↦ ?_⟩
    rw [hnone] at hstage
    cases hstage
  | memberScan _ _ _ _ _ hstage hchange =>
    refine ⟨fun hnone ↦ ?_, fun _ _ ↦ ?_⟩
    · rw [hnone] at hstage
      cases hstage
    · cases hchange <;> exact ⟨rfl, by simp⟩
  | _ => exact ⟨fun _ ↦ rfl, fun _ _ ↦ ⟨rfl, by simp⟩⟩

/-- A list of members only grows. -/
theorem epList_prefix_of_step (hstep : ThreadedStep client event next output) :
    client.epList <+: next.epList := by
  cases hsession : event.connects with
  | false => rw [(role_of_step hstep hsession).2]
  | true =>
    cases hstep with
    | connectHost endpoint => exact List.prefix_append _ _
    | connectMember => exact List.prefix_refl _
    | _ => cases hsession

/-- A listener only adds to a queue. -/
theorem fields_p2pListener (client : ThreadedClient) (receiveBytes : Datagram) :
    (client.p2pListener receiveBytes).hostFlag = client.hostFlag ∧
      (client.p2pListener receiveBytes).hostIPEP = client.hostIPEP ∧
      (client.p2pListener receiveBytes).connecting = client.connecting ∧
      (client.p2pListener receiveBytes).distributors = client.distributors ∧
      (client.p2pListener receiveBytes).scanners = client.scanners ∧
      (client.p2pListener receiveBytes).memberScanners = client.memberScanners := by
  simp only [ThreadedClient.p2pListener]
  split_ifs <;> exact ⟨rfl, rfl, rfl, rfl, rfl, rfl⟩

theorem hostSide_start (members : List IPEndPoint) : HostSide members [] {} :=
  ⟨rfl, rfl, by simp, rfl, rfl, by simp⟩

/-- Every step of a host that opens no session as a member keeps it one. -/
theorem HostSide.step (hside : HostSide members steps client)
    (hallowed : joinsOnly host members host event = true)
    (hstep : ThreadedStep client event next output) :
    HostSide members (steps ++ [⟨client, event, output, next⟩]) next := by
  have hrole : next.hostFlag = true ∧ ∀ endpoint ∈ next.epList, endpoint ∈ members := by
    cases hsession : event.connects with
    | false =>
      obtain ⟨hflag, hlist⟩ := role_of_step hstep hsession
      exact ⟨hflag.trans hside.hostFlag, hlist ▸ hside.members⟩
    | true =>
      cases hstep with
      | connectHost endpoint =>
        refine ⟨hside.hostFlag, fun other hother ↦ ?_⟩
        rcases List.mem_append.mp hother with hold | hnew
        · exact hside.members other hold
        · rw [List.mem_singleton.mp hnew]
          simpa [joinsOnly] using hallowed
      | connectMember endpoint => simp [joinsOnly] at hallowed
      | _ => cases hsession
  have hscanners : next.memberScanners = [] := by
    cases hstep with
    | startMember _ hmember => exact absurd (hmember.symm.trans hside.hostFlag) (by decide)
    | receive => exact (fields_p2pListener client _).2.2.2.2.2.trans hside.memberScanners
    | memberScan | sendChange => simp [hside.memberScanners]
    | _ => exact hside.memberScanners
  refine ⟨hrole.1, hscanners, hrole.2, ?_, ?_, fun record hmem ↦ ?_⟩
  · have hreceived := hside.received
    simp only [receivedAsHost, receivedIn, List.flatMap_append, List.flatMap_singleton,
      hside.hostFlag, if_true] at hreceived ⊢
    rw [hreceived]
  · have hsilent := hside.silent
    simp only [sentToHostIn, List.flatMap_append, List.flatMap_singleton] at hsilent ⊢
    rw [hsilent, (silent_of_step hstep).1 hside.memberScanners, List.append_nil]
  · have hgrows := epList_prefix_of_step hstep
    rcases List.mem_append.mp hmem with hold | hnew
    · obtain ⟨hgrown, hposition⟩ := hside.sent record hold
      exact ⟨hgrown.trans hgrows, hposition⟩
    · rw [List.mem_singleton.mp hnew]
      refine ⟨hgrows, fun position data houtput ↦ ?_⟩
      dsimp only at houtput
      subst houtput
      exact sent_lt_of_step hstep

theorem memberSide_start (host : IPEndPoint) : MemberSide host [] {} :=
  ⟨rfl, ⟨rfl, rfl⟩, rfl, by simp, by simp, rfl, rfl, rfl⟩

/-- What a member sends goes to the host. -/
theorem MemberSide.posts_eq (hside : MemberSide host steps client)
    (hstep : ThreadedStep client event next output) :
    posts client output = output.sentToHost.map fun data ↦ ⟨host, data⟩ := by
  have hsent := ((silent_of_step hstep).2 hside.threads.1 hside.threads.2).2
  cases output with
  | toHost data =>
    have hhost : client.hostIPEP = some host := by
      cases hstep with
      | memberScan _ _ _ _ _ _ hchange => cases hchange
      | scan _ _ _ _ _ _ hchange => cases hchange
      | broadcast _ _ _ _ _ hloop => cases hloop
      | broadcastChange _ _ _ _ _ hloop => cases hloop
      | sendChange _ _ _ hsome =>
        obtain ⟨endpoint, hendpoint⟩ := Option.ne_none_iff_exists'.mp hsome
        rw [hendpoint, hside.hostIPEP endpoint hendpoint]
    simp [posts, hhost, ThreadedOutput.sentToHost]
  | host shown =>
    cases shown with
    | sent position data => exact absurd rfl (hsent position data)
    | _ => rfl
  | _ => rfl

/-- Every step of a member that opens only sessions with the host keeps it one. -/
theorem MemberSide.step (hside : MemberSide host steps client)
    (hother : address ≠ host) (hallowed : joinsOnly host members address event = true)
    (hstep : ThreadedStep client event next output) :
    MemberSide host (steps ++ [⟨client, event, output, next⟩]) next := by
  obtain ⟨hloops, -⟩ := (silent_of_step hstep).2 hside.threads.1 hside.threads.2
  have hposts := hside.posts_eq hstep
  have hreceived : (if client.hostFlag then event.received else []) = [] := by
    split_ifs with hhost
    · cases event with
      | receive =>
        cases hstep with
        | receive _ hpeer =>
          refine absurd ⟨hside.epList, ?_⟩ hpeer
          simpa [hhost] using hside.role
      | _ => rfl
    · rfl
  have hhistory : receivedAsHost (steps ++ [⟨client, event, output, next⟩]) = [] ∧
      begunLoops (steps ++ [⟨client, event, output, next⟩]) = [] ∧
      ((steps ++ [(⟨client, event, output, next⟩ : ThreadedRecord)]).flatMap fun record ↦
        posts record.before record.observation) =
          (sentToHostIn (steps ++ [⟨client, event, output, next⟩])).map fun data : Datagram ↦
            (⟨host, data⟩ : PeerDatagram) := by
    have hbefore := hside.received
    have hposted := hside.posted
    refine ⟨?_, ?_, ?_⟩
    · simp only [receivedAsHost, List.flatMap_append, List.flatMap_singleton] at hbefore ⊢
      rw [hbefore, hreceived, List.append_nil]
    · rw [begunLoops_snoc, hside.loops, hloops, List.append_nil]
    · simp only [sentToHostIn, List.flatMap_append, List.flatMap_singleton,
        List.map_append] at hposted ⊢
      rw [hposted, hposts]
  obtain ⟨hreceived, hloops, hposted⟩ := hhistory
  cases hstep with
  | connectHost endpoint => simp [joinsOnly, hother] at hallowed
  | connectMember endpoint =>
    obtain ⟨-, rfl⟩ : address ≠ host ∧ endpoint = host := by simpa [joinsOnly] using hallowed
    exact { hside with
      role := rfl
      connecting := fun _ ↦ rfl
      hostIPEP := fun other hother ↦ (Option.some.inj hother).symm
      received := hreceived, loops := hloops, posted := hposted }
  | startHost hconnecting hhost =>
    exact absurd ((hside.connecting hconnecting).symm.trans hhost) (by decide)
  | startMember =>
    exact { hside with
      connecting := by simp
      received := hreceived, loops := hloops, posted := hposted }
  | receive receiveBytes =>
    obtain ⟨hflag, hpeer, hconnects, hdistributors, hscanners, -⟩ :=
      fields_p2pListener client receiveBytes
    have hlist := (role_of_step (.receive receiveBytes ‹_›) rfl).2
    refine ⟨hlist.trans hside.epList, ?_, ?_, ?_, ?_, hreceived, hloops, hposted⟩
    · rw [hdistributors, hscanners]
      exact hside.threads
    · rw [hflag, hpeer]
      exact hside.role
    · rw [hconnects, hflag]
      exact hside.connecting
    · rw [hpeer]
      exact hside.hostIPEP
  | _ =>
    exact { hside with
      threads := by simp [hside.threads]
      received := hreceived, loops := hloops, posted := hposted }

end Sides

/-! ### Where every change is -/

/-- What arrives of the changes that the users of clients made. -/
def changesOf (clients : List IPEndPoint) (history : List NetworkRecord) : List Text :=
  clients.flatMap fun client ↦ arrivalsOf (changedIn (stepsOf client history))

/-- What arrives of the changes that clients have not begun to send. -/
def waitingAt (clients : List IPEndPoint) (network : UpdateNetwork) : List Text :=
  clients.flatMap fun client ↦ arrivalsOf (network.clients client).forNetwork

/-- Nothing is on its way, and no thread of the clients has anything to do. -/
structure AtRest (clients : List IPEndPoint) (network : UpdateNetwork) : Prop where
  inFlight : network.inFlight = []
  queues : ∀ client ∈ clients, (network.clients client).updateDeliveryQueue = [] ∧
    (network.clients client).updateIDEQueue = [] ∧ (network.clients client).syncManager = {}
  threads : ∀ client ∈ clients, ∀ stage ∈ (network.clients client).distributors ++
    (network.clients client).scanners ++ (network.clients client).enqueuers ++
      (network.clients client).memberScanners, stage = .idle

instance (clients : List IPEndPoint) (network : UpdateNetwork) :
    Decidable (AtRest clients network) :=
  decidable_of_iff (network.inFlight = [] ∧
    (∀ client ∈ clients, (network.clients client).updateDeliveryQueue = [] ∧
      (network.clients client).updateIDEQueue = [] ∧
        (network.clients client).syncManager = {}) ∧
    ∀ client ∈ clients, ∀ stage ∈ (network.clients client).distributors ++
      (network.clients client).scanners ++ (network.clients client).enqueuers ++
        (network.clients client).memberScanners, stage = .idle)
    ⟨fun ⟨hinFlight, hqueues, hthreads⟩ ↦ ⟨hinFlight, hqueues, hthreads⟩,
      fun ⟨hinFlight, hqueues, hthreads⟩ ↦ ⟨hinFlight, hqueues, hthreads⟩⟩

section Session

variable {host address : IPEndPoint} {members : List IPEndPoint} {history : List NetworkRecord}
  {network : UpdateNetwork} {steps : List ThreadedRecord} {client : ThreadedClient}
  {position : ℕ}

theorem KeepsToSession.act (hsession : KeepsToSession host members history)
    {record : NetworkRecord} (hmem : record ∈ history) {event : ThreadedEvent}
    (hevent : record.event = .act address event) :
    address ∈ host :: members ∧ joinsOnly host members address event = true := by
  have hof := hsession record hmem
  rw [hevent] at hof
  simpa [ofSession] using hof

/-- The balances of a client hold of its part of every run. -/
theorem conserved_of_part (hrun : NetworkRun history network) (address : IPEndPoint) :
    Deliverable (network.clients address) ∧
      Conserved (stepsOf address history) (network.clients address) ∧
        Joined (stepsOf address history) (network.clients address) := by
  refine part_of_run (fun _ _ ↦ True)
    (fun _ steps client ↦ Deliverable client ∧ Conserved steps client ∧ Joined steps client)
    (fun _ _ ↦ trivial) (fun _ ↦ ⟨deliverable_start, conserved_start, joined_start⟩) ?_ ?_ hrun
    (fun _ _ _ _ _ ↦ trivial) address
  · rintro - steps client event next output ⟨hdeliverable, hconserved, hjoined⟩ - hstep
    obtain ⟨-, hstep⟩ := threadedStep_of_step hstep
    exact ⟨hdeliverable.step hstep, hconserved.extend (balanced_of_step hdeliverable hstep),
      hjoined.step hstep⟩
  · rintro - steps client ⟨hdeliverable, hconserved, hjoined⟩
    exact ⟨⟨hdeliverable.nonempty, hdeliverable.forIDE⟩,
      ⟨hconserved.editor, hconserved.network, hconserved.position⟩,
      ⟨hjoined.threads, hjoined.connecting, hjoined.loops⟩⟩

/-- In a session the host stays a host, and everybody else a member. -/
theorem sides_of_run (hrun : NetworkRun history network)
    (hsession : KeepsToSession host members history) (address : IPEndPoint) :
    (address = host → HostSide members (stepsOf address history) (network.clients address)) ∧
      (address ≠ host → MemberSide host (stepsOf address history) (network.clients address)) := by
  refine part_of_run (fun address event ↦ joinsOnly host members address event = true)
    (fun address steps client ↦ (address = host → HostSide members steps client) ∧
      (address ≠ host → MemberSide host steps client))
    (fun _ _ ↦ rfl) (fun _ ↦ ⟨fun _ ↦ hostSide_start members, fun _ ↦ memberSide_start host⟩)
    ?_ ?_ hrun (fun record hmem address event hevent ↦ (hsession.act hmem hevent).2) address
  · rintro address steps client event next output ⟨hhost, hmember⟩ hjoins hstep
    obtain ⟨-, hstep⟩ := threadedStep_of_step hstep
    exact ⟨fun hsame ↦ (hhost hsame).step (hsame ▸ hjoins) hstep,
      fun hother ↦ (hmember hother).step hother hjoins hstep⟩
  · rintro address steps client ⟨hhost, hmember⟩
    refine ⟨fun hsame ↦ ?_, fun hother ↦ ?_⟩
    · obtain ⟨hflag, hscanners, hmembers, hreceived, hsilent, hsent⟩ := hhost hsame
      exact ⟨hflag, hscanners, hmembers, hreceived, hsilent, hsent⟩
    · obtain ⟨hlist, hthreads, hrole, hconnecting, hpeer, hreceived, hloops, hposted⟩ :=
        hmember hother
      exact ⟨hlist, hthreads, hrole, hconnecting, hpeer, hreceived, hloops, hposted⟩

/-- In a step of its own the host sends to an endpoint of its list, or nothing. -/
theorem HostSide.posts_cases (hside : HostSide members steps client) {record : ThreadedRecord}
    (hmem : record ∈ steps) :
    (∃ other endpoint data, client.epList[other]? = some endpoint ∧
      record.observation = .host (.sent other data) ∧
        posts record.before record.observation = [⟨endpoint, data⟩]) ∨
      posts record.before record.observation = [] ∧
        ∀ position, record.observation.sentTo position = [] := by
  obtain ⟨hgrown, hlength⟩ := hside.sent record hmem
  have hsilent := List.flatMap_eq_nil_iff.mp hside.silent record hmem
  cases houtput : record.observation with
  | host shown =>
    cases shown with
    | sent other data =>
      have hother := hlength other data houtput
      refine .inl ⟨other, record.before.epList[other], data, ?_, rfl, ?_⟩
      · rw [hgrown.getElem hother]
        exact List.getElem?_eq_getElem _
      · simp [posts, List.getElem?_eq_getElem hother]
    | _ => exact .inr ⟨rfl, fun _ ↦ rfl⟩
  | toHost data =>
    rw [houtput] at hsilent
    cases hsilent
  | _ => exact .inr ⟨rfl, fun _ ↦ rfl⟩

/-- What the host sends to an endpoint of its list is what it sends to this position. -/
theorem HostSide.sent_eq (hside : HostSide members steps client) (honce : client.epList.Nodup)
    (hposition : client.epList[position]? = some address) :
    ((steps.flatMap fun record ↦ posts record.before record.observation).filter
      fun datagram ↦ datagram.destination = address).map PeerDatagram.data =
        sentIn position steps := by
  rw [List.filter_flatMap, List.map_flatMap]
  refine List.flatMap_congr fun record hmem ↦ ?_
  rcases hside.posts_cases hmem with
    ⟨other, endpoint, data, hother, houtput, hposts⟩ | ⟨hposts, hto⟩
  · have hindex : endpoint = address ↔ other = position := by
      constructor
      · rintro rfl
        obtain ⟨hlength, -⟩ := List.getElem?_eq_some_iff.mp hother
        exact (List.getElem?_inj hlength honce).mp (hother.trans hposition.symm)
      · rintro rfl
        exact Option.some.inj (hother.symm.trans hposition)
    rw [hposts, houtput]
    by_cases heq : other = position
    · simp [ThreadedOutput.sentTo, heq, hindex.mpr heq]
    · simp [ThreadedOutput.sentTo, heq, mt hindex.mp heq]
  · rw [hposts, hto]
    rfl

/-- To others the host sends nothing. -/
theorem HostSide.sent_eq_nil (hside : HostSide members steps client)
    (habsent : address ∉ client.epList) :
    ((steps.flatMap fun record ↦ posts record.before record.observation).filter
      fun datagram ↦ datagram.destination = address) = [] := by
  rw [List.filter_flatMap]
  refine List.flatMap_eq_nil_iff.mpr fun record hmem ↦ ?_
  rcases hside.posts_cases hmem with ⟨other, endpoint, data, hother, -, hposts⟩ | ⟨hposts, -⟩
  · have hne : endpoint ≠ address := by
      rintro rfl
      exact habsent (List.mem_of_getElem? hother)
    simp [hposts, hne]
  · rw [hposts]
    rfl

/-- What arrives of a member's changes has been sent to the host, or waits. -/
theorem MemberSide.changes_perm (hside : MemberSide host steps client)
    (hconserved : Conserved steps client) :
    (arrivalsOf (changedIn steps)).Perm
      (arrivalsOf client.forNetwork ++ readAs (sentToHostIn steps)) := by
  obtain ⟨blanks, hnetwork⟩ := hconserved.network
  have harriving := (hnetwork.map asciiGetString).filter isUpdateMessage
  rw [hside.received, hside.loops] at harriving
  change (readAs _).Perm (readAs _) at harriving
  simpa using harriving

/-- What arrives of the updates received by the host and of its own changes has been sent to the
member connected first, or waits. -/
theorem HostSide.changes_perm (hside : HostSide members steps client)
    (hconserved : Conserved steps client) :
    (receivedIn steps ++ arrivalsOf (changedIn steps)).Perm
      (readAs ((begunLoops steps).map fun loop ↦ utf8GetBytes loop.1) ++
        arrivalsOf client.forNetwork) := by
  obtain ⟨blanks, hnetwork⟩ := hconserved.network
  have harriving := (hnetwork.map asciiGetString).filter isUpdateMessage
  have hreceived : arrivalsOf (receivedIn steps) = receivedIn steps := by
    simp only [arrivalsOf, receivedIn, List.map_flatMap, List.filter_flatMap]
    exact List.flatMap_congr fun record _ ↦ arrivalsOf_received record.event
  rw [hside.received, hside.silent] at harriving
  change (readAs _).Perm (readAs _) at harriving
  simpa [hreceived, Function.comp_def] using harriving

/-- What arrives of the loops of the host has been sent to a position, is still to be sent there, or
was begun before there was this position. -/
theorem loops_perm (hconserved : Conserved steps client) (position : ℕ) :
    (readAs ((begunLoops steps).map fun loop ↦ utf8GetBytes loop.1)).Perm
      (readAs (sentIn position steps) ++ readAs (client.forPosition position) ++
        readAs (passing position (begunLoops steps))) := by
  have hloops := perm_reaching_passing position (begunLoops steps)
  have hsent := (hconserved.position position).symm.append_right
    (passing position (begunLoops steps))
  have harriving := ((hsent.trans hloops).symm.map asciiGetString).filter isUpdateMessage
  change (readAs _).Perm (readAs _) at harriving
  simpa using harriving

/-- The updates sent to the host are those of the members. -/
theorem sent_to_host (hrun : NetworkRun history network) (hhost : host ∉ members)
    (hsession : KeepsToSession host members history) :
    ((host :: members).flatMap fun sender ↦ towards host (postedBy sender history)) =
      members.flatMap fun member ↦ readAs (sentToHostIn (stepsOf member history)) := by
  have hside := (sides_of_run hrun hsession host).1 rfl
  have habsent : host ∉ (network.clients host).epList := fun hmem ↦ hhost (hside.members host hmem)
  have hown : towards host (postedBy host history) = [] := by
    rw [towards, postedBy, hside.sent_eq_nil habsent]
    rfl
  rw [List.flatMap_cons, hown, List.nil_append]
  refine List.flatMap_congr fun member hmem ↦ ?_
  have hne : member ≠ host := fun heq ↦ hhost (heq ▸ hmem)
  rw [towards, postedBy, ((sides_of_run hrun hsession member).2 hne).posted]
  simp [List.filter_map, Function.comp_def]

/-- The updates sent to a member are those of the host. -/
theorem sent_to_member (hrun : NetworkRun history network) (hhost : host ∉ members)
    (hsession : KeepsToSession host members history) {member : IPEndPoint}
    (hmember : member ∈ members) :
    ((host :: members).flatMap fun sender ↦ towards member (postedBy sender history)) =
      towards member (postedBy host history) := by
  have hnone : (members.flatMap fun sender ↦ towards member (postedBy sender history)) = [] := by
    refine List.flatMap_eq_nil_iff.mpr fun sender hsender ↦ ?_
    have hne : sender ≠ host := fun heq ↦ hhost (heq ▸ hsender)
    have hother : host ≠ member := fun heq ↦ hhost (heq ▸ hmember)
    rw [towards, postedBy, ((sides_of_run hrun hsession sender).2 hne).posted]
    simp [List.filter_map, Function.comp_def, hother]
  rw [List.flatMap_cons, hnone, List.append_nil]

/-- Every change of a member is in one place on its way to the editor of the host: taken, on its way
there inside the host, in the network or lost by it, or still at the member. -/
theorem host_accounted (hrun : NetworkRun history network) (hnodup : (host :: members).Nodup)
    (hsession : KeepsToSession host members history) :
    (changesOf members history).Perm
      (takenIn (stepsOf host history) ++ (network.clients host).forEditor ++
        towards host network.inFlight ++ towards host (lostIn history) ++
          waitingAt members network) := by
  obtain ⟨hhost, -⟩ := List.nodup_cons.mp hnodup
  have harrivals := arrivals_of_run hrun hnodup
    (fun record hmem address event hevent ↦ (hsession.act hmem hevent).1) host
  rw [sent_to_host hrun hhost hsession] at harrivals
  have hchanges : (changesOf members history).Perm (waitingAt members network ++
      members.flatMap fun member ↦ readAs (sentToHostIn (stepsOf member history))) := by
    refine (List.Perm.flatMap_left members fun member hmem ↦ ?_).trans
      (List.flatMap_append_perm ..).symm
    have hne : member ≠ host := fun heq ↦ hhost (heq ▸ hmem)
    exact ((sides_of_run hrun hsession member).2 hne).changes_perm
      (conserved_of_part hrun member).2.1
  have heditor := (conserved_of_part hrun host).2.1.editor
  rw [List.perm_iff_count]
  intro update
  have harrivals := harrivals.count_eq update
  have hchanges := hchanges.count_eq update
  have heditor := heditor.count_eq update
  simp only [List.count_append] at harrivals hchanges heditor ⊢
  omega

/-- Every change of anybody is in one place on its way to the editor of a member: taken, on its way
there inside the member, in the network between host and member or lost there, in a loop of the host
that sends it to this member or that began before the host knew the member, or still on its way
inside the host, to it, or at another member. -/
theorem member_accounted (hrun : NetworkRun history network) (hnodup : (host :: members).Nodup)
    (hsession : KeepsToSession host members history)
    (honce : (network.clients host).epList.Nodup) {member : IPEndPoint}
    (hposition : (network.clients host).epList[position]? = some member) :
    (changesOf (host :: members) history).Perm
      (takenIn (stepsOf member history) ++ (network.clients member).forEditor ++
        towards member network.inFlight ++ towards member (lostIn history) ++
        readAs ((network.clients host).forPosition position) ++
        readAs (passing position (begunLoops (stepsOf host history))) ++
        arrivalsOf (network.clients host).forNetwork ++
        towards host network.inFlight ++ towards host (lostIn history) ++
          waitingAt members network) := by
  obtain ⟨hhost, -⟩ := List.nodup_cons.mp hnodup
  have hside := (sides_of_run hrun hsession host).1 rfl
  have hmember := hside.members member (List.mem_of_getElem? hposition)
  obtain ⟨-, hconserved, -⟩ := conserved_of_part hrun host
  have harrivals := arrivals_of_run hrun hnodup
    (fun record hmem address event hevent ↦ (hsession.act hmem hevent).1) member
  rw [sent_to_member hrun hhost hsession hmember, towards, postedBy,
    hside.sent_eq honce hposition] at harrivals
  have hchanges := hside.changes_perm hconserved
  have hloops := loops_perm hconserved position
  have hmembers := host_accounted hrun hnodup hsession
  have heditor := (conserved_of_part hrun member).2.1.editor
  rw [List.perm_iff_count]
  intro update
  have harrivals := harrivals.count_eq update
  have hchanges := hchanges.count_eq update
  have hloops := hloops.count_eq update
  have hmembers := hmembers.count_eq update
  have heditor := heditor.count_eq update
  have hhosted := hconserved.editor.count_eq update
  rw [changesOf, List.flatMap_cons, ← changesOf]
  simp only [List.count_append] at harrivals hchanges hloops hmembers heditor hhosted ⊢
  omega

/-- A member that the host does not know is handed nothing. -/
theorem unknown_takes_nothing (hrun : NetworkRun history network)
    (hnodup : (host :: members).Nodup) (hsession : KeepsToSession host members history)
    {member : IPEndPoint} (hmember : member ∈ members)
    (hunknown : member ∉ (network.clients host).epList) :
    takenIn (stepsOf member history) = [] := by
  obtain ⟨hhost, -⟩ := List.nodup_cons.mp hnodup
  have hside := (sides_of_run hrun hsession host).1 rfl
  have harrivals := arrivals_of_run hrun hnodup
    (fun record hmem address event hevent ↦ (hsession.act hmem hevent).1) member
  rw [sent_to_member hrun hhost hsession hmember, towards, postedBy,
    hside.sent_eq_nil hunknown] at harrivals
  have hreceived : receivedIn (stepsOf member history) = [] := by
    have hlength := harrivals.length_eq
    simp only [List.map_nil, readAs_nil, List.length_nil, List.length_append] at hlength
    exact List.length_eq_zero_iff.mp (by omega)
  have heditor := (conserved_of_part hrun member).2.1.editor.length_eq
  rw [hreceived] at heditor
  simp only [List.length_nil, List.length_append] at heditor
  exact List.length_eq_zero_iff.mp (by omega)

/-- What the host's editor takes are different changes of the members. -/
theorem host_takes (hrun : NetworkRun history network) (hnodup : (host :: members).Nodup)
    (hsession : KeepsToSession host members history) :
    (takenIn (stepsOf host history)).Subperm (changesOf members history) := by
  refine List.Subperm.trans ?_ (host_accounted hrun hnodup hsession).symm.subperm
  simp only [List.append_assoc]
  exact (List.sublist_append_left _ _).subperm

/-- What a member's editor takes are different changes of anybody. -/
theorem member_takes (hrun : NetworkRun history network) (hnodup : (host :: members).Nodup)
    (hsession : KeepsToSession host members history)
    (honce : (network.clients host).epList.Nodup) {member : IPEndPoint}
    (hmember : member ∈ members) :
    (takenIn (stepsOf member history)).Subperm (changesOf (host :: members) history) := by
  by_cases hknown : member ∈ (network.clients host).epList
  · obtain ⟨position, hposition⟩ := List.mem_iff_getElem?.mp hknown
    refine List.Subperm.trans ?_
      (member_accounted hrun hnodup hsession honce hposition).symm.subperm
    simp only [List.append_assoc]
    exact (List.sublist_append_left _ _).subperm
  · rw [unknown_takes_nothing hrun hnodup hsession hmember hknown]
    exact List.nil_subperm

/-- In every run of a session of a host with any number of members, each connected at most once,
over a network that loses and reorders what is sent, no editor is handed an update twice or one that
nobody typed: what the host's editor takes are different changes of the members, and what a member's
takes different changes of anybody. -/
theorem handed_out_once (hrun : NetworkRun history network) (hnodup : (host :: members).Nodup)
    (hsession : KeepsToSession host members history)
    (honce : (network.clients host).epList.Nodup) :
    (takenIn (stepsOf host history)).Subperm (changesOf members history) ∧
      ∀ member ∈ members,
        (takenIn (stepsOf member history)).Subperm (changesOf (host :: members) history) :=
  ⟨host_takes hrun hnodup hsession, fun _ ↦ member_takes hrun hnodup hsession honce⟩

/-- The host and a member each make a change, and the member's does not come back to it. -/
theorem handed_out_once_loss : ∃ (history : List NetworkRecord) (network : UpdateNetwork),
    NetworkRun history network ∧
    takenIn (stepsOf ⟨0x0A000007, 4000⟩ history) = [str "-2"] ∧
    changesOf [⟨0x0A000001, 4000⟩, ⟨0x0A000007, 4000⟩] history = [str "-2", str "+1"] ∧
    (takenIn (stepsOf ⟨0x0A000007, 4000⟩ history)).Subperm
      (changesOf [⟨0x0A000001, 4000⟩, ⟨0x0A000007, 4000⟩] history) := by
  let host : IPEndPoint := ⟨0x0A000001, 4000⟩
  let member : IPEndPoint := ⟨0x0A000007, 4000⟩
  obtain ⟨history, network, hrun, -, hcheck⟩ := exists_run_of_execute UpdateNetwork.step {}
    (List.flatten
      [[.act host (.connectP2P .host member), .act host .startSesstion,
        .act member (.connectP2P .member host), .act member .startSesstion,
        .act member (.addTextChange (str "+1"))],
      List.replicate 4 (.act member (.memberScan 0)), [.deliver 0],
      List.replicate 4 (.act host (.distribute 0)),
      [.lose 0, .act host (.addTextChange (str "-2"))], List.replicate 5 (.act host (.scan 0)),
      [.deliver 0], List.replicate 3 (.act member (.enqueue 0)),
      List.replicate 2 (.act member .getLastUpdate)])
    (fun history network ↦
      takenIn (stepsOf member history) = [str "-2"] &&
      changesOf [host, member] history = [str "-2", str "+1"] &&
      history.all (fun record ↦ ofSession host [member] record.event) &&
      (network.clients host).epList = [member]) (by decide +kernel)
  simp only [Bool.and_eq_true, decide_eq_true_eq] at hcheck
  obtain ⟨⟨⟨htaken, hchanges⟩, hsession⟩, hlist⟩ := hcheck
  refine ⟨history, network, hrun, htaken, hchanges, ?_⟩
  exact (handed_out_once hrun (by decide : [host, member].Nodup) (List.all_eq_true.mp hsession)
    (by simp [hlist])).2 member (by simp)

/-- What threads have that is nothing when they are idle is nothing at rest. -/
theorem AtRest.flatMap_eq_nil {clients : List IPEndPoint} (hrest : AtRest clients network)
    (hclient : address ∈ clients) {α : Type} (has : ThreadStage → List α) (hidle : has .idle = []) :
    (network.clients address).distributors.flatMap has = [] ∧
      (network.clients address).scanners.flatMap has = [] ∧
      (network.clients address).enqueuers.flatMap has = [] ∧
      (network.clients address).memberScanners.flatMap has = [] := by
  have hthreads := hrest.threads address hclient
  have hnone : ∀ threads : List ThreadStage, (∀ stage ∈ threads, stage = .idle) →
      threads.flatMap has = [] := fun threads hall ↦
    List.flatMap_eq_nil_iff.mpr fun stage hmem ↦ by rw [hall stage hmem, hidle]
  simp only [List.mem_append] at hthreads
  exact ⟨hnone _ fun stage hmem ↦ hthreads stage (.inl (.inl (.inl hmem))),
    hnone _ fun stage hmem ↦ hthreads stage (.inl (.inl (.inr hmem))),
    hnone _ fun stage hmem ↦ hthreads stage (.inl (.inr hmem)),
    hnone _ fun stage hmem ↦ hthreads stage (.inr hmem)⟩

/-- A client at rest has nothing on its way. -/
theorem AtRest.empty {clients : List IPEndPoint} (hrest : AtRest clients network)
    (hclient : address ∈ clients) :
    (network.clients address).forEditor = [] ∧ (network.clients address).forNetwork = [] ∧
      ∀ position, (network.clients address).forPosition position = [] := by
  obtain ⟨hdelivery, hide, hmanager⟩ := hrest.queues address hclient
  obtain ⟨hdistributing, -, henqueuing, -⟩ :=
    hrest.flatMap_eq_nil hclient ThreadStage.heldText rfl
  obtain ⟨hupdates, hscanning, -, hmember⟩ := hrest.flatMap_eq_nil hclient ThreadStage.notBegun rfl
  refine ⟨?_, ?_, fun position ↦ ?_⟩
  · simp [ThreadedClient.forEditor, hdelivery, hide, hmanager, hdistributing, henqueuing]
  · simp [ThreadedClient.forNetwork, hdelivery, hmanager, hupdates, hscanning, hmember]
  · obtain ⟨hloops, hchanges, -⟩ :=
      hrest.flatMap_eq_nil hclient (ThreadStage.unsent position) rfl
    simp [ThreadedClient.forPosition, hloops, hchanges]

theorem AtRest.waitingAt_eq (hrest : AtRest (host :: members) network) :
    waitingAt members network = [] :=
  List.flatMap_eq_nil_iff.mpr fun member hmember ↦ by
    rw [(hrest.empty (List.mem_cons_of_mem _ hmember)).2.1]
    rfl

/-- At rest, when nothing was lost, the host's editor has taken every change of the members. -/
theorem host_took (hrun : NetworkRun history network) (hnodup : (host :: members).Nodup)
    (hsession : KeepsToSession host members history) (hlost : lostIn history = [])
    (hrest : AtRest (host :: members) network) :
    (takenIn (stepsOf host history)).Perm (changesOf members history) := by
  obtain ⟨heditor, -, -⟩ := hrest.empty (List.mem_cons_self : host ∈ _)
  simpa [heditor, hrest.inFlight, hlost, hrest.waitingAt_eq] using
    (host_accounted hrun hnodup hsession).symm

/-- At rest, when nothing was lost, a member's editor has taken every change but for those that the
host began to send before it was connected. -/
theorem member_took (hrun : NetworkRun history network) (hnodup : (host :: members).Nodup)
    (hsession : KeepsToSession host members history)
    (honce : (network.clients host).epList.Nodup) (hlost : lostIn history = [])
    (hrest : AtRest (host :: members) network) {member : IPEndPoint}
    (hposition : (network.clients host).epList[position]? = some member) :
    (takenIn (stepsOf member history) ++
      readAs (passing position (begunLoops (stepsOf host history)))).Perm
      (changesOf (host :: members) history) := by
  obtain ⟨-, hnetwork, hpositions⟩ := hrest.empty (List.mem_cons_self : host ∈ _)
  have hmember := ((sides_of_run hrun hsession host).1 rfl).members member
    (List.mem_of_getElem? hposition)
  simpa [(hrest.empty (List.mem_cons_of_mem _ hmember)).1, hnetwork, hpositions, hrest.inFlight,
    hlost, hrest.waitingAt_eq] using
    (member_accounted hrun hnodup hsession honce hposition).symm

/-- In every run of a session in which nothing is lost and each member is connected at most once,
once everything has come to rest, the host's editor was handed every change of the members once, the
editor of the member connected first every change of anybody once, its own included, and that of
every other member the same but for the changes that the host began to send before it was
connected. -/
theorem handed_out_at_rest (hrun : NetworkRun history network) (hnodup : (host :: members).Nodup)
    (hsession : KeepsToSession host members history)
    (honce : (network.clients host).epList.Nodup) (hlost : lostIn history = [])
    (hrest : AtRest (host :: members) network) :
    (takenIn (stepsOf host history)).Perm (changesOf members history) ∧
      (∀ member, (network.clients host).epList.head? = some member →
        (takenIn (stepsOf member history)).Perm (changesOf (host :: members) history)) ∧
      ∀ position member, (network.clients host).epList[position]? = some member →
        (takenIn (stepsOf member history) ++
          readAs (passing position (begunLoops (stepsOf host history)))).Perm
          (changesOf (host :: members) history) := by
  refine ⟨host_took hrun hnodup hsession hlost hrest, fun member hfirst ↦ ?_,
    fun position member ↦ member_took hrun hnodup hsession honce hlost hrest⟩
  have hposition : (network.clients host).epList[0]? = some member := by
    rwa [← List.head?_eq_getElem?]
  simpa [(conserved_of_part hrun host).2.2.passing_zero] using
    member_took hrun hnodup hsession honce hlost hrest hposition

/-- The second member is connected after the first change, and the network reorders. -/
theorem handed_out_at_rest_two : ∃ (history : List NetworkRecord) (network : UpdateNetwork),
    NetworkRun history network ∧
    takenIn (stepsOf ⟨0x0A000007, 4000⟩ history) = [str "-2", str "+1"] ∧
    takenIn (stepsOf ⟨0x0A000009, 4000⟩ history) = [str "-2"] ∧
    (takenIn (stepsOf ⟨0x0A000007, 4000⟩ history)).Perm
      (changesOf [⟨0x0A000001, 4000⟩, ⟨0x0A000007, 4000⟩, ⟨0x0A000009, 4000⟩] history) ∧
    (takenIn (stepsOf ⟨0x0A000009, 4000⟩ history) ++
      readAs (passing 1 (begunLoops (stepsOf ⟨0x0A000001, 4000⟩ history)))).Perm
      (changesOf [⟨0x0A000001, 4000⟩, ⟨0x0A000007, 4000⟩, ⟨0x0A000009, 4000⟩] history) := by
  let host : IPEndPoint := ⟨0x0A000001, 4000⟩
  let first : IPEndPoint := ⟨0x0A000007, 4000⟩
  let second : IPEndPoint := ⟨0x0A000009, 4000⟩
  obtain ⟨history, network, hrun, -, hcheck⟩ := exists_run_of_execute UpdateNetwork.step {}
    (List.flatten
      [[.act host (.connectP2P .host first), .act host .startSesstion,
        .act first (.connectP2P .member host), .act first .startSesstion,
        .act first (.addTextChange (str "+1"))],
      List.replicate 4 (.act first (.memberScan 0)), [.deliver 0],
      List.replicate 6 (.act host (.distribute 0)), List.replicate 2 (.act host .getLastUpdate),
      [.act host (.connectP2P .host second), .act host .startSesstion,
        .act second (.connectP2P .member host), .act second .startSesstion,
        .act host (.addTextChange (str "-2"))],
      List.replicate 7 (.act host (.scan 0)), [.deliver 1, .deliver 0, .deliver 0],
      List.replicate 6 (.act first (.enqueue 0)), List.replicate 4 (.act first .getLastUpdate),
      List.replicate 3 (.act second (.enqueue 0)), List.replicate 2 (.act second .getLastUpdate)])
    (fun history network ↦
      takenIn (stepsOf first history) = [str "-2", str "+1"] &&
      takenIn (stepsOf second history) = [str "-2"] &&
      history.all (fun record ↦ ofSession host [first, second] record.event) &&
      (network.clients host).epList = [first, second] && lostIn history = [] &&
      AtRest [host, first, second] network) (by decide +kernel)
  simp only [Bool.and_eq_true, decide_eq_true_eq] at hcheck
  obtain ⟨⟨⟨⟨⟨htaken, hsecond⟩, hsession⟩, hlist⟩, hlost⟩, hrest⟩ := hcheck
  obtain ⟨-, hfirst, hposition⟩ := handed_out_at_rest hrun
    (by decide : [host, first, second].Nodup) (List.all_eq_true.mp hsession)
    (by simp [hlist, first, second]) hlost hrest
  exact ⟨history, network, hrun, htaken, hsecond, hfirst first (by simp [hlist]),
    hposition 1 second (by simp [hlist])⟩

end Session

end NovaIde.Protocol
