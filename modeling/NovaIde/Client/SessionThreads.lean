import NovaIde.Client.HostPipeline
import NovaIde.Client.SessionRoles

/-!
# The threads of a client

Every session that a client opens starts two more threads: `UpdateDistributor` and
`IDEUpdateScanner` of its `SessionHost`, or `EnqueueForIDEUpdate` and `IDEUpdateScanner` of its
`SessionMember`. None of them ever ends, those of one kind share their queue, and the scanners of
both kinds take the local changes from the same one. A thread first looks at the number of entries
of its queue and takes one only afterwards, so that another thread may have taken the last one in
between: then `Dequeue` throws, which ends the process, and so does a loop of `BroadcastUpdate` when
`AddIPEP` adds an endpoint meanwhile. Here each look at a queue, each removal and each send is a
step of its own, and no operation of a `Queue` or a `List` is divided further, although neither is
made for several threads.

In a client that opens one session there is one thread for each queue. Nothing is ever thrown there,
in either role, and something may be as soon as there are two sessions (`never_throws_iff`); and
every run of a host with one member is one of its pipeline, in which a thread takes an entry in a
single step (`session_refines`).
-/

set_option autoImplicit false
set_option relaxedAutoImplicit false

namespace NovaIde.Client

open Foundation Foundation.EventRun

/-! ### Threads -/

/-- Where a thread is. -/
inductive ThreadStage
  /-- before the test of `Count` -/
  | idle
  /-- the queue was not empty -/
  | counted
  /-- in `GetLastChange`: the queue was not empty again -/
  | recounted
  /-- before the update is sent -/
  | holding (updateTuple : UpdateTuple)
  /-- in the loop of `BroadcastUpdate`, with the version of the list that its enumerator noted -/
  | sending (updateTuple : UpdateTuple) (position version : ℕ)
  /-- before the update is queued for the editor -/
  | delivered (updateTuple : UpdateTuple)
deriving DecidableEq, Repr

/-- A client with its threads: of each kind one for every session that it opened in the role they
belong to. `ConnectP2P` may have returned for a session whose threads `startSesstion` has not
started yet, and the updater of the editor may have seen an update that it has not taken yet. -/
structure ThreadedClient where
  hostFlag : Bool := true
  connecting : Bool := false
  syncManager : SynchronizationManager := {}
  updateDeliveryQueue : List UpdateTuple := []
  epList : List IPEndPoint := []
  distributors : List ThreadStage := []
  scanners : List ThreadStage := []
  updateIDEQueue : List Text := []
  hostIPEP : Option IPEndPoint := none
  enqueuers : List ThreadStage := []
  memberScanners : List ThreadStage := []
  updaterCounted : Bool := false
  running : Bool := true
deriving DecidableEq, Repr

/-- What happens in a client. -/
inductive ThreadedEvent
  /-- `ConnectP2P`, with the type and the endpoint of its details -/
  | connectP2P (type : PeerType) (endpoint : IPEndPoint)
  /-- the threads of the session start -/
  | startSesstion
  | receive (receiveBytes : Datagram)
  /-- the next step of a thread that runs `UpdateDistributor` -/
  | distribute (thread : ℕ)
  /-- the next step of a thread that runs `IDEUpdateScanner` of the host -/
  | scan (thread : ℕ)
  /-- the next step of a thread that runs `EnqueueForIDEUpdate` of the member -/
  | enqueue (thread : ℕ)
  /-- the next step of a thread that runs `IDEUpdateScanner` of the member -/
  | memberScan (thread : ℕ)
  | addTextChange (update : Text)
  /-- the next step of the updater in `GetLastUpdate` -/
  | getLastUpdate
deriving DecidableEq, Repr

/-- What a step shows: what the pipeline of a host shows, the beginning of a loop over a number of
endpoints, a datagram to the host of the client, or an `InvalidOperationException`. -/
inductive ThreadedOutput
  | host (output : HostOutput)
  | began (update : Text) (endpoints : ℕ)
  | toHost (data : Datagram)
  | threw
deriving DecidableEq, Repr

/-- The next step of a thread in `BroadcastUpdate`, and the stage it goes on to after the loop. -/
def broadcastUpdate (epList : List IPEndPoint) (done : UpdateTuple → ThreadStage) :
    ThreadStage → Option (ThreadStage × ThreadedOutput)
  | .holding updateTuple =>
    some (.sending updateTuple 0 epList.length, .began updateTuple.update epList.length)
  | .sending updateTuple position version =>
    if version ≠ epList.length then some (.sending updateTuple position version, .threw)
    else if position < epList.length then
      some (.sending updateTuple (position + 1) version,
        .host (.sent position (utf8GetBytes updateTuple.update)))
    else some (done updateTuple, .host .nothing)
  | _ => none

/-- The next step of a scanner up to the change that it sends: it looks at the queue, and
`GetLastChange` looks at it once more. -/
def scanChanges (syncManager : SynchronizationManager) :
    ThreadStage → Option (SynchronizationManager × ThreadStage × ThreadedOutput)
  | .idle =>
    if syncManager.textChangesQueue.length ≠ 0 then some (syncManager, .counted, .host .nothing)
    else none
  | .counted =>
    if syncManager.textChangesQueue.length > 0 then
      some (syncManager, .recounted, .host .nothing)
    else some (syncManager, .holding ⟨[], false⟩, .host .nothing)
  | .recounted =>
    match syncManager.textChangesQueue with
    | [] => some (syncManager, .recounted, .threw)
    | change :: rest =>
      some ({ syncManager with textChangesQueue := rest }, .holding ⟨change, false⟩,
        .host .nothing)
  | _ => none

namespace ThreadedClient

variable (client : ThreadedClient)

/-- What a listener does with a datagram. -/
def p2pListener (receiveBytes : Datagram) : ThreadedClient :=
  let receivedMessage := asciiGetString receiveBytes
  if isUpdateMessage receivedMessage then
    if client.hostFlag then
      { client with updateDeliveryQueue := client.updateDeliveryQueue ++ [⟨receivedMessage, true⟩] }
    else { client with updateIDEQueue := client.updateIDEQueue ++ [receivedMessage] }
  else client

/-- The next step of a thread that runs `UpdateDistributor`. -/
def updateDistributor (thread : ℕ) : ThreadStage → Option (ThreadedClient × ThreadedOutput)
  | .idle =>
    if client.updateDeliveryQueue.length ≠ 0 then
      some ({ client with distributors := client.distributors.set thread .counted }, .host .nothing)
    else none
  | .counted =>
    match client.updateDeliveryQueue with
    | [] => some ({ client with running := false }, .threw)
    | updateTuple :: rest =>
      some ({ client with
        updateDeliveryQueue := rest
        distributors := client.distributors.set thread (.holding updateTuple) }, .host .nothing)
  | .delivered updateTuple =>
    some ({ client with
      syncManager :=
        if updateTuple.forIDE then client.syncManager.addIDEUpdate updateTuple.update
        else client.syncManager
      distributors := client.distributors.set thread .idle }, .host .nothing)
  | stage => do
    let (stage', output) ← broadcastUpdate client.epList .delivered stage
    return ({ client with
      distributors := client.distributors.set thread stage'
      running := output ≠ .threw }, output)

/-- The next step of a thread that runs `IDEUpdateScanner` of the host. -/
def ideUpdateScanner (thread : ℕ) (stage : ThreadStage) :
    Option (ThreadedClient × ThreadedOutput) :=
  match scanChanges client.syncManager stage with
  | some (syncManager, stage', output) =>
    some ({ client with
      syncManager
      scanners := client.scanners.set thread stage'
      running := output ≠ .threw }, output)
  | none => do
    let (stage', output) ← broadcastUpdate client.epList (fun _ ↦ .idle) stage
    return ({ client with
      scanners := client.scanners.set thread stage'
      running := output ≠ .threw }, output)

/-- The next step of a thread that runs `EnqueueForIDEUpdate` of the member. -/
def enqueueForIDEUpdate (thread : ℕ) : ThreadStage → Option (ThreadedClient × ThreadedOutput)
  | .idle =>
    if client.updateIDEQueue.length ≠ 0 then
      some ({ client with enqueuers := client.enqueuers.set thread .counted }, .host .nothing)
    else none
  | .counted =>
    match client.updateIDEQueue with
    | [] => some ({ client with running := false }, .threw)
    | update :: rest =>
      some ({ client with
        updateIDEQueue := rest
        enqueuers := client.enqueuers.set thread (.delivered ⟨update, true⟩) }, .host .nothing)
  | .delivered updateTuple =>
    some ({ client with
      syncManager := client.syncManager.addIDEUpdate updateTuple.update
      enqueuers := client.enqueuers.set thread .idle }, .host .nothing)
  | _ => none

/-- The next step of a thread that runs `IDEUpdateScanner` of the member. -/
def memberScanner (thread : ℕ) (stage : ThreadStage) : Option (ThreadedClient × ThreadedOutput) :=
  match scanChanges client.syncManager stage with
  | some (syncManager, stage', output) =>
    some ({ client with
      syncManager
      memberScanners := client.memberScanners.set thread stage'
      running := output ≠ .threw }, output)
  | none =>
    match stage, client.hostIPEP with
    | .holding updateTuple, some _ =>
      some ({ client with memberScanners := client.memberScanners.set thread .idle },
        .toHost (utf8GetBytes updateTuple.update))
    | .holding _, none => some ({ client with running := false }, .threw)
    | _, _ => none

/-- The next step of the updater in `GetLastUpdate`. -/
def getLastUpdate : Option (ThreadedClient × ThreadedOutput) :=
  match client.updaterCounted, client.syncManager.textUpdateQueue with
  | false, [] => some (client, .host (.answered []))
  | false, _ :: _ => some ({ client with updaterCounted := true }, .host .nothing)
  | true, [] => some ({ client with running := false }, .threw)
  | true, update :: rest =>
    some ({ client with
      syncManager := { client.syncManager with textUpdateQueue := rest }
      updaterCounted := false }, .host (.answered update))

/-- One step of a client with its threads. The user interface opens one session after the other, and
a process that has ended takes no step. -/
def step (event : ThreadedEvent) : Option (ThreadedClient × ThreadedOutput) :=
  if client.running then
    match event with
    | .connectP2P type endpoint =>
      if client.connecting then none
      else
        match type with
        | .host =>
          some ({ client with
            epList := client.epList ++ [endpoint]
            connecting := true }, .host .nothing)
        | .member =>
          some ({ client with
            hostFlag := false
            hostIPEP := some endpoint
            connecting := true }, .host .nothing)
    | .startSesstion =>
      if client.connecting then
        if client.hostFlag then
          some ({ client with
            connecting := false
            distributors := client.distributors ++ [.idle]
            scanners := client.scanners ++ [.idle] }, .host .nothing)
        else
          some ({ client with
            connecting := false
            enqueuers := client.enqueuers ++ [.idle]
            memberScanners := client.memberScanners ++ [.idle] }, .host .nothing)
      else none
    | .receive receiveBytes =>
      if client.epList = [] ∧ client.hostIPEP = none then none
      else some (client.p2pListener receiveBytes, .host .nothing)
    | .distribute thread => do
      let stage ← client.distributors[thread]?
      client.updateDistributor thread stage
    | .scan thread => do
      let stage ← client.scanners[thread]?
      client.ideUpdateScanner thread stage
    | .enqueue thread => do
      let stage ← client.enqueuers[thread]?
      client.enqueueForIDEUpdate thread stage
    | .memberScan thread => do
      let stage ← client.memberScanners[thread]?
      client.memberScanner thread stage
    | .addTextChange update =>
      some ({ client with syncManager := client.syncManager.addTextChange update }, .host .nothing)
    | .getLastUpdate => client.getLastUpdate
  else none

end ThreadedClient

/-- The steps of a run of a client with its threads. -/
abbrev ThreadedRecord := StepRecord ThreadedClient ThreadedEvent ThreadedOutput

/-- The runs of a client with its threads. -/
abbrev ThreadedRun : List ThreadedRecord → ThreadedClient → Prop := Run ThreadedClient.step {}

/-- The event of a host's pipeline that an event belongs to. -/
def ThreadedEvent.host : ThreadedEvent → Option HostEvent
  | .connectP2P _ _ | .startSesstion | .enqueue _ | .memberScan _ => none
  | .receive receiveBytes => some (.receive receiveBytes)
  | .distribute _ => some .distribute
  | .scan _ => some .scan
  | .addTextChange update => some (.addTextChange update)
  | .getLastUpdate => some .getLastUpdate

/-- The traffic after a step. -/
def HostTraffic.observe (traffic : HostTraffic) (record : ThreadedRecord) : HostTraffic :=
  match record.event.host, record.observation with
  | some event, .host output => traffic.record event output
  | _, _ => traffic

/-- The traffic of a run. -/
def threadedTraffic (history : List ThreadedRecord) : HostTraffic :=
  history.foldl HostTraffic.observe {}

theorem threadedTraffic_snoc (history : List ThreadedRecord) (record : ThreadedRecord) :
    threadedTraffic (history ++ [record]) = (threadedTraffic history).observe record := by
  simp [threadedTraffic]

/-- A thread as the pipeline sees it: what it has not taken yet is still in the queue, and it has
the tuple in hand until it gave it to the editor. -/
def ThreadStage.coarse : ThreadStage → Sender
  | .idle | .counted | .recounted => .idle
  | .holding updateTuple => .broadcasting updateTuple 0
  | .sending updateTuple position _ => .broadcasting updateTuple position
  | .delivered updateTuple => .broadcasting updateTuple 1

/-- A host with at most one thread for each queue as the pipeline sees it. -/
def ThreadedClient.coarse (client : ThreadedClient) : HostState where
  updateDeliveryQueue := client.updateDeliveryQueue
  syncManager := client.syncManager
  distributor := (client.distributors.headD .idle).coarse
  scanner := (client.scanners.headD .idle).coarse

/-! ### What a step can do -/

/-- The ways a thread in `BroadcastUpdate` takes a step. -/
inductive LoopStep (epList : List IPEndPoint) (done : UpdateTuple → ThreadStage) :
    ThreadStage → ThreadStage → ThreadedOutput → Prop
  | enter (updateTuple : UpdateTuple) :
      LoopStep epList done (.holding updateTuple) (.sending updateTuple 0 epList.length)
        (.began updateTuple.update epList.length)
  | fault (updateTuple : UpdateTuple) (position version : ℕ) (hversion : version ≠ epList.length) :
      LoopStep epList done (.sending updateTuple position version)
        (.sending updateTuple position version) .threw
  | send (updateTuple : UpdateTuple) (position : ℕ) (hposition : position < epList.length) :
      LoopStep epList done (.sending updateTuple position epList.length)
        (.sending updateTuple (position + 1) epList.length)
        (.host (.sent position (utf8GetBytes updateTuple.update)))
  | leave (updateTuple : UpdateTuple) (position : ℕ) (hposition : ¬ position < epList.length) :
      LoopStep epList done (.sending updateTuple position epList.length) (done updateTuple)
        (.host .nothing)

/-- The ways a scanner takes a step up to the change that it sends. -/
inductive ChangeStep (syncManager : SynchronizationManager) :
    ThreadStage → SynchronizationManager → ThreadStage → ThreadedOutput → Prop
  | count (hqueue : syncManager.textChangesQueue ≠ []) :
      ChangeStep syncManager .idle syncManager .counted (.host .nothing)
  | recount (hqueue : syncManager.textChangesQueue ≠ []) :
      ChangeStep syncManager .counted syncManager .recounted (.host .nothing)
  | missed (hqueue : syncManager.textChangesQueue = []) :
      ChangeStep syncManager .counted syncManager (.holding ⟨[], false⟩) (.host .nothing)
  | take (change : Text) (rest : List Text)
      (hqueue : syncManager.textChangesQueue = change :: rest) :
      ChangeStep syncManager .recounted { syncManager with textChangesQueue := rest }
        (.holding ⟨change, false⟩) (.host .nothing)
  | fault (hqueue : syncManager.textChangesQueue = []) :
      ChangeStep syncManager .recounted syncManager .recounted .threw

/-- Every step in `BroadcastUpdate` is one of these. -/
theorem loopStep_of_broadcastUpdate {epList : List IPEndPoint} {done : UpdateTuple → ThreadStage}
    {stage stage' : ThreadStage} {output : ThreadedOutput}
    (hstep : broadcastUpdate epList done stage = some (stage', output)) :
    LoopStep epList done stage stage' output := by
  cases stage with
  | holding updateTuple =>
    cases hstep
    exact .enter updateTuple
  | sending updateTuple position version =>
    simp only [broadcastUpdate] at hstep
    split_ifs at hstep with hversion hposition
    · cases hstep
      exact .fault updateTuple position version hversion
    · cases hstep
      obtain rfl : version = epList.length := not_not.mp hversion
      exact .send updateTuple position hposition
    · cases hstep
      obtain rfl : version = epList.length := not_not.mp hversion
      exact .leave updateTuple position hposition
  | idle | counted | recounted | delivered => cases hstep

/-- Every step of a scanner up to the change that it sends is one of these. -/
theorem changeStep_of_scanChanges {syncManager syncManager' : SynchronizationManager}
    {stage stage' : ThreadStage} {output : ThreadedOutput}
    (hstep : scanChanges syncManager stage = some (syncManager', stage', output)) :
    ChangeStep syncManager stage syncManager' stage' output := by
  cases stage with
  | idle =>
    simp only [scanChanges] at hstep
    split_ifs at hstep with hqueue
    cases hstep
    exact .count (by simpa using hqueue)
  | counted =>
    simp only [scanChanges] at hstep
    split_ifs at hstep with hqueue
    · cases hstep
      exact .recount (List.length_pos_iff.mp hqueue)
    · cases hstep
      exact .missed (by simpa using hqueue)
  | recounted =>
    simp only [scanChanges] at hstep
    split at hstep
    · next hqueue =>
      cases hstep
      exact .fault hqueue
    · next change rest hqueue =>
      cases hstep
      exact .take change rest hqueue
  | holding | sending | delivered => cases hstep

/-- The ways a client with its threads takes a step. -/
inductive ThreadedStep (client : ThreadedClient) :
    ThreadedEvent → ThreadedClient → ThreadedOutput → Prop
  | connectHost (endpoint : IPEndPoint) (hready : client.connecting = false) :
      ThreadedStep client (.connectP2P .host endpoint)
        { client with
          epList := client.epList ++ [endpoint]
          connecting := true } (.host .nothing)
  | connectMember (endpoint : IPEndPoint) (hready : client.connecting = false) :
      ThreadedStep client (.connectP2P .member endpoint)
        { client with
          hostFlag := false
          hostIPEP := some endpoint
          connecting := true } (.host .nothing)
  | startHost (hconnecting : client.connecting = true) (hhost : client.hostFlag = true) :
      ThreadedStep client .startSesstion
        { client with
          connecting := false
          distributors := client.distributors ++ [.idle]
          scanners := client.scanners ++ [.idle] } (.host .nothing)
  | startMember (hconnecting : client.connecting = true) (hmember : client.hostFlag = false) :
      ThreadedStep client .startSesstion
        { client with
          connecting := false
          enqueuers := client.enqueuers ++ [.idle]
          memberScanners := client.memberScanners ++ [.idle] } (.host .nothing)
  | receive (receiveBytes : Datagram)
      (hpeer : ¬ (client.epList = [] ∧ client.hostIPEP = none)) :
      ThreadedStep client (.receive receiveBytes) (client.p2pListener receiveBytes)
        (.host .nothing)
  | change (update : Text) :
      ThreadedStep client (.addTextChange update)
        { client with syncManager := client.syncManager.addTextChange update } (.host .nothing)
  | noUpdate (hcounted : client.updaterCounted = false)
      (hqueue : client.syncManager.textUpdateQueue = []) :
      ThreadedStep client .getLastUpdate client (.host (.answered []))
  | countUpdate (hcounted : client.updaterCounted = false)
      (hqueue : client.syncManager.textUpdateQueue ≠ []) :
      ThreadedStep client .getLastUpdate { client with updaterCounted := true } (.host .nothing)
  | takeUpdate (update : Text) (rest : List Text) (hcounted : client.updaterCounted = true)
      (hqueue : client.syncManager.textUpdateQueue = update :: rest) :
      ThreadedStep client .getLastUpdate
        { client with
          syncManager := { client.syncManager with textUpdateQueue := rest }
          updaterCounted := false } (.host (.answered update))
  | faultUpdate (hcounted : client.updaterCounted = true)
      (hqueue : client.syncManager.textUpdateQueue = []) :
      ThreadedStep client .getLastUpdate { client with running := false } .threw
  | count (thread : ℕ) (hstage : client.distributors[thread]? = some .idle)
      (hqueue : client.updateDeliveryQueue ≠ []) :
      ThreadedStep client (.distribute thread)
        { client with distributors := client.distributors.set thread .counted } (.host .nothing)
  | take (thread : ℕ) (updateTuple : UpdateTuple) (rest : List UpdateTuple)
      (hstage : client.distributors[thread]? = some .counted)
      (hqueue : client.updateDeliveryQueue = updateTuple :: rest) :
      ThreadedStep client (.distribute thread)
        { client with
          updateDeliveryQueue := rest
          distributors := client.distributors.set thread (.holding updateTuple) } (.host .nothing)
  | fault (thread : ℕ) (hstage : client.distributors[thread]? = some .counted)
      (hqueue : client.updateDeliveryQueue = []) :
      ThreadedStep client (.distribute thread) { client with running := false } .threw
  | broadcast (thread : ℕ) (stage stage' : ThreadStage) (output : ThreadedOutput)
      (hstage : client.distributors[thread]? = some stage)
      (hloop : LoopStep client.epList .delivered stage stage' output) :
      ThreadedStep client (.distribute thread)
        { client with
          distributors := client.distributors.set thread stage'
          running := output ≠ .threw } output
  | deliver (thread : ℕ) (updateTuple : UpdateTuple)
      (hstage : client.distributors[thread]? = some (.delivered updateTuple)) :
      ThreadedStep client (.distribute thread)
        { client with
          syncManager :=
            if updateTuple.forIDE then client.syncManager.addIDEUpdate updateTuple.update
            else client.syncManager
          distributors := client.distributors.set thread .idle } (.host .nothing)
  | scan (thread : ℕ) (stage stage' : ThreadStage) (syncManager : SynchronizationManager)
      (output : ThreadedOutput) (hstage : client.scanners[thread]? = some stage)
      (hchange : ChangeStep client.syncManager stage syncManager stage' output) :
      ThreadedStep client (.scan thread)
        { client with
          syncManager
          scanners := client.scanners.set thread stage'
          running := output ≠ .threw } output
  | broadcastChange (thread : ℕ) (stage stage' : ThreadStage) (output : ThreadedOutput)
      (hstage : client.scanners[thread]? = some stage)
      (hloop : LoopStep client.epList (fun _ ↦ .idle) stage stage' output) :
      ThreadedStep client (.scan thread)
        { client with
          scanners := client.scanners.set thread stage'
          running := output ≠ .threw } output
  | memberCount (thread : ℕ) (hstage : client.enqueuers[thread]? = some .idle)
      (hqueue : client.updateIDEQueue ≠ []) :
      ThreadedStep client (.enqueue thread)
        { client with enqueuers := client.enqueuers.set thread .counted } (.host .nothing)
  | memberTake (thread : ℕ) (update : Text) (rest : List Text)
      (hstage : client.enqueuers[thread]? = some .counted)
      (hqueue : client.updateIDEQueue = update :: rest) :
      ThreadedStep client (.enqueue thread)
        { client with
          updateIDEQueue := rest
          enqueuers := client.enqueuers.set thread (.delivered ⟨update, true⟩) } (.host .nothing)
  | memberFault (thread : ℕ) (hstage : client.enqueuers[thread]? = some .counted)
      (hqueue : client.updateIDEQueue = []) :
      ThreadedStep client (.enqueue thread) { client with running := false } .threw
  | memberDeliver (thread : ℕ) (updateTuple : UpdateTuple)
      (hstage : client.enqueuers[thread]? = some (.delivered updateTuple)) :
      ThreadedStep client (.enqueue thread)
        { client with
          syncManager := client.syncManager.addIDEUpdate updateTuple.update
          enqueuers := client.enqueuers.set thread .idle } (.host .nothing)
  | memberScan (thread : ℕ) (stage stage' : ThreadStage) (syncManager : SynchronizationManager)
      (output : ThreadedOutput) (hstage : client.memberScanners[thread]? = some stage)
      (hchange : ChangeStep client.syncManager stage syncManager stage' output) :
      ThreadedStep client (.memberScan thread)
        { client with
          syncManager
          memberScanners := client.memberScanners.set thread stage'
          running := output ≠ .threw } output
  | sendChange (thread : ℕ) (updateTuple : UpdateTuple)
      (hstage : client.memberScanners[thread]? = some (.holding updateTuple))
      (hhost : client.hostIPEP ≠ none) :
      ThreadedStep client (.memberScan thread)
        { client with memberScanners := client.memberScanners.set thread .idle }
        (.toHost (utf8GetBytes updateTuple.update))
  | noHost (thread : ℕ) (hstage : client.memberScanners[thread]? ≠ none)
      (hnone : client.hostIPEP = none) :
      ThreadedStep client (.memberScan thread) { client with running := false } .threw

section Steps

variable {client next : ThreadedClient} {event : ThreadedEvent} {output : ThreadedOutput}
  {thread : ℕ} {stage : ThreadStage}

theorem threadedStep_of_updateDistributor (hstage : client.distributors[thread]? = some stage)
    (hstep : client.updateDistributor thread stage = some (next, output)) :
    ThreadedStep client (.distribute thread) next output := by
  cases stage with
  | idle =>
    simp only [ThreadedClient.updateDistributor] at hstep
    split_ifs at hstep with hqueue
    cases hstep
    exact .count thread hstage (by simpa using hqueue)
  | counted =>
    simp only [ThreadedClient.updateDistributor] at hstep
    split at hstep
    · next hqueue =>
      cases hstep
      exact .fault thread hstage hqueue
    · next updateTuple rest hqueue =>
      cases hstep
      exact .take thread updateTuple rest hstage hqueue
  | delivered updateTuple =>
    cases hstep
    exact .deliver thread updateTuple hstage
  | recounted | holding | sending =>
    simp only [ThreadedClient.updateDistributor, Option.bind_eq_bind, Option.bind_eq_some_iff,
      Option.pure_def, Option.some.injEq] at hstep
    obtain ⟨⟨stage', shown⟩, hloop, hpair⟩ := hstep
    cases hpair
    exact .broadcast thread _ stage' _ hstage (loopStep_of_broadcastUpdate hloop)

theorem threadedStep_of_ideUpdateScanner (hstage : client.scanners[thread]? = some stage)
    (hstep : client.ideUpdateScanner thread stage = some (next, output)) :
    ThreadedStep client (.scan thread) next output := by
  unfold ThreadedClient.ideUpdateScanner at hstep
  split at hstep
  · next syncManager stage' shown hchange =>
    cases hstep
    exact .scan thread stage stage' syncManager _ hstage (changeStep_of_scanChanges hchange)
  · simp only [Option.bind_eq_bind, Option.bind_eq_some_iff, Option.pure_def,
      Option.some.injEq] at hstep
    obtain ⟨⟨stage', shown⟩, hloop, hpair⟩ := hstep
    cases hpair
    exact .broadcastChange thread stage stage' _ hstage (loopStep_of_broadcastUpdate hloop)

theorem threadedStep_of_enqueueForIDEUpdate (hstage : client.enqueuers[thread]? = some stage)
    (hstep : client.enqueueForIDEUpdate thread stage = some (next, output)) :
    ThreadedStep client (.enqueue thread) next output := by
  cases stage with
  | idle =>
    simp only [ThreadedClient.enqueueForIDEUpdate] at hstep
    split_ifs at hstep with hqueue
    cases hstep
    exact .memberCount thread hstage (by simpa using hqueue)
  | counted =>
    simp only [ThreadedClient.enqueueForIDEUpdate] at hstep
    split at hstep
    · next hqueue =>
      cases hstep
      exact .memberFault thread hstage hqueue
    · next update rest hqueue =>
      cases hstep
      exact .memberTake thread update rest hstage hqueue
  | delivered updateTuple =>
    cases hstep
    exact .memberDeliver thread updateTuple hstage
  | recounted | holding | sending => cases hstep

theorem threadedStep_of_memberScanner (hstage : client.memberScanners[thread]? = some stage)
    (hstep : client.memberScanner thread stage = some (next, output)) :
    ThreadedStep client (.memberScan thread) next output := by
  unfold ThreadedClient.memberScanner at hstep
  split at hstep
  · next syncManager stage' shown hchange =>
    cases hstep
    exact .memberScan thread stage stage' syncManager _ hstage (changeStep_of_scanChanges hchange)
  · split at hstep
    · next updateTuple _ hhost _ =>
      cases hstep
      exact .sendChange thread updateTuple hstage (by simp [hhost])
    · next hnone _ =>
      cases hstep
      exact .noHost thread (by simp [hstage]) hnone
    · cases hstep

theorem threadedStep_of_getLastUpdate (hstep : client.getLastUpdate = some (next, output)) :
    ThreadedStep client .getLastUpdate next output := by
  unfold ThreadedClient.getLastUpdate at hstep
  split at hstep
  · next hcounted hqueue =>
    cases hstep
    exact .noUpdate hcounted hqueue
  · next update rest hcounted hqueue =>
    cases hstep
    exact .countUpdate hcounted (by simp [hqueue])
  · next hcounted hqueue =>
    cases hstep
    exact .faultUpdate hcounted hqueue
  · next update rest hcounted hqueue =>
    cases hstep
    exact .takeUpdate update rest hcounted hqueue

/-- Every step is one of these, of a process that runs. -/
theorem threadedStep_of_step (hstep : client.step event = some (next, output)) :
    client.running = true ∧ ThreadedStep client event next output := by
  have hrunning : client.running = true := by
    by_contra hended
    rw [ThreadedClient.step.eq_def, if_neg hended] at hstep
    cases hstep
  rw [ThreadedClient.step.eq_def, if_pos hrunning] at hstep
  refine ⟨hrunning, ?_⟩
  cases event with
  | connectP2P type endpoint =>
    cases type with
    | host =>
      simp only at hstep
      split_ifs at hstep with hconnecting
      cases hstep
      exact .connectHost endpoint (by simpa using hconnecting)
    | member =>
      simp only at hstep
      split_ifs at hstep with hconnecting
      cases hstep
      exact .connectMember endpoint (by simpa using hconnecting)
  | startSesstion =>
    simp only at hstep
    split_ifs at hstep with hconnecting hhost
    · cases hstep
      exact .startHost hconnecting hhost
    · cases hstep
      exact .startMember hconnecting (by simpa using hhost)
  | receive receiveBytes =>
    simp only at hstep
    split_ifs at hstep with hlist
    cases hstep
    exact .receive receiveBytes hlist
  | distribute thread =>
    simp only [Option.bind_eq_bind, Option.bind_eq_some_iff] at hstep
    obtain ⟨stage, hstage, hstep⟩ := hstep
    exact threadedStep_of_updateDistributor hstage hstep
  | scan thread =>
    simp only [Option.bind_eq_bind, Option.bind_eq_some_iff] at hstep
    obtain ⟨stage, hstage, hstep⟩ := hstep
    exact threadedStep_of_ideUpdateScanner hstage hstep
  | enqueue thread =>
    simp only [Option.bind_eq_bind, Option.bind_eq_some_iff] at hstep
    obtain ⟨stage, hstage, hstep⟩ := hstep
    exact threadedStep_of_enqueueForIDEUpdate hstage hstep
  | memberScan thread =>
    simp only [Option.bind_eq_bind, Option.bind_eq_some_iff] at hstep
    obtain ⟨stage, hstage, hstep⟩ := hstep
    exact threadedStep_of_memberScanner hstage hstep
  | addTextChange update =>
    cases hstep
    exact .change update
  | getLastUpdate => exact threadedStep_of_getLastUpdate hstep

end Steps

/-! ### One session -/

/-- A thread that alone takes from a queue: what it has seen there is still there, and its loop runs
over the list as it is. -/
def ThreadStage.Ready {α : Type*} (queue : List α) (endpoints : ℕ) : ThreadStage → Prop
  | .idle | .holding _ | .delivered _ => True
  | .counted | .recounted => queue ≠ []
  | .sending _ position version => version = endpoints ∧ position ≤ endpoints

/-- What every state of a client satisfies that has been a host of at most one member. -/
structure OneSession (client : ThreadedClient) : Prop where
  running : client.running = true
  hostFlag : client.hostFlag = true
  updater : client.updaterCounted = true → client.syncManager.textUpdateQueue ≠ []
  members : client.epList.length ≤ 1
  threads : client.scanners.length = client.distributors.length ∧
    client.distributors.length ≤ client.epList.length
  connecting : client.connecting = true → client.distributors.length < client.epList.length
  memberThreads : client.enqueuers = [] ∧ client.memberScanners = []
  distributors : ∀ stage ∈ client.distributors,
    stage.Ready client.updateDeliveryQueue client.epList.length
  scanners : ∀ stage ∈ client.scanners,
    stage.Ready client.syncManager.textChangesQueue client.epList.length

/-- What every state of a client satisfies whose only session is one of a member. -/
structure OneMembership (client : ThreadedClient) : Prop where
  running : client.running = true
  hostFlag : client.hostFlag = false
  updater : client.updaterCounted = true → client.syncManager.textUpdateQueue ≠ []
  hostThreads : client.distributors = [] ∧ client.scanners = []
  hostIPEP : client.hostIPEP ≠ none
  threads : client.memberScanners.length = client.enqueuers.length ∧ client.enqueuers.length ≤ 1
  connecting : client.connecting = true → client.enqueuers = []
  enqueuers : ∀ stage ∈ client.enqueuers, stage.Ready client.updateIDEQueue 0
  memberScanners : ∀ stage ∈ client.memberScanners,
    stage.Ready client.syncManager.textChangesQueue 0

/-- A step of the threads is none of the pipeline, or one step with the same traffic. -/
def Simulates (client : ThreadedClient) (event : ThreadedEvent) (next : ThreadedClient)
    (output : ThreadedOutput) : Prop :=
  next.coarse = client.coarse ∧
      (∀ traffic : HostTraffic, traffic.observe ⟨client, event, output, next⟩ = traffic) ∨
    ∃ hostEvent shown, client.coarse.step 1 hostEvent = some (next.coarse, shown) ∧
      ∀ traffic : HostTraffic,
        traffic.observe ⟨client, event, output, next⟩ = traffic.record hostEvent shown

section Queues

variable {epList : List IPEndPoint} {done : UpdateTuple → ThreadStage}
  {stage stage' : ThreadStage} {output : ThreadedOutput} {thread : ℕ}

/-- The only thread of its kind. -/
theorem eq_singleton {threads : List ThreadStage} (hlength : threads.length ≤ 1)
    (hstage : threads[thread]? = some stage) : thread = 0 ∧ threads = [stage] := by
  obtain ⟨hthread, rfl⟩ := List.getElem?_eq_some_iff.mp hstage
  obtain ⟨rfl, hone⟩ : thread = 0 ∧ threads.length = 1 := by omega
  obtain ⟨only, rfl⟩ := List.length_eq_one_iff.mp hone
  exact ⟨rfl, rfl⟩

/-- A thread stays ready when its queue only grows. -/
theorem ThreadStage.Ready.grow {α : Type*} {queue : List α} {endpoints : ℕ}
    (hready : stage.Ready queue endpoints) (added : List α) :
    stage.Ready (queue ++ added) endpoints := by
  cases stage with
  | counted | recounted => exact List.append_ne_nil_of_left_ne_nil hready _
  | idle | holding | delivered => trivial
  | sending => exact hready

/-- A loop of a ready thread throws nothing and stays ready; to the pipeline it enters silently,
sends, and is done with the tuple in hand. -/
theorem LoopStep.ready {α : Type*} {queue : List α}
    (hloop : LoopStep epList done stage stage' output) (hlist : epList.length = 1)
    (hready : stage.Ready queue epList.length)
    (hdone : ∀ updateTuple, (done updateTuple).Ready queue epList.length) :
    output ≠ .threw ∧ stage'.Ready queue epList.length ∧
      ∃ updateTuple position, stage.coarse = .broadcasting updateTuple position ∧
        (stage'.coarse = stage.coarse ∧ output = .began updateTuple.update 1 ∨
          position < 1 ∧ stage'.coarse = .broadcasting updateTuple (position + 1) ∧
            output = .host (.sent position (utf8GetBytes updateTuple.update)) ∨
          position = 1 ∧ stage' = done updateTuple ∧ output = .host .nothing) := by
  cases hloop with
  | enter updateTuple =>
    exact ⟨by simp, ⟨rfl, Nat.zero_le _⟩, updateTuple, 0, rfl, .inl ⟨rfl, by rw [hlist]⟩⟩
  | fault updateTuple position version hversion => exact absurd hready.1 hversion
  | send updateTuple position hposition =>
    exact ⟨by simp, ⟨rfl, hposition⟩, updateTuple, position, rfl,
      .inr (.inl ⟨hlist ▸ hposition, rfl, rfl⟩)⟩
  | leave updateTuple position hposition =>
    have hlast : position = 1 := by
      have hle := hready.2
      omega
    exact ⟨by simp, hdone updateTuple, updateTuple, position, rfl, .inr (.inr ⟨hlast, rfl, rfl⟩)⟩

/-- A scanner that alone takes from the queue throws nothing and stays ready; to the pipeline it
does nothing, or takes the first change. -/
theorem ChangeStep.ready {syncManager syncManager' : SynchronizationManager} {endpoints : ℕ}
    (hchange : ChangeStep syncManager stage syncManager' stage' output)
    (hready : stage.Ready syncManager.textChangesQueue endpoints) :
    output = .host .nothing ∧ stage'.Ready syncManager'.textChangesQueue endpoints ∧
      syncManager'.textUpdateQueue = syncManager.textUpdateQueue ∧ stage.coarse = .idle ∧
      (stage'.coarse = .idle ∧ syncManager' = syncManager ∨
        ∃ change rest, syncManager.textChangesQueue = change :: rest ∧
          syncManager' = { syncManager with textChangesQueue := rest } ∧
          stage' = .holding ⟨change, false⟩) := by
  cases hchange with
  | count hqueue | recount hqueue => exact ⟨rfl, hqueue, rfl, rfl, .inl ⟨rfl, rfl⟩⟩
  | missed hqueue | fault hqueue => exact absurd hqueue hready
  | take change rest hqueue =>
    exact ⟨rfl, trivial, rfl, rfl, .inr ⟨change, rest, hqueue, rfl, rfl⟩⟩

end Queues

section OneHost

variable {client next : ThreadedClient} {event : ThreadedEvent} {output : ThreadedOutput}
  {thread : ℕ}

/-- A distributor's step. -/
theorem OneSession.distribute (hone : OneSession client)
    (hstep : ThreadedStep client (.distribute thread) next output) :
    OneSession next ∧ Simulates client (.distribute thread) next output := by
  have hlength : client.distributors.length ≤ 1 := hone.threads.2.trans hone.members
  cases hstep with
  | count _ hstage hqueue =>
    obtain ⟨rfl, hsingle⟩ := eq_singleton hlength hstage
    refine ⟨{ hone with threads := ?_, connecting := ?_, distributors := ?_ },
      .inl ⟨?_, fun _ ↦ rfl⟩⟩
    · simpa using hone.threads
    · simpa using hone.connecting
    · simpa [hsingle, ThreadStage.Ready] using hqueue
    · simp [ThreadedClient.coarse, hsingle, ThreadStage.coarse]
  | take _ updateTuple rest hstage hqueue =>
    obtain ⟨rfl, hsingle⟩ := eq_singleton hlength hstage
    refine ⟨{ hone with threads := ?_, connecting := ?_, distributors := ?_ },
      .inr ⟨.distribute, .nothing, ?_, fun _ ↦ rfl⟩⟩
    · simpa using hone.threads
    · simpa using hone.connecting
    · simp [hsingle, ThreadStage.Ready]
    · simp [HostState.step, ThreadedClient.coarse, hsingle, hqueue, ThreadStage.coarse]
  | fault _ hstage hqueue =>
    exact absurd hqueue (hone.distributors _ (List.mem_of_getElem? hstage))
  | broadcast _ stage stage' _ hstage hloop =>
    obtain ⟨rfl, hsingle⟩ := eq_singleton hlength hstage
    have hlist : client.epList.length = 1 := by
      have hthreads := hone.threads.2
      have hmembers := hone.members
      simp only [hsingle, List.length_singleton] at hthreads
      omega
    obtain ⟨hsafe, hready, updateTuple, position, hcoarse, hcases⟩ :=
      hloop.ready hlist (hone.distributors _ (List.mem_of_getElem? hstage)) fun _ ↦ trivial
    refine ⟨{ hone with running := ?_, threads := ?_, connecting := ?_, distributors := ?_ }, ?_⟩
    · simpa using hsafe
    · simpa using hone.threads
    · simpa using hone.connecting
    · simpa [hsingle] using hready
    · rcases hcases with ⟨hsame, rfl⟩ | ⟨hposition, hnext, rfl⟩ | ⟨hlast, hnext, rfl⟩
      · refine .inl ⟨?_, fun _ ↦ rfl⟩
        simp [ThreadedClient.coarse, hsingle, hsame]
      · refine .inr ⟨.distribute, .sent position (utf8GetBytes updateTuple.update), ?_,
          fun _ ↦ rfl⟩
        simp [HostState.step, ThreadedClient.coarse, hsingle, hcoarse, hnext, hposition]
      · refine .inl ⟨?_, fun _ ↦ rfl⟩
        have hdelivered : (ThreadStage.delivered updateTuple).coarse =
            .broadcasting updateTuple 1 := rfl
        simp [ThreadedClient.coarse, hsingle, hcoarse, hnext, hlast, hdelivered]
  | deliver _ updateTuple hstage =>
    obtain ⟨rfl, hsingle⟩ := eq_singleton hlength hstage
    refine ⟨{ hone with
      updater := ?_, threads := ?_, connecting := ?_, distributors := ?_, scanners := ?_ },
      .inr ⟨.distribute, .nothing, ?_, fun _ ↦ rfl⟩⟩
    · intro hcounted
      have hseen := hone.updater hcounted
      dsimp only
      split_ifs
      · exact List.append_ne_nil_of_left_ne_nil hseen _
      · exact hseen
    · simpa using hone.threads
    · simpa using hone.connecting
    · simp [hsingle, ThreadStage.Ready]
    · intro stage hmem
      have hready := hone.scanners stage hmem
      dsimp only
      split_ifs
      · exact hready
      · exact hready
    · by_cases hide : updateTuple.forIDE = true <;>
        simp [HostState.step, ThreadedClient.coarse, hsingle, ThreadStage.coarse,
          HostState.enqueueForIDEUpdate, hide]

/-- A scanner's step. -/
theorem OneSession.scan (hone : OneSession client)
    (hstep : ThreadedStep client (.scan thread) next output) :
    OneSession next ∧ Simulates client (.scan thread) next output := by
  have hlength : client.scanners.length ≤ 1 :=
    hone.threads.1.le.trans (hone.threads.2.trans hone.members)
  cases hstep with
  | scan _ stage stage' syncManager _ hstage hchange =>
    obtain ⟨rfl, hsingle⟩ := eq_singleton hlength hstage
    obtain ⟨rfl, hready, hupdates, hidle, hcases⟩ :=
      hchange.ready (hone.scanners _ (List.mem_of_getElem? hstage))
    refine ⟨{ hone with running := ?_, updater := ?_, threads := ?_, scanners := ?_ }, ?_⟩
    · simp
    · dsimp only
      rw [hupdates]
      exact hone.updater
    · simpa using hone.threads
    · simpa [hsingle] using hready
    · rcases hcases with ⟨hstays, rfl⟩ | ⟨change, rest, hqueue, rfl, rfl⟩
      · refine .inl ⟨?_, fun _ ↦ rfl⟩
        simp [ThreadedClient.coarse, hsingle, hidle, hstays]
      · refine .inr ⟨.scan, .nothing, ?_, fun _ ↦ rfl⟩
        simp [HostState.step, ThreadedClient.coarse, hsingle, hqueue, hidle,
          SynchronizationManager.getLastChange]
        rfl
  | broadcastChange _ stage stage' _ hstage hloop =>
    obtain ⟨rfl, hsingle⟩ := eq_singleton hlength hstage
    have hlist : client.epList.length = 1 := by
      have hthreads := hone.threads
      have hmembers := hone.members
      simp only [hsingle, List.length_singleton] at hthreads
      omega
    obtain ⟨hsafe, hready, updateTuple, position, hcoarse, hcases⟩ :=
      hloop.ready hlist (hone.scanners _ (List.mem_of_getElem? hstage)) fun _ ↦ trivial
    refine ⟨{ hone with running := ?_, threads := ?_, scanners := ?_ }, ?_⟩
    · simpa using hsafe
    · simpa using hone.threads
    · simpa [hsingle] using hready
    · rcases hcases with ⟨hsame, rfl⟩ | ⟨hposition, hnext, rfl⟩ | ⟨hlast, hnext, rfl⟩
      · refine .inl ⟨?_, fun _ ↦ rfl⟩
        simp [ThreadedClient.coarse, hsingle, hsame]
      · refine .inr ⟨.scan, .sent position (utf8GetBytes updateTuple.update), ?_, fun _ ↦ rfl⟩
        simp [HostState.step, ThreadedClient.coarse, hsingle, hcoarse, hnext, hposition]
      · refine .inr ⟨.scan, .nothing, ?_, fun _ ↦ rfl⟩
        have hidle : ThreadStage.idle.coarse = .idle := rfl
        simp [HostState.step, ThreadedClient.coarse, hsingle, hcoarse, hnext, hlast, hidle]

/-- The updater's step. -/
theorem OneSession.getLastUpdate (hone : OneSession client)
    (hstep : ThreadedStep client .getLastUpdate next output) :
    OneSession next ∧ Simulates client .getLastUpdate next output := by
  cases hstep with
  | noUpdate hcounted hqueue =>
    refine ⟨hone, .inr ⟨.getLastUpdate, .answered [], ?_, fun _ ↦ rfl⟩⟩
    simp [HostState.step, ThreadedClient.coarse, SynchronizationManager.getLastUpdate, hqueue]
  | countUpdate hcounted hqueue =>
    exact ⟨{ hone with updater := fun _ ↦ hqueue }, .inl ⟨rfl, fun _ ↦ rfl⟩⟩
  | takeUpdate update rest hcounted hqueue =>
    refine ⟨{ hone with updater := by simp }, .inr ⟨.getLastUpdate, .answered update, ?_,
      fun _ ↦ rfl⟩⟩
    simp [HostState.step, ThreadedClient.coarse, SynchronizationManager.getLastUpdate, hqueue]
  | faultUpdate hcounted hqueue => exact absurd hqueue (hone.updater hcounted)

/-- A listener's step. -/
theorem OneSession.receive (hone : OneSession client) (receiveBytes : Datagram) :
    OneSession (client.p2pListener receiveBytes) ∧
      Simulates client (.receive receiveBytes) (client.p2pListener receiveBytes)
        (.host .nothing) := by
  refine ⟨?_, .inr ⟨.receive receiveBytes, .nothing, ?_, fun _ ↦ rfl⟩⟩
  · simp only [ThreadedClient.p2pListener, hone.hostFlag, if_true]
    split_ifs
    · exact { hone with
        hostFlag := rfl
        distributors := fun stage hstage ↦ (hone.distributors stage hstage).grow _ }
    · exact hone
  · simp only [HostState.step, HostState.p2pListener, ThreadedClient.p2pListener, hone.hostFlag,
      if_true]
    split_ifs <;> rfl

/-- Every step of a client that stays a host of at most one member keeps to the pipeline. -/
theorem OneSession.step (hone : OneSession client) (hhost : next.hostFlag = true)
    (hmembers : next.epList.length ≤ 1) (hstep : ThreadedStep client event next output) :
    OneSession next ∧ Simulates client event next output := by
  cases event with
  | distribute thread => exact hone.distribute hstep
  | scan thread => exact hone.scan hstep
  | getLastUpdate => exact hone.getLastUpdate hstep
  | receive receiveBytes =>
    cases hstep
    exact hone.receive receiveBytes
  | connectP2P type endpoint =>
    cases hstep with
    | connectMember => cases hhost
    | connectHost _ hready =>
      simp only [List.length_append, List.length_singleton] at hmembers
      have hnone : client.distributors = [] :=
        List.length_eq_zero_iff.mp (by have hthreads := hone.threads.2; omega)
      have hscanners : client.scanners = [] := by
        refine List.length_eq_zero_iff.mp ?_
        rw [hone.threads.1, hnone]
        rfl
      refine ⟨{ hone with
        members := by simpa using hmembers, threads := ?_, connecting := ?_, distributors := ?_,
        scanners := ?_ }, .inl ⟨rfl, fun _ ↦ rfl⟩⟩
      · simp [hnone, hscanners]
      · simp [hnone]
      · simp [hnone]
      · simp [hscanners]
  | startSesstion =>
    cases hstep with
    | startMember _ hmember => exact absurd (hmember.symm.trans hone.hostFlag) (by decide)
    | startHost hconnecting =>
      have hwaiting := hone.connecting hconnecting
      have hnone : client.distributors = [] :=
        List.length_eq_zero_iff.mp (by have hone := hone.members; omega)
      have hscanners : client.scanners = [] := by
        refine List.length_eq_zero_iff.mp ?_
        rw [hone.threads.1, hnone]
        rfl
      refine ⟨{ hone with threads := ?_, connecting := ?_, distributors := ?_, scanners := ?_ },
        .inl ⟨?_, fun _ ↦ rfl⟩⟩
      · simp only [hnone, hscanners, List.nil_append, List.length_singleton, true_and]
        omega
      · simp
      · simp [hnone, ThreadStage.Ready]
      · simp [hscanners, ThreadStage.Ready]
      · simp [ThreadedClient.coarse, hnone, hscanners]
  | enqueue thread =>
    have hnone := hone.memberThreads.1
    cases hstep <;> simp_all
  | memberScan thread =>
    have hnone := hone.memberThreads.2
    cases hstep <;> simp_all
  | addTextChange update =>
    cases hstep
    exact ⟨{ hone with scanners := fun stage hstage ↦ (hone.scanners stage hstage).grow _ },
      .inr ⟨.addTextChange update, .nothing, rfl, fun _ ↦ rfl⟩⟩

end OneHost

section OneMember

variable {client next : ThreadedClient} {event : ThreadedEvent} {output : ThreadedOutput}
  {thread : ℕ}

/-- A client that has opened no session becomes a member. -/
theorem OneSession.becomesMember (hone : OneSession client) (hnone : client.epList = [])
    (endpoint : IPEndPoint) :
    OneMembership { client with
      hostFlag := false
      hostIPEP := some endpoint
      connecting := true } := by
  have hdistributors : client.distributors = [] := by
    refine List.length_eq_zero_iff.mp (Nat.le_zero.mp ?_)
    simpa [hnone] using hone.threads.2
  have hscanners : client.scanners = [] := by
    refine List.length_eq_zero_iff.mp ?_
    rw [hone.threads.1, hdistributors]
    rfl
  obtain ⟨henqueuers, hmemberScanners⟩ := hone.memberThreads
  constructor
  · exact hone.running
  · rfl
  · exact hone.updater
  · exact ⟨hdistributors, hscanners⟩
  · simp
  · simp [henqueuers, hmemberScanners]
  · exact fun _ ↦ henqueuers
  · simp [henqueuers]
  · simp [hmemberScanners]

/-- A step of the thread that queues updates for the editor. -/
theorem OneMembership.enqueue (hone : OneMembership client)
    (hstep : ThreadedStep client (.enqueue thread) next output) : OneMembership next := by
  cases hstep with
  | memberCount _ hstage hqueue =>
    obtain ⟨rfl, hsingle⟩ := eq_singleton hone.threads.2 hstage
    refine { hone with threads := ?_, connecting := ?_, enqueuers := ?_ }
    · simpa using hone.threads
    · simpa using hone.connecting
    · simpa [hsingle, ThreadStage.Ready] using hqueue
  | memberTake _ update rest hstage hqueue =>
    obtain ⟨rfl, hsingle⟩ := eq_singleton hone.threads.2 hstage
    refine { hone with threads := ?_, connecting := ?_, enqueuers := ?_ }
    · simpa using hone.threads
    · simpa using hone.connecting
    · simp [hsingle, ThreadStage.Ready]
  | memberFault _ hstage hqueue =>
    exact absurd hqueue (hone.enqueuers _ (List.mem_of_getElem? hstage))
  | memberDeliver _ updateTuple hstage =>
    obtain ⟨rfl, hsingle⟩ := eq_singleton hone.threads.2 hstage
    refine { hone with updater := ?_, threads := ?_, connecting := ?_, enqueuers := ?_ }
    · exact fun hcounted ↦ List.append_ne_nil_of_left_ne_nil (hone.updater hcounted) _
    · simpa using hone.threads
    · simpa using hone.connecting
    · simp [hsingle, ThreadStage.Ready]

/-- A step of the thread that sends the local changes to the host. -/
theorem OneMembership.memberScan (hone : OneMembership client)
    (hstep : ThreadedStep client (.memberScan thread) next output) : OneMembership next := by
  have hlength : client.memberScanners.length ≤ 1 := hone.threads.1.le.trans hone.threads.2
  cases hstep with
  | memberScan _ stage stage' syncManager _ hstage hchange =>
    obtain ⟨rfl, hsingle⟩ := eq_singleton hlength hstage
    obtain ⟨rfl, hready, hupdates, -, -⟩ :=
      hchange.ready (hone.memberScanners _ (List.mem_of_getElem? hstage))
    refine { hone with running := ?_, updater := ?_, threads := ?_, memberScanners := ?_ }
    · simp
    · dsimp only
      rw [hupdates]
      exact hone.updater
    · simpa using hone.threads
    · simpa [hsingle] using hready
  | sendChange _ updateTuple hstage =>
    obtain ⟨rfl, hsingle⟩ := eq_singleton hlength hstage
    refine { hone with threads := ?_, memberScanners := ?_ }
    · simpa using hone.threads
    · simp [hsingle, ThreadStage.Ready]
  | noHost _ _ hnone => exact absurd hnone hone.hostIPEP

/-- Every step of a client whose only session is one of a member, but for the beginning of another
one. -/
theorem OneMembership.step (hone : OneMembership client)
    (hsession : ∀ type endpoint, event ≠ .connectP2P type endpoint)
    (hstep : ThreadedStep client event next output) : OneMembership next := by
  cases event with
  | connectP2P type endpoint => exact absurd rfl (hsession type endpoint)
  | enqueue thread => exact hone.enqueue hstep
  | memberScan thread => exact hone.memberScan hstep
  | distribute thread =>
    have hnone := hone.hostThreads.1
    cases hstep <;> simp_all
  | scan thread =>
    have hnone := hone.hostThreads.2
    cases hstep <;> simp_all
  | startSesstion =>
    cases hstep with
    | startHost _ hhost => exact absurd (hhost.symm.trans hone.hostFlag) (by decide)
    | startMember hconnecting =>
      have hnone := hone.connecting hconnecting
      have hscanners : client.memberScanners = [] := by
        refine List.length_eq_zero_iff.mp ?_
        rw [hone.threads.1, hnone]
        rfl
      refine { hone with threads := ?_, connecting := ?_, enqueuers := ?_, memberScanners := ?_ }
      · simp [hnone, hscanners]
      · simp
      · simp [hnone, ThreadStage.Ready]
      · simp [hscanners, ThreadStage.Ready]
  | receive receiveBytes =>
    cases hstep
    simp only [ThreadedClient.p2pListener, hone.hostFlag, Bool.false_eq_true, if_false]
    split_ifs
    · exact { hone with
        hostFlag := rfl
        enqueuers := fun stage hstage ↦ (hone.enqueuers stage hstage).grow _ }
    · exact hone
  | addTextChange update =>
    cases hstep
    exact { hone with
      memberScanners := fun stage hstage ↦ (hone.memberScanners stage hstage).grow _ }
  | getLastUpdate =>
    cases hstep with
    | noUpdate => exact hone
    | countUpdate _ hqueue => exact { hone with updater := fun _ ↦ hqueue }
    | takeUpdate => exact { hone with updater := by simp }
    | faultUpdate hcounted hqueue => exact absurd hqueue (hone.updater hcounted)

end OneMember

/-! ### Runs with one session -/

/-- Whether a session begins. -/
def ThreadedEvent.connects : ThreadedEvent → Bool
  | .connectP2P _ _ => true
  | _ => false

/-- How many sessions were begun in a run. -/
def sessionsOf (history : List ThreadedRecord) : ℕ :=
  history.countP fun record ↦ record.event.connects

section Runs

variable {history : List ThreadedRecord} {client next : ThreadedClient} {event : ThreadedEvent}
  {output : ThreadedOutput}

theorem sessionsOf_snoc (history : List ThreadedRecord) (record : ThreadedRecord) :
    sessionsOf (history ++ [record]) =
      sessionsOf history + if record.event.connects then 1 else 0 := by
  simp [sessionsOf, List.countP_append, List.countP_cons]

/-- Role and members only change when a session begins. -/
theorem role_of_step (hstep : ThreadedStep client event next output)
    (hsession : event.connects = false) :
    next.hostFlag = client.hostFlag ∧ next.epList = client.epList := by
  cases hstep with
  | connectHost | connectMember => cases hsession
  | receive receiveBytes =>
    simp only [ThreadedClient.p2pListener]
    split_ifs <;> exact ⟨rfl, rfl⟩
  | _ => exact ⟨rfl, rfl⟩

/-- Whoever is a host of some members now was one before, of no more. -/
theorem host_of_step (hstep : ThreadedStep client event next output)
    (hhost : next.hostFlag = true) :
    client.hostFlag = true ∧ client.epList.length ≤ next.epList.length := by
  cases hsession : event.connects with
  | false =>
    obtain ⟨hrole, hlist⟩ := role_of_step hstep hsession
    exact ⟨hrole ▸ hhost, hlist ▸ le_rfl⟩
  | true =>
    cases hstep with
    | connectHost => exact ⟨hhost, by simp⟩
    | connectMember => cases hhost
    | _ => cases hsession

theorem oneSession_start : OneSession {} :=
  ⟨rfl, rfl, by simp, by simp, by simp, by simp, by simp, by simp, by simp⟩

/-- A run of a client that stays a host of at most one member is one of the pipeline. -/
theorem oneSession_of_run (hrun : ThreadedRun history client) (hhost : client.hostFlag = true)
    (hmembers : client.epList.length ≤ 1) :
    OneSession client ∧ ∃ coarseHistory, HostRun 1 coarseHistory client.coarse ∧
      hostTraffic coarseHistory = threadedTraffic history := by
  induction hrun with
  | start => exact ⟨oneSession_start, [], .start, rfl⟩
  | extend hrun hstep ih =>
    obtain ⟨-, hstep⟩ := threadedStep_of_step hstep
    obtain ⟨hbefore, hgrows⟩ := host_of_step hstep hhost
    obtain ⟨hone, coarseHistory, hcoarse, htraffic⟩ := ih hbefore (hgrows.trans hmembers)
    obtain ⟨hnext, hsimulates⟩ := hone.step hhost hmembers hstep
    refine ⟨hnext, ?_⟩
    rw [threadedTraffic_snoc]
    rcases hsimulates with ⟨hsame, hobserve⟩ | ⟨event, shown, hcoarseStep, hobserve⟩
    · exact ⟨coarseHistory, hsame ▸ hcoarse, by rw [hobserve, htraffic]⟩
    · refine ⟨_, hcoarse.extend hcoarseStep, ?_⟩
      rw [hobserve, ← htraffic, hostTraffic, List.foldl_append]
      rfl

/-- In every run of a host with at most one member, whatever the order in which its threads look at
the queues and take from them, the host is where a run of the pipeline with the same traffic leads:
no update is lost, duplicated or reordered by a look at a queue and the removal being two steps. -/
theorem session_refines (hrun : ThreadedRun history client) (hhost : client.hostFlag = true)
    (hmembers : client.epList.length ≤ 1) :
    ∃ coarseHistory, HostRun 1 coarseHistory client.coarse ∧
      hostTraffic coarseHistory = threadedTraffic history ∧
      Accounted 1 client.coarse (threadedTraffic history) := by
  obtain ⟨-, coarseHistory, hcoarse, htraffic⟩ := oneSession_of_run hrun hhost hmembers
  exact ⟨coarseHistory, hcoarse, htraffic, htraffic ▸ accounted_of_run hcoarse⟩

/-- The scanner and the updater look at their queues while the distributor sends. -/
theorem session_refines_run : ∃ history client, ThreadedRun history client ∧
    (threadedTraffic history).sentTo 0 = [utf8GetBytes (str "+1"), utf8GetBytes (str "-2")] ∧
    ∃ coarseHistory, HostRun 1 coarseHistory client.coarse ∧
      hostTraffic coarseHistory = threadedTraffic history ∧
      Accounted 1 client.coarse (threadedTraffic history) := by
  obtain ⟨history, client, hrun, -, hcheck⟩ := exists_run_of_execute ThreadedClient.step {}
    [.addTextChange (str "-2"), .connectP2P .host ⟨0x7F000001, 4000⟩, .startSesstion,
      .receive (utf8GetBytes (str "+1")), .distribute 0, .scan 0, .distribute 0, .scan 0,
      .distribute 0, .getLastUpdate, .distribute 0, .scan 0, .distribute 0, .scan 0,
      .distribute 0, .getLastUpdate, .scan 0, .receive (utf8GetBytes (str "=3"))]
    (fun history client ↦
      (threadedTraffic history).sentTo 0 = [utf8GetBytes (str "+1"), utf8GetBytes (str "-2")] &&
      client.hostFlag && client.epList.length = 1) (by decide +kernel)
  simp only [Bool.and_eq_true, decide_eq_true_eq] at hcheck
  obtain ⟨⟨hsent, hhost⟩, hone⟩ := hcheck
  exact ⟨history, client, hrun, hsent, session_refines hrun hhost hone.le⟩

/-- In a run with at most one session the client is a host of at most one member, or a member of one
session. -/
theorem one_of_run (hrun : ThreadedRun history client) (hsessions : sessionsOf history ≤ 1) :
    OneSession client ∧ client.epList.length = sessionsOf history ∨
      OneMembership client ∧ sessionsOf history = 1 := by
  induction hrun with
  | start => exact .inl ⟨oneSession_start, rfl⟩
  | @extend history client next event output hrun hstep ih =>
    obtain ⟨-, hstep⟩ := threadedStep_of_step hstep
    rw [sessionsOf_snoc] at hsessions ⊢
    cases hsession : event.connects with
    | false =>
      simp only [hsession, Bool.false_eq_true, if_false, add_zero] at hsessions ⊢
      obtain ⟨hrole, hlist⟩ := role_of_step hstep hsession
      rcases ih hsessions with ⟨hone, hcount⟩ | ⟨hone, hcount⟩
      · refine .inl ⟨(hone.step (hrole.trans hone.hostFlag) ?_ hstep).1, hlist ▸ hcount⟩
        rw [hlist]
        exact hone.members
      · refine .inr ⟨hone.step ?_ hstep, hcount⟩
        rintro type endpoint rfl
        cases hsession
    | true =>
      simp only [hsession, if_true] at hsessions ⊢
      have hnone : sessionsOf history = 0 := by omega
      rcases ih (by omega) with ⟨hone, hcount⟩ | ⟨-, hcount⟩
      · rw [hnone] at hcount ⊢
        have hempty : client.epList = [] := List.length_eq_zero_iff.mp hcount
        cases hstep with
        | connectHost endpoint hready =>
          refine .inl ⟨(hone.step ?_ ?_ (.connectHost endpoint hready)).1, ?_⟩
          · exact hone.hostFlag
          · simp [hempty]
          · simp [hempty]
        | connectMember endpoint => exact .inr ⟨hone.becomesMember hempty endpoint, rfl⟩
        | _ => cases hsession
      · omega

/-- In all runs with so many sessions at most, in whatever roles and in whatever order the threads
take their steps, nothing is thrown exactly when there is at most one session: with one thread for
each queue there is still something to take when it is taken, and no loop runs when a member is
added. -/
theorem never_throws_iff (sessions : ℕ) :
    (∀ history client, ThreadedRun history client → sessionsOf history ≤ sessions →
      client.running = true) ↔ sessions ≤ 1 := by
  constructor
  · intro hall
    by_contra hmany
    obtain ⟨history, client, hrun, -, hcheck⟩ := exists_run_of_execute ThreadedClient.step {}
      [.connectP2P .host ⟨0x7F000001, 4000⟩, .startSesstion,
        .connectP2P .host ⟨0x0A000007, 4000⟩, .startSesstion,
        .receive (utf8GetBytes (str "+1")), .distribute 0, .distribute 1, .distribute 0,
        .distribute 1]
      (fun history client ↦ sessionsOf history = 2 && !client.running) (by decide +kernel)
    simp only [Bool.and_eq_true, decide_eq_true_eq, Bool.not_eq_true'] at hcheck
    have hrunning := hall history client hrun (by omega)
    rw [hcheck.2] at hrunning
    cases hrunning
  · intro hone history client hrun hsessions
    rcases one_of_run hrun (hsessions.trans hone) with ⟨hhost, -⟩ | ⟨hmember, -⟩
    · exact hhost.running
    · exact hmember.running

end Runs

end NovaIde.Client
