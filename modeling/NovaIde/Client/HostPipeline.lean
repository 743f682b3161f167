import NovaIde.Foundation.EventRun
import NovaIde.Foundation.Interleaving
import NovaIde.Client.Transport

/-!
# The pipeline of the host

The host's listener queues the updates of its members for delivery. `UpdateDistributor` takes them
one by one, sends each to every endpoint and then queues it for the host's own editor, whose
updater asks for them. `IDEUpdateScanner` takes the changes of that editor and sends each to every
endpoint. Each of these steps, down to the single send, may happen between any two others.

`hostPipeline` says what has become of every update in every reachable state: the received updates
are those the updater took, those queued for it, the one in the distributor's hand and those queued
for delivery, in this order; and every endpoint was sent a merge of the received updates and of the
local changes that keeps the order of both and lacks only those still queued or in hand.
-/

set_option autoImplicit false
set_option relaxedAutoImplicit false

namespace NovaIde.Client

open Foundation Foundation.EventRun

/-! ### Queues -/

/-- `SynchronizationManager`. -/
structure SynchronizationManager where
  textUpdateQueue : List Text := []
  textChangesQueue : List Text := []
deriving DecidableEq, Repr

namespace SynchronizationManager

/-- `AddIDEUpdate`: a string here is never null. -/
def addIDEUpdate (manager : SynchronizationManager) (update : Text) : SynchronizationManager :=
  { manager with textUpdateQueue := manager.textUpdateQueue ++ [update] }

/-- `AddTextChange`. -/
def addTextChange (manager : SynchronizationManager) (update : Text) : SynchronizationManager :=
  { manager with textChangesQueue := manager.textChangesQueue ++ [update] }

/-- `GetLastUpdate`: the answer to an empty queue is the empty string. -/
def getLastUpdate (manager : SynchronizationManager) : Text × SynchronizationManager :=
  match manager.textUpdateQueue with
  | update :: rest => (update, { manager with textUpdateQueue := rest })
  | [] => ([], manager)

/-- `GetLastChange`. -/
def getLastChange (manager : SynchronizationManager) : Text × SynchronizationManager :=
  match manager.textChangesQueue with
  | change :: rest => (change, { manager with textChangesQueue := rest })
  | [] => ([], manager)

end SynchronizationManager

/-! ### The host -/

/-- An entry of `updateDeliveryQueue`: the update, and whether it goes to the host's own editor. The
endpoint it came from is never read. -/
structure UpdateTuple where
  update : Text
  forIDE : Bool
deriving DecidableEq, Repr

/-- A sending thread: it waits, or it has a tuple in hand and will send it to a position of `epList`
next. -/
inductive Sender
  | idle
  | broadcasting (updateTuple : UpdateTuple) (position : ℕ)
deriving DecidableEq, Repr

/-- `SessionHost` with the queues of its `SynchronizationManager`. -/
structure HostState where
  updateDeliveryQueue : List UpdateTuple := []
  syncManager : SynchronizationManager := {}
  distributor : Sender := .idle
  scanner : Sender := .idle
deriving DecidableEq, Repr

/-- Whether the listener takes a message for an update. -/
def isUpdateMessage (receivedMessage : Text) : Bool :=
  match receivedMessage with
  | [] => false
  | char :: _ => char = unit '+' || char = unit '-' || char = unit '='

/-- What `P2PListener` does with a datagram while `hostFlag` is set: other messages leave the
pipeline alone. -/
def HostState.p2pListener (host : HostState) (receiveBytes : Datagram) : HostState :=
  let receivedMessage := asciiGetString receiveBytes
  if isUpdateMessage receivedMessage then
    { host with updateDeliveryQueue := host.updateDeliveryQueue ++ [⟨receivedMessage, true⟩] }
  else host

/-- `EnqueueForIDEUpdate`. -/
def HostState.enqueueForIDEUpdate (host : HostState) (updateTuple : UpdateTuple) : HostState :=
  if updateTuple.forIDE then
    { host with syncManager := host.syncManager.addIDEUpdate updateTuple.update }
  else host

/-- What happens on the host. -/
inductive HostEvent
  | receive (receiveBytes : Datagram)
  /-- The next step of `UpdateDistributor`. -/
  | distribute
  /-- The next step of `IDEUpdateScanner`. -/
  | scan
  | addTextChange (update : Text)
  | getLastUpdate
deriving DecidableEq, Repr

/-- What a step shows: a datagram sent to a position of `epList`, or the answer the updater got. -/
inductive HostOutput
  | nothing
  | sent (position : ℕ) (data : Datagram)
  | answered (update : Text)
deriving DecidableEq, Repr

/-- One step of the host, with the number of its endpoints. A thread with nothing to do takes no
step. -/
def HostState.step (endpoints : ℕ) (host : HostState) :
    HostEvent → Option (HostState × HostOutput)
  | .receive receiveBytes => some (host.p2pListener receiveBytes, .nothing)
  | .distribute =>
    match host.distributor with
    | .idle =>
      match host.updateDeliveryQueue with
      | [] => none
      | updateTuple :: rest =>
        some ({ host with
          updateDeliveryQueue := rest
          distributor := .broadcasting updateTuple 0 }, .nothing)
    | .broadcasting updateTuple position =>
      if position < endpoints then
        some ({ host with distributor := .broadcasting updateTuple (position + 1) },
          .sent position (utf8GetBytes updateTuple.update))
      else
        some ({ host.enqueueForIDEUpdate updateTuple with distributor := .idle }, .nothing)
  | .scan =>
    match host.scanner with
    | .idle =>
      if host.syncManager.textChangesQueue.length ≠ 0 then
        let (change, syncManager) := host.syncManager.getLastChange
        some ({ host with syncManager, scanner := .broadcasting ⟨change, false⟩ 0 }, .nothing)
      else none
    | .broadcasting updateTuple position =>
      if position < endpoints then
        some ({ host with scanner := .broadcasting updateTuple (position + 1) },
          .sent position (utf8GetBytes updateTuple.update))
      else some ({ host with scanner := .idle }, .nothing)
  | .addTextChange update =>
    some ({ host with syncManager := host.syncManager.addTextChange update }, .nothing)
  | .getLastUpdate =>
    let (update, syncManager) := host.syncManager.getLastUpdate
    some ({ host with syncManager }, .answered update)

/-! ### Steps of the sending threads -/

/-- The ways `UpdateDistributor` takes a step. -/
inductive DistributeStep (endpoints : ℕ) (host : HostState) : HostState → HostOutput → Prop
  | take {updateTuple : UpdateTuple} {rest : List UpdateTuple} (hidle : host.distributor = .idle)
      (hqueue : host.updateDeliveryQueue = updateTuple :: rest) :
      DistributeStep endpoints host
        { host with
          updateDeliveryQueue := rest
          distributor := .broadcasting updateTuple 0 } .nothing
  | send {updateTuple : UpdateTuple} {position : ℕ}
      (hhand : host.distributor = .broadcasting updateTuple position)
      (hposition : position < endpoints) :
      DistributeStep endpoints host
        { host with distributor := .broadcasting updateTuple (position + 1) }
        (.sent position (utf8GetBytes updateTuple.update))
  | finish {updateTuple : UpdateTuple} {position : ℕ}
      (hhand : host.distributor = .broadcasting updateTuple position)
      (hposition : ¬ position < endpoints) :
      DistributeStep endpoints host
        { host.enqueueForIDEUpdate updateTuple with distributor := .idle } .nothing

/-- The ways `IDEUpdateScanner` takes a step. -/
inductive ScanStep (endpoints : ℕ) (host : HostState) : HostState → HostOutput → Prop
  | take {change : Text} {rest : List Text} (hidle : host.scanner = .idle)
      (hqueue : host.syncManager.textChangesQueue = change :: rest) :
      ScanStep endpoints host
        { host with
          syncManager := { host.syncManager with textChangesQueue := rest }
          scanner := .broadcasting ⟨change, false⟩ 0 } .nothing
  | send {updateTuple : UpdateTuple} {position : ℕ}
      (hhand : host.scanner = .broadcasting updateTuple position)
      (hposition : position < endpoints) :
      ScanStep endpoints host { host with scanner := .broadcasting updateTuple (position + 1) }
        (.sent position (utf8GetBytes updateTuple.update))
  | finish {updateTuple : UpdateTuple} {position : ℕ}
      (hhand : host.scanner = .broadcasting updateTuple position)
      (hposition : ¬ position < endpoints) :
      ScanStep endpoints host { host with scanner := .idle } .nothing

section Threads

variable {endpoints : ℕ} {host host' : HostState} {output : HostOutput}

theorem distributeStep_of_step
    (hstep : host.step endpoints .distribute = some (host', output)) :
    DistributeStep endpoints host host' output := by
  simp only [HostState.step] at hstep
  cases hhand : host.distributor with
  | idle =>
    rw [hhand] at hstep
    cases hqueue : host.updateDeliveryQueue with
    | nil => simp [hqueue] at hstep
    | cons updateTuple rest =>
      rw [hqueue] at hstep
      cases hstep
      exact .take hhand hqueue
  | broadcasting updateTuple position =>
    simp only [hhand] at hstep
    split_ifs at hstep with hposition
    · cases hstep
      exact .send hhand hposition
    · cases hstep
      exact .finish hhand hposition

theorem scanStep_of_step (hstep : host.step endpoints .scan = some (host', output)) :
    ScanStep endpoints host host' output := by
  simp only [HostState.step] at hstep
  cases hhand : host.scanner with
  | idle =>
    rw [hhand] at hstep
    cases hqueue : host.syncManager.textChangesQueue with
    | nil => simp [hqueue] at hstep
    | cons change rest =>
      simp only [hqueue, SynchronizationManager.getLastChange, List.length_cons] at hstep
      cases hstep
      exact .take hhand hqueue
  | broadcasting updateTuple position =>
    simp only [hhand] at hstep
    split_ifs at hstep with hposition
    · cases hstep
      exact .send hhand hposition
    · cases hstep
      exact .finish hhand hposition

end Threads

/-! ### Traffic -/

/-- What has passed through a host so far. -/
structure HostTraffic where
  /-- The update datagrams received. -/
  received : List Text := []
  /-- The updates the updater took: an empty answer is none. -/
  taken : List Text := []
  /-- The local changes. -/
  changed : List Text := []
  /-- The datagrams sent, with the position of `epList` they were sent to. -/
  sent : List (ℕ × Datagram) := []

/-- The traffic after a step. -/
def HostTraffic.record (traffic : HostTraffic) (event : HostEvent) (output : HostOutput) :
    HostTraffic :=
  match event, output with
  | .receive receiveBytes, _ =>
    if isUpdateMessage (asciiGetString receiveBytes) then
      { traffic with received := traffic.received ++ [asciiGetString receiveBytes] }
    else traffic
  | .addTextChange update, _ => { traffic with changed := traffic.changed ++ [update] }
  | _, .sent position data => { traffic with sent := traffic.sent ++ [(position, data)] }
  | _, .answered update =>
    if update ≠ [] then { traffic with taken := traffic.taken ++ [update] } else traffic
  | _, .nothing => traffic

/-- What was sent to one position of `epList`. -/
def HostTraffic.sentTo (traffic : HostTraffic) (position : ℕ) : List Datagram :=
  (traffic.sent.filter fun entry ↦ entry.1 = position).map Prod.snd

/-- The tuple in a thread's hand. -/
def Sender.inHand : Sender → List Text
  | .idle => []
  | .broadcasting updateTuple _ => [updateTuple.update]

/-- The tuple in a thread's hand, if it is still to be sent to a position. -/
def Sender.unsent (sender : Sender) (position : ℕ) : List Text :=
  match sender with
  | .idle => []
  | .broadcasting updateTuple next => if next ≤ position then [updateTuple.update] else []

/-- Every update that entered the pipeline is accounted for. -/
structure Accounted (endpoints : ℕ) (host : HostState) (traffic : HostTraffic) : Prop where
  received_ne_nil : ∀ update ∈ traffic.received, update ≠ []
  forIDE_queue : ∀ updateTuple ∈ host.updateDeliveryQueue, updateTuple.forIDE = true
  forIDE_hand : ∀ updateTuple position,
    host.distributor = .broadcasting updateTuple position → updateTuple.forIDE = true
  received : traffic.received =
    traffic.taken ++ host.syncManager.textUpdateQueue ++ host.distributor.inHand ++
      host.updateDeliveryQueue.map UpdateTuple.update
  sent : ∀ position < endpoints, ∃ fromMembers fromHost merged,
    traffic.received = fromMembers ++ host.distributor.unsent position ++
      host.updateDeliveryQueue.map UpdateTuple.update ∧
    traffic.changed = fromHost ++ host.scanner.unsent position ++
      host.syncManager.textChangesQueue ∧
    Interleaving fromMembers fromHost merged ∧
    traffic.sentTo position = merged.map utf8GetBytes

section Step

variable {endpoints : ℕ} {host host' : HostState} {traffic : HostTraffic} {output : HostOutput}

theorem accounted_start (endpoints : ℕ) : Accounted endpoints {} {} := by
  refine ⟨by simp, by simp, by simp, rfl, fun position _ ↦ ?_⟩
  exact ⟨[], [], [], rfl, rfl, .nil, rfl⟩

/-- A datagram sent to one position is the next one sent there, and nothing was sent elsewhere. -/
theorem sentTo_append (traffic : HostTraffic) (position other : ℕ) (data : Datagram) :
    ({ traffic with sent := traffic.sent ++ [(position, data)] } : HostTraffic).sentTo other =
      traffic.sentTo other ++ if position = other then [data] else [] := by
  by_cases hposition : position = other <;> simp [HostTraffic.sentTo, hposition]

/-- A send takes the tuple off what is unsent to the position sent to. -/
theorem unsent_broadcasting (updateTuple : UpdateTuple) (position other : ℕ) :
    (Sender.broadcasting updateTuple position).unsent other =
      (if position = other then [updateTuple.update] else []) ++
        (Sender.broadcasting updateTuple (position + 1)).unsent other := by
  simp only [Sender.unsent]
  split_ifs <;> first | rfl | omega

/-- Nothing is unsent to a position of `epList` once all of them were sent to. -/
theorem unsent_of_done {updateTuple : UpdateTuple} {position other : ℕ}
    (hdone : ¬ position < endpoints) (hother : other < endpoints) :
    (Sender.broadcasting updateTuple position).unsent other = [] :=
  if_neg (by omega)

theorem accounted_receive (haccounted : Accounted endpoints host traffic)
    (receiveBytes : Datagram) :
    Accounted endpoints (host.p2pListener receiveBytes)
      (traffic.record (.receive receiveBytes) .nothing) := by
  obtain ⟨hne, hqueue, hhand, hreceived, hsent⟩ := haccounted
  by_cases hupdate : isUpdateMessage (asciiGetString receiveBytes) = true
  · have hne' : asciiGetString receiveBytes ≠ [] := by
      intro hempty
      simp [hempty, isUpdateMessage] at hupdate
    simp only [HostState.p2pListener, HostTraffic.record, if_pos hupdate]
    refine ⟨?_, ?_, hhand, ?_, fun position hposition ↦ ?_⟩
    · intro update hmem
      rcases List.mem_append.mp hmem with hold | hnew
      · exact hne update hold
      · rwa [List.mem_singleton.mp hnew]
    · intro updateTuple hmem
      rcases List.mem_append.mp hmem with hold | hnew
      · exact hqueue updateTuple hold
      · rw [List.mem_singleton.mp hnew]
    · simp only [hreceived, List.map_append, List.map_cons, List.map_nil, List.append_assoc]
    · obtain ⟨fromMembers, fromHost, merged, hmembers, hlocal, hmerged, hto⟩ :=
        hsent position hposition
      refine ⟨fromMembers, fromHost, merged, ?_, hlocal, hmerged, hto⟩
      simp only [hmembers, List.map_append, List.map_cons, List.map_nil, List.append_assoc]
  · simp only [HostState.p2pListener, HostTraffic.record, if_neg hupdate]
    exact ⟨hne, hqueue, hhand, hreceived, hsent⟩

theorem accounted_distribute (haccounted : Accounted endpoints host traffic)
    (hstep : host.step endpoints .distribute = some (host', output)) :
    Accounted endpoints host' (traffic.record .distribute output) := by
  obtain ⟨hne, hqueue, hhand, hreceived, hsent⟩ := haccounted
  cases distributeStep_of_step hstep with
  | @take updateTuple rest hdistributor hdelivery =>
    rw [hdelivery] at hqueue
    refine ⟨hne, fun other hother ↦ hqueue other (List.mem_cons_of_mem _ hother), ?_, ?_, ?_⟩
    · rintro other position hhand'
      cases hhand'
      exact hqueue updateTuple List.mem_cons_self
    · simpa [HostTraffic.record, Sender.inHand, hdistributor, hdelivery] using hreceived
    · intro position hposition
      obtain ⟨fromMembers, fromHost, merged, hmembers, hrest⟩ := hsent position hposition
      refine ⟨fromMembers, fromHost, merged, ?_, hrest⟩
      simpa [HostTraffic.record, Sender.unsent, hdistributor, hdelivery] using hmembers
  | @send updateTuple next hdistributor hnext =>
    rw [hdistributor] at hreceived hsent
    refine ⟨hne, hqueue, ?_, hreceived, fun position hposition ↦ ?_⟩
    · rintro other position hhand'
      cases hhand'
      exact hhand updateTuple next hdistributor
    · obtain ⟨fromMembers, fromHost, merged, hmembers, hlocal, hmerged, hto⟩ :=
        hsent position hposition
      simp only [HostTraffic.record, sentTo_append]
      rw [unsent_broadcasting] at hmembers
      split_ifs at hmembers ⊢ with hsame
      · exact ⟨fromMembers ++ [updateTuple.update], fromHost, merged ++ [updateTuple.update],
          by simpa only [List.append_assoc] using hmembers, hlocal, hmerged.left _, by simp [hto]⟩
      · exact ⟨fromMembers, fromHost, merged, by simpa using hmembers, hlocal, hmerged,
          by simpa using hto⟩
  | @finish updateTuple next hdistributor hnext =>
    rw [hdistributor] at hreceived hsent
    simp only [HostState.enqueueForIDEUpdate, hhand updateTuple next hdistributor, if_true]
    refine ⟨hne, hqueue, by simp, ?_, fun position hposition ↦ ?_⟩
    · simpa [HostTraffic.record, SynchronizationManager.addIDEUpdate, Sender.inHand]
        using hreceived
    · obtain ⟨fromMembers, fromHost, merged, hmembers, hrest⟩ := hsent position hposition
      rw [unsent_of_done hnext hposition] at hmembers
      exact ⟨fromMembers, fromHost, merged, hmembers, hrest⟩

theorem accounted_scan (haccounted : Accounted endpoints host traffic)
    (hstep : host.step endpoints .scan = some (host', output)) :
    Accounted endpoints host' (traffic.record .scan output) := by
  obtain ⟨hne, hqueue, hhand, hreceived, hsent⟩ := haccounted
  cases scanStep_of_step hstep with
  | take hscanner hchanges =>
    refine ⟨hne, hqueue, hhand, hreceived, fun position hposition ↦ ?_⟩
    obtain ⟨fromMembers, fromHost, merged, hmembers, hlocal, hrest⟩ := hsent position hposition
    refine ⟨fromMembers, fromHost, merged, hmembers, ?_, hrest⟩
    simpa [HostTraffic.record, Sender.unsent, hscanner, hchanges] using hlocal
  | @send updateTuple next hscanner hnext =>
    rw [hscanner] at hsent
    refine ⟨hne, hqueue, hhand, hreceived, fun position hposition ↦ ?_⟩
    obtain ⟨fromMembers, fromHost, merged, hmembers, hlocal, hmerged, hto⟩ :=
      hsent position hposition
    simp only [HostTraffic.record, sentTo_append]
    rw [unsent_broadcasting] at hlocal
    split_ifs at hlocal ⊢ with hsame
    · exact ⟨fromMembers, fromHost ++ [updateTuple.update], merged ++ [updateTuple.update],
        hmembers, by simpa only [List.append_assoc] using hlocal, hmerged.right _, by simp [hto]⟩
    · exact ⟨fromMembers, fromHost, merged, hmembers, by simpa using hlocal, hmerged,
        by simpa using hto⟩
  | finish hscanner hnext =>
    rw [hscanner] at hsent
    refine ⟨hne, hqueue, hhand, hreceived, fun position hposition ↦ ?_⟩
    obtain ⟨fromMembers, fromHost, merged, hmembers, hlocal, hrest⟩ := hsent position hposition
    rw [unsent_of_done hnext hposition] at hlocal
    exact ⟨fromMembers, fromHost, merged, hmembers, hlocal, hrest⟩

theorem accounted_addTextChange (haccounted : Accounted endpoints host traffic) (update : Text) :
    Accounted endpoints { host with syncManager := host.syncManager.addTextChange update }
      (traffic.record (.addTextChange update) .nothing) := by
  obtain ⟨hne, hqueue, hhand, hreceived, hsent⟩ := haccounted
  refine ⟨hne, hqueue, hhand, hreceived, fun position hposition ↦ ?_⟩
  obtain ⟨fromMembers, fromHost, merged, hmembers, hlocal, hrest⟩ := hsent position hposition
  refine ⟨fromMembers, fromHost, merged, hmembers, ?_, hrest⟩
  simp only [HostTraffic.record, SynchronizationManager.addTextChange, hlocal, List.append_assoc]

theorem accounted_getLastUpdate (haccounted : Accounted endpoints host traffic) :
    Accounted endpoints { host with syncManager := host.syncManager.getLastUpdate.2 }
      (traffic.record .getLastUpdate (.answered host.syncManager.getLastUpdate.1)) := by
  obtain ⟨hne, hqueue, hhand, hreceived, hsent⟩ := haccounted
  cases hupdates : host.syncManager.textUpdateQueue with
  | nil =>
    simp only [SynchronizationManager.getLastUpdate, hupdates, HostTraffic.record]
    exact ⟨hne, hqueue, hhand, hreceived, hsent⟩
  | cons update rest =>
    have hupdate : update ≠ [] := hne update (by simp [hreceived, hupdates])
    simp only [SynchronizationManager.getLastUpdate, hupdates, HostTraffic.record, ne_eq, hupdate,
      not_false_eq_true, if_true]
    refine ⟨hne, hqueue, hhand, ?_, hsent⟩
    simpa [hupdates] using hreceived

/-- Every step keeps the updates accounted for. -/
theorem Accounted.step {event : HostEvent} (haccounted : Accounted endpoints host traffic)
    (hstep : host.step endpoints event = some (host', output)) :
    Accounted endpoints host' (traffic.record event output) := by
  cases event with
  | receive receiveBytes =>
    cases hstep
    exact accounted_receive haccounted receiveBytes
  | distribute => exact accounted_distribute haccounted hstep
  | scan => exact accounted_scan haccounted hstep
  | addTextChange update =>
    cases hstep
    exact accounted_addTextChange haccounted update
  | getLastUpdate =>
    cases hstep
    exact accounted_getLastUpdate haccounted

end Step

/-! ### Whole runs -/

/-- The steps of a run of a host. -/
abbrev HostRecord := StepRecord HostState HostEvent HostOutput

/-- The runs of a host from the start of its session. -/
abbrev HostRun (endpoints : ℕ) : List HostRecord → HostState → Prop :=
  Run (HostState.step endpoints) {}

/-- The traffic of a run. -/
def hostTraffic (history : List HostRecord) : HostTraffic :=
  history.foldl (fun traffic record ↦ traffic.record record.event record.observation) {}

theorem accounted_of_run {endpoints : ℕ} {history : List HostRecord} {host : HostState}
    (hrun : HostRun endpoints history host) : Accounted endpoints host (hostTraffic history) := by
  refine hrun.relation (fun history host ↦ Accounted endpoints host (hostTraffic history))
    (accounted_start endpoints) ?_
  intro history host event host' output _ haccounted hstep
  rw [hostTraffic, List.foldl_append, ← hostTraffic]
  exact haccounted.step hstep

/-- In every reachable state, the updates received are those the updater took, those queued for it,
the one in the distributor's hand and those queued for delivery, in this order; and each position of
`epList` was sent, encoded, a merge of the received updates with the local changes that keeps both
orders, where each side only lacks what its thread still has in hand and what is still queued. -/
theorem hostPipeline {endpoints : ℕ} {history : List HostRecord} {host : HostState}
    (hrun : HostRun endpoints history host) :
    (hostTraffic history).received =
        (hostTraffic history).taken ++ host.syncManager.textUpdateQueue ++
          host.distributor.inHand ++ host.updateDeliveryQueue.map UpdateTuple.update ∧
      ∀ position < endpoints, ∃ fromMembers fromHost merged,
        (hostTraffic history).received = fromMembers ++ host.distributor.unsent position ++
          host.updateDeliveryQueue.map UpdateTuple.update ∧
        (hostTraffic history).changed = fromHost ++ host.scanner.unsent position ++
          host.syncManager.textChangesQueue ∧
        Interleaving fromMembers fromHost merged ∧
        (hostTraffic history).sentTo position = merged.map utf8GetBytes :=
  ⟨(accounted_of_run hrun).received, (accounted_of_run hrun).sent⟩

/-- Three updates and a local change on their way through a host with two endpoints. The second one
was sent a merge of the first update and the change, and lacks what the distributor still holds for
it. -/
theorem hostPipeline_run : ∃ history host, HostRun 2 history host ∧
    ((hostTraffic history).received =
      (hostTraffic history).taken ++ host.syncManager.textUpdateQueue ++
        host.distributor.inHand ++ host.updateDeliveryQueue.map UpdateTuple.update ∧
      (hostTraffic history).taken = [str "+1"] ∧ host.distributor.inHand = [str "+2"]) ∧
    (∃ fromMembers fromHost merged,
      (hostTraffic history).received = fromMembers ++ host.distributor.unsent 1 ++
        host.updateDeliveryQueue.map UpdateTuple.update ∧
      (hostTraffic history).changed = fromHost ++ host.scanner.unsent 1 ++
        host.syncManager.textChangesQueue ∧
      Interleaving fromMembers fromHost merged ∧
      (hostTraffic history).sentTo 1 = merged.map utf8GetBytes) ∧
    (hostTraffic history).sentTo 1 = [utf8GetBytes (str "+1"), utf8GetBytes (str "-3")] ∧
      host.distributor.unsent 1 = [str "+2"] := by
  obtain ⟨history, host, hrun, -, hcheck⟩ := exists_run_of_execute (HostState.step 2) {}
    [.getLastUpdate, .receive (utf8GetBytes (str "+1")), .receive (utf8GetBytes (str "b")),
      .distribute, .addTextChange (str "-3"), .distribute, .scan, .scan, .distribute,
      .receive (utf8GetBytes (str "+2")), .distribute, .distribute, .getLastUpdate, .scan,
      .distribute, .receive (utf8GetBytes (str "=4"))]
    (fun history host ↦
      ((hostTraffic history).taken = [str "+1"] && host.distributor.inHand = [str "+2"]) &&
      ((hostTraffic history).sentTo 1 = [utf8GetBytes (str "+1"), utf8GetBytes (str "-3")] &&
        host.distributor.unsent 1 = [str "+2"]))
    (by decide +kernel)
  simp only [Bool.and_eq_true, decide_eq_true_eq] at hcheck
  obtain ⟨htaken, hsent⟩ := hcheck
  obtain ⟨hreceived, hpositions⟩ := hostPipeline hrun
  exact ⟨history, host, hrun, ⟨hreceived, htaken⟩, hpositions 1 (by decide), hsent⟩

end NovaIde.Client
