import NovaIde.Client.Convergence
import NovaIde.Client.EditorSteps

/-!
# Sessions on projects of several files

The host and the member of a session have a project each and open its files as they like, while the
updates pass between them. An update names no file: it is applied to whatever the text box of the
receiving side holds. Everything in flight was made since the session was last at rest
(`carries_of_run`), and an update that is applied changes the file that is open where it is applied
and no other (`changesOpenFile_of_quiescent`), so that it misses its own file when another one is
open there (`not_reachesItsFile`).
-/

set_option autoImplicit false
set_option relaxedAutoImplicit false

namespace NovaIde.Client

open Foundation Foundation.EventRun

/-! ### The session -/

/-- The two sides of a session. -/
inductive Side
  | host
  | member
deriving DecidableEq, Repr

/-- A session, and the files of both sides. The text boxes are those of the session's clients. -/
structure ProjectSession where
  session : Session
  hostFiles : Workspace
  memberFiles : Workspace

namespace ProjectSession

variable (project : ProjectSession)

/-- The client of a side. -/
def client : Side → ClientState
  | .host => project.session.hostClient
  | .member => project.session.memberClient

/-- The files of a side. -/
def files : Side → Workspace
  | .host => project.hostFiles
  | .member => project.memberFiles

/-- The workspace of a side: its files with its text box. -/
def workspace (side : Side) : Workspace :=
  { project.files side with ide := (project.client side).ide }

/-- The session after a step of one client: what it announces is queued for sending. -/
def setClient (client : ClientState) : Side → ProjectSession
  | .host => { project with session := project.session.setHostClient client }
  | .member => { project with session := project.session.setMemberClient client }

/-- The session after a step that works on the files of a side. -/
def setWorkspace (workspace : Workspace) (side : Side) : ProjectSession :=
  let project := project.setClient { project.client side with ide := workspace.ide } side
  match side with
  | .host => { project with hostFiles := workspace }
  | .member => { project with memberFiles := workspace }

end ProjectSession

/-- What happens in a session on projects. -/
inductive ProjectEvent
  | act (side : Side) (action : UserAction)
  /-- A queued undo runs. -/
  | undo (side : Side) (undo : Option Edit)
  | switchFile (side : Side) (fileName : Text) (outcomes : Outcomes)
  /-- A step of a channel or of a thread. -/
  | traffic (event : SessionEvent)

/-- Whether a step of a session is one of its users. -/
def SessionEvent.isAct : SessionEvent → Bool
  | .hostAct _ | .memberAct _ => true
  | _ => false

/-- One step of a session on projects. -/
def ProjectSession.step (platform : Platform) (project : ProjectSession) :
    ProjectEvent → Option (ProjectSession × Unit)
  | .act side action =>
    let client := project.client side
    if client.running = true ∧ ∀ edit ∈ client.ide.editOf action, edit.Possible client.ide.text then
      some (project.setClient { client with ide := client.ide.act action } side, ())
    else none
  | .undo side undo =>
    ((project.client side).step (.undo undo)).map fun (client, _) ↦
      (project.setClient client side, ())
  | .switchFile side fileName outcomes =>
    if (project.client side).running = true ∧ (project.files side).filesPath ≠ [] then
      some (project.setWorkspace
        ((project.workspace side).switchFile platform outcomes fileName) side, ())
    else none
  | .traffic event =>
    if event.isAct then none
    else (project.session.step event).map fun (session, _) ↦ ({ project with session }, ())

/-- A step of a run of a session on projects. -/
abbrev ProjectRecord := StepRecord ProjectSession ProjectEvent Unit

/-! ### Where updates come from and where they go -/

/-- An update with the side that made it and the file that was open there. -/
structure MadeUpdate where
  side : Side
  filePath : Text
  update : Text
deriving DecidableEq, Repr

/-- The updates that a side makes in a step. -/
def madeBy (record : ProjectRecord) (side : Side) : List MadeUpdate :=
  (announcedSince (record.before.client side) (record.after.client side)).map
    (⟨side, (record.before.files side).currentFilePath, ·⟩)

/-- The updates made since the session was last at rest. -/
def madeSinceRest (history : List ProjectRecord) : List MadeUpdate :=
  history.foldl
    (fun updates record ↦ (if record.before.session.Quiescent then [] else updates) ++
      madeBy record .host ++ madeBy record .member) []

/-- An update is made only when none is in flight: every queue, channel and hand is empty. -/
def OneAtATime (record : ProjectRecord) : Prop :=
  madeBy record .host ++ madeBy record .member ≠ [] → record.before.session.Quiescent

instance (record : ProjectRecord) : Decidable (OneAtATime record) :=
  inferInstanceAs (Decidable (_ → _))

/-- The side where a step applies an update. -/
def ProjectEvent.appliesAt : ProjectEvent → Option Side
  | .traffic .hostApply => some .host
  | .traffic .memberApply => some .member
  | _ => none

/-- The content of a file on one side: that of the text box when the file is open, and else the one
stored. -/
def contentAt (platform : Platform) (workspace : Workspace) (path : Text) : Option Text :=
  if platform.identity path = platform.identity workspace.currentFilePath then
    some workspace.ide.text
  else platform.fileText workspace.disk path

/-- The path that a side has for the file that another path names. -/
def ProjectSession.pathOf (project : ProjectSession) (side : Side) (filePath : Text) : Text :=
  pathCombine (project.files side).filesPath (getFileName filePath)

/-- A step changes the content of no file of a side but this one. -/
def ChangesOnly (platform : Platform) (record : ProjectRecord) (side : Side) (filePath : Text) :
    Prop :=
  ∀ path, platform.identity path ≠ platform.identity filePath →
    contentAt platform (record.after.workspace side) path =
      contentAt platform (record.before.workspace side) path

/-- The updater has read this update from this message. -/
def ReadFrom (message : Text) (update : PendingUpdate) : Prop :=
  ∃ prevCursosrPosition ide ide',
    (receiveUpdate message prevCursosrPosition).run ide = .ok update ide'

/-- The update that a step applies was made since the session was last at rest, and the property
holds of the side that applies it and of the file it was made in. -/
def AppliesMade (earlier : List ProjectRecord) (record : ProjectRecord)
    (property : Side → Text → Prop) : Prop :=
  ∀ side, record.event.appliesAt = some side →
    ∃ pending, (record.before.client side).pending = some pending ∧
      ∃ made ∈ madeSinceRest earlier, ReadFrom (asReceived made.update) pending ∧
        property side made.filePath

/-- An update that is applied changes no file but the one of the name it was made in. -/
def ReachesItsFile (platform : Platform) (earlier : List ProjectRecord) (record : ProjectRecord) :
    Prop :=
  AppliesMade earlier record fun side filePath ↦
    ChangesOnly platform record side (record.before.pathOf side filePath)

/-- An update that is applied changes no file but the one that is open where it is applied. -/
def ChangesOpenFile (platform : Platform) (earlier : List ProjectRecord) (record : ProjectRecord) :
    Prop :=
  AppliesMade earlier record fun side _ ↦
    ChangesOnly platform record side (record.before.files side).currentFilePath

/-! ### Updates in flight -/

/-- Everything in flight is one of these updates: as it was made while it waits to be sent, and as
it arrives from then on. -/
structure Carries (updates : List Text) (session : Session) : Prop where
  hostChanges : ∀ change ∈ session.host.syncManager.textChangesQueue, change ∈ updates
  hostScanner : ∀ change ∈ session.host.scanner.inHand, change ∈ updates
  memberChanges : ∀ change ∈ session.member.syncManager.textChangesQueue, change ∈ updates
  memberScanner : ∀ change ∈ session.member.scanning, change ∈ updates
  toHost : ∀ data ∈ session.toHost, asciiGetString data ∈ updates.map asReceived
  toMember : ∀ data ∈ session.toMember, asciiGetString data ∈ updates.map asReceived
  delivery : ∀ updateTuple ∈ session.host.updateDeliveryQueue,
    updateTuple.update ∈ updates.map asReceived
  distributor : ∀ update ∈ session.host.distributor.inHand, update ∈ updates.map asReceived
  hostUpdates : ∀ update ∈ session.host.syncManager.textUpdateQueue,
    update ∈ updates.map asReceived
  memberQueue : ∀ update ∈ session.member.updateIDEQueue, update ∈ updates.map asReceived
  forwarding : ∀ update ∈ session.member.forwarding, update ∈ updates.map asReceived
  memberUpdates : ∀ update ∈ session.member.syncManager.textUpdateQueue,
    update ∈ updates.map asReceived
  hostPending : ∀ pending ∈ session.hostClient.pending,
    ∃ update ∈ updates, ReadFrom (asReceived update) pending
  memberPending : ∀ pending ∈ session.memberClient.pending,
    ∃ update ∈ updates, ReadFrom (asReceived update) pending

section Carries

variable {updates : List Text} {session session' : Session} {output : SessionOutput}

/-- With nothing in flight, everything in flight is among any updates. -/
theorem carries_of_quiescent (hquiescent : session.Quiescent) (updates : List Text) :
    Carries updates session := by
  obtain ⟨hhost, hhostPending, hmember, hmemberPending, htoHost, htoMember⟩ := hquiescent
  constructor <;> simp [hhost, hhostPending, hmember, hmemberPending, htoHost, htoMember,
    Sender.inHand]

/-- What arrived is sent on as it arrived. -/
theorem asReceived_mem {update : Text} (hupdate : update ∈ updates.map asReceived) :
    asciiGetString (utf8GetBytes update) ∈ updates.map asReceived := by
  obtain ⟨made, -, rfl⟩ := List.mem_map.mp hupdate
  rwa [asciiGetString_utf8GetBytes (isAscii_asReceived made)]

/-- A client that reads an update has it pending, or stops with nothing pending. -/
theorem pending_of_receive {client client' : ClientState} {update : Text}
    {prevCursosrPosition : ℕ}
    (hstep : client.step (.receiveUpdate update prevCursosrPosition) = some (client', ())) :
    update ≠ [] ∧ ∀ pending ∈ client'.pending, ReadFrom update pending := by
  obtain ⟨hne, hidle, rfl⟩ := step_receiveUpdate hstep
  refine ⟨hne, fun pending hpending ↦ ?_⟩
  cases hrun : (receiveUpdate update prevCursosrPosition).run client.ide with
  | ok value ide =>
    simp only [hrun, ClientState.afterThread, Option.mem_def, Option.some.injEq] at hpending
    exact ⟨prevCursosrPosition, client.ide, ide, hpending ▸ hrun⟩
  | error fault ide =>
    simp only [hrun, ClientState.afterThread, hidle] at hpending
    cases hpending

/-- The next update of a queue is in it, unless it is the empty answer. -/
theorem getLastUpdate_mem {manager : SynchronizationManager} (hne : manager.getLastUpdate.1 ≠ []) :
    manager.getLastUpdate.1 ∈ manager.textUpdateQueue := by
  unfold SynchronizationManager.getLastUpdate at hne ⊢
  split at hne
  · next hqueue => simp [hqueue]
  · exact absurd rfl hne

theorem textUpdateQueue_getLastUpdate (manager : SynchronizationManager) :
    manager.getLastUpdate.2.textUpdateQueue ⊆ manager.textUpdateQueue ∧
      manager.getLastUpdate.2.textChangesQueue = manager.textChangesQueue := by
  unfold SynchronizationManager.getLastUpdate
  split
  · next hqueue => exact ⟨by simp [hqueue], rfl⟩
  · exact ⟨List.Subset.refl _, rfl⟩

/-- The distributor takes what was received, sends it on and hands it to the host's editor. -/
theorem Carries.distribute (hcarries : Carries updates session)
    (hstep : session.step .distribute = some (session', output)) : Carries updates session' := by
  obtain ⟨⟨host, shown⟩, hhost, hafter⟩ := Option.map_eq_some_iff.mp hstep
  cases distributeStep_of_step hhost with
  | take hidle hqueue =>
    cases hafter
    have hdelivery := hcarries.delivery
    rw [hqueue, List.forall_mem_cons] at hdelivery
    exact { hcarries with
      delivery := hdelivery.2
      distributor := by simpa [Sender.inHand] using hdelivery.1 }
  | @send updateTuple position hhand hposition =>
    cases hafter
    have hmem : updateTuple.update ∈ updates.map asReceived :=
      hcarries.distributor _ (by simp [hhand, Sender.inHand])
    exact { hcarries with
      distributor := by simpa [Sender.inHand] using hmem
      toMember := List.forall_mem_append.mpr
        ⟨hcarries.toMember, by simpa using asReceived_mem hmem⟩ }
  | @finish updateTuple position hhand hposition =>
    cases hafter
    have hmem : updateTuple.update ∈ updates.map asReceived :=
      hcarries.distributor _ (by simp [hhand, Sender.inHand])
    unfold HostState.enqueueForIDEUpdate
    split_ifs
    · exact { hcarries with
        distributor := by simp [Sender.inHand]
        hostUpdates := List.forall_mem_append.mpr ⟨hcarries.hostUpdates, by simpa using hmem⟩ }
    · exact { hcarries with distributor := by simp [Sender.inHand] }

/-- The scanner of the host takes a change and sends it. -/
theorem Carries.scan (hcarries : Carries updates session)
    (hstep : session.step .scan = some (session', output)) : Carries updates session' := by
  obtain ⟨⟨host, shown⟩, hhost, hafter⟩ := Option.map_eq_some_iff.mp hstep
  cases scanStep_of_step hhost with
  | take hidle hqueue =>
    cases hafter
    have hchanges := hcarries.hostChanges
    rw [hqueue, List.forall_mem_cons] at hchanges
    exact { hcarries with
      hostChanges := hchanges.2
      hostScanner := by simpa [Sender.inHand] using hchanges.1 }
  | @send updateTuple position hhand hposition =>
    cases hafter
    have hmem : updateTuple.update ∈ updates :=
      hcarries.hostScanner _ (by simp [hhand, Sender.inHand])
    exact { hcarries with
      hostScanner := by simpa [Sender.inHand] using hmem
      toMember := List.forall_mem_append.mpr
        ⟨hcarries.toMember, by simpa using ⟨updateTuple.update, hmem, rfl⟩⟩ }
  | finish hhand hposition =>
    cases hafter
    exact { hcarries with hostScanner := by simp [Sender.inHand] }

/-- The listeners take what arrived. -/
theorem Carries.hostListen (hcarries : Carries updates session)
    (hstep : session.step .hostListen = some (session', output)) : Carries updates session' := by
  simp only [Session.step] at hstep
  cases hchannel : session.toHost with
  | nil => simp [hchannel] at hstep
  | cons data rest =>
    simp only [hchannel, Option.some.injEq, Prod.mk.injEq] at hstep
    obtain ⟨rfl, -⟩ := hstep
    have harrived := hcarries.toHost
    rw [hchannel, List.forall_mem_cons] at harrived
    simp only [HostState.p2pListener]
    split_ifs
    · exact { hcarries with
        toHost := harrived.2
        delivery := List.forall_mem_append.mpr ⟨hcarries.delivery, by simpa using harrived.1⟩ }
    · exact { hcarries with toHost := harrived.2 }

theorem Carries.memberListen (hcarries : Carries updates session)
    (hstep : session.step .memberListen = some (session', output)) : Carries updates session' := by
  simp only [Session.step] at hstep
  cases hchannel : session.toMember with
  | nil => simp [hchannel] at hstep
  | cons data rest =>
    simp only [hchannel, Option.some.injEq, Prod.mk.injEq] at hstep
    obtain ⟨rfl, -⟩ := hstep
    have harrived := hcarries.toMember
    rw [hchannel, List.forall_mem_cons] at harrived
    simp only [MemberState.p2pListener]
    split_ifs
    · exact { hcarries with
        toMember := harrived.2
        memberQueue := List.forall_mem_append.mpr
          ⟨hcarries.memberQueue, by simpa using harrived.1⟩ }
    · exact { hcarries with toMember := harrived.2 }

/-- The member's threads hand on what arrived and send what was made. -/
theorem Carries.memberForward (hcarries : Carries updates session)
    (hstep : session.step .memberForward = some (session', output)) : Carries updates session' := by
  obtain ⟨member, hmember, hafter⟩ := Option.map_eq_some_iff.mp hstep
  cases hafter
  unfold MemberState.enqueueForIDEUpdate at hmember
  cases hhand : session.member.forwarding with
  | some update =>
    simp only [hhand, Option.some.injEq] at hmember
    cases hmember
    have hmem := hcarries.forwarding update hhand
    exact { hcarries with
      forwarding := nofun
      memberUpdates := List.forall_mem_append.mpr
        ⟨hcarries.memberUpdates, by simpa using hmem⟩ }
  | none =>
    cases hqueue : session.member.updateIDEQueue with
    | nil => simp [hhand, hqueue] at hmember
    | cons update rest =>
      simp only [hhand, hqueue, Option.some.injEq] at hmember
      cases hmember
      have hwaiting := hcarries.memberQueue
      rw [hqueue, List.forall_mem_cons] at hwaiting
      exact { hcarries with
        memberQueue := hwaiting.2
        forwarding := by simpa using hwaiting.1 }

theorem Carries.memberScan (hcarries : Carries updates session)
    (hstep : session.step .memberScan = some (session', output)) : Carries updates session' := by
  obtain ⟨⟨member, sent⟩, hmember, hafter⟩ := Option.map_eq_some_iff.mp hstep
  cases hafter
  unfold MemberState.ideUpdateScanner at hmember
  cases hhand : session.member.scanning with
  | some change =>
    simp only [hhand, Option.some.injEq, Prod.mk.injEq] at hmember
    obtain ⟨rfl, rfl⟩ := hmember
    have hmem := hcarries.memberScanner change hhand
    exact { hcarries with
      memberScanner := nofun
      toHost := List.forall_mem_append.mpr
        ⟨hcarries.toHost, by simpa using ⟨change, hmem, rfl⟩⟩ }
  | none =>
    cases hqueue : session.member.syncManager.textChangesQueue with
    | nil => simp [hhand, hqueue] at hmember
    | cons change rest =>
      simp only [hhand, hqueue, SynchronizationManager.getLastChange, List.length_cons, ne_eq,
        Nat.add_one_ne_zero, not_false_eq_true, if_true, Option.some.injEq, Prod.mk.injEq]
        at hmember
      obtain ⟨rfl, rfl⟩ := hmember
      have hchanges := hcarries.memberChanges
      rw [hqueue, List.forall_mem_cons] at hchanges
      exact { hcarries with
        memberChanges := hchanges.2
        memberScanner := by simpa using hchanges.1
        toHost := by simpa using hcarries.toHost }

/-- The updaters read what arrived. -/
theorem Carries.hostReceive (hcarries : Carries updates session) {prevCursosrPosition : ℕ}
    (hstep : session.step (.hostReceive prevCursosrPosition) = some (session', output)) :
    Carries updates session' := by
  obtain ⟨⟨client, _⟩, hclient, hafter⟩ := Option.map_eq_some_iff.mp hstep
  cases hafter
  obtain ⟨hne, hpending⟩ := pending_of_receive hclient
  obtain ⟨hupdates, hchanges⟩ := textUpdateQueue_getLastUpdate session.host.syncManager
  obtain ⟨update, hupdate, hread⟩ :=
    List.mem_map.mp (hcarries.hostUpdates _ (getLastUpdate_mem hne))
  exact { hcarries with
    hostChanges := hchanges.symm ▸ hcarries.hostChanges
    hostUpdates := fun other hother ↦ hcarries.hostUpdates other (hupdates hother)
    hostPending := fun pending hmem ↦ ⟨update, hupdate, hread.symm ▸ hpending pending hmem⟩ }

theorem Carries.memberReceive (hcarries : Carries updates session) {prevCursosrPosition : ℕ}
    (hstep : session.step (.memberReceive prevCursosrPosition) = some (session', output)) :
    Carries updates session' := by
  obtain ⟨⟨client, _⟩, hclient, hafter⟩ := Option.map_eq_some_iff.mp hstep
  cases hafter
  obtain ⟨hne, hpending⟩ := pending_of_receive hclient
  obtain ⟨hupdates, hchanges⟩ := textUpdateQueue_getLastUpdate session.member.syncManager
  obtain ⟨update, hupdate, hread⟩ :=
    List.mem_map.mp (hcarries.memberUpdates _ (getLastUpdate_mem hne))
  exact { hcarries with
    memberChanges := hchanges.symm ▸ hcarries.memberChanges
    memberUpdates := fun other hother ↦ hcarries.memberUpdates other (hupdates hother)
    memberPending := fun pending hmem ↦ ⟨update, hupdate, hread.symm ▸ hpending pending hmem⟩ }

/-- What is in flight among some updates is among more of them. -/
theorem Carries.mono (hcarries : Carries updates session) {others : List Text}
    (hsubset : updates ⊆ others) : Carries others session := by
  have hreceived : updates.map asReceived ⊆ others.map asReceived := List.map_subset _ hsubset
  obtain ⟨hhostChanges, hhostScanner, hmemberChanges, hmemberScanner, htoHost, htoMember,
    hdelivery, hdistributor, hhostUpdates, hmemberQueue, hforwarding, hmemberUpdates,
    hhostPending, hmemberPending⟩ := hcarries
  refine ⟨fun change hmem ↦ hsubset (hhostChanges change hmem),
    fun change hmem ↦ hsubset (hhostScanner change hmem),
    fun change hmem ↦ hsubset (hmemberChanges change hmem),
    fun change hmem ↦ hsubset (hmemberScanner change hmem),
    fun data hmem ↦ hreceived (htoHost data hmem),
    fun data hmem ↦ hreceived (htoMember data hmem),
    fun update hmem ↦ hreceived (hdelivery update hmem),
    fun update hmem ↦ hreceived (hdistributor update hmem),
    fun update hmem ↦ hreceived (hhostUpdates update hmem),
    fun update hmem ↦ hreceived (hmemberQueue update hmem),
    fun update hmem ↦ hreceived (hforwarding update hmem),
    fun update hmem ↦ hreceived (hmemberUpdates update hmem),
    fun pending hmem ↦ ?_, fun pending hmem ↦ ?_⟩
  · obtain ⟨update, hupdate, hread⟩ := hhostPending pending hmem
    exact ⟨update, hsubset hupdate, hread⟩
  · obtain ⟨update, hupdate, hread⟩ := hmemberPending pending hmem
    exact ⟨update, hsubset hupdate, hread⟩

theorem Carries.insert {others : List Text} (hcarries : Carries (updates ++ others) session)
    (more : List Text) : Carries (updates ++ more ++ others) session :=
  hcarries.mono (List.append_subset.mpr
    ⟨List.subset_append_of_subset_left _ (List.subset_append_left updates more),
      List.subset_append_right _ _⟩)

/-- A client that has at most the pending update it had adds what it announces to what is in
flight. -/
theorem Carries.setHostClient (hcarries : Carries updates session) {client : ClientState}
    (hpending : client.pending = none ∨ client.pending = session.hostClient.pending) :
    Carries (updates ++ announcedSince session.hostClient client)
      (session.setHostClient client) := by
  have hmore := hcarries.mono (List.subset_append_left updates
    (announcedSince session.hostClient client))
  rw [Session.setHostClient, syncManager_addTextChanges]
  refine { hmore with
    hostChanges := List.forall_mem_append.mpr
      ⟨hmore.hostChanges, fun change hmem ↦ List.mem_append_right _ hmem⟩
    hostPending := fun pending hmem ↦ ?_ }
  rcases hpending with hnone | hsame
  · exact absurd hmem (by simp [hnone])
  · exact hmore.hostPending pending (hsame ▸ hmem)

theorem Carries.setMemberClient (hcarries : Carries updates session) {client : ClientState}
    (hpending : client.pending = none ∨ client.pending = session.memberClient.pending) :
    Carries (updates ++ announcedSince session.memberClient client)
      (session.setMemberClient client) := by
  have hmore := hcarries.mono (List.subset_append_left updates
    (announcedSince session.memberClient client))
  rw [Session.setMemberClient, syncManager_addTextChanges]
  refine { hmore with
    memberChanges := List.forall_mem_append.mpr
      ⟨hmore.memberChanges, fun change hmem ↦ List.mem_append_right _ hmem⟩
    memberPending := fun pending hmem ↦ ?_ }
  rcases hpending with hnone | hsame
  · exact absurd hmem (by simp [hnone])
  · exact hmore.memberPending pending (hsame ▸ hmem)

/-- A step of a channel or of a thread adds at most what the two sides announce in it. -/
theorem Carries.traffic (hcarries : Carries updates session) {event : SessionEvent}
    (hact : event.isAct = false) (hstep : session.step event = some (session', output)) :
    Carries (updates ++ announcedSince session.hostClient session'.hostClient ++
      announcedSince session.memberClient session'.memberClient) session' := by
  have hmore : updates ⊆ updates ++ announcedSince session.hostClient session'.hostClient ++
      announcedSince session.memberClient session'.memberClient :=
    List.subset_append_of_subset_left _ (List.subset_append_left _ _)
  cases event with
  | hostAct action => cases hact
  | memberAct action => cases hact
  | hostListen => exact (hcarries.hostListen hstep).mono hmore
  | distribute => exact (hcarries.distribute hstep).mono hmore
  | scan => exact (hcarries.scan hstep).mono hmore
  | hostReceive prevCursosrPosition => exact (hcarries.hostReceive hstep).mono hmore
  | memberListen => exact (hcarries.memberListen hstep).mono hmore
  | memberForward => exact (hcarries.memberForward hstep).mono hmore
  | memberScan => exact (hcarries.memberScan hstep).mono hmore
  | memberReceive prevCursosrPosition => exact (hcarries.memberReceive hstep).mono hmore
  | hostApply =>
    obtain ⟨⟨client, _⟩, hclient, hafter⟩ := Option.map_eq_some_iff.mp hstep
    cases hafter
    exact (hcarries.setHostClient (pending_of_apply hclient)).mono (List.subset_append_left _ _)
  | memberApply =>
    obtain ⟨⟨client, _⟩, hclient, hafter⟩ := Option.map_eq_some_iff.mp hstep
    cases hafter
    exact (hcarries.setMemberClient (pending_of_apply hclient)).insert _

end Carries

/-! ### Runs -/

section Runs

variable {platform : Platform} {initial project next : ProjectSession}
  {history : List ProjectRecord} {event : ProjectEvent}

/-- A step of a user changes one client, and leaves its pending update. -/
theorem setClient_of_step (hstep : project.step platform event = some (next, ()))
    (htraffic : ∀ event', event ≠ .traffic event') :
    ∃ side client, next.session = (project.setClient client side).session ∧
      client.pending = (project.client side).pending := by
  cases event with
  | act side action =>
    simp only [ProjectSession.step, Option.ite_none_right_eq_some, Option.some.injEq,
      Prod.mk.injEq] at hstep
    obtain ⟨-, rfl, -⟩ := hstep
    exact ⟨side, _, rfl, rfl⟩
  | undo side undo =>
    obtain ⟨⟨client, _⟩, hclient, hafter⟩ := Option.map_eq_some_iff.mp hstep
    cases hafter
    exact ⟨side, client, rfl, by rw [(step_undo hclient).2]⟩
  | switchFile side fileName outcomes =>
    simp only [ProjectSession.step, Option.ite_none_right_eq_some, Option.some.injEq,
      Prod.mk.injEq] at hstep
    obtain ⟨-, rfl, -⟩ := hstep
    cases side
    · exact ⟨.host, _, rfl, rfl⟩
    · exact ⟨.member, _, rfl, rfl⟩
  | traffic event => exact absurd rfl (htraffic event)

/-- A step adds at most what the two sides announce in it to what is in flight. -/
theorem Carries.step {updates : List Text} (hcarries : Carries updates project.session)
    (hstep : project.step platform event = some (next, ())) :
    Carries (updates ++ announcedSince project.session.hostClient next.session.hostClient ++
      announcedSince project.session.memberClient next.session.memberClient) next.session := by
  by_cases htraffic : ∃ event', event = .traffic event'
  · obtain ⟨event, rfl⟩ := htraffic
    simp only [ProjectSession.step, Option.ite_none_left_eq_some] at hstep
    obtain ⟨hact, hstep⟩ := hstep
    obtain ⟨⟨session, output⟩, hsession, hafter⟩ := Option.map_eq_some_iff.mp hstep
    cases hafter
    exact hcarries.traffic (by simpa using hact) hsession
  · obtain ⟨side, client, hsession, hpending⟩ :=
      setClient_of_step hstep fun event' hevent ↦ htraffic ⟨event', hevent⟩
    rw [hsession]
    cases side with
    | host => exact (hcarries.setHostClient (.inr hpending)).mono (List.subset_append_left _ _)
    | member => exact (hcarries.setMemberClient (.inr hpending)).insert _

@[simp] theorem map_update_madeBy (record : ProjectRecord) (side : Side) :
    (madeBy record side).map MadeUpdate.update =
      announcedSince (record.before.client side) (record.after.client side) := by
  simp [madeBy, Function.comp_def]

@[simp] theorem madeSinceRest_append_singleton (history : List ProjectRecord)
    (record : ProjectRecord) :
    madeSinceRest (history ++ [record]) =
      (if record.before.session.Quiescent then [] else madeSinceRest history) ++
        madeBy record .host ++ madeBy record .member := by
  simp [madeSinceRest]

/-- Everything in flight was made since the session was last at rest. -/
theorem carries_of_run (hquiescent : initial.session.Quiescent)
    (hrun : Run (ProjectSession.step platform) initial history project) :
    Carries ((madeSinceRest history).map MadeUpdate.update) project.session := by
  refine hrun.relation
    (fun history project ↦ Carries ((madeSinceRest history).map MadeUpdate.update) project.session)
    (carries_of_quiescent hquiescent _) ?_
  intro history project event next _ hrun hcarries hstep
  have hbefore : Carries ((if project.session.Quiescent then [] else madeSinceRest history).map
      MadeUpdate.update) project.session := by
    split_ifs with hrest
    · exact carries_of_quiescent hrest _
    · exact hcarries
  rw [madeSinceRest_append_singleton, List.map_append, List.map_append, map_update_madeBy,
    map_update_madeBy]
  exact hbefore.step hstep

/-- What a client has pending was made since the session was last at rest. -/
theorem made_of_pending {updates : List MadeUpdate}
    (hcarries : Carries (updates.map MadeUpdate.update) project.session) {side : Side}
    {pending : PendingUpdate} (hpending : (project.client side).pending = some pending) :
    ∃ made ∈ updates, ReadFrom (asReceived made.update) pending := by
  have hread : ∃ update ∈ updates.map MadeUpdate.update,
      ReadFrom (asReceived update) pending := by
    cases side with
    | host => exact hcarries.hostPending pending hpending
    | member => exact hcarries.memberPending pending hpending
  obtain ⟨update, hupdate, hread⟩ := hread
  obtain ⟨made, hmade, rfl⟩ := List.mem_map.mp hupdate
  exact ⟨made, hmade, hread⟩

/-- A step that applies an update has one to apply, and leaves the files and what is open. -/
theorem step_of_appliesAt (hstep : project.step platform event = some (next, ())) {side : Side}
    (happlies : event.appliesAt = some side) :
    (∃ pending, (project.client side).pending = some pending) ∧
      next.files side = project.files side := by
  have hpending : ∀ {client client' : ClientState},
      client.step .applyUpdate = some (client', ()) → ∃ pending, client.pending = some pending := by
    intro client client' hclient
    obtain ⟨pending, hsome, -⟩ := step_applyUpdate hclient
    exact ⟨pending, hsome⟩
  unfold ProjectEvent.appliesAt at happlies
  split at happlies
  · cases happlies
    obtain ⟨⟨session, _⟩, hsession, hafter⟩ := Option.map_eq_some_iff.mp hstep
    obtain ⟨⟨client, _⟩, hclient, -⟩ := Option.map_eq_some_iff.mp hsession
    cases hafter
    exact ⟨hpending hclient, rfl⟩
  · cases happlies
    obtain ⟨⟨session, _⟩, hsession, hafter⟩ := Option.map_eq_some_iff.mp hstep
    obtain ⟨⟨client, _⟩, hclient, -⟩ := Option.map_eq_some_iff.mp hsession
    cases hafter
    exact ⟨hpending hclient, rfl⟩
  · cases happlies

/-- With the files and what is open as before, only the open file has another content. -/
theorem changesOnly_of_files {record : ProjectRecord} {side : Side}
    (hfiles : record.after.files side = record.before.files side) :
    ChangesOnly platform record side (record.before.files side).currentFilePath := by
  intro path hother
  have hafter : platform.identity path ≠
      platform.identity (record.after.files side).currentFilePath := hfiles.symm ▸ hother
  calc contentAt platform (record.after.workspace side) path
      = platform.fileText (record.after.files side).disk path := if_neg hafter
    _ = platform.fileText (record.before.files side).disk path := by rw [hfiles]
    _ = contentAt platform (record.before.workspace side) path := (if_neg hother).symm

/-- Whatever files the two sides have open, every update that is applied was made since the session
was last at rest, and changes no file but the one that is open where it is applied. -/
theorem changesOpenFile_of_quiescent (hquiescent : initial.session.Quiescent)
    (hrun : Run (ProjectSession.step platform) initial history project) :
    EveryStep (ChangesOpenFile platform) history := by
  intro earlier record later hsplit
  subst hsplit
  obtain ⟨hearlier, hstep⟩ := hrun.split
  intro side happlies
  obtain ⟨⟨pending, hpending⟩, hfiles⟩ := step_of_appliesAt hstep happlies
  obtain ⟨made, hmade, hread⟩ := made_of_pending (carries_of_run hquiescent hearlier) hpending
  exact ⟨pending, hpending, made, hmade, hread, changesOnly_of_files hfiles⟩

end Runs

/-- A session on projects with the same two files, which have the same text: switching between them
raises no event. -/
def twoFiles : ProjectSession where
  session := .start (str "a")
  hostFiles :=
    { disk := [⟨str "C:\\h\\a.cpp", str "a"⟩, ⟨str "C:\\h\\b.cpp", str "a"⟩]
      filesPath := str "C:\\h"
      currentFilePath := str "C:\\h\\a.cpp" }
  memberFiles :=
    { disk := [⟨str "C:\\m\\a.cpp", str "a"⟩, ⟨str "C:\\m\\b.cpp", str "a"⟩]
      filesPath := str "C:\\m"
      currentFilePath := str "C:\\m\\a.cpp" }

/-- The host's user types in one file while the member's user has the other one open. -/
def typesElsewhere : List ProjectEvent :=
  [.switchFile .member (str "b.cpp") allAllowed, .act .host (.makeEdit ⟨0, 0, str "x"⟩),
    .traffic .scan, .traffic .scan, .traffic .scan, .traffic .memberListen,
    .traffic .memberForward, .traffic .memberForward, .traffic (.memberReceive 0),
    .traffic .memberApply]

/-- The update changes the file the member's user has open. -/
theorem changesOpenFile_twoFiles :
    ∃ history project, Run (ProjectSession.step asciiPlatform) twoFiles history project ∧
      EveryStep (ChangesOpenFile asciiPlatform) history ∧
      contentAt asciiPlatform (project.workspace .member) (str "C:\\m\\a.cpp") = some (str "a") ∧
      contentAt asciiPlatform (project.workspace .member) (str "C:\\m\\b.cpp") =
        some (str "xa") := by
  obtain ⟨history, project, hrun, -, hcheck⟩ :=
    exists_run_of_execute (ProjectSession.step asciiPlatform) twoFiles typesElsewhere
      (fun _ project ↦
        contentAt asciiPlatform (project.workspace .member) (str "C:\\m\\a.cpp") =
          some (str "a") &&
        contentAt asciiPlatform (project.workspace .member) (str "C:\\m\\b.cpp") =
          some (str "xa")) (by decide +kernel)
  simp only [Bool.and_eq_true, decide_eq_true_eq] at hcheck
  exact ⟨history, project, hrun, changesOpenFile_of_quiescent (by decide) hrun, hcheck⟩

/-- The host's user types in `a.cpp`, and `b.cpp` of the member changes. -/
theorem not_reachesItsFile :
    ¬ ∀ (platform : Platform) (initial : ProjectSession) (history : List ProjectRecord)
      (project : ProjectSession), initial.session.Quiescent →
        Run (ProjectSession.step platform) initial history project →
          EveryStep (fun _ record ↦ OneAtATime record) history →
            EveryStep (ReachesItsFile platform) history := by
  intro hall
  obtain ⟨history, project, hrun, -, hcheck⟩ :=
    exists_run_of_execute (ProjectSession.step asciiPlatform) twoFiles typesElsewhere
      (fun history _ ↦ decide (∀ record ∈ history, OneAtATime record) &&
        history.getLast?.any fun record : ProjectRecord ↦
          decide (record.event.appliesAt = some .member) &&
          (madeSinceRest history.dropLast).all fun made ↦
            decide (asciiPlatform.identity (str "C:\\m\\b.cpp") ≠
              asciiPlatform.identity (record.before.pathOf .member made.filePath)) &&
            decide (contentAt asciiPlatform (record.after.workspace .member)
                (str "C:\\m\\b.cpp") ≠
              contentAt asciiPlatform (record.before.workspace .member) (str "C:\\m\\b.cpp")))
      (by decide +kernel)
  simp only [Bool.and_eq_true, decide_eq_true_eq, Option.any_eq_true, List.all_eq_true] at hcheck
  obtain ⟨hone, record, hlast, happlies, hmade⟩ := hcheck
  have hreaches := hall asciiPlatform twoFiles history project (by decide) hrun
    (everyStep_iff_forall_mem.mpr hone)
  obtain ⟨-, -, made, hmem, -, honly⟩ := hreaches.last hlast .member happlies
  obtain ⟨hother, hchanged⟩ := hmade made hmem
  exact hchanged (honly _ hother)

end NovaIde.Client
