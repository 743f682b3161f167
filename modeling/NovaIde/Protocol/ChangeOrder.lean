import NovaIde.Client.SessionUpdates
import NovaIde.Protocol.SessionNetwork

/-!
# The order of the changes

In a session of a host and its members that opens all its connections before the first change, every
loop of the host reaches every member (`NetworkInvariant`), and once everything has come to rest
each editor was handed every change that was made (`NetworkInvariant.handed_perm`). Here the changes
are those of a whole run, in the order in which they were made (`changeOrder`), whoever made them.
-/

set_option autoImplicit false
set_option relaxedAutoImplicit false

namespace NovaIde.Protocol

open Foundation Foundation.EventRun Client

/-! ### The changes of a run -/

/-- The change that is made in a step of the network. -/
def changeOf (record : NetworkRecord) : List Text :=
  match record.event with
  | .act _ event => event.changed
  | _ => []

/-- The changes in the order in which they were made. -/
def changeOrder (history : List NetworkRecord) : List Text := history.flatMap changeOf

/-- Whether an event belongs to an editor. -/
def ofEditor : NetworkEvent → Bool
  | .act _ (.addTextChange _) | .act _ .getLastUpdate => true
  | _ => false

/-- The updates made by the user of a host go to its text at once. -/
def tookOwn (host address : IPEndPoint) (made : List Text) : List Text :=
  if address = host then made else []

/-- The endpoint of the session that a host opens. -/
def joinedBy (host : IPEndPoint) : NetworkEvent → Option IPEndPoint
  | .act address (.connectP2P .host endpoint) => if address = host then some endpoint else none
  | _ => none

/-! ### What the network does -/

/-- Before anything is changed or received, a host has nothing to send and has begun no loop. -/
structure Untouched (steps : List ThreadedRecord) (client : ThreadedClient) : Prop where
  loops : begunLoops steps = []
  changes : client.syncManager.textChangesQueue = []
  delivery : client.updateDeliveryQueue = []
  threads : ∀ stage ∈ client.distributors ++ client.scanners, stage = .idle

section Network

variable {host address : IPEndPoint} {members clients : List IPEndPoint}
  {history : List NetworkRecord} {network next : UpdateNetwork} {event : NetworkEvent}
  {output : ThreadedOutput}

theorem takenIn_snoc (address : IPEndPoint) (history : List NetworkRecord)
    (record : NetworkRecord) :
    takenIn (stepsOf address (history ++ [record])) =
      takenIn (stepsOf address history) ++ takenIn (stepOf address record) := by
  rw [stepsOf_snoc, takenIn, List.flatMap_append]
  rfl

theorem changedIn_snoc (address : IPEndPoint) (history : List NetworkRecord)
    (record : NetworkRecord) :
    changedIn (stepsOf address (history ++ [record])) =
      changedIn (stepsOf address history) ++ changedIn (stepOf address record) := by
  rw [stepsOf_snoc, changedIn, List.flatMap_append]
  rfl

theorem changeOrder_snoc (history : List NetworkRecord) (record : NetworkRecord) :
    changeOrder (history ++ [record]) = changeOrder history ++ changeOf record := by
  simp [changeOrder]

/-- The clients have made the changes that were made. -/
theorem perm_changeOrder (hnodup : clients.Nodup)
    (hactors : ∀ record ∈ history, ∀ address event, record.event = .act address event →
      address ∈ clients) :
    (changeOrder history).Perm
      (clients.flatMap fun client ↦ changedIn (stepsOf client history)) := by
  induction history using List.reverseRecOn with
  | nil =>
    have hnone : (clients.flatMap fun client ↦ changedIn (stepsOf client [])) = [] :=
      List.flatMap_eq_nil_iff.mpr fun client _ ↦ rfl
    rw [hnone]
    exact .nil
  | append_singleton history record ih =>
    have hbefore := ih fun other hmem ↦ hactors other (List.mem_append_left _ hmem)
    have hsilent : (∀ client, changedIn (stepOf client record) = []) → changeOf record = [] →
        (changeOrder (history ++ [record])).Perm
          (clients.flatMap fun client ↦ changedIn (stepsOf client (history ++ [record]))) := by
      intro hnone hchange
      simp only [changedIn_snoc, hnone, List.append_nil]
      rw [changeOrder_snoc, hchange, List.append_nil]
      exact hbefore
    obtain ⟨before, event, output, after⟩ := record
    cases event with
    | act other event =>
      have hmem := hactors _ (List.mem_append_right _ (List.mem_singleton_self _)) other event rfl
      have hchanged := perm_flatMap_of_ne (fun client ↦ changedIn (stepsOf client history))
        (fun client ↦ changedIn (stepsOf client (history ++ [⟨before, .act other event, output,
          after⟩]))) hnodup hmem fun client _ hne ↦ by
            rw [changedIn_snoc]
            simp [stepOf, Ne.symm hne, changedIn]
      have hown : changedIn (stepOf other ⟨before, .act other event, output, after⟩) =
          event.changed := by
        simp [stepOf, changedIn]
      rw [changedIn_snoc, hown] at hchanged
      rw [List.perm_iff_count]
      intro update
      have hchanged := hchanged.count_eq update
      have hbefore := hbefore.count_eq update
      rw [changeOrder_snoc]
      simp only [changeOf, List.count_append] at hchanged ⊢
      omega
    | deliver index =>
      refine hsilent (fun client ↦ ?_) rfl
      simp only [stepOf, changedIn]
      cases hdatagram : before.inFlight[index]? with
      | none => rfl
      | some datagram =>
        by_cases hsame : datagram.destination = client <;> simp [hsame, ThreadedEvent.changed]
    | lose => exact hsilent (fun _ ↦ rfl) rfl
    | send => exact hsilent (fun _ ↦ rfl) rfl
    | exit => exact hsilent (fun _ ↦ rfl) rfl

theorem untouched_start : Untouched [] {} := ⟨rfl, rfl, rfl, by simp⟩

/-- Nothing but changes and updates sets the threads of a host going. -/
theorem Untouched.step {steps : List ThreadedRecord} {client next : ThreadedClient}
    {event : ThreadedEvent} {output : ThreadedOutput} (huntouched : Untouched steps client)
    (hreceived : event.received = []) (hchanged : event.changed = [])
    (hstep : ThreadedStep client event next output) :
    Untouched (steps ++ [⟨client, event, output, next⟩]) next := by
  obtain ⟨hloops, hchanges, hdelivery, hthreads⟩ := huntouched
  have hdistributor : ∀ {thread : ℕ} {stage : ThreadStage},
      client.distributors[thread]? = some stage → stage = .idle := fun hstage ↦
    hthreads _ (List.mem_append_left _ (List.mem_of_getElem? hstage))
  have hscanner : ∀ {thread : ℕ} {stage : ThreadStage},
      client.scanners[thread]? = some stage → stage = .idle := fun hstage ↦
    hthreads _ (List.mem_append_right _ (List.mem_of_getElem? hstage))
  have hsilent : output.loops = [] →
      begunLoops (steps ++ [⟨client, event, output, next⟩]) = [] := by
    intro hnone
    rw [begunLoops_snoc, hloops, hnone, List.append_nil]
  cases hstep with
  | startHost =>
    refine ⟨hsilent rfl, hchanges, hdelivery, fun stage hmem ↦ ?_⟩
    simp only [List.mem_append, List.mem_singleton] at hmem hthreads
    rcases hmem with (hold | rfl) | (hold | rfl)
    · exact hthreads stage (.inl hold)
    · rfl
    · exact hthreads stage (.inr hold)
    · rfl
  | receive receiveBytes =>
    have hother : isUpdateMessage (asciiGetString receiveBytes) ≠ true := by
      intro hupdate
      simp [ThreadedEvent.received, hupdate] at hreceived
    have hsame : client.p2pListener receiveBytes = client := by
      simp [ThreadedClient.p2pListener, hother]
    rw [hsame]
    exact ⟨by simpa [hsame] using hsilent rfl, hchanges, hdelivery, hthreads⟩
  | change => cases hchanged
  | count _ _ hqueue => exact absurd hdelivery hqueue
  | take _ _ _ hstage => cases hdistributor hstage
  | fault _ hstage => cases hdistributor hstage
  | deliver _ _ hstage => cases hdistributor hstage
  | broadcast _ _ _ _ hstage hloop =>
    cases hdistributor hstage
    cases hloop
  | scan _ _ _ _ _ hstage hchange =>
    cases hscanner hstage
    cases hchange with
    | count hqueue => exact absurd hchanges hqueue
  | broadcastChange _ _ _ _ hstage hloop =>
    cases hscanner hstage
    cases hloop
  | memberScan _ _ _ _ _ _ hchange =>
    refine ⟨hsilent hchange.conserves.2.2.2.2.1, ?_, hdelivery, hthreads⟩
    cases hchange with
    | take _ _ hqueue => exact absurd hchanges (by simp [hqueue])
    | _ => exact hchanges
  | _ => exact ⟨hsilent rfl, hchanges, hdelivery, hthreads⟩

/-- A client that has changed and received nothing has not been touched. -/
theorem untouched_of_run (hrun : NetworkRun history network) (address : IPEndPoint)
    (hchanged : changedIn (stepsOf address history) = [])
    (hreceived : receivedIn (stepsOf address history) = []) :
    Untouched (stepsOf address history) (network.clients address) := by
  refine part_of_run (fun _ _ ↦ True) (fun _ steps client ↦
    changedIn steps = [] → receivedIn steps = [] → Untouched steps client) (fun _ _ ↦ trivial)
    (fun _ _ _ ↦ untouched_start) ?_ ?_ hrun (fun _ _ _ _ _ ↦ trivial) address hchanged hreceived
  · intro _ steps client event next output huntouched _ hstep hchanged hreceived
    simp only [changedIn, receivedIn, List.flatMap_append, List.flatMap_singleton,
      List.append_eq_nil_iff] at hchanged hreceived
    exact (huntouched hchanged.1 hreceived.1).step hreceived.2 hchanged.2
      (threadedStep_of_step hstep).2
  · intro _ steps client huntouched hchanged hreceived
    obtain ⟨hloops, hchanges, hdelivery, hthreads⟩ := huntouched hchanged hreceived
    exact ⟨hloops, hchanges, hdelivery, hthreads⟩

/-- As long as nobody has made a change the host has begun no loop. -/
theorem no_loops_of_no_changes (hrun : NetworkRun history network)
    (hnodup : (host :: members).Nodup) (hsession : KeepsToSession host members history)
    (hnone : changeOrder history = []) : begunLoops (stepsOf host history) = [] := by
  have hchanges := perm_changeOrder hnodup
    fun record hmem address event hevent ↦ (hsession.act hmem hevent).1
  rw [hnone] at hchanges
  have hall := List.flatMap_eq_nil_iff.mp hchanges.symm.eq_nil
  have hmembers : changesOf members history = [] :=
    List.flatMap_eq_nil_iff.mpr fun member hmember ↦ by
      rw [hall member (List.mem_cons_of_mem _ hmember)]
      rfl
  have haccounted := host_accounted hrun hnodup hsession
  have heditor := (conserved_of_part hrun host).2.1.editor
  rw [hmembers] at haccounted
  have hreceived : receivedIn (stepsOf host history) = [] := by
    have hlength := haccounted.length_eq
    simp only [List.length_nil, List.length_append] at hlength
    have hsame := heditor.length_eq
    rw [List.length_append] at hsame
    exact List.length_eq_zero_iff.mp (by omega)
  exact (untouched_of_run hrun host (hall host List.mem_cons_self) hreceived).loops

/-- A loop that begins runs over all endpoints. -/
theorem loops_of_step {client next : ThreadedClient} {event : ThreadedEvent}
    {output : ThreadedOutput} (hstep : ThreadedStep client event next output) :
    ∀ loop ∈ output.loops, loop.2 = client.epList.length ∧ next.epList = client.epList := by
  cases hstep with
  | broadcast _ _ _ _ _ hloop | broadcastChange _ _ _ _ _ hloop =>
    exact fun loop hmem ↦ ⟨hloop.loops_eq loop hmem, rfl⟩
  | scan _ _ _ _ _ _ hchange | memberScan _ _ _ _ _ _ hchange =>
    rw [hchange.conserves.2.2.2.2.1]
    simp
  | _ => simp [ThreadedOutput.loops]

/-- A client that keeps its endpoints changes those of no client. -/
theorem epList_update {clients : IPEndPoint → ThreadedClient} {other : IPEndPoint}
    {client : ThreadedClient} (hsame : client.epList = (clients other).epList)
    (address : IPEndPoint) :
    (Function.update clients other client address).epList = (clients address).epList := by
  by_cases hother : other = address
  · subst hother
    rw [Function.update_self, hsame]
  · rw [Function.update_of_ne (Ne.symm hother)]

/-- The members of a host change when it opens a session. -/
theorem epList_of_step (hstep : NetworkStep network event next output) (address : IPEndPoint) :
    (next.clients address).epList = (network.clients address).epList ∨
      ∃ endpoint, event = .act address (.connectP2P .host endpoint) ∧
        (next.clients address).epList = (network.clients address).epList ++ [endpoint] := by
  cases hstep with
  | act other event client _ _ hstep =>
    cases hconnects : event.connects with
    | false =>
      exact .inl (epList_update (role_of_step (threadedStep_of_step hstep).2 hconnects).2 address)
    | true =>
      cases (threadedStep_of_step hstep).2 with
      | connectHost endpoint =>
        by_cases hsame : other = address
        · subst hsame
          refine .inr ⟨endpoint, rfl, ?_⟩
          dsimp only
          rw [Function.update_self]
        · refine .inl ?_
          dsimp only
          rw [Function.update_of_ne (Ne.symm hsame)]
      | connectMember endpoint => exact .inl (epList_update (by rfl) address)
      | _ => cases hconnects
  | deliver index datagram client _ _ hstep =>
    exact .inl (epList_update (role_of_step (threadedStep_of_step hstep).2 rfl).2 address)
  | lose | send => exact .inl rfl
  | exit other => exact .inl (epList_update (by rfl) address)

/-- So in a step of the network too a loop begins over all endpoints, and they stay as they are. -/
theorem loops_of_networkStep (hstep : NetworkStep network event next output)
    (address : IPEndPoint) :
    ∀ loop ∈ begunLoops (stepOf address ⟨network, event, output, next⟩),
      loop.2 = (next.clients address).epList.length := by
  intro loop hmem
  cases hstep with
  | act other event client _ _ hclient =>
    by_cases hsame : other = address
    · subst hsame
      simp only [stepOf, if_true, begunLoops, List.flatMap_singleton] at hmem
      obtain ⟨hlength, hlist⟩ := loops_of_step (threadedStep_of_step hclient).2 loop hmem
      dsimp only
      rw [Function.update_self, hlist, hlength]
    · simp [stepOf, hsame, begunLoops] at hmem
  | deliver index datagram client _ hdatagram hclient =>
    obtain rfl := output_of_receive hclient
    by_cases hsame : datagram.destination = address <;>
      simp [stepOf, hdatagram, hsame, begunLoops, ThreadedOutput.loops] at hmem
  | _ => cases hmem

end Network

/-! ### While members are only connected before the first change -/

/-- What stays true of the threads and the network when nothing is lost and the host opens one
session with each member, before the first change. -/
structure NetworkInvariant (host : IPEndPoint) (members : List IPEndPoint)
    (history : List NetworkRecord) (network : UpdateNetwork) : Prop where
  run : NetworkRun history network
  session : KeepsToSession host members history
  lost : lostIn history = []
  once : (network.clients host).epList.Nodup
  full : ∀ loop ∈ begunLoops (stepsOf host history),
    loop.2 = (network.clients host).epList.length

section Whole

variable {host address : IPEndPoint} {members : List IPEndPoint} {history : List NetworkRecord}
  {network next : UpdateNetwork} {event : NetworkEvent} {output : ThreadedOutput}

/-- The host's members stay, or one is added before the first change. -/
theorem newcomer_of_step
    (hconnects : ∀ endpoint, event = .act host (.connectP2P .host endpoint) →
      endpoint ∉ (network.clients host).epList ∧ changeOrder history = [])
    (hstep : NetworkStep network event next output) :
    (next.clients host).epList = (network.clients host).epList ∨
      changeOrder history = [] ∧ ∃ endpoint ∉ (network.clients host).epList,
        (next.clients host).epList = (network.clients host).epList ++ [endpoint] := by
  rcases epList_of_step hstep host with hsame | ⟨endpoint, hevent, hlist⟩
  · exact .inl hsame
  · obtain ⟨hnew, hnone⟩ := hconnects endpoint hevent
    exact .inr ⟨hnone, endpoint, hnew, hlist⟩

theorem NetworkInvariant.step (hinvariant : NetworkInvariant host members history network)
    (hnodup : (host :: members).Nodup) (hof : ofSession host members event = true)
    (hlost : lostIn [⟨network, event, output, next⟩] = [])
    (hconnects : ∀ endpoint, event = .act host (.connectP2P .host endpoint) →
      endpoint ∉ (network.clients host).epList ∧ changeOrder history = [])
    (hstep : network.step event = some (next, output)) :
    NetworkInvariant host members (history ++ [⟨network, event, output, next⟩]) next := by
  have hsteps := networkStep_of_step hstep
  have hlist := newcomer_of_step hconnects hsteps
  obtain ⟨hrun, hsession, hkept, honce, hfull⟩ := hinvariant
  refine ⟨hrun.extend hstep, fun record hmem ↦ ?_, ?_, ?_, fun loop hmem ↦ ?_⟩
  · rcases List.mem_append.mp hmem with hold | hnew
    · exact hsession record hold
    · rw [List.mem_singleton.mp hnew]
      exact hof
  · rw [lostIn_snoc, hkept, hlost, List.append_nil]
  · rcases hlist with hsame | ⟨-, endpoint, hnew, hlist⟩
    · rw [hsame]
      exact honce
    · rw [hlist]
      refine List.nodup_append.mpr ⟨honce, List.nodup_singleton _, fun other hother last hlast ↦ ?_⟩
      rw [List.mem_singleton.mp hlast]
      exact fun heq ↦ hnew (heq ▸ hother)
  · rw [stepsOf_snoc, begunLoops, List.flatMap_append] at hmem
    rcases List.mem_append.mp hmem with hold | hnew
    · rcases hlist with hsame | ⟨hnone, -⟩
      · rw [hsame]
        exact hfull loop hold
      · have hnoLoops := no_loops_of_no_changes hrun hnodup hsession hnone
        rw [begunLoops] at hnoLoops
        rw [hnoLoops] at hold
        cases hold
    · exact loops_of_networkStep hsteps host loop hnew

/-- Every loop reaches every member. -/
theorem NetworkInvariant.passing_eq_nil (hinvariant : NetworkInvariant host members history network)
    {position : ℕ} (hposition : (network.clients host).epList[position]? = some address) :
    passing position (begunLoops (stepsOf host history)) = [] := by
  obtain ⟨hlength, -⟩ := List.getElem?_eq_some_iff.mp hposition
  have hnone : (begunLoops (stepsOf host history)).filter
      (fun loop ↦ !decide (position < loop.2)) = [] :=
    List.filter_eq_nil_iff.mpr fun loop hmem ↦ by simp [hinvariant.full loop hmem, hlength]
  rw [passing, hnone]
  rfl

/-- The changes arrive as they are made when they are plain updates in ASCII. -/
theorem NetworkInvariant.changes_perm (hinvariant : NetworkInvariant host members history network)
    (hnodup : (host :: members).Nodup)
    (hplain : ∀ update ∈ changeOrder history, PlainUpdate update ∧ IsAscii update) :
    (changesOf (host :: members) history).Perm (changeOrder history) ∧
      ∀ client ∈ host :: members, arrivalsOf (changedIn (stepsOf client history)) =
        changedIn (stepsOf client history) := by
  have hperm := perm_changeOrder hnodup
    fun record hmem address event hevent ↦ (hinvariant.session.act hmem hevent).1
  have harrive : ∀ client ∈ host :: members, arrivalsOf (changedIn (stepsOf client history)) =
      changedIn (stepsOf client history) := by
    intro client hclient
    have hall : ∀ update ∈ changedIn (stepsOf client history), PlainUpdate update ∧
        IsAscii update := fun update hupdate ↦
      hplain update (hperm.mem_iff.mpr (List.mem_flatMap.mpr ⟨client, hclient, hupdate⟩))
    have hsame : (changedIn (stepsOf client history)).map asReceived =
        changedIn (stepsOf client history) := by
      conv_rhs => rw [← List.map_id (changedIn (stepsOf client history))]
      exact List.map_congr_left fun update hupdate ↦ asReceived_of_ascii (hall update hupdate).2
    rw [arrivalsOf, hsame]
    exact List.filter_eq_self.mpr fun update hupdate ↦ (hall update hupdate).1.isUpdateMessage
  refine ⟨?_, harrive⟩
  rw [changesOf, List.flatMap_congr harrive]
  exact hperm.symm

/-- What the text of a client is to take: what its updater took, and a host's own changes. -/
def handedTo (host address : IPEndPoint) (history : List NetworkRecord) : List Text :=
  takenIn (stepsOf address history) ++ tookOwn host address (changedIn (stepsOf address history))

/-- No text is to take anything but the changes that were made, each once. -/
theorem NetworkInvariant.handed_subperm
    (hinvariant : NetworkInvariant host members history network)
    (hnodup : (host :: members).Nodup)
    (hplain : ∀ update ∈ changeOrder history, PlainUpdate update ∧ IsAscii update)
    (haddress : address ∈ host :: members) :
    (handedTo host address history).Subperm (changeOrder history) := by
  obtain ⟨hperm, harrive⟩ := hinvariant.changes_perm hnodup hplain
  refine List.Subperm.trans ?_ hperm.subperm
  by_cases hhost : address = host
  · subst hhost
    have htakes := host_takes hinvariant.run hnodup hinvariant.session
    rw [changesOf, List.flatMap_cons, harrive address List.mem_cons_self, handedTo, tookOwn,
      if_pos rfl]
    exact ((List.subperm_append_right _).mpr htakes).trans List.perm_append_comm.subperm
  · have hmember : address ∈ members := (List.mem_cons.mp haddress).resolve_left hhost
    rw [handedTo, tookOwn, if_neg hhost, List.append_nil]
    exact member_takes hinvariant.run hnodup hinvariant.session hinvariant.once hmember

/-- At rest the text of the host and of every member that it knows is to take all of them. -/
theorem NetworkInvariant.handed_perm (hinvariant : NetworkInvariant host members history network)
    (hnodup : (host :: members).Nodup)
    (hplain : ∀ update ∈ changeOrder history, PlainUpdate update ∧ IsAscii update)
    (hrest : AtRest (host :: members) network)
    (haddress : address ∈ host :: (network.clients host).epList) :
    (handedTo host address history).Perm (changeOrder history) := by
  obtain ⟨hperm, harrive⟩ := hinvariant.changes_perm hnodup hplain
  refine List.Perm.trans ?_ hperm
  by_cases hhost : address = host
  · subst hhost
    have htook := host_took hinvariant.run hnodup hinvariant.session hinvariant.lost hrest
    rw [changesOf, List.flatMap_cons, harrive address List.mem_cons_self, handedTo, tookOwn,
      if_pos rfl]
    exact (htook.append_right _).trans List.perm_append_comm
  · have hknown := (List.mem_cons.mp haddress).resolve_left hhost
    obtain ⟨position, hposition⟩ := List.mem_iff_getElem?.mp hknown
    rw [handedTo, tookOwn, if_neg hhost, List.append_nil]
    simpa [hinvariant.passing_eq_nil hposition] using member_took hinvariant.run hnodup
      hinvariant.session hinvariant.once hinvariant.lost hrest hposition

/-- The endpoints of the host are members. -/
theorem NetworkInvariant.isMember (hinvariant : NetworkInvariant host members history network)
    (hknown : address ∈ host :: (network.clients host).epList) : address ∈ host :: members := by
  rcases List.mem_cons.mp hknown with rfl | hknown
  · exact List.mem_cons_self
  · exact List.mem_cons_of_mem _
      (((sides_of_run hinvariant.run hinvariant.session host).1 rfl).members address hknown)

end Whole

/-! ### What a step of the network hands out -/

section Handing

variable {host address : IPEndPoint} {network next : UpdateNetwork} {event : NetworkEvent}
  {output : ThreadedOutput}

/-- What an event of a client does to the updates that clients take and make. -/
theorem handed_of_act (network next : UpdateNetwork) (other address : IPEndPoint)
    (event : ThreadedEvent) (output : ThreadedOutput) :
    takenIn (stepOf address ⟨network, .act other event, output, next⟩) =
        (if other = address then output.taken else []) ∧
      changedIn (stepOf address ⟨network, .act other event, output, next⟩) =
        if other = address then event.changed else [] := by
  by_cases hsame : other = address <;> simp [stepOf, hsame, takenIn, changedIn]

/-- Threads and network hand nothing to an editor and make no change. -/
theorem handed_of_quiet (hevent : ofEditor event = false)
    (hstep : NetworkStep network event next output) (address : IPEndPoint) :
    takenIn (stepOf address ⟨network, event, output, next⟩) = [] ∧
      changedIn (stepOf address ⟨network, event, output, next⟩) = [] ∧
        changeOf ⟨network, event, output, next⟩ = [] := by
  cases hstep with
  | act other event client _ _ hclient =>
    have hnone : output.taken = [] ∧ event.changed = [] := by
      cases (threadedStep_of_step hclient).2 with
      | broadcast _ _ _ _ _ hloop => exact ⟨hloop.silent.1, rfl⟩
      | broadcastChange _ _ _ _ _ hloop => exact ⟨hloop.silent.1, rfl⟩
      | scan _ _ _ _ _ _ hchange => cases hchange <;> exact ⟨rfl, rfl⟩
      | memberScan _ _ _ _ _ _ hchange => cases hchange <;> exact ⟨rfl, rfl⟩
      | change | noUpdate | countUpdate | takeUpdate | faultUpdate => cases hevent
      | _ => exact ⟨rfl, rfl⟩
    obtain ⟨htaken, hchanged⟩ := handed_of_act network
      { clients := Function.update network.clients other client
        inFlight := network.inFlight ++ posts (network.clients other) output }
      other address event output
    rw [htaken, hchanged, hnone.1, hnone.2, ite_self]
    exact ⟨rfl, rfl, hnone.2⟩
  | deliver index datagram client _ hdatagram hclient =>
    obtain rfl := output_of_receive hclient
    by_cases hsame : datagram.destination = address <;>
      simp [stepOf, hdatagram, hsame, takenIn, changedIn, changeOf, ThreadedOutput.taken,
        ThreadedEvent.changed]
  | lose | send | exit => exact ⟨rfl, rfl, rfl⟩

end Handing

end NovaIde.Protocol
