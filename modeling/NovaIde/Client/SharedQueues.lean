import NovaIde.Client.SessionThreads

/-!
# Updates in shared queues

However many threads take from the queues of a client, and whatever the order of their steps, a step
of one of them moves an update from one place to another: from a queue into its hand, and from there
on its way to a peer or to the editor (`Balanced`). So over a whole run no update is lost or
duplicated, until the process ends (`delivered_once`). What a client receives as a host reaches its
editor and its members, what it receives as a member only its editor; a local change is sent to the
members or to the host, never to both. Only the order is not kept, and a scanner that finds the
queue emptied sends an empty datagram.

The queues and lists of the client are not made for several threads. Here each operation on one of
them is a single step all the same: what a torn operation would leave behind is not modelled.
-/

set_option autoImplicit false
set_option relaxedAutoImplicit false

namespace NovaIde.Client

open Foundation Foundation.EventRun

/-! ### Where updates are -/

/-- The tuple that a thread has taken and is not done with. -/
def ThreadStage.held : ThreadStage → List UpdateTuple
  | .holding updateTuple | .sending updateTuple _ _ | .delivered updateTuple => [updateTuple]
  | .idle | .counted | .recounted => []

/-- The update of this tuple. -/
def ThreadStage.heldText (stage : ThreadStage) : List Text := stage.held.map UpdateTuple.update

/-- The update that a thread has taken but not begun to send. -/
def ThreadStage.notBegun : ThreadStage → List Text
  | .holding updateTuple => [updateTuple.update]
  | _ => []

/-- What a thread in its loop still has to send to a position. -/
def ThreadStage.unsent (position : ℕ) : ThreadStage → List Datagram
  | .sending updateTuple next version =>
    if next ≤ position ∧ position < version then [utf8GetBytes updateTuple.update] else []
  | _ => []

namespace ThreadedClient

variable (client : ThreadedClient)

/-- The updates on their way to the updater of the editor. -/
def forEditor : List Text :=
  client.syncManager.textUpdateQueue ++ client.distributors.flatMap ThreadStage.heldText ++
    client.enqueuers.flatMap ThreadStage.heldText ++
    client.updateDeliveryQueue.map UpdateTuple.update ++ client.updateIDEQueue

/-- The updates and local changes that are still to be sent, as a whole. -/
def forNetwork : List Text :=
  client.distributors.flatMap ThreadStage.notBegun ++
    client.scanners.flatMap ThreadStage.notBegun ++
    client.memberScanners.flatMap ThreadStage.notBegun ++
    client.updateDeliveryQueue.map UpdateTuple.update ++ client.syncManager.textChangesQueue

/-- What the loops that are under way still send to a position. -/
def forPosition (position : ℕ) : List Datagram :=
  client.distributors.flatMap (ThreadStage.unsent position) ++
    client.scanners.flatMap (ThreadStage.unsent position)

end ThreadedClient

/-! ### What a step shows -/

/-- The update that is received. -/
def ThreadedEvent.received : ThreadedEvent → List Text
  | .receive receiveBytes =>
    if isUpdateMessage (asciiGetString receiveBytes) then [asciiGetString receiveBytes] else []
  | _ => []

/-- The local change. -/
def ThreadedEvent.changed : ThreadedEvent → List Text
  | .addTextChange update => [update]
  | _ => []

/-- The update that the updater takes: an empty answer is none. -/
def ThreadedOutput.taken : ThreadedOutput → List Text
  | .host (.answered update) => if update ≠ [] then [update] else []
  | _ => []

/-- The loop that is begun, if any: its update, and the number of endpoints it runs over. -/
def ThreadedOutput.loops : ThreadedOutput → List (Text × ℕ)
  | .began update endpoints => [(update, endpoints)]
  | _ => []

/-- What is sent to a position. -/
def ThreadedOutput.sentTo (position : ℕ) : ThreadedOutput → List Datagram
  | .host (.sent other data) => if other = position then [data] else []
  | _ => []

/-- What is sent to the host of the client. -/
def ThreadedOutput.sentToHost : ThreadedOutput → List Datagram
  | .toHost data => [data]
  | _ => []

/-- The updates of the loops that reach a position, encoded. -/
def reaching (position : ℕ) (loops : List (Text × ℕ)) : List Datagram :=
  (loops.filter fun loop ↦ decide (position < loop.2)).map fun loop ↦ utf8GetBytes loop.1

/-- The updates of the loops that end before a position, encoded. -/
def passing (position : ℕ) (loops : List (Text × ℕ)) : List Datagram :=
  (loops.filter fun loop ↦ !decide (position < loop.2)).map fun loop ↦ utf8GetBytes loop.1

/-- A step neither loses nor duplicates an update: what it receives and what was there before is
what is there after it, begun to be sent, or taken by the updater. Only empty texts may be added to
what is to be sent. -/
structure Balanced (client : ThreadedClient) (event : ThreadedEvent) (next : ThreadedClient)
    (output : ThreadedOutput) : Prop where
  editor : (client.forEditor ++ event.received).Perm (next.forEditor ++ output.taken)
  network : ∃ blanks : ℕ,
    ((client.forNetwork ++ (if client.hostFlag then event.received else []) ++ event.changed ++
      List.replicate blanks []).map utf8GetBytes).Perm
    ((output.loops.map Prod.fst ++ next.forNetwork).map utf8GetBytes ++ output.sentToHost)
  position : ∀ position, (client.forPosition position ++ reaching position output.loops).Perm
    (next.forPosition position ++ output.sentTo position)

/-- What every state keeps to: whatever is on its way to the editor is no empty text, and what the
host delivers is also for its own editor. -/
structure Deliverable (client : ThreadedClient) : Prop where
  nonempty : ∀ update ∈ client.forEditor, update ≠ []
  forIDE : ∀ updateTuple ∈ client.distributors.flatMap ThreadStage.held ++
    client.updateDeliveryQueue, updateTuple.forIDE = true

section Steps

variable {client next : ThreadedClient} {event : ThreadedEvent} {output : ThreadedOutput}
  {threads : List ThreadStage} {thread : ℕ} {stage stage' : ThreadStage}

/-- What the threads have when one of them goes on to another stage. -/
theorem count_flatMap_set {α : Type*} [BEq α] [LawfulBEq α] (has : ThreadStage → List α)
    (hstage : threads[thread]? = some stage) (stage' : ThreadStage) (entry : α) :
    ((threads.set thread stage').flatMap has).count entry + (has stage).count entry =
      (threads.flatMap has).count entry + (has stage').count entry := by
  simpa only [List.count_append] using (perm_flatMap_set has stage' hstage).count_eq entry

/-- Threads of which one changes without a change of what it has. -/
theorem flatMap_set_of_eq {α : Type*} (has : ThreadStage → List α)
    (hstage : threads[thread]? = some stage) (stage' : ThreadStage)
    (hsame : has stage' = has stage) :
    (threads.set thread stage').flatMap has = threads.flatMap has := by
  obtain ⟨hthread, rfl⟩ := List.getElem?_eq_some_iff.mp hstage
  rw [List.flatMap_def, List.flatMap_def, List.map_set, hsame]
  congr 1
  refine List.ext_getElem (by simp) fun index hindex hother ↦ ?_
  rw [List.getElem_set]
  split_ifs with heq
  · subst heq
    rw [List.getElem_map]
  · rfl

/-- A step that moves nothing is balanced. -/
theorem Balanced.quiet (heditor : next.forEditor = client.forEditor)
    (hnetwork : next.forNetwork = client.forNetwork)
    (hposition : ∀ position, next.forPosition position = client.forPosition position)
    (hreceived : event.received = []) (hchanged : event.changed = []) (htaken : output.taken = [])
    (hloops : output.loops = []) (hsent : ∀ position, output.sentTo position = [])
    (hhost : output.sentToHost = []) : Balanced client event next output := by
  refine ⟨?_, ⟨0, ?_⟩, fun position ↦ ?_⟩
  · rw [heditor, hreceived, htaken]
  · simp [hnetwork, hreceived, hchanged, hloops, hhost]
  · rw [hposition, hsent, hloops]
    rfl

/-- What a step of a loop does to what its thread has, for a stage after the loop in which the
thread has nothing to begin or to send. -/
theorem LoopStep.conserves {epList : List IPEndPoint} {done : UpdateTuple → ThreadStage}
    (hloop : LoopStep epList done stage stage' output)
    (hbegin : ∀ updateTuple, (done updateTuple).notBegun = [])
    (hsend : ∀ updateTuple position, (done updateTuple).unsent position = []) :
    stage.notBegun = stage'.notBegun ++ output.loops.map Prod.fst ∧
      ∀ position, stage'.unsent position ++ output.sentTo position =
        stage.unsent position ++ reaching position output.loops := by
  cases hloop with
  | enter updateTuple =>
    refine ⟨rfl, fun position ↦ ?_⟩
    by_cases hposition : position < epList.length <;>
      simp [ThreadStage.unsent, ThreadedOutput.sentTo, ThreadedOutput.loops, reaching, hposition]
  | fault updateTuple position version =>
    exact ⟨rfl, fun other ↦ rfl⟩
  | send updateTuple position hposition =>
    refine ⟨rfl, fun other ↦ ?_⟩
    rcases lt_trichotomy position other with hlt | rfl | hgt
    · have hne : position ≠ other := hlt.ne
      simp [ThreadStage.unsent, ThreadedOutput.sentTo, ThreadedOutput.loops, reaching, hne,
        hlt.le, Nat.succ_le_of_lt hlt]
    · simp [ThreadStage.unsent, ThreadedOutput.sentTo, ThreadedOutput.loops, reaching, hposition]
    · have hne : position ≠ other := hgt.ne'
      have hle : ¬ position ≤ other := not_le.mpr hgt
      have hnext : ¬ position + 1 ≤ other := by omega
      simp [ThreadStage.unsent, ThreadedOutput.sentTo, ThreadedOutput.loops, reaching, hne, hle,
        hnext]
  | leave updateTuple position hposition =>
    refine ⟨?_, fun other ↦ ?_⟩
    · rw [hbegin]
      rfl
    · have hnone : ¬ (position ≤ other ∧ other < epList.length) := by omega
      rw [hsend, ThreadStage.unsent, if_neg hnone]
      rfl

/-- A thread has the same tuple in hand all through its loop. -/
theorem LoopStep.held {epList : List IPEndPoint} {done : UpdateTuple → ThreadStage}
    (hloop : LoopStep epList done stage stage' output)
    (hdone : ∀ updateTuple, (done updateTuple).held = [updateTuple]) :
    stage'.held = stage.held := by
  cases hloop with
  | leave updateTuple position hposition => exact hdone updateTuple
  | enter | fault | send => rfl

/-- A loop takes nothing for the updater and sends nothing to the host of the client. -/
theorem LoopStep.silent {epList : List IPEndPoint} {done : UpdateTuple → ThreadStage}
    (hloop : LoopStep epList done stage stage' output) :
    output.taken = [] ∧ output.sentToHost = [] := by
  cases hloop <;> exact ⟨rfl, rfl⟩

/-- A scanner, up to the change that it sends, moves the first local change into its hand, or an
empty text. -/
theorem ChangeStep.conserves {syncManager syncManager' : SynchronizationManager}
    (hchange : ChangeStep syncManager stage syncManager' stage' output) :
    stage.notBegun = [] ∧ syncManager'.textUpdateQueue = syncManager.textUpdateQueue ∧
      (∀ position, stage.unsent position = [] ∧ stage'.unsent position = []) ∧
      (∀ position, output.sentTo position = []) ∧ output.loops = [] ∧ output.taken = [] ∧
      output.sentToHost = [] ∧
      ∃ blanks : ℕ, List.replicate blanks [] ++ syncManager.textChangesQueue =
        stage'.notBegun ++ syncManager'.textChangesQueue := by
  cases hchange with
  | count | recount | fault =>
    exact ⟨rfl, rfl, fun _ ↦ ⟨rfl, rfl⟩, fun _ ↦ rfl, rfl, rfl, rfl, 0, rfl⟩
  | missed hqueue =>
    exact ⟨rfl, rfl, fun _ ↦ ⟨rfl, rfl⟩, fun _ ↦ rfl, rfl, rfl, rfl, 1, rfl⟩
  | take change rest hqueue =>
    exact ⟨rfl, rfl, fun _ ↦ ⟨rfl, rfl⟩, fun _ ↦ rfl, rfl, rfl, rfl, 0, hqueue⟩

/-- A distributor's step is balanced. -/
theorem balanced_of_distribute (hdeliverable : Deliverable client)
    (hstep : ThreadedStep client (.distribute thread) next output) :
    Balanced client (.distribute thread) next output := by
  cases hstep with
  | count _ hstage =>
    refine .quiet ?_ ?_ (fun position ↦ ?_) rfl rfl rfl rfl (fun _ ↦ rfl) rfl
    · simp [ThreadedClient.forEditor, flatMap_set_of_eq ThreadStage.heldText hstage .counted rfl]
    · simp [ThreadedClient.forNetwork, flatMap_set_of_eq ThreadStage.notBegun hstage .counted rfl]
    · simp [ThreadedClient.forPosition,
        flatMap_set_of_eq (ThreadStage.unsent position) hstage .counted rfl]
  | fault => exact .quiet rfl rfl (fun _ ↦ rfl) rfl rfl rfl rfl (fun _ ↦ rfl) rfl
  | take _ updateTuple rest hstage hqueue =>
    refine ⟨?_, ⟨0, ?_⟩, fun position ↦ ?_⟩
    · rw [List.perm_iff_count]
      intro update
      have hcount := count_flatMap_set ThreadStage.heldText hstage (.holding updateTuple) update
      simp only [ThreadStage.heldText, ThreadStage.held, List.map_nil, List.map_cons,
        List.count_nil, List.count_cons] at hcount
      simp only [ThreadedClient.forEditor, hqueue, ThreadedEvent.received, ThreadedOutput.taken,
        List.count_append, List.map_cons, List.count_cons, List.count_nil]
      omega
    · simp only [ThreadedOutput.sentToHost, List.append_nil]
      refine List.Perm.map _ ?_
      rw [List.perm_iff_count]
      intro update
      have hcount := count_flatMap_set ThreadStage.notBegun hstage (.holding updateTuple) update
      simp only [ThreadStage.notBegun, List.count_nil, List.count_cons] at hcount
      simp only [ThreadedClient.forNetwork, hqueue, ThreadedEvent.received, ThreadedEvent.changed,
        ThreadedOutput.loops, ite_self, List.count_append, List.map_cons, List.map_nil,
        List.count_cons, List.count_nil, List.replicate_zero]
      omega
    · simp [ThreadedClient.forPosition, ThreadedOutput.loops, ThreadedOutput.sentTo, reaching,
        flatMap_set_of_eq (ThreadStage.unsent position) hstage (.holding updateTuple) rfl]
  | broadcast _ stage stage' _ hstage hloop =>
    obtain ⟨hnotBegun, hunsent⟩ := hloop.conserves (fun _ ↦ rfl) fun _ _ ↦ rfl
    obtain ⟨htaken, hhost⟩ := hloop.silent
    have hheld : stage'.heldText = stage.heldText :=
      congrArg (List.map UpdateTuple.update) (hloop.held fun _ ↦ rfl)
    refine ⟨?_, ⟨0, ?_⟩, fun position ↦ ?_⟩
    · simp [ThreadedClient.forEditor, htaken, ThreadedEvent.received,
        flatMap_set_of_eq ThreadStage.heldText hstage stage' hheld]
    · rw [hhost, List.append_nil]
      refine List.Perm.map _ ?_
      rw [List.perm_iff_count]
      intro update
      have hcount := count_flatMap_set ThreadStage.notBegun hstage stage' update
      rw [hnotBegun] at hcount
      simp only [ThreadedClient.forNetwork, ThreadedEvent.received, ThreadedEvent.changed,
        ite_self, List.count_append, List.count_nil, List.replicate_zero] at hcount ⊢
      omega
    · rw [List.perm_iff_count]
      intro data
      have hcount := count_flatMap_set (ThreadStage.unsent position) hstage stage' data
      have hthread := congrArg (List.count data) (hunsent position)
      simp only [ThreadedClient.forPosition, List.count_append] at hcount hthread ⊢
      omega
  | deliver _ updateTuple hstage =>
    have hide : updateTuple.forIDE = true := by
      refine hdeliverable.forIDE updateTuple (List.mem_append_left _ (List.mem_flatMap.mpr ?_))
      exact ⟨_, List.mem_of_getElem? hstage, List.mem_singleton_self _⟩
    rw [if_pos hide]
    refine ⟨?_, ⟨0, ?_⟩, fun position ↦ ?_⟩
    · rw [List.perm_iff_count]
      intro update
      have hcount := count_flatMap_set ThreadStage.heldText hstage .idle update
      simp only [ThreadStage.heldText, ThreadStage.held, List.map_nil, List.map_cons,
        List.count_nil, List.count_cons] at hcount
      simp only [ThreadedClient.forEditor, SynchronizationManager.addIDEUpdate,
        ThreadedEvent.received, ThreadedOutput.taken, List.count_append, List.count_cons,
        List.count_nil]
      omega
    · simp [ThreadedClient.forNetwork, SynchronizationManager.addIDEUpdate,
        ThreadedEvent.received, ThreadedEvent.changed, ThreadedOutput.loops,
        ThreadedOutput.sentToHost, flatMap_set_of_eq ThreadStage.notBegun hstage .idle rfl]
    · simp [ThreadedClient.forPosition, ThreadedOutput.loops, ThreadedOutput.sentTo, reaching,
        flatMap_set_of_eq (ThreadStage.unsent position) hstage .idle rfl]

/-- A step of a scanner of the host is balanced. -/
theorem balanced_of_scan (hstep : ThreadedStep client (.scan thread) next output) :
    Balanced client (.scan thread) next output := by
  cases hstep with
  | scan _ stage stage' syncManager _ hstage hchange =>
    obtain ⟨hempty, hupdates, hunsent, hsent, hloops, htaken, hhost, blanks, hmoved⟩ :=
      hchange.conserves
    refine ⟨?_, ⟨blanks, ?_⟩, fun position ↦ ?_⟩
    · simp [ThreadedClient.forEditor, hupdates, htaken, ThreadedEvent.received]
    · rw [hhost, List.append_nil]
      refine List.Perm.map _ ?_
      rw [List.perm_iff_count]
      intro update
      have hcount := count_flatMap_set ThreadStage.notBegun hstage stage' update
      have htext := congrArg (List.count update) hmoved
      simp only [ThreadedClient.forNetwork, ThreadedEvent.received, ThreadedEvent.changed, ite_self,
        hempty, hloops, List.map_nil, List.count_append, List.count_nil] at hcount htext ⊢
      omega
    · obtain ⟨hbefore, hafter⟩ := hunsent position
      simp [ThreadedClient.forPosition, hsent, hloops, reaching,
        flatMap_set_of_eq (ThreadStage.unsent position) hstage stage' (hafter.trans hbefore.symm)]
  | broadcastChange _ stage stage' _ hstage hloop =>
    obtain ⟨hnotBegun, hunsent⟩ := hloop.conserves (fun _ ↦ rfl) fun _ _ ↦ rfl
    obtain ⟨htaken, hhost⟩ := hloop.silent
    refine ⟨?_, ⟨0, ?_⟩, fun position ↦ ?_⟩
    · simp [ThreadedClient.forEditor, htaken, ThreadedEvent.received]
    · rw [hhost, List.append_nil]
      refine List.Perm.map _ ?_
      rw [List.perm_iff_count]
      intro update
      have hcount := count_flatMap_set ThreadStage.notBegun hstage stage' update
      rw [hnotBegun] at hcount
      simp only [ThreadedClient.forNetwork, ThreadedEvent.received, ThreadedEvent.changed,
        ite_self, List.count_append, List.count_nil, List.replicate_zero] at hcount ⊢
      omega
    · rw [List.perm_iff_count]
      intro data
      have hcount := count_flatMap_set (ThreadStage.unsent position) hstage stage' data
      have hthread := congrArg (List.count data) (hunsent position)
      simp only [ThreadedClient.forPosition, List.count_append] at hcount hthread ⊢
      omega

/-- A step of a scanner of the member is balanced. -/
theorem balanced_of_memberScan (hstep : ThreadedStep client (.memberScan thread) next output) :
    Balanced client (.memberScan thread) next output := by
  cases hstep with
  | memberScan _ stage stage' syncManager _ hstage hchange =>
    obtain ⟨hempty, hupdates, -, hsent, hloops, htaken, hhost, blanks, hmoved⟩ :=
      hchange.conserves
    refine ⟨?_, ⟨blanks, ?_⟩, fun position ↦ ?_⟩
    · simp [ThreadedClient.forEditor, hupdates, htaken, ThreadedEvent.received]
    · rw [hhost, List.append_nil]
      refine List.Perm.map _ ?_
      rw [List.perm_iff_count]
      intro update
      have hcount := count_flatMap_set ThreadStage.notBegun hstage stage' update
      have htext := congrArg (List.count update) hmoved
      simp only [ThreadedClient.forNetwork, ThreadedEvent.received, ThreadedEvent.changed, ite_self,
        hempty, hloops, List.map_nil, List.count_append, List.count_nil] at hcount htext ⊢
      omega
    · simp [ThreadedClient.forPosition, hsent, hloops, reaching]
  | sendChange _ updateTuple hstage =>
    refine ⟨?_, ⟨0, ?_⟩, fun position ↦ ?_⟩
    · simp [ThreadedClient.forEditor, ThreadedEvent.received, ThreadedOutput.taken]
    · have hmoved : client.forNetwork.Perm
          ({ client with memberScanners := client.memberScanners.set thread .idle
            }.forNetwork ++ [updateTuple.update]) := by
        rw [List.perm_iff_count]
        intro update
        have hcount := count_flatMap_set ThreadStage.notBegun hstage .idle update
        simp only [ThreadStage.notBegun, List.count_nil] at hcount
        simp only [ThreadedClient.forNetwork, List.count_append]
        omega
      simpa [ThreadedEvent.received, ThreadedEvent.changed, ThreadedOutput.loops,
        ThreadedOutput.sentToHost] using hmoved.map utf8GetBytes
    · simp [ThreadedClient.forPosition, ThreadedOutput.loops, ThreadedOutput.sentTo, reaching]
  | noHost => exact .quiet rfl rfl (fun _ ↦ rfl) rfl rfl rfl rfl (fun _ ↦ rfl) rfl

/-- A step of a thread that queues updates for the editor is balanced. -/
theorem balanced_of_enqueue (hstep : ThreadedStep client (.enqueue thread) next output) :
    Balanced client (.enqueue thread) next output := by
  have hmoves : ∀ {after : ThreadedClient}, client.forEditor.Perm after.forEditor →
      after.forNetwork = client.forNetwork →
      (∀ position, after.forPosition position = client.forPosition position) →
      Balanced client (.enqueue thread) after (.host .nothing) := by
    intro after heditor hnetwork hposition
    refine ⟨?_, ⟨0, ?_⟩, fun position ↦ ?_⟩
    · simpa [ThreadedEvent.received, ThreadedOutput.taken] using heditor
    · simp [hnetwork, ThreadedEvent.received, ThreadedEvent.changed, ThreadedOutput.loops,
        ThreadedOutput.sentToHost]
    · simp [hposition, ThreadedOutput.loops, ThreadedOutput.sentTo, reaching]
  cases hstep with
  | memberCount _ hstage =>
    refine hmoves (List.Perm.of_eq ?_) rfl fun _ ↦ rfl
    simp [ThreadedClient.forEditor, flatMap_set_of_eq ThreadStage.heldText hstage .counted rfl]
  | memberTake _ update rest hstage hqueue =>
    refine hmoves ?_ rfl fun _ ↦ rfl
    rw [List.perm_iff_count]
    intro other
    have hcount := count_flatMap_set ThreadStage.heldText hstage (.delivered ⟨update, true⟩) other
    simp only [ThreadStage.heldText, ThreadStage.held, List.map_nil, List.map_cons,
      List.count_nil, List.count_cons] at hcount
    simp only [ThreadedClient.forEditor, hqueue, List.count_append, List.count_cons]
    omega
  | memberFault => exact .quiet rfl rfl (fun _ ↦ rfl) rfl rfl rfl rfl (fun _ ↦ rfl) rfl
  | memberDeliver _ updateTuple hstage =>
    refine hmoves ?_ rfl fun _ ↦ rfl
    rw [List.perm_iff_count]
    intro other
    have hcount := count_flatMap_set ThreadStage.heldText hstage .idle other
    simp only [ThreadStage.heldText, ThreadStage.held, List.map_nil, List.map_cons,
      List.count_nil, List.count_cons] at hcount
    simp only [ThreadedClient.forEditor, SynchronizationManager.addIDEUpdate, List.count_append,
      List.count_cons, List.count_nil]
    omega

/-- The updater's step is balanced. -/
theorem balanced_of_getLastUpdate (hdeliverable : Deliverable client)
    (hstep : ThreadedStep client .getLastUpdate next output) :
    Balanced client .getLastUpdate next output := by
  cases hstep with
  | noUpdate | countUpdate | faultUpdate =>
    exact .quiet rfl rfl (fun _ ↦ rfl) rfl rfl rfl rfl (fun _ ↦ rfl) rfl
  | takeUpdate update rest hcounted hqueue =>
    have hupdate : update ≠ [] :=
      hdeliverable.nonempty update (by simp [ThreadedClient.forEditor, hqueue])
    have htaken : (ThreadedOutput.host (.answered update)).taken = [update] := if_pos hupdate
    refine ⟨?_, ⟨0, ?_⟩, fun position ↦ ?_⟩
    · rw [htaken, List.perm_iff_count]
      intro other
      simp only [ThreadedClient.forEditor, hqueue, ThreadedEvent.received, List.count_append,
        List.count_cons, List.count_nil]
      omega
    · simp [ThreadedClient.forNetwork, ThreadedEvent.received, ThreadedEvent.changed,
        ThreadedOutput.loops, ThreadedOutput.sentToHost]
    · simp [ThreadedClient.forPosition, ThreadedOutput.loops, ThreadedOutput.sentTo, reaching]

/-- What a listener does is balanced. -/
theorem balanced_of_receive (client : ThreadedClient) (receiveBytes : Datagram) :
    Balanced client (.receive receiveBytes) (client.p2pListener receiveBytes) (.host .nothing) := by
  have hsilent : ∀ position, (client.p2pListener receiveBytes).forPosition position =
      client.forPosition position := by
    intro position
    simp only [ThreadedClient.p2pListener]
    split_ifs <;> rfl
  refine ⟨?_, ⟨0, ?_⟩, fun position ↦ ?_⟩
  · rw [List.perm_iff_count]
    intro update
    simp only [ThreadedClient.p2pListener, ThreadedEvent.received, ThreadedOutput.taken]
    split_ifs <;>
      simp only [ThreadedClient.forEditor, List.map_append, List.map_cons, List.map_nil,
        List.count_append, List.count_nil] <;>
      omega
  · refine List.Perm.trans (List.Perm.map _ ?_) (List.Perm.of_eq (List.append_nil _).symm)
    rw [List.perm_iff_count]
    intro update
    simp only [ThreadedClient.p2pListener, ThreadedEvent.received, ThreadedEvent.changed,
      ThreadedOutput.loops]
    split_ifs <;>
      simp only [ThreadedClient.forNetwork, List.map_append, List.map_cons, List.map_nil,
        List.count_append, List.count_nil, List.replicate_zero] <;>
      omega
  · simp [hsilent, ThreadedOutput.loops, ThreadedOutput.sentTo, reaching]

/-- Every step is balanced. -/
theorem balanced_of_step (hdeliverable : Deliverable client)
    (hstep : ThreadedStep client event next output) : Balanced client event next output := by
  cases event with
  | distribute thread => exact balanced_of_distribute hdeliverable hstep
  | scan thread => exact balanced_of_scan hstep
  | enqueue thread => exact balanced_of_enqueue hstep
  | memberScan thread => exact balanced_of_memberScan hstep
  | getLastUpdate => exact balanced_of_getLastUpdate hdeliverable hstep
  | receive receiveBytes =>
    cases hstep
    exact balanced_of_receive client receiveBytes
  | connectP2P type endpoint =>
    cases hstep <;> exact .quiet rfl rfl (fun _ ↦ rfl) rfl rfl rfl rfl (fun _ ↦ rfl) rfl
  | startSesstion =>
    cases hstep <;> refine .quiet ?_ ?_ (fun position ↦ ?_) rfl rfl rfl rfl (fun _ ↦ rfl) rfl <;>
      simp [ThreadedClient.forEditor, ThreadedClient.forNetwork, ThreadedClient.forPosition,
        ThreadStage.heldText, ThreadStage.held, ThreadStage.notBegun, ThreadStage.unsent]
  | addTextChange update =>
    cases hstep
    refine ⟨?_, ⟨0, ?_⟩, fun position ↦ ?_⟩
    · simp [ThreadedClient.forEditor, SynchronizationManager.addTextChange, ThreadedEvent.received,
        ThreadedOutput.taken]
    · simp [ThreadedClient.forNetwork, SynchronizationManager.addTextChange,
        ThreadedEvent.received, ThreadedEvent.changed, ThreadedOutput.loops,
        ThreadedOutput.sentToHost]
    · simp [ThreadedClient.forPosition, ThreadedOutput.loops, ThreadedOutput.sentTo, reaching]

/-! ### What every state keeps to -/

theorem received_ne_nil (event : ThreadedEvent) : ∀ update ∈ event.received, update ≠ [] := by
  cases event with
  | receive receiveBytes =>
    intro update hmem hnil
    simp only [ThreadedEvent.received] at hmem
    split_ifs at hmem with hupdate
    · rw [← List.mem_singleton.mp hmem, hnil] at hupdate
      cases hupdate
    · cases hmem
  | _ => exact fun _ hmem ↦ absurd hmem List.not_mem_nil

/-- Whatever a step of a client leaves in its hands and in its queue for delivery was there before
or has just been received. -/
theorem forIDE_of_step (hforIDE : ∀ updateTuple ∈ client.distributors.flatMap ThreadStage.held ++
      client.updateDeliveryQueue, updateTuple.forIDE = true)
    (hstep : ThreadedStep client event next output) :
    ∀ updateTuple ∈ next.distributors.flatMap ThreadStage.held ++ next.updateDeliveryQueue,
      updateTuple.forIDE = true := by
  have hset : ∀ {thread : ℕ} {stage stage' : ThreadStage},
      client.distributors[thread]? = some stage →
      (∀ updateTuple ∈ stage'.held, updateTuple.forIDE = true) →
      ∀ updateTuple ∈ (client.distributors.set thread stage').flatMap ThreadStage.held ++
        client.updateDeliveryQueue, updateTuple.forIDE = true := by
    intro thread stage stage' hstage hheld updateTuple hmem
    rcases List.mem_append.mp hmem with hhand | hqueue
    · obtain ⟨other, hother, hhas⟩ := List.mem_flatMap.mp hhand
      rcases List.mem_or_eq_of_mem_set hother with hold | rfl
      · exact hforIDE updateTuple
          (List.mem_append_left _ (List.mem_flatMap.mpr ⟨other, hold, hhas⟩))
      · exact hheld updateTuple hhas
    · exact hforIDE updateTuple (List.mem_append_right _ hqueue)
  cases hstep with
  | startHost => simpa [ThreadStage.held] using hforIDE
  | receive receiveBytes =>
    simp only [ThreadedClient.p2pListener]
    split_ifs
    · intro updateTuple hmem
      rw [← List.append_assoc] at hmem
      rcases List.mem_append.mp hmem with hold | hnew
      · exact hforIDE updateTuple hold
      · rw [List.mem_singleton.mp hnew]
    · exact hforIDE
    · exact hforIDE
  | count _ hstage => exact hset hstage (by simp [ThreadStage.held])
  | take _ taken rest hstage hqueue =>
    rw [hqueue] at hforIDE
    have hold : ∀ updateTuple ∈ rest, updateTuple.forIDE = true := fun updateTuple hmem ↦
      hforIDE updateTuple (List.mem_append_right _ (List.mem_cons_of_mem _ hmem))
    have htaken : taken.forIDE = true :=
      hforIDE taken (List.mem_append_right _ List.mem_cons_self)
    intro updateTuple hmem
    rcases List.mem_append.mp hmem with hhand | hrest
    · obtain ⟨other, hother, hhas⟩ := List.mem_flatMap.mp hhand
      rcases List.mem_or_eq_of_mem_set hother with hbefore | rfl
      · exact hforIDE updateTuple
          (List.mem_append_left _ (List.mem_flatMap.mpr ⟨other, hbefore, hhas⟩))
      · rw [List.mem_singleton.mp hhas]
        exact htaken
    · exact hold updateTuple hrest
  | broadcast _ stage stage' _ hstage hloop =>
    refine hset hstage ?_
    rw [hloop.held fun _ ↦ rfl]
    exact fun updateTuple hheld ↦ hforIDE updateTuple
      (List.mem_append_left _ (List.mem_flatMap.mpr ⟨stage, List.mem_of_getElem? hstage, hheld⟩))
  | deliver _ _ hstage => exact hset hstage (by simp [ThreadStage.held])
  | _ => exact hforIDE

theorem deliverable_start : Deliverable {} :=
  ⟨by simp [ThreadedClient.forEditor], by simp⟩

/-- Every step keeps to it: what is on its way to the editor after it was so before, or has just
been received. -/
theorem Deliverable.step (hdeliverable : Deliverable client)
    (hstep : ThreadedStep client event next output) : Deliverable next := by
  refine ⟨fun update hmem ↦ ?_, forIDE_of_step hdeliverable.forIDE hstep⟩
  have hbefore : update ∈ client.forEditor ++ event.received :=
    (balanced_of_step hdeliverable hstep).editor.mem_iff.mpr (List.mem_append_left _ hmem)
  rcases List.mem_append.mp hbefore with hold | hnew
  · exact hdeliverable.nonempty update hold
  · exact received_ne_nil event update hnew

end Steps

/-! ### Runs -/

/-- The updates received in a run. -/
def receivedIn (history : List ThreadedRecord) : List Text :=
  history.flatMap fun record ↦ record.event.received

/-- The updates received while the client was a host. -/
def receivedAsHost (history : List ThreadedRecord) : List Text :=
  history.flatMap fun record ↦ if record.before.hostFlag then record.event.received else []

/-- The local changes of a run. -/
def changedIn (history : List ThreadedRecord) : List Text :=
  history.flatMap fun record ↦ record.event.changed

/-- What the updater took in a run. -/
def takenIn (history : List ThreadedRecord) : List Text :=
  history.flatMap fun record ↦ record.observation.taken

/-- The loops begun in a run. -/
def begunLoops (history : List ThreadedRecord) : List (Text × ℕ) :=
  history.flatMap fun record ↦ record.observation.loops

/-- What was sent to a position in a run. -/
def sentIn (position : ℕ) (history : List ThreadedRecord) : List Datagram :=
  history.flatMap fun record ↦ record.observation.sentTo position

/-- What was sent to the host of the client in a run. -/
def sentToHostIn (history : List ThreadedRecord) : List Datagram :=
  history.flatMap fun record ↦ record.observation.sentToHost

/-- Every update of a run is accounted for: those received were taken by the updater or are on their
way to it; the loops begun, what is still to be sent and what was sent to the host are the updates
received as a host, the local changes and some empty texts; and each position was sent what the
loops over it send, but for what they still have to. -/
structure Conserved (history : List ThreadedRecord) (client : ThreadedClient) : Prop where
  editor : (receivedIn history).Perm (takenIn history ++ client.forEditor)
  network : ∃ blanks : ℕ,
    ((receivedAsHost history ++ changedIn history ++
      List.replicate blanks []).map utf8GetBytes).Perm
    (((begunLoops history).map Prod.fst ++ client.forNetwork).map utf8GetBytes ++
      sentToHostIn history)
  position : ∀ position, (reaching position (begunLoops history)).Perm
    (sentIn position history ++ client.forPosition position)

/-- Threads of a host start only after a member was connected, so that every loop has one to send
to. -/
structure Joined (history : List ThreadedRecord) (client : ThreadedClient) : Prop where
  threads : client.scanners.length = client.distributors.length ∧
    client.distributors.length ≤ client.epList.length
  connecting : client.hostFlag = true → client.connecting = true →
    client.distributors.length < client.epList.length
  loops : ∀ loop ∈ begunLoops history, 0 < loop.2

section Runs

variable {history : List ThreadedRecord} {client next : ThreadedClient} {event : ThreadedEvent}
  {output : ThreadedOutput} {stage stage' : ThreadStage}

theorem begunLoops_snoc (history : List ThreadedRecord) (record : ThreadedRecord) :
    begunLoops (history ++ [record]) = begunLoops history ++ record.observation.loops := by
  simp [begunLoops]

theorem reaching_append (position : ℕ) (loops others : List (Text × ℕ)) :
    reaching position (loops ++ others) = reaching position loops ++ reaching position others := by
  simp [reaching]

/-- Every loop reaches a position or ends before it. -/
theorem perm_reaching_passing (position : ℕ) (loops : List (Text × ℕ)) :
    (reaching position loops ++ passing position loops).Perm
      (loops.map fun loop ↦ utf8GetBytes loop.1) := by
  rw [reaching, passing, ← List.map_append]
  exact (List.filter_append_perm _ loops).map _

theorem conserved_start : Conserved [] {} :=
  ⟨.nil, ⟨0, .nil⟩, fun _ ↦ .nil⟩

/-- The balances of the steps add up. -/
theorem Conserved.extend (hconserved : Conserved history client)
    (hbalanced : Balanced client event next output) :
    Conserved (history ++ [⟨client, event, output, next⟩]) next := by
  obtain ⟨blanks, hnetwork⟩ := hconserved.network
  obtain ⟨added, hadded⟩ := hbalanced.network
  refine ⟨?_, ⟨blanks + added, ?_⟩, fun position ↦ ?_⟩
  · rw [List.perm_iff_count]
    intro update
    have hbefore := hconserved.editor.count_eq update
    have hmoved := hbalanced.editor.count_eq update
    simp only [receivedIn, takenIn, List.flatMap_append, List.flatMap_singleton,
      List.count_append] at hbefore hmoved ⊢
    omega
  · rw [List.perm_iff_count]
    intro data
    have hbefore := hnetwork.count_eq data
    have hmoved := hadded.count_eq data
    simp only [receivedAsHost, changedIn, begunLoops, sentToHostIn, List.flatMap_append,
      List.flatMap_singleton, List.map_append, List.replicate_add,
      List.count_append] at hbefore hmoved ⊢
    omega
  · rw [List.perm_iff_count]
    intro data
    have hbefore := (hconserved.position position).count_eq data
    have hmoved := (hbalanced.position position).count_eq data
    simp only [begunLoops_snoc, reaching_append, sentIn, List.flatMap_append,
      List.flatMap_singleton, List.count_append] at hbefore hmoved ⊢
    omega

theorem conserved_of_run (hrun : ThreadedRun history client) :
    Deliverable client ∧ Conserved history client := by
  refine hrun.relation (fun history client ↦ Deliverable client ∧ Conserved history client)
    ⟨deliverable_start, conserved_start⟩ ?_
  rintro history client event output next - ⟨hdeliverable, hconserved⟩ hstep
  obtain ⟨-, hstep⟩ := threadedStep_of_step hstep
  exact ⟨hdeliverable.step hstep, hconserved.extend (balanced_of_step hdeliverable hstep)⟩

/-- A loop that begins runs over all endpoints. -/
theorem LoopStep.loops_eq {epList : List IPEndPoint} {done : UpdateTuple → ThreadStage}
    (hloop : LoopStep epList done stage stage' output) :
    ∀ loop ∈ output.loops, loop.2 = epList.length := by
  cases hloop with
  | enter updateTuple =>
    intro loop hmem
    rw [List.mem_singleton.mp hmem]
  | fault | send | leave => simp [ThreadedOutput.loops]

/-- A step of a thread leaves the numbers of threads and of members alone, and begins a loop only
over all members, of which there is one. -/
theorem Joined.step (hjoined : Joined history client)
    (hstep : ThreadedStep client event next output) :
    Joined (history ++ [⟨client, event, output, next⟩]) next := by
  obtain ⟨⟨hscanners, hdistributors⟩, hconnecting, hloops⟩ := hjoined
  have hsilent : output.loops = [] →
      ∀ loop ∈ begunLoops (history ++ [⟨client, event, output, next⟩]), 0 < loop.2 := by
    intro hnone
    rw [begunLoops_snoc, hnone, List.append_nil]
    exact hloops
  have hbegun : ∀ {threads : List ThreadStage} {done : UpdateTuple → ThreadStage}
      {stage stage' : ThreadStage} {thread : ℕ}, threads.length ≤ client.epList.length →
      threads[thread]? = some stage → LoopStep client.epList done stage stage' output →
      ∀ loop ∈ begunLoops (history ++ [⟨client, event, output, next⟩]), 0 < loop.2 := by
    intro threads done stage stage' thread hlength hstage hloop loop hmem
    rw [begunLoops_snoc] at hmem
    rcases List.mem_append.mp hmem with hold | hnew
    · exact hloops loop hold
    · obtain ⟨hthread, -⟩ := List.getElem?_eq_some_iff.mp hstage
      rw [hloop.loops_eq loop hnew]
      omega
  cases hstep with
  | connectHost => exact ⟨⟨hscanners, by simp; omega⟩, by simp; omega, hsilent rfl⟩
  | connectMember => exact ⟨⟨hscanners, hdistributors⟩, by simp, hsilent rfl⟩
  | startHost hconnects hhost =>
    have hwaiting := hconnecting hhost hconnects
    exact ⟨⟨by simp [hscanners], by simpa using Nat.succ_le_of_lt hwaiting⟩, by simp, hsilent rfl⟩
  | startMember => exact ⟨⟨hscanners, hdistributors⟩, by simp, hsilent rfl⟩
  | receive receiveBytes =>
    have hsame : (client.p2pListener receiveBytes).scanners = client.scanners ∧
        (client.p2pListener receiveBytes).distributors = client.distributors ∧
        (client.p2pListener receiveBytes).epList = client.epList ∧
        (client.p2pListener receiveBytes).hostFlag = client.hostFlag ∧
        (client.p2pListener receiveBytes).connecting = client.connecting := by
      simp only [ThreadedClient.p2pListener]
      split_ifs <;> exact ⟨rfl, rfl, rfl, rfl, rfl⟩
    obtain ⟨hscan, hdistribute, hlist, hflag, hconnects⟩ := hsame
    refine ⟨?_, ?_, hsilent rfl⟩
    · rw [hscan, hdistribute, hlist]
      exact ⟨hscanners, hdistributors⟩
    · rw [hflag, hconnects, hdistribute, hlist]
      exact hconnecting
  | broadcast _ _ _ _ hstage hloop =>
    exact ⟨⟨by simpa using hscanners, by simpa using hdistributors⟩, by simpa using hconnecting,
      hbegun hdistributors hstage hloop⟩
  | broadcastChange _ _ _ _ hstage hloop =>
    exact ⟨⟨by simpa using hscanners, by simpa using hdistributors⟩, by simpa using hconnecting,
      hbegun (hscanners.le.trans hdistributors) hstage hloop⟩
  | scan _ _ _ _ _ _ hchange =>
    exact ⟨⟨by simpa using hscanners, by simpa using hdistributors⟩, by simpa using hconnecting,
      hsilent hchange.conserves.2.2.2.2.1⟩
  | memberScan _ _ _ _ _ _ hchange =>
    exact ⟨⟨hscanners, hdistributors⟩, hconnecting, hsilent hchange.conserves.2.2.2.2.1⟩
  | _ =>
    exact ⟨⟨by simpa using hscanners, by simpa using hdistributors⟩, by simpa using hconnecting,
      hsilent rfl⟩

/-- Every loop reaches the first position. -/
theorem Joined.passing_zero (hjoined : Joined history client) :
    passing 0 (begunLoops history) = [] := by
  have hfilter : (begunLoops history).filter (fun loop ↦ !decide (0 < loop.2)) = [] :=
    List.filter_eq_nil_iff.mpr fun loop hmem ↦ by simp [hjoined.loops loop hmem]
  rw [passing, hfilter]
  rfl

theorem joined_start : Joined [] {} := ⟨⟨rfl, le_rfl⟩, by simp, by simp [begunLoops]⟩

theorem joined_of_run (hrun : ThreadedRun history client) : Joined history client :=
  hrun.relation Joined joined_start fun _ _ _ _ _ _ hjoined hstep ↦
    hjoined.step (threadedStep_of_step hstep).2

/-- However many sessions a client opens, in whatever roles, and whatever the order of the steps of
its threads, no update is lost or duplicated. Those received were taken by the updater once, or are
on their way to it. The updates received as a host and the local changes were each sent once, to the
member connected first or to the host of the client, but for what is still to be sent; and beyond
them only empty datagrams were, by scanners that found the queue emptied. Every other member was
sent the same as the first but for the loops that began before it was connected. -/
theorem delivered_once (hrun : ThreadedRun history client) :
    (receivedIn history).Perm (takenIn history ++ client.forEditor) ∧
      (∃ blanks : ℕ, (sentIn 0 history ++ client.forPosition 0 ++
          client.forNetwork.map utf8GetBytes ++ sentToHostIn history).Perm
        ((receivedAsHost history ++ changedIn history ++
          List.replicate blanks []).map utf8GetBytes)) ∧
      ∀ position, (sentIn position history ++ client.forPosition position ++
          passing position (begunLoops history)).Perm
        (sentIn 0 history ++ client.forPosition 0) := by
  obtain ⟨-, hconserved⟩ := conserved_of_run hrun
  have hnone := (joined_of_run hrun).passing_zero
  have hall : (sentIn 0 history ++ client.forPosition 0).Perm
      ((begunLoops history).map fun loop ↦ utf8GetBytes loop.1) := by
    refine (hconserved.position 0).symm.trans ?_
    simpa [hnone] using perm_reaching_passing 0 (begunLoops history)
  refine ⟨hconserved.editor, ?_, fun position ↦ ?_⟩
  · obtain ⟨blanks, hnetwork⟩ := hconserved.network
    refine ⟨blanks, List.Perm.trans ?_ hnetwork.symm⟩
    simp only [List.map_append, List.map_map, Function.comp_def]
    exact (hall.append_right _).append_right _
  · refine List.Perm.trans ?_ hall.symm
    exact ((hconserved.position position).symm.append_right _).trans
      (perm_reaching_passing position _)

/-- The second member is connected after the first update, both scanners see the one local change,
and in the end the client becomes a member itself. -/
theorem delivered_once_run : ∃ history client, ThreadedRun history client ∧
    sentIn 0 history = [utf8GetBytes (str "+1"), [], utf8GetBytes (str "-2")] ∧
    sentIn 1 history = [[], utf8GetBytes (str "-2")] ∧
    sentToHostIn history = [utf8GetBytes (str "-4")] ∧
    (receivedIn history).Perm (takenIn history ++ client.forEditor) ∧
    (∃ blanks : ℕ, (sentIn 0 history ++ client.forPosition 0 ++
        client.forNetwork.map utf8GetBytes ++ sentToHostIn history).Perm
      ((receivedAsHost history ++ changedIn history ++
        List.replicate blanks []).map utf8GetBytes)) ∧
    (sentIn 1 history ++ client.forPosition 1 ++ passing 1 (begunLoops history)).Perm
      (sentIn 0 history ++ client.forPosition 0) := by
  obtain ⟨history, client, hrun, -, hcheck⟩ := exists_run_of_execute ThreadedClient.step {}
    (List.flatten
      [[.connectP2P .host ⟨0x7F000001, 4000⟩, .startSesstion, .receive (utf8GetBytes (str "+1"))],
      List.replicate 6 (.distribute 0),
      [.connectP2P .host ⟨0x0A000007, 4000⟩, .startSesstion, .addTextChange (str "-2"), .scan 0,
        .scan 1, .scan 0, .scan 0, .scan 1],
      List.replicate 4 (.scan 1), List.replicate 3 (.scan 0),
      [.connectP2P .member ⟨0x0A000009, 4000⟩, .startSesstion, .addTextChange (str "-4")],
      List.replicate 4 (.memberScan 0),
      [.receive (utf8GetBytes (str "+3")), .enqueue 0, .enqueue 0]])
    (fun history _ ↦
      sentIn 0 history = [utf8GetBytes (str "+1"), [], utf8GetBytes (str "-2")] &&
      sentIn 1 history = [[], utf8GetBytes (str "-2")] &&
      sentToHostIn history = [utf8GetBytes (str "-4")]) (by decide +kernel)
  simp only [Bool.and_eq_true, decide_eq_true_eq] at hcheck
  obtain ⟨⟨hfirst, hsecond⟩, hhost⟩ := hcheck
  obtain ⟨heditor, hnetwork, hposition⟩ := delivered_once hrun
  exact ⟨history, client, hrun, hfirst, hsecond, hhost, heditor, hnetwork, hposition 1⟩

end Runs

end NovaIde.Client
