import NovaIde.Client.SessionUpdates

/-!
# When two editors agree

Both texts take the same updates, those of the host's user and those of the member's, each in the
order they were made (`converged`). But the host's text takes an edit of its user at once and
broadcasts it later, and broadcasts an update of the member before it takes it, so that the order
in which it takes them need not be the order in which they are broadcast, and no offset is ever
adjusted: two insertions at the same place end up in different orders (`not_converged`). The texts
are equal when the two orders agree, and the orders agree as long as no edit of the host's user
waits to be broadcast while an update that was broadcast waits for the host's text
(`hostOrder_eq_broadcastOrder`).
-/

set_option autoImplicit false
set_option relaxedAutoImplicit false

namespace NovaIde.Client

open Foundation Foundation.EventRun

/-! ### The two orders -/

/-- The update in the hand of the distributor, if it was broadcast. -/
def Sender.delivered : Sender → List Text
  | .broadcasting updateTuple (_ + 1) => [updateTuple.update]
  | _ => []

/-- The edits of the host's user that are still to be broadcast. -/
def Session.unbroadcast (session : Session) : List Text :=
  session.host.scanner.unsent 0 ++ session.host.syncManager.textChangesQueue

/-- The updates that were broadcast and that the host's text is still to take. -/
def Session.untaken (session : Session) : List Text :=
  session.hostClient.pending.toList.map PendingUpdate.message ++
    session.host.syncManager.textUpdateQueue ++ session.host.distributor.delivered

/-- No edit of the host's user waits to be broadcast while an update waits for the host's text. -/
def Session.OneSided (session : Session) : Prop :=
  session.unbroadcast = [] ∨ session.untaken = []

instance (session : Session) : Decidable session.OneSided := inferInstanceAs (Decidable (_ ∨ _))

/-- The two orders, each with what it still lacks. -/
def OrdersAgree (log : SessionOutput) (session : Session) : Prop :=
  log.broadcast ++ session.unbroadcast = log.hostTook ++ session.untaken

section Orders

variable {start : Text} {log output : SessionOutput} {session session' : Session}

theorem syncManager_addTextChanges (manager : SynchronizationManager) (updates : List Text) :
    manager.addTextChanges updates =
      { manager with textChangesQueue := manager.textChangesQueue ++ updates } := by
  induction updates generalizing manager with
  | nil => simp [SynchronizationManager.addTextChanges]
  | cons update rest ih =>
    have hrest := ih (manager.addTextChange update)
    simpa [SynchronizationManager.addTextChanges, SynchronizationManager.addTextChange] using hrest

/-- What the host's user makes is still to be broadcast, and takes nothing from what is untaken. -/
theorem orders_hostAct (hagree : OrdersAgree log session) (honesided : session'.OneSided)
    {action : UserAction} (hstep : session.step (.hostAct action) = some (session', output)) :
    OrdersAgree (log.append output) session' := by
  simp only [Session.step] at hstep
  split_ifs at hstep
  cases hstep
  simp only [OrdersAgree, Session.OneSided, Session.unbroadcast, Session.untaken,
    Session.setHostClient, syncManager_addTextChanges, SessionOutput.append, List.append_nil]
    at hagree honesided ⊢
  generalize announcedSince session.hostClient _ = made at honesided ⊢
  rcases honesided with hnone | hnone
  · obtain rfl : made = [] := by simp_all
    simpa using hagree
  · rw [hnone] at hagree ⊢
    simp [← List.append_assoc, hagree]

/-- An update read from the queue is still to be taken. -/
theorem orders_hostReceive (hinvariant : SessionInvariant start log session)
    (hagree : OrdersAgree log session) {prevCursosrPosition : ℕ}
    (hstep : session.step (.hostReceive prevCursosrPosition) = some (session', output)) :
    OrdersAgree (log.append output) session' := by
  obtain ⟨traffic, memberTaken, htraffic, -, -⟩ := hinvariant
  obtain ⟨⟨client, _⟩, hclient, hafter⟩ := Option.map_eq_some_iff.mp hstep
  cases hafter
  obtain ⟨hne, hidle, rfl⟩ := step_receiveUpdate hclient
  cases hqueue : session.host.syncManager.textUpdateQueue with
  | nil => simp [hqueue] at hne
  | cons update rest =>
    have hplain : PlainUpdate update := by
      refine (htraffic.plain_received ?_).1
      rw [htraffic.accounted.received, hqueue]
      simp
    obtain ⟨pending, hrun, hmessage, -, -⟩ :=
      hplain.receive prevCursosrPosition session.hostClient.ide
    simpa [OrdersAgree, Session.unbroadcast, Session.untaken, SynchronizationManager.getLastUpdate,
      ClientState.afterThread, hrun, hqueue, hidle, hmessage] using hagree

/-- The dispatcher applies the pending update or leaves it pending. -/
theorem pending_of_apply {client client' : ClientState}
    (hstep : client.step .applyUpdate = some (client', ())) :
    client'.pending = none ∨ client'.pending = client.pending := by
  obtain ⟨update, -, rfl⟩ := step_applyUpdate hstep
  cases (dispatchUpdate update).run client.ide with
  | ok result ide => exact Or.inl rfl
  | error fault ide => exact Or.inr rfl

/-- An update that is applied is taken; one that throws stays to be taken. -/
theorem orders_hostApply (hinvariant : SessionInvariant start log session)
    (hagree : OrdersAgree log session)
    (hstep : session.step .hostApply = some (session', output)) :
    OrdersAgree (log.append output) session' := by
  obtain ⟨traffic, memberTaken, -, hhost, -⟩ := hinvariant
  obtain ⟨⟨client, _⟩, hclient, hafter⟩ := Option.map_eq_some_iff.mp hstep
  cases hafter
  obtain ⟨-, hsilent⟩ := hhost.apply hclient
  have hpending : session.hostClient.pending.toList.map PendingUpdate.message =
      appliedBy session.hostClient client ++
        client.pending.toList.map PendingUpdate.message := by
    rcases pending_of_apply hclient with hnone | hkept
    · simp [appliedBy, hnone]
    · cases hsame : session.hostClient.pending <;> simp [appliedBy, hkept, hsame]
  rw [setHostClient_of_silent hsilent, hsilent]
  simp only [OrdersAgree, Session.unbroadcast, Session.untaken, hpending, SessionOutput.append,
    List.append_nil] at hagree ⊢
  simpa using hagree

/-- An update of the member that is broadcast is still to be taken, and no edit of the host's user
waits to be broadcast after it. -/
theorem orders_distribute (hinvariant : SessionInvariant start log session)
    (hagree : OrdersAgree log session) (honesided : session'.OneSided)
    (hstep : session.step .distribute = some (session', output)) :
    OrdersAgree (log.append output) session' := by
  obtain ⟨traffic, memberTaken, htraffic, -, -⟩ := hinvariant
  obtain ⟨⟨host, sent⟩, hhoststep, hafter⟩ := Option.map_eq_some_iff.mp hstep
  have hhand := htraffic.accounted.forIDE_hand
  have hreceived := htraffic.accounted.received
  cases distributeStep_of_step hhoststep with
  | take hdistributor hdelivery =>
    cases hafter
    simpa [OrdersAgree, Session.unbroadcast, Session.untaken, Sender.delivered, hdistributor]
      using hagree
  | @send updateTuple next hdistributor hnext =>
    obtain rfl := Nat.lt_one_iff.mp hnext
    cases hafter
    have hascii : asciiGetString (utf8GetBytes updateTuple.update) = updateTuple.update := by
      refine asciiGetString_utf8GetBytes (htraffic.plain_received ?_).2
      rw [hreceived, hdistributor]
      simp [Sender.inHand]
    simp only [OrdersAgree, Session.OneSided, Session.unbroadcast, Session.untaken,
      Sender.delivered, hdistributor, SessionOutput.append, hascii, List.append_nil]
      at hagree honesided ⊢
    rcases honesided with hempty | hnone
    · rw [hempty, List.append_nil] at hagree
      simp [hempty, hagree]
    · simp at hnone
  | @finish updateTuple next hdistributor hnext =>
    cases hafter
    have hforIDE := hhand updateTuple next hdistributor
    obtain ⟨sent, rfl⟩ := Nat.exists_eq_succ_of_ne_zero (mt Nat.lt_one_iff.mpr hnext)
    simpa [OrdersAgree, Session.unbroadcast, Session.untaken, Sender.delivered, hdistributor,
      HostState.enqueueForIDEUpdate, hforIDE, SynchronizationManager.addIDEUpdate] using hagree

/-- An edit of the host's user that is broadcast was the next one to be broadcast. -/
theorem orders_scan (hinvariant : SessionInvariant start log session)
    (hagree : OrdersAgree log session)
    (hstep : session.step .scan = some (session', output)) :
    OrdersAgree (log.append output) session' := by
  obtain ⟨traffic, memberTaken, htraffic, -, -⟩ := hinvariant
  obtain ⟨⟨host, sent⟩, hhoststep, hafter⟩ := Option.map_eq_some_iff.mp hstep
  obtain ⟨-, fromHost, -, hmade, -⟩ := htraffic.broadcast_merged
  cases scanStep_of_step hhoststep with
  | take hscanner hchanges =>
    cases hafter
    simpa [OrdersAgree, Session.unbroadcast, Session.untaken, Sender.unsent, hscanner, hchanges]
      using hagree
  | @send updateTuple next hscanner hnext =>
    obtain rfl := Nat.lt_one_iff.mp hnext
    cases hafter
    have hascii : asciiGetString (utf8GetBytes updateTuple.update) = updateTuple.update := by
      refine asciiGetString_utf8GetBytes (htraffic.plain _ (List.mem_append_left _ ?_)).2
      rw [hmade, hscanner]
      simp [Sender.unsent]
    simpa [OrdersAgree, Session.unbroadcast, Session.untaken, SessionOutput.append,
      Sender.unsent, hscanner, hascii] using hagree
  | @finish updateTuple next hscanner hnext =>
    cases hafter
    have hsent : next ≠ 0 := mt Nat.lt_one_iff.mpr hnext
    simpa [OrdersAgree, Session.unbroadcast, Session.untaken, Sender.unsent, hscanner, hsent]
      using hagree

theorem p2pListener_frame (host : HostState) (receiveBytes : Datagram) :
    (host.p2pListener receiveBytes).syncManager = host.syncManager ∧
      (host.p2pListener receiveBytes).distributor = host.distributor ∧
        (host.p2pListener receiveBytes).scanner = host.scanner := by
  simp only [HostState.p2pListener]
  split_ifs <;> exact ⟨rfl, rfl, rfl⟩

/-- What the threads that move updates neither to nor from the host's text do changes nothing. -/
theorem OrdersAgree.frame (hagree : OrdersAgree log session)
    (hclient : session'.hostClient = session.hostClient)
    (hmanager : session'.host.syncManager = session.host.syncManager)
    (hdistributor : session'.host.distributor = session.host.distributor)
    (hscanner : session'.host.scanner = session.host.scanner)
    (hbroadcast : output.broadcast = []) (htook : output.hostTook = []) :
    OrdersAgree (log.append output) session' := by
  simpa only [OrdersAgree, Session.unbroadcast, Session.untaken, SessionOutput.append, hclient,
    hmanager, hdistributor, hscanner, hbroadcast, htook, List.append_nil] using hagree

/-- Every step keeps the orders in agreement, as long as the session stays one-sided. -/
theorem OrdersAgree.step (hagree : OrdersAgree log session)
    (hinvariant : SessionInvariant start log session) (honesided : session'.OneSided)
    {event : SessionEvent} (hstep : session.step event = some (session', output)) :
    OrdersAgree (log.append output) session' := by
  cases event with
  | hostAct action => exact orders_hostAct hagree honesided hstep
  | distribute => exact orders_distribute hinvariant hagree honesided hstep
  | scan => exact orders_scan hinvariant hagree hstep
  | hostReceive prevCursosrPosition => exact orders_hostReceive hinvariant hagree hstep
  | hostApply => exact orders_hostApply hinvariant hagree hstep
  | hostListen =>
    simp only [Session.step] at hstep
    split at hstep
    · next data rest _ =>
      cases hstep
      obtain ⟨hmanager, hdistributor, hscanner⟩ := p2pListener_frame session.host data
      exact hagree.frame rfl hmanager hdistributor hscanner rfl rfl
    · cases hstep
  | memberAct action =>
    simp only [Session.step] at hstep
    split_ifs at hstep
    cases hstep
    exact hagree.frame rfl rfl rfl rfl rfl rfl
  | memberListen =>
    simp only [Session.step] at hstep
    split at hstep
    · cases hstep
      exact hagree.frame rfl rfl rfl rfl rfl rfl
    · cases hstep
  | memberForward | memberScan | memberReceive prevCursosrPosition | memberApply =>
    obtain ⟨_, -, hafter⟩ := Option.map_eq_some_iff.mp hstep
    cases hafter
    exact hagree.frame rfl rfl rfl rfl rfl rfl

end Orders

/-! ### At rest -/

section Quiescent

variable {text : Text} {history : List SessionRecord} {session : Session}

/-- When nothing is left to do, the two orders lack nothing. -/
theorem Session.Quiescent.orders (hquiescent : session.Quiescent) :
    session.unbroadcast = [] ∧ session.untaken = [] := by
  simp [Session.unbroadcast, Session.untaken, hquiescent.host, hquiescent.hostPending,
    Sender.unsent, Sender.delivered]

/-- In a session that stays one-sided the host's text takes the updates in the order in which they
are broadcast. -/
theorem hostOrder_eq_broadcastOrder (hrun : SessionRun text history session)
    (hascii : EveryStep (fun _ ↦ TypesAscii) history)
    (honesided : EveryStep (fun _ record ↦ record.after.OneSided) history)
    (hquiescent : session.Quiescent) : hostOrder history = broadcastOrder history := by
  have hboth : SessionInvariant text (sessionLog history) session ∧
      OrdersAgree (sessionLog history) session := by
    refine hrun.relation_of_everyStep
      (fun history session ↦ SessionInvariant text (sessionLog history) session ∧
        OrdersAgree (sessionLog history) session)
      ⟨sessionInvariant_start text, rfl⟩ ?_ (hascii.and honesided)
    rintro history session event session' output - ⟨hinvariant, hagree⟩ ⟨hascii, honesided⟩ hstep
    rw [sessionLog_snoc]
    exact ⟨hinvariant.step hascii hstep, hagree.step hinvariant honesided hstep⟩
  obtain ⟨hunbroadcast, huntaken⟩ := hquiescent.orders
  simpa [OrdersAgree, hunbroadcast, huntaken, sessionLog] using hboth.2.symm

/-- An editor with nothing pending has taken every update that reached it, and its text is what they
make of the text at the start. -/
theorem EditorInvariant.at_rest {taken own log : List Text} {client : ClientState}
    (hinvariant : EditorInvariant text taken own log client) (hpending : client.pending = none) :
    Interleaving taken own log ∧ client.ide.text = textAfterUpdates log text := by
  obtain ⟨hstopped, ⟨applied, htaken, hmerged⟩, -, -, htext⟩ := hinvariant
  have hrunning : client.running = true := hstopped.resolve_right (not_not.mpr hpending)
  obtain rfl : taken = applied := by simpa [hpending] using htaken
  exact ⟨hmerged, htext hrunning⟩

/-- Convergence. Once nothing is left to do, each text is what the updates make of the text at the
start in the order in which it took them: both take the updates of the member's user and of the
host's user, each in the order they were made, and the member takes them in the order in which they
were broadcast. The texts are equal when the host took them in that order too, as it does in a
session that stays one-sided. -/
theorem converged (hrun : SessionRun text history session)
    (hascii : EveryStep (fun _ ↦ TypesAscii) history) (hquiescent : session.Quiescent) :
    Interleaving (memberChanges history) (hostChanges history) (hostOrder history) ∧
      Interleaving (memberChanges history) (hostChanges history) (memberOrder history) ∧
      memberOrder history = broadcastOrder history ∧
      session.hostClient.ide.text = textAfterUpdates (hostOrder history) text ∧
      session.memberClient.ide.text = textAfterUpdates (memberOrder history) text ∧
      (EveryStep (fun _ record ↦ record.after.OneSided) history →
        hostOrder history = broadcastOrder history) ∧
      (hostOrder history = broadcastOrder history →
        session.hostClient.ide.text = session.memberClient.ide.text) := by
  obtain ⟨traffic, memberTaken, htraffic, hhost, hmember⟩ := sessionInvariant_of_run hrun hascii
  obtain ⟨fromMembers, fromHost, hreceived, hmade, hmerged⟩ := htraffic.broadcast_merged
  obtain ⟨hhostMerged, hhostText⟩ := hhost.at_rest hquiescent.hostPending
  obtain ⟨hmemberMerged, hmemberText⟩ := hmember.at_rest hquiescent.memberPending
  -- every update the member made was received by the host, and taken there
  have hsent : memberChanges history = traffic.received := by
    simpa [hquiescent.toHost, hquiescent.member, sessionLog] using htraffic.toHost
  have htaken : traffic.taken = memberChanges history := by
    rw [hsent, htraffic.accounted.received]
    simp [hquiescent.host, Sender.inHand]
  -- every update of either side was broadcast, and taken by the member
  have hfromMembers : fromMembers = memberChanges history := by
    rw [hsent, hreceived]
    simp [hquiescent.host, Sender.unsent]
  have hfromHost : fromHost = hostChanges history := by
    simpa [hquiescent.host, Sender.unsent, sessionLog] using hmade.symm
  have hmemberTaken : memberTaken = broadcastOrder history := by
    simpa [hquiescent.member, hquiescent.toMember, sessionLog] using htraffic.toMember.symm
  have hmemberOrder : memberOrder history = broadcastOrder history :=
    hmemberMerged.eq_left.trans hmemberTaken
  rw [htaken] at hhostMerged
  rw [hfromMembers, hfromHost] at hmerged
  refine ⟨hhostMerged, hmemberOrder ▸ hmerged, hmemberOrder, hhostText, hmemberText,
    fun honesided ↦ hostOrder_eq_broadcastOrder hrun hascii honesided hquiescent, fun hsame ↦ ?_⟩
  rw [hhostText, hmemberText]
  exact congrArg (textAfterUpdates · text) (hsame.trans hmemberOrder.symm)

end Quiescent

/-- The host's user types "a", and once it has arrived the member's user types "b" after it. -/
theorem converged_session : ∃ history session, SessionRun [] history session ∧
    session.Quiescent ∧ session.hostClient.ide.text = str "ab" ∧
      session.hostClient.ide.text = session.memberClient.ide.text := by
  obtain ⟨history, session, hrun, -, hcheck⟩ := exists_run_of_execute Session.step (.start [])
    [.hostAct (.makeEdit ⟨0, 0, str "a"⟩), .scan, .scan, .scan, .memberListen, .memberForward,
      .memberForward, .memberReceive 0, .memberApply, .memberAct (.placeCaret 1),
      .memberAct (.makeEdit ⟨1, 0, str "b"⟩), .memberScan, .memberScan, .hostListen, .distribute,
      .distribute, .distribute, .memberListen, .memberForward, .memberForward, .memberReceive 0,
      .memberApply, .hostReceive 0, .hostApply]
    (fun history session ↦ decide (∀ record ∈ history, TypesAscii record) &&
      decide (∀ record ∈ history, record.after.OneSided) && decide session.Quiescent &&
        session.hostClient.ide.text = str "ab")
    (by decide +kernel)
  simp only [Bool.and_eq_true, decide_eq_true_eq] at hcheck
  obtain ⟨⟨⟨hascii, honesided⟩, hquiescent⟩, htext⟩ := hcheck
  obtain ⟨-, -, -, -, -, hordered, hequal⟩ :=
    converged hrun (everyStep_iff_forall_mem.mpr hascii) hquiescent
  exact ⟨history, session, hrun, hquiescent, htext,
    hequal (hordered (everyStep_iff_forall_mem.mpr honesided))⟩

/-- The host's user types "a" and the member's user types "b" in an empty text: nothing is left to
do, and one text is "ba", the other "ab". -/
theorem not_converged : ¬ ∀ text history session, SessionRun text history session →
    EveryStep (fun _ ↦ TypesAscii) history → session.Quiescent →
      session.hostClient.ide.text = session.memberClient.ide.text := by
  intro hconverged
  obtain ⟨history, session, hrun, -, hcheck⟩ := exists_run_of_execute Session.step (.start [])
    [.hostAct (.makeEdit ⟨0, 0, str "a"⟩), .memberAct (.makeEdit ⟨0, 0, str "b"⟩), .memberScan,
      .memberScan, .hostListen, .distribute, .distribute, .scan, .scan, .scan, .distribute,
      .hostReceive 0, .hostApply, .memberListen, .memberListen, .memberForward, .memberForward,
      .memberForward, .memberForward, .memberReceive 0, .memberApply, .memberReceive 0,
      .memberApply]
    (fun history session ↦ decide (∀ record ∈ history, TypesAscii record) &&
      decide session.Quiescent && session.hostClient.ide.text = str "ba" &&
        session.memberClient.ide.text = str "ab")
    (by decide +kernel)
  simp only [Bool.and_eq_true, decide_eq_true_eq] at hcheck
  obtain ⟨⟨⟨hascii, hquiescent⟩, hhost⟩, hmember⟩ := hcheck
  have hequal := hconverged [] history session hrun (everyStep_iff_forall_mem.mpr hascii) hquiescent
  rw [hhost, hmember] at hequal
  exact absurd hequal (by decide)

end NovaIde.Client
