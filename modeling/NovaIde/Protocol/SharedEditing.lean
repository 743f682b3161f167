import NovaIde.Client.Convergence
import NovaIde.Protocol.ChangeOrder

/-!
# Editors in a session

The clients of a session with the text boxes that their users edit: an edit is announced to the
threads, which send it to the host or to the members, and the updater of each editor takes updates
and applies them to its text. A host's text takes an edit of its user at once, a member's user has
it undone.

With one member the texts agree where host and member take the updates in one order. Here there is
any number of members, with several threads on each queue and a network that reorders, and nothing
keeps updates in order. When the users take turns, so that nobody makes an edit before everything
made so far has reached everybody, there is at most one update that an editor lacks (`Follows`), and
at rest all texts are what the edits, in the order in which they were made, make of the text at the
start (`turns_converge`).
-/

set_option autoImplicit false
set_option relaxedAutoImplicit false

namespace NovaIde.Protocol

open Foundation Foundation.EventRun Client

/-! ### The session -/

/-- The clients of a session with their editors. -/
structure SharedSession where
  network : UpdateNetwork := {}
  editors : IPEndPoint → ClientState

/-- The start of a session on a text. -/
def SharedSession.start (host : IPEndPoint) (text : Text) : SharedSession where
  editors := fun address ↦
    { ide := { text, sessionStarted := true, hosting := address = host } }

/-- What happens in a session. -/
inductive SharedEvent
  /-- a user does something -/
  | edit (address : IPEndPoint) (action : UserAction)
  /-- threads and network, but for what the editors do -/
  | network (event : NetworkEvent)
  /-- the updater in `GetLastUpdate`, and with an update up to the dispatcher -/
  | receive (address : IPEndPoint) (prevCursosrPosition : ℕ)
  /-- the dispatcher applies the update -/
  | apply (address : IPEndPoint)
deriving DecidableEq, Repr

/-- What a step shows: the steps of the network it consists of, and the updates that the text of its
client took. -/
structure SharedOutput where
  steps : List NetworkRecord := []
  took : List Text := []

/-- `AddTextChange` for each of several updates, with the steps of the network. -/
def UpdateNetwork.announce (address : IPEndPoint) :
    UpdateNetwork → List Text → Option (UpdateNetwork × List NetworkRecord)
  | network, [] => some (network, [])
  | network, message :: rest => do
    let event := NetworkEvent.act address (.addTextChange message)
    let (next, output) ← network.step event
    let (last, steps) ← next.announce address rest
    return (last, ⟨network, event, output, next⟩ :: steps)

/-- What a user does: a member has an edit undone at once. -/
def actAs (host address : IPEndPoint) (ide : Ide) (action : UserAction) : Ide :=
  if address = host then ide.act action else ide.actAsMember action

/-- One step of a session. -/
def SharedSession.step (host : IPEndPoint) (session : SharedSession) :
    SharedEvent → Option (SharedSession × SharedOutput)
  | .edit address action =>
    let before := session.editors address
    if before.running = true ∧ before.ide.Admits action then do
      let client := { before with ide := actAs host address before.ide action }
      let made := announcedSince before client
      let (network, steps) ← session.network.announce address made
      return ({ network, editors := Function.update session.editors address client },
        { steps, took := tookOwn host address made })
    else none
  | .network event =>
    if ofEditor event then none
    else do
      let (network, output) ← session.network.step event
      return ({ session with network }, { steps := [⟨session.network, event, output, network⟩] })
  | .receive address prevCursosrPosition =>
    if (session.editors address).pending = none then do
      let event := NetworkEvent.act address .getLastUpdate
      let (network, output) ← session.network.step event
      let steps : List NetworkRecord := [⟨session.network, event, output, network⟩]
      match output.taken with
      | [] => return ({ session with network }, { steps })
      | update :: _ =>
        let (client, _) ← (session.editors address).step (.receiveUpdate update prevCursosrPosition)
        return ({ network, editors := Function.update session.editors address client }, { steps })
    else none
  | .apply address => do
    let before := session.editors address
    let (client, _) ← before.step .applyUpdate
    let made := announcedSince before client
    let (network, steps) ← session.network.announce address made
    return ({ network, editors := Function.update session.editors address client },
      { steps, took := appliedBy before client ++ tookOwn host address made })

/-- The steps of a run of a session. -/
abbrev SharedRecord := StepRecord SharedSession SharedEvent SharedOutput

/-- The steps of the network in a run. -/
def networkSteps (history : List SharedRecord) : List NetworkRecord :=
  history.flatMap fun record ↦ record.observation.steps

/-- Whose text takes updates in a step. -/
def SharedEvent.editor : SharedEvent → Option IPEndPoint
  | .edit address _ | .apply address => some address
  | _ => none

/-- The updates in the order in which the text of a client took them. -/
def tookOrder (address : IPEndPoint) (history : List SharedRecord) : List Text :=
  history.flatMap fun record ↦
    if record.event.editor = some address then record.observation.took else []

/-! ### What a step can do -/

/-- The ways a session takes a step. -/
inductive EditingStep (host : IPEndPoint) (session : SharedSession) :
    SharedEvent → SharedSession → SharedOutput → Prop
  | edit (address : IPEndPoint) (action : UserAction) (client : ClientState)
      (network : UpdateNetwork) (steps : List NetworkRecord)
      (hrunning : (session.editors address).running = true)
      (hadmits : (session.editors address).ide.Admits action)
      (hclient : client = { session.editors address with
        ide := actAs host address (session.editors address).ide action })
      (hannounce : session.network.announce address
        (announcedSince (session.editors address) client) = some (network, steps)) :
      EditingStep host session (.edit address action)
        { network, editors := Function.update session.editors address client }
        { steps
          took := tookOwn host address (announcedSince (session.editors address) client) }
  | network (event : NetworkEvent) (network : UpdateNetwork) (output : ThreadedOutput)
      (hevent : ofEditor event = false)
      (hnetwork : session.network.step event = some (network, output)) :
      EditingStep host session (.network event) { session with network }
        { steps := [⟨session.network, event, output, network⟩] }
  | look (address : IPEndPoint) (prevCursosrPosition : ℕ) (network : UpdateNetwork)
      (output : ThreadedOutput)
      (hnetwork : session.network.step (.act address .getLastUpdate) = some (network, output))
      (htaken : output.taken = []) :
      EditingStep host session (.receive address prevCursosrPosition) { session with network }
        { steps := [⟨session.network, .act address .getLastUpdate, output, network⟩] }
  | take (address : IPEndPoint) (prevCursosrPosition : ℕ) (network : UpdateNetwork)
      (output : ThreadedOutput) (update : Text) (client : ClientState)
      (hnetwork : session.network.step (.act address .getLastUpdate) = some (network, output))
      (htaken : output.taken = [update])
      (hclient : (session.editors address).step (.receiveUpdate update prevCursosrPosition) =
        some (client, ())) :
      EditingStep host session (.receive address prevCursosrPosition)
        { network, editors := Function.update session.editors address client }
        { steps := [⟨session.network, .act address .getLastUpdate, output, network⟩] }
  | apply (address : IPEndPoint) (client : ClientState) (network : UpdateNetwork)
      (steps : List NetworkRecord)
      (hclient : (session.editors address).step .applyUpdate = some (client, ()))
      (hannounce : session.network.announce address
        (announcedSince (session.editors address) client) = some (network, steps)) :
      EditingStep host session (.apply address)
        { network, editors := Function.update session.editors address client }
        { steps
          took := appliedBy (session.editors address) client ++
            tookOwn host address (announcedSince (session.editors address) client) }

section Steps

variable {host address : IPEndPoint} {text : Text} {session next : SharedSession}
  {event : SharedEvent} {output : SharedOutput} {history : List SharedRecord}
  {steps : List NetworkRecord} {network last : UpdateNetwork}

/-- At most one update is taken at a time. -/
theorem taken_singleton {output : ThreadedOutput} {update : Text} {rest : List Text}
    (htaken : output.taken = update :: rest) : output.taken = [update] := by
  cases output with
  | host shown =>
    cases shown with
    | answered answer =>
      simp only [ThreadedOutput.taken] at htaken ⊢
      split_ifs at htaken ⊢ with hanswer
      cases htaken
      rfl
    | _ => cases htaken
  | _ => cases htaken

/-- Every step is one of these. -/
theorem editingStep_of_step (hstep : session.step host event = some (next, output)) :
    EditingStep host session event next output := by
  cases event with
  | edit address action =>
    simp only [SharedSession.step] at hstep
    split_ifs at hstep with hallowed
    simp only [Option.bind_eq_bind, Option.bind_eq_some_iff, Option.pure_def,
      Option.some.injEq] at hstep
    obtain ⟨⟨network, steps⟩, hannounce, hpair⟩ := hstep
    cases hpair
    exact .edit address action _ network steps hallowed.1 hallowed.2 rfl hannounce
  | network event =>
    simp only [SharedSession.step] at hstep
    split_ifs at hstep with hevent
    simp only [Option.bind_eq_bind, Option.bind_eq_some_iff, Option.pure_def,
      Option.some.injEq] at hstep
    obtain ⟨⟨network, shown⟩, hnetwork, hpair⟩ := hstep
    cases hpair
    exact .network event network shown (by simpa using hevent) hnetwork
  | receive address prevCursosrPosition =>
    simp only [SharedSession.step] at hstep
    split_ifs at hstep with hpending
    simp only [Option.bind_eq_bind, Option.bind_eq_some_iff, Option.pure_def] at hstep
    obtain ⟨⟨network, shown⟩, hnetwork, hstep⟩ := hstep
    dsimp only at hstep
    split at hstep
    · next htaken =>
      cases hstep
      exact .look address prevCursosrPosition network shown hnetwork htaken
    · next update rest htaken =>
      simp only [Option.bind_eq_some_iff] at hstep
      obtain ⟨⟨client, _⟩, hclient, hpair⟩ := hstep
      cases hpair
      exact .take address prevCursosrPosition network shown update client hnetwork
        (taken_singleton htaken) hclient
  | apply address =>
    simp only [SharedSession.step, Option.bind_eq_bind, Option.bind_eq_some_iff, Option.pure_def,
      Option.some.injEq] at hstep
    obtain ⟨⟨client, _⟩, hclient, ⟨network, steps⟩, hannounce, hpair⟩ := hstep
    cases hpair
    exact .apply address client network steps hclient hannounce

end Steps

/-! ### Announcements -/

section Announcements

variable {address : IPEndPoint} {network next : UpdateNetwork}

/-- `AddTextChange` for no update takes no step. -/
theorem announce_nil {steps : List NetworkRecord}
    (hannounce : network.announce address [] = some (next, steps)) :
    next = network ∧ steps = [] := by
  cases hannounce
  exact ⟨rfl, rfl⟩

/-- `AddTextChange` for one update is one step of the client. -/
theorem announce_singleton {steps : List NetworkRecord} {message : Text}
    (hannounce : network.announce address [message] = some (next, steps)) :
    ∃ output, network.step (.act address (.addTextChange message)) = some (next, output) ∧
      output.taken = [] ∧
        steps = [⟨network, .act address (.addTextChange message), output, next⟩] := by
  simp only [UpdateNetwork.announce, Option.bind_eq_bind, Option.bind_eq_some_iff, Option.pure_def,
    Option.some.injEq] at hannounce
  obtain ⟨⟨network', output⟩, hstep, ⟨last, rest⟩, hlast, hpair⟩ := hannounce
  cases hlast
  cases hpair
  refine ⟨output, hstep, ?_, rfl⟩
  cases networkStep_of_step hstep with
  | act _ _ _ _ _ hclient =>
    cases (threadedStep_of_step hclient).2
    rfl

end Announcements

/-! ### Taking turns -/

/-- The text that a user types. -/
def typedIn : SharedEvent → Text
  | .edit _ (.makeEdit edit) => edit.added
  | _ => []

/-- The edit that a user makes in a step. -/
def editIn (record : SharedRecord) : Option Edit :=
  match record.event with
  | .edit address action => (record.before.editors address).ide.editOf action
  | _ => none

/-- Everything that was made has reached everybody: nothing is on its way, and no editor has an
update to apply. -/
structure Settled (clients : List IPEndPoint) (session : SharedSession) : Prop where
  network : AtRest clients session.network
  pending : ∀ client ∈ clients, (session.editors client).pending = none

instance (clients : List IPEndPoint) (session : SharedSession) :
    Decidable (Settled clients session) :=
  decidable_of_iff (AtRest clients session.network ∧
    ∀ client ∈ clients, (session.editors client).pending = none)
    ⟨fun ⟨hnetwork, hpending⟩ ↦ ⟨hnetwork, hpending⟩,
      fun ⟨hnetwork, hpending⟩ ↦ ⟨hnetwork, hpending⟩⟩

/-- The step is one of a host and its members in which nothing is lost, no member is connected that
was connected before or after a change was made, and a user makes an edit, in ASCII, only when all
edits have reached everybody. -/
structure TakesTurns (host : IPEndPoint) (members : List IPEndPoint) (earlier : List SharedRecord)
    (record : SharedRecord) : Prop where
  session : KeepsToSession host members record.observation.steps
  lost : lostIn record.observation.steps = []
  connects : ∀ step ∈ record.observation.steps, ∀ endpoint ∈ joinedBy host step.event,
    endpoint ∉ (step.before.clients host).epList ∧ changeOrder (networkSteps earlier) = []
  ascii : IsAscii (typedIn record.event)
  turn : editIn record ≠ none → Settled (host :: members) record.before

instance (host : IPEndPoint) (members : List IPEndPoint) (earlier : List SharedRecord)
    (record : SharedRecord) : Decidable (TakesTurns host members earlier record) :=
  haveI : Decidable (KeepsToSession host members record.observation.steps) :=
    inferInstanceAs (Decidable (∀ step ∈ record.observation.steps, _))
  decidable_of_iff (KeepsToSession host members record.observation.steps ∧
    lostIn record.observation.steps = [] ∧
    (∀ step ∈ record.observation.steps, ∀ endpoint ∈ joinedBy host step.event,
      endpoint ∉ (step.before.clients host).epList ∧ changeOrder (networkSteps earlier) = []) ∧
    IsAscii (typedIn record.event) ∧
      (editIn record ≠ none → Settled (host :: members) record.before))
    ⟨fun ⟨hsession, hlost, hconnects, hascii, hturn⟩ ↦
        ⟨hsession, hlost, hconnects, hascii, hturn⟩,
      fun ⟨hsession, hlost, hconnects, hascii, hturn⟩ ↦
        ⟨hsession, hlost, hconnects, hascii, hturn⟩⟩

/-- What holds in a session whose users take turns: every text took what it was to take, and lacks
at most the last change. -/
structure EditingInvariant (host : IPEndPoint) (members : List IPEndPoint) (text : Text)
    (history : List SharedRecord) (session : SharedSession) : Prop where
  network : NetworkInvariant host members (networkSteps history) session.network
  plain : ∀ update ∈ changeOrder (networkSteps history), PlainUpdate update ∧ IsAscii update
  editors : ∀ address,
    EditorInvariant text (takenIn (stepsOf address (networkSteps history)))
      (tookOwn host address (changedIn (stepsOf address (networkSteps history))))
      (tookOrder address history) (session.editors address)
  follows : ∀ address ∈ host :: (session.network.clients host).epList,
    Follows (tookOrder address history) (changeOrder (networkSteps history))

section Turns

variable {host address : IPEndPoint} {members : List IPEndPoint} {text : Text}
  {history : List SharedRecord} {session next : SharedSession} {event : SharedEvent}
  {output : SharedOutput}

theorem networkSteps_snoc (history : List SharedRecord) (record : SharedRecord) :
    networkSteps (history ++ [record]) = networkSteps history ++ record.observation.steps := by
  simp [networkSteps]

theorem tookOrder_snoc (address : IPEndPoint) (history : List SharedRecord)
    (record : SharedRecord) :
    tookOrder address (history ++ [record]) = tookOrder address history ++
      if record.event.editor = some address then record.observation.took else [] := by
  simp [tookOrder]

/-- Only edits and updates that are applied change a text. -/
theorem tookOrder_of_quiet {record : SharedRecord} (hquiet : record.event.editor = none) :
    tookOrder address (history ++ [record]) = tookOrder address history := by
  simp [tookOrder_snoc, hquiet]

/-- What a text took is part of what it was to take, and all of it when nothing is pending. -/
theorem took_of_editor {taken own log : List Text} {client : ClientState}
    (heditor : EditorInvariant text taken own log client) :
    log.Subperm (taken ++ own) ∧ (client.pending = none → log.Perm (taken ++ own)) := by
  refine ⟨?_, fun hpending ↦ (heditor.at_rest hpending).1.perm⟩
  obtain ⟨applied, rfl, hmerged⟩ := heditor.merge
  refine hmerged.perm.subperm.trans ((List.subperm_append_right own).mpr ?_)
  exact (List.sublist_append_left _ _).subperm

/-- No text took anything but the changes that were made, each once. -/
theorem EditingInvariant.took_subperm
    (hinvariant : EditingInvariant host members text history session)
    (hnodup : (host :: members).Nodup) (haddress : address ∈ host :: members) :
    (tookOrder address history).Subperm (changeOrder (networkSteps history)) :=
  (took_of_editor (hinvariant.editors address)).1.trans
    (hinvariant.network.handed_subperm hnodup hinvariant.plain haddress)

/-- When everything has reached everybody, the texts took the changes in the order in which they
were made. -/
theorem EditingInvariant.order (hinvariant : EditingInvariant host members text history session)
    (hnodup : (host :: members).Nodup) (hsettled : Settled (host :: members) session)
    (haddress : address ∈ host :: (session.network.clients host).epList) :
    tookOrder address history = changeOrder (networkSteps history) := by
  have hmember := hinvariant.network.isMember haddress
  refine (hinvariant.follows address haddress).eq_of_perm ?_
  exact ((took_of_editor (hinvariant.editors address)).2
    (hsettled.pending address hmember)).trans
      (hinvariant.network.handed_perm hnodup hinvariant.plain hsettled.network haddress)

/-- A step of threads and network in a session whose users take turns. -/
theorem EditingInvariant.extend (hinvariant : EditingInvariant host members text history session)
    (hnodup : (host :: members).Nodup) {record : SharedRecord}
    (hturns : TakesTurns host members history record) {event : NetworkEvent}
    {network : UpdateNetwork} {output : ThreadedOutput}
    (hsteps : record.observation.steps = [⟨session.network, event, output, network⟩])
    (hnetwork : session.network.step event = some (network, output)) :
    NetworkInvariant host members (networkSteps (history ++ [record])) network ∧
      ((network.clients host).epList = (session.network.clients host).epList ∨
        changeOrder (networkSteps history) = []) := by
  have hconnects : ∀ endpoint, event = .act host (.connectP2P .host endpoint) →
      endpoint ∉ (session.network.clients host).epList ∧ changeOrder (networkSteps history) = [] :=
    fun endpoint hevent ↦ hturns.connects ⟨session.network, event, output, network⟩
      (by simp [hsteps]) endpoint (by simp [joinedBy, hevent])
  rw [networkSteps_snoc, hsteps]
  refine ⟨hinvariant.network.step hnodup
    (hturns.session ⟨session.network, event, output, network⟩ (by simp [hsteps]))
    (by rw [← hsteps]; exact hturns.lost) hconnects hnetwork, ?_⟩
  exact (newcomer_of_step hconnects (networkStep_of_step hnetwork)).imp_right And.left

/-- As long as texts and changes stay as they are, a member that is added lacks nothing. -/
theorem EditingInvariant.follows_of_epList
    (hinvariant : EditingInvariant host members text history session)
    (hnodup : (host :: members).Nodup) {epList : List IPEndPoint}
    (hlist : epList = (session.network.clients host).epList ∨
      changeOrder (networkSteps history) = [])
    (hmember : address ∈ host :: members) (hknown : address ∈ host :: epList) :
    Follows (tookOrder address history) (changeOrder (networkSteps history)) := by
  rcases hlist with rfl | hnone
  · exact hinvariant.follows address hknown
  · have htook := hinvariant.took_subperm hnodup hmember
    rw [hnone] at htook
    rw [hnone, List.subperm_nil.mp htook]
    exact .inl rfl

/-- Threads and network, and an updater that finds nothing, leave the texts as they are. -/
theorem EditingInvariant.quiet (hinvariant : EditingInvariant host members text history session)
    (hnodup : (host :: members).Nodup) {record : SharedRecord}
    (hturns : TakesTurns host members history record) {event : NetworkEvent}
    {network : UpdateNetwork} {output : ThreadedOutput}
    (hsteps : record.observation.steps = [⟨session.network, event, output, network⟩])
    (htook : record.event.editor = none)
    (hnetwork : session.network.step event = some (network, output))
    (hnone : ∀ address, takenIn (stepOf address ⟨session.network, event, output, network⟩) = [] ∧
      changedIn (stepOf address ⟨session.network, event, output, network⟩) = [] ∧
        changeOf ⟨session.network, event, output, network⟩ = []) :
    EditingInvariant host members text (history ++ [record]) { session with network } := by
  obtain ⟨hafter, hlist⟩ := hinvariant.extend hnodup hturns hsteps hnetwork
  have hsame : changeOrder (networkSteps (history ++ [record])) =
      changeOrder (networkSteps history) := by
    rw [networkSteps_snoc, hsteps, changeOrder_snoc, (hnone host).2.2, List.append_nil]
  refine ⟨hafter, ?_, fun address ↦ ?_, fun address hknown ↦ ?_⟩
  · rw [hsame]
    exact hinvariant.plain
  · rw [tookOrder_of_quiet htook, networkSteps_snoc, hsteps, takenIn_snoc, changedIn_snoc,
      (hnone address).1, (hnone address).2.1, List.append_nil, List.append_nil]
    exact hinvariant.editors address
  · rw [tookOrder_of_quiet htook, hsame]
    exact hinvariant.follows_of_epList hnodup hlist (hafter.isMember hknown) hknown

/-- An updater takes an update. -/
theorem EditingInvariant.take (hinvariant : EditingInvariant host members text history session)
    (hnodup : (host :: members).Nodup) {record : SharedRecord}
    (hturns : TakesTurns host members history record) {network : UpdateNetwork}
    {output : ThreadedOutput} {update : Text} {prevCursosrPosition : ℕ} {client : ClientState}
    (hsteps : record.observation.steps =
      [⟨session.network, .act address .getLastUpdate, output, network⟩])
    (htook : record.event.editor = none)
    (hnetwork : session.network.step (.act address .getLastUpdate) = some (network, output))
    (htaken : output.taken = [update])
    (hclient : (session.editors address).step (.receiveUpdate update prevCursosrPosition) =
      some (client, ())) :
    EditingInvariant host members text (history ++ [record])
      { network, editors := Function.update session.editors address client } := by
  obtain ⟨hafter, hlist⟩ := hinvariant.extend hnodup hturns hsteps hnetwork
  have hmem : (⟨session.network, .act address .getLastUpdate, output, network⟩ : NetworkRecord) ∈
      networkSteps (history ++ [record]) := by
    simp [networkSteps_snoc, hsteps]
  have hactor : address ∈ host :: members := (hafter.session.act hmem rfl).1
  have hsame : changeOrder (networkSteps (history ++ [record])) =
      changeOrder (networkSteps history) := by
    rw [networkSteps_snoc, hsteps, changeOrder_snoc]
    exact List.append_nil _
  have hhanded := handed_of_act session.network network address
  have hupdate : PlainUpdate update := by
    have hsub := hafter.handed_subperm hnodup (by rw [hsame]; exact hinvariant.plain) hactor
    refine (hinvariant.plain update ?_).1
    rw [← hsame]
    refine hsub.subset (List.mem_append_left _ ?_)
    rw [networkSteps_snoc, hsteps, takenIn_snoc, (hhanded address .getLastUpdate output).1,
      if_pos rfl, htaken]
    simp
  refine ⟨hafter, ?_, fun other ↦ ?_, fun other hknown ↦ ?_⟩
  · rw [hsame]
    exact hinvariant.plain
  · have heditor := hinvariant.editors other
    rw [tookOrder_of_quiet htook, networkSteps_snoc, hsteps, takenIn_snoc, changedIn_snoc,
      (hhanded other .getLastUpdate output).1, (hhanded other .getLastUpdate output).2]
    by_cases hsame : address = other
    · subst hsame
      simpa [htaken, ThreadedEvent.changed] using heditor.receive hupdate hclient
    · simpa [hsame, Ne.symm hsame] using heditor
  · rw [tookOrder_of_quiet htook, hsame]
    exact hinvariant.follows_of_epList hnodup hlist (hafter.isMember hknown) hknown

/-- The dispatcher applies at most one update. -/
theorem appliedBy_cases (before after : ClientState) :
    appliedBy before after = [] ∨ ∃ update, appliedBy before after = [update] := by
  unfold appliedBy
  split_ifs with hidle
  · cases before.pending with
    | none => exact .inl rfl
    | some pending => exact .inr ⟨_, rfl⟩
  · exact .inl rfl

/-- A text takes the update that its dispatcher applies. It was made, so that the text has caught
up. -/
theorem EditingInvariant.apply (hinvariant : EditingInvariant host members text history session)
    (hnodup : (host :: members).Nodup) {client : ClientState} {network : UpdateNetwork}
    {steps : List NetworkRecord}
    (hclient : (session.editors address).step .applyUpdate = some (client, ()))
    (hannounce : session.network.announce address
      (announcedSince (session.editors address) client) = some (network, steps)) :
    EditingInvariant host members text
      (history ++ [⟨session, .apply address,
        { steps
          took := appliedBy (session.editors address) client ++
            tookOwn host address (announcedSince (session.editors address) client) },
        { network, editors := Function.update session.editors address client }⟩])
      { network, editors := Function.update session.editors address client } := by
  obtain ⟨happlied, hsilent⟩ := (hinvariant.editors address).apply hclient
  rw [hsilent] at hannounce ⊢
  obtain ⟨rfl, rfl⟩ := announce_nil hannounce
  have hown : tookOwn host address [] = [] := ite_self _
  rw [hown, List.append_nil]
  generalize hrecord : (⟨session, .apply address,
    { took := appliedBy (session.editors address) client },
    { network := session.network
      editors := Function.update session.editors address client }⟩ : SharedRecord) = record
  have hsteps : networkSteps (history ++ [record]) = networkSteps history := by
    rw [networkSteps_snoc, ← hrecord]
    exact List.append_nil _
  have horder : ∀ other, tookOrder other (history ++ [record]) = tookOrder other history ++
      if address = other then appliedBy (session.editors address) client else [] := by
    intro other
    rw [tookOrder_snoc, ← hrecord]
    simp [SharedEvent.editor]
  have heditors : ∀ other,
      EditorInvariant text (takenIn (stepsOf other (networkSteps history)))
        (tookOwn host other (changedIn (stepsOf other (networkSteps history))))
        (tookOrder other (history ++ [record]))
        (Function.update session.editors address client other) := by
    intro other
    rw [horder]
    by_cases hsame : address = other
    · subst hsame
      simpa using happlied
    · simpa [hsame, Ne.symm hsame] using hinvariant.editors other
  refine ⟨?_, ?_, ?_, fun other hknown ↦ ?_⟩
  · rw [hsteps]
    exact hinvariant.network
  · rw [hsteps]
    exact hinvariant.plain
  · rw [hsteps]
    exact heditors
  · have hfollows := hinvariant.follows other hknown
    have hother := hinvariant.network.isMember hknown
    have hsub : (tookOrder other (history ++ [record])).Subperm
        (changeOrder (networkSteps history)) :=
      (took_of_editor (heditors other)).1.trans
        (hinvariant.network.handed_subperm hnodup hinvariant.plain hother)
    rw [hsteps]
    rw [horder] at hsub ⊢
    by_cases hsame : address = other
    · rw [if_pos hsame] at hsub ⊢
      rcases appliedBy_cases (session.editors address) client with hnone | ⟨update, hone⟩
      · rw [hnone, List.append_nil]
        exact hfollows
      · rw [hone] at hsub ⊢
        exact .inl (hfollows.eq_of_subperm hsub)
    · rw [if_neg hsame, List.append_nil]
      exact hfollows

/-- What an edit does to an editor: its update is announced, and only a host's text takes it. -/
theorem editor_actAs {taken own log : List Text} {client : ClientState} {action : UserAction}
    (heditor : EditorInvariant text taken own log client) (hrunning : client.running = true)
    (hadmits : client.ide.Admits action)
    (hascii : ∀ edit, action = .makeEdit edit → IsAscii edit.added) {made : List Text}
    (hmade : made = announcedSince client
      { client with ide := actAs host address client.ide action }) :
    EditorInvariant text taken (own ++ tookOwn host address made)
        (log ++ tookOwn host address made)
        { client with ide := actAs host address client.ide action } ∧
      (made = [] ∨ client.ide.editOf action ≠ none ∧
        ∃ message, made = [message] ∧ PlainUpdate message ∧ IsAscii message) := by
  obtain ⟨htext, htokens, hannounced⟩ := actAsMember_frame hadmits
  cases hedit : client.ide.editOf action with
  | none =>
    obtain ⟨caret, flag, -, hact⟩ := act_of_editOf_eq_none hedit
    rw [hedit] at hannounced
    have hsame : (actAs host address client.ide action).text = client.ide.text ∧
        (actAs host address client.ide action).tokens = client.ide.tokens ∧
          (actAs host address client.ide action).announced = client.ide.announced := by
      simp only [actAs]
      split_ifs
      · rw [hact]
        exact ⟨rfl, rfl, rfl⟩
      · exact ⟨htext, htokens, hannounced⟩
    have hnone : made = [] := by
      rw [hmade]
      exact announcedSince_of_append (by rw [hsame.2.2, List.append_nil])
    rw [hnone]
    refine ⟨?_, .inl rfl⟩
    simpa [tookOwn] using heditor.congr hsame.1 hsame.2.1
  | some edit =>
    obtain ⟨hannounces, hcaret, -, hallows, -⟩ := hadmits edit hedit
    rw [hedit] at hannounced
    obtain ⟨message, hemits, hannounced⟩ := hannounced
    obtain ⟨hplain, hmessage, hdoes⟩ := plain_of_admits hadmits hascii hedit hemits
    have hone : made = [message] := by
      rw [hmade]
      refine announcedSince_of_append ?_
      simp only [actAs]
      split_ifs
      · exact hemits.announced
      · exact hannounced
    rw [hone]
    refine ⟨?_, .inr ⟨by simp, message, rfl, hplain, hmessage⟩⟩
    by_cases hhost : address = host
    · simpa [tookOwn, actAs, hhost] using heditor.edit hrunning hannounces hemits hdoes
    · simpa [tookOwn, actAs, hhost] using heditor.congr htext htokens

/-- An edit is made when all texts have taken all changes, and is then the last change of all: a
host's text takes it at once, all others lack it. -/
theorem EditingInvariant.edit (hinvariant : EditingInvariant host members text history session)
    (hnodup : (host :: members).Nodup) {action : UserAction} {client : ClientState}
    {network : UpdateNetwork} {steps : List NetworkRecord} {record : SharedRecord}
    (hturns : TakesTurns host members history record) (hbefore : record.before = session)
    (hevent : record.event = .edit address action)
    (houtput : record.observation =
      { steps, took := tookOwn host address (announcedSince (session.editors address) client) })
    (hrunning : (session.editors address).running = true)
    (hadmits : (session.editors address).ide.Admits action)
    (hclient : client = { session.editors address with
      ide := actAs host address (session.editors address).ide action })
    (hannounce : session.network.announce address
      (announcedSince (session.editors address) client) = some (network, steps)) :
    EditingInvariant host members text (history ++ [record])
      { network, editors := Function.update session.editors address client } := by
  have hascii : ∀ edit, action = .makeEdit edit → IsAscii edit.added := by
    rintro edit rfl
    have hascii := hturns.ascii
    rw [hevent] at hascii
    exact hascii
  generalize hmade : announcedSince (session.editors address) client = made at hannounce houtput
  obtain ⟨heditor, hcases⟩ := editor_actAs (hinvariant.editors address) hrunning hadmits hascii
    (hclient ▸ hmade.symm)
  rw [← hclient] at heditor
  have horder : ∀ other, tookOrder other (history ++ [record]) = tookOrder other history ++
      if address = other then tookOwn host address made else [] := by
    intro other
    rw [tookOrder_snoc, hevent, houtput]
    simp [SharedEvent.editor]
  rcases hcases with rfl | ⟨hedit, message, rfl, hplain, hmessage⟩
  · obtain ⟨rfl, rfl⟩ := announce_nil hannounce
    have hsteps : networkSteps (history ++ [record]) = networkSteps history := by
      rw [networkSteps_snoc, houtput]
      exact List.append_nil _
    have hsame : ∀ other, tookOrder other (history ++ [record]) = tookOrder other history := by
      intro other
      rw [horder]
      simp [tookOwn]
    refine ⟨?_, ?_, fun other ↦ ?_, fun other hknown ↦ ?_⟩
    · rw [hsteps]
      exact hinvariant.network
    · rw [hsteps]
      exact hinvariant.plain
    · rw [hsteps, hsame]
      by_cases hother : address = other
      · subst hother
        simpa [tookOwn] using heditor
      · simpa [Ne.symm hother] using hinvariant.editors other
    · rw [hsteps, hsame]
      exact hinvariant.follows other hknown
  · have hsettled := hturns.turn (by simpa [editIn, hevent, hbefore] using hedit)
    rw [hbefore] at hsettled
    obtain ⟨output, hnetwork, htaken, rfl⟩ := announce_singleton hannounce
    have hsteps : record.observation.steps =
        [⟨session.network, .act address (.addTextChange message), output, network⟩] := by
      rw [houtput]
    obtain ⟨hafter, -⟩ := hinvariant.extend hnodup hturns hsteps hnetwork
    have hlist : (network.clients host).epList = (session.network.clients host).epList := by
      rcases epList_of_step (networkStep_of_step hnetwork) host with hsame | ⟨_, hother, -⟩
      · exact hsame
      · cases hother
    have hchange : changeOrder (networkSteps (history ++ [record])) =
        changeOrder (networkSteps history) ++ [message] := by
      rw [networkSteps_snoc, hsteps, changeOrder_snoc]
      rfl
    have hhanded := fun other ↦ handed_of_act session.network network address other
      (.addTextChange message) output
    refine ⟨hafter, fun update hupdate ↦ ?_, fun other ↦ ?_, fun other hknown ↦ ?_⟩
    · rw [hchange] at hupdate
      rcases List.mem_append.mp hupdate with hold | hnew
      · exact hinvariant.plain update hold
      · rw [List.mem_singleton.mp hnew]
        exact ⟨hplain, hmessage⟩
    · rw [horder, networkSteps_snoc, hsteps, takenIn_snoc, changedIn_snoc, (hhanded other).1,
        (hhanded other).2]
      by_cases hother : address = other
      · subst hother
        simp only [if_true, htaken, List.append_nil, Function.update_self, ThreadedEvent.changed]
        have hown : tookOwn host address
            (changedIn (stepsOf address (networkSteps history)) ++ [message]) =
              tookOwn host address (changedIn (stepsOf address (networkSteps history))) ++
                tookOwn host address [message] := by
          simp only [tookOwn]
          split_ifs <;> rfl
        rw [hown]
        exact heditor
      · simpa [hother, Ne.symm hother] using hinvariant.editors other
    · rw [hlist] at hknown
      rw [horder, hchange, hinvariant.order hnodup hsettled hknown]
      by_cases hother : address = other
      · rw [if_pos hother, tookOwn]
        split_ifs
        · exact .inl rfl
        · exact .inr ⟨message, by simp⟩
      · rw [if_neg hother]
        exact .inr ⟨message, by simp⟩

/-- Every step of a session whose users take turns keeps all that. -/
theorem EditingInvariant.step
    (hinvariant : EditingInvariant host members text history session)
    (hnodup : (host :: members).Nodup)
    (hturns : TakesTurns host members history ⟨session, event, output, next⟩)
    (hstep : session.step host event = some (next, output)) :
    EditingInvariant host members text (history ++ [⟨session, event, output, next⟩]) next := by
  cases editingStep_of_step hstep with
  | edit address action client network steps hrunning hadmits hclient hannounce =>
    exact hinvariant.edit hnodup hturns rfl rfl rfl hrunning hadmits hclient hannounce
  | network event network output hevent hnetwork =>
    exact hinvariant.quiet hnodup hturns rfl rfl hnetwork
      (handed_of_quiet hevent (networkStep_of_step hnetwork))
  | look address _ network output hnetwork htaken =>
    refine hinvariant.quiet hnodup hturns rfl rfl hnetwork fun other ↦ ?_
    obtain ⟨htakes, hchanges⟩ :=
      handed_of_act session.network network address other .getLastUpdate output
    rw [htakes, hchanges, htaken, ite_self]
    exact ⟨rfl, ite_self _, rfl⟩
  | take address _ network output update client hnetwork htaken hclient =>
    exact hinvariant.take hnodup hturns rfl rfl hnetwork htaken hclient
  | apply address client network steps hclient hannounce =>
    exact hinvariant.apply hnodup hclient hannounce

end Turns

end NovaIde.Protocol
