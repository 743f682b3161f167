import NovaIde.Client.HostPipeline
import NovaIde.Client.PeerConnection

/-!
# What the members of a host are sent

`UpdateDistributor` and `IDEUpdateScanner` both run `BroadcastUpdate`, a `foreach` over `epList`, to
which `AddIPEP` appends. The enumerator of the loop notes the version of the list when it is created
and checks it before every endpoint and at the end, so an `AddIPEP` during a loop makes the loop
throw, which ends the process. Nothing orders the two loops against each other, and nothing looks
whether an endpoint is in the list already.
-/

set_option autoImplicit false
set_option relaxedAutoImplicit false

namespace NovaIde.Client

open Foundation Foundation.EventRun

/-- The two threads that run `BroadcastUpdate`. -/
inductive Broadcaster
  | distributor
  | scanner
deriving DecidableEq, Repr

/-- The other thread. -/
def Broadcaster.other : Broadcaster → Broadcaster
  | .distributor => .scanner
  | .scanner => .distributor

/-- The state of a thread in the pipeline. -/
def HostState.sender (host : HostState) : Broadcaster → Sender
  | .distributor => host.distributor
  | .scanner => host.scanner

/-- The event by which a thread makes its next step. -/
def Broadcaster.event : Broadcaster → HostEvent
  | .distributor => .distribute
  | .scanner => .scan

/-- A host whose endpoint list grows: the pipeline, the list, for each thread the version that the
enumerator of its loop noted, while it is in one, and whether the process still runs. Every change
of the list is an addition, so its length is its version. -/
structure ConnectedHost where
  host : HostState := {}
  epList : List IPEndPoint := []
  enumerator : Broadcaster → Option ℕ := fun _ ↦ none
  running : Bool := true

/-- What happens on a host with members. -/
inductive ConnectedEvent
  | addIPEP (endpoint : IPEndPoint)
  | pipeline (event : HostEvent)
deriving DecidableEq, Repr

/-- What a step shows. -/
inductive ConnectedOutput
  /-- what the pipeline shows -/
  | pipeline (output : HostOutput)
  /-- a thread enters the loop with an update, over a number of endpoints -/
  | began (thread : Broadcaster) (update : Text) (endpoints : ℕ)
  /-- a thread sends to the endpoint at a position of the list -/
  | sent (thread : Broadcaster) (position : ℕ) (endpoint : IPEndPoint) (data : Datagram)
  /-- `InvalidOperationException` of the enumerator -/
  | threw
deriving DecidableEq, Repr

/-- One step of the pipeline, with the endpoints of the list. -/
def ConnectedHost.pipelineStep (connected : ConnectedHost) (event : HostEvent) :
    Option (ConnectedHost × HostOutput) := do
  let (host, output) ← connected.host.step connected.epList.length event
  return ({ connected with host }, output)

/-- One step of a thread. A thread with a tuple in hand first creates the enumerator; then each step
checks the version and sends to one endpoint or leaves the loop. -/
def ConnectedHost.threadStep (connected : ConnectedHost) (thread : Broadcaster) :
    Option (ConnectedHost × ConnectedOutput) :=
  match connected.host.sender thread, connected.enumerator thread with
  | .idle, _ => do
    let (connected', output) ← connected.pipelineStep thread.event
    return (connected', .pipeline output)
  | .broadcasting updateTuple _, none =>
    let endpoints := connected.epList.length
    some ({ connected with
        enumerator := Function.update connected.enumerator thread (some endpoints) },
      .began thread updateTuple.update endpoints)
  | .broadcasting _ position, some version =>
    if version ≠ connected.epList.length then some ({ connected with running := false }, .threw)
    else do
      let (connected', output) ← connected.pipelineStep thread.event
      match output, connected.epList[position]? with
      | .sent _ data, some endpoint =>
        return (connected', .sent thread position endpoint data)
      | _, _ =>
        return ({ connected' with
            enumerator := Function.update connected.enumerator thread none },
          .pipeline output)

/-- One step of a host with members. A process that has ended takes no step. -/
def ConnectedHost.step (connected : ConnectedHost) (event : ConnectedEvent) :
    Option (ConnectedHost × ConnectedOutput) :=
  if connected.running then
    match event with
    | .addIPEP endpoint =>
      some ({ connected with epList := connected.epList ++ [endpoint] }, .pipeline .nothing)
    | .pipeline .distribute => connected.threadStep .distributor
    | .pipeline .scan => connected.threadStep .scanner
    | .pipeline event => do
      let (connected', output) ← connected.pipelineStep event
      return (connected', .pipeline output)
  else none

/-- The steps of a run of a host with members. -/
abbrev ConnectedRecord := StepRecord ConnectedHost ConnectedEvent ConnectedOutput

/-- The runs of a host with members, from its construction. -/
abbrev ConnectedRun : List ConnectedRecord → ConnectedHost → Prop := Run ConnectedHost.step {}

/-! ### What a step can do -/

section Step

variable {endpoints : ℕ} {host host' : HostState} {output : HostOutput} {thread : Broadcaster}

/-- What a step of a thread does to the two threads and what it shows. -/
theorem step_threadEvent
    (hstep : host.step endpoints thread.event = some (host', output)) :
    host'.sender thread.other = host.sender thread.other ∧
      ((host.sender thread = .idle ∧ output = .nothing ∧
          ∃ updateTuple, host'.sender thread = .broadcasting updateTuple 0) ∨
        (∃ updateTuple position, host.sender thread = .broadcasting updateTuple position ∧
          position < endpoints ∧ host'.sender thread = .broadcasting updateTuple (position + 1) ∧
          output = .sent position (utf8GetBytes updateTuple.update)) ∨
        (∃ updateTuple position, host.sender thread = .broadcasting updateTuple position ∧
          ¬ position < endpoints ∧ host'.sender thread = .idle ∧ output = .nothing)) := by
  cases thread with
  | distributor =>
    simp only [HostState.sender, Broadcaster.other]
    cases distributeStep_of_step hstep with
    | @take updateTuple _ hidle _ =>
      exact ⟨rfl, .inl ⟨hidle, rfl, updateTuple, rfl⟩⟩
    | @send updateTuple position hhand hposition =>
      exact ⟨rfl, .inr (.inl ⟨updateTuple, position, hhand, hposition, rfl, rfl⟩)⟩
    | @finish updateTuple position hhand hposition =>
      refine ⟨?_, .inr (.inr ⟨updateTuple, position, hhand, hposition, rfl, rfl⟩)⟩
      simp only [HostState.enqueueForIDEUpdate]
      split_ifs <;> rfl
  | scanner =>
    simp only [HostState.sender, Broadcaster.other]
    cases scanStep_of_step hstep with
    | take hidle _ =>
      exact ⟨rfl, .inl ⟨hidle, rfl, _, rfl⟩⟩
    | @send updateTuple position hhand hposition =>
      exact ⟨rfl, .inr (.inl ⟨updateTuple, position, hhand, hposition, rfl, rfl⟩)⟩
    | @finish updateTuple position hhand hposition =>
      exact ⟨rfl, .inr (.inr ⟨updateTuple, position, hhand, hposition, rfl, rfl⟩)⟩

/-- The steps that are no thread's leave both threads alone. -/
theorem sender_of_step {event : HostEvent} (hdistribute : event ≠ .distribute)
    (hscan : event ≠ .scan) (hstep : host.step endpoints event = some (host', output)) :
    host'.sender = host.sender := by
  funext thread
  cases event with
  | receive receiveBytes =>
    obtain ⟨rfl, rfl⟩ : _ = host' ∧ _ = output := by simpa [HostState.step] using hstep
    unfold HostState.p2pListener
    cases thread <;> simp only [HostState.sender] <;> split_ifs <;> rfl
  | distribute => exact absurd rfl hdistribute
  | scan => exact absurd rfl hscan
  | addTextChange update =>
    obtain ⟨rfl, rfl⟩ : _ = host' ∧ _ = output := by simpa [HostState.step] using hstep
    cases thread <;> rfl
  | getLastUpdate =>
    obtain ⟨rfl, rfl⟩ : _ = host' ∧ _ = output := by simpa [HostState.step] using hstep
    cases thread <;> rfl

end Step

/-- What a thread's loop still has to send to a position. -/
def ConnectedHost.unsent (connected : ConnectedHost) (thread : Broadcaster) (position : ℕ) :
    List Datagram :=
  match connected.enumerator thread with
  | some version =>
    if position < version then ((connected.host.sender thread).unsent position).map utf8GetBytes
    else []
  | none => []

/-- A thread is in a loop only with a tuple in hand, and enters it at the first endpoint. -/
structure LoopsWellFormed (connected : ConnectedHost) : Prop where
  idle : ∀ thread, connected.host.sender thread = .idle → connected.enumerator thread = none
  first : ∀ thread updateTuple position,
    connected.host.sender thread = .broadcasting updateTuple position →
      connected.enumerator thread = none → position = 0

/-- The ways a step acts on what was sent, on what is still to be sent, and on the list. -/
inductive StreamStep (connected : ConnectedHost) : ConnectedHost → ConnectedOutput → Prop
  | silent {next : ConnectedHost} {output : ConnectedOutput}
      (hlist : connected.epList <+: next.epList)
      (hunsent : next.unsent = connected.unsent)
      (hbegan : ∀ thread update endpoints, output ≠ .began thread update endpoints)
      (hsent : ∀ thread position endpoint data, output ≠ .sent thread position endpoint data) :
      StreamStep connected next output
  | began {next : ConnectedHost} (thread : Broadcaster) (update : Text)
      (hlist : next.epList = connected.epList)
      (hbefore : ∀ position, connected.unsent thread position = [])
      (hafter : ∀ position, next.unsent thread position =
        if position < connected.epList.length then [utf8GetBytes update] else [])
      (hother : next.unsent thread.other = connected.unsent thread.other) :
      StreamStep connected next (.began thread update connected.epList.length)
  | sent {next : ConnectedHost} (thread : Broadcaster) (position : ℕ) (endpoint : IPEndPoint)
      (data : Datagram) (hlist : next.epList = connected.epList)
      (hendpoint : connected.epList[position]? = some endpoint)
      (hunsent : ∀ other, connected.unsent thread other =
        (if position = other then [data] else []) ++ next.unsent thread other)
      (hother : next.unsent thread.other = connected.unsent thread.other) :
      StreamStep connected next (.sent thread position endpoint data)

section StreamStep

variable {connected next : ConnectedHost} {event : ConnectedEvent} {output : ConnectedOutput}
  {thread : Broadcaster}

theorem Broadcaster.eq_or_eq_other (thread any : Broadcaster) :
    any = thread ∨ any = thread.other := by
  cases thread <;> cases any <;> decide

theorem Broadcaster.other_ne (thread : Broadcaster) : thread.other ≠ thread := by
  cases thread <;> decide

@[simp] theorem Broadcaster.other_other (thread : Broadcaster) : thread.other.other = thread := by
  cases thread <;> rfl

/-- What a thread has to send depends on its state and its enumerator only. -/
theorem unsent_congr (hsender : next.host.sender thread = connected.host.sender thread)
    (henumerator : next.enumerator thread = connected.enumerator thread) :
    next.unsent thread = connected.unsent thread := by
  unfold ConnectedHost.unsent
  rw [hsender, henumerator]

/-- A step of the pipeline leaves the list, the enumerators and the process as they are. -/
theorem pipelineStep_eq_some {event : HostEvent} {shown : HostOutput} :
    connected.pipelineStep event = some (next, shown) ↔
      ∃ host, connected.host.step connected.epList.length event = some (host, shown) ∧
        next = { connected with host } := by
  simp only [ConnectedHost.pipelineStep, Option.bind_eq_bind, Option.pure_def,
    Option.bind_eq_some_iff, Option.some.injEq, Prod.mk.injEq, Prod.exists]
  constructor
  · rintro ⟨host, other, hstep, rfl, rfl⟩
    exact ⟨host, hstep, rfl⟩
  · rintro ⟨host, hstep, rfl⟩
    exact ⟨host, shown, hstep, rfl, rfl⟩

/-- A step that is no thread's changes neither the loops nor the list. -/
theorem streamStep_of_quiet {event : HostEvent} {shown : HostOutput}
    (hdistribute : event ≠ .distribute) (hscan : event ≠ .scan)
    (hstep : connected.pipelineStep event = some (next, shown))
    (hformed : LoopsWellFormed connected) :
    LoopsWellFormed next ∧ StreamStep connected next (.pipeline shown) := by
  obtain ⟨host, hhost, rfl⟩ := pipelineStep_eq_some.mp hstep
  have hsender := sender_of_step hdistribute hscan hhost
  refine ⟨⟨fun thread ↦ ?_, fun thread ↦ ?_⟩, .silent (List.prefix_refl _) ?_ (by simp) (by simp)⟩
  · rw [hsender]
    exact hformed.idle thread
  · rw [hsender]
    exact hformed.first thread
  · funext thread
    exact unsent_congr (by rw [hsender]) rfl

/-- A thread outside its loop has nothing to send. -/
theorem unsent_of_none (henumerator : connected.enumerator thread = none) :
    connected.unsent thread = fun _ ↦ [] := by
  unfold ConnectedHost.unsent
  rw [henumerator]

/-- The loops stay well-formed when the loop of one thread does and the other's is the same. -/
theorem LoopsWellFormed.of_thread (hformed : LoopsWellFormed connected)
    (hsender : next.host.sender thread.other = connected.host.sender thread.other)
    (henumerator : next.enumerator thread.other = connected.enumerator thread.other)
    (hidle : next.host.sender thread = .idle → next.enumerator thread = none)
    (hfirst : ∀ updateTuple position,
      next.host.sender thread = .broadcasting updateTuple position →
        next.enumerator thread = none → position = 0) :
    LoopsWellFormed next := by
  constructor
  · intro any hany
    rcases thread.eq_or_eq_other any with rfl | rfl
    · exact hidle hany
    · rw [henumerator]
      exact hformed.idle _ (by rwa [← hsender])
  · intro any updateTuple position hany hnone
    rcases thread.eq_or_eq_other any with rfl | rfl
    · exact hfirst updateTuple position hany hnone
    · exact hformed.first _ updateTuple position (by rwa [← hsender]) (by rwa [← henumerator])

/-- What the two threads have to send is known from what each of them has. -/
theorem unsent_eq_of_thread (hthread : next.unsent thread = connected.unsent thread)
    (hother : next.unsent thread.other = connected.unsent thread.other) :
    next.unsent = connected.unsent := by
  funext any
  rcases thread.eq_or_eq_other any with rfl | rfl
  · exact hthread
  · exact hother

/-- A thread without a tuple takes one and stays outside its loop. -/
theorem streamStep_of_take {shown : HostOutput} (hidle : connected.host.sender thread = .idle)
    (hstep : connected.pipelineStep thread.event = some (next, shown))
    (hformed : LoopsWellFormed connected) :
    LoopsWellFormed next ∧ StreamStep connected next (.pipeline shown) := by
  obtain ⟨host, hhost, rfl⟩ := pipelineStep_eq_some.mp hstep
  obtain ⟨hother, hcases⟩ := step_threadEvent hhost
  have hnone := hformed.idle thread hidle
  rw [hidle] at hcases
  obtain ⟨-, taken, hsender⟩ : shown = .nothing ∧
      ∃ updateTuple, host.sender thread = .broadcasting updateTuple 0 := by
    simpa using hcases
  constructor
  · refine hformed.of_thread hother rfl (fun _ ↦ hnone) fun updateTuple position hbusy _ ↦ ?_
    rw [hsender] at hbusy
    cases hbusy
    rfl
  · refine .silent (List.prefix_refl _) (unsent_eq_of_thread ?_ (unsent_congr hother rfl))
      (by simp) (by simp)
    rw [unsent_of_none hnone, unsent_of_none (by exact hnone)]

/-- A thread with a tuple enters its loop, in which everything is still to be sent. -/
theorem streamStep_of_enter {updateTuple : UpdateTuple} {position : ℕ}
    (hsender : connected.host.sender thread = .broadcasting updateTuple position)
    (hnone : connected.enumerator thread = none) (hformed : LoopsWellFormed connected)
    (hnext : next = { connected with
      enumerator := Function.update connected.enumerator thread (some connected.epList.length) }) :
    LoopsWellFormed next ∧
      StreamStep connected next (.began thread updateTuple.update connected.epList.length) := by
  have hfirst := hformed.first thread updateTuple position hsender hnone
  have hlist : next.epList = connected.epList := by rw [hnext]
  have hhost : next.host = connected.host := by rw [hnext]
  have hself : next.enumerator thread = some connected.epList.length := by simp [hnext]
  have hother : next.enumerator thread.other = connected.enumerator thread.other := by
    simp [hnext, Function.update_of_ne thread.other_ne]
  constructor
  · refine hformed.of_thread (by rw [hhost]) hother (fun hidle ↦ ?_) fun _ _ _ henumerator ↦ ?_
    · rw [hhost, hsender] at hidle
      cases hidle
    · rw [hself] at henumerator
      cases henumerator
  · refine .began thread updateTuple.update hlist (fun other ↦ ?_) (fun other ↦ ?_)
      (unsent_congr (by rw [hhost]) hother)
    · rw [unsent_of_none hnone]
    · simp [ConnectedHost.unsent, hself, hhost, hsender, hfirst, Sender.unsent]

/-- A thread in its loop sends to the next endpoint. -/
theorem streamStep_of_send {updateTuple : UpdateTuple} {position : ℕ} {host : HostState}
    (hsender : connected.host.sender thread = .broadcasting updateTuple position)
    (henumerator : connected.enumerator thread = some connected.epList.length)
    (hposition : position < connected.epList.length)
    (hother : host.sender thread.other = connected.host.sender thread.other)
    (hafter : host.sender thread = .broadcasting updateTuple (position + 1))
    (hformed : LoopsWellFormed connected) :
    LoopsWellFormed { connected with host } ∧
      StreamStep connected { connected with host }
        (.sent thread position connected.epList[position] (utf8GetBytes updateTuple.update)) := by
  constructor
  · refine hformed.of_thread hother rfl (fun hidle ↦ ?_) fun _ _ _ hnone ↦ ?_
    · rw [hafter] at hidle
      cases hidle
    · rw [henumerator] at hnone
      cases hnone
  · refine .sent thread position _ _ rfl (List.getElem?_eq_getElem hposition) (fun other ↦ ?_)
      (unsent_congr hother rfl)
    simp only [ConnectedHost.unsent, henumerator, hsender, hafter]
    by_cases hsame : position = other
    · subst hsame
      rw [unsent_broadcasting, List.map_append, if_pos hposition, if_pos hposition, if_pos rfl,
        if_pos rfl, List.map_singleton]
    · rw [unsent_broadcasting, if_neg hsame, if_neg hsame, List.nil_append, List.nil_append]

/-- A thread leaves its loop when there is nothing left to send. -/
theorem streamStep_of_leave {updateTuple : UpdateTuple} {position : ℕ} {shown : HostOutput}
    (hsender : connected.host.sender thread = .broadcasting updateTuple position)
    (henumerator : connected.enumerator thread = some connected.epList.length)
    (hposition : ¬ position < connected.epList.length)
    (hother : next.host.sender thread.other = connected.host.sender thread.other)
    (hafter : next.host.sender thread = .idle) (hlist : next.epList = connected.epList)
    (hnext : next.enumerator = Function.update connected.enumerator thread none)
    (hformed : LoopsWellFormed connected) :
    LoopsWellFormed next ∧ StreamStep connected next (.pipeline shown) := by
  have hself : next.enumerator thread = none := by simp [hnext]
  have hkept : next.enumerator thread.other = connected.enumerator thread.other := by
    simp [hnext, Function.update_of_ne thread.other_ne]
  constructor
  · refine hformed.of_thread hother hkept (fun _ ↦ hself) fun _ _ hbusy _ ↦ ?_
    rw [hafter] at hbusy
    cases hbusy
  · refine .silent (by rw [hlist]) (unsent_eq_of_thread ?_ (unsent_congr hother hkept))
      (by simp) (by simp)
    funext other
    rw [unsent_of_none hself]
    simp only [ConnectedHost.unsent, henumerator, hsender]
    split_ifs with hwithin
    · rw [unsent_of_done hposition hwithin, List.map_nil]
    · rfl

/-- A thread in its loop sends to the next endpoint, or leaves the loop after the last one. -/
theorem streamStep_of_loop {updateTuple : UpdateTuple} {position : ℕ}
    (hsender : connected.host.sender thread = .broadcasting updateTuple position)
    (henumerator : connected.enumerator thread = some connected.epList.length)
    (hstep : connected.threadStep thread = some (next, output))
    (hformed : LoopsWellFormed connected) :
    LoopsWellFormed next ∧ StreamStep connected next output := by
  simp only [ConnectedHost.threadStep, hsender, henumerator, ne_eq, not_true_eq_false, if_false,
    Option.bind_eq_bind, Option.bind_eq_some_iff, Prod.exists] at hstep
  obtain ⟨_, shown, hpipeline, hshown⟩ := hstep
  obtain ⟨host, hhost, rfl⟩ := pipelineStep_eq_some.mp hpipeline
  obtain ⟨hother, hcases⟩ := step_threadEvent hhost
  rw [hsender] at hcases
  rcases hcases with ⟨hidle, -⟩ | ⟨_, _, hsame, hposition, hafter, rfl⟩ |
      ⟨_, _, hsame, hposition, hafter, rfl⟩
  · cases hidle
  · cases hsame
    rw [List.getElem?_eq_getElem hposition] at hshown
    obtain ⟨rfl, rfl⟩ : _ = next ∧ _ = output := by simpa using hshown
    exact streamStep_of_send hsender henumerator hposition hother hafter hformed
  · cases hsame
    obtain ⟨rfl, rfl⟩ : _ = next ∧ _ = output := by simpa using hshown
    exact streamStep_of_leave hsender henumerator hposition hother hafter rfl rfl hformed

/-- Every step of a thread acts in one of the ways. -/
theorem streamStep_of_threadStep (hstep : connected.threadStep thread = some (next, output))
    (hformed : LoopsWellFormed connected) :
    LoopsWellFormed next ∧ StreamStep connected next output := by
  cases hsender : connected.host.sender thread with
  | idle =>
    simp only [ConnectedHost.threadStep, hsender, Option.bind_eq_bind, Option.pure_def,
      Option.bind_eq_some_iff, Option.some.injEq, Prod.mk.injEq, Prod.exists] at hstep
    obtain ⟨_, shown, hpipeline, rfl, rfl⟩ := hstep
    exact streamStep_of_take hsender hpipeline hformed
  | broadcasting updateTuple position =>
    cases henumerator : connected.enumerator thread with
    | none =>
      simp only [ConnectedHost.threadStep, hsender, henumerator] at hstep
      obtain ⟨rfl, rfl⟩ : _ = next ∧ _ = output := by simpa using hstep
      exact streamStep_of_enter hsender henumerator hformed rfl
    | some version =>
      by_cases hversion : version = connected.epList.length
      · subst hversion
        exact streamStep_of_loop hsender henumerator hstep hformed
      · simp only [ConnectedHost.threadStep, hsender, henumerator, ne_eq, hversion,
          not_false_eq_true, if_true] at hstep
        obtain ⟨rfl, rfl⟩ : _ = next ∧ _ = output := by simpa using hstep
        exact ⟨⟨hformed.idle, hformed.first⟩,
          .silent (List.prefix_refl _) rfl (by simp) (by simp)⟩

/-- Every step acts in one of the ways, and keeps the loops well-formed. -/
theorem streamStep_of_step (hstep : connected.step event = some (next, output))
    (hformed : LoopsWellFormed connected) :
    LoopsWellFormed next ∧ StreamStep connected next output := by
  unfold ConnectedHost.step at hstep
  split_ifs at hstep with hrunning
  cases event with
  | addIPEP endpoint =>
    obtain ⟨rfl, rfl⟩ : _ = next ∧ _ = output := by simpa using hstep
    exact ⟨⟨hformed.idle, hformed.first⟩,
      .silent (List.prefix_append _ _) rfl (by simp) (by simp)⟩
  | pipeline event =>
    by_cases hdistribute : event = .distribute
    · subst hdistribute
      exact streamStep_of_threadStep hstep hformed
    by_cases hscan : event = .scan
    · subst hscan
      exact streamStep_of_threadStep hstep hformed
    have hquiet : (do
        let (connected', shown) ← connected.pipelineStep event
        return (connected', ConnectedOutput.pipeline shown)) = some (next, output) := by
      cases event with
      | distribute => exact absurd rfl hdistribute
      | scan => exact absurd rfl hscan
      | receive receiveBytes => exact hstep
      | addTextChange update => exact hstep
      | getLastUpdate => exact hstep
    simp only [Option.bind_eq_bind, Option.pure_def, Option.bind_eq_some_iff, Option.some.injEq,
      Prod.mk.injEq, Prod.exists] at hquiet
    obtain ⟨_, shown, hpipeline, rfl, rfl⟩ := hquiet
    exact streamStep_of_quiet hdistribute hscan hpipeline hformed

end StreamStep

/-! ### The streams of a run -/

/-- A broadcast that has begun: its thread, its update and the number of endpoints in the list. -/
structure Broadcast where
  thread : Broadcaster
  update : Text
  endpoints : ℕ
deriving DecidableEq, Repr

/-- A datagram sent in a broadcast. -/
structure Send where
  thread : Broadcaster
  position : ℕ
  endpoint : IPEndPoint
  data : Datagram
deriving DecidableEq, Repr

/-- The broadcast that a step begins. -/
def broadcastOf (record : ConnectedRecord) : Option Broadcast :=
  match record.observation with
  | .began thread update endpoints => some ⟨thread, update, endpoints⟩
  | _ => none

/-- The datagram that a step sends. -/
def sendOf (record : ConnectedRecord) : Option Send :=
  match record.observation with
  | .sent thread position endpoint data => some ⟨thread, position, endpoint, data⟩
  | _ => none

/-- The broadcasts of a run, in the order in which they began. -/
def broadcasts (history : List ConnectedRecord) : List Broadcast := history.filterMap broadcastOf

/-- The datagrams sent in a run. -/
def sends (history : List ConnectedRecord) : List Send := history.filterMap sendOf

/-- What was sent to the endpoint at a position of the list. -/
def sentAt (position : ℕ) (history : List ConnectedRecord) : List Datagram :=
  ((sends history).filter fun send ↦ send.position = position).map Send.data

/-- What one thread sent to the endpoint at a position of the list. -/
def sentBy (thread : Broadcaster) (position : ℕ) (history : List ConnectedRecord) :
    List Datagram :=
  ((sends history).filter fun send ↦ send.thread = thread ∧ send.position = position).map Send.data

/-- What was sent to an endpoint. -/
def sentTo (endpoint : IPEndPoint) (history : List ConnectedRecord) : List Datagram :=
  ((sends history).filter fun send ↦ send.endpoint = endpoint).map Send.data

/-- The encoded updates of broadcasts. -/
def encoded (log : List Broadcast) : List Datagram :=
  log.map fun broadcast ↦ utf8GetBytes broadcast.update

/-- The updates whose broadcast began when the list held a position, in the order in which the
broadcasts began. -/
def stream (position : ℕ) (history : List ConnectedRecord) : List Datagram :=
  encoded ((broadcasts history).filter fun broadcast ↦ position < broadcast.endpoints)

/-- The part of a stream that one thread broadcasts. -/
def streamBy (thread : Broadcaster) (position : ℕ) (history : List ConnectedRecord) :
    List Datagram :=
  encoded ((broadcasts history).filter fun broadcast ↦
    broadcast.thread = thread ∧ position < broadcast.endpoints)

/-- The updates whose broadcast began when the list held one position and not yet another. -/
def streamBetween (position later : ℕ) (history : List ConnectedRecord) : List Datagram :=
  encoded ((broadcasts history).filter fun broadcast ↦
    position < broadcast.endpoints ∧ broadcast.endpoints ≤ later)

/-- The thread whose broadcast began last. -/
def lastBegun (history : List ConnectedRecord) : Option Broadcaster :=
  (broadcasts history).getLast?.map Broadcast.thread

/-- No overtaking: the loop that began later sends to no endpoint to which the earlier one, still
running, has not sent yet. -/
def NoOvertaking (earlier : List ConnectedRecord) (record : ConnectedRecord) : Prop :=
  ∀ send, sendOf record = some send → lastBegun earlier = some send.thread →
    record.before.unsent send.thread.other send.position = []

section Streams

variable {history longer : List ConnectedRecord} {connected next : ConnectedHost}
  {event : ConnectedEvent} {output : ConnectedOutput}

/-- A datagram more is the next one at its position. -/
theorem sentAt_of_send {send : Send} (hsends : sends longer = sends history ++ [send])
    (position : ℕ) :
    sentAt position longer =
      sentAt position history ++ if send.position = position then [send.data] else [] := by
  by_cases hposition : send.position = position <;> simp [sentAt, hsends, hposition]

/-- A datagram more is the next one of its thread at its position. -/
theorem sentBy_of_send {send : Send} (hsends : sends longer = sends history ++ [send])
    (thread : Broadcaster) (position : ℕ) :
    sentBy thread position longer = sentBy thread position history ++
      if send.thread = thread ∧ send.position = position then [send.data] else [] := by
  by_cases hsend : send.thread = thread ∧ send.position = position <;> simp [sentBy, hsends, hsend]

/-- A broadcast more is the next update at the positions of its list. -/
theorem stream_of_broadcast {broadcast : Broadcast}
    (hbroadcasts : broadcasts longer = broadcasts history ++ [broadcast]) (position : ℕ) :
    stream position longer = stream position history ++
      if position < broadcast.endpoints then [utf8GetBytes broadcast.update] else [] := by
  by_cases hposition : position < broadcast.endpoints <;>
    simp [stream, encoded, hbroadcasts, hposition]

/-- A broadcast more is the next update of its thread at the positions of its list. -/
theorem streamBy_of_broadcast {broadcast : Broadcast}
    (hbroadcasts : broadcasts longer = broadcasts history ++ [broadcast]) (thread : Broadcaster)
    (position : ℕ) :
    streamBy thread position longer = streamBy thread position history ++
      if broadcast.thread = thread ∧ position < broadcast.endpoints then
        [utf8GetBytes broadcast.update] else [] := by
  by_cases hbroadcast : broadcast.thread = thread ∧ position < broadcast.endpoints <;>
    simp [streamBy, encoded, hbroadcasts, hbroadcast]

/-- A step that neither begins a broadcast nor sends leaves the logs as they are. -/
theorem logs_of_silent (history : List ConnectedRecord) (record : ConnectedRecord)
    (hbegan : ∀ thread update endpoints, record.observation ≠ .began thread update endpoints)
    (hsent : ∀ thread position endpoint data,
      record.observation ≠ .sent thread position endpoint data) :
    broadcasts (history ++ [record]) = broadcasts history ∧
      sends (history ++ [record]) = sends history := by
  have hbroadcast : broadcastOf record = none := by
    unfold broadcastOf
    split
    · next hrecord => exact absurd hrecord (hbegan _ _ _)
    · rfl
  have hsend : sendOf record = none := by
    unfold sendOf
    split
    · next hrecord => exact absurd hrecord (hsent _ _ _ _)
    · rfl
  simp [broadcasts, sends, hbroadcast, hsend]

/-- A step that begins a broadcast is logged as that broadcast. -/
theorem logs_of_began (history : List ConnectedRecord) (record : ConnectedRecord)
    {thread : Broadcaster} {update : Text} {endpoints : ℕ}
    (hbegan : record.observation = .began thread update endpoints) :
    broadcasts (history ++ [record]) = broadcasts history ++ [⟨thread, update, endpoints⟩] ∧
      sends (history ++ [record]) = sends history := by
  simp [broadcasts, sends, broadcastOf, sendOf, hbegan]

/-- A step that sends is logged as that datagram. -/
theorem logs_of_sent (history : List ConnectedRecord) (record : ConnectedRecord)
    {thread : Broadcaster} {position : ℕ} {endpoint : IPEndPoint} {data : Datagram}
    (hsent : record.observation = .sent thread position endpoint data) :
    broadcasts (history ++ [record]) = broadcasts history ∧
      sends (history ++ [record]) = sends history ++ [⟨thread, position, endpoint, data⟩] := by
  simp [broadcasts, sends, broadcastOf, sendOf, hsent]

/-- What is known of a run: its loops are well-formed, each thread has sent to each position its
part of the stream but for what it still has to send, every datagram went to the endpoint at its
position, and the list never shrank. -/
structure Streamed (history : List ConnectedRecord) (connected : ConnectedHost) : Prop where
  formed : LoopsWellFormed connected
  stream : ∀ thread position,
    sentBy thread position history ++ connected.unsent thread position =
      streamBy thread position history
  endpoint : ∀ send ∈ sends history, connected.epList[send.position]? = some send.endpoint
  growing : ((broadcasts history).map Broadcast.endpoints).Pairwise (· ≤ ·)
  bounded : ∀ broadcast ∈ broadcasts history, broadcast.endpoints ≤ connected.epList.length

theorem streamed_start : Streamed [] {} := by
  refine ⟨⟨fun _ _ ↦ rfl, fun thread _ _ hbusy _ ↦ ?_⟩, fun _ _ ↦ rfl, ?_, .nil, ?_⟩
  · cases thread <;> cases hbusy
  · simp [sends]
  · simp [broadcasts]

/-- An endpoint keeps its position when the list grows. -/
theorem getElem?_of_grown {list longer : List IPEndPoint} (hlist : list <+: longer)
    {position : ℕ} {endpoint : IPEndPoint} (hendpoint : list[position]? = some endpoint) :
    longer[position]? = some endpoint := by
  obtain ⟨rest, rfl⟩ := hlist
  rw [List.getElem?_append_left (List.getElem?_eq_some_iff.mp hendpoint).1, hendpoint]

theorem Streamed.step (hstreamed : Streamed history connected)
    (hstep : connected.step event = some (next, output)) :
    Streamed (history ++ [⟨connected, event, output, next⟩]) next := by
  obtain ⟨hformed, hact⟩ := streamStep_of_step hstep hstreamed.formed
  cases hact with
  | silent hlist hunsent hbegan hsent =>
    obtain ⟨hbroadcasts, hsends⟩ := logs_of_silent history
      ⟨connected, event, output, next⟩ hbegan hsent
    refine ⟨hformed, fun thread position ↦ ?_, fun send hsend ↦ ?_, ?_, fun broadcast hmem ↦ ?_⟩
    · simpa only [sentBy, streamBy, hbroadcasts, hsends, hunsent]
        using hstreamed.stream thread position
    · rw [hsends] at hsend
      exact getElem?_of_grown hlist (hstreamed.endpoint send hsend)
    · rw [hbroadcasts]
      exact hstreamed.growing
    · rw [hbroadcasts] at hmem
      exact (hstreamed.bounded broadcast hmem).trans hlist.length_le
  | began thread update hlist hbefore hafter hother =>
    obtain ⟨hbroadcasts, hsends⟩ := logs_of_began history
      ⟨connected, event, .began thread update connected.epList.length, next⟩ rfl
    refine ⟨hformed, fun any position ↦ ?_, fun send hsend ↦ ?_, ?_, fun broadcast hmem ↦ ?_⟩
    · have hbefore' := hstreamed.stream any position
      rw [streamBy_of_broadcast hbroadcasts, ← hbefore']
      simp only [sentBy, hsends]
      rcases thread.eq_or_eq_other any with rfl | rfl
      · simp [hbefore, hafter]
      · simp [hother, thread.other_ne.symm]
    · rw [hsends] at hsend
      rw [hlist]
      exact hstreamed.endpoint send hsend
    · rw [hbroadcasts, List.map_append, List.pairwise_append]
      refine ⟨hstreamed.growing, List.pairwise_singleton _ _, fun endpoints hmem last hlast ↦ ?_⟩
      obtain ⟨broadcast, hbroadcast, rfl⟩ := List.mem_map.mp hmem
      rw [List.mem_singleton.mp hlast]
      exact hstreamed.bounded broadcast hbroadcast
    · rw [hlist]
      rw [hbroadcasts] at hmem
      rcases List.mem_append.mp hmem with hold | hnew
      · exact hstreamed.bounded broadcast hold
      · rw [List.mem_singleton.mp hnew]
  | sent thread position endpoint data hlist hendpoint hunsent hother =>
    obtain ⟨hbroadcasts, hsends⟩ := logs_of_sent history
      ⟨connected, event, .sent thread position endpoint data, next⟩ rfl
    refine ⟨hformed, fun any position' ↦ ?_, fun send hsend ↦ ?_, ?_, fun broadcast hmem ↦ ?_⟩
    · have hbefore := hstreamed.stream any position'
      rw [sentBy_of_send hsends]
      simp only [streamBy, hbroadcasts] at hbefore ⊢
      rw [← hbefore, List.append_assoc]
      congr 1
      rcases thread.eq_or_eq_other any with rfl | rfl
      · simp [hunsent]
      · simp [hother, thread.other_ne.symm]
    · rw [hlist]
      rw [hsends] at hsend
      rcases List.mem_append.mp hsend with hold | hnew
      · exact hstreamed.endpoint send hold
      · rw [List.mem_singleton.mp hnew]
        exact hendpoint
    · rw [hbroadcasts]
      exact hstreamed.growing
    · rw [hlist]
      rw [hbroadcasts] at hmem
      exact hstreamed.bounded broadcast hmem

theorem streamed_of_run (hrun : ConnectedRun history connected) : Streamed history connected :=
  hrun.relation Streamed streamed_start fun _ _ _ _ _ _ hstreamed hstep ↦ hstreamed.step hstep

/-- What is still to be sent to a position by either thread, the loop that began earlier first. -/
def pending (history : List ConnectedRecord) (connected : ConnectedHost) (position : ℕ) :
    List Datagram :=
  match lastBegun history with
  | some thread => connected.unsent thread.other position ++ connected.unsent thread position
  | none => []

/-- Before the first broadcast there is nothing to send. -/
theorem unsent_of_lastBegun (hstreamed : Streamed history connected)
    (hnone : lastBegun history = none) (thread : Broadcaster) (position : ℕ) :
    connected.unsent thread position = [] := by
  have hempty : broadcasts history = [] := by
    simpa [lastBegun] using hnone
  have hstream := hstreamed.stream thread position
  rw [streamBy, hempty] at hstream
  exact (List.append_eq_nil_iff.mp hstream).2

theorem pending_of_lastBegun {thread : Broadcaster} (hlast : lastBegun history = some thread)
    (connected : ConnectedHost) (position : ℕ) :
    pending history connected position =
      connected.unsent thread.other position ++ connected.unsent thread position := by
  rw [pending, hlast]

/-- Without overtaking, every position is sent its stream in the order in which the broadcasts
began. -/
theorem sentAt_append_pending (hrun : ConnectedRun history connected)
    (hordered : EveryStep NoOvertaking history) (position : ℕ) :
    sentAt position history ++ pending history connected position = stream position history := by
  refine hrun.relation_of_everyStep
    (fun history connected ↦ sentAt position history ++ pending history connected position =
      stream position history) rfl ?_ hordered
  intro history connected event next output hrun hbefore hno hstep
  have hstreamed := streamed_of_run hrun
  obtain ⟨-, hact⟩ := streamStep_of_step hstep hstreamed.formed
  cases hact with
  | silent hlist hunsent hbegan hsent =>
    obtain ⟨hbroadcasts, hsends⟩ := logs_of_silent history
      ⟨connected, event, output, next⟩ hbegan hsent
    simpa only [sentAt, stream, pending, lastBegun, hbroadcasts, hsends, hunsent] using hbefore
  | began thread update hlist hnothing hafter hother =>
    obtain ⟨hbroadcasts, hsends⟩ := logs_of_began history
      ⟨connected, event, .began thread update connected.epList.length, next⟩ rfl
    -- the thread that begins has nothing left to send, so only the other one is ahead of it
    have hpending :
        pending history connected position = connected.unsent thread.other position := by
      unfold pending
      split
      · next last hlast =>
        rcases thread.eq_or_eq_other last with rfl | rfl
        · rw [hnothing, List.append_nil]
        · rw [Broadcaster.other_other, hnothing, List.nil_append]
      · next hnone => rw [unsent_of_lastBegun hstreamed hnone]
    have hlast : lastBegun (history ++
        [⟨connected, event, .began thread update connected.epList.length, next⟩]) =
          some thread := by
      simp [lastBegun, hbroadcasts]
    rw [hpending] at hbefore
    rw [stream_of_broadcast hbroadcasts, ← hbefore]
    simp [pending, hlast, sentAt, hsends, hother, hafter]
  | sent thread place endpoint data hlist hendpoint hunsent hother =>
    obtain ⟨hbroadcasts, hsends⟩ := logs_of_sent history
      ⟨connected, event, .sent thread place endpoint data, next⟩ rfl
    have hlast : lastBegun (history ++
        [⟨connected, event, .sent thread place endpoint data, next⟩]) = lastBegun history := by
      simp [lastBegun, hbroadcasts]
    have hstream : stream position (history ++
        [⟨connected, event, .sent thread place endpoint data, next⟩]) =
          stream position history := by
      simp [stream, hbroadcasts]
    rw [sentAt_of_send hsends, hstream, ← hbefore, List.append_assoc]
    congr 1
    cases hbegun : lastBegun history with
    | none =>
      have hthread := hunsent place
      rw [unsent_of_lastBegun hstreamed hbegun] at hthread
      simp at hthread
    | some last =>
      rw [pending_of_lastBegun hbegun, pending_of_lastBegun (hlast.trans hbegun)]
      rcases thread.eq_or_eq_other last with rfl | rfl
      · rw [hother, hunsent]
        by_cases hplace : place = position
        · have hahead : connected.unsent last.other place = [] := hno ⟨last, _, _, _⟩ rfl hbegun
          rw [if_pos hplace, ← hplace, hahead, List.nil_append, List.nil_append]
        · rw [if_neg hplace, List.nil_append, List.nil_append]
      · rw [Broadcaster.other_other, hother, hunsent, List.append_assoc]

/-- The datagrams at a position are a merge of those of the two threads. -/
theorem interleaving_sentBy (position : ℕ) (history : List ConnectedRecord) :
    Interleaving (sentBy .distributor position history) (sentBy .scanner position history)
      (sentAt position history) := by
  have hmerge := (interleaving_filter (fun send : Send ↦ decide (send.thread = .distributor))
    ((sends history).filter fun send ↦ send.position = position)).map Send.data
  have hdistributor : sentBy .distributor position history =
      (((sends history).filter fun send ↦ send.position = position).filter
        fun send ↦ decide (send.thread = .distributor)).map Send.data := by
    simp [sentBy, List.filter_filter]
  have hscanner : sentBy .scanner position history =
      (((sends history).filter fun send ↦ send.position = position).filter
        fun send ↦ !decide (send.thread = .distributor)).map Send.data := by
    rw [sentBy, List.filter_filter]
    refine congrArg (List.map Send.data) (List.filter_congr fun send _ ↦ ?_)
    cases send.thread <;> simp
  rw [hdistributor, hscanner]
  exact hmerge

/-- A stream is made of the parts of the two threads. -/
theorem stream_perm (position : ℕ) (history : List ConnectedRecord) :
    (stream position history).Perm
      (streamBy .distributor position history ++ streamBy .scanner position history) := by
  have hmerge := (interleaving_filter
    (fun broadcast : Broadcast ↦ decide (broadcast.thread = .distributor))
    ((broadcasts history).filter fun broadcast ↦ position < broadcast.endpoints)).perm
  rw [List.filter_filter, List.filter_filter] at hmerge
  have hscanner : ((broadcasts history).filter fun broadcast ↦
      !decide (broadcast.thread = .distributor) && decide (position < broadcast.endpoints)) =
        (broadcasts history).filter fun broadcast ↦
          broadcast.thread = .scanner ∧ position < broadcast.endpoints := by
    refine List.filter_congr fun broadcast _ ↦ ?_
    cases broadcast.thread <;> simp
  rw [hscanner] at hmerge
  simpa [stream, streamBy, encoded] using hmerge.map fun broadcast ↦ utf8GetBytes broadcast.update

/-- In a log of broadcasts over ever more endpoints, those that reach a position are those that
reach no later one, followed by those that do. -/
theorem filter_of_growing {position later : ℕ} (hposition : position ≤ later) :
    ∀ {log : List Broadcast}, (log.map Broadcast.endpoints).Pairwise (· ≤ ·) →
      log.filter (fun broadcast ↦ position < broadcast.endpoints) =
        log.filter (fun broadcast ↦
          position < broadcast.endpoints ∧ broadcast.endpoints ≤ later) ++
            log.filter (fun broadcast ↦ later < broadcast.endpoints) := by
  intro log
  induction log with
  | nil => simp
  | cons broadcast log ih =>
    intro hgrowing
    rw [List.map_cons, List.pairwise_cons] at hgrowing
    have hrest := ih hgrowing.2
    by_cases hlater : later < broadcast.endpoints
    · -- everything after a broadcast that reaches the later position reaches it too
      have hnone : log.filter (fun broadcast ↦
          position < broadcast.endpoints ∧ broadcast.endpoints ≤ later) = [] := by
        refine List.filter_eq_nil_iff.mpr fun other hother ↦ ?_
        have hlarger := hgrowing.1 other.endpoints (List.mem_map_of_mem hother)
        simp only [decide_eq_true_eq]
        omega
      rw [hnone, List.nil_append] at hrest
      rw [List.filter_cons_of_pos (by simpa using hposition.trans_lt hlater),
        List.filter_cons_of_neg (by simp only [decide_eq_true_eq]; omega),
        List.filter_cons_of_pos (by simpa using hlater), hnone, hrest, List.nil_append]
    · by_cases hearlier : position < broadcast.endpoints
      · rw [List.filter_cons_of_pos (by simpa using hearlier),
          List.filter_cons_of_pos (by simp only [decide_eq_true_eq]; omega),
          List.filter_cons_of_neg (by simpa using hlater), hrest, List.cons_append]
      · rw [List.filter_cons_of_neg (by simpa using hearlier),
          List.filter_cons_of_neg (by simp [hearlier]),
          List.filter_cons_of_neg (by simpa using hlater), hrest]

/-- The list only grows, so the stream of a position added later is the end of the stream of one
added before. -/
theorem stream_eq_append (hstreamed : Streamed history connected) {position later : ℕ}
    (hposition : position ≤ later) :
    stream position history = streamBetween position later history ++ stream later history := by
  simp only [stream, streamBetween, encoded, filter_of_growing hposition hstreamed.growing,
    List.map_append]

/-- The positions of an endpoint in the list, one for every `AddIPEP` of it. -/
def positionsOf (endpoint : IPEndPoint) (epList : List IPEndPoint) : List ℕ :=
  (List.range epList.length).filter fun position ↦ epList[position]? = some endpoint

/-- An endpoint is sent what its positions are sent. -/
theorem sentTo_perm (hstreamed : Streamed history connected) (endpoint : IPEndPoint) :
    (sentTo endpoint history).Perm
      ((positionsOf endpoint connected.epList).flatMap fun position ↦ sentAt position history) := by
  have hnodup : (positionsOf endpoint connected.epList).Nodup := List.nodup_range.filter _
  have hperm := (perm_flatMap_filter Send.position (sends history) hnodup).map Send.data
  have hmine : sentTo endpoint history = ((sends history).filter fun send ↦
      send.position ∈ positionsOf endpoint connected.epList).map Send.data := by
    refine congrArg (List.map Send.data) (List.filter_congr fun send hsend ↦ ?_)
    have hendpoint := hstreamed.endpoint send hsend
    have hposition := (List.getElem?_eq_some_iff.mp hendpoint).1
    have hmem : send.position ∈ positionsOf endpoint connected.epList ↔
        send.endpoint = endpoint := by
      rw [positionsOf, List.mem_filter, List.mem_range, hendpoint]
      simp [hposition]
    exact decide_eq_decide.mpr hmem.symm
  rw [List.map_flatMap] at hperm
  rw [hmine]
  exact hperm

/-- A position to which nothing is left to send was sent its stream, in some order. -/
theorem sentAt_perm_stream (hstreamed : Streamed history connected) {position : ℕ}
    (hdone : ∀ thread, connected.unsent thread position = []) :
    (sentAt position history).Perm (stream position history) := by
  have hby : ∀ thread, sentBy thread position history = streamBy thread position history := by
    intro thread
    have hstream := hstreamed.stream thread position
    rwa [hdone, List.append_nil] at hstream
  have hperm := (interleaving_sentBy position history).perm
  rw [hby, hby] at hperm
  exact hperm.trans (stream_perm position history).symm

/-- A position to which nothing is left to send was, without overtaking, sent its stream. -/
theorem sentAt_eq_stream (hrun : ConnectedRun history connected)
    (hordered : EveryStep NoOvertaking history) {position : ℕ}
    (hdone : ∀ thread, connected.unsent thread position = []) :
    sentAt position history = stream position history := by
  have hpending : pending history connected position = [] := by
    unfold pending
    split
    · rw [hdone, hdone, List.append_nil]
    · rfl
  have hstream := sentAt_append_pending hrun hordered position
  rwa [hpending, List.append_nil] at hstream

/-- Every `AddIPEP` gives its endpoint a stream of its own: by each of the two threads, its position
is sent exactly the updates whose broadcast began after the addition, each once and in the order of
that thread, but for what a loop still running has not sent yet; what it is sent is a merge of the
two, and an endpoint is sent what all its positions are. Two positions with nothing left to send
were, from the second addition on, sent the same updates, and in the same order when no loop
overtook one that began earlier. -/
theorem memberStreams (hrun : ConnectedRun history connected) :
    (∀ thread position, sentBy thread position history ++ connected.unsent thread position =
      streamBy thread position history) ∧
    (∀ position, Interleaving (sentBy .distributor position history)
      (sentBy .scanner position history) (sentAt position history)) ∧
    (∀ endpoint, (sentTo endpoint history).Perm
      ((positionsOf endpoint connected.epList).flatMap fun position ↦ sentAt position history)) ∧
    ∀ position later, position ≤ later →
      (∀ thread, connected.unsent thread position = [] ∧ connected.unsent thread later = []) →
        (sentAt position history).Perm
          (streamBetween position later history ++ sentAt later history) ∧
        (EveryStep NoOvertaking history →
          sentAt position history =
            streamBetween position later history ++ sentAt later history) := by
  have hstreamed := streamed_of_run hrun
  refine ⟨hstreamed.stream, fun position ↦ interleaving_sentBy position history,
    sentTo_perm hstreamed, fun position later hposition hdone ↦ ⟨?_, fun hordered ↦ ?_⟩⟩
  · have hfirst := sentAt_perm_stream hstreamed fun thread ↦ (hdone thread).1
    have hsecond := sentAt_perm_stream hstreamed fun thread ↦ (hdone thread).2
    rw [stream_eq_append hstreamed hposition] at hfirst
    exact hfirst.trans (hsecond.symm.append_left _)
  · rw [sentAt_eq_stream hrun hordered fun thread ↦ (hdone thread).1,
      sentAt_eq_stream hrun hordered fun thread ↦ (hdone thread).2,
      stream_eq_append hstreamed hposition]

end Streams

/-- A run over two positions: two updates, one from each thread, and a third endpoint that connects
afterwards. -/
theorem memberStreams_run : ∃ history connected, ConnectedRun history connected ∧
    sentBy .scanner 1 history ++ connected.unsent .scanner 1 = streamBy .scanner 1 history ∧
    (sentAt 0 history).Perm (streamBetween 0 1 history ++ sentAt 1 history) ∧
    sentAt 0 history = [utf8GetBytes (str "+1"), utf8GetBytes (str "-2")] := by
  obtain ⟨history, connected, hrun, -, hcheck⟩ := exists_run_of_execute ConnectedHost.step {}
    [.addIPEP ⟨0x7F000001, 4000⟩, .addIPEP ⟨0x0A000007, 4000⟩,
      .pipeline (.receive (utf8GetBytes (str "+1"))), .pipeline .distribute, .pipeline .distribute,
      .pipeline .distribute, .pipeline .distribute, .pipeline .distribute,
      .pipeline (.addTextChange (str "-2")), .pipeline .scan, .pipeline .scan, .pipeline .scan,
      .pipeline .scan, .pipeline .scan, .addIPEP ⟨0x0A000008, 4000⟩]
    (fun history connected ↦
      [Broadcaster.distributor, .scanner].all (fun thread ↦
        connected.unsent thread 0 = [] && connected.unsent thread 1 = []) &&
      sentAt 0 history = [utf8GetBytes (str "+1"), utf8GetBytes (str "-2")])
    (by decide +kernel)
  simp only [List.all_cons, List.all_nil, Bool.and_true, Bool.and_eq_true, decide_eq_true_eq]
    at hcheck
  obtain ⟨hstream, -, -, hagree⟩ := memberStreams hrun
  refine ⟨history, connected, hrun, hstream .scanner 1, (hagree 0 1 zero_le_one ?_).1, hcheck.2⟩
  rintro (_ | _)
  · exact hcheck.1.1
  · exact hcheck.1.2

/-- An endpoint that connects twice is sent an update twice. Two endpoints, each in the list once
and there from the start, are sent two updates in different orders when one loop overtakes the
other. And an endpoint that was in the list when a loop began is not sent its update when `AddIPEP`
runs before the loop gets there: the loop throws, and the process ends. -/
theorem memberStreams_differ :
    (∃ history connected, ConnectedRun history connected ∧
      (∀ thread, connected.enumerator thread = none) ∧
      broadcasts history = [⟨.scanner, str "+1", 2⟩] ∧
      sentTo ⟨0x7F000001, 4000⟩ history =
        [utf8GetBytes (str "+1"), utf8GetBytes (str "+1")]) ∧
    (∃ history connected, ConnectedRun history connected ∧
      (∀ thread, connected.enumerator thread = none) ∧
      connected.epList = [⟨0x7F000001, 4000⟩, ⟨0x0A000007, 4000⟩] ∧
      broadcasts history = [⟨.distributor, str "+1", 2⟩, ⟨.scanner, str "-2", 2⟩] ∧
      sentTo ⟨0x7F000001, 4000⟩ history = [utf8GetBytes (str "+1"), utf8GetBytes (str "-2")] ∧
      sentTo ⟨0x0A000007, 4000⟩ history = [utf8GetBytes (str "-2"), utf8GetBytes (str "+1")]) ∧
    ∃ history connected, ConnectedRun history connected ∧ connected.running = false ∧
      broadcasts history = [⟨.scanner, str "+1", 2⟩] ∧
      sentTo ⟨0x7F000001, 4000⟩ history = [utf8GetBytes (str "+1")] ∧
      sentTo ⟨0x0A000007, 4000⟩ history = [] := by
  refine ⟨?_, ?_, ?_⟩
  · obtain ⟨history, connected, hrun, -, hcheck⟩ := exists_run_of_execute ConnectedHost.step {}
      [.addIPEP ⟨0x7F000001, 4000⟩, .addIPEP ⟨0x7F000001, 4000⟩,
        .pipeline (.addTextChange (str "+1")), .pipeline .scan, .pipeline .scan, .pipeline .scan,
        .pipeline .scan, .pipeline .scan]
      (fun history connected ↦
        connected.enumerator .distributor = none && connected.enumerator .scanner = none &&
        broadcasts history = [⟨.scanner, str "+1", 2⟩] &&
        sentTo ⟨0x7F000001, 4000⟩ history =
          [utf8GetBytes (str "+1"), utf8GetBytes (str "+1")])
      (by decide +kernel)
    simp only [Bool.and_eq_true, decide_eq_true_eq] at hcheck
    obtain ⟨⟨⟨hdistributor, hscanner⟩, hbroadcasts⟩, hsent⟩ := hcheck
    exact ⟨history, connected, hrun, fun thread ↦ by cases thread <;> assumption, hbroadcasts,
      hsent⟩
  · obtain ⟨history, connected, hrun, -, hcheck⟩ := exists_run_of_execute ConnectedHost.step {}
      [.addIPEP ⟨0x7F000001, 4000⟩, .addIPEP ⟨0x0A000007, 4000⟩,
        .pipeline (.receive (utf8GetBytes (str "+1"))), .pipeline (.addTextChange (str "-2")),
        .pipeline .distribute, .pipeline .distribute, .pipeline .distribute,
        .pipeline .scan, .pipeline .scan, .pipeline .scan, .pipeline .scan, .pipeline .scan,
        .pipeline .distribute, .pipeline .distribute]
      (fun history connected ↦
        connected.enumerator .distributor = none && connected.enumerator .scanner = none &&
        connected.epList = [⟨0x7F000001, 4000⟩, ⟨0x0A000007, 4000⟩] &&
        broadcasts history = [⟨.distributor, str "+1", 2⟩, ⟨.scanner, str "-2", 2⟩] &&
        sentTo ⟨0x7F000001, 4000⟩ history =
          [utf8GetBytes (str "+1"), utf8GetBytes (str "-2")] &&
        sentTo ⟨0x0A000007, 4000⟩ history =
          [utf8GetBytes (str "-2"), utf8GetBytes (str "+1")])
      (by decide +kernel)
    simp only [Bool.and_eq_true, decide_eq_true_eq] at hcheck
    obtain ⟨⟨⟨⟨⟨hdistributor, hscanner⟩, hlist⟩, hbroadcasts⟩, hfirst⟩, hsecond⟩ := hcheck
    exact ⟨history, connected, hrun, fun thread ↦ by cases thread <;> assumption, hlist,
      hbroadcasts, hfirst, hsecond⟩
  · obtain ⟨history, connected, hrun, -, hcheck⟩ := exists_run_of_execute ConnectedHost.step {}
      [.addIPEP ⟨0x7F000001, 4000⟩, .addIPEP ⟨0x0A000007, 4000⟩,
        .pipeline (.addTextChange (str "+1")), .pipeline .scan, .pipeline .scan, .pipeline .scan,
        .addIPEP ⟨0x0A000008, 4000⟩, .pipeline .scan]
      (fun history connected ↦
        connected.running = false && broadcasts history = [⟨.scanner, str "+1", 2⟩] &&
        sentTo ⟨0x7F000001, 4000⟩ history = [utf8GetBytes (str "+1")] &&
        sentTo ⟨0x0A000007, 4000⟩ history = [])
      (by decide +kernel)
    simp only [Bool.and_eq_true, decide_eq_true_eq] at hcheck
    obtain ⟨⟨⟨hrunning, hbroadcasts⟩, hfirst⟩, hsecond⟩ := hcheck
    exact ⟨history, connected, hrun, hrunning, hbroadcasts, hfirst, hsecond⟩

end NovaIde.Client
