import NovaIde.Foundation.LastEntry
import NovaIde.Server.RequestEffects

/-!
# Tokens, invites and session threads along a run

The observers of this module read off a step the token it issues, the invite it brings and the
thread it moves, and `SessionStep` lists what a step can do to the tokens, the threads and the data
they share. The invite map is then the history of the recorded invites: it reads, at every name, as
the target of the latest invite recorded for that name, and as the empty string where there is none
(`read_sessionInvites_of_run`).
-/

set_option autoImplicit false
set_option relaxedAutoImplicit false

namespace NovaIde.Server

open Foundation Foundation.EventRun

/-! ### Observers -/

/-- The login a step completes: the name and the token issued to it. -/
def issuedToken (record : ServerRecord) : Option (Bytes × Bytes) :=
  match record.event, record.observation.result with
  | .receive userInfo _ _, [code, token] =>
    if requestKind userInfo = some .login ∧ code = infoCorrect then
      (getDetails userInfo)[0]?.map fun name ↦ (name, token)
    else none
  | _, _ => none

/-- The token and the target of a `J` request. -/
def sessionRequest : Event → Option (Bytes × Bytes)
  | .receive userInfo _ _ =>
    if requestKind userInfo = some .session then do
      return (← (getDetails userInfo)[0]?, ← (getDetails userInfo)[1]?)
    else none
  | .thread _ => none

/-- The thread a step moves, as it was before the step. -/
def movedThread (record : ServerRecord) : Option SessionHandler :=
  match record.event with
  | .receive _ _ _ => none
  | .thread index => record.before.handlers[index]?

/-- The invite a step receives: the name its token resolves to, and its target. -/
def receivedInvite (record : ServerRecord) : Option (Bytes × Bytes) :=
  (sessionRequest record.event).map fun request ↦
    (record.before.accounts.usersList.read request.1, request.2)

/-- The invite a step records in `sessionInvites`. -/
def recordedInvite (record : ServerRecord) : Option (Bytes × Bytes) :=
  ((movedThread record).filter fun handler ↦ handler.stage = .assignInvite).map fun handler ↦
    (handler.current, handler.wanted)

/-- The target of the latest invite recorded for a name. -/
def latestInvite (history : List ServerRecord) : Bytes → Option Bytes :=
  lastEntry Prod.fst Prod.snd (history.filterMap recordedInvite)

/-- A thread step records the invite of its thread exactly at the first stage. -/
theorem recordedInvite_of_moved {record : ServerRecord} {handler : SessionHandler}
    (hmoved : movedThread record = some handler) :
    recordedInvite record =
      if handler.stage = .assignInvite then some (handler.current, handler.wanted) else none := by
  by_cases hstage : handler.stage = .assignInvite
  · simp [recordedInvite, hmoved, hstage, Option.filter_some]
  · simp [recordedInvite, hmoved, hstage, Option.filter_some]

theorem latestInvite_append_singleton (history : List ServerRecord) (record : ServerRecord) :
    latestInvite (history ++ [record]) =
      match recordedInvite record with
      | some invite => Function.update (latestInvite history) invite.1 (some invite.2)
      | none => latestInvite history := by
  unfold latestInvite
  rw [List.filterMap_append]
  cases hinvite : recordedInvite record with
  | none => simp [hinvite]
  | some invite => simp [hinvite, lastEntry_append_singleton]

/-! ### What a step does to the sessions -/

/-- The ways a step acts on the tokens, the session threads and the data they share: not at all,
by completing a login, by starting a thread, or by moving one. -/
inductive SessionStep (record : ServerRecord) : Prop
  | other (hissued : issuedToken record = none) (hrequest : sessionRequest record.event = none)
      (hmoved : movedThread record = none) (hdetails : record.observation.details = [])
      (htokens : record.after.accounts.usersList = record.before.accounts.usersList)
      (hhandlers : record.after.handlers = record.before.handlers)
      (hexchange : record.after.exchange = record.before.exchange)
  | login (name token : Bytes) (clientAddr : SockAddr)
      (hissued : issuedToken record = some (name, token))
      (hrequest : sessionRequest record.event = none) (hmoved : movedThread record = none)
      (hdetails : record.observation.details = [])
      (htokens : record.after.accounts.usersList =
        record.before.accounts.usersList.assign token name)
      (hhandlers : record.after.handlers = record.before.handlers)
      (hexchange : record.after.exchange = addClientAddress record.before.exchange name clientAddr)
  | request (token target : Bytes) (hissued : issuedToken record = none)
      (hrequest : sessionRequest record.event = some (token, target))
      (hmoved : movedThread record = none) (hdetails : record.observation.details = [])
      (htokens : record.after.accounts.usersList = record.before.accounts.usersList.touch token)
      (hhandlers : record.after.handlers = record.before.handlers ++
        [⟨record.before.accounts.usersList.read token, target, .assignInvite⟩])
      (hexchange : record.after.exchange = record.before.exchange)
  | thread (index : ℕ) (handler handler' : SessionHandler)
      (hissued : issuedToken record = none) (hrequest : sessionRequest record.event = none)
      (hmoved : movedThread record = some handler)
      (htokens : record.after.accounts.usersList = record.before.accounts.usersList)
      (hhandler : record.before.handlers[index]? = some handler)
      (hhandlers : record.after.handlers = record.before.handlers.set index handler')
      (hsession : sessionStep record.before.exchange handler =
        some (record.after.exchange, handler', record.observation.details))

/-- A request of another kind than a login or a `J` request only touches the accounts, and not the
tokens. -/
theorem sessionStep_of_answered {server : ServerState} {userInfo : Bytes} {clientAddr : SockAddr}
    {environment : Environment} {handled : Handled}
    (hlogin : requestKind userInfo ≠ some .login) (hsession : requestKind userInfo ≠ some .session)
    (htokens : handled.accounts.usersList = server.accounts.usersList) :
    SessionStep ⟨server, .receive userInfo clientAddr environment,
      (answered server clientAddr handled).2, (answered server clientAddr handled).1⟩ := by
  refine .other ?_ (by simp [sessionRequest, hsession]) rfl rfl htokens rfl rfl
  unfold issuedToken
  split
  · next hevent _ =>
    cases hevent
    simp [hlogin]
  · rfl

/-- Every step acts on the sessions in one of these ways. -/
theorem sessionStep_of_step {server next : ServerState} {event : Event} {observation : Observation}
    (hstep : step server event = some (next, observation)) :
    SessionStep ⟨server, event, observation, next⟩ := by
  cases stepShape_of_step hstep with
  | ignored hkind => exact .other rfl (by simp [sessionRequest, hkind]) rfl rfl rfl rfl rfl
  | @login userInfo clientAddr environment handled hkind hhandled =>
    obtain ⟨username, password, husername, -, rfl⟩ := handleLogin_eq_ok.mp hhandled
    have hrequest : sessionRequest (.receive userInfo clientAddr environment) = none := by
      simp [sessionRequest, hkind]
    split_ifs
    · have hread : (server.accounts.usersList.assign environment.sessionToken username).read
          environment.sessionToken = username := SubscriptMap.read_assign_self _ _ _
      refine .login username environment.sessionToken clientAddr ?_ hrequest rfl ?_ ?_ ?_ ?_
      · simp [issuedToken, completeLogin, hkind, husername]
      · simp [completeLogin]
      · simp [completeLogin]
      · simp [completeLogin]
      · simp [completeLogin]
    · exact .other rfl hrequest rfl rfl rfl rfl rfl
    · exact .other rfl hrequest rfl rfl rfl rfl rfl
  | signup hkind hhandled =>
    obtain ⟨username, password, email, -, -, -, rfl⟩ := handleSignup_eq_ok.mp hhandled
    refine sessionStep_of_answered (by simp [hkind]) (by simp [hkind]) ?_
    split_ifs <;> rfl
  | @session userInfo clientAddr environment handled hkind hhandled =>
    obtain ⟨token, target, htoken, htarget, rfl⟩ := handleSessionReq_eq_ok.mp hhandled
    refine .request token target ?_ ?_ rfl rfl rfl rfl rfl
    · simp [issuedToken, enterSession, hkind]
    · simp [sessionRequest, hkind, htoken, htarget]
  | codeCheck hkind hhandled =>
    obtain ⟨username, password, email, code, -, -, -, -, rfl⟩ := verifyPasscode_eq_ok.mp hhandled
    refine sessionStep_of_answered (by simp [hkind]) (by simp [hkind]) ?_
    split_ifs <;> rfl
  | mailCode hkind hhandled =>
    obtain ⟨username, email, -, -, rfl⟩ := handleEmailReq_eq_ok.mp hhandled
    refine sessionStep_of_answered (by simp [hkind]) (by simp [hkind]) ?_
    split_ifs <;> rfl
  | newPass hkind hhandled =>
    obtain ⟨username, newPassword, email, passcode, -, -, -, -, rfl⟩ :=
      handlePassReset_eq_ok.mp hhandled
    refine sessionStep_of_answered (by simp [hkind]) (by simp [hkind]) ?_
    split_ifs <;> rfl
  | @thread index handler handler' exchange details hhandler hsession =>
    exact .thread index handler handler' rfl rfl hhandler rfl hhandler rfl hsession

/-- Where the threads after a step come from: a thread was there before, or serves the `J` request
of the step, or was moved by it. A thread is only ready to send when it has just found the invite
of its second client to name its first. -/
theorem thread_of_step {record : ServerRecord} (hstep : SessionStep record)
    {handler : SessionHandler} (hhandler : handler ∈ record.after.handlers) :
    handler ∈ record.before.handlers ∨
      (∃ token target, sessionRequest record.event = some (token, target) ∧
        handler = ⟨record.before.accounts.usersList.read token, target, .assignInvite⟩) ∨
      ∃ old ∈ record.before.handlers, movedThread record = some old ∧
        handler.current = old.current ∧ handler.wanted = old.wanted ∧
        (handler.stage = .sendDetails →
          record.before.exchange.sessionInvites.read handler.wanted = handler.current) := by
  cases hstep with
  | other _ _ _ _ _ hhandlers _ => exact Or.inl (hhandlers ▸ hhandler)
  | login _ _ _ _ _ _ _ _ hhandlers _ => exact Or.inl (hhandlers ▸ hhandler)
  | request token target _ hrequest _ _ _ hhandlers _ =>
    rw [hhandlers, List.mem_append, List.mem_singleton] at hhandler
    exact hhandler.imp_right fun hnew ↦ Or.inl ⟨token, target, hrequest, hnew⟩
  | thread index old handler' _ _ hmoved _ hold hhandlers hsession =>
    rw [hhandlers] at hhandler
    rcases List.mem_or_eq_of_mem_set hhandler with hsame | rfl
    · exact Or.inl hsame
    · obtain ⟨hcurrent, hwanted, hcases⟩ := sessionStep_cases hsession
      refine Or.inr (Or.inr ⟨old, List.mem_of_getElem? hold, hmoved, hcurrent, hwanted,
        fun hstage ↦ ?_⟩)
      rw [hcurrent, hwanted]
      grind

/-! ### The invite map -/

/-- What one step does to the reads of the invite map. -/
theorem read_sessionInvites_of_step {record : ServerRecord} (hstep : SessionStep record)
    (name : Bytes) :
    record.after.exchange.sessionInvites.read name =
      match recordedInvite record with
      | some invite =>
        if name = invite.1 then invite.2 else record.before.exchange.sessionInvites.read name
      | none => record.before.exchange.sessionInvites.read name := by
  cases hstep with
  | other _ _ hmoved _ _ _ hexchange => simp [recordedInvite, hmoved, hexchange]
  | login _ _ _ _ _ hmoved _ _ _ hexchange =>
    simp [recordedInvite, hmoved, hexchange, addClientAddress]
  | request _ _ _ _ hmoved _ _ _ hexchange => simp [recordedInvite, hmoved, hexchange]
  | thread index handler handler' _ _ hmoved _ _ _ hsession =>
    obtain ⟨-, -, hcases⟩ := sessionStep_cases hsession
    rw [recordedInvite_of_moved hmoved]
    rcases hcases with ⟨hstage, -, -, hinvites, -⟩ | ⟨hstage, -, hexchange, -⟩ |
      ⟨hstage, -, -, hinvites, -⟩ | ⟨hstage, -, hinvites, -⟩ | ⟨hstage, -, hinvites, -⟩ |
      ⟨hstage, -, -, hinvites, -⟩
    · by_cases hname : name = handler.current
      · simp [hstage, hinvites, hname]
      · simp [hstage, hinvites, hname, SubscriptMap.read_assign_of_ne]
    · simp [hstage, hexchange]
    all_goals simp [hstage, hinvites]

/-- The invite map reads as the target of the latest invite recorded for the name, and as the empty
string where none was. -/
theorem read_sessionInvites_of_run {users : List Row} {history : List ServerRecord}
    {server : ServerState} (hrun : ServerRun users history server) (name : Bytes) :
    server.exchange.sessionInvites.read name = (latestInvite history name).getD [] := by
  induction hrun with
  | start => rfl
  | extend hrun hstep ih =>
    rw [read_sessionInvites_of_step (sessionStep_of_step hstep) name,
      latestInvite_append_singleton]
    cases recordedInvite _ with
    | none => exact ih
    | some invite =>
      by_cases hname : name = invite.1
      · simp [hname]
      · simp [hname, ih]

end NovaIde.Server
