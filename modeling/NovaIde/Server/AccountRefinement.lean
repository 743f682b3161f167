import NovaIde.Foundation.LastEntry
import NovaIde.Server.CodeAuthentication
import Mathlib.Data.List.TakeWhile

/-!
# The account store as a map from usernames to passwords

A table may hold several rows of one username. `account` is the map it stands for: the password in
the last row of a username. While the SQL statements succeed, an accepted `C` request is an
assignment to that map, an accepted `N` request overwrites the password of a username that has one,
and a login is a lookup (`account_apply`, `handleLogin_result`). Hence after any run from the empty
table the map is determined by the accepted requests alone: a username has an account once a `C`
request for it was accepted, and its password is the one of the latest accepted request from then
on (`account_of_run`), so every login of the run is answered from that history
(`login_answered`).
-/

set_option autoImplicit false
set_option relaxedAutoImplicit false

namespace NovaIde.Server

open Foundation Foundation.EventRun

/-! ### The map behind a table -/

/-- The map from usernames to passwords that a table stands for. -/
def account (users : List Row) : Bytes → Option Bytes :=
  lastEntry Row.username Row.password users

/-- What an accepted request does to the map: a `C` request assigns a password, an `N` request
overwrites one. -/
def CodeRequest.write (request : CodeRequest) (accounts : Bytes → Option Bytes) :
    Bytes → Option Bytes :=
  Function.update accounts request.username
    (match request.use with
      | .create => some request.password
      | .reset => (accounts request.username).map fun _ ↦ request.password)

/-- The table operation of an accepted request refines the write to the map. -/
theorem account_apply {request : CodeRequest} (hsql : ∀ statement, request.sql statement = true)
    (users : List Row) : account (request.apply users) = request.write (account users) := by
  unfold CodeRequest.apply CodeRequest.write account
  cases request.use with
  | create =>
    rw [addNewUser, if_pos (hsql _)]
    exact lastEntry_append_singleton users ⟨request.username, request.password, request.email⟩
  | reset =>
    rw [changePassword, if_pos (hsql _)]
    have hkey : ∀ row : Row, row.username = request.username →
        ({ row with password := request.password } : Row).username = request.username :=
      fun _ husername ↦ husername
    exact lastEntry_rewrite _ hkey (fun _ _ ↦ rfl) users

/-- A username exists exactly when the map has a password for it. -/
theorem doesUserExist_eq_isSome {sql : SqlOutcome} (hsql : ∀ statement, sql statement = true)
    (users : List Row) (username : Bytes) :
    doesUserExist sql users username = (account users username).isSome := by
  rw [Bool.eq_iff_iff, doesUserExist_eq_true, Option.isSome_iff_ne_none, ne_eq, account,
    lastEntry_eq_none_iff]
  push Not
  exact and_iff_right (hsql _)

/-- A password matches exactly when it is the one in the map, for a username that exists. -/
theorem doesPasswordMatch_iff {sql : SqlOutcome} (hsql : ∀ statement, sql statement = true)
    {users : List Row} {username stored : Bytes} (hstored : account users username = some stored)
    (password : Bytes) :
    doesPasswordMatch sql users username password = true ↔ stored = password := by
  have hvalue : valueByUsername Row.password users username = stored := by
    rw [valueByUsername, foldl_eq_getD_lastEntry]
    exact congrArg (Option.getD · []) hstored
  rw [doesPasswordMatch, if_pos (hsql _), hvalue, decide_eq_true_iff]

/-- The result vector of a login, read from the map. -/
theorem handleLogin_result {environment : Environment}
    (hsql : ∀ statement, environment.sql statement = true) {accounts : Accounts}
    {userInfo username password : Bytes} {handled : Handled}
    (husername : (getDetails userInfo)[0]? = some username)
    (hpassword : (getDetails userInfo)[1]? = some password)
    (hhandled : handleLogin environment accounts userInfo = .ok handled) :
    handled.result =
      match account accounts.users username with
      | some stored => if stored = password then [infoCorrect, username] else [incorrectPass]
      | none => [invalidUser] := by
  obtain ⟨username', password', husername', hpassword', rfl⟩ := handleLogin_eq_ok.mp hhandled
  rw [husername, Option.some.injEq] at husername'
  rw [hpassword, Option.some.injEq] at hpassword'
  subst husername' hpassword'
  rw [doesUserExist_eq_isSome hsql]
  cases hstored : account accounts.users username with
  | none => rfl
  | some stored =>
    simp only [Option.isSome_some, if_true, doesPasswordMatch_iff hsql hstored]

/-! ### The accepted requests of a run -/

/-- The request of a step, if it brings a code that its check accepts. -/
def acceptedRequest (record : ServerRecord) : Option CodeRequest :=
  (codeRequest record.event).filter fun request ↦ request.accepted record.before

/-- The accepted `C` and `N` requests of a username, oldest first. -/
def acceptedRequests (history : List ServerRecord) (username : Bytes) : List CodeRequest :=
  (history.filterMap acceptedRequest).filter fun request ↦ request.username = username

/-- A `C` request for the username was accepted. -/
def SignedUp (history : List ServerRecord) (username : Bytes) : Prop :=
  ∃ request ∈ acceptedRequests history username, request.use = .create

/-- The password of the latest accepted `C` or `N` request of a username, at or after its first
accepted `C` request. -/
def latestPassword (history : List ServerRecord) (username : Bytes) : Option Bytes :=
  ((acceptedRequests history username).dropWhile fun request ↦ request.use = .reset).getLast?.map
    CodeRequest.password

/-- There is a latest password exactly for the usernames that signed up. -/
theorem latestPassword_ne_none_iff {history : List ServerRecord} {username : Bytes} :
    latestPassword history username ≠ none ↔ SignedUp history username := by
  have huse : ∀ request : CodeRequest, ¬ request.use = .reset ↔ request.use = .create := by
    intro request
    cases request.use <;> simp
  simp [latestPassword, SignedUp, List.dropWhile_eq_nil_iff, huse]

theorem acceptedRequests_append_singleton (history : List ServerRecord) (record : ServerRecord)
    (username : Bytes) :
    acceptedRequests (history ++ [record]) username =
      acceptedRequests history username ++
        ((acceptedRequest record).filter fun request ↦ request.username = username).toList := by
  unfold acceptedRequests
  rw [List.filterMap_append, List.filter_append]
  cases hrequest : acceptedRequest record with
  | none => simp [hrequest]
  | some request =>
    by_cases husername : request.username = username
    · simp [hrequest, husername, Option.filter_some]
    · simp [hrequest, husername, Option.filter_some]

/-- What one step does to the latest passwords: an accepted request writes to them as to the
map. -/
theorem latestPassword_append_singleton (history : List ServerRecord) (record : ServerRecord) :
    latestPassword (history ++ [record]) =
      match acceptedRequest record with
      | some request => request.write (latestPassword history)
      | none => latestPassword history := by
  ext1 username
  rw [latestPassword, acceptedRequests_append_singleton]
  cases hrequest : acceptedRequest record with
  | none => simp [latestPassword]
  | some request =>
    by_cases husername : request.username = username
    · subst husername
      simp only [CodeRequest.write, latestPassword, Function.update_self, Option.filter_some,
        decide_true, if_true, Option.toList_some, List.dropWhile_append, List.isEmpty_iff]
      cases huse : request.use with
      | create => split_ifs <;> simp [huse]
      | reset =>
        split_ifs with hempty
        · simp [huse, hempty]
        · simp [List.getLast?_eq_getLast_of_ne_nil hempty]
    · simp [CodeRequest.write, latestPassword, husername, Option.filter_some,
        Function.update_of_ne (Ne.symm husername)]

/-! ### Logins are answered from the history -/

/-- Every SQL statement of a step succeeds. -/
def StatementsSucceed (_ : List ServerRecord) (record : ServerRecord) : Prop :=
  match record.event with
  | .receive _ _ environment => ∀ statement, environment.sql statement = true
  | .thread _ => True

/-- A request that brings a code runs its statements in the environment of its step. -/
theorem StatementsSucceed.sql {earlier : List ServerRecord} {record : ServerRecord}
    (hsucceed : StatementsSucceed earlier record) {request : CodeRequest}
    (hrequest : codeRequest record.event = some request) :
    ∀ statement, request.sql statement = true := by
  unfold StatementsSucceed at hsucceed
  cases hevent : record.event with
  | receive userInfo clientAddr environment =>
    rw [hevent] at hsucceed hrequest
    simp only [codeRequest, Option.bind_eq_bind, Option.bind_eq_some_iff] at hrequest
    obtain ⟨_, -, _, -, _, -, _, -, _, -, hrequest⟩ := hrequest
    cases hrequest
    exact hsucceed
  | thread index => simp [hevent, codeRequest] at hrequest

/-- What one step does to the map behind the table. -/
theorem account_of_step {earlier : List ServerRecord} {server next : ServerState} {event : Event}
    {observation : Observation} (hstep : step server event = some (next, observation))
    (hsucceed : StatementsSucceed earlier ⟨server, event, observation, next⟩) :
    account next.accounts.users =
      match acceptedRequest ⟨server, event, observation, next⟩ with
      | some request => request.write (account server.accounts.users)
      | none => account server.accounts.users := by
  rw [users_of_step hstep, acceptedRequest]
  cases hrequest : codeRequest event with
  | none => rfl
  | some request =>
    by_cases haccepted : request.accepted server = true
    · simp [haccepted, Option.filter_some, account_apply (hsucceed.sql hrequest)]
    · simp [haccepted, Option.filter_some]

/-- After a run from the empty table the map behind the table holds the latest passwords. -/
theorem account_of_run {history : List ServerRecord} {server : ServerState}
    (hrun : ServerRun [] history server) (hsucceed : EveryStep StatementsSucceed history) :
    account server.accounts.users = latestPassword history := by
  refine hrun.relation_of_everyStep
    (fun history server ↦ account server.accounts.users = latestPassword history) ?_
    (fun history server event next observation _ ih hstatements hstep ↦ ?_) hsucceed
  · rfl
  · rw [account_of_step hstep hstatements, latestPassword_append_singleton, ih]

/-- A login is answered by one reply to its sender, and the first field of the reply is the code of
its result. -/
theorem reply_completeLogin (environment : Environment) (server : ServerState)
    (clientAddr : SockAddr) {handled : Handled} {number : ℕ} {rest : List Bytes}
    (hresult : handled.result = toText number :: rest) :
    ∃ reply, (completeLogin environment server clientAddr handled).2.replies = [reply] ∧
      reply.destination = clientAddr ∧ firstField reply.payload = toText number := by
  have hfirst := firstField_responseText (separator_notMem_toText number)
  unfold completeLogin answered
  split
  · next code username hpair =>
    rw [hpair] at hresult
    obtain ⟨rfl, -⟩ := List.cons.inj hresult
    split_ifs
    · exact ⟨_, rfl, by simp [sendResponse, addClientAddress], hfirst _⟩
    · refine ⟨_, rfl, rfl, ?_⟩
      rw [hpair]
      exact hfirst _
  · refine ⟨_, rfl, rfl, ?_⟩
    rw [hresult]
    exact hfirst _

/-- A login request is answered from the requests accepted before it, by one reply to its sender:
the first field of the reply says whether the username signed up and whether the password is the
latest one. -/
def LoginAnswered (earlier : List ServerRecord) (record : ServerRecord) : Prop :=
  ∀ (userInfo : Bytes) (clientAddr : SockAddr) (environment : Environment)
    (username password : Bytes),
    record.event = .receive userInfo clientAddr environment →
    requestKind userInfo = some .login → (getDetails userInfo)[0]? = some username →
    (getDetails userInfo)[1]? = some password →
      ∃ reply, record.observation.replies = [reply] ∧ reply.destination = clientAddr ∧
        (firstField reply.payload = infoCorrect ↔
          SignedUp earlier username ∧ latestPassword earlier username = some password) ∧
        (firstField reply.payload = incorrectPass ↔
          SignedUp earlier username ∧ latestPassword earlier username ≠ some password) ∧
        (firstField reply.payload = invalidUser ↔ ¬ SignedUp earlier username)

/-- Every login of a run from the empty table is answered from the history, when the statements
succeed. -/
theorem login_answered {history : List ServerRecord} {server : ServerState}
    (hrun : ServerRun [] history server) (hsucceed : EveryStep StatementsSucceed history) :
    EveryStep LoginAnswered history := by
  refine hrun.everyStep_of_everyStep (fun earlier record hearlier hbefore hstatements hstep ↦ ?_)
    hsucceed
  intro userInfo clientAddr environment username password hevent hkind husername hpassword
  have hsql : ∀ statement, environment.sql statement = true := by
    simpa [StatementsSucceed, hevent] using hstatements
  obtain ⟨reply, hreplies, hsender, hfirst⟩ : ∃ reply, record.observation.replies = [reply] ∧
      reply.destination = clientAddr ∧ firstField reply.payload =
        match latestPassword earlier username with
        | some stored => if stored = password then infoCorrect else incorrectPass
        | none => invalidUser := by
    rw [hevent] at hstep
    cases hhandled : handleLogin environment record.before.accounts userInfo with
    | error fault => simp [step, analyzeUser, hkind, hhandled, Except.map, Except.toOption] at hstep
    | ok handled =>
      simp only [step, analyzeUser, hkind, hhandled, Except.map, Except.toOption,
        Option.some.injEq, Prod.ext_iff] at hstep
      have hresult := handleLogin_result hsql husername hpassword hhandled
      rw [account_of_run hearlier hbefore] at hresult
      rw [← hstep.2]
      cases hstored : latestPassword earlier username with
      | none =>
        rw [hstored] at hresult
        exact reply_completeLogin environment record.before clientAddr hresult
      | some stored =>
        simp only [hstored] at hresult ⊢
        split_ifs at hresult ⊢ with hmatch
        · exact reply_completeLogin environment record.before clientAddr hresult
        · exact reply_completeLogin environment record.before clientAddr hresult
  have hcodes : infoCorrect ≠ incorrectPass ∧ infoCorrect ≠ invalidUser ∧
      incorrectPass ≠ invalidUser := by decide
  refine ⟨reply, hreplies, hsender, ?_⟩
  rw [hfirst, ← latestPassword_ne_none_iff]
  cases latestPassword earlier username with
  | none => simp [hcodes.2.1.symm, hcodes.2.2.symm]
  | some stored =>
    by_cases hstored : stored = password
    · simp [hstored, hcodes.1, hcodes.2.1]
    · simp [hstored, hcodes.1.symm, hcodes.2.2]

/-- In the calm environment every statement succeeds. -/
theorem everyStep_statementsSucceed {history : List ServerRecord} {texts : List String}
    (hevents : history.map StepRecord.event = texts.map request) :
    EveryStep StatementsSucceed history := by
  refine everyStep_iff_forall_mem.mpr fun record hrecord ↦ ?_
  have hevent : record.event ∈ texts.map request := hevents ▸ List.mem_map_of_mem hrecord
  obtain ⟨text, -, htext⟩ := List.mem_map.mp hevent
  rw [← htext]
  exact fun _ ↦ rfl

/-- A user with two rows logs in with the password of the later one, is refused with the other one,
and a user without a row is unknown. -/
theorem login_answered_duplicate :
    ∃ history server, ServerRun [] history server ∧ server.accounts.users.length = 2 ∧
      (history.flatMap fun record ↦ record.observation.replies.map fun reply ↦
        firstField reply.payload).drop 3 = [infoCorrect, incorrectPass, invalidUser] ∧
      EveryStep LoginAnswered history := by
  obtain ⟨history, server, hrun, hevents, hcheck⟩ := exists_run_of_execute step (start [])
    (["S:ann:pass:a@x.c", "C:ann:pass:a@x.c:100000", "C:ann:word:a@x.c:100000", "L:ann:word",
      "L:ann:pass", "L:bob:word"].map request)
    (fun history server ↦ server.accounts.users.length = 2 ∧
      (history.flatMap fun record ↦ record.observation.replies.map fun reply ↦
        firstField reply.payload).drop 3 = [infoCorrect, incorrectPass, invalidUser])
    (by decide +kernel)
  obtain ⟨hrows, hanswers⟩ := of_decide_eq_true hcheck
  exact ⟨history, server, hrun, hrows, hanswers,
    login_answered hrun (everyStep_statementsSucceed hevents)⟩

end NovaIde.Server
