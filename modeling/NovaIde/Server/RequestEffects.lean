import NovaIde.Server.ServerSystem

/-!
# What one request does to the accounts

`StepShape` lists the ways the server can take a step, and everything later modules use about
single steps is read off it once. This module reads off what a step does to the accounts: which
rows it writes (`users_of_step`) and how it changes the codes that `isCodeCorrect` compares with
(`read_resetCodes_of_step`).

The C and the N request carry the same four fields and both act when the code they bring is the
one stored for the email they bring, so both are a `CodeRequest`.
-/

set_option autoImplicit false
set_option relaxedAutoImplicit false

namespace NovaIde.Server

open Foundation Foundation.EventRun

/-- The ways the server takes a step. -/
inductive StepShape (server : ServerState) : Event → ServerState → Observation → Prop
  | ignored {userInfo : Bytes} {clientAddr : SockAddr} {environment : Environment}
      (hkind : requestKind userInfo = none) :
      StepShape server (.receive userInfo clientAddr environment) server {}
  | login {userInfo : Bytes} {clientAddr : SockAddr} {environment : Environment}
      {handled : Handled} (hkind : requestKind userInfo = some .login)
      (hhandled : handleLogin environment server.accounts userInfo = .ok handled) :
      StepShape server (.receive userInfo clientAddr environment)
        (completeLogin environment server clientAddr handled).1
        (completeLogin environment server clientAddr handled).2
  | signup {userInfo : Bytes} {clientAddr : SockAddr} {environment : Environment}
      {handled : Handled} (hkind : requestKind userInfo = some .signup)
      (hhandled : handleSignup environment server.accounts userInfo = .ok handled) :
      StepShape server (.receive userInfo clientAddr environment)
        (answered server clientAddr handled).1 (answered server clientAddr handled).2
  | session {userInfo : Bytes} {clientAddr : SockAddr} {environment : Environment}
      {handled : Handled} (hkind : requestKind userInfo = some .session)
      (hhandled : handleSessionReq server.accounts userInfo = .ok handled) :
      StepShape server (.receive userInfo clientAddr environment)
        (enterSession server handled).1 (enterSession server handled).2
  | codeCheck {userInfo : Bytes} {clientAddr : SockAddr} {environment : Environment}
      {handled : Handled} (hkind : requestKind userInfo = some .codeCheck)
      (hhandled : verifyPasscode environment server.accounts userInfo = .ok handled) :
      StepShape server (.receive userInfo clientAddr environment)
        (answered server clientAddr handled).1 (answered server clientAddr handled).2
  | mailCode {userInfo : Bytes} {clientAddr : SockAddr} {environment : Environment}
      {handled : Handled} (hkind : requestKind userInfo = some .mailCode)
      (hhandled : handleEmailReq environment server.accounts userInfo = .ok handled) :
      StepShape server (.receive userInfo clientAddr environment)
        (answered server clientAddr handled).1 (answered server clientAddr handled).2
  | newPass {userInfo : Bytes} {clientAddr : SockAddr} {environment : Environment}
      {handled : Handled} (hkind : requestKind userInfo = some .newPass)
      (hhandled : handlePassReset environment server.accounts userInfo = .ok handled) :
      StepShape server (.receive userInfo clientAddr environment)
        (answered server clientAddr handled).1 (answered server clientAddr handled).2
  | thread {index : ℕ} {handler handler' : SessionHandler} {exchange : Exchange}
      {details : List Details} (hhandler : server.handlers[index]? = some handler)
      (hsession : sessionStep server.exchange handler = some (exchange, handler', details)) :
      StepShape server (.thread index)
        { server with exchange, handlers := server.handlers.set index handler' } { details }

/-- Every step of the server has one of the shapes. -/
theorem stepShape_of_step {server next : ServerState} {event : Event} {observation : Observation}
    (hstep : step server event = some (next, observation)) :
    StepShape server event next observation := by
  cases event with
  | receive userInfo clientAddr environment =>
    simp only [step, analyzeUser] at hstep
    split at hstep
    · next hkind =>
      obtain ⟨handled, hhandled, rfl, rfl⟩ := except_map_toOption_eq_some.mp hstep
      exact .login hkind hhandled
    · next hkind =>
      obtain ⟨handled, hhandled, rfl, rfl⟩ := except_map_toOption_eq_some.mp hstep
      exact .signup hkind hhandled
    · next hkind =>
      obtain ⟨handled, hhandled, rfl, rfl⟩ := except_map_toOption_eq_some.mp hstep
      exact .session hkind hhandled
    · next hkind =>
      obtain ⟨handled, hhandled, rfl, rfl⟩ := except_map_toOption_eq_some.mp hstep
      exact .codeCheck hkind hhandled
    · next hkind =>
      obtain ⟨handled, hhandled, rfl, rfl⟩ := except_map_toOption_eq_some.mp hstep
      exact .mailCode hkind hhandled
    · next hkind =>
      obtain ⟨handled, hhandled, rfl, rfl⟩ := except_map_toOption_eq_some.mp hstep
      exact .newPass hkind hhandled
    · next hkind =>
      cases hstep
      exact .ignored hkind
  | thread index =>
    simp only [step, threadStep, Option.bind_eq_bind, Option.bind_eq_some_iff] at hstep
    obtain ⟨handler, hhandler, ⟨exchange, handler', details⟩, hsession, hpair⟩ := hstep
    cases hpair
    exact .thread hhandler hsession

/-! ### Requests that bring a code -/

/-- What a mailed code is used for: `verifyPasscode` creates a row, `handlePassReset` resets
passwords. -/
inductive CodeUse
  | create
  | reset
deriving DecidableEq, Repr

/-- The use of a code in a kind of request. -/
def codeUse : RequestKind → Option CodeUse
  | .codeCheck => some .create
  | .newPass => some .reset
  | _ => none

/-- A `C` or an `N` request with the four fields its handler reads and the outcome of its
statement. -/
structure CodeRequest where
  use : CodeUse
  username : Bytes
  password : Bytes
  email : Bytes
  code : Bytes
  sql : SqlOutcome

/-- The request of a step that brings a code. -/
def codeRequest : Event → Option CodeRequest
  | .receive userInfo _ environment => do
    let use ← (requestKind userInfo).bind codeUse
    let details := getDetails userInfo
    return {
      use
      username := ← details[0]?
      password := ← details[1]?
      email := ← details[2]?
      code := ← details[3]?
      sql := environment.sql }
  | .thread _ => none

/-- Whether the code check of a request passes. -/
def CodeRequest.accepted (request : CodeRequest) (server : ServerState) : Bool :=
  isCodeCorrect server.accounts.resetCodes request.email request.code

/-- The table after an accepted request. -/
def CodeRequest.apply (request : CodeRequest) (users : List Row) : List Row :=
  match request.use with
  | .create =>
    (addNewUser request.sql users request.username request.password request.email).2
  | .reset => (changePassword request.sql users request.username request.password).2

section Effects

variable {server next : ServerState} {event : Event} {observation : Observation}

/-- The ways a step acts on the table and the codes: not at all, by mailing a code, or through the
code check of a `C` or an `N` request. -/
inductive AccountsStep (server : ServerState) (event : Event) :
    ServerState → Observation → Prop
  | unchanged {next : ServerState} {observation : Observation}
      (hrequest : codeRequest event = none) (husers : next.accounts.users = server.accounts.users)
      (hcodes : next.accounts.resetCodes = server.accounts.resetCodes)
      (hmailed : observation.mailed = none) : AccountsStep server event next observation
  | mailing {next : ServerState} {observation : Observation} (mailing : Mailing)
      (hrequest : codeRequest event = none) (husers : next.accounts.users = server.accounts.users)
      (hcodes : next.accounts.resetCodes =
        server.accounts.resetCodes.assign mailing.email mailing.code)
      (hmailed : observation.mailed = some mailing) (hcode : mailing.code ≠ []) :
      AccountsStep server event next observation
  | checked {next : ServerState} {observation : Observation} (request : CodeRequest)
      (hrequest : codeRequest event = some request)
      (husers : next.accounts.users =
        if request.accepted server then request.apply server.accounts.users
        else server.accounts.users)
      (hcodes : next.accounts.resetCodes = server.accounts.resetCodes.touch request.email)
      (hmailed : observation.mailed = none)
      (hresult : observation.result =
        [if request.accepted server then infoCorrect else incorrectPass]) :
      AccountsStep server event next observation

/-- A handler that ends in `sendMail` mails a code or leaves the codes alone. -/
theorem accountsStep_of_sendMail {environment : Environment} {email : Bytes}
    {result : List Bytes} {clientAddr : SockAddr} {handled : Handled}
    (hrequest : codeRequest event = none)
    (hhandled : handled =
      { accounts := { server.accounts with
          resetCodes := (sendMail environment server.accounts.resetCodes email).1 }
        result, mailed := (sendMail environment server.accounts.resetCodes email).2 }) :
    AccountsStep server event (answered server clientAddr handled).1
      (answered server clientAddr handled).2 := by
  rw [hhandled]
  unfold sendMail answered
  split_ifs
  · exact .mailing ⟨email, _⟩ hrequest rfl rfl rfl (toText_ne_nil _)
  · exact .unchanged hrequest rfl rfl rfl

/-- A handler that checks a code writes rows when the check passes. -/
theorem accountsStep_of_check {clientAddr : SockAddr} {handled : Handled} (request : CodeRequest)
    (hrequest : codeRequest event = some request)
    (hhandled : handled =
      if isCodeCorrect server.accounts.resetCodes request.email request.code then
        { accounts := { server.accounts with
            users := request.apply server.accounts.users
            resetCodes := server.accounts.resetCodes.touch request.email }
          result := [infoCorrect] }
      else
        { accounts := { server.accounts with
            resetCodes := server.accounts.resetCodes.touch request.email }
          result := [incorrectPass] }) :
    AccountsStep server event (answered server clientAddr handled).1
      (answered server clientAddr handled).2 := by
  rw [hhandled]
  by_cases hcode : isCodeCorrect server.accounts.resetCodes request.email request.code
  · rw [if_pos hcode]
    refine .checked request hrequest ?_ rfl rfl ?_
    · simp [answered, CodeRequest.accepted, hcode]
    · simp [answered, CodeRequest.accepted, hcode]
  · rw [if_neg hcode]
    refine .checked request hrequest ?_ rfl rfl ?_
    · simp [answered, CodeRequest.accepted, hcode]
    · simp [answered, CodeRequest.accepted, hcode]

/-- The end of a login leaves the table and the codes alone and mails nothing. -/
theorem completeLogin_frame (server : ServerState) (environment : Environment)
    (clientAddr : SockAddr) (handled : Handled) (hmailed : handled.mailed = none) :
    (completeLogin environment server clientAddr handled).1.accounts.users =
        handled.accounts.users ∧
      (completeLogin environment server clientAddr handled).1.accounts.resetCodes =
        handled.accounts.resetCodes ∧
      (completeLogin environment server clientAddr handled).2.mailed = none := by
  unfold completeLogin answered
  split
  · split
    · exact ⟨rfl, rfl, rfl⟩
    · exact ⟨rfl, rfl, hmailed⟩
  · exact ⟨rfl, rfl, hmailed⟩

/-- Every step acts on the table and the codes in one of these ways. -/
theorem accountsStep_of_step (hstep : step server event = some (next, observation)) :
    AccountsStep server event next observation := by
  cases stepShape_of_step hstep with
  | ignored hkind => exact .unchanged (by simp [codeRequest, hkind]) rfl rfl rfl
  | login hkind hhandled =>
    obtain ⟨username, password, -, -, rfl⟩ := handleLogin_eq_ok.mp hhandled
    have hframe := fun environment clientAddr result ↦
      completeLogin_frame server environment clientAddr
        ⟨server.accounts, result, none⟩ rfl
    exact .unchanged (by simp [codeRequest, hkind, codeUse]) (hframe _ _ _).1 (hframe _ _ _).2.1
      (hframe _ _ _).2.2
  | signup hkind hhandled =>
    obtain ⟨username, password, email, -, -, -, rfl⟩ := handleSignup_eq_ok.mp hhandled
    split_ifs
    · exact .unchanged (by simp [codeRequest, hkind, codeUse]) rfl rfl rfl
    · exact .unchanged (by simp [codeRequest, hkind, codeUse]) rfl rfl rfl
    · exact accountsStep_of_sendMail (by simp [codeRequest, hkind, codeUse]) rfl
  | session hkind hhandled =>
    obtain ⟨token, wanted, -, -, rfl⟩ := handleSessionReq_eq_ok.mp hhandled
    exact .unchanged (by simp [codeRequest, hkind, codeUse]) rfl rfl rfl
  | @codeCheck userInfo clientAddr environment handled hkind hhandled =>
    obtain ⟨username, password, email, code, h0, h1, h2, h3, rfl⟩ :=
      verifyPasscode_eq_ok.mp hhandled
    exact accountsStep_of_check ⟨.create, username, password, email, code, environment.sql⟩
      (by simp [codeRequest, hkind, codeUse, h0, h1, h2, h3]) rfl
  | mailCode hkind hhandled =>
    obtain ⟨username, email, -, -, rfl⟩ := handleEmailReq_eq_ok.mp hhandled
    split_ifs
    · exact accountsStep_of_sendMail (by simp [codeRequest, hkind, codeUse]) rfl
    · exact .unchanged (by simp [codeRequest, hkind, codeUse]) rfl rfl rfl
    · exact .unchanged (by simp [codeRequest, hkind, codeUse]) rfl rfl rfl
  | @newPass userInfo clientAddr environment handled hkind hhandled =>
    obtain ⟨username, newPassword, email, passcode, h0, h1, h2, h3, rfl⟩ :=
      handlePassReset_eq_ok.mp hhandled
    exact accountsStep_of_check ⟨.reset, username, newPassword, email, passcode, environment.sql⟩
      (by simp [codeRequest, hkind, codeUse, h0, h1, h2, h3]) rfl
  | thread hhandler hsession => exact .unchanged rfl rfl rfl rfl

/-- The only steps that write rows are accepted `C` and `N` requests. -/
theorem users_of_step (hstep : step server event = some (next, observation)) :
    next.accounts.users =
      match codeRequest event with
      | some request =>
        if request.accepted server then request.apply server.accounts.users
        else server.accounts.users
      | none => server.accounts.users := by
  cases accountsStep_of_step hstep with
  | unchanged hrequest husers => simp [hrequest, husers]
  | mailing mailing hrequest husers => simp [hrequest, husers]
  | checked request hrequest husers => simp [hrequest, husers]

/-- The code that a check compares with changes only at the email of a successful mailing, and then
to the mailed code. -/
theorem read_resetCodes_of_step (hstep : step server event = some (next, observation))
    (email : Bytes) :
    next.accounts.resetCodes.read email =
      match observation.mailed with
      | some mailing =>
        if mailing.email = email then mailing.code else server.accounts.resetCodes.read email
      | none => server.accounts.resetCodes.read email := by
  cases accountsStep_of_step hstep with
  | unchanged hrequest husers hcodes hmailed => simp [hcodes, hmailed]
  | mailing mailing hrequest husers hcodes hmailed =>
    rw [hcodes, hmailed]
    by_cases hemail : mailing.email = email
    · subst hemail
      simp
    · simp [hemail, SubscriptMap.read_assign_of_ne _ _ (Ne.symm hemail)]
  | checked request hrequest husers hcodes hmailed => simp [hcodes, hmailed]

/-- A code mailed by a step is not empty. -/
theorem code_ne_nil_of_step (hstep : step server event = some (next, observation))
    {mailing : Mailing} (hmailed : observation.mailed = some mailing) : mailing.code ≠ [] := by
  cases accountsStep_of_step hstep with
  | unchanged _ _ _ hnone => simp [hnone] at hmailed
  | mailing sent _ _ _ hsome hcode =>
    rw [hsome, Option.some.injEq] at hmailed
    rwa [← hmailed]
  | checked _ _ _ _ hnone => simp [hnone] at hmailed

end Effects

end NovaIde.Server
