import NovaIde.Server.AccountRefinement

/-!
# What a success reply promises

A handler decides what it replies before its effect or without looking at it. `handleSignup` and
`handleEmailReq` push `INFO_CORRECT` whatever becomes of the mail, since `sendMail` returns nothing;
`verifyPasscode` and `handlePassReset` drop the status of the statement they run, and an update of a
username without rows succeeds and changes nothing. So a success reply says that the checks of the
handler passed (`successReply_iff`), and its promise is kept exactly when the effect also works
(`keepsPromise_iff`).
-/

set_option autoImplicit false
set_option relaxedAutoImplicit false

namespace NovaIde.Server

open Foundation

/-! ### The requests and their checks -/

/-- An `S`, `V`, `C` or `N` request, with the fields its handler acts on. -/
inductive AccountRequest
  | signup (username email : Bytes)
  | mailCode (username email : Bytes)
  | codeCheck (username password email code : Bytes)
  | newPass (username newPassword email passcode : Bytes)
deriving DecidableEq, Repr

/-- The request a datagram carries. -/
def accountRequest (userInfo : Bytes) : Option AccountRequest := do
  let details := getDetails userInfo
  match ← requestKind userInfo with
  | .signup => return .signup (← details[0]?) (← details[2]?)
  | .mailCode => return .mailCode (← details[0]?) (← details[1]?)
  | .codeCheck =>
    return .codeCheck (← details[0]?) (← details[1]?) (← details[2]?) (← details[3]?)
  | .newPass => return .newPass (← details[0]?) (← details[1]?) (← details[2]?) (← details[3]?)
  | .login | .session => none

/-- A table asked when every statement succeeds. -/
def everySucceeds : SqlOutcome := fun _ ↦ true

/-- The code `sendMail` generates. -/
def generatedCode (environment : Environment) : Bytes :=
  toText (environment.rand % 900000 + 100000)

namespace AccountRequest

/-- The checks a handler makes before its effect. -/
def accepted (environment : Environment) (accounts : Accounts) : AccountRequest → Bool
  | .signup username email =>
    !doesUserExist environment.sql accounts.users username &&
      !doesEmailExist environment.sql accounts.users email
  | .mailCode username email =>
    doesEmailExist environment.sql accounts.users email &&
      doesEmailMatch environment.sql accounts.users username email
  | .codeCheck _ _ email code => isCodeCorrect accounts.resetCodes email code
  | .newPass _ _ email passcode => isCodeCorrect accounts.resetCodes email passcode

/-- What a success reply promises about the accounts afterwards: the code generated for the email is
the one accepted, the table has the row, or the user exists and the new password is accepted. -/
def Promise (environment : Environment) (accounts : Accounts) : AccountRequest → Prop
  | .signup _ email | .mailCode _ email =>
    ∀ pass, isCodeCorrect accounts.resetCodes email pass = true ↔ pass = generatedCode environment
  | .codeCheck username password email _ => ⟨username, password, email⟩ ∈ accounts.users
  | .newPass username newPassword _ _ =>
    doesUserExist everySucceeds accounts.users username = true ∧
      doesPasswordMatch everySucceeds accounts.users username newPassword = true

/-- When the effect of an accepted request works, read off the accounts before it: the mail command
succeeds, or the code stored is the generated one already; the insertion succeeds, or the row is
there already; the user exists, and the update succeeds or the password is the new one already. -/
def Works (environment : Environment) (accounts : Accounts) : AccountRequest → Prop
  | .signup _ email | .mailCode _ email =>
    environment.systemStatus = 0 ∨ accounts.resetCodes.read email = generatedCode environment
  | .codeCheck username password email _ =>
    environment.sql .addNewUser = true ∨ ⟨username, password, email⟩ ∈ accounts.users
  | .newPass username newPassword _ _ =>
    doesUserExist everySucceeds accounts.users username = true ∧
      (environment.sql .changePassword = true ∨
        doesPasswordMatch everySucceeds accounts.users username newPassword = true)

end AccountRequest

/-- The first field of the reply is `INFO_CORRECT`. -/
def SuccessReply (observation : Observation) : Prop :=
  ∃ reply ∈ observation.replies, firstField reply.payload = infoCorrect

/-- A success reply to a request tells the truth. -/
def KeepsPromise (environment : Environment) (request : AccountRequest) (next : ServerState)
    (observation : Observation) : Prop :=
  SuccessReply observation → request.Promise environment next.accounts

/-! ### Effects -/

section Effects

variable {environment : Environment} {accounts : Accounts}

/-- After `sendMail` the generated code is the one accepted when the mail command succeeded, or when
it was stored before. -/
theorem isCodeCorrect_sendMail (email : Bytes) :
    (∀ pass, isCodeCorrect (sendMail environment accounts.resetCodes email).1 email pass = true ↔
        pass = generatedCode environment) ↔
      environment.systemStatus = 0 ∨
        accounts.resetCodes.read email = generatedCode environment := by
  have hreads : ∀ codes : SubscriptMap Bytes Bytes,
      (∀ pass, isCodeCorrect codes email pass = true ↔ pass = generatedCode environment) ↔
        codes.read email = generatedCode environment := by
    intro codes
    simp only [isCodeCorrect, decide_eq_true_eq]
    exact ⟨fun hall ↦ (hall _).mp rfl, fun heq pass ↦ by rw [heq, eq_comm]⟩
  rw [hreads, sendMail]
  split_ifs with hstatus
  · exact iff_of_true (SubscriptMap.read_assign_self _ _ _) (.inl hstatus)
  · simp [hstatus]

/-- After `addNewUser` the row is there when the insertion succeeded or it was there before. -/
theorem mem_addNewUser {sql : SqlOutcome} {users : List Row} {username password mail : Bytes} :
    ⟨username, password, mail⟩ ∈ (addNewUser sql users username password mail).2 ↔
      sql .addNewUser = true ∨ ⟨username, password, mail⟩ ∈ users := by
  unfold addNewUser
  split_ifs with hsql <;> simp [hsql]

/-- A user exists after `changePassword` exactly when it did before. -/
theorem doesUserExist_changePassword {sql : SqlOutcome} {users : List Row}
    {name username password : Bytes} :
    doesUserExist everySucceeds (changePassword sql users username password).2 name =
      doesUserExist everySucceeds users name := by
  have hcolumn : ∀ rows : List Row, doesUserExist everySucceeds rows name =
      decide (name ∈ rows.map Row.username) := by
    intro rows
    rw [Bool.eq_iff_iff]
    simp [everySucceeds]
  rw [hcolumn, hcolumn, map_username_changePassword]

/-- After `changePassword` the new password is accepted when the update succeeded, or when it was
accepted before. -/
theorem doesPasswordMatch_changePassword {sql : SqlOutcome} {users : List Row}
    {username password : Bytes} (huser : doesUserExist everySucceeds users username = true) :
    doesPasswordMatch everySucceeds (changePassword sql users username password).2 username
        password = true ↔
      sql .changePassword = true ∨
        doesPasswordMatch everySucceeds users username password = true := by
  unfold changePassword
  split_ifs with hsql
  · refine iff_of_true ?_ (.inl hsql)
    obtain ⟨stored, hstored⟩ := Option.isSome_iff_exists.mp
      ((doesUserExist_eq_isSome (fun _ ↦ rfl) users username).symm.trans huser)
    refine (doesPasswordMatch_iff (fun _ ↦ rfl) ?_ password).mpr rfl
    have hkey : ∀ row : Row, row.username = username →
        ({ row with password } : Row).username = username := fun _ husername ↦ husername
    have hrewrite := lastEntry_rewrite _ hkey (fun _ _ ↦ rfl : ∀ row : Row,
      row.username = username → ({ row with password } : Row).password = password) users
    rw [account] at hstored
    rw [account, hrewrite, Function.update_self, hstored]
    rfl
  · simp [hsql]

end Effects

/-! ### Success replies -/

section Replies

variable {environment : Environment} {server next : ServerState} {userInfo : Bytes}
  {clientAddr : SockAddr} {observation : Observation} {request : AccountRequest}

/-- A reply to the sender is a success reply exactly when the result starts with that code. -/
theorem successReply_answered {handled : Handled} {number : ℕ} {rest : List Bytes}
    (hresult : handled.result = toText number :: rest) :
    SuccessReply (answered server clientAddr handled).2 ↔ toText number = infoCorrect := by
  simp [SuccessReply, answered, sendResponseByAddr, hresult,
    firstField_responseText (separator_notMem_toText number)]

theorem successReply_of_correct {handled : Handled} {rest : List Bytes}
    (hresult : handled.result = infoCorrect :: rest) :
    SuccessReply (answered server clientAddr handled).2 :=
  (successReply_answered hresult).mpr rfl

theorem not_successReply_of_refused {handled : Handled} {number : ℕ}
    (hnumber : number ∈ [1, 2, 3, 4, 5]) (hresult : handled.result = [toText number]) :
    ¬ SuccessReply (answered server clientAddr handled).2 := by
  rw [successReply_answered hresult]
  clear hresult
  revert number
  decide +kernel

/-- A success reply is sent exactly when the checks of the handler pass, and then the promise holds
exactly when the effect works. -/
theorem successReply_iff (hrequest : accountRequest userInfo = some request)
    (hstep : step server (.receive userInfo clientAddr environment) = some (next, observation)) :
    (SuccessReply observation ↔ request.accepted environment server.accounts = true) ∧
      (request.accepted environment server.accounts = true →
        (request.Promise environment next.accounts ↔
          request.Works environment server.accounts)) := by
  cases stepShape_of_step hstep with
  | ignored hkind | login hkind hhandled | session hkind hhandled =>
    simp [accountRequest, hkind] at hrequest
  | signup hkind hhandled =>
    obtain ⟨username, password, email, h0, -, h2, rfl⟩ := handleSignup_eq_ok.mp hhandled
    obtain rfl : .signup username email = request := by
      simpa [accountRequest, hkind, h0, h2] using hrequest
    simp only [AccountRequest.accepted, AccountRequest.Promise, AccountRequest.Works]
    split_ifs with huser hemail
    · exact ⟨iff_of_false (not_successReply_of_refused (by decide) rfl) (by simp [huser]),
        by simp [huser]⟩
    · exact ⟨iff_of_false (not_successReply_of_refused (by decide) rfl) (by simp [hemail]),
        by simp [hemail]⟩
    · exact ⟨iff_of_true (successReply_of_correct rfl) (by simp [huser, hemail]),
        fun _ ↦ isCodeCorrect_sendMail email⟩
  | mailCode hkind hhandled =>
    obtain ⟨username, email, h0, h1, rfl⟩ := handleEmailReq_eq_ok.mp hhandled
    obtain rfl : .mailCode username email = request := by
      simpa [accountRequest, hkind, h0, h1] using hrequest
    simp only [AccountRequest.accepted, AccountRequest.Promise, AccountRequest.Works]
    split_ifs with hemail hmatch
    · exact ⟨iff_of_true (successReply_of_correct rfl) (by simp [hemail, hmatch]),
        fun _ ↦ isCodeCorrect_sendMail email⟩
    · exact ⟨iff_of_false (not_successReply_of_refused (by decide) rfl) (by simp [hmatch]),
        by simp [hmatch]⟩
    · exact ⟨iff_of_false (not_successReply_of_refused (by decide) rfl) (by simp [hemail]),
        by simp [hemail]⟩
  | codeCheck hkind hhandled =>
    obtain ⟨username, password, email, code, h0, h1, h2, h3, rfl⟩ :=
      verifyPasscode_eq_ok.mp hhandled
    obtain rfl : .codeCheck username password email code = request := by
      simpa [accountRequest, hkind, h0, h1, h2, h3] using hrequest
    simp only [AccountRequest.accepted, AccountRequest.Promise, AccountRequest.Works]
    split_ifs with hcode
    · exact ⟨iff_of_true (successReply_of_correct rfl) hcode, fun _ ↦ mem_addNewUser⟩
    · exact ⟨iff_of_false (not_successReply_of_refused (by decide) rfl) hcode,
        fun hcorrect ↦ absurd hcorrect hcode⟩
  | newPass hkind hhandled =>
    obtain ⟨username, newPassword, email, passcode, h0, h1, h2, h3, rfl⟩ :=
      handlePassReset_eq_ok.mp hhandled
    obtain rfl : .newPass username newPassword email passcode = request := by
      simpa [accountRequest, hkind, h0, h1, h2, h3] using hrequest
    simp only [AccountRequest.accepted, AccountRequest.Promise, AccountRequest.Works]
    split_ifs with hcode
    · refine ⟨iff_of_true (successReply_of_correct rfl) hcode, fun _ ↦ ?_⟩
      simp only [answered, doesUserExist_changePassword]
      exact and_congr_right doesPasswordMatch_changePassword
    · exact ⟨iff_of_false (not_successReply_of_refused (by decide) rfl) hcode,
        fun hcorrect ↦ absurd hcorrect hcode⟩

/-- Assumes: an `S`, `V`, `C` or `N` request that the server handles. A success reply tells the
truth exactly when, if the checks of the handler pass, its effect works. -/
theorem keepsPromise_iff (hrequest : accountRequest userInfo = some request)
    (hstep : step server (.receive userInfo clientAddr environment) = some (next, observation)) :
    KeepsPromise environment request next observation ↔
      (request.accepted environment server.accounts = true →
        request.Works environment server.accounts) := by
  obtain ⟨hreply, hpromise⟩ := successReply_iff hrequest hstep
  rw [KeepsPromise, hreply]
  exact forall_congr' hpromise

end Replies

/-- An `N` request for a user that does not exist, with the code nobody was mailed, is a handled
request. -/
theorem keepsPromise_iff_stranger :
    ∃ next observation,
      step (start []) (.receive (ascii "N:ann:evil:b@x.c:") default calmEnvironment) =
        some (next, observation) ∧
      (KeepsPromise calmEnvironment
          (.newPass (ascii "ann") (ascii "evil") (ascii "b@x.c") []) next observation ↔
        (AccountRequest.accepted calmEnvironment (start []).accounts
            (.newPass (ascii "ann") (ascii "evil") (ascii "b@x.c") []) = true →
          AccountRequest.Works calmEnvironment (start []).accounts
            (.newPass (ascii "ann") (ascii "evil") (ascii "b@x.c") []))) := by
  obtain ⟨⟨next, observation⟩, hstep⟩ := Option.isSome_iff_exists.mp (by decide : (step (start [])
    (.receive (ascii "N:ann:evil:b@x.c:") default calmEnvironment)).isSome = true)
  exact ⟨next, observation, hstep, keepsPromise_iff (by decide) hstep⟩

/-- A signup whose mail is not sent gets a success reply, and no code is accepted. -/
theorem not_keepsPromise :
    ¬ ∀ (environment : Environment) (server next : ServerState) (userInfo : Bytes)
      (clientAddr : SockAddr) (observation : Observation) (request : AccountRequest),
      accountRequest userInfo = some request →
        step server (.receive userInfo clientAddr environment) = some (next, observation) →
          KeepsPromise environment request next observation := by
  intro hall
  let failing : Environment := { calmEnvironment with systemStatus := 256 }
  have hrequest : accountRequest (ascii "S:ann:pass:a@x.c") =
      some (.signup (ascii "ann") (ascii "a@x.c")) := by decide
  obtain ⟨⟨next, observation⟩, hstep⟩ := Option.isSome_iff_exists.mp (by decide : (step (start [])
    (.receive (ascii "S:ann:pass:a@x.c") default failing)).isSome = true)
  obtain ⟨hreply, hpromise⟩ := successReply_iff hrequest hstep
  have haccepted : AccountRequest.accepted failing (start []).accounts
      (.signup (ascii "ann") (ascii "a@x.c")) = true := by decide
  have hkept := hall _ _ _ _ _ _ _ hrequest hstep (hreply.mpr haccepted)
  rcases (hpromise haccepted).mp hkept with hstatus | hstored
  · exact absurd hstatus (by decide)
  · exact absurd hstored (by decide +kernel)

end NovaIde.Server
