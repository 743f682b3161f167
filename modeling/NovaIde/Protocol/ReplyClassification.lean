import NovaIde.Protocol.PasswordRecovery
import NovaIde.Protocol.PeerEndpoints

/-!
# The first character of a reply

Every page decides by the first character of the reply what to do next. The handlers of the server
start their replies with a result code of one digit, and the five pages that read such replies take
the branch for that code. The answer to an invite is not of this form: it is the address of the
other client, whose first digit says nothing, and `StartSession` compares it with the code for an
invalid user. So the page of a matched client reports that the user does not exist when the address
it is told begins with a 2 (`page_of_answered_iff`).
-/

set_option autoImplicit false
set_option relaxedAutoImplicit false

namespace NovaIde.Protocol

open Foundation Foundation.EventRun Client Server

/-! ### The pages -/

def INCORRECT_PASSWORD : UInt16 := unit '1'
def INVALID_USER : UInt16 := unit '2'
def USER_ALREADY_EXISTS : UInt16 := unit '3'
def EMAIL_ALREADY_EXISTS : UInt16 := unit '4'
def EMAIL_DOESNT_EXISTS : UInt16 := unit '5'
def INFO_CORRECT : UInt16 := unit '9'

/-- What a page does with a reply. -/
inductive Branch
  /-- it shows a message and stays -/
  | shows (message : Text)
  /-- it keeps the session token and opens the menu -/
  | logsIn
  /-- it opens the page that asks for the mailed code -/
  | opensVerification
  /-- it takes the mailed code for the right one -/
  | acceptsCode
  /-- it reports the change and opens the login page -/
  | changesPassword
  /-- it connects to the peer and opens the editor -/
  | connects
  /-- no test of the page holds -/
  | ignores
deriving DecidableEq, Repr

/-- `Login.done`, from the answer of the server on. The first character of an empty answer is out of
range, here and in every other page. -/
def Login.done : Text → Option Branch
  | [] => none
  | code :: _ => some <|
    if code = INCORRECT_PASSWORD then .shows (str "Password incorrect")
    else if code = INVALID_USER then .shows (str "User doesn't exist")
    else if code = INFO_CORRECT then .logsIn
    else .ignores

/-- `Signup.done`, from the answer of the server on. -/
def Signup.done : Text → Option Branch
  | [] => none
  | code :: _ => some <|
    if code = USER_ALREADY_EXISTS then .shows (str "Username already exists")
    else if code = EMAIL_ALREADY_EXISTS then .shows (str "Email already exists")
    else if code = INFO_CORRECT then .opensVerification
    else .ignores

/-- `PasswordRecovery.done`, from the answer of the server on. -/
def PasswordRecovery.done : Text → Option Branch
  | [] => none
  | code :: _ => some <|
    if code = EMAIL_DOESNT_EXISTS then .shows (str "Email doesn't exist")
    else if code = INVALID_USER then .shows (str "User doesn't exist")
    else .opensVerification

/-- `EmailVerfication.done`, from the answer of the server on. -/
def EmailVerfication.done : Text → Option Branch
  | [] => none
  | code :: _ => some <|
    if code = INFO_CORRECT then .acceptsCode else .shows (str "Code Incorrect!")

/-- `NewPassword.done`, from the answer of the server on. -/
def NewPassword.done : Text → Option Branch
  | [] => none
  | code :: _ => some <|
    if code ≠ INFO_CORRECT then .shows (str "Something went wrong") else .changesPassword

/-- `StartSession.done`, from the answer of the server on. -/
def StartSession.done : Text → Option Branch
  | [] => none
  | code :: _ => some <|
    if code = INVALID_USER then .shows (str "Username doesn't exist") else .connects

/-- The page that reads the answers to a kind of request. -/
def pageDone : RequestKind → Text → Option Branch
  | .login => Login.done
  | .signup => Signup.done
  | .mailCode => PasswordRecovery.done
  | .codeCheck => EmailVerfication.done
  | .newPass => NewPassword.done
  | .session => StartSession.done

/-- The recovery goes on to the code exactly when the page opens the verification. -/
theorem isSome_passwordRecoveryDone (pages : Pages) (username email message : Text) :
    (passwordRecoveryDone pages username email message).isSome ↔
      PasswordRecovery.done message = some .opensVerification := by
  cases message with
  | nil => simp [passwordRecoveryDone, PasswordRecovery.done]
  | cons code rest =>
    simp only [passwordRecoveryDone, PasswordRecovery.done, EMAIL_DOESNT_EXISTS, INVALID_USER]
    split_ifs <;> simp_all

/-- The recovery goes on to the new password exactly when the page accepts the code. -/
theorem isSome_emailVerficationDone {pages : Pages} (codeText message : Text)
    (haction : pages.verificationAction = str "recovery") :
    (emailVerficationDone pages codeText message).isSome ↔
      EmailVerfication.done message = some .acceptsCode := by
  cases message with
  | nil => simp [emailVerficationDone, EmailVerfication.done]
  | cons code rest =>
    simp only [emailVerficationDone, EmailVerfication.done, INFO_CORRECT, haction, and_true]
    split_ifs <;> simp_all

/-- The recovery ends with success exactly when the page reports the change. -/
theorem newPasswordDone_iff (message : Text) :
    newPasswordDone message = true ↔ NewPassword.done message = some .changesPassword := by
  cases message with
  | nil => simp [newPasswordDone, NewPassword.done]
  | cons code rest =>
    simp only [newPasswordDone, NewPassword.done, INFO_CORRECT, List.head?_cons]
    split_ifs <;> simp_all

/-! ### What the server meant -/

/-- What the server found out about a request. -/
inductive Outcome
  | incorrectPass
  | invalidUser
  | userAlreadyExists
  | emailAlreadyExists
  | emailDoesntExists
  | infoCorrect
  | sessionDetails
deriving DecidableEq, Repr

/-- The outcome of a request that is answered at once, by the checks of its handler. -/
def requestOutcome (environment : Environment) (accounts : Accounts) (userInfo : Bytes) :
    Option (RequestKind × Outcome) := do
  let details := getDetails userInfo
  match ← requestKind userInfo with
  | .login =>
    let username ← details[0]?
    let password ← details[1]?
    return (.login,
      if doesUserExist environment.sql accounts.users username then
        if doesPasswordMatch environment.sql accounts.users username password then .infoCorrect
        else .incorrectPass
      else .invalidUser)
  | .signup =>
    let username ← details[0]?
    let email ← details[2]?
    return (.signup,
      if doesUserExist environment.sql accounts.users username then .userAlreadyExists
      else if doesEmailExist environment.sql accounts.users email then .emailAlreadyExists
      else .infoCorrect)
  | .mailCode =>
    let username ← details[0]?
    let email ← details[1]?
    return (.mailCode,
      if doesEmailExist environment.sql accounts.users email then
        if doesEmailMatch environment.sql accounts.users username email then .infoCorrect
        else .invalidUser
      else .emailDoesntExists)
  | .codeCheck =>
    let email ← details[2]?
    let code ← details[3]?
    return (.codeCheck,
      if isCodeCorrect accounts.resetCodes email code then .infoCorrect else .incorrectPass)
  | .newPass =>
    let email ← details[2]?
    let passcode ← details[3]?
    return (.newPass,
      if isCodeCorrect accounts.resetCodes email passcode then .infoCorrect else .incorrectPass)
  | .session => none

/-- The branch that a page has for an outcome. -/
def meantBranch : RequestKind → Outcome → Branch
  | .login, .incorrectPass => .shows (str "Password incorrect")
  | .login, .invalidUser => .shows (str "User doesn't exist")
  | .login, .infoCorrect => .logsIn
  | .signup, .userAlreadyExists => .shows (str "Username already exists")
  | .signup, .emailAlreadyExists => .shows (str "Email already exists")
  | .signup, .infoCorrect => .opensVerification
  | .mailCode, .emailDoesntExists => .shows (str "Email doesn't exist")
  | .mailCode, .invalidUser => .shows (str "User doesn't exist")
  | .mailCode, .infoCorrect => .opensVerification
  | .codeCheck, .incorrectPass => .shows (str "Code Incorrect!")
  | .codeCheck, .infoCorrect => .acceptsCode
  | .newPass, .incorrectPass => .shows (str "Something went wrong")
  | .newPass, .infoCorrect => .changesPassword
  | .session, .sessionDetails => .connects
  | _, _ => .ignores

/-- The answers a server can give to a kind of request, with the outcome they tell and the address
whose text they carry, if they do. A request other than an invite is answered at once; an invite is
answered when a session thread sends its details. -/
inductive Answered (server : ServerState) :
    RequestKind → Outcome → Option SockAddr → Bytes → Prop
  | result {kind : RequestKind} {outcome : Outcome} {userInfo : Bytes} {clientAddr : SockAddr}
      {environment : Environment} {next : ServerState} {observation : Observation} {reply : Reply}
      (houtcome : requestOutcome environment server.accounts userInfo = some (kind, outcome))
      (hstep : step server (.receive userInfo clientAddr environment) = some (next, observation))
      (hreply : reply ∈ observation.replies) : Answered server kind outcome none reply.payload
  | details {index : ℕ} {next : ServerState} {observation : Observation} {sent : Details}
      (hstep : step server (.thread index) = some (next, observation))
      (hsent : sent ∈ observation.details) :
      Answered server .session .sessionDetails
        (some (server.exchange.clientAddresses.read sent.peer)) sent.payload

/-! ### Result codes -/

/-- The result code of an outcome. Session details have none. -/
def Outcome.code : Outcome → Bytes
  | .incorrectPass => Server.incorrectPass
  | .invalidUser => Server.invalidUser
  | .userAlreadyExists => Server.userAlreadyExists
  | .emailAlreadyExists => Server.emailAlreadyExists
  | .emailDoesntExists => Server.emailDoesntExists
  | .infoCorrect => Server.infoCorrect
  | .sessionDetails => []

/-- A page has a branch for an outcome with a result code. -/
def HasBranch (kind : RequestKind) (outcome : Outcome) : Prop :=
  meantBranch kind outcome ≠ .ignores ∧ outcome ≠ .sessionDetails

instance (kind : RequestKind) (outcome : Outcome) : Decidable (HasBranch kind outcome) :=
  inferInstanceAs (Decidable (_ ∧ _))

section Results

variable {server next : ServerState} {environment : Environment} {userInfo : Bytes}
  {clientAddr : SockAddr} {observation : Observation} {reply : Reply} {kind : RequestKind}
  {outcome : Outcome}

/-- The digit of a result code. -/
def Outcome.digit : Outcome → UInt8
  | .incorrectPass => 0x31
  | .invalidUser => 0x32
  | .userAlreadyExists => 0x33
  | .emailAlreadyExists => 0x34
  | .emailDoesntExists => 0x35
  | .infoCorrect => 0x39
  | .sessionDetails => 0

theorem Outcome.code_eq (hcode : outcome ≠ .sessionDetails) :
    outcome.code = [outcome.digit] ∧ outcome.digit < 0x80 := by
  revert hcode
  cases outcome <;> decide +kernel

/-- A page takes the branch it has for the digit. -/
theorem pageDone_digit (hbranch : HasBranch kind outcome) (message : Text) :
    pageDone kind (outcome.digit.toUInt16 :: message) = some (meantBranch kind outcome) := by
  cases outcome <;> cases kind <;> first | rfl | exact absurd rfl hbranch.1

/-- A page takes the branch it has for the result code. -/
theorem pageDone_code (hbranch : HasBranch kind outcome) (rest : List Bytes) :
    pageDone kind (utf8GetString (responseText (outcome.code :: rest))) =
      some (meantBranch kind outcome) := by
  obtain ⟨hcode, hascii⟩ := Outcome.code_eq hbranch.2
  rw [hcode, responseText_cons, List.singleton_append, utf8GetString_cons hascii]
  exact pageDone_digit hbranch _

/-- A reply to the sender starts with the first result. -/
theorem payload_of_answered {handled : Handled} {code : Bytes} {rest : List Bytes}
    (hresult : handled.result = code :: rest)
    (hreply : reply ∈ (answered server clientAddr handled).2.replies) :
    ∃ rest, reply.payload = responseText (code :: rest) := by
  rw [List.mem_singleton.mp hreply]
  exact ⟨rest, congrArg responseText hresult⟩

/-- A reply that is sent at once starts with the code of the outcome, for which the page has a
branch. -/
theorem code_of_requestOutcome
    (houtcome : requestOutcome environment server.accounts userInfo = some (kind, outcome))
    (hstep : step server (.receive userInfo clientAddr environment) = some (next, observation))
    (hreply : reply ∈ observation.replies) :
    HasBranch kind outcome ∧ ∃ rest, reply.payload = responseText (outcome.code :: rest) := by
  cases stepShape_of_step hstep with
  | ignored hkind | session hkind => simp [requestOutcome, hkind] at houtcome
  | login hkind hhandled =>
    obtain ⟨username, password, h0, h1, rfl⟩ := handleLogin_eq_ok.mp hhandled
    simp only [requestOutcome, hkind, h0, h1, Option.bind_eq_bind, Option.bind_some,
      Option.pure_def, Option.some.injEq, Prod.mk.injEq] at houtcome
    obtain ⟨rfl, rfl⟩ := houtcome
    split_ifs at hreply ⊢ with huser hpassword
    · obtain rfl : ⟨clientAddr, responseText [Server.infoCorrect, environment.sessionToken]⟩ =
          reply := by
        simpa [completeLogin, sendResponse, addClientAddress, eq_comm] using hreply
      exact ⟨by decide, _, rfl⟩
    · exact ⟨by decide, payload_of_answered rfl hreply⟩
    · exact ⟨by decide, payload_of_answered rfl hreply⟩
  | signup hkind hhandled =>
    obtain ⟨username, password, email, h0, -, h2, rfl⟩ := handleSignup_eq_ok.mp hhandled
    simp only [requestOutcome, hkind, h0, h2, Option.bind_eq_bind, Option.bind_some,
      Option.pure_def, Option.some.injEq, Prod.mk.injEq] at houtcome
    obtain ⟨rfl, rfl⟩ := houtcome
    split_ifs at hreply ⊢ with huser hemail
    · exact ⟨by decide, payload_of_answered rfl hreply⟩
    · exact ⟨by decide, payload_of_answered rfl hreply⟩
    · exact ⟨by decide, payload_of_answered rfl hreply⟩
  | mailCode hkind hhandled =>
    obtain ⟨username, email, h0, h1, rfl⟩ := handleEmailReq_eq_ok.mp hhandled
    simp only [requestOutcome, hkind, h0, h1, Option.bind_eq_bind, Option.bind_some,
      Option.pure_def, Option.some.injEq, Prod.mk.injEq] at houtcome
    obtain ⟨rfl, rfl⟩ := houtcome
    split_ifs at hreply ⊢ with hemail hmatch
    · exact ⟨by decide, payload_of_answered rfl hreply⟩
    · exact ⟨by decide, payload_of_answered rfl hreply⟩
    · exact ⟨by decide, payload_of_answered rfl hreply⟩
  | codeCheck hkind hhandled =>
    obtain ⟨username, password, email, code, h0, h1, h2, h3, rfl⟩ :=
      verifyPasscode_eq_ok.mp hhandled
    simp only [requestOutcome, hkind, h2, h3, Option.bind_eq_bind, Option.bind_some,
      Option.pure_def, Option.some.injEq, Prod.mk.injEq] at houtcome
    obtain ⟨rfl, rfl⟩ := houtcome
    split_ifs at hreply ⊢ with hcode
    · exact ⟨by decide, payload_of_answered rfl hreply⟩
    · exact ⟨by decide, payload_of_answered rfl hreply⟩
  | newPass hkind hhandled =>
    obtain ⟨username, newPassword, email, passcode, h0, h1, h2, h3, rfl⟩ :=
      handlePassReset_eq_ok.mp hhandled
    simp only [requestOutcome, hkind, h2, h3, Option.bind_eq_bind, Option.bind_some,
      Option.pure_def, Option.some.injEq, Prod.mk.injEq] at houtcome
    obtain ⟨rfl, rfl⟩ := houtcome
    split_ifs at hreply ⊢ with hcode
    · exact ⟨by decide, payload_of_answered rfl hreply⟩
    · exact ⟨by decide, payload_of_answered rfl hreply⟩

end Results

/-! ### Session details -/

/-- An octet whose decimal text begins with a 2. -/
def StartsWithTwo (octet : UInt8) : Prop :=
  octet = 2 ∨ 20 ≤ octet ∧ octet ≤ 29 ∨ 200 ≤ octet

instance (octet : UInt8) : Decidable (StartsWithTwo octet) :=
  inferInstanceAs (Decidable (_ ∨ _))

/-- The first digit of an octet. -/
theorem head_toText_octet (octet : UInt8) :
    ∃ digit rest, toText octet.toNat = digit :: rest ∧ digit < 0x80 ∧
      (digit = 0x32 ↔ StartsWithTwo octet) := by
  have hall : ∀ number < 256, ((toText number).headD 0x80 < 0x80 ∧
      ((toText number).headD 0x80 = 0x32 ↔ StartsWithTwo (UInt8.ofNat number))) := by
    decide +kernel
  obtain ⟨hascii, htwo⟩ := hall octet.toNat octet.toNat_lt
  rw [UInt8.ofNat_toNat] at htwo
  obtain ⟨digit, rest, htext⟩ := List.exists_cons_of_ne_nil (toText_ne_nil octet.toNat)
  rw [htext, List.headD_cons] at hascii htwo
  exact ⟨digit, rest, htext, hascii, htwo⟩

/-- The details of an address begin with its first digit: the addresses that are replaced and the
replacement begin with the same one. -/
theorem head_infoText (address : SockAddr) (role : String) :
    ∃ digit rest, infoText address role = digit :: rest ∧ digit < 0x80 ∧
      (digit = 0x32 ↔ StartsWithTwo address.octet1) := by
  obtain ⟨digit, rest, htext, hascii, htwo⟩ := head_toText_octet address.octet1
  obtain ⟨tail, haddress⟩ : ∃ tail, inetNtop address = digit :: tail := by
    simp [inetNtop, htext]
  rw [infoText, haddress, ipChecker]
  split_ifs with hlocal
  · have hreplaced : ascii "192" = [0x31, 0x39, 0x32] := by decide
    have hone : digit = 0x31 := (List.cons.inj (hlocal.trans hreplaced)).1
    have hserver : serverIP = 0x31 :: ascii "27.0.0.1" := by decide
    rw [hserver]
    exact ⟨0x31, _, rfl, by decide, by rw [← hone, htwo]⟩
  · exact ⟨digit, _, rfl, hascii, htwo⟩

/-- The page that starts a session connects exactly when the address it is told does not begin with
a 2. -/
theorem page_of_infoText (address : SockAddr) (role : String) :
    pageDone .session (utf8GetString (infoText address role)) =
        some (meantBranch .session .sessionDetails) ↔
      ¬ StartsWithTwo address.octet1 := by
  obtain ⟨digit, rest, hinfo, hascii, htwo⟩ := head_infoText address role
  have hpage : pageDone .session = StartSession.done := rfl
  have hmeant : meantBranch .session .sessionDetails = .connects := rfl
  have hcode : digit.toUInt16 = INVALID_USER ↔ digit = 0x32 := by
    rw [← UInt16.toNat_inj, UInt8.toNat_toUInt16, ← UInt8.toNat_inj]
    rfl
  rw [hpage, hmeant, hinfo, utf8GetString_cons hascii, StartSession.done, Option.some.injEq,
    ← htwo, ← hcode]
  split_ifs with hinvalid <;> simp [hinvalid]

/-- The messages of a thread carry the address of the peer. -/
theorem payload_of_thread {server next : ServerState} {index : ℕ} {observation : Observation}
    {sent : Details} (hstep : step server (.thread index) = some (next, observation))
    (hsent : sent ∈ observation.details) :
    ∃ role, sent.payload = infoText (server.exchange.clientAddresses.read sent.peer) role := by
  cases stepShape_of_step hstep with
  | thread hhandler hsession =>
    obtain ⟨-, -, hcases⟩ := sessionStep_cases hsession
    rcases hcases with ⟨-, -, rfl, -⟩ | ⟨-, rfl, -⟩ | ⟨-, -, rfl, -⟩ | ⟨-, rfl, -⟩ | ⟨-, rfl, -⟩ |
      ⟨-, -, rfl, -⟩
    case inr.inr.inr.inr.inr =>
      simp only [detailsSent, List.mem_cons, List.not_mem_nil, or_false] at hsent
      rcases hsent with rfl | rfl
      · exact ⟨"H", rfl⟩
      · exact ⟨"C", rfl⟩
    all_goals cases hsent

/-! ### Every answer -/

/-- Every answer of the server makes the page take the branch for its outcome, except that session
details do so exactly when the address they carry does not begin with a 2. -/
theorem page_of_answered_iff {server : ServerState} {kind : RequestKind} {outcome : Outcome}
    {address : Option SockAddr} {payload : Bytes}
    (hanswered : Answered server kind outcome address payload) :
    pageDone kind (utf8GetString payload) = some (meantBranch kind outcome) ↔
      ∀ peer ∈ address, ¬ StartsWithTwo peer.octet1 := by
  cases hanswered with
  | result houtcome hstep hreply =>
    obtain ⟨hbranch, rest, hpayload⟩ := code_of_requestOutcome houtcome hstep hreply
    rw [hpayload]
    exact iff_of_true (pageDone_code hbranch rest) (by simp)
  | details hstep hsent =>
    obtain ⟨role, hpayload⟩ := payload_of_thread hstep hsent
    rw [hpayload, page_of_infoText]
    simp

/-- Two users are matched, and one of them logged in from an address that begins with a 2. -/
theorem exists_answered_two :
    ∃ history server address payload, ServerRun [plainRow "ann", plainRow "bob"] history server ∧
      Answered server .session .sessionDetails (some address) payload ∧
      StartsWithTwo address.octet1 := by
  obtain ⟨history, server, hrun, -, hcheck⟩ := exists_run_of_execute step
    (start [plainRow "ann", plainRow "bob"])
    ([loginFrom "ann" ⟨10, 0, 0, 1, 5000⟩, loginFrom "bob" ⟨200, 1, 2, 3, 6000⟩,
      request "J:ann1:bob", request "J:bob1:ann"] ++ [0, 0, 0, 1, 1, 0, 0].map Event.thread)
    (fun _ server ↦ match step server (.thread 0) with
      | some (_, observation) => observation.details.any fun sent ↦
        StartsWithTwo (server.exchange.clientAddresses.read sent.peer).octet1
      | none => false) (by decide +kernel)
  split at hcheck
  · next observation hstep =>
    obtain ⟨sent, hsent, htwo⟩ := List.any_eq_true.mp hcheck
    exact ⟨history, server, _, _, hrun, .details hstep hsent, of_decide_eq_true htwo⟩
  · cases hcheck

/-- The details of the user at that address are a possible answer. -/
theorem page_of_answered_iff_two :
    ∃ server address payload, Answered server .session .sessionDetails (some address) payload ∧
      StartsWithTwo address.octet1 ∧
      (pageDone .session (utf8GetString payload) = some (meantBranch .session .sessionDetails) ↔
        ∀ peer ∈ some address, ¬ StartsWithTwo peer.octet1) := by
  obtain ⟨history, server, address, payload, -, hanswered, htwo⟩ := exists_answered_two
  exact ⟨server, address, payload, hanswered, htwo, page_of_answered_iff hanswered⟩

/-- Told that address, the other client's page reports an invalid user. -/
theorem not_page_of_answered :
    ¬ ∀ users history server kind outcome address payload, ServerRun users history server →
      Answered server kind outcome address payload →
        pageDone kind (utf8GetString payload) = some (meantBranch kind outcome) := by
  intro hall
  obtain ⟨history, server, address, payload, hrun, hanswered, htwo⟩ := exists_answered_two
  have hconnects := hall _ _ _ _ _ _ _ hrun hanswered
  cases hanswered with
  | details hstep hsent =>
    obtain ⟨role, hpayload⟩ := payload_of_thread hstep hsent
    rw [hpayload, page_of_infoText] at hconnects
    exact hconnects htwo

end NovaIde.Protocol
