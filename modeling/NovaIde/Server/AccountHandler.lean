import NovaIde.Foundation.SubscriptMap
import NovaIde.Server.UsersTable

/-!
# Mailed codes and the account requests

`EmailHandler` keeps one map from email addresses to the last code mailed there, and
`AccountHandler` answers the six kinds of requests from that map, the Users table and its map from
session tokens to usernames. What the program reads from outside while it handles one request, the
random number, the exit status of the mail command, the outcome of every SQL statement and the
generated session token, is an `Environment`.

Every handler first copies the fields it needs out of the details vector and only then acts, so a
request with too few fields faults before it changes anything. Both maps are read through
`operator[]`: a code check of an email without a code compares with the empty string and leaves an
empty entry behind, and so does the lookup of an unknown token.
-/

set_option autoImplicit false
set_option relaxedAutoImplicit false

namespace NovaIde.Server

open Foundation

/-- What the program reads from outside while it handles one request. -/
structure Environment where
  /-- The value of `std::rand`. -/
  rand : ℕ
  /-- The status of the `system` call that runs the mail command. -/
  systemStatus : ℤ
  sql : SqlOutcome
  /-- The token `generateSessionToken` returns. -/
  sessionToken : Bytes

/-- The state of the account side of the server: the table, the codes of `EmailHandler` and the
tokens of `AccountHandler`. -/
structure Accounts where
  users : List Row
  resetCodes : SubscriptMap Bytes Bytes
  usersList : SubscriptMap Bytes Bytes

/-- A mail sent with a code. -/
structure Mailing where
  email : Bytes
  code : Bytes
deriving DecidableEq, Repr

/-- `EmailHandler::sendMail`: the code is stored when the mail command exits with status zero. -/
def sendMail (environment : Environment) (resetCodes : SubscriptMap Bytes Bytes) (email : Bytes) :
    SubscriptMap Bytes Bytes × Option Mailing :=
  let randomNumber := environment.rand % 900000 + 100000
  if environment.systemStatus = 0 then
    (resetCodes.assign email (toText randomNumber), some ⟨email, toText randomNumber⟩)
  else (resetCodes, none)

/-- `EmailHandler::isCodeCorrect`. -/
def isCodeCorrect (resetCodes : SubscriptMap Bytes Bytes) (email pass : Bytes) : Bool :=
  resetCodes.read email = pass

/-! ### Result codes -/

def incorrectPass : Bytes := toText 1
def invalidUser : Bytes := toText 2
def userAlreadyExists : Bytes := toText 3
def emailAlreadyExists : Bytes := toText 4
def emailDoesntExists : Bytes := toText 5
def infoCorrect : Bytes := toText 9

/-! ### The handlers -/

/-- What a handler leaves behind: the state, its result vector and the mail it sent. -/
structure Handled where
  accounts : Accounts
  result : List Bytes
  mailed : Option Mailing := none

/-- `AccountHandler::handleLogin`. -/
def handleLogin (environment : Environment) (accounts : Accounts) (userInfo : Bytes) :
    Except AccessFault Handled := do
  let details := getDetails userInfo
  let username ← detailAt details 0
  let password ← detailAt details 1
  if doesUserExist environment.sql accounts.users username then
    if doesPasswordMatch environment.sql accounts.users username password then
      return { accounts, result := [infoCorrect, username] }
    else
      return { accounts, result := [incorrectPass] }
  else
    return { accounts, result := [invalidUser] }

/-- `AccountHandler::handleSignup`. -/
def handleSignup (environment : Environment) (accounts : Accounts) (userInfo : Bytes) :
    Except AccessFault Handled := do
  let details := getDetails userInfo
  let username ← detailAt details 0
  let _password ← detailAt details 1
  let email ← detailAt details 2
  if !doesUserExist environment.sql accounts.users username then
    if !doesEmailExist environment.sql accounts.users email then
      let (resetCodes, mailed) := sendMail environment accounts.resetCodes email
      return { accounts := { accounts with resetCodes }, result := [infoCorrect, username], mailed }
    else
      return { accounts, result := [emailAlreadyExists] }
  else
    return { accounts, result := [userAlreadyExists] }

/-- `AccountHandler::handleSessionReq`: the requester's name is looked up by the token sent. -/
def handleSessionReq (accounts : Accounts) (userInfo : Bytes) : Except AccessFault Handled := do
  let details := getDetails userInfo
  let token ← detailAt details 0
  let token2 ← detailAt details 1
  return {
    accounts := { accounts with usersList := accounts.usersList.touch token }
    result := [accounts.usersList.read token, token2] }

/-- `AccountHandler::handlePassReset`. -/
def handlePassReset (environment : Environment) (accounts : Accounts) (userInfo : Bytes) :
    Except AccessFault Handled := do
  let details := getDetails userInfo
  let username ← detailAt details 0
  let newPassword ← detailAt details 1
  let email ← detailAt details 2
  let passcode ← detailAt details 3
  let resetCodes := accounts.resetCodes.touch email
  if isCodeCorrect accounts.resetCodes email passcode then
    let (_, users) := changePassword environment.sql accounts.users username newPassword
    return { accounts := { accounts with users, resetCodes }, result := [infoCorrect] }
  else
    return { accounts := { accounts with resetCodes }, result := [incorrectPass] }

/-- `AccountHandler::handleEmailReq`. -/
def handleEmailReq (environment : Environment) (accounts : Accounts) (userInfo : Bytes) :
    Except AccessFault Handled := do
  let details := getDetails userInfo
  let username ← detailAt details 0
  let email ← detailAt details 1
  if doesEmailExist environment.sql accounts.users email then
    if doesEmailMatch environment.sql accounts.users username email then
      let (resetCodes, mailed) := sendMail environment accounts.resetCodes email
      return { accounts := { accounts with resetCodes }, result := [infoCorrect], mailed }
    else
      return { accounts, result := [invalidUser] }
  else
    return { accounts, result := [emailDoesntExists] }

/-- `AccountHandler::verifyPasscode`. -/
def verifyPasscode (environment : Environment) (accounts : Accounts) (userInfo : Bytes) :
    Except AccessFault Handled := do
  let details := getDetails userInfo
  let username ← detailAt details 0
  let password ← detailAt details 1
  let email ← detailAt details 2
  let code ← detailAt details 3
  let resetCodes := accounts.resetCodes.touch email
  if isCodeCorrect accounts.resetCodes email code then
    let (_, users) := addNewUser environment.sql accounts.users username password email
    return { accounts := { accounts with users, resetCodes }, result := [infoCorrect] }
  else
    return { accounts := { accounts with resetCodes }, result := [incorrectPass] }

/-! ### What the handlers return

Each handler returns exactly when the details vector has the fields it reads. -/

section Returns

variable {environment : Environment} {accounts : Accounts} {userInfo : Bytes} {handled : Handled}

theorem handleLogin_eq_ok :
    handleLogin environment accounts userInfo = .ok handled ↔
      ∃ username password, (getDetails userInfo)[0]? = some username ∧
        (getDetails userInfo)[1]? = some password ∧
        handled =
          { accounts
            result :=
              if doesUserExist environment.sql accounts.users username then
                if doesPasswordMatch environment.sql accounts.users username password then
                  [infoCorrect, username]
                else [incorrectPass]
              else [invalidUser] } := by
  simp only [handleLogin, except_bind_eq_ok, detailAt_eq_ok, exists_and_left]
  refine exists_congr fun username ↦ and_congr_right fun _ ↦ ?_
  refine exists_congr fun password ↦ and_congr_right fun _ ↦ ?_
  rw [eq_comm]
  split_ifs <;> exact ⟨fun h ↦ Except.ok.inj h, congrArg Except.ok⟩

theorem handleSignup_eq_ok :
    handleSignup environment accounts userInfo = .ok handled ↔
      ∃ username password email, (getDetails userInfo)[0]? = some username ∧
        (getDetails userInfo)[1]? = some password ∧ (getDetails userInfo)[2]? = some email ∧
        handled =
          if doesUserExist environment.sql accounts.users username then
            { accounts, result := [userAlreadyExists] }
          else if doesEmailExist environment.sql accounts.users email then
            { accounts, result := [emailAlreadyExists] }
          else
            { accounts :=
                { accounts with
                  resetCodes := (sendMail environment accounts.resetCodes email).1 }
              result := [infoCorrect, username]
              mailed := (sendMail environment accounts.resetCodes email).2 } := by
  simp only [handleSignup, except_bind_eq_ok, detailAt_eq_ok, exists_and_left]
  refine exists_congr fun username ↦ and_congr_right fun _ ↦ ?_
  refine exists_congr fun password ↦ and_congr_right fun _ ↦ ?_
  refine exists_congr fun email ↦ and_congr_right fun _ ↦ ?_
  rw [eq_comm]
  by_cases huser : doesUserExist environment.sql accounts.users username
  · simp only [huser, Bool.not_true]
    exact ⟨fun h ↦ Except.ok.inj h, congrArg Except.ok⟩
  · by_cases hemail : doesEmailExist environment.sql accounts.users email
    · simp only [huser, hemail, Bool.not_false]
      exact ⟨fun h ↦ Except.ok.inj h, congrArg Except.ok⟩
    · simp only [huser, hemail, Bool.not_false]
      exact ⟨fun h ↦ Except.ok.inj h, congrArg Except.ok⟩

theorem handleSessionReq_eq_ok :
    handleSessionReq accounts userInfo = .ok handled ↔
      ∃ token wanted, (getDetails userInfo)[0]? = some token ∧
        (getDetails userInfo)[1]? = some wanted ∧
        handled =
          { accounts := { accounts with usersList := accounts.usersList.touch token }
            result := [accounts.usersList.read token, wanted] } := by
  simp only [handleSessionReq, except_bind_eq_ok, detailAt_eq_ok, exists_and_left]
  refine exists_congr fun token ↦ and_congr_right fun _ ↦ ?_
  refine exists_congr fun wanted ↦ and_congr_right fun _ ↦ ?_
  rw [eq_comm]
  exact ⟨fun h ↦ Except.ok.inj h, congrArg Except.ok⟩

theorem handleEmailReq_eq_ok :
    handleEmailReq environment accounts userInfo = .ok handled ↔
      ∃ username email, (getDetails userInfo)[0]? = some username ∧
        (getDetails userInfo)[1]? = some email ∧
        handled =
          if doesEmailExist environment.sql accounts.users email then
            if doesEmailMatch environment.sql accounts.users username email then
              { accounts :=
                  { accounts with
                    resetCodes := (sendMail environment accounts.resetCodes email).1 }
                result := [infoCorrect]
                mailed := (sendMail environment accounts.resetCodes email).2 }
            else { accounts, result := [invalidUser] }
          else { accounts, result := [emailDoesntExists] } := by
  simp only [handleEmailReq, except_bind_eq_ok, detailAt_eq_ok, exists_and_left]
  refine exists_congr fun username ↦ and_congr_right fun _ ↦ ?_
  refine exists_congr fun email ↦ and_congr_right fun _ ↦ ?_
  rw [eq_comm]
  split_ifs <;> exact ⟨fun h ↦ Except.ok.inj h, congrArg Except.ok⟩

theorem handlePassReset_eq_ok :
    handlePassReset environment accounts userInfo = .ok handled ↔
      ∃ username newPassword email passcode, (getDetails userInfo)[0]? = some username ∧
        (getDetails userInfo)[1]? = some newPassword ∧ (getDetails userInfo)[2]? = some email ∧
        (getDetails userInfo)[3]? = some passcode ∧
        handled =
          if isCodeCorrect accounts.resetCodes email passcode then
            { accounts :=
                { accounts with
                  users :=
                    (changePassword environment.sql accounts.users username newPassword).2
                  resetCodes := accounts.resetCodes.touch email }
              result := [infoCorrect] }
          else
            { accounts := { accounts with resetCodes := accounts.resetCodes.touch email }
              result := [incorrectPass] } := by
  simp only [handlePassReset, except_bind_eq_ok, detailAt_eq_ok, exists_and_left]
  refine exists_congr fun username ↦ and_congr_right fun _ ↦ ?_
  refine exists_congr fun newPassword ↦ and_congr_right fun _ ↦ ?_
  refine exists_congr fun email ↦ and_congr_right fun _ ↦ ?_
  refine exists_congr fun passcode ↦ and_congr_right fun _ ↦ ?_
  rw [eq_comm]
  split_ifs <;> exact ⟨fun h ↦ Except.ok.inj h, congrArg Except.ok⟩

theorem verifyPasscode_eq_ok :
    verifyPasscode environment accounts userInfo = .ok handled ↔
      ∃ username password email code, (getDetails userInfo)[0]? = some username ∧
        (getDetails userInfo)[1]? = some password ∧ (getDetails userInfo)[2]? = some email ∧
        (getDetails userInfo)[3]? = some code ∧
        handled =
          if isCodeCorrect accounts.resetCodes email code then
            { accounts :=
                { accounts with
                  users :=
                    (addNewUser environment.sql accounts.users username password email).2
                  resetCodes := accounts.resetCodes.touch email }
              result := [infoCorrect] }
          else
            { accounts := { accounts with resetCodes := accounts.resetCodes.touch email }
              result := [incorrectPass] } := by
  simp only [verifyPasscode, except_bind_eq_ok, detailAt_eq_ok, exists_and_left]
  refine exists_congr fun username ↦ and_congr_right fun _ ↦ ?_
  refine exists_congr fun password ↦ and_congr_right fun _ ↦ ?_
  refine exists_congr fun email ↦ and_congr_right fun _ ↦ ?_
  refine exists_congr fun code ↦ and_congr_right fun _ ↦ ?_
  rw [eq_comm]
  split_ifs <;> exact ⟨fun h ↦ Except.ok.inj h, congrArg Except.ok⟩

end Returns

end NovaIde.Server
