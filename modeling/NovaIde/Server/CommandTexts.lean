import Mathlib.Data.Fintype.Basic
import NovaIde.Foundation.CallTrace
import NovaIde.Foundation.SqlTokens
import NovaIde.Server.DatagramBounds

/-!
# The texts given to the database and to the command processor

`DBCommunicator` and `EmailHandler` build every SQL statement and every command line by putting
fields of the request between fixed texts. The handlers are written here once more with the calls
they make; forgetting the calls gives back the handlers themselves (`outcome_analyzeUserCalls`).

The fields hold only letters, digits, `@` and `.`, so the statements have the tokens of their
templates with the fields as literals (`SqlCall.sqlTokens_command`), and the command line has the
six words of its template. `calls_of_analyzeUser` says so for every request the server handles.
-/

set_option autoImplicit false
set_option relaxedAutoImplicit false

namespace NovaIde.Server

open Foundation Foundation.Calling

/-! ### The texts -/

/-- A statement that is run, with the values put into it. -/
inductive SqlCall
  | createTable
  | doesUserExist (username : Bytes)
  | doesEmailExist (email : Bytes)
  | doesPasswordMatch (username : Bytes)
  | doesEmailMatch (username : Bytes)
  | addNewUser (username password mail : Bytes)
  | changePassword (username password : Bytes)
deriving DecidableEq, Repr

namespace SqlCall

/-- The text each function of `DBCommunicator` passes to `sqlite3_exec`. -/
def command : SqlCall → Bytes
  | .createTable =>
    ascii "CREATE TABLE IF NOT EXISTS Users(id integer primary key autoincrement not null, " ++
      ascii "Username text not null, Password text not null, Mail text not null); "
  | .doesUserExist username =>
    ascii "select * from Users where Username = '" ++ username ++ ascii "'; "
  | .doesEmailExist email => ascii "select * from Users where Mail = '" ++ email ++ ascii "'; "
  | .doesPasswordMatch username =>
    ascii "select Password from Users where Username = '" ++ username ++ ascii "'; "
  | .doesEmailMatch username =>
    ascii "select Mail from Users where Username = '" ++ username ++ ascii "'; "
  | .addNewUser username password mail =>
    ascii "insert into Users (Username, Password, Mail) values ('" ++ username ++ ascii "', '" ++
      password ++ ascii "', '" ++ mail ++ ascii "'); "
  | .changePassword username password =>
    ascii "update Users set password = '" ++ password ++ ascii "' where username = '" ++
      username ++ ascii "';"

/-- The values put into the text, in their order. -/
def values : SqlCall → List Bytes
  | .createTable => []
  | .doesUserExist username | .doesPasswordMatch username | .doesEmailMatch username => [username]
  | .doesEmailExist email => [email]
  | .addNewUser username password mail => [username, password, mail]
  | .changePassword username password => [password, username]

end SqlCall

/-- A word token of a template. -/
def keyword (text : String) : SqlToken := .word (ascii text)

/-- The tokens of a `select` statement before its value. -/
def selectHead (columns : SqlToken) (column : String) : List SqlToken :=
  [keyword "select", columns, keyword "from", keyword "Users", keyword "where", keyword column,
    .punctuation '='.toUInt8]

/-- The tokens of a `select` statement. -/
def selectTokens (columns : SqlToken) (column : String) (value : Bytes) : List SqlToken :=
  selectHead columns column ++ [.literal value, .punctuation ';'.toUInt8]

/-- The tokens of a column definition. -/
def columnTokens (column : String) : List SqlToken :=
  [keyword column, keyword "text", keyword "not", keyword "null"]

/-- The tokens the statement is meant to have: fixed ones, and each value as one literal. -/
def SqlCall.tokens : SqlCall → List SqlToken
  | .createTable =>
    [keyword "CREATE", keyword "TABLE", keyword "IF", keyword "NOT", keyword "EXISTS",
      keyword "Users", .punctuation '('.toUInt8, keyword "id", keyword "integer",
      keyword "primary", keyword "key", keyword "autoincrement", keyword "not", keyword "null",
      .punctuation ','.toUInt8] ++
    columnTokens "Username" ++ [.punctuation ','.toUInt8] ++
    columnTokens "Password" ++ [.punctuation ','.toUInt8] ++
    columnTokens "Mail" ++ [.punctuation ')'.toUInt8, .punctuation ';'.toUInt8]
  | .doesUserExist username => selectTokens (.punctuation '*'.toUInt8) "Username" username
  | .doesEmailExist email => selectTokens (.punctuation '*'.toUInt8) "Mail" email
  | .doesPasswordMatch username => selectTokens (keyword "Password") "Username" username
  | .doesEmailMatch username => selectTokens (keyword "Mail") "Username" username
  | .addNewUser username password mail =>
    [keyword "insert", keyword "into", keyword "Users", .punctuation '('.toUInt8,
      keyword "Username", .punctuation ','.toUInt8, keyword "Password", .punctuation ','.toUInt8,
      keyword "Mail", .punctuation ')'.toUInt8, keyword "values", .punctuation '('.toUInt8,
      .literal username, .punctuation ','.toUInt8, .literal password, .punctuation ','.toUInt8,
      .literal mail, .punctuation ')'.toUInt8, .punctuation ';'.toUInt8]
  | .changePassword username password =>
    [keyword "update", keyword "Users", keyword "set", keyword "password",
      .punctuation '='.toUInt8, .literal password, keyword "where", keyword "username",
      .punctuation '='.toUInt8, .literal username, .punctuation ';'.toUInt8]

/-- The literals of a statement are the values put into it. -/
theorem SqlCall.literals_tokens (sqlCall : SqlCall) : literals sqlCall.tokens = sqlCall.values := by
  cases sqlCall <;> rfl

/-- The text `sendMail` passes to `system`. -/
def mailCommand (email : Bytes) (randomNumber : ℕ) : Bytes :=
  ascii "python email_python.py --recipient " ++ email ++ ascii " --random_number " ++
    toText randomNumber

/-- The blank between the words of a command line. -/
def blank : UInt8 := ' '.toUInt8

/-- The words of a command line. -/
def commandWords (line : Bytes) : List Bytes := (line.splitOn blank).filter (· ≠ [])

/-- The words of the command line of `sendMail`. -/
def mailWords (email : Bytes) (randomNumber : ℕ) : List Bytes :=
  [ascii "python", ascii "email_python.py", ascii "--recipient", email, ascii "--random_number",
    toText randomNumber]

/-- The characters that a POSIX shell or `cmd.exe` gives a meaning of their own in a word: blanks
and control characters, quotes, operators, substitution, patterns and escapes. -/
def isShellMetacharacter (byte : UInt8) : Bool :=
  byte ≤ blank || 0x7f ≤ byte ||
    (ascii "\"\x27\x60\\$%!^&|;<>()[]\x7b\x7d*?~#=,").contains byte

/-! ### The statements are their templates -/

section Templates

variable {username password mail : Bytes}

/-- Kept bytes are no quotes. -/
theorem sqlQuote_notMem {field : Bytes} (hfield : ∀ byte ∈ field, isKept byte) :
    sqlQuote ∉ field :=
  fun hmem ↦ absurd (hfield _ hmem) (by decide)

/-- Kept bytes are no metacharacters. -/
theorem isShellMetacharacter_eq_false {byte : UInt8} (hkept : isKept byte = true) :
    isShellMetacharacter byte = false := by
  have hall : ∀ value : Fin 256, isKept (UInt8.ofFin value) = true →
      isShellMetacharacter (UInt8.ofFin value) = false := by decide +kernel
  exact hall byte.toFin hkept

/-- The tokens of the `select` statements. -/
theorem sqlTokens_select {before value : Bytes} {columns : SqlToken} {column : String}
    (hbefore : lexRun .between before = some (selectHead columns column, .inLiteral []))
    (hvalue : sqlQuote ∉ value) :
    sqlTokens (before ++ value ++ ascii "'; ") = some (selectTokens columns column value) := by
  rw [List.append_assoc]
  exact sqlTokens_of_lexRun (lexRun_append hbefore (lexRun_value hvalue rfl))

/-- Every statement has the tokens of its template, with the values as its literals. -/
theorem SqlCall.sqlTokens_command (sqlCall : SqlCall)
    (hvalues : ∀ value ∈ sqlCall.values, sqlQuote ∉ value) :
    sqlTokens sqlCall.command = some sqlCall.tokens := by
  cases sqlCall with
  | createTable => decide +kernel
  | doesUserExist username =>
    rw [command, tokens]
    exact sqlTokens_select (by decide +kernel) (hvalues username (by simp [values]))
  | doesEmailExist email =>
    rw [command, tokens]
    exact sqlTokens_select (by decide +kernel) (hvalues email (by simp [values]))
  | doesPasswordMatch username =>
    rw [command, tokens]
    exact sqlTokens_select (by decide +kernel) (hvalues username (by simp [values]))
  | doesEmailMatch username =>
    rw [command, tokens]
    exact sqlTokens_select (by decide +kernel) (hvalues username (by simp [values]))
  | addNewUser username password mail =>
    have hmail := lexRun_value (hvalues mail (by simp [values]))
      (rfl : lexRun (.inLiteral mail) (ascii "'); ") = some ([.literal mail,
        .punctuation ')'.toUInt8, .punctuation ';'.toUInt8], .between))
    have hcomma : ∀ value, lexRun (.inLiteral value) (ascii "', '") =
        some ([.literal value, .punctuation ','.toUInt8], .inLiteral []) := fun _ ↦ rfl
    have hpassword := lexRun_value (hvalues password (by simp [values]))
      (lexRun_append (hcomma password) hmail)
    have husername := lexRun_value (hvalues username (by simp [values]))
      (lexRun_append (hcomma username) hpassword)
    have hinsert : lexRun .between
        (ascii "insert into Users (Username, Password, Mail) values ('") =
          some ((addNewUser [] [] []).tokens.take 12, .inLiteral []) := by decide +kernel
    rw [command]
    simp only [List.append_assoc]
    exact sqlTokens_of_lexRun (lexRun_append hinsert husername)
  | changePassword username password =>
    have husername := lexRun_value (hvalues username (by simp [values]))
      (rfl : lexRun (.inLiteral username) (ascii "';") =
        some ([.literal username, .punctuation ';'.toUInt8], .between))
    have hwhere : lexRun (.inLiteral password) (ascii "' where username = '") =
        some ([.literal password, keyword "where", keyword "username", .punctuation '='.toUInt8],
          .inLiteral []) := rfl
    have hpassword := lexRun_value (hvalues password (by simp [values]))
      (lexRun_append hwhere husername)
    have hupdate : lexRun .between (ascii "update Users set password = '") =
        some ((changePassword [] []).tokens.take 5, .inLiteral []) := by decide +kernel
    rw [command]
    simp only [List.append_assoc]
    exact sqlTokens_of_lexRun (lexRun_append hupdate hpassword)

/-- The digits of a number hold no blank. -/
theorem blank_notMem_toText (number : ℕ) : blank ∉ toText number :=
  fun hmem ↦ absurd (isdigit_of_mem_toText hmem) (by decide)

/-- The command line with a non-empty address has its six words. -/
theorem commandWords_mailCommand {email : Bytes} (hkept : ∀ byte ∈ email, isKept byte)
    (hne : email ≠ []) (randomNumber : ℕ) :
    commandWords (mailCommand email randomNumber) = mailWords email randomNumber := by
  have hline : mailCommand email randomNumber =
      [blank].intercalate (mailWords email randomNumber) := by
    have hbefore : ascii "python email_python.py --recipient " =
        ascii "python" ++ [blank] ++ ascii "email_python.py" ++ [blank] ++ ascii "--recipient" ++
          [blank] := by decide +kernel
    have hafter : ascii " --random_number " = [blank] ++ ascii "--random_number" ++ [blank] := by
      decide +kernel
    rw [mailCommand, hbefore, hafter, mailWords]
    simp [List.intercalate]
  have hblank : ∀ word ∈ mailWords email randomNumber, blank ∉ word := by
    have hemail : blank ∉ email := fun hmem ↦ absurd (hkept _ hmem) (by decide)
    simp only [mailWords, List.forall_mem_cons, List.not_mem_nil, false_imp_iff, implies_true]
    exact ⟨by decide +kernel, by decide +kernel, by decide +kernel, hemail, by decide +kernel,
      blank_notMem_toText randomNumber, trivial⟩
  have hfull : ∀ word ∈ mailWords email randomNumber, word ≠ [] := by
    simp only [mailWords, List.forall_mem_cons, List.not_mem_nil, false_imp_iff, implies_true]
    exact ⟨by decide, by decide, by decide, hne, by decide, toText_ne_nil randomNumber, trivial⟩
  rw [commandWords, hline, List.splitOn_intercalate blank hblank (by simp [mailWords]),
    List.filter_eq_self]
  simpa using hfull

end Templates

/-! ### The handlers and their calls -/

/-- What the server passes to the outside as text. -/
inductive SystemCall
  | sqlite3Exec (command : Bytes)
  | system (command : Bytes)
deriving DecidableEq, Repr

/-- A computation of a handler. -/
abbrev Handling := Calling AccessFault SystemCall

/-- Runs a statement. -/
def execute (sqlCall : SqlCall) : Handling Unit := call (.sqlite3Exec sqlCall.command)

/-- `DBCommunicator::open`: the table is created when the database file could be opened. -/
def openDatabase (opened : Bool) : Handling Unit :=
  if opened then execute .createTable else pure ()

section Handlers

variable (environment : Environment) (accounts : Accounts) (userInfo : Bytes)

/-- `DBCommunicator::doesUserExist`, with its call. -/
def userExists (username : Bytes) : Handling Bool := do
  execute (.doesUserExist username)
  return doesUserExist environment.sql accounts.users username

/-- `DBCommunicator::doesEmailExist`, with its call. -/
def emailExists (email : Bytes) : Handling Bool := do
  execute (.doesEmailExist email)
  return doesEmailExist environment.sql accounts.users email

/-- `DBCommunicator::doesPasswordMatch`, with its call. -/
def passwordMatches (username password : Bytes) : Handling Bool := do
  execute (.doesPasswordMatch username)
  return doesPasswordMatch environment.sql accounts.users username password

/-- `DBCommunicator::doesEmailMatch`, with its call. -/
def emailMatches (username email : Bytes) : Handling Bool := do
  execute (.doesEmailMatch username)
  return doesEmailMatch environment.sql accounts.users username email

/-- `DBCommunicator::addNewUser`, with its call. -/
def insertUser (username password mail : Bytes) : Handling (Bool × List Row) := do
  execute (.addNewUser username password mail)
  return addNewUser environment.sql accounts.users username password mail

/-- `DBCommunicator::changePassword`, with its call. -/
def updatePassword (username password : Bytes) : Handling (Bool × List Row) := do
  execute (.changePassword username password)
  return changePassword environment.sql accounts.users username password

/-- `EmailHandler::sendMail`, with its call. -/
def mailCode (email : Bytes) : Handling (SubscriptMap Bytes Bytes × Option Mailing) := do
  call (.system (mailCommand email (environment.rand % 900000 + 100000)))
  return sendMail environment accounts.resetCodes email

/-- `AccountHandler::handleLogin`, with its calls. -/
def handleLoginCalls : Handling Handled := do
  let details := getDetails userInfo
  let username ← silent (detailAt details 0)
  let password ← silent (detailAt details 1)
  let known ← userExists environment accounts username
  if known then
    let correct ← passwordMatches environment accounts username password
    if correct then
      return { accounts, result := [infoCorrect, username] }
    else
      return { accounts, result := [incorrectPass] }
  else
    return { accounts, result := [invalidUser] }

/-- `AccountHandler::handleSignup`, with its calls. -/
def handleSignupCalls : Handling Handled := do
  let details := getDetails userInfo
  let username ← silent (detailAt details 0)
  let _password ← silent (detailAt details 1)
  let email ← silent (detailAt details 2)
  let known ← userExists environment accounts username
  if !known then
    let used ← emailExists environment accounts email
    if !used then
      let (resetCodes, mailed) ← mailCode environment accounts email
      return { accounts := { accounts with resetCodes }, result := [infoCorrect, username], mailed }
    else
      return { accounts, result := [emailAlreadyExists] }
  else
    return { accounts, result := [userAlreadyExists] }

/-- `AccountHandler::handlePassReset`, with its calls. -/
def handlePassResetCalls : Handling Handled := do
  let details := getDetails userInfo
  let username ← silent (detailAt details 0)
  let newPassword ← silent (detailAt details 1)
  let email ← silent (detailAt details 2)
  let passcode ← silent (detailAt details 3)
  let resetCodes := accounts.resetCodes.touch email
  if isCodeCorrect accounts.resetCodes email passcode then
    let (_, users) ← updatePassword environment accounts username newPassword
    return { accounts := { accounts with users, resetCodes }, result := [infoCorrect] }
  else
    return { accounts := { accounts with resetCodes }, result := [incorrectPass] }

/-- `AccountHandler::handleEmailReq`, with its calls. -/
def handleEmailReqCalls : Handling Handled := do
  let details := getDetails userInfo
  let username ← silent (detailAt details 0)
  let email ← silent (detailAt details 1)
  let known ← emailExists environment accounts email
  if known then
    let own ← emailMatches environment accounts username email
    if own then
      let (resetCodes, mailed) ← mailCode environment accounts email
      return { accounts := { accounts with resetCodes }, result := [infoCorrect], mailed }
    else
      return { accounts, result := [invalidUser] }
  else
    return { accounts, result := [emailDoesntExists] }

/-- `AccountHandler::verifyPasscode`, with its calls. -/
def verifyPasscodeCalls : Handling Handled := do
  let details := getDetails userInfo
  let username ← silent (detailAt details 0)
  let password ← silent (detailAt details 1)
  let email ← silent (detailAt details 2)
  let code ← silent (detailAt details 3)
  let resetCodes := accounts.resetCodes.touch email
  if isCodeCorrect accounts.resetCodes email code then
    let (_, users) ← insertUser environment accounts username password email
    return { accounts := { accounts with users, resetCodes }, result := [infoCorrect] }
  else
    return { accounts := { accounts with resetCodes }, result := [incorrectPass] }

/-- `AccountHandler::analyzeUser`, with its calls. -/
def analyzeUserCalls (opened : Bool) (server : ServerState) (clientAddr : SockAddr) :
    Handling (ServerState × Observation) := do
  openDatabase opened
  match requestKind userInfo with
  | some .login =>
    completeLogin environment server clientAddr <$>
      handleLoginCalls environment server.accounts userInfo
  | some .signup =>
    answered server clientAddr <$> handleSignupCalls environment server.accounts userInfo
  | some .session => enterSession server <$> silent (handleSessionReq server.accounts userInfo)
  | some .codeCheck =>
    answered server clientAddr <$> verifyPasscodeCalls environment server.accounts userInfo
  | some .mailCode =>
    answered server clientAddr <$> handleEmailReqCalls environment server.accounts userInfo
  | some .newPass =>
    answered server clientAddr <$> handlePassResetCalls environment server.accounts userInfo
  | none => return (server, {})

/-! ### Forgetting the calls -/

theorem outcome_handleLoginCalls :
    outcome (handleLoginCalls environment accounts userInfo) =
      handleLogin environment accounts userInfo := by
  simp [handleLoginCalls, handleLogin, userExists, passwordMatches, execute]

theorem outcome_handleSignupCalls :
    outcome (handleSignupCalls environment accounts userInfo) =
      handleSignup environment accounts userInfo := by
  simp [handleSignupCalls, handleSignup, userExists, emailExists, mailCode, execute]

theorem outcome_handlePassResetCalls :
    outcome (handlePassResetCalls environment accounts userInfo) =
      handlePassReset environment accounts userInfo := by
  simp [handlePassResetCalls, handlePassReset, updatePassword, execute]

theorem outcome_handleEmailReqCalls :
    outcome (handleEmailReqCalls environment accounts userInfo) =
      handleEmailReq environment accounts userInfo := by
  simp [handleEmailReqCalls, handleEmailReq, emailExists, emailMatches, mailCode, execute]

theorem outcome_verifyPasscodeCalls :
    outcome (verifyPasscodeCalls environment accounts userInfo) =
      verifyPasscode environment accounts userInfo := by
  simp [verifyPasscodeCalls, verifyPasscode, insertUser, execute]

theorem outcome_analyzeUserCalls (opened : Bool) (server : ServerState) (clientAddr : SockAddr) :
    outcome (analyzeUserCalls environment userInfo opened server clientAddr) =
      analyzeUser environment server userInfo clientAddr := by
  have hopen : outcome (openDatabase opened) = .ok () := by
    cases opened <;> rfl
  rw [analyzeUserCalls, outcome_bind, hopen, analyzeUser]
  cases requestKind userInfo with
  | none => rfl
  | some kind =>
    change outcome _ = _
    cases kind with
    | login => rw [outcome_map, outcome_handleLoginCalls]
    | signup => rw [outcome_map, outcome_handleSignupCalls]
    | session => rw [outcome_map, outcome_silent]
    | codeCheck => rw [outcome_map, outcome_verifyPasscodeCalls]
    | mailCode => rw [outcome_map, outcome_handleEmailReqCalls]
    | newPass => rw [outcome_map, outcome_handlePassResetCalls]

end Handlers

/-! ### Every call is its template -/

/-- A call whose text is a fixed one with fields put in: a statement has the tokens of its template,
the fields being its literals, and a command line has the words of its template. -/
def HarmlessCall (details : List Bytes) : SystemCall → Prop
  | .sqlite3Exec command => ∃ sqlCall : SqlCall, command = sqlCall.command ∧
      (∀ value ∈ sqlCall.values, value ∈ details ∧ sqlQuote ∉ value) ∧
      sqlTokens command = some sqlCall.tokens ∧ literals sqlCall.tokens = sqlCall.values
  | .system command => ∃ email ∈ details, ∃ randomNumber, command = mailCommand email randomNumber ∧
      (∀ byte ∈ email, isShellMetacharacter byte = false) ∧
      (email ≠ [] → commandWords command = mailWords email randomNumber)

section Harmless

variable {environment : Environment} {accounts : Accounts} {userInfo : Bytes}

/-- A field of the request. -/
theorem satisfies_detailAt (index : ℕ) :
    Satisfies (HarmlessCall (getDetails userInfo)) (· ∈ getDetails userInfo)
      (silent (detailAt (getDetails userInfo) index)) :=
  .silent fun _ hfield ↦ List.mem_of_getElem? (detailAt_eq_ok.mp hfield)

/-- A statement with fields of the request. -/
theorem satisfies_execute {α : Type} (sqlCall : SqlCall) (value : α)
    (hvalues : ∀ value ∈ sqlCall.values, value ∈ getDetails userInfo) :
    Satisfies (HarmlessCall (getDetails userInfo)) (fun _ ↦ True)
      (execute sqlCall >>= fun _ ↦ pure value) := by
  have hquote : ∀ value ∈ sqlCall.values, sqlQuote ∉ value := fun value hvalue ↦
    sqlQuote_notMem (kept_of_mem_getDetails (hvalues value hvalue))
  refine (Satisfies.call ?_).bind fun _ _ ↦ .pure trivial
  exact ⟨sqlCall, rfl, fun value hvalue ↦ ⟨hvalues value hvalue, hquote value hvalue⟩,
    sqlCall.sqlTokens_command hquote, sqlCall.literals_tokens⟩

/-- A mail to a field of the request. -/
theorem satisfies_mailCode {email : Bytes} (hemail : email ∈ getDetails userInfo) :
    Satisfies (HarmlessCall (getDetails userInfo)) (fun _ ↦ True)
      (mailCode environment accounts email) := by
  have hkept := kept_of_mem_getDetails hemail
  refine (Satisfies.call ?_).bind fun _ _ ↦ .pure trivial
  exact ⟨email, hemail, _, rfl, fun byte hbyte ↦ isShellMetacharacter_eq_false (hkept byte hbyte),
    fun hne ↦ commandWords_mailCommand hkept hne _⟩

theorem satisfies_openDatabase (opened : Bool) :
    Satisfies (HarmlessCall (getDetails userInfo)) (fun _ ↦ True) (openDatabase opened) := by
  refine .ite ?_ (.pure trivial)
  exact satisfies_execute .createTable () (by simp [SqlCall.values])

theorem satisfies_handleLoginCalls :
    Satisfies (HarmlessCall (getDetails userInfo)) (fun _ ↦ True)
      (handleLoginCalls environment accounts userInfo) := by
  refine (satisfies_detailAt 0).bind fun username husername ↦ ?_
  refine (satisfies_detailAt 1).bind fun password _ ↦ ?_
  refine (satisfies_execute (.doesUserExist username) _ ?_).bind fun known _ ↦ .ite ?_ ?_
  · simpa [SqlCall.values] using husername
  · refine (satisfies_execute (.doesPasswordMatch username) _ ?_).bind fun correct _ ↦ ?_
    · simpa [SqlCall.values] using husername
    · exact .ite (.pure trivial) (.pure trivial)
  · exact .pure trivial

theorem satisfies_handleSignupCalls :
    Satisfies (HarmlessCall (getDetails userInfo)) (fun _ ↦ True)
      (handleSignupCalls environment accounts userInfo) := by
  refine (satisfies_detailAt 0).bind fun username husername ↦ ?_
  refine (satisfies_detailAt 1).bind fun _ _ ↦ ?_
  refine (satisfies_detailAt 2).bind fun email hemail ↦ ?_
  refine (satisfies_execute (.doesUserExist username) _ ?_).bind fun known _ ↦ .ite ?_ ?_
  · simpa [SqlCall.values] using husername
  · refine (satisfies_execute (.doesEmailExist email) _ ?_).bind fun used _ ↦ .ite ?_ ?_
    · simpa [SqlCall.values] using hemail
    · exact (satisfies_mailCode hemail).bind fun _ _ ↦ .pure trivial
    · exact .pure trivial
  · exact .pure trivial

theorem satisfies_handlePassResetCalls :
    Satisfies (HarmlessCall (getDetails userInfo)) (fun _ ↦ True)
      (handlePassResetCalls environment accounts userInfo) := by
  refine (satisfies_detailAt 0).bind fun username husername ↦ ?_
  refine (satisfies_detailAt 1).bind fun newPassword hnewPassword ↦ ?_
  refine (satisfies_detailAt 2).bind fun _ _ ↦ ?_
  refine (satisfies_detailAt 3).bind fun _ _ ↦ .ite ?_ (.pure trivial)
  refine (satisfies_execute (.changePassword username newPassword) _ ?_).bind fun _ _ ↦ ?_
  · simpa [SqlCall.values] using ⟨hnewPassword, husername⟩
  · exact .pure trivial

theorem satisfies_handleEmailReqCalls :
    Satisfies (HarmlessCall (getDetails userInfo)) (fun _ ↦ True)
      (handleEmailReqCalls environment accounts userInfo) := by
  refine (satisfies_detailAt 0).bind fun username husername ↦ ?_
  refine (satisfies_detailAt 1).bind fun email hemail ↦ ?_
  refine (satisfies_execute (.doesEmailExist email) _ ?_).bind fun known _ ↦ .ite ?_ ?_
  · simpa [SqlCall.values] using hemail
  · refine (satisfies_execute (.doesEmailMatch username) _ ?_).bind fun own _ ↦ .ite ?_ ?_
    · simpa [SqlCall.values] using husername
    · exact (satisfies_mailCode hemail).bind fun _ _ ↦ .pure trivial
    · exact .pure trivial
  · exact .pure trivial

theorem satisfies_verifyPasscodeCalls :
    Satisfies (HarmlessCall (getDetails userInfo)) (fun _ ↦ True)
      (verifyPasscodeCalls environment accounts userInfo) := by
  refine (satisfies_detailAt 0).bind fun username husername ↦ ?_
  refine (satisfies_detailAt 1).bind fun password hpassword ↦ ?_
  refine (satisfies_detailAt 2).bind fun email hemail ↦ ?_
  refine (satisfies_detailAt 3).bind fun _ _ ↦ .ite ?_ (.pure trivial)
  refine (satisfies_execute (.addNewUser username password email) _ ?_).bind fun _ _ ↦ ?_
  · simpa [SqlCall.values] using ⟨husername, hpassword, hemail⟩
  · exact .pure trivial

/-- Every call made while a request is handled is a template with fields of the request. -/
theorem satisfies_analyzeUserCalls (opened : Bool) (server : ServerState) (clientAddr : SockAddr) :
    Satisfies (HarmlessCall (getDetails userInfo)) (fun _ ↦ True)
      (analyzeUserCalls environment userInfo opened server clientAddr) := by
  refine (satisfies_openDatabase opened).bind fun _ _ ↦ ?_
  split
  · exact satisfies_handleLoginCalls.map fun _ _ ↦ trivial
  · exact satisfies_handleSignupCalls.map fun _ _ ↦ trivial
  · exact (Satisfies.silent fun _ _ ↦ trivial).map fun _ _ ↦ trivial
  · exact satisfies_verifyPasscodeCalls.map fun _ _ ↦ trivial
  · exact satisfies_handleEmailReqCalls.map fun _ _ ↦ trivial
  · exact satisfies_handlePassResetCalls.map fun _ _ ↦ trivial
  · exact .pure trivial

end Harmless

/-- The server handles every request that has the fields its handler reads, and every text it passes
to the database or to the command processor meanwhile is a fixed one around fields of the request,
with the tokens and the words it is meant to have. -/
theorem calls_of_analyzeUser (environment : Environment) (opened : Bool) (server : ServerState)
    (userInfo : Bytes) (clientAddr : SockAddr)
    (hfields : ∀ kind, requestKind userInfo = some kind →
      fieldsIndexed kind ≤ (getDetails userInfo).length) :
    ∃ result calls,
      analyzeUserCalls environment userInfo opened server clientAddr = .ok (result, calls) ∧
      analyzeUser environment server userInfo clientAddr = .ok result ∧
      ∀ made ∈ calls, HarmlessCall (getDetails userInfo) made := by
  obtain ⟨result, hresult⟩ :
      ∃ result, analyzeUser environment server userInfo clientAddr = .ok result :=
    (exists_analyzeUser_eq_ok userInfo).mpr fun kind hkind ↦ by
      simpa only [length_getDetails] using hfields kind hkind
  obtain ⟨calls, hcalls⟩ := exists_calls_of_outcome
    ((outcome_analyzeUserCalls environment userInfo opened server clientAddr).trans hresult)
  exact ⟨result, calls, hcalls, hresult,
    (satisfies_analyzeUserCalls opened server clientAddr result calls hcalls).2⟩

/-- A signup whose address tries to leave both its literal and its word. -/
def hostileSignup : Bytes := ascii "S:bob:Abcdefg1:b@x.y'); -- & del"

theorem calls_of_hostileSignup :
    ∃ result calls,
      analyzeUserCalls ⟨0, 0, fun _ ↦ true, []⟩ hostileSignup true (start []) default =
        .ok (result, calls) ∧
      analyzeUser ⟨0, 0, fun _ ↦ true, []⟩ (start []) hostileSignup default = .ok result ∧
      ∀ made ∈ calls, HarmlessCall (getDetails hostileSignup) made :=
  calls_of_analyzeUser ⟨0, 0, fun _ ↦ true, []⟩ true (start []) hostileSignup default
    (by decide +kernel)

/-- The command line of that signup. -/
example :
    (analyzeUserCalls ⟨0, 0, fun _ ↦ true, []⟩ hostileSignup true (start []) default).map
        (·.2.getLast?) =
      .ok (some (.system (ascii
        "python email_python.py --recipient b@x.ydel --random_number 100000"))) := by
  decide +kernel

end NovaIde.Server
