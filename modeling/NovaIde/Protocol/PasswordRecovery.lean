import NovaIde.Protocol.ClientRequests
import NovaIde.Server.TableUniqueness

/-!
# Recovering a password

The recovery spans three pages. `PasswordRecovery` asks the server to mail a code,
`EmailVerfication` sends the code back, and `NewPassword` sends the new password with it. The second
page is the one a signup ends with, and its request is the one that creates the account: it brings
the username and the password that an earlier signup left in the page, or none. So the recovery
inserts a row before it changes the password, unless the database refuses it (`recoversOnly_iff`).
-/

set_option autoImplicit false
set_option relaxedAutoImplicit false

namespace NovaIde.Protocol

open Foundation Foundation.EventRun Client Server

/-! ### The pages -/

/-- The part of `EmailVerfication` and `NewPassword` that is kept between pages. What was never set
is put into a request as the empty string. -/
structure Pages where
  verificationUsername : Text := []
  verificationPassword : Text := []
  verificationEmail : Text := []
  verificationAction : Text := []
  newPasswordUsername : Text := []
  newPasswordEmail : Text := []
  newPasswordCode : Text := []
deriving DecidableEq, Repr

/-- `PasswordRecovery.done`, from the answer of the server on: the pages when the verification page
opens. -/
def passwordRecoveryDone (pages : Pages) (username email message : Text) : Option Pages :=
  match message with
  | [] => none
  | code :: _ =>
    if code = unit '5' ∨ code = unit '2' then none
    else
      some { pages with
        newPasswordUsername := username
        verificationAction := str "recovery"
        verificationEmail := email
        newPasswordEmail := email }

/-- `EmailVerfication.done`, from the answer of the server on: the pages when the page for the new
password opens. -/
def emailVerficationDone (pages : Pages) (codeText message : Text) : Option Pages :=
  match message with
  | [] => none
  | code :: _ =>
    if code = unit '9' ∧ pages.verificationAction = str "recovery" then
      some { pages with newPasswordCode := codeText }
    else none

/-- Whether `NewPassword.done` reports success. -/
def newPasswordDone (message : Text) : Bool := message.head? = some (unit '9')

/-! ### The flow -/

/-- A request sent to the server, and the answer. -/
def serve (server : ServerState) (clientAddr : SockAddr) (environment : Environment)
    (request : ClientRequest) : Option (ServerState × Text) := do
  let userInfo ← acceptClient request.datagram
  let (next, observation) ← step server (.receive userInfo clientAddr environment)
  let reply ← observation.replies.head?
  return (next, utf8GetString reply.payload)

/-- What the user types during a recovery, and what happens on the server meanwhile. -/
structure Recovery where
  username : Text
  email : Text
  codeText : Text
  password : Text
  clientAddr : SockAddr
  mailing : Environment
  verifying : Environment
  changing : Environment

namespace Recovery

variable (recovery : Recovery)

/-- The request of `PasswordRecovery`. -/
def emailRequest : ClientRequest := .checkEmail recovery.username recovery.email

/-- The request of `NewPassword`. -/
def passwordRequest (pages : Pages) : ClientRequest :=
  .sendNewPassword pages.newPasswordUsername recovery.password pages.newPasswordEmail
    pages.newPasswordCode

/-- The request of `EmailVerfication`. -/
def codeRequest (pages : Pages) : ClientRequest :=
  .checkCode pages.verificationUsername pages.verificationPassword pages.verificationEmail
    recovery.codeText

/-- The whole recovery: the state of the server when every page accepted its answer. -/
def run (classes : CharClasses) (server : ServerState) (pages : Pages) : Option ServerState := do
  let (server, message) ← serve server recovery.clientAddr recovery.mailing recovery.emailRequest
  let pages ← passwordRecoveryDone pages recovery.username recovery.email message
  let (server, message) ←
    serve server recovery.clientAddr recovery.verifying (recovery.codeRequest pages)
  let pages ← emailVerficationDone pages recovery.codeText message
  guard (passwordAccepted classes recovery.password = true)
  let (server, message) ←
    serve server recovery.clientAddr recovery.changing (recovery.passwordRequest pages)
  guard (newPasswordDone message = true)
  return server

end Recovery

/-- The field at a position of a request, as the server reads it. -/
def readField (request : ClientRequest) (index : ℕ) : Option Bytes :=
  (acceptClient request.datagram).bind fun userInfo ↦ (getDetails userInfo)[index]?

/-- The first field of the two requests that name the user is the same for the server. -/
theorem readField_username {username email password code : Text} {emailRead passwordRead : Bytes}
    (hemail : readField (.checkEmail username email) 0 = some emailRead)
    (hpassword : readField (.sendNewPassword username password email code) 0 =
      some passwordRead) : emailRead = passwordRead := by
  have hfirst : ∀ {request : ClientRequest} {read : Bytes} {rest : Bytes},
      readField request 0 = some read →
        (request.fields.map utf8GetBytes).flatMap (seperationIdentifier :: ·) =
          seperationIdentifier :: (utf8GetBytes username ++ seperationIdentifier :: rest) →
        (detailsLoop [] [] ((utf8GetBytes username ++ seperationIdentifier :: rest).takeWhile
          (· ≠ 0)))[0]? = some read := by
    intro request read rest hread hfields
    obtain ⟨userInfo, hreceived, hdetail⟩ := Option.bind_eq_some_iff.mp hread
    rw [eq_of_acceptClient hreceived, hfields] at hdetail
    exact hdetail
  have hsame := (hfirst hemail (by simp [ClientRequest.fields]; rfl)).symm.trans
    ((head_detailsLoop_congr _ _ _ []).trans
      (hfirst hpassword (by simp [ClientRequest.fields]; rfl)))
  exact Option.some.inj hsame

/-! ### What each request does to the table -/

section Requests

variable {server next : ServerState} {clientAddr : SockAddr} {environment : Environment}
  {message : Text}

/-- A request that was answered. -/
theorem serve_eq_some {request : ClientRequest} :
    serve server clientAddr environment request = some (next, message) ↔
      ∃ userInfo observation reply, acceptClient request.datagram = some userInfo ∧
        step server (.receive userInfo clientAddr environment) = some (next, observation) ∧
        observation.replies.head? = some reply ∧ message = utf8GetString reply.payload := by
  simp only [serve, Option.bind_eq_bind, Option.bind_eq_some_iff, Option.pure_def,
    Option.some.injEq, Prod.mk.injEq, Prod.exists]
  constructor
  · rintro ⟨userInfo, hreceived, server', observation, hstep, reply, hreply, rfl, rfl⟩
    exact ⟨userInfo, observation, reply, hreceived, hstep, hreply, rfl⟩
  · rintro ⟨userInfo, observation, reply, hreceived, hstep, hreply, rfl⟩
    exact ⟨userInfo, hreceived, next, observation, hstep, reply, hreply, rfl, rfl⟩

/-- Asking for a code leaves the table alone. -/
theorem users_of_serve_checkEmail {username email : Text}
    (hserve : serve server clientAddr environment (.checkEmail username email) =
      some (next, message)) : next.accounts.users = server.accounts.users := by
  obtain ⟨userInfo, observation, reply, hreceived, hstep, -, -⟩ := serve_eq_some.mp hserve
  have hkind := requestKind_of_acceptClient hreceived
  rw [users_of_step hstep]
  simp [codeRequest, hkind, ClientRequest.kind, codeUse]

/-- The answer to a wrong code is not taken for an acceptance. -/
theorem head_of_rejected {handled : Handled} {reply : Reply}
    (hresult : handled.result = [incorrectPass])
    (hreply : (answered server clientAddr handled).2.replies.head? = some reply) :
    (utf8GetString reply.payload).head? ≠ some (unit '9') := by
  obtain rfl : ⟨clientAddr, responseText handled.result⟩ = reply := Option.some.inj hreply
  rw [hresult]
  exact (by decide +kernel : (utf8GetString (responseText [incorrectPass])).head? ≠ some (unit '9'))

/-- A code check that the page takes for accepted inserts a row, if the database lets it. -/
theorem users_of_serve_checkCode {username password email code : Text}
    (hserve : serve server clientAddr environment (.checkCode username password email code) =
      some (next, message)) (haccepted : message.head? = some (unit '9')) :
    ∃ row : Row, next.accounts.users =
      if environment.sql .addNewUser then server.accounts.users ++ [row]
      else server.accounts.users := by
  obtain ⟨userInfo, observation, reply, hreceived, hstep, hreply, rfl⟩ := serve_eq_some.mp hserve
  have hrequest := requestKind_of_acceptClient hreceived
  cases stepShape_of_step hstep with
  | codeCheck hkind hhandled =>
    obtain ⟨name, word, mail, given, -, -, -, -, rfl⟩ := verifyPasscode_eq_ok.mp hhandled
    by_cases hcode : isCodeCorrect server.accounts.resetCodes mail given = true
    · rw [if_pos hcode]
      refine ⟨⟨name, word, mail⟩, ?_⟩
      simp only [answered, addNewUser]
      split_ifs <;> rfl
    · rw [if_neg hcode] at hreply
      exact absurd haccepted (head_of_rejected rfl hreply)
  | ignored hkind | login hkind | signup hkind | session hkind | mailCode hkind
  | newPass hkind => simp [ClientRequest.kind, hkind] at hrequest

/-- A new password that is accepted is written into the rows of the username, if the database lets
it. -/
theorem users_of_serve_sendNewPassword {username password email code : Text}
    (hserve : serve server clientAddr environment (.sendNewPassword username password email code) =
      some (next, message)) (haccepted : message.head? = some (unit '9')) :
    ∃ usernameRead passwordRead,
      readField (.sendNewPassword username password email code) 0 = some usernameRead ∧
      readField (.sendNewPassword username password email code) 1 = some passwordRead ∧
      next.accounts.users =
        (changePassword environment.sql server.accounts.users usernameRead passwordRead).2 := by
  obtain ⟨userInfo, observation, reply, hreceived, hstep, hreply, rfl⟩ := serve_eq_some.mp hserve
  have hrequest := requestKind_of_acceptClient hreceived
  cases stepShape_of_step hstep with
  | newPass hkind hhandled =>
    obtain ⟨name, word, mail, given, hname, hword, -, -, rfl⟩ :=
      handlePassReset_eq_ok.mp hhandled
    by_cases hcode : isCodeCorrect server.accounts.resetCodes mail given = true
    · rw [if_pos hcode]
      refine ⟨name, word, ?_, ?_, rfl⟩
      · rw [readField, hreceived, Option.bind_some, hname]
      · rw [readField, hreceived, Option.bind_some, hword]
    · rw [if_neg hcode] at hreply
      exact absurd haccepted (head_of_rejected rfl hreply)
  | ignored hkind | login hkind | signup hkind | session hkind | mailCode hkind
  | codeCheck hkind => simp [ClientRequest.kind, hkind] at hrequest

end Requests

/-! ### What a recovery does to the table -/

/-- The request of `NewPassword` at the end of a recovery. -/
def Recovery.lastRequest (recovery : Recovery) : ClientRequest :=
  .sendNewPassword recovery.username recovery.password recovery.email recovery.codeText

/-- The table after a recovery: a row is inserted in it, if the database lets the verification do
so, and then the password of the user is set. -/
theorem users_of_run {recovery : Recovery} {classes : CharClasses} {server after : ServerState}
    {pages : Pages} (hrun : recovery.run classes server pages = some after) :
    ∃ row username password, readField recovery.lastRequest 0 = some username ∧
      readField recovery.lastRequest 1 = some password ∧
      after.accounts.users = (changePassword recovery.changing.sql
        (if recovery.verifying.sql .addNewUser then server.accounts.users ++ [row]
        else server.accounts.users) username password).2 := by
  simp only [Recovery.run, Option.bind_eq_bind, Option.bind_eq_some_iff, Prod.exists,
    Option.guard_eq_some', Option.pure_def, Option.some.injEq] at hrun
  obtain ⟨mailed, mailMessage, hmail, opened, hopened, verified, codeMessage, hverify, filled,
    hfilled, -, -, changed, message, hchange, -, hdone, rfl⟩ := hrun
  have hopenedPages : opened = { pages with
      newPasswordUsername := recovery.username
      verificationAction := str "recovery"
      verificationEmail := recovery.email
      newPasswordEmail := recovery.email } := by
    unfold passwordRecoveryDone at hopened
    split at hopened
    · cases hopened
    · split_ifs at hopened
      exact (Option.some.inj hopened).symm
  obtain ⟨hcode, hfilledPages⟩ : codeMessage.head? = some (unit '9') ∧
      filled = { opened with newPasswordCode := recovery.codeText } := by
    unfold emailVerficationDone at hfilled
    split at hfilled
    · cases hfilled
    · next code rest =>
      split_ifs at hfilled with haccepted
      exact ⟨by rw [List.head?_cons, haccepted.1], (Option.some.inj hfilled).symm⟩
  have hrequest : recovery.passwordRequest filled = recovery.lastRequest := by
    rw [hfilledPages, hopenedPages]
    rfl
  rw [hrequest] at hchange
  obtain ⟨row, hinserted⟩ := users_of_serve_checkCode hverify hcode
  obtain ⟨username, password, husername, hpassword, husers⟩ :=
    users_of_serve_sendNewPassword hchange (of_decide_eq_true hdone)
  refine ⟨row, username, password, husername, hpassword, ?_⟩
  rw [husers, hinserted, users_of_serve_checkEmail hmail]

/-- What a recovery is meant to do: the usernames and mails stay, the row of the user gets the new
password and the other rows stay as they are. -/
structure RecoversOnly (users after : List Row) (row : Row) (password : Bytes) : Prop where
  names : (after.map fun other ↦ (other.username, other.mail)).Perm
    (users.map fun other ↦ (other.username, other.mail))
  changed : ⟨row.username, password, row.mail⟩ ∈ after
  kept : ∀ other ∈ users, other.username ≠ row.username → other ∈ after

/-- The effect of a recovery on a unique table: exactly the one meant when no row was inserted, and
the password was written or was the new one already. -/
theorem recoversOnly_changePassword {sql : SqlOutcome} {users : List Row} {inserted : Bool}
    {row added : Row} {password : Bytes} (hunique : UniqueUsers users) (hrow : row ∈ users) :
    RecoversOnly users (changePassword sql (if inserted then users ++ [added] else users)
        row.username password).2 row password ↔
      inserted = false ∧ (sql .changePassword = true ∨ row.password = password) := by
  have hsame : ∀ other ∈ users, other.username = row.username → other = row := fun other hother ↦
    List.inj_on_of_nodup_map hunique.1 hother hrow
  constructor
  · intro honly
    have hkept : inserted = false := by
      have hlength := honly.names.length_eq
      rw [List.length_map, List.length_map, length_changePassword] at hlength
      by_contra hinserted
      rw [Bool.not_eq_false] at hinserted
      simp [hinserted] at hlength
    refine ⟨hkept, ?_⟩
    by_cases hsql : sql .changePassword = true
    · exact .inl hsql
    · have hchanged := honly.changed
      simp only [hkept, changePassword, hsql, Bool.false_eq_true, if_false] at hchanged
      exact .inr (congrArg Row.password (hsame _ hchanged rfl)).symm
  · rintro ⟨rfl, hwritten⟩
    simp only [Bool.false_eq_true, if_false]
    by_cases hsql : sql .changePassword = true
    · have hnames : (changePassword sql users row.username password).2.map
          (fun other ↦ (other.username, other.mail)) =
            users.map fun other ↦ (other.username, other.mail) := by
        simp only [changePassword, hsql, if_true, List.map_map]
        refine List.map_congr_left fun other _ ↦ ?_
        simp only [Function.comp_apply]
        split_ifs <;> rfl
      refine ⟨.of_eq hnames, ?_, fun other hother hne ↦ ?_⟩
      · simp only [changePassword, hsql, if_true]
        exact List.mem_map.mpr ⟨row, hrow, by simp⟩
      · simp only [changePassword, hsql, if_true]
        exact List.mem_map.mpr ⟨other, hother, by simp [hne]⟩
    · simp only [changePassword, hsql, Bool.false_eq_true, if_false]
      refine ⟨.refl _, ?_, fun other hother _ ↦ hother⟩
      rw [← hwritten.resolve_left hsql]
      exact hrow

/-- A recovery that every page accepts changes the password of the user and nothing else exactly
when the database refuses the row that the verification inserts, and lets the password be written
or already held it. -/
theorem recoversOnly_iff {recovery : Recovery} {classes : CharClasses}
    {server after : ServerState} {pages : Pages} {row : Row} {password : Bytes}
    (hunique : UniqueUsers server.accounts.users) (hrow : row ∈ server.accounts.users)
    (husername : readField recovery.emailRequest 0 = some row.username)
    (hpassword : readField recovery.lastRequest 1 = some password)
    (hrun : recovery.run classes server pages = some after) :
    RecoversOnly server.accounts.users after.accounts.users row password ↔
      recovery.verifying.sql .addNewUser = false ∧
        (recovery.changing.sql .changePassword = true ∨ row.password = password) := by
  obtain ⟨added, username, written, hfirst, hsecond, husers⟩ := users_of_run hrun
  obtain rfl : row.username = username := readField_username husername hfirst
  obtain rfl : password = written := Option.some.inj (hpassword.symm.trans hsecond)
  rw [husers]
  exact recoversOnly_changePassword hunique hrow

/-- A user recovers a password with the code mailed to them. -/
def sampleRecovery (insertion : Bool) : Recovery where
  username := str "ann"
  email := str "a@x.c"
  codeText := str "100000"
  password := str "Abcdefg1"
  clientAddr := default
  mailing := calmEnvironment
  verifying := { calmEnvironment with sql := fun _ ↦ insertion }
  changing := calmEnvironment

/-- The table of the sample recovery. -/
def sampleUsers : List Row :=
  [⟨ascii "ann", ascii "old", ascii "a@x.c"⟩, ⟨ascii "bob", ascii "word", ascii "b@x.c"⟩]

/-- A recovery in which the database refuses the inserted row. -/
theorem recoversOnly_iff_refused :
    ∃ after, (sampleRecovery false).run asciiClasses (start sampleUsers) {} = some after ∧
      RecoversOnly sampleUsers after.accounts.users ⟨ascii "ann", ascii "old", ascii "a@x.c"⟩
        (ascii "Abcdefg1") := by
  have hcompletes : ((sampleRecovery false).run asciiClasses (start sampleUsers) {}).isSome := by
    decide +kernel
  obtain ⟨after, hafter⟩ := Option.isSome_iff_exists.mp hcompletes
  exact ⟨after, hafter, (recoversOnly_iff (by decide +kernel) (by decide +kernel)
    (by decide +kernel) (by decide +kernel) hafter).mpr ⟨by decide, by decide⟩⟩

/-- A recovery without an earlier signup inserts a user with an empty name and an empty password. -/
theorem not_recoversOnly :
    ∃ after, (sampleRecovery true).run asciiClasses (start sampleUsers) {} = some after ∧
      ¬ RecoversOnly sampleUsers after.accounts.users ⟨ascii "ann", ascii "old", ascii "a@x.c"⟩
        (ascii "Abcdefg1") := by
  have hcompletes : ((sampleRecovery true).run asciiClasses (start sampleUsers) {}).any
      (fun after ↦ after.accounts.users.length = 3) := by
    decide +kernel
  obtain ⟨after, hafter, hlength⟩ := Option.any_eq_true .. |>.mp hcompletes
  refine ⟨after, hafter, fun honly ↦ ?_⟩
  have hkept := honly.names.length_eq
  rw [List.length_map, List.length_map, of_decide_eq_true hlength] at hkept
  cases hkept

end NovaIde.Protocol
