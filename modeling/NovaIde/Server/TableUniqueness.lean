import NovaIde.Server.CodeAuthentication

/-!
# Uniqueness of usernames and mails

The schema of `Users` does not make usernames or mails unique, so the requests must. A password
change keeps both columns and rows are never deleted, so the table stays unique exactly as long as
every insertion brings a fresh username and a fresh mail, which are the two checks `handleSignup`
makes before it mails a code. `verifyPasscode` makes neither of them, and a code stays valid after
use: sending the same accepted `C` request twice is enough (`not_uniqueUsers`).
`uniqueUsers_iff_insertsFresh` says exactly which runs keep the table unique.
-/

set_option autoImplicit false
set_option relaxedAutoImplicit false

namespace NovaIde.Server

open Foundation Foundation.EventRun

/-- No two rows share a username and no two rows share a mail. -/
def UniqueUsers (users : List Row) : Prop :=
  (users.map Row.username).Nodup ∧ (users.map Row.mail).Nodup

instance (users : List Row) : Decidable (UniqueUsers users) :=
  inferInstanceAs (Decidable (_ ∧ _))

/-- A username and a mail that no row has. -/
def FreshUser (users : List Row) (username mail : Bytes) : Prop :=
  ∀ row ∈ users, row.username ≠ username ∧ row.mail ≠ mail

/-- Appending a row keeps uniqueness exactly when its username and mail are fresh. -/
theorem uniqueUsers_append_singleton {users : List Row} {row : Row} :
    UniqueUsers (users ++ [row]) ↔ UniqueUsers users ∧ FreshUser users row.username row.mail := by
  have hcolumn : ∀ column : Row → Bytes, ((users ++ [row]).map column).Nodup ↔
      (users.map column).Nodup ∧ ∀ other ∈ users, column other ≠ column row := by
    intro column
    rw [List.map_append, List.nodup_append']
    simp
  unfold UniqueUsers FreshUser
  rw [hcolumn, hcolumn]
  constructor
  · rintro ⟨⟨husername, hname⟩, hmail, haddress⟩
    exact ⟨⟨husername, hmail⟩, fun other hother ↦ ⟨hname other hother, haddress other hother⟩⟩
  · rintro ⟨⟨husername, hmail⟩, hfresh⟩
    exact ⟨⟨husername, fun other hother ↦ (hfresh other hother).1⟩, hmail,
      fun other hother ↦ (hfresh other hother).2⟩

/-- A password change neither makes nor breaks uniqueness. -/
theorem uniqueUsers_changePassword {sql : SqlOutcome} {users : List Row}
    {username password : Bytes} :
    UniqueUsers (changePassword sql users username password).2 ↔ UniqueUsers users := by
  unfold UniqueUsers
  rw [map_username_changePassword, map_mail_changePassword]

/-- An accepted `C` request whose insertion succeeds brings a username and a mail that no row has:
it would pass the two checks of `handleSignup`. -/
def InsertsFresh (_ : List ServerRecord) (record : ServerRecord) : Prop :=
  ∀ request, codeRequest record.event = some request → request.use = .create →
    request.accepted record.before = true → request.sql .addNewUser = true →
      FreshUser record.before.accounts.users request.username request.email

/-- A step leaves a unique table behind exactly when it starts from one and inserts only fresh
users. -/
theorem uniqueUsers_of_step {earlier : List ServerRecord} {server next : ServerState}
    {event : Event} {observation : Observation}
    (hstep : step server event = some (next, observation)) :
    UniqueUsers next.accounts.users ↔
      UniqueUsers server.accounts.users ∧
        InsertsFresh earlier ⟨server, event, observation, next⟩ := by
  rw [users_of_step hstep]
  unfold InsertsFresh
  cases hrequest : codeRequest event with
  | none => simp
  | some request =>
    by_cases haccepted : request.accepted server = true
    · cases huse : request.use with
      | create =>
        by_cases hsql : request.sql .addNewUser = true
        · simp [haccepted, CodeRequest.apply, huse, addNewUser, hsql,
            uniqueUsers_append_singleton]
        · simp [haccepted, CodeRequest.apply, huse, addNewUser, hsql]
      | reset =>
        simp [haccepted, CodeRequest.apply, huse, uniqueUsers_changePassword]
    · simp [haccepted]

/-- The state a run reaches from an empty table has unique usernames and mails exactly when every
insertion of the run brought a fresh username and a fresh mail. -/
theorem uniqueUsers_iff_insertsFresh {history : List ServerRecord} {server : ServerState}
    (hrun : ServerRun [] history server) :
    UniqueUsers server.accounts.users ↔ EveryStep InsertsFresh history := by
  induction hrun with
  | start => simp [start, UniqueUsers]
  | extend hrun hstep ih => rw [everyStep_append_singleton, uniqueUsers_of_step hstep, ih]

/-- Two users sign up one after the other. -/
theorem uniqueUsers_iff_insertsFresh_signups :
    ∃ history server, ServerRun [] history server ∧ server.accounts.users.length = 2 ∧
      (UniqueUsers server.accounts.users ↔ EveryStep InsertsFresh history) := by
  obtain ⟨history, server, hrun, -, hcheck⟩ := exists_run_of_execute step (start [])
    [request "S:ann:pass:a@x.c", request "C:ann:pass:a@x.c:100000",
      request "S:bob:word:b@x.c", request "C:bob:word:b@x.c:100000"]
    (fun _ server ↦ server.accounts.users.length = 2) (by decide)
  exact ⟨history, server, hrun, of_decide_eq_true hcheck, uniqueUsers_iff_insertsFresh hrun⟩

/-- Sending one accepted `C` request twice inserts the same user twice. -/
theorem not_uniqueUsers :
    ¬ ∀ history server, ServerRun [] history server → UniqueUsers server.accounts.users := by
  intro hall
  obtain ⟨history, server, hrun, -, hcheck⟩ := exists_run_of_execute step (start [])
    [request "S:ann:pass:a@x.c", request "C:ann:pass:a@x.c:100000",
      request "C:ann:pass:a@x.c:100000"]
    (fun _ server ↦ ¬ UniqueUsers server.accounts.users) (by decide)
  exact of_decide_eq_true hcheck (hall history server hrun)

end NovaIde.Server
