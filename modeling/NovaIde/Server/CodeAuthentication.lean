import NovaIde.Server.RequestEffects

/-!
# Which mailing lets a request through

The code map holds exactly the history of the mailings: what `isCodeCorrect` compares with is the
code of the latest successful mailing to the email, and the empty string when there was none
(`read_resetCodes_of_run`). A mailed code is never empty, so a code check passes in two ways: the
code is the latest one mailed to the email of the request, or the code field is empty and nothing
was ever mailed there (`accepted_iff`).

The second way is the defect: an empty code field passes for every email the map does not know.
`writes_authenticated_iff` says exactly which runs stay clear of it. The check also never relates
the username whose password a reset changes to the email whose code it brings;
`resets_own_account_iff` says exactly which runs reset only the account the code was mailed to.
-/

set_option autoImplicit false
set_option relaxedAutoImplicit false

namespace NovaIde.Server

open Foundation Foundation.EventRun

/-! ### The mailing history -/

/-- The code of the latest successful mailing to an email. -/
def latestCode (history : List ServerRecord) (email : Bytes) : Option Bytes :=
  history.foldl
    (fun code record ↦
      match record.observation.mailed with
      | some mailing => if mailing.email = email then some mailing.code else code
      | none => code)
    none

@[simp] theorem latestCode_nil (email : Bytes) : latestCode [] email = none := rfl

theorem latestCode_append_singleton (history : List ServerRecord) (record : ServerRecord)
    (email : Bytes) :
    latestCode (history ++ [record]) email =
      match record.observation.mailed with
      | some mailing =>
        if mailing.email = email then some mailing.code else latestCode history email
      | none => latestCode history email := by
  simp [latestCode]

section Mailings

variable {users : List Row} {history : List ServerRecord} {server : ServerState}

/-- What a code check compares with is the latest mailed code, or the empty string. -/
theorem read_resetCodes_of_run (hrun : ServerRun users history server) (email : Bytes) :
    server.accounts.resetCodes.read email = (latestCode history email).getD [] := by
  induction hrun with
  | start => rfl
  | @extend history server next event observation hrun hstep ih =>
    rw [read_resetCodes_of_step hstep, latestCode_append_singleton, ih]
    cases observation.mailed with
    | none => rfl
    | some mailing =>
      by_cases hemail : mailing.email = email
      · simp [hemail]
      · simp [hemail]

/-- The latest mailed code is never empty. -/
theorem latestCode_ne_some_nil (hrun : ServerRun users history server) (email : Bytes) :
    latestCode history email ≠ some [] := by
  induction hrun with
  | start => simp
  | @extend history server next event observation hrun hstep ih =>
    rw [latestCode_append_singleton]
    cases hmailed : observation.mailed with
    | none => exact ih
    | some mailing =>
      by_cases hemail : mailing.email = email
      · simpa [hemail] using code_ne_nil_of_step hstep hmailed
      · simpa [hemail] using ih

/-- A code check passes for the latest code mailed to the email, and for an empty code field when
no code was mailed there. -/
theorem accepted_iff (hrun : ServerRun users history server) (request : CodeRequest) :
    request.accepted server = true ↔
      latestCode history request.email = some request.code ∨
        latestCode history request.email = none ∧ request.code = [] := by
  rw [CodeRequest.accepted, isCodeCorrect, decide_eq_true_eq, read_resetCodes_of_run hrun]
  cases latestCode history request.email with
  | none => simp [eq_comm]
  | some code => simp

end Mailings

/-! ### Every write is authenticated, unless the code field is empty -/

/-- A request that writes to the table when it is accepted: its statement succeeds and, for a
reset, some row of the username holds another password. -/
def CodeRequest.TouchesTable (request : CodeRequest) (users : List Row) : Prop :=
  match request.use with
  | .create => request.sql .addNewUser = true
  | .reset =>
    request.sql .changePassword = true ∧
      ∃ row ∈ users, row.username = request.username ∧ row.password ≠ request.password

theorem CodeRequest.apply_ne_iff {request : CodeRequest} {users : List Row} :
    request.apply users ≠ users ↔ request.TouchesTable users := by
  unfold CodeRequest.apply CodeRequest.TouchesTable
  cases request.use with
  | create => exact addNewUser_ne_iff
  | reset => exact changePassword_ne_iff

/-- The table changes at a step exactly when the step is an accepted request that touches it. -/
theorem users_ne_iff_of_step {server next : ServerState} {event : Event}
    {observation : Observation} (hstep : step server event = some (next, observation)) :
    next.accounts.users ≠ server.accounts.users ↔
      ∃ request, codeRequest event = some request ∧ request.accepted server = true ∧
        request.TouchesTable server.accounts.users := by
  rw [users_of_step hstep]
  cases hrequest : codeRequest event with
  | none => simp
  | some request =>
    by_cases haccepted : request.accepted server = true
    · simp [haccepted, ← CodeRequest.apply_ne_iff]
    · simp [haccepted]

/-- Every change of the table is made by a request whose code is the latest one mailed to exactly
the email it names. -/
def WriteAuthenticated (earlier : List ServerRecord) (record : ServerRecord) : Prop :=
  record.after.accounts.users ≠ record.before.accounts.users →
    ∃ request, codeRequest record.event = some request ∧
      latestCode earlier request.email = some request.code

/-- A request with an empty code field that would touch the table names an email to which a code
was mailed before. -/
def EmptyCodeHarmless (earlier : List ServerRecord) (record : ServerRecord) : Prop :=
  ∀ request, codeRequest record.event = some request → request.code = [] →
    request.TouchesTable record.before.accounts.users → latestCode earlier request.email ≠ none

/-- A run writes only authenticated changes exactly when none of its requests comes with an empty
code field for an email to which nothing was mailed, and touches the table. -/
theorem writes_authenticated_iff {users : List Row} {history : List ServerRecord}
    {server : ServerState} (hrun : ServerRun users history server) :
    EveryStep WriteAuthenticated history ↔ EveryStep EmptyCodeHarmless history := by
  refine hrun.everyStep_congr fun earlier record hearlier hstep ↦ ?_
  unfold WriteAuthenticated EmptyCodeHarmless
  rw [users_ne_iff_of_step hstep]
  constructor
  · intro hauthenticated request hrequest hcode htouches hnone
    obtain ⟨other, hother, hmailed⟩ := hauthenticated
      ⟨request, hrequest, (accepted_iff hearlier request).mpr (.inr ⟨hnone, hcode⟩), htouches⟩
    rw [hrequest, Option.some.injEq] at hother
    subst hother
    rw [hnone] at hmailed
    cases hmailed
  · rintro hharmless ⟨request, hrequest, haccepted, htouches⟩
    refine ⟨request, hrequest, ?_⟩
    rcases (accepted_iff hearlier request).mp haccepted with hmailed | ⟨hnone, hcode⟩
    · exact hmailed
    · exact absurd hnone (hharmless request hrequest hcode htouches)

/-! ### Sample requests -/

/-- An environment in which every statement and the mail command succeed, and the mailed code is
`100000`. -/
def calmEnvironment : Environment where
  rand := 0
  systemStatus := 0
  sql := fun _ ↦ true
  sessionToken := ascii "token"

/-- A request received in the calm environment. -/
def request (text : String) : Event := .receive (ascii text) default calmEnvironment

/-- Signing up with the mailed code is an authenticated write. -/
theorem writes_authenticated_iff_signup :
    ∃ history server, ServerRun [] history server ∧ server.accounts.users.length = 1 ∧
      (EveryStep WriteAuthenticated history ↔ EveryStep EmptyCodeHarmless history) := by
  obtain ⟨history, server, hrun, -, hcheck⟩ := exists_run_of_execute step (start [])
    [request "S:ann:pass:a@x.c", request "C:ann:pass:a@x.c:100000"]
    (fun _ server ↦ server.accounts.users.length = 1) (by decide)
  exact ⟨history, server, hrun, of_decide_eq_true hcheck, writes_authenticated_iff hrun⟩

/-- The history is one step, which changes the table. -/
def changesTable : List ServerRecord → Bool
  | [record] => record.after.accounts.users ≠ record.before.accounts.users
  | _ => false

/-- The first request of a run, with an empty code field, inserts a row although nothing was
mailed. -/
theorem not_writes_authenticated :
    ¬ ∀ history server, ServerRun [] history server → EveryStep WriteAuthenticated history := by
  intro hall
  obtain ⟨history, server, hrun, -, hcheck⟩ := exists_run_of_execute step (start [])
    [request "C:ann:pass:a@x.c:"]
    (fun history _ ↦ changesTable history) (by decide)
  unfold changesTable at hcheck
  split at hcheck
  · next record =>
    obtain ⟨_, _, hmailed⟩ :=
      hall _ server hrun [] record [] rfl (of_decide_eq_true hcheck)
    simp at hmailed
  · cases hcheck

/-! ### A reset changes only the account the code was mailed to -/

/-- A reset keeps the username and mail of every row, and changes a password only in rows whose
mail is the email of the request, which is the address its code was mailed to. -/
def ResetsOwnAccount (earlier : List ServerRecord) (record : ServerRecord) : Prop :=
  ∀ request, codeRequest record.event = some request → request.use = .reset →
    ∀ (index : ℕ) (row : Row), record.before.accounts.users[index]? = some row →
      ∃ updated, record.after.accounts.users[index]? = some updated ∧
        updated.username = row.username ∧ updated.mail = row.mail ∧
          (updated.password = row.password ∨
            row.mail = request.email ∧ latestCode earlier request.email = some request.code)

/-- An accepted reset whose username is that of a row with another password brings a non-empty
code, and that row's mail is the email of the request. -/
def ResetNamesOwnAccount (_ : List ServerRecord) (record : ServerRecord) : Prop :=
  ∀ request, codeRequest record.event = some request → request.use = .reset →
    request.accepted record.before = true → request.sql .changePassword = true →
      ∀ row ∈ record.before.accounts.users, row.username = request.username →
        row.password ≠ request.password → row.mail = request.email ∧ request.code ≠ []

/-- The table after a reset, when its check passes and when it fails. -/
theorem users_of_reset {server next : ServerState} {event : Event} {observation : Observation}
    {request : CodeRequest} (hstep : step server event = some (next, observation))
    (hrequest : codeRequest event = some request) (huse : request.use = .reset) :
    next.accounts.users =
      if request.accepted server then
        (changePassword request.sql server.accounts.users request.username request.password).2
      else server.accounts.users := by
  simp [users_of_step hstep, hrequest, CodeRequest.apply, huse]

/-- A run resets only accounts the code was mailed to exactly when every accepted reset in it
names, by its username, rows whose mail is its email, and brings a code. -/
theorem resets_own_account_iff {users : List Row} {history : List ServerRecord}
    {server : ServerState} (hrun : ServerRun users history server) :
    EveryStep ResetsOwnAccount history ↔ EveryStep ResetNamesOwnAccount history := by
  refine hrun.everyStep_congr fun earlier record hearlier hstep ↦ ?_
  refine forall₃_congr fun request hrequest huse ↦ ?_
  rw [users_of_reset hstep hrequest huse]
  by_cases haccepted : request.accepted record.before = true
  · rw [if_pos haccepted]
    constructor
    · intro howns _ hsql row hrow husername hpassword
      obtain ⟨index, hindex⟩ := List.mem_iff_getElem?.mp hrow
      obtain ⟨updated, hupdated, -, -, hsame | ⟨hmail, hmailed⟩⟩ := howns index row hindex
      · rw [getElem?_changePassword_of_username hindex hsql husername,
          Option.some.injEq] at hupdated
        subst hupdated
        exact absurd hsame.symm hpassword
      · refine ⟨hmail, fun hcode ↦ ?_⟩
        rw [hcode] at hmailed
        exact latestCode_ne_some_nil hearlier _ hmailed
    · intro hnames index row hindex
      obtain ⟨updated, hupdated⟩ : ∃ updated,
          (changePassword request.sql record.before.accounts.users request.username
            request.password).2[index]? = some updated := by
        have hbound := (List.getElem?_eq_some_iff.mp hindex).1
        exact ⟨_, List.getElem?_eq_getElem (by rwa [length_changePassword])⟩
      obtain ⟨husername, hmail, hpassword⟩ := getElem?_changePassword hindex hupdated
      refine ⟨updated, hupdated, husername, hmail, ?_⟩
      by_cases hsame : updated.password = row.password
      · exact Or.inl hsame
      · obtain ⟨hsql, hrow, hnew⟩ := hpassword.resolve_left hsame
        obtain ⟨howner, hcode⟩ := hnames haccepted hsql row (List.mem_of_getElem? hindex) hrow
          (fun heq ↦ hsame (hnew.trans heq.symm))
        exact Or.inr ⟨howner, ((accepted_iff hearlier request).mp haccepted).resolve_right
          fun hempty ↦ hcode hempty.2⟩
  · rw [if_neg haccepted]
    refine iff_of_true (fun index row hindex ↦ ?_) fun h ↦ absurd h haccepted
    exact ⟨row, hindex, rfl, rfl, Or.inl rfl⟩

/-- The requests with which one user, holding the code of their own signup, resets the password of
another. -/
def crossReset : List Event :=
  [request "S:ann:pass:a@x.c", request "C:ann:pass:a@x.c:100000",
    request "S:bob:word:b@x.c", request "C:bob:word:b@x.c:100000",
    request "N:ann:evil:b@x.c:100000"]

/-- A user resets their own password with a mailed code. -/
theorem resets_own_account_iff_recovery :
    ∃ history server, ServerRun [] history server ∧
      server.accounts.users = [⟨ascii "ann", ascii "new", ascii "a@x.c"⟩] ∧
      (EveryStep ResetsOwnAccount history ↔ EveryStep ResetNamesOwnAccount history) := by
  obtain ⟨history, server, hrun, -, hcheck⟩ := exists_run_of_execute step (start [])
    [request "S:ann:pass:a@x.c", request "C:ann:pass:a@x.c:100000",
      request "V:ann:a@x.c", request "N:ann:new:a@x.c:100000"]
    (fun _ server ↦ server.accounts.users = [⟨ascii "ann", ascii "new", ascii "a@x.c"⟩])
    (by decide)
  exact ⟨history, server, hrun, of_decide_eq_true hcheck, resets_own_account_iff hrun⟩

/-- The step resets the password of the first user with a code for another email. -/
def resetsOther (record : ServerRecord) : Bool :=
  match codeRequest record.event, record.before.accounts.users,
      record.after.accounts.users with
  | some request, row :: _, updated :: _ =>
    request.use = .reset ∧ updated.password ≠ row.password ∧ row.mail ≠ request.email
  | _, _, _ => false

/-- The code mailed to one user resets the password of another. -/
theorem not_resets_own_account :
    ¬ ∀ history server, ServerRun [] history server → EveryStep ResetsOwnAccount history := by
  intro hall
  obtain ⟨history, server, hrun, -, hcheck⟩ := exists_run_of_execute step (start []) crossReset
    (fun history _ ↦ history.getLast?.any resetsOther) (by decide)
  obtain ⟨record, hrecord, hresets⟩ := (Option.any_eq_true _ _).mp hcheck
  have howns := (hall history server hrun).last hrecord
  unfold resetsOther at hresets
  split at hresets
  · next request row _ updated _ hrequest hbefore hafter =>
    obtain ⟨huse, hpassword, hmail⟩ := of_decide_eq_true hresets
    obtain ⟨other, hother, -, -, hsame | ⟨howner, -⟩⟩ :=
      howns request hrequest huse 0 row (by simp [hbefore])
    · rw [hafter] at hother
      cases hother
      exact hpassword hsame
    · exact hmail howner
  · cases hresets

end NovaIde.Server
