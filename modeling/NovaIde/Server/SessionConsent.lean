import NovaIde.Server.CodeAuthentication
import NovaIde.Server.SessionHistory

/-!
# Who may learn whose address

Connection details go out when two recorded invites name each other. Both maps behind that test are
read through `operator[]`: an unknown token resolves to the empty name, and a name without an
invite reads as one that invited the empty name. Together they let a `J` request with a forged
token match a user who never asked for anyone (`not_details_consented`).

While every `J` request brings a token that was issued, and the requests of a user with an empty
name only target users whose invite is recorded, neither default is ever taken for an entry:
`ConsentInvariant` says what the tokens, the threads and the invite map then hold, and
`details_consented` is the property of whole runs.
-/

set_option autoImplicit false
set_option relaxedAutoImplicit false

namespace NovaIde.Server

open Foundation Foundation.EventRun

/-! ### Consent -/

/-- A login issued the token to the name. -/
def Issued (history : List ServerRecord) (name token : Bytes) : Prop :=
  ∃ record ∈ history, issuedToken record = some (name, token)

instance (history : List ServerRecord) (name token : Bytes) :
    Decidable (Issued history name token) :=
  inferInstanceAs (Decidable (∃ record ∈ history, _))

/-- The name logged in. -/
def LoggedIn (history : List ServerRecord) (name : Bytes) : Prop :=
  ∃ token, Issued history name token

/-- The name sent a `J` request for the target, with a token issued to it before. -/
def AskedFor (history : List ServerRecord) (name target : Bytes) : Prop :=
  ∃ earlier record later token, history = earlier ++ record :: later ∧
    sessionRequest record.event = some (token, target) ∧ Issued earlier name token

/-- Every recipient of connection details and the user they describe logged in before and asked for
each other. -/
def Consented (earlier : List ServerRecord) (record : ServerRecord) : Prop :=
  ∀ details ∈ record.observation.details,
    LoggedIn earlier details.recipient ∧ LoggedIn earlier details.peer ∧
      AskedFor earlier details.recipient details.peer ∧
      AskedFor earlier details.peer details.recipient

/-- A `J` request brings a token that was issued, and if the token belongs to the empty name, the
invite of its target is already recorded. -/
def TokenKnown (earlier : List ServerRecord) (record : ServerRecord) : Prop :=
  ∀ token target, sessionRequest record.event = some (token, target) →
    (∃ name, Issued earlier name token) ∧
      (record.before.accounts.usersList.read token = [] → latestInvite earlier target ≠ none)

/-- Whether a step only brings known tokens can be evaluated: the names to try are those of the
logins before it. -/
instance (earlier : List ServerRecord) (record : ServerRecord) :
    Decidable (TokenKnown earlier record) :=
  decidable_of_iff
    (∀ request ∈ sessionRequest record.event,
      (∃ login ∈ earlier, (issuedToken login).map Prod.snd = some request.1) ∧
        (record.before.accounts.usersList.read request.1 = [] →
          latestInvite earlier request.2 ≠ none)) <| by
    have hissued : ∀ token, (∃ login ∈ earlier, (issuedToken login).map Prod.snd = some token) ↔
        ∃ name, Issued earlier name token := by
      intro token
      simp only [Issued, Option.map_eq_some_iff, Prod.exists]
      constructor
      · rintro ⟨login, hlogin, name, _, htoken, rfl⟩
        exact ⟨name, login, hlogin, htoken⟩
      · rintro ⟨name, login, hlogin, htoken⟩
        exact ⟨login, hlogin, name, token, htoken, rfl⟩
    simp only [hissued, Option.mem_def, Prod.forall, TokenKnown]

section Growth

variable {history : List ServerRecord} {record : ServerRecord} {name token target : Bytes}

theorem Issued.append_singleton (hissued : Issued history name token) :
    Issued (history ++ [record]) name token := by
  obtain ⟨login, hlogin, htoken⟩ := hissued
  exact ⟨login, List.mem_append_left _ hlogin, htoken⟩

theorem issued_append_singleton_iff :
    Issued (history ++ [record]) name token ↔
      Issued history name token ∨ issuedToken record = some (name, token) := by
  simp [Issued, or_and_right, exists_or]

theorem AskedFor.append_singleton (hasked : AskedFor history name target) :
    AskedFor (history ++ [record]) name target := by
  obtain ⟨earlier, request, later, token, hsplit, hrequest, hissued⟩ := hasked
  exact ⟨earlier, request, later ++ [record], token, by simp [hsplit], hrequest, hissued⟩

/-- A user who asked for someone had logged in. -/
theorem AskedFor.loggedIn (hasked : AskedFor history name target) : LoggedIn history name := by
  obtain ⟨earlier, request, later, token, hsplit, -, login, hlogin, htoken⟩ := hasked
  exact ⟨token, login, by simp [hsplit, hlogin], htoken⟩

/-- A recorded invite stays recorded, possibly with another target. -/
theorem latestInvite_append_singleton_ne_none (hinvite : latestInvite history name ≠ none) :
    latestInvite (history ++ [record]) name ≠ none := by
  rw [latestInvite_append_singleton]
  cases recordedInvite record with
  | none => exact hinvite
  | some invite =>
    by_cases hname : name = invite.1
    · simp [hname]
    · simpa [hname] using hinvite

end Growth

/-! ### The invariant -/

/-- What a run whose `J` requests all bring known tokens keeps: tokens resolve to the names they
were issued to, and every thread, every recorded invite and every thread about to send stands for
requests that were made. -/
structure ConsentInvariant (history : List ServerRecord) (server : ServerState) : Prop where
  token_issued : ∀ token name, server.accounts.usersList token = some name →
    Issued history name token
  token_known : ∀ token name, Issued history name token →
    server.accounts.usersList token ≠ none
  thread_asked : ∀ handler ∈ server.handlers, AskedFor history handler.current handler.wanted
  thread_answerable : ∀ handler ∈ server.handlers, handler.current = [] →
    latestInvite history handler.wanted ≠ none
  invite_asked : ∀ name target, latestInvite history name = some target →
    AskedFor history name target
  sender_agreed : ∀ handler ∈ server.handlers, handler.stage = .sendDetails →
    AskedFor history handler.wanted handler.current

theorem consentInvariant_start (users : List Row) : ConsentInvariant [] (start users) := by
  constructor <;> simp [start, Issued, latestInvite]

section Step

variable {users : List Row} {history : List ServerRecord} {record : ServerRecord}

/-- A thread that finds the invite of its second client matching has been asked for by it: the read
is an entry, because the thread's own name is not empty or the invite was recorded before. -/
theorem askedFor_of_read (hrun : ServerRun users history record.before)
    (hinvariant : ConsentInvariant history record.before) {handler : SessionHandler}
    (hhandler : handler ∈ record.before.handlers)
    (hread : record.before.exchange.sessionInvites.read handler.wanted = handler.current) :
    AskedFor history handler.wanted handler.current := by
  apply hinvariant.invite_asked
  rw [read_sessionInvites_of_run hrun] at hread
  cases hinvite : latestInvite history handler.wanted with
  | none =>
    rw [hinvite, Option.getD_none] at hread
    exact absurd hinvite (hinvariant.thread_answerable handler hhandler hread.symm)
  | some target =>
    rw [hinvite, Option.getD_some] at hread
    rw [hread]

/-- The invite a step records was asked for. -/
theorem askedFor_of_recordedInvite (hinvariant : ConsentInvariant history record.before)
    {invite : Bytes × Bytes} (hrecorded : recordedInvite record = some invite) :
    AskedFor history invite.1 invite.2 := by
  simp only [recordedInvite, Option.map_eq_some_iff, Option.filter_eq_some_iff] at hrecorded
  obtain ⟨handler, ⟨hmoved, -⟩, rfl⟩ := hrecorded
  unfold movedThread at hmoved
  split at hmoved
  · cases hmoved
  · exact hinvariant.thread_asked handler (List.mem_of_getElem? hmoved)

/-- With known tokens only a login changes what the tokens resolve to. -/
theorem usersList_of_known (hinvariant : ConsentInvariant history record.before)
    (hknown : TokenKnown history record) (hstep : SessionStep record) :
    record.after.accounts.usersList =
      match issuedToken record with
      | some issued => record.before.accounts.usersList.assign issued.2 issued.1
      | none => record.before.accounts.usersList := by
  cases hstep with
  | other hissued _ _ _ htokens _ _ => simp [hissued, htokens]
  | login name token clientAddr hissued _ _ _ htokens _ _ => simp [hissued, htokens]
  | request token target hissued hrequest _ _ htokens _ _ =>
    obtain ⟨⟨name, hname⟩, -⟩ := hknown token target hrequest
    rw [hissued, htokens]
    exact SubscriptMap.touch_eq_self (hinvariant.token_known token name hname)
  | thread _ _ _ hissued _ _ htokens _ _ _ => simp [hissued, htokens]

/-- The `J` request of a step asks for its target in the name of the token's owner. -/
theorem askedFor_of_request (hinvariant : ConsentInvariant history record.before)
    (hknown : TokenKnown history record) {token target : Bytes}
    (hrequest : sessionRequest record.event = some (token, target)) :
    AskedFor (history ++ [record]) (record.before.accounts.usersList.read token) target := by
  obtain ⟨⟨name, hname⟩, -⟩ := hknown token target hrequest
  obtain ⟨owner, howner⟩ :=
    Option.ne_none_iff_exists'.mp (hinvariant.token_known token name hname)
  refine ⟨history, record, [], token, rfl, hrequest, ?_⟩
  rw [SubscriptMap.read_of_some howner]
  exact hinvariant.token_issued token owner howner

/-- The invites recorded after a step were asked for. -/
theorem invite_asked_of_step (hinvariant : ConsentInvariant history record.before)
    {name target : Bytes} (hlatest : latestInvite (history ++ [record]) name = some target) :
    AskedFor (history ++ [record]) name target := by
  rw [latestInvite_append_singleton] at hlatest
  cases hrecorded : recordedInvite record with
  | none =>
    rw [hrecorded] at hlatest
    exact (hinvariant.invite_asked name target hlatest).append_singleton
  | some invite =>
    simp only [hrecorded] at hlatest
    by_cases hname : name = invite.1
    · subst hname
      rw [Function.update_self, Option.some.injEq] at hlatest
      subst hlatest
      exact (askedFor_of_recordedInvite hinvariant hrecorded).append_singleton
    · rw [Function.update_of_ne hname] at hlatest
      exact (hinvariant.invite_asked name target hlatest).append_singleton

/-- Every step whose `J` request, if any, brings a known token keeps the invariant. -/
theorem ConsentInvariant.step (hrun : ServerRun users history record.before)
    (hinvariant : ConsentInvariant history record.before) (hknown : TokenKnown history record)
    (hstep : SessionStep record) : ConsentInvariant (history ++ [record]) record.after where
  token_issued token name hentry := by
    rw [issued_append_singleton_iff]
    rw [usersList_of_known hinvariant hknown hstep] at hentry
    cases hissued : issuedToken record with
    | none =>
      rw [hissued] at hentry
      exact Or.inl (hinvariant.token_issued token name hentry)
    | some issued =>
      simp only [hissued] at hentry
      by_cases htoken : token = issued.2
      · subst htoken
        rw [SubscriptMap.assign_self, Option.some.injEq] at hentry
        exact Or.inr (by rw [← hentry])
      · rw [SubscriptMap.assign_of_ne _ _ htoken] at hentry
        exact Or.inl (hinvariant.token_issued token name hentry)
  token_known token name htoken := by
    rw [issued_append_singleton_iff] at htoken
    rw [usersList_of_known hinvariant hknown hstep]
    cases hissued : issuedToken record with
    | none =>
      rw [hissued] at htoken
      exact hinvariant.token_known token name (htoken.resolve_right (by simp))
    | some issued =>
      by_cases hsame : token = issued.2
      · simp [hsame]
      · rw [hissued, Option.some.injEq, Prod.ext_iff] at htoken
        simp only [SubscriptMap.assign_of_ne _ _ hsame]
        exact hinvariant.token_known token name (htoken.resolve_right fun h ↦ hsame h.2.symm)
  thread_asked handler hhandler := by
    rcases thread_of_step hstep hhandler with hold | ⟨token, target, hrequest, rfl⟩ |
      ⟨old, hold, -, hcurrent, hwanted, -⟩
    · exact (hinvariant.thread_asked handler hold).append_singleton
    · exact askedFor_of_request hinvariant hknown hrequest
    · rw [hcurrent, hwanted]
      exact (hinvariant.thread_asked old hold).append_singleton
  thread_answerable handler hhandler hempty := by
    apply latestInvite_append_singleton_ne_none
    rcases thread_of_step hstep hhandler with hold | ⟨token, target, hrequest, rfl⟩ |
      ⟨old, hold, -, hcurrent, hwanted, -⟩
    · exact hinvariant.thread_answerable handler hold hempty
    · exact (hknown token target hrequest).2 hempty
    · rw [hwanted]
      exact hinvariant.thread_answerable old hold (hcurrent ▸ hempty)
  invite_asked _ _ hlatest := invite_asked_of_step hinvariant hlatest
  sender_agreed handler hhandler hstage := by
    rcases thread_of_step hstep hhandler with hold | ⟨token, target, -, rfl⟩ |
      ⟨old, hold, -, hcurrent, hwanted, hread⟩
    · exact (hinvariant.sender_agreed handler hold hstage).append_singleton
    · cases hstage
    · have hmatch := hread hstage
      rw [hwanted, hcurrent] at hmatch ⊢
      exact (askedFor_of_read hrun hinvariant hold hmatch).append_singleton

/-- A thread that sends details has been asked for and has asked itself. -/
theorem consented_of_step (hinvariant : ConsentInvariant history record.before)
    (hstep : SessionStep record) : Consented history record := by
  intro details hdetails
  cases hstep with
  | other _ _ _ hnone _ _ _ => simp [hnone] at hdetails
  | login _ _ _ _ _ _ hnone _ _ _ => simp [hnone] at hdetails
  | request _ _ _ _ _ hnone _ _ _ => simp [hnone] at hdetails
  | thread index handler handler' _ _ _ _ hhandler _ hsession =>
    have hmem := List.mem_of_getElem? hhandler
    have hasked := hinvariant.thread_asked handler hmem
    obtain ⟨-, -, hcases⟩ := sessionStep_cases hsession
    rcases hcases with ⟨-, -, hnone, -⟩ | ⟨-, hnone, -⟩ | ⟨-, -, hnone, -⟩ | ⟨-, hnone, -⟩ |
      ⟨-, hnone, -⟩ | ⟨hstage, -, hsent, -⟩
    case inr.inr.inr.inr.inr =>
      have hagreed := hinvariant.sender_agreed handler hmem hstage
      rw [hsent, detailsSent] at hdetails
      rcases List.mem_cons.mp hdetails with rfl | hdetails
      · exact ⟨hasked.loggedIn, hagreed.loggedIn, hasked, hagreed⟩
      · rw [List.mem_singleton.mp hdetails]
        exact ⟨hagreed.loggedIn, hasked.loggedIn, hagreed, hasked⟩
    all_goals simp [hnone] at hdetails

end Step

/-! ### Runs -/

/-- In every run whose `J` requests bring known tokens, connection details only go out between two
users who logged in and asked for each other. -/
theorem details_consented {users : List Row} {history : List ServerRecord} {server : ServerState}
    (hrun : ServerRun users history server) (hknown : EveryStep TokenKnown history) :
    EveryStep Consented history := by
  refine hrun.everyStep_of_everyStep (fun earlier record hearlier hbefore _ hstep ↦ ?_) hknown
  refine consented_of_step ?_ (sessionStep_of_step hstep)
  exact hearlier.relation_of_everyStep ConsentInvariant (consentInvariant_start users)
    (fun _ _ _ _ _ hrun hinvariant hknown hstep ↦
      hinvariant.step hrun hknown (sessionStep_of_step hstep)) hbefore

/-- A row whose password and mail are the username. -/
def plainRow (name : String) : Row := ⟨ascii name, ascii name, ascii name⟩

/-- A login of a plain row, whose token is the username with a mark. -/
def login (name : String) : Event :=
  .receive (ascii ("L:" ++ name ++ ":" ++ name)) default
    { calmEnvironment with sessionToken := ascii (name ++ "1") }

/-- Two users log in, invite each other and are matched. -/
theorem details_consented_match :
    ∃ history server, ServerRun [plainRow "ann", plainRow "bob"] history server ∧
      history.any (fun record ↦ record.observation.details.length = 2) ∧
        EveryStep Consented history := by
  obtain ⟨history, server, hrun, -, hcheck⟩ := exists_run_of_execute step
    (start [plainRow "ann", plainRow "bob"])
    ([login "ann", login "bob", request "J:ann1:bob", request "J:bob1:ann"] ++
      [0, 0, 0, 1, 1, 0, 0, 0].map Event.thread)
    (fun history _ ↦ history.any (fun record ↦ record.observation.details.length = 2) ∧
      EveryStep TokenKnown history) (by decide)
  obtain ⟨hsent, hknown⟩ := of_decide_eq_true hcheck
  exact ⟨history, server, hrun, hsent, details_consented hrun hknown⟩

/-- A forged token and the name of a user who invited nobody are enough: details go out to a name
that never logged in. -/
theorem not_details_consented :
    ¬ ∀ users history server, ServerRun users history server → EveryStep Consented history := by
  intro hall
  obtain ⟨history, server, hrun, -, hcheck⟩ := exists_run_of_execute step
    (start [plainRow "victim"])
    ([login "victim", request "J:forged:victim"] ++ [0, 0, 0, 0, 0, 0].map Event.thread)
    (fun history _ ↦ match history.getLast? with
      | some record => record.observation.details.any fun details ↦
          history.dropLast.all fun earlier ↦
            (issuedToken earlier).map Prod.fst ≠ some details.recipient
      | none => false) (by decide)
  split at hcheck
  · next record hrecord =>
    obtain ⟨details, hdetails, hnever⟩ := List.any_eq_true.mp hcheck
    obtain ⟨⟨token, login, hlogin, hissued⟩, -⟩ :=
      (hall _ history server hrun).last hrecord details hdetails
    have hname := of_decide_eq_true (List.all_eq_true.mp hnever login hlogin)
    simp [hissued] at hname
  · cases hcheck

end NovaIde.Server
