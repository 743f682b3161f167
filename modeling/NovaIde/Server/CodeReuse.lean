import NovaIde.Server.CodeAuthentication

/-!
# What one mailing authorises

Nothing removes a code from the code map: a check reads it, and only the next mailing to the same
email replaces it. The requests a mailing authorises are therefore the resets and the
account-creating `C` requests for its email that bring its code, from the mailing on until the next
mailing to that email, in any number (`authorises_iff`), and while no such mailing has come an
authorised request can be sent again as often as one likes (`exists_replays`).

Steps of a run are named by their positions in its history.
-/

set_option autoImplicit false
set_option relaxedAutoImplicit false

namespace NovaIde.Server

open Foundation Foundation.EventRun

/-! ### Mailings and authorised requests by position -/

/-- The mailing of the step at a position. -/
def mailingAt (history : List ServerRecord) (position : ℕ) : Option Mailing :=
  history[position]?.bind fun record ↦ record.observation.mailed

/-- The step at `position` sent `mailing`, and no step after it and before `index` sent a mail to
the same email. -/
structure LatestMailing (history : List ServerRecord) (position index : ℕ) (mailing : Mailing) :
    Prop where
  sent : mailingAt history position = some mailing
  before : position < index
  latest : ∀ between, position < between → between < index →
    ∀ other, mailingAt history between = some other → other.email ≠ mailing.email

/-- A request that changes an account when its check passes: a reset, or a creation whose
insertion succeeds. -/
def CodeRequest.ChangesAccount (request : CodeRequest) : Prop :=
  request.use = .create → request.sql .addNewUser = true

/-- The mailing at `position` authorises the step at `index`: the step is an accepted request that
changes an account, and the mailing is the latest one to its email before it. -/
def Authorises (history : List ServerRecord) (position index : ℕ) : Prop :=
  ∃ record request mailing, history[index]? = some record ∧
    codeRequest record.event = some request ∧ request.ChangesAccount ∧
    request.accepted record.before = true ∧
    LatestMailing history position index mailing ∧ request.email = mailing.email

/-- The step at `index` is a request that changes an account and brings the email and the code of
the mailing at `position`, before the next mailing to that email. -/
def BringsCode (history : List ServerRecord) (position index : ℕ) : Prop :=
  ∃ record request mailing, history[index]? = some record ∧
    codeRequest record.event = some request ∧ request.ChangesAccount ∧
    LatestMailing history position index mailing ∧
    request.email = mailing.email ∧ request.code = mailing.code

/-! ### The latest mailing decides the check -/

/-- Steps that mail nothing to an email leave its latest code. -/
theorem latestCode_append_of_forall {history later : List ServerRecord} {email : Bytes}
    (hlater : ∀ record ∈ later, ∀ mailing, record.observation.mailed = some mailing →
      mailing.email ≠ email) :
    latestCode (history ++ later) email = latestCode history email := by
  induction later using List.reverseRecOn with
  | nil => simp
  | append_singleton later record ih =>
    rw [← List.append_assoc, latestCode_append_singleton]
    have hrest := ih fun other hother ↦ hlater other (by simp [hother])
    cases hmailed : record.observation.mailed with
    | none => exact hrest
    | some mailing =>
      have hemail : mailing.email ≠ email := hlater record (by simp) mailing hmailed
      simpa [hemail] using hrest

/-- The latest mailing before a step is the one whose code the check of the step compares with. -/
theorem LatestMailing.latestCode_eq {history : List ServerRecord} {position index : ℕ}
    {mailing : Mailing} (hlatest : LatestMailing history position index mailing) :
    latestCode (history.take index) mailing.email = some mailing.code := by
  obtain ⟨record, hrecord, hmailed⟩ := Option.bind_eq_some_iff.mp hlatest.sent
  obtain ⟨hposition, hget⟩ := List.getElem?_eq_some_iff.mp hrecord
  -- The prefix is the part before the mailing, the mailing, and steps that mail nothing there.
  have hsplit : history.take index = history.take position ++ [record] ++
      (history.take index).drop (position + 1) := by
    have htake : (history.take index).take (position + 1) = history.take position ++ [record] := by
      rw [List.take_take, min_eq_left (Nat.succ_le_of_lt hlatest.before),
        List.take_succ_eq_append_getElem hposition, hget]
    rw [← htake, List.take_append_drop]
  rw [hsplit, latestCode_append_of_forall, latestCode_append_singleton, hmailed]
  · simp
  · intro later hmem other hother
    obtain ⟨offset, hoffset⟩ := List.mem_iff_getElem?.mp hmem
    rw [List.getElem?_drop] at hoffset
    have hbound : position + 1 + offset < index := by
      have hlength := (List.getElem?_eq_some_iff.mp hoffset).1
      rw [List.length_take] at hlength
      omega
    rw [List.getElem?_take_of_lt hbound] at hoffset
    exact hlatest.latest (position + 1 + offset) (by omega) hbound other
      (by simp [mailingAt, hoffset, hother])

section Runs

variable {users : List Row} {history : List ServerRecord} {server : ServerState}

/-- The state before a step of a run is reached by the steps before it. -/
theorem run_before (hrun : ServerRun users history server) {index : ℕ} {record : ServerRecord}
    (hrecord : history[index]? = some record) :
    ServerRun users (history.take index) record.before ∧
      step record.before record.event = some (record.after, record.observation) := by
  obtain ⟨hindex, hget⟩ := List.getElem?_eq_some_iff.mp hrecord
  have hsplit : history = history.take index ++ record :: history.drop (index + 1) := by
    rw [← hget, List.cons_getElem_drop_succ, List.take_append_drop]
  rw [hsplit] at hrun
  exact hrun.split

/-- A mailing authorises exactly the requests that change an account, bring its code for its email,
and come before the next mailing to that email. -/
theorem authorises_iff (hrun : ServerRun users history server) (position index : ℕ) :
    Authorises history position index ↔ BringsCode history position index := by
  unfold Authorises BringsCode
  refine exists_congr fun record ↦ exists_congr fun request ↦ exists_congr fun mailing ↦ ?_
  refine and_congr_right fun hrecord ↦ and_congr_right fun _ ↦ and_congr_right fun _ ↦ ?_
  constructor
  · rintro ⟨haccepted, hlatest, hemail⟩
    refine ⟨hlatest, hemail, ?_⟩
    have hmailed := hlatest.latestCode_eq
    rw [← hemail] at hmailed
    rcases (accepted_iff (run_before hrun hrecord).1 request).mp haccepted with hcode | ⟨hnone, -⟩
    · exact Option.some.inj (hcode.symm.trans hmailed)
    · rw [hnone] at hmailed
      cases hmailed
  · rintro ⟨hlatest, hemail, hcode⟩
    refine ⟨(accepted_iff (run_before hrun hrecord).1 request).mpr (Or.inl ?_), hlatest, hemail⟩
    rw [hemail, hcode]
    exact hlatest.latestCode_eq

end Runs

/-! ### Requests sent again -/

section Replays

variable {history later : List ServerRecord} {record : ServerRecord} {position index : ℕ}
  {mailing : Mailing}

theorem mailingAt_append_of_lt (hposition : position < history.length) :
    mailingAt (history ++ later) position = mailingAt history position := by
  rw [mailingAt, List.getElem?_append_left hposition, mailingAt]

/-- Whether a mailing is the latest one before a step does not depend on what follows the step. -/
theorem LatestMailing.append (hlatest : LatestMailing history position index mailing)
    (hindex : index ≤ history.length) :
    LatestMailing (history ++ later) position index mailing := by
  refine ⟨?_, hlatest.before, fun between hafter hbefore other hother ↦ ?_⟩
  · rw [mailingAt_append_of_lt (hlatest.before.trans_le hindex)]
    exact hlatest.sent
  · rw [mailingAt_append_of_lt (hbefore.trans_le hindex)] at hother
    exact hlatest.latest between hafter hbefore other hother

/-- A step that mails nothing leaves the latest mailing of a history. -/
theorem LatestMailing.snoc (hlatest : LatestMailing history position history.length mailing)
    (hmailed : record.observation.mailed = none) :
    LatestMailing (history ++ [record]) position (history ++ [record]).length mailing := by
  have happend : LatestMailing (history ++ [record]) position history.length mailing :=
    hlatest.append le_rfl
  refine ⟨happend.sent, ?_, fun between hafter hbefore other hother ↦ ?_⟩
  · rw [List.length_append, List.length_singleton]
    exact hlatest.before.trans (Nat.lt_succ_self _)
  · rw [List.length_append, List.length_singleton, Nat.lt_succ_iff_lt_or_eq] at hbefore
    rcases hbefore with hold | rfl
    · exact happend.latest between hafter hold other hother
    · simp [mailingAt, hmailed] at hother

/-- What a mailing authorises stays authorised in every continuation. -/
theorem Authorises.append (hauthorises : Authorises history position index) :
    Authorises (history ++ later) position index := by
  obtain ⟨record, request, mailing, hrecord, hrequest, hchanges, haccepted, hlatest, hemail⟩ :=
    hauthorises
  have hindex := (List.getElem?_eq_some_iff.mp hrecord).1
  exact ⟨record, request, mailing, by rw [List.getElem?_append_left hindex, hrecord], hrequest,
    hchanges, haccepted, hlatest.append hindex.le, hemail⟩

/-- The server answers a request that brings a code in every state: it has the fields its handler
reads. -/
theorem exists_step_of_codeRequest (server : ServerState) {event : Event} {request : CodeRequest}
    (hrequest : codeRequest event = some request) :
    ∃ next observation, step server event = some (next, observation) := by
  cases event with
  | thread index => cases hrequest
  | receive userInfo clientAddr environment =>
    simp only [codeRequest, Option.bind_eq_bind, Option.bind_eq_some_iff] at hrequest
    obtain ⟨use, ⟨kind, hkind, huse⟩, username, husername, password, hpassword, email, hemail, code,
      hcode, -⟩ := hrequest
    cases kind with
    | codeCheck =>
      obtain ⟨handled, hhandled⟩ :
          ∃ handled, verifyPasscode environment server.accounts userInfo = .ok handled :=
        ⟨_, verifyPasscode_eq_ok.mpr
          ⟨username, password, email, code, husername, hpassword, hemail, hcode, rfl⟩⟩
      exact ⟨_, _, by simp only [step, analyzeUser, hkind, hhandled]; rfl⟩
    | newPass =>
      obtain ⟨handled, hhandled⟩ :
          ∃ handled, handlePassReset environment server.accounts userInfo = .ok handled :=
        ⟨_, handlePassReset_eq_ok.mpr
          ⟨username, password, email, code, husername, hpassword, hemail, hcode, rfl⟩⟩
      exact ⟨_, _, by simp only [step, analyzeUser, hkind, hhandled]; rfl⟩
    | login | signup | session | mailCode => cases huse

/-- A request that brings a code mails nothing. -/
theorem mailed_eq_none_of_codeRequest {server next : ServerState} {event : Event}
    {observation : Observation} {request : CodeRequest}
    (hstep : step server event = some (next, observation))
    (hrequest : codeRequest event = some request) : observation.mailed = none := by
  cases accountsStep_of_step hstep with
  | unchanged hnone => simp [hnone] at hrequest
  | mailing _ hnone => simp [hnone] at hrequest
  | checked _ _ _ _ hmailed => exact hmailed

variable {users : List Row} {server : ServerState}

/-- As long as no other mailing to the email has come, a request that brings the mailed code can be
sent again any number of times, and the mailing authorises every one of them. -/
theorem exists_replays (hrun : ServerRun users history server) {event : Event}
    {request : CodeRequest} (hrequest : codeRequest event = some request)
    (hchanges : request.ChangesAccount) (hemail : request.email = mailing.email)
    (hcode : request.code = mailing.code)
    (hlatest : LatestMailing history position history.length mailing) (count : ℕ) :
    ∃ replays last, ServerRun users (history ++ replays) last ∧
      replays.map StepRecord.event = List.replicate count event ∧
      LatestMailing (history ++ replays) position (history ++ replays).length mailing ∧
      ∀ index, history.length ≤ index → index < history.length + count →
        Authorises (history ++ replays) position index := by
  induction count with
  | zero => exact ⟨[], server, by simpa using hrun, rfl, by simpa using hlatest, by omega⟩
  | succ count ih =>
    obtain ⟨replays, last, hreplayed, hevents, hstill, hauthorised⟩ := ih
    have hlength : replays.length = count := by simpa using congrArg List.length hevents
    obtain ⟨next, observation, hstep⟩ := exists_step_of_codeRequest last hrequest
    have hextended := hreplayed.extend hstep
    have hmailed := mailed_eq_none_of_codeRequest hstep hrequest
    refine ⟨replays ++ [⟨last, event, observation, next⟩], next, ?_, ?_, ?_,
      fun index hlower hupper ↦ ?_⟩
    · rwa [← List.append_assoc]
    · rw [List.map_append, hevents, List.replicate_succ']
      rfl
    · rw [← List.append_assoc]
      exact hstill.snoc hmailed
    · rw [← List.append_assoc]
      rcases Nat.lt_or_ge index (history.length + count) with hold | hnew
      · exact (hauthorised index hlower hold).append
      · have hindex : index = (history ++ replays).length := by
          rw [List.length_append]
          omega
        rw [authorises_iff hextended, hindex]
        exact ⟨_, request, mailing, List.getElem?_concat_length, hrequest, hchanges,
          hstill.append le_rfl, hemail, hcode⟩

end Replays

/-- A mailing authorises exactly the requests that change an account and bring its code before the
next mailing to its email, and such a request authorised once can be sent again, any number of
times, until that mailing comes. -/
theorem authorised_until_next_mailing {users : List Row} {history : List ServerRecord}
    {server : ServerState} (hrun : ServerRun users history server) :
    (∀ position index, Authorises history position index ↔ BringsCode history position index) ∧
      ∀ position index record mailing, history[index]? = some record →
        Authorises history position index → LatestMailing history position history.length mailing →
          ∀ count, ∃ replays last, ServerRun users (history ++ replays) last ∧
            replays.map StepRecord.event = List.replicate count record.event ∧
            ∀ again, history.length ≤ again → again < history.length + count →
              Authorises (history ++ replays) position again := by
  refine ⟨authorises_iff hrun, fun position index record mailing hrecord hauthorises hlatest
    count ↦ ?_⟩
  obtain ⟨same, request, sent, hsame, hrequest, hchanges, hbefore, hemail, hcode⟩ :=
    (authorises_iff hrun position index).mp hauthorises
  obtain rfl : record = same := Option.some.inj (hrecord.symm.trans hsame)
  obtain rfl : mailing = sent := Option.some.inj (hlatest.sent.symm.trans hbefore.sent)
  obtain ⟨replays, last, hreplayed, hevents, -, hauthorised⟩ :=
    exists_replays hrun hrequest hchanges hemail hcode hlatest count
  exact ⟨replays, last, hreplayed, hevents, hauthorised⟩

/-! ### A code used twice -/

/-- A reset with the code mailed to `a@x.c` by the sample signup. -/
def resetRequest : CodeRequest :=
  ⟨.reset, ascii "ann", ascii "new", ascii "a@x.c", ascii "100000", calmEnvironment.sql⟩

/-- After a signup its mailing is the latest one. -/
theorem exists_latestMailing_signup :
    ∃ history server, ServerRun [] history server ∧ history.length = 1 ∧
      LatestMailing history 0 history.length ⟨ascii "a@x.c", ascii "100000"⟩ := by
  obtain ⟨history, server, hrun, hevents, hcheck⟩ := exists_run_of_execute step (start [])
    [request "S:ann:pass:a@x.c"]
    (fun history _ ↦ mailingAt history 0 = some ⟨ascii "a@x.c", ascii "100000"⟩) (by decide +kernel)
  have hlength : history.length = 1 := by simpa using congrArg List.length hevents
  refine ⟨history, server, hrun, hlength, of_decide_eq_true hcheck, by omega, ?_⟩
  intro between hafter hbefore
  omega

/-- The mailing of a signup authorises a reset, and then three more of the same. -/
theorem authorised_until_next_mailing_signup :
    ∃ history server, ServerRun [] history server ∧ Authorises history 0 1 ∧
      ∃ replays last, ServerRun [] (history ++ replays) last ∧ replays.length = 3 ∧
        ∀ again, 2 ≤ again → again < 5 → Authorises (history ++ replays) 0 again := by
  obtain ⟨history, server, hrun, hlength, hlatest⟩ := exists_latestMailing_signup
  have hrequest : codeRequest (request "N:ann:new:a@x.c:100000") = some resetRequest := rfl
  obtain ⟨replays, last, hreset, hevents, hstill, hauthorised⟩ :=
    exists_replays hrun hrequest (fun _ ↦ rfl) rfl rfl hlatest 1
  have hone : replays.length = 1 := by simpa using congrArg List.length hevents
  have hfirst : Authorises (history ++ replays) 0 1 := hauthorised 1 (by omega) (by omega)
  have htwo : (history ++ replays).length = 2 := by simp [hlength, hone]
  obtain ⟨again, final, hagain, hcopies, hall⟩ := (authorised_until_next_mailing hreset).2 0 1
    _ _ (List.getElem?_eq_getElem (by omega)) hfirst hstill 3
  exact ⟨_, last, hreset, hfirst, again, final, hagain,
    by simpa using congrArg List.length hcopies,
    fun index hlower hupper ↦ hall index (by omega) (by omega)⟩

/-- One mailing authorises two resets. -/
theorem not_authorises_once :
    ¬ ∀ history server, ServerRun [] history server → ∀ position first second,
      Authorises history position first → Authorises history position second →
        first = second := by
  intro honce
  obtain ⟨history, server, hrun, hlength, hlatest⟩ := exists_latestMailing_signup
  have hrequest : codeRequest (request "N:ann:new:a@x.c:100000") = some resetRequest := rfl
  obtain ⟨replays, last, hreset, -, -, hauthorised⟩ :=
    exists_replays hrun hrequest (fun _ ↦ rfl) rfl rfl hlatest 2
  have hsame := honce _ last hreset 0 1 2 (hauthorised 1 (by omega) (by omega))
    (hauthorised 2 (by omega) (by omega))
  omega

end NovaIde.Server
