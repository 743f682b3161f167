import NovaIde.Server.SessionConsent

/-!
# Which pairs of users are matched

A session thread either wins `infoExchangeFlag` and stays in `exchangeInfo` until it has sent the
details of its pair, or finds the flag cleared and returns. Two counts follow the threads of a pair
through a run: the threads that won the flag are those past the test, and every one that has
returned from `exchangeInfo` has sent one complementary pair of details (`MatchInvariant`). In a
state in which no thread can step, mutual invites leave no thread of the pair waiting, so the
number of complementary pairs sent is the number of threads of the pair that won the flag
(`matchedOnce_iff`).

The flag is never set again, so a second pair of users is never matched (`not_matchedOnce`).
-/

set_option autoImplicit false
set_option relaxedAutoImplicit false

namespace NovaIde.Server

open Foundation Foundation.EventRun

/-! ### What was asked and what was sent -/

/-- The target of the latest `J` request of a name. -/
def latestRequest (history : List ServerRecord) : Bytes → Option Bytes :=
  lastEntry Prod.fst Prod.snd (history.filterMap receivedInvite)

/-- The latest `J` request of a name is also the one whose invite was recorded last. The requests
of one user are served by threads of their own, which may record in another order. -/
def RecordedInOrder (history : List ServerRecord) (name : Bytes) : Prop :=
  latestInvite history name = latestRequest history name

/-- No session thread can step. -/
def Quiescent (server : ServerState) : Prop :=
  ∀ handler ∈ server.handlers, ¬ CanStep server.exchange handler

/-- Two names are those of a pair, in either order. -/
def isPair (a b first second : Bytes) : Bool :=
  (first = a && second = b) || (first = b && second = a)

/-- The details sent between two users, oldest first. -/
def detailsBetween (history : List ServerRecord) (a b : Bytes) : List Details :=
  (history.flatMap fun record ↦ record.observation.details).filter fun details ↦
    isPair a b details.recipient details.peer

/-- One message ending in `:H` to one of two users and one ending in `:C` to the other. -/
def Complementary (a b : Bytes) (host member : Details) : Prop :=
  isPair a b host.recipient member.recipient = true ∧
    ascii ":H" <:+ host.payload ∧ ascii ":C" <:+ member.payload

/-- Exactly one complementary pair of details was sent between two users. -/
def MatchedOnce (history : List ServerRecord) (a b : Bytes) : Prop :=
  ∃ host member, detailsBetween history a b = [host, member] ∧ Complementary a b host member

/-- A step in which a thread of the pair finds the flag set. -/
def winsFlag (a b : Bytes) (record : ServerRecord) : Bool :=
  (movedThread record).any fun handler ↦
    isPair a b handler.current handler.wanted && handler.stage = .testFlag &&
      record.before.exchange.infoExchangeFlag

/-- The number of threads of a pair that found the flag set. -/
def flagWins (history : List ServerRecord) (a b : Bytes) : ℕ :=
  history.countP (winsFlag a b)

/-! ### The stages of a thread -/

/-- Whether a thread has won the flag. -/
def Stage.hasWon : Stage → Bool
  | .clearFlag | .readFirst | .readSecond | .sendDetails | .served => true
  | .assignInvite | .testFlag | .skipped => false

/-- The threads of a pair that have won the flag. -/
def winners (a b : Bytes) (handlers : List SessionHandler) : ℕ :=
  handlers.countP fun handler ↦ isPair a b handler.current handler.wanted && handler.stage.hasWon

/-- The threads of a pair that have sent their details. -/
def servers (a b : Bytes) (handlers : List SessionHandler) : ℕ :=
  handlers.countP fun handler ↦ isPair a b handler.current handler.wanted && handler.stage = .served

/-- Replacing one entry moves a count by the difference between the two entries. -/
theorem countP_set_add {α : Type*} (p : α → Bool) {list : List α} {index : ℕ} {old : α} (new : α)
    (hold : list[index]? = some old) :
    (list.set index new).countP p + (if p old then 1 else 0) =
      list.countP p + (if p new then 1 else 0) := by
  obtain ⟨hindex, hentry⟩ := List.getElem?_eq_some_iff.mp hold
  have hpositive : (if p old then 1 else 0) ≤ list.countP p := by
    rw [← hentry]
    exact List.boole_getElem_le_countP hindex
  rw [List.countP_set hindex, hentry]
  omega

/-- A thread has won the flag after a step if it had before, or if the step found the flag set. -/
theorem hasWon_of_sessionStep {exchange exchange' : Exchange} {handler handler' : SessionHandler}
    {details : List Details}
    (hsession : sessionStep exchange handler = some (exchange', handler', details)) :
    handler'.stage.hasWon =
      (handler.stage.hasWon || (handler.stage = .testFlag && exchange.infoExchangeFlag)) := by
  obtain ⟨-, -, hcases⟩ := sessionStep_cases hsession
  rcases hcases with ⟨hstage, hstage', -⟩ | ⟨hstage, -, -, hstage'⟩ | ⟨hstage, hstage', -⟩ |
    ⟨hstage, -, -, -, hstage'⟩ | ⟨hstage, -, -, -, hstage'⟩ | ⟨hstage, hstage', -⟩
  · rw [hstage, hstage']
    rfl
  · rw [hstage, hstage']
    cases exchange.infoExchangeFlag <;> rfl
  · rw [hstage, hstage']
    rfl
  · rw [hstage, hstage']
    split_ifs <;> rfl
  · rw [hstage, hstage']
    split_ifs <;> rfl
  · rw [hstage, hstage']
    rfl

/-- A thread is served by the step that sends its details, and by no other. -/
theorem served_of_sessionStep {exchange exchange' : Exchange} {handler handler' : SessionHandler}
    {details : List Details}
    (hsession : sessionStep exchange handler = some (exchange', handler', details)) :
    handler.stage ≠ .served ∧ (handler'.stage = .served ↔ handler.stage = .sendDetails) ∧
      details = if handler.stage = .sendDetails
        then detailsSent exchange handler.current handler.wanted else [] := by
  obtain ⟨-, -, hcases⟩ := sessionStep_cases hsession
  rcases hcases with ⟨hstage, hstage', hdetails, -⟩ | ⟨hstage, hdetails, -, hstage'⟩ |
    ⟨hstage, hstage', hdetails, -⟩ | ⟨hstage, hdetails, -, -, hstage'⟩ |
    ⟨hstage, hdetails, -, -, hstage'⟩ | ⟨hstage, hstage', hdetails, -⟩
  · simp [hstage, hstage', hdetails]
  · cases hflag : exchange.infoExchangeFlag <;> simp [hstage, hstage', hdetails, hflag]
  · simp [hstage, hstage', hdetails]
  · by_cases hread : exchange.sessionInvites.read handler.current = handler.wanted <;>
      simp [hstage, hstage', hdetails, hread]
  · by_cases hread : exchange.sessionInvites.read handler.wanted = handler.current <;>
      simp [hstage, hstage', hdetails, hread]
  · simp [hstage, hstage', hdetails]

section Counts

variable {a b : Bytes} {record : ServerRecord}

/-- A step adds a winner exactly when it is a win of the pair. -/
theorem winners_of_step (hstep : SessionStep record) :
    winners a b record.after.handlers =
      winners a b record.before.handlers + if winsFlag a b record then 1 else 0 := by
  cases hstep with
  | other _ _ hmoved _ _ hhandlers _ => simp [winsFlag, hmoved, hhandlers]
  | login _ _ _ _ _ hmoved _ _ hhandlers _ => simp [winsFlag, hmoved, hhandlers]
  | request _ _ _ _ hmoved _ _ hhandlers _ =>
    simp [winsFlag, hmoved, hhandlers, winners, Stage.hasWon]
  | thread index handler handler' _ _ hmoved _ hhandler hhandlers hsession =>
    obtain ⟨hcurrent, hwanted, -⟩ := sessionStep_cases hsession
    have hcount := countP_set_add
      (fun handler ↦ isPair a b handler.current handler.wanted && handler.stage.hasWon) handler'
      hhandler
    rw [hcurrent, hwanted, hasWon_of_sessionStep hsession] at hcount
    have hexclusive : handler.stage = .testFlag → handler.stage.hasWon = false := by
      intro hstage
      rw [hstage]
      rfl
    simp only [winners, hhandlers, winsFlag, hmoved, Option.any_some]
    grind

theorem isPair_comm (a b first second : Bytes) :
    isPair a b first second = isPair a b second first := by
  unfold isPair
  grind

/-- Of the details a thread sends, those between two users are all of them if the thread is one of
the pair, and none otherwise. -/
theorem filter_detailsSent (a b : Bytes) (exchange : Exchange) (current wanted : Bytes) :
    (detailsSent exchange current wanted).filter
        (fun details ↦ isPair a b details.recipient details.peer) =
      if isPair a b current wanted then detailsSent exchange current wanted else [] := by
  cases hpair : isPair a b current wanted <;>
    simp [detailsSent, hpair, isPair_comm a b wanted]

/-- The text of one client's details ends in the role. -/
theorem suffix_infoText (address : SockAddr) (role : String) :
    ascii ":" ++ ascii role <:+ infoText address role := by
  rw [infoText, List.append_assoc]
  exact List.suffix_append _ _

/-- The details a thread of the pair sends are complementary. -/
theorem complementary_detailsSent (exchange : Exchange) {current wanted : Bytes}
    (hpair : isPair a b current wanted = true) :
    ∃ host member, detailsSent exchange current wanted = [host, member] ∧
      Complementary a b host member :=
  ⟨_, _, rfl, hpair, suffix_infoText _ "H", suffix_infoText _ "C"⟩

/-- A step either sends no details between two users, or sends one complementary pair and returns
one of their threads. -/
theorem sent_of_step (a b : Bytes) (hstep : SessionStep record) :
    (record.observation.details.filter (fun details ↦
        isPair a b details.recipient details.peer) = [] ∧
      servers a b record.after.handlers = servers a b record.before.handlers) ∨
    ∃ host member, record.observation.details.filter (fun details ↦
        isPair a b details.recipient details.peer) = [host, member] ∧
      Complementary a b host member ∧
      servers a b record.after.handlers = servers a b record.before.handlers + 1 := by
  cases hstep with
  | other _ _ _ hdetails _ hhandlers _ => exact Or.inl ⟨by simp [hdetails], by rw [hhandlers]⟩
  | login _ _ _ _ _ _ hdetails _ hhandlers _ => exact Or.inl ⟨by simp [hdetails], by rw [hhandlers]⟩
  | request _ _ _ _ _ hdetails _ hhandlers _ =>
    exact Or.inl ⟨by simp [hdetails], by simp [hhandlers, servers]⟩
  | thread index handler handler' _ _ _ _ hhandler hhandlers hsession =>
    obtain ⟨hcurrent, hwanted, -⟩ := sessionStep_cases hsession
    obtain ⟨hserved, hserved', hdetails⟩ := served_of_sessionStep hsession
    have hcount := countP_set_add
      (fun handler ↦ isPair a b handler.current handler.wanted && handler.stage = .served) handler'
      hhandler
    simp only [hcurrent, hwanted, hserved, decide_false, Bool.and_false, hserved'] at hcount
    rw [hdetails, hhandlers]
    by_cases hsend : handler.stage = .sendDetails
    · rw [if_pos hsend]
      rw [filter_detailsSent]
      by_cases hpair : isPair a b handler.current handler.wanted = true
      · obtain ⟨host, member, hsent, hcomplementary⟩ :=
          complementary_detailsSent record.before.exchange hpair
        refine Or.inr ⟨host, member, by rw [if_pos hpair, hsent], hcomplementary, ?_⟩
        simpa [servers, hpair, hsend] using hcount
      · refine Or.inl ⟨if_neg hpair, ?_⟩
        simpa [servers, hpair] using hcount
    · refine Or.inl ⟨by simp [hsend], ?_⟩
      simpa [servers, hsend] using hcount

end Counts

/-! ### The counts of a run -/

/-- Details made of a number of complementary pairs. -/
inductive SentInPairs (a b : Bytes) : ℕ → List Details → Prop
  | none : SentInPairs a b 0 []
  | more {count : ℕ} {sent : List Details} {host member : Details}
      (hsent : SentInPairs a b count sent) (hpair : Complementary a b host member) :
      SentInPairs a b (count + 1) (sent ++ [host, member])

theorem SentInPairs.length {a b : Bytes} {count : ℕ} {sent : List Details}
    (hsent : SentInPairs a b count sent) : sent.length = 2 * count := by
  induction hsent with
  | none => rfl
  | more _ _ ih =>
    rw [List.length_append, ih]
    simp
    omega

/-- Details made of complementary pairs are one complementary pair exactly when the number of pairs
is one. -/
theorem SentInPairs.single_iff {a b : Bytes} {count : ℕ} {sent : List Details}
    (hsent : SentInPairs a b count sent) :
    (∃ host member, sent = [host, member] ∧ Complementary a b host member) ↔ count = 1 := by
  constructor
  · rintro ⟨host, member, rfl, -⟩
    have hlength := hsent.length
    simp only [List.length_cons, List.length_nil] at hlength
    omega
  · rintro rfl
    cases hsent with
    | more hsent hpair =>
      cases hsent
      exact ⟨_, _, rfl, hpair⟩

/-- What every run keeps for two users: the winners among their threads are the wins of the run,
and the details between them are complementary pairs, one for every thread that returned from
`exchangeInfo`. -/
structure MatchInvariant (a b : Bytes) (history : List ServerRecord) (server : ServerState) :
    Prop where
  won : winners a b server.handlers = flagWins history a b
  sent : SentInPairs a b (servers a b server.handlers) (detailsBetween history a b)

theorem matchInvariant_of_run {users : List Row} {history : List ServerRecord}
    {server : ServerState} (hrun : ServerRun users history server) (a b : Bytes) :
    MatchInvariant a b history server := by
  refine hrun.relation (MatchInvariant a b) ⟨rfl, .none⟩ ?_
  intro history server event next observation _ hinvariant hstep
  have hsession := sessionStep_of_step hstep
  constructor
  · rw [winners_of_step hsession, hinvariant.won]
    simp [flagWins, List.countP_append, List.countP_singleton]
  · have hdetails : detailsBetween (history ++ [⟨server, event, observation, next⟩]) a b =
        detailsBetween history a b ++ observation.details.filter fun details ↦
          isPair a b details.recipient details.peer := by
      simp [detailsBetween]
    rw [hdetails]
    rcases sent_of_step a b hsession with ⟨hnone, hcount⟩ |
      ⟨host, member, hsome, hpair, hcount⟩
    · rw [hnone, hcount, List.append_nil]
      exact hinvariant.sent
    · rw [hsome, hcount]
      exact hinvariant.sent.more hpair

/-! ### Quiescent states -/

/-- When two users have invited each other and no thread can step, a thread of the two that won the
flag has returned: were it still in `exchangeInfo`, its condition would hold. -/
theorem served_of_quiescent {server : ServerState} (hquiescent : Quiescent server) {a b : Bytes}
    (ha : server.exchange.sessionInvites.read a = b)
    (hb : server.exchange.sessionInvites.read b = a) {handler : SessionHandler}
    (hhandler : handler ∈ server.handlers)
    (hpair : isPair a b handler.current handler.wanted = true) :
    handler.stage.hasWon = decide (handler.stage = .served) := by
  have hmutual : server.exchange.sessionInvites.read handler.current = handler.wanted ∧
      server.exchange.sessionInvites.read handler.wanted = handler.current := by
    simp only [isPair, Bool.or_eq_true, Bool.and_eq_true, decide_eq_true_eq] at hpair
    rcases hpair with ⟨hcurrent, hwanted⟩ | ⟨hcurrent, hwanted⟩
    · rw [hcurrent, hwanted]
      exact ⟨ha, hb⟩
    · rw [hcurrent, hwanted]
      exact ⟨hb, ha⟩
  have hstuck := hquiescent handler hhandler
  unfold CanStep at hstuck
  cases hstage : handler.stage <;> simp_all [Stage.hasWon]

/-- In a quiescent state, two users whose latest `J` requests name each other and were recorded in
order have been sent exactly one complementary pair of details exactly when one of their threads
found the flag set, and no more than one. -/
theorem matchedOnce_iff {users : List Row} {history : List ServerRecord} {server : ServerState}
    (hrun : ServerRun users history server) (hquiescent : Quiescent server) {a b : Bytes}
    (ha : latestRequest history a = some b) (hb : latestRequest history b = some a)
    (hordera : RecordedInOrder history a) (horderb : RecordedInOrder history b) :
    MatchedOnce history a b ↔ flagWins history a b = 1 := by
  have hinvariant := matchInvariant_of_run hrun a b
  have hinvitea : server.exchange.sessionInvites.read a = b := by
    rw [read_sessionInvites_of_run hrun, hordera, ha, Option.getD_some]
  have hinviteb : server.exchange.sessionInvites.read b = a := by
    rw [read_sessionInvites_of_run hrun, horderb, hb, Option.getD_some]
  have hcount : servers a b server.handlers = winners a b server.handlers := by
    refine List.countP_congr fun handler hhandler ↦ ?_
    by_cases hpair : isPair a b handler.current handler.wanted = true
    · simp [hpair, served_of_quiescent hquiescent hinvitea hinviteb hhandler hpair]
    · simp [hpair]
  rw [← hinvariant.won, ← hcount]
  exact hinvariant.sent.single_iff

/-- Four users log in; two of them invite each other and are matched, then the other two do. -/
def twoPairs : List Event :=
  [login "ann", login "bob", login "cid", login "dan", request "J:ann1:bob", request "J:bob1:ann",
    request "J:cid1:dan", request "J:dan1:cid"] ++
    [0, 0, 0, 1, 1, 0, 0, 0, 2, 2, 3, 3].map Event.thread

/-- The rows of the four users. -/
def fourUsers : List Row := [plainRow "ann", plainRow "bob", plainRow "cid", plainRow "dan"]

instance (history : List ServerRecord) (name : Bytes) :
    Decidable (RecordedInOrder history name) :=
  inferInstanceAs (Decidable (_ = _))

instance (server : ServerState) : Decidable (Quiescent server) :=
  inferInstanceAs (Decidable (∀ handler ∈ server.handlers, _))

/-- The first pair of users is matched once. -/
theorem matchedOnce_iff_first :
    ∃ history server, ServerRun fourUsers history server ∧
      flagWins history (ascii "ann") (ascii "bob") = 1 ∧
      (MatchedOnce history (ascii "ann") (ascii "bob") ↔
        flagWins history (ascii "ann") (ascii "bob") = 1) := by
  obtain ⟨history, server, hrun, -, hcheck⟩ := exists_run_of_execute step (start fourUsers) twoPairs
    (fun history server ↦ Quiescent server ∧
      latestRequest history (ascii "ann") = some (ascii "bob") ∧
      latestRequest history (ascii "bob") = some (ascii "ann") ∧
      RecordedInOrder history (ascii "ann") ∧ RecordedInOrder history (ascii "bob") ∧
      flagWins history (ascii "ann") (ascii "bob") = 1) (by decide)
  obtain ⟨hquiescent, ha, hb, hordera, horderb, hwins⟩ := of_decide_eq_true hcheck
  exact ⟨history, server, hrun, hwins, matchedOnce_iff hrun hquiescent ha hb hordera horderb⟩

/-- The second pair of users is never matched. -/
theorem not_matchedOnce :
    ¬ ∀ users history server a b, ServerRun users history server → Quiescent server → a ≠ b →
      latestRequest history a = some b → latestRequest history b = some a →
        MatchedOnce history a b := by
  intro hall
  obtain ⟨history, server, hrun, -, hcheck⟩ := exists_run_of_execute step (start fourUsers) twoPairs
    (fun history server ↦ Quiescent server ∧
      latestRequest history (ascii "cid") = some (ascii "dan") ∧
      latestRequest history (ascii "dan") = some (ascii "cid") ∧
      detailsBetween history (ascii "cid") (ascii "dan") = []) (by decide)
  obtain ⟨hquiescent, hc, hd, hnone⟩ := of_decide_eq_true hcheck
  obtain ⟨host, member, hsent, -⟩ := hall _ _ _ _ _ hrun hquiescent (by decide) hc hd
  rw [hnone] at hsent
  cases hsent

end NovaIde.Server
