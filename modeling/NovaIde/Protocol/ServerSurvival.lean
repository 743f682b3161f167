import NovaIde.Protocol.ClientSystem
import NovaIde.Server.DatagramBounds

/-!
# Requests that the server survives

The server throws on a datagram that does not fit its buffer, and its handlers read past the end of
the details when a request has too few fields. What the client sends has all its fields, unless a
character U+0000 cuts it short. So while the clients send requests that fit the buffer and hold no
such character before their last field, the server can receive everything that is on its way to it,
in any order (`receivable_of_run`).
-/

set_option autoImplicit false
set_option relaxedAutoImplicit false

namespace NovaIde.Protocol

open Foundation Foundation.EventRun Client Server

/-! ### Requests -/

/-- A request fits the buffer, and only its last field may hold the character that ends it. -/
structure Survivable (request : ClientRequest) : Prop where
  fits : request.datagram.length < bufferSize
  uncut : ∀ field ∈ request.fields.dropLast, 0 ∉ field

instance (request : ClientRequest) : Decidable (Survivable request) :=
  decidable_of_iff
    (request.datagram.length < bufferSize ∧
      request.fields.dropLast.all fun field ↦ !field.contains 0) <| by
    rw [List.all_eq_true]
    constructor
    · rintro ⟨hfits, huncut⟩
      exact ⟨hfits, fun field hfield ↦ by simpa using huncut field hfield⟩
    · rintro ⟨hfits, huncut⟩
      exact ⟨hfits, fun field hfield ↦ by simpa using huncut field hfield⟩

/-- A zero byte only comes from the character U+0000. -/
theorem zero_mem_of_utf8GetBytes {text : Text} (hzero : 0 ∈ utf8GetBytes text) : 0 ∈ text := by
  have hreceived : (0 : UInt16) ∈ asReceived text := List.mem_map.mpr ⟨0, hzero, by decide⟩
  exact ((garbled_asReceived text).mem hreceived).resolve_right (by decide)

/-- Fields that hold no zero byte but in the last one, each behind a separator: as many separators
as fields come before the first zero byte. -/
theorem length_le_count_takeWhile (fields : List Bytes)
    (huncut : ∀ field ∈ fields.dropLast, 0 ∉ field) :
    fields.length ≤
      ((fields.flatMap (seperationIdentifier :: ·)).takeWhile (· ≠ 0)).count
        seperationIdentifier := by
  induction fields with
  | nil => simp
  | cons first others ih =>
    rw [List.flatMap_cons, List.cons_append, List.takeWhile_cons_of_pos (by decide),
      List.count_cons_self, List.length_cons]
    cases others with
    | nil => simp
    | cons second others =>
      rw [List.dropLast_cons_cons] at huncut
      have hfirst : ∀ byte ∈ first, decide (byte ≠ 0) = true := by
        intro byte hbyte
        have hne : byte ≠ 0 := fun hzero ↦ huncut first (by simp) (hzero ▸ hbyte)
        simpa using hne
      have hrest := ih fun field hfield ↦ huncut field (List.mem_cons_of_mem _ hfield)
      rw [List.takeWhile_append_of_pos hfirst, List.count_append]
      omega

/-- The client puts as many fields into a request as the handler reads. -/
theorem length_fields (request : ClientRequest) :
    request.fields.length = fieldsIndexed request.kind := by
  cases request <;> rfl

/-- The server receives a request that it survives, and handles it. -/
theorem exists_step_of_survivable {request : ClientRequest} (hsurvivable : Survivable request)
    (server : ServerState) (clientAddr : SockAddr) (environment : Environment) :
    ∃ userInfo outcome, acceptClient request.datagram = some userInfo ∧
      Server.step server (.receive userInfo clientAddr environment) = some outcome := by
  have haccepted : acceptClient request.datagram =
      some (request.datagram.takeWhile (· ≠ 0)) := if_pos (.inl hsurvivable.fits)
  have huserInfo := eq_of_acceptClient haccepted
  obtain ⟨outcome, houtcome⟩ :
      ∃ outcome, analyzeUser environment server (request.datagram.takeWhile (· ≠ 0))
        clientAddr = .ok outcome := by
    refine (exists_analyzeUser_eq_ok _).mpr fun kind hkind ↦ ?_
    obtain rfl : request.kind = kind :=
      Option.some.inj ((requestKind_of_acceptClient haccepted).symm.trans hkind)
    have huncut : ∀ field ∈ (request.fields.map utf8GetBytes).dropLast, 0 ∉ field := by
      rw [← List.map_dropLast]
      intro bytes hbytes hzero
      obtain ⟨field, hfield, rfl⟩ := List.mem_map.mp hbytes
      exact hsurvivable.uncut field hfield (zero_mem_of_utf8GetBytes hzero)
    have hcount := length_le_count_takeWhile _ huncut
    obtain ⟨first, others, hfields⟩ : ∃ first others, request.fields = first :: others := by
      cases request <;> exact ⟨_, _, rfl⟩
    rw [List.length_map, length_fields] at hcount
    rw [huserInfo]
    rw [hfields, List.map_cons, List.flatMap_cons, List.cons_append,
      List.takeWhile_cons_of_pos (by decide), List.count_cons_self] at hcount
    rw [hfields, List.map_cons, List.flatMap_cons, List.cons_append,
      List.takeWhile_cons_of_pos (by decide), List.drop_succ_cons, List.drop_succ_cons,
      List.drop_zero]
    exact hcount
  exact ⟨_, outcome, haccepted, by rw [Server.step, houtcome]; rfl⟩

/-! ### Runs -/

/-- The request sent in a step, if any, is one that the server survives. -/
def SendsSurvivable (record : SystemRecord) : Prop :=
  ∀ acted ∈ record.observation.acted, ∀ request ∈ acted.2.2.sent, Survivable request

instance (record : SystemRecord) : Decidable (SendsSurvivable record) :=
  inferInstanceAs (Decidable (∀ acted ∈ _, ∀ request ∈ _, _))

section Runs

variable {classes : CharClasses} {endsWith : Text → Text → Bool} {users : List Row}
  {pathUi : Text} {history : List SystemRecord} {system next : NovaSystem} {output : SystemOutput}

/-- What is on the way to the server are greetings and requests that it survives. -/
def FlightSurvivable (system : NovaSystem) : Prop :=
  ∀ entry ∈ system.inFlight, entry.2 = greeting ∨
    ∃ request : ClientRequest, entry.2 = request.datagram ∧ Survivable request

/-- A step adds what the client sends to what is on the way, and may take something from it. -/
theorem inFlight_of_step {event : SystemEvent}
    (hstep : system.step classes endsWith event = some (next, output)) :
    ∀ entry ∈ next.inFlight, entry ∈ system.inFlight ∨ entry.2 = greeting ∨
      ∃ acted ∈ output.acted, ∃ request ∈ acted.2.2.sent,
        entry.2 = ClientRequest.datagram request := by
  intro entry hentry
  cases event with
  | startFlow address =>
    simp only [NovaSystem.step] at hstep
    split_ifs at hstep
    cases hstep
    rcases List.mem_append.mp hentry with hold | hnew
    · exact .inl hold
    · simp only [List.map_cons, List.map_nil, List.mem_singleton] at hnew
      exact .inr (.inl (by rw [hnew]))
  | press address button =>
    simp only [NovaSystem.step, Option.bind_eq_bind, Option.bind_eq_some_iff] at hstep
    obtain ⟨⟨window, shown⟩, -, hstep⟩ := hstep
    split_ifs at hstep
    cases hstep
    rcases List.mem_append.mp hentry with hold | hnew
    · exact .inl hold
    · obtain ⟨datagram, hdatagram, rfl⟩ := List.mem_map.mp hnew
      obtain ⟨request, hrequest, rfl⟩ := List.mem_map.mp hdatagram
      exact .inr (.inr ⟨_, rfl, request, Option.mem_toList.mp hrequest, rfl⟩)
  | receive index environment =>
    simp only [NovaSystem.step, Option.bind_eq_bind, Option.bind_eq_some_iff, Option.pure_def,
      Option.some.injEq] at hstep
    obtain ⟨_, -, _, -, _, -, hpair⟩ := hstep
    cases hpair
    exact .inl (List.mem_of_mem_eraseIdx hentry)
  | thread index =>
    simp only [NovaSystem.step, Option.bind_eq_bind, Option.bind_eq_some_iff, Option.pure_def,
      Option.some.injEq] at hstep
    obtain ⟨_, -, hpair⟩ := hstep
    cases hpair
    exact .inl hentry
  | answer address =>
    simp only [NovaSystem.step] at hstep
    split at hstep
    · cases hstep
    · simp only [Option.bind_eq_bind, Option.bind_eq_some_iff, Option.pure_def,
        Option.some.injEq] at hstep
      obtain ⟨_, -, hpair⟩ := hstep
      cases hpair
      exact .inl hentry
  | peer address data =>
    simp only [NovaSystem.step] at hstep
    split_ifs at hstep
    cases hstep
    exact .inl hentry
  | listen address =>
    simp only [NovaSystem.step] at hstep
    split at hstep
    · cases hstep
    · split_ifs at hstep
      cases hstep
      exact .inl hentry

theorem flightSurvivable_of_run (hrun : SystemRun classes endsWith users pathUi history system)
    (hsends : EveryStep (fun _ ↦ SendsSurvivable) history) : FlightSurvivable system := by
  refine hrun.relation_of_everyStep (fun _ ↦ FlightSurvivable) ?_ ?_ hsends
  · intro entry hentry
    cases hentry
  · intro _ before event next output _ hflight hsends hstep entry hentry
    rcases inFlight_of_step hstep entry hentry with hold | hgreeting | hsent
    · exact hflight entry hold
    · exact .inl hgreeting
    · obtain ⟨acted, hacted, request, hrequest, hdatagram⟩ := hsent
      exact .inr ⟨request, hdatagram, hsends acted hacted request hrequest⟩

/-- In every run in which the clients send requests of this kind, with any number of clients and in
any order of the steps, the server can receive every datagram that is on its way to it, whatever its
environment does. -/
theorem receivable_of_run (hrun : SystemRun classes endsWith users pathUi history system)
    (hsends : EveryStep (fun _ ↦ SendsSurvivable) history) {index : ℕ}
    (hindex : index < system.inFlight.length) (environment : Environment) :
    ∃ next output,
      system.step classes endsWith (.receive index environment) = some (next, output) := by
  have hentry : system.inFlight[index]? = some system.inFlight[index] :=
    List.getElem?_eq_getElem hindex
  obtain ⟨userInfo, ⟨server, observation⟩, hreceived, hserver⟩ :
      ∃ userInfo outcome, acceptClient system.inFlight[index].2 = some userInfo ∧
        Server.step system.server
          (.receive userInfo system.inFlight[index].1 environment) = some outcome := by
    rcases flightSurvivable_of_run hrun hsends _ (List.getElem_mem hindex) with
      hgreeting | ⟨request, hdatagram, hsurvivable⟩
    · refine ⟨ascii "a:b", (system.server, {}), ?_, ?_⟩
      · rw [hgreeting]
        decide +kernel
      · rfl
    · rw [hdatagram]
      exact exists_step_of_survivable hsurvivable _ _ _
  simp only [NovaSystem.step, hentry, Option.bind_eq_bind, Option.bind_some, hreceived, hserver,
    Option.pure_def]
  exact ⟨_, _, rfl⟩

/-- A signup and a login are on their way, and the server can receive either first. -/
theorem receivable_of_run_signup : ∃ history system,
    SystemRun asciiClasses (fun _ _ ↦ true) [] [] history system ∧ system.inFlight.length = 4 ∧
      ∀ index < 4, ∀ environment, ∃ next output,
        system.step asciiClasses (fun _ _ ↦ true) (.receive index environment) =
          some (next, output) := by
  obtain ⟨history, system, hrun, -, hcheck⟩ := exists_run_of_execute
    (fun system ↦ NovaSystem.step system asciiClasses fun _ _ ↦ true) (.start [] [])
    [.startFlow (clientAt 1), .startFlow (clientAt 2), .press (clientAt 1) .signup,
      .press (clientAt 1) (.signupDone (str "bob") (str "Abcdefg1") (str "b@x.y")),
      .press (clientAt 2) .login, .press (clientAt 2) (.loginDone (str "a") (str "b"))]
    (fun history system ↦ system.inFlight.length = 4 &&
      EveryStep (fun _ ↦ SendsSurvivable) history) (by decide +kernel)
  simp only [Bool.and_eq_true, decide_eq_true_eq] at hcheck
  obtain ⟨hlength, hsends⟩ := hcheck
  exact ⟨history, system, hrun, hlength, fun index hindex environment ↦
    receivable_of_run hrun hsends (by omega) environment⟩

end Runs

end NovaIde.Protocol
