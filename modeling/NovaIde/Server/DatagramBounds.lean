import NovaIde.Server.CodeAuthentication

/-!
# Reads out of bounds while a datagram is handled

From the received datagram to the reply the server reads four sequences by index: the buffer, which
`std::string` copies up to a zero byte, the request string, the details vector and the result
vector. `handleDatagram` makes each of these reads explicit and faults at the first one out of
range.

The request string and the result vector are always read in range. The other two are not. The
buffer is as long as the largest datagram it receives, so a datagram that fills it without a zero
byte is copied past its end, and no handler looks at the size of the details vector before it
indexes it. `handleDatagram_iff` says which datagrams make no read out of range: those that leave a
zero byte in the buffer and bring, behind the first two bytes of the request, the separators that
the handler of their kind needs.
-/

set_option autoImplicit false
set_option relaxedAutoImplicit false

namespace NovaIde.Server

/-! ### The buffer and the request string -/

/-- The buffer of `acceptClient` after `memset` and `recvfrom`. -/
def receiveBuffer (datagram : Bytes) : Bytes :=
  datagram ++ List.replicate (bufferSize - datagram.length) 0

/-- `std::string(buffer)` from an index on: the bytes up to the first zero byte. -/
def copyString (buffer : Bytes) (index : ℕ) : Except AccessFault Bytes :=
  if hindex : index < buffer.length then
    if buffer[index] = 0 then .ok []
    else (copyString buffer (index + 1)).map (buffer[index] :: ·)
  else .error ⟨index, buffer.length⟩
termination_by buffer.length - index

/-- `userInfo[index]`: at its size a string reads as the terminator. -/
def charAt (userInfo : Bytes) (index : ℕ) : Except AccessFault UInt8 :=
  if hindex : index < userInfo.length then .ok userInfo[index]
  else if index = userInfo.length then .ok 0
  else .error ⟨index, userInfo.length⟩

/-- The loop of `getDetails` from an index on, with the fields pushed so far and the field being
read. -/
def readDetails (userInfo : Bytes) (details : List Bytes) (tStr : Bytes) (index : ℕ) :
    Except AccessFault (List Bytes) :=
  if index < userInfo.length then do
    let byte ← charAt userInfo index
    if byte = seperationIdentifier then readDetails userInfo (details ++ [tStr]) [] (index + 1)
    else if isKept byte then readDetails userInfo details (tStr ++ [byte]) (index + 1)
    else readDetails userInfo details tStr (index + 1)
  else .ok (details ++ [tStr])
termination_by userInfo.length - index

/-- The copy faults, at the end of the buffer, exactly when it meets no zero byte before. -/
theorem copyString_eq (buffer : Bytes) (index : ℕ) (hindex : index ≤ buffer.length) :
    copyString buffer index =
      if 0 ∈ buffer.drop index then .ok ((buffer.drop index).takeWhile (· ≠ 0))
      else .error ⟨buffer.length, buffer.length⟩ := by
  induction index using copyString.induct buffer with
  | case1 index hlt hzero =>
    rw [copyString, dif_pos hlt, if_pos hzero, List.drop_eq_getElem_cons hlt, hzero]
    simp
  | case2 index hlt hzero ih =>
    rw [copyString, dif_pos hlt, if_neg hzero, List.drop_eq_getElem_cons hlt, ih hlt]
    rw [List.takeWhile_cons_of_pos (by simpa using hzero)]
    by_cases hrest : 0 ∈ buffer.drop (index + 1)
    · rw [if_pos hrest, if_pos (List.mem_cons_of_mem _ hrest)]
      rfl
    · have hnone : 0 ∉ buffer[index] :: buffer.drop (index + 1) := by
        rw [List.mem_cons, not_or]
        exact ⟨Ne.symm hzero, hrest⟩
      rw [if_neg hrest, if_neg hnone]
      rfl
  | case3 index hlt =>
    obtain rfl : index = buffer.length := by omega
    rw [copyString, dif_neg hlt]
    simp

/-- The string copied out of the buffer is the datagram up to its first zero byte. A datagram that
fills the buffer without one is copied past the end. -/
theorem copyString_receiveBuffer {datagram : Bytes} (hlength : datagram.length ≤ bufferSize) :
    copyString (receiveBuffer datagram) 0 =
      if datagram.length < bufferSize ∨ 0 ∈ datagram then .ok (datagram.takeWhile (· ≠ 0))
      else .error ⟨bufferSize, bufferSize⟩ := by
  have hsize : (receiveBuffer datagram).length = bufferSize := by
    rw [receiveBuffer, List.length_append, List.length_replicate]
    omega
  have hzero : 0 ∈ receiveBuffer datagram ↔ datagram.length < bufferSize ∨ 0 ∈ datagram := by
    rw [receiveBuffer, List.mem_append, List.mem_replicate, or_comm]
    refine or_congr_left (and_iff_left rfl |>.trans ?_)
    omega
  have hstring : (receiveBuffer datagram).takeWhile (· ≠ 0) = datagram.takeWhile (· ≠ 0) := by
    rw [receiveBuffer, List.takeWhile_append]
    split_ifs with hall
    · rw [List.takeWhile_replicate, if_neg (by simp), List.append_nil]
      exact ((List.takeWhile_prefix _).eq_of_length hall).symm
    · rfl
  rw [copyString_eq _ _ (Nat.zero_le _), List.drop_zero, hsize, hstring]
  exact if_congr hzero rfl rfl

/-- A read of the request string at most at its size is in range. -/
theorem charAt_of_le {userInfo : Bytes} {index : ℕ} (hindex : index ≤ userInfo.length) :
    charAt userInfo index = .ok ((userInfo.drop index).headD 0) := by
  rw [charAt]
  split_ifs with hlt hend
  · rw [List.drop_eq_getElem_cons hlt]
    rfl
  · simp [hend]
  · omega

/-- The loop of `getDetails` reads only inside the request string. -/
theorem readDetails_eq (userInfo : Bytes) (details : List Bytes) (tStr : Bytes) (index : ℕ) :
    readDetails userInfo details tStr index =
      .ok (detailsLoop details tStr (userInfo.drop index)) := by
  induction details, tStr, index using readDetails.induct userInfo with
  | case1 details tStr index hlt ihseparator ihkept ihdropped =>
    rw [readDetails, if_pos hlt, charAt_of_le hlt.le, List.drop_eq_getElem_cons hlt, detailsLoop,
      List.headD_cons, except_ok_bind]
    split_ifs with hseparator hkept
    · exact ihseparator
    · exact ihkept _
    · exact ihdropped
  | case2 details tStr index hlt =>
    rw [readDetails, if_neg hlt, List.drop_eq_nil_of_le (by omega), detailsLoop]

/-- The details vector has one field more than there are separators. -/
theorem length_detailsLoop (rest : Bytes) : ∀ (details : List Bytes) (tStr : Bytes),
    (detailsLoop details tStr rest).length =
      details.length + (rest.count seperationIdentifier + 1) := by
  induction rest with
  | nil => simp [detailsLoop]
  | cons byte rest ih =>
    intro details tStr
    by_cases hseparator : byte = seperationIdentifier
    · rw [detailsLoop, if_pos hseparator, ih, hseparator, List.count_cons_self,
        List.length_append, List.length_singleton]
      omega
    · rw [detailsLoop, if_neg hseparator, List.count_cons_of_ne hseparator]
      split_ifs
      · exact ih details _
      · exact ih details tStr

/-! ### The handlers -/

/-- The handler `analyzeUser` calls for a kind of request. -/
def handlerOf : RequestKind → Environment → Accounts → Bytes → Except AccessFault Handled
  | .login => handleLogin
  | .signup => handleSignup
  | .session => fun _ ↦ handleSessionReq
  | .codeCheck => verifyPasscode
  | .mailCode => handleEmailReq
  | .newPass => handlePassReset

/-- What `analyzeUser` does after the handler. -/
def completeRequest :
    RequestKind → Environment → ServerState → SockAddr → Handled → ServerState × Observation
  | .login => completeLogin
  | .session => fun _ server _ ↦ enterSession server
  | .signup | .codeCheck | .mailCode | .newPass => fun _ ↦ answered

/-- The reads of the result vector after the handler: `result[0]`, and `result[1]` after an
accepted login, and both for a `J` request. -/
def readResult : RequestKind → List Bytes → Except AccessFault Unit
  | .login, result => do
    let code ← detailAt result 0
    if code = infoCorrect then
      let _username ← detailAt result 1
    return ()
  | .session, result => do
    let _current ← detailAt result 0
    let _wanted ← detailAt result 1
    return ()
  | .signup, _ | .codeCheck, _ | .mailCode, _ | .newPass, _ => return ()

/-- Receiving and handling a datagram, with every indexed read of it explicit. -/
def handleDatagram (environment : Environment) (server : ServerState) (clientAddr : SockAddr)
    (datagram : Bytes) : Except AccessFault (ServerState × Observation) := do
  let userInfo ← copyString (receiveBuffer datagram) 0
  let _identifier ← charAt userInfo 0
  match requestKind userInfo with
  | none => return (server, {})
  | some kind =>
    let _details ← readDetails userInfo [] [] 2
    let handled ← handlerOf kind environment server.accounts userInfo
    readResult kind handled.result
    return completeRequest kind environment server clientAddr handled

/-- The number of fields a handler reads: every one of them reads the first so many. -/
def fieldsIndexed : RequestKind → ℕ
  | .login | .session | .mailCode => 2
  | .signup => 3
  | .codeCheck | .newPass => 4

section Handlers

variable {environment : Environment} {accounts : Accounts} {userInfo : Bytes} {kind : RequestKind}

/-- There is one field more than separators behind the first two bytes. -/
theorem length_getDetails (userInfo : Bytes) :
    (getDetails userInfo).length = (userInfo.drop 2).count seperationIdentifier + 1 := by
  rw [getDetails, length_detailsLoop, List.length_nil, Nat.zero_add]

/-- The details vector has a field exactly at the indices below its length. -/
theorem exists_field_iff (index : ℕ) :
    (∃ field, (getDetails userInfo)[index]? = some field) ↔
      index < (getDetails userInfo).length := by
  simp [List.getElem?_eq_some_iff]

/-- A handler that returns has read all of its fields. -/
theorem fieldsIndexed_le_of_handlerOf {handled : Handled}
    (hhandled : handlerOf kind environment accounts userInfo = .ok handled) :
    fieldsIndexed kind ≤ (getDetails userInfo).length := by
  cases kind with
  | login =>
    obtain ⟨_, password, -, hlast, -⟩ := handleLogin_eq_ok.mp hhandled
    exact (exists_field_iff 1).mp ⟨password, hlast⟩
  | signup =>
    obtain ⟨_, _, email, -, -, hlast, -⟩ := handleSignup_eq_ok.mp hhandled
    exact (exists_field_iff 2).mp ⟨email, hlast⟩
  | session =>
    obtain ⟨_, wanted, -, hlast, -⟩ := handleSessionReq_eq_ok.mp hhandled
    exact (exists_field_iff 1).mp ⟨wanted, hlast⟩
  | codeCheck =>
    obtain ⟨_, _, _, code, -, -, -, hlast, -⟩ := verifyPasscode_eq_ok.mp hhandled
    exact (exists_field_iff 3).mp ⟨code, hlast⟩
  | mailCode =>
    obtain ⟨_, email, -, hlast, -⟩ := handleEmailReq_eq_ok.mp hhandled
    exact (exists_field_iff 1).mp ⟨email, hlast⟩
  | newPass =>
    obtain ⟨_, _, _, passcode, -, -, -, hlast, -⟩ := handlePassReset_eq_ok.mp hhandled
    exact (exists_field_iff 3).mp ⟨passcode, hlast⟩

/-- A handler returns when the details vector has its fields. -/
theorem exists_handlerOf_of_le (hlength : fieldsIndexed kind ≤ (getDetails userInfo).length) :
    ∃ handled, handlerOf kind environment accounts userInfo = .ok handled := by
  have hget : ∀ index, index < fieldsIndexed kind →
      ∃ field, (getDetails userInfo)[index]? = some field :=
    fun index hindex ↦ (exists_field_iff index).mpr (hindex.trans_le hlength)
  cases kind with
  | login =>
    obtain ⟨username, h0⟩ := hget 0 (by decide)
    obtain ⟨password, h1⟩ := hget 1 (by decide)
    exact ⟨_, handleLogin_eq_ok.mpr ⟨username, password, h0, h1, rfl⟩⟩
  | signup =>
    obtain ⟨username, h0⟩ := hget 0 (by decide)
    obtain ⟨password, h1⟩ := hget 1 (by decide)
    obtain ⟨email, h2⟩ := hget 2 (by decide)
    exact ⟨_, handleSignup_eq_ok.mpr ⟨username, password, email, h0, h1, h2, rfl⟩⟩
  | session =>
    obtain ⟨token, h0⟩ := hget 0 (by decide)
    obtain ⟨wanted, h1⟩ := hget 1 (by decide)
    exact ⟨_, handleSessionReq_eq_ok.mpr ⟨token, wanted, h0, h1, rfl⟩⟩
  | codeCheck =>
    obtain ⟨username, h0⟩ := hget 0 (by decide)
    obtain ⟨password, h1⟩ := hget 1 (by decide)
    obtain ⟨email, h2⟩ := hget 2 (by decide)
    obtain ⟨code, h3⟩ := hget 3 (by decide)
    exact ⟨_, verifyPasscode_eq_ok.mpr ⟨username, password, email, code, h0, h1, h2, h3, rfl⟩⟩
  | mailCode =>
    obtain ⟨username, h0⟩ := hget 0 (by decide)
    obtain ⟨email, h1⟩ := hget 1 (by decide)
    exact ⟨_, handleEmailReq_eq_ok.mpr ⟨username, email, h0, h1, rfl⟩⟩
  | newPass =>
    obtain ⟨username, h0⟩ := hget 0 (by decide)
    obtain ⟨newPassword, h1⟩ := hget 1 (by decide)
    obtain ⟨email, h2⟩ := hget 2 (by decide)
    obtain ⟨passcode, h3⟩ := hget 3 (by decide)
    exact ⟨_, handlePassReset_eq_ok.mpr
      ⟨username, newPassword, email, passcode, h0, h1, h2, h3, rfl⟩⟩

/-- A handler returns exactly when the details vector has the fields it reads. -/
theorem exists_handlerOf_eq_ok :
    (∃ handled, handlerOf kind environment accounts userInfo = .ok handled) ↔
      fieldsIndexed kind ≤ (getDetails userInfo).length :=
  ⟨fun ⟨_, hhandled⟩ ↦ fieldsIndexed_le_of_handlerOf hhandled, exists_handlerOf_of_le⟩

/-- The result vector of a handler has the entries read after it. -/
theorem readResult_of_handlerOf {handled : Handled}
    (hhandled : handlerOf kind environment accounts userInfo = .ok handled) :
    readResult kind handled.result = .ok () := by
  cases kind with
  | login =>
    obtain ⟨username, password, -, -, rfl⟩ := handleLogin_eq_ok.mp hhandled
    split_ifs
    · rfl
    · rfl
    · rfl
  | session =>
    obtain ⟨token, wanted, -, -, rfl⟩ := handleSessionReq_eq_ok.mp hhandled
    rfl
  | signup | codeCheck | mailCode | newPass => rfl

end Handlers

/-! ### When every read is in range -/

/-- The datagram leaves a zero byte in the buffer, and its request brings behind the first two
bytes the separators of all fields its handler reads. -/
structure InBounds (datagram : Bytes) : Prop where
  terminated : datagram.length < bufferSize ∨ 0 ∈ datagram
  delimited : ∀ kind, requestKind (datagram.takeWhile (· ≠ 0)) = some kind →
    fieldsIndexed kind ≤
      ((datagram.takeWhile (· ≠ 0)).drop 2).count seperationIdentifier + 1

section Datagrams

variable {datagram : Bytes} {environment : Environment} {server : ServerState}
  {clientAddr : SockAddr}

/-- `analyzeUser` is the handler of the kind of the request and what is done after it. -/
theorem analyzeUser_eq (userInfo : Bytes) :
    analyzeUser environment server userInfo clientAddr =
      match requestKind userInfo with
      | none => .ok (server, {})
      | some kind => (handlerOf kind environment server.accounts userInfo).map
          (completeRequest kind environment server clientAddr) := by
  unfold analyzeUser
  cases requestKind userInfo with
  | none => rfl
  | some kind => cases kind <;> rfl

/-- Handling a datagram faults when its string is copied past the end of the buffer, and otherwise
does what `analyzeUser` does with the string. -/
theorem handleDatagram_eq (hlength : datagram.length ≤ bufferSize) :
    handleDatagram environment server clientAddr datagram =
      if datagram.length < bufferSize ∨ 0 ∈ datagram then
        analyzeUser environment server (datagram.takeWhile (· ≠ 0)) clientAddr
      else .error ⟨bufferSize, bufferSize⟩ := by
  rw [handleDatagram, copyString_receiveBuffer hlength]
  split_ifs
  · rw [except_ok_bind, charAt_of_le (Nat.zero_le _), except_ok_bind, analyzeUser_eq]
    cases requestKind (datagram.takeWhile (· ≠ 0)) with
    | none => rfl
    | some kind =>
      simp only [readDetails_eq, except_ok_bind]
      cases hhandled : handlerOf kind environment server.accounts (datagram.takeWhile (· ≠ 0)) with
      | error fault => rfl
      | ok handled =>
        rw [except_ok_bind, readResult_of_handlerOf hhandled]
        rfl
  · rfl

/-- Handling a datagram is a step of the server, where the string is copied inside the buffer. -/
theorem toOption_handleDatagram (hlength : datagram.length ≤ bufferSize) :
    (handleDatagram environment server clientAddr datagram).toOption =
      (acceptClient datagram).bind fun userInfo ↦
        (step server (.receive userInfo clientAddr environment)) := by
  rw [handleDatagram_eq hlength, acceptClient]
  by_cases hterminated : datagram.length < bufferSize ∨ 0 ∈ datagram
  · have haccepted : datagram.length < bufferSize ∨
        datagram.length = bufferSize ∧ 0 ∈ datagram := by
      rcases hterminated with hshort | hzero
      · exact Or.inl hshort
      · exact hlength.lt_or_eq.imp_right fun hfull ↦ ⟨hfull, hzero⟩
    rw [if_pos hterminated, if_pos haccepted]
    rfl
  · rw [if_neg hterminated, if_neg fun haccepted ↦ hterminated (haccepted.imp_right And.right)]
    rfl

/-- `analyzeUser` reads in range exactly when the request has the fields its handler reads. -/
theorem exists_analyzeUser_eq_ok (userInfo : Bytes) :
    (∃ outcome, analyzeUser environment server userInfo clientAddr = .ok outcome) ↔
      ∀ kind, requestKind userInfo = some kind →
        fieldsIndexed kind ≤ (userInfo.drop 2).count seperationIdentifier + 1 := by
  rw [analyzeUser_eq]
  cases requestKind userInfo with
  | none => simp
  | some kind =>
    rw [← length_getDetails]
    simp only [Option.some.injEq, forall_eq']
    have hhandler : (∃ handled, handlerOf kind environment server.accounts userInfo = .ok handled) ↔
        fieldsIndexed kind ≤ (getDetails userInfo).length := exists_handlerOf_eq_ok
    rw [← hhandler]
    cases handlerOf kind environment server.accounts userInfo with
    | error fault => simp [Except.map]
    | ok handled => simp [Except.map]

end Datagrams

/-- A datagram that fits the buffer is handled without a read out of range exactly when it leaves a
zero byte in the buffer and has the fields its handler reads. -/
theorem handleDatagram_iff {datagram : Bytes} (hlength : datagram.length ≤ bufferSize)
    (environment : Environment) (server : ServerState) (clientAddr : SockAddr) :
    (∃ outcome, handleDatagram environment server clientAddr datagram = .ok outcome) ↔
      InBounds datagram := by
  rw [handleDatagram_eq hlength]
  constructor
  · rintro ⟨outcome, houtcome⟩
    split_ifs at houtcome with hterminated
    · exact ⟨hterminated, (exists_analyzeUser_eq_ok _).mp ⟨outcome, houtcome⟩⟩
  · rintro ⟨hterminated, hdelimited⟩
    rw [if_pos hterminated]
    exact (exists_analyzeUser_eq_ok _).mpr hdelimited

/-- A request for a code is handled without a read out of range. -/
theorem handleDatagram_iff_mailCode :
    ∃ outcome, handleDatagram calmEnvironment (start []) default (ascii "V:ann:a@x.c") =
      .ok outcome :=
  (handleDatagram_iff (by decide) calmEnvironment (start []) default).mpr
    ⟨by decide, by decide⟩

/-- A login without a password makes its handler read past the details vector. -/
theorem not_handleDatagram_of_login :
    ¬ ∀ datagram : Bytes, datagram.length ≤ bufferSize → ∀ environment server clientAddr,
      ∃ outcome, handleDatagram environment server clientAddr datagram = .ok outcome := by
  intro hall
  obtain ⟨outcome, houtcome⟩ :=
    hall (ascii "L:ann") (by decide) calmEnvironment (start []) default
  rw [handleDatagram_eq (by decide), if_pos (by decide)] at houtcome
  have hfields := (exists_analyzeUser_eq_ok _).mp ⟨outcome, houtcome⟩ .login (by decide)
  revert hfields
  decide

end NovaIde.Server
