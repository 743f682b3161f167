import NovaIde.Protocol.ClientRequests
import NovaIde.Server.SessionConsent

/-!
# Session tokens on their way through the client

A login is answered with `9:TOKEN`. `Login.done` keeps what follows the second character, and
`sendInvite` sends it back in front of the name of another user. While the tokens a run issues are
made of letters and digits and none is issued twice, a token that was issued keeps its name
(`tokensKept_of_run`), so the invite is resolved to the user the token was issued to
(`invite_resolves`).
-/

set_option autoImplicit false
set_option relaxedAutoImplicit false

namespace NovaIde.Protocol

open Foundation Foundation.EventRun Client Server

/-! ### The client -/

/-- The token `Login.done` takes from a reply, when its first character says that the login was
accepted. -/
def loginToken (message : Text) : Option Text :=
  match message with
  | [] => none
  | code :: _ => if code = unit '9' then some (message.drop 2) else none

/-! ### Tokens of a run -/

/-- A character of the `charset` of `generateSessionToken`. -/
def isTokenChar (byte : UInt8) : Bool := isalpha byte || isdigit byte

/-- A step that issues a token issues one over the charset that was not issued before. -/
def IssuesFreshToken (earlier : List ServerRecord) (record : ServerRecord) : Prop :=
  ∀ name token, issuedToken record = some (name, token) →
    (∀ byte ∈ token, isTokenChar byte) ∧ ∀ other, ¬ Issued earlier other token

instance (earlier : List ServerRecord) (record : ServerRecord) :
    Decidable (IssuesFreshToken earlier record) :=
  decidable_of_iff
    (∀ login ∈ issuedToken record, login.2.all isTokenChar ∧
      ∀ before ∈ earlier, (issuedToken before).map Prod.snd ≠ some login.2) <| by
    simp only [Option.mem_def, Prod.forall, IssuesFreshToken, Issued, Option.map_eq_some_iff,
      Prod.exists, ne_eq, not_exists, not_and, List.all_eq_true]
    grind

/-- Every token issued so far has the name it was issued to, and consists of characters of the
charset. -/
def TokensKept (history : List ServerRecord) (server : ServerState) : Prop :=
  ∀ name token, Issued history name token →
    server.accounts.usersList token = some name ∧ ∀ byte ∈ token, isTokenChar byte

/-- One step keeps the names of the tokens issued before it. -/
theorem TokensKept.step {history : List ServerRecord} {record : ServerRecord}
    (hkept : TokensKept history record.before) (hfresh : IssuesFreshToken history record)
    (hstep : SessionStep record) : TokensKept (history ++ [record]) record.after := by
  intro name token hissued
  rw [issued_append_singleton_iff] at hissued
  cases hstep with
  | other hnone _ _ _ htokens _ _ =>
    rw [htokens]
    exact hkept name token (hissued.resolve_right (by simp [hnone]))
  | login user issued clientAddr hlogin _ _ _ htokens _ _ =>
    obtain ⟨hchars, hnew⟩ := hfresh user issued hlogin
    rw [htokens]
    rcases hissued with hold | hnow
    · obtain ⟨hname, hold'⟩ := hkept name token hold
      have hne : token ≠ issued := by
        rintro rfl
        exact hnew name hold
      exact ⟨(SubscriptMap.assign_of_ne _ _ hne).trans hname, hold'⟩
    · obtain ⟨rfl, rfl⟩ : user = name ∧ issued = token := by simpa [hlogin] using hnow
      exact ⟨SubscriptMap.assign_self _ _ _, hchars⟩
  | request sent target hnone _ _ _ htokens _ _ =>
    obtain ⟨hname, hchars⟩ := hkept name token (hissued.resolve_right (by simp [hnone]))
    rw [htokens]
    refine ⟨?_, hchars⟩
    by_cases hsent : token = sent
    · subst hsent
      rw [SubscriptMap.touch_eq_self (by simp [hname]), hname]
    · rw [SubscriptMap.touch, Function.update_of_ne hsent, hname]
  | thread index handler handler' hnone _ _ htokens _ _ _ =>
    rw [htokens]
    exact hkept name token (hissued.resolve_right (by simp [hnone]))

/-- In a run that issues fresh tokens, every token keeps its name. -/
theorem tokensKept_of_run {users : List Row} {history : List ServerRecord} {server : ServerState}
    (hrun : ServerRun users history server) (hfresh : EveryStep IssuesFreshToken history) :
    TokensKept history server :=
  hrun.relation_of_everyStep TokensKept (by rintro _ _ ⟨_, ⟨⟩, _⟩)
    (fun _ _ _ _ _ _ hkept hfresh hstep ↦ hkept.step hfresh (sessionStep_of_step hstep)) hfresh

/-! ### The reply -/

/-- The text of the answer to an accepted login. -/
theorem responseText_login (token : Bytes) :
    responseText [infoCorrect, token] = ascii "9:" ++ token := by
  have hcode : infoCorrect = ascii "9" := by decide +kernel
  have hleads : ascii "9:" = ascii "9" ++ ascii ":" := by decide
  rw [responseText_cons, List.flatMap_singleton, hcode, hleads, List.append_assoc]

/-- A step that completes a login answers with the token. -/
theorem replies_of_issued {record : ServerRecord} {name token : Bytes}
    (hstep : step record.before record.event = some (record.after, record.observation))
    (hissued : issuedToken record = some (name, token)) :
    ∃ destination, record.observation.replies = [⟨destination, ascii "9:" ++ token⟩] := by
  obtain ⟨before, event, observation, after⟩ := record
  obtain ⟨userInfo, clientAddr, environment, hlogin, rfl, hresult⟩ :
      ∃ userInfo clientAddr environment, requestKind userInfo = some .login ∧
        event = .receive userInfo clientAddr environment ∧
        observation.result = [infoCorrect, token] := by
    simp only [issuedToken] at hissued
    split at hissued
    · next userInfo clientAddr environment code issued hresult =>
      split_ifs at hissued with hkind
      obtain ⟨_, -, hpair⟩ := Option.map_eq_some_iff.mp hissued
      obtain ⟨-, rfl⟩ := Prod.mk.inj hpair
      exact ⟨userInfo, clientAddr, environment, hkind.1, rfl, by rw [hresult, hkind.2]⟩
    · cases hissued
  have hshape : StepShape before (.receive userInfo clientAddr environment) after observation :=
    stepShape_of_step hstep
  clear hstep hissued
  cases hshape with
  | login hkind hhandled =>
    obtain ⟨username, password, -, -, rfl⟩ := handleLogin_eq_ok.mp hhandled
    split_ifs at hresult ⊢
    · obtain rfl : environment.sessionToken = token := by simpa [completeLogin] using hresult
      rw [← responseText_login]
      simp [completeLogin, sendResponse]
    · simp [completeLogin, answered] at hresult
    · simp [completeLogin, answered] at hresult
  | ignored hkind | signup hkind | session hkind | codeCheck hkind | mailCode hkind
  | newPass hkind => simp [hlogin] at hkind

/-- The bytes of a token, read by the client. -/
theorem loginToken_reply {token : Bytes} (htoken : ∀ byte ∈ token, isTokenChar byte) :
    loginToken (utf8GetString (ascii "9:" ++ token)) = some (token.map UInt8.toUInt16) := by
  have hplain : ∀ byte, isTokenChar byte = true → byte < 0x80 := by
    have hall : ∀ value : Fin 256, isTokenChar (UInt8.ofFin value) = true →
        UInt8.ofFin value < 0x80 := by decide +kernel
    exact fun byte ↦ hall byte.toFin
  have hascii : ∀ byte ∈ ascii "9:" ++ token, byte < 0x80 := by
    intro byte hbyte
    rcases List.mem_append.mp hbyte with hbyte | hbyte
    · exact lt_of_all (by decide : (ascii "9:").all (· < 0x80) = true) byte hbyte
    · exact hplain byte (htoken byte hbyte)
  rw [utf8GetString_of_ascii hascii]
  rfl

/-- The characters of a token are server characters, and their bytes are the token. -/
theorem serverChars_token {token : Bytes} (htoken : ∀ byte ∈ token, isTokenChar byte) :
    (∀ char ∈ token.map UInt8.toUInt16, isServerChar char) ∧
      utf8GetBytes (token.map UInt8.toUInt16) = token := by
  have hchars : ∀ char ∈ token.map UInt8.toUInt16, isServerChar char := by
    intro char hchar
    obtain ⟨byte, hbyte, rfl⟩ := List.mem_map.mp hchar
    have hall : ∀ value : Fin 256, isTokenChar (UInt8.ofFin value) = true →
        isServerChar (UInt8.ofFin value).toUInt16 = true := by decide +kernel
    exact hall byte.toFin (htoken byte hbyte)
  refine ⟨hchars, ?_⟩
  rw [utf8GetBytes_of_ascii (isAscii_of_serverChars hchars), List.map_map]
  have hbyte : UInt16.toUInt8 ∘ UInt8.toUInt16 = id := by
    funext byte
    exact UInt8.toUInt8_toUInt16 byte
  rw [hbyte, List.map_id]

/-! ### The invite -/

/-- An invite with an issued token, in a state that keeps the tokens, is received when it fits the
buffer, and resolved to the user the token was issued to. -/
theorem handleSessionReq_invite {accounts : Accounts} {name token : Bytes} {target : Text}
    (hname : accounts.usersList token = some name)
    (htoken : ∀ byte ∈ token, isTokenChar byte) (htarget : ∀ char ∈ target, isServerChar char)
    (hfits : (ClientRequest.sendInvite (token.map UInt8.toUInt16) target).datagram.length <
      bufferSize) :
    ∃ userInfo handled,
      acceptClient (ClientRequest.sendInvite (token.map UInt8.toUInt16) target).datagram =
        some userInfo ∧
      requestKind userInfo = some .session ∧
      handleSessionReq accounts userInfo = .ok handled ∧
        handled.result = [name, utf8GetBytes target] := by
  obtain ⟨userInfo, hreceived⟩ : ∃ userInfo,
      acceptClient (ClientRequest.sendInvite (token.map UInt8.toUInt16) target).datagram =
        some userInfo := ⟨_, if_pos (.inl hfits)⟩
  obtain ⟨hchars, hbytes⟩ := serverChars_token htoken
  have hfields : HasServerChars (.sendInvite (token.map UInt8.toUInt16) target) := by
    intro field hfield
    rcases List.mem_pair.mp hfield with rfl | rfl
    · exact hchars
    · exact htarget
  have hagrees : getDetails userInfo = [token, utf8GetBytes target] := by
    rw [agrees_of_serverChars hreceived hfields]
    simp [ClientRequest.fields, hbytes]
  refine ⟨userInfo, _, hreceived, requestKind_of_acceptClient hreceived,
    handleSessionReq_eq_ok.mpr ⟨token, utf8GetBytes target, ?_, ?_, rfl⟩, ?_⟩
  · rw [hagrees]
    rfl
  · rw [hagrees]
    rfl
  · rw [SubscriptMap.read_of_some hname]

/-- In every run that issues fresh tokens, the token `Login.done` takes from the reply to an
accepted login, sent back with any target of letters, digits, `@` and `.` in a message that fits the
server's buffer, is received and resolved to the user who logged in and to the target. -/
theorem invite_resolves {users : List Row} {history : List ServerRecord} {server : ServerState}
    (hrun : ServerRun users history server) (hfresh : EveryStep IssuesFreshToken history)
    {record : ServerRecord} (hrecord : record ∈ history) {name token : Bytes}
    (hissued : issuedToken record = some (name, token)) :
    ∃ reply sent, record.observation.replies = [reply] ∧
      loginToken (utf8GetString reply.payload) = some sent ∧
      ∀ target : Text, (∀ char ∈ target, isServerChar char) →
        (ClientRequest.sendInvite sent target).datagram.length < bufferSize →
          ∃ userInfo handled,
            acceptClient (ClientRequest.sendInvite sent target).datagram = some userInfo ∧
            requestKind userInfo = some .session ∧
            handleSessionReq server.accounts userInfo = .ok handled ∧
              handled.result = [name, utf8GetBytes target] := by
  obtain ⟨hname, hchars⟩ := tokensKept_of_run hrun hfresh name token ⟨record, hrecord, hissued⟩
  obtain ⟨earlier, later, hsplit⟩ := List.append_of_mem hrecord
  subst hsplit
  obtain ⟨destination, hreplies⟩ := replies_of_issued hrun.split.2 hissued
  exact ⟨_, _, hreplies, loginToken_reply hchars, fun target htarget hfits ↦
    handleSessionReq_invite hname hchars htarget hfits⟩

/-- A user logs in, an invite with a token that is not issued yet comes in, another user logs in
with that token, and the invite of the first user for the second one is resolved. -/
theorem invite_resolves_run :
    ∃ history server record, ServerRun [plainRow "ann", plainRow "bob"] history server ∧
      record ∈ history ∧ issuedToken record = some (ascii "ann", ascii "ann1") ∧
      ∃ reply, record.observation.replies = [reply] ∧
        loginToken (utf8GetString reply.payload) = some (str "ann1") ∧
        ∃ userInfo handled,
          acceptClient (ClientRequest.sendInvite (str "ann1") (str "bob")).datagram =
            some userInfo ∧
          requestKind userInfo = some .session ∧
          handleSessionReq server.accounts userInfo = .ok handled ∧
            handled.result = [ascii "ann", ascii "bob"] := by
  obtain ⟨history, server, hrun, -, hcheck⟩ := exists_run_of_execute step
    (start [plainRow "ann", plainRow "bob"])
    [login "ann", request "J:bob1:ann", login "bob", request "V:ann:ann"]
    (fun history _ ↦ EveryStep IssuesFreshToken history ∧ ∃ record ∈ history,
      issuedToken record = some (ascii "ann", ascii "ann1") ∧
        ∀ reply ∈ record.observation.replies,
          loginToken (utf8GetString reply.payload) = some (str "ann1")) (by decide +kernel)
  obtain ⟨hfresh, record, hrecord, hissued, htoken⟩ := of_decide_eq_true hcheck
  obtain ⟨reply, sent, hreplies, hsent, hresolves⟩ := invite_resolves hrun hfresh hrecord hissued
  have hfirst := htoken reply (by simp [hreplies])
  obtain rfl : str "ann1" = sent := Option.some.inj (hfirst.symm.trans hsent)
  have hbytes : utf8GetBytes (str "bob") = ascii "bob" := by decide +kernel
  have hchars : (str "bob").all isServerChar = true := by decide
  rw [← hbytes]
  exact ⟨history, server, record, hrun, hrecord, hissued, reply, hreplies, hsent,
    hresolves (str "bob") (List.all_eq_true.mp hchars) (by decide +kernel)⟩

end NovaIde.Protocol
