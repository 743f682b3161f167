import NovaIde.Client.Transport
import NovaIde.Server.RequestFields

/-!
# The requests of the client, read by the server

`ServerCommunicator` joins what the user typed with colons and sends it as UTF-8. The server splits
what it receives at colons and keeps only letters, digits, `@` and `.`, so that it reads what the
client sent exactly when every character of every field is one of those (`agrees_iff`), which the
pages do not check.
-/

set_option autoImplicit false
set_option relaxedAutoImplicit false

namespace NovaIde.Protocol

open Client Server

/-! ### The requests -/

/-- A request, named after the function of `ServerCommunicator` that builds it. -/
inductive ClientRequest
  | sendSignup (user password email : Text)
  | sendLogin (user password : Text)
  | checkEmail (username email : Text)
  | checkCode (username password email code : Text)
  | sendNewPassword (username password email code : Text)
  | sendInvite (sessionToken username : Text)
deriving DecidableEq, Repr

namespace ClientRequest

/-- The string a request is sent as. -/
def message : ClientRequest → Text
  | .sendSignup user password email =>
    str "S" ++ str ":" ++ user ++ str ":" ++ password ++ str ":" ++ email
  | .sendLogin user password => str "L" ++ str ":" ++ user ++ str ":" ++ password
  | .checkEmail username email => str "V" ++ str ":" ++ username ++ str ":" ++ email
  | .checkCode username password email code =>
    str "C" ++ str ":" ++ username ++ str ":" ++ password ++ str ":" ++ email ++ str ":" ++ code
  | .sendNewPassword username password email code =>
    str "N" ++ str ":" ++ username ++ str ":" ++ password ++ str ":" ++ email ++ str ":" ++ code
  | .sendInvite sessionToken username =>
    str "J" ++ str ":" ++ sessionToken ++ str ":" ++ username

/-- What the client put into a request, in the order of the message. -/
def fields : ClientRequest → List Text
  | .sendSignup user password email => [user, password, email]
  | .sendLogin user password => [user, password]
  | .checkEmail username email => [username, email]
  | .checkCode username password email code
  | .sendNewPassword username password email code => [username, password, email, code]
  | .sendInvite sessionToken username => [sessionToken, username]

/-- The first character of the message. -/
def identifier : ClientRequest → UInt16
  | .sendSignup .. => unit 'S'
  | .sendLogin .. => unit 'L'
  | .checkEmail .. => unit 'V'
  | .checkCode .. => unit 'C'
  | .sendNewPassword .. => unit 'N'
  | .sendInvite .. => unit 'J'

/-- The bytes of a request on the wire. -/
def datagram (request : ClientRequest) : Datagram := utf8GetBytes request.message

/-- A message is its identifier and its fields, each behind a colon. -/
theorem message_eq (request : ClientRequest) :
    request.message = request.identifier :: request.fields.flatMap (colon :: ·) := by
  cases request <;> simp [message, identifier, fields, str, colon]

end ClientRequest

/-! ### What the pages check -/

/-- The classes of characters of `char.IsUpper`, `char.IsLower` and `char.IsDigit`. -/
structure CharClasses where
  isUpper : UInt16 → Bool
  isLower : UInt16 → Bool
  isDigit : UInt16 → Bool

/-- The classes of the ASCII characters. -/
def asciiClasses : CharClasses where
  isUpper char := unit 'A' ≤ char && char ≤ unit 'Z'
  isLower char := unit 'a' ≤ char && char ≤ unit 'z'
  isDigit := isDigitUnit

/-- The checks of a password in `Signup.done` and `NewPassword.done`. -/
def passwordAccepted (classes : CharClasses) (password : Text) : Bool :=
  8 ≤ password.length && password.any classes.isUpper && password.any classes.isLower &&
    password.any classes.isDigit

/-- The checks of `Signup.done`. -/
def signupAccepted (classes : CharClasses) (username password email : Text) : Bool :=
  3 ≤ username.length && username.length ≤ 8 && passwordAccepted classes password &&
    email.contains (unit '@') && email.contains (unit '.')

/-- Whether the page that builds a request lets it pass. `Login.done` only looks for empty fields,
and the other pages check nothing. -/
def ClientRequest.accepted (classes : CharClasses) : ClientRequest → Bool
  | .sendSignup user password email => signupAccepted classes user password email
  | .sendNewPassword _ password _ _ => passwordAccepted classes password
  | .sendLogin user password => user ≠ [] && password ≠ []
  | .checkEmail .. | .checkCode .. | .sendInvite .. => true

/-! ### Characters that arrive -/

/-- The characters the server keeps. -/
def isServerChar (char : UInt16) : Bool := char < 0x80 && isKept char.toUInt8

section Fields

variable {field : Text}

/-- Server characters are ASCII. -/
theorem isAscii_of_serverChars (hfield : ∀ char ∈ field, isServerChar char) : IsAscii field := by
  intro char hchar
  have hserver := hfield char hchar
  simp only [isServerChar, Bool.and_eq_true, decide_eq_true_eq] at hserver
  exact hserver.1

/-- The bytes of a field of server characters are kept. -/
theorem kept_of_serverChars (hfield : ∀ char ∈ field, isServerChar char) :
    ∀ byte ∈ utf8GetBytes field, isKept byte := by
  rw [utf8GetBytes_of_ascii (isAscii_of_serverChars hfield)]
  intro byte hbyte
  obtain ⟨char, hchar, rfl⟩ := List.mem_map.mp hbyte
  have hserver := hfield char hchar
  simp only [isServerChar, Bool.and_eq_true] at hserver
  exact hserver.2

/-- A field whose bytes are kept consists of server characters. -/
theorem serverChars_of_kept (hfield : ∀ byte ∈ utf8GetBytes field, isKept byte) :
    ∀ char ∈ field, isServerChar char := by
  have hplain : ∀ byte, isKept byte = true →
      byte < 0x80 ∧ byte.toUInt16 ≠ unit '?' ∧ isServerChar byte.toUInt16 = true := by
    have hall : ∀ value : Fin 256, isKept (UInt8.ofFin value) = true →
        UInt8.ofFin value < 0x80 ∧ (UInt8.ofFin value).toUInt16 ≠ unit '?' ∧
          isServerChar (UInt8.ofFin value).toUInt16 = true := by decide +kernel
    exact fun byte ↦ hall byte.toFin
  -- read as ASCII, the field has no question mark, so it arrives unchanged
  have hreceived : ∀ char ∈ asReceived field, char ≠ unit '?' ∧ isServerChar char = true := by
    intro char hchar
    obtain ⟨byte, hbyte, rfl⟩ := List.mem_map.mp hchar
    obtain ⟨hsmall, hmark, hserver⟩ := hplain byte (hfield byte hbyte)
    rw [if_pos hsmall]
    exact ⟨hmark, hserver⟩
  have hmark : unit '?' ∉ asReceived field := fun hmem ↦ (hreceived _ hmem).1 rfl
  have hsame := ((garbled_asReceived field).eq_of_notMem hmark).2
  rw [hsame] at hreceived
  exact fun char hchar ↦ (hreceived char hchar).2

end Fields

/-! ### Requests on the wire -/

/-- The bytes of fields, each behind a colon. -/
theorem utf8GetBytes_flatMap (fields : List Text) :
    utf8GetBytes (fields.flatMap (colon :: ·)) =
      (fields.map utf8GetBytes).flatMap (seperationIdentifier :: ·) := by
  have hcolon : encodeUnit colon = [seperationIdentifier] := by decide
  induction fields with
  | nil => rfl
  | cons field fields ih =>
    have hcut : utf8GetBytes (field ++ fields.flatMap (colon :: ·)) =
        utf8GetBytes field ++ utf8GetBytes (fields.flatMap (colon :: ·)) := by
      cases fields with
      | nil => simp [utf8GetBytes]
      | cons next fields => exact utf8GetBytes_append_cons (by decide) _ _
    rw [List.flatMap_cons, List.cons_append, utf8GetBytes_cons_of_ascii (by decide), hcolon, hcut,
      ih]
    rfl

/-- The bytes of a request: its identifier and its encoded fields, each behind a separator. -/
theorem ClientRequest.datagram_eq (request : ClientRequest) :
    request.datagram = request.identifier.toUInt8 ::
      (request.fields.map utf8GetBytes).flatMap (seperationIdentifier :: ·) := by
  have hidentifier : request.identifier < 0x80 := by
    cases request <;> simp only [identifier] <;> decide
  rw [datagram, message_eq, utf8GetBytes_cons_of_ascii hidentifier,
    encodeUnit_of_ascii hidentifier, utf8GetBytes_flatMap]
  rfl

/-- The kind of request the server takes it for. -/
def ClientRequest.kind : ClientRequest → RequestKind
  | .sendSignup .. => .signup
  | .sendLogin .. => .login
  | .checkEmail .. => .mailCode
  | .checkCode .. => .codeCheck
  | .sendNewPassword .. => .newPass
  | .sendInvite .. => .session

/-- What the server receives of a request. -/
theorem eq_of_acceptClient {request : ClientRequest} {userInfo : Bytes}
    (hreceived : acceptClient request.datagram = some userInfo) :
    userInfo = request.identifier.toUInt8 ::
      ((request.fields.map utf8GetBytes).flatMap (seperationIdentifier :: ·)).takeWhile
        (· ≠ 0) := by
  have hidentifier : request.identifier.toUInt8 ≠ 0 := by
    cases request <;> simp only [ClientRequest.identifier] <;> decide
  rw [acceptClient, ClientRequest.datagram_eq] at hreceived
  split_ifs at hreceived
  rw [List.takeWhile_cons_of_pos (by simpa using hidentifier)] at hreceived
  exact (Option.some.inj hreceived).symm

/-- The server handles a request as the kind it was sent as. -/
theorem requestKind_of_acceptClient {request : ClientRequest} {userInfo : Bytes}
    (hreceived : acceptClient request.datagram = some userInfo) :
    requestKind userInfo = some request.kind := by
  rw [eq_of_acceptClient hreceived]
  cases request <;> rfl

/-! ### Requests that arrive -/

/-- The server reads from a received request the fields the client put in. -/
def Agrees (request : ClientRequest) (userInfo : Bytes) : Prop :=
  getDetails userInfo = request.fields.map utf8GetBytes

instance (request : ClientRequest) (userInfo : Bytes) : Decidable (Agrees request userInfo) := by
  unfold Agrees
  infer_instance

/-- The fields of a request are server characters. -/
def HasServerChars (request : ClientRequest) : Prop :=
  ∀ field ∈ request.fields, ∀ char ∈ field, isServerChar char

instance (request : ClientRequest) : Decidable (HasServerChars request) :=
  @List.decidableBAll _ _ (fun field ↦ List.decidableBAll _ field) request.fields

/-- The encoded fields of a request of server characters are kept by the server. -/
theorem kept_of_hasServerChars {request : ClientRequest} (hfields : HasServerChars request) :
    ∀ field ∈ request.fields.map utf8GetBytes, ∀ byte ∈ field, isKept byte := by
  intro bytes hbytes
  obtain ⟨field, hfield, rfl⟩ := List.mem_map.mp hbytes
  exact kept_of_serverChars (hfields field hfield)

/-- What the server reads from a received request of server characters. -/
theorem agrees_of_serverChars {request : ClientRequest} {userInfo : Bytes}
    (hreceived : acceptClient request.datagram = some userInfo)
    (hfields : HasServerChars request) : Agrees request userInfo := by
  have hkept := kept_of_hasServerChars hfields
  have hnonzero : ∀ byte ∈ (request.fields.map utf8GetBytes).flatMap (seperationIdentifier :: ·),
      byte ≠ 0 := by
    intro byte hbyte
    obtain ⟨field, hfield, hmem⟩ := List.mem_flatMap.mp hbyte
    rcases List.mem_cons.mp hmem with rfl | hmem
    · decide
    · rintro rfl
      exact absurd (hkept field hfield 0 hmem) (by decide)
  obtain ⟨first, others, hsplit⟩ : ∃ first others, request.fields = first :: others := by
    cases request <;> exact ⟨_, _, rfl⟩
  rw [Agrees, eq_of_acceptClient hreceived,
    List.takeWhile_eq_self_iff.mpr (by simpa using hnonzero)]
  rw [hsplit] at hkept ⊢
  exact detailsLoop_join (fun field hfield ↦ hkept field (List.mem_cons_of_mem _ hfield)) []
    (hkept _ (List.mem_cons_self ..))

/-- The server reads from a received request the fields the client put in exactly when all their
characters are ASCII letters, digits, `@` or `.`. -/
theorem agrees_iff (request : ClientRequest) (userInfo : Bytes)
    (hreceived : acceptClient request.datagram = some userInfo) :
    Agrees request userInfo ↔ HasServerChars request := by
  refine ⟨fun hagrees field hfield ↦ serverChars_of_kept ?_, agrees_of_serverChars hreceived⟩
  have hread : utf8GetBytes field ∈ getDetails userInfo := by
    rw [hagrees]
    exact List.mem_map_of_mem hfield
  exact kept_of_mem_getDetails hread

/-- Requests of server characters that the server reads alike are alike. -/
theorem fields_eq_of_getDetails_eq {request other : ClientRequest} {userInfo otherInfo : Bytes}
    (hreceived : acceptClient request.datagram = some userInfo)
    (hother : acceptClient other.datagram = some otherInfo) (hfields : HasServerChars request)
    (hotherFields : HasServerChars other) (hsame : getDetails userInfo = getDetails otherInfo) :
    request.fields = other.fields := by
  have hread : ∀ request : ClientRequest, HasServerChars request →
      (request.fields.map utf8GetBytes).map asciiGetString = request.fields := by
    intro request hfields
    rw [List.map_map]
    conv_rhs => rw [← List.map_id request.fields]
    exact List.map_congr_left fun field hfield ↦
      asciiGetString_utf8GetBytes (isAscii_of_serverChars (hfields field hfield))
  have hagrees := agrees_of_serverChars hreceived hfields
  have hotherAgrees := agrees_of_serverChars hother hotherFields
  rw [Agrees] at hagrees hotherAgrees
  rw [← hread request hfields, ← hread other hotherFields, ← hagrees, ← hotherAgrees, hsame]

/-- A signup of letters, digits, `@` and `.` arrives. -/
theorem agrees_plainSignup :
    Agrees (.sendSignup (str "bob") (str "Abcdefg1") (str "b@x.y"))
      (ascii "S:bob:Abcdefg1:b@x.y") :=
  (agrees_iff _ _ (by decide +kernel)).mpr (by decide +kernel)

/-- The signup page accepts a password with an exclamation mark, which the server drops: to it, the
password is the one without the mark, which the page also accepts. -/
theorem not_agrees_markedPassword :
    signupAccepted asciiClasses (str "bob") (str "Abcdefg1!") (str "b@x.y") = true ∧
      signupAccepted asciiClasses (str "bob") (str "Abcdefg1") (str "b@x.y") = true ∧
      ∃ userInfo otherInfo,
        acceptClient (ClientRequest.sendSignup (str "bob") (str "Abcdefg1!")
          (str "b@x.y")).datagram = some userInfo ∧
        acceptClient (ClientRequest.sendSignup (str "bob") (str "Abcdefg1")
          (str "b@x.y")).datagram = some otherInfo ∧
        ¬ Agrees (.sendSignup (str "bob") (str "Abcdefg1!") (str "b@x.y")) userInfo ∧
        getDetails userInfo = getDetails otherInfo :=
  ⟨by decide +kernel, by decide +kernel, ascii "S:bob:Abcdefg1!:b@x.y",
    ascii "S:bob:Abcdefg1:b@x.y", by decide +kernel, by decide +kernel, by decide +kernel,
    by decide +kernel⟩

end NovaIde.Protocol
