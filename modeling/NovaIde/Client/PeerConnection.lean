import NovaIde.Client.UpdateMessage

/-!
# Connecting to a peer

The server answers an invite with `IP:PORT:TYPE`. `ConnectP2P` takes the three parts apart by
counting colons, reads the port with `int.Parse` and hands both to the host or to the member, which
read the address with `IPAddress.Parse`. The parts of the message hold no colon, so the only
addresses that reach `IPAddress.Parse` are of the fourth version.
-/

set_option autoImplicit false
set_option relaxedAutoImplicit false

namespace NovaIde.Client

/-! ### Addresses -/

/-- The value of a digit in the bases an address may be written in. -/
def digitValue (char : UInt16) : Option ℕ :=
  if unit '0' ≤ char && char ≤ unit '9' then some (char.toNat - (unit '0').toNat)
  else if unit 'a' ≤ char && char ≤ unit 'f' then some (char.toNat + 10 - (unit 'a').toNat)
  else if unit 'A' ≤ char && char ≤ unit 'F' then some (char.toNat + 10 - (unit 'A').toNat)
  else none

/-- The number that digits of a base continue. -/
def numberFrom (base : ℕ) (value : ℕ) : Text → Option ℕ
  | [] => some value
  | char :: rest =>
    match digitValue char with
    | some digit => if digit < base then numberFrom base (value * base + digit) rest else none
    | none => none

/-- One section of an address: decimal, octal after a `0`, or hexadecimal after `0x`. -/
def addressSection : Text → Option ℕ
  | [] => none
  | char :: rest =>
    if char = unit '0' then
      match rest with
      | [] => some 0
      | mark :: digits =>
        if mark = unit 'x' ∨ mark = unit 'X' then
          if digits = [] then none else numberFrom 16 0 digits
        else numberFrom 8 0 (mark :: digits)
    else numberFrom 10 0 (char :: rest)

/-- The value of an address with one to four sections: every section but the last is one byte, and
the last one fills the bytes that remain. -/
def addressOfSections : List ℕ → Option ℕ
  | [last] => if last ≤ 0xFFFFFFFF then some last else none
  | [first, last] =>
    if first ≤ 0xFF ∧ last ≤ 0xFFFFFF then some (first * 0x1000000 + last) else none
  | [first, second, last] =>
    if first ≤ 0xFF ∧ second ≤ 0xFF ∧ last ≤ 0xFFFF then
      some (first * 0x1000000 + second * 0x10000 + last)
    else none
  | [first, second, third, last] =>
    if first ≤ 0xFF ∧ second ≤ 0xFF ∧ third ≤ 0xFF ∧ last ≤ 0xFF then
      some (first * 0x1000000 + second * 0x10000 + third * 0x100 + last)
    else none
  | _ => none

/-- `IPAddress.Parse` of a text without a colon: the value of the address. -/
def ipAddressParse (ipString : Text) : Option ℕ :=
  ((ipString.splitOn (unit '.')).mapM addressSection).bind addressOfSections

/-- `IPEndPoint`: the value of an address and a port. -/
structure IPEndPoint where
  address : ℕ
  port : ℕ
deriving DecidableEq, Repr

/-- The ways connection details can stop `ConnectP2P`. -/
inductive ConnectFault
  /-- the exceptions of `int.Parse` -/
  | port (fault : Fault)
  /-- `FormatException` of `IPAddress.Parse` -/
  | address
  /-- `ArgumentOutOfRangeException` of the constructor of `IPEndPoint` -/
  | portRange
deriving DecidableEq, Repr

/-- `new IPEndPoint(IPAddress.Parse(ip), port)`. -/
def ipEndPoint (ip : Text) (port : ℤ) : Except ConnectFault IPEndPoint :=
  match ipAddressParse ip with
  | none => .error .address
  | some address =>
    if 0 ≤ port ∧ port ≤ 0xFFFF then .ok ⟨address, port.toNat⟩ else .error .portRange

/-! ### The communicator -/

/-- The part of `P2PCommunicator` that decides whom it talks to: its role, the endpoint list of its
`SessionHost` and the `HostIPEP` of its `SessionMember`, which is null until it is set. -/
structure P2PCommunicator where
  hostFlag : Bool := true
  ip : Text := []
  port : ℤ := 0
  epList : List IPEndPoint := []
  hostIPEP : Option IPEndPoint := none
deriving DecidableEq, Repr

/-- `SessionHost.AddIPEP`. -/
def P2PCommunicator.addIPEP (communicator : P2PCommunicator) (ip : Text) (port : ℤ) :
    Except ConnectFault P2PCommunicator := do
  let endpoint ← ipEndPoint ip port
  return { communicator with epList := communicator.epList ++ [endpoint] }

/-- `SessionMember.UpdateHostIPEP`. -/
def P2PCommunicator.updateHostIPEP (communicator : P2PCommunicator) (ip : Text) (port : ℤ) :
    Except ConnectFault P2PCommunicator := do
  let endpoint ← ipEndPoint ip port
  return { communicator with hostIPEP := some endpoint }

def HOST_IDENTIFIER : Text := str "H"

def IP : ℕ := 0
def PORT : ℕ := 1
def TYPE : ℕ := 2

/-- The variables of the loop of `ConnectP2P`. -/
structure ConnectionDetails where
  ip : Text := []
  tempPort : Text := []
  type : Text := []
  parser : ℕ := 0
deriving DecidableEq, Repr

/-- The body of the loop of `ConnectP2P`. -/
def connectionStep (parts : ConnectionDetails) (char : UInt16) : ConnectionDetails :=
  if char ≠ colon ∧ parts.parser = IP then { parts with ip := parts.ip ++ [char] }
  else if char ≠ colon ∧ parts.parser = PORT then
    { parts with tempPort := parts.tempPort ++ [char] }
  else if char ≠ colon ∧ parts.parser = TYPE then { parts with type := parts.type ++ [char] }
  else if char = colon then { parts with parser := parts.parser + 1 }
  else parts

/-- The loop of `ConnectP2P`. -/
def connectionDetails (details : Text) : ConnectionDetails := details.foldl connectionStep {}

/-- `P2PCommunicator.ConnectP2P`. -/
def P2PCommunicator.connectP2P (communicator : P2PCommunicator) (details : Text) :
    Except ConnectFault P2PCommunicator :=
  let parts := connectionDetails details
  match parseInt parts.tempPort with
  | .error fault => .error (.port fault)
  | .ok port =>
    let located := { communicator with ip := parts.ip, port }
    if parts.type = HOST_IDENTIFIER then located.addIPEP parts.ip port
    else { located with hostFlag := false }.updateHostIPEP parts.ip port

/-! ### What a well-formed message does -/

/-- The fields after a chunk without a colon has been read into the current one. -/
def ConnectionDetails.append (parts : ConnectionDetails) (chunk : Text) : ConnectionDetails :=
  if parts.parser = IP then { parts with ip := parts.ip ++ chunk }
  else if parts.parser = PORT then { parts with tempPort := parts.tempPort ++ chunk }
  else if parts.parser = TYPE then { parts with type := parts.type ++ chunk }
  else parts

/-- A chunk without a colon is appended to the current field. -/
theorem foldl_connectionStep_chunk {chunk : Text} (hchunk : colon ∉ chunk) :
    ∀ parts : ConnectionDetails, chunk.foldl connectionStep parts = parts.append chunk := by
  induction chunk with
  | nil =>
    intro parts
    simp [ConnectionDetails.append]
  | cons char rest ih =>
    intro parts
    have hchar : char ≠ colon := fun h ↦ hchunk (by simp [h])
    have hrest : colon ∉ rest := fun h ↦ hchunk (by simp [h])
    have hstep : connectionStep parts char = parts.append [char] := by
      simp [connectionStep, ConnectionDetails.append, hchar]
    have hkept : (parts.append [char]).parser = parts.parser := by
      unfold ConnectionDetails.append
      split_ifs <;> rfl
    rw [List.foldl_cons, hstep, ih hrest]
    unfold ConnectionDetails.append
    split_ifs <;> simp_all

/-- A colon starts the next field. -/
theorem connectionStep_colon (parts : ConnectionDetails) :
    connectionStep parts colon = { parts with parser := parts.parser + 1 } := by
  simp [connectionStep]

/-- The loop takes three parts without colons apart again. -/
theorem connectionDetails_join {ip port type : Text} (hip : colon ∉ ip) (hport : colon ∉ port)
    (htype : colon ∉ type) :
    connectionDetails (ip ++ str ":" ++ port ++ str ":" ++ type) = ⟨ip, port, type, 2⟩ := by
  have hseparator : str ":" = [colon] := rfl
  simp only [connectionDetails, hseparator, List.foldl_append, foldl_connectionStep_chunk hip,
    foldl_connectionStep_chunk hport, foldl_connectionStep_chunk htype, List.foldl_cons,
    List.foldl_nil, connectionStep_colon]
  simp [ConnectionDetails.append, IP, PORT, TYPE]

/-- What `ConnectP2P` does with details whose parts hold no colon, whose port is a number that fits
and whose address has a value: the host adds the endpoint, the member takes it for its host's. -/
theorem connectP2P_join {communicator : P2PCommunicator} {ip type : Text} {port address : ℕ}
    (hip : colon ∉ ip) (htype : colon ∉ type) (hport : port ≤ 0xFFFF)
    (haddress : ipAddressParse ip = some address) :
    communicator.connectP2P (ip ++ str ":" ++ decimal port ++ str ":" ++ type) =
      .ok (if type = HOST_IDENTIFIER then
        { communicator with
          ip := ip, port := port, epList := communicator.epList ++ [⟨address, port⟩] }
      else
        { communicator with
          ip := ip, port := port, hostFlag := false, hostIPEP := some ⟨address, port⟩ }) := by
  have hendpoint : ipEndPoint ip (port : ℤ) = .ok ⟨address, port⟩ := by
    have hrange : (0 : ℤ) ≤ port ∧ (port : ℤ) ≤ 0xFFFF := by omega
    simp only [ipEndPoint, haddress, hrange, and_self, if_true, Int.toNat_natCast]
  have hparsed : parseInt (decimal port) = .ok (port : ℤ) :=
    parseInt_decimal (by unfold int32Max; omega)
  simp only [P2PCommunicator.connectP2P, connectionDetails_join hip (colon_notMem_decimal port)
    htype, hparsed]
  split_ifs
  · simp [P2PCommunicator.addIPEP, hendpoint, bind, Except.bind, pure, Except.pure]
  · simp [P2PCommunicator.updateHostIPEP, hendpoint, bind, Except.bind, pure, Except.pure]

/-- A byte printed in decimal is a section with its value. -/
theorem addressSection_decimal (octet : UInt8) :
    addressSection (decimal octet.toNat) = some octet.toNat := by
  have hall : ∀ number < 256, addressSection (decimal number) = some number := by
    decide +kernel
  exact hall _ octet.toNat_lt

/-- A number is printed without dots. -/
theorem dot_notMem_decimal (number : ℕ) : unit '.' ∉ decimal number := by
  intro hdot
  have hdigit := isDigitUnit_of_mem_decimal hdot
  revert hdigit
  decide

/-- Four bytes printed with dots between them are read as an address. -/
theorem ipAddressParse_dotted (first second third fourth : UInt8) :
    ipAddressParse (decimal first.toNat ++ str "." ++ decimal second.toNat ++ str "." ++
        decimal third.toNat ++ str "." ++ decimal fourth.toNat) =
      some (first.toNat * 0x1000000 + second.toNat * 0x10000 + third.toNat * 0x100 +
        fourth.toNat) := by
  have hdot : str "." = [unit '.'] := rfl
  have hsections : (decimal first.toNat ++ str "." ++ decimal second.toNat ++ str "." ++
      decimal third.toNat ++ str "." ++ decimal fourth.toNat).splitOn (unit '.') =
        [decimal first.toNat, decimal second.toNat, decimal third.toNat, decimal fourth.toNat] := by
    simp only [hdot, List.append_assoc, List.cons_append, List.nil_append]
    rw [List.splitOn_append_cons_self_of_not_mem (dot_notMem_decimal _),
      List.splitOn_append_cons_self_of_not_mem (dot_notMem_decimal _),
      List.splitOn_append_cons_self_of_not_mem (dot_notMem_decimal _),
      List.splitOn_eq_singleton (dot_notMem_decimal _)]
  have hbyte : ∀ octet : UInt8, octet.toNat ≤ 0xFF := fun octet ↦
    Nat.le_of_lt_succ octet.toNat_lt
  rw [ipAddressParse, hsections]
  simp only [List.mapM_cons, List.mapM_nil, addressSection_decimal, Option.pure_def,
    Option.bind_eq_bind, Option.bind_some, addressOfSections]
  exact if_pos ⟨hbyte first, hbyte second, hbyte third, hbyte fourth⟩

end NovaIde.Client
