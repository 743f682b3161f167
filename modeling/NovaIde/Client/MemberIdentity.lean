import NovaIde.Client.PeerListener

/-!
# The identities a host hands out

`DelieverMemberInfo` writes the user counter and the message counter one behind the other, without
the separators of the comment above it, and counts both on. `ConfigureSession` takes the character
at index one for the identity and everything behind it for the largest message number. For the
first nine members the identity is that one digit and the rest is the number; the tenth is told
`I10500` and takes the identity of the first (`identities_allocated_iff`).
-/

set_option autoImplicit false
set_option relaxedAutoImplicit false

namespace NovaIde.Client

/-! ### The host's side -/

def MESSAGE_ID_GAP : ℤ := 50

/-- The counters of `SessionHost`. -/
structure HostCounters where
  lastUserID : ℤ := 1
  lastFirstMessageID : ℤ := 0
deriving DecidableEq, Repr

/-- The text `DelieverMemberInfo` builds. -/
def HostCounters.infoMessage (counters : HostCounters) : Text :=
  [INFO_IDENTIFIER] ++ intText counters.lastUserID ++
    intText (wrapInt32 (counters.lastFirstMessageID + MESSAGE_ID_GAP))

/-- `SessionHost.DelieverMemberInfo`: the datagram for the member, and the counters after it. -/
def HostCounters.delieverMemberInfo (counters : HostCounters) : Datagram × HostCounters :=
  (utf8GetBytes counters.infoMessage,
    { lastUserID := wrapInt32 (counters.lastUserID + 1)
      lastFirstMessageID := wrapInt32 (counters.lastFirstMessageID + MESSAGE_ID_GAP) })

/-- The counters of a host that has delivered information to so many members. -/
def countersAfter : ℕ → HostCounters
  | 0 => {}
  | delivered + 1 => (countersAfter delivered).delieverMemberInfo.2

/-- The message for the member with a number, counted from one. -/
def memberInfo (number : ℕ) : Text := (countersAfter (number - 1)).infoMessage

/-- A printed integer is ASCII. -/
theorem isAscii_intText (number : ℤ) : IsAscii (intText number) := by
  unfold intText
  split_ifs
  · exact List.forall_mem_cons.mpr ⟨by decide, isAscii_decimal _⟩
  · exact isAscii_decimal _

/-- A member's listener takes the datagram to `ConfigureSession` as it was written. -/
theorem p2pListener_delieverMemberInfo (peer : PeerState) (counters : HostCounters) :
    peer.p2pListener counters.delieverMemberInfo.1 =
      peer.configureSession counters.infoMessage := by
  have hascii : IsAscii counters.infoMessage :=
    isAscii_append.mpr ⟨isAscii_append.mpr ⟨by decide, isAscii_intText _⟩, isAscii_intText _⟩
  have hreceived : asciiGetString counters.delieverMemberInfo.1 = counters.infoMessage :=
    asReceived_of_ascii hascii
  have haction : listenerAction counters.delieverMemberInfo.1 =
      .configure counters.infoMessage := by
    rw [listenerAction, hreceived]
    rfl
  rw [PeerState.p2pListener, haction]

/-- As long as they do not overflow, the counters count the members and their message numbers. -/
theorem countersAfter_eq {delivered : ℕ} (hdelivered : 50 * delivered ≤ int32Max) :
    countersAfter delivered = ⟨delivered + 1, 50 * delivered⟩ := by
  induction delivered with
  | zero => rfl
  | succ delivered ih =>
    have hrange : int32Max = 2147483647 := rfl
    rw [countersAfter, ih (by omega)]
    simp only [HostCounters.delieverMemberInfo, MESSAGE_ID_GAP]
    rw [wrapInt32_of_range (by omega) (by omega), wrapInt32_of_range (by omega) (by omega)]
    push_cast
    exact congrArg (HostCounters.mk _) (by omega)

/-- The message for a member holds the member's number and the largest message number. -/
theorem memberInfo_eq {number : ℕ} (hpositive : 1 ≤ number)
    (hnumber : 50 * number ≤ int32Max) :
    memberInfo number = INFO_IDENTIFIER :: (decimal number ++ decimal (50 * number)) := by
  have hrange : int32Max = 2147483647 := rfl
  have huser : ((number - 1 : ℕ) : ℤ) + 1 = (number : ℕ) := by omega
  have hmessage : (50 : ℤ) * (number - 1 : ℕ) + 50 = (50 * number : ℕ) := by omega
  rw [memberInfo, countersAfter_eq (by omega), HostCounters.infoMessage, MESSAGE_ID_GAP, huser,
    hmessage, wrapInt32_of_range (by omega) (by omega), intText_natCast, intText_natCast]
  rfl

/-! ### The member's side -/

/-- A member takes the first digit of its number for its identity, and the other digits in front
of the largest message number for that number. -/
theorem configureSession_memberInfo (peer : PeerState) {number : ℕ} {digit : UInt16} {rest : Text}
    (hpositive : 1 ≤ number) (hnumber : 50 * number ≤ int32Max)
    (hdigits : decimal number = digit :: rest) :
    peer.configureSession (memberInfo number) =
      match parseInt (rest ++ decimal (50 * number)) with
      | .error fault => .error (.parse fault)
      | .ok maxMessageID => .ok { peer with memberID := digit, maxMessageID } := by
  rw [memberInfo_eq hpositive hnumber, hdigits]
  rfl

/-- The identity of the members with a one-digit number. -/
def digitIdentity (number : ℕ) : UInt16 := unit (Nat.digitChar number)

theorem decimal_of_lt_ten {number : ℕ} (hnumber : number < 10) :
    decimal number = [digitIdentity number] := by
  rw [decimal, Nat.toDigits_of_lt_base hnumber]
  rfl

/-- A member with a one-digit number is configured as the host counts. -/
theorem configureSession_of_lt_ten (peer : PeerState) {number : ℕ} (hpositive : 1 ≤ number)
    (hnumber : number < 10) :
    peer.configureSession (memberInfo number) =
      .ok { peer with memberID := digitIdentity number, maxMessageID := 50 * number } := by
  have hrange : int32Max = 2147483647 := rfl
  rw [configureSession_memberInfo peer hpositive (by omega) (decimal_of_lt_ten hnumber),
    List.nil_append, parseInt_decimal (by omega)]
  push_cast
  rfl

/-- The tenth member takes the identity of the first. -/
theorem configureSession_ten (peer : PeerState) :
    peer.configureSession (memberInfo 10) =
      .ok { peer with memberID := digitIdentity 1, maxMessageID := 500 } := by
  have hparsed : parseInt (str "0" ++ decimal (50 * 10)) = .ok 500 := by decide
  rw [configureSession_memberInfo peer (by decide) (by decide)
    (show decimal 10 = digitIdentity 1 :: str "0" by decide), hparsed]

/-! ### Allocation -/

/-- The message numbers of a member. -/
def PeerState.window (peer : PeerState) : Set ℤ :=
  {messageID | peer.maxMessageID - MESSAGE_ID_GAP < messageID ∧ messageID ≤ peer.maxMessageID}

/-- The first so many members have configured themselves with the messages for them, and got
message numbers of their own and identities of their own. -/
structure IdentitiesAllocated (members : ℕ) (joining joined : ℕ → PeerState) : Prop where
  configured : ∀ number ∈ Set.Icc 1 members,
    (joining number).configureSession (memberInfo number) = .ok (joined number)
  maxMessageID : ∀ number ∈ Set.Icc 1 members, (joined number).maxMessageID = 50 * number
  not_host : ∀ number ∈ Set.Icc 1 members, (joined number).memberID ≠ unit '0'
  distinct : ∀ first ∈ Set.Icc 1 members, ∀ second ∈ Set.Icc 1 members, first ≠ second →
    (joined first).memberID ≠ (joined second).memberID
  disjoint : ∀ first ∈ Set.Icc 1 members, ∀ second ∈ Set.Icc 1 members, first ≠ second →
    ∀ messageID ∈ (joined first).window, messageID ∉ (joined second).window

theorem digitIdentity_injective {first second : ℕ} (hfirst : first < 10) (hsecond : second < 10)
    (heq : digitIdentity first = digitIdentity second) : first = second := by
  have hall : ∀ first < 10, ∀ second < 10,
      digitIdentity first = digitIdentity second → first = second := by
    decide
  exact hall first hfirst second hsecond heq

/-- Ten members do not get identities of their own. -/
theorem IdentitiesAllocated.le_nine {members : ℕ} {joining joined : ℕ → PeerState}
    (hallocated : IdentitiesAllocated members joining joined) : members ≤ 9 := by
  by_contra hmore
  have hfirst : 1 ∈ Set.Icc 1 members := ⟨le_rfl, by omega⟩
  have htenth : 10 ∈ Set.Icc 1 members := ⟨by decide, by omega⟩
  have hone := hallocated.configured 1 hfirst
  have hten := hallocated.configured 10 htenth
  rw [configureSession_of_lt_ten _ le_rfl (by decide), Except.ok.injEq] at hone
  rw [configureSession_ten, Except.ok.injEq] at hten
  refine hallocated.distinct 1 hfirst 10 htenth (by decide) ?_
  rw [← hone, ← hten]

/-- A host and its members answer `GetID` differently. -/
theorem IdentitiesAllocated.getID_ne {members number : ℕ} {joining joined : ℕ → PeerState}
    (hallocated : IdentitiesAllocated members joining joined) (hnumber : number ∈ Set.Icc 1 members)
    {host : PeerState} (hhost : host.getHost = true) (hmember : (joined number).getHost = false) :
    host.getID ≠ (joined number).getID := by
  rw [PeerState.getID, PeerState.getID, if_pos hhost, hmember, if_neg Bool.false_ne_true]
  exact (hallocated.not_host number hnumber).symm

/-- Message numbers and identities are allocated as counted exactly to nine members. -/
theorem identities_allocated_iff (members : ℕ) (joining : ℕ → PeerState) :
    (∃ joined, IdentitiesAllocated members joining joined) ↔ members ≤ 9 := by
  constructor
  · exact fun ⟨_, hallocated⟩ ↦ hallocated.le_nine
  · intro hnine
    refine ⟨fun number ↦ { joining number with
      memberID := digitIdentity number, maxMessageID := 50 * number }, ?_⟩
    constructor
    · exact fun number hnumber ↦
        configureSession_of_lt_ten _ hnumber.1 (Nat.lt_succ_of_le (hnumber.2.trans hnine))
    · exact fun _ _ ↦ rfl
    · intro number hnumber hhost
      have hzero : number = 0 :=
        digitIdentity_injective (Nat.lt_succ_of_le (hnumber.2.trans hnine)) (by decide) hhost
      exact absurd hnumber.1 (by omega)
    · exact fun first hfirst second hsecond hne heq ↦
        hne (digitIdentity_injective (Nat.lt_succ_of_le (hfirst.2.trans hnine))
          (Nat.lt_succ_of_le (hsecond.2.trans hnine)) heq)
    · intro first _ second _ hne messageID hfirst hsecond
      refine hne ?_
      simp only [PeerState.window, MESSAGE_ID_GAP, Set.mem_ofPred_eq] at hfirst hsecond
      omega

/-- The tenth member of a host has the identity of the first. -/
theorem not_identities_allocated :
    ¬ ∀ (members : ℕ) (joining : ℕ → PeerState),
      ∃ joined, IdentitiesAllocated members joining joined := by
  intro hall
  obtain ⟨joined, hallocated⟩ := hall 10 fun _ ↦ {}
  exact absurd hallocated.le_nine (by decide)

end NovaIde.Client
