import NovaIde.Client.AnnouncedEdits

/-!
# Replaying a single writer

The host edits and announces every edit; a member that makes no edit of its own applies the
messages in order. What the host announces is a `Script`, the edits and their messages one by one
from its first text to its last, and the member is led along the script as long as every message
finds its caret fitting.

`replay_iff` follows a whole session: the member ends with the host's text exactly when every
update found the caret fitting.
-/

set_option autoImplicit false
set_option relaxedAutoImplicit false

namespace NovaIde.Client

open Foundation

/-! ### The host's session -/

/-- The actions of the host's user one after the other. -/
def Ide.actAll (ide : Ide) (actions : List UserAction) : Ide := actions.foldl Ide.act ide

/-- The edits the actions make. -/
def Ide.edits : Ide → List UserAction → List Edit
  | _, [] => []
  | ide, action :: rest => (ide.editOf action).toList ++ (ide.act action).edits rest

/-- Every action of a list is allowed when its turn comes. -/
def Ide.AllowsAll : Ide → List UserAction → Prop
  | _, [] => True
  | ide, action :: rest => ide.Allows action ∧ (ide.act action).AllowsAll rest

instance decidableAllowsAll : ∀ (ide : Ide) (actions : List UserAction),
    Decidable (ide.AllowsAll actions)
  | _, [] => inferInstanceAs (Decidable True)
  | ide, action :: rest =>
    have := decidableAllowsAll (ide.act action) rest
    inferInstanceAs (Decidable (ide.Allows action ∧ (ide.act action).AllowsAll rest))

/-- An editor in a session that announces the changes of its text. -/
structure Announcing (ide : Ide) : Prop where
  announces : ide.announces = true
  caret : ide.caret ≤ ide.text.length
  length : ide.text.length ≤ maxLength

/-- The edits and the messages that announce them, one by one, from one text to another. -/
inductive Script : Text → List Edit → List Text → Text → Prop
  | finished {text : Text} : Script text [] [] text
  | next {text final : Text} {edit : Edit} {message : Text} {edits : List Edit}
      {messages : List Text} (hrange : edit.offset + edit.removed ≤ text.length)
      (hlength : (edit.apply text).length ≤ maxLength) (hmessage : Announcement edit message)
      (hrest : Script (edit.apply text) edits messages final) :
      Script text (edit :: edits) (message :: messages) final

section Host

variable {ide : Ide}

/-- An allowed action keeps the editor announcing. -/
theorem Announcing.act (hide : Announcing ide) {action : UserAction} (hallows : ide.Allows action) :
    Announcing (ide.act action) := by
  obtain ⟨hannounces, hcaret, hlength⟩ := hide
  cases hedit : ide.editOf action with
  | none =>
    obtain ⟨caret, flag, hinside, hact⟩ := act_of_editOf_eq_none hedit
    rw [hact]
    exact ⟨hannounces, hinside hcaret, hlength⟩
  | some edit =>
    obtain ⟨message, hemits⟩ := emits_of_editOf hannounces hcaret hallows hedit
    exact ⟨hemits.announces, hemits.caret, by rw [hemits.text]; exact hemits.length⟩

/-- The announced messages follow a script from the host's text to the one it ends with. -/
theorem script_of_allowsAll (actions : List UserAction) :
    ∀ {ide : Ide}, Announcing ide → ide.AllowsAll actions →
      ∃ messages, Script ide.text (ide.edits actions) messages (ide.actAll actions).text ∧
        (ide.actAll actions).announced = ide.announced ++ messages := by
  induction actions with
  | nil => exact fun _ _ ↦ ⟨[], .finished, (List.append_nil _).symm⟩
  | cons action rest ih =>
    intro ide hide hallows
    obtain ⟨messages, hscript, hannounced⟩ := ih (hide.act hallows.1) hallows.2
    rw [Ide.actAll, List.foldl_cons, ← Ide.actAll, hannounced, Ide.edits]
    cases hedit : ide.editOf action with
    | none =>
      obtain ⟨caret, flag, -, hact⟩ := act_of_editOf_eq_none hedit
      have htext : (ide.act action).text = ide.text := by rw [hact]
      have hkept : (ide.act action).announced = ide.announced := by rw [hact]
      rw [htext] at hscript
      rw [hkept]
      exact ⟨messages, hscript, rfl⟩
    | some edit =>
      obtain ⟨message, hemits⟩ := emits_of_editOf hide.announces hide.caret hallows.1 hedit
      rw [hemits.text] at hscript
      refine ⟨message :: messages, .next hemits.range hemits.length hemits.announcement hscript, ?_⟩
      simp [hemits.announced]

end Host

/-! ### The member -/

/-- A message as it reaches the member: where the member put its caret since the last one, if it
did, the edit the message announces and the message. -/
structure Delivery where
  placed : Option ℕ
  edit : Edit
  message : Text
deriving DecidableEq, Repr

/-- The member's editor when the message arrives. -/
def Delivery.arrive (delivery : Delivery) (ide : Ide) : Ide :=
  delivery.placed.elim ide ide.placeCaret

/-- The member moves its caret and applies the messages, one after the other. -/
def replay : List Delivery → UiAction Unit
  | [] => pure ()
  | delivery :: rest => do
    modify delivery.arrive
    textUpdaterPass delivery.message
    replay rest

/-- Whether every message finds the member's caret fitting. -/
def CaretsFit : Ide → List Delivery → Prop
  | _, [] => True
  | ide, delivery :: rest =>
    delivery.edit.Fits (delivery.arrive ide) ∧
      match (textUpdaterPass delivery.message).run (delivery.arrive ide) with
      | .ok () ide' => CaretsFit ide' rest
      | .error _ _ => True

instance decidableCaretFits (text : Text) (caret offset removed : ℕ) :
    Decidable (CaretFits text caret offset removed) :=
  inferInstanceAs (Decidable (text.length = 1 ∨ caret ≤ offset ∨ removed ≤ caret))

instance decidableCaretsFit : ∀ (ide : Ide) (deliveries : List Delivery),
    Decidable (CaretsFit ide deliveries)
  | _, [] => inferInstanceAs (Decidable True)
  | ide, delivery :: rest =>
    have : Decidable (delivery.edit.Fits (delivery.arrive ide)) :=
      inferInstanceAs (Decidable (_ ∨ CaretFits _ _ _ _))
    have : Decidable (match (textUpdaterPass delivery.message).run (delivery.arrive ide) with
        | .ok () ide' => CaretsFit ide' rest
        | .error _ _ => True) :=
      match (textUpdaterPass delivery.message).run (delivery.arrive ide) with
      | .ok () ide' => decidableCaretsFit ide' rest
      | .error _ _ => inferInstanceAs (Decidable True)
    inferInstanceAs (Decidable (_ ∧ _))

theorem run_replay_cons (delivery : Delivery) (rest : List Delivery) (ide : Ide) :
    (replay (delivery :: rest)).run ide =
      match (textUpdaterPass delivery.message).run (delivery.arrive ide) with
      | .ok () ide' => (replay rest).run ide'
      | .error fault ide' => .error fault ide' := by
  simp only [replay, EStateM.run_bind, EStateM.run_modify]
  cases (textUpdaterPass delivery.message).run (delivery.arrive ide) <;> rfl

/-- Moving the caret leaves the text and the tokens alone, and the caret inside the text. -/
theorem arrive_frame (delivery : Delivery) {ide : Ide} (hcaret : ide.caret ≤ ide.text.length) :
    (delivery.arrive ide).text = ide.text ∧ (delivery.arrive ide).tokens = ide.tokens ∧
      (delivery.arrive ide).caret ≤ (delivery.arrive ide).text.length := by
  cases hplaced : delivery.placed with
  | none => simpa [Delivery.arrive, hplaced] using hcaret
  | some position => simp [Delivery.arrive, hplaced, Ide.placeCaret]

/-- A member whose carets fit is led along the script; any other member stops at an assignment of
its caret. -/
theorem run_replay (deliveries : List Delivery) :
    ∀ {final : Text} {ide : Ide}, ide.tokens = 0 → ide.caret ≤ ide.text.length →
      ide.text.length ≤ maxLength →
      Script ide.text (deliveries.map Delivery.edit) (deliveries.map Delivery.message) final →
        (CaretsFit ide deliveries ∧
          ∃ ide', (replay deliveries).run ide = .ok () ide' ∧ ide'.text = final) ∨
        ¬ CaretsFit ide deliveries ∧
          ∃ ide', (replay deliveries).run ide = .error .caretRange ide' := by
  induction deliveries with
  | nil =>
    intro final ide _ _ _ hscript
    cases hscript
    exact Or.inl ⟨trivial, ide, rfl, rfl⟩
  | cons delivery rest ih =>
    intro final ide htokens hcaret hmax hscript
    obtain ⟨htext', htokens', hcaret'⟩ := arrive_frame delivery hcaret
    rw [run_replay_cons]
    cases hscript with
    | next hrange hlength hmessage hrest =>
      rw [← htext'] at hrange hlength hmax hrest
      rcases run_textUpdaterPass hmessage (htokens'.trans htokens) hcaret' hrange hmax hlength with
        ⟨hfits, position, hpass⟩ | ⟨hfits, ide', hpass⟩
      · rw [hpass]
        have hcontinue := ih
          (show (({ delivery.arrive ide with
            text := delivery.edit.apply (delivery.arrive ide).text } : Ide).placeCaret
              position).tokens = 0 from htokens'.trans htokens)
          (Nat.min_le_right _ _) hlength hrest
        rcases hcontinue with ⟨hcarets, hend⟩ | ⟨hcarets, hfault⟩
        · refine Or.inl ⟨⟨hfits, ?_⟩, hend⟩
          rw [hpass]
          exact hcarets
        · refine Or.inr ⟨fun hall ↦ hcarets ?_, hfault⟩
          have hrest := hall.2
          rw [hpass] at hrest
          exact hrest
      · rw [hpass]
        exact Or.inr ⟨fun hall ↦ hfits hall.1, ide', rfl⟩

/-- A member that applies the messages of the host's edits ends with the host's text exactly when
each message finds its caret fitting: the edit removes nothing, or the member's text has length one,
or the caret is not behind the offset, or it is at least as far from the start of the text as the
removed range is long. When it does not end so, it is an assignment of the caret that threw, never
an insertion or a removal. -/
theorem replay_iff {host member : Ide} {actions : List UserAction} {deliveries : List Delivery}
    (hhost : Announcing host) (hactions : host.AllowsAll actions)
    (hedits : deliveries.map Delivery.edit = host.edits actions)
    (hmessages : (host.actAll actions).announced =
      host.announced ++ deliveries.map Delivery.message)
    (htext : member.text = host.text) (htokens : member.tokens = 0)
    (hcaret : member.caret ≤ member.text.length) :
    ((∃ member', (replay deliveries).run member = .ok () member' ∧
        member'.text = (host.actAll actions).text) ↔ CaretsFit member deliveries) ∧
      ∀ fault member', (replay deliveries).run member = .error fault member' →
        fault = .caretRange := by
  obtain ⟨messages, hscript, hannounced⟩ := script_of_allowsAll actions hhost hactions
  have hsame : messages = deliveries.map Delivery.message :=
    List.append_cancel_left (hannounced.symm.trans hmessages)
  rw [hsame, ← hedits, ← htext] at hscript
  rcases run_replay deliveries htokens hcaret (by rw [htext]; exact hhost.length) hscript with
    ⟨hcarets, member', hrun, hfinal⟩ | ⟨hcarets, member', hrun⟩
  · refine ⟨iff_of_true ⟨member', hrun, hfinal⟩ hcarets, fun fault other hfault ↦ ?_⟩
    rw [hrun] at hfault
    cases hfault
  · refine ⟨iff_of_false ?_ hcarets, fun fault other hfault ↦ ?_⟩
    · rintro ⟨other, hother, -⟩
      rw [hrun] at hother
      cases hother
    · rw [hrun] at hfault
      cases hfault
      rfl

/-- A session of two insertions, one of them by Enter, a deletion and a replacement, replayed from
carets that fit. -/
theorem replay_session :
    ∃ member', (replay
      [⟨none, ⟨2, 0, str "c:"⟩, str "+:length:2:offset:2:text:c:"⟩,
        ⟨some 0, ⟨4, 0, [newline]⟩, str "+:length:0:offset:4:text:\n"⟩,
        ⟨none, ⟨4, 1, []⟩, str "-:length:0:offset:4:text:1"⟩,
        ⟨some 2, ⟨0, 2, str "x"⟩, str "=:length:2:offset:0:text:x"⟩]).run
          { text := str "ab", hosting := false } = .ok () member' ∧
      member'.text = (({ text := str "ab", sessionStarted := true } : Ide).actAll
        [.makeEdit ⟨2, 0, str "c:"⟩, .pressEnter, .pressBack, .makeEdit ⟨4, 1, []⟩,
          .makeEdit ⟨0, 2, str "x"⟩]).text := by
  refine (And.left (replay_iff ⟨?_, ?_, ?_⟩ ?_ ?_ ?_ ?_ ?_ ?_)).mpr ?_
  all_goals decide +kernel

/-- A caret inside a range the host replaces stops the member between the two halves. -/
theorem not_replay :
    ∃ (host member : Ide) (actions : List UserAction) (deliveries : List Delivery),
      Announcing host ∧ host.AllowsAll actions ∧
      deliveries.map Delivery.edit = host.edits actions ∧
      (host.actAll actions).announced = host.announced ++ deliveries.map Delivery.message ∧
      member.text = host.text ∧ member.tokens = 0 ∧ member.caret ≤ member.text.length ∧
      ∀ member', (replay deliveries).run member ≠ .ok () member' := by
  refine ⟨{ text := str "abc", sessionStarted := true },
    { text := str "abc", caret := 1, hosting := false }, [.makeEdit ⟨0, 3, str "x"⟩],
    [⟨none, ⟨0, 3, str "x"⟩, str "=:length:3:offset:0:text:x"⟩],
    ⟨by decide, by decide, by decide +kernel⟩, by decide +kernel, by decide +kernel,
    by decide +kernel, rfl, rfl, by decide, ?_⟩
  have hstops : ∀ result : EStateM.Result Fault Ide Unit,
      (match result with | .ok _ _ => false | .error _ _ => true) = true →
        ∀ member', result ≠ .ok () member' := by
    rintro _ hresult member' rfl
    simp at hresult
  exact hstops _ (by decide +kernel)

end NovaIde.Client
