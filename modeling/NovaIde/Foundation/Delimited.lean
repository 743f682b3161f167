import Mathlib.Data.List.Infix

/-!
# Texts with a separator of several characters

`splitSeparator separator text` cuts a text at the occurrences of a separator, from the left and
without overlaps. A piece is `Fresh` when the separator, put behind it, occurs at the end and
nowhere before. Every text is made of fresh pieces, each followed by the separator, and a last piece
that does not hold it (`exists_pieces`), and these are the pieces the loop finds
(`splitSeparator_join`), so no piece holds the separator (`infix_of_mem_splitSeparator`).

For a separator that repeats one character, a piece is fresh when it neither holds the separator nor
ends with that character (`fresh_replicate_iff`).
-/

set_option autoImplicit false
set_option relaxedAutoImplicit false

namespace NovaIde.Foundation

variable {α : Type*} [DecidableEq α]

/-- The loop of `splitSeparator`, which skips the rest of a separator that it has just seen. -/
def splitLoop (separator : List α) : ℕ → List α → List (List α)
  | _, [] => [[]]
  | skip + 1, _ :: rest => splitLoop separator skip rest
  | 0, char :: rest =>
    if separator <+: char :: rest then [] :: splitLoop separator (separator.length - 1) rest
    else (splitLoop separator 0 rest).modifyHead (char :: ·)

/-- The pieces of a text between the occurrences of a separator, which are taken from the left. -/
def splitSeparator (separator text : List α) : List (List α) := splitLoop separator 0 text

/-- A piece that holds the separator, when it follows, only at its end. -/
def Fresh (separator piece : List α) : Prop :=
  ∀ before after, piece ++ separator = before ++ separator ++ after → after = []

section Split

variable {separator text piece rest : List α}

/-- Skipping characters is dropping them. -/
theorem splitLoop_eq_drop (separator : List α) :
    ∀ (skip : ℕ) (text : List α),
      splitLoop separator skip text = splitSeparator separator (text.drop skip) := by
  intro skip
  induction skip with
  | zero => exact fun text ↦ rfl
  | succ skip ih =>
    intro text
    cases text with
    | nil => rfl
    | cons char rest => exact ih rest

@[simp] theorem splitSeparator_nil (separator : List α) : splitSeparator separator [] = [[]] := rfl

/-- A separator at the start ends an empty piece. -/
theorem splitSeparator_append (hseparator : separator ≠ []) (rest : List α) :
    splitSeparator separator (separator ++ rest) = [] :: splitSeparator separator rest := by
  obtain ⟨char, tail, rfl⟩ := List.exists_cons_of_ne_nil hseparator
  rw [splitSeparator, List.cons_append, splitLoop,
    if_pos (by simp [List.prefix_append]), splitLoop_eq_drop]
  simp

/-- A character at which no separator starts belongs to the first piece. -/
theorem splitSeparator_cons {char : α} (hseparator : ¬ separator <+: char :: rest) :
    splitSeparator separator (char :: rest) =
      (splitSeparator separator rest).modifyHead (char :: ·) := by
  rw [splitSeparator, splitLoop, if_neg hseparator]
  rfl

omit [DecidableEq α] in
/-- The tail of a fresh piece is fresh. -/
theorem Fresh.tail {char : α} (hfresh : Fresh separator (char :: piece)) :
    Fresh separator piece := by
  intro before after hsplit
  exact hfresh (char :: before) after (by simpa using hsplit)

omit [DecidableEq α] in
/-- No separator starts inside a fresh piece. -/
theorem Fresh.not_starts {char : α} (hfresh : Fresh separator (char :: piece)) (rest : List α) :
    ¬ separator <+: char :: (piece ++ separator ++ rest) := by
  intro hleads
  have hshort : separator <+: char :: piece ++ separator :=
    List.prefix_of_prefix_length_le hleads ⟨rest, by simp⟩ (by simp; omega)
  obtain ⟨after, hafter⟩ := hshort
  have hnil := hfresh [] after (by simpa using hafter.symm)
  subst hnil
  have hlength := congrArg List.length hafter
  simp only [List.append_nil, List.cons_append, List.length_cons, List.length_append] at hlength
  omega

/-- A fresh piece followed by the separator is the first piece. -/
theorem splitSeparator_of_fresh (hseparator : separator ≠ []) (hfresh : Fresh separator piece)
    (rest : List α) :
    splitSeparator separator (piece ++ separator ++ rest) =
      piece :: splitSeparator separator rest := by
  induction piece with
  | nil => exact splitSeparator_append hseparator rest
  | cons char piece ih =>
    rw [List.cons_append, List.cons_append, splitSeparator_cons (hfresh.not_starts rest),
      ih hfresh.tail]
    rfl

/-- A text without the separator is its only piece. -/
theorem splitSeparator_of_notContained (htext : ¬ separator <:+: text) :
    splitSeparator separator text = [text] := by
  induction text with
  | nil => rfl
  | cons char rest ih =>
    have hleads : ¬ separator <+: char :: rest := fun hleads ↦ htext hleads.isInfix
    have hrest : ¬ separator <:+: rest := fun hcontains ↦ htext (List.infix_cons hcontains)
    rw [splitSeparator_cons hleads, ih hrest]
    rfl

/-- What was joined is found again, when every piece but the last is fresh and the last does not
hold the separator. -/
theorem splitSeparator_join (hseparator : separator ≠ []) {last : List α}
    (hlast : ¬ separator <:+: last) {pieces : List (List α)}
    (hpieces : ∀ piece ∈ pieces, Fresh separator piece) :
    splitSeparator separator (pieces.flatMap (· ++ separator) ++ last) = pieces ++ [last] := by
  induction pieces with
  | nil => exact splitSeparator_of_notContained hlast
  | cons piece pieces ih =>
    rw [List.flatMap_cons, List.append_assoc,
      splitSeparator_of_fresh hseparator (hpieces piece (by simp)),
      ih fun other hother ↦ hpieces other (by simp [hother])]
    rfl

end Split

section Fresh

omit [DecidableEq α]

variable {separator piece : List α}

/-- A fresh piece does not hold the separator. -/
theorem Fresh.notContained (hseparator : separator ≠ []) (hfresh : Fresh separator piece) :
    ¬ separator <:+: piece := by
  rintro ⟨before, after, hpiece⟩
  have hnil := hfresh before (after ++ separator) (by rw [← hpiece]; simp)
  exact hseparator (List.append_eq_nil_iff.mp hnil).2

/-- A character before a fresh piece starts the separator or leaves the piece fresh. -/
theorem Fresh.cons {char : α} (hfresh : Fresh separator piece)
    (hleads : ¬ separator <+: char :: (piece ++ separator)) : Fresh separator (char :: piece) := by
  intro before after hsplit
  cases before with
  | nil => exact absurd ⟨after, by simpa using hsplit.symm⟩ hleads
  | cons first before =>
    rw [List.cons_append, List.cons_append, List.cons_append, List.cons.injEq] at hsplit
    exact hfresh before after hsplit.2

/-- Every text is made of fresh pieces, each followed by the separator, and a last piece without
it. -/
theorem exists_pieces (hseparator : separator ≠ []) (text : List α) :
    ∃ (pieces : List (List α)) (last : List α), text = pieces.flatMap (· ++ separator) ++ last ∧
      (∀ piece ∈ pieces, Fresh separator piece) ∧ ¬ separator <:+: last := by
  induction hlength : text.length using Nat.strong_induction_on generalizing text with
  | _ length ih =>
    cases text with
    | nil => exact ⟨[], [], rfl, by simp, by simpa using hseparator⟩
    | cons char rest =>
      by_cases hleads : separator <+: char :: rest
      · obtain ⟨after, hafter⟩ := hleads
        have hshorter : after.length < length := by
          have hlengths := congrArg List.length hafter
          have hpositive := List.length_pos_of_ne_nil hseparator
          rw [List.length_append, hlength] at hlengths
          omega
        obtain ⟨pieces, last, hpieces, hfresh, hlast⟩ := ih _ hshorter after rfl
        refine ⟨[] :: pieces, last, ?_, fun piece hpiece ↦ ?_, hlast⟩
        · rw [← hafter, hpieces]
          simp
        · rcases List.mem_cons.mp hpiece with rfl | hpiece
          · intro before after hsplit
            have hlengths := congrArg List.length hsplit
            simp only [List.nil_append, List.length_append] at hlengths
            exact List.length_eq_zero_iff.mp (by omega)
          · exact hfresh piece hpiece
      · have hshorter : rest.length < length := by
          rw [← hlength]
          exact Nat.lt_succ_self _
        obtain ⟨pieces, last, hpieces, hfresh, hlast⟩ := ih _ hshorter rest rfl
        cases pieces with
        | nil =>
          refine ⟨[], char :: last, by simp [hpieces], by simp, fun hcontains ↦ ?_⟩
          rcases List.infix_cons_iff.mp hcontains with hstart | hrest
          · exact hleads (by simpa [hpieces] using hstart)
          · exact hlast hrest
        | cons piece pieces =>
          refine ⟨(char :: piece) :: pieces, last, by simp [hpieces], fun other hother ↦ ?_, hlast⟩
          rcases List.mem_cons.mp hother with rfl | hother
          · refine (hfresh piece (by simp)).cons fun hstart ↦ hleads (hstart.trans ?_)
            rw [hpieces, List.flatMap_cons, List.append_assoc]
            exact ⟨_, by rw [List.cons_append]⟩
          · exact hfresh other (by simp [hother])

/-- For a separator that repeats one character, a piece is fresh when it neither holds the separator
nor ends with the character. -/
theorem fresh_replicate_iff {char : α} {count : ℕ} (hcount : 0 < count) :
    Fresh (List.replicate count char) piece ↔
      ¬ List.replicate count char <:+: piece ∧ piece.getLast? ≠ some char := by
  have hseparator : List.replicate count char ≠ [] := by
    simpa using Nat.pos_iff_ne_zero.mp hcount
  constructor
  · intro hfresh
    refine ⟨hfresh.notContained hseparator, fun hlast ↦ ?_⟩
    obtain ⟨before, rfl⟩ : ∃ before, piece = before ++ [char] :=
      ⟨piece.dropLast, (List.dropLast_append_getLast? char hlast).symm⟩
    have hnil := hfresh before [char] (by
      rw [List.append_assoc, List.append_assoc, ← List.replicate_succ', List.singleton_append,
        ← List.replicate_succ])
    simp at hnil
  · rintro ⟨hcontains, hlast⟩ before after hsplit
    by_contra hafter
    have hlengths := congrArg List.length hsplit
    simp only [List.length_append, List.length_replicate] at hlengths
    have hpositive := List.length_pos_of_ne_nil hafter
    by_cases hlong : count ≤ after.length
    · -- the separator ends before the piece does
      have hleads : before ++ List.replicate count char <+: piece :=
        List.prefix_of_prefix_length_le ⟨after, hsplit.symm⟩ (List.prefix_append _ _)
          (by simp only [List.length_append, List.length_replicate]; omega)
      exact hcontains ((List.suffix_append _ _).isInfix.trans hleads.isInfix)
    · -- the last character of the piece lies in the separator
      refine hlast ?_
      have hleft : piece.getLast? = (piece ++ List.replicate count char)[piece.length - 1]? := by
        rw [List.getLast?_eq_getElem?, List.getElem?_append_left (by omega)]
      have hindex : piece.length - 1 = before.length + (after.length - 1) := by omega
      rw [hleft, hsplit, hindex, List.append_assoc, List.getElem?_append_right (by omega),
        Nat.add_sub_cancel_left, List.getElem?_append_left (by simp; omega),
        List.getElem?_replicate, if_pos (by omega)]

end Fresh

section Pieces

variable {separator text piece : List α}

/-- The pieces found are parts of the text that do not hold the separator. -/
theorem infix_of_mem_splitSeparator (hseparator : separator ≠ [])
    (hpiece : piece ∈ splitSeparator separator text) :
    piece <:+: text ∧ ¬ separator <:+: piece := by
  obtain ⟨pieces, last, rfl, hfresh, hlast⟩ := exists_pieces hseparator text
  rw [splitSeparator_join hseparator hlast hfresh] at hpiece
  rcases List.mem_append.mp hpiece with hpiece | hpiece
  · obtain ⟨before, after, rfl⟩ := List.append_of_mem hpiece
    refine ⟨⟨before.flatMap (· ++ separator), separator ++ after.flatMap (· ++ separator) ++ last,
      by simp⟩, (hfresh piece hpiece).notContained hseparator⟩
  · rw [List.mem_singleton.mp hpiece]
    exact ⟨(List.suffix_append _ _).isInfix, hlast⟩

end Pieces

end NovaIde.Foundation
