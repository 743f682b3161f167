import Mathlib.Data.List.Basic

/-!
# Replacing a range of a list

`splice list offset removed added` replaces the `removed` entries from `offset` on by `added`.
Insertion and removal are the splices that remove nothing and add nothing, and a replacement is a
removal followed by an insertion at the same place (`splice_splice`). What a splice added can be
read back from its result (`take_drop_splice`).
-/

set_option autoImplicit false
set_option relaxedAutoImplicit false

namespace NovaIde.Foundation

variable {α : Type*}

/-- The list with a range replaced. -/
def splice (list : List α) (offset removed : ℕ) (added : List α) : List α :=
  list.take offset ++ added ++ list.drop (offset + removed)

variable {list added : List α} {offset removed : ℕ}

theorem length_splice (hrange : offset + removed ≤ list.length) :
    (splice list offset removed added).length + removed = list.length + added.length := by
  simp only [splice, List.length_append, List.length_take, List.length_drop]
  omega

/-- Replacing a range is removing it and then inserting at its start. -/
theorem splice_splice (hoffset : offset ≤ list.length) :
    splice (splice list offset removed []) offset 0 added = splice list offset removed added := by
  have htaken : (list.take offset).length = offset := List.length_take_of_le hoffset
  simp only [splice, List.append_nil, Nat.add_zero]
  rw [List.take_left' htaken]
  rw [List.drop_left' htaken]

/-- The entries a splice added stand at its offset. -/
theorem take_drop_splice (hoffset : offset ≤ list.length) :
    ((splice list offset removed added).drop offset).take added.length = added := by
  have htaken : (list.take offset).length = offset := List.length_take_of_le hoffset
  rw [splice, List.append_assoc, List.drop_left' htaken, List.take_left]

/-- Putting back what a splice removed in place of what it added undoes it. -/
theorem splice_undo (hrange : offset + removed ≤ list.length) :
    splice (splice list offset removed added) offset added.length
      ((list.drop offset).take removed) = list := by
  have htaken : (list.take offset).length = offset := List.length_take_of_le (by omega)
  have hdropped : (list.take offset ++ added).length = offset + added.length := by
    rw [List.length_append, htaken]
  have hkept : (splice list offset removed added).take offset = list.take offset := by
    rw [splice, List.append_assoc]
    exact List.take_left' htaken
  rw [splice, hkept, splice]
  rw [List.drop_left' hdropped, List.append_assoc, ← List.drop_drop, List.take_append_drop,
    List.take_append_drop]

/-- An insertion changes the list exactly when it inserts something. -/
theorem splice_insert_ne : splice list offset 0 added ≠ list ↔ added ≠ [] := by
  constructor
  · rintro hne rfl
    exact hne (by simp [splice])
  · intro hadded heq
    have hlength : (splice list offset 0 added).length = list.length + added.length := by
      simp only [splice, List.length_append, List.length_take, List.length_drop]
      omega
    rw [heq] at hlength
    exact hadded (List.length_eq_zero_iff.mp (by omega))

/-- A removal within range changes the list exactly when it removes something. -/
theorem splice_remove_ne (hrange : offset + removed ≤ list.length) :
    splice list offset removed [] ≠ list ↔ removed ≠ 0 := by
  constructor
  · rintro hne rfl
    exact hne (by simp [splice])
  · intro hremoved heq
    have hlength : (splice list offset removed []).length + removed =
        list.length + ([] : List α).length := length_splice hrange
    rw [heq, List.length_nil] at hlength
    omega

/-- The only removal from a list of length one is that of the whole list. -/
theorem splice_of_length_one (hlength : list.length = 1) (hremoved : 0 < removed)
    (hrange : offset + removed ≤ list.length) : splice list offset removed [] = [] := by
  have hresult : (splice list offset removed []).length + removed =
      list.length + ([] : List α).length := length_splice hrange
  refine List.length_eq_zero_iff.mp ?_
  rw [List.length_nil] at hresult
  omega

end NovaIde.Foundation
