import Mathlib.Data.List.Induction
import Mathlib.Logic.Function.Basic

/-!
# Rows with repeated keys, read as a map

A list of rows in which a key may occur more than once stands for the map that gives every key the
value of its last row. Appending a row is an assignment to that map, and rewriting the rows of a
key in place overwrites the value of a key that is present (`lastEntry_append_singleton`,
`lastEntry_rewrite`). A loop that overwrites one variable at every row of a key computes the map
(`foldl_eq_getD_lastEntry`).
-/

set_option autoImplicit false
set_option relaxedAutoImplicit false

namespace NovaIde.Foundation

variable {Row Key Value : Type*} [DecidableEq Key]

/-- The value in the last row of a key. -/
def lastEntry (key : Row → Key) (value : Row → Value) (rows : List Row) (wanted : Key) :
    Option Value :=
  (rows.filter fun row ↦ key row = wanted).getLast?.map value

variable {key : Row → Key} {value : Row → Value}

@[simp] theorem lastEntry_nil (wanted : Key) : lastEntry key value [] wanted = none := rfl

/-- Appending a row assigns its value to its key. -/
theorem lastEntry_append_singleton (rows : List Row) (row : Row) :
    lastEntry key value (rows ++ [row]) =
      Function.update (lastEntry key value rows) (key row) (some (value row)) := by
  ext1 wanted
  by_cases hkey : wanted = key row
  · subst hkey
    simp [lastEntry]
  · rw [Function.update_of_ne hkey]
    simp [lastEntry, Ne.symm hkey]

/-- A key has no value exactly when no row has it. -/
theorem lastEntry_eq_none_iff {rows : List Row} {wanted : Key} :
    lastEntry key value rows wanted = none ↔ ∀ row ∈ rows, key row ≠ wanted := by
  simp [lastEntry]

/-- Rewriting every row of a key in place, so that the key stays and the value becomes a fixed one,
overwrites the value of the key if it has one. -/
theorem lastEntry_rewrite (rewrite : Row → Row) {target : Key} {new : Value}
    (hkey : ∀ row, key row = target → key (rewrite row) = target)
    (hvalue : ∀ row, key row = target → value (rewrite row) = new) (rows : List Row) :
    lastEntry key value (rows.map fun row ↦ if key row = target then rewrite row else row) =
      Function.update (lastEntry key value rows) target
        ((lastEntry key value rows target).map fun _ ↦ new) := by
  induction rows using List.reverseRecOn with
  | nil => simp [funext_iff, Function.update_apply]
  | append_singleton rows row ih =>
    rw [List.map_append, List.map_singleton, lastEntry_append_singleton, ih,
      lastEntry_append_singleton]
    by_cases htarget : key row = target
    · subst htarget
      simp [hkey row rfl, hvalue row rfl]
    · rw [if_neg htarget, Function.update_of_ne (Ne.symm htarget),
        Function.update_comm (Ne.symm htarget)]

/-- The loop that overwrites a variable at every row of a key ends with the value of the key, or
with what the variable held before. -/
theorem foldl_eq_getD_lastEntry (rows : List Row) (wanted : Key) (initial : Value) :
    rows.foldl (fun found row ↦ if key row = wanted then value row else found) initial =
      (lastEntry key value rows wanted).getD initial := by
  induction rows using List.reverseRecOn with
  | nil => rfl
  | append_singleton rows row ih =>
    rw [List.foldl_append, ih, lastEntry_append_singleton]
    by_cases hkey : key row = wanted
    · subst hkey
      simp
    · simp [hkey, Function.update_of_ne (Ne.symm hkey)]

end NovaIde.Foundation
