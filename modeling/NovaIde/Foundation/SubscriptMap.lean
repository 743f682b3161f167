import Mathlib.Logic.Function.Basic

/-!
# Maps whose subscript creates entries

An associative map with a subscript operator that inserts the default value when the key is
absent. `read` is the value the subscript yields, `touch` the map it leaves behind, and `assign`
the map after an assignment through the subscript. A read cannot tell an absent key from a key
that holds the default value, and touching a key changes no read (`read_touch`).
-/

set_option autoImplicit false
set_option relaxedAutoImplicit false

namespace NovaIde.Foundation

/-- A map from keys to values, given by its entries. -/
abbrev SubscriptMap (Key Value : Type*) := Key → Option Value

namespace SubscriptMap

variable {Key Value : Type*} [DecidableEq Key] [Inhabited Value]

/-- The map without entries. -/
def empty (Key Value : Type*) : SubscriptMap Key Value := fun _ ↦ none

omit [DecidableEq Key] in
/-- The value a subscript yields. -/
def read (map : SubscriptMap Key Value) (key : Key) : Value := (map key).getD default

/-- The map a subscript leaves behind: the default value is inserted at an absent key. -/
def touch (map : SubscriptMap Key Value) (key : Key) : SubscriptMap Key Value :=
  Function.update map key (some (map.read key))

omit [Inhabited Value] in
/-- The map after an assignment through a subscript. -/
def assign (map : SubscriptMap Key Value) (key : Key) (value : Value) : SubscriptMap Key Value :=
  Function.update map key (some value)

omit [DecidableEq Key] [Inhabited Value] in
@[simp] theorem empty_apply (key : Key) : empty Key Value key = none := rfl

omit [DecidableEq Key] in
theorem read_of_some {map : SubscriptMap Key Value} {key : Key} {value : Value}
    (hentry : map key = some value) : map.read key = value := by
  simp [read, hentry]

omit [Inhabited Value] in
@[simp] theorem assign_self (map : SubscriptMap Key Value) (key : Key) (value : Value) :
    map.assign key value key = some value := by
  simp [assign]

omit [Inhabited Value] in
theorem assign_of_ne (map : SubscriptMap Key Value) {key other : Key} (value : Value)
    (hne : other ≠ key) : map.assign key value other = map other := by
  simp [assign, hne]

@[simp] theorem read_assign_self (map : SubscriptMap Key Value) (key : Key) (value : Value) :
    (map.assign key value).read key = value :=
  read_of_some (assign_self map key value)

theorem read_assign_of_ne (map : SubscriptMap Key Value) {key other : Key} (value : Value)
    (hne : other ≠ key) : (map.assign key value).read other = map.read other := by
  simp [read, assign_of_ne map value hne]

/-- Touching a key changes no read. -/
@[simp] theorem read_touch (map : SubscriptMap Key Value) (key other : Key) :
    (map.touch key).read other = map.read other := by
  by_cases hkey : other = key
  · subst hkey
    exact read_of_some (by simp [touch])
  · simp [read, touch, hkey]

/-- Touching a key that has an entry changes nothing. -/
theorem touch_eq_self {map : SubscriptMap Key Value} {key : Key} (hentry : map key ≠ none) :
    map.touch key = map := by
  obtain ⟨value, hvalue⟩ := Option.ne_none_iff_exists'.mp hentry
  rw [touch, read_of_some hvalue, ← hvalue, Function.update_eq_self]

end SubscriptMap

end NovaIde.Foundation
