import Mathlib.Logic.Basic

/-!
# Computations that make calls

A computation that may fault and that makes calls to the outside on its way. `outcome` forgets the
calls. `Satisfies` is its partial-correctness judgement: every call meets one condition and the
value another, with a rule for each way to put computations together.
-/

set_option autoImplicit false
set_option relaxedAutoImplicit false

namespace NovaIde.Foundation

/-- A computation with the calls it makes, in their order. -/
def Calling (ε κ α : Type) : Type := Except ε (α × List κ)

namespace Calling

variable {ε κ α β : Type}

instance : Monad (Calling ε κ) where
  pure value := .ok (value, [])
  bind computation next := Except.bind computation fun made ↦
    Except.map (fun continued ↦ (continued.1, made.2 ++ continued.2)) (next made.1)

/-- Makes a call. -/
def call (made : κ) : Calling ε κ Unit := .ok ((), [made])

/-- A computation that makes no call. -/
def silent (computation : Except ε α) : Calling ε κ α := computation.map fun value ↦ (value, [])

/-- The value of a computation. -/
def outcome (computation : Calling ε κ α) : Except ε α := Except.map Prod.fst computation

@[simp] theorem outcome_pure (value : α) :
    outcome (pure value : Calling ε κ α) = pure value := rfl

@[simp] theorem outcome_call (made : κ) : outcome (call made : Calling ε κ Unit) = pure () := rfl

@[simp] theorem outcome_silent (computation : Except ε α) :
    outcome (silent computation : Calling ε κ α) = computation := by
  cases computation <;> rfl

@[simp] theorem outcome_bind (computation : Calling ε κ α) (next : α → Calling ε κ β) :
    outcome (computation >>= next) = outcome computation >>= fun value ↦ outcome (next value) := by
  rcases computation with fault | ⟨value, calls⟩
  · rfl
  · change outcome (Except.map (fun continued ↦ (continued.1, calls ++ continued.2)) (next value)) =
      outcome (next value)
    rcases next value with fault | ⟨result, more⟩ <;> rfl

@[simp] theorem outcome_map (f : α → β) (computation : Calling ε κ α) :
    outcome (f <$> computation) = (outcome computation).map f := by
  rcases computation with fault | ⟨value, calls⟩ <;> rfl

@[simp] theorem outcome_ite (condition : Prop) [Decidable condition]
    (first second : Calling ε κ α) :
    outcome (if condition then first else second) =
      if condition then outcome first else outcome second :=
  apply_ite outcome condition first second

/-- A computation returns when its outcome does. -/
theorem exists_calls_of_outcome {computation : Calling ε κ α} {value : α}
    (houtcome : outcome computation = .ok value) : ∃ calls, computation = .ok (value, calls) := by
  rcases computation with fault | ⟨returned, calls⟩
  · cases houtcome
  · cases houtcome
    exact ⟨calls, rfl⟩

/-! ### The calls of a computation -/

/-- When the computation returns, its calls meet one condition and its value another. -/
def Satisfies (Allowed : κ → Prop) (Result : α → Prop) (computation : Calling ε κ α) : Prop :=
  ∀ value calls, computation = .ok (value, calls) →
    Result value ∧ ∀ made ∈ calls, Allowed made

variable {Allowed : κ → Prop} {Result : α → Prop} {Last : β → Prop}

theorem Satisfies.pure {value : α} (hvalue : Result value) :
    Satisfies Allowed Result (Pure.pure value : Calling ε κ α) := by
  rintro _ _ ⟨⟩
  exact ⟨hvalue, by simp⟩

theorem Satisfies.call {made : κ} (hmade : Allowed made) :
    Satisfies Allowed (fun _ ↦ True) (call made : Calling ε κ Unit) := by
  rintro _ _ ⟨⟩
  exact ⟨trivial, by simpa using hmade⟩

theorem Satisfies.silent {computation : Except ε α}
    (hresult : ∀ value, computation = .ok value → Result value) :
    Satisfies Allowed Result (silent computation : Calling ε κ α) := by
  intro value calls hreturned
  rcases computation with fault | returned
  · cases hreturned
  · cases hreturned
    exact ⟨hresult _ rfl, by simp⟩

theorem Satisfies.bind {computation : Calling ε κ α} {next : α → Calling ε κ β}
    (hfirst : Satisfies Allowed Result computation)
    (hnext : ∀ value, Result value → Satisfies Allowed Last (next value)) :
    Satisfies Allowed Last (computation >>= next) := by
  intro result calls hreturned
  rcases computation with fault | ⟨value, made⟩
  · cases hreturned
  · obtain ⟨hvalue, hmade⟩ := hfirst value made rfl
    change Except.map (fun continued ↦ (continued.1, made ++ continued.2)) (next value) = _
      at hreturned
    rcases hcontinued : next value with fault | ⟨other, more⟩
    · rw [hcontinued] at hreturned
      cases hreturned
    · rw [hcontinued] at hreturned
      cases hreturned
      obtain ⟨hother, hmore⟩ := hnext value hvalue other more hcontinued
      refine ⟨hother, fun another hanother ↦ ?_⟩
      rcases List.mem_append.mp hanother with hbefore | hafter
      · exact hmade another hbefore
      · exact hmore another hafter

theorem Satisfies.map {computation : Calling ε κ α} {f : α → β}
    (hfirst : Satisfies Allowed Result computation) (hf : ∀ value, Result value → Last (f value)) :
    Satisfies Allowed Last (f <$> computation) :=
  hfirst.bind fun value hvalue ↦ .pure (hf value hvalue)

theorem Satisfies.ite {condition : Prop} [Decidable condition] {first second : Calling ε κ α}
    (hfirst : Satisfies Allowed Result first) (hsecond : Satisfies Allowed Result second) :
    Satisfies Allowed Result (if condition then first else second) := by
  split
  · exact hfirst
  · exact hsecond

end Calling

end NovaIde.Foundation
