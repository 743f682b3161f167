import Mathlib.Data.List.Basic

/-!
# Finite runs of event-driven systems

A system is a partial step function: in a state it answers an event with an observation and a next
state, or refuses the event. A run is a finite sequence of answered events from a fixed initial
state, and its history records every step with the state before it and the state after it, the
most recent step last. Everything said about a run is said about its history, so "earlier in the
run" is a prefix of a list.

`Run.invariant` is the invariant rule over states and `Run.relation` the rule over histories and
states together. `EveryStep` states a property of each step relative to the history before it;
`Run.everyStep_of_everyStep` reduces it to single steps, and `Run.relation_of_everyStep` proves an
invariant of the runs whose steps all meet a side condition. `execute` runs a list of events, so
that concrete runs are found by evaluation (`exists_run_of_execute`).
-/

set_option autoImplicit false
set_option relaxedAutoImplicit false

namespace NovaIde.Foundation.EventRun

variable {State Event Observation : Type*}

/-- One step of a run: the state it started in, the event, what was observed, and the state it
ended in. -/
structure StepRecord (State Event Observation : Type*) where
  before : State
  event : Event
  observation : Observation
  after : State

/-- The runs of a step function from an initial state, with their histories, oldest step first. -/
inductive Run (step : State → Event → Option (State × Observation)) (initial : State) :
    List (StepRecord State Event Observation) → State → Prop
  | start : Run step initial [] initial
  | extend {history : List (StepRecord State Event Observation)} {state next : State}
      {event : Event} {observation : Observation} (hrun : Run step initial history state)
      (hstep : step state event = some (next, observation)) :
      Run step initial (history ++ [⟨state, event, observation, next⟩]) next

/-- A property of every step of a history, which may look at the steps before it. -/
def EveryStep
    (property : List (StepRecord State Event Observation) →
      StepRecord State Event Observation → Prop)
    (history : List (StepRecord State Event Observation)) : Prop :=
  ∀ earlier record later, history = earlier ++ record :: later → property earlier record

section EveryStep

variable {property other : List (StepRecord State Event Observation) →
  StepRecord State Event Observation → Prop}

@[simp] theorem everyStep_nil : EveryStep property [] := by
  intro earlier record later hsplit
  simp at hsplit

/-- A history extended by one step has a property at every step when the history has it and the
last step has it after the history. -/
@[simp] theorem everyStep_append_singleton {history : List (StepRecord State Event Observation)}
    {record : StepRecord State Event Observation} :
    EveryStep property (history ++ [record]) ↔
      EveryStep property history ∧ property history record := by
  constructor
  · intro hevery
    refine ⟨fun earlier first later hsplit ↦ ?_, hevery history record [] rfl⟩
    exact hevery earlier first (later ++ [record]) (by simp [hsplit])
  · rintro ⟨hevery, hlast⟩ earlier first later hsplit
    rcases List.eq_nil_or_concat later with rfl | ⟨later, last, rfl⟩
    · obtain ⟨rfl, hrecord⟩ := List.append_inj' hsplit rfl
      cases hrecord
      exact hlast
    · rw [List.concat_eq_append, ← List.cons_append, ← List.append_assoc] at hsplit
      exact hevery earlier first later (List.append_inj' hsplit rfl).1

/-- A property that does not look at the steps before is one of each record. -/
theorem everyStep_iff_forall_mem {single : StepRecord State Event Observation → Prop}
    {history : List (StepRecord State Event Observation)} :
    EveryStep (fun _ record ↦ single record) history ↔ ∀ record ∈ history, single record := by
  constructor
  · intro hevery record hrecord
    obtain ⟨earlier, later, hsplit⟩ := List.append_of_mem hrecord
    exact hevery earlier record later hsplit
  · intro hall earlier record later hsplit
    exact hall record (by simp [hsplit])

/-- A property at every step, position by position. -/
theorem everyStep_iff_forall_lt {history : List (StepRecord State Event Observation)} :
    EveryStep property history ↔
      ∀ (index : ℕ) (hindex : index < history.length),
        property (history.take index) history[index] := by
  constructor
  · intro hevery index hindex
    exact hevery _ _ (history.drop (index + 1)) (by simp)
  · intro hall earlier record later hsplit
    have hindex : earlier.length < history.length := by simp [hsplit]
    have hproperty := hall earlier.length hindex
    simpa [hsplit] using hproperty

/-- Whether every step has a decidable property can be evaluated. -/
instance [∀ earlier record, Decidable (property earlier record)]
    (history : List (StepRecord State Event Observation)) :
    Decidable (EveryStep property history) :=
  decidable_of_iff _ everyStep_iff_forall_lt.symm

/-- Two properties at every step hold together at every step. -/
theorem EveryStep.and {history : List (StepRecord State Event Observation)}
    (hevery : EveryStep property history) (hother : EveryStep other history) :
    EveryStep (fun earlier record ↦ property earlier record ∧ other earlier record) history :=
  fun earlier record later hsplit ↦
    ⟨hevery earlier record later hsplit, hother earlier record later hsplit⟩

/-- A property at every step holds at every step of a prefix. -/
theorem EveryStep.of_append {history rest : List (StepRecord State Event Observation)}
    (hevery : EveryStep property (history ++ rest)) : EveryStep property history := by
  intro earlier record later hsplit
  exact hevery earlier record (later ++ rest) (by simp [hsplit])

/-- A property at every step holds at the last one. -/
theorem EveryStep.last {history : List (StepRecord State Event Observation)}
    {record : StepRecord State Event Observation} (hevery : EveryStep property history)
    (hlast : history.getLast? = some record) : property history.dropLast record :=
  hevery _ _ [] (List.dropLast_append_getLast? record hlast).symm

end EveryStep

section Rules

variable {step : State → Event → Option (State × Observation)} {initial state : State}
  {history : List (StepRecord State Event Observation)}

/-- The invariant rule: what holds initially and is kept by every step holds after every run. -/
theorem Run.invariant (invariant : State → Prop) (hinitial : invariant initial)
    (hkept : ∀ state event next observation, invariant state →
      step state event = some (next, observation) → invariant next)
    (hrun : Run step initial history state) : invariant state := by
  induction hrun with
  | start => exact hinitial
  | extend _ hstep ih => exact hkept _ _ _ _ ih hstep

/-- The invariant rule for a relation between the history and the state it leads to. -/
theorem Run.relation
    (relation : List (StepRecord State Event Observation) → State → Prop)
    (hinitial : relation [] initial)
    (hkept : ∀ history state event next observation, Run step initial history state →
      relation history state → step state event = some (next, observation) →
        relation (history ++ [⟨state, event, observation, next⟩]) next)
    (hrun : Run step initial history state) : relation history state := by
  induction hrun with
  | start => exact hinitial
  | extend hrun hstep ih => exact hkept _ _ _ _ _ hrun ih hstep

/-- The invariant rule for the runs whose steps all meet a side condition. -/
theorem Run.relation_of_everyStep
    (relation : List (StepRecord State Event Observation) → State → Prop)
    {condition : List (StepRecord State Event Observation) →
      StepRecord State Event Observation → Prop}
    (hinitial : relation [] initial)
    (hkept : ∀ history state event next observation, Run step initial history state →
      relation history state → condition history ⟨state, event, observation, next⟩ →
        step state event = some (next, observation) →
          relation (history ++ [⟨state, event, observation, next⟩]) next)
    (hrun : Run step initial history state) (hcondition : EveryStep condition history) :
    relation history state := by
  induction hrun with
  | start => exact hinitial
  | extend hrun hstep ih =>
    rw [everyStep_append_singleton] at hcondition
    exact hkept _ _ _ _ _ hrun (ih hcondition.1) hcondition.2 hstep

/-- A step of a run is a step of the system, taken after a run. -/
theorem Run.split {earlier later : List (StepRecord State Event Observation)}
    {record : StepRecord State Event Observation}
    (hrun : Run step initial (earlier ++ record :: later) state) :
    Run step initial earlier record.before ∧
      step record.before record.event = some (record.after, record.observation) := by
  generalize hhistory : earlier ++ record :: later = history at hrun
  induction hrun generalizing later with
  | start => simp at hhistory
  | @extend _ _ _ _ _ hrun hstep ih =>
    rcases List.eq_nil_or_concat later with rfl | ⟨later, last, rfl⟩
    · obtain ⟨rfl, hrecord⟩ := List.append_inj' hhistory rfl
      cases hrecord
      exact ⟨hrun, hstep⟩
    · rw [List.concat_eq_append, ← List.cons_append, ← List.append_assoc] at hhistory
      exact ih (List.append_inj' hhistory rfl).1

/-- In the runs whose steps all meet a side condition a property holds at every step when each
single step of the system has it after such a run: the single step may use the condition at itself
and at every step before it. -/
theorem Run.everyStep_of_everyStep
    {condition property : List (StepRecord State Event Observation) →
      StepRecord State Event Observation → Prop}
    (hsingle : ∀ earlier record, Run step initial earlier record.before →
      EveryStep condition earlier → condition earlier record →
        step record.before record.event = some (record.after, record.observation) →
          property earlier record)
    (hrun : Run step initial history state) (hcondition : EveryStep condition history) :
    EveryStep property history := by
  intro earlier record later hsplit
  subst hsplit
  exact hsingle earlier record hrun.split.1 hcondition.of_append
    (hcondition earlier record later rfl) hrun.split.2

/-- Two properties that agree at each single step of the system, after every run, agree on the
histories of its runs. -/
theorem Run.everyStep_congr
    {property other : List (StepRecord State Event Observation) →
      StepRecord State Event Observation → Prop}
    (hsingle : ∀ earlier record, Run step initial earlier record.before →
      step record.before record.event = some (record.after, record.observation) →
        (property earlier record ↔ other earlier record))
    (hrun : Run step initial history state) :
    EveryStep property history ↔ EveryStep other history := by
  constructor
  · intro hevery earlier record later hsplit
    subst hsplit
    exact (hsingle _ _ hrun.split.1 hrun.split.2).mp (hevery earlier record later rfl)
  · intro hevery earlier record later hsplit
    subst hsplit
    exact (hsingle _ _ hrun.split.1 hrun.split.2).mpr (hevery earlier record later rfl)

end Rules

/-! ### Executing a list of events -/

/-- Runs a list of events from a state, recording every step, or fails at the first refused
event. -/
def execute (step : State → Event → Option (State × Observation)) :
    List (StepRecord State Event Observation) → State → List Event →
      Option (List (StepRecord State Event Observation) × State)
  | history, state, [] => some (history, state)
  | history, state, event :: rest =>
    match step state event with
    | none => none
    | some (next, observation) =>
      execute step (history ++ [⟨state, event, observation, next⟩]) next rest

/-- An executed list of events continues a run. -/
theorem Run.execute {step : State → Event → Option (State × Observation)} {initial : State}
    (events : List Event) :
    ∀ {history final : List (StepRecord State Event Observation)} {state last : State},
      Run step initial history state →
        EventRun.execute step history state events = some (final, last) →
          Run step initial final last := by
  induction events with
  | nil =>
    intro history final state last hrun hexecute
    simp only [EventRun.execute, Option.some.injEq, Prod.mk.injEq] at hexecute
    obtain ⟨rfl, rfl⟩ := hexecute
    exact hrun
  | cons event rest ih =>
    intro history final state last hrun hexecute
    simp only [EventRun.execute] at hexecute
    split at hexecute
    · simp at hexecute
    · next next observation hstep => exact ih (hrun.extend hstep) hexecute

/-- An executed list of events is what its history records. -/
theorem map_event_execute {step : State → Event → Option (State × Observation)}
    (events : List Event) :
    ∀ {history final : List (StepRecord State Event Observation)} {state last : State},
      execute step history state events = some (final, last) →
        final.map StepRecord.event = history.map StepRecord.event ++ events := by
  induction events with
  | nil =>
    intro history final state last hexecute
    simp only [execute, Option.some.injEq, Prod.mk.injEq] at hexecute
    obtain ⟨rfl, rfl⟩ := hexecute
    simp
  | cons event rest ih =>
    intro history final state last hexecute
    simp only [execute] at hexecute
    split at hexecute
    · simp at hexecute
    · next next observation hstep => simp [ih hexecute]

/-- A concrete run found by evaluation: when the events execute and the check accepts their
history and last state, there is such a run. -/
theorem exists_run_of_execute (step : State → Event → Option (State × Observation))
    (initial : State) (events : List Event)
    (check : List (StepRecord State Event Observation) → State → Bool)
    (hcheck : (match execute step [] initial events with
      | some (history, state) => check history state
      | none => false) = true) :
    ∃ history state, Run step initial history state ∧
      history.map StepRecord.event = events ∧ check history state = true := by
  split at hcheck
  · next history state hexecute =>
    exact ⟨history, state, Run.start.execute events hexecute, map_event_execute events hexecute,
      hcheck⟩
  · simp at hcheck

end NovaIde.Foundation.EventRun
