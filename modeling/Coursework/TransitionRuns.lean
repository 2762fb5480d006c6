import Mathlib.Logic.Relation

/-!
# Runs of labelled transition functions

A system is given by an executable step function from a state and an action
label to the next state, undefined where the action is not enabled.  A run
takes finitely many steps from an initial state, and every step it takes meets
a side condition on the state before it.  The rule `Run.invariant` derives a
property of every state reached from what one step preserves.
-/

namespace Coursework

variable {State Action : Type*}

/-- The states reached from an initial state by steps that all meet `allowed`
in the state where they are taken. -/
inductive Run (step : State → Action → Option State)
    (allowed : State → Action → Prop) (initial : State → Prop) : State → Prop
  | start {state : State} : initial state → Run step allowed initial state
  | next {state after : State} (action : Action) :
      Run step allowed initial state → allowed state action →
      step state action = some after → Run step allowed initial after

/-- The side condition of an unrestricted run. -/
def anyStep (_ : State) (_ : Action) : Prop := True

namespace Run

variable {step : State → Action → Option State}
  {allowed : State → Action → Prop} {initial : State → Prop}

/-- An invariant holds initially and survives every allowed step. -/
theorem invariant {Inv : State → Prop}
    (base : ∀ state, initial state → Inv state)
    (preserved : ∀ state action after, Inv state → allowed state action →
      step state action = some after → Inv after)
    {state : State} (run : Run step allowed initial state) : Inv state := by
  induction run with
  | start isInitial => exact base _ isInitial
  | next action _ isAllowed taken ih =>
      exact preserved _ action _ ih isAllowed taken

/-- Weakening the side condition keeps every run. -/
theorem mono {weaker : State → Action → Prop}
    (implied : ∀ state action, allowed state action → weaker state action)
    {state : State} (run : Run step allowed initial state) :
    Run step weaker initial state := by
  induction run with
  | start isInitial => exact .start isInitial
  | next action _ isAllowed taken ih =>
      exact .next action ih (implied _ _ isAllowed) taken

end Run

/-- Execute a list of actions, stopping where one is disabled or not allowed. -/
def execute (step : State → Action → Option State)
    (allowed : State → Action → Bool) : State → List Action → Option State
  | state, [] => some state
  | state, action :: rest =>
      if allowed state action then
        (step state action).bind fun after => execute step allowed after rest
      else none

/-- An executed list of actions is a run. -/
theorem run_of_execute {step : State → Action → Option State}
    {allowed : State → Action → Bool} {initial : State → Prop}
    {state last : State} (actions : List Action)
    (reached : Run step (fun s a => allowed s a = true) initial state)
    (executed : execute step allowed state actions = some last) :
    Run step (fun s a => allowed s a = true) initial last := by
  induction actions generalizing state with
  | nil =>
      simp only [execute, Option.some.injEq] at executed
      exact executed ▸ reached
  | cons action rest ih =>
      simp only [execute] at executed
      split at executed
      · next isAllowed =>
          obtain ⟨after, taken, remaining⟩ := Option.bind_eq_some_iff.mp executed
          exact ih (reached.next action isAllowed taken) remaining
      · cases executed

/-- The state after a list of actions that can all be taken. -/
def lastState (step : State → Action → Option State)
    (allowed : State → Action → Bool) (first : State) (actions : List Action)
    (enabled : (execute step allowed first actions).isSome = true) : State :=
  (execute step allowed first actions).get enabled

theorem run_lastState {step : State → Action → Option State}
    {allowed : State → Action → Bool} {initial : State → Prop} {first : State}
    (isInitial : initial first) (actions : List Action)
    (enabled : (execute step allowed first actions).isSome = true) :
    Run step (fun s a => allowed s a = true) initial
      (lastState step allowed first actions enabled) :=
  run_of_execute actions (.start isInitial) (Option.some_get enabled).symm

end Coursework
