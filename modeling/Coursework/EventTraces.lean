import Mathlib.Data.List.Defs

/-!
# Runs over lists of events

A step relation labels each step with an event.  A relation between the states of
two systems that every step of the first one preserves, with a step of the second
one that has the same event, is preserved by runs over the same events.
-/

namespace Coursework

variable {State Abstract Event : Type*} {step : State → Event → State → Prop}
  {spec : Abstract → Event → Abstract → Prop}

/-- A run of a step relation over a list of events. -/
inductive Trace (step : State → Event → State → Prop) : State → List Event → State → Prop
  | nil (state : State) : Trace step state [] state
  | cons {state next last : State} {event : Event} {events : List Event} :
      step state event next → Trace step next events last → Trace step state (event :: events) last

namespace Trace

variable {state last : State} {events : List Event}

theorem simulate {related : State → Abstract → Prop}
    (steps : ∀ state event next abstract, related state abstract → step state event next →
      ∃ after, spec abstract event after ∧ related next after)
    (trace : Trace step state events last) {abstract : Abstract}
    (start : related state abstract) :
    ∃ after, Trace spec abstract events after ∧ related last after := by
  induction trace generalizing abstract with
  | nil state => exact ⟨abstract, .nil abstract, start⟩
  | cons first rest ih =>
      obtain ⟨middle, isStep, middleRelated⟩ := steps _ _ _ _ start first
      obtain ⟨after, later, lastRelated⟩ := ih middleRelated
      exact ⟨after, .cons isStep later, lastRelated⟩

/-- What a step keeps unless its event is of some kind, a run without such events keeps. -/
theorem keeps {α : Type*} {touches : Event → Prop} {value : State → α} {holds : State → Prop}
    (steps : ∀ state event next, holds state → ¬ touches event → step state event next →
      value next = value state ∧ holds next)
    (trace : Trace step state events last) (start : holds state)
    (apart : ∀ event ∈ events, ¬ touches event) : value last = value state := by
  induction trace with
  | nil state => rfl
  | cons first rest ih =>
      obtain ⟨kept, held⟩ := steps _ _ _ start (apart _ List.mem_cons_self) first
      exact (ih held fun event later => apart event (List.mem_cons_of_mem _ later)).trans kept

end Trace

end Coursework
