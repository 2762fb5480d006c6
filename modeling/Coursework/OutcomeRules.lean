import Mathlib.Init

/-!
# Outcomes of computations that can fail

What a computation guarantees: a property of its result, or a property of its
error.  The rules follow the sequence of a computation.
-/

namespace Coursework

universe u v

variable {Error : Type v} {Value Result : Type u}

/-- A computation returns a value with a property, or fails with an error of a
kind. -/
def Outcome (failed : Error → Prop) (returned : Value → Prop) : Except Error Value → Prop
  | .ok value => returned value
  | .error error => failed error

theorem ok_bind (value : Value) (next : Value → Except Error Result) :
    (.ok value >>= next) = next value := rfl

theorem error_bind (error : Error) (next : Value → Except Error Result) :
    (.error error >>= next) = .error error := rfl

namespace Outcome

variable {failed : Error → Prop} {returned : Value → Prop} {computation : Except Error Value}

theorem bind {next : Value → Except Error Result} {property : Result → Prop}
    (first : Outcome failed returned computation)
    (rest : ∀ value, returned value → Outcome failed property (next value)) :
    Outcome failed property (computation >>= next) := by
  cases computation with
  | error error => exact first
  | ok value => exact rest value first

theorem mono {failed' : Error → Prop} {returned' : Value → Prop}
    (outcome : Outcome failed returned computation)
    (errors : ∀ error, failed error → failed' error)
    (values : ∀ value, returned value → returned' value) :
    Outcome failed' returned' computation := by
  cases computation with
  | error error => exact errors error outcome
  | ok value => exact values value outcome

theorem any (computation : Except Error Value) :
    Outcome (fun _ => True) (fun _ => True) computation := by
  cases computation <;> trivial

/-- A result is the result of its computation. -/
theorem result (computation : Except Error Value) :
    Outcome (fun _ => True) (fun value => computation = .ok value) computation := by
  cases computation with
  | error error => trivial
  | ok value => rfl

theorem and {failed' : Error → Prop} {returned' : Value → Prop}
    (first : Outcome failed returned computation)
    (second : Outcome failed' returned' computation) :
    Outcome (fun error => failed error ∧ failed' error)
      (fun value => returned value ∧ returned' value) computation := by
  cases computation with
  | error error => exact ⟨first, second⟩
  | ok value => exact ⟨first, second⟩

/-- What a computation guarantees for a part of its result. -/
theorem of_map {part : Value → Result} {property : Result → Prop}
    (outcome : Outcome failed property (computation.map part)) :
    Outcome failed (fun value => property (part value)) computation := by
  cases computation with
  | error error => exact outcome
  | ok value => exact outcome

/-- Two sequences agree on a part of their results if their steps do. -/
theorem map_bind {Value' Result' : Type u} {computation' : Except Error Value'}
    {part : Value → Value'} {part' : Result → Result'} {next : Value → Except Error Result}
    {next' : Value' → Except Error Result'} (first : computation.map part = computation')
    (rest : ∀ value, (next value).map part' = next' (part value)) :
    (computation >>= next).map part' = computation' >>= next' := by
  subst first
  cases computation with
  | error error => rfl
  | ok value => exact rest value

theorem mapError {Error' : Type v} {translate : Error → Error'} {failed' : Error' → Prop}
    (outcome : Outcome failed returned computation)
    (errors : ∀ error, failed error → failed' (translate error)) :
    Outcome failed' returned (computation.mapError translate) := by
  cases computation with
  | error error => exact errors error outcome
  | ok value => exact outcome

/-- A computation that cannot fail returns a value. -/
theorem exists_ok (outcome : Outcome (fun _ => False) returned computation) :
    ∃ value, computation = .ok value ∧ returned value := by
  cases computation with
  | error error => exact outcome.elim
  | ok value => exact ⟨value, rfl, outcome⟩

end Outcome

end Coursework
