import Mathlib.Logic.Relation
import Mathlib.Tactic.Common

/-!
# Loops

A loop repeats a step, which can fail, until a test holds.  If an invariant keeps
every step from failing and a measure goes down, the loop ends.  `Visits` lists
the states in which the loop tests its condition.
-/

namespace Coursework

variable {State Error : Type*}

/-- Repeat `step` until `finished`, at most `fuel` times. -/
def loop (finished : State → Bool) (step : State → Except Error State) (outOfFuel : Error) :
    Nat → State → Except Error State
  | 0, _ => .error outOfFuel
  | fuel + 1, state =>
      if finished state then .ok state
      else
        match step state with
        | .ok after => loop finished step outOfFuel fuel after
        | .error error => .error error

/-- The states that the loop comes to. -/
inductive Visits (finished : State → Bool) (step : State → Except Error State) (start : State) :
    State → Prop
  | start : Visits finished step start start
  | next {state after : State} : Visits finished step start state → finished state = false →
      step state = .ok after → Visits finished step start after

variable {finished : State → Bool} {step : State → Except Error State} {outOfFuel : Error}
  {start state after : State}

theorem loop_next {fuel : Nat} (unfinished : finished state = false)
    (isStep : step state = .ok after) :
    loop finished step outOfFuel (fuel + 1) state = loop finished step outOfFuel fuel after := by
  rw [loop, if_neg (by simp [unfinished])]
  simp only [isStep]

theorem loop_finished {fuel : Nat} (isFinished : finished state = true) :
    loop finished step outOfFuel (fuel + 1) state = .ok state := by
  rw [loop, if_pos isFinished]

theorem loop_mono {fuel more : Nat} {last : State}
    (ends : loop finished step outOfFuel fuel state = .ok last) (le : fuel ≤ more) :
    loop finished step outOfFuel more state = .ok last := by
  induction fuel generalizing state more with
  | zero => cases ends
  | succ fuel ih =>
      obtain ⟨more, rfl⟩ : ∃ less, more = less + 1 := ⟨more - 1, by omega⟩
      cases isFinished : finished state with
      | true =>
          rw [loop_finished isFinished] at ends ⊢
          exact ends
      | false =>
          cases isStep : step state with
          | error error =>
              rw [loop, if_neg (by simp [isFinished])] at ends
              simp only [isStep] at ends
              cases ends
          | ok after =>
              rw [loop_next isFinished isStep] at ends ⊢
              exact ih ends (by omega)

/-- A loop whose steps do not fail only fails for want of fuel. -/
theorem loop_error (never : ∀ state, ∃ after, step state = .ok after) {fuel : Nat} {error : Error}
    (fails : loop finished step outOfFuel fuel start = .error error) : error = outOfFuel := by
  induction fuel generalizing start with
  | zero => exact (Except.error.inj fails).symm
  | succ fuel ih =>
      cases isFinished : finished start with
      | true =>
          rw [loop_finished isFinished] at fails
          cases fails
      | false =>
          obtain ⟨after, isStep⟩ := never start
          rw [loop_next isFinished isStep] at fails
          exact ih fails

/-- Test the states that a loop comes to. -/
def testAll (finished : State → Bool) (step : State → Except Error State) (test : State → Bool) :
    Nat → State → Bool
  | 0, _ => false
  | fuel + 1, state =>
      finished state || (test state &&
        match step state with
        | .ok after => testAll finished step test fuel after
        | .error _ => true)

theorem test_of_testAll {test : State → Bool} {fuel : Nat}
    (passed : testAll finished step test fuel start = true)
    (visits : Visits finished step start state) (unfinished : finished state = false) :
    test state = true := by
  have along : ∃ fuel, testAll finished step test fuel state = true := by
    clear unfinished
    induction visits with
    | start => exact ⟨fuel, passed⟩
    | next _ unfinished isStep ih =>
        obtain ⟨fuel, tested⟩ := ih
        cases fuel with
        | zero => cases tested
        | succ fuel =>
            simp only [testAll, unfinished, Bool.false_or, Bool.and_eq_true, isStep] at tested
            exact ⟨fuel, tested.2⟩
  obtain ⟨fuel, tested⟩ := along
  cases fuel with
  | zero => cases tested
  | succ fuel =>
      simp only [testAll, unfinished, Bool.false_or, Bool.and_eq_true] at tested
      exact tested.1

namespace Visits

theorem trans {middle : State} (first : Visits finished step start middle)
    (second : Visits finished step middle state) : Visits finished step start state := by
  induction second with
  | start => exact first
  | next _ unfinished isStep ih => exact .next ih unfinished isStep

/-- The result of a loop is the first state in which it ends. -/
theorem of_loop {fuel : Nat} {last : State}
    (ends : loop finished step outOfFuel fuel start = .ok last) :
    Visits finished step start last ∧ finished last = true := by
  induction fuel generalizing start with
  | zero => cases ends
  | succ fuel ih =>
      cases isFinished : finished start with
      | true =>
          rw [loop_finished isFinished] at ends
          cases ends
          exact ⟨.start, isFinished⟩
      | false =>
          cases isStep : step start with
          | error error =>
              rw [loop, if_neg (by simp [isFinished])] at ends
              simp only [isStep] at ends
              cases ends
          | ok after =>
              rw [loop_next isFinished isStep] at ends
              obtain ⟨visits, isLast⟩ := ih ends
              exact ⟨(Visits.next .start isFinished isStep).trans visits, isLast⟩

/-- An invariant holds at the start and survives the steps that are taken. -/
theorem invariant {Inv : State → Prop} (base : Inv start)
    (preserved : ∀ state after, Visits finished step start state → Inv state →
      finished state = false → step state = .ok after → Inv after)
    (visits : Visits finished step start state) : Inv state := by
  induction visits with
  | start => exact base
  | next visits unfinished isStep ih => exact preserved _ _ visits ih unfinished isStep

end Visits

variable (outOfFuel) in
/-- A measure goes down in every step, and no step fails. -/
theorem loop_ends {measure : State → Nat}
    (progress : ∀ state, Visits finished step start state → finished state = false →
      ∃ after, step state = .ok after ∧ measure after < measure state) :
    ∃ last, Visits finished step start last ∧ finished last = true ∧
      ∀ fuel, measure start < fuel → loop finished step outOfFuel fuel start = .ok last := by
  induction size : measure start using Nat.strongRecOn generalizing start with
  | _ size ih =>
      cases isFinished : finished start with
      | true =>
          refine ⟨start, .start, isFinished, ?_⟩
          intro fuel enough
          obtain ⟨fuel, rfl⟩ : ∃ less, fuel = less + 1 := ⟨fuel - 1, by omega⟩
          exact loop_finished isFinished
      | false =>
          obtain ⟨after, isStep, smaller⟩ := progress start .start isFinished
          have first : Visits finished step start after := .next .start isFinished isStep
          obtain ⟨last, visits, isLast, ends⟩ := ih (measure after) (size ▸ smaller)
            (fun state visits => progress state (first.trans visits)) rfl
          refine ⟨last, first.trans visits, isLast, ?_⟩
          intro fuel enough
          obtain ⟨fuel, rfl⟩ : ∃ less, fuel = less + 1 := ⟨fuel - 1, by omega⟩
          rw [loop_next isFinished isStep]
          exact ends fuel (by omega)

/-- A measure goes down in every step that does not fail, so the loop ends or fails. -/
theorem loop_halts {measure : State → Nat}
    (progress : ∀ state after, finished state = false → step state = .ok after →
      measure after < measure state)
    (fails : ∀ state, step state ≠ .error outOfFuel) (start : State) :
    ∃ fuel, loop finished step outOfFuel fuel start ≠ .error outOfFuel := by
  induction size : measure start using Nat.strongRecOn generalizing start with
  | _ size ih =>
      cases isFinished : finished start with
      | true =>
          refine ⟨1, ?_⟩
          rw [loop_finished isFinished]
          simp
      | false =>
          cases isStep : step start with
          | error error =>
              refine ⟨1, ?_⟩
              rw [loop, if_neg (by simp [isFinished])]
              simp only [isStep]
              exact isStep ▸ fails start
          | ok after =>
              have smaller := progress start after isFinished isStep
              obtain ⟨fuel, halts⟩ := ih (measure after) (size ▸ smaller) after rfl
              refine ⟨fuel + 1, ?_⟩
              rw [loop_next isFinished isStep]
              exact halts

end Coursework
