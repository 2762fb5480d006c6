import Mathlib.Logic.Function.Basic

/-!
# Places that hold resources

A fixed family of places holds resources, at most one each.  A resource carries
a mark that tells whether it is in use.  The marks are right when exactly the
resources held by some place, apart from the reserved ones, are marked, and no
two places hold the same resource.  Filling an empty place with an unmarked
resource and emptying a place keep the marks right.
-/

namespace Coursework

variable {Place Resource : Type*}

/-- The marks of the existing resources agree with what the places hold. -/
structure Owns (existing reserved : Resource → Prop) (marked : Resource → Bool)
    (held : Place → Option Resource) : Prop where
  inside : ∀ place resource, held place = some resource → existing resource
  unreserved : ∀ place resource, held place = some resource → ¬ reserved resource
  isMarked : ∀ place resource, held place = some resource → marked resource = true
  unique : ∀ first second resource, held first = some resource →
    held second = some resource → first = second
  covered : ∀ resource, existing resource → ¬ reserved resource →
    marked resource = true → ∃ place, held place = some resource

namespace Owns

variable {existing reserved : Resource → Prop} {marked : Resource → Bool}
  {held : Place → Option Resource}

/-- No place holds an unmarked resource. -/
theorem held_ne_of_unmarked (owns : Owns existing reserved marked held)
    {resource : Resource} (unmarked : marked resource = false) (place : Place) :
    held place ≠ some resource := by
  intro holds
  have isMarked := owns.isMarked place resource holds
  rw [unmarked] at isMarked
  cases isMarked

variable [DecidableEq Place] [DecidableEq Resource]

/-- An empty place takes an unmarked resource. -/
theorem fill (owns : Owns existing reserved marked held) {place : Place}
    {resource : Resource} (empty : held place = none)
    (inside : existing resource) (unreserved : ¬ reserved resource)
    (unmarked : marked resource = false) :
    Owns existing reserved (Function.update marked resource true)
      (Function.update held place (some resource)) where
  inside := by
    intro other found holds
    rcases eq_or_ne other place with rfl | distinct
    · obtain rfl : resource = found := by simpa using holds
      exact inside
    · rw [Function.update_of_ne distinct] at holds
      exact owns.inside other found holds
  unreserved := by
    intro other found holds
    rcases eq_or_ne other place with rfl | distinct
    · obtain rfl : resource = found := by simpa using holds
      exact unreserved
    · rw [Function.update_of_ne distinct] at holds
      exact owns.unreserved other found holds
  isMarked := by
    intro other found holds
    rcases eq_or_ne found resource with rfl | different
    · simp
    · rw [Function.update_of_ne different]
      rcases eq_or_ne other place with rfl | distinct
      · simp [Ne.symm different] at holds
      · rw [Function.update_of_ne distinct] at holds
        exact owns.isMarked other found holds
  unique := by
    intro first second found firstHolds secondHolds
    have elsewhere : ∀ other, other ≠ place →
        Function.update held place (some resource) other = some found →
        found ≠ resource := by
      intro other distinct holds equal
      rw [Function.update_of_ne distinct, equal] at holds
      exact owns.held_ne_of_unmarked unmarked other holds
    rcases eq_or_ne first place with rfl | firstDistinct
    · have same : resource = found := by simpa using firstHolds
      by_contra differ
      exact elsewhere second (Ne.symm differ) secondHolds same.symm
    · rcases eq_or_ne second place with rfl | secondDistinct
      · have same : resource = found := by simpa using secondHolds
        exact (elsewhere first firstDistinct firstHolds same.symm).elim
      · rw [Function.update_of_ne firstDistinct] at firstHolds
        rw [Function.update_of_ne secondDistinct] at secondHolds
        exact owns.unique first second found firstHolds secondHolds
  covered := by
    intro found isInside isFree isMarked
    rcases eq_or_ne found resource with rfl | different
    · exact ⟨place, by simp⟩
    · rw [Function.update_of_ne different] at isMarked
      obtain ⟨other, holds⟩ := owns.covered found isInside isFree isMarked
      have distinct : other ≠ place := by
        rintro rfl
        rw [empty] at holds
        cases holds
      exact ⟨other, by rw [Function.update_of_ne distinct, holds]⟩

/-- A place gives up its resource. -/
theorem empty (owns : Owns existing reserved marked held) {place : Place}
    {resource : Resource} (full : held place = some resource) :
    Owns existing reserved (Function.update marked resource false)
      (Function.update held place none) := by
  have kept : ∀ other found, Function.update held place none other = some found →
      held other = some found ∧ found ≠ resource := by
    intro other found holds
    rcases eq_or_ne other place with rfl | distinct
    · simp at holds
    · rw [Function.update_of_ne distinct] at holds
      refine ⟨holds, ?_⟩
      rintro rfl
      exact distinct (owns.unique other place found holds full)
  refine ⟨?_, ?_, ?_, ?_, ?_⟩
  · intro other found holds
    exact owns.inside other found (kept other found holds).1
  · intro other found holds
    exact owns.unreserved other found (kept other found holds).1
  · intro other found holds
    obtain ⟨held, different⟩ := kept other found holds
    rw [Function.update_of_ne different]
    exact owns.isMarked other found held
  · intro first second found firstHolds secondHolds
    exact owns.unique first second found (kept first found firstHolds).1
      (kept second found secondHolds).1
  · intro found isInside isFree isMarked
    have different : found ≠ resource := by
      rintro rfl
      simp at isMarked
    rw [Function.update_of_ne different] at isMarked
    obtain ⟨other, holds⟩ := owns.covered found isInside isFree isMarked
    have distinct : other ≠ place := by
      rintro rfl
      exact different (Option.some.inj (holds.symm.trans full))
    exact ⟨other, by rw [Function.update_of_ne distinct, holds]⟩

end Owns

end Coursework
