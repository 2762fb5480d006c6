import Mathlib.Order.Basic
import Mathlib.Tactic.Common

/-!
# Round-robin iteration with a change flag

A loop takes the turns `0`, …, `n - 1` of a system again and again.  A flag
records that a turn has changed the state; it is cleared before turn `n - 1`, and
the loop ends after the turn before that one when the flag is still down.  If
turns never shrink a bounded rank, the loop ends, and if the flag was up in the
beginning, then a whole round without a change has preceded the end.
-/

namespace Coursework.RoundRobin

/-- The state after a turn, the flag, and whether the loop ends. -/
structure Turn (State : Type*) where
  state : State
  changes : Bool
  complete : Bool

variable {State : Type*}

/-- The flag as turn `i` finds it. -/
def cleared (n i : Nat) (changes : Bool) : Bool :=
  if (i + 1) % n = 0 then false else changes

/-- The loop from turn `i` on. -/
def rounds (n : Nat) (turn : Nat → State → Bool → Turn State) :
    Nat → Nat → Bool → State → Option State
  | 0, _, _, _ => none
  | fuel + 1, i, changes, state =>
      let taken := turn i state (cleared n i changes)
      if taken.complete then some taken.state
      else rounds n turn fuel ((i + 1) % n) taken.changes taken.state

variable {n : Nat} {turn : Nat → State → Bool → Turn State}

theorem rounds_mono {fuel more i : Nat} {changes : Bool} {state result : State}
    (ends : rounds n turn fuel i changes state = some result) (le : fuel ≤ more) :
    rounds n turn more i changes state = some result := by
  induction fuel generalizing more i changes state with
  | zero => cases ends
  | succ fuel ih =>
      obtain ⟨more, rfl⟩ : ∃ less, more = less + 1 := ⟨more - 1, by omega⟩
      simp only [rounds] at ends ⊢
      split at ends
      · next complete =>
          rw [if_pos complete]
          exact ends
      · next incomplete =>
          rw [if_neg incomplete]
          exact ih ends (by omega)

/-- The flag records changes, and changes raise a bounded rank. -/
structure Growing (n : Nat) (turn : Nat → State → Bool → Turn State) (rank : State → Nat)
    (bound : Nat) (Good : State → Prop) : Prop where
  good : ∀ i state changes, i < n → Good state → Good (turn i state changes).state
  flag : ∀ i state changes, i < n → Good state → ((turn i state changes).changes = false ↔
    changes = false ∧ (turn i state changes).state = state)
  raises : ∀ i state changes, i < n → Good state → (turn i state changes).state ≠ state →
    rank state < rank (turn i state changes).state
  bounded : ∀ state, Good state → rank state ≤ bound

variable {rank : State → Nat} {bound : Nat} {Good : State → Prop}

/-! ## The loop ends -/

/-- The number of turns up to the end when none of them changes the state. -/
def distance (n i : Nat) (changes : Bool) : Nat :=
  if changes then (n - 1 - i) + n else if i = n - 1 then n else n - 1 - i

theorem distance_lt (n i : Nat) (changes : Bool) (inRange : i < n) :
    distance n i changes < 2 * n + 1 := by
  unfold distance
  split
  · omega
  · split <;> omega

/-- A turn that changes nothing and is not the last one brings the end nearer. -/
theorem distance_next {i : Nat} {changes : Bool} (inRange : i < n)
    (incomplete : ¬ ((i + 1) % n = n - 1 ∧ cleared n i changes = false)) :
    distance n ((i + 1) % n) (cleared n i changes) < distance n i changes := by
  by_cases isLast : i = n - 1
  · have next : (i + 1) % n = 0 := by
      rw [isLast, Nat.sub_add_cancel (by omega), Nat.mod_self]
    have flag : cleared n i changes = false := by rw [cleared, if_pos next]
    rw [next, flag] at incomplete ⊢
    have several : n ≠ 1 := by
      rintro rfl
      exact incomplete ⟨rfl, rfl⟩
    have notFirst : ¬ 0 = n - 1 := by omega
    unfold distance
    cases changes with
    | true => simp [notFirst]; omega
    | false => simp [notFirst, isLast]; omega
  · have next : (i + 1) % n = i + 1 := Nat.mod_eq_of_lt (by omega)
    have flag : cleared n i changes = changes := by rw [cleared, next, if_neg (by omega)]
    rw [next, flag] at incomplete ⊢
    unfold distance
    cases changes with
    | true => simp; omega
    | false =>
        have notEnd : i + 1 ≠ n - 1 := by
          intro isEnd
          exact incomplete ⟨isEnd, rfl⟩
        simp [isLast, notEnd]
        omega

/-- The loop ends if the turn before the last one completes it unless the flag is up. -/
theorem rounds_ends (growing : Growing n turn rank bound Good)
    (completes : ∀ i state changes, i < n → Good state → (i + 1) % n = n - 1 →
      (turn i state changes).changes = false → (turn i state changes).complete = true)
    {i : Nat} (inRange : i < n) {state : State} (good : Good state) (changes : Bool) :
    ∃ fuel result, rounds n turn fuel i changes state = some result := by
  induction measure : (bound - rank state) * (2 * n + 1) + distance n i changes using
    Nat.strongRecOn generalizing i state changes with
  | _ size ih =>
      set taken := turn i state (cleared n i changes) with isTaken
      by_cases complete : taken.complete = true
      · refine ⟨1, taken.state, ?_⟩
        simp only [rounds, ← isTaken, complete, if_true]
      · have nextRange : (i + 1) % n < n := Nat.mod_lt _ (by omega)
        have goodAfter : Good taken.state := growing.good i state _ inRange good
        have flag := growing.flag i state (cleared n i changes) inRange good
        rw [← isTaken] at flag
        have smaller : (bound - rank taken.state) * (2 * n + 1) +
            distance n ((i + 1) % n) taken.changes < size := by
          by_cases same : taken.state = state
          · have sameFlag : taken.changes = cleared n i changes := by
              rw [Bool.eq_iff_iff, ← Bool.not_eq_false, ← Bool.not_eq_false, flag]
              simp [same]
            have nearer : distance n ((i + 1) % n) taken.changes < distance n i changes := by
              rw [sameFlag]
              apply distance_next inRange
              rintro ⟨atEnd, down⟩
              exact complete (completes i state _ inRange good atEnd (flag.mpr ⟨down, same⟩))
            rw [same]
            omega
          · have raised : rank state < rank taken.state :=
              growing.raises i state _ inRange good same
            have within := growing.bounded taken.state goodAfter
            have near := distance_lt n ((i + 1) % n) taken.changes nextRange
            have product : (bound - rank taken.state) * (2 * n + 1) + (2 * n + 1) ≤
                (bound - rank state) * (2 * n + 1) := by
              rw [← Nat.succ_mul]
              exact Nat.mul_le_mul_right _ (by omega)
            omega
        obtain ⟨fuel, result, ends⟩ := ih _ smaller nextRange goodAfter taken.changes rfl
        refine ⟨fuel + 1, result, ?_⟩
        simp only [rounds, ← isTaken, complete]
        exact ends

/-! ## What the result is -/

/-- What all turns preserve holds in the end. -/
theorem rounds_invariant (Good : State → Prop)
    (preserved : ∀ i state changes, i < n → Good state → Good (turn i state changes).state)
    {fuel i : Nat} {changes : Bool} {state result : State} (inRange : i < n)
    (good : Good state) (ends : rounds n turn fuel i changes state = some result) :
    Good result := by
  induction fuel generalizing i changes state with
  | zero => cases ends
  | succ fuel ih =>
      have after := preserved i state (cleared n i changes) inRange good
      simp only [rounds] at ends
      split at ends
      · cases ends
        exact after
      · exact ih (Nat.mod_lt _ (by omega)) after ends

/-- The turns since the flag was cleared have changed nothing. -/
def Calm (n : Nat) (turn : Nat → State → Bool → Turn State) (i : Nat) (changes : Bool)
    (state : State) : Prop :=
  changes = false → ∀ k, k < n → k = n - 1 ∨ k < i → (turn k state false).state = state

theorem Calm.next (growing : Growing n turn rank bound Good)
    (uniform : ∀ i state changes, (turn i state changes).state = (turn i state false).state)
    {i : Nat} {changes : Bool} {state : State} (inRange : i < n) (good : Good state)
    (calm : Calm n turn i changes state) :
    Calm n turn ((i + 1) % n) (turn i state (cleared n i changes)).changes
      (turn i state (cleared n i changes)).state := by
  intro down k below window
  obtain ⟨flagDown, same⟩ := (growing.flag i state _ inRange good).mp down
  rw [same]
  rw [uniform] at same
  by_cases isLast : i = n - 1
  · have next : (i + 1) % n = 0 := by
      rw [isLast, Nat.sub_add_cancel (by omega), Nat.mod_self]
    rw [next] at window
    have here : k = i := by omega
    rw [here]
    exact same
  · have next : (i + 1) % n = i + 1 := Nat.mod_eq_of_lt (by omega)
    rw [cleared, next, if_neg (by omega)] at flagDown
    rw [next] at window
    by_cases here : k = i
    · rw [here]
      exact same
    · exact calm flagDown k below (by omega)

/-- Where the loop ends no turn changes the state. -/
theorem rounds_stable (growing : Growing n turn rank bound Good)
    (uniform : ∀ i state changes, (turn i state changes).state = (turn i state false).state)
    (calmEnd : ∀ i state changes, i < n → (turn i state changes).complete = true →
      (i + 1) % n = n - 1 ∧ (turn i state changes).changes = false)
    {fuel i : Nat} {changes : Bool} {state result : State} (inRange : i < n) (good : Good state)
    (calm : Calm n turn i changes state)
    (ends : rounds n turn fuel i changes state = some result) :
    ∀ k, k < n → (turn k result false).state = result := by
  induction fuel generalizing i changes state with
  | zero => cases ends
  | succ fuel ih =>
      have after := calm.next growing uniform inRange good
      simp only [rounds] at ends
      split at ends
      · next complete =>
          cases ends
          obtain ⟨atEnd, down⟩ := calmEnd i state _ inRange complete
          rw [atEnd] at after
          intro k below
          exact after down k below (by omega)
      · exact ih (Nat.mod_lt _ (by omega)) (growing.good i state _ inRange good) after ends

/-! ## The initial value of the flag -/

/-- A loop that starts with the flag down ends at once when the turns before the last
one change nothing. -/
theorem rounds_idle (growing : Growing n turn rank bound Good)
    (completes : ∀ i state changes, i < n → Good state → (i + 1) % n = n - 1 →
      (turn i state changes).changes = false → (turn i state changes).complete = true)
    {i fuel : Nat} {state : State} (good : Good state) (below : i < n - 1)
    (idle : ∀ k, i ≤ k → k < n - 1 → (turn k state false).state = state)
    (early : ∀ k, k < n - 1 → (k + 1) % n ≠ n - 1 → (turn k state false).complete = false)
    (enough : n - 1 - i ≤ fuel) : rounds n turn fuel i false state = some state := by
  induction remaining : n - 1 - i generalizing i fuel with
  | zero => omega
  | succ remaining ih =>
      obtain ⟨fuel, rfl⟩ : ∃ less, fuel = less + 1 := ⟨fuel - 1, by omega⟩
      have next : (i + 1) % n = i + 1 := Nat.mod_eq_of_lt (by omega)
      have flag : cleared n i false = false := by simp [cleared]
      have same := idle i (Nat.le_refl i) below
      have down : (turn i state false).changes = false :=
        (growing.flag i state false (by omega) good).mpr ⟨rfl, same⟩
      rw [rounds, flag]
      by_cases atEnd : (i + 1) % n = n - 1
      · simp only [completes i state false (by omega) good atEnd down, if_true, same]
      · have incomplete := early i below atEnd
        simp only [incomplete, down, same, next]
        apply ih
        · omega
        · intro k le lt
          exact idle k (by omega) lt
        · omega
        · omega

/-- The initial value of the flag does not matter when a turn before the last one
changes the state. -/
theorem rounds_flag (growing : Growing n turn rank bound Good)
    (uniform : ∀ i state changes, (turn i state changes).state = (turn i state false).state)
    (flagUp : ∀ i state, i < n → Good state → (turn i state true).changes = true ∧
      (turn i state true).complete = false)
    (calmEnd : ∀ i state changes, i < n → (turn i state changes).complete = true →
      (i + 1) % n = n - 1 ∧ (turn i state changes).changes = false)
    {i fuel : Nat} {state : State} (good : Good state)
    (active : ∃ k, i ≤ k ∧ k < n - 1 ∧ (turn k state false).state ≠ state) :
    rounds n turn fuel i false state = rounds n turn fuel i true state := by
  induction fuel generalizing i with
  | zero => rfl
  | succ fuel ih =>
      obtain ⟨k, le, below, changed⟩ := active
      have next : (i + 1) % n = i + 1 := Nat.mod_eq_of_lt (by omega)
      have flag : ∀ changes, cleared n i changes = changes := by
        intro changes
        rw [cleared, next, if_neg (by omega)]
      obtain ⟨up, incomplete⟩ := flagUp i state (by omega) good
      rw [rounds, rounds, flag, flag]
      simp only [incomplete, up, uniform i state true]
      by_cases same : (turn i state false).state = state
      · have later : i + 1 ≤ k := by
          by_contra notLater
          have here : k = i := by omega
          exact changed (here ▸ same)
        have notComplete : (turn i state false).complete = false := by
          by_contra isComplete
          have atEnd := (calmEnd i state false (by omega) (by simpa using isComplete)).1
          omega
        have down : (turn i state false).changes = false :=
          (growing.flag i state false (by omega) good).mpr ⟨rfl, same⟩
        simp only [notComplete, down, same, next]
        exact ih ⟨k, later, below, changed⟩
      · have changes : (turn i state false).changes = true := by
          by_contra down
          exact same ((growing.flag i state false (by omega) good).mp (by simpa using down)).2
        have notComplete : (turn i state false).complete = false := by
          by_contra isComplete
          rw [(calmEnd i state false (by omega) (by simpa using isComplete)).2] at changes
          cases changes
        simp only [notComplete, changes]

/-- The only turn of a round finds the flag down. -/
theorem rounds_single {fuel : Nat} {state : State} (changes other : Bool) :
    rounds 1 turn fuel 0 changes state = rounds 1 turn fuel 0 other state := by
  cases fuel with
  | zero => rfl
  | succ fuel => rfl

end Coursework.RoundRobin
