import Mathlib.Data.List.Nodup
import Mathlib.Data.Fintype.Card
import Mathlib.Logic.Function.Basic
import Mathlib.Tactic.Common

/-!
# Queues of linked items

A queue has a pointer to its first item, and every item has a pointer to the next one.
An item is appended with a pointer to these pointers: it is moved along the queue until
what it points to is null, and the new item is stored there.  The pointers spell a list of
items without repetitions; appending and removing the first item change the list in the
way their names say, and the walk to the end takes no more steps than there are items.
-/

namespace Coursework

structure LinkedQueue (Item : Type*) where
  first : Option Item
  next : Item → Option Item

namespace LinkedQueue

/-- Where a pointer is stored: in the queue, or in an item. -/
inductive Place (Item : Type*)
  | first
  | next (item : Item)

variable {Item : Type*}

/-- `*pp`. -/
def get (queue : LinkedQueue Item) : Place Item → Option Item
  | .first => queue.first
  | .next item => queue.next item

/-- The place of the null pointer, at most `fuel` places from `pp` on. -/
def walk (queue : LinkedQueue Item) : Nat → Place Item → Option (Place Item)
  | 0, _ => none
  | fuel + 1, pp =>
      match queue.get pp with
      | none => some pp
      | some item => queue.walk fuel (.next item)

/-- The pointers from a place on spell a list of items. -/
def Spells (queue : LinkedQueue Item) : Place Item → List Item → Prop
  | pp, [] => queue.get pp = none
  | pp, item :: rest => queue.get pp = some item ∧ queue.Spells (.next item) rest

/-- The place of the last pointer of a list of items that starts at a place. -/
def lastPlace : Place Item → List Item → Place Item
  | pp, [] => pp
  | _, item :: rest => lastPlace (.next item) rest

theorem walk_eq {queue : LinkedQueue Item} {pp : Place Item} {order : List Item} {fuel : Nat}
    (spells : queue.Spells pp order) (enough : order.length < fuel) :
    queue.walk fuel pp = some (lastPlace pp order) := by
  induction order generalizing pp fuel with
  | nil =>
      obtain ⟨fuel, rfl⟩ := Nat.exists_eq_add_one.mpr enough
      have isEnd : queue.get pp = none := spells
      simp only [walk, isEnd, lastPlace]
  | cons item rest ih =>
      obtain ⟨fuel, rfl⟩ := Nat.exists_eq_add_one.mpr (Nat.zero_lt_of_lt enough)
      obtain ⟨isItem, later⟩ := spells
      simp only [walk, isItem, lastPlace]
      exact ih later (by simpa using enough)

/-- The queue holds these items, each once. -/
structure Holds (queue : LinkedQueue Item) (order : List Item) : Prop where
  nodup : order.Nodup
  spells : queue.Spells .first order

theorem Holds.first {queue : LinkedQueue Item} {order : List Item} (holds : queue.Holds order) :
    queue.first = order.head? := by
  cases order with
  | nil => exact holds.spells
  | cons item rest => exact holds.spells.1

/-- Remove the first item. -/
theorem Holds.pop {queue : LinkedQueue Item} {item : Item} {rest : List Item}
    (holds : queue.Holds (item :: rest)) :
    Holds { queue with first := queue.next item } rest := by
  have same : ∀ (pp : Place Item) (order : List Item), pp ≠ .first →
      queue.Spells pp order → Spells { queue with first := queue.next item } pp order := by
    intro pp order notFirst spells
    induction order generalizing pp with
    | nil =>
        cases pp with
        | first => exact absurd rfl notFirst
        | next other => exact spells
    | cons other rest ih =>
        cases pp with
        | first => exact absurd rfl notFirst
        | next before => exact ⟨spells.1, ih (.next other) (by simp) spells.2⟩
  refine ⟨(List.nodup_cons.mp holds.nodup).2, ?_⟩
  have later := holds.spells.2
  cases rest with
  | nil => exact later
  | cons second rest => exact ⟨later.1, same (.next second) rest (by simp) later.2⟩

variable [DecidableEq Item]

/-- `*pp = item`. -/
def set (queue : LinkedQueue Item) (pp : Place Item) (value : Option Item) :
    LinkedQueue Item :=
  match pp with
  | .first => { queue with first := value }
  | .next item => { queue with next := Function.update queue.next item value }

/-- Append an item: clear its pointer, walk to the end and store the item there. -/
def append (queue : LinkedQueue Item) (fuel : Nat) (item : Item) : Option (LinkedQueue Item) :=
  let cleared := queue.set (.next item) none
  (cleared.walk fuel .first).map fun pp => cleared.set pp (some item)

/-- The item that a place belongs to is none of the items. -/
def Place.Apart (pp : Place Item) (order : List Item) : Prop :=
  ∀ item, pp = .next item → item ∉ order

omit [DecidableEq Item] in
theorem Place.Apart.tail {pp : Place Item} {item : Item} {rest : List Item}
    (apart : pp.Apart (item :: rest)) : pp.Apart rest :=
  fun other isNext member => apart other isNext (List.mem_cons_of_mem _ member)

omit [DecidableEq Item] in
theorem lastPlace_ne {start pp : Place Item} {order : List Item} (distinct : start ≠ pp)
    (apart : pp.Apart order) : lastPlace start order ≠ pp := by
  induction order generalizing start with
  | nil => exact distinct
  | cons item rest ih =>
      refine ih ?_ apart.tail
      rintro rfl
      exact apart item rfl List.mem_cons_self

theorem get_set_of_ne {queue : LinkedQueue Item} {pp other : Place Item} {value : Option Item}
    (distinct : other ≠ pp) : (queue.set pp value).get other = queue.get other := by
  cases pp with
  | first =>
      cases other with
      | first => exact absurd rfl distinct
      | next item => rfl
  | next item =>
      cases other with
      | first => rfl
      | next item' =>
          have different : item' ≠ item := by
            rintro rfl
            exact distinct rfl
          exact Function.update_of_ne different _ _

theorem get_set_self {queue : LinkedQueue Item} {pp : Place Item} {value : Option Item} :
    (queue.set pp value).get pp = value := by
  cases pp with
  | first => rfl
  | next item => exact Function.update_self ..

/-- A pointer that is not one of the list can be changed. -/
theorem Spells.set {queue : LinkedQueue Item} {pp changed : Place Item} {order : List Item}
    {value : Option Item} (spells : queue.Spells pp order) (notHere : pp ≠ changed)
    (apart : changed.Apart order) : (queue.set changed value).Spells pp order := by
  induction order generalizing pp with
  | nil => exact (get_set_of_ne notHere).trans spells
  | cons item rest ih =>
      refine ⟨(get_set_of_ne notHere).trans spells.1, ih spells.2 ?_ apart.tail⟩
      rintro rfl
      exact apart item rfl List.mem_cons_self

/-- Storing an item with a null pointer at the end appends it. -/
theorem Spells.concat {queue : LinkedQueue Item} {pp : Place Item} {order : List Item}
    {item : Item} (spells : queue.Spells pp order) (isLast : queue.get (.next item) = none)
    (absent : item ∉ order) (notHere : pp ≠ .next item) (nodup : order.Nodup)
    (apart : pp.Apart order) :
    (queue.set (lastPlace pp order) (some item)).Spells pp (order ++ [item]) := by
  induction order generalizing pp with
  | nil =>
      refine ⟨get_set_self, ?_⟩
      exact (get_set_of_ne (Ne.symm notHere)).trans isLast
  | cons first rest ih =>
      obtain ⟨notFirst, notRest⟩ : item ≠ first ∧ item ∉ rest := by simpa using absent
      obtain ⟨firstAbsent, nodup⟩ := List.nodup_cons.mp nodup
      have firstApart : (Place.next first).Apart rest := by
        rintro other ⟨⟩
        exact firstAbsent
      have later : pp ≠ lastPlace (.next first) rest := by
        refine (lastPlace_ne ?_ apart.tail).symm
        rintro rfl
        exact apart first rfl List.mem_cons_self
      refine ⟨(get_set_of_ne later).trans spells.1, ?_⟩
      exact ih spells.2 notRest (by simpa using Ne.symm notFirst) nodup firstApart

theorem Holds.append {queue : LinkedQueue Item} {order : List Item} {item : Item} {fuel : Nat}
    (holds : queue.Holds order) (absent : item ∉ order) (enough : order.length < fuel) :
    ∃ after, queue.append fuel item = some after ∧ after.Holds (order ++ [item]) := by
  have apart : (Place.next item).Apart order := by
    rintro other ⟨⟩
    exact absent
  have cleared : (queue.set (.next item) none).Spells .first order :=
    holds.spells.set (by simp) apart
  have appended : queue.append fuel item =
      some ((queue.set (.next item) none).set (lastPlace .first order) (some item)) := by
    simp only [LinkedQueue.append, walk_eq cleared enough, Option.map_some]
  refine ⟨_, appended, ?_, ?_⟩
  · rw [List.nodup_append]
    refine ⟨holds.nodup, List.nodup_singleton item, ?_⟩
    rintro first member second isItem rfl
    exact absent (List.mem_singleton.mp isItem ▸ member)
  · exact cleared.concat get_set_self absent (by simp) holds.nodup (by rintro other ⟨⟩)

omit [DecidableEq Item] in
/-- A queue of distinct items is not longer than their number. -/
theorem Holds.length_lt [Fintype Item] {queue : LinkedQueue Item} {order : List Item}
    (holds : queue.Holds order) : order.length < Fintype.card Item + 1 :=
  Nat.lt_add_one_of_le holds.nodup.length_le_card

end LinkedQueue

end Coursework
