import Mathlib.Data.List.Chain
import Mathlib.Data.List.Nodup
import Mathlib.Logic.Function.Basic
import Mathlib.Tactic.Common

/-!
# Rings of doubly linked items

A ring goes through a head that is no item and through items in some order, and
every node points to the next and to the previous one.  A node is an item or
`none`, the head.  The nodes in the order in which `next` visits them, with the
head at both ends, form a chain whose neighbours point to each other; unlinking
an item and inserting one at the front change the chain in the way they change
the order.
-/

namespace Coursework

structure Links (Item : Type*) where
  next : Option Item → Option Item
  prev : Option Item → Option Item

namespace Links

variable {Item : Type*}

/-- Two nodes that point to each other. -/
def Joined (links : Links Item) (first second : Option Item) : Prop :=
  links.next first = second ∧ links.prev second = first

/-- The ring goes through these items in this order. -/
def Visits (links : Links Item) (order : List Item) : Prop :=
  order.Nodup ∧ (none :: (order.map some ++ [none])).IsChain links.Joined

/-- The first item that passes the test, of at most `fuel` items from a node on. -/
def scan (follow : Option Item → Option Item) (test : Item → Bool) :
    Nat → Option Item → Option Item
  | 0, _ => none
  | _ + 1, none => none
  | fuel + 1, some item =>
      if test item then some item else scan follow test fuel (follow (some item))

theorem scan_passes {follow : Option Item → Option Item} {test : Item → Bool} {fuel : Nat}
    {node : Option Item} {item : Item} (found : scan follow test fuel node = some item) :
    test item = true := by
  induction fuel generalizing node with
  | zero => cases found
  | succ fuel ih =>
      cases node with
      | none => cases found
      | some first =>
          simp only [scan] at found
          split at found
          · next passes =>
              cases found
              exact passes
          · exact ih found

/-- A scan along the chain looks at every item. -/
theorem scan_next {links : Links Item} {test : Item → Bool} {order : List Item} {fuel : Nat}
    {node : Option Item} (chain : (node :: (order.map some ++ [none])).IsChain links.Joined)
    (enough : order.length ≤ fuel) :
    scan links.next test fuel (links.next node) = order.find? test := by
  induction order generalizing node fuel with
  | nil =>
      simp only [List.map_nil, List.nil_append, List.isChain_cons_cons] at chain
      rw [chain.1.1]
      cases fuel with
      | zero => rfl
      | succ fuel => rfl
  | cons item rest ih =>
      simp only [List.map_cons, List.cons_append, List.isChain_cons_cons] at chain
      cases fuel with
      | zero => simp at enough
      | succ fuel =>
          have bound : rest.length ≤ fuel := by simpa using enough
          rw [chain.1.1, scan, List.find?_cons]
          cases passes : test item with
          | true => rfl
          | false => simpa using ih chain.2 bound

theorem Visits.scan_next {links : Links Item} {test : Item → Bool} {order : List Item}
    {fuel : Nat} (visits : links.Visits order) (enough : order.length ≤ fuel) :
    scan links.next test fuel (links.next none) = order.find? test :=
  Links.scan_next visits.2 enough

variable [DecidableEq Item]

/-- Insert an item after the head. -/
def insertFront (links : Links Item) (item : Item) : Links Item :=
  let first := links.next none
  { next := Function.update (Function.update links.next (some item) first) none (some item)
    prev := Function.update (Function.update links.prev (some item) none) first (some item) }

/-- Let the neighbours of an item point past it. -/
def unlink (links : Links Item) (item : Item) : Links Item :=
  { next := Function.update links.next (links.prev (some item)) (links.next (some item))
    prev := Function.update links.prev (links.next (some item)) (links.prev (some item)) }

theorem Visits.insertFront {links : Links Item} {order : List Item} {item : Item}
    (visits : links.Visits order) (absent : item ∉ order) :
    (links.insertFront item).Visits (item :: order) := by
  obtain ⟨nodup, chain⟩ := visits
  refine ⟨List.nodup_cons.mpr ⟨absent, nodup⟩, ?_⟩
  rw [List.isChain_cons] at chain
  obtain ⟨front, inner⟩ := chain
  obtain ⟨first, isFirst⟩ : ∃ first, first ∈ (order.map some ++ [none]).head? := by
    cases order <;> simp
  have joinedFront := front first isFirst
  have isItem : ∀ node ∈ order.map some, node ≠ none ∧ node ≠ some item := by
    intro node member
    obtain ⟨other, inOrder, rfl⟩ := List.mem_map.mp member
    refine ⟨by simp, ?_⟩
    intro same
    cases same
    exact absent inOrder
  have firstIsNot : first ≠ some item := by
    have member := List.mem_of_mem_head? isFirst
    rcases List.mem_append.mp member with inItems | isHead
    · exact (isItem first inItems).2
    · rw [List.mem_singleton.mp isHead]
      simp
  have kept : ∀ here there, here ≠ none → here ≠ some item → there ≠ some item →
      links.Joined here there → (links.insertFront item).Joined here there := by
    intro here there notHead notItem otherItem joined
    have notFirst : there ≠ first := by
      rintro rfl
      exact notHead (joined.2.symm.trans joinedFront.2)
    constructor
    · simp only [Links.insertFront]
      rw [Function.update_of_ne notHead, Function.update_of_ne notItem]
      exact joined.1
    · simp only [Links.insertFront]
      rw [joinedFront.1, Function.update_of_ne notFirst, Function.update_of_ne otherItem]
      exact joined.2
  rw [List.map_cons, List.cons_append, List.isChain_cons_cons, List.isChain_cons]
  refine ⟨⟨?_, ?_⟩, ?_, ?_⟩
  · simp [Links.insertFront]
  · simp only [Links.insertFront]
    rw [joinedFront.1, Function.update_of_ne (Ne.symm firstIsNot), Function.update_self]
  · intro second isSecond
    cases Option.mem_unique isFirst isSecond
    constructor
    · simp only [Links.insertFront]
      rw [Function.update_of_ne (by simp), Function.update_self]
      exact joinedFront.1
    · simp only [Links.insertFront]
      rw [joinedFront.1, Function.update_self]
  · rw [List.isChain_append] at inner ⊢
    obtain ⟨items, -, last⟩ := inner
    refine ⟨?_, List.isChain_singleton _, ?_⟩
    · apply items.imp_of_mem_imp
      intro here there inHere inThere joined
      exact kept here there (isItem here inHere).1 (isItem here inHere).2
        (isItem there inThere).2 joined
    · intro here isLast there isHead
      have member := List.mem_of_mem_getLast? isLast
      have isNone : there = none := by simpa using isHead.symm
      apply kept here there (isItem here member).1 (isItem here member).2
      · simp [isNone]
      · exact last here isLast there isHead

theorem Visits.unlink {links : Links Item} {before after : List Item} {item : Item}
    (visits : links.Visits (before ++ item :: after)) :
    (links.unlink item).Visits (before ++ after) := by
  obtain ⟨nodup, chain⟩ := visits
  obtain ⟨absent, rest⟩ := List.nodup_cons.mp (List.nodup_middle.mp nodup)
  rw [List.mem_append, not_or] at absent
  refine ⟨rest, ?_⟩
  have split : none :: ((before ++ item :: after).map some ++ [none]) =
      (none :: before.map some) ++ (some item :: (after.map some ++ [none])) := by simp
  have joinedUp : none :: ((before ++ after).map some ++ [none]) =
      (none :: before.map some) ++ (after.map some ++ [none]) := by simp
  rw [split, List.isChain_append, List.isChain_cons (x := some item)] at chain
  rw [joinedUp, List.isChain_append]
  obtain ⟨left, ⟨toRight, right⟩, toItem⟩ := chain
  obtain ⟨last, isLast⟩ : ∃ last, last ∈ (none :: before.map some).getLast? :=
    ⟨_, List.getLast?_eq_some_getLast (List.cons_ne_nil _ _)⟩
  obtain ⟨first, isFirst⟩ : ∃ first, first ∈ (after.map some ++ [none]).head? := by
    cases after <;> simp
  have previous := toItem last isLast (some item) (by simp)
  have following := toRight first isFirst
  have kept : ∀ here there, here ≠ some item → there ≠ some item →
      links.Joined here there → (links.unlink item).Joined here there := by
    intro here there hereIsNot thereIsNot joined
    have notLast : here ≠ last := by
      rintro rfl
      exact thereIsNot (joined.1.symm.trans previous.1)
    have notFirst : there ≠ first := by
      rintro rfl
      exact hereIsNot (joined.2.symm.trans following.2)
    constructor
    · simp only [Links.unlink]
      rw [previous.2, Function.update_of_ne notLast]
      exact joined.1
    · simp only [Links.unlink]
      rw [following.1, Function.update_of_ne notFirst]
      exact joined.2
  refine ⟨?_, ?_, ?_⟩
  · apply left.imp_of_mem_imp
    intro here there inHere inThere joined
    apply kept here there _ _ joined
    · rintro rfl
      exact absent.1 (by simpa using inHere)
    · rintro rfl
      exact absent.1 (by simpa using inThere)
  · apply right.imp_of_mem_imp
    intro here there inHere inThere joined
    apply kept here there _ _ joined
    · rintro rfl
      exact absent.2 (by simpa using inHere)
    · rintro rfl
      exact absent.2 (by simpa using inThere)
  · intro here isHere there isThere
    cases Option.mem_unique isLast isHere
    cases Option.mem_unique isFirst isThere
    constructor
    · simp [Links.unlink, previous.2, following.1]
    · simp [Links.unlink, previous.2, following.1]

/-- Moving an item to the front. -/
theorem Visits.moveFront {links : Links Item} {order : List Item} {item : Item}
    (visits : links.Visits order) (member : item ∈ order) :
    ∃ moved, moved.Perm order ∧ ((links.unlink item).insertFront item).Visits moved := by
  obtain ⟨before, after, rfl⟩ := List.append_of_mem member
  have absent := (List.nodup_cons.mp (List.nodup_middle.mp visits.1)).1
  exact ⟨item :: (before ++ after), List.perm_middle.symm,
    visits.unlink.insertFront absent⟩

omit [DecidableEq Item] in
/-- The ring of the head alone. -/
theorem visits_nil : (⟨fun _ => none, fun _ => none⟩ : Links Item).Visits [] := by
  refine ⟨List.nodup_nil, ?_⟩
  rw [List.map_nil, List.nil_append, List.isChain_pair]
  exact ⟨rfl, rfl⟩

theorem Visits.foldl_insertFront {links : Links Item} {order items : List Item}
    (visits : links.Visits order) (nodup : items.Nodup) (apart : items.Disjoint order) :
    (items.foldl Links.insertFront links).Visits (items.reverse ++ order) := by
  induction items generalizing links order with
  | nil => exact visits
  | cons item rest ih =>
      obtain ⟨notInRest, restNodup⟩ := List.nodup_cons.mp nodup
      obtain ⟨notInOrder, restApart⟩ := List.disjoint_cons_left.mp apart
      rw [List.foldl_cons, List.reverse_cons, List.append_assoc]
      apply ih (visits.insertFront notInOrder) restNodup
      rw [List.disjoint_cons_right]
      exact ⟨notInRest, restApart⟩

end Links

end Coursework
