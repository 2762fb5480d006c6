import Coursework.DottedItems
import Coursework.GotoIndices
import Mathlib.Data.List.TakeWhile

/-!
# The texts of items

An item of a grammar is kept as its text, and a set of items as the list of their
texts.  If right sides have no dot and no null character, the text determines the
item, `contains` finds exactly the items of a set, and `add_closure` adds the
productions of the symbol after the dot.
-/

namespace Coursework.Grammar

open DottedItem

/-- The text of an item. -/
def textOf (item : DottedItem Char) : Item :=
  (item.lhs, item.done ++ '.' :: item.rest)

/-- Characters among which a dot can be found and a text does not end early. -/
def Plain (chars : List Char) : Prop :=
  '.' ∉ chars ∧ '\x00' ∉ chars

structure PlainItem (item : DottedItem Char) : Prop where
  lhs : item.lhs ≠ '\x00'
  done : Plain item.done
  rest : Plain item.rest

theorem ne_null_of_isUpper {c : Char} (isUpper : c.isUpper = true) : c ≠ '\x00' := by
  rintro rfl
  cases isUpper

theorem textOf_injective {first second : DottedItem Char} (plain : PlainItem first)
    (same : textOf first = textOf second) : first = second := by
  obtain ⟨sameLhs, sameRhs⟩ := Prod.mk.inj same
  obtain ⟨sameDone, -, sameRest⟩ :=
    (List.append_cons_inj_of_notMem plain.done.1 plain.rest.1).mp sameRhs
  exact DottedItem.ext sameLhs sameDone sameRest

theorem text_textOf {item : DottedItem Char} (plain : PlainItem item) :
    Item.text (textOf item) = item.lhs :: '-' :: '>' :: (item.done ++ '.' :: item.rest) := by
  unfold Item.text textOf
  rw [List.takeWhile_eq_self_iff]
  intro c member
  have notNull : c ≠ '\x00' := by
    rintro rfl
    simp only [List.mem_cons, List.mem_append] at member
    rcases member with isLhs | isDash | isArrow | inDone | isDot | inRest
    · exact plain.lhs isLhs.symm
    · cases isDash
    · cases isArrow
    · exact plain.done.2 inDone
    · cases isDot
    · exact plain.rest.2 inRest
  simpa using notNull

theorem lookahead_textOf {item : DottedItem Char} (plain : PlainItem item) :
    lookahead (textOf item).2 = item.rest.headD '\x00' :=
  lookahead_append plain.done.1 item.rest

theorem moved_textOf {item : DottedItem Char} (plain : PlainItem item) {symbol : Char}
    {rest : List Char} (isNext : item.rest = symbol :: rest) :
    (textOf item).moved = textOf ⟨item.lhs, item.done ++ [symbol], rest⟩ := by
  simp only [Item.moved, textOf, isNext]
  rw [advance_append plain.done.1]
  simp

theorem PlainItem.moved {item : DottedItem Char} (plain : PlainItem item) {symbol : Char}
    {rest : List Char} (isNext : item.rest = symbol :: rest) :
    PlainItem ⟨item.lhs, item.done ++ [symbol], rest⟩ := by
  have plainRest := plain.rest
  rw [isNext] at plainRest
  simp only [Plain, List.mem_cons, not_or] at plainRest
  refine ⟨plain.lhs, ?_, plainRest.1.2, plainRest.2.2⟩
  simp [Plain, plain.done.1, plain.done.2, plainRest.1.1, plainRest.2.1]

/-- The productions of a symbol. -/
def sides (grammar : Char → List (List Char)) (symbol : Char) : Set (List Char) :=
  {rhs | rhs ∈ grammar symbol}

/-- Right sides have no characters of other meaning, and only upper case letters have
right sides. -/
def PlainSides (grammar : Char → List (List Char)) : Prop :=
  ∀ symbol, ∀ rhs ∈ grammar symbol, Plain rhs ∧ symbol.isUpper = true

namespace ItemSet

/-- The items of a set. -/
def items (set : ItemSet) : Set (DottedItem Char) :=
  {item | PlainItem item ∧ textOf item ∈ set.productions}

def AllPlain (set : ItemSet) : Prop :=
  ∀ item ∈ set.productions, ∃ dotted, PlainItem dotted ∧ item = textOf dotted

variable {set : ItemSet} {item : DottedItem Char}

theorem contains_iff (allPlain : set.AllPlain) (plain : PlainItem item) :
    set.contains (textOf item) = true ↔ item ∈ set.items := by
  constructor
  · intro contained
    obtain ⟨existing, member, same⟩ := List.any_eq_true.mp contained
    obtain ⟨dotted, plainDotted, rfl⟩ := allPlain existing member
    have sameText : Item.text (textOf item) = Item.text (textOf dotted) := by simpa using same
    rw [text_textOf plain, text_textOf plainDotted] at sameText
    simp only [List.cons.injEq, true_and] at sameText
    have sameItem : textOf item = textOf dotted := Prod.ext sameText.1 sameText.2
    exact ⟨plain, sameItem ▸ member⟩
  · intro member
    exact contains_of_mem member.2

theorem AllPlain.add (allPlain : set.AllPlain) (plain : PlainItem item) :
    (set.add (textOf item)).AllPlain := by
  intro other member
  rcases mem_add member with old | ⟨-, rfl⟩
  · exact allPlain other old
  · exact ⟨item, plain, rfl⟩

theorem items_add (allPlain : set.AllPlain) (plain : PlainItem item) :
    (set.add (textOf item)).items = insert item set.items := by
  ext other
  constructor
  · rintro ⟨plainOther, member⟩
    rcases mem_add member with old | ⟨-, same⟩
    · exact .inr ⟨plainOther, old⟩
    · exact .inl (textOf_injective plainOther same)
  · rintro (rfl | ⟨plainOther, old⟩)
    · exact (contains_iff (allPlain.add plain) plain).mp contains_add_self
    · exact ⟨plainOther, mem_add_of_mem old⟩

theorem AllPlain.addClosure {grammar : Char → List (List Char)} {symbol : Char}
    (allPlain : set.AllPlain) (plainSides : PlainSides grammar) :
    (set.addClosure grammar symbol).AllPlain := by
  refine addClosure_induction AllPlain allPlain ?_
  intro set allPlain rhs member isUpper
  have plain : PlainItem ⟨symbol, [], rhs⟩ :=
    ⟨ne_null_of_isUpper isUpper, by simp [Plain], (plainSides symbol rhs member).1⟩
  exact allPlain.add plain

/-- The productions of the symbol are added. -/
theorem items_addClosure {grammar : Char → List (List Char)} {symbol : Char}
    (allPlain : set.AllPlain)
    (plainSides : PlainSides grammar) :
    (set.addClosure grammar symbol).items =
      set.items ∪ {item | ∃ rhs ∈ grammar symbol, item = ⟨symbol, [], rhs⟩} := by
  have fold : ∀ sides : List (List Char), symbol.isUpper = true → (∀ rhs ∈ sides, Plain rhs) →
      ∀ set : ItemSet, set.AllPlain → (sides.foldl (fun set rhs => set.add (symbol, '.' :: rhs)) set).items =
        set.items ∪ {item | ∃ rhs ∈ sides, item = ⟨symbol, [], rhs⟩} := by
    intro sides
    induction sides with
    | nil =>
        intro _ _ set _
        ext item
        simp
    | cons rhs sides ih =>
        intro isUpper plainAll set allPlain
        have plain : PlainItem ⟨symbol, [], rhs⟩ :=
          ⟨ne_null_of_isUpper isUpper, by simp [Plain], plainAll rhs (by simp)⟩
        have rest := ih isUpper (fun other member => plainAll other (by simp [member]))
          (set.add (textOf ⟨symbol, [], rhs⟩)) (allPlain.add plain)
        rw [List.foldl_cons]
        refine rest.trans ?_
        rw [items_add allPlain plain]
        ext item
        simp only [Set.mem_union, Set.mem_insert_iff, Set.mem_ofPred, List.mem_cons]
        grind
  unfold ItemSet.addClosure
  split
  · next isUpper =>
      exact fold _ isUpper (fun rhs member => (plainSides symbol rhs member).1) set allPlain
  · next notUpper =>
      have noSides : grammar symbol = [] := by
        rw [List.eq_nil_iff_forall_not_mem]
        intro rhs member
        exact notUpper (plainSides symbol rhs member).2
      ext item
      simp [noSides]

/-- The productions for an item of a set stay within its closure. -/
theorem addClosure_subset {grammar : Char → List (List Char)} (allPlain : set.AllPlain)
    (plainSides : PlainSides grammar) (member : item ∈ set.items) :
    (set.addClosure grammar (lookahead (textOf item).2)).items ⊆
      closure (sides grammar) set.items := by
  rw [items_addClosure allPlain plainSides, lookahead_textOf member.1]
  apply Set.union_subset ((closure _).le_closure _)
  rintro _ ⟨rhs, isSide, rfl⟩
  cases isNext : item.rest with
  | nil => cases ne_null_of_isUpper (plainSides _ rhs isSide).2 (by rw [isNext]; rfl)
  | cons symbol rest =>
      rw [isNext] at isSide
      exact expand_mem_closure ((closure _).le_closure _ member) isNext isSide

/-- The items before the closure keep their places. -/
theorem getElem?_addClosure {grammar : Char → List (List Char)} {symbol : Char} {j : Nat}
    (below : j < set.productions.length) :
    (set.addClosure grammar symbol).productions[j]? = set.productions[j]? := by
  refine (addClosure_induction (fun after => set.productions.length ≤ after.productions.length ∧
    after.productions[j]? = set.productions[j]?) ⟨le_refl _, rfl⟩ ?_).2
  rintro after ⟨length, same⟩ rhs - -
  refine ⟨?_, (getElem?_add (by omega)).trans same⟩
  unfold add push
  split
  · exact length
  · simp only [List.length_append]
    omega

end ItemSet

end Coursework.Grammar
