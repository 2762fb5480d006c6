import Mathlib.Data.List.Basic

/-!
# Directories as lists of slots

A directory is a file of fixed-size slots, each free or holding a name and what
it names.  A name is looked up from the first slot on, a new entry goes into the
first free slot or after the last one, and removing an entry frees its slot.
-/

namespace Coursework

variable {Name Target : Type*} [DecidableEq Name]

/-- Find the slot of a name: its index and what the name refers to. -/
def slotLookup (name : Name) : List (Option (Name × Target)) → Option (Nat × Target)
  | [] => none
  | none :: rest => (slotLookup name rest).map fun found => (found.1 + 1, found.2)
  | some entry :: rest =>
      if entry.1 = name then some (0, entry.2)
      else (slotLookup name rest).map fun found => (found.1 + 1, found.2)

/-- Write an entry into the first free slot. -/
def slotInsert (entry : Name × Target) :
    List (Option (Name × Target)) → List (Option (Name × Target))
  | [] => [some entry]
  | none :: rest => some entry :: rest
  | some other :: rest => some other :: slotInsert entry rest

theorem slotLookup_get {name : Name} {slots : List (Option (Name × Target))} {index : Nat}
    {target : Target} (found : slotLookup name slots = some (index, target)) :
    slots[index]? = some (some (name, target)) := by
  induction slots generalizing index with
  | nil => cases found
  | cons slot rest ih =>
      cases slot with
      | none =>
          obtain ⟨⟨inner, value⟩, isFound, same⟩ := Option.map_eq_some_iff.mp found
          cases same
          exact ih isFound
      | some entry =>
          simp only [slotLookup] at found
          split at found
          · next same =>
              obtain ⟨rfl, rfl⟩ := Prod.mk.inj (Option.some.inj found)
              simp [← same]
          · obtain ⟨⟨inner, value⟩, isFound, same⟩ := Option.map_eq_some_iff.mp found
            cases same
            exact ih isFound

theorem slotLookup_mem {name : Name} {slots : List (Option (Name × Target))} {index : Nat}
    {target : Target} (found : slotLookup name slots = some (index, target)) :
    some (name, target) ∈ slots :=
  List.mem_of_getElem? (slotLookup_get found)

theorem slotLookup_ne_none {name : Name} {slots : List (Option (Name × Target))}
    {target : Target} (member : some (name, target) ∈ slots) :
    slotLookup name slots ≠ none := by
  induction slots with
  | nil => cases member
  | cons slot rest ih =>
      cases slot with
      | none =>
          have inRest : some (name, target) ∈ rest := by simpa using member
          simpa [slotLookup] using ih inRest
      | some entry =>
          by_cases same : entry.1 = name
          · simp [slotLookup, same]
          · have inRest : some (name, target) ∈ rest := by
              rcases List.mem_cons.mp member with here | inRest
              · exact (same (by rw [← Option.some.inj here])).elim
              · exact inRest
            simpa [slotLookup, same] using ih inRest

omit [DecidableEq Name] in
theorem mem_slotInsert {entry : Name × Target} {slots : List (Option (Name × Target))}
    {slot : Option (Name × Target)} (member : slot ∈ slotInsert entry slots) :
    slot = some entry ∨ slot ∈ slots := by
  induction slots with
  | nil => exact Or.inl (by simpa [slotInsert] using member)
  | cons first rest ih =>
      cases first with
      | none =>
          rcases List.mem_cons.mp member with here | inRest
          · exact Or.inl here
          · exact Or.inr (List.mem_cons_of_mem _ inRest)
      | some other =>
          rcases List.mem_cons.mp member with here | inRest
          · exact Or.inr (here ▸ List.mem_cons_self)
          · rcases ih inRest with isNew | old
            · exact Or.inl isNew
            · exact Or.inr (List.mem_cons_of_mem _ old)

omit [DecidableEq Name] in
/-- An insertion adds the new entry to any count of entries. -/
theorem countP_slotInsert {test : Option (Name × Target) → Bool} (free : test none = false)
    (entry : Name × Target) (slots : List (Option (Name × Target))) :
    (slotInsert entry slots).countP test =
      slots.countP test + (test (some entry)).toNat := by
  induction slots with
  | nil => cases passes : test (some entry) <;> simp [slotInsert, passes]
  | cons first rest ih =>
      cases first with
      | none => cases passes : test (some entry) <;> simp [slotInsert, free, passes]
      | some other =>
          simp only [slotInsert, List.countP_cons, ih]
          omega

omit [DecidableEq Name] in
/-- Freeing a slot takes its entry out of any count of entries. -/
theorem countP_slotClear {test : Option (Name × Target) → Bool} (free : test none = false)
    {slots : List (Option (Name × Target))} {index : Nat} {slot : Option (Name × Target)}
    (here : slots[index]? = some slot) :
    (slots.set index none).countP test + (test slot).toNat = slots.countP test := by
  induction slots generalizing index with
  | nil => simp at here
  | cons first rest ih =>
      cases index with
      | zero =>
          obtain rfl : first = slot := by simpa using here
          cases passes : test first <;> simp [free, passes]
      | succ index =>
          have inRest : rest[index]? = some slot := by simpa using here
          simp only [List.set_cons_succ, List.countP_cons]
          have := ih inRest
          omega

omit [DecidableEq Name] in
theorem mem_slotClear {slots : List (Option (Name × Target))} {index : Nat}
    {slot : Option (Name × Target)} (member : slot ∈ slots.set index none) :
    slot = none ∨ slot ∈ slots := by
  rcases List.mem_or_eq_of_mem_set member with old | isNone
  · exact Or.inr old
  · exact Or.inl isNone

end Coursework
