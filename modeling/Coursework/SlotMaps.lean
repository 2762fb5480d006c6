import Coursework.DirectorySlots
import Mathlib.Tactic.Common

/-!
# Slots as maps

A list of slots in which no name stands twice is a finite map from names to slots and targets.
New entries go into the first free slot, and removing an entry frees its slot, so the map is
told by the list of the changes: a name has the place and the target with which it was entered
last, unless it was removed after that.  Places are multiples of the width of a slot.
-/

namespace Coursework

variable {Name Target : Type*}

/-- A change of a list of slots. -/
inductive SlotChange (Name Target : Type*) where
  | insert (name : Name) (place : Nat) (target : Target)
  | clear (name : Name)

/-- The place and the target of a name after some changes, the latest of them first. -/
def latest [DecidableEq Name] (name : Name) : List (SlotChange Name Target) →
    Option (Nat × Target)
  | [] => none
  | .insert other place target :: earlier =>
      if other = name then some (place, target) else latest name earlier
  | .clear other :: earlier => if other = name then none else latest name earlier

/-- The first free slot, or the one behind the last. -/
def freeSlot (slots : List (Option (Name × Target))) : Nat := slots.findIdx (·.isNone)

/-- No name stands in two slots. -/
def SlotsUnique (slots : List (Option (Name × Target))) : Prop :=
  ∀ (i j : Nat) (name : Name) (target target' : Target),
    slots[i]? = some (some (name, target)) → slots[j]? = some (some (name, target')) → i = j

variable {slots : List (Option (Name × Target))} {name other : Name} {target : Target} {index : Nat}

/-- An insertion changes the first free slot only. -/
theorem getElem?_slotInsert (entry : Name × Target) (slots : List (Option (Name × Target)))
    (i : Nat) : (slotInsert entry slots)[i]? =
      if i = freeSlot slots then some (some entry) else slots[i]? := by
  induction slots generalizing i with
  | nil => cases i <;> simp [slotInsert, freeSlot]
  | cons first rest ih =>
      cases first with
      | none => cases i <;> simp [slotInsert, freeSlot, List.findIdx_cons]
      | some taken =>
          have free : freeSlot (some taken :: rest) = freeSlot rest + 1 := by
            simp [freeSlot, List.findIdx_cons]
          rw [slotInsert, free]
          cases i with
          | zero => simp
          | succ i => simpa using ih i

theorem freeSlot_vacant (slots : List (Option (Name × Target))) (entry : Name × Target) :
    slots[freeSlot slots]? ≠ some (some entry) := by
  intro taken
  obtain ⟨inside, isTaken⟩ := List.getElem?_eq_some_iff.mp taken
  have vacant : slots[freeSlot slots].isNone = true := @List.findIdx_getElem _ _ slots inside
  rw [isTaken] at vacant
  cases vacant

/-- A slot in use keeps its entry when another entry is inserted. -/
theorem getElem?_insert_taken {entry new : Name × Target}
    (taken : slots[index]? = some (some entry)) :
    (slotInsert new slots)[index]? = some (some entry) := by
  rw [getElem?_slotInsert, if_neg, taken]
  rintro rfl
  exact freeSlot_vacant slots entry taken

namespace SlotsUnique

theorem nil : SlotsUnique ([] : List (Option (Name × Target))) := by
  intro i j name target target' first
  simp at first

theorem clear (unique : SlotsUnique slots) (index : Nat) :
    SlotsUnique (slots.set index none) := by
  have old : ∀ {i : Nat} {entry : Name × Target}, (slots.set index none)[i]? = some (some entry) →
      slots[i]? = some (some entry) := by
    intro i entry isEntry
    rw [List.getElem?_set] at isEntry
    split at isEntry
    · split at isEntry <;> cases isEntry
    · exact isEntry
  intro i j name target target' first second
  exact unique i j name target target' (old first) (old second)

variable [DecidableEq Name]

theorem lookup_iff (unique : SlotsUnique slots) :
    slotLookup name slots = some (index, target) ↔ slots[index]? = some (some (name, target)) := by
  refine ⟨slotLookup_get, fun here => ?_⟩
  cases found : slotLookup name slots with
  | none => exact absurd found (slotLookup_ne_none (List.mem_of_getElem? here))
  | some result =>
      obtain ⟨index', target'⟩ := result
      have there := slotLookup_get found
      obtain rfl := unique index index' name target target' here there
      rw [here] at there
      cases there
      rfl

theorem insert (unique : SlotsUnique slots) (absent : slotLookup name slots = none)
    (target : Target) : SlotsUnique (slotInsert (name, target) slots) := by
  have notThere : ∀ i target', slots[i]? ≠ some (some (name, target')) := fun i target' here =>
    slotLookup_ne_none (List.mem_of_getElem? here) absent
  intro i j other first second isFirst isSecond
  rw [getElem?_slotInsert] at isFirst isSecond
  split at isFirst <;> split at isSecond
  · next isFree isFree' => exact isFree.trans isFree'.symm
  · cases isFirst
    exact absurd isSecond (notThere j second)
  · cases isSecond
    exact absurd isFirst (notThere i first)
  · exact unique i j other first second isFirst isSecond

/-- What is found after an insertion. -/
theorem lookup_insert (unique : SlotsUnique slots) (absent : slotLookup name slots = none)
    (target : Target) (other : Name) : slotLookup other (slotInsert (name, target) slots) =
      if name = other then some (freeSlot slots, target) else slotLookup other slots := by
  apply Option.ext
  rintro ⟨i, target'⟩
  rw [(unique.insert absent target).lookup_iff, getElem?_slotInsert]
  by_cases same : name = other
  · subst same
    rw [if_pos rfl]
    by_cases isFree : i = freeSlot slots
    · rw [if_pos isFree]
      simp [isFree]
    · rw [if_neg isFree, ← unique.lookup_iff, absent]
      simp [Ne.symm isFree]
  · rw [if_neg same, unique.lookup_iff]
    by_cases isFree : i = freeSlot slots
    · subst isFree
      simp [same, freeSlot_vacant]
    · rw [if_neg isFree]

/-- What is found after a removal. -/
theorem lookup_clear (unique : SlotsUnique slots)
    (found : slotLookup name slots = some (index, target)) (other : Name) :
    slotLookup other (slots.set index none) =
      if name = other then none else slotLookup other slots := by
  have here := unique.lookup_iff.mp found
  obtain ⟨inside, -⟩ := List.getElem?_eq_some_iff.mp here
  apply Option.ext
  rintro ⟨i, target'⟩
  rw [(unique.clear index).lookup_iff, List.getElem?_set]
  by_cases isIndex : index = i
  · subst isIndex
    rw [if_pos rfl, if_pos inside]
    by_cases same : name = other
    · simp [same]
    · rw [if_neg same, unique.lookup_iff, here]
      simp [same]
  · rw [if_neg isIndex, ← unique.lookup_iff]
    by_cases same : name = other
    · subst same
      rw [if_pos rfl, found]
      simp [isIndex]
    · rw [if_neg same]

end SlotsUnique

variable [DecidableEq Name] {width : Nat} {log : List (SlotChange Name Target)}

/-- The slots, of some width, are what the changes make of none at all. -/
structure SlotsTrack (width : Nat) (log : List (SlotChange Name Target))
    (slots : List (Option (Name × Target))) : Prop where
  unique : SlotsUnique slots
  lookup : ∀ name, (slotLookup name slots).map (fun found => (width * found.1, found.2)) =
    latest name log

namespace SlotsTrack

theorem nil : SlotsTrack width ([] : List (SlotChange Name Target)) [] := ⟨.nil, fun _ => rfl⟩

theorem insert (tracks : SlotsTrack width log slots) (absent : slotLookup name slots = none)
    (target : Target) : SlotsTrack width (.insert name (width * freeSlot slots) target :: log)
      (slotInsert (name, target) slots) := by
  refine ⟨tracks.unique.insert absent target, fun other => ?_⟩
  rw [tracks.unique.lookup_insert absent, latest, ← tracks.lookup]
  split <;> rfl

theorem clear (tracks : SlotsTrack width log slots)
    (found : slotLookup name slots = some (index, target)) :
    SlotsTrack width (.clear name :: log) (slots.set index none) := by
  refine ⟨tracks.unique.clear index, fun other => ?_⟩
  rw [tracks.unique.lookup_clear found, latest, ← tracks.lookup]
  split <;> rfl

theorem absent_iff (tracks : SlotsTrack width log slots) :
    slotLookup name slots = none ↔ latest name log = none := by
  rw [← tracks.lookup, Option.map_eq_none_iff]

end SlotsTrack

end Coursework
