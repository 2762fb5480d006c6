import Coursework.LedgerExactness
import Mathlib.Algebra.BigOperators.Group.Finset.Piecewise

/-!
# The tree of a ledger

An exact ledger with nothing pending is a tree.  The link count of an inode is the number of
entries for it in directories that have links themselves, apart from `.`, and every inode with
links can be reached from the root.  A directory is older than the directories that it contains, so
the way back to the root along the containers ends.
-/

namespace Coursework.Directory

open FileSystem (FileType)

/-- The slot has a name other than `.` for an inode. -/
def refersTo {Inum : Type} [DecidableEq Inum] (inum : Inum) : Slot Inum → Bool
  | some (name, target) => decide (name ≠ dot) && decide (target = inum)
  | none => false

/-- The second inode has a name in the first one, other than the dots. -/
def Names {Inum : Type} (entries : Inum → List (Slot Inum)) (dir inum : Inum) : Prop :=
  ∃ name, name ≠ dot ∧ name ≠ dotdot ∧ some (name, inum) ∈ entries dir

/-- The entries for an inode in directories with links, not counting `.`. -/
def linksFrom {Inum : Type} [DecidableEq Inum] [Fintype Inum] (nlink : Inum → Int)
    (entries : Inum → List (Slot Inum)) (inum : Inum) : Nat :=
  ∑ dir, if nlink dir = 0 then 0 else (entries dir).countP (refersTo inum)

namespace Ledger

variable {Inum : Type} [DecidableEq Inum] [Fintype Inum] {root : Inum} {ledger : Ledger Inum}

omit [Fintype Inum] in
/-- In a directory, the entries for an inode are its names there and perhaps `..`. -/
theorem countP_refersTo {self parent inum : Inum} {rest : List (Slot Inum)}
    (noDots : ∀ name inum, some (name, inum) ∈ rest → name ≠ dot ∧ name ≠ dotdot) :
    (dotEntries self parent ++ rest).countP (refersTo inum) =
      (dotEntries self parent ++ rest).countP (linksTo inum) + (decide (parent = inum)).toNat := by
  have same : rest.countP (refersTo inum) = rest.countP (linksTo inum) := by
    apply List.countP_congr
    intro slot member
    cases slot with
    | none => rfl
    | some entry =>
        obtain ⟨name, target⟩ := entry
        have notDots := noDots name target member
        simp [refersTo, linksTo, notDots]
  have notDot : dotdot ≠ dot := by decide
  rw [List.countP_append, List.countP_append, countP_dotEntries, same]
  have dots : (dotEntries self parent).countP (refersTo inum) = (decide (parent = inum)).toNat := by
    by_cases isParent : parent = inum <;> simp [dotEntries, refersTo, notDot, isParent]
  omega

/-- A directory with entries other than the dots is attached. -/
theorem Exact.attached_of_names (isExact : Exact ledger) (sound : Sound root ledger)
    {dir inum : Inum} (names : Names ledger.entries dir inum) : ledger.attached dir = true := by
  obtain ⟨name, notDot, notDotdot, member⟩ := names
  have isDir := (sound.entry_dots member).1
  by_contra removed
  have none := isExact.removedEmpty dir isDir (by simpa using removed) inum
  have some := countP_linksTo_pos.mpr ⟨name, member, notDot, notDotdot⟩
  omega

/-- Every attached directory except the root has a name in its container. -/
theorem Sound.names_of_attached (sound : Sound root ledger) {dir : Inum}
    (attached : ledger.attached dir = true) (notRoot : dir ≠ root) :
    Names ledger.entries (ledger.container dir).1 dir := by
  have isDir := sound.attachedDir dir attached
  have one := sound.single dir isDir attached notRoot
  obtain ⟨place, name, member, notDot, notDotdot⟩ := named_pos.mp (by omega : 0 < ledger.named dir)
  rw [(sound.placed place name dir member notDot notDotdot isDir).2.1]
  exact ⟨name, notDot, notDotdot, member⟩

theorem Sound.made_of_attached (sound : Sound root ledger) {dir : Inum}
    (attached : ledger.attached dir = true) : ledger.making dir = 0 := by
  by_contra isMade
  have detached := (sound.making dir (Nat.pos_of_ne_zero isMade)).2.2.2.2
  rw [attached] at detached
  cases detached

/-- The attached directories hang together. -/
theorem Exact.attached_reachable (isExact : Exact ledger) (sound : Sound root ledger) {dir : Inum}
    (attached : ledger.attached dir = true) :
    Relation.ReflTransGen (Names ledger.entries) root dir := by
  induction age : ledger.born dir using Nat.strong_induction_on generalizing dir with
  | _ time ih =>
      by_cases isRoot : dir = root
      · rw [isRoot]
      · have names := sound.names_of_attached attached isRoot
        obtain ⟨-, born, younger, -⟩ :=
          sound.older dir (sound.attachedDir dir attached) (sound.made_of_attached attached)
        have before := younger isRoot
        exact (ih _ (by omega) (isExact.attached_of_names sound names) rfl).tail names

/-- An inode with links can be reached from the root. -/
theorem Exact.linked_reachable (isExact : Exact ledger) (sound : Sound root ledger) {inum : Inum}
    (settled : ledger.pending inum = 0) (linked : ledger.nlink inum ≠ 0) :
    Relation.ReflTransGen (Names ledger.entries) root inum := by
  have balance := sound.balance inum
  have lost := isExact.lostNone inum
  rcases Nat.eq_zero_or_pos (ledger.named inum) with unnamed | named
  · obtain ⟨child, attached, rfl⟩ := exists_of_children_pos (by omega : 0 < ledger.children inum)
    by_cases isRoot : child = root
    · rw [isRoot, sound.rooted.2.1]
    · have names := sound.names_of_attached attached isRoot
      exact isExact.attached_reachable sound (isExact.attached_of_names sound names)
  · obtain ⟨dir, name, member, notDot, notDotdot⟩ := named_pos.mp named
    have names : Names ledger.entries dir inum := ⟨name, notDot, notDotdot, member⟩
    exact (isExact.attached_reachable sound (isExact.attached_of_names sound names)).tail names

/-- What a directory contributes to the link count of an inode. -/
theorem Exact.contribution (isExact : Exact ledger) (sound : Sound root ledger)
    (settled : ∀ inum, ledger.pending inum = 0) (made : ∀ inum, ledger.making inum = 0)
    (dir inum : Inum) :
    (if ledger.nlink dir = 0 then 0 else (ledger.entries dir).countP (refersTo inum)) =
      (ledger.entries dir).countP (linksTo inum) +
        (ledger.attached dir && decide ((ledger.container dir).1 = inum)).toNat := by
  by_cases isDir : ledger.type dir = .dir
  · obtain ⟨rest, isEntries, noDots⟩ := sound.dots dir isDir (made dir)
    cases attached : ledger.attached dir with
    | true =>
        have linked := sound.attached_nlink_pos attached
        rw [if_neg (by omega), isEntries, countP_refersTo noDots, Bool.true_and]
    | false =>
        have nothing := settled dir
        have pending := isExact.nlink_of_removed sound isDir attached
        rw [if_pos (by omega), isExact.removedEmpty dir isDir attached inum]
        rfl
  · have notAttached : ledger.attached dir = false := by
      by_contra attached
      exact isDir (sound.attachedDir dir (by simpa using attached))
    rw [sound.plain dir (.inl isDir), notAttached]
    simp

/-- The link count is the number of entries in directories with links. -/
theorem Exact.nlink_eq (isExact : Exact ledger) (sound : Sound root ledger)
    (settled : ∀ inum, ledger.pending inum = 0) (made : ∀ inum, ledger.making inum = 0)
    (inum : Inum) : ledger.nlink inum = linksFrom ledger.nlink ledger.entries inum := by
  have balance := sound.balance inum
  have children : ledger.children inum =
      ∑ dir, (ledger.attached dir && decide ((ledger.container dir).1 = inum)).toNat := by
    rw [children, countWhere, Finset.card_filter]
    refine Finset.sum_congr rfl fun dir _ => ?_
    cases ledger.attached dir && decide ((ledger.container dir).1 = inum) <;> rfl
  have named : ledger.named inum = ∑ dir, (ledger.entries dir).countP (linksTo inum) := rfl
  have counted : linksFrom ledger.nlink ledger.entries inum =
      ledger.named inum + ledger.children inum := by
    rw [named, children, ← Finset.sum_add_distrib]
    exact Finset.sum_congr rfl fun dir _ => isExact.contribution sound settled made dir inum
  rw [settled inum, isExact.lostNone inum] at balance
  rw [counted]
  omega

end Ledger

end Coursework.Directory
