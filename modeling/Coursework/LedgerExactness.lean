import Coursework.LedgerSoundness

/-!
# Exactness of the ledger

Two kinds of steps spoil an exact account.  An entry written into a removed
directory is lost when the directory is freed, and two references to an unlinked
inode dropped at the same time each leave the inode to the other.  Without them
removed directories stay empty, no name is ever lost, and an inode without links
is held by somebody who will free it.
-/

namespace Coursework.Directory

open FileSystem (FileType)

namespace Ledger

variable {Inum : Type} [DecidableEq Inum] [Fintype Inum]

/-- The invariant of strict runs. -/
structure Exact (ledger : Ledger Inum) : Prop where
  removedEmpty : ∀ dir, ledger.type dir = .dir → ledger.attached dir = false →
    ∀ inum, (ledger.entries dir).countP (linksTo inum) = 0
  lostNone : ∀ inum, ledger.lost inum = 0
  noLeak : ∀ inum, ledger.type inum ≠ .free → ledger.nlink inum = 0 → 0 < ledger.held inum
  unread : ∀ inum, ledger.type inum ≠ .free → ledger.nlink inum = 0 →
    ledger.valid inum = false → 0 < ledger.making inum

theorem exists_of_children_pos {ledger : Ledger Inum} {inum : Inum}
    (positive : 0 < ledger.children inum) :
    ∃ child, ledger.attached child = true ∧ (ledger.container child).1 = inum := by
  by_contra none
  have zero : ledger.children inum = 0 := by
    apply countWhere_eq_zero.mpr
    intro child
    by_contra counts
    apply none
    simp only [Bool.not_eq_false, Bool.and_eq_true, decide_eq_true_eq] at counts
    exact ⟨child, counts⟩
  omega

namespace Exact

variable {root : Inum} {ledger : Ledger Inum}

/-- A removed directory has no links left. -/
theorem nlink_of_removed (isExact : Exact ledger) (sound : Sound root ledger) {dir : Inum}
    (isDir : ledger.type dir = .dir) (removed : ledger.attached dir = false) :
    ledger.nlink dir = ledger.pending dir := by
  have unnamed : ledger.named dir = 0 := by
    by_contra named
    obtain ⟨place, name, member, notDot, notDotdot⟩ :=
      named_pos.mp (Nat.pos_of_ne_zero named)
    have attached := (sound.placed place name dir member notDot notDotdot isDir).1
    rw [removed] at attached
    cases attached
  have childless : ledger.children dir = 0 := by
    by_contra children
    obtain ⟨child, attached, contained⟩ :=
      exists_of_children_pos (Nat.pos_of_ne_zero children)
    have childDir := sound.attachedDir child attached
    have notRoot : child ≠ root := by
      rintro rfl
      rw [sound.rooted.2.1] at contained
      rw [contained, removed] at attached
      cases attached
    have one := sound.single child childDir attached notRoot
    obtain ⟨place, name, member, notDot, notDotdot⟩ :=
      named_pos.mp (by omega : 0 < ledger.named child)
    have here := (sound.placed place name child member notDot notDotdot childDir).2.1
    have positive := countP_linksTo_pos.mpr ⟨name, member, notDot, notDotdot⟩
    rw [← here, contained, isExact.removedEmpty dir isDir removed child] at positive
    omega
  have balance := sound.balance dir
  have := isExact.lostNone dir
  omega

/-- A linked directory that is not being unlinked is attached. -/
theorem attached_of_linked (isExact : Exact ledger) (sound : Sound root ledger) {dir : Inum}
    (isDir : ledger.type dir = .dir) (settled : ledger.pending dir = 0)
    (linked : 1 ≤ ledger.nlink dir) : ledger.attached dir = true := by
  by_contra removed
  have := isExact.nlink_of_removed sound isDir (by simpa using removed)
  omega

omit [Fintype Inum] in
/-- An entry written into an attached directory leaves removed directories empty. -/
theorem removedEmpty_insert (isExact : Exact ledger) {dir inum : Inum} {name : Name}
    (attached : ledger.attached dir = true) {place : Inum}
    (isDir : ledger.type place = .dir) (removed : ledger.attached place = false) (other : Inum) :
    (Function.update ledger.entries dir (slotInsert (name, inum) (ledger.entries dir))
      place).countP (linksTo other) = 0 := by
  have distinct : place ≠ dir := by
    rintro rfl
    rw [attached] at removed
    cases removed
  rw [Function.update_of_ne distinct]
  exact isExact.removedEmpty place isDir removed other

theorem take (isExact : Exact ledger) (sound : Sound root ledger) (inum : Inum) :
    Exact (ledger.take inum) :=
  { isExact with
    noLeak := by
      intro other allocated unlinked
      have := isExact.noLeak other allocated unlinked
      by_cases same : other = inum
      · subst same
        simp [Ledger.take]
      · simp only [Ledger.take, Function.update_of_ne same]
        exact this
    unread := by
      intro other allocated unlinked unread
      apply isExact.unread other allocated unlinked
      by_contra isRead
      have isHeld := isExact.noLeak other allocated unlinked
      have refs := sound.refs other
      simp only [Ledger.take] at unread
      split at unread
      · next unused =>
          have distinct : other ≠ inum := by
            rintro rfl
            omega
          rw [Function.update_of_ne distinct] at unread
          exact isRead unread
      · exact isRead unread }

omit [Fintype Inum] in
theorem load (isExact : Exact ledger) (inum : Inum) : Exact (ledger.load inum) :=
  { isExact with
    unread := by
      intro other allocated unlinked unread
      have distinct : other ≠ inum := by
        rintro rfl
        simp [Ledger.load] at unread
      simp only [Ledger.load, Function.update_of_ne distinct] at unread
      exact isExact.unread other allocated unlinked unread }

theorem give (isExact : Exact ledger) (sound : Sound root ledger) {inum : Inum}
    (made : ledger.making inum = 0)
    (notLast : ¬ (ledger.valid inum = true ∧ ledger.nlink inum = 0 ∧ ledger.ref inum = 1))
    (alone : ledger.nlink inum = 0 → ledger.dropping inum = 0) : Exact (ledger.give inum) :=
  { isExact with
    noLeak := by
      intro other allocated unlinked
      have isHeld := isExact.noLeak other allocated unlinked
      by_cases same : other = inum
      · subst same
        -- somebody else holds the inode and has not passed the check
        have isRead : ledger.valid other = true := by
          by_contra unread
          have := isExact.unread other allocated unlinked (by simpa using unread)
          omega
        have many : ledger.ref other ≠ 1 := fun one => notLast ⟨isRead, unlinked, one⟩
        have refs := sound.refs other
        have := alone unlinked
        simp only [Ledger.give, Function.update_self]
        omega
      · simp only [Ledger.give, Function.update_of_ne same]
        exact isHeld }

theorem discard (isExact : Exact ledger) (sound : Sound root ledger) {inum : Inum}
    (unlinked : ledger.nlink inum = 0) : Exact (ledger.discard inum) := by
  have typeOf : ∀ {other}, other ≠ inum → (ledger.discard inum).type other =
      ledger.type other := fun distinct => Function.update_of_ne distinct _ _
  have isFree : (ledger.discard inum).type inum = .free := Function.update_self _ _ _
  have empty : ∀ other, (ledger.entries inum).countP (linksTo other) = 0 := by
    intro other
    by_cases isDir : ledger.type inum = .dir
    · have removed : ledger.attached inum = false := by
        by_contra attached
        have := sound.attached_nlink_pos (by simpa using attached)
        omega
      exact isExact.removedEmpty inum isDir removed other
    · rw [sound.plain inum (Or.inl isDir)]
      rfl
  constructor
  · intro dir isDir removed other
    have distinct : dir ≠ inum := by
      rintro rfl
      rw [isFree] at isDir
      cases isDir
    rw [typeOf distinct] at isDir
    simp only [Ledger.discard, Function.update_of_ne distinct]
    exact isExact.removedEmpty dir isDir removed other
  · intro other
    simp only [Ledger.discard, empty, isExact.lostNone other]
  · intro other allocated isZero
    have distinct : other ≠ inum := by
      rintro rfl
      exact allocated isFree
    rw [typeOf distinct] at allocated
    simp only [Ledger.discard, Ledger.give, Function.update_of_ne distinct]
    exact isExact.noLeak other allocated isZero
  · intro other allocated isZero unread
    have distinct : other ≠ inum := by
      rintro rfl
      exact allocated isFree
    rw [typeOf distinct] at allocated
    simp only [Ledger.discard, Function.update_of_ne distinct] at unread
    exact isExact.unread other allocated isZero unread

theorem raise (isExact : Exact ledger) (sound : Sound root ledger) (inum : Inum) :
    Exact (ledger.raise inum) := by
  have before : ∀ other, (ledger.raise inum).nlink other = 0 → ledger.nlink other = 0 := by
    intro other isZero
    by_cases same : other = inum
    · subst same
      have := sound.balance other
      simp only [Ledger.raise, Function.update_self] at isZero
      omega
    · simpa only [Ledger.raise, Function.update_of_ne same] using isZero
  exact
  { isExact with
    noLeak := fun other allocated isZero => isExact.noLeak other allocated (before other isZero)
    unread := fun other allocated isZero => isExact.unread other allocated (before other isZero) }

omit [Fintype Inum] in
theorem lower (isExact : Exact ledger) {inum : Inum} (isHeld : 0 < ledger.held inum)
    (isRead : ledger.valid inum = true) : Exact (ledger.lower inum) :=
  { isExact with
    noLeak := by
      intro other allocated isZero
      by_cases same : other = inum
      · subst same
        exact isHeld
      · simp only [Ledger.lower, Function.update_of_ne same] at isZero
        exact isExact.noLeak other allocated isZero
    unread := by
      intro other allocated isZero unread
      by_cases same : other = inum
      · subst same
        change ledger.valid other = false at unread
        rw [isRead] at unread
        cases unread
      · simp only [Ledger.lower, Function.update_of_ne same] at isZero
        exact isExact.unread other allocated isZero unread }

omit [Fintype Inum] in
theorem enter (isExact : Exact ledger) {dir inum : Inum} {name : Name}
    (attached : ledger.attached dir = true) : Exact (ledger.enter dir name inum) :=
  { isExact with
    removedEmpty := fun _ isDir removed =>
      isExact.removedEmpty_insert attached isDir removed }

omit [Fintype Inum] in
theorem clear (isExact : Exact ledger) {dir inum : Inum} {index : Nat} :
    Exact (ledger.clear dir index inum) :=
  { isExact with
    removedEmpty := by
      intro place isDir removed other
      have before := isExact.removedEmpty place isDir removed other
      by_contra positive
      obtain ⟨name, member, notDot, notDotdot⟩ :=
        countP_linksTo_pos.mp (Nat.pos_of_ne_zero positive)
      have old : some (name, other) ∈ ledger.entries place := mem_entries_clear rfl member
      have := countP_linksTo_pos.mpr ⟨name, old, notDot, notDotdot⟩
      omega }

theorem detach (isExact : Exact ledger) (sound : Sound root ledger) {dir inum : Inum}
    {index : Nat} (empty : ∀ slot ∈ (ledger.entries inum).drop 2, slot = none)
    (isHeld : 0 < ledger.held dir) (isRead : ledger.valid dir = true) :
    Exact (ledger.detach dir index inum) := by
  have cleared : Exact (ledger.clear dir index inum) := isExact.clear
  exact
  { cleared with
    removedEmpty := by
      intro place isDir removed other
      by_cases same : place = inum
      · subst same
        by_contra positive
        obtain ⟨name, member, notDot, notDotdot⟩ :=
          countP_linksTo_pos.mp (Nat.pos_of_ne_zero positive)
        have old : some (name, other) ∈ ledger.entries place := mem_entries_clear rfl member
        obtain ⟨-, made, -⟩ := sound.entry_dots old
        obtain ⟨rest, isEntries, -⟩ := sound.dots place isDir made
        rw [isEntries] at old empty
        rcases List.mem_append.mp old with inDots | inRest
        · rcases List.mem_pair.mp inDots with isDot | isDotdot
          · cases Option.some.inj isDot
            exact notDot rfl
          · cases Option.some.inj isDotdot
            exact notDotdot rfl
        · cases empty _ (by simpa [dotEntries] using inRest)
      · simp only [Ledger.detach, Function.update_of_ne same] at removed
        exact cleared.removedEmpty place isDir removed other
    noLeak := by
      intro other allocated isZero
      by_cases same : other = dir
      · subst same
        exact isHeld
      · simp only [Ledger.detach, Function.update_of_ne same] at isZero
        exact isExact.noLeak other allocated isZero
    unread := by
      intro other allocated isZero unread
      by_cases same : other = dir
      · subst same
        change ledger.valid other = false at unread
        rw [isRead] at unread
        cases unread
      · simp only [Ledger.detach, Function.update_of_ne same] at isZero
        exact isExact.unread other allocated isZero unread }

theorem alloc (isExact : Exact ledger) (sound : Sound root ledger) {inum : Inum}
    {type : FileType} (isFree : ledger.type inum = .free) : Exact (ledger.alloc inum type) := by
  have typeOf : ∀ {other}, other ≠ inum → (ledger.alloc inum type).type other =
      ledger.type other := fun distinct => Function.update_of_ne distinct _ _
  have notHeld : ledger.held inum = 0 := by
    by_contra isHeld
    exact sound.heldAlive inum (Nat.pos_of_ne_zero isHeld) isFree
  constructor
  · intro dir isDir removed other
    by_cases same : dir = inum
    · subst same
      simp [Ledger.alloc]
    · rw [typeOf same] at isDir
      simp only [Ledger.alloc, Function.update_of_ne same]
      exact isExact.removedEmpty dir isDir removed other
  · exact isExact.lostNone
  · intro other allocated isZero
    by_cases same : other = inum
    · subst same
      simp [Ledger.alloc, Ledger.take]
    · rw [typeOf same] at allocated
      simp only [Ledger.alloc, Function.update_of_ne same] at isZero
      simp only [Ledger.alloc, Ledger.take, Function.update_of_ne same]
      exact isExact.noLeak other allocated isZero
  · intro other allocated isZero unread
    by_cases same : other = inum
    · subst same
      simp [Ledger.alloc]
    · rw [typeOf same] at allocated
      simp only [Ledger.alloc, Function.update_of_ne same] at isZero ⊢
      apply isExact.unread other allocated isZero
      simp only [Ledger.alloc, Ledger.take] at unread
      split at unread
      · rwa [Function.update_of_ne same] at unread
      · exact unread

omit [Fintype Inum] in
theorem initFile (isExact : Exact ledger) {dir inum : Inum} {name : Name}
    (attached : ledger.attached dir = true) :
    Exact (ledger.initFile dir name inum) := by
  constructor
  · intro place isDir removed
    exact isExact.removedEmpty_insert attached isDir removed
  · exact isExact.lostNone
  · intro other allocated isZero
    have distinct : other ≠ inum := by
      rintro rfl
      simp [Ledger.initFile] at isZero
    simp only [Ledger.initFile, Function.update_of_ne distinct] at isZero
    exact isExact.noLeak other allocated isZero
  · intro other allocated isZero unread
    have distinct : other ≠ inum := by
      rintro rfl
      simp [Ledger.initFile] at isZero
    simp only [Ledger.initFile, Function.update_of_ne distinct] at isZero ⊢
    exact isExact.unread other allocated isZero unread

omit [Fintype Inum] in
theorem initDir (isExact : Exact ledger) {dir inum : Inum} {name : Name}
    (attached : ledger.attached dir = true) (linked : 1 ≤ ledger.nlink dir) :
    Exact (ledger.initDir dir name inum) := by
  have nlinkOf : ∀ other, (ledger.initDir dir name inum).nlink other = 0 →
      other ≠ inum ∧ ledger.nlink other = 0 := by
    intro other isZero
    by_cases here : other = dir
    · subst here
      simp only [Ledger.initDir, Function.update_self] at isZero
      omega
    · simp only [Ledger.initDir, Function.update_of_ne here] at isZero
      have distinct : other ≠ inum := by
        rintro rfl
        simp at isZero
      rw [Function.update_of_ne distinct] at isZero
      exact ⟨distinct, isZero⟩
  constructor
  · intro place isDir removed other
    have notNew : place ≠ inum := by
      rintro rfl
      simp [Ledger.initDir] at removed
    simp only [Ledger.initDir, Function.update_of_ne notNew] at removed
    have notDir : place ≠ dir := by
      rintro rfl
      rw [attached] at removed
      cases removed
    simp only [Ledger.initDir, Function.update_of_ne notDir, Function.update_of_ne notNew]
    exact isExact.removedEmpty place isDir removed other
  · exact isExact.lostNone
  · intro other allocated isZero
    exact isExact.noLeak other allocated (nlinkOf other isZero).2
  · intro other allocated isZero unread
    obtain ⟨distinct, wasZero⟩ := nlinkOf other isZero
    simp only [Ledger.initDir, Function.update_of_ne distinct]
    exact isExact.unread other allocated wasZero unread

theorem step {strict : Prop} (isStrict : strict) {after : Ledger Inum} (isExact : Exact ledger)
    (sound : Sound root ledger) (step : Step strict ledger after) : Exact after := by
  cases step with
  | take => exact isExact.take sound _
  | load => exact isExact.load _
  | give _ made notLast alone => exact isExact.give sound made notLast (alone isStrict)
  | discard _ _ unlinked => exact isExact.discard sound unlinked
  | drop => exact { isExact with }
  | raise => exact isExact.raise sound _
  | enter isDir _ settled _ _ _ _ _ linked =>
      exact isExact.enter (isExact.attached_of_linked sound isDir settled (linked isStrict))
  | lower _ isHeld isRead => exact isExact.lower isHeld isRead
  | clear => exact isExact.clear
  | detach _ _ _ _ empty isHeld isRead => exact isExact.detach sound empty isHeld isRead
  | alloc isFree => exact isExact.alloc sound isFree
  | initFile _ _ isDir _ settled _ linked =>
      exact isExact.initFile
        (isExact.attached_of_linked sound isDir settled (linked isStrict))
  | initDir _ _ isDir _ settled _ linked =>
      exact isExact.initDir
        (isExact.attached_of_linked sound isDir settled (linked isStrict)) (linked isStrict)

end Exact

end Ledger

end Coursework.Directory
