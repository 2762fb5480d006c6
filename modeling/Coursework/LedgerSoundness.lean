import Coursework.LinkLedger

/-!
# Soundness of the ledger

Whatever the calls do, as long as no inode is freed while another directory's
`..` names it: every entry names an allocated inode, the link count of an inode
accounts for its names, and a directory's `..` names the directory that contained
it when it was made.
-/

namespace Coursework.Directory

open FileSystem (FileType)

namespace Ledger

variable {Inum : Type} [DecidableEq Inum] [Fintype Inum]

/-! ## Counting names and children -/

omit [Fintype Inum] in
theorem linksTo_iff {inum : Inum} {name : Name} {target : Inum} :
    linksTo inum (some (name, target)) = true ↔
      name ≠ dot ∧ name ≠ dotdot ∧ target = inum := by
  simp [linksTo, and_assoc]

omit [Fintype Inum] in
theorem countP_linksTo_pos {inum : Inum} {slots : List (Slot Inum)} :
    0 < slots.countP (linksTo inum) ↔
      ∃ name, some (name, inum) ∈ slots ∧ name ≠ dot ∧ name ≠ dotdot := by
  rw [List.countP_pos_iff]
  constructor
  · rintro ⟨slot, member, links⟩
    cases slot with
    | none => cases links
    | some entry =>
        obtain ⟨name, target⟩ := entry
        obtain ⟨notDot, notDotdot, rfl⟩ := linksTo_iff.mp links
        exact ⟨name, member, notDot, notDotdot⟩
  · rintro ⟨name, member, notDot, notDotdot⟩
    exact ⟨_, member, linksTo_iff.mpr ⟨notDot, notDotdot, rfl⟩⟩

omit [Fintype Inum] in
theorem countP_dotEntries (self parent inum : Inum) : (dotEntries self parent).countP (linksTo inum) = 0 := by
  simp [dotEntries, linksTo]

theorem named_pos {ledger : Ledger Inum} {inum : Inum} :
    0 < ledger.named inum ↔
      ∃ dir name, some (name, inum) ∈ ledger.entries dir ∧ name ≠ dot ∧ name ≠ dotdot := by
  constructor
  · intro positive
    obtain ⟨dir, here⟩ := exists_of_total_pos positive
    exact ⟨dir, countP_linksTo_pos.mp here⟩
  · rintro ⟨dir, entry⟩
    exact lt_of_lt_of_le (countP_linksTo_pos.mpr entry)
      (le_total (fun slots => slots.countP (linksTo inum)) ledger.entries dir)

/-- Rewriting one directory exchanges its names in the count. -/
theorem named_update {ledger after : Ledger Inum} {dir : Inum} {slots : List (Slot Inum)}
    (entries : after.entries = Function.update ledger.entries dir slots) (inum : Inum) :
    after.named inum + (ledger.entries dir).countP (linksTo inum) =
      ledger.named inum + slots.countP (linksTo inum) := by
  rw [named, entries]
  exact total_update _ _ _ _

/-- An entry other than a dot adds one name. -/
theorem named_insert {ledger after : Ledger Inum} {dir inum : Inum} {name : Name}
    (entries : after.entries = Function.update ledger.entries dir
      (slotInsert (name, inum) (ledger.entries dir)))
    (notDot : name ≠ dot) (notDotdot : name ≠ dotdot) (other : Inum) :
    after.named other = ledger.named other + (decide (inum = other)).toNat := by
  have rewritten := named_update entries other
  have inserted : _ = _ + (linksTo other (some (name, inum))).toNat :=
    countP_slotInsert rfl (name, inum) (ledger.entries dir)
  have single : linksTo other (some (name, inum)) = decide (inum = other) := by
    simp [linksTo, notDot, notDotdot]
  rw [single] at inserted
  omega

/-- A freed slot takes one name away. -/
theorem named_clear {ledger after : Ledger Inum} {dir inum : Inum} {index : Nat} {name : Name}
    (entries : after.entries = Function.update ledger.entries dir
      ((ledger.entries dir).set index none))
    (entry : (ledger.entries dir)[index]? = some (some (name, inum)))
    (notDot : name ≠ dot) (notDotdot : name ≠ dotdot) (other : Inum) :
    after.named other + (decide (inum = other)).toNat = ledger.named other := by
  have rewritten := named_update entries other
  have cleared : _ + (linksTo other (some (name, inum))).toNat = _ := countP_slotClear rfl entry
  have single : linksTo other (some (name, inum)) = decide (inum = other) := by
    simp [linksTo, notDot, notDotdot]
  rw [single] at cleared
  omega

omit [Fintype Inum] in
theorem mem_entries_insert {ledger after : Ledger Inum} {dir inum : Inum} {name : Name}
    (entries : after.entries = Function.update ledger.entries dir
      (slotInsert (name, inum) (ledger.entries dir)))
    {place : Inum} {slot : Slot Inum} (member : slot ∈ after.entries place) :
    (slot = some (name, inum) ∧ place = dir) ∨ slot ∈ ledger.entries place := by
  rw [entries] at member
  by_cases here : place = dir
  · subst here
    rw [Function.update_self] at member
    rcases mem_slotInsert member with isNew | old
    · exact Or.inl ⟨isNew, rfl⟩
    · exact Or.inr old
  · rw [Function.update_of_ne here] at member
    exact Or.inr member

omit [Fintype Inum] in
theorem mem_entries_clear {ledger after : Ledger Inum} {dir : Inum} {index : Nat}
    (entries : after.entries = Function.update ledger.entries dir
      ((ledger.entries dir).set index none))
    {place : Inum} {entry : Name × Inum} (member : some entry ∈ after.entries place) :
    some entry ∈ ledger.entries place := by
  rw [entries] at member
  by_cases here : place = dir
  · subst here
    rw [Function.update_self] at member
    rcases mem_slotClear member with impossible | old
    · cases impossible
    · exact old
  · rw [Function.update_of_ne here] at member
    exact member

theorem children_pos {ledger : Ledger Inum} {child : Inum}
    (attached : ledger.attached child = true) :
    0 < ledger.children (ledger.container child).1 :=
  countWhere_pos child (by simp [attached])

theorem children_update {ledger after : Ledger Inum} {child : Inum} {isAttached : Bool}
    {place : Inum × Nat}
    (attached : after.attached = Function.update ledger.attached child isAttached)
    (container : after.container = Function.update ledger.container child place)
    (inum : Inum) :
    after.children inum +
        (ledger.attached child && decide ((ledger.container child).1 = inum)).toNat =
      ledger.children inum + (isAttached && decide (place.1 = inum)).toNat := by
  have family : (fun other => (after.attached other, after.container other)) =
      Function.update (fun other => (ledger.attached other, ledger.container other)) child
        (isAttached, place) := by
    funext other
    by_cases same : other = child
    · subst same
      simp [attached, container]
    · simp [attached, container, same]
  rw [children, family]
  exact countWhere_update _ _ _ _

/-- The invariant of all runs. -/
structure Sound (root : Inum) (ledger : Ledger Inum) : Prop where
  refs : ∀ inum, ledger.ref inum = ledger.held inum + ledger.dropping inum
  heldAlive : ∀ inum, 0 < ledger.held inum → ledger.type inum ≠ .free
  freeBlank : ∀ inum, ledger.type inum = .free → ledger.nlink inum = 0
  named : ∀ dir name inum, some (name, inum) ∈ ledger.entries dir →
    ledger.type inum ≠ .free ∧ ledger.making inum = 0
  plain : ∀ dir, ledger.type dir ≠ .dir ∨ 0 < ledger.making dir → ledger.entries dir = []
  dots : ∀ dir, ledger.type dir = .dir → ledger.making dir = 0 →
    ∃ rest, ledger.entries dir = dotEntries dir (ledger.container dir).1 ++ rest ∧
      ∀ name inum, some (name, inum) ∈ rest → name ≠ dot ∧ name ≠ dotdot
  making : ∀ inum, 0 < ledger.making inum → ledger.making inum = 1 ∧
    ledger.type inum ≠ .free ∧ ledger.nlink inum = 0 ∧ ledger.held inum = 1 ∧
    ledger.attached inum = false
  balance : ∀ inum, ledger.nlink inum =
    ledger.named inum + ledger.children inum + ledger.pending inum + ledger.lost inum
  attachedDir : ∀ inum, ledger.attached inum = true → ledger.type inum = .dir
  placed : ∀ dir name inum, some (name, inum) ∈ ledger.entries dir → name ≠ dot →
    name ≠ dotdot → ledger.type inum = .dir →
    ledger.attached inum = true ∧ (ledger.container inum).1 = dir ∧ inum ≠ root
  single : ∀ inum, ledger.type inum = .dir → ledger.attached inum = true → inum ≠ root →
    ledger.named inum = 1
  rooted : ledger.attached root = true ∧ (ledger.container root).1 = root ∧
    ledger.making root = 0
  older : ∀ inum, ledger.type inum = .dir → ledger.making inum = 0 →
    ledger.type (ledger.container inum).1 = .dir ∧
      ledger.born (ledger.container inum).1 = (ledger.container inum).2 ∧
      (inum ≠ root → (ledger.container inum).2 < ledger.born inum) ∧
      ledger.born inum < ledger.clock

namespace Sound

variable {root : Inum} {ledger : Ledger Inum}

theorem take (sound : Sound root ledger) {inum : Inum} (allocated : ledger.type inum ≠ .free)
    (made : ledger.making inum = 0) : Sound root (ledger.take inum) :=
  { sound with
    refs := by
      intro other
      have := sound.refs other
      by_cases same : other = inum
      · subst same
        simp only [Ledger.take, Function.update_self]
        omega
      · simp only [Ledger.take, Function.update_of_ne same]
        exact this
    heldAlive := by
      intro other positive
      by_cases same : other = inum
      · subst same
        exact allocated
      · simp only [Ledger.take, Function.update_of_ne same] at positive
        exact sound.heldAlive other positive
    making := by
      intro other isMade
      obtain ⟨one, notFree, zero, held, loose⟩ := sound.making other isMade
      have distinct : other ≠ inum := by
        rintro rfl
        exact absurd made (by exact Nat.pos_iff_ne_zero.mp isMade)
      refine ⟨one, notFree, zero, ?_, loose⟩
      simp only [Ledger.take, Function.update_of_ne distinct]
      exact held }

theorem load (sound : Sound root ledger) (inum : Inum) : Sound root (ledger.load inum) :=
  { sound with }

/-- An inode with a name or a child has links. -/
theorem nlink_pos (sound : Sound root ledger) {inum : Inum}
    (linked : 0 < ledger.named inum ∨ 0 < ledger.children inum ∨ 0 < ledger.pending inum) :
    0 < ledger.nlink inum := by
  have := sound.balance inum
  omega

theorem attached_nlink_pos (sound : Sound root ledger) {inum : Inum}
    (attached : ledger.attached inum = true) : 0 < ledger.nlink inum := by
  by_cases isRoot : inum = root
  · subst isRoot
    have positive := children_pos attached
    rw [sound.rooted.2.1] at positive
    exact sound.nlink_pos (Or.inr (Or.inl positive))
  · have one := sound.single inum (sound.attachedDir inum attached) attached isRoot
    exact sound.nlink_pos (Or.inl (by omega))

/-- The dots of a directory name itself and its container. -/
theorem entry_dots (sound : Sound root ledger) {dir inum : Inum} {name : Name}
    (entry : some (name, inum) ∈ ledger.entries dir) :
    ledger.type dir = .dir ∧ ledger.making dir = 0 ∧ (name = dot → inum = dir) ∧
      (name = dotdot → inum = (ledger.container dir).1) := by
  have isDir : ledger.type dir = .dir := by
    by_contra notDir
    rw [sound.plain dir (Or.inl notDir)] at entry
    cases entry
  have made : ledger.making dir = 0 := by
    by_contra notMade
    rw [sound.plain dir (Or.inr (Nat.pos_of_ne_zero notMade))] at entry
    cases entry
  obtain ⟨rest, isEntries, noDots⟩ := sound.dots dir isDir made
  rw [isEntries] at entry
  refine ⟨isDir, made, ?_, ?_⟩
  · rintro rfl
    rcases List.mem_append.mp entry with inDots | inRest
    · simpa [dotEntries, dot, dotdot] using inDots
    · exact ((noDots _ _ inRest).1 rfl).elim
  · rintro rfl
    rcases List.mem_append.mp entry with inDots | inRest
    · simpa [dotEntries, dot, dotdot] using inDots
    · exact ((noDots _ _ inRest).2 rfl).elim

/-- A name that is not found in a directory is not one of the dots. -/
theorem name_ne_dots (sound : Sound root ledger) {dir : Inum} {name : Name}
    (isDir : ledger.type dir = .dir) (made : ledger.making dir = 0)
    (missing : slotLookup name (ledger.entries dir) = none) : name ≠ dot ∧ name ≠ dotdot := by
  obtain ⟨rest, isEntries, -⟩ := sound.dots dir isDir made
  have hasDot : some (dot, dir) ∈ ledger.entries dir := by
    simp [isEntries, dotEntries]
  have hasDotdot : some (dotdot, (ledger.container dir).1) ∈ ledger.entries dir := by
    simp [isEntries, dotEntries]
  constructor
  · rintro rfl
    exact slotLookup_ne_none hasDot missing
  · rintro rfl
    exact slotLookup_ne_none hasDotdot missing

theorem give (sound : Sound root ledger) {inum : Inum} (isHeld : 0 < ledger.held inum)
    (made : ledger.making inum = 0) : Sound root (ledger.give inum) :=
  { sound with
    refs := by
      intro other
      have := sound.refs other
      by_cases same : other = inum
      · subst same
        simp only [Ledger.give, Function.update_self]
        omega
      · simp only [Ledger.give, Function.update_of_ne same]
        exact this
    heldAlive := by
      intro other positive
      by_cases same : other = inum
      · subst same
        exact sound.heldAlive other isHeld
      · simp only [Ledger.give, Function.update_of_ne same] at positive
        exact sound.heldAlive other positive
    making := by
      intro other isMade
      obtain ⟨one, notFree, zero, held, loose⟩ := sound.making other isMade
      have distinct : other ≠ inum := by
        rintro rfl
        exact Nat.pos_iff_ne_zero.mp isMade made
      refine ⟨one, notFree, zero, ?_, loose⟩
      simp only [Ledger.give, Function.update_of_ne distinct]
      exact held }

theorem drop (sound : Sound root ledger) {inum : Inum} (dropping : 0 < ledger.dropping inum) :
    Sound root (ledger.drop inum) :=
  { sound with
    refs := by
      intro other
      have := sound.refs other
      by_cases same : other = inum
      · subst same
        simp only [Ledger.drop, Function.update_self]
        omega
      · simp only [Ledger.drop, Function.update_of_ne same]
        exact this }

theorem raise (sound : Sound root ledger) {inum : Inum} (allocated : ledger.type inum ≠ .free)
    (made : ledger.making inum = 0) : Sound root (ledger.raise inum) :=
  { sound with
    freeBlank := by
      intro other isFree
      have distinct : other ≠ inum := by
        rintro rfl
        exact allocated isFree
      simp only [Ledger.raise, Function.update_of_ne distinct]
      exact sound.freeBlank other isFree
    making := by
      intro other isMade
      obtain ⟨one, notFree, zero, held, loose⟩ := sound.making other isMade
      have distinct : other ≠ inum := by
        rintro rfl
        exact Nat.pos_iff_ne_zero.mp isMade made
      refine ⟨one, notFree, ?_, held, loose⟩
      simp only [Ledger.raise, Function.update_of_ne distinct]
      exact zero
    balance := by
      intro other
      have := sound.balance other
      change _ = (ledger.named other : Int) + ledger.children other + _ + ledger.lost other
      by_cases same : other = inum
      · subst same
        simp only [Ledger.raise, Function.update_self]
        omega
      · simp only [Ledger.raise, Function.update_of_ne same]
        exact this }

theorem lower (sound : Sound root ledger) {inum : Inum} (pending : 0 < ledger.pending inum)
    (isHeld : 0 < ledger.held inum) : Sound root (ledger.lower inum) :=
  { sound with
    freeBlank := by
      intro other isFree
      have distinct : other ≠ inum := by
        rintro rfl
        exact sound.heldAlive other isHeld isFree
      simp only [Ledger.lower, Function.update_of_ne distinct]
      exact sound.freeBlank other isFree
    making := by
      intro other isMade
      obtain ⟨one, notFree, zero, held, loose⟩ := sound.making other isMade
      have distinct : other ≠ inum := by
        rintro rfl
        have := sound.nlink_pos (Or.inr (Or.inr pending))
        omega
      refine ⟨one, notFree, ?_, held, loose⟩
      simp only [Ledger.lower, Function.update_of_ne distinct]
      exact zero
    balance := by
      intro other
      have := sound.balance other
      change _ = (ledger.named other : Int) + ledger.children other + _ + ledger.lost other
      by_cases same : other = inum
      · subst same
        simp only [Ledger.lower, Function.update_self]
        omega
      · simp only [Ledger.lower, Function.update_of_ne same]
        exact this }

/-- An entry added to a directory keeps the dots in front. -/
theorem dots_insert (sound : Sound root ledger) {dir inum : Inum} {name : Name}
    (isDir : ledger.type dir = .dir) (made : ledger.making dir = 0)
    (missing : slotLookup name (ledger.entries dir) = none) :
    ∃ rest, slotInsert (name, inum) (ledger.entries dir) =
        dotEntries dir (ledger.container dir).1 ++ rest ∧
      ∀ other target, some (other, target) ∈ rest → other ≠ dot ∧ other ≠ dotdot := by
  obtain ⟨rest, isEntries, noDots⟩ := sound.dots dir isDir made
  refine ⟨slotInsert (name, inum) rest, by simp [isEntries, dotEntries, slotInsert], ?_⟩
  intro other target member
  rcases mem_slotInsert member with isNew | old
  · cases Option.some.inj isNew
    exact sound.name_ne_dots isDir made missing
  · exact noDots other target old

/-- A freed slot is behind the dots. -/
theorem dots_clear (sound : Sound root ledger) {dir inum : Inum} {index : Nat} {name : Name}
    (entry : (ledger.entries dir)[index]? = some (some (name, inum)))
    (notDot : name ≠ dot) (notDotdot : name ≠ dotdot) :
    ∃ rest, (ledger.entries dir).set index none = dotEntries dir (ledger.container dir).1 ++ rest ∧
      ∀ other target, some (other, target) ∈ rest → other ≠ dot ∧ other ≠ dotdot := by
  obtain ⟨isDir, made, -⟩ := sound.entry_dots (List.mem_of_getElem? entry)
  obtain ⟨rest, isEntries, noDots⟩ := sound.dots dir isDir made
  rw [isEntries] at entry ⊢
  rcases index with - | - | index
  · simp [dotEntries] at entry
    exact (notDot entry.1.symm).elim
  · simp [dotEntries] at entry
    exact (notDotdot entry.1.symm).elim
  · refine ⟨rest.set index none, rfl, ?_⟩
    intro other target member
    rcases mem_slotClear member with impossible | old
    · cases impossible
    · exact noDots other target old

theorem enter (sound : Sound root ledger) {dir inum : Inum} {name : Name}
    (isDir : ledger.type dir = .dir) (made : ledger.making dir = 0)
    (missing : slotLookup name (ledger.entries dir) = none)
    (pending : 0 < ledger.pending inum) (notDir : ledger.type inum ≠ .dir)
    (allocated : ledger.type inum ≠ .free) (inumMade : ledger.making inum = 0) :
    Sound root (ledger.enter dir name inum) := by
  obtain ⟨notDot, notDotdot⟩ := sound.name_ne_dots isDir made missing
  have counted : ∀ other, (ledger.enter dir name inum).named other = _ :=
    named_insert rfl notDot notDotdot
  have entries : ∀ {place : Inum} {slot : Slot Inum},
      slot ∈ (ledger.enter dir name inum).entries place → _ := mem_entries_insert rfl
  exact
  { sound with
    named := by
      intro place other target member
      rcases entries member with ⟨isNew, -⟩ | old
      · cases Option.some.inj isNew
        exact ⟨allocated, inumMade⟩
      · exact sound.named place other target old
    plain := by
      intro place unused
      have distinct : place ≠ dir := by
        rintro rfl
        rcases unused with notDir | notMade
        · exact notDir isDir
        · exact Nat.pos_iff_ne_zero.mp notMade made
      simp only [Ledger.enter, Function.update_of_ne distinct]
      exact sound.plain place unused
    dots := by
      intro place placeDir placeMade
      by_cases here : place = dir
      · subst here
        simp only [Ledger.enter, Function.update_self]
        exact sound.dots_insert isDir made missing
      · simp only [Ledger.enter, Function.update_of_ne here]
        exact sound.dots place placeDir placeMade
    balance := by
      intro other
      have before := sound.balance other
      rw [counted other]
      change ledger.nlink other = _ + (ledger.children other : Int) + _ + ledger.lost other
      by_cases same : other = inum
      · subst same
        simp only [Ledger.enter, Function.update_self, decide_true, Bool.toNat_true]
        omega
      · simp only [Ledger.enter, Function.update_of_ne same, Ne.symm same, decide_false,
          Bool.toNat_false, Nat.add_zero]
        exact before
    placed := by
      intro place other target member otherDot otherDotdot targetDir
      rcases entries member with ⟨isNew, -⟩ | old
      · cases Option.some.inj isNew
        exact (notDir targetDir).elim
      · exact sound.placed place other target old otherDot otherDotdot targetDir
    single := by
      intro other otherDir attached notRoot
      have distinct : inum ≠ other := by
        rintro rfl
        exact notDir otherDir
      rw [counted other]
      simpa [distinct] using sound.single other otherDir attached notRoot }

theorem clear (sound : Sound root ledger) {dir inum : Inum} {index : Nat} {name : Name}
    (entry : (ledger.entries dir)[index]? = some (some (name, inum)))
    (notDot : name ≠ dot) (notDotdot : name ≠ dotdot) (notDir : ledger.type inum ≠ .dir) :
    Sound root (ledger.clear dir index inum) := by
  have counted : ∀ other, (ledger.clear dir index inum).named other + _ = _ :=
    named_clear rfl entry notDot notDotdot
  have entries : ∀ {place : Inum} {kept : Name × Inum},
      some kept ∈ (ledger.clear dir index inum).entries place → _ := mem_entries_clear rfl
  have isMember := List.mem_of_getElem? entry
  obtain ⟨isDir, made, -⟩ := sound.entry_dots isMember
  exact
  { sound with
    named := fun place other target member => sound.named place other target (entries member)
    plain := by
      intro place unused
      have distinct : place ≠ dir := by
        rintro rfl
        rcases unused with notDir | notMade
        · exact notDir isDir
        · exact Nat.pos_iff_ne_zero.mp notMade made
      simp only [Ledger.clear, Function.update_of_ne distinct]
      exact sound.plain place unused
    dots := by
      intro place placeDir placeMade
      by_cases here : place = dir
      · subst here
        simp only [Ledger.clear, Function.update_self]
        exact sound.dots_clear entry notDot notDotdot
      · simp only [Ledger.clear, Function.update_of_ne here]
        exact sound.dots place placeDir placeMade
    balance := by
      intro other
      have before := sound.balance other
      rw [← counted other] at before
      change ledger.nlink other = _ + (ledger.children other : Int) + _ + ledger.lost other
      change ledger.nlink other = _ + (ledger.children other : Int) + _ + ledger.lost other
        at before
      by_cases same : other = inum
      · subst same
        simp only [Ledger.clear, Function.update_self, decide_true, Bool.toNat_true] at before ⊢
        omega
      · simp only [Ledger.clear, Function.update_of_ne same, Ne.symm same, decide_false,
          Bool.toNat_false, Nat.add_zero] at before ⊢
        exact before
    placed := fun place other target member =>
      sound.placed place other target (entries member)
    single := by
      intro other otherDir attached notRoot
      have distinct : inum ≠ other := by
        rintro rfl
        exact notDir otherDir
      have before := sound.single other otherDir attached notRoot
      rw [← counted other] at before
      simpa [distinct] using before }

theorem detach (sound : Sound root ledger) {dir inum : Inum} {index : Nat} {name : Name}
    (entry : (ledger.entries dir)[index]? = some (some (name, inum)))
    (notDot : name ≠ dot) (notDotdot : name ≠ dotdot) (isSubdir : ledger.type inum = .dir) :
    Sound root (ledger.detach dir index inum) := by
  have counted : ∀ other, (ledger.detach dir index inum).named other + _ = _ :=
    named_clear rfl entry notDot notDotdot
  have entries : ∀ {place : Inum} {kept : Name × Inum},
      some kept ∈ (ledger.detach dir index inum).entries place → _ := mem_entries_clear rfl
  have isMember := List.mem_of_getElem? entry
  obtain ⟨isDir, made, -⟩ := sound.entry_dots isMember
  obtain ⟨attached, contained, notRoot⟩ :=
    sound.placed dir name inum isMember notDot notDotdot isSubdir
  have inumMade := (sound.named dir name inum isMember).2
  have one := sound.single inum isSubdir attached notRoot
  have family : ∀ other, (ledger.detach dir index inum).children other + _ = _ :=
    children_update rfl (Function.update_eq_self inum ledger.container).symm
  exact
  { sound with
    freeBlank := by
      intro other isFree
      have distinct : other ≠ dir := by
        rintro rfl
        change ledger.type other = .free at isFree
        rw [isDir] at isFree
        cases isFree
      simp only [Ledger.detach, Function.update_of_ne distinct]
      exact sound.freeBlank other isFree
    named := fun place other target member => sound.named place other target (entries member)
    plain := by
      intro place unused
      have distinct : place ≠ dir := by
        rintro rfl
        rcases unused with notDir | notMade
        · exact notDir isDir
        · exact Nat.pos_iff_ne_zero.mp notMade made
      simp only [Ledger.detach, Ledger.clear, Function.update_of_ne distinct]
      exact sound.plain place unused
    dots := by
      intro place placeDir placeMade
      by_cases here : place = dir
      · subst here
        simp only [Ledger.detach, Ledger.clear, Function.update_self]
        exact sound.dots_clear entry notDot notDotdot
      · simp only [Ledger.detach, Ledger.clear, Function.update_of_ne here]
        exact sound.dots place placeDir placeMade
    making := by
      intro other isMade
      obtain ⟨single, notFree, zero, held, loose⟩ := sound.making other isMade
      have distinct : other ≠ dir := by
        rintro rfl
        exact Nat.pos_iff_ne_zero.mp isMade made
      have differs : other ≠ inum := by
        rintro rfl
        exact Nat.pos_iff_ne_zero.mp isMade inumMade
      refine ⟨single, notFree, ?_, held, ?_⟩
      · simp only [Ledger.detach, Function.update_of_ne distinct]
        exact zero
      · simp only [Ledger.detach, Function.update_of_ne differs]
        exact loose
    balance := by
      intro other
      have before := sound.balance other
      have names := counted other
      have kids := family other
      rw [attached, contained] at kids
      simp only [Bool.true_and, Bool.false_and, Bool.toNat_false, Nat.add_zero] at kids
      have pending : (ledger.detach dir index inum).pending other =
          ledger.pending other + (decide (inum = other)).toNat := by
        by_cases same : other = inum
        · subst same
          simp [Ledger.detach, Ledger.clear]
        · simp [Ledger.detach, Ledger.clear, same, Ne.symm same]
      have links : (ledger.detach dir index inum).nlink other =
          ledger.nlink other - (decide (dir = other)).toNat := by
        by_cases same : other = dir
        · subst same
          simp [Ledger.detach]
        · simp [Ledger.detach, same, Ne.symm same]
      change (ledger.detach dir index inum).nlink other = _ + _ + _ + (ledger.lost other : Int)
      omega
    attachedDir := by
      intro other isAttached
      have differs : other ≠ inum := by
        rintro rfl
        simp [Ledger.detach] at isAttached
      simp only [Ledger.detach, Function.update_of_ne differs] at isAttached
      exact sound.attachedDir other isAttached
    placed := by
      intro place other target member otherDot otherDotdot targetDir
      obtain ⟨isAttached, isContained, targetNotRoot⟩ :=
        sound.placed place other target (entries member) otherDot otherDotdot targetDir
      have differs : target ≠ inum := by
        rintro rfl
        have positive := named_pos.mpr ⟨place, other, member, otherDot, otherDotdot⟩
        have names := counted target
        simp only [decide_true, Bool.toNat_true] at names
        omega
      refine ⟨?_, isContained, targetNotRoot⟩
      simp only [Ledger.detach, Function.update_of_ne differs]
      exact isAttached
    single := by
      intro other otherDir isAttached otherNotRoot
      have differs : other ≠ inum := by
        rintro rfl
        simp [Ledger.detach] at isAttached
      simp only [Ledger.detach, Function.update_of_ne differs] at isAttached
      have before := sound.single other otherDir isAttached otherNotRoot
      rw [← counted other] at before
      simpa [Ne.symm differs] using before
    rooted := by
      refine ⟨?_, sound.rooted.2⟩
      simp only [Ledger.detach, Function.update_of_ne (Ne.symm notRoot)]
      exact sound.rooted.1 }

theorem alloc (sound : Sound root ledger) {inum : Inum} {type : FileType}
    (isFree : ledger.type inum = .free) (real : type ≠ .free) :
    Sound root (ledger.alloc inum type) := by
  have notHeld : ledger.held inum = 0 := by
    by_contra isHeld
    exact sound.heldAlive inum (Nat.pos_of_ne_zero isHeld) isFree
  have notMade : ledger.making inum = 0 := by
    by_contra isMade
    exact (sound.making inum (Nat.pos_of_ne_zero isMade)).2.1 isFree
  have loose : ledger.attached inum = false := by
    by_contra attached
    have isDir := sound.attachedDir inum (by simpa using attached)
    rw [isFree] at isDir
    cases isDir
  have entries : (ledger.alloc inum type).entries = ledger.entries := by
    have empty := sound.plain inum (Or.inl (by simp [isFree]))
    simp only [Ledger.alloc]
    rw [← empty, Function.update_eq_self]
  have nlink : (ledger.alloc inum type).nlink = ledger.nlink := by
    simp only [Ledger.alloc]
    rw [← sound.freeBlank inum isFree, Function.update_eq_self]
  have names : ∀ other, (ledger.alloc inum type).named other = ledger.named other := by
    intro other
    simp only [Ledger.named, entries]
  have typeOf : ∀ {other}, other ≠ inum → (ledger.alloc inum type).type other =
      ledger.type other := fun distinct => Function.update_of_ne distinct _ _
  have makingOf : ∀ {other}, other ≠ inum → (ledger.alloc inum type).making other =
      ledger.making other := fun distinct => Function.update_of_ne distinct _ _
  have making : (ledger.alloc inum type).making inum = 1 := by
    simp [Ledger.alloc, notMade]
  have unnamed : ∀ dir name, some (name, inum) ∉ ledger.entries dir := by
    intro dir name member
    exact (sound.named dir name inum member).1 isFree
  constructor
  case refs =>
    intro other
    have := sound.refs other
    by_cases same : other = inum
    · subst same
      simp only [Ledger.alloc, Ledger.take, Function.update_self]
      omega
    · simp only [Ledger.alloc, Ledger.take, Function.update_of_ne same]
      exact this
  case heldAlive =>
    intro other positive
    by_cases same : other = inum
    · subst same
      simpa [Ledger.alloc] using real
    · rw [typeOf same]
      simp only [Ledger.alloc, Ledger.take, Function.update_of_ne same] at positive
      exact sound.heldAlive other positive
  case freeBlank =>
    intro other otherFree
    have distinct : other ≠ inum := by
      rintro rfl
      exact real (by simpa [Ledger.alloc] using otherFree)
    rw [nlink]
    exact sound.freeBlank other (typeOf distinct ▸ otherFree)
  case named =>
    intro dir name target member
    rw [entries] at member
    have distinct : target ≠ inum := by
      rintro rfl
      exact unnamed dir name member
    rw [typeOf distinct, makingOf distinct]
    exact sound.named dir name target member
  case plain =>
    intro dir unused
    rw [entries]
    by_cases same : dir = inum
    · subst same
      exact sound.plain dir (Or.inl (by simp [isFree]))
    · rw [typeOf same, makingOf same] at unused
      exact sound.plain dir unused
  case dots =>
    intro dir isDir made
    have distinct : dir ≠ inum := by
      rintro rfl
      omega
    rw [entries]
    rw [typeOf distinct] at isDir
    rw [makingOf distinct] at made
    exact sound.dots dir isDir made
  case making =>
    intro other isMade
    rw [nlink]
    by_cases same : other = inum
    · subst same
      refine ⟨making, ?_, sound.freeBlank other isFree, ?_, loose⟩
      · simpa [Ledger.alloc] using real
      · simp [Ledger.alloc, Ledger.take, notHeld]
    · rw [typeOf same]
      rw [makingOf same] at isMade ⊢
      simp only [Ledger.alloc, Ledger.take, Function.update_of_ne same]
      exact sound.making other isMade
  case balance =>
    intro other
    rw [nlink, names]
    exact sound.balance other
  case attachedDir =>
    intro other attached
    have distinct : other ≠ inum := by
      rintro rfl
      exact absurd attached (by rw [show (ledger.alloc other type).attached other =
        ledger.attached other from rfl, loose]; simp)
    rw [typeOf distinct]
    exact sound.attachedDir other attached
  case placed =>
    intro dir name target member notDot notDotdot isDir
    rw [entries] at member
    have distinct : target ≠ inum := by
      rintro rfl
      exact unnamed dir name member
    rw [typeOf distinct] at isDir
    exact sound.placed dir name target member notDot notDotdot isDir
  case single =>
    intro other isDir attached notRoot
    rw [names]
    exact sound.single other (sound.attachedDir other attached) attached notRoot
  case rooted =>
    have distinct : root ≠ inum := by
      rintro rfl
      exact absurd sound.rooted.1 (by simp [loose])
    refine ⟨sound.rooted.1, sound.rooted.2.1, ?_⟩
    rw [makingOf distinct]
    exact sound.rooted.2.2
  case older =>
    intro other isDir made
    have distinct : other ≠ inum := by
      rintro rfl
      omega
    rw [typeOf distinct] at isDir
    rw [makingOf distinct] at made
    obtain ⟨containerDir, same, before, past⟩ := sound.older other isDir made
    have containerDistinct : (ledger.container other).1 ≠ inum := by
      intro equal
      rw [equal, isFree] at containerDir
      cases containerDir
    refine ⟨?_, same, before, past⟩
    exact (typeOf containerDistinct).trans containerDir

/-- An inode that is being made is named nowhere. -/
theorem making_unnamed (sound : Sound root ledger) {inum : Inum} (isMade : 0 < ledger.making inum)
    (dir : Inum) (name : Name) : some (name, inum) ∉ ledger.entries dir := by
  intro member
  have made := (sound.named dir name inum member).2
  omega

theorem initFile (sound : Sound root ledger) {dir inum : Inum} {name : Name}
    (isMade : 0 < ledger.making inum) (notDir : ledger.type inum ≠ .dir)
    (isDir : ledger.type dir = .dir) (made : ledger.making dir = 0)
    (missing : slotLookup name (ledger.entries dir) = none) :
    Sound root (ledger.initFile dir name inum) := by
  obtain ⟨one, allocated, zero, held, loose⟩ := sound.making inum isMade
  obtain ⟨notDot, notDotdot⟩ := sound.name_ne_dots isDir made missing
  have counted : ∀ other, (ledger.initFile dir name inum).named other = _ :=
    named_insert rfl notDot notDotdot
  have entries : ∀ {place : Inum} {slot : Slot Inum},
      slot ∈ (ledger.initFile dir name inum).entries place → _ := mem_entries_insert rfl
  have makingOf : ∀ {other}, other ≠ inum → (ledger.initFile dir name inum).making other =
      ledger.making other := fun distinct => Function.update_of_ne distinct _ _
  have making : (ledger.initFile dir name inum).making inum = 0 := by
    simp [Ledger.initFile, one]
  exact
  { sound with
    freeBlank := by
      intro other isFree
      have distinct : other ≠ inum := by
        rintro rfl
        exact allocated isFree
      simp only [Ledger.initFile, Function.update_of_ne distinct]
      exact sound.freeBlank other isFree
    named := by
      intro place other target member
      rcases entries member with ⟨isNew, -⟩ | old
      · cases Option.some.inj isNew
        exact ⟨allocated, making⟩
      · have distinct : target ≠ inum := by
          rintro rfl
          exact sound.making_unnamed isMade place other old
        rw [makingOf distinct]
        exact sound.named place other target old
    plain := by
      intro place unused
      have distinct : place ≠ dir := by
        rintro rfl
        rcases unused with notDir | notMade
        · exact notDir isDir
        · have differs : place ≠ inum := fun equal => notDir (equal ▸ isDir)
          rw [makingOf differs] at notMade
          omega
      simp only [Ledger.initFile, Function.update_of_ne distinct]
      by_cases same : place = inum
      · subst same
        exact sound.plain place (Or.inr isMade)
      · rw [makingOf same] at unused
        exact sound.plain place unused
    dots := by
      intro place placeDir placeMade
      have differs : place ≠ inum := by
        rintro rfl
        exact notDir placeDir
      rw [makingOf differs] at placeMade
      by_cases here : place = dir
      · subst here
        simp only [Ledger.initFile, Function.update_self]
        exact sound.dots_insert isDir made missing
      · simp only [Ledger.initFile, Function.update_of_ne here]
        exact sound.dots place placeDir placeMade
    making := by
      intro other otherMade
      have distinct : other ≠ inum := by
        rintro rfl
        omega
      rw [makingOf distinct] at otherMade ⊢
      simp only [Ledger.initFile, Function.update_of_ne distinct]
      exact sound.making other otherMade
    balance := by
      intro other
      have before := sound.balance other
      rw [counted other]
      change _ = _ + (ledger.children other : Int) + ledger.pending other + ledger.lost other
      by_cases same : other = inum
      · subst same
        simp only [Ledger.initFile, Function.update_self, decide_true, Bool.toNat_true]
        omega
      · simp only [Ledger.initFile, Function.update_of_ne same, Ne.symm same, decide_false,
          Bool.toNat_false, Nat.add_zero]
        exact before
    placed := by
      intro place other target member otherDot otherDotdot targetDir
      rcases entries member with ⟨isNew, -⟩ | old
      · cases Option.some.inj isNew
        exact (notDir targetDir).elim
      · exact sound.placed place other target old otherDot otherDotdot targetDir
    single := by
      intro other otherDir attached notRoot
      have distinct : inum ≠ other := by
        rintro rfl
        exact notDir otherDir
      rw [counted other]
      simpa [distinct] using sound.single other otherDir attached notRoot
    rooted := by
      have distinct : root ≠ inum := by
        rintro rfl
        rw [sound.rooted.1] at loose
        cases loose
      refine ⟨sound.rooted.1, sound.rooted.2.1, ?_⟩
      rw [makingOf distinct]
      exact sound.rooted.2.2
    older := by
      intro other otherDir otherMade
      have differs : other ≠ inum := by
        rintro rfl
        exact notDir otherDir
      rw [makingOf differs] at otherMade
      exact sound.older other otherDir otherMade }

/-- Setting up a directory adds its dots and its name. -/
theorem entries_initDir (sound : Sound root ledger) {dir inum : Inum} {name : Name}
    (isMade : 0 < ledger.making inum) (made : ledger.making dir = 0)
    (notDot : name ≠ dot) (notDotdot : name ≠ dotdot) :
    (∀ other, (ledger.initDir dir name inum).named other =
        ledger.named other + (decide (inum = other)).toNat) ∧
      ∀ place entry, some entry ∈ (ledger.initDir dir name inum).entries place →
        (entry = (name, inum) ∧ place = dir) ∨
          (place = inum ∧ (entry = (dot, inum) ∨ entry = (dotdot, dir))) ∨
          some entry ∈ ledger.entries place := by
  have distinct : dir ≠ inum := by
    rintro rfl
    omega
  have empty := sound.plain inum (Or.inr isMade)
  let middle : Ledger Inum :=
    { ledger with entries := Function.update ledger.entries inum (dotEntries inum dir) }
  have atDir : middle.entries dir = ledger.entries dir := Function.update_of_ne distinct _ _
  have inserted : (ledger.initDir dir name inum).entries =
      Function.update middle.entries dir (slotInsert (name, inum) (middle.entries dir)) := by
    rw [atDir]
    rfl
  constructor
  · intro other
    have middleNames : middle.named other = ledger.named other := by
      have rewritten := named_update (show middle.entries = _ from rfl) other
      rw [empty, countP_dotEntries] at rewritten
      simpa using rewritten
    rw [← middleNames]
    exact named_insert inserted notDot notDotdot other
  · intro place entry member
    rcases mem_entries_insert inserted member with ⟨isNew, here⟩ | old
    · exact Or.inl ⟨Option.some.inj isNew, here⟩
    · by_cases same : place = inum
      · subst same
        have isDots : middle.entries place = dotEntries place dir := Function.update_self _ _ _
        rw [isDots] at old
        refine Or.inr (Or.inl ⟨rfl, ?_⟩)
        simpa [dotEntries] using old
      · have same' : middle.entries place = ledger.entries place :=
          Function.update_of_ne same _ _
        rw [same'] at old
        exact Or.inr (Or.inr old)

theorem initDir (sound : Sound root ledger) {dir inum : Inum} {name : Name}
    (isMade : 0 < ledger.making inum) (isNewDir : ledger.type inum = .dir)
    (isDir : ledger.type dir = .dir) (made : ledger.making dir = 0)
    (missing : slotLookup name (ledger.entries dir) = none) :
    Sound root (ledger.initDir dir name inum) := by
  obtain ⟨one, allocated, zero, held, loose⟩ := sound.making inum isMade
  obtain ⟨notDot, notDotdot⟩ := sound.name_ne_dots isDir made missing
  obtain ⟨counted, entries⟩ := sound.entries_initDir isMade made notDot notDotdot
  have distinct : dir ≠ inum := by
    rintro rfl
    omega
  have rootDistinct : root ≠ inum := by
    rintro rfl
    rw [sound.rooted.1] at loose
    cases loose
  have makingOf : ∀ {other}, other ≠ inum → (ledger.initDir dir name inum).making other =
      ledger.making other := fun differs => Function.update_of_ne differs _ _
  have making : (ledger.initDir dir name inum).making inum = 0 := by
    simp [Ledger.initDir, one]
  have bornOf : ∀ {other}, other ≠ inum → (ledger.initDir dir name inum).born other =
      ledger.born other := fun differs => Function.update_of_ne differs _ _
  have containerOf : ∀ {other}, other ≠ inum → (ledger.initDir dir name inum).container other =
      ledger.container other := fun differs => Function.update_of_ne differs _ _
  have container : (ledger.initDir dir name inum).container inum = (dir, ledger.born dir) :=
    Function.update_self _ _ _
  have attachedOf : ∀ {other}, other ≠ inum → (ledger.initDir dir name inum).attached other =
      ledger.attached other := fun differs => Function.update_of_ne differs _ _
  have attached : (ledger.initDir dir name inum).attached inum = true :=
    Function.update_self _ _ _
  have family : ∀ other, (ledger.initDir dir name inum).children other + _ = _ :=
    children_update rfl rfl
  have dirOlder := sound.older dir isDir made
  have unnamed : ledger.named inum = 0 := by
    by_contra named
    obtain ⟨place, other, member, -⟩ := named_pos.mp (Nat.pos_of_ne_zero named)
    exact sound.making_unnamed isMade place other member
  constructor
  case refs => exact sound.refs
  case heldAlive => exact sound.heldAlive
  case freeBlank =>
    intro other isFree
    have notNew : other ≠ inum := by
      rintro rfl
      exact allocated isFree
    have notDir : other ≠ dir := by
      rintro rfl
      change ledger.type other = .free at isFree
      rw [isDir] at isFree
      cases isFree
    simp only [Ledger.initDir, Function.update_of_ne notDir, Function.update_of_ne notNew]
    exact sound.freeBlank other isFree
  case named =>
    intro place other target member
    rcases entries place (other, target) member with ⟨isNew, -⟩ | ⟨-, isDot | isDotdot⟩ | old
    · cases isNew
      exact ⟨allocated, making⟩
    · cases isDot
      exact ⟨allocated, making⟩
    · cases isDotdot
      rw [makingOf distinct]
      exact ⟨by rw [show (ledger.initDir dir name inum).type dir = _ from isDir]; simp, made⟩
    · have differs : target ≠ inum := by
        rintro rfl
        exact sound.making_unnamed isMade place other old
      rw [makingOf differs]
      exact sound.named place other target old
  case plain =>
    intro place unused
    have notDir : place ≠ dir := by
      rintro rfl
      rw [makingOf distinct] at unused
      rcases unused with notDir | notMade
      · exact notDir isDir
      · omega
    have notNew : place ≠ inum := by
      rintro rfl
      rcases unused with notDir | notMade
      · exact notDir isNewDir
      · omega
    rw [makingOf notNew] at unused
    simp only [Ledger.initDir, Function.update_of_ne notDir, Function.update_of_ne notNew]
    exact sound.plain place unused
  case dots =>
    intro place placeDir placeMade
    by_cases isNew : place = inum
    · subst isNew
      refine ⟨[], ?_, by simp⟩
      rw [container]
      simp [Ledger.initDir, Function.update_of_ne (Ne.symm distinct)]
    · rw [makingOf isNew] at placeMade
      rw [containerOf isNew]
      by_cases here : place = dir
      · subst here
        simp only [Ledger.initDir, Function.update_self]
        exact sound.dots_insert isDir made missing
      · simp only [Ledger.initDir, Function.update_of_ne here, Function.update_of_ne isNew]
        exact sound.dots place placeDir placeMade
  case making =>
    intro other otherMade
    have notNew : other ≠ inum := by
      rintro rfl
      omega
    rw [makingOf notNew] at otherMade ⊢
    have notDir : other ≠ dir := by
      rintro rfl
      omega
    obtain ⟨isOne, notFree, isZero, isHeld, isLoose⟩ := sound.making other otherMade
    refine ⟨isOne, notFree, ?_, isHeld, ?_⟩
    · simp only [Ledger.initDir, Function.update_of_ne notDir, Function.update_of_ne notNew]
      exact isZero
    · rw [attachedOf notNew]
      exact isLoose
  case balance =>
    intro other
    have before := sound.balance other
    have kids := family other
    rw [loose] at kids
    simp only [Bool.true_and, Bool.false_and, Bool.toNat_false, Nat.add_zero] at kids
    have links : (ledger.initDir dir name inum).nlink other =
        ledger.nlink other + (decide (inum = other)).toNat + (decide (dir = other)).toNat := by
      by_cases isNew : other = inum
      · subst isNew
        simp [Ledger.initDir, Function.update_of_ne (Ne.symm distinct), distinct, zero]
      · by_cases here : other = dir
        · subst here
          simp [Ledger.initDir, Ne.symm isNew]
        · simp [Ledger.initDir, here, isNew, Ne.symm here, Ne.symm isNew]
    rw [counted other]
    change (ledger.initDir dir name inum).nlink other =
      _ + _ + (ledger.pending other : Int) + ledger.lost other
    omega
  case attachedDir =>
    intro other isAttached
    by_cases isNew : other = inum
    · subst isNew
      exact isNewDir
    · rw [attachedOf isNew] at isAttached
      exact sound.attachedDir other isAttached
  case placed =>
    intro place other target member otherDot otherDotdot targetDir
    rcases entries place (other, target) member with ⟨isNew, rfl⟩ | ⟨-, isDot | isDotdot⟩ | old
    · cases isNew
      exact ⟨attached, by rw [container], Ne.symm rootDistinct⟩
    · cases isDot
      exact (otherDot rfl).elim
    · cases isDotdot
      exact (otherDotdot rfl).elim
    · have differs : target ≠ inum := by
        rintro rfl
        exact sound.making_unnamed isMade place other old
      rw [attachedOf differs, containerOf differs]
      exact sound.placed place other target old otherDot otherDotdot targetDir
  case single =>
    intro other otherDir isAttached notRoot
    rw [counted other]
    by_cases isNew : other = inum
    · subst isNew
      simp [unnamed]
    · rw [attachedOf isNew] at isAttached
      simpa [Ne.symm isNew] using sound.single other otherDir isAttached notRoot
  case rooted =>
    rw [attachedOf rootDistinct, containerOf rootDistinct, makingOf rootDistinct]
    exact sound.rooted
  case older =>
    intro other otherDir otherMade
    by_cases isNew : other = inum
    · subst isNew
      rw [container]
      refine ⟨isDir, bornOf distinct, fun _ => ?_, ?_⟩
      · simp only [Ledger.initDir, Function.update_self]
        exact dirOlder.2.2.2
      · simp [Ledger.initDir]
    · rw [makingOf isNew] at otherMade
      obtain ⟨containerDir, same, before, past⟩ := sound.older other otherDir otherMade
      rw [containerOf isNew, bornOf isNew]
      have containerDistinct : (ledger.container other).1 ≠ inum := by
        intro equal
        obtain ⟨rest, isEntries, -⟩ := sound.dots other otherDir otherMade
        apply sound.making_unnamed isMade other dotdot
        rw [isEntries, equal]
        simp [dotEntries]
      refine ⟨containerDir, ?_, before, Nat.lt_succ_of_lt past⟩
      rw [bornOf containerDistinct]
      exact same

/-- Nothing names an inode that can be freed, apart from its own dots. -/
theorem unnamed_of_unlinked (sound : Sound root ledger) {inum : Inum}
    (unlinked : ledger.nlink inum = 0)
    (noDotdot : ∀ dir, some (dotdot, inum) ∈ ledger.entries dir → dir = inum)
    {dir : Inum} {name : Name} (member : some (name, inum) ∈ ledger.entries dir) :
    dir = inum := by
  by_cases isDot : name = dot
  · exact ((sound.entry_dots member).2.2.1 isDot).symm
  · by_cases isDotdot : name = dotdot
    · exact noDotdot dir (isDotdot ▸ member)
    · have positive := named_pos.mpr ⟨dir, name, member, isDot, isDotdot⟩
      have := sound.nlink_pos (Or.inl positive)
      omega

theorem discard (sound : Sound root ledger) {inum : Inum} (isHeld : 0 < ledger.held inum)
    (made : ledger.making inum = 0) (unlinked : ledger.nlink inum = 0)
    (last : ledger.ref inum = 1)
    (noDotdot : ∀ dir, some (dotdot, inum) ∈ ledger.entries dir → dir = inum) :
    Sound root (ledger.discard inum) := by
  have refs := sound.refs inum
  have loose : ledger.attached inum = false := by
    by_contra attached
    have := sound.attached_nlink_pos (by simpa using attached)
    omega
  have rootDistinct : root ≠ inum := by
    rintro rfl
    rw [sound.rooted.1] at loose
    cases loose
  have typeOf : ∀ {other}, other ≠ inum → (ledger.discard inum).type other =
      ledger.type other := fun distinct => Function.update_of_ne distinct _ _
  have isFree : (ledger.discard inum).type inum = .free := Function.update_self _ _ _
  have entriesOf : ∀ {other}, other ≠ inum → (ledger.discard inum).entries other =
      ledger.entries other := fun distinct => Function.update_of_ne distinct _ _
  have noEntries : (ledger.discard inum).entries inum = [] := Function.update_self _ _ _
  have entries : ∀ {place entry}, some entry ∈ (ledger.discard inum).entries place →
      place ≠ inum ∧ some entry ∈ ledger.entries place := by
    intro place entry member
    by_cases same : place = inum
    · subst same
      rw [noEntries] at member
      cases member
    · rw [entriesOf same] at member
      exact ⟨same, member⟩
  have counted : ∀ other, (ledger.discard inum).named other +
      (ledger.entries inum).countP (linksTo other) = ledger.named other := by
    intro other
    have rewritten := named_update (show (ledger.discard inum).entries = _ from rfl) other
    simpa using rewritten
  -- a directory that can be freed has no entries of directories left
  have noSubdirs : ∀ other, ledger.type other = .dir →
      (ledger.entries inum).countP (linksTo other) = 0 := by
    intro other isDir
    by_contra positive
    obtain ⟨name, member, notDot, notDotdot⟩ :=
      countP_linksTo_pos.mp (Nat.pos_of_ne_zero positive)
    obtain ⟨attached, contained, -⟩ := sound.placed inum name other member notDot notDotdot isDir
    have kids := children_pos attached
    rw [contained] at kids
    have := sound.nlink_pos (Or.inr (Or.inl kids))
    omega
  constructor
  case refs =>
    intro other
    have := sound.refs other
    by_cases same : other = inum
    · subst same
      simp only [Ledger.discard, Ledger.give, Function.update_self]
      omega
    · simp only [Ledger.discard, Ledger.give, Function.update_of_ne same]
      exact this
  case heldAlive =>
    intro other positive
    have distinct : other ≠ inum := by
      rintro rfl
      simp only [Ledger.discard, Ledger.give, Function.update_self] at positive
      omega
    rw [typeOf distinct]
    simp only [Ledger.discard, Ledger.give, Function.update_of_ne distinct] at positive
    exact sound.heldAlive other positive
  case freeBlank =>
    intro other otherFree
    by_cases same : other = inum
    · subst same
      exact unlinked
    · rw [typeOf same] at otherFree
      exact sound.freeBlank other otherFree
  case named =>
    intro place name target member
    obtain ⟨distinct, old⟩ := entries member
    have differs : target ≠ inum := by
      rintro rfl
      exact distinct (sound.unnamed_of_unlinked unlinked noDotdot old)
    rw [typeOf differs]
    exact sound.named place name target old
  case plain =>
    intro place unused
    by_cases same : place = inum
    · subst same
      exact noEntries
    · rw [typeOf same] at unused
      rw [entriesOf same]
      exact sound.plain place unused
  case dots =>
    intro place placeDir placeMade
    have distinct : place ≠ inum := by
      rintro rfl
      rw [isFree] at placeDir
      cases placeDir
    rw [typeOf distinct] at placeDir
    rw [entriesOf distinct]
    exact sound.dots place placeDir placeMade
  case making =>
    intro other otherMade
    have distinct : other ≠ inum := by
      rintro rfl
      exact Nat.pos_iff_ne_zero.mp otherMade made
    rw [typeOf distinct]
    simp only [Ledger.discard, Ledger.give, Function.update_of_ne distinct]
    exact sound.making other otherMade
  case balance =>
    intro other
    have before := sound.balance other
    have names := counted other
    change ledger.nlink other = _ + (ledger.children other : Int) + ledger.pending other +
      ((ledger.lost other + (ledger.entries inum).countP (linksTo other) : Nat) : Int)
    omega
  case attachedDir =>
    intro other attached
    change ledger.attached other = true at attached
    have distinct : other ≠ inum := by
      rintro rfl
      rw [loose] at attached
      cases attached
    rw [typeOf distinct]
    exact sound.attachedDir other attached
  case placed =>
    intro place name target member notDot notDotdot targetDir
    obtain ⟨distinct, old⟩ := entries member
    have differs : target ≠ inum := by
      rintro rfl
      exact distinct (sound.unnamed_of_unlinked unlinked noDotdot old)
    rw [typeOf differs] at targetDir
    exact sound.placed place name target old notDot notDotdot targetDir
  case single =>
    intro other otherDir attached notRoot
    have isDir := sound.attachedDir other attached
    have before := sound.single other isDir attached notRoot
    have names := counted other
    rw [noSubdirs other isDir] at names
    omega
  case rooted => exact sound.rooted
  case older =>
    intro other otherDir otherMade
    have distinct : other ≠ inum := by
      rintro rfl
      rw [isFree] at otherDir
      cases otherDir
    rw [typeOf distinct] at otherDir
    obtain ⟨containerDir, same, before, past⟩ := sound.older other otherDir otherMade
    have containerDistinct : (ledger.container other).1 ≠ inum := by
      intro equal
      obtain ⟨rest, isEntries, -⟩ := sound.dots other otherDir otherMade
      apply distinct
      apply noDotdot other
      rw [isEntries, equal]
      simp [dotEntries]
    refine ⟨?_, same, before, past⟩
    exact (typeOf containerDistinct).trans containerDir

theorem step {strict : Prop} {after : Ledger Inum} (sound : Sound root ledger)
    (step : Step strict ledger after) : Sound root after := by
  cases step with
  | take allocated made => exact sound.take allocated made
  | load => exact sound.load _
  | give isHeld made => exact sound.give isHeld made
  | discard isHeld made unlinked last noDotdot =>
      exact sound.discard isHeld made unlinked last noDotdot
  | drop dropping => exact sound.drop dropping
  | raise allocated made => exact sound.raise allocated made
  | enter isDir made _ missing pending notDir allocated inumMade =>
      exact sound.enter isDir made missing pending notDir allocated inumMade
  | lower pending isHeld _ => exact sound.lower pending isHeld
  | clear entry notDot notDotdot notDir => exact sound.clear entry notDot notDotdot notDir
  | detach entry notDot notDotdot isDir => exact sound.detach entry notDot notDotdot isDir
  | alloc isFree real => exact sound.alloc isFree real
  | initFile isMade notDir isDir made _ missing =>
      exact sound.initFile isMade notDir isDir made missing
  | initDir isMade isNewDir isDir made _ missing =>
      exact sound.initDir isMade isNewDir isDir made missing

end Sound

end Ledger

end Coursework.Directory
