import Coursework.FsDisk
import Coursework.UniqueOwnership

/-!
# The block numbers that inodes list

An inode lists block numbers in `addrs` and in its indirect block.  The
positions of all inodes are places that hold blocks in the sense of
`UniqueOwnership`.  Each elementary change made by `bmap`, by `writei` and by
`itrunc` fills one position, empties one position, or changes none: a write to
a block's content is invisible unless the block is an indirect block of some
inode, and a block has only one owner.
-/

namespace Coursework.FileSystem

/-- A position where an inode lists a block: in `addrs`, or in the indirect
block. -/
inductive Position where
  | slot (slot : Fin (NDIRECT + 1))
  | word (bn : Fin NINDIRECT)
  deriving DecidableEq

/-- The position of the nth block of a file. -/
def filePosition (bn : Nat) : Option Position :=
  if direct : bn < NDIRECT then some (.slot ⟨bn, Nat.lt_succ_of_lt direct⟩)
  else if indirect : bn - NDIRECT < NINDIRECT then some (.word ⟨bn - NDIRECT, indirect⟩)
  else none

/-- The position of a file's block is not that of the indirect block. -/
theorem filePosition_leaf {bn : Nat} {position : Position}
    (isPosition : filePosition bn = some position) : position ≠ .slot indirectSlot := by
  rintro rfl
  unfold filePosition at isPosition
  split at isPosition
  · next direct =>
      have same := congrArg Fin.val (Position.slot.inj (Option.some.inj isPosition))
      simp only [indirectSlot, Fin.val_last] at same
      omega
  · split at isPosition
    · cases isPosition
    · cases isPosition

theorem filePosition_inj {first second : Nat} {position : Position}
    (isFirst : filePosition first = some position)
    (isSecond : filePosition second = some position) : first = second := by
  unfold filePosition at isFirst isSecond
  split at isFirst
  · split at isSecond
    · rw [← isSecond] at isFirst
      exact congrArg Fin.val (Position.slot.inj (Option.some.inj isFirst))
    · split at isSecond
      · rw [← isSecond] at isFirst
        cases isFirst
      · cases isSecond
  · split at isFirst
    · split at isSecond
      · rw [← isSecond] at isFirst
        cases isFirst
      · split at isSecond
        · rw [← isSecond] at isFirst
          have same := congrArg Fin.val (Position.word.inj (Option.some.inj isFirst))
          simp only at same
          omega
        · cases isSecond
    · cases isFirst

/-- The block number at a position, zero if there is none.  The first `released`
numbers of the indirect block no longer count. -/
def address (blocks : Nat → Block) (inode : Dinode) (released : Nat) : Position → Nat
  | .slot slot => inode.addrs slot
  | .word bn =>
      if inode.addrs indirectSlot = 0 ∨ bn.val < released then 0
      else Disk.word (blocks (inode.addrs indirectSlot)) bn

/-- The block that an allocated inode lists at a position. -/
def listed (blocks : Nat → Block) (inode : Dinode) (released : Nat)
    (position : Position) : Option Nat :=
  if inode.type = .free ∨ address blocks inode released position = 0 then none
  else some (address blocks inode released position)

theorem listed_eq_some {blocks : Nat → Block} {inode : Dinode} {released : Nat}
    {position : Position} {blockno : Nat} :
    listed blocks inode released position = some blockno ↔
      inode.type ≠ .free ∧ blockno ≠ 0 ∧
        address blocks inode released position = blockno := by
  unfold listed
  split
  · next absent =>
      constructor
      · intro impossible; cases impossible
      · rintro ⟨allocated, nonzero, rfl⟩
        exact (absent.elim allocated nonzero).elim
  · next present =>
      rw [not_or] at present
      constructor
      · intro equal
        obtain rfl := Option.some.inj equal
        exact ⟨present.1, present.2, rfl⟩
      · rintro ⟨-, -, equal⟩
        rw [equal]

theorem listed_eq_none {blocks : Nat → Block} {inode : Dinode} {released : Nat}
    {position : Position} :
    listed blocks inode released position = none ↔
      inode.type = .free ∨ address blocks inode released position = 0 := by
  unfold listed
  split
  · next absent => simp [absent]
  · next present => simp [present]

theorem listed_of_address {blocks blocks' : Nat → Block} {inode inode' : Dinode}
    {released released' : Nat} {position : Position} (type : inode'.type = inode.type)
    (same : address blocks' inode' released' position =
      address blocks inode released position) :
    listed blocks' inode' released' position = listed blocks inode released position := by
  simp only [listed, type, same]

/-- What is listed depends on the type and `addrs` of an inode and on its indirect
block. -/
theorem listed_congr {blocks blocks' : Nat → Block} {inode inode' : Dinode}
    {released : Nat} {position : Position} (type : inode'.type = inode.type)
    (addrs : inode'.addrs = inode.addrs)
    (indirect : inode.type ≠ .free → inode.addrs indirectSlot ≠ 0 →
      blocks' (inode.addrs indirectSlot) = blocks (inode.addrs indirectSlot)) :
    listed blocks' inode' released position = listed blocks inode released position := by
  by_cases isFree : inode.type = .free
  · have isFree' : inode'.type = .free := type.trans isFree
    rw [listed_eq_none.mpr (Or.inl isFree), listed_eq_none.mpr (Or.inl isFree')]
  · apply listed_of_address type
    cases position with
    | slot slot => simp only [address, addrs]
    | word bn =>
        by_cases missing : inode.addrs indirectSlot = 0
        · simp [address, addrs, missing]
        · simp only [address, addrs, indirect isFree missing]

section Holdings

variable {Inum : Type*}

/-- The blocks listed at all positions of all inodes. -/
def holdings (blocks : Nat → Block) (inodes : Inum → Dinode) (released : Inum → Nat)
    (place : Inum × Position) : Option Nat :=
  listed blocks (inodes place.1) (released place.1) place.2

variable {blocks : Nat → Block} {inodes : Inum → Dinode} {released : Inum → Nat}

/-- An indirect block is held by the inode that lists it. -/
theorem holdings_indirect {inum : Inum} (allocated : (inodes inum).type ≠ .free)
    (present : (inodes inum).addrs indirectSlot ≠ 0) :
    holdings blocks inodes released (inum, .slot indirectSlot) =
      some ((inodes inum).addrs indirectSlot) :=
  listed_eq_some.mpr ⟨allocated, present, rfl⟩

/-- A write to a block that is no indirect block changes no position. -/
theorem holdings_writeBlock {blockno : Nat} {block : Block}
    (other : ∀ inum, holdings blocks inodes released (inum, .slot indirectSlot) ≠
      some blockno) :
    holdings (Function.update blocks blockno block) inodes released =
      holdings blocks inodes released := by
  funext ⟨inum, position⟩
  refine listed_congr rfl rfl fun allocated present => Function.update_of_ne ?_ _ _
  intro equal
  exact other inum (equal ▸ holdings_indirect allocated present)

variable [DecidableEq Inum]

/-- A change of one inode that keeps its type and `addrs` changes no position. -/
theorem holdings_update_same {inum : Inum} {inode : Dinode}
    (type : inode.type = (inodes inum).type) (addrs : inode.addrs = (inodes inum).addrs) :
    holdings blocks (Function.update inodes inum inode) released =
      holdings blocks inodes released := by
  funext ⟨other, position⟩
  rcases eq_or_ne other inum with rfl | distinct
  · simp only [holdings, Function.update_self]
    exact listed_congr type addrs fun _ _ => rfl
  · simp only [holdings, Function.update_of_ne distinct]

/-- An inode that lists nothing before and after changes no position. -/
theorem holdings_update_none {inum : Inum} {inode : Dinode} {released' : Inum → Nat}
    (elsewhere : ∀ other, other ≠ inum → released' other = released other)
    (before : ∀ position, holdings blocks inodes released (inum, position) = none)
    (after : ∀ position, listed blocks inode (released' inum) position = none) :
    holdings blocks (Function.update inodes inum inode) released' =
      holdings blocks inodes released := by
  funext ⟨other, position⟩
  rcases eq_or_ne other inum with rfl | distinct
  · rw [before position]
    simpa only [holdings, Function.update_self] using after position
  · simp only [holdings, Function.update_of_ne distinct, elsewhere other distinct]

/-- A freshly zeroed block number in `addrs` fills its position.  As an indirect
block it lists nothing yet. -/
theorem holdings_fillSlot {inum : Inum} {slot : Fin (NDIRECT + 1)} {blockno : Nat}
    (allocated : (inodes inum).type ≠ .free) (missing : (inodes inum).addrs slot = 0)
    (nonzero : blockno ≠ 0)
    (unheld : ∀ place, holdings blocks inodes released place ≠ some blockno) :
    holdings (Function.update blocks blockno fun _ => 0)
        (Function.update inodes inum { inodes inum with
          addrs := Function.update (inodes inum).addrs slot blockno }) released =
      Function.update (holdings blocks inodes released) (inum, .slot slot)
        (some blockno) := by
  have zeroed : holdings (Function.update blocks blockno fun _ => 0) inodes released =
      holdings blocks inodes released :=
    holdings_writeBlock fun other => unheld (other, _)
  rw [← zeroed]
  funext ⟨other, position⟩
  rcases eq_or_ne other inum with rfl | distinct
  · cases position with
    | slot place =>
        rcases eq_or_ne place slot with rfl | differ
        · rw [Function.update_self]
          refine listed_eq_some.mpr ?_
          simp [allocated, nonzero, address]
        · rw [Function.update_of_ne (by simpa using differ)]
          simp only [holdings, Function.update_self]
          refine listed_of_address (by rfl) ?_
          simp only [address, Function.update_of_ne differ]
    | word bn =>
        rw [Function.update_of_ne (by simp)]
        rcases eq_or_ne indirectSlot slot with rfl | differ
        · have before : holdings (Function.update blocks blockno fun _ => 0) inodes released
              (other, .word bn) = none := by
            apply listed_eq_none.mpr
            simp [address, missing]
          rw [before]
          apply listed_eq_none.mpr
          right
          simp [address, Disk.word_zero]
        · simp only [holdings, Function.update_self]
          refine listed_of_address (by rfl) ?_
          simp only [address, Function.update_of_ne differ]
  · rw [Function.update_of_ne (by simp [distinct])]
    simp only [holdings, Function.update_of_ne distinct]

/-- A block number written into an indirect block fills its position. -/
theorem holdings_fillWord {inum : Inum} {bn : Fin NINDIRECT} {blockno : Nat}
    (allocated : (inodes inum).type ≠ .free)
    (present : (inodes inum).addrs indirectSlot ≠ 0)
    (nothing : released inum = 0)
    (nonzero : blockno ≠ 0) (fits : blockno < 2 ^ 32)
    (unheld : ∀ place, holdings blocks inodes released place ≠ some blockno)
    (unique : ∀ other, holdings blocks inodes released (other, .slot indirectSlot) =
      some ((inodes inum).addrs indirectSlot) → other = inum) :
    holdings (Function.update (Function.update blocks blockno fun _ => 0)
        ((inodes inum).addrs indirectSlot)
        (Disk.setWord (blocks ((inodes inum).addrs indirectSlot)) bn blockno))
        inodes released =
      Function.update (holdings blocks inodes released) (inum, .word bn)
        (some blockno) := by
  have zeroed : holdings (Function.update blocks blockno fun _ => 0) inodes released =
      holdings blocks inodes released :=
    holdings_writeBlock fun other => unheld (other, _)
  rw [← zeroed] at unique ⊢
  have apart : (inodes inum).addrs indirectSlot ≠ blockno := by
    intro equal
    exact unheld (inum, .slot indirectSlot) (equal ▸ holdings_indirect allocated present)
  have content : blocks ((inodes inum).addrs indirectSlot) =
      Function.update blocks blockno (fun _ => 0) ((inodes inum).addrs indirectSlot) :=
    (Function.update_of_ne apart _ _).symm
  rw [content]
  generalize Function.update blocks blockno (fun _ => 0) = blocks' at unique ⊢
  funext ⟨other, position⟩
  rcases eq_or_ne other inum with rfl | distinct
  · cases position with
    | slot place =>
        rw [Function.update_of_ne (by simp)]
        exact listed_of_address rfl rfl
    | word place =>
        rcases eq_or_ne place bn with rfl | differ
        · rw [Function.update_self]
          refine listed_eq_some.mpr ⟨allocated, nonzero, ?_⟩
          simp [address, present, nothing, Disk.word_setWord_self _ place.isLt fits]
        · have differ' : place.val ≠ bn.val := fun equal => differ (Fin.ext equal)
          rw [Function.update_of_ne (by simpa using differ)]
          refine listed_of_address (by rfl) ?_
          simp only [address, Function.update_self, Disk.word_setWord_of_ne _ differ']
  · rw [Function.update_of_ne (by simp [distinct])]
    refine listed_congr rfl rfl fun otherAllocated otherPresent => Function.update_of_ne ?_ _ _
    intro equal
    exact distinct (unique other (equal ▸ holdings_indirect otherAllocated otherPresent))

/-- Clearing a block number in `addrs` empties its position; an indirect block
goes after the blocks it lists. -/
theorem holdings_clearSlot {inum : Inum} {slot : Fin (NDIRECT + 1)}
    {released' : Inum → Nat}
    (elsewhere : ∀ other, other ≠ inum → released' other = released other)
    (last : slot = indirectSlot → NINDIRECT ≤ released inum)
    (kept : slot ≠ indirectSlot → released' inum = released inum) :
    holdings blocks (Function.update inodes inum { inodes inum with
          addrs := Function.update (inodes inum).addrs slot 0 }) released' =
      Function.update (holdings blocks inodes released) (inum, .slot slot) none := by
  funext ⟨other, position⟩
  rcases eq_or_ne other inum with rfl | distinct
  · cases position with
    | slot place =>
        rcases eq_or_ne place slot with rfl | differ
        · rw [Function.update_self]
          apply listed_eq_none.mpr
          simp [address]
        · rw [Function.update_of_ne (by simpa using differ)]
          simp only [holdings, Function.update_self]
          refine listed_of_address (by rfl) ?_
          simp only [address, Function.update_of_ne differ]
    | word bn =>
        rw [Function.update_of_ne (by simp)]
        rcases eq_or_ne indirectSlot slot with rfl | differ
        · have inside : bn.val < released other := lt_of_lt_of_le bn.isLt (last rfl)
          have before : holdings blocks inodes released (other, .word bn) = none := by
            apply listed_eq_none.mpr
            simp [address, inside]
          rw [before]
          apply listed_eq_none.mpr
          simp [address]
        · simp only [holdings, Function.update_self]
          refine listed_of_address (by rfl) ?_
          simp only [address, Function.update_of_ne differ, kept (Ne.symm differ)]
  · rw [Function.update_of_ne (by simp [distinct])]
    simp only [holdings, Function.update_of_ne distinct, elsewhere other distinct]

/-- Counting one more number of the indirect block as released empties its
position. -/
theorem holdings_releaseWord {inum : Inum} {bn : Fin NINDIRECT}
    (here : released inum = bn.val) :
    holdings blocks inodes (Function.update released inum (bn.val + 1)) =
      Function.update (holdings blocks inodes released) (inum, .word bn) none := by
  funext ⟨other, position⟩
  rcases eq_or_ne other inum with rfl | distinct
  · cases position with
    | slot place =>
        rw [Function.update_of_ne (by simp)]
        exact listed_of_address rfl rfl
    | word place =>
        rcases eq_or_ne place bn with rfl | differ
        · rw [Function.update_self]
          apply listed_eq_none.mpr
          simp [address]
        · have differ' : place.val ≠ bn.val := fun equal => differ (Fin.ext equal)
          have same : place.val < bn.val + 1 ↔ place.val < released other := by omega
          rw [Function.update_of_ne (by simpa using differ)]
          refine listed_of_address (by rfl) ?_
          simp only [address, Function.update_self, same]
  · rw [Function.update_of_ne (by simp [distinct])]
    simp only [holdings, Function.update_of_ne distinct]

end Holdings

end Coursework.FileSystem
