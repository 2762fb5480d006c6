import Coursework.BlockOwnership
import Coursework.MkfsImage

/-!
# Blocks that `iappend` takes

The blocks of the image below `freeblock` are the metadata blocks and the blocks
that the inodes list, each at one position, and the blocks above are zero.  A
file has the blocks below its size and, when they do not fit into `addrs`, its
indirect block; so what `iappend` takes depends on the sizes before and after
only.
-/

namespace Coursework.FileSystem.Mkfs

open ByteBlock

/-! ## Positions and costs -/

def blocksFor (bytes : Nat) : Nat := (bytes + BSIZE - 1) / BSIZE

/-- The blocks of a file together with its indirect block. -/
def cost (blocks : Nat) : Nat := blocks + if NDIRECT < blocks then 1 else 0

theorem cost_mono {first second : Nat} (below : first ≤ second) : cost first ≤ cost second := by
  simp only [cost]
  split <;> split <;> omega

theorem blocksFor_mono {first second : Nat} (below : first ≤ second) :
    blocksFor first ≤ blocksFor second := by
  simp only [blocksFor, BSIZE]
  omega

theorem filePosition_of_lt {bn : Nat} (below : bn < MAXFILE) :
    ∃ position, filePosition bn = some position := by
  unfold filePosition
  split
  · exact ⟨_, rfl⟩
  · split
    · exact ⟨_, rfl⟩
    · simp only [MAXFILE] at below
      omega

theorem isMeta_iff (blockno : Nat) : sb.isMeta blockno ↔ blockno < nmeta := by
  simp only [Superblock.isMeta, sb, nmeta, ninodeblocks, nbitmap, LOGSIZE, MAXOPBLOCKS, NINODES,
    IPB, FSSIZE, BPB, BSIZE]
  omega

theorem nmeta_le : nmeta ≤ FSSIZE := by decide

/-! ## What is listed -/

/-- The inodes list the blocks below their counts, and the indirect blocks that
these need. -/
structure Counts (held : Inum × Position → Option Nat) (count : Inum → Nat) : Prop where
  mapped : ∀ inum bn position, filePosition bn = some position →
    ((held (inum, position)).isSome = true ↔ bn < count inum)
  indirect : ∀ inum, (held (inum, .slot indirectSlot)).isSome = true ↔ NDIRECT < count inum

/-- The listed blocks hold the content of the files, and zeroes after it. -/
def Stores (blocks : Nat → Block) (held : Inum × Position → Option Nat)
    (content : Inum → List UInt8) : Prop :=
  ∀ inum bn position blockno, filePosition bn = some position →
    held (inum, position) = some blockno →
      ∀ index < BSIZE, byteAt (blocks blockno) index = (content inum).getD (bn * BSIZE + index) 0

section Fill

variable {held : Inum × Position → Option Nat} {count : Inum → Nat} {inum : Inum}
  {position : Position} {fbn blockno indirect freeblock : Nat}

theorem owns_fill {place : Inum × Position}
    (owns : Owns (· < FSSIZE) sb.isMeta (fun b => decide (b < freeblock)) held)
    (empty : held place = none) (start : nmeta ≤ freeblock) (inside : freeblock < FSSIZE) :
    Owns (· < FSSIZE) sb.isMeta (fun b => decide (b < freeblock + 1))
      (Function.update held place (some freeblock)) := by
  have filled := owns.fill empty inside (by rw [isMeta_iff]; omega) (by simp)
  have marks : Function.update (fun b => decide (b < freeblock)) freeblock true =
      fun b => decide (b < freeblock + 1) := by
    ext b
    rcases eq_or_ne b freeblock with rfl | distinct
    · simp
    · rw [Function.update_of_ne distinct]
      congr 1
      apply propext
      omega
  rw [marks] at filled
  exact filled

/-- The next block of a file is filled in. -/
theorem Counts.fill (counts : Counts held count) (isPosition : filePosition fbn = some position)
    (next : count inum = fbn) (notFirst : fbn ≠ NDIRECT) :
    Counts (Function.update held (inum, position) (some blockno))
      (Function.update count inum (fbn + 1)) := by
  have notIndirect := filePosition_leaf isPosition
  constructor
  · intro other bn place isPlace
    rcases eq_or_ne other inum with rfl | distinct
    · rw [Function.update_self]
      rcases eq_or_ne place position with rfl | differ
      · have same := filePosition_inj isPlace isPosition
        rw [Function.update_self]
        simp [same]
      · have apart : bn ≠ fbn := by
          rintro rfl
          exact differ (Option.some.inj (isPlace.symm.trans isPosition))
        rw [Function.update_of_ne (by simpa using differ), counts.mapped other bn place isPlace]
        omega
    · rw [Function.update_of_ne distinct, Function.update_of_ne (by simp [distinct])]
      exact counts.mapped other bn place isPlace
  · intro other
    rw [Function.update_of_ne (by simp [notIndirect.symm]), counts.indirect]
    rcases eq_or_ne other inum with rfl | distinct
    · rw [Function.update_self]
      omega
    · rw [Function.update_of_ne distinct]

/-- The first block that `addrs` has no room for is filled in, after the indirect
block. -/
theorem Counts.fillIndirect (counts : Counts held count)
    (isPosition : filePosition NDIRECT = some position) (next : count inum = NDIRECT) :
    Counts (Function.update (Function.update held (inum, .slot indirectSlot) (some indirect))
        (inum, position) (some blockno)) (Function.update count inum (NDIRECT + 1)) := by
  have notIndirect := filePosition_leaf isPosition
  constructor
  · intro other bn place isPlace
    have placeNotIndirect := filePosition_leaf isPlace
    rcases eq_or_ne other inum with rfl | distinct
    · rw [Function.update_self]
      rcases eq_or_ne place position with rfl | differ
      · have same := filePosition_inj isPlace isPosition
        rw [Function.update_self]
        simp [same]
      · have apart : bn ≠ NDIRECT := by
          rintro rfl
          exact differ (Option.some.inj (isPlace.symm.trans isPosition))
        rw [Function.update_of_ne (by simpa using differ),
          Function.update_of_ne (by simpa using placeNotIndirect),
          counts.mapped other bn place isPlace]
        omega
    · rw [Function.update_of_ne distinct, Function.update_of_ne (by simp [distinct]),
        Function.update_of_ne (by simp [distinct])]
      exact counts.mapped other bn place isPlace
  · intro other
    rw [Function.update_of_ne (by simp [notIndirect.symm])]
    rcases eq_or_ne other inum with rfl | distinct
    · rw [Function.update_self, Function.update_self]
      simp
    · rw [Function.update_of_ne distinct, Function.update_of_ne (by simp [distinct])]
      exact counts.indirect other

/-- The block that is filled in is zero, and lies after the content of its file. -/
theorem Stores.fill {blocks blocks' : Nat → Block} {held' : Inum × Position → Option Nat}
    {content : Inum → List UInt8} (stores : Stores blocks held content)
    (isPosition : filePosition fbn = some position)
    (short : (content inum).length ≤ fbn * BSIZE) (here : held' (inum, position) = some blockno)
    (zero : blocks' blockno = fun _ => 0)
    (elsewhere : ∀ place other, place ≠ (inum, position) → place.2 ≠ .slot indirectSlot →
      held' place = some other → held place = some other ∧ blocks' other = blocks other) :
    Stores blocks' held' content := by
  intro owner bn place other isPlace full index below
  by_cases same : (owner, place) = (inum, position)
  · obtain ⟨rfl, rfl⟩ := Prod.mk.inj same
    obtain rfl : other = blockno := Option.some.inj (full.symm.trans here)
    obtain rfl := filePosition_inj isPlace isPosition
    rw [zero, List.getD_eq_default _ _ (by omega)]
    simp [byteAt]
  · obtain ⟨before, content⟩ := elsewhere _ other same (filePosition_leaf isPlace) full
    rw [content]
    exact stores owner bn place other isPlace before index below

end Fill

namespace Image

/-- The block numbers that the inodes of the image list. -/
def held (image : Image) : Inum × Position → Option Nat :=
  holdings image.disk.blocks image.disk.dinodes fun _ => 0

/-- The blocks below `freeblock` are metadata or listed, and those above are
zero. -/
structure Ledger (image : Image) : Prop where
  start : nmeta ≤ image.freeblock
  stop : image.freeblock ≤ FSSIZE
  owns : Owns (· < FSSIZE) sb.isMeta (fun b => decide (b < image.freeblock)) image.held
  zero : ∀ blockno, image.freeblock ≤ blockno → image.disk.blocks blockno = fun _ => 0

variable {image : Image} {count : Inum → Nat} {content : Inum → List UInt8} {inum : Inum}
  {din : Dinode}

theorem Ledger.lt (ledger : image.Ledger) {place : Inum × Position} {blockno : Nat}
    (full : image.held place = some blockno) : blockno < image.freeblock := by
  simpa using ledger.owns.isMarked place blockno full

theorem Ledger.unheld (ledger : image.Ledger) (place : Inum × Position) :
    image.held place ≠ some image.freeblock := by
  intro full
  have := ledger.lt full
  omega

theorem Ledger.nonzero (ledger : image.Ledger) : image.freeblock ≠ 0 := by
  have start := ledger.start
  simp only [nmeta] at start
  omega

theorem Ledger.update_eq (ledger : image.Ledger) :
    Function.update image.disk.blocks image.freeblock (fun _ => 0) = image.disk.blocks := by
  rw [← ledger.zero image.freeblock (le_refl _), Function.update_eq_self]

theorem held_winode (image : Image) (inum : Inum) (din : Dinode) :
    (image.winode inum din).held = holdings image.disk.blocks
      (Function.update image.disk.dinodes inum din) fun _ => 0 := rfl

/-- A block number that is missing in `addrs` is filled in. -/
theorem held_fillSlot (ledger : (image.winode inum din).Ledger) (allocated : din.type ≠ .free)
    {slot : Fin (NDIRECT + 1)} (missing : din.addrs slot = 0) :
    ((image.fillSlot din slot).1.winode inum (image.fillSlot din slot).2).held =
      Function.update (image.winode inum din).held (inum, .slot slot) (some image.freeblock) := by
  set inodes := Function.update image.disk.dinodes inum din with isInodes
  have here : inodes inum = din := Function.update_self ..
  have filled : holdings (Function.update image.disk.blocks image.freeblock fun _ => 0)
      (Function.update inodes inum { inodes inum with
        addrs := Function.update (inodes inum).addrs slot image.freeblock }) (fun _ => 0) =
      Function.update (holdings image.disk.blocks inodes fun _ => 0) (inum, .slot slot)
        (some image.freeblock) := by
    apply holdings_fillSlot
    · rw [here]
      exact allocated
    · rw [here]
      exact missing
    · exact ledger.nonzero
    · exact ledger.unheld
  have blocks : Function.update image.disk.blocks image.freeblock (fun _ => 0) =
      image.disk.blocks := ledger.update_eq
  rw [blocks, here, isInodes, Function.update_idem] at filled
  rw [fillSlot, if_pos missing, held_winode, held_winode]
  exact filled

theorem Ledger.fillSlot (ledger : (image.winode inum din).Ledger)
    (inside : image.freeblock < FSSIZE) (allocated : din.type ≠ .free)
    {slot : Fin (NDIRECT + 1)} (missing : din.addrs slot = 0)
    (empty : (image.winode inum din).held (inum, .slot slot) = none) :
    ((image.fillSlot din slot).1.winode inum (image.fillSlot din slot).2).Ledger := by
  have counted : (image.fillSlot din slot).1.freeblock = image.freeblock + 1 := by
    rw [Image.fillSlot, if_pos missing]
  have blocks : (image.fillSlot din slot).1.disk = image.disk := by
    rw [Image.fillSlot, if_pos missing]
  constructor
  · change nmeta ≤ (image.fillSlot din slot).1.freeblock
    have start : nmeta ≤ image.freeblock := ledger.start
    omega
  · change (image.fillSlot din slot).1.freeblock ≤ FSSIZE
    omega
  · rw [held_fillSlot ledger allocated missing]
    change Owns _ _ (fun b => decide (b < (image.fillSlot din slot).1.freeblock)) _
    rw [counted]
    exact owns_fill ledger.owns empty ledger.start inside
  · intro blockno above
    change (image.fillSlot din slot).1.freeblock ≤ blockno at above
    change (image.fillSlot din slot).1.disk.blocks blockno = _
    rw [blocks]
    exact ledger.zero blockno (by change image.freeblock ≤ blockno; omega)

/-- The image with a block number filled in in the indirect block. -/
def setIndirect (image : Image) (din : Dinode) (bn : Nat) : Image :=
  { image with freeblock := image.freeblock + 1 }.wsect (din.addrs indirectSlot)
    (Disk.setWord (image.disk.blocks (din.addrs indirectSlot)) bn image.freeblock)

theorem held_indirect (allocated : din.type ≠ .free) (present : din.addrs indirectSlot ≠ 0) :
    (image.winode inum din).held (inum, .slot indirectSlot) =
      some (din.addrs indirectSlot) := by
  rw [held_winode]
  apply listed_eq_some.mpr
  simp [allocated, present, address]

/-- A block number that is missing in the indirect block is filled in. -/
theorem held_setIndirect (ledger : (image.winode inum din).Ledger) (allocated : din.type ≠ .free)
    (present : din.addrs indirectSlot ≠ 0) (bn : Fin NINDIRECT) :
    ((image.setIndirect din bn).winode inum din).held =
      Function.update (image.winode inum din).held (inum, .word bn) (some image.freeblock) := by
  set inodes := Function.update image.disk.dinodes inum din with isInodes
  have here : inodes inum = din := Function.update_self ..
  have mine : (image.winode inum din).held (inum, .slot indirectSlot) =
      some (din.addrs indirectSlot) := held_indirect allocated present
  have filled : holdings (Function.update (Function.update image.disk.blocks image.freeblock
        fun _ => 0) ((inodes inum).addrs indirectSlot) (Disk.setWord
          (image.disk.blocks ((inodes inum).addrs indirectSlot)) bn image.freeblock))
        inodes (fun _ => 0) =
      Function.update (holdings image.disk.blocks inodes fun _ => 0) (inum, .word bn)
        (some image.freeblock) := by
    apply holdings_fillWord
    · rw [here]
      exact allocated
    · rw [here]
      exact present
    · rfl
    · exact ledger.nonzero
    · have stop : image.freeblock ≤ FSSIZE := ledger.stop
      simp only [FSSIZE] at stop
      omega
    · exact ledger.unheld
    · intro other full
      rw [here] at full
      exact congrArg Prod.fst (ledger.owns.unique (other, .slot indirectSlot) _ _ full mine)
  have blocks : Function.update image.disk.blocks image.freeblock (fun _ => 0) =
      image.disk.blocks := ledger.update_eq
  rw [blocks, here] at filled
  exact filled

theorem Ledger.setIndirect (ledger : (image.winode inum din).Ledger)
    (inside : image.freeblock < FSSIZE) (allocated : din.type ≠ .free)
    (present : din.addrs indirectSlot ≠ 0) (bn : Fin NINDIRECT)
    (empty : (image.winode inum din).held (inum, .word bn) = none) :
    ((image.setIndirect din bn).winode inum din).Ledger := by
  constructor
  · change nmeta ≤ image.freeblock + 1
    have start : nmeta ≤ image.freeblock := ledger.start
    omega
  · exact inside
  · rw [held_setIndirect ledger allocated present]
    exact owns_fill ledger.owns empty ledger.start inside
  · intro blockno above
    have above : image.freeblock + 1 ≤ blockno := above
    have below : din.addrs indirectSlot < image.freeblock :=
      ledger.lt (held_indirect allocated present)
    change Function.update image.disk.blocks _ _ blockno = _
    rw [Function.update_of_ne (by omega)]
    exact ledger.zero blockno (by change image.freeblock ≤ blockno; omega)

structure Inv (image : Image) (count : Inum → Nat) (content : Inum → List UInt8) : Prop where
  ledger : image.Ledger
  counts : Counts image.held count
  stores : Stores image.disk.blocks image.held content
  room : ∀ inum, (content inum).length ≤ count inum * BSIZE
  used : ∀ inum, (image.disk.dinodes inum).type ≠ .free ↔
    0 < inum.val ∧ inum.val < image.freeinode

/-! ## The block of a piece of a file -/

theorem held_slot (allocated : din.type ≠ .free) (slot : Fin (NDIRECT + 1)) :
    (image.winode inum din).held (inum, .slot slot) =
      if din.addrs slot = 0 then none else some (din.addrs slot) := by
  rw [held_winode, holdings, Function.update_self, listed]
  simp [allocated, address]

theorem held_word (allocated : din.type ≠ .free) (present : din.addrs indirectSlot ≠ 0)
    (bn : Fin NINDIRECT) :
    (image.winode inum din).held (inum, .word bn) =
      if Disk.word (image.disk.blocks (din.addrs indirectSlot)) bn = 0 then none
      else some (Disk.word (image.disk.blocks (din.addrs indirectSlot)) bn) := by
  rw [held_winode, holdings, Function.update_self, listed]
  simp [allocated, present, address]

/-- A block that the file has already. -/
theorem Inv.fileBlock_old (inv : (image.winode inum din).Inv count content)
    (allocated : din.type ≠ .free) {fbn : Nat} (below : fbn < count inum) (limit : fbn < MAXFILE) :
    ∃ x position, image.fileBlock din fbn = some (x, image, din) ∧
      filePosition fbn = some position ∧
      (image.winode inum din).held (inum, position) = some x := by
  by_cases direct : fbn < NDIRECT
  · have isPosition : filePosition fbn = some (.slot ⟨fbn, by omega⟩) := by
      simp [filePosition, direct]
    have full := (inv.counts.mapped inum fbn _ isPosition).mpr below
    rw [held_slot allocated] at full
    split at full
    · cases full
    · next present =>
        refine ⟨din.addrs ⟨fbn, by omega⟩, _, ?_, isPosition, ?_⟩
        · rw [Image.fileBlock, dif_pos direct, fillSlot, if_neg present]
        · rw [held_slot allocated, if_neg present]
  · have word : fbn - NDIRECT < NINDIRECT := by
      simp only [MAXFILE] at limit
      omega
    have isPosition : filePosition fbn = some (.word ⟨fbn - NDIRECT, word⟩) := by
      simp [filePosition, direct, word]
    have isIndirect := (inv.counts.indirect inum).mpr (by omega)
    rw [held_slot allocated] at isIndirect
    split at isIndirect
    · cases isIndirect
    · next present =>
        have full := (inv.counts.mapped inum fbn _ isPosition).mpr below
        rw [held_word allocated present] at full
        have inside : din.addrs indirectSlot < FSSIZE :=
          inv.ledger.owns.inside _ _ (held_indirect allocated present)
        split at full
        · cases full
        · next nonzero =>
            refine ⟨Disk.word (image.disk.blocks (din.addrs indirectSlot)) (fbn - NDIRECT), _, ?_,
              isPosition, ?_⟩
            · rw [Image.fileBlock, dif_neg direct, fillSlot, if_neg present]
              simp only [rsect, if_pos inside, Option.bind_eq_bind, Option.bind_some, fillWord]
              rw [if_neg nonzero]
              rfl
            · rw [held_word allocated present, if_neg nonzero]

/-- The inode that `iappend` works on gets its next block. -/
theorem Inv.extend (inv : (image.winode inum din).Inv count content) {image' : Image}
    {din' : Dinode} {fbn : Nat} (next : count inum = fbn) (type : din'.type = din.type)
    (inodes : image'.disk.dinodes = image.disk.dinodes)
    (counter : image'.freeinode = image.freeinode) (ledger : (image'.winode inum din').Ledger)
    (counts : Counts (image'.winode inum din').held (Function.update count inum (fbn + 1)))
    (stores : Stores image'.disk.blocks (image'.winode inum din').held content) :
    (image'.winode inum din').Inv (Function.update count inum (fbn + 1)) content := by
  refine ⟨ledger, counts, stores, ?_, ?_⟩
  · intro other
    have room := inv.room other
    rcases eq_or_ne other inum with rfl | distinct
    · rw [Function.update_self, ← next]
      exact room.trans (Nat.mul_le_mul_right BSIZE (Nat.le_succ _))
    · rw [Function.update_of_ne distinct]
      exact room
  · intro other
    have before := inv.used other
    rcases eq_or_ne other inum with rfl | distinct
    · simpa [winode, type, counter] using before
    · simpa [winode, inodes, counter, Function.update_of_ne distinct] using before

/-- What `iappend` does with the next block of a file. -/
structure Takes (image : Image) (din : Dinode) (inum : Inum) (count : Inum → Nat)
    (content : Inum → List UInt8) (fbn x : Nat) (image' : Image) (din' : Dinode) : Prop where
  type : din'.type = din.type
  inodes : image'.disk.dinodes = image.disk.dinodes
  counter : image'.freeinode = image.freeinode
  spent : image'.freeblock + cost (count inum) = image.freeblock + cost (fbn + 1)
  inv : (image'.winode inum din').Inv (Function.update count inum (fbn + 1)) content
  full : ∃ position, filePosition fbn = some position ∧
    (image'.winode inum din').held (inum, position) = some x

/-- The next block of a file while `addrs` has room. -/
theorem Inv.fileBlock_direct (inv : (image.winode inum din).Inv count content)
    (allocated : din.type ≠ .free) {fbn : Nat} (next : count inum = fbn) (direct : fbn < NDIRECT)
    (inside : image.freeblock < FSSIZE) :
    ∃ image' din', image.fileBlock din fbn = some (image.freeblock, image', din') ∧
      Takes image din inum count content fbn image.freeblock image' din' := by
  have isPosition : filePosition fbn = some (.slot ⟨fbn, by omega⟩) := by
    simp [filePosition, direct]
  have empty : (image.winode inum din).held (inum, .slot ⟨fbn, by omega⟩) = none := by
    have unmapped := mt (inv.counts.mapped inum fbn _ isPosition).mp (by omega)
    simpa using unmapped
  have missing : din.addrs ⟨fbn, by omega⟩ = 0 := by
    rw [held_slot allocated] at empty
    split at empty
    · next zero => exact zero
    · cases empty
  have held := held_fillSlot inv.ledger allocated missing
  have ledger := inv.ledger.fillSlot inside allocated missing empty
  rw [fillSlot, if_pos missing] at held ledger
  simp only at held ledger
  refine ⟨{ image with freeblock := image.freeblock + 1 },
    { din with addrs := Function.update din.addrs ⟨fbn, by omega⟩ image.freeblock }, ?_, rfl, rfl,
    rfl, ?_, ?_, _, isPosition, ?_⟩
  · rw [Image.fileBlock, dif_pos direct, fillSlot, if_pos missing]
    simp only [Function.update_self]
  · simp only [cost, next]
    split <;> split <;> omega
  · refine inv.extend next (by rfl) (by rfl) (by rfl) ledger ?_ ?_
    · rw [held]
      exact inv.counts.fill isPosition next (by omega)
    · apply inv.stores.fill isPosition (next ▸ inv.room inum)
      · rw [held, Function.update_self]
      · exact inv.ledger.zero _ (le_refl _)
      · intro place other distinct _ full
        rw [held, Function.update_of_ne distinct] at full
        exact ⟨full, rfl⟩
  · rw [held, Function.update_self]

/-- `fileBlock` with an indirect block that has no number for the block yet. -/
theorem fileBlock_word {image' : Image} {din' : Dinode} {fbn : Nat} (notDirect : ¬ fbn < NDIRECT)
    (limit : fbn < MAXFILE) (isFilled : image.fillSlot din indirectSlot = (image', din'))
    (inside : din'.addrs indirectSlot < FSSIZE) (fits : image'.freeblock ≤ FSSIZE)
    (missing : Disk.word (image'.disk.blocks (din'.addrs indirectSlot)) (fbn - NDIRECT) = 0) :
    image.fileBlock din fbn =
      some (image'.freeblock, image'.setIndirect din' (fbn - NDIRECT), din') := by
  have word : fbn - NDIRECT < NINDIRECT := by
    simp only [MAXFILE] at limit
    omega
  have small : image'.freeblock < 2 ^ 32 := by
    simp only [FSSIZE] at fits
    omega
  rw [Image.fileBlock, dif_neg notDirect, isFilled]
  simp only [rsect, if_pos inside, Option.bind_eq_bind, Option.bind_some, fillWord]
  rw [if_pos missing]
  simp only [Disk.word_setWord_self _ word small]
  rfl

/-- The next block of a file that has an indirect block. -/
theorem Inv.fileBlock_indirect (inv : (image.winode inum din).Inv count content)
    (allocated : din.type ≠ .free) {fbn : Nat} (next : count inum = fbn)
    (above : NDIRECT < fbn) (limit : fbn < MAXFILE) (inside : image.freeblock < FSSIZE) :
    ∃ image' din', image.fileBlock din fbn = some (image.freeblock, image', din') ∧
      Takes image din inum count content fbn image.freeblock image' din' := by
  have word : fbn - NDIRECT < NINDIRECT := by
    simp only [MAXFILE] at limit
    omega
  have isPosition : filePosition fbn = some (.word ⟨fbn - NDIRECT, word⟩) := by
    rw [filePosition, dif_neg (by omega), dif_pos word]
  have present : din.addrs indirectSlot ≠ 0 := by
    have full := (inv.counts.indirect inum).mpr (by omega)
    rw [held_slot allocated] at full
    split at full
    · cases full
    · next nonzero => exact nonzero
  have indirect : (image.winode inum din).held (inum, .slot indirectSlot) =
      some (din.addrs indirectSlot) := held_indirect allocated present
  have empty : (image.winode inum din).held (inum, .word ⟨fbn - NDIRECT, word⟩) = none := by
    have unmapped := mt (inv.counts.mapped inum fbn _ isPosition).mp (by omega)
    simpa using unmapped
  have missing : Disk.word (image.disk.blocks (din.addrs indirectSlot)) (fbn - NDIRECT) = 0 := by
    rw [held_word allocated present] at empty
    split at empty
    · next zero => exact zero
    · cases empty
  have held := held_setIndirect inv.ledger allocated present ⟨fbn - NDIRECT, word⟩
  have ledger := inv.ledger.setIndirect inside allocated present ⟨fbn - NDIRECT, word⟩ empty
  have isFilled : image.fillSlot din indirectSlot = (image, din) := by
    rw [fillSlot, if_neg present]
  refine ⟨_, _, fileBlock_word (by omega) limit isFilled
    (inv.ledger.owns.inside _ _ indirect) inside.le missing, rfl, rfl, rfl, ?_, ?_, _,
    isPosition, ?_⟩
  · change image.freeblock + 1 + _ = _
    simp only [cost, next]
    split <;> split <;> omega
  · refine inv.extend next (by rfl) (by rfl) (by rfl) ledger ?_ ?_
    · rw [held]
      exact inv.counts.fill isPosition next (by omega)
    · have below : din.addrs indirectSlot < image.freeblock := inv.ledger.lt indirect
      apply inv.stores.fill isPosition (next ▸ inv.room inum)
      · rw [held, Function.update_self]
      · change Function.update image.disk.blocks _ _ _ = _
        rw [Function.update_of_ne (by omega)]
        exact inv.ledger.zero _ (le_refl _)
      · intro place other distinct notIndirect full
        rw [held, Function.update_of_ne distinct] at full
        refine ⟨full, Function.update_of_ne ?_ _ _⟩
        rintro rfl
        have same := inv.ledger.owns.unique place _ _ full indirect
        exact notIndirect (by rw [same])
  · rw [held, Function.update_self]

/-- The first block of a file that `addrs` has no room for. -/
theorem Inv.fileBlock_both (inv : (image.winode inum din).Inv count content)
    (allocated : din.type ≠ .free) (next : count inum = NDIRECT)
    (inside : image.freeblock + 1 < FSSIZE) :
    ∃ image' din', image.fileBlock din NDIRECT = some (image.freeblock + 1, image', din') ∧
      Takes image din inum count content NDIRECT (image.freeblock + 1) image' din' := by
  have word : NDIRECT - NDIRECT < NINDIRECT := by decide
  have isPosition : filePosition NDIRECT = some (.word ⟨NDIRECT - NDIRECT, word⟩) := by
    rw [filePosition, dif_neg (by omega), dif_pos word]
  have noIndirect : (image.winode inum din).held (inum, .slot indirectSlot) = none := by
    have unmapped := mt (inv.counts.indirect inum).mp (by omega)
    simpa using unmapped
  have missing : din.addrs indirectSlot = 0 := by
    rw [held_slot allocated] at noIndirect
    split at noIndirect
    · next zero => exact zero
    · cases noIndirect
  have filled := held_fillSlot inv.ledger allocated missing
  have ledger := inv.ledger.fillSlot (by omega) allocated missing noIndirect
  have isFilled : image.fillSlot din indirectSlot =
      ({ image with freeblock := image.freeblock + 1 },
        { din with addrs := Function.update din.addrs indirectSlot image.freeblock }) := by
    rw [fillSlot, if_pos missing]
  rw [isFilled] at filled ledger
  simp only at filled ledger
  set image1 : Image := { image with freeblock := image.freeblock + 1 } with isImage1
  set din1 : Dinode := { din with addrs := Function.update din.addrs indirectSlot image.freeblock }
    with isDin1
  have isAddr : din1.addrs indirectSlot = image.freeblock := by simp [isDin1]
  have present : din1.addrs indirectSlot ≠ 0 := by
    rw [isAddr]
    exact inv.ledger.nonzero
  have zero : image.disk.blocks image.freeblock = fun _ => 0 := inv.ledger.zero _ (le_refl _)
  have noWord : Disk.word (image1.disk.blocks (din1.addrs indirectSlot)) (NDIRECT - NDIRECT) = 0 := by
    rw [isAddr]
    change Disk.word (image.disk.blocks image.freeblock) _ = 0
    rw [zero, Disk.word_zero]
  have empty : (image1.winode inum din1).held (inum, .word ⟨NDIRECT - NDIRECT, word⟩) = none := by
    rw [held_word (by exact allocated) present]
    exact if_pos noWord
  have held := held_setIndirect ledger (by exact allocated) present ⟨NDIRECT - NDIRECT, word⟩
  have ledger' := ledger.setIndirect inside (by exact allocated) present
    ⟨NDIRECT - NDIRECT, word⟩ empty
  rw [filled] at held
  refine ⟨_, _, fileBlock_word (by omega) (by decide) isFilled (by rw [isAddr]; omega)
    inside.le noWord, rfl, rfl, rfl, ?_, ?_, _, isPosition, ?_⟩
  · change image.freeblock + 1 + 1 + _ = _
    simp [cost, next]
    omega
  · refine inv.extend next (by rfl) (by rfl) (by rfl) ledger' ?_ ?_
    · rw [held]
      exact inv.counts.fillIndirect isPosition next
    · apply inv.stores.fill isPosition (next ▸ inv.room inum)
      · rw [held, Function.update_self]
      · change Function.update image.disk.blocks _ _ _ = _
        rw [Function.update_of_ne (by rw [isAddr]; change image.freeblock + 1 ≠ _; omega)]
        exact inv.ledger.zero _ (by change image.freeblock ≤ image.freeblock + 1; omega)
      · intro place other distinct notIndirect full
        have apart : place ≠ (inum, .slot indirectSlot) := by
          rintro rfl
          exact notIndirect rfl
        rw [held, Function.update_of_ne distinct, Function.update_of_ne apart] at full
        refine ⟨full, Function.update_of_ne ?_ _ _⟩
        have below : other < image.freeblock := inv.ledger.lt full
        rw [isAddr]
        omega
  · rw [held, Function.update_self]

/-- The block for the next piece of a file, in a image with room for it. -/
theorem Inv.fileBlock (inv : (image.winode inum din).Inv count content)
    (allocated : din.type ≠ .free) {fbn : Nat} (reached : fbn ≤ count inum)
    (limit : fbn < MAXFILE)
    (space : image.freeblock + cost (max (count inum) (fbn + 1)) ≤ FSSIZE + cost (count inum)) :
    ∃ x image' din' position, image.fileBlock din fbn = some (x, image', din') ∧
      din'.type = din.type ∧ image'.disk.dinodes = image.disk.dinodes ∧
      image'.freeinode = image.freeinode ∧
      image'.freeblock + cost (count inum) =
        image.freeblock + cost (max (count inum) (fbn + 1)) ∧
      (image'.winode inum din').Inv
        (Function.update count inum (max (count inum) (fbn + 1))) content ∧
      filePosition fbn = some position ∧
      (image'.winode inum din').held (inum, position) = some x := by
  rcases Nat.lt_or_eq_of_le reached with below | next
  · have isMax : max (count inum) (fbn + 1) = count inum := by omega
    obtain ⟨x, position, isBlock, isPosition, full⟩ := inv.fileBlock_old allocated below limit
    rw [isMax, Function.update_eq_self]
    exact ⟨x, image, din, position, isBlock, rfl, rfl, rfl, rfl, inv, isPosition, full⟩
  · have isMax : max (count inum) (fbn + 1) = fbn + 1 := by omega
    rw [isMax] at space ⊢
    have taken : ∃ x image' din', image.fileBlock din fbn = some (x, image', din') ∧
        Takes image din inum count content fbn x image' din' := by
      rcases Nat.lt_trichotomy fbn NDIRECT with direct | first | above
      · have inside : image.freeblock < FSSIZE := by
          simp only [cost, ← next] at space
          split at space <;> split at space <;> omega
        exact ⟨_, inv.fileBlock_direct allocated next.symm direct inside⟩
      · subst first
        have inside : image.freeblock + 1 < FSSIZE := by
          simp only [cost, ← next, Nat.lt_irrefl, Nat.lt_succ_self, if_true, if_false] at space
          omega
        exact ⟨_, inv.fileBlock_both allocated next.symm inside⟩
      · have inside : image.freeblock < FSSIZE := by
          simp only [cost, ← next, above, if_true] at space
          split at space <;> omega
        exact ⟨_, inv.fileBlock_indirect allocated next.symm above limit inside⟩
    obtain ⟨x, image', din', isBlock, takes⟩ := taken
    obtain ⟨position, isPosition, full⟩ := takes.full
    exact ⟨x, image', din', position, isBlock, takes.type, takes.inodes, takes.counter,
      takes.spent, takes.inv, isPosition, full⟩

end Image

end Coursework.FileSystem.Mkfs
