import Coursework.FsDisk

/-!
# Inodes in their disk blocks

A block of the inode table holds eight `struct dinode`.  `iupdate` stores the
fields of an inode in one of them and `ilock` loads them again: `type`, `major`,
`minor` and `nlink` are fields of 16 bits with a sign, the size and the block
numbers are fields of 32 bits without one.

An inode whose values fit into the fields is loaded as it was stored, and the
other inodes of the block are loaded as before.
-/

namespace Coursework.FileSystem

open ByteBlock

/-- The value of a `short`. -/
def ofShort (field : Nat) : Int := if field < 2 ^ 15 then field else (field : Int) - 2 ^ 16

/-- The field of a `short`. -/
def toShort (value : Int) : Nat := (value % 2 ^ 16).toNat

/-- The constants of `stat.h`, and the zero of a free inode. -/
def FileType.code : FileType → Nat
  | .free => 0
  | .dir => 1
  | .file => 2
  | .dev => 3

def FileType.ofCode : Nat → Option FileType
  | 0 => some .free
  | 1 => some .dir
  | 2 => some .file
  | 3 => some .dev
  | _ => none

/-- The offset of an inode in its block. -/
def dinodeOffset (inum : Nat) : Nat := inum % IPB * (BSIZE / IPB)

/-- Store block numbers one after another. -/
def storeAddrs (block : Block) (offset : Nat) (addrs : Addrs) : Block :=
  (List.finRange (NDIRECT + 1)).foldl
    (fun block slot => setField block (offset + 4 * slot.val) 4 (addrs slot)) block

/-- The assignments of `iupdate`. -/
def storeDinode (block : Block) (inum : Nat) (ip : Dinode) : Block :=
  let dip := dinodeOffset inum
  let block := setField block dip 2 ip.type.code
  let block := setField block (dip + 2) 2 (toShort ip.major)
  let block := setField block (dip + 4) 2 (toShort ip.minor)
  let block := setField block (dip + 6) 2 (toShort ip.nlink)
  let block := setField block (dip + 8) 4 ip.size
  storeAddrs block (dip + 12) ip.addrs

/-- The assignments of `ilock`, if the type is one that the kernel knows. -/
def loadDinode (block : Block) (inum : Nat) : Option Dinode :=
  let dip := dinodeOffset inum
  (FileType.ofCode (getField block dip 2)).map fun type =>
    { type := type
      major := ofShort (getField block (dip + 2) 2)
      minor := ofShort (getField block (dip + 4) 2)
      nlink := ofShort (getField block (dip + 6) 2)
      size := getField block (dip + 8) 4
      addrs := fun slot => getField block (dip + 12 + 4 * slot.val) 4 }

/-- A value that a `short` can have. -/
def IsShort (value : Int) : Prop := -2 ^ 15 ≤ value ∧ value < 2 ^ 15

/-- The values fit into the fields of a `struct dinode`. -/
structure Dinode.Fits (ip : Dinode) : Prop where
  major : IsShort ip.major
  minor : IsShort ip.minor
  nlink : IsShort ip.nlink
  size : ip.size < 2 ^ 32
  addrs : ∀ slot, ip.addrs slot < 2 ^ 32

/-! ## Fields -/

theorem ofShort_toShort {value : Int} (isShort : IsShort value) :
    ofShort (toShort value) = value := by
  unfold ofShort toShort
  unfold IsShort at isShort
  split <;> omega

theorem isShort_ofShort {field : Nat} (below : field < 2 ^ 16) : IsShort (ofShort field) := by
  unfold ofShort IsShort
  split <;> omega

theorem toShort_lt (value : Int) : toShort value < 256 ^ 2 := by
  unfold toShort
  omega

theorem FileType.ofCode_code (type : FileType) : ofCode type.code = some type := by
  cases type <;> rfl

theorem FileType.code_lt (type : FileType) : type.code < 256 ^ 2 := by
  cases type <;> decide

theorem getField_lt (block : Block) (offset width : Nat) : getField block offset width < 256 ^ width := by
  induction width generalizing offset with
  | zero => exact Nat.one_pos
  | succ width ih =>
      have first := (byteAt block offset).toNat_lt
      have rest := ih (offset + 1)
      rw [getField, Nat.pow_succ]
      omega

/-- A stored field reads back. -/
theorem getField_stored (block : Block) {offset width value : Nat} (fits : offset + width ≤ BSIZE)
    (small : value < 256 ^ width) :
    getField (setField block offset width value) offset width = value := by
  rw [getField_setField_self block value fits, Nat.mod_eq_of_lt small]

theorem dinodeOffset_le (inum : Nat) : dinodeOffset inum + 64 ≤ BSIZE := by
  unfold dinodeOffset
  simp only [IPB, BSIZE]
  omega

/-- Inodes of one block do not overlap. -/
theorem dinodeOffset_apart {first second : Nat} (distinct : first % IPB ≠ second % IPB) :
    dinodeOffset first + 64 ≤ dinodeOffset second ∨
      dinodeOffset second + 64 ≤ dinodeOffset first := by
  unfold dinodeOffset
  simp only [IPB, BSIZE] at *
  omega

/-! ## Block numbers -/

theorem byteAt_storeAddrs (block : Block) {offset other : Nat} (addrs : Addrs)
    (outside : other < offset ∨ offset + 52 ≤ other) :
    byteAt (storeAddrs block offset addrs) other = byteAt block other := by
  unfold storeAddrs
  generalize List.finRange (NDIRECT + 1) = slots
  induction slots generalizing block with
  | nil => rfl
  | cons slot slots ih =>
      have below := slot.isLt
      rw [List.foldl_cons, ih]
      apply byteAt_setField_of_outside
      simp only [NDIRECT] at below
      omega

theorem getField_storeAddrs_of_disjoint (block : Block) {offset other width : Nat} (addrs : Addrs)
    (disjoint : other + width ≤ offset ∨ offset + 52 ≤ other) :
    getField (storeAddrs block offset addrs) other width = getField block other width := by
  apply getField_congr
  intro index lower upper
  exact byteAt_storeAddrs block addrs (by omega)

theorem getField_storeAddrs (block : Block) {offset : Nat} (addrs : Addrs)
    (small : ∀ slot, addrs slot < 2 ^ 32) (fits : offset + 52 ≤ BSIZE) (slot : Fin (NDIRECT + 1)) :
    getField (storeAddrs block offset addrs) (offset + 4 * slot.val) 4 = addrs slot := by
  have stored : ∀ (slots : List (Fin (NDIRECT + 1))) (block : Block),
      slot ∈ slots ∨ getField block (offset + 4 * slot.val) 4 = addrs slot →
      getField (slots.foldl
        (fun block slot => setField block (offset + 4 * slot.val) 4 (addrs slot)) block)
        (offset + 4 * slot.val) 4 = addrs slot := by
    intro slots
    induction slots with
    | nil =>
        rintro block (impossible | isStored)
        · cases impossible
        · exact isStored
    | cons first slots ih =>
        intro block place
        rw [List.foldl_cons]
        apply ih
        by_cases isFirst : slot = first
        · subst isFirst
          have below := slot.isLt
          simp only [NDIRECT] at below
          exact .inr (getField_stored block (by omega) (small slot))
        · have distinct : slot.val ≠ first.val := fun same => isFirst (Fin.ext same)
          rcases place with member | isStored
          · exact .inl ((List.mem_cons.mp member).resolve_left isFirst)
          · right
            rw [getField_setField_of_disjoint block _ (by omega), isStored]
  exact stored _ block (.inl (List.mem_finRange slot))

/-! ## Inodes -/

theorem byteAt_storeDinode (block : Block) {inum other : Nat} (ip : Dinode)
    (outside : other < dinodeOffset inum ∨ dinodeOffset inum + 64 ≤ other) :
    byteAt (storeDinode block inum ip) other = byteAt block other := by
  unfold storeDinode
  rw [byteAt_storeAddrs _ _ (by omega), byteAt_setField_of_outside _ _ (by omega),
    byteAt_setField_of_outside _ _ (by omega), byteAt_setField_of_outside _ _ (by omega),
    byteAt_setField_of_outside _ _ (by omega), byteAt_setField_of_outside _ _ (by omega)]

theorem loadDinode_congr {first second : Block} {inum : Nat}
    (agree : ∀ index, dinodeOffset inum ≤ index → index < dinodeOffset inum + 64 →
      byteAt first index = byteAt second index) :
    loadDinode first inum = loadDinode second inum := by
  have fields : ∀ offset width, dinodeOffset inum ≤ offset →
      offset + width ≤ dinodeOffset inum + 64 →
      getField first offset width = getField second offset width := fun offset width lower upper =>
    getField_congr fun index above below => agree index (by omega) (by omega)
  unfold loadDinode
  simp only
  rw [fields _ 2 (by omega) (by omega), fields _ 2 (by omega) (by omega),
    fields _ 2 (by omega) (by omega), fields _ 2 (by omega) (by omega),
    fields _ 4 (by omega) (by omega)]
  congr 1
  funext type
  congr 1
  funext slot
  have below := slot.isLt
  simp only [NDIRECT] at below
  exact fields _ 4 (by omega) (by omega)

/-- `iupdate` changes no other inode of the block. -/
theorem loadDinode_storeDinode_of_ne (block : Block) {inum other : Nat} (ip : Dinode)
    (distinct : other % IPB ≠ inum % IPB) :
    loadDinode (storeDinode block inum ip) other = loadDinode block other := by
  apply loadDinode_congr
  intro index lower upper
  apply byteAt_storeDinode
  have := dinodeOffset_apart distinct
  omega

/-- `ilock` reads what `iupdate` wrote. -/
theorem loadDinode_storeDinode (block : Block) (inum : Nat) {ip : Dinode} (fits : ip.Fits) :
    loadDinode (storeDinode block inum ip) inum = some ip := by
  have inside := dinodeOffset_le inum
  have type : getField (storeDinode block inum ip) (dinodeOffset inum) 2 = ip.type.code := by
    unfold storeDinode
    rw [getField_storeAddrs_of_disjoint _ _ (by omega), getField_setField_of_disjoint _ _ (by omega),
      getField_setField_of_disjoint _ _ (by omega), getField_setField_of_disjoint _ _ (by omega),
      getField_setField_of_disjoint _ _ (by omega)]
    exact getField_stored _ (by omega) ip.type.code_lt
  have major : getField (storeDinode block inum ip) (dinodeOffset inum + 2) 2 =
      toShort ip.major := by
    unfold storeDinode
    rw [getField_storeAddrs_of_disjoint _ _ (by omega), getField_setField_of_disjoint _ _ (by omega),
      getField_setField_of_disjoint _ _ (by omega), getField_setField_of_disjoint _ _ (by omega)]
    exact getField_stored _ (by omega) (toShort_lt _)
  have minor : getField (storeDinode block inum ip) (dinodeOffset inum + 4) 2 =
      toShort ip.minor := by
    unfold storeDinode
    rw [getField_storeAddrs_of_disjoint _ _ (by omega), getField_setField_of_disjoint _ _ (by omega),
      getField_setField_of_disjoint _ _ (by omega)]
    exact getField_stored _ (by omega) (toShort_lt _)
  have nlink : getField (storeDinode block inum ip) (dinodeOffset inum + 6) 2 =
      toShort ip.nlink := by
    unfold storeDinode
    rw [getField_storeAddrs_of_disjoint _ _ (by omega), getField_setField_of_disjoint _ _ (by omega)]
    exact getField_stored _ (by omega) (toShort_lt _)
  have size : getField (storeDinode block inum ip) (dinodeOffset inum + 8) 4 = ip.size := by
    unfold storeDinode
    rw [getField_storeAddrs_of_disjoint _ _ (by omega)]
    exact getField_stored _ (by omega) fits.size
  have addrs : ∀ slot : Fin (NDIRECT + 1),
      getField (storeDinode block inum ip) (dinodeOffset inum + 12 + 4 * slot.val) 4 =
        ip.addrs slot := fun slot =>
    getField_storeAddrs _ ip.addrs fits.addrs (by omega) slot
  unfold loadDinode
  simp only [type, major, minor, nlink, size, addrs, FileType.ofCode_code, Option.map_some,
    ofShort_toShort fits.major, ofShort_toShort fits.minor, ofShort_toShort fits.nlink]

/-- What `ilock` reads fits into the fields. -/
theorem fits_of_loadDinode {block : Block} {inum : Nat} {ip : Dinode}
    (loaded : loadDinode block inum = some ip) : ip.Fits := by
  obtain ⟨type, -, rfl⟩ := Option.map_eq_some_iff.mp loaded
  exact ⟨isShort_ofShort (getField_lt _ _ 2), isShort_ofShort (getField_lt _ _ 2),
    isShort_ofShort (getField_lt _ _ 2), getField_lt _ _ 4, fun _ => getField_lt _ _ 4⟩

end Coursework.FileSystem
