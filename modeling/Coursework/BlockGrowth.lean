import Coursework.BlockListing

/-!
# Growing a file

`bmap` allocates at most the indirect block and one more block.  Each new block
comes from the bitmap, so nobody lists it, and it is entered at a position that
was empty.  Block zero is metadata and marked, so it is never handed out.
-/

namespace Coursework.FileSystem

variable {sb : Superblock} {Inum : Type*} [DecidableEq Inum]

/-- Every metadata block of the disk is marked in use. -/
def Disk.MetaMarked (disk : Disk sb) : Prop :=
  ∀ blockno, blockno < sb.size → sb.isMeta blockno → disk.isUsed blockno = true

/-- The bitmap agrees with the blocks that the inodes list, and keeps the metadata
blocks out of the allocator's reach. -/
structure Disk.Accounts (disk : Disk sb) (inodes : Inum → Dinode)
    (released : Inum → Nat) : Prop where
  owns : Owns (· < sb.size) sb.isMeta disk.isUsed (holdings disk.blocks inodes released)
  marked : disk.MetaMarked

namespace Disk.Accounts

variable {disk after : Disk sb} {inodes : Inum → Dinode} {released : Inum → Nat}

omit [DecidableEq Inum] in
/-- What `balloc` hands out is a block of the disk that is neither metadata nor
listed by any inode. -/
theorem fresh (accounts : disk.Accounts inodes released) {blockno : Nat}
    (picked : disk.freeBlock = some blockno) :
    blockno < sb.size ∧ ¬ sb.isMeta blockno ∧ blockno ≠ 0 ∧ disk.isUsed blockno = false ∧
      ∀ place, holdings disk.blocks inodes released place ≠ some blockno := by
  obtain ⟨below, unused⟩ := Disk.freeBlock_spec picked
  have notMeta : ¬ sb.isMeta blockno := by
    intro isMeta
    have used := accounts.marked blockno below isMeta
    rw [unused] at used
    cases used
  refine ⟨below, notMeta, ?_, unused, accounts.owns.held_ne_of_unmarked unused⟩
  rintro rfl
  exact notMeta (Or.inl rfl)

/-- A new block entered at an empty position keeps the accounts. -/
theorem fill (accounts : disk.Accounts inodes released) {place : Inum × Position}
    {blockno : Nat} (picked : disk.freeBlock = some blockno)
    (empty : holdings disk.blocks inodes released place = none)
    {inodes' : Inum → Dinode} {released' : Inum → Nat}
    (bitmap : after.bitmap = (disk.markUsed blockno).bitmap)
    (filled : holdings after.blocks inodes' released' =
      Function.update (holdings disk.blocks inodes released) place (some blockno)) :
    after.Accounts inodes' released' := by
  obtain ⟨below, notMeta, -, unused, -⟩ := accounts.fresh picked
  have marks : after.isUsed = Function.update disk.isUsed blockno true := by
    rw [← Disk.isUsed_markUsed]
    funext other
    simp only [Disk.isUsed, bitmap]
  refine ⟨?_, ?_⟩
  · rw [marks, filled]
    exact accounts.owns.fill empty below notMeta unused
  · intro other inside isMeta
    rw [marks]
    rcases eq_or_ne other blockno with rfl | distinct
    · simp
    · rw [Function.update_of_ne distinct]
      exact accounts.marked other inside isMeta

/-- A freed block is one that a position gives up. -/
theorem clear (accounts : disk.Accounts inodes released) {place : Inum × Position}
    {blockno : Nat} (full : holdings disk.blocks inodes released place = some blockno)
    {inodes' : Inum → Dinode} {released' : Inum → Nat}
    (emptied : holdings disk.blocks inodes' released' =
      Function.update (holdings disk.blocks inodes released) place none) :
    (disk.markFree blockno).Accounts inodes' released' := by
  refine ⟨?_, ?_⟩
  · rw [Disk.isUsed_markFree]
    have blocks : (disk.markFree blockno).blocks = disk.blocks := rfl
    rw [blocks, emptied]
    exact accounts.owns.empty full
  · intro other inside isMeta
    have distinct : other ≠ blockno := by
      rintro rfl
      exact accounts.owns.unreserved place other full isMeta
    rw [Disk.isUsed_markFree, Function.update_of_ne distinct]
    exact accounts.marked other inside isMeta

omit [DecidableEq Inum] in
/-- A block that a position lists can be freed. -/
theorem bfree_eq_ok (accounts : disk.Accounts inodes released) {place : Inum × Position}
    {blockno : Nat} (full : holdings disk.blocks inodes released place = some blockno) :
    disk.bfree blockno = .ok (disk.markFree blockno) := by
  simp [Disk.bfree, accounts.owns.isMarked place blockno full]

omit [DecidableEq Inum] in
/-- Writing to a block that is listed other than as an indirect block changes no
position. -/
theorem writeBlock (accounts : disk.Accounts inodes released) {place : Inum × Position}
    {blockno : Nat} (full : holdings disk.blocks inodes released place = some blockno)
    (leaf : place.2 ≠ .slot indirectSlot) (block : Block) :
    holdings (disk.writeBlock blockno block).blocks inodes released =
      holdings disk.blocks inodes released := by
  apply holdings_writeBlock
  intro other isIndirect
  have same := accounts.owns.unique _ _ _ full isIndirect
  exact leaf (by rw [same])

end Disk.Accounts

/-- What a call of `bmap` on one inode leaves: the accounts are kept, what was
listed stays listed, and the result is listed at the position asked for.  Nothing
changes when the position was filled. -/
structure Grows (disk after : Disk sb) (inodes : Inum → Dinode) (released : Inum → Nat)
    (inum : Inum) (addrs' : Addrs) (position : Position) (addr : Nat) : Prop where
  accounts : after.Accounts
    (Function.update inodes inum { inodes inum with addrs := addrs' }) released
  dinodes : after.dinodes = disk.dinodes
  kept : ∀ place blockno, holdings disk.blocks inodes released place = some blockno →
    holdings after.blocks (Function.update inodes inum { inodes inum with addrs := addrs' })
      released place = some blockno
  result : holdings after.blocks
    (Function.update inodes inum { inodes inum with addrs := addrs' }) released
      (inum, position) = some addr
  unchanged : holdings disk.blocks inodes released (inum, position) ≠ none →
    addrs' = (inodes inum).addrs ∧ after = disk

variable {disk after : Disk sb} {inodes : Inum → Dinode} {released : Inum → Nat}
  {inum : Inum} {addrs' : Addrs} {addr : Nat}

private theorem kept_of_filled {held held' : Inum × Position → Option Nat}
    {place : Inum × Position} (empty : held place = none)
    (filled : held' = Function.update held place (some addr)) :
    ∀ other blockno, held other = some blockno → held' other = some blockno := by
  intro other blockno full
  have distinct : other ≠ place := by
    rintro rfl
    rw [empty] at full
    cases full
  rw [filled, Function.update_of_ne distinct, full]

theorem update_addrs_self :
    Function.update inodes inum { inodes inum with addrs := (inodes inum).addrs } = inodes :=
  Function.update_eq_self inum inodes

theorem slotBlock_grows (accounts : disk.Accounts inodes released)
    (allocated : (inodes inum).type ≠ .free) {slot : Fin (NDIRECT + 1)}
    (mapped : disk.slotBlock (inodes inum).addrs slot = .ok (addr, addrs', after)) :
    Grows disk after inodes released inum addrs' (.slot slot) addr := by
  rcases Disk.slotBlock_ok mapped with
    ⟨present, rfl, rfl, rfl⟩ | ⟨missing, picked, rfl, rfl⟩
  · have full : holdings after.blocks inodes released (inum, .slot slot) =
        some ((inodes inum).addrs slot) :=
      listed_eq_some.mpr ⟨allocated, present, rfl⟩
    constructor
    · rw [update_addrs_self]; exact accounts
    · rfl
    · intro place blockno held
      rw [update_addrs_self]
      exact held
    · rw [update_addrs_self]; exact full
    · exact fun _ => ⟨rfl, rfl⟩
  · obtain ⟨-, -, nonzero, -, unheld⟩ := accounts.fresh picked
    have empty : holdings disk.blocks inodes released (inum, .slot slot) = none :=
      listed_eq_none.mpr (Or.inr missing)
    have filled := holdings_fillSlot allocated missing nonzero unheld
    constructor
    · exact accounts.fill picked empty rfl filled
    · rfl
    · exact kept_of_filled empty filled
    · exact (congrFun filled _).trans (Function.update_self _ _ _)
    · intro full
      exact (full empty).elim

theorem wordBlock_grows (accounts : disk.Accounts inodes released)
    (allocated : (inodes inum).type ≠ .free) (nothing : released inum = 0)
    (present : (inodes inum).addrs indirectSlot ≠ 0) {bn : Nat} (inside : bn < NINDIRECT)
    (mapped : disk.wordBlock ((inodes inum).addrs indirectSlot) bn = .ok (addr, after)) :
    Grows disk after inodes released inum (inodes inum).addrs (.word ⟨bn, inside⟩) addr := by
  have value : address disk.blocks (inodes inum) (released inum) (.word ⟨bn, inside⟩) =
      Disk.word (disk.blocks ((inodes inum).addrs indirectSlot)) bn := by
    simp [address, present, nothing]
  rcases Disk.wordBlock_ok mapped with ⟨listed, rfl, rfl⟩ | ⟨missing, picked, rfl⟩
  · have full : holdings after.blocks inodes released (inum, .word ⟨bn, inside⟩) =
        some (Disk.word (after.blocks ((inodes inum).addrs indirectSlot)) bn) :=
      listed_eq_some.mpr ⟨allocated, listed, value⟩
    constructor
    · rw [update_addrs_self]; exact accounts
    · rfl
    · intro place blockno held
      rw [update_addrs_self]
      exact held
    · rw [update_addrs_self]; exact full
    · exact fun _ => ⟨rfl, rfl⟩
  · obtain ⟨below, -, nonzero, -, unheld⟩ := accounts.fresh picked
    have fits : addr < 2 ^ 32 := by
      have := sb.sizeFits
      omega
    have empty : holdings disk.blocks inodes released (inum, .word ⟨bn, inside⟩) = none :=
      listed_eq_none.mpr (Or.inr (value.trans missing))
    have unique : ∀ other, holdings disk.blocks inodes released (other, .slot indirectSlot) =
        some ((inodes inum).addrs indirectSlot) → other = inum := by
      intro other held
      have same := accounts.owns.unique _ _ _ held (holdings_indirect allocated present)
      exact congrArg Prod.fst same
    have filled := @holdings_fillWord _ disk.blocks inodes released _ inum ⟨bn, inside⟩ addr
      allocated present nothing nonzero fits unheld unique
    constructor
    · rw [update_addrs_self]
      exact accounts.fill picked empty rfl filled
    · rfl
    · rw [update_addrs_self]
      exact kept_of_filled empty filled
    · rw [update_addrs_self]
      exact (congrFun filled _).trans (Function.update_self _ _ _)
    · intro full
      exact (full empty).elim

/-- A block listed in the indirect block, after the indirect block was found or
allocated. -/
theorem Grows.thenWord {middle : Disk sb} {block bn : Nat}
    (loaded : Grows disk middle inodes released inum addrs' (.slot indirectSlot) block)
    (allocated : (inodes inum).type ≠ .free) (nothing : released inum = 0)
    (inside : bn < NINDIRECT) (mapped : middle.wordBlock block bn = .ok (addr, after)) :
    Grows disk after inodes released inum addrs' (.word ⟨bn, inside⟩) addr := by
  have allocated' : (Function.update inodes inum
      { inodes inum with addrs := addrs' } inum).type ≠ .free := by
    rw [Function.update_self]
    exact allocated
  obtain ⟨-, nonzero, entry⟩ := listed_eq_some.mp loaded.result
  replace entry : (Function.update inodes inum
      { inodes inum with addrs := addrs' } inum).addrs indirectSlot = block := entry
  rw [← entry] at nonzero mapped
  have entered := wordBlock_grows loaded.accounts allocated' nothing nonzero inside mapped
  have same := @update_addrs_self _ _
    (Function.update inodes inum { inodes inum with addrs := addrs' }) inum
  constructor
  · exact same ▸ entered.accounts
  · exact entered.dinodes.trans loaded.dinodes
  · intro place blockno held
    exact same ▸ entered.kept place blockno (loaded.kept place blockno held)
  · exact same ▸ entered.result
  · intro full
    have present : (inodes inum).addrs indirectSlot ≠ 0 := by
      intro missing
      apply full
      apply listed_eq_none.mpr
      simp [address, missing]
    have held : holdings disk.blocks inodes released (inum, .slot indirectSlot) = _ :=
      holdings_indirect allocated present
    obtain ⟨addrsSame, rfl⟩ := loaded.unchanged (by rw [held]; simp)
    obtain ⟨blockno, stillFull⟩ := Option.ne_none_iff_exists'.mp full
    have stays := loaded.kept _ _ stillFull
    exact ⟨addrsSame, (entered.unchanged (by rw [stays]; simp)).2⟩

/-- The specification of `bmap`. -/
theorem bmap_grows (accounts : disk.Accounts inodes released)
    (allocated : (inodes inum).type ≠ .free) (nothing : released inum = 0) {bn : Nat}
    (mapped : disk.bmap (inodes inum).addrs bn = .ok (addr, addrs', after)) :
    ∃ position, filePosition bn = some position ∧
      Grows disk after inodes released inum addrs' position addr := by
  unfold Disk.bmap at mapped
  split at mapped
  · next direct =>
      refine ⟨.slot ⟨bn, by omega⟩, ?_, slotBlock_grows accounts allocated mapped⟩
      simp [filePosition, direct]
  · next notDirect =>
      split at mapped
      · next indirect =>
          refine ⟨.word ⟨bn - NDIRECT, indirect⟩, by simp [filePosition, notDirect, indirect], ?_⟩
          cases first : disk.slotBlock (inodes inum).addrs indirectSlot with
          | error panic => rw [first] at mapped; cases mapped
          | ok result =>
              obtain ⟨block, addrs, middle⟩ := result
              rw [first] at mapped
              have loaded := slotBlock_grows accounts allocated first
              cases second : middle.wordBlock block (bn - NDIRECT) with
              | error panic => simp only [bind, Except.bind, second] at mapped; cases mapped
              | ok result =>
                  obtain ⟨addr, disk'⟩ := result
                  simp only [bind, Except.bind, second] at mapped
                  cases mapped
                  exact loaded.thenWord allocated nothing indirect second
      · cases mapped

/-! ## What blocks hold -/

omit [DecidableEq Inum] in
theorem slotBlock_blocks (accounts : disk.Accounts inodes released) {addrs : Addrs}
    {slot : Fin (NDIRECT + 1)} (mapped : disk.slotBlock addrs slot = .ok (addr, addrs', after))
    {place : Inum × Position} {blockno : Nat}
    (isHeld : holdings disk.blocks inodes released place = some blockno) :
    after.blocks blockno = disk.blocks blockno := by
  rcases Disk.slotBlock_ok mapped with ⟨-, -, -, rfl⟩ | ⟨-, picked, -, rfl⟩
  · rfl
  · have unheld := (accounts.fresh picked).2.2.2.2 place
    apply Function.update_of_ne
    rintro rfl
    exact unheld isHeld

omit [DecidableEq Inum] in
theorem wordBlock_blocks (accounts : disk.Accounts inodes released) {indirect bn : Nat}
    (mapped : disk.wordBlock indirect bn = .ok (addr, after))
    {place : Inum × Position} {blockno : Nat}
    (isHeld : holdings disk.blocks inodes released place = some blockno)
    (apart : blockno ≠ indirect) : after.blocks blockno = disk.blocks blockno := by
  rcases Disk.wordBlock_ok mapped with ⟨-, -, rfl⟩ | ⟨-, picked, rfl⟩
  · rfl
  · have unheld := (accounts.fresh picked).2.2.2.2 place
    have fresh : blockno ≠ addr := by
      rintro rfl
      exact unheld isHeld
    exact (Function.update_of_ne apart _ _).trans (Function.update_of_ne fresh _ _)

/-- `bmap` changes no listed block but the indirect block of the inode. -/
theorem bmap_blocks (accounts : disk.Accounts inodes released)
    (allocated : (inodes inum).type ≠ .free) {bn : Nat}
    (mapped : disk.bmap (inodes inum).addrs bn = .ok (addr, addrs', after))
    {place : Inum × Position} {blockno : Nat}
    (isHeld : holdings disk.blocks inodes released place = some blockno)
    (leaf : place ≠ (inum, .slot indirectSlot)) :
    after.blocks blockno = disk.blocks blockno := by
  unfold Disk.bmap at mapped
  split at mapped
  · exact slotBlock_blocks accounts mapped isHeld
  · split at mapped
    · cases first : disk.slotBlock (inodes inum).addrs indirectSlot with
      | error panic => rw [first] at mapped; cases mapped
      | ok result =>
          obtain ⟨block, addrs, middle⟩ := result
          rw [first] at mapped
          have loaded := slotBlock_grows accounts allocated first
          have stays := loaded.kept place blockno isHeld
          cases second : middle.wordBlock block (bn - NDIRECT) with
          | error panic => simp only [bind, Except.bind, second] at mapped; cases mapped
          | ok result =>
              obtain ⟨addr, disk'⟩ := result
              simp only [bind, Except.bind, second] at mapped
              cases mapped
              have apart : blockno ≠ block := by
                rintro rfl
                exact leaf (loaded.accounts.owns.unique _ _ _ stays loaded.result)
              rw [wordBlock_blocks loaded.accounts second stays apart,
                slotBlock_blocks accounts first isHeld]
    · cases mapped

end Coursework.FileSystem
