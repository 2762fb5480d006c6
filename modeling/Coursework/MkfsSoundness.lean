import Coursework.MkfsBlocks

/-!
# Images that `mkfs` builds

`iappend` adds its bytes to the content of a file, so the image has room for a
list of files when the sum of what they need fits.

The size of the root directory is rounded up at the end, to the next block even
when it is a multiple of the block size.  Then the last block of the directory is
missing.
-/

namespace Coursework.FileSystem.Mkfs

open ByteBlock

namespace Image

variable {image : Image} {count : Inum → Nat} {content : Inum → List UInt8} {inum : Inum}
  {din : Dinode}

/-! ## Appending -/

theorem byteAt_bcopy (bytes : List UInt8) (buf : Block) (start : Nat) {index : Nat}
    (inside : index < BSIZE) : byteAt (bcopy bytes buf start) index =
      if start ≤ index ∧ index < start + bytes.length then bytes.getD (index - start) 0
      else byteAt buf index := by
  simp [byteAt, inside, bcopy]

/-- The bytes of a piece of a block go after the content of the file. -/
theorem Inv.write (inv : (image.winode inum din).Inv count content) {x : Nat}
    {position : Position} {bytes : List UInt8}
    (isPosition : filePosition ((content inum).length / BSIZE) = some position)
    (full : (image.winode inum din).held (inum, position) = some x)
    (fits : (content inum).length % BSIZE + bytes.length ≤ BSIZE)
    (room : (content inum).length + bytes.length ≤ count inum * BSIZE) :
    ((image.wsect x (bcopy bytes (image.disk.blocks x)
        ((content inum).length % BSIZE))).winode inum din).Inv count
      (Function.update content inum (content inum ++ bytes)) := by
  set image' := image.wsect x (bcopy bytes (image.disk.blocks x)
    ((content inum).length % BSIZE)) with isImage'
  have notIndirect := filePosition_leaf isPosition
  have held : (image'.winode inum din).held = (image.winode inum din).held := by
    apply holdings_writeBlock
    intro other isIndirect
    have same := inv.ledger.owns.unique _ _ _ full isIndirect
    exact notIndirect (congrArg Prod.snd same)
  have below : x < image.freeblock := inv.ledger.lt full
  have bsize : 0 < BSIZE := by decide
  have split := Nat.div_add_mod (content inum).length BSIZE
  refine ⟨⟨inv.ledger.start, inv.ledger.stop, ?_, ?_⟩, ?_, ?_, ?_, inv.used⟩
  · rw [held]
    exact inv.ledger.owns
  · intro blockno above
    have above : image.freeblock ≤ blockno := above
    change Function.update image.disk.blocks _ _ blockno = _
    rw [Function.update_of_ne (by omega)]
    exact inv.ledger.zero blockno above
  · rw [held]
    exact inv.counts
  · intro other bn place blockno isPlace listed index inside
    rw [held] at listed
    have before : byteAt (image.disk.blocks blockno) index =
        (content other).getD (bn * BSIZE + index) 0 :=
      inv.stores other bn place blockno isPlace listed index inside
    change byteAt (Function.update image.disk.blocks _ _ blockno) index = _
    by_cases same : blockno = x
    · subst same
      have place := inv.ledger.owns.unique _ _ _ listed full
      obtain ⟨rfl, rfl⟩ := Prod.mk.inj place
      obtain rfl := filePosition_inj isPlace isPosition
      rw [Function.update_self, Function.update_self, byteAt_bcopy _ _ _ inside, before]
      have start : (content other).length / BSIZE * BSIZE + (content other).length % BSIZE =
          (content other).length := by
        rw [Nat.mul_comm]
        exact split
      split_ifs with middle
      · rw [List.getD_append_right _ _ _ _ (by omega)]
        congr 1
        omega
      · by_cases early : (content other).length / BSIZE * BSIZE + index < (content other).length
        · rw [List.getD_append _ _ _ _ early]
        · rw [List.getD_eq_default _ _ (by omega), List.getD_eq_default]
          rw [List.length_append]
          omega
    · rw [Function.update_of_ne same, before]
      rcases eq_or_ne other inum with rfl | distinct
      · rw [Function.update_self]
        have apart : bn ≠ (content other).length / BSIZE := by
          rintro rfl
          obtain rfl : place = position := Option.some.inj (isPlace.symm.trans isPosition)
          exact same (Option.some.inj (listed.symm.trans full))
        rcases Nat.lt_or_gt_of_ne apart with early | late
        · have blocks := Nat.mul_le_mul_right BSIZE (Nat.succ_le_of_lt early)
          rw [Nat.succ_mul] at blocks
          rw [List.getD_append]
          rw [Nat.mul_comm] at split
          omega
        · have blocks := Nat.mul_le_mul_right BSIZE (Nat.succ_le_of_lt late)
          rw [Nat.succ_mul] at blocks
          rw [Nat.mul_comm] at split
          rw [List.getD_eq_default _ _ (by omega), List.getD_eq_default]
          rw [List.length_append]
          omega
      · rw [Function.update_of_ne distinct]
  · intro other
    rcases eq_or_ne other inum with rfl | distinct
    · rw [Function.update_self, List.length_append]
      exact room
    · rw [Function.update_of_ne distinct]
      exact inv.room other

/-- The blocks of a file with a given content. -/
def countOf (content : Inum → List UInt8) (inum : Inum) : Nat :=
  blocksFor (content inum).length

/-- One turn of the loop of `iappend`: how far the piece reaches. -/
theorem piece_bounds {off n n1 : Nat} (positive : 0 < n)
    (isPiece : n1 = min n ((off / BSIZE + 1) * BSIZE - off)) :
    0 < n1 ∧ n1 ≤ n ∧ off % BSIZE + n1 ≤ BSIZE ∧ off - off / BSIZE * BSIZE = off % BSIZE ∧
      off / BSIZE ≤ blocksFor off ∧
      max (blocksFor off) (off / BSIZE + 1) = blocksFor (off + n1) ∧
      off + n1 ≤ blocksFor (off + n1) * BSIZE := by
  simp only [blocksFor, BSIZE] at *
  omega

/-- The loop appends its bytes to the content of the file, and takes the blocks by
which the file grows. -/
theorem Inv.appendLoop (rounds : Nat) {image : Image} {din : Dinode}
    {content : Inum → List UInt8} {p : List UInt8} (enough : p.length ≤ rounds)
    (inv : (image.winode inum din).Inv (countOf content) content) (allocated : din.type ≠ .free)
    (limit : (content inum).length + p.length ≤ MAXFILE * BSIZE)
    (space : image.freeblock + cost (blocksFor ((content inum).length + p.length)) ≤
      FSSIZE + cost (blocksFor (content inum).length)) :
    ∃ image' din', Image.appendLoop rounds image din (content inum).length p =
        some (image', din', (content inum).length + p.length) ∧
      din'.type = din.type ∧ image'.disk.dinodes = image.disk.dinodes ∧
      image'.freeinode = image.freeinode ∧
      image'.freeblock + cost (blocksFor (content inum).length) =
        image.freeblock + cost (blocksFor ((content inum).length + p.length)) ∧
      (image'.winode inum din').Inv
        (countOf (Function.update content inum (content inum ++ p)))
        (Function.update content inum (content inum ++ p)) := by
  induction rounds generalizing image din content p with
  | zero =>
      obtain rfl := List.length_eq_zero_iff.mp (Nat.le_zero.mp enough)
      refine ⟨image, din, rfl, rfl, rfl, rfl, rfl, ?_⟩
      rw [List.append_nil, Function.update_eq_self]
      exact inv
  | succ rounds ih =>
      cases p with
      | nil =>
          refine ⟨image, din, rfl, rfl, rfl, rfl, rfl, ?_⟩
          rw [List.append_nil, Function.update_eq_self]
          exact inv
      | cons byte rest =>
          generalize isBytes : byte :: rest = p at *
          have positive : 0 < p.length := by simp [← isBytes]
          set off := (content inum).length with isOff
          set n1 := min p.length ((off / BSIZE + 1) * BSIZE - off) with isPiece
          obtain ⟨piece, pieceLe, fits, start, reached, grown, room⟩ :=
            piece_bounds positive isPiece
          have block : off / BSIZE < MAXFILE := by
            apply Nat.div_lt_of_lt_mul
            rw [Nat.mul_comm]
            omega
          have taken : (p.take n1).length = n1 := by
            rw [List.length_take]
            omega
          have dropped : (p.drop n1).length = p.length - n1 := List.length_drop
          have mono : cost (blocksFor (off + n1)) ≤ cost (blocksFor (off + p.length)) :=
            cost_mono (blocksFor_mono (by omega))
          obtain ⟨x, image1, din1, position, isBlock, type, inodes, counter, spent, inv1,
            isPosition, full⟩ := inv.fileBlock allocated reached block (by
              change _ + cost (max (blocksFor off) _) ≤ _ + cost (blocksFor off)
              rw [grown]
              omega)
          change max (countOf content inum) _ = _ at grown
          rw [grown] at spent inv1
          have inside : x < FSSIZE := inv1.ledger.owns.inside _ _ full
          set content1 := Function.update content inum (content inum ++ p.take n1) with isContent1
          have here : content1 inum = content inum ++ p.take n1 := Function.update_self ..
          have length : (content1 inum).length = off + n1 := by
            rw [here, List.length_append, taken]
          have written : ((image1.wsect x (bcopy (p.take n1) (image1.disk.blocks x)
              (off % BSIZE))).winode inum din1).Inv (countOf content1) content1 := by
            have counts : countOf content1 =
                Function.update (countOf content) inum (blocksFor (off + n1)) := by
              funext other
              rcases eq_or_ne other inum with rfl | distinct
              · rw [Function.update_self, countOf, length]
              · rw [Function.update_of_ne distinct, countOf, countOf, isContent1,
                  Function.update_of_ne distinct]
            rw [counts]
            apply inv1.write isPosition full
            · rw [taken]
              exact fits
            · rw [taken, Function.update_self]
              exact room
          have total : off + n1 + (p.length - n1) = off + p.length := by omega
          obtain ⟨image', din', isLoop, type', inodes', counter', spent', inv'⟩ :=
            ih (by rw [dropped]; omega) written (by rw [type]; exact allocated)
              (by rw [length, dropped]; omega)
              (by
                rw [length, dropped, total]
                change image1.freeblock + _ ≤ _
                change image1.freeblock + cost (blocksFor off) = _ at spent
                omega)
          rw [length, dropped, total] at isLoop spent'
          have whole : Function.update content1 inum (content1 inum ++ p.drop n1) =
              Function.update content inum (content inum ++ p) := by
            rw [here, isContent1, Function.update_idem, List.append_assoc,
              List.take_append_drop]
          rw [whole] at inv'
          refine ⟨image', din', ?_, type'.trans type, inodes'.trans inodes,
            counter'.trans counter, ?_, inv'⟩
          · subst isBytes
            rw [Image.appendLoop, if_pos block, isBlock]
            · simp only [Option.bind_eq_bind, Option.bind_some, rsect, if_pos inside]
              rw [← isPiece, start]
              exact isLoop
            · simp
          · change image'.freeblock + _ = image1.freeblock + _ at spent'
            change image1.freeblock + cost (blocksFor off) = _ at spent
            omega

theorem Inv.resize (inv : (image.winode inum din).Inv count content) (size : Nat) :
    (image.winode inum { din with size := size }).Inv count content := by
  have held : (image.winode inum { din with size := size }).held =
      (image.winode inum din).held := by
    have same : holdings image.disk.blocks (Function.update
        (Function.update image.disk.dinodes inum din) inum { din with size := size })
        (fun _ => 0) = (image.winode inum din).held :=
      holdings_update_same (by rw [Function.update_self]) (by rw [Function.update_self])
    rw [Function.update_idem] at same
    exact same
  refine ⟨⟨inv.ledger.start, inv.ledger.stop, ?_, inv.ledger.zero⟩, ?_, ?_, inv.room, ?_⟩
  · rw [held]
    exact inv.ledger.owns
  · rw [held]
    exact inv.counts
  · rw [held]
    exact inv.stores
  · intro other
    have used := inv.used other
    rcases eq_or_ne other inum with rfl | distinct
    · simpa [winode] using used
    · simpa [winode, Function.update_of_ne distinct] using used

theorem winode_rinode (image : Image) (inum : Inum) :
    image.winode inum (image.rinode inum) = image := by
  simp [winode, rinode]

/-- The types of the inodes. -/
def types (image : Image) (inum : Inum) : FileType := (image.disk.dinodes inum).type

/-- An image between two calls of `iappend`. -/
structure Built (image : Image) (content : Inum → List UInt8) : Prop where
  inv : image.Inv (countOf content) content
  size : ∀ inum, (image.disk.dinodes inum).size = (content inum).length
  limit : ∀ inum, (content inum).length ≤ MAXFILE * BSIZE

theorem Built.iappend (built : image.Built content) {p : List UInt8} (positive : 0 < inum.val)
    (allocated : inum.val < image.freeinode)
    (limit : (content inum).length + p.length ≤ MAXFILE * BSIZE)
    (space : image.freeblock + cost (blocksFor ((content inum).length + p.length)) ≤
      FSSIZE + cost (blocksFor (content inum).length)) :
    ∃ image', image.iappend inum p = some image' ∧
      image'.Built (Function.update content inum (content inum ++ p)) ∧
      image'.freeinode = image.freeinode ∧
      image'.freeblock + cost (blocksFor (content inum).length) =
        image.freeblock + cost (blocksFor ((content inum).length + p.length)) ∧
      image'.types = image.types := by
  have inv : (image.winode inum (image.rinode inum)).Inv (countOf content) content := by
    rw [winode_rinode]
    exact built.inv
  have isUsed := (built.inv.used inum).mpr ⟨positive, allocated⟩
  obtain ⟨image', din', isLoop, type, inodes, counter, spent, inv'⟩ :=
    inv.appendLoop p.length (le_refl _) isUsed limit space
  have size : (image.rinode inum).size = (content inum).length := built.size inum
  refine ⟨image'.winode inum { din' with size := (content inum).length + p.length }, ?_,
    ⟨inv'.resize _, ?_, ?_⟩, counter, spent, ?_⟩
  · rw [Image.iappend, size, isLoop]
    rfl
  · intro other
    rcases eq_or_ne other inum with rfl | distinct
    · simp [winode]
    · have before := built.size other
      simpa [winode, inodes, Function.update_of_ne distinct] using before
  · intro other
    rcases eq_or_ne other inum with rfl | distinct
    · rw [Function.update_self, List.length_append]
      exact limit
    · rw [Function.update_of_ne distinct]
      exact built.limit other
  · funext other
    rcases eq_or_ne other inum with rfl | distinct
    · simpa [types, winode, rinode] using type
    · simp [types, winode, inodes, Function.update_of_ne distinct]

/-- An inode that is not allocated lists nothing. -/
theorem Built.unallocated (built : image.Built content) (free : image.freeinode ≤ inum.val) :
    (∀ position, image.held (inum, position) = none) ∧ content inum = [] := by
  have isFree : (image.disk.dinodes inum).type = .free := by
    by_contra isUsed
    have := (built.inv.used inum).mp isUsed
    omega
  have nothing : ∀ position, image.held (inum, position) = none := fun position =>
    listed_eq_none.mpr (Or.inl isFree)
  refine ⟨nothing, ?_⟩
  obtain ⟨position, isPosition⟩ := filePosition_of_lt (by decide : 0 < MAXFILE)
  have unmapped := built.inv.counts.mapped inum 0 position isPosition
  rw [nothing] at unmapped
  have room := built.inv.room inum
  have isZero : countOf content inum = 0 := by simpa using unmapped
  rw [isZero, Nat.zero_mul] at room
  exact List.length_eq_zero_iff.mp (Nat.le_zero.mp room)

theorem Built.ialloc (built : image.Built content) (type : FileType) (notFree : type ≠ .free)
    (positive : 0 < image.freeinode) (inside : image.freeinode < sb.ninodes) :
    ∃ image', image.ialloc type = some (⟨image.freeinode, inside⟩, image') ∧
      image'.Built content ∧ image'.freeinode = image.freeinode + 1 ∧
      image'.freeblock = image.freeblock ∧
      image'.types = Function.update image.types ⟨image.freeinode, inside⟩ type := by
  set inum : Inum := ⟨image.freeinode, inside⟩ with isInum
  obtain ⟨nothing, isEmpty⟩ := built.unallocated (show image.freeinode ≤ inum.val from le_refl _)
  set image' := ({ image with freeinode := image.freeinode + 1 } : Image).winode inum
    { Dinode.blank type with nlink := 1 } with isImage'
  have held : image'.held = image.held := by
    apply holdings_update_none (fun _ _ => rfl) nothing
    intro position
    apply listed_eq_none.mpr
    right
    cases position with
    | slot slot => rfl
    | word bn => simp [address, Dinode.blank]
  refine ⟨image', ?_, ⟨⟨⟨built.inv.ledger.start, built.inv.ledger.stop, ?_,
    built.inv.ledger.zero⟩, ?_, ?_, built.inv.room, ?_⟩, ?_, built.limit⟩, rfl, rfl, ?_⟩
  · rw [Image.ialloc, dif_pos inside]
  · rw [held]
    exact built.inv.ledger.owns
  · rw [held]
    exact built.inv.counts
  · rw [held]
    exact built.inv.stores
  · intro other
    have used := built.inv.used other
    rcases eq_or_ne other inum with rfl | distinct
    · simp [isImage', winode, Dinode.blank, notFree, isInum, positive]
    · have apart : other.val ≠ image.freeinode := fun same => distinct (Fin.ext same)
      simp only [isImage', winode, Function.update_of_ne distinct]
      rw [used]
      omega
  · intro other
    rcases eq_or_ne other inum with rfl | distinct
    · simp [isImage', winode, Dinode.blank, isEmpty]
    · have before := built.size other
      simpa [isImage', winode, Function.update_of_ne distinct] using before
  · funext other
    rcases eq_or_ne other inum with rfl | distinct
    · simp [types, isImage', winode, Dinode.blank]
    · simp [types, isImage', winode, Function.update_of_ne distinct]

theorem blank_built : blank.Built fun _ => [] := by
  have nothing : ∀ place, blank.held place = none := by
    intro place
    unfold held holdings
    exact listed_eq_none.mpr (Or.inl rfl)
  refine ⟨⟨⟨le_refl _, nmeta_le, ⟨?_, ?_, ?_, ?_, ?_⟩, fun _ _ => rfl⟩, ⟨?_, ?_⟩, ?_, ?_, ?_⟩, ?_, ?_⟩
  · intro place blockno full
    rw [nothing] at full
    cases full
  · intro place blockno full
    rw [nothing] at full
    cases full
  · intro place blockno full
    rw [nothing] at full
    cases full
  · intro first second blockno full
    rw [nothing] at full
    cases full
  · intro blockno _ notMeta below
    rw [isMeta_iff] at notMeta
    have below : blockno < blank.freeblock := by simpa using below
    exact (notMeta below).elim
  · intro inum bn position _
    rw [nothing]
    simp [countOf, blocksFor, BSIZE]
  · intro inum
    rw [nothing]
    simp [countOf, blocksFor, BSIZE]
  · intro inum bn position blockno _ full
    rw [nothing] at full
    cases full
  · intro inum
    simp
  · intro inum
    have : (blank.disk.dinodes inum).type = .free := rfl
    simp only [this, ne_eq, not_true_eq_false, false_iff, not_and, not_lt]
    exact fun positive => positive
  · intro inum
    rfl
  · intro inum
    exact Nat.zero_le _

end Image

/-! ## The files -/

def HostFile.size (file : HostFile) : Nat := file.reads.flatten.length

/-- The size of a `struct dirent`. -/
def DIRENT : Nat := 2 + DIRSIZ

theorem dirent_length (inum : Nat) (name : List UInt8) : (dirent inum name).length = DIRENT := by
  simp only [dirent, direntName, List.length_cons, List.length_append, List.length_take,
    List.length_replicate, DIRENT]
  omega

/-- The directory entries of files whose inodes are numbered from `inum` on. -/
def entriesFrom : Nat → List HostFile → List (List UInt8)
  | _, [] => []
  | inum, file :: files => dirent inum file.imageName :: entriesFrom (inum + 1) files

/-- The entries of the root directory. -/
def rootEntries (files : List HostFile) : List (List UInt8) :=
  dirent ROOTINO [DOT] :: dirent ROOTINO [DOT, DOT] :: entriesFrom 2 files

theorem entriesFrom_length (inum : Nat) (files : List HostFile) :
    (entriesFrom inum files).length = files.length := by
  induction files generalizing inum with
  | nil => rfl
  | cons file files ih => simp [entriesFrom, ih]

theorem entriesFrom_lengths (inum : Nat) (files : List HostFile) :
    ∀ entry ∈ entriesFrom inum files, entry.length = DIRENT := by
  induction files generalizing inum with
  | nil => simp [entriesFrom]
  | cons file files ih =>
      intro entry member
      rcases List.mem_cons.mp member with rfl | inRest
      · exact dirent_length _ _
      · exact ih _ entry inRest

theorem rootEntries_lengths (files : List HostFile) :
    ∀ entry ∈ rootEntries files, entry.length = DIRENT := by
  intro entry member
  rcases List.mem_cons.mp member with rfl | member
  · exact dirent_length _ _
  · rcases List.mem_cons.mp member with rfl | member
    · exact dirent_length _ _
    · exact entriesFrom_lengths 2 files entry member

/-- Byte `index` of entry `k` in a sequence of entries of one length. -/
theorem getD_flatten {width : Nat} {entries : List (List UInt8)} {entry : List UInt8}
    (lengths : ∀ entry ∈ entries, entry.length = width) {k index : Nat}
    (isEntry : entries[k]? = some entry) (inside : index < width) :
    entries.flatten.getD (width * k + index) 0 = entry.getD index 0 := by
  induction entries generalizing k with
  | nil => simp at isEntry
  | cons first rest ih =>
      have firstLength : first.length = width := lengths first List.mem_cons_self
      cases k with
      | zero =>
          obtain rfl : first = entry := by simpa using isEntry
          rw [List.flatten_cons, List.getD_append _ _ _ _ (by omega)]
          congr 1
          omega
      | succ k =>
          have inRest : rest[k]? = some entry := by simpa using isEntry
          have ih := ih (fun entry member => lengths entry (List.mem_cons_of_mem _ member)) inRest
          rw [List.flatten_cons, List.getD_append_right _ _ _ _ (by rw [Nat.mul_succ]; omega),
            ← ih]
          congr 1
          rw [Nat.mul_succ]
          omega

/-- The lists of files that fit into an image. -/
structure Accepts (files : List HostFile) : Prop where
  names : ∀ file ∈ files, SLASH ∉ file.name
  sizes : ∀ file ∈ files, blocksFor file.size ≤ MAXFILE
  inodes : files.length + 2 ≤ NINODES
  blocks : nmeta + cost (blocksFor (DIRENT * (files.length + 2))) +
    (files.map fun file => cost (blocksFor file.size)).sum ≤ FSSIZE

section Files

variable {image : Image} {content : Inum → List UInt8} {inum : Inum}

/-- The content of a host file is appended as it is read. -/
theorem append_reads (reads : List (List UInt8)) {image : Image} {content : Inum → List UInt8}
    (built : image.Built content) (positive : 0 < inum.val)
    (allocated : inum.val < image.freeinode)
    (limit : (content inum).length + reads.flatten.length ≤ MAXFILE * BSIZE)
    (space : image.freeblock + cost (blocksFor ((content inum).length + reads.flatten.length)) ≤
      FSSIZE + cost (blocksFor (content inum).length)) :
    ∃ image', reads.foldlM (fun image buf => image.iappend inum buf) image = some image' ∧
      image'.Built (Function.update content inum (content inum ++ reads.flatten)) ∧
      image'.freeinode = image.freeinode ∧
      image'.freeblock + cost (blocksFor (content inum).length) =
        image.freeblock + cost (blocksFor ((content inum).length + reads.flatten.length)) ∧
      image'.types = image.types := by
  induction reads generalizing image content with
  | nil =>
      refine ⟨image, rfl, ?_, rfl, rfl, rfl⟩
      rw [List.flatten_nil, List.append_nil, Function.update_eq_self]
      exact built
  | cons buf reads ih =>
      rw [List.flatten_cons, List.length_append] at limit space
      have mono : cost (blocksFor ((content inum).length + buf.length)) ≤
          cost (blocksFor ((content inum).length + (buf.length + reads.flatten.length))) :=
        cost_mono (blocksFor_mono (by omega))
      obtain ⟨image1, isAppended, built1, counter, spent, types1⟩ :=
        built.iappend positive allocated (p := buf) (by omega) (by omega)
      have here : Function.update content inum (content inum ++ buf) inum =
          content inum ++ buf := Function.update_self ..
      obtain ⟨image', isFolded, built', counter', spent', types'⟩ := ih built1
        (by rw [counter]; exact allocated)
        (by rw [here, List.length_append]; omega)
        (by rw [here, List.length_append, Nat.add_assoc]; omega)
      rw [here, Function.update_idem, List.append_assoc] at built'
      rw [here, List.length_append, Nat.add_assoc] at spent'
      refine ⟨image', ?_, ?_, counter'.trans counter, ?_, types'.trans types1⟩
      · rw [List.foldlM_cons, isAppended]
        exact isFolded
      · rw [List.flatten_cons]
        exact built'
      · rw [List.flatten_cons, List.length_append]
        omega

theorem addFile_spec {file : HostFile} (built : image.Built content)
    (positive : 1 < image.freeinode) (inside : image.freeinode < NINODES)
    (name : SLASH ∉ file.name) (size : blocksFor file.size ≤ MAXFILE)
    (entries : (content ROOTINO).length = DIRENT * image.freeinode)
    (space : image.freeblock + cost (blocksFor (DIRENT * (image.freeinode + 1))) +
      cost (blocksFor file.size) ≤ FSSIZE + cost (blocksFor (DIRENT * image.freeinode))) :
    ∃ image' content', addFile image file = some image' ∧ image'.Built content' ∧
      content' ROOTINO = content ROOTINO ++ dirent image.freeinode file.imageName ∧
      image'.freeinode = image.freeinode + 1 ∧
      image'.freeblock + cost (blocksFor (DIRENT * image.freeinode)) =
        image.freeblock + cost (blocksFor (DIRENT * (image.freeinode + 1))) +
          cost (blocksFor file.size) ∧
      image'.types = Function.update image.types ⟨image.freeinode, inside⟩ .file ∧
      content' ⟨image.freeinode, inside⟩ = file.reads.flatten ∧
      ∀ other : Inum, other ≠ ROOTINO → other.val ≠ image.freeinode →
        content' other = content other := by
  have next : DIRENT * image.freeinode + DIRENT = DIRENT * (image.freeinode + 1) := by
    rw [Nat.mul_succ]
  have empty : cost (blocksFor 0) = 0 := by decide
  set inum : Inum := ⟨image.freeinode, inside⟩ with isInum
  have apart : ROOTINO ≠ inum := by
    intro same
    have : 1 = image.freeinode := congrArg Fin.val same
    omega
  have isEmpty := (built.unallocated (show image.freeinode ≤ inum.val from le_refl _)).2
  obtain ⟨image1, isAllocated, built1, counter1, blocks1, types1⟩ :=
    built.ialloc .file (by simp) (by omega) inside
  obtain ⟨image2, isAppended, built2, counter2, spent2, types2⟩ :=
    built1.iappend (p := dirent image.freeinode file.imageName) (by decide : 0 < ROOTINO.val)
      (by rw [counter1]; change 1 < _; omega)
      (by
        rw [entries, dirent_length, next]
        simp only [DIRENT, DIRSIZ, NINODES, MAXFILE, NDIRECT, NINDIRECT, BSIZE] at inside ⊢
        omega)
      (by
        rw [entries, dirent_length, next, blocks1]
        omega)
  rw [entries, dirent_length, next, blocks1] at spent2
  set content2 := Function.update content ROOTINO
    (content ROOTINO ++ dirent image.freeinode file.imageName) with isContent2
  have none2 : content2 inum = [] := by
    rw [isContent2, Function.update_of_ne apart.symm, isEmpty]
  obtain ⟨image', isFolded, built', counter', spent', types'⟩ :=
    append_reads file.reads built2 (show 0 < inum.val by change 0 < image.freeinode; omega)
      (by rw [counter2, counter1]; change image.freeinode < _; omega)
      (by
        rw [none2]
        simp only [HostFile.size, blocksFor, BSIZE] at size ⊢
        simp only [List.length_nil]
        omega)
      (by
        rw [none2, List.length_nil, Nat.zero_add, empty]
        change _ + cost (blocksFor file.size) ≤ _
        omega)
  rw [none2, List.length_nil, Nat.zero_add, empty] at spent'
  change _ = image2.freeblock + cost (blocksFor file.size) at spent'
  refine ⟨image', _, ?_, built', ?_, ?_, ?_, types'.trans (types2.trans types1), ?_, ?_⟩
  · rw [addFile, if_neg name, isAllocated]
    simp only [Option.bind_eq_bind, Option.bind_some]
    rw [isAppended]
    exact isFolded
  · rw [Function.update_of_ne apart, isContent2, Function.update_self]
  · rw [counter', counter2, counter1]
  · omega
  · rw [Function.update_self, none2, List.nil_append]
  · intro other notRoot notHere
    have notFile : other ≠ inum := fun same => notHere (congrArg Fin.val same)
    rw [Function.update_of_ne notFile, isContent2, Function.update_of_ne notRoot]

/-- Files have the inodes from a number on. -/
def Filed (image : Image) (content : Inum → List UInt8) (first : Nat) (files : List HostFile) :
    Prop :=
  ∀ k file, files[k]? = some file → ∀ inum : Inum, inum.val = first + k →
    content inum = file.reads.flatten ∧ image.types inum = .file

theorem addFiles_spec (files : List HostFile) {image : Image} {content : Inum → List UInt8}
    (built : image.Built content) (positive : 1 < image.freeinode)
    (inside : files.length + image.freeinode ≤ NINODES)
    (names : ∀ file ∈ files, SLASH ∉ file.name)
    (sizes : ∀ file ∈ files, blocksFor file.size ≤ MAXFILE)
    (entries : (content ROOTINO).length = DIRENT * image.freeinode)
    (space : image.freeblock + cost (blocksFor (DIRENT * (image.freeinode + files.length))) +
      (files.map fun file => cost (blocksFor file.size)).sum ≤
        FSSIZE + cost (blocksFor (DIRENT * image.freeinode))) :
    ∃ image' content', files.foldlM addFile image = some image' ∧ image'.Built content' ∧
      content' ROOTINO = content ROOTINO ++ (entriesFrom image.freeinode files).flatten ∧
      Filed image' content' image.freeinode files ∧
      ∀ other : Inum, other.val < image.freeinode → image'.types other = image.types other ∧
        (other ≠ ROOTINO → content' other = content other) := by
  induction files generalizing image content with
  | nil =>
      refine ⟨image, content, rfl, built, by simp [entriesFrom], ?_, fun _ _ => ⟨rfl, fun _ => rfl⟩⟩
      intro k file here
      cases here
  | cons file files ih =>
      rw [List.length_cons] at inside space
      rw [List.map_cons, List.sum_cons] at space
      have mono : cost (blocksFor (DIRENT * (image.freeinode + 1))) ≤
          cost (blocksFor (DIRENT * (image.freeinode + (files.length + 1)))) :=
        cost_mono (blocksFor_mono (Nat.mul_le_mul_left _ (by omega)))
      obtain ⟨image1, content1, isAdded, built1, root1, counter1, spent1, types1, here1, others1⟩ :=
        addFile_spec built positive (by omega) (names file List.mem_cons_self)
          (sizes file List.mem_cons_self) entries (by omega)
      have sum : image1.freeinode + files.length = image.freeinode + (files.length + 1) := by
        omega
      obtain ⟨image', content', isFolded, built', root', filed', others'⟩ := ih built1 (by omega) (by omega)
        (fun other member => names other (List.mem_cons_of_mem _ member))
        (fun other member => sizes other (List.mem_cons_of_mem _ member))
        (by rw [root1, List.length_append, entries, dirent_length, counter1, Nat.mul_succ])
        (by rw [sum, counter1]; omega)
      rw [counter1] at filed' others'
      refine ⟨image', content', ?_, built', ?_, ?_, ?_⟩
      · rw [List.foldlM_cons, isAdded]
        exact isFolded
      · rw [root', root1, counter1, entriesFrom, List.flatten_cons, List.append_assoc]
      · intro k other isOther inum isInum
        cases k with
        | zero =>
            obtain rfl : file = other := Option.some.inj isOther
            have isHere : inum = ⟨image.freeinode, by omega⟩ := Fin.ext isInum
            obtain ⟨sameType, sameContent⟩ := others' inum (by omega)
            have notRoot : inum ≠ ROOTINO := by
              rintro rfl
              have isOne : 1 = image.freeinode := isInum
              omega
            rw [sameType, sameContent notRoot, isHere, here1, types1, Function.update_self]
            exact ⟨rfl, rfl⟩
        | succ k => exact filed' k other isOther inum (by omega)
      · intro other below
        obtain ⟨sameType, sameContent⟩ := others' other (Nat.lt_succ_of_lt below)
        refine ⟨?_, fun notRoot => ?_⟩
        · rw [sameType, types1, Function.update_of_ne]
          rintro rfl
          exact absurd below (Nat.lt_irrefl _)
        · rw [sameContent notRoot, others1 other notRoot (Nat.ne_of_lt below)]

/-- The image with the root directory and its files. -/
theorem files_built {files : List HostFile} (accepts : Accepts files) :
    ∃ image1 image2 image3 image content,
      Image.blank.ialloc .dir = some (ROOTINO, image1) ∧
      image1.iappend ROOTINO (dirent ROOTINO [DOT]) = some image2 ∧
      image2.iappend ROOTINO (dirent ROOTINO [DOT, DOT]) = some image3 ∧
      files.foldlM addFile image3 = some image ∧ image.Built content ∧
      content ROOTINO = (rootEntries files).flatten ∧
      Filed image content 2 files ∧ image.types ROOTINO = .dir := by
  have blocks := accepts.blocks
  have inodes := accepts.inodes
  have isZero : cost (blocksFor 0) = 0 := by decide
  have one : cost (blocksFor DIRENT) = 1 := by decide
  have two : cost (blocksFor (DIRENT + DIRENT)) = 1 := by decide
  have atLeast : 1 ≤ cost (blocksFor (DIRENT * (files.length + 2))) := by
    have := cost_mono (blocksFor_mono
      (Nat.mul_le_mul_left DIRENT (by omega : 1 ≤ files.length + 2)))
    rw [Nat.mul_one, one] at this
    exact this
  have limit : DIRENT + DIRENT ≤ MAXFILE * BSIZE := by decide
  have freeblock : Image.blank.freeblock = nmeta := rfl
  have freeinode : Image.blank.freeinode = 1 := rfl
  obtain ⟨image1, isAllocated, built1, counter1, blocks1, types1⟩ :=
    Image.blank_built.ialloc .dir (by simp) (by decide) (by decide)
  obtain ⟨image2, isDot, built2, counter2, spent2, types2⟩ :=
    built1.iappend (p := dirent ROOTINO [DOT]) (by decide : 0 < ROOTINO.val)
      (by rw [counter1]; decide) (by rw [dirent_length, List.length_nil]; omega)
      (by rw [dirent_length, List.length_nil, Nat.zero_add, one, isZero]; omega)
  rw [dirent_length, List.length_nil, Nat.zero_add, one, isZero] at spent2
  rw [List.nil_append] at built2
  have dot : Function.update (fun _ => ([] : List UInt8)) ROOTINO (dirent ROOTINO [DOT]) ROOTINO =
      dirent ROOTINO [DOT] := Function.update_self ..
  obtain ⟨image3, isDotDot, built3, counter3, spent3, types3⟩ :=
    built2.iappend (p := dirent ROOTINO [DOT, DOT]) (by decide : 0 < ROOTINO.val)
      (by rw [counter2, counter1]; decide)
      (by rw [dot, dirent_length, dirent_length]; exact limit)
      (by rw [dot, dirent_length, dirent_length, two, one]; omega)
  rw [dot, dirent_length, dirent_length, two, one] at spent3
  rw [dot, Function.update_idem] at built3
  have counter : image3.freeinode = 2 := by rw [counter3, counter2, counter1, freeinode]
  have start : cost (blocksFor (DIRENT * 2)) = 1 := by decide
  have here : Function.update (fun _ => ([] : List UInt8)) ROOTINO
      (dirent ROOTINO [DOT] ++ dirent ROOTINO [DOT, DOT]) ROOTINO =
      dirent ROOTINO [DOT] ++ dirent ROOTINO [DOT, DOT] := Function.update_self ..
  obtain ⟨image, content, isFolded, built, root, filed, others⟩ := addFiles_spec files built3
    (by omega) (by rw [counter]; exact inodes) accepts.names accepts.sizes
    (by rw [here, List.length_append, dirent_length, dirent_length, counter]; rfl)
    (by
      rw [counter, start, Nat.add_comm 2]
      omega)
  rw [counter] at filed others
  refine ⟨image1, image2, image3, image, content, isAllocated, isDot, isDotDot, isFolded,
    built, ?_, filed, ?_⟩
  · rw [root, here, counter, rootEntries, List.flatten_cons, List.flatten_cons, List.append_assoc]
  · rw [(others ROOTINO (by decide)).1, types3, types2, types1]
    exact Function.update_self ..

end Files

/-! ## The image -/

/-- A byte of a file, if the block that holds it is mapped. -/
def fileByte (disk : Disk sb) (inum : Inum) (off : Nat) : Option UInt8 := do
  let position ← filePosition (off / BSIZE)
  let blockno ← holdings disk.blocks disk.dinodes (fun _ => 0) (inum, position)
  return byteAt (disk.blocks blockno) (off % BSIZE)

/-- What the kernel relies on: the bitmap marks the metadata blocks and the blocks
that inodes list, each at one position; every block below the size of an inode is
listed; and the root directory holds its entries and no others. -/
structure Valid (files : List HostFile) (disk : Disk sb) : Prop where
  owns : Owns (· < sb.size) sb.isMeta disk.isUsed
    (holdings disk.blocks disk.dinodes fun _ => 0)
  marked : disk.MetaMarked
  backed : ∀ inum bn, bn < ((disk.dinodes inum).size + BSIZE - 1) / BSIZE →
    ∃ position, filePosition bn = some position ∧
      holdings disk.blocks disk.dinodes (fun _ => 0) (inum, position) ≠ none
  inside : DIRENT * (rootEntries files).length ≤ (disk.dinodes ROOTINO).size
  entries : ∀ k entry, (rootEntries files)[k]? = some entry → ∀ index < DIRENT,
    fileByte disk ROOTINO (DIRENT * k + index) = entry[index]?
  noMore : ∀ off byte, DIRENT * (rootEntries files).length ≤ off →
    fileByte disk ROOTINO off = some byte → byte = 0

/-- A valid image is a disk that the kernel can start from. -/
theorem Valid.sound {files : List HostFile} {disk : Disk sb} (valid : Valid files disk) :
    disk.Sound :=
  ⟨valid.owns, fun inum _ => valid.backed inum⟩

/-- The kernel keeps the accounts of a valid image. -/
theorem Valid.kept {files : List HostFile} {disk : Disk sb} (valid : Valid files disk)
    {state : State sb} (run : Run State.step anyStep disk.IsBoot state) (quiet : state.Quiet) :
    state.disk.Sound ∧ state.disk.MetaMarked := by
  have consistent := consistent_of_run valid.sound valid.marked run
  exact ⟨consistent.quiet_sound quiet, consistent.accounts.marked⟩

theorem testBit_balloc {used : Nat} (fits : used ≤ BPB) (bi : Nat) :
    testBit ((List.range used).foldl setBit fun _ => 0) bi = decide (bi < used) := by
  induction used with
  | zero => simp [testBit, byteAt]
  | succ used ih =>
      rw [List.range_succ, List.foldl_append, List.foldl_cons, List.foldl_nil,
        testBit_setBit _ (by omega), ih (by omega), ← Bool.decide_or]
      congr 1
      apply propext
      omega

namespace Image

variable {image : Image} {content : Inum → List UInt8}

theorem Inv.fileByte (inv : image.Inv (countOf content) content) {bitmap : Nat → Block}
    {inum : Inum} {off : Nat} {byte : UInt8}
    (isByte : Mkfs.fileByte { image.disk with bitmap := bitmap } inum off = some byte) :
    byte = (content inum).getD off 0 := by
  unfold Mkfs.fileByte at isByte
  simp only [Option.bind_eq_bind, Option.bind_eq_some_iff] at isByte
  obtain ⟨position, isPosition, blockno, full, isByte⟩ := isByte
  have stored := inv.stores inum (off / BSIZE) position blockno isPosition full (off % BSIZE)
    (Nat.mod_lt _ (by decide))
  obtain rfl : _ = byte := Option.some.inj isByte
  change byteAt (image.disk.blocks blockno) _ = _
  rw [stored, Nat.mul_comm, Nat.div_add_mod]

theorem Inv.fileByte_mapped (inv : image.Inv (countOf content) content) {bitmap : Nat → Block}
    {inum : Inum} {off : Nat} (inside : off < (content inum).length)
    (limit : (content inum).length ≤ MAXFILE * BSIZE) :
    Mkfs.fileByte { image.disk with bitmap := bitmap } inum off =
      some ((content inum).getD off 0) := by
  have block : off / BSIZE < MAXFILE := by
    apply Nat.div_lt_of_lt_mul
    rw [Nat.mul_comm]
    omega
  obtain ⟨position, isPosition⟩ := filePosition_of_lt block
  have below : off / BSIZE < countOf content inum := by
    simp only [countOf, blocksFor, BSIZE]
    omega
  obtain ⟨blockno, full⟩ :=
    Option.isSome_iff_exists.mp ((inv.counts.mapped inum _ position isPosition).mpr below)
  have found : Mkfs.fileByte { image.disk with bitmap := bitmap } inum off =
      some (byteAt (image.disk.blocks blockno) (off % BSIZE)) := by
    have full : holdings image.disk.blocks image.disk.dinodes (fun _ => 0) (inum, position) =
      some blockno := full
    simp [Mkfs.fileByte, isPosition, full]
  rw [found, inv.fileByte found]

end Image

theorem rootEntries_length (files : List HostFile) :
    (rootEntries files).length = files.length + 2 := by
  simp [rootEntries, entriesFrom_length]

theorem flatten_length {width : Nat} {entries : List (List UInt8)}
    (lengths : ∀ entry ∈ entries, entry.length = width) :
    entries.flatten.length = width * entries.length := by
  induction entries with
  | nil => rfl
  | cons first rest ih =>
      rw [List.flatten_cons, List.length_append, lengths first List.mem_cons_self,
        ih fun entry member => lengths entry (List.mem_cons_of_mem _ member), List.length_cons,
        Nat.mul_succ, Nat.add_comm]

/-- The rounded size covers one block more than the directory has when the
entries fill their blocks. -/
theorem rounded_iff (entries : Nat) :
    (∀ bn, bn < ((DIRENT * entries / BSIZE + 1) * BSIZE + BSIZE - 1) / BSIZE →
      bn < blocksFor (DIRENT * entries)) ↔ entries % (BSIZE / DIRENT) ≠ 0 := by
  simp only [blocksFor, DIRENT, DIRSIZ, BSIZE]
  constructor
  · intro covered
    have := covered (16 * entries / 512)
    omega
  · intro partly bn
    omega

/-- The image that `mkfs` makes for a list of files that fits. -/
theorem mkfs_made {files : List HostFile} (accepts : Accepts files) :
    ∃ image content, mkfs files = some { (fixSize image).disk with
        bitmap := Function.update (fixSize image).disk.bitmap 0
          ((List.range (fixSize image).freeblock).foldl setBit fun _ => 0) } ∧
      image.Built content ∧ (fixSize image).Inv (Image.countOf content) content ∧
      content ROOTINO = (rootEntries files).flatten ∧ Filed image content 2 files ∧
      image.types ROOTINO = .dir := by
  obtain ⟨image1, image2, image3, image, content, isAllocated, isDot, isDotDot, isFolded, built,
    root, filed, rootType⟩ := files_built accepts
  have inv : (fixSize image).Inv (Image.countOf content) content := by
    apply Image.Inv.resize
    rw [Image.winode_rinode]
    exact built.inv
  have used : (fixSize image).freeblock < BSIZE * 8 := by
    have stop := inv.ledger.stop
    simp only [FSSIZE, BSIZE] at stop ⊢
    omega
  refine ⟨image, content, ?_, built, inv, root, filed, rootType⟩
  rw [mkfs, isAllocated]
  simp only [Option.bind_eq_bind, Option.bind_some, if_true]
  rw [isDot]
  simp only [Option.bind_some]
  rw [isDotDot]
  simp only [Option.bind_some]
  rw [isFolded]
  simp only [Option.bind_some, Image.balloc, if_pos used]
  rfl

theorem rootEntries_flatten_length (files : List HostFile) :
    (rootEntries files).flatten.length = DIRENT * (files.length + 2) := by
  rw [flatten_length (rootEntries_lengths files), rootEntries_length]

theorem fixSize_root {image : Image} {content : Inum → List UInt8} (built : image.Built content) :
    ((fixSize image).disk.dinodes ROOTINO).size =
      ((content ROOTINO).length / BSIZE + 1) * BSIZE := by
  rw [← built.size ROOTINO]
  simp [fixSize, Image.winode, Image.rinode]

theorem fixSize_other {image : Image} {content : Inum → List UInt8} (built : image.Built content)
    {inum : Inum} (distinct : inum ≠ ROOTINO) :
    ((fixSize image).disk.dinodes inum).size = (content inum).length := by
  rw [← built.size inum]
  simp [fixSize, Image.winode, Function.update_of_ne distinct]

/-- `mkfs` makes an image for every list of files that fits, and the image is
valid unless the entries of the root directory fill their blocks. -/
theorem mkfs_spec {files : List HostFile} (accepts : Accepts files) :
    ∃ disk, mkfs files = some disk ∧
      (Valid files disk ↔ (files.length + 2) % (BSIZE / DIRENT) ≠ 0) := by
  obtain ⟨image, content, made, built, inv, root, -⟩ := mkfs_made accepts
  have rootLength : (content ROOTINO).length = DIRENT * (files.length + 2) := by
    rw [root, rootEntries_flatten_length]
  have used : (fixSize image).freeblock < BSIZE * 8 := by
    have stop := inv.ledger.stop
    simp only [FSSIZE, BSIZE] at stop ⊢
    omega
  set disk : Disk sb := { (fixSize image).disk with
    bitmap := Function.update (fixSize image).disk.bitmap 0
      ((List.range (fixSize image).freeblock).foldl setBit fun _ => 0) } with isDisk
  have isUsed : ∀ blockno < FSSIZE, disk.isUsed blockno =
      decide (blockno < (fixSize image).freeblock) := by
    intro blockno inside
    have first : blockno / BPB = 0 := by
      simp only [FSSIZE, BPB, BSIZE] at inside ⊢
      omega
    have same : blockno % BPB = blockno := by
      simp only [FSSIZE, BPB, BSIZE] at inside ⊢
      omega
    have bits : disk.bitmap 0 =
        (List.range (fixSize image).freeblock).foldl setBit fun _ => 0 := by simp [isDisk]
    rw [Disk.isUsed, first, same, bits]
    exact testBit_balloc used.le blockno
  have owns : Owns (· < sb.size) sb.isMeta disk.isUsed
      (holdings disk.blocks disk.dinodes fun _ => 0) := by
    have before := inv.ledger.owns
    refine ⟨before.inside, before.unreserved, ?_, before.unique, ?_⟩
    · intro place blockno full
      rw [isUsed blockno (before.inside place blockno full)]
      exact before.isMarked place blockno full
    · intro blockno inside notMeta isMarked
      rw [isUsed blockno inside] at isMarked
      exact before.covered blockno inside notMeta isMarked
  have marked : disk.MetaMarked := by
    intro blockno inside isMeta
    rw [isUsed blockno inside]
    have := (isMeta_iff blockno).mp isMeta
    have := inv.ledger.start
    simp only [decide_eq_true_eq]
    omega
  have rootSize : (disk.dinodes ROOTINO).size =
      (DIRENT * (files.length + 2) / BSIZE + 1) * BSIZE := by
    rw [← rootLength]
    exact fixSize_root built
  have otherSize : ∀ inum, inum ≠ ROOTINO → (disk.dinodes inum).size = (content inum).length :=
    fun inum distinct => fixSize_other built distinct
  have mapped : ∀ inum bn position, filePosition bn = some position →
      (holdings disk.blocks disk.dinodes (fun _ => 0) (inum, position) ≠ none ↔
        bn < blocksFor (content inum).length) := by
    intro inum bn position isPosition
    rw [← Option.isSome_iff_ne_none]
    exact inv.counts.mapped inum bn position isPosition
  refine ⟨disk, made, ?_⟩
  rw [← rounded_iff, ← rootSize, ← rootLength]
  constructor
  · intro valid bn below
    obtain ⟨position, isPosition, full⟩ := valid.backed ROOTINO bn below
    exact (mapped ROOTINO bn position isPosition).mp full
  · intro covered
    refine ⟨owns, marked, ?_, ?_, ?_, ?_⟩
    · intro inum bn below
      have inside : bn < blocksFor (content inum).length := by
        rcases eq_or_ne inum ROOTINO with rfl | distinct
        · exact covered bn below
        · rw [otherSize inum distinct] at below
          exact below
      have limit := built.limit inum
      obtain ⟨position, isPosition⟩ := filePosition_of_lt (show bn < MAXFILE by
        simp only [blocksFor, MAXFILE, NDIRECT, NINDIRECT, BSIZE] at inside limit ⊢
        omega)
      exact ⟨position, isPosition, (mapped inum bn position isPosition).mpr inside⟩
    · rw [rootEntries_length, rootSize]
      simp only [BSIZE]
      omega
    · intro k entry isEntry index inside
      have lengths := rootEntries_lengths files
      have entryLength := lengths entry (List.mem_of_getElem? isEntry)
      have k_lt : k < files.length + 2 := by
        rw [← rootEntries_length]
        exact (List.getElem?_eq_some_iff.mp isEntry).1
      have below : DIRENT * k + index < (content ROOTINO).length := by
        have := Nat.mul_le_mul_left DIRENT (Nat.succ_le_of_lt k_lt)
        rw [Nat.mul_succ] at this
        omega
      rw [isDisk, inv.fileByte_mapped below (built.limit ROOTINO), root,
        getD_flatten lengths isEntry inside, List.getD_eq_getElem _ _ (by omega),
        List.getElem?_eq_getElem]
    · intro off byte above isByte
      rw [inv.fileByte isByte, List.getD_eq_default]
      rw [rootLength, ← rootEntries_length]
      exact above

/-- The image for a list of files that fits is valid exactly when the entries of
the root directory do not fill their blocks. -/
theorem image_valid_iff (files : List HostFile) (accepts : Accepts files) :
    ∃ disk, mkfs files = some disk ∧
      (Valid files disk ↔ (files.length + 2) % (BSIZE / DIRENT) ≠ 0) :=
  mkfs_spec accepts

/-- An empty host file. -/
def emptyFile : HostFile where
  name := [UNDERSCORE, 108, 115]
  reads := []
  readFits := by simp

theorem emptyFiles_accepted {number : Nat} (small : number ≤ 30) :
    Accepts (List.replicate number emptyFile) := by
  refine ⟨?_, ?_, ?_, ?_⟩
  · intro file member
    obtain rfl := List.eq_of_mem_replicate member
    decide
  · intro file member
    obtain rfl := List.eq_of_mem_replicate member
    decide
  · rw [List.length_replicate]
    simp only [NINODES]
    omega
  · have noBlocks : cost (blocksFor emptyFile.size) = 0 := by decide
    have root : cost (blocksFor (DIRENT * (number + 2))) ≤ 1 := by
      have most := cost_mono (blocksFor_mono
        (Nat.mul_le_mul_left DIRENT (by omega : number + 2 ≤ 32)))
      exact most.trans (by decide)
    have room : nmeta + 1 ≤ FSSIZE := by decide
    have none : (List.replicate number 0).sum = 0 := by simp
    rw [List.length_replicate, List.map_replicate, noBlocks, none]
    omega

theorem image_valid_iff_oneFile :
    ∃ disk, mkfs [emptyFile] = some disk ∧ Valid [emptyFile] disk := by
  obtain ⟨disk, made, valid⟩ := image_valid_iff [emptyFile] (emptyFiles_accepted (by decide : 1 ≤ 30))
  exact ⟨disk, made, valid.mpr (by decide)⟩

/-- The entries of thirty files and the two of the directory itself fill a block. -/
theorem thirtyFiles_invalid :
    Accepts (List.replicate 30 emptyFile) ∧ ∃ disk,
      mkfs (List.replicate 30 emptyFile) = some disk ∧
        ¬ Valid (List.replicate 30 emptyFile) disk := by
  have accepts := emptyFiles_accepted (le_refl 30)
  obtain ⟨disk, made, valid⟩ := mkfs_spec accepts
  refine ⟨accepts, disk, made, ?_⟩
  intro isValid
  exact valid.mp isValid (by decide)

end Coursework.FileSystem.Mkfs
