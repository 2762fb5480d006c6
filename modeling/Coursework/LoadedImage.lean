import Coursework.SegmentLoads

/-!
# The image of a new program

While `exec` builds an address space, the pages of the new page directory are pages that
were free before, and no other page has changed; so at every point they can all be given
back.  The pages of the image are those below its size, they hold what the segments and the
zeros between them say, and how many pages are left depends on the size only.

So the loop over the program headers succeeds exactly if the headers are in order and there
are pages enough for the image that they ask for.
-/

namespace Coursework.Paging

variable {layout : Layout} {freelist freelist' : Freelist} {dir dir' : Dir} {page : Nat}

/-! ## The kernel's part and the demand for pages -/

/-- The part of a page directory above the user pages is the same. -/
def SameKernel (dir dir' : Dir) : Prop :=
  ∀ index : Fin NPDENTRIES, USERPAGES ≤ index.val * NPDENTRIES → dir'.pdes index = dir.pdes index

theorem SameKernel.refl (dir : Dir) : SameKernel dir dir := fun _ _ => rfl

theorem SameKernel.trans {dir'' : Dir} (first : SameKernel dir dir')
    (second : SameKernel dir' dir'') : SameKernel dir dir'' :=
  fun index kernel => (second index kernel).trans (first index kernel)

theorem sameKernel_update (user : page < USERPAGES) (table : Option Table) :
    SameKernel dir { dir with pdes := Function.update dir.pdes (PDX page) table } := by
  intro index kernel
  apply Function.update_of_ne
  rintro rfl
  have isUser := (PDX_user (user.trans user_lt_all)).mpr user
  omega

theorem sameKernel_setPte (user : page < USERPAGES) (entry : Option Pte) :
    SameKernel dir (dir.setPte page entry) := by
  unfold Dir.setPte
  split
  · exact SameKernel.refl dir
  · exact sameKernel_update user _

theorem mappage_kernel (freelist : Freelist) (dir : Dir) (user : page < USERPAGES) (pte : Pte) :
    Outcome (fun _ => True) (fun result => SameKernel dir result.2.2)
      (mappage freelist dir page pte) := by
  unfold mappage walkpgdir
  split
  · exact SameKernel.refl dir
  · next walked =>
      split at walked
      · cases walked
        split
        · trivial
        · exact sameKernel_setPte user _
      · split at walked
        · cases walked
        · cases walked
          split
          · trivial
          · exact (sameKernel_update user _).trans (sameKernel_setPte user _)

theorem clearpteu_kernel (dir : Dir) (user : page < USERPAGES) :
    Outcome (fun _ => True) (SameKernel dir) (clearpteu dir page) := by
  unfold clearpteu
  split
  · trivial
  · exact sameKernel_setPte user _

/-- What `allocuvm` leaves when there are pages enough, and that it fails otherwise. -/
theorem allocLoop_demand {oldsz newsz : Nat} (count : Nat) {freelist : Freelist} {dir : Dir}
    {page : Nat} (user : page + count ≤ USERPAGES) (tables : UserTables dir page) :
    Outcome (fun _ => True)
      (fun result =>
        (copyPages (page + count) ≤ freelist.length + copyPages page →
          result.1 = newsz ∧ UserTables result.2.2 (page + count) ∧
            result.2.1.length + copyPages (page + count) = freelist.length + copyPages page ∧
            SameKernel dir result.2.2) ∧
        (freelist.length + copyPages page < copyPages (page + count) → result.1 = 0))
      (allocLoop layout oldsz newsz count freelist dir page) := by
  induction count generalizing freelist dir page with
  | zero =>
      refine ⟨fun _ => ⟨rfl, tables, rfl, SameKernel.refl dir⟩, ?_⟩
      intro tooFew
      rw [Nat.add_zero] at tooFew
      omega
  | succ count ih =>
      have userPage : page < USERPAGES := by omega
      have next := copyPages_succ page
      have more := copyPages_mono (show page + 1 ≤ page + (count + 1) by omega)
      unfold allocLoop
      split
      · next exhausted =>
          rw [kalloc_none exhausted, List.length_nil]
          exact Outcome.bind (Outcome.any _) fun _ _ => ⟨fun enough => by omega, fun _ => rfl⟩
      · next mem rest allocated =>
          have size : freelist.length = rest.length + 1 := by
            rw [kalloc_some allocated, List.length_cons]
          apply Outcome.bind ((mappage_takes rest dir page ⟨mem, true, true⟩).and
            (mappage_kernel rest dir userPage _) |>.mono (fun _ _ => trivial) fun _ same => same)
          rintro ⟨mapped, freelist1, dir1⟩ ⟨takes, kernel⟩
          cases mapped with
          | false =>
              obtain ⟨isEmpty, missing⟩ := takes.failed_singleton
              have isFirst : page % NPDENTRIES = 0 := by
                by_contra later
                exact missing ((tables.mem_iff userPage).mpr later)
              rw [if_pos isFirst] at next
              apply Outcome.bind (Outcome.any _)
              rintro ⟨size1, freelist2, dir2⟩ -
              exact Outcome.bind (Outcome.any _) fun _ _ => ⟨fun enough => by omega, fun _ => rfl⟩
          | true =>
              have balance := tables.balance userPage takes
              have tables1 := tables.succ userPage (takes.mapped rfl)
              have shift : page + 1 + count = page + (count + 1) := by omega
              apply (ih (by omega) tables1).mono (fun _ => id)
              rintro ⟨last, freelist2, dir2⟩ ⟨succeeds, fails⟩
              rw [shift, balance, ← size] at succeeds fails
              refine ⟨?_, fails⟩
              intro isEnough
              obtain ⟨isSize, tables2, balance2, kernel2⟩ := succeeds isEnough
              exact ⟨isSize, tables2, balance2, kernel.trans kernel2⟩

end Coursework.Paging

namespace Coursework.Exec

open Paging

variable {layout : Layout} {before memory memory' : Memory} {base dir dir' : Dir} {count : Nat}
  {image : Nat → UInt8}

theorem panics_spec {Value : Type} {returned : Value → Prop} {computation : Except Panic Value}
    (outcome : Outcome (fun _ => False) returned computation) :
    Outcome (fun _ => False) returned (panics computation) :=
  outcome.mapError fun _ => id

/-! ## What can be given back -/

/-- The pages of a page directory were free before, and the others are as they were. -/
structure Holds (before memory : Memory) (dir : Dir) : Prop where
  account : ∀ frame, memory.freelist.count frame + dir.uses frame = before.freelist.count frame
  keeps : Memory.Keeps before memory

/-- The free pages are pages of the machine, and each is free once. -/
def Bounded (layout : Layout) (memory : Memory) : Prop :=
  ∀ frame, memory.freelist.count frame ≤ capacity layout frame

/-- All pages are free that were free, and the others are as they were. -/
structure GivenBack (before after : Memory) : Prop where
  account : ∀ frame, after.freelist.count frame = before.freelist.count frame
  keeps : Memory.Keeps before after

theorem GivenBack.refl (memory : Memory) : GivenBack memory memory :=
  ⟨fun _ => rfl, Memory.Keeps.refl memory⟩

namespace Holds

theorem sole (holds : Holds before memory dir) (bounded : Bounded layout before) :
    Sole layout memory.freelist dir :=
  fun frame => (holds.account frame).le.trans (bounded frame)

theorem subset (holds : Holds before memory dir) : memory.freelist ⊆ before.freelist := by
  intro frame member
  have once := List.count_pos_iff.mpr member
  have account := holds.account frame
  exact List.count_pos_iff.mp (by omega)

/-- After a step that moves pages between the free list and the page directory. -/
theorem step (holds : Holds before memory dir)
    (account : ∀ frame, memory'.freelist.count frame + dir'.uses frame =
      memory.freelist.count frame + dir.uses frame)
    (keeps : Memory.Keeps memory memory') : Holds before memory' dir' :=
  ⟨fun frame => (account frame).trans (holds.account frame),
    holds.keeps.taken holds.subset keeps⟩

/-- After stores to the pages of the page directory. -/
theorem stored (holds : Holds before memory dir) {ram : ByteMemory}
    (others : SameOthers dir memory.ram ram) :
    Holds before { memory with ram := ram } dir := by
  refine ⟨holds.account, ?_⟩
  intro frame notBefore notAfter
  apply (holds.keeps frame notBefore notAfter).trans
  apply others
  rintro page user pte isPte rfl
  have used : pteUses (dir.pte page) pte.frame ≤ _ := Dir.pteUses_le user pte.frame
  have account := holds.account pte.frame
  rw [isPte, pteUses_self] at used
  rw [← List.count_eq_zero] at notBefore
  omega

theorem freevm (holds : Holds before memory dir) (bounded : Bounded layout before) :
    Outcome (fun _ => False) (GivenBack before) (Memory.freevm layout memory dir) := by
  have exact_ := freevm_exact (holds.sole bounded)
  rw [← Memory.freevm_forget] at exact_
  apply ((Outcome.of_map exact_).and (Memory.freevm_gives memory dir)).mono
    (fun _ impossible => impossible.1)
  rintro after ⟨account, -, keeps⟩
  exact ⟨fun frame => (account frame).trans (holds.account frame),
    holds.keeps.taken holds.subset keeps⟩

end Holds

/-! ## Images -/

/-- An image with a number of pages. -/
structure Image (before : Memory) (base : Dir) (memory : Memory) (dir : Dir) (count : Nat)
    (image : Nat → UInt8) : Prop extends Holds before memory dir where
  mapped : ∀ page < count, ∃ frame, dir.pte page = some ⟨frame, true, true⟩
  above : ∀ page, count ≤ page → page < USERPAGES → dir.pte page = none
  limit : count ≤ USERPAGES
  kernel : SameKernel base dir
  tables : UserTables dir count
  balance : memory.freelist.length + copyPages count + kernelPages = before.freelist.length
  bytes : ∀ addr < count * PGSIZE, dir.byte memory.ram addr = some (image addr)
  zeros : ∀ addr, count * PGSIZE ≤ addr → image addr = 0

theorem page_lt_count {addr : Nat} : addr / PGSIZE < count ↔ addr < count * PGSIZE :=
  Nat.div_lt_iff_lt_mul (by decide)

theorem user_of_page {addr : Nat} (user : addr / PGSIZE < USERPAGES) : addr < KERNBASE := by
  have isAddr := page_lt_count.mp user
  rwa [show USERPAGES * PGSIZE = KERNBASE by decide] at isAddr

namespace Image

/-- There are pages enough for an image with a number of pages. -/
def Enough (before : Memory) (count : Nat) : Prop :=
  kernelPages + copyPages count ≤ before.freelist.length

instance (before : Memory) (count : Nat) : Decidable (Enough before count) :=
  inferInstanceAs (Decidable (_ ≤ _))

theorem Enough.mono {more : Nat} (enough : Enough before more) (fewer : count ≤ more) :
    Enough before count :=
  (Nat.add_le_add_left (copyPages_mono fewer) _).trans enough

theorem enough (isImage : Image before base memory dir count image) : Enough before count := by
  have balance := isImage.balance
  unfold Enough
  omega

theorem enough_iff (isImage : Image before base memory dir count image) (more : Nat) :
    copyPages more ≤ memory.freelist.length + copyPages count ↔ Enough before more := by
  have balance := isImage.balance
  unfold Enough
  omega

/-- An image that has grown. -/
theorem grown (isImage : Image before base memory dir count image)
    (bounded : Bounded layout before) {more : Nat} (larger : count ≤ more)
    (limit : more ≤ USERPAGES) (holds : Holds before memory' dir')
    (keeps : Memory.Keeps memory memory')
    (others : ∀ page < ALLPAGES, page < count ∨ more ≤ page → dir'.pte page = dir.pte page)
    (fresh : Fresh memory' dir' count more) (kernel : SameKernel dir dir')
    (tables : UserTables dir' more)
    (balance : memory'.freelist.length + copyPages more =
      memory.freelist.length + copyPages count) :
    Image before base memory' dir' more image := by
  have all := user_lt_all
  refine ⟨holds, ?_, ?_, limit, isImage.kernel.trans kernel, tables, ?_, ?_, ?_⟩
  · intro page inside
    by_cases old : page < count
    · rw [others page (by omega) (Or.inl old)]
      exact isImage.mapped page old
    · obtain ⟨mem, isPte, -⟩ := fresh page (Nat.not_lt.mp old) inside
      exact ⟨mem, isPte⟩
  · intro page lower upper
    rw [others page (by omega) (Or.inr lower)]
    exact isImage.above page (by omega) upper
  · have := isImage.balance
    omega
  · intro addr inside
    have page := page_lt_count.mpr inside
    by_cases old : addr / PGSIZE < count
    · rw [← isImage.bytes addr (page_lt_count.mp old)]
      apply keeps.byte_eq (isImage.toHolds.sole bounded) (holds.sole bounded)
      · exact user_of_page (page.trans_le limit)
      · exact others _ (by omega) (Or.inl old)
    · obtain ⟨mem, isPte, isClear⟩ := fresh _ (Nat.not_lt.mp old) page
      have above : count * PGSIZE ≤ addr := Nat.not_lt.mp fun inside => old (page_lt_count.mpr inside)
      rw [isImage.zeros addr above, Dir.byte, isPte]
      exact congrArg some (isClear _ (offset_lt addr))
  · intro addr above
    exact isImage.zeros addr ((Nat.mul_le_mul_right _ larger).trans above)

/-- The size that an image is to get is in range, and there are pages enough. -/
structure Grows (before : Memory) (oldsz newsz : Nat) : Prop where
  user : newsz < KERNBASE
  positive : 0 < max oldsz newsz
  enough : Enough before (pagesBelow (max oldsz newsz))

/-- Growing an image succeeds exactly if that is so. -/
theorem allocuvm {oldsz newsz : Nat}
    (isImage : Image before base memory dir (pagesBelow oldsz) image)
    (bounded : Bounded layout before) :
    Outcome (fun _ => False)
      (fun result => Holds before result.2.1 result.2.2 ∧
        (Grows before oldsz newsz → result.1 = max oldsz newsz ∧
          Image before base result.2.1 result.2.2 (pagesBelow (max oldsz newsz)) image) ∧
        (¬ Grows before oldsz newsz → result.1 = 0))
      (Memory.allocuvm layout memory dir oldsz newsz) := by
  unfold Memory.allocuvm
  split
  · next large => exact ⟨isImage.toHolds, fun grows => by have := grows.user; omega, fun _ => rfl⟩
  · next user =>
      split
      · next smaller =>
          rw [max_eq_left smaller.le]
          refine ⟨isImage.toHolds, fun _ => ⟨rfl, isImage⟩, ?_⟩
          intro impossible
          exfalso
          apply impossible
          have isMax := max_eq_left smaller.le
          exact ⟨by omega, by omega, isMax.symm ▸ isImage.enough⟩
      · next notSmaller =>
          have larger : oldsz ≤ newsz := Nat.not_lt.mp notSmaller
          have user : newsz < KERNBASE := by omega
          have order := pagesBelow_mono larger
          have limit := pagesBelow_le user.le
          have sole := isImage.toHolds.sole bounded
          have isMax := max_eq_right larger
          rw [isMax]
          rcases Nat.eq_zero_or_pos newsz with rfl | positive
          · obtain rfl : oldsz = 0 := by omega
            rw [Nat.sub_self]
            exact ⟨isImage.toHolds, fun grows => by have := grows.positive; omega, fun _ => rfl⟩
          · have spec := @allocLoop_spec layout oldsz newsz user
              (pagesBelow newsz - pagesBelow oldsz) _ _ _ sole (le_refl _) (by omega)
            have demand := @allocLoop_demand layout oldsz newsz
              (pagesBelow newsz - pagesBelow oldsz) memory.freelist _ _ (by omega) isImage.tables
            rw [← Memory.allocLoop_forget] at spec demand
            apply ((Outcome.of_map spec).and ((Outcome.of_map demand).and
              (Memory.allocLoop_fresh positive user (pagesBelow newsz - pagesBelow oldsz) sole
                (le_refl _) (by omega)))).mono
            · rintro error ⟨⟨-, other, lower, upper, present⟩, -⟩
              rw [isImage.above other lower (by omega)] at present
              cases present
            · rintro ⟨size, memory1, dir1⟩ ⟨⟨account, -⟩, ⟨succeeds, fails⟩, keeps, isFresh⟩
              simp only [Memory.forget] at account succeeds fails keeps isFresh
              have holds := isImage.toHolds.step account keeps
              have isEnd : pagesBelow oldsz + (pagesBelow newsz - pagesBelow oldsz) =
                  pagesBelow newsz := by omega
              rw [isEnd] at succeeds fails
              rw [isImage.enough_iff] at succeeds
              rw [← Nat.not_le, isImage.enough_iff] at fails
              refine ⟨holds, ?_, ?_⟩
              · intro grows
                obtain ⟨isSize, tables, balance, kernel⟩ := succeeds (isMax ▸ grows.enough)
                obtain ⟨others, fresh⟩ := isFresh isSize
                exact ⟨isSize, isImage.grown bounded order limit holds keeps others fresh kernel
                  tables balance⟩
              · intro stuck
                apply fails
                intro enough
                exact stuck ⟨user, isMax.symm ▸ positive, isMax.symm ▸ enough⟩

/-- An image with the bytes of a segment. -/
theorem overlay {content : List UInt8} {ph : Proghdr}
    (isImage : Image before base memory dir count image)
    (inside : ph.vaddr + ph.filesz ≤ count * PGSIZE) {ram : ByteMemory}
    (bytes : ∀ addr < KERNBASE, dir.byte ram addr =
      if ph.vaddr ≤ addr ∧ addr < ph.vaddr + ph.filesz then
        some (content.getD (ph.off + (addr - ph.vaddr)) 0)
      else dir.byte memory.ram addr)
    (holds : Holds before { memory with ram := ram } dir) :
    Image before base { memory with ram := ram } dir count (ph.over content image) := by
  refine { isImage with toHolds := holds, bytes := ?_, zeros := ?_ }
  · intro addr within
    have user := user_of_page ((page_lt_count.mpr within).trans_le isImage.limit)
    rw [bytes addr user, Proghdr.over]
    split
    · rfl
    · exact isImage.bytes addr within
  · intro addr above
    rw [Proghdr.over, if_neg (by omega)]
    exact isImage.zeros addr above

end Image

/-! ## The program headers -/

theorem imageOf_mono {content : List UInt8} {sz size : Nat} {image' : Nat → UInt8}
    (count : Nat) {off : Nat} (asked : imageOf content count off sz image = some (size, image')) :
    sz ≤ size := by
  induction count generalizing off sz image with
  | zero =>
      cases asked
      exact le_refl _
  | succ count ih =>
      unfold imageOf at asked
      split at asked
      · cases asked
      · simp only at asked
        split at asked
        · exact ih asked
        · split at asked
          · exact (le_max_left _ _).trans (ih asked)
          · cases asked

/-- What the loop over the program headers leaves: the image that the headers ask for, exactly
if they ask for one and there are pages enough. -/
structure Segments (before : Memory) (base : Dir) (asked : Option (Nat × (Nat → UInt8)))
    (result : Option Nat × Memory × Dir) : Prop where
  holds : Holds before result.2.1 result.2.2
  loaded : ∀ size image', asked = some (size, image') → Image.Enough before (pagesBelow size) →
    result.1 = some size ∧ size < KERNBASE ∧
      Image before base result.2.1 result.2.2 (pagesBelow size) image'
  failed : (∀ size image', asked = some (size, image') →
    ¬ Image.Enough before (pagesBelow size)) → result.1 = none

theorem Segments.bad (holds : Holds before memory dir) :
    Segments before base none (none, memory, dir) :=
  ⟨holds, nofun, fun _ => rfl⟩

theorem loadSegments_spec {content : List UInt8} {sz : Nat} (bounded : Bounded layout before)
    (count : Nat) {off : Nat} (isImage : Image before base memory dir (pagesBelow sz) image)
    (user : sz < KERNBASE) :
    Outcome (fun _ => False) (Segments before base (imageOf content count off sz image))
      (loadSegments layout content count off memory dir sz) := by
  induction count generalizing off memory dir sz image with
  | zero =>
      refine ⟨isImage.toHolds, ?_, fun none => (none sz image rfl isImage.enough).elim⟩
      rintro size image' ⟨⟩ -
      exact ⟨rfl, user, isImage⟩
  | succ count ih =>
      unfold loadSegments imageOf
      cases isHeader : readProghdr content off with
      | none => exact Segments.bad isImage.toHolds
      | some ph =>
          have words := readProghdr_words isHeader
          by_cases other : ph.type ≠ ELF_PROG_LOAD
          · simp only [if_pos other]
            exact ih isImage user
          · simp only [if_neg other]
            by_cases tooSmall : ph.memsz < ph.filesz
            · rw [if_pos tooSmall, if_neg fun loadable => by have := loadable.1; omega]
              exact Segments.bad isImage.toHolds
            · rw [if_neg tooSmall]
              have vaddr := words.vaddr
              have memsz := words.memsz
              by_cases wraps : (ph.vaddr + ph.memsz) % UINT < ph.vaddr
              · rw [if_pos wraps, if_neg]
                · exact Segments.bad isImage.toHolds
                · intro loadable
                  have below := loadable.2.1
                  rw [Nat.mod_eq_of_lt (below.trans (by decide))] at wraps
                  omega
              · have noWrap : (ph.vaddr + ph.memsz) % UINT = ph.vaddr + ph.memsz := by
                  simp only [UINT] at *
                  omega
                rw [if_neg wraps, noWrap]
                apply Outcome.bind (panics_spec (isImage.allocuvm bounded))
                rintro ⟨size, memory1, dir1⟩ ⟨holds, succeeds, fails⟩
                simp only at holds succeeds fails ⊢
                by_cases grows : Image.Grows before sz (ph.vaddr + ph.memsz)
                · obtain ⟨isSize, isImage1⟩ := succeeds grows
                  have positive := grows.positive
                  rw [if_neg (show ¬ size = 0 by omega)]
                  by_cases unaligned : ph.vaddr % PGSIZE ≠ 0
                  · rw [if_pos unaligned, if_neg fun loadable => unaligned loadable.2.2.2.1]
                    exact Segments.bad holds
                  · have aligned := not_not.mp unaligned
                    have userEnd := grows.user
                    have inside : ph.vaddr + ph.filesz ≤
                        pagesBelow (max sz (ph.vaddr + ph.memsz)) * PGSIZE := by
                      simp only [pagesBelow, PGSIZE]
                      omega
                    rw [if_neg unaligned]
                    apply Outcome.bind (loaduvm_spec words (Separate.of_sole (holds.sole bounded))
                      aligned (by omega) ?_)
                    · rintro ⟨loaded, ram⟩ ⟨isLoaded, bytes, others⟩
                      simp only at isLoaded bytes others
                      have stored := holds.stored others
                      cases loaded with
                      | false =>
                          simp only [Bool.false_eq_true, false_iff] at isLoaded
                          rw [if_neg fun loadable => isLoaded loadable.2.2.2.2]
                          exact Segments.bad stored
                      | true =>
                          have inFile := isLoaded.mp rfl
                          rw [if_pos ⟨by omega, userEnd, positive, aligned, inFile⟩]
                          subst isSize
                          exact ih (isImage1.overlay inside (bytes rfl) stored) (by omega)
                    · intro page _ upper
                      have before := (Nat.mul_lt_mul_right (by decide)).mp (upper.trans_le inside)
                      obtain ⟨frame, isPte⟩ := isImage1.mapped page before
                      rw [isPte]
                      rfl
                · rw [if_pos (fails grows)]
                  refine ⟨holds, ?_, fun _ => rfl⟩
                  intro last image' asked enough
                  exfalso
                  split at asked
                  · next loadable =>
                      apply grows
                      refine ⟨loadable.2.1, loadable.2.2.1, enough.mono (pagesBelow_mono ?_)⟩
                      exact imageOf_mono count asked
                  · cases asked

/-! ## The kernel's part -/

/-- `setupkvm` makes an image without pages, or leaves everything as it was. -/
theorem setupkvm_image (bounded : Bounded layout before) :
    Outcome (fun _ => False)
      (fun result => match result.1 with
        | none => GivenBack before result.2 ∧ before.freelist.length < kernelPages
        | some base => Image before base result.2 base 0 (fun _ => 0) ∧
            ∃ rest, setupkvm layout before.freelist = .ok (some base, rest))
      (Memory.setupkvm layout before) := by
  have exact_ := ((setupkvm_exact bounded).and (setupkvm_takes layout before.freelist)).and
    (Outcome.result (setupkvm layout before.freelist))
  rw [← Memory.setupkvm_forget] at exact_
  apply ((Outcome.of_map exact_).and (Memory.setupkvm_keeps before)).mono
    (fun _ impossible => impossible.1.1.1)
  rintro ⟨copy, memory⟩ ⟨⟨⟨account, size⟩, isSetup⟩, keeps, -⟩
  simp only [Memory.forgetDir] at account size isSetup keeps
  cases copy with
  | none => exact ⟨⟨account, keeps⟩, size⟩
  | some base =>
      obtain ⟨clear, account⟩ := account
      obtain ⟨size, isTables⟩ := size
      rw [Memory.setupkvm_forget] at isSetup
      refine ⟨⟨⟨account, keeps⟩, (by simp), fun page _ => clear page, Nat.zero_le _, SameKernel.refl base,
        UserTables.of_kernel isTables, ?_, ?_, fun _ _ => rfl⟩, _, isSetup⟩
      · have none0 : copyPages 0 = 0 := by decide
        rw [none0]
        exact size
      · intro addr impossible
        omega

end Coursework.Exec
