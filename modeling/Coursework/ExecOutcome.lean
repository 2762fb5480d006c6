import Coursework.ArgumentStack
import Coursework.ProcessGrowth

/-!
# The outcome of exec

`exec` takes all its pages from the free list and gives all of them back when it fails;
meanwhile it changes nothing but these pages, so that the caller is as it was.  It succeeds
with the image of the file and the stack of the arguments.  Between the two there is one way
out: an argument so long that its place wraps around to where there is no page table.
-/

namespace Coursework.Exec

open Paging

variable {layout : Layout} {before memory : Memory} {machine : Machine} {base dir : Dir}
  {image : Nat → UInt8} {argv : List CString} {path : List UInt8}
  {files : List UInt8 → Option (List UInt8)}

/-! ## Failing -/

/-- The caller and the calls that were made when `exec` has failed. -/
structure Failed (before : Memory) (curproc : Curproc) (calls : List FsCall)
    (result : Int × Machine) : Prop where
  returned : result.1 = -1
  memory : GivenBack before result.2.memory
  curproc : result.2.curproc = curproc
  calls : result.2.calls = calls

/-- The calls that are left for `bad`. -/
def releases (held : Bool) : List FsCall := if held then [.iunlockput, .endOp] else []

theorem bad_none (held : Bool) (given : GivenBack before machine.memory) :
    Outcome (fun _ => False) (Failed before machine.curproc (machine.calls ++ releases held))
      (bad layout machine none held) := by
  cases held with
  | true => exact ⟨rfl, given, rfl, rfl⟩
  | false => exact ⟨rfl, given, rfl, (List.append_nil _).symm⟩

theorem bad_some (held : Bool) (holds : Holds before machine.memory dir)
    (bounded : Bounded layout before) :
    Outcome (fun _ => False) (Failed before machine.curproc (machine.calls ++ releases held))
      (bad layout machine (some dir) held) := by
  apply Outcome.bind (panics_spec (holds.freevm bounded))
  intro after given
  cases held with
  | true => exact ⟨rfl, given, rfl, rfl⟩
  | false => exact ⟨rfl, given, rfl, (List.append_nil _).symm⟩

/-! ## The guard page -/

theorem kernel_tables {freelist rest : Freelist}
    (isSetup : setupkvm layout freelist = .ok (some base, rest)) : base.tables = kernelTables := by
  have takes := setupkvm_takes layout freelist
  rw [isSetup] at takes
  exact takes.2

/-- `clearpteu` of the page below the stack. -/
theorem clearpteu_guard {top : Nat} {rest : Freelist}
    (isImage : Image before base memory dir (pagesBelow top) image)
    (bounded : Bounded layout before)
    (isSetup : setupkvm layout before.freelist = .ok (some base, rest))
    (aligned : top % PGSIZE = 0) (room : 2 * PGSIZE ≤ top) (user : top < KERNBASE) :
    Outcome (fun _ => False)
      (fun dir' => Stacked layout dir' top ∧ Holds before memory dir' ∧
        ∀ addr < top, dir'.byte memory.ram addr = some (image addr))
      (clearpteu dir ((top - 2 * PGSIZE) / PGSIZE)) := by
  have pages : pagesBelow top = top / PGSIZE := by
    simp only [pagesBelow, PGSIZE] at *
    omega
  have guard : (top - 2 * PGSIZE) / PGSIZE = top / PGSIZE - 2 := by
    simp only [PGSIZE] at *
    omega
  have many : 2 ≤ top / PGSIZE := by
    simp only [PGSIZE] at *
    omega
  have whole : top / PGSIZE * PGSIZE = top := by
    simp only [PGSIZE] at *
    omega
  rw [pages] at isImage
  have limit := isImage.limit
  have all := user_lt_all
  obtain ⟨guardFrame, isGuard⟩ := isImage.mapped (top / PGSIZE - 2) (by omega)
  obtain ⟨table, isTable, isEntry⟩ := Option.bind_eq_some_iff.mp isGuard
  have accounts := (clearpteu_spec (show top / PGSIZE - 2 < ALLPAGES by omega)).and
    (clearpteu_kernel dir (show top / PGSIZE - 2 < USERPAGES by omega))
  rw [guard]
  unfold clearpteu at accounts ⊢
  rw [isTable] at accounts ⊢
  obtain ⟨⟨present, uses⟩, kernel⟩ := accounts
  simp only [isEntry, Option.map_some] at present uses kernel ⊢
  have entries : ∀ page < ALLPAGES,
      (dir.setPte (top / PGSIZE - 2) (some ⟨guardFrame, true, false⟩)).pte page =
        if page = top / PGSIZE - 2 then some ⟨guardFrame, true, false⟩ else dir.pte page :=
    fun page inside => Dir.pte_setPte isTable (by omega) inside
  generalize dir.setPte (top / PGSIZE - 2) (some ⟨guardFrame, true, false⟩) = dir' at *
  have holds : Holds before memory dir' := by
    refine ⟨fun frame => ?_, isImage.keeps⟩
    rw [uses frame]
    exact isImage.account frame
  refine ⟨⟨⟨⟨before.freelist, base, rest, isSetup, isImage.kernel.trans kernel⟩,
    Separate.of_sole (holds.sole bounded)⟩, aligned, room, user, ?_, ?_, ?_, ?_⟩, holds, ?_⟩
  · intro page inside
    rw [present page (by omega)]
    obtain ⟨frame, isPte⟩ := isImage.mapped page inside
    rw [isPte]
    rfl
  · rw [Dir.userFrame, entries _ (by omega), if_pos rfl]
    rfl
  · obtain ⟨frame, isPte⟩ := isImage.mapped (top / PGSIZE - 1) (by omega)
    rw [Dir.userFrame, entries _ (by omega), if_neg (by omega), isPte]
    rfl
  · intro va lower upper
    have inside : va / PGSIZE < ALLPAGES := by
      simp only [ALLPAGES, UINT, PGSIZE] at *
      omega
    have kernelPage : USERPAGES ≤ va / PGSIZE := by
      simp only [USERPAGES, KERNBASE, PGSIZE] at *
      omega
    have sameTable : dir'.table (va / PGSIZE) = base.table (va / PGSIZE) :=
      (isImage.kernel.trans kernel) _ (PDX_kernel kernelPage inside)
    rw [sameTable, Dir.table, ← Dir.mem_tables, kernel_tables isSetup, mem_kernelTables, Gap]
    simp only [PDX, KERNBASE, PHYSTOP, DEVSPACE, NPDENTRIES, PGSIZE, UINT] at *
    omega
  · intro addr below
    have page : addr / PGSIZE < top / PGSIZE := by
      rw [page_lt_count, whole]
      exact below
    rw [← isImage.bytes addr (by rw [whole]; exact below), Dir.byte, Dir.byte,
      entries _ (by omega)]
    split
    · next isPage =>
        rw [isPage, isGuard]
        rfl
    · rfl

/-! ## The second half -/

/-- The size of the address space with the guard page and the stack. -/
@[irreducible]
def stackTop (size : Nat) : Nat := PGROUNDUP size + 2 * PGSIZE

/-- There is room for the stack above an image. -/
def HasStack (before : Memory) (size : Nat) : Prop :=
  stackTop size < KERNBASE ∧ Image.Enough before (pagesBelow (stackTop size))

/-- The arguments of a call reach the kernel's part where there is no page table. -/
def WrapsToGap (before : Memory) (size : Nat) (argv : List CString) : Prop :=
  HasStack before size ∧ NullPush (stackTop size - PGSIZE) 0 argv (stackTop size)

/-- There is room for the stack, and the arguments fit. -/
def HasRoom (before : Memory) (size : Nat) (argv : List CString) : Prop :=
  HasStack before size ∧ ArgsFit (stackTop size) argv

theorem HasStack.loaded {size : Nat} (hasStack : HasStack before size) :
    Image.Enough before (pagesBelow size) := by
  apply hasStack.2.mono (pagesBelow_mono _)
  simp only [stackTop, PGROUNDUP, PGSIZE]
  omega

/-- The process after `exec` has succeeded. -/
structure Entered (layout : Layout) (before : Memory) (curproc : Curproc) (calls : List FsCall)
    (path : List UInt8) (argv : List CString) (entry size : Nat) (image : Nat → UInt8)
    (result : Int × Machine) : Prop where
  returned : result.1 = 0
  calls : result.2.calls = calls
  sz : result.2.curproc.sz = stackTop size
  name : result.2.curproc.name = safestrcpy curproc.name (lastElement path path) 16
  priority : result.2.curproc.priority = 2
  eip : result.2.curproc.eip = entry
  account : ∀ frame, result.2.memory.freelist.count frame + result.2.curproc.pgdir.uses frame =
    before.freelist.count frame + curproc.pgdir.uses frame
  stack : ∃ sp pointers, argv.length ≤ MAXARG ∧
    Frame layout result.2.curproc.pgdir result.2.memory.ram (stackTop size) sp
      result.2.curproc.esp argv pointers ∧
    ∀ addr < stackTop size,
      (∀ write ∈ stackWrites argv pointers sp result.2.curproc.esp,
        addr < write.1 ∨ write.1 + write.2.length ≤ addr) →
      result.2.curproc.pgdir.byte result.2.memory.ram addr = some (image addr)

theorem stackTop_facts {size : Nat} (user : size < KERNBASE) :
    stackTop size % PGSIZE = 0 ∧ 2 * PGSIZE ≤ stackTop size ∧ stackTop size < UINT ∧
      pagesBelow (PGROUNDUP size) = pagesBelow size ∧ PGROUNDUP size ≤ stackTop size := by
  simp only [stackTop, PGROUNDUP, pagesBelow, PGSIZE, KERNBASE, UINT] at *
  omega

/-- `exec` takes over the new image, and frees the old one. -/
theorem commit_spec {entry size sp esp : Nat} {pointers : List Nat}
    (bounded : Bounded layout before)
    (sole : Sole layout before.freelist machine.curproc.pgdir)
    (holds : Holds before machine.memory dir) (few : argv.length ≤ MAXARG)
    (frame : Frame layout dir machine.memory.ram (stackTop size) sp esp argv pointers)
    (others : ∀ addr < stackTop size, (∀ write ∈ stackWrites argv pointers sp esp,
        addr < write.1 ∨ write.1 + write.2.length ≤ addr) →
      dir.byte machine.memory.ram addr = some (image addr)) :
    Outcome (fun _ => False)
      (Entered layout before machine.curproc machine.calls path argv entry size image)
      (commit layout machine path dir (stackTop size) entry esp) := by
  have oldSole : Sole layout machine.memory.freelist machine.curproc.pgdir := by
    apply sole.of_le
    intro frame
    have := holds.account frame
    omega
  have freed := freevm_exact oldSole
  rw [← Memory.freevm_forget] at freed
  apply Outcome.bind (panics_spec (((Outcome.of_map freed).and
    (Memory.freevm_gives machine.memory machine.curproc.pgdir)).mono
    (fun _ impossible => impossible.1) fun _ same => same))
  rintro after ⟨account, -, keeps⟩
  have newAccount : ∀ frame, after.freelist.count frame + dir.uses frame =
      before.freelist.count frame + machine.curproc.pgdir.uses frame := by
    intro frame
    have := account frame
    have := holds.account frame
    omega
  have newSole : Sole layout after.freelist dir := by
    intro frame
    have := newAccount frame
    exact this.le.trans (sole frame)
  have sameByte : ∀ addr < KERNBASE,
      dir.byte after.ram addr = dir.byte machine.memory.ram addr :=
    fun addr user => keeps.byte_eq (holds.sole bounded) newSole user rfl
  have user := frame.stacked.user
  refine ⟨rfl, rfl, rfl, rfl, rfl, rfl, newAccount, sp, pointers, few,
    ⟨frame.stacked, frame.count, frame.block, frame.descends, ?_⟩, ?_⟩
  · intro write member i inside
    have bounds := (frame.descends.mem write member).2
    exact (sameByte _ (by omega)).trans (frame.bytes write member i inside)
  · intro addr below outside
    exact (sameByte addr (by omega)).trans (others addr below outside)

/-- What `exec` does from the loaded image on. -/
theorem enter_spec {size entry : Nat} {rest : Freelist} (bounded : Bounded layout before)
    (sole : Sole layout before.freelist machine.curproc.pgdir)
    (isImage : Image before base machine.memory dir (pagesBelow size) image)
    (user : size < KERNBASE)
    (isSetup : setupkvm layout before.freelist = .ok (some base, rest)) :
    Outcome (fun fault => fault = .nullEntry ∧ WrapsToGap before size argv)
      (fun result => ¬ WrapsToGap before size argv ∧
        (¬ HasRoom before size argv ∧ Failed before machine.curproc machine.calls result ∨
          HasRoom before size argv ∧
            Entered layout before machine.curproc machine.calls path argv entry size image result))
      (enter layout machine path argv entry dir size) := by
  have facts := stackTop_facts user
  have aligned := facts.1
  have room := facts.2.1
  have inside := facts.2.2.1
  have samePages := facts.2.2.2.1
  have order := facts.2.2.2.2
  have isTop : (PGROUNDUP size + 2 * PGSIZE) % UINT = stackTop size := by
    rw [stackTop] at inside ⊢
    exact Nat.mod_eq_of_lt inside
  have isMax : max (PGROUNDUP size) (stackTop size) = stackTop size := max_eq_right order
  have nothing : machine.calls ++ releases false = machine.calls := List.append_nil _
  rw [← samePages] at isImage
  unfold enter
  rw [isTop]
  apply Outcome.bind ((panics_spec (isImage.allocuvm bounded)).mono (fun _ => False.elim)
    fun _ same => same)
  rintro ⟨last, memory1, dir1⟩ ⟨holds, succeeds, fails⟩
  rw [isMax] at succeeds
  simp only at holds succeeds fails ⊢
  by_cases grows : Image.Grows before (PGROUNDUP size) (stackTop size)
  · obtain ⟨rfl, isImage1⟩ := succeeds grows
    have hasStack : HasStack before size := ⟨grows.user, isMax ▸ grows.enough⟩
    rw [if_neg (by simp only [PGSIZE] at *; omega)]
    apply Outcome.bind ((panics_spec (clearpteu_guard isImage1 bounded isSetup aligned room
      grows.user)).mono (fun _ => False.elim) fun _ same => same)
    rintro dir2 ⟨stacked, holds2, bytes⟩
    obtain ⟨null, fine⟩ := buildStack_spec stacked argv memory1.ram
    by_cases isNull : NullPush (stackTop size - PGSIZE) 0 argv (stackTop size)
    · rw [null isNull, error_bind]
      exact ⟨rfl, hasStack, isNull⟩
    · obtain ⟨stack, ram, isBuilt, same, isFit, done⟩ := fine isNull
      have noGap : ¬ WrapsToGap before size argv := fun gap => isNull gap.2
      have holds3 : Holds before { memory1 with ram := ram } dir2 := holds2.stored same
      rw [isBuilt, ok_bind]
      cases stack with
      | none =>
          simp only
          apply (@bad_some layout before (machine.setMemory { memory1 with ram := ram }) dir2 false
            holds3 bounded).mono (fun _ => False.elim)
          intro result isFailed
          have noRoom : ¬ HasRoom before size argv := by
            intro hasRoom
            cases isFit.mpr hasRoom.2
          refine ⟨noGap, Or.inl ⟨noRoom, ?_⟩⟩
          rw [← nothing]
          exact isFailed
      | some esp =>
          obtain ⟨sp, pointers, few, frame, others⟩ := done esp rfl
          have top := grows.user
          simp only
          have committed : Outcome (fun _ => False) _
              (commit layout (machine.setMemory { memory1 with ram := ram }) path dir2
                (stackTop size) entry esp) :=
            commit_spec bounded sole holds3 few frame fun addr below outside =>
              (others addr (below.trans top) outside).trans (bytes addr below)
          apply committed.mono (fun _ => False.elim)
          exact fun _ isEntered => ⟨noGap, Or.inr ⟨⟨hasStack, isFit.mp rfl⟩, isEntered⟩⟩
  · rw [if_pos (fails grows)]
    have noStack : ¬ HasStack before size := by
      rintro ⟨below, enough⟩
      exact grows ⟨below, by simp only [PGSIZE] at *; omega, isMax.symm ▸ enough⟩
    apply (@bad_some layout before (machine.setMemory memory1) dir1 false holds bounded).mono
      (fun _ => False.elim)
    intro result isFailed
    refine ⟨fun gap => noStack gap.1, Or.inl ⟨fun room => noStack room.1, ?_⟩⟩
    rw [← nothing]
    exact isFailed

/-- The same, with the i-node just let go. -/
theorem enter_released {size entry : Nat} {rest : Freelist} (bounded : Bounded layout before)
    (sole : Sole layout before.freelist machine.curproc.pgdir)
    (isImage : Image before base memory dir (pagesBelow size) image)
    (user : size < KERNBASE)
    (isSetup : setupkvm layout before.freelist = .ok (some base, rest)) :
    Outcome (fun fault => fault = .nullEntry ∧ WrapsToGap before size argv)
      (fun result => ¬ WrapsToGap before size argv ∧
        (¬ HasRoom before size argv ∧
            Failed before machine.curproc (machine.calls ++ [.iunlockput, .endOp]) result ∨
          HasRoom before size argv ∧
            Entered layout before machine.curproc (machine.calls ++ [.iunlockput, .endOp]) path argv
              entry size image result))
      (enter layout ((machine.setMemory memory).did [.iunlockput, .endOp]) path argv entry dir
        size) :=
  @enter_spec layout before ((machine.setMemory memory).did [.iunlockput, .endOp]) base dir image
    argv path size entry rest bounded sole isImage user isSetup

/-! ## The whole call -/

/-- An argument wraps around to where there is no page table, after the file was loaded. -/
def NullArgument (files : List UInt8 → Option (List UInt8)) (before : Memory) (path : List UInt8)
    (argv : List CString) : Prop :=
  ∃ content size image, files path = some content ∧ fileImage content = some (size, image) ∧
    WrapsToGap before size argv

/-- The headers of the file are in order, and there is room for its image, the stack and the
arguments. -/
def Accepts (files : List UInt8 → Option (List UInt8)) (before : Memory) (path : List UInt8)
    (argv : List CString) : Prop :=
  ∃ content size image, files path = some content ∧ fileImage content = some (size, image) ∧
    HasRoom before size argv

/-- What `exec` asks of the file system, in full. -/
def fsCalls (files : List UInt8 → Option (List UInt8)) (path : List UInt8) : List FsCall :=
  if (files path).isSome then [.beginOp, .namei, .ilock, .iunlockput, .endOp]
  else [.beginOp, .namei, .endOp]

/-- The process runs the file at the path. -/
def Runs (layout : Layout) (files : List UInt8 → Option (List UInt8)) (machine : Machine)
    (path : List UInt8) (argv : List CString) (result : Int × Machine) : Prop :=
  ∃ content elf size image, files path = some content ∧ readElfhdr content = some elf ∧
    fileImage content = some (size, image) ∧
    Entered layout machine.memory machine.curproc (machine.calls ++ fsCalls files path) path argv
      elf.entry size image result

theorem exists_content {content : List UInt8} (isFile : files path = some content)
    (property : Nat → Prop) :
    (∃ content size image, files path = some content ∧ fileImage content = some (size, image) ∧
      property size) ↔ ∃ size image, fileImage content = some (size, image) ∧ property size := by
  constructor
  · rintro ⟨other, size, image, isContent, found⟩
    rw [isFile] at isContent
    cases isContent
    exact ⟨size, image, found⟩
  · rintro ⟨size, image, found⟩
    exact ⟨content, size, image, isFile, found⟩

/-- `exec` fails and leaves everything as it was, or succeeds with the image of the file; it
reads a null pointer exactly if an argument wraps around to where there is no page table. -/
theorem exec_spec (bounded : Bounded layout machine.memory)
    (sole : Sole layout machine.memory.freelist machine.curproc.pgdir) :
    Outcome (fun fault => fault = .nullEntry ∧ NullArgument files machine.memory path argv)
      (fun result => ¬ NullArgument files machine.memory path argv ∧
        (¬ Accepts files machine.memory path argv ∧
            Failed machine.memory machine.curproc (machine.calls ++ fsCalls files path) result ∨
          Accepts files machine.memory path argv ∧
            Runs layout files machine path argv result))
      (exec layout files machine path argv) := by
  unfold exec
  cases isFile : files path with
  | none =>
      have noFile : ∀ property : Nat → Prop, ¬ ∃ content size image, files path = some content ∧
          fileImage content = some (size, image) ∧ property size := by
        rintro property ⟨content, size, image, isContent, -⟩
        rw [isFile] at isContent
        cases isContent
      refine ⟨noFile _, Or.inl ⟨noFile _, rfl, GivenBack.refl _, rfl, ?_⟩⟩
      · rw [fsCalls, isFile]
        rfl
  | some content =>
      have calls : machine.calls ++ fsCalls files path =
          (machine.did [.beginOp, .namei, .ilock]).calls ++ releases true := by
        rw [fsCalls, isFile, if_pos (Option.isSome_some)]
        exact (List.append_assoc machine.calls [.beginOp, .namei, .ilock] [.iunlockput, .endOp]).symm
      have isRun : ∀ result, Runs layout files machine path argv result ↔
          ∃ elf size image, readElfhdr content = some elf ∧
            fileImage content = some (size, image) ∧
            Entered layout machine.memory machine.curproc
              ((machine.did [.beginOp, .namei, .ilock]).calls ++ releases true) path argv elf.entry
              size image result := by
        intro result
        unfold Runs
        rw [calls, isFile]
        constructor
        · rintro ⟨_, elf, size, image, ⟨⟩, entered⟩
          exact ⟨elf, size, image, entered⟩
        · rintro ⟨elf, size, image, entered⟩
          exact ⟨content, elf, size, image, rfl, entered⟩
      simp only [NullArgument, Accepts, exists_content isFile, isRun, calls]
      have refused : (∀ size image, fileImage content = some (size, image) →
          ¬ HasStack machine.memory size) →
          (¬ ∃ size image, fileImage content = some (size, image) ∧
              WrapsToGap machine.memory size argv) ∧
            ¬ ∃ size image, fileImage content = some (size, image) ∧
              HasRoom machine.memory size argv := by
        intro noStack
        constructor
        · rintro ⟨size, image, isImage, gap⟩
          exact noStack size image isImage gap.1
        · rintro ⟨size, image, isImage, hasRoom⟩
          exact noStack size image isImage hasRoom.1
      cases isHeader : readElfhdr content with
      | none =>
          apply (@bad_none layout machine.memory (machine.did [.beginOp, .namei, .ilock]) true
            (GivenBack.refl _)).mono (fun _ => False.elim)
          intro result isFailed
          have noStack := refused fun size image isImage => by
            rw [fileImage, isHeader] at isImage
            cases isImage
          exact ⟨noStack.1, Or.inl ⟨noStack.2, isFailed⟩⟩
      | some elf =>
          have isAsked : fileImage content = imageOf content elf.phnum elf.phoff 0 fun _ => 0 := by
            rw [fileImage, isHeader]
            rfl
          have noPages : pagesBelow 0 = 0 := by decide
          simp only
          apply Outcome.bind ((panics_spec (setupkvm_image bounded)).mono (fun _ => False.elim)
            fun _ same => same)
          rintro ⟨pgdir, memory1⟩ isSetup
          cases pgdir with
          | none =>
              obtain ⟨given, tooFew⟩ := isSetup
              simp only at given ⊢
              apply (@bad_none layout machine.memory
                ((machine.did [.beginOp, .namei, .ilock]).setMemory memory1) true given).mono
                (fun _ => False.elim)
              intro result isFailed
              have noStack := refused fun size image _ hasStack => by
                have enough := hasStack.2
                unfold Image.Enough at enough
                omega
              exact ⟨noStack.1, Or.inl ⟨noStack.2, isFailed⟩⟩
          | some base =>
              obtain ⟨isBase, rest, isEq⟩ := isSetup
              simp only at isBase ⊢
              rw [← noPages] at isBase
              apply Outcome.bind ((loadSegments_spec bounded elf.phnum isBase (by decide)).mono
                (fun _ => False.elim) fun _ same => same)
              rintro ⟨size, memory2, dir2⟩ segments
              rw [← isAsked] at segments
              have holds := segments.holds
              simp only at holds ⊢
              by_cases loads : ∃ last image, fileImage content = some (last, image) ∧
                  Image.Enough machine.memory (pagesBelow last)
              · obtain ⟨last, image, isImage, enough⟩ := loads
                obtain ⟨isSize, user, isLoaded⟩ := segments.loaded last image isImage enough
                simp only at isSize isLoaded
                subst isSize
                have ofImage : ∀ property : Nat → Prop,
                    (∃ size image', fileImage content = some (size, image') ∧ property size) ↔
                      property last := by
                  intro property
                  rw [isImage]
                  constructor
                  · rintro ⟨_, _, ⟨⟩, holds⟩
                    exact holds
                  · exact fun holds => ⟨last, image, rfl, holds⟩
                rw [ofImage (WrapsToGap machine.memory · argv), ofImage (HasRoom machine.memory · argv)]
                simp only
                apply (@enter_released layout machine.memory memory2
                  (machine.did [.beginOp, .namei, .ilock]) base dir2 image argv path last elf.entry
                  rest bounded sole isLoaded user isEq).mono fun _ same => same
                rintro result ⟨noGap, isFailed | ⟨hasRoom, isEntered⟩⟩
                · exact ⟨noGap, Or.inl isFailed⟩
                · exact ⟨noGap, Or.inr ⟨hasRoom, elf, last, image, rfl, isImage, isEntered⟩⟩
              · have isNone : size = none := by
                  apply segments.failed
                  intro last image isImage enough
                  exact loads ⟨last, image, isImage, enough⟩
                subst isNone
                simp only
                apply (@bad_some layout machine.memory
                  ((machine.did [.beginOp, .namei, .ilock]).setMemory memory2) dir2 true holds
                  bounded).mono (fun _ => False.elim)
                intro result isFailed
                have noStack := refused fun last image isImage hasStack =>
                  loads ⟨last, image, isImage, HasStack.loaded hasStack⟩
                exact ⟨noStack.1, Or.inl ⟨noStack.2, isFailed⟩⟩

end Coursework.Exec
