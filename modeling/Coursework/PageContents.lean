import Coursework.ByteMemory
import Coursework.PageAccounts

/-!
# The contents of pages

Physical memory with its bytes, and the operations of `vm.c` on it.  `kfree` fills a
page with junk, `allocuvm` clears the pages that it maps and `copyuvm` copies them.  The
bytes of page directories and page tables are in the trees; the links of the free list
are in the list.

Without the bytes these are the operations on page numbers, so that what those say about
entries and accounts holds here too.  Besides, an operation leaves alone the bytes of the
pages that are on the free list neither before nor after it.
-/

namespace Coursework.Paging

/-- The free list and the bytes of physical memory. -/
structure Memory where
  freelist : Freelist
  ram : ByteMemory

/-- The address of a page. -/
def pageStart (frame : Frame) : Nat := frame * PGSIZE

namespace Memory

def kalloc (memory : Memory) : Option (Frame × Memory) :=
  match Paging.kalloc memory.freelist with
  | none => none
  | some (frame, freelist) => some (frame, { memory with freelist := freelist })

/-- `kfree` with `memset(v, 1, PGSIZE)`. -/
def kfree (layout : Layout) (memory : Memory) (frame : Frame) : Except Panic Memory := do
  let freelist ← Paging.kfree layout memory.freelist frame
  return ⟨freelist, memory.ram.fill (pageStart frame) PGSIZE 1⟩

def mappage (memory : Memory) (dir : Dir) (page : Nat) (pte : Pte) :
    Except Panic (Bool × Memory × Dir) := do
  let (mapped, freelist, dir) ← Paging.mappage memory.freelist dir page pte
  return (mapped, { memory with freelist := freelist }, dir)

/-- The loop of `deallocuvm`. -/
def deallocLoop (layout : Layout) :
    Nat → Memory → Dir → Nat → Nat → Except Panic (Memory × Dir)
  | 0, memory, dir, _, _ => .ok (memory, dir)
  | rounds + 1, memory, dir, page, stop =>
      if page < stop then
        match dir.table page with
        | none =>
            deallocLoop layout rounds memory dir ((page / NPDENTRIES + 1) * NPDENTRIES) stop
        | some table =>
            match table.ptes (PTX page) with
            | none => deallocLoop layout rounds memory dir (page + 1) stop
            | some pte =>
                if pte.frame = 0 then .error .kfree
                else do
                  let memory ← kfree layout memory pte.frame
                  deallocLoop layout rounds memory (dir.setPte page none) (page + 1) stop
      else .ok (memory, dir)

def deallocuvm (layout : Layout) (memory : Memory) (dir : Dir) (oldsz newsz : Nat) :
    Except Panic (Nat × Memory × Dir) :=
  if oldsz ≤ newsz then .ok (oldsz, memory, dir)
  else do
    let (memory, dir) ← deallocLoop layout (pagesBelow oldsz) memory dir (pagesBelow newsz)
      (pagesBelow oldsz)
    return (newsz, memory, dir)

/-- `memset(mem, 0, PGSIZE)`. -/
def clear (memory : Memory) (frame : Frame) : Memory :=
  { memory with ram := memory.ram.fill (pageStart frame) PGSIZE 0 }

/-- The loop of `allocuvm` over a number of pages. -/
def allocLoop (layout : Layout) (oldsz newsz : Nat) :
    Nat → Memory → Dir → Nat → Except Panic (Nat × Memory × Dir)
  | 0, memory, dir, _ => .ok (newsz, memory, dir)
  | count + 1, memory, dir, page =>
      match memory.kalloc with
      | none => do
          let (_, memory, dir) ← deallocuvm layout memory dir newsz oldsz
          return (0, memory, dir)
      | some (mem, memory) => do
          let (mapped, memory, dir) ← (memory.clear mem).mappage dir page ⟨mem, true, true⟩
          if mapped then allocLoop layout oldsz newsz count memory dir (page + 1)
          else do
            let (_, memory, dir) ← deallocuvm layout memory dir newsz oldsz
            let memory ← kfree layout memory mem
            return (0, memory, dir)

/-- `allocuvm`: the new size, or zero on error. -/
def allocuvm (layout : Layout) (memory : Memory) (dir : Dir) (oldsz newsz : Nat) :
    Except Panic (Nat × Memory × Dir) :=
  if KERNBASE ≤ newsz then .ok (0, memory, dir)
  else if newsz < oldsz then .ok (oldsz, memory, dir)
  else allocLoop layout oldsz newsz (pagesBelow newsz - pagesBelow oldsz) memory dir
    (pagesBelow oldsz)

/-- The loop of `freevm` over the page directory. -/
def freeTables (layout : Layout) (dir : Dir) :
    List (Fin NPDENTRIES) → Memory → Except Panic Memory
  | [], memory => .ok memory
  | index :: rest, memory =>
      match dir.pdes index with
      | none => freeTables layout dir rest memory
      | some table => do
          let memory ← kfree layout memory table.frame
          freeTables layout dir rest memory

def freevm (layout : Layout) (memory : Memory) (dir : Dir) : Except Panic Memory := do
  let (_, memory, dir) ← deallocuvm layout memory dir KERNBASE 0
  let memory ← freeTables layout dir (List.finRange NPDENTRIES) memory
  kfree layout memory dir.frame

def setupkvm (layout : Layout) (memory : Memory) : Except Panic (Option Dir × Memory) :=
  match memory.kalloc with
  | none => .ok (none, memory)
  | some (frame, memory) => do
      let (mapped, freelist, dir) ←
        mapKernel (kmap layout) memory.freelist ⟨frame, fun _ => none⟩
      let memory : Memory := { memory with freelist := freelist }
      if mapped then .ok (some dir, memory)
      else do
        let memory ← freevm layout memory dir
        return (none, memory)

/-- `memmove(mem, (char*)P2V(pa), PGSIZE)`. -/
def copyPage (memory : Memory) (mem source : Frame) : Memory :=
  { memory with
    ram := memory.ram.store (pageStart mem) (memory.ram.load (pageStart source) PGSIZE) }

/-- The loop of `copyuvm` over a number of pages; the first result is false if it
fails. -/
def copyLoop (source : Dir) : Nat → Memory → Dir → Nat → Except Panic (Bool × Memory × Dir)
  | 0, memory, dir, _ => .ok (true, memory, dir)
  | count + 1, memory, dir, page =>
      match source.table page with
      | none => .error .pteShouldExist
      | some table =>
          match table.ptes (PTX page) with
          | none => .error .pageNotPresent
          | some pte =>
              match memory.kalloc with
              | none => .ok (false, memory, dir)
              | some (mem, memory) => do
                  let (mapped, memory, dir) ←
                    (memory.copyPage mem pte.frame).mappage dir page { pte with frame := mem }
                  if mapped then copyLoop source count memory dir (page + 1)
                  else .ok (false, memory, dir)

def copyuvm (layout : Layout) (memory : Memory) (source : Dir) (sz : Nat) :
    Except Panic (Option Dir × Memory) := do
  let (copy, memory) ← setupkvm layout memory
  match copy with
  | none => .ok (none, memory)
  | some dir => do
      let (copied, memory, dir) ← copyLoop source (pagesBelow sz) memory dir 0
      if copied then .ok (some dir, memory)
      else do
        let memory ← freevm layout memory dir
        return (none, memory)

/-! ## Without the bytes -/

variable {layout : Layout} {memory after : Memory} {dir : Dir} {page : Nat}

theorem kalloc_forget (memory : Memory) :
    memory.kalloc.map (fun result => (result.1, result.2.freelist)) =
      Paging.kalloc memory.freelist := by
  unfold kalloc
  split
  · next exhausted => rw [exhausted]; rfl
  · next frame freelist allocated => rw [allocated]; rfl

theorem kfree_forget (layout : Layout) (memory : Memory) (frame : Frame) :
    (kfree layout memory frame).map Memory.freelist =
      Paging.kfree layout memory.freelist frame := by
  unfold kfree
  cases Paging.kfree layout memory.freelist frame <;> rfl

/-- A result with the free list only. -/
def forget {Value : Type} (result : Value × Memory × Dir) : Value × Freelist × Dir :=
  (result.1, result.2.1.freelist, result.2.2)

theorem mappage_forget (memory : Memory) (dir : Dir) (page : Nat) (pte : Pte) :
    (memory.mappage dir page pte).map forget = Paging.mappage memory.freelist dir page pte := by
  unfold mappage
  cases Paging.mappage memory.freelist dir page pte <;> rfl

theorem deallocLoop_forget (layout : Layout) (rounds : Nat) (memory : Memory) (dir : Dir)
    (page stop : Nat) :
    (deallocLoop layout rounds memory dir page stop).map
        (fun result => (result.1.freelist, result.2)) =
      Paging.deallocLoop layout rounds memory.freelist dir page stop := by
  induction rounds generalizing memory dir page with
  | zero => rfl
  | succ rounds ih =>
      rw [deallocLoop, Paging.deallocLoop]
      by_cases below : page < stop
      · rw [if_pos below, if_pos below]
        cases here : dir.table page with
        | none => exact ih memory dir _
        | some table =>
            cases present : table.ptes (PTX page) with
            | none => simpa only [present] using ih memory dir _
            | some pte =>
                simp only [present]
                split
                · rfl
                · exact Outcome.map_bind (kfree_forget layout memory pte.frame)
                    fun memory => ih memory _ _
      · rw [if_neg below, if_neg below]
        rfl

theorem deallocuvm_forget (layout : Layout) (memory : Memory) (dir : Dir) (oldsz newsz : Nat) :
    (deallocuvm layout memory dir oldsz newsz).map forget =
      Paging.deallocuvm layout memory.freelist dir oldsz newsz := by
  unfold deallocuvm Paging.deallocuvm
  split
  · rfl
  · exact Outcome.map_bind (deallocLoop_forget layout _ memory dir _ _) fun _ => rfl

theorem allocLoop_forget (layout : Layout) (oldsz newsz count : Nat) (memory : Memory)
    (dir : Dir) (page : Nat) :
    (allocLoop layout oldsz newsz count memory dir page).map forget =
      Paging.allocLoop layout oldsz newsz count memory.freelist dir page := by
  induction count generalizing memory dir page with
  | zero => rfl
  | succ count ih =>
      unfold allocLoop Paging.allocLoop
      rw [← kalloc_forget]
      cases memory.kalloc with
      | none =>
          exact Outcome.map_bind (deallocuvm_forget layout memory dir newsz oldsz) fun _ => rfl
      | some allocated =>
          obtain ⟨mem, rest⟩ := allocated
          apply Outcome.map_bind (mappage_forget (rest.clear mem) dir page _)
          rintro ⟨mapped, memory1, dir1⟩
          cases mapped with
          | true => exact ih memory1 dir1 (page + 1)
          | false =>
              apply Outcome.map_bind (deallocuvm_forget layout memory1 dir1 newsz oldsz)
              rintro ⟨size, memory2, dir2⟩
              exact Outcome.map_bind (kfree_forget layout memory2 mem) fun _ => rfl

theorem allocuvm_forget (layout : Layout) (memory : Memory) (dir : Dir) (oldsz newsz : Nat) :
    (allocuvm layout memory dir oldsz newsz).map forget =
      Paging.allocuvm layout memory.freelist dir oldsz newsz := by
  unfold allocuvm Paging.allocuvm
  split
  · rfl
  · split
    · rfl
    · exact allocLoop_forget layout oldsz newsz _ memory dir _

theorem freeTables_forget (layout : Layout) (dir : Dir) (indices : List (Fin NPDENTRIES))
    (memory : Memory) :
    (freeTables layout dir indices memory).map Memory.freelist =
      Paging.freeTables layout dir indices memory.freelist := by
  induction indices generalizing memory with
  | nil => rfl
  | cons index rest ih =>
      rw [freeTables, Paging.freeTables]
      cases dir.pdes index with
      | none => exact ih memory
      | some table =>
          exact Outcome.map_bind (kfree_forget layout memory table.frame) fun memory => ih memory

theorem freevm_forget (layout : Layout) (memory : Memory) (dir : Dir) :
    (freevm layout memory dir).map Memory.freelist =
      Paging.freevm layout memory.freelist dir := by
  apply Outcome.map_bind (deallocuvm_forget layout memory dir KERNBASE 0)
  rintro ⟨size, memory1, dir1⟩
  exact Outcome.map_bind (freeTables_forget layout dir1 _ memory1)
    fun memory2 => kfree_forget layout memory2 dir1.frame

/-- A page directory, if there is one, and the free list. -/
def forgetDir (result : Option Dir × Memory) : Option Dir × Freelist :=
  (result.1, result.2.freelist)

theorem setupkvm_forget (layout : Layout) (memory : Memory) :
    (setupkvm layout memory).map forgetDir = Paging.setupkvm layout memory.freelist := by
  unfold setupkvm Paging.setupkvm
  rw [← kalloc_forget]
  cases memory.kalloc with
  | none => rfl
  | some allocated =>
      obtain ⟨frame, rest⟩ := allocated
      apply Outcome.map_bind (congrFun Except.map_id (mapKernel (kmap layout) rest.freelist _))
      rintro ⟨mapped, freelist, dir⟩
      cases mapped with
      | true => rfl
      | false => exact Outcome.map_bind (freevm_forget layout _ dir) fun _ => rfl

theorem copyLoop_forget (source : Dir) (count : Nat) (memory : Memory) (dir : Dir)
    (page : Nat) :
    (copyLoop source count memory dir page).map forget =
      Paging.copyLoop source count memory.freelist dir page := by
  induction count generalizing memory dir page with
  | zero => rfl
  | succ count ih =>
      rw [copyLoop, Paging.copyLoop]
      cases source.table page with
      | none => rfl
      | some table =>
          simp only
          cases table.ptes (PTX page) with
          | none => rfl
          | some pte =>
              simp only
              rw [← kalloc_forget]
              cases memory.kalloc with
              | none => rfl
              | some allocated =>
                  obtain ⟨mem, rest⟩ := allocated
                  apply Outcome.map_bind (mappage_forget (rest.copyPage mem pte.frame) dir page _)
                  rintro ⟨mapped, memory1, dir1⟩
                  cases mapped with
                  | true => exact ih memory1 dir1 (page + 1)
                  | false => rfl

theorem copyuvm_forget (layout : Layout) (memory : Memory) (source : Dir) (sz : Nat) :
    (copyuvm layout memory source sz).map forgetDir =
      Paging.copyuvm layout memory.freelist source sz := by
  apply Outcome.map_bind (setupkvm_forget layout memory)
  rintro ⟨copy, memory1⟩
  cases copy with
  | none => rfl
  | some dir =>
      apply Outcome.map_bind (copyLoop_forget source (pagesBelow sz) memory1 dir 0)
      rintro ⟨copied, memory2, dir2⟩
      cases copied with
      | true => rfl
      | false => exact Outcome.map_bind (freevm_forget layout memory2 dir2) fun _ => rfl

/-! ## Bytes that stay -/

theorem pages_disjoint {first second offset : Nat} (distinct : first ≠ second)
    (inside : offset < PGSIZE) :
    pageStart first + offset < pageStart second ∨
      pageStart second + PGSIZE ≤ pageStart first + offset := by
  simp only [pageStart, PGSIZE] at *
  omega

/-- A page has the bytes that it had. -/
def SamePage (before after : ByteMemory) (frame : Frame) : Prop :=
  ∀ offset < PGSIZE, after (pageStart frame + offset) = before (pageStart frame + offset)

theorem SamePage.trans {first second third : ByteMemory} {frame : Frame}
    (start : SamePage first second frame) (rest : SamePage second third frame) :
    SamePage first third frame :=
  fun offset inside => (rest offset inside).trans (start offset inside)

theorem samePage_fill (ram : ByteMemory) {frame other : Frame} (distinct : frame ≠ other)
    (value : UInt8) : SamePage ram (ram.fill (pageStart other) PGSIZE value) frame :=
  fun _ inside => ByteMemory.fill_outside (pages_disjoint distinct inside)

theorem samePage_store (ram : ByteMemory) {frame other : Frame} (distinct : frame ≠ other)
    {start : Nat} {bytes : List UInt8} (lower : pageStart other ≤ start)
    (upper : start + bytes.length ≤ pageStart other + PGSIZE) :
    SamePage ram (ram.store start bytes) frame := by
  intro offset inside
  have disjoint := pages_disjoint distinct inside
  exact ByteMemory.store_outside (by omega)

/-- The pages that are free neither before nor after have the bytes that they had. -/
def Keeps (before after : Memory) : Prop :=
  ∀ frame, frame ∉ before.freelist → frame ∉ after.freelist →
    SamePage before.ram after.ram frame

theorem Keeps.refl (memory : Memory) : Keeps memory memory := fun _ _ _ _ _ => rfl

/-- After pages were taken. -/
theorem Keeps.taken {first second third : Memory} (start : Keeps first second)
    (fewer : second.freelist ⊆ first.freelist) (rest : Keeps second third) :
    Keeps first third := by
  intro frame notBefore notAfter
  have notBetween : frame ∉ second.freelist := fun member => notBefore (fewer member)
  exact (start frame notBefore notBetween).trans (rest frame notBetween notAfter)

/-- Before pages are given back. -/
theorem Keeps.given {first second third : Memory} (start : Keeps first second)
    (rest : Keeps second third) (more : second.freelist ⊆ third.freelist) :
    Keeps first third := by
  intro frame notBefore notAfter
  have notBetween : frame ∉ second.freelist := fun member => notAfter (more member)
  exact (start frame notBefore notBetween).trans (rest frame notBetween notAfter)

/-- An operation that takes pages. -/
def Takes (before after : Memory) : Prop :=
  after.freelist ⊆ before.freelist ∧ Keeps before after

/-- An operation that gives pages back. -/
def Gives (before after : Memory) : Prop :=
  before.freelist ⊆ after.freelist ∧ Keeps before after

theorem Takes.trans {first second third : Memory} (start : Takes first second)
    (rest : Takes second third) : Takes first third :=
  ⟨fun _ member => start.1 (rest.1 member), start.2.taken start.1 rest.2⟩

theorem Gives.trans {first second third : Memory} (start : Gives first second)
    (rest : Gives second third) : Gives first third :=
  ⟨fun _ member => rest.1 (start.1 member), start.2.given rest.2 rest.1⟩

theorem Takes.gives {first second third : Memory} (start : Takes first second)
    (rest : Gives second third) : Keeps first third :=
  start.2.taken start.1 rest.2

theorem Gives.refl (memory : Memory) : Gives memory memory :=
  ⟨List.Subset.refl _, Keeps.refl memory⟩

theorem Takes.refl (memory : Memory) : Takes memory memory :=
  ⟨List.Subset.refl _, Keeps.refl memory⟩

/-- A page that was just taken may be overwritten. -/
theorem takes_kalloc {mem : Frame} (allocated : memory.kalloc = some (mem, after)) :
    memory.freelist = mem :: after.freelist ∧ after.ram = memory.ram := by
  have forgotten := kalloc_forget memory
  rw [allocated] at forgotten
  refine ⟨kalloc_some forgotten.symm, ?_⟩
  unfold kalloc at allocated
  split at allocated
  · cases allocated
  · cases allocated
    rfl

theorem takes_written {mem : Frame} {ram : ByteMemory}
    (allocated : memory.kalloc = some (mem, after))
    (elsewhere : ∀ frame, frame ≠ mem → SamePage memory.ram ram frame) :
    Takes memory { after with ram := ram } := by
  obtain ⟨isList, -⟩ := takes_kalloc allocated
  refine ⟨?_, ?_⟩
  · rw [isList]
    exact List.subset_cons_self _ _
  · intro frame notBefore _
    apply elsewhere
    rintro rfl
    rw [isList] at notBefore
    exact notBefore List.mem_cons_self

theorem takes_clear {mem : Frame} (allocated : memory.kalloc = some (mem, after)) :
    Takes memory (after.clear mem) := by
  apply takes_written allocated
  intro frame distinct
  rw [(takes_kalloc allocated).2]
  exact samePage_fill _ distinct 0

theorem length_page (ram : ByteMemory) (frame : Frame) :
    (ram.load (pageStart frame) PGSIZE).length = PGSIZE :=
  ByteMemory.length_load

theorem takes_copyPage {mem : Frame} (source : Frame)
    (allocated : memory.kalloc = some (mem, after)) :
    Takes memory (after.copyPage mem source) := by
  apply takes_written allocated
  intro frame distinct
  rw [(takes_kalloc allocated).2]
  exact samePage_store _ distinct (le_refl _) (by rw [length_page])

theorem gives_kfree (memory : Memory) (frame : Frame) :
    Outcome (fun _ => True) (Gives memory) (kfree layout memory frame) := by
  unfold kfree Paging.kfree
  split
  · trivial
  · split
    · trivial
    · refine ⟨List.subset_cons_self _ _, ?_⟩
      intro other _ notAfter
      apply samePage_fill
      rintro rfl
      exact notAfter List.mem_cons_self

theorem walkpgdir_subset {freelist freelist' : Freelist} {dir' : Dir}
    (walked : walkpgdir freelist dir page = some (freelist', dir')) : freelist' ⊆ freelist := by
  unfold walkpgdir at walked
  split at walked
  · cases walked
    exact List.Subset.refl _
  · split at walked
    · cases walked
    · next frame rest allocated =>
        cases walked
        rw [kalloc_some allocated]
        exact List.subset_cons_self _ _

theorem mappage_subset (freelist : Freelist) (dir : Dir) (page : Nat) (pte : Pte) :
    Outcome (fun _ => True) (fun result => result.2.1 ⊆ freelist)
      (Paging.mappage freelist dir page pte) := by
  unfold Paging.mappage
  split
  · exact List.Subset.refl _
  · next walked =>
      split
      · trivial
      · exact walkpgdir_subset walked

theorem mappages_subset (count : Nat) (freelist : Freelist) (dir : Dir) (page : Nat)
    (pte : Pte) :
    Outcome (fun _ => True) (fun result => result.2.1 ⊆ freelist)
      (mappages count freelist dir page pte) := by
  induction count generalizing freelist dir page pte with
  | zero => exact List.Subset.refl _
  | succ count ih =>
      apply Outcome.bind (mappage_subset freelist dir page pte)
      rintro ⟨mapped, freelist1, dir1⟩ fewer
      cases mapped with
      | false => exact fewer
      | true => exact (ih freelist1 dir1 _ _).mono (fun _ => id) fun _ rest => List.Subset.trans rest fewer

theorem mapKernel_subset (lines : List Kmap) (freelist : Freelist) (dir : Dir) :
    Outcome (fun _ => True) (fun result => result.2.1 ⊆ freelist)
      (mapKernel lines freelist dir) := by
  induction lines generalizing freelist dir with
  | nil => exact List.Subset.refl _
  | cons k rest ih =>
      apply Outcome.bind (mappages_subset _ freelist dir k.virt _)
      rintro ⟨mapped, freelist1, dir1⟩ fewer
      cases mapped with
      | false => exact fewer
      | true => exact (ih freelist1 dir1).mono (fun _ => id) fun _ rest => List.Subset.trans rest fewer

/-- Taking pages without writing to them. -/
theorem takes_of_subset {freelist : Freelist} (fewer : freelist ⊆ memory.freelist) :
    Takes memory { memory with freelist := freelist } :=
  ⟨fewer, fun _ _ _ _ _ => rfl⟩

theorem mappage_takes (memory : Memory) (dir : Dir) (page : Nat) (pte : Pte) :
    Outcome (fun _ => True) (fun result => Takes memory result.2.1 ∧
        result.2.1.ram = memory.ram) (memory.mappage dir page pte) := by
  unfold mappage
  apply Outcome.bind (mappage_subset memory.freelist dir page pte)
  rintro ⟨mapped, freelist1, dir1⟩ fewer
  exact ⟨takes_of_subset fewer, rfl⟩

theorem deallocLoop_gives (rounds : Nat) (memory : Memory) (dir : Dir) (page stop : Nat) :
    Outcome (fun _ => True) (fun result => Gives memory result.1)
      (deallocLoop layout rounds memory dir page stop) := by
  induction rounds generalizing memory dir page with
  | zero => exact Gives.refl memory
  | succ rounds ih =>
      unfold deallocLoop
      split
      · split
        · exact ih memory dir _
        · split
          · exact ih memory dir _
          · split
            · trivial
            · apply Outcome.bind (gives_kfree memory _)
              intro memory1 gives
              exact (ih memory1 _ _).mono (fun _ => id) fun _ rest => gives.trans rest
      · exact Gives.refl memory

theorem deallocuvm_gives (memory : Memory) (dir : Dir) (oldsz newsz : Nat) :
    Outcome (fun _ => True) (fun result => Gives memory result.2.1)
      (deallocuvm layout memory dir oldsz newsz) := by
  unfold deallocuvm
  split
  · exact Gives.refl memory
  · exact Outcome.bind (deallocLoop_gives _ memory dir _ _) fun _ gives => gives

theorem freeTables_gives (dir : Dir) (indices : List (Fin NPDENTRIES)) (memory : Memory) :
    Outcome (fun _ => True) (Gives memory) (freeTables layout dir indices memory) := by
  induction indices generalizing memory with
  | nil => exact Gives.refl memory
  | cons index rest ih =>
      unfold freeTables
      split
      · exact ih memory
      · apply Outcome.bind (gives_kfree memory _)
        intro memory1 gives
        exact (ih memory1).mono (fun _ => id) fun _ rest => gives.trans rest

theorem freevm_gives (memory : Memory) (dir : Dir) :
    Outcome (fun _ => True) (Gives memory) (freevm layout memory dir) := by
  apply Outcome.bind (deallocuvm_gives memory dir KERNBASE 0)
  rintro ⟨size, memory1, dir1⟩ first
  generalize List.finRange NPDENTRIES = indices
  apply Outcome.bind (freeTables_gives dir1 indices memory1)
  intro memory2 second
  exact (gives_kfree memory2 dir1.frame).mono (fun _ => id) fun _ third =>
    (first.trans second).trans third

theorem setupkvm_keeps (memory : Memory) :
    Outcome (fun _ => True)
      (fun result => Keeps memory result.2 ∧ (result.1.isSome = true → Takes memory result.2))
      (setupkvm layout memory) := by
  unfold setupkvm
  split
  · exact ⟨Keeps.refl memory, nofun⟩
  · next frame rest allocated =>
      obtain ⟨isList, sameRam⟩ := takes_kalloc allocated
      have first : Takes memory rest :=
        takes_written allocated fun _ _ _ _ => by rw [sameRam]
      apply Outcome.bind (mapKernel_subset (kmap layout) rest.freelist _)
      rintro ⟨mapped, freelist1, dir1⟩ fewer
      have second := first.trans (takes_of_subset fewer)
      cases mapped with
      | true => exact ⟨second.2, fun _ => second⟩
      | false =>
          apply Outcome.bind (freevm_gives _ dir1)
          intro memory2 gives
          exact ⟨second.gives gives, nofun⟩

end Memory

end Coursework.Paging
