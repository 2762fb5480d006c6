import Coursework.KernelParam
import Mathlib.Logic.Function.Basic
import Mathlib.Data.List.FinRange

/-!
# Physical pages and page tables

The page allocator of `kalloc.c` and the page tables of `vm.c`.  Physical memory
is a set of numbered pages.  A page directory is a page that lists page-table
pages, and a page table is a page that lists pages; the model keeps them as trees
whose nodes carry the number of their page.  Addresses are given by their page
number wherever the code uses whole pages only.

A panic ends the machine.  `kfree` has no check for a page that is free already;
here that is a panic of its own.
-/

namespace Coursework.Paging

/-- The number of a page of physical memory. -/
abbrev Frame := Nat

def PGSIZE : Nat := 4096

/-- First kernel virtual address. -/
def KERNBASE : Nat := 0x80000000

/-- Start of extended memory. -/
def EXTMEM : Nat := 0x100000

/-- Top of physical memory. -/
def PHYSTOP : Nat := 0xE000000

/-- Other devices are at high addresses. -/
def DEVSPACE : Nat := 0xFE000000

/-- Entries in a page directory or a page table. -/
def NPDENTRIES : Nat := 1024

def PGROUNDUP (sz : Nat) : Nat := (sz + PGSIZE - 1) / PGSIZE * PGSIZE

/-- The number of pages below an address. -/
def pagesBelow (sz : Nat) : Nat := (sz + PGSIZE - 1) / PGSIZE

/-- The pages of the address space that users have. -/
def USERPAGES : Nat := KERNBASE / PGSIZE

/-- The pages of the address space. -/
def ALLPAGES : Nat := UINT / PGSIZE

/-- Where the linker puts the kernel: the physical pages of `data` and `end`. -/
structure Layout where
  data : Nat
  kend : Nat
  aboveText : EXTMEM / PGSIZE < data
  aboveData : data < kend
  belowTop : kend < PHYSTOP / PGSIZE

inductive Panic where
  | kfree
  | doubleFree
  | remap
  | pteShouldExist
  | pageNotPresent
  | loaduvm
  | clearpteu
  | initExiting
  deriving DecidableEq

structure Pte where
  frame : Frame
  writable : Bool
  user : Bool

structure Table where
  frame : Frame
  ptes : Fin NPDENTRIES → Option Pte

structure Dir where
  frame : Frame
  pdes : Fin NPDENTRIES → Option Table

/-! ## The allocator -/

/-- `kmem.freelist`. -/
abbrev Freelist := List Frame

def kalloc : Freelist → Option (Frame × Freelist)
  | [] => none
  | frame :: rest => some (frame, rest)

def kfree (layout : Layout) (freelist : Freelist) (frame : Frame) : Except Panic Freelist :=
  if frame < layout.kend ∨ PHYSTOP / PGSIZE ≤ frame then .error .kfree
  else if frame ∈ freelist then .error .doubleFree
  else .ok (frame :: freelist)

/-! ## Entries -/

def PDX (page : Nat) : Fin NPDENTRIES := ⟨page / NPDENTRIES % NPDENTRIES, Nat.mod_lt _ (by decide)⟩

def PTX (page : Nat) : Fin NPDENTRIES := ⟨page % NPDENTRIES, Nat.mod_lt _ (by decide)⟩

namespace Dir

/-- The page table of an address, as `walkpgdir` finds it without allocating. -/
def table (dir : Dir) (page : Nat) : Option Table := dir.pdes (PDX page)

/-- The entry of an address, if it is present. -/
def pte (dir : Dir) (page : Nat) : Option Pte :=
  (dir.table page).bind fun table => table.ptes (PTX page)

def setPte (dir : Dir) (page : Nat) (pte : Option Pte) : Dir :=
  match dir.table page with
  | none => dir
  | some table =>
      { dir with
        pdes := Function.update dir.pdes (PDX page)
          (some { table with ptes := Function.update table.ptes (PTX page) pte }) }

end Dir

/-- `walkpgdir` that allocates a missing page table. -/
def walkpgdir (freelist : Freelist) (dir : Dir) (page : Nat) : Option (Freelist × Dir) :=
  match dir.table page with
  | some _ => some (freelist, dir)
  | none =>
      match kalloc freelist with
      | none => none
      | some (frame, freelist) =>
          some (freelist, { dir with
            pdes := Function.update dir.pdes (PDX page) (some ⟨frame, fun _ => none⟩) })

/-- `mappages` for one page; the first result is false if it fails. -/
def mappage (freelist : Freelist) (dir : Dir) (page : Nat) (pte : Pte) :
    Except Panic (Bool × Freelist × Dir) :=
  match walkpgdir freelist dir page with
  | none => .ok (false, freelist, dir)
  | some (freelist, dir) =>
      if (dir.pte page).isSome then .error .remap
      else .ok (true, freelist, dir.setPte page (some pte))

/-- `mappages` for a number of pages. -/
def mappages : Nat → Freelist → Dir → Nat → Pte → Except Panic (Bool × Freelist × Dir)
  | 0, freelist, dir, _, _ => .ok (true, freelist, dir)
  | count + 1, freelist, dir, page, pte => do
      let (mapped, freelist, dir) ← mappage freelist dir page pte
      if mapped then
        mappages count freelist dir (page + 1) { pte with frame := pte.frame + 1 }
      else .ok (false, freelist, dir)

/-! ## User pages -/

/-- The loop of `deallocuvm`. -/
def deallocLoop (layout : Layout) :
    Nat → Freelist → Dir → Nat → Nat → Except Panic (Freelist × Dir)
  | 0, freelist, dir, _, _ => .ok (freelist, dir)
  | rounds + 1, freelist, dir, page, stop =>
      if page < stop then
        match dir.table page with
        | none =>
            deallocLoop layout rounds freelist dir ((page / NPDENTRIES + 1) * NPDENTRIES) stop
        | some table =>
            match table.ptes (PTX page) with
            | none => deallocLoop layout rounds freelist dir (page + 1) stop
            | some pte =>
                if pte.frame = 0 then .error .kfree
                else do
                  let freelist ← kfree layout freelist pte.frame
                  deallocLoop layout rounds freelist (dir.setPte page none) (page + 1) stop
      else .ok (freelist, dir)

def deallocuvm (layout : Layout) (freelist : Freelist) (dir : Dir) (oldsz newsz : Nat) :
    Except Panic (Nat × Freelist × Dir) :=
  if oldsz ≤ newsz then .ok (oldsz, freelist, dir)
  else do
    let (freelist, dir) ← deallocLoop layout (pagesBelow oldsz) freelist dir (pagesBelow newsz)
      (pagesBelow oldsz)
    return (newsz, freelist, dir)

/-- The loop of `allocuvm` over a number of pages. -/
def allocLoop (layout : Layout) (oldsz newsz : Nat) :
    Nat → Freelist → Dir → Nat → Except Panic (Nat × Freelist × Dir)
  | 0, freelist, dir, _ => .ok (newsz, freelist, dir)
  | count + 1, freelist, dir, page =>
      match kalloc freelist with
      | none => do
          let (_, freelist, dir) ← deallocuvm layout freelist dir newsz oldsz
          return (0, freelist, dir)
      | some (mem, freelist) => do
          let (mapped, freelist, dir) ← mappage freelist dir page ⟨mem, true, true⟩
          if mapped then allocLoop layout oldsz newsz count freelist dir (page + 1)
          else do
            let (_, freelist, dir) ← deallocuvm layout freelist dir newsz oldsz
            let freelist ← kfree layout freelist mem
            return (0, freelist, dir)

/-- `allocuvm`: the new size, or zero on error. -/
def allocuvm (layout : Layout) (freelist : Freelist) (dir : Dir) (oldsz newsz : Nat) :
    Except Panic (Nat × Freelist × Dir) :=
  if KERNBASE ≤ newsz then .ok (0, freelist, dir)
  else if newsz < oldsz then .ok (oldsz, freelist, dir)
  else allocLoop layout oldsz newsz (pagesBelow newsz - pagesBelow oldsz) freelist dir
    (pagesBelow oldsz)

/-- The loop of `freevm` over the page directory. -/
def freeTables (layout : Layout) (dir : Dir) :
    List (Fin NPDENTRIES) → Freelist → Except Panic Freelist
  | [], freelist => .ok freelist
  | index :: rest, freelist =>
      match dir.pdes index with
      | none => freeTables layout dir rest freelist
      | some table => do
          let freelist ← kfree layout freelist table.frame
          freeTables layout dir rest freelist

def freevm (layout : Layout) (freelist : Freelist) (dir : Dir) : Except Panic Freelist := do
  let (_, freelist, dir) ← deallocuvm layout freelist dir KERNBASE 0
  let freelist ← freeTables layout dir (List.finRange NPDENTRIES) freelist
  kfree layout freelist dir.frame

/-! ## The kernel's part -/

/-- A line of `kmap`, in pages. -/
structure Kmap where
  virt : Nat
  physStart : Nat
  physEnd : Nat
  writable : Bool

def kmap (layout : Layout) : List Kmap :=
  [⟨KERNBASE / PGSIZE, 0, EXTMEM / PGSIZE, true⟩,
    ⟨(KERNBASE + EXTMEM) / PGSIZE, EXTMEM / PGSIZE, layout.data, false⟩,
    ⟨KERNBASE / PGSIZE + layout.data, layout.data, PHYSTOP / PGSIZE, true⟩,
    ⟨DEVSPACE / PGSIZE, DEVSPACE / PGSIZE, ALLPAGES, true⟩]

/-- The loop of `setupkvm` over `kmap`. -/
def mapKernel : List Kmap → Freelist → Dir → Except Panic (Bool × Freelist × Dir)
  | [], freelist, dir => .ok (true, freelist, dir)
  | k :: rest, freelist, dir => do
      let (mapped, freelist, dir) ← mappages (k.physEnd - k.physStart) freelist dir k.virt
        ⟨k.physStart, k.writable, false⟩
      if mapped then mapKernel rest freelist dir else .ok (false, freelist, dir)

def setupkvm (layout : Layout) (freelist : Freelist) : Except Panic (Option Dir × Freelist) :=
  match kalloc freelist with
  | none => .ok (none, freelist)
  | some (frame, freelist) => do
      let (mapped, freelist, dir) ← mapKernel (kmap layout) freelist ⟨frame, fun _ => none⟩
      if mapped then .ok (some dir, freelist)
      else do
        let freelist ← freevm layout freelist dir
        return (none, freelist)

/-- The loop of `copyuvm` over a number of pages; the first result is false if it
fails. -/
def copyLoop (source : Dir) : Nat → Freelist → Dir → Nat → Except Panic (Bool × Freelist × Dir)
  | 0, freelist, dir, _ => .ok (true, freelist, dir)
  | count + 1, freelist, dir, page =>
      match source.table page with
      | none => .error .pteShouldExist
      | some table =>
          match table.ptes (PTX page) with
          | none => .error .pageNotPresent
          | some pte =>
              match kalloc freelist with
              | none => .ok (false, freelist, dir)
              | some (mem, freelist) => do
                  let (mapped, freelist, dir) ←
                    mappage freelist dir page { pte with frame := mem }
                  if mapped then copyLoop source count freelist dir (page + 1)
                  else .ok (false, freelist, dir)

def copyuvm (layout : Layout) (freelist : Freelist) (source : Dir) (sz : Nat) :
    Except Panic (Option Dir × Freelist) := do
  let (copy, freelist) ← setupkvm layout freelist
  match copy with
  | none => .ok (none, freelist)
  | some dir => do
      let (copied, freelist, dir) ← copyLoop source (pagesBelow sz) freelist dir 0
      if copied then .ok (some dir, freelist)
      else do
        let freelist ← freevm layout freelist dir
        return (none, freelist)

/-- `clearpteu`. -/
def clearpteu (dir : Dir) (page : Nat) : Except Panic Dir :=
  match dir.table page with
  | none => .error .clearpteu
  | some table =>
      .ok (dir.setPte page ((table.ptes (PTX page)).map fun pte => { pte with user := false }))

/-- The loop of `loaduvm` over a number of pages, with the results of its reads. -/
def loadLoop (dir : Dir) (reads : Nat → Bool) : Nat → Nat → Except Panic Bool
  | 0, _ => .ok true
  | count + 1, page =>
      match dir.table page with
      | none => .error .loaduvm
      | some _ => if reads page then loadLoop dir reads count (page + 1) else .ok false

end Coursework.Paging
