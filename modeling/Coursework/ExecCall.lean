import Coursework.ProgramFiles
import Coursework.UserCopies

/-!
# exec

`exec` with the bytes of the file, of memory and of the arguments, and what it asks of
the file system: the transaction and the i-node.  There is one exit for what goes
wrong; it frees the page directory if there is one by then, and lets go of the i-node
if that is still held.

A string comes from `fetchstr`, so that it ends before the end of user memory.
-/

namespace Coursework.Exec

open Paging

/-- What `exec` asks of the file system. -/
inductive FsCall where
  | beginOp
  | namei
  | ilock
  | iunlockput
  | endOp
  deriving DecidableEq

/-- The fields of `struct proc` that `exec` uses. -/
structure Curproc where
  pgdir : Dir
  sz : Nat
  name : List UInt8
  priority : Nat
  eip : Nat
  esp : Nat

structure Machine where
  memory : Memory
  curproc : Curproc
  calls : List FsCall

/-- A string of the caller, without the byte that ends it. -/
structure CString where
  bytes : List UInt8
  noNul : 0 ∉ bytes
  short : bytes.length < KERNBASE

def MAXARG : Nat := 32

def Machine.did (machine : Machine) (calls : List FsCall) : Machine :=
  { machine with calls := machine.calls ++ calls }

def Machine.setMemory (machine : Machine) (memory : Memory) : Machine :=
  { machine with memory := memory }

/-- A computation that can only panic. -/
def panics {Value : Type} (computation : Except Panic Value) : Except Fault Value :=
  computation.mapError Fault.panic

/-! ## Loading -/

/-- The loop of `loaduvm` over a number of pages; the first result is false if a read is
short. -/
def loadPages (content : List UInt8) (dir : Dir) (addr offset sz : Nat) :
    Nat → Nat → ByteMemory → Except Fault (Bool × ByteMemory)
  | 0, _, ram => .ok (true, ram)
  | count + 1, i, ram =>
      let page := (addr + i) % UINT / PGSIZE
      match dir.table page with
      | none => .error (.panic .loaduvm)
      | some table =>
          match table.ptes (PTX page) with
          | none => .error .strayStore
          | some pte =>
              if USERPAGES ≤ page then .error .strayStore
              else
                let n := if sz - i < PGSIZE then sz - i else PGSIZE
                match readi content ((offset + i) % UINT) n with
                | none => .ok (false, ram)
                | some bytes =>
                    let ram := ram.store (pageStart pte.frame) bytes
                    if bytes.length ≠ n then .ok (false, ram)
                    else loadPages content dir addr offset sz count (i + PGSIZE) ram

def loaduvm (content : List UInt8) (dir : Dir) (ram : ByteMemory) (addr offset sz : Nat) :
    Except Fault (Bool × ByteMemory) :=
  if addr % PGSIZE ≠ 0 then .error .addrUnaligned
  else loadPages content dir addr offset sz (pagesBelow sz) 0 ram

/-- The loop over the program headers; no size is a jump to `bad`. -/
def loadSegments (layout : Layout) (content : List UInt8) :
    Nat → Nat → Memory → Dir → Nat → Except Fault (Option Nat × Memory × Dir)
  | 0, _, memory, dir, sz => .ok (some sz, memory, dir)
  | count + 1, off, memory, dir, sz =>
      let next := (off + proghdrSize) % UINT
      match readProghdr content off with
      | none => .ok (none, memory, dir)
      | some ph =>
          if ph.type ≠ ELF_PROG_LOAD then loadSegments layout content count next memory dir sz
          else if ph.memsz < ph.filesz then .ok (none, memory, dir)
          else if (ph.vaddr + ph.memsz) % UINT < ph.vaddr then .ok (none, memory, dir)
          else do
            let (sz, memory, dir) ←
              panics (Memory.allocuvm layout memory dir sz ((ph.vaddr + ph.memsz) % UINT))
            if sz = 0 then .ok (none, memory, dir)
            else if ph.vaddr % PGSIZE ≠ 0 then .ok (none, memory, dir)
            else do
              let (loaded, ram) ← loaduvm content dir memory.ram ph.vaddr ph.off ph.filesz
              let memory : Memory := { memory with ram := ram }
              if loaded then loadSegments layout content count next memory dir sz
              else .ok (none, memory, dir)

/-! ## The arguments -/

/-- The loop over the arguments: the stack pointer and the pointers to the strings, or a
jump to `bad`. -/
def pushArgs (dir : Dir) : List CString → Nat → List Nat → ByteMemory →
    Except Fault (Option (Nat × List Nat) × ByteMemory)
  | [], sp, pointers, ram => .ok (some (sp, pointers), ram)
  | arg :: rest, sp, pointers, ram =>
      if MAXARG ≤ pointers.length then .ok (none, ram)
      else do
        let sp := pushed sp arg.bytes.length
        let (returned, ram) ← copyout dir ram sp (arg.bytes ++ [0])
        if returned < 0 then .ok (none, ram)
        else pushArgs dir rest sp (pointers ++ [sp]) ram

/-- `ustack`: the return address, `argc`, `argv` and the pointers with the zero that ends
them. -/
def ustack (sp : Nat) (pointers : List Nat) : List Nat :=
  [0xffffffff, pointers.length, (sp + UINT - (pointers.length + 1) * 4) % UINT] ++
    (pointers ++ [0])

/-- The bytes of words. -/
def wordBytes (words : List Nat) : List UInt8 := words.flatMap (LittleEndian.toBytes 4)

/-- The stack of the new program: its stack pointer, or a jump to `bad`. -/
def buildStack (dir : Dir) (argv : List CString) (sp : Nat) (ram : ByteMemory) :
    Except Fault (Option Nat × ByteMemory) := do
  let (pushes, ram) ← pushArgs dir argv sp [] ram
  match pushes with
  | none => .ok (none, ram)
  | some (sp, pointers) => do
      let top := (sp + UINT - (3 + pointers.length + 1) * 4) % UINT
      let (returned, ram) ← copyout dir ram top (wordBytes (ustack sp pointers))
      if returned < 0 then .ok (none, ram) else .ok (some top, ram)

/-! ## The name -/

def slash : UInt8 := 47

/-- What follows the last slash. -/
def lastElement : List UInt8 → List UInt8 → List UInt8
  | last, [] => last
  | last, c :: s => lastElement (if c = slash then s else last) s

/-- `safestrcpy` of a string to a buffer.  After a string that is shorter than the buffer there
are two zeros. -/
def safestrcpy (s t : List UInt8) (n : Nat) : List UInt8 :=
  if n = 0 then s
  else
    let written := if t.length < n - 1 then t ++ [0, 0] else t.take (n - 1) ++ [0]
    written ++ s.drop written.length

/-! ## The call -/

/-- `bad`. -/
def bad (layout : Layout) (machine : Machine) (pgdir : Option Dir) (held : Bool) :
    Except Fault (Int × Machine) := do
  let memory ← match pgdir with
    | none => .ok machine.memory
    | some dir => panics (Memory.freevm layout machine.memory dir)
  let machine := machine.setMemory memory
  return (-1, if held then machine.did [.iunlockput, .endOp] else machine)

/-- The process takes over the new image. -/
def commit (layout : Layout) (machine : Machine) (path : List UInt8) (dir : Dir)
    (sz entry sp : Nat) : Except Fault (Int × Machine) := do
  let oldpgdir := machine.curproc.pgdir
  let curproc : Curproc :=
    { pgdir := dir
      sz := sz
      name := safestrcpy machine.curproc.name (lastElement path path) 16
      priority := 2
      eip := entry
      esp := sp }
  let memory ← panics (Memory.freevm layout machine.memory oldpgdir)
  return (0, { machine with memory := memory, curproc := curproc })

/-- `exec` after it has let go of the i-node. -/
@[irreducible]
def enter (layout : Layout) (machine : Machine) (path : List UInt8) (argv : List CString)
    (entry : Nat) (dir : Dir) (sz : Nat) : Except Fault (Int × Machine) := do
  let (sz, memory, dir) ← panics (Memory.allocuvm layout machine.memory dir (PGROUNDUP sz)
    ((PGROUNDUP sz + 2 * PGSIZE) % UINT))
  if sz = 0 then bad layout (machine.setMemory memory) (some dir) false
  else do
    let dir ← panics (clearpteu dir ((sz - 2 * PGSIZE) / PGSIZE))
    let (stack, ram) ← buildStack dir argv sz memory.ram
    let machine := machine.setMemory { memory with ram := ram }
    match stack with
    | none => bad layout machine (some dir) false
    | some sp => commit layout machine path dir sz entry sp

/-- `exec`, with the contents of the files by their paths. -/
def exec (layout : Layout) (files : List UInt8 → Option (List UInt8)) (machine : Machine)
    (path : List UInt8) (argv : List CString) : Except Fault (Int × Machine) :=
  match files path with
  | none => .ok (-1, machine.did [.beginOp, .namei, .endOp])
  | some content =>
      let machine := machine.did [.beginOp, .namei, .ilock]
      match readElfhdr content with
      | none => bad layout machine none true
      | some elf => do
          let (pgdir, memory) ← panics (Memory.setupkvm layout machine.memory)
          match pgdir with
          | none => bad layout (machine.setMemory memory) none true
          | some dir => do
              let (size, memory, dir) ←
                loadSegments layout content elf.phnum elf.phoff memory dir 0
              let machine := machine.setMemory memory
              match size with
              | none => bad layout machine (some dir) true
              | some sz =>
                  enter layout (machine.did [.iunlockput, .endOp]) path argv elf.entry dir sz

end Coursework.Exec
