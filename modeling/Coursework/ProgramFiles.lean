import Coursework.LittleEndian
import Coursework.PageTables

/-!
# Executable files

What `exec` reads of a file: the ELF header, the program headers and the bytes of the
segments.  Every field is whatever the file has at its place.

A file asks for a size and an image: every segment lies over those before it, and
where there is none there are zeros.  Whether `exec` accepts the headers does not depend
on the machine; what is left to that is whether there are pages enough.
-/

namespace Coursework.Exec

open Paging

/-- `readi` of the contents of a file: the bytes that it copies, if it does not fail. -/
def readi (content : List UInt8) (off n : Nat) : Option (List UInt8) :=
  if content.length < off ∨ (off + n) % UINT < off then none
  else
    let n := if content.length < off + n then content.length - off else n
    some ((content.drop off).take n)

/-- A field of a structure. -/
def field (bytes : List UInt8) (start size : Nat) : Nat :=
  LittleEndian.ofBytes ((bytes.drop start).take size)

def ELF_MAGIC : Nat := 0x464C457F

def ELF_PROG_LOAD : Nat := 1

/-- The fields of `struct elfhdr` that `exec` uses. -/
structure Elfhdr where
  magic : Nat
  entry : Nat
  phoff : Nat
  phnum : Nat

/-- `sizeof(struct elfhdr)`. -/
def elfhdrSize : Nat := 52

def Elfhdr.ofBytes (bytes : List UInt8) : Elfhdr :=
  ⟨field bytes 0 4, field bytes 24 4, field bytes 28 4, field bytes 44 2⟩

/-- The fields of `struct proghdr` that `exec` uses. -/
structure Proghdr where
  type : Nat
  off : Nat
  vaddr : Nat
  filesz : Nat
  memsz : Nat

/-- `sizeof(struct proghdr)`. -/
def proghdrSize : Nat := 32

def Proghdr.ofBytes (bytes : List UInt8) : Proghdr :=
  ⟨field bytes 0 4, field bytes 4 4, field bytes 8 4, field bytes 16 4, field bytes 20 4⟩

/-- The bytes of a structure, if all of them can be read. -/
def readWhole (content : List UInt8) (off size : Nat) : Option (List UInt8) :=
  (readi content off size).bind fun bytes => if bytes.length = size then some bytes else none

/-- The checked ELF header. -/
def readElfhdr (content : List UInt8) : Option Elfhdr :=
  (readWhole content 0 elfhdrSize).bind fun bytes =>
    let elf := Elfhdr.ofBytes bytes
    if elf.magic = ELF_MAGIC then some elf else none

def readProghdr (content : List UInt8) (off : Nat) : Option Proghdr :=
  (readWhole content off proghdrSize).map Proghdr.ofBytes

/-! ## The image that a file asks for -/

/-- The bytes of a segment are in the file. -/
def Proghdr.InFile (ph : Proghdr) (content : List UInt8) : Prop :=
  ph.filesz = 0 ∨ ph.off + ph.filesz ≤ content.length ∧ ph.off + ph.filesz < UINT

instance (ph : Proghdr) (content : List UInt8) : Decidable (ph.InFile content) :=
  inferInstanceAs (Decidable (_ ∨ _))

/-- What `exec` asks of a segment when the image has some size. -/
def Proghdr.Loadable (ph : Proghdr) (content : List UInt8) (sz : Nat) : Prop :=
  ph.filesz ≤ ph.memsz ∧ ph.vaddr + ph.memsz < KERNBASE ∧ 0 < max sz (ph.vaddr + ph.memsz) ∧
    ph.vaddr % PGSIZE = 0 ∧ ph.InFile content

instance (ph : Proghdr) (content : List UInt8) (sz : Nat) : Decidable (ph.Loadable content sz) :=
  inferInstanceAs (Decidable (_ ∧ _))

/-- An image with the bytes of a segment. -/
def Proghdr.over (ph : Proghdr) (content : List UInt8) (image : Nat → UInt8) : Nat → UInt8 :=
  fun addr =>
    if ph.vaddr ≤ addr ∧ addr < ph.vaddr + ph.filesz then
      content.getD (ph.off + (addr - ph.vaddr)) 0
    else image addr

/-- The size and the image after a number of program headers. -/
def imageOf (content : List UInt8) :
    Nat → Nat → Nat → (Nat → UInt8) → Option (Nat × (Nat → UInt8))
  | 0, _, sz, image => some (sz, image)
  | count + 1, off, sz, image =>
      match readProghdr content off with
      | none => none
      | some ph =>
          let next := (off + proghdrSize) % UINT
          if ph.type ≠ ELF_PROG_LOAD then imageOf content count next sz image
          else if ph.Loadable content sz then
            imageOf content count next (max sz (ph.vaddr + ph.memsz)) (ph.over content image)
          else none

/-- The size and the image that the headers of a file ask for. -/
def fileImage (content : List UInt8) : Option (Nat × (Nat → UInt8)) :=
  (readElfhdr content).bind fun elf => imageOf content elf.phnum elf.phoff 0 fun _ => 0

end Coursework.Exec
