import Coursework.DirectorySlots
import Coursework.EntryUpdates
import Coursework.FsDisk

/-!
# The ledger of links and references

An abstract account of inodes, directory entries and references that leaves out
processes, paths and locks: how many references to an inode are held, how many
are being dropped, how many changes of its link count are not matched by a
directory entry yet, and whether it is still being made.  The transitions are the
changes that the calls of `sysfile.c` make to it.

A directory records its container when it is made.  It is attached while the
container names it.  Links are then accounted for exactly: the link count of an
inode is the number of names it has, plus the number of attached directories it
contains, plus the pending changes, plus the names that were lost because a
removed directory was freed with entries in it.
-/

namespace Coursework.Directory

open FileSystem (FileType)

abbrev Name := List Char

def dot : Name := ['.']

def dotdot : Name := ['.', '.']

abbrev Slot (Inum : Type) := Option (Name × Inum)

/-- The slot holds a name of an inode, other than the dots. -/
def linksTo {Inum : Type} [DecidableEq Inum] (inum : Inum) : Slot Inum → Bool
  | some (name, target) => decide (name ≠ dot) && decide (name ≠ dotdot) && decide (target = inum)
  | none => false

/-- The first entries of a new directory. -/
def dotEntries {Inum : Type} (self parent : Inum) : List (Slot Inum) :=
  [some (dot, self), some (dotdot, parent)]

structure Ledger (Inum : Type) where
  type : Inum → FileType
  nlink : Inum → Int
  entries : Inum → List (Slot Inum)
  ref : Inum → Nat
  valid : Inum → Bool
  /-- references that will still be checked by `iput` -/
  held : Inum → Nat
  /-- references past the check of `iput`, not subtracted from `ref` yet -/
  dropping : Inum → Nat
  /-- link counts raised before the entry is written, or entries removed before
  the link count is lowered -/
  pending : Inum → Nat
  /-- allocated by `ialloc` and not set up by `create` yet -/
  making : Inum → Nat
  /-- names lost with a freed directory -/
  lost : Inum → Nat
  /-- the container of the directory names it -/
  attached : Inum → Bool
  /-- when the directory was made -/
  born : Inum → Nat
  clock : Nat
  /-- where and when the directory was made: its container and the container's own
  time of birth -/
  container : Inum → Inum × Nat

namespace Ledger

variable {Inum : Type} [DecidableEq Inum]

/-- The names of an inode, not counting dots. -/
def named [Fintype Inum] (ledger : Ledger Inum) (inum : Inum) : Nat :=
  total (fun slots => slots.countP (linksTo inum)) ledger.entries

/-- The attached directories made in a directory. -/
def children [Fintype Inum] (ledger : Ledger Inum) (inum : Inum) : Nat :=
  countWhere (fun entry : Bool × Inum × Nat => entry.1 && decide (entry.2.1 = inum))
    fun other => (ledger.attached other, ledger.container other)

/-! ## Transitions -/

/-- Take a reference; an entry that was not in use is read again. -/
def take (ledger : Ledger Inum) (inum : Inum) : Ledger Inum :=
  { ledger with
    ref := Function.update ledger.ref inum (ledger.ref inum + 1)
    valid := if ledger.ref inum = 0 then Function.update ledger.valid inum false
      else ledger.valid
    held := Function.update ledger.held inum (ledger.held inum + 1) }

/-- Read an inode from disk. -/
def load (ledger : Ledger Inum) (inum : Inum) : Ledger Inum :=
  { ledger with valid := Function.update ledger.valid inum true }

/-- Pass the check of `iput`. -/
def give (ledger : Ledger Inum) (inum : Inum) : Ledger Inum :=
  { ledger with
    held := Function.update ledger.held inum (ledger.held inum - 1)
    dropping := Function.update ledger.dropping inum (ledger.dropping inum + 1) }

/-- Free an inode in `iput`. -/
def discard (ledger : Ledger Inum) (inum : Inum) : Ledger Inum :=
  { ledger.give inum with
    type := Function.update ledger.type inum .free
    entries := Function.update ledger.entries inum []
    valid := Function.update ledger.valid inum false
    lost := fun other => ledger.lost other + (ledger.entries inum).countP (linksTo other) }

/-- Subtract a dropped reference. -/
def drop (ledger : Ledger Inum) (inum : Inum) : Ledger Inum :=
  { ledger with
    ref := Function.update ledger.ref inum (ledger.ref inum - 1)
    dropping := Function.update ledger.dropping inum (ledger.dropping inum - 1) }

/-- Raise a link count before the entry is written. -/
def raise (ledger : Ledger Inum) (inum : Inum) : Ledger Inum :=
  { ledger with
    nlink := Function.update ledger.nlink inum (ledger.nlink inum + 1)
    pending := Function.update ledger.pending inum (ledger.pending inum + 1) }

/-- Write the entry for a raised link count. -/
def enter (ledger : Ledger Inum) (dir : Inum) (name : Name) (inum : Inum) : Ledger Inum :=
  { ledger with
    entries := Function.update ledger.entries dir (slotInsert (name, inum) (ledger.entries dir))
    pending := Function.update ledger.pending inum (ledger.pending inum - 1) }

/-- Lower a link count whose entry is gone or was never written. -/
def lower (ledger : Ledger Inum) (inum : Inum) : Ledger Inum :=
  { ledger with
    nlink := Function.update ledger.nlink inum (ledger.nlink inum - 1)
    pending := Function.update ledger.pending inum (ledger.pending inum - 1) }

/-- Remove an entry of something that is no directory. -/
def clear (ledger : Ledger Inum) (dir : Inum) (index : Nat) (inum : Inum) : Ledger Inum :=
  { ledger with
    entries := Function.update ledger.entries dir ((ledger.entries dir).set index none)
    pending := Function.update ledger.pending inum (ledger.pending inum + 1) }

/-- Remove the entry of a directory. -/
def detach (ledger : Ledger Inum) (dir : Inum) (index : Nat) (inum : Inum) : Ledger Inum :=
  { ledger.clear dir index inum with
    nlink := Function.update ledger.nlink dir (ledger.nlink dir - 1)
    attached := Function.update ledger.attached inum false }

/-- Allocate an inode and take a reference to it. -/
def alloc (ledger : Ledger Inum) (inum : Inum) (type : FileType) : Ledger Inum :=
  { ledger.take inum with
    type := Function.update ledger.type inum type
    nlink := Function.update ledger.nlink inum 0
    entries := Function.update ledger.entries inum []
    making := Function.update ledger.making inum (ledger.making inum + 1) }

/-- Set up a new file or device and enter it in a directory. -/
def initFile (ledger : Ledger Inum) (dir : Inum) (name : Name) (inum : Inum) : Ledger Inum :=
  { ledger with
    nlink := Function.update ledger.nlink inum 1
    entries := Function.update ledger.entries dir (slotInsert (name, inum) (ledger.entries dir))
    making := Function.update ledger.making inum (ledger.making inum - 1) }

/-- Set up a new directory and enter it in its container. -/
def initDir (ledger : Ledger Inum) (dir : Inum) (name : Name) (inum : Inum) : Ledger Inum :=
  { ledger with
    nlink := Function.update (Function.update ledger.nlink inum 1) dir (ledger.nlink dir + 1)
    entries := Function.update (Function.update ledger.entries inum (dotEntries inum dir)) dir
      (slotInsert (name, inum) (ledger.entries dir))
    making := Function.update ledger.making inum (ledger.making inum - 1)
    attached := Function.update ledger.attached inum true
    born := Function.update ledger.born inum ledger.clock
    clock := ledger.clock + 1
    container := Function.update ledger.container inum (dir, ledger.born dir) }

/-- The transitions with what their callers guarantee.  A strict account has no
entry written into a removed directory and no two references to an unlinked inode
dropped at the same time. -/
inductive Step (strict : Prop) : Ledger Inum → Ledger Inum → Prop
  | take {ledger : Ledger Inum} {inum : Inum} : ledger.type inum ≠ .free →
      ledger.making inum = 0 → Step strict ledger (ledger.take inum)
  | load {ledger : Ledger Inum} {inum : Inum} : Step strict ledger (ledger.load inum)
  | give {ledger : Ledger Inum} {inum : Inum} : 0 < ledger.held inum →
      ledger.making inum = 0 →
      ¬ (ledger.valid inum = true ∧ ledger.nlink inum = 0 ∧ ledger.ref inum = 1) →
      (strict → ledger.nlink inum = 0 → ledger.dropping inum = 0) →
      Step strict ledger (ledger.give inum)
  | discard {ledger : Ledger Inum} {inum : Inum} : 0 < ledger.held inum →
      ledger.making inum = 0 → ledger.nlink inum = 0 → ledger.ref inum = 1 →
      (∀ dir, some (dotdot, inum) ∈ ledger.entries dir → dir = inum) →
      Step strict ledger (ledger.discard inum)
  | drop {ledger : Ledger Inum} {inum : Inum} : 0 < ledger.dropping inum →
      Step strict ledger (ledger.drop inum)
  | raise {ledger : Ledger Inum} {inum : Inum} : ledger.type inum ≠ .free →
      ledger.making inum = 0 → Step strict ledger (ledger.raise inum)
  | enter {ledger : Ledger Inum} {dir : Inum} {name : Name} {inum : Inum} :
      ledger.type dir = .dir → ledger.making dir = 0 → ledger.pending dir = 0 →
      slotLookup name (ledger.entries dir) = none → 0 < ledger.pending inum →
      ledger.type inum ≠ .dir → ledger.type inum ≠ .free → ledger.making inum = 0 →
      (strict → 1 ≤ ledger.nlink dir) → Step strict ledger (ledger.enter dir name inum)
  | lower {ledger : Ledger Inum} {inum : Inum} : 0 < ledger.pending inum →
      0 < ledger.held inum → ledger.valid inum = true → Step strict ledger (ledger.lower inum)
  | clear {ledger : Ledger Inum} {dir : Inum} {index : Nat} {name : Name} {inum : Inum} :
      (ledger.entries dir)[index]? = some (some (name, inum)) → name ≠ dot → name ≠ dotdot →
      ledger.type inum ≠ .dir → Step strict ledger (ledger.clear dir index inum)
  | detach {ledger : Ledger Inum} {dir : Inum} {index : Nat} {name : Name} {inum : Inum} :
      (ledger.entries dir)[index]? = some (some (name, inum)) → name ≠ dot → name ≠ dotdot →
      ledger.type inum = .dir → (∀ slot ∈ (ledger.entries inum).drop 2, slot = none) →
      0 < ledger.held dir → ledger.valid dir = true →
      Step strict ledger (ledger.detach dir index inum)
  | alloc {ledger : Ledger Inum} {inum : Inum} {type : FileType} :
      ledger.type inum = .free → type ≠ .free → Step strict ledger (ledger.alloc inum type)
  | initFile {ledger : Ledger Inum} {dir : Inum} {name : Name} {inum : Inum} :
      0 < ledger.making inum → ledger.type inum ≠ .dir → ledger.type dir = .dir →
      ledger.making dir = 0 → ledger.pending dir = 0 →
      slotLookup name (ledger.entries dir) = none → (strict → 1 ≤ ledger.nlink dir) →
      Step strict ledger (ledger.initFile dir name inum)
  | initDir {ledger : Ledger Inum} {dir : Inum} {name : Name} {inum : Inum} :
      0 < ledger.making inum → ledger.type inum = .dir → ledger.type dir = .dir →
      ledger.making dir = 0 → ledger.pending dir = 0 →
      slotLookup name (ledger.entries dir) = none → (strict → 1 ≤ ledger.nlink dir) →
      Step strict ledger (ledger.initDir dir name inum)

end Ledger

end Coursework.Directory
