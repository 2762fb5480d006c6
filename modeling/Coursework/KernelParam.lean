import Mathlib.Algebra.Group.Int.Defs
import Mathlib.Algebra.GroupWithZero.Nat

/-!
# Kernel parameters

The constants of `param.h` and `fs.h` that the models refer to, and the range of a
`uint`.
-/

namespace Coursework

/-- Maximum number of processes. -/
def NPROC : Nat := 64

/-- Maximum number of blocks any file-system operation writes. -/
def MAXOPBLOCKS : Nat := 10

/-- Maximum number of data blocks in the on-disk log. -/
def LOGSIZE : Nat := MAXOPBLOCKS * 3

/-- Size of the disk block cache. -/
def NBUF : Nat := MAXOPBLOCKS * 3

/-- Size of the file system image in blocks. -/
def FSSIZE : Nat := 1000

/-- Block size in bytes. -/
def BSIZE : Nat := 512

/-- Maximum number of active i-nodes. -/
def NINODE : Nat := 50

/-- Number of block numbers an i-node lists itself. -/
def NDIRECT : Nat := 12

/-- Number of block numbers in an indirect block. -/
def NINDIRECT : Nat := BSIZE / 4

/-- Maximum file size in blocks. -/
def MAXFILE : Nat := NDIRECT + NINDIRECT

/-- I-nodes per block. -/
def IPB : Nat := BSIZE / 64

/-- Bitmap bits per block. -/
def BPB : Nat := BSIZE * 8

/-- Number of i-nodes that `mkfs` makes. -/
def NINODES : Nat := 200

/-- Open files per system. -/
def NFILE : Nat := 100

/-- Open files per process. -/
def NOFILE : Nat := 16

/-- Length of a name in a directory. -/
def DIRSIZ : Nat := 14

/-- The number of values of a `uint`. -/
def UINT : Nat := 2 ^ 32

end Coursework
