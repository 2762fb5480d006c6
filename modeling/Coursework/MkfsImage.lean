import Coursework.FsDisk

/-!
# Building a file system image

`mkfs` writes an image that holds a root directory and one file for each host
file.  Blocks and inodes are taken in order from the counters `freeblock` and
`freeinode`, `iappend` allocates the blocks of a file as the file grows, and the
bitmap is written at the end.  A result `none` is an `assert` that fails or an
`exit(1)`.

The image has the inode table and the bitmap of `FsDisk`.  A host file is given
by the results of the calls of `read` on it.  A read of a sector past the end of
the image fails; an inode past the end of the inode table is not modelled.
-/

namespace Coursework.FileSystem.Mkfs

def ninodeblocks : Nat := NINODES / IPB + 1

def nbitmap : Nat := FSSIZE / BPB + 1

/-- Number of meta blocks (boot, superblock, log, inode, bitmap). -/
def nmeta : Nat := 2 + LOGSIZE + ninodeblocks + nbitmap

def sb : Superblock where
  size := FSSIZE
  ninodes := NINODES
  nlog := LOGSIZE
  logstart := 2
  inodestart := 2 + LOGSIZE
  bmapstart := 2 + LOGSIZE + ninodeblocks
  sizeFits := by decide

/-- A file named on the command line. -/
structure HostFile where
  name : List UInt8
  reads : List (List UInt8)
  readFits : ∀ buf ∈ reads, 0 < buf.length ∧ buf.length ≤ BSIZE

/-- The image so far and the counters of `mkfs`. -/
structure Image where
  disk : Disk sb
  freeinode : Nat
  freeblock : Nat

abbrev Inum := Fin sb.ninodes

def ROOTINO : Inum := ⟨1, by decide⟩

namespace Image

/-- The image of zeroes. -/
def blank : Image where
  disk := { bitmap := fun _ _ => 0, dinodes := fun _ => .blank .free, blocks := fun _ _ => 0 }
  freeinode := 1
  freeblock := nmeta

def wsect (image : Image) (sec : Nat) (buf : Block) : Image :=
  { image with disk := image.disk.writeBlock sec buf }

def rsect (image : Image) (sec : Nat) : Option Block :=
  if sec < FSSIZE then some (image.disk.blocks sec) else none

def winode (image : Image) (inum : Inum) (din : Dinode) : Image :=
  { image with disk := { image.disk with
      dinodes := Function.update image.disk.dinodes inum din } }

def rinode (image : Image) (inum : Inum) : Dinode := image.disk.dinodes inum

def ialloc (image : Image) (type : FileType) : Option (Inum × Image) :=
  if inside : image.freeinode < sb.ninodes then
    some (⟨image.freeinode, inside⟩,
      { image with freeinode := image.freeinode + 1 }.winode ⟨image.freeinode, inside⟩
        { Dinode.blank type with nlink := 1 })
  else none

/-- Set the bits of the first `used` blocks. -/
def balloc (image : Image) (used : Nat) : Option Image :=
  if used < BSIZE * 8 then
    some { image with disk := { image.disk with
      bitmap := Function.update image.disk.bitmap 0
        ((List.range used).foldl setBit fun _ => 0) } }
  else none

/-- Give a missing block number in `addrs` the next free block. -/
def fillSlot (image : Image) (din : Dinode) (slot : Fin (NDIRECT + 1)) : Image × Dinode :=
  if din.addrs slot = 0 then
    ({ image with freeblock := image.freeblock + 1 },
      { din with addrs := Function.update din.addrs slot image.freeblock })
  else (image, din)

/-- Give a missing block number in the indirect block the next free block. -/
def fillWord (image : Image) (sec : Nat) (indirect : Block) (bn : Nat) : Nat × Image :=
  if Disk.word indirect bn = 0 then
    let filled := Disk.setWord indirect bn image.freeblock
    (Disk.word filled bn, { image with freeblock := image.freeblock + 1 }.wsect sec filled)
  else (Disk.word indirect bn, image)

/-- The block of `iappend` for the block `fbn` of a file. -/
def fileBlock (image : Image) (din : Dinode) (fbn : Nat) : Option (Nat × Image × Dinode) :=
  if direct : fbn < NDIRECT then
    let (image, din) := image.fillSlot din ⟨fbn, Nat.lt_succ_of_lt direct⟩
    some (din.addrs ⟨fbn, Nat.lt_succ_of_lt direct⟩, image, din)
  else do
    let (image, din) := image.fillSlot din indirectSlot
    let indirect ← image.rsect (din.addrs indirectSlot)
    let (x, image) := image.fillWord (din.addrs indirectSlot) indirect (fbn - NDIRECT)
    return (x, image, din)

/-- Copy bytes into a block from an index on. -/
def bcopy (bytes : List UInt8) (buf : Block) (start : Nat) : Block :=
  fun index =>
    if start ≤ index.val ∧ index.val < start + bytes.length then
      bytes.getD (index.val - start) 0
    else buf index

/-- The loop of `iappend`, with at most as many iterations as there are bytes. -/
def appendLoop : Nat → Image → Dinode → Nat → List UInt8 → Option (Image × Dinode × Nat)
  | _, image, din, off, [] => some (image, din, off)
  | 0, _, _, _, _ :: _ => none
  | rounds + 1, image, din, off, p =>
      let fbn := off / BSIZE
      if fbn < MAXFILE then do
        let (x, image, din) ← image.fileBlock din fbn
        let n1 := min p.length ((fbn + 1) * BSIZE - off)
        let buf ← image.rsect x
        appendLoop rounds (image.wsect x (bcopy (p.take n1) buf (off - fbn * BSIZE))) din
          (off + n1) (p.drop n1)
      else none

def iappend (image : Image) (inum : Inum) (p : List UInt8) : Option Image := do
  let din := image.rinode inum
  let (image, din, off) ← appendLoop p.length image din din.size p
  return image.winode inum { din with size := off }

end Image

/-! ## Directory entries -/

/-- `strncpy` into the name of a directory entry. -/
def direntName (name : List UInt8) : List UInt8 :=
  name.take DIRSIZ ++ List.replicate (DIRSIZ - name.length) 0

/-- The bytes of a `struct dirent`. -/
def dirent (inum : Nat) (name : List UInt8) : List UInt8 :=
  UInt8.ofNat inum :: UInt8.ofNat (inum / 256) :: direntName name

def SLASH : UInt8 := 47

def UNDERSCORE : UInt8 := 95

def DOT : UInt8 := 46

/-- The name of a host file in the image, without a leading underscore. -/
def HostFile.imageName (file : HostFile) : List UInt8 :=
  if file.name.head? = some UNDERSCORE then file.name.tail else file.name

/-- One turn of the loop of `main` over the host files. -/
def addFile (image : Image) (file : HostFile) : Option Image :=
  if SLASH ∈ file.name then none
  else do
    let (inum, image) ← image.ialloc .file
    let image ← image.iappend ROOTINO (dirent inum file.imageName)
    file.reads.foldlM (fun image buf => image.iappend inum buf) image

/-- Round the size of the root directory up to the next block. -/
def fixSize (image : Image) : Image :=
  let din := image.rinode ROOTINO
  image.winode ROOTINO { din with size := (din.size / BSIZE + 1) * BSIZE }

/-- `main`: the image for a list of files. -/
def mkfs (files : List HostFile) : Option (Disk sb) := do
  let (rootino, image) ← Image.blank.ialloc .dir
  if rootino = ROOTINO then
    let image ← image.iappend rootino (dirent rootino [DOT])
    let image ← image.iappend rootino (dirent rootino [DOT, DOT])
    let image ← files.foldlM addFile image
    let image := fixSize image
    let image ← image.balloc image.freeblock
    return image.disk
  else none

end Coursework.FileSystem.Mkfs
