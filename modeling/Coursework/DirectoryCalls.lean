import Coursework.KernelParam
import Coursework.LinkLedger

/-!
# The calls on the directory tree

The system calls of `sysfile.c` that change or walk the directory tree, with
`namex` and `iput` of `fs.c`, for several processes.  A process runs from one
lock of an inode to the next in one step: what it does while it holds a lock and
waits for no other one cannot be observed by the others.  `iput` takes two steps,
since it decrements `ref` after it has released the lock.

The fields of the inodes are kept field by field; file content is left out.  An
open file is in use while some descriptor names it, which is what its `ref`
counts.  Of `exec` only its use of the inode is modelled.
-/

namespace Coursework.Directory

open FileSystem (FileType)

abbrev Inum := Fin NINODES

/-- `ROOTINO`. -/
def rootInum : Inum := ⟨1, by decide⟩

/-- The next path element, cut to `DIRSIZ`, and the rest of the path. -/
def skipelem (path : List Char) : Option (Name × List Char) :=
  let path := path.dropWhile (· == '/')
  if path.isEmpty then none
  else
    some ((path.takeWhile (· != '/')).take DIRSIZ,
      (path.dropWhile (· != '/')).dropWhile (· == '/'))

/-- What a call does with the inode that a path leads to. -/
inductive Lookup where
  | open (omode : Nat)
  | exec
  | chdir
  | linkOld (new : List Char)
  | linkNew (ip : Inum)
  | unlink
  | create (type : FileType)
  deriving DecidableEq

/-- The call asks for the parent directory. -/
def Lookup.nameiparent : Lookup → Bool
  | .linkNew _ | .unlink | .create _ => true
  | _ => false

/-- Where a process is. -/
inductive Pc where
  | idle
  /-- the loop of `namex` at an inode -/
  | walk (lookup : Lookup) (ip : Inum) (path : List Char)
  /-- `namex` returned -/
  | resolved (lookup : Lookup) (ip : Inum) (name : Name)
  /-- `sys_unlink`, `dp` locked, before it locks `ip` -/
  | unlinkFound (dp : Inum) (off : Nat) (ip : Inum)
  /-- `sys_unlink` of a directory in use, `dp` locked -/
  | unlinkBad (dp : Inum)
  /-- `sys_unlink`, `ip` locked, the entry cleared -/
  | unlinkCleared (ip : Inum)
  /-- `create` found the name -/
  | createFound (type : FileType) (ip : Inum)
  /-- `create`, `dp` locked, the inode allocated -/
  | creating (dp : Inum) (name : Name) (ip : Inum) (type : FileType)
  /-- `create` is done, `ip` locked -/
  | created (ip : Inum) (type : FileType)
  /-- `dirlink` found the name, `dp` locked -/
  | linkExists (dp ip : Inum)
  /-- `sys_link` wrote the entry -/
  | linked (ip : Inum)
  /-- `sys_link` at `bad` -/
  | undo (ip : Inum)
  /-- `sys_chdir` after the old directory was put -/
  | chdirPut (ip : Inum)
  | exiting
  deriving DecidableEq

/-- A call of `iput` in progress: before its locked part, and after it. -/
inductive Put where
  | check (ip : Inum)
  | drop (ip : Inum)
  deriving DecidableEq

structure Proc where
  alive : Bool
  cwd : Option Inum
  ofile : Fin NOFILE → Option (Fin NFILE)
  pc : Pc
  put : Option Put

inductive Panic where
  | ilock
  | noType
  | notDir
  | nlinkLow
  | noInodes
  | createDots
  | createLink
  deriving DecidableEq

/-- What the proofs record about the past; nothing reads it. -/
structure History where
  lost : Inum → Nat
  attached : Inum → Bool
  born : Inum → Nat
  clock : Nat
  container : Inum → Inum × Nat

structure State (Pid : Type) where
  type : Inum → FileType
  nlink : Inum → Int
  entries : Inum → List (Slot Inum)
  ref : Inum → Nat
  valid : Inum → Bool
  lock : Inum → Option Pid
  proc : Pid → Proc
  file : Fin NFILE → Option Inum
  panic : Option Panic
  history : History

inductive Syscall where
  | open (path : List Char) (omode : Nat)
  | mkdir (path : List Char)
  | mknod (path : List Char)
  | link (old new : List Char)
  | unlink (path : List Char)
  | chdir (path : List Char)
  | exec (path : List Char)
  | dup (fd : Fin NOFILE)
  | close (fd : Fin NOFILE)
  | exit

inductive Action (Pid : Type) where
  | call (pid : Pid) (syscall : Syscall)
  | run (pid : Pid)
  | fork (parent child : Pid)

/-- Where a call goes on when its path leads nowhere. -/
def Lookup.failed : Lookup → Pc
  | .linkNew ip => .undo ip
  | _ => .idle

/-- `O_CREATE`. -/
def O_CREATE : Nat := 0x200

/-- `O_RDONLY`. -/
def O_RDONLY : Nat := 0

namespace State

variable {Pid : Type} [DecidableEq Pid]

def setProc (state : State Pid) (pid : Pid) (proc : Proc) : State Pid :=
  { state with proc := Function.update state.proc pid proc }

def goto (state : State Pid) (pid : Pid) (pc : Pc) : State Pid :=
  state.setProc pid { state.proc pid with pc := pc }

/-- Call `iput` and go on at `pc`. -/
def iput (state : State Pid) (pid : Pid) (ip : Inum) (pc : Pc) : State Pid :=
  state.setProc pid { state.proc pid with pc := pc, put := some (.check ip) }

def setLock (state : State Pid) (ip : Inum) (holder : Option Pid) : State Pid :=
  { state with lock := Function.update state.lock ip holder }

def fail (state : State Pid) (panic : Panic) : State Pid :=
  { state with panic := some panic }

/-- Take a reference to an inode; a cache entry not in use is recycled. -/
def iget (state : State Pid) (ip : Inum) : State Pid :=
  { state with
    ref := Function.update state.ref ip (state.ref ip + 1)
    valid := if state.ref ip = 0 then Function.update state.valid ip false else state.valid }

/-- What a process does under `ilock` once it gets the lock. -/
def withLock (state : State Pid) (ip : Inum) (body : State Pid → State Pid) :
    Option (State Pid) :=
  if state.ref ip < 1 then some (state.fail .ilock)
  else if (state.lock ip).isSome then none
  else if state.valid ip = false ∧ state.type ip = .free then some (state.fail .noType)
  else some (body { state with valid := Function.update state.valid ip true })

/-- The start of `namex`. -/
def namex (state : State Pid) (pid : Pid) (lookup : Lookup) (path : List Char) : State Pid :=
  let start := if path.head? = some '/' then rootInum
    else (state.proc pid).cwd.getD rootInum
  (state.iget start).goto pid (.walk lookup start path)

/-- An iteration of the loop of `namex`. -/
def walkStep (state : State Pid) (pid : Pid) (lookup : Lookup) (ip : Inum)
    (path : List Char) : Option (State Pid) :=
  match skipelem path with
  | none =>
      if lookup.nameiparent then some (state.iput pid ip lookup.failed)
      else some (state.goto pid (.resolved lookup ip []))
  | some (name, rest) =>
      state.withLock ip fun state =>
        if state.type ip ≠ .dir then state.iput pid ip lookup.failed
        else if lookup.nameiparent = true ∧ rest = [] then
          state.goto pid (.resolved lookup ip name)
        else
          match slotLookup name (state.entries ip) with
          | none => state.iput pid ip lookup.failed
          | some (_, next) => (state.iget next).iput pid ip (.walk lookup next rest)

/-- The end of `sys_open`: `filealloc`, `fdalloc` and the new open file. -/
def openFile (state : State Pid) (pid : Pid) (ip : Inum) : State Pid :=
  match (List.finRange NFILE).find? fun f => (state.file f).isNone,
      (List.finRange NOFILE).find? fun fd => ((state.proc pid).ofile fd).isNone with
  | some f, some fd =>
      { state with file := Function.update state.file f (some ip) }.setProc pid
        { state.proc pid with
          ofile := Function.update (state.proc pid).ofile fd (some f), pc := .idle }
  | _, _ => state.iput pid ip .idle

/-- Write a directory entry. -/
def dirlink (state : State Pid) (dp : Inum) (name : Name) (inum : Inum) : State Pid :=
  { state with
    entries := Function.update state.entries dp (slotInsert (name, inum) (state.entries dp)) }

def setNlink (state : State Pid) (ip : Inum) (nlink : Int) : State Pid :=
  { state with nlink := Function.update state.nlink ip nlink }

/-- `ialloc` with its call of `iget`. -/
def ialloc (state : State Pid) (ip : Inum) (type : FileType) : State Pid :=
  { state.iget ip with
    type := Function.update state.type ip type
    nlink := Function.update state.nlink ip 0
    entries := Function.update state.entries ip [] }

/-- The first free inode from number 1 on. -/
def freeInode (state : State Pid) : Option Inum :=
  (List.finRange NINODES).find? fun ip =>
    decide (1 ≤ ip.val) && decide (state.type ip = .free)

/-- What each call does with the inode that `namex` returned. -/
def resolvedStep (state : State Pid) (pid : Pid) (lookup : Lookup) (ip : Inum) (name : Name) :
    Option (State Pid) :=
  state.withLock ip fun state =>
    match lookup with
    | .open omode =>
        if state.type ip = .dir ∧ omode ≠ O_RDONLY then state.iput pid ip .idle
        else state.openFile pid ip
    | .exec => state.iput pid ip .idle
    | .chdir =>
        if state.type ip ≠ .dir then state.iput pid ip .idle
        else
          let proc := state.proc pid
          state.setProc pid
            { proc with cwd := none, pc := .chdirPut ip, put := proc.cwd.map .check }
    | .linkOld new =>
        if state.type ip = .dir then state.iput pid ip .idle
        else (state.setNlink ip (state.nlink ip + 1)).namex pid (.linkNew ip) new
    | .linkNew target =>
        if state.type ip ≠ .dir then state.fail .notDir
        else
          match slotLookup name (state.entries ip) with
          | some (_, existing) =>
              ((state.iget existing).setLock ip (some pid)).iput pid existing
                (.linkExists ip target)
          | none => (state.dirlink ip name target).iput pid ip (.linked target)
    | .unlink =>
        if name = dot ∨ name = dotdot then state.iput pid ip .idle
        else if state.type ip ≠ .dir then state.fail .notDir
        else
          match slotLookup name (state.entries ip) with
          | none => state.iput pid ip .idle
          | some (off, found) =>
              ((state.iget found).setLock ip (some pid)).goto pid (.unlinkFound ip off found)
    | .create type =>
        if state.type ip ≠ .dir then state.fail .notDir
        else
          match slotLookup name (state.entries ip) with
          | some (_, found) => (state.iget found).iput pid ip (.createFound type found)
          | none =>
              match state.freeInode with
              | none => state.fail .noInodes
              | some new =>
                  ((state.ialloc new type).setLock ip (some pid)).goto pid
                    (.creating ip name new type)

/-- Is a directory empty except for its first two entries? -/
def isdirempty (state : State Pid) (ip : Inum) : Bool :=
  ((state.entries ip).drop 2).all (·.isNone)

/-- `sys_unlink` under both locks. -/
def unlinkStep (state : State Pid) (pid : Pid) (dp : Inum) (off : Nat) (ip : Inum) :
    Option (State Pid) :=
  state.withLock ip fun state =>
    if state.nlink ip < 1 then state.fail .nlinkLow
    else if state.type ip = .dir ∧ state.isdirempty ip = false then
      state.iput pid ip (.unlinkBad dp)
    else
      let cleared : State Pid :=
        { state with
          entries := Function.update state.entries dp ((state.entries dp).set off none) }
      let lowered :=
        if state.type ip = .dir then
          { cleared.setNlink dp (state.nlink dp - 1) with
            history := { state.history with
              attached := Function.update state.history.attached ip false } }
        else cleared
      ((lowered.setLock dp none).setLock ip (some pid)).iput pid dp (.unlinkCleared ip)

/-- `create` under both locks. -/
def createStep (state : State Pid) (pid : Pid) (dp : Inum) (name : Name) (ip : Inum)
    (type : FileType) : Option (State Pid) :=
  state.withLock ip fun state =>
    let state := state.setNlink ip 1
    let finish (state : State Pid) : State Pid :=
      if (slotLookup name (state.entries dp)).isSome then state.fail .createLink
      else
        (((state.dirlink dp name ip).setLock dp none).setLock ip (some pid)).iput pid dp
          (.created ip type)
    if type = .dir then
      let raised := state.setNlink dp (state.nlink dp + 1)
      if (slotLookup dot (state.entries ip)).isSome ∨
          (slotLookup dotdot (state.entries ip)).isSome then
        raised.fail .createDots
      else
        finish
          { (raised.dirlink ip dot ip).dirlink ip dotdot dp with
            history := { state.history with
              attached := Function.update state.history.attached ip true
              born := Function.update state.history.born ip state.history.clock
              clock := state.history.clock + 1
              container := Function.update state.history.container ip
                (dp, state.history.born dp) } }
    else finish state

/-- `fileclose` of a descriptor, going on at `pc`. -/
def fileclose [Fintype Pid] (state : State Pid) (pid : Pid) (fd : Fin NOFILE) (pc : Pc) :
    State Pid :=
  match (state.proc pid).ofile fd with
  | none => state.goto pid pc
  | some f =>
      let closed := state.setProc pid
        { state.proc pid with
          ofile := Function.update (state.proc pid).ofile fd none, pc := pc }
      if ∃ other descriptor, (closed.proc other).ofile descriptor = some f then closed
      else
        match state.file f with
        | none => closed
        | some ip => { closed with file := Function.update state.file f none }.iput pid ip pc

/-- `dup` of a descriptor. -/
def dup (state : State Pid) (pid : Pid) (fd : Fin NOFILE) : State Pid :=
  match (state.proc pid).ofile fd,
      (List.finRange NOFILE).find? fun fd => ((state.proc pid).ofile fd).isNone with
  | some f, some new =>
      state.setProc pid
        { state.proc pid with ofile := Function.update (state.proc pid).ofile new (some f) }
  | _, _ => state

/-- A step of `exit`: close the next file, put the current directory, or stop. -/
def exitStep [Fintype Pid] (state : State Pid) (pid : Pid) : State Pid :=
  let proc := state.proc pid
  match (List.finRange NOFILE).find? fun fd => (proc.ofile fd).isSome with
  | some fd => state.fileclose pid fd .exiting
  | none =>
      match proc.cwd with
      | some cwd =>
          state.setProc pid { proc with cwd := none, put := some (.check cwd) }
      | none => state.setProc pid { proc with alive := false, pc := .idle }

/-- The locked part of `iput`. -/
def checkStep (state : State Pid) (pid : Pid) (ip : Inum) : Option (State Pid) :=
  if (state.lock ip).isSome then none
  else
    let proc := { state.proc pid with put := some (.drop ip) }
    if state.valid ip = true ∧ state.nlink ip = 0 ∧ state.ref ip = 1 then
      some ({ state with
        type := Function.update state.type ip .free
        entries := Function.update state.entries ip []
        valid := Function.update state.valid ip false
        history := { state.history with
          lost := fun other =>
            state.history.lost other + (state.entries ip).countP (linksTo other) } }.setProc
        pid proc)
    else some (state.setProc pid proc)

/-- The next step of a process. -/
def runStep [Fintype Pid] (state : State Pid) (pid : Pid) : Option (State Pid) :=
  match (state.proc pid).put with
  | some (.check ip) => state.checkStep pid ip
  | some (.drop ip) =>
      some ({ state with ref := Function.update state.ref ip (state.ref ip - 1) }.setProc pid
        { state.proc pid with put := none })
  | none =>
      match (state.proc pid).pc with
      | .idle => none
      | .walk lookup ip path => state.walkStep pid lookup ip path
      | .resolved lookup ip name => state.resolvedStep pid lookup ip name
      | .unlinkFound dp off ip => state.unlinkStep pid dp off ip
      | .unlinkBad dp => some ((state.setLock dp none).iput pid dp .idle)
      | .unlinkCleared ip =>
          some (((state.setNlink ip (state.nlink ip - 1)).setLock ip none).iput pid ip .idle)
      | .createFound type ip =>
          state.withLock ip fun state =>
            if type = .file ∧ state.type ip = .file then state.openFile pid ip
            else state.iput pid ip .idle
      | .creating dp name ip type => state.createStep pid dp name ip type
      | .created ip type =>
          if type = .file then some ((state.setLock ip none).openFile pid ip)
          else some ((state.setLock ip none).iput pid ip .idle)
      | .linkExists dp ip => some ((state.setLock dp none).iput pid dp (.undo ip))
      | .linked ip => some (state.iput pid ip .idle)
      | .undo ip =>
          state.withLock ip fun state =>
            (state.setNlink ip (state.nlink ip - 1)).iput pid ip .idle
      | .chdirPut ip =>
          some (state.setProc pid { state.proc pid with cwd := some ip, pc := .idle })
      | .exiting => some (state.exitStep pid)

/-- Enter a system call. -/
def callStep [Fintype Pid] (state : State Pid) (pid : Pid) : Syscall → State Pid
  | .open path omode =>
      state.namex pid (if omode &&& O_CREATE ≠ 0 then .create .file else .open omode) path
  | .mkdir path => state.namex pid (.create .dir) path
  | .mknod path => state.namex pid (.create .dev) path
  | .link old new => state.namex pid (.linkOld new) old
  | .unlink path => state.namex pid .unlink path
  | .chdir path => state.namex pid .chdir path
  | .exec path => state.namex pid .exec path
  | .dup fd => state.dup pid fd
  | .close fd => state.fileclose pid fd .idle
  | .exit => state.goto pid .exiting

/-- A process between calls. -/
def ready (state : State Pid) (pid : Pid) : Bool :=
  (state.proc pid).alive &&
    match (state.proc pid).pc, (state.proc pid).put with
    | .idle, none => true
    | _, _ => false

def step [Fintype Pid] (state : State Pid) (action : Action Pid) : Option (State Pid) :=
  if state.panic.isSome then none
  else
    match action with
    | .call pid syscall => if state.ready pid then some (state.callStep pid syscall) else none
    | .run pid => state.runStep pid
    | .fork parent child =>
        if state.ready parent ∧ (state.proc child).alive = false ∧
            (state.proc child).put.isNone then
          let proc := state.proc parent
          match proc.cwd with
          | some cwd => some ((state.iget cwd).setProc child proc)
          | none => none
        else none

end State

end Coursework.Directory
