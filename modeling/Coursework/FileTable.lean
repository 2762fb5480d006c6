import Coursework.EntryUpdates
import Coursework.KernelParam
import Coursework.TransitionRuns
import Mathlib.Data.List.FinRange
import Mathlib.Data.Fintype.EquivFin
import Mathlib.Tactic.Common

/-!
# The table of open files

The calls that allocate, share and close open files, for any number of processes:
`filealloc`, `filedup` and `fileclose` of `file.c`, `pipealloc` and `pipeclose` of
`pipe.c`, and the calls of `sysfile.c`, `fork` and `exit` that use them.  A step
is a section under `ftable.lock`, under the lock of a pipe, or what a process
does on its own in between; writes to an open file that no descriptor names yet
and to the descriptors of a process are seen by that process only.

Pipes are numbered in the order in which `pipealloc` makes them, so that a page
that is used again later is another pipe.
-/

namespace Coursework.FileTable

/-- A pointer into `ftable.file`. -/
abbrev FileId := Fin NFILE

abbrev Fd := Fin NOFILE

/-- The type of an open file, with the pipe and the end of it that it is. -/
inductive FileType
  | FD_NONE
  | FD_PIPE (pipe : Nat) (writable : Bool)
  | FD_INODE
  deriving DecidableEq

structure File where
  ref : Nat
  type : FileType

/-- `readopen` and `writeopen` of a pipe, and how often its page was freed. -/
structure Pipe where
  isOpen : Bool → Bool
  kfrees : Nat

/-- Where a process is. -/
inductive Pc (Pid : Type)
  | idle
  /-- `sys_open` with its inode locked -/
  | opening
  /-- `sys_open` after `filealloc` -/
  | opened (f : FileId)
  /-- `pipealloc` before, between and after its calls of `filealloc` -/
  | piping
  | piped (f0 : FileId)
  | paired (f0 f1 : FileId)
  /-- open files still to be closed -/
  | closing (files : List FileId)
  /-- `fork` before it copies a descriptor -/
  | forking (child : Pid) (fd : Nat)
  | exiting
  deriving DecidableEq

inductive Status
  | unused
  | embryo
  | alive
  deriving DecidableEq

structure Proc (Pid : Type) where
  status : Status
  ofile : Fd → Option FileId
  pc : Pc Pid
  /-- a call of `pipeclose` that `fileclose` has to make -/
  pipeclose : Option (Nat × Bool)

inductive Panic
  | fileclose
  | filedup
  deriving DecidableEq

structure State (Pid : Type) where
  file : FileId → File
  pipe : Nat → Pipe
  pipes : Nat
  proc : Pid → Proc Pid
  panic : Option Panic

inductive Syscall
  | open
  | pipe
  | dup (fd : Fd)
  | close (fd : Fd)
  | exit

inductive Action (Pid : Type)
  | call (pid : Pid) (syscall : Syscall)
  | run (pid : Pid) (memory : Bool)
  | fork (parent child : Pid)

namespace State

variable {Pid : Type} [DecidableEq Pid]

def setProc (state : State Pid) (pid : Pid) (proc : Proc Pid) : State Pid :=
  { state with proc := Function.update state.proc pid proc }

def setFile (state : State Pid) (f : FileId) (file : File) : State Pid :=
  { state with file := Function.update state.file f file }

def goto (state : State Pid) (pid : Pid) (pc : Pc Pid) : State Pid :=
  state.setProc pid { state.proc pid with pc := pc }

/-- The first open file that is not in use. -/
def unusedFile (state : State Pid) : Option FileId :=
  (List.finRange NFILE).find? fun f => (state.file f).ref = 0

/-- `filealloc`, going on with the file, or somewhere else when there is none. -/
def filealloc (state : State Pid) (pid : Pid) (found : FileId → Pc Pid) (full : Pc Pid) :
    State Pid :=
  match state.unusedFile with
  | some f => (state.setFile f { state.file f with ref := 1 }).goto pid (found f)
  | none => state.goto pid full

def filedup (state : State Pid) (f : FileId) : State Pid :=
  if (state.file f).ref < 1 then { state with panic := some .filedup }
  else state.setFile f { state.file f with ref := (state.file f).ref + 1 }

/-- `fileclose` by a process that goes on as `proc`. -/
def fileclose (state : State Pid) (pid : Pid) (proc : Proc Pid) (f : FileId) : State Pid :=
  if (state.file f).ref < 1 then { state with panic := some .fileclose }
  else if 1 < (state.file f).ref then
    (state.setFile f { state.file f with ref := (state.file f).ref - 1 }).setProc pid proc
  else
    (state.setFile f { ref := 0, type := .FD_NONE }).setProc pid
      { proc with
        pipeclose :=
          match (state.file f).type with
          | .FD_PIPE pipe writable => some (pipe, writable)
          | _ => none }

/-- `pipeclose`, which frees the page when both ends are closed. -/
def closeEnd (state : State Pid) (pipe : Nat) (writable : Bool) : State Pid :=
  let isOpen := Function.update (state.pipe pipe).isOpen writable false
  { state with
    pipe := Function.update state.pipe pipe
      { isOpen := isOpen
        kfrees := (state.pipe pipe).kfrees +
          if isOpen false = false ∧ isOpen true = false then 1 else 0 } }

/-- The first free descriptor. -/
def freeFd (proc : Proc Pid) : Option Fd :=
  (List.finRange NOFILE).find? fun fd => (proc.ofile fd).isNone

/-- `fdalloc`. -/
def fdalloc (proc : Proc Pid) (f : FileId) : Option (Proc Pid) :=
  (freeFd proc).map fun fd => { proc with ofile := Function.update proc.ofile fd (some f) }

/-- The end of `sys_open`. -/
def openFile (state : State Pid) (pid : Pid) (f : FileId) : State Pid :=
  match fdalloc (state.proc pid) f with
  | some proc =>
      (state.setFile f { state.file f with type := .FD_INODE }).setProc pid
        { proc with pc := .idle }
  | none => state.goto pid (.closing [f])

/-- `pipealloc` fills in its page and its two open files. -/
def makePipe (state : State Pid) (f0 f1 : FileId) : State Pid :=
  { (state.setFile f0 { state.file f0 with type := .FD_PIPE state.pipes false }).setFile f1
      { state.file f1 with type := .FD_PIPE state.pipes true } with
    pipe := Function.update state.pipe state.pipes { isOpen := fun _ => true, kfrees := 0 }
    pipes := state.pipes + 1 }

/-- `pipealloc` after its calls of `filealloc`, and the rest of `sys_pipe`. -/
def pipeFiles (state : State Pid) (pid : Pid) (f0 f1 : FileId) (memory : Bool) : State Pid :=
  if memory = false then state.goto pid (.closing [f0, f1])
  else
    match (fdalloc (state.proc pid) f0).bind fun proc => fdalloc proc f1 with
    | some proc => (state.makePipe f0 f1).setProc pid { proc with pc := .idle }
    | none => (state.makePipe f0 f1).goto pid (.closing [f0, f1])

/-- An iteration of the loop of `fork` over the descriptors. -/
def forkStep (state : State Pid) (pid child : Pid) (fd : Nat) : State Pid :=
  if bound : fd < NOFILE then
    match (state.proc pid).ofile ⟨fd, bound⟩ with
    | none => state.goto pid (.forking child (fd + 1))
    | some f =>
        let shared := state.filedup f
        let copied := shared.setProc child
          { state.proc child with
            ofile := Function.update (state.proc child).ofile ⟨fd, bound⟩ (some f) }
        copied.setProc pid { state.proc pid with pc := .forking child (fd + 1) }
  else
    (state.setProc child { state.proc child with status := .alive }).setProc pid
      { state.proc pid with pc := .idle }

/-- An iteration of the loop of `exit` over the descriptors. -/
def exitStep (state : State Pid) (pid : Pid) : State Pid :=
  let proc := state.proc pid
  match (List.finRange NOFILE).find? fun fd => (proc.ofile fd).isSome with
  | some fd =>
      match proc.ofile fd with
      | some f =>
          state.fileclose pid { proc with ofile := Function.update proc.ofile fd none } f
      | none => state
  | none => state.setProc pid { proc with status := .unused, pc := .idle }

/-- The next step of a process. -/
def runStep (state : State Pid) (pid : Pid) (memory : Bool) : Option (State Pid) :=
  match (state.proc pid).pipeclose with
  | some (pipe, writable) =>
      some ((state.closeEnd pipe writable).setProc pid
        { state.proc pid with pipeclose := none })
  | none =>
      match (state.proc pid).pc with
      | .idle => none
      | .opening => some (state.filealloc pid .opened .idle)
      | .opened f => some (state.openFile pid f)
      | .piping => some (state.filealloc pid .piped .idle)
      | .piped f0 => some (state.filealloc pid (.paired f0) (.closing [f0]))
      | .paired f0 f1 => some (state.pipeFiles pid f0 f1 memory)
      | .closing [] => some (state.goto pid .idle)
      | .closing (f :: rest) =>
          some (state.fileclose pid { state.proc pid with pc := .closing rest } f)
      | .forking child fd => some (state.forkStep pid child fd)
      | .exiting => some (state.exitStep pid)

/-- Enter a system call. -/
def callStep (state : State Pid) (pid : Pid) : Syscall → State Pid
  | .open => state.goto pid .opening
  | .pipe => state.goto pid .piping
  | .dup fd =>
      match (state.proc pid).ofile fd with
      | none => state
      | some f =>
          match fdalloc (state.proc pid) f with
          | none => state
          | some proc => (state.filedup f).setProc pid proc
  | .close fd =>
      match (state.proc pid).ofile fd with
      | none => state
      | some f =>
          state.setProc pid
            { state.proc pid with
              ofile := Function.update (state.proc pid).ofile fd none, pc := .closing [f] }
  | .exit => state.goto pid .exiting

/-- A process between calls. -/
def ready (state : State Pid) (pid : Pid) : Bool :=
  decide ((state.proc pid).status = .alive) && decide ((state.proc pid).pc = .idle) &&
    (state.proc pid).pipeclose.isNone

def step (state : State Pid) (action : Action Pid) : Option (State Pid) :=
  if state.panic.isSome then none
  else
    match action with
    | .call pid syscall => if state.ready pid then some (state.callStep pid syscall) else none
    | .run pid memory => state.runStep pid memory
    | .fork parent child =>
        if state.ready parent ∧ (state.proc child).status = .unused then
          some ((state.setProc child { state.proc child with status := .embryo }).setProc parent
            { state.proc parent with pc := .forking child 0 })
        else none

end State

variable {Pid : Type}

/-- The kernel with no open files and any processes. -/
structure IsFresh (state : State Pid) : Prop where
  file : ∀ f, state.file f = ⟨0, .FD_NONE⟩
  pipes : state.pipes = 0
  pipe : ∀ pipe, state.pipe pipe = ⟨fun _ => false, 0⟩
  ofile : ∀ pid fd, (state.proc pid).ofile fd = none
  idle : ∀ pid, (state.proc pid).pc = .idle ∧ (state.proc pid).pipeclose = none
  status : ∀ pid, (state.proc pid).status ≠ .embryo
  panic : state.panic = none

end Coursework.FileTable
