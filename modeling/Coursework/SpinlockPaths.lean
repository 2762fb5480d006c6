import Coursework.LockDiscipline

/-!
# Lock skeletons of the kernel

What the functions of the kernel acquire, release and call, in the order of the
source.  Branches and loops whose outcome depends on data may go either way, and
statements without locks are left out; consecutive loops without a call between
them are one loop.  An early `return` that releases what it holds is a branch to
the end of the function.  Calls that are made while no spinlock is held may also
be entered on their own, so that a system call is any sequence of them.
-/

namespace Coursework.Spinlocks

open LockMachine

/-- The spinlocks, with one for every pipe and one inside every sleep lock. -/
inductive KernelLock
  | ptable
  | cons
  | kmem
  | log
  | ide
  | ticks
  | bcache
  | icache
  | ftable
  | pipe (index : Nat)
  | sleeplock (index : Nat)
  deriving DecidableEq, Repr

inductive Routine
  | scheduler | forkret | yield | exit | wait | kill | chpr | cps | allocproc | fork
  | sleep | wakeup | cprintf | procdump
  | consoleintr | consoleread (inode : Nat) | consolewrite (inode : Nat)
  | kalloc | kfree | freevm
  | pipealloc | pipeclose (pipe : Nat) | pipewrite (pipe : Nat) | piperead (pipe : Nat)
  | beginOp | logWrite | endOp
  | iderw (buf : Nat) | ideintr
  | acquiresleep (lock : Nat) | releasesleep (lock : Nat) | holdingsleep (lock : Nat)
  | timer | sysSleep | sysUptime
  | bget (buf : Nat) | brelse (buf : Nat)
  | iget | idup | iput (inode : Nat)
  | filealloc | filedup | fileclose
  deriving DecidableEq, Repr

abbrev Code := List (Instr KernelLock Routine)

/-! ## Processes -/

/-- `sleep` of `proc.c`, given the lock to release. -/
def sleep (lk : KernelLock) : Code :=
  if lk = .ptable then [.sched]
  else [.acquire .ptable, .release lk, .sched, .release .ptable, .acquire lk]

def wakeup : Code := [.acquire .ptable, .release .ptable]

/-- `cprintf`, once `consoleinit` has set `cons.locking`. -/
def cprintf : Code := [.acquire .cons, .release .cons]

def kalloc : Code := [.acquire .kmem, .release .kmem]

def kfree : Code := [.acquire .kmem, .release .kmem]

def freevm : Code := [.loop [.call .kfree kfree]]

def scheduler : Code :=
  [.loop [.acquire .ptable, .loop [.dispatch], .release .ptable]]

def forkret : Code := [.release .ptable]

def yield : Code := [.acquire .ptable, .sched, .release .ptable]

def kill : Code := [.acquire .ptable, .release .ptable]

def chpr : Code := [.acquire .ptable, .release .ptable]

def allocproc : Code :=
  [.acquire .ptable, .either [.release .ptable] [.release .ptable, .call .kalloc kalloc]]

/-- `wait`: it scans and sleeps until it frees a child or gives up. -/
def wait : Code :=
  [.acquire .ptable,
    .loop [.call .sleep (sleep .ptable)],
    .either [.call .kfree kfree, .call .freevm freevm, .release .ptable]
      [.release .ptable]]

/-- `cps` prints the table while it holds `ptable.lock`. -/
def cps : Code :=
  [.acquire .ptable, .call .cprintf cprintf, .loop [.call .cprintf cprintf],
    .release .ptable]

def procdump : Code := [.loop [.call .cprintf cprintf]]

/-! ## The console -/

/-- `consoleintr`: each line that is typed wakes the readers. -/
def consoleintr : Code :=
  [.acquire .cons, .loop [.call .wakeup wakeup], .release .cons,
    .either [.call .procdump procdump] []]

def acquiresleep (lock : Nat) : Code :=
  [.acquire (.sleeplock lock), .loop [.call .sleep (sleep (.sleeplock lock))],
    .release (.sleeplock lock)]

def releasesleep (lock : Nat) : Code :=
  [.acquire (.sleeplock lock), .call .wakeup wakeup, .release (.sleeplock lock)]

def holdingsleep (lock : Nat) : Code :=
  [.acquire (.sleeplock lock), .release (.sleeplock lock)]

/-- `consoleread`, with `iunlock` before and `ilock` after it. -/
def consoleread (inode : Nat) : Code :=
  [.call (.releasesleep inode) (releasesleep inode), .acquire .cons,
    .loop [.call .sleep (sleep .cons)], .release .cons,
    .call (.acquiresleep inode) (acquiresleep inode)]

def consolewrite (inode : Nat) : Code :=
  [.call (.releasesleep inode) (releasesleep inode), .acquire .cons, .release .cons,
    .call (.acquiresleep inode) (acquiresleep inode)]

/-! ## Files, pipes, the log and the disk -/

def filealloc : Code := [.acquire .ftable, .release .ftable]

def filedup : Code := [.acquire .ftable, .release .ftable]

def fileclose : Code := [.acquire .ftable, .release .ftable]

def pipealloc : Code :=
  [.call .filealloc filealloc, .call .filealloc filealloc, .call .kalloc kalloc,
    .either [.call .kfree kfree, .call .fileclose fileclose] []]

def pipeclose (pipe : Nat) : Code :=
  [.acquire (.pipe pipe), .call .wakeup wakeup,
    .either [.release (.pipe pipe), .call .kfree kfree] [.release (.pipe pipe)]]

def pipewrite (pipe : Nat) : Code :=
  [.acquire (.pipe pipe),
    .loop [.call .wakeup wakeup, .call .sleep (sleep (.pipe pipe))],
    .either [.release (.pipe pipe)] [.call .wakeup wakeup, .release (.pipe pipe)]]

def piperead (pipe : Nat) : Code :=
  [.acquire (.pipe pipe), .loop [.call .sleep (sleep (.pipe pipe))],
    .either [.release (.pipe pipe)] [.call .wakeup wakeup, .release (.pipe pipe)]]

def beginOp : Code :=
  [.acquire .log, .loop [.call .sleep (sleep .log)], .release .log]

def logWrite : Code := [.acquire .log, .release .log]

/-- `end_op`; `commit` itself runs without a spinlock. -/
def endOp : Code :=
  [.acquire .log, .either [.call .wakeup wakeup] [], .release .log,
    .either [.acquire .log, .call .wakeup wakeup, .release .log] []]

def iderw (buf : Nat) : Code :=
  [.call (.holdingsleep buf) (holdingsleep buf), .acquire .ide,
    .loop [.call .sleep (sleep .ide)], .release .ide]

def ideintr : Code :=
  [.acquire .ide, .either [.release .ide] [.call .wakeup wakeup, .release .ide]]

def bget (buf : Nat) : Code :=
  [.acquire .bcache, .release .bcache, .call (.acquiresleep buf) (acquiresleep buf)]

def brelse (buf : Nat) : Code :=
  [.call (.holdingsleep buf) (holdingsleep buf),
    .call (.releasesleep buf) (releasesleep buf), .acquire .bcache, .release .bcache]

def iget : Code := [.acquire .icache, .release .icache]

def idup : Code := [.acquire .icache, .release .icache]

def iput (inode : Nat) : Code :=
  [.call (.acquiresleep inode) (acquiresleep inode),
    .either [.acquire .icache, .release .icache] [],
    .call (.releasesleep inode) (releasesleep inode), .acquire .icache, .release .icache]

/-- The clock interrupt on the first CPU. -/
def timer : Code := [.acquire .ticks, .call .wakeup wakeup, .release .ticks]

def sysSleep : Code :=
  [.acquire .ticks, .loop [.call .sleep (sleep .ticks)], .release .ticks]

def sysUptime : Code := [.acquire .ticks, .release .ticks]

def fork : Code :=
  [.call .allocproc allocproc, .loop [.call .kalloc kalloc],
    .either [.call .kfree kfree] [.loop [.call .filedup filedup], .call .idup idup,
      .acquire .ptable, .release .ptable]]

/-- `exit` from where it locks the table; what it closes before is entered on its
own. -/
def exit : Code := [.acquire .ptable, .sched, .panic]

/-! ## The kernel -/

/-- What a process can enter. -/
def calls : Routine → Option Code
  | .scheduler | .forkret | .sleep | .timer | .ideintr | .consoleintr => none
  | .yield => some yield
  | .exit => some exit
  | .wait => some wait
  | .kill => some kill
  | .chpr => some chpr
  | .cps => some cps
  | .allocproc => some allocproc
  | .fork => some fork
  | .wakeup => some wakeup
  | .cprintf => some cprintf
  | .procdump => some procdump
  | .consoleread inode => some (consoleread inode)
  | .consolewrite inode => some (consolewrite inode)
  | .kalloc => some kalloc
  | .kfree => some kfree
  | .freevm => some freevm
  | .pipealloc => some pipealloc
  | .pipeclose pipe => some (pipeclose pipe)
  | .pipewrite pipe => some (pipewrite pipe)
  | .piperead pipe => some (piperead pipe)
  | .beginOp => some beginOp
  | .logWrite => some logWrite
  | .endOp => some endOp
  | .iderw buf => some (iderw buf)
  | .acquiresleep lock => some (acquiresleep lock)
  | .releasesleep lock => some (releasesleep lock)
  | .holdingsleep lock => some (holdingsleep lock)
  | .sysSleep => some sysSleep
  | .sysUptime => some sysUptime
  | .bget buf => some (bget buf)
  | .brelse buf => some (brelse buf)
  | .iget => some iget
  | .idup => some idup
  | .iput inode => some (iput inode)
  | .filealloc => some filealloc
  | .filedup => some filedup
  | .fileclose => some fileclose

/-- What interrupts a CPU: the devices, a spurious interrupt that is reported on
the console, and on a process the clock tick that makes it yield. -/
def interrupts : Bool → Routine → Option Code
  | _, .timer => some timer
  | _, .ideintr => some ideintr
  | _, .consoleintr => some consoleintr
  | _, .cprintf => some cprintf
  | true, .yield => some yield
  | _, _ => none

def kernel : Kernel KernelLock Routine :=
  { switchLock := .ptable
    scheduler := ⟨.scheduler, scheduler⟩
    newThread := ⟨.forkret, forkret⟩
    calls := calls
    interrupts := interrupts }

end Coursework.Spinlocks
