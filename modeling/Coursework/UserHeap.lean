import Coursework.FreeSpans
import Coursework.NodeCycles
import Coursework.PageTables
import Coursework.TransitionRuns

/-!
# The allocator of user programs

`malloc` and `free` keep the free blocks in a circular list in the order of their
addresses.  Every block begins with a header, which points to the next free block and holds
the size of the block in headers; the list goes through the header `base`, which has size
0.  `malloc` takes the end of the first block that is large enough, and asks `sbrk` for more
when it has gone round; `free` finds the place of a block and joins it with its neighbours.

Addresses and sizes are numbers.  The memory of a process ends below `KERNBASE`, so no sum
of an address and a size wraps around.  A loop has a number of turns after which the model
gives up.
-/

namespace Coursework.UserHeap

open Paging (KERNBASE)

/-- `sizeof(Header)`. -/
def HEADER : Nat := 8

structure Header where
  ptr : Nat
  size : Nat

/-- A pointer that `malloc` has returned, with the number of bytes asked for. -/
structure Allocation where
  ap : Nat
  nbytes : Nat
  deriving DecidableEq

/-- The headers in memory by their addresses, and the variable `freep`.  For the proofs: the
allocations that were not freed, the regions that `sbrk` returned, and the end of the
process. -/
structure State where
  header : Nat → Header
  freep : Nat
  live : List Allocation
  regions : List Span
  brk : Nat

/-- The client calls `malloc` and `free`, and writes into its allocations, which changes what
stands there instead of headers.  With a call of `malloc` comes what `sbrk` does if it is
called, with a call of either the number of turns. -/
inductive Action
  | malloc (nbytes : Nat) (gap : Option Nat) (fuel : Nat)
  | free (allocation : Allocation) (fuel : Nat)
  | write (addr : Nat) (header : Header)

/-- The number of headers that an allocation needs. -/
def units (nbytes : Nat) : Nat := (nbytes + HEADER - 1) % UINT / HEADER + 1

namespace State

def setHeader (state : State) (p : Nat) (header : Header) : State :=
  { state with header := Function.update state.header p header }

/-! ## `free` -/

/-- The loop of `free`, which ends where `bp` belongs. -/
def position (state : State) (bp fuel : Nat) : Option Nat :=
  walkUntil (fun p =>
    (bp > p ∧ bp < (state.header p).ptr) ∨
      (p ≥ (state.header p).ptr ∧ (bp > p ∨ bp < (state.header p).ptr)))
    (fun p => (state.header p).ptr) fuel state.freep

/-- Let `p` point to `next`, or to what comes after it if `next` follows `p` in memory and is
joined with it. -/
def attach (state : State) (p next : Nat) : State :=
  if p + (state.header p).size * HEADER = next then
    state.setHeader p
      { ptr := (state.header next).ptr
        size := (state.header p).size + (state.header next).size }
  else state.setHeader p { state.header p with ptr := next }

def free (state : State) (fuel ap : Nat) : Option State :=
  let bp := ap - HEADER
  (state.position bp fuel).map fun p =>
    let state := state.attach bp (state.header p).ptr
    { state.attach p bp with freep := p }

/-! ## `malloc` -/

/-- `sbrk`: it fails, or returns a region at or behind the end of the process. -/
def sbrk (state : State) (gap : Option Nat) (bytes : Nat) : Option Nat :=
  gap.bind fun gap =>
    if state.brk + gap + bytes ≤ KERNBASE then some (state.brk + gap) else none

/-- `morecore`, with the block to go on from. -/
def morecore (state : State) (fuel : Nat) (gap : Option Nat) (nu : Nat) :
    Option (State × Option Nat) :=
  let nu := if nu < 4096 then 4096 else nu
  match state.sbrk gap (nu * HEADER) with
  | none => some (state, none)
  | some p =>
      let state :=
        { state.setHeader p { state.header p with size := nu } with
          regions := ⟨p, p + nu * HEADER⟩ :: state.regions
          brk := p + nu * HEADER }
      (state.free fuel (p + HEADER)).map fun state => (state, some state.freep)

/-- Take `nunits` headers from the end of the block `p`, or all of it. -/
def take (state : State) (prevp p nunits : Nat) : State × Nat :=
  if (state.header p).size = nunits then
    ({ state.setHeader prevp { state.header prevp with ptr := (state.header p).ptr } with
        freep := prevp }, p + HEADER)
  else
    let rest := (state.header p).size - nunits
    let taken := p + rest * HEADER
    let state := state.setHeader p { state.header p with size := rest }
    ({ state.setHeader taken { state.header taken with size := nunits } with freep := prevp },
      taken + HEADER)

/-- The loop of `malloc`. -/
def search (freeFuel : Nat) (gap : Option Nat) (nunits : Nat) :
    Nat → State → Nat → Nat → Option (State × Nat)
  | 0, _, _, _ => none
  | fuel + 1, state, prevp, p =>
      if (state.header p).size ≥ nunits then some (state.take prevp p nunits)
      else if p = state.freep then
        match state.morecore freeFuel gap nunits with
        | none => none
        | some (state, none) => some (state, 0)
        | some (state, some p) => search freeFuel gap nunits fuel state p (state.header p).ptr
      else search freeFuel gap nunits fuel state p (state.header p).ptr

/-- The list with the header `base` alone. -/
def start (state : State) (base : Nat) : State :=
  if state.freep = 0 then
    { state.setHeader base { ptr := base, size := 0 } with freep := base }
  else state

def malloc (state : State) (base fuel : Nat) (gap : Option Nat) (nbytes : Nat) :
    Option (State × Nat) :=
  let state := state.start base
  search fuel gap (units nbytes) fuel state state.freep (state.header state.freep).ptr

/-! ## Steps -/

/-- The block of an allocation. -/
def span (state : State) (allocation : Allocation) : Span where
  start := allocation.ap - HEADER
  stop := allocation.ap - HEADER + (state.header (allocation.ap - HEADER)).size * HEADER

def step (base : Nat) (state : State) : Action → Option State
  | .malloc nbytes gap fuel =>
      if nbytes < 2 ^ 30 then
        (state.malloc base fuel gap nbytes).map fun returned =>
          if returned.2 = 0 then returned.1
          else { returned.1 with live := ⟨returned.2, nbytes⟩ :: returned.1.live }
      else none
  | .free allocation fuel =>
      if allocation ∈ state.live then
        (state.free fuel allocation.ap).map fun after =>
          { after with live := after.live.erase allocation }
      else none
  | .write addr header =>
      if state.live.any fun allocation =>
          (state.span allocation).start < addr ∧ addr < (state.span allocation).stop then
        some (state.setHeader addr header)
      else none

end State

/-- The allocator before its first call, with `base` in the memory of the process. -/
structure IsInitial (base : Nat) (state : State) : Prop where
  base : 0 < base ∧ base + HEADER ≤ state.brk
  freep : state.freep = 0
  live : state.live = []
  regions : state.regions = []

end Coursework.UserHeap
