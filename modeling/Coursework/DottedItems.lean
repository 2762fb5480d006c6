import Mathlib.Data.Set.Lattice
import Mathlib.Order.Closure
import Mathlib.Order.CompletePartialOrder

/-!
# LR(0) items

Items of a grammar over arbitrary symbols: a production with a dot in it.  The
closure of a set of items adds the productions of the symbols after a dot, and the
kernel for a symbol has the items in which the dot has been moved over it.
-/

namespace Coursework

variable {α : Type*}

/-- A production `lhs → done rest` with a dot after `done`. -/
@[ext]
structure DottedItem (α : Type*) where
  lhs : α
  done : List α
  rest : List α

namespace DottedItem

variable (productions : α → Set (List α))

/-- The productions of every symbol after a dot are there with the dot at the left. -/
def IsClosed (items : Set (DottedItem α)) : Prop :=
  ∀ item ∈ items, ∀ symbol rest, item.rest = symbol :: rest →
    ∀ rhs ∈ productions symbol, ⟨symbol, [], rhs⟩ ∈ items

theorem isClosed_sInter (families : Set (Set (DottedItem α)))
    (closed : ∀ items ∈ families, IsClosed productions items) :
    IsClosed productions (⋂₀ families) := by
  intro item member symbol rest isNext rhs isSide items isFamily
  exact closed items isFamily item (member items isFamily) symbol rest isNext rhs isSide

/-- The least closed set above a set of items. -/
def closure : ClosureOperator (Set (DottedItem α)) :=
  .ofCompletePred (IsClosed productions) (isClosed_sInter productions)

/-- The items with the dot moved over `symbol`. -/
def kernel (items : Set (DottedItem α)) (symbol : α) : Set (DottedItem α) :=
  {moved | ∃ item ∈ items, ∃ rest, item.rest = symbol :: rest ∧
    moved = ⟨item.lhs, item.done ++ [symbol], rest⟩}

variable {productions} {items more : Set (DottedItem α)}

theorem isClosed_iff : (closure productions).IsClosed items ↔ IsClosed productions items :=
  Iff.rfl

theorem closure_eq_of_isClosed (closed : IsClosed productions items) :
    closure productions items = items :=
  (isClosed_iff.mpr closed).closure_eq

/-- What lies between a set and its closure has the same closure. -/
theorem closure_eq_of_between (le : items ⊆ more) (within : more ⊆ closure productions items) :
    closure productions more = closure productions items := by
  apply le_antisymm
  · exact (closure productions).closure_min within ((closure productions).isClosed_closure _)
  · exact (closure productions).monotone le

theorem expand_mem_closure {item : DottedItem α} (member : item ∈ closure productions items)
    {symbol : α} {rest rhs : List α} (isNext : item.rest = symbol :: rest)
    (isSide : rhs ∈ productions symbol) : ⟨symbol, [], rhs⟩ ∈ closure productions items :=
  isClosed_iff.mp ((closure productions).isClosed_closure items) item member symbol rest isNext
    rhs isSide

end DottedItem

end Coursework
