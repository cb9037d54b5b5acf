import Rsx.Book.Types
import Rsx.Lib.LinkedList

/-!
# The order slab

`slab.rs`: a fixed-capacity arena whose free slots are chained through their own `next` field.
-/

namespace Rsx.Book

class SlabItem (α : Type) where
  next : α → Nat
  setNext : α → Nat → α

instance : SlabItem OrderSlot where
  next := OrderSlot.next
  setNext slot next := { slot with next := next }

instance : Inhabited OrderSlot := ⟨{}⟩

structure Slab (α : Type) where
  slots : Nat → α
  capacity : Nat
  freeHead : Nat := NONE
  bumpNext : Nat := 0

namespace Slab

variable {α : Type}

def new [Inhabited α] (capacity : Nat) : Slab α :=
  { slots := fun _ => default, capacity := capacity }

def get (s : Slab α) (idx : Nat) : α :=
  s.slots idx

def modify (s : Slab α) (idx : Nat) (f : α → α) : Slab α :=
  { s with slots := Function.update s.slots idx (f (s.slots idx)) }

def alloc [SlabItem α] (s : Slab α) : Option (Nat × Slab α) :=
  if s.freeHead ≠ NONE then
    some (s.freeHead, { s with freeHead := SlabItem.next (s.slots s.freeHead) })
  else if s.bumpNext < s.capacity then
    some (s.bumpNext, { s with bumpNext := s.bumpNext + 1 })
  else
    none

def free [SlabItem α] (s : Slab α) (idx : Nat) : Slab α :=
  { s.modify idx (SlabItem.setNext · s.freeHead) with freeHead := idx }

/-- The items linked from `cursor` through `next`, as the read-only walks of the book visit them.
A list of distinct handles is no longer than the capacity, which bounds the walk. -/
def walk [SlabItem α] (s : Slab α) (cursor : Nat) : List Nat :=
  LinkedList.follow (fun idx => SlabItem.next (s.slots idx)) NONE s.capacity cursor

end Slab

end Rsx.Book
