import EmkKernel.Memory.Basic
import Mathlib.Logic.Function.Basic

/-!
# The stack

`utils::stack::Stack`: slots in fresh memory and the number of slots in use. The top
of an empty stack is its first slot. A call that panics has no value.
-/

namespace EmkKernel

structure Stack (T : Type) where
  slots : Nat → T
  capacity : Nat
  inserted : Nat

namespace Stack

variable {T : Type}

/-- `Stack::new`; the memory it allocates holds zeros. -/
def new (zero : T) (sizeOfEntry capacity : Nat) : Stack T where
  slots := fun _ => zero
  capacity := (capacity * sizeOfEntry + 0xFFF) / 0x1000 * 0x1000 / sizeOfEntry
  inserted := 0

variable (self : Stack T)

def numOccupied : Nat := self.inserted

/-- `ref_top`. -/
def refTop : T := self.slots (self.inserted - 1)

/-- `*mut_top() = val`. -/
def setTop (val : T) : Stack T :=
  { self with slots := Function.update self.slots (self.inserted - 1) val }

def push (val : T) : Option (Stack T) :=
  if self.inserted + 1 > self.capacity then none
  else some { self with
    slots := Function.update self.slots self.inserted val
    inserted := self.inserted + 1 }

def popSilent : Option (Stack T) :=
  if self.inserted = 0 then none else some { self with inserted := self.inserted - 1 }

def pop : Option (T × Stack T) :=
  if self.inserted = 0 then none
  else some (self.refTop, { self with inserted := self.inserted - 1 })

/-- The values on the stack, the oldest first. -/
def values : List T := (List.range self.inserted).map self.slots

end Stack

end EmkKernel
