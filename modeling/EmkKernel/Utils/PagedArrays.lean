import EmkKernel.Drivers.Reads
import EmkKernel.Utils.PageAllocator

/-!
# Arrays in pages

`PageAllocator` and `DynamicAllocator` of `utils::allocators` and `List` of `utils::list`,
with the memory behind them. Only a `DynamicAllocator` grows: it copies its values into
twice the pages. A value of a type is its bytes.
-/

namespace EmkKernel

/-- The bytes of a value. -/
abbrev ValueBytes (size : Nat) := Fin size → Byte

namespace IoMachine

/-- `alloc_zero`. -/
def allocZero (pages : Nat) : IoM (Except MemoryResult MemoryBlock) := do
  let m ← get
  match (m.allocator.alloc pages).value with
  | (.ok mb, a) =>
    set {
      memory := copyInto m.memory mb.base (8 * (mb.length / 8 % 2 ^ 32)) fun _ => 0
      allocator := a : IoMachine }
    pure (.ok mb)
  | (.error (.err e), a) =>
    set { m with allocator := a }
    pure (.error e)
  | (.error .panic, _) => throw .panic

def free (mb : MemoryBlock) : IoM (Except MemoryResult Unit) := do
  let m ← get
  match (m.allocator.free mb).value with
  | (.ok _, a) =>
    set { m with allocator := a }
    pure (.ok ())
  | (.error (.err e), a) =>
    set { m with allocator := a }
    pure (.error e)
  | (.error .panic, _) => throw .panic

/-- `memcpy_qword`: one quadword after the other. -/
def copyQwords (memory : Nat → Byte) (dst src : Nat) : Nat → Nat → Byte
  | 0 => memory
  | n + 1 => copyQwords (copyInto memory dst 8 fun i => memory (src + i)) (dst + 8) (src + 8) n

/-- The value behind a reference. -/
def valueAt (size : Nat) (memory : Nat → Byte) (address : Nat) : ValueBytes size :=
  fun j => memory (address + j)

/-- `*reference = data`. -/
def storeValue {size : Nat} (memory : Nat → Byte) (address : Nat) (data : ValueBytes size)
    (a : Nat) : Byte :=
  if inside : address ≤ a ∧ a - address < size then data ⟨a - address, inside.2⟩ else memory a

end IoMachine

open IoMachine

/-- The fields that `PageAllocator` and `DynamicAllocator` have in common. -/
structure PagedArray where
  memory : MemoryBlock
  ptr : Nat
  allocated : Nat
  capacity : Nat
  deriving DecidableEq, Repr

namespace PagedArray

variable (self : PagedArray) {size : Nat}

/-- `empty` and `default`. -/
def empty : PagedArray := ⟨⟨0, 0⟩, 0, 0, 0⟩

/-- The pages of that many bytes. -/
def pagesNeeded (bytes : Nat) : Nat := (if bytes % 0x1000 ≠ 0 then 1 else 0) + bytes / 0x1000

/-- The pages counted in `u16`: the whole ones are cast to it and added. -/
def initialPages (bytes : Nat) : Option Nat :=
  let pages := (if bytes % 0x1000 ≠ 0 then 1 else 0) + bytes / 0x1000 % 2 ^ 16
  if pages < 2 ^ 16 then some pages else none

/-- `bytes / size`. -/
def elementsIn (bytes size : Nat) : Option Nat := if size = 0 then none else some (bytes / size)

/-- `new` with `initialize`, which both have. -/
def new (size capacity : Nat) : IoM PagedArray := do
  let bytes ← orPanic (mulU32 capacity (size % 2 ^ 32))
  let pages ← orPanic (initialPages bytes)
  let capacity ← orPanic (elementsIn (pages * 0x1000) (size % 2 ^ 32))
  match ← allocZero pages with
  | .ok memory => pure ⟨memory, memory.base, 0, capacity⟩
  | .error _ => throw .panic

/-- `self.ptr.add(index)`. -/
def address (size index : Nat) : Nat := self.ptr + size * index

/-- The end of both `push_back`s. -/
def append (data : ValueBytes size) : IoM PagedArray := do
  modify fun m => { m with
    memory := storeValue m.memory (self.address size self.allocated) data }
  let allocated ← orPanic (addU32 self.allocated 1)
  pure { self with allocated }

/-- A reference from a pointer: there is none from a null pointer. -/
def asReference (address : Nat) : Option Nat := if address = 0 then none else some address

/-- `PageAllocator::push_back`. -/
def pushBackFixed (data : ValueBytes size) : IoM (Bool × PagedArray) := do
  let next ← orPanic (addU32 self.allocated 1)
  if next > self.capacity then pure (false, self)
  else do
    let self ← self.append data
    pure (true, self)

/-- `PageAllocator::as_ref`; `as_mut` makes the same checks. -/
def asRef (size index : Nat) : Option Nat :=
  if index > self.allocated then none else asReference (self.address size index)

/-- The second part of the growth: the values are copied and the old memory is given back. -/
def moveTo (newMemory : MemoryBlock) : IoM (Except MemoryResult PagedArray) := do
  modify fun m => { m with
    memory := copyQwords m.memory newMemory.base self.memory.base
      (self.memory.length / 8 % 2 ^ 32) }
  match ← IoMachine.free self.memory with
  | .error e => do
    let _ ← IoMachine.free newMemory
    pure (.error e)
  | .ok _ => do
    let capacity ← orPanic (mulU32 self.capacity 2)
    pure (.ok { self with memory := newMemory, ptr := newMemory.base, capacity })

/-- The growth in `DynamicAllocator::push_back`: twice the pages that the values fill. -/
def grow (size : Nat) : IoM (Except MemoryResult PagedArray) := do
  let bytes ← orPanic (mulU32 self.capacity (size % 2 ^ 32))
  let pages ← orPanic (mulU32 (pagesNeeded bytes) 2)
  match ← allocZero (pages % 2 ^ 16) with
  | .error e => pure (.error e)
  | .ok newMemory => self.moveTo newMemory

/-- `DynamicAllocator::push_back`. -/
def pushBackGrowing (data : ValueBytes size) : IoM (Option MemoryResult × PagedArray) := do
  let next ← orPanic (addU32 self.allocated 1)
  if next > self.capacity then
    match ← self.grow size with
    | .error e => pure (some e, self)
    | .ok self => do
      let self ← self.append data
      pure (none, self)
  else do
    let self ← self.append data
    pure (none, self)

/-- `DynamicAllocator::ref_const`; `as_ref_ptr` and `as_mut_ptr` of `PageAllocator` make the same
check. -/
def refConst (size index : Nat) : Option Nat :=
  if index > self.allocated then none else some (self.address size index)

end PagedArray

/-- `utils::list::List`. -/
structure PagedList where
  memory : MemoryBlock
  ptr : Nat
  entries : Nat
  deriving DecidableEq, Repr

namespace PagedList

/-- `empty` and `default`. -/
def empty : PagedList := ⟨⟨0, 0⟩, 0, 0⟩

def new (memory : MemoryBlock) (entries : Nat) : PagedList := ⟨memory, memory.base, entries⟩

/-- `ref_const`; `ref_mut` makes the same checks. -/
def refConst (self : PagedList) (size index : Nat) : Option Nat :=
  if index > self.entries then none else PagedArray.asReference (self.ptr + size * index)

end PagedList

/-- `DynamicAllocator::to_list`. -/
def PagedArray.toList (self : PagedArray) : PagedList := .new self.memory self.allocated

end EmkKernel
