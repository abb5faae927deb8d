import EmkKernel.Library.Yields
import EmkKernel.Memory.Allocator

/-!
# Disks and buffers

`utils::buffer::Buffer` and the `Disk` trait of `drivers::disk`. A disk is the bytes on
it; `read_into_buffer` is the one of a drive that works: it makes the checks of
`drivers::disk::nvme` and reads whole sectors to the address of the buffer.
-/

namespace EmkKernel

structure Buffer where
  ptr : Nat
  allocatedSize : Nat
  originalSize : Nat
  readonly : Bool
  deriving DecidableEq, Repr

inductive DiskIOResult where
  | success
  | invalidScheduler
  | invalidLba
  | invalidSize
  | bufferReadonly
  deriving DecidableEq, Repr

/-- The bytes of memory and the physical allocator. -/
structure IoMachine where
  memory : Nat → Byte
  allocator : Allocator

/-- `GfsReadError::DiskError`, or a panic. -/
inductive IoStop where
  | diskError (r : DiskIOResult)
  | panic
  deriving DecidableEq, Repr

abbrev IoM := EStateM IoStop IoMachine

/-- The value, or a panic: `unwrap` and the arithmetic that is checked. -/
def orPanic {α : Type} : Option α → IoM α
  | some a => pure a
  | none => throw .panic

/-- A sum in `u32`. -/
def addU32 (a b : Nat) : Option Nat := if a + b < 2 ^ 32 then some (a + b) else none

/-- A sum in `u64`. -/
def sumU64 (a b : Nat) : Option Nat := if a + b < 2 ^ 64 then some (a + b) else none

/-- A product in `u32`. -/
def mulU32 (a b : Nat) : Option Nat := if a * b < 2 ^ 32 then some (a * b) else none

/-- A product in `u64`. -/
def mulU64 (a b : Nat) : Option Nat := if a * b < 2 ^ 64 then some (a * b) else none

/-- A difference of unsigned numbers. -/
def subUnsigned (a b : Nat) : Option Nat := if a < b then none else some (a - b)

/-- `VirtualAllocator`: an allocator of virtual addresses, and the block behind them. -/
structure VirtualAllocator where
  physical : MemoryBlock
  allocator : Allocator

namespace Buffer

/-- The size rounded up to pages. -/
def roundToPages (size : Nat) : Nat :=
  if size % 0x1000 ≠ 0 then size + (0x1000 - size % 0x1000) else size

/-- `Buffer::new`; the number of pages is cast to `u16`. -/
def new (readonly : Bool) (size : Nat) : IoM Buffer := do
  let allocatedSize := roundToPages size
  let m ← get
  match (m.allocator.alloc (allocatedSize / 0x1000 % 2 ^ 16)).value with
  | (.ok mb, a) =>
    set { m with allocator := a }
    pure ⟨mb.base, allocatedSize, size, readonly⟩
  | (.error _, a) =>
    set { m with allocator := a }
    throw .panic

/-- `Buffer::new_physical_virtual`: the buffer of the physical bytes and the virtual block. -/
def newPhysicalVirtual (allocator : VirtualAllocator) (readonly : Bool) (size : Nat) :
    IoM ((Buffer × MemoryBlock) × VirtualAllocator) :=
  let allocatedSize := roundToPages size
  match (allocator.allocator.alloc (allocatedSize / 0x1000 % 2 ^ 16)).value with
  | (.ok mb, a) =>
    let ptr := allocator.physical.base + (mb.base - allocator.allocator.addend)
    if ptr < 2 ^ 64 then
      pure ((⟨ptr, allocatedSize, size, readonly⟩, mb), { allocator with allocator := a })
    else throw .panic
  | (.error _, _) => throw .panic

variable (self : Buffer)

def subBuffer (offset length : Nat) : Option Buffer :=
  if offset > self.originalSize then none else some ⟨self.ptr + offset, 0, length, self.readonly⟩

def release : IoM Unit := do
  let m ← get
  match (m.allocator.free ⟨self.ptr, self.allocatedSize⟩).value with
  | (.ok _, a) => set { m with allocator := a }
  | (.error _, a) =>
    set { m with allocator := a }
    throw .panic

/-- A computation whose disk errors release the buffer. -/
def releaseOnError {α : Type} (x : IoM α) : IoM α :=
  tryCatch x fun
    | .diskError r => do
      self.release
      throw (.diskError r)
    | .panic => throw .panic

end Buffer

structure Disk where
  identifier : Nat
  content : Nat → Byte
  sectorSize : Nat
  numSectors : Nat
  queuesImplemented : Nat

/-- The memory with `n` bytes from `source` on at `address`. -/
def copyInto (memory : Nat → Byte) (address n : Nat) (source : Nat → Byte) : Nat → Byte :=
  fun a => if address ≤ a ∧ a < address + n then source (a - address) else memory a

def Disk.readIntoBuffer (disk : Disk) (lba : Nat) (buffer : Buffer) (scheduler : Nat) :
    IoM DiskIOResult := do
  if scheduler > disk.queuesImplemented - 1 ∨ scheduler = 0 then
    pure .invalidScheduler
  else if buffer.readonly then
    pure .bufferReadonly
  else
    let sectorsToBeRead := buffer.originalSize / disk.sectorSize +
      if buffer.originalSize % disk.sectorSize ≠ 0 then 1 else 0
    let upper ← orPanic (sumU64 lba sectorsToBeRead)
    if upper > disk.numSectors then
      pure .invalidLba
    else
      modify fun m => { m with
        memory := copyInto m.memory buffer.ptr (sectorsToBeRead * disk.sectorSize)
          fun i => disk.content (lba * disk.sectorSize + i) }
      pure .success

end EmkKernel
