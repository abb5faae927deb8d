import EmkKernel.Drivers.Disk

/-!
# Reading the blocks of a file

`pfs::linux::PhysicalExt2`: the pointers of an inode and those of a pointer block are
read in series of consecutive blocks, each with one access to the disk.
-/

namespace EmkKernel

/-- The fields of `PhysicalExt2` that reading uses. -/
structure PhysicalExt2 where
  startingLba : Nat
  blockSize : Nat

namespace PhysicalExt2

variable (self : PhysicalExt2)

/-- `1024 << self.block_size`. -/
def blockBytes : Nat := 1024 * 2 ^ self.blockSize

/-- The loop over the pointers, and whether it came to the end of them. `address` is the
sector of a block and `next` the start of the series behind a pointer that breaks one. -/
def readSeries (buffer : Buffer) (disk : Disk) (scheduler : Nat) (address : Nat → Option Nat)
    (next : Nat → Nat → Option Nat) : Nat → Nat → Nat → List Nat → IoM (Nat × Bool)
  | _, _, offset, [] => pure (offset, true)
  | base, series, offset, pointer :: rest => do
    let expected ← orPanic (addU32 base series)
    if expected ≠ pointer ∨ rest = [] ∧ series ≠ 0 then
      let lba ← orPanic (address base)
      let sub ← orPanic (buffer.subBuffer offset (series * self.blockBytes))
      match ← disk.readIntoBuffer lba sub scheduler with
      | .success =>
        let base ← orPanic (next base pointer)
        let offset := offset + series * self.blockBytes
        if pointer = 0 then
          pure (offset, false)
        else
          readSeries buffer disk scheduler address next base 0 offset rest
      | r => throw (.diskError r)
    else
      readSeries buffer disk scheduler address next base (series + 1) offset rest

/-- The block address is computed in `u32`, and `base += *pointer`. -/
def readPointerContentIntoBuffer (buffer : Buffer) (pointers : List Nat) (disk : Disk)
    (scheduler : Nat) : IoM Nat := do
  let base ← orPanic pointers.head?
  let address := fun base =>
    (mulU32 base self.blockBytes).map fun bytes => self.startingLba + bytes / disk.sectorSize
  let (offset, _) ← self.readSeries buffer disk scheduler address addU32 base 0 0 pointers
  pure offset

/-- `slice::from_raw_parts(pointer_buffer, (1024 << self.block_size) / 4)`; nothing is
written to the slice while it is in use. -/
def rawPointers (memory : Nat → Byte) (address : Nat) : List Nat :=
  (List.range (self.blockBytes / 4)).map fun i => littleEndian memory (address + 4 * i) 4

/-- The return at a zero pointer leaves the pointer buffer allocated. -/
def readSinglyIndirectPointerBlock (buffer : Buffer) (blockPointer : Nat) (disk : Disk)
    (scheduler : Nat) : IoM Nat := do
  let pointerBuffer ← Buffer.new false self.blockBytes
  let address := fun base => some (self.startingLba + base * self.blockBytes / disk.sectorSize)
  match ← disk.readIntoBuffer (self.startingLba + blockPointer * self.blockBytes / disk.sectorSize)
    pointerBuffer scheduler with
  | .success =>
    let m ← get
    let pointers := self.rawPointers m.memory pointerBuffer.ptr
    let base ← orPanic pointers.head?
    let (offset, finished) ← pointerBuffer.releaseOnError
      (self.readSeries buffer disk scheduler address (fun _ pointer => some pointer)
        base 0 0 pointers)
    if finished then
      pointerBuffer.release
    pure offset
  | r =>
    pointerBuffer.release
    throw (.diskError r)

end PhysicalExt2

end EmkKernel
