import EmkKernel.Drivers.Disk

/-!
# Files

`vfs::gfs::file::GfsFile`: the three ways to read a file. What reads the blocks of a list
of pointers is a part of the file system that they are given.
-/

namespace EmkKernel

/-- The fields of `GfsFile` that reading uses. -/
structure GfsFile where
  fsIndex : Nat
  directDataPointers : List Nat
  singlyIndirectDataPointer : Nat
  size : Nat
  virtualization : Nat

/-- `GfsFsType` with the block size of its superblock. -/
inductive GfsFsType where
  | ext2 (blockSize : Nat)
  | nothing

/-- The parts of `GeneralFileSystem` that reading uses. -/
structure GeneralFileSystem where
  detectedFileSystems : Nat → GfsFsType
  readPointersIntoBuffer : Buffer → List Nat → Nat → Nat → IoM Nat
  readSinglyIndirectPointerBlock : Buffer → Nat → Nat → Nat → IoM Nat

namespace GeneralFileSystem

variable (self : GeneralFileSystem)

/-- `1024 << superblock.block_size`. -/
def blockSize (fsIndex : Nat) : Nat :=
  match self.detectedFileSystems fsIndex with
  | .ext2 blockSize => 1024 * 2 ^ blockSize
  | .nothing => 0

def alignSizeToBlocks (size fsIndex : Nat) : Nat :=
  match self.detectedFileSystems fsIndex with
  | .ext2 blockSize =>
    let blockSizeInBytes := 1024 * 2 ^ blockSize
    let newSize := size / blockSizeInBytes * blockSizeInBytes
    if newSize ≠ size then newSize + blockSizeInBytes else newSize
  | .nothing => 0

end GeneralFileSystem

/-- `unwrap` of a read. -/
def unwrapRead {α : Type} (x : IoM α) : IoM α := tryCatch x fun _ => throw .panic

namespace GfsFile

variable (self : GfsFile)

/-- What `read` and `read_virtual` share: the direct pointers, then the singly indirect ones
if the file is larger than those. A file that may need more has no implementation. -/
def readBlocks (gfs : GeneralFileSystem) (scheduler : Nat) (buffer : Buffer) : IoM Unit := do
  let bufferOffset ← unwrapRead
    (gfs.readPointersIntoBuffer buffer self.directDataPointers self.fsIndex scheduler)
  let maxBytesForDirectPointers ← orPanic (mulU32 12 (gfs.blockSize self.fsIndex))
  if maxBytesForDirectPointers ≥ self.size then
    pure ()
  else
    let maxBytesForSinglyIndirectPointers :=
      gfs.blockSize self.fsIndex / 4 * gfs.blockSize self.fsIndex
    let length ← orPanic (subUnsigned buffer.originalSize bufferOffset)
    let sub ← orPanic (buffer.subBuffer bufferOffset length)
    let _ ← unwrapRead (gfs.readSinglyIndirectPointerBlock sub self.singlyIndirectDataPointer
      self.fsIndex scheduler)
    if maxBytesForSinglyIndirectPointers > self.size - maxBytesForDirectPointers then
      pure ()
    else
      throw .panic

/-- The flag tells that the buffer must not be deallocated. -/
def read (gfs : GeneralFileSystem) (scheduler : Nat) : IoM (Buffer × Bool) := do
  if self.virtualization ≠ 0 then
    pure (⟨self.virtualization, Buffer.roundToPages self.size, self.size, true⟩, true)
  else
    let buffer ← Buffer.new false (gfs.alignSizeToBlocks self.size self.fsIndex)
    self.readBlocks gfs scheduler buffer
    pure (buffer, false)

/-- The blocks are read to the physical block, and the buffer has the virtual address. -/
def readVirtual (gfs : GeneralFileSystem) (scheduler : Nat) (allocator : VirtualAllocator) :
    IoM ((Buffer × Bool) × VirtualAllocator) := do
  if self.virtualization ≠ 0 then
    pure ((⟨self.virtualization, self.size, self.size, true⟩, true), allocator)
  else
    let ((buffer, mb), allocator) ← Buffer.newPhysicalVirtual allocator false
      (gfs.alignSizeToBlocks self.size self.fsIndex)
    self.readBlocks gfs scheduler buffer
    pure ((⟨mb.base, mb.length, self.size, true⟩, false), allocator)

def virtualizeVirtual (gfs : GeneralFileSystem) (scheduler : Nat) (allocator : VirtualAllocator) :
    IoM ((Bool × GfsFile) × VirtualAllocator) := do
  if self.virtualization ≠ 0 then
    pure ((false, self), allocator)
  else
    let ((buffer, _), allocator) ← self.readVirtual gfs scheduler allocator
    pure ((true, { self with virtualization := buffer.ptr }), allocator)

end GfsFile

end EmkKernel
