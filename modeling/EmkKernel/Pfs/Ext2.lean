import EmkKernel.Pfs.DiskScanner
import EmkKernel.Pfs.Linux

/-!
# The block groups and inodes of a partition

`pfs::linux::PhysicalExt2::load` and what it finds inodes with. The table of the block
groups is a slice of memory; a product, a sum or a shift that leaves its width panics.
-/

namespace EmkKernel

/-- A quotient of unsigned numbers. -/
def divUnsigned (a b : Nat) : Option Nat := if b = 0 then none else some (a / b)

/-- A remainder of unsigned numbers. -/
def remUnsigned (a b : Nat) : Option Nat := if b = 0 then none else some (a % b)

/-- A shift to the left in `u32`. The amount is checked, the bits that are lost are not. -/
def shlU32 (a k : Nat) : Option Nat := if k < 32 then some (a * 2 ^ k % 2 ^ 32) else none

/-- A shift to the left in `u64`. -/
def shlU64 (a k : Nat) : Option Nat := if k < 64 then some (a * 2 ^ k % 2 ^ 64) else none

/-- `PhysicalExt2BlockGroup`, laid out in the order of its declaration. -/
structure PhysicalExt2BlockGroup where
  blockOfBlockUsageBitmap : Nat
  blockOfInodeUsageBitmap : Nat
  blockAddressOfInodeTable : Nat
  numberUnallocatedBlocks : Nat
  numberUnallocatedInodes : Nat
  directoryCount : Nat
  deriving DecidableEq, Repr

/-- 18 bytes of fields, aligned to 4 bytes. -/
def PhysicalExt2BlockGroup.sizeOf : Nat := 20

def PhysicalExt2BlockGroup.at (memory : Nat → Byte) (address : Nat) : PhysicalExt2BlockGroup where
  blockOfBlockUsageBitmap := littleEndian memory address 4
  blockOfInodeUsageBitmap := littleEndian memory (address + 4) 4
  blockAddressOfInodeTable := littleEndian memory (address + 8) 4
  numberUnallocatedBlocks := littleEndian memory (address + 12) 2
  numberUnallocatedInodes := littleEndian memory (address + 14) 2
  directoryCount := littleEndian memory (address + 16) 2

/-- `n` numbers of four bytes. -/
def wordsAt (memory : Nat → Byte) (address n : Nat) : List Nat :=
  (List.range n).map fun i => littleEndian memory (address + 4 * i) 4

/-- `PhysicalExt2Inode`, which is `repr(C, align(4))`. -/
structure PhysicalExt2Inode where
  typeAndPermissions : Nat
  userId : Nat
  lowSize : Nat
  lastAccessSize : Nat
  creationTime : Nat
  lastModificationTime : Nat
  deletionTime : Nat
  groupId : Nat
  hardLinksCount : Nat
  diskSectorsUsed : Nat
  flags : Nat
  osSpecific : Nat
  directBlockPointers : List Nat
  singlyIndirectBlockPointer : Nat
  doublyIndirectBlockPointer : Nat
  triplyIndirectBlockPointer : Nat
  generationNumber : Nat
  reserved : List Nat
  fragmentBlockAddress : Nat
  osSpecificValue : List Nat
  deriving DecidableEq, Repr

def PhysicalExt2Inode.at (memory : Nat → Byte) (address : Nat) : PhysicalExt2Inode where
  typeAndPermissions := littleEndian memory address 2
  userId := littleEndian memory (address + 2) 2
  lowSize := littleEndian memory (address + 4) 4
  lastAccessSize := littleEndian memory (address + 8) 4
  creationTime := littleEndian memory (address + 12) 4
  lastModificationTime := littleEndian memory (address + 16) 4
  deletionTime := littleEndian memory (address + 20) 4
  groupId := littleEndian memory (address + 24) 2
  hardLinksCount := littleEndian memory (address + 26) 2
  diskSectorsUsed := littleEndian memory (address + 28) 4
  flags := littleEndian memory (address + 32) 4
  osSpecific := littleEndian memory (address + 36) 4
  directBlockPointers := wordsAt memory (address + 40) 12
  singlyIndirectBlockPointer := littleEndian memory (address + 88) 4
  doublyIndirectBlockPointer := littleEndian memory (address + 92) 4
  triplyIndirectBlockPointer := littleEndian memory (address + 96) 4
  generationNumber := littleEndian memory (address + 100) 4
  reserved := wordsAt memory (address + 104) 2
  fragmentBlockAddress := littleEndian memory (address + 112) 4
  osSpecificValue := wordsAt memory (address + 116) 3

/-- `PhysicalExt2Directory`. -/
structure PhysicalExt2Directory where
  directPointers : List Nat
  indirectPointers : List Nat
  flags : Nat
  diskSectorsUsed : Nat
  size : Nat
  deriving DecidableEq, Repr

def PhysicalExt2Directory.empty : PhysicalExt2Directory :=
  ⟨List.replicate 12 0, List.replicate 3 0, 0x10, 0, 0⟩

/-- The fields of `Ext2Superblock` that `load` uses. -/
structure Ext2Superblock where
  totalNumberInodes : Nat
  blockSize : Nat
  inodesPerBlockGroup : Nat

/-- The fields of `Ext2ExtendedSuperblock` that `load` uses. -/
structure Ext2ExtendedSuperblock where
  requiredFeatures : Nat
  sizeOfInode : Nat

/-- `PhysicalExt2` with the fields that find inodes: the slice `block_groups`, its address
and its length, and the root directory. -/
structure MountedExt2 extends PhysicalExt2 where
  memory : MemoryBlock
  blockGroups : Nat
  numBlockGroups : Nat
  inodesPerBlockGroup : Nat
  rootDirectory : PhysicalExt2Directory

namespace MountedExt2

variable (self : MountedExt2)

def blockGroupOfInode (inode : Nat) : Option Nat := do
  divUnsigned (← subUnsigned inode 1) self.inodesPerBlockGroup

def indexIntoBlockGroup (inode : Nat) : Option Nat := do
  remUnsigned (← subUnsigned inode 1) self.inodesPerBlockGroup

def blockContainingInode (index : Nat) : Option Nat := do
  divUnsigned (← mulU32 index 128) (← shlU32 1024 self.blockSize)

/-- An element of `block_groups`; the index is checked. -/
def blockGroup (memory : Nat → Byte) (i : Nat) : Option PhysicalExt2BlockGroup :=
  if i < self.numBlockGroups then
    some (PhysicalExt2BlockGroup.at memory (self.blockGroups + i * PhysicalExt2BlockGroup.sizeOf))
  else none

/-- What `read_inode` computes before it asks for a buffer: `lba` and `inode_offset`. -/
def locateInode (memory : Nat → Byte) (inode sectorSize : Nat) : Option (Nat × Nat) := do
  let blockGroup ← self.blockGroupOfInode inode
  let index ← self.indexIntoBlockGroup inode
  let group ← self.blockGroup memory blockGroup
  let inodeBlock ← self.blockContainingInode index
  -- `base_inode` is the first inode of its block, in `u32`
  let bytes ← mulU32 inodeBlock (← shlU32 1024 self.blockSize)
  let first ← mulU32 blockGroup self.inodesPerBlockGroup
  let baseInode ← addU32 (← addU32 first (bytes / 128)) 1
  let inodeOffset ← subUnsigned inode baseInode
  -- the sum is cast to `u64` behind the addition
  let block ← addU32 group.blockAddressOfInodeTable inodeBlock
  let bytes ← mulU64 block (← shlU64 1024 self.blockSize)
  let lba ← sumU64 self.startingLba (← divUnsigned bytes sectorSize)
  some (lba, inodeOffset)

/-- The result of the read is not looked at. -/
def readInode (inode : Nat) (disk : Disk) : IoM PhysicalExt2Inode := do
  let m ← get
  let (lba, inodeOffset) ← orPanic (self.locateInode m.memory inode disk.sectorSize)
  let inodes ← orPanic (addU32 inodeOffset 1)
  let inodeBuffer ← Buffer.new false (inodes * 128)
  let _ ← disk.readIntoBuffer lba inodeBuffer 1
  let m ← get
  let ret := PhysicalExt2Inode.at m.memory (inodeBuffer.ptr + inodeOffset * 128)
  inodeBuffer.release
  pure ret

def directoryFromInode (inode : Nat) (disk : Disk) : IoM PhysicalExt2Directory := do
  let inode ← self.readInode inode disk
  pure {
    directPointers := inode.directBlockPointers
    indirectPointers := [inode.singlyIndirectBlockPointer, inode.doublyIndirectBlockPointer,
      inode.triplyIndirectBlockPointer]
    flags := inode.flags
    diskSectorsUsed := inode.diskSectorsUsed
    size := inode.lowSize }

end MountedExt2

/-! ### Loading the table of the block groups -/

namespace Ext2Superblock

variable (superblock : Ext2Superblock)

def numBlockGroups : Option Nat := do
  let numBlockGroups ← divUnsigned superblock.totalNumberInodes superblock.inodesPerBlockGroup
  let inodes ← mulU32 numBlockGroups superblock.inodesPerBlockGroup
  if inodes ≠ superblock.totalNumberInodes then addU32 numBlockGroups 1 else some numBlockGroups

/-- `pages_used`: what is compared with the bytes is not the bytes of the pages. -/
def pagesUsed (numBlockGroups : Nat) : Option Nat := do
  let memoryUsed ← mulU32 numBlockGroups PhysicalExt2BlockGroup.sizeOf
  let pagesUsed := memoryUsed / 0x1000
  let covered ← mulU32 pagesUsed PhysicalExt2BlockGroup.sizeOf
  if covered ≠ memoryUsed then addU32 pagesUsed 1 else some pagesUsed

/-- `block_group_descriptor_table_lba`. -/
def descriptorTableLba (startingLba sectorSize : Nat) : Option Nat := do
  let fullBlockSize ← shlU64 1024 superblock.blockSize
  if fullBlockSize = 1024 then sumU64 startingLba (← divUnsigned (1024 * 3) sectorSize)
  else sumU64 startingLba (← divUnsigned fullBlockSize sectorSize)

end Ext2Superblock

/-- `*block_group = *descriptor`, with the bytes behind the fields. -/
def copyBlockGroup (blockGroups descriptors i : Nat) : IoM Unit :=
  modify fun m => { m with
    memory := copyInto m.memory (blockGroups + i * PhysicalExt2BlockGroup.sizeOf)
      PhysicalExt2BlockGroup.sizeOf fun j => m.memory (descriptors + i * 32 + j) }

/-- The part of `load` that builds the table: the number of block groups, and their memory. -/
def loadBlockGroups (superblock : Ext2Superblock) (disk : Disk) (startingLba : Nat) :
    IoM (Nat × MemoryBlock) := do
  let numBlockGroups ← orPanic superblock.numBlockGroups
  let pagesUsed ← orPanic (Ext2Superblock.pagesUsed numBlockGroups)
  let blockGroupMemory ← allocZeroed (pagesUsed % 2 ^ 16)
  let tableBuf ← Buffer.new false (numBlockGroups * 32)
  let lba ← orPanic (superblock.descriptorTableLba startingLba disk.sectorSize)
  let _ ← disk.readIntoBuffer lba tableBuf 1
  (List.range numBlockGroups).forM (copyBlockGroup blockGroupMemory.base tableBuf.ptr)
  tableBuf.release
  pure (numBlockGroups, blockGroupMemory)

/-- The checks of the extended superblock. -/
def Ext2ExtendedSuperblock.Supported (extBlock : Ext2ExtendedSuperblock) : Prop :=
  extBlock.requiredFeatures &&& 0x2 ≠ 0 ∧ extBlock.sizeOfInode = 128

instance (extBlock : Ext2ExtendedSuperblock) : Decidable extBlock.Supported :=
  inferInstanceAs (Decidable (_ ∧ _))

/-- `PhysicalExt2::load`. -/
def MountedExt2.load (superblock : Ext2Superblock)
    (extendedSuperblock : Option Ext2ExtendedSuperblock)
    (disk : Disk) (startingLba : Nat) : IoM MountedExt2 := do
  if ∀ extBlock ∈ extendedSuperblock, extBlock.Supported then
    let (numBlockGroups, memory) ← loadBlockGroups superblock disk startingLba
    let ret : MountedExt2 := {
      startingLba := startingLba
      blockSize := superblock.blockSize % 2 ^ 16
      memory := memory
      blockGroups := memory.base
      numBlockGroups := numBlockGroups
      inodesPerBlockGroup := superblock.inodesPerBlockGroup
      rootDirectory := PhysicalExt2Directory.empty }
    let rootDirectory ← ret.directoryFromInode 2 disk
    pure { ret with rootDirectory := rootDirectory }
  else
    throw .panic

end EmkKernel
