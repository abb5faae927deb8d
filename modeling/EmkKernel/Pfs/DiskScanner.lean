import EmkKernel.Drivers.Disk
import EmkKernel.Utils.PageAllocator

/-!
# The disk scanner

`pfs::gpt` and `pfs::disk_scanner`: the partition tables of all disks are read, and what
is recognised as ext2 is collected in one array. The results of reads are not looked at.
-/

namespace EmkKernel

def efiSystemPartitionGuid : Nat × Nat := (0x11D2F81FC12A7328, 0x3BC93EC9A0004BBA)

def linuxFileSystemPartitionGuid : Nat × Nat := (0x477284830FC63DAF, 0xE47D47D8693D798E)

def ext2FsSignature : Nat := 0xEF53

/-- The fields of `GptHeader` that are used. -/
structure GptHeader where
  partitionEntryArrayStartingLba : Nat
  numPartitionEntries : Nat
  partitionEntrySize : Nat

/-- The header at an address; the structure is packed. -/
def GptHeader.at (memory : Nat → Byte) (address : Nat) : GptHeader where
  partitionEntryArrayStartingLba := littleEndian memory (address + 72) 8
  numPartitionEntries := littleEndian memory (address + 80) 4
  partitionEntrySize := littleEndian memory (address + 84) 4

/-- The fields of `GptPartitionEntry` that are used. -/
structure GptPartitionEntry where
  partitionGuid : Nat × Nat
  startingLba : Nat

def GptPartitionEntry.at (memory : Nat → Byte) (address : Nat) : GptPartitionEntry where
  partitionGuid := (littleEndian memory address 8, littleEndian memory (address + 8) 8)
  startingLba := littleEndian memory (address + 32) 8

/-- `Gpt`: the entries are a slice of the buffer. -/
structure Gpt where
  buffer : Buffer
  numEntries : Nat

namespace Gpt

/-- `header` is a reference into its buffer, so the number of entries is read after the
entries were. -/
def new (disk : Disk) : IoM Gpt := do
  let gptHeader ← Buffer.new false 512
  let _ ← disk.readIntoBuffer 1 gptHeader 1
  let m ← get
  let header := GptHeader.at m.memory gptHeader.ptr
  let size ← orPanic (mulU32 header.numPartitionEntries header.partitionEntrySize)
  if header.partitionEntrySize ≠ 128 then
    throw .panic
  else
    let entryArray ← Buffer.new false size
    let _ ← disk.readIntoBuffer header.partitionEntryArrayStartingLba entryArray 1
    let m ← get
    let header := GptHeader.at m.memory gptHeader.ptr
    gptHeader.release
    pure ⟨entryArray, header.numPartitionEntries⟩

/-- The address of an element of `gpt_entries`. -/
def entry (self : Gpt) (partitionId : Nat) : Nat := self.buffer.ptr + 128 * partitionId

end Gpt

/-- `n` bytes from an address on. -/
def bytesAt (memory : Nat → Byte) (address n : Nat) : List Byte :=
  (List.range n).map fun i => memory (address + i)

/-- `Ext2Fs`, with its superblocks as bytes. -/
structure Ext2Fs where
  superblock : List Byte
  extendedSuperblock : Option (List Byte)
  startingLba : Nat
  diskIdent : Nat
  deriving DecidableEq

/-- 84 bytes of superblock, 153 of extended superblock, 8 and 4 of the other fields, aligned
to 8 bytes. -/
def sizeOfExt2Fs : Nat := 256

/-- The value that is made of the superblock at an address. -/
def Ext2Fs.at (memory : Nat → Byte) (address startingLba diskIdent : Nat) : Ext2Fs where
  superblock := bytesAt memory address 84
  extendedSuperblock :=
    if littleEndian memory (address + 76) 4 ≥ 1 then some (bytesAt memory (address + 84) 152)
      else none
  startingLba := startingLba
  diskIdent := diskIdent

/-- `scan_linux_file_system`; `none` is `Unregonized`. The partition is a reference to the
entry at an address. -/
def scanLinuxFileSystem (partition : Nat) (disk : Disk) : IoM (Option Ext2Fs) := do
  let m ← get
  let startingLba := (GptPartitionEntry.at m.memory partition).startingLba
  let superblockLba ← orPanic (sumU64 startingLba (1024 / disk.sectorSize))
  let superblockBuf ← Buffer.new false 1024
  let _ ← disk.readIntoBuffer superblockLba superblockBuf 1
  let m ← get
  if littleEndian m.memory (superblockBuf.ptr + 56) 2 = ext2FsSignature then
    let startingLba := (GptPartitionEntry.at m.memory partition).startingLba
    let ret := Ext2Fs.at m.memory superblockBuf.ptr startingLba disk.identifier
    superblockBuf.release
    pure (some ret)
  else
    superblockBuf.release
    pure none

/-- One partition of a table. -/
def scanPartition (partition : Nat) (disk : Disk) : IoM (Option Ext2Fs) := do
  let m ← get
  let guid := (GptPartitionEntry.at m.memory partition).partitionGuid
  if guid = efiSystemPartitionGuid then pure none
  else if guid = linuxFileSystemPartitionGuid then scanLinuxFileSystem partition disk
  else pure none

/-- The body of the loop over the entries of a table. -/
def scanEntry (gpt : Gpt) (disk : Disk) (ext2Allocator : PageAllocator Ext2Fs) (partitionId : Nat) :
    IoM (PageAllocator Ext2Fs) := do
  match ← scanPartition (gpt.entry partitionId) disk with
  | some data => pure (ext2Allocator.pushBack data).2
  | none => pure ext2Allocator

/-- The body of the loop over the disks. -/
def scanDisk (ext2Allocator : PageAllocator Ext2Fs) (disk : Disk) : IoM (PageAllocator Ext2Fs) := do
  let gpt ← Gpt.new disk
  let ext2Allocator ← (List.range gpt.numEntries).foldlM (scanEntry gpt disk) ext2Allocator
  gpt.buffer.release
  pure ext2Allocator

/-- `alloc_zero`, and a panic where there is an error. -/
def allocZeroed (pages : Nat) : IoM MemoryBlock := do
  let m ← get
  match (m.allocator.alloc pages).value with
  | (.ok mb, a) =>
    set { memory := copyInto m.memory mb.base mb.length fun _ => 0, allocator := a : IoMachine }
    pure mb
  | (.error _, a) =>
    set { m with allocator := a }
    throw .panic

/-- `PageAllocator::free`, whose errors are not looked at. -/
def freeMemory (mb : MemoryBlock) : IoM Unit := do
  if mb.base = 0 then pure ()
  else
    let m ← get
    match (m.allocator.free mb).value with
    | (.error .panic, _) => throw .panic
    | (_, a) => set { m with allocator := a }

structure DiskFileSystemArray where
  numTotal : Nat
  numExt2 : Nat
  fileSystemData : MemoryBlock
  ext2 : List Ext2Fs

/-- `PageAllocator::new` with room for 100 values, in whole pages. -/
def newExt2Allocator : IoM (MemoryBlock × PageAllocator Ext2Fs) := do
  let bytes := 100 * sizeOfExt2Fs
  let pages := bytes / 0x1000 + if bytes % 0x1000 ≠ 0 then 1 else 0
  let memory ← allocZeroed pages
  pure (memory, ⟨fun _ => ⟨[], none, 0, 0⟩, 0, pages * 0x1000 / sizeOfExt2Fs⟩)

/-- The array has one page, whatever the number of values. -/
def scanDisks (disks : List Disk) : IoM DiskFileSystemArray := do
  let (memory, ext2Allocator) ← newExt2Allocator
  let ext2Allocator ← disks.foldlM scanDisk ext2Allocator
  let fileSystemData ← allocZeroed 1
  let ext2FsBlock := ext2Allocator.values
  freeMemory memory
  pure ⟨ext2FsBlock.length % 2 ^ 8, ext2FsBlock.length % 2 ^ 8, fileSystemData, ext2FsBlock⟩

end EmkKernel
