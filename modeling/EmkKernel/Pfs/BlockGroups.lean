import EmkKernel.Pfs.Inodes

/-!
# The table of the block groups

`PhysicalExt2::load` copies the descriptors of the block groups into memory. It reads them
from the block behind the superblock, unless blocks have 1 KiB, and has memory for all of
them as long as their pages can be counted in `u16`.
-/

namespace EmkKernel

open EStateM BitArray

attribute [local irreducible] littleEndian

variable {m m' m'' : IoMachine} {disk : Disk}

theorem PhysicalExt2BlockGroup.at_congr {memory memory' : Nat → Byte} {address address' : Nat}
    (same : ∀ i < 20, memory (address + i) = memory' (address' + i)) :
    PhysicalExt2BlockGroup.at memory address = PhysicalExt2BlockGroup.at memory' address' := by
  have field (offset n : Nat) (inside : offset + n ≤ 20) :
      littleEndian memory (address + offset) n = littleEndian memory' (address' + offset) n := by
    apply littleEndian_congr
    intro i less
    rw [Nat.add_assoc, Nat.add_assoc]
    exact same _ (by omega)
  have first := field 0 4 (by omega)
  rw [Nat.add_zero, Nat.add_zero] at first
  unfold PhysicalExt2BlockGroup.at
  rw [first, field 4 4 (by omega), field 8 4 (by omega), field 12 2 (by omega),
    field 14 2 (by omega), field 16 2 (by omega)]

/-! ### The sizes -/

namespace Ext2Superblock

variable (superblock : Ext2Superblock)

/-- The number of block groups that hold the inodes. -/
def groups : Nat :=
  (superblock.totalNumberInodes + superblock.inodesPerBlockGroup - 1) /
    superblock.inodesPerBlockGroup

def blockBytes : Nat := 1024 * 2 ^ superblock.blockSize

/-- The block behind the one that holds the superblock, which is at byte 1024. -/
def tableBlock : Nat := 1024 / superblock.blockBytes + 1

/-- The numbers of a superblock are in `u32`, and there are inodes. -/
structure HasInodes : Prop where
  inodesPerBlockGroup : 0 < superblock.inodesPerBlockGroup ∧ superblock.inodesPerBlockGroup < 2 ^ 32
  totalNumberInodes : 0 < superblock.totalNumberInodes ∧ superblock.totalNumberInodes < 2 ^ 32

variable {superblock}

private theorem HasInodes.groups_eq (has : superblock.HasInodes) :
    superblock.groups = superblock.totalNumberInodes / superblock.inodesPerBlockGroup +
      if superblock.totalNumberInodes % superblock.inodesPerBlockGroup = 0 then 0 else 1 := by
  have positive := has.inodesPerBlockGroup.1
  have whole := Nat.div_add_mod superblock.totalNumberInodes superblock.inodesPerBlockGroup
  have part := Nat.mod_lt superblock.totalNumberInodes positive
  unfold groups
  split
  · apply Nat.div_eq_of_lt_le
    · rw [Nat.add_zero, Nat.mul_comm]
      omega
    · rw [Nat.add_zero, Nat.add_one_mul, Nat.mul_comm]
      omega
  · apply Nat.div_eq_of_lt_le
    · rw [Nat.add_one_mul, Nat.mul_comm]
      omega
    · rw [Nat.add_one_mul, Nat.add_one_mul, Nat.mul_comm]
      omega

private theorem HasInodes.groups_le (has : superblock.HasInodes) :
    0 < superblock.groups ∧ superblock.groups ≤ superblock.totalNumberInodes := by
  obtain ⟨positive, _⟩ := has.inodesPerBlockGroup
  obtain ⟨inodes, _⟩ := has.totalNumberInodes
  unfold groups
  constructor
  · exact Nat.div_pos (by omega) positive
  · apply Nat.div_le_of_le_mul
    have each : superblock.totalNumberInodes - 1 ≤
        superblock.inodesPerBlockGroup * (superblock.totalNumberInodes - 1) :=
      Nat.le_mul_of_pos_left _ positive
    have more : superblock.inodesPerBlockGroup * superblock.totalNumberInodes =
        superblock.inodesPerBlockGroup * (superblock.totalNumberInodes - 1) +
          superblock.inodesPerBlockGroup := by
      rw [← Nat.mul_succ]
      congr 1
      omega
    omega

/-- The number of block groups is rounded up as it should be. -/
theorem HasInodes.numBlockGroups (has : superblock.HasInodes) :
    superblock.numBlockGroups = some superblock.groups := by
  obtain ⟨positive, _⟩ := has.inodesPerBlockGroup
  have u32 := has.totalNumberInodes.2
  have whole := Nat.div_add_mod superblock.totalNumberInodes superblock.inodesPerBlockGroup
  have less := has.groups_le.2
  have rounded := has.groups_eq
  have divided : divUnsigned superblock.totalNumberInodes superblock.inodesPerBlockGroup = some _ :=
    if_neg positive.ne'
  rw [Nat.mul_comm] at whole
  have product : mulU32 (superblock.totalNumberInodes / superblock.inodesPerBlockGroup)
      superblock.inodesPerBlockGroup = some _ := if_pos (by omega)
  unfold Ext2Superblock.numBlockGroups
  simp only [divided, product, Option.bind_eq_bind, Option.bind_some]
  by_cases zero : superblock.totalNumberInodes % superblock.inodesPerBlockGroup = 0
  · rw [if_neg (by omega), rounded, if_pos zero, Nat.add_zero]
  · rw [if_pos (by omega), rounded, if_neg zero]
    rw [if_neg zero] at rounded
    exact if_pos (by omega)

theorem pagesUsed_eq {n : Nat} (positive : 0 < n) (small : n * 20 < 2 ^ 32) :
    pagesUsed n = some (n * 20 / 0x1000 + 1) := by
  have product : mulU32 n PhysicalExt2BlockGroup.sizeOf = some (n * 20) := if_pos small
  have covered : mulU32 (n * 20 / 0x1000) PhysicalExt2BlockGroup.sizeOf =
      some (n * 20 / 0x1000 * 20) := if_pos (by unfold PhysicalExt2BlockGroup.sizeOf; omega)
  have next : addU32 (n * 20 / 0x1000) 1 = some _ := if_pos (by omega)
  unfold pagesUsed
  simp only [product, covered, Option.bind_eq_bind, Option.bind_some]
  rw [if_pos (by omega)]
  exact next

/-- The block that the descriptors are read from: one too many where blocks have 1 KiB. -/
def readBlock (superblock : Ext2Superblock) : Nat := if superblock.blockSize = 0 then 3 else 1

private theorem descriptorTableLba_eq {startingLba sectorSize : Nat}
    (bits : superblock.blockSize < 54) (positive : 0 < sectorSize)
    (u64 : startingLba + superblock.readBlock * superblock.blockBytes / sectorSize < 2 ^ 64) :
    superblock.descriptorTableLba startingLba sectorSize =
      some (startingLba + superblock.readBlock * superblock.blockBytes / sectorSize) := by
  have divided (a : Nat) : divUnsigned a sectorSize = some (a / sectorSize) := if_neg positive.ne'
  unfold descriptorTableLba
  simp only [shlU64_block bits, divided, Option.bind_eq_bind, Option.bind_some]
  unfold readBlock blockBytes at u64 ⊢
  by_cases zero : superblock.blockSize = 0
  · rw [if_pos zero, zero] at u64 ⊢
    rw [if_pos (by decide)]
    exact if_pos u64
  · have large : 2 ≤ 2 ^ superblock.blockSize := Nat.le_self_pow zero 2
    rw [if_neg zero, Nat.one_mul] at u64 ⊢
    rw [if_neg (by omega)]
    exact if_pos u64

end Ext2Superblock

/-! ### Copying the descriptors -/

theorem copyBlockGroups_ok {total : Nat} (base ptr n : Nat) (within : n ≤ total)
    (apart : ∀ x < total * 32, ptr + x < base ∨ base + total * 20 ≤ ptr + x)
    (memory : Nat → Byte) (a : Allocator) :
    ∃ memory', (List.range n).forM (copyBlockGroup base ptr) ⟨memory, a⟩ = .ok () ⟨memory', a⟩ ∧
      (∀ i < n, ∀ j < 20, memory' (base + i * 20 + j) = memory (ptr + i * 32 + j)) ∧
      ∀ x, x < base ∨ base + n * 20 ≤ x → memory' x = memory x := by
  induction n with
  | zero => exact ⟨memory, rfl, fun i less => absurd less (Nat.not_lt_zero i), fun _ _ => rfl⟩
  | succ n ih =>
    obtain ⟨memory', ran, copied, others⟩ := ih (by omega)
    refine ⟨copyInto memory' (base + n * 20) 20 fun j => memory' (ptr + n * 32 + j), ?_, ?_, ?_⟩
    · have split : (List.range n ++ [n]).forM (copyBlockGroup base ptr) =
          (List.range n).forM (copyBlockGroup base ptr) >>= fun _ =>
            [n].forM (copyBlockGroup base ptr) :=
        List.forM_append
      rw [List.range_succ, split, bind_of_ok ran]
      rfl
    · intro i less j inside
      by_cases last : i = n
      · subst last
        rw [copyInto_inside inside]
        -- the descriptor has not been written to
        apply others
        have away := apart (i * 32 + j) (by omega)
        omega
      · rw [copyInto_outside (by omega)]
        exact copied i (by omega) j inside
    · intro x outside
      rw [copyInto_outside (by omega)]
      exact others x (by omega)

theorem runs_apart {words : Words} {k n k' n' : Nat} (set : ∀ j, InRun k n j → bit words j = true)
    (clear : Clear words k' n') (some : 0 < n) (some' : 0 < n') : k + n ≤ k' ∨ k' + n' ≤ k := by
  by_contra meet
  have first : InRun k n (max k k') := ⟨by omega, by omega⟩
  have second : InRun k' n' (max k k') := ⟨by omega, by omega⟩
  have taken := set _ first
  rw [clear _ second] at taken
  cases taken

/-! ### Building the table -/

/-- A drive with the table and the root directory of a partition: the sectors divide the
blocks, and the disk goes on for a block behind the descriptors. -/
structure Ext2Superblock.OnDisk (superblock : Ext2Superblock) (disk : Disk) (startingLba : Nat) :
    Prop where
  drive : disk.Drive
  sector : disk.sectorSize ∣ superblock.blockBytes
  table : startingLba * disk.sectorSize + (superblock.tableBlock + 1) * superblock.blockBytes +
    superblock.groups * 32 ≤ disk.numSectors * disk.sectorSize

/-- Where the descriptors are that are read. -/
def Ext2Superblock.readAddress (superblock : Ext2Superblock) (disk : Disk) (startingLba : Nat) :
    Nat :=
  startingLba * disk.sectorSize + superblock.readBlock * superblock.blockBytes

/-- A table of the descriptors from an address of the disk on, in pages that were free. -/
structure Ext2Superblock.Built (superblock : Ext2Superblock) (disk : Disk) (address : Nat)
    (m : IoMachine) (table : Nat) (m' : IoMachine) : Prop where
  addend : m'.allocator.addend = m.allocator.addend
  backed : Backed m.allocator m'.allocator table (superblock.groups * 20)
  entries : ∀ i < superblock.groups, PhysicalExt2BlockGroup.at m'.memory (table + i * 20) =
    PhysicalExt2BlockGroup.at disk.content (address + i * 32)

variable {superblock : Ext2Superblock} {startingLba : Nat}

private theorem Ext2Superblock.tableBlock_eq (superblock : Ext2Superblock) :
    superblock.tableBlock = if superblock.blockSize = 0 then 2 else 1 := by
  unfold tableBlock blockBytes
  split
  next zero =>
    rw [zero]
    rfl
  next nonzero =>
    have large : 2 ≤ 2 ^ superblock.blockSize := Nat.le_self_pow nonzero 2
    rw [Nat.div_eq_of_lt (by omega)]

/-- The descriptors that are read are on the disk as well. -/
theorem Ext2Superblock.OnDisk.read (onDisk : superblock.OnDisk disk startingLba) :
    superblock.readAddress disk startingLba + superblock.groups * 32 ≤
      disk.numSectors * disk.sectorSize := by
  have table := onDisk.table
  have later : superblock.readBlock ≤ superblock.tableBlock + 1 := by
    rw [superblock.tableBlock_eq]
    unfold readBlock
    split <;> omega
  have bytes := Nat.mul_le_mul_right superblock.blockBytes later
  unfold readAddress
  omega

theorem Ext2Superblock.OnDisk.sector_eq (onDisk : superblock.OnDisk disk startingLba) :
    (startingLba + superblock.readBlock * superblock.blockBytes / disk.sectorSize) *
    disk.sectorSize =
      superblock.readAddress disk startingLba := by
  obtain ⟨c, blocks⟩ := onDisk.sector
  unfold readAddress
  rw [blocks, Nat.mul_left_comm, Nat.mul_div_cancel_left _ onDisk.drive.sector.1, Nat.add_mul,
    Nat.mul_comm disk.sectorSize]

private theorem allocZeroed_ok {pages : Nat} {rest : List Nat} (positive : 0 < pages)
    (serves : m.allocator.Serves (pages :: rest)) :
    ∃ k a, allocZeroed pages m = .ok ⟨m.allocator.addend + k * 0x1000, pages * 0x1000⟩
        ⟨copyInto m.memory (m.allocator.addend + k * 0x1000) (pages * 0x1000) fun _ => 0, a⟩ ∧
      Clear m.allocator.bitmap k pages ∧ m.allocator.Took a pages k ∧ a.Serves rest := by
  obtain ⟨mb, a, _, allocated, _, kept, _⟩ := serves positive
  obtain ⟨_, k, picks, took, rfl, _⟩ := Allocator.alloc_ok _ allocated
  refine ⟨k, a, ?_, picks.clear, took, kept⟩
  unfold allocZeroed
  rw [get_bind_run, allocated]
  rfl

theorem loadBlockGroups_ok {rest : List Nat} (has : superblock.HasInodes)
    (onDisk : superblock.OnDisk disk startingLba) (bits : superblock.blockSize < 22)
    (few : superblock.groups * 32 ≤ 65535 * 0x1000)
    (serves : m.allocator.Serves ((superblock.groups * 20 / 0x1000 + 1) % 2 ^ 16 ::
      Buffer.pages (superblock.groups * 32) % 2 ^ 16 :: rest)) :
    ∃ block m', loadBlockGroups superblock disk startingLba m = .ok (superblock.groups, block) m' ∧
      superblock.groups * 20 ≤ block.length ∧ m'.allocator.Serves rest ∧
      superblock.Built disk (superblock.readAddress disk startingLba) m block.base m' := by
  have drive := onDisk.drive
  have some := has.groups_le.1
  have covered := Buffer.le_pages (superblock.groups * 32)
  have rounded := Buffer.pages_le (superblock.groups * 32)
  have holds : disk.Holds
      (startingLba + superblock.readBlock * superblock.blockBytes / disk.sectorSize)
      (superblock.groups * 32) :=
    Disk.holds_of_le drive.sector.1 (onDisk.sector_eq ▸ onDisk.read)
  rw [Nat.mod_eq_of_lt (by omega : superblock.groups * 20 / 0x1000 + 1 < 2 ^ 16)] at serves
  obtain ⟨k, a, allocated, clear, took, serves⟩ := allocZeroed_ok (Nat.add_one_pos _) serves
  obtain ⟨l, b, a', a'', lent⟩ := Allocator.Serves.lends
    (m := ⟨copyInto m.memory (m.allocator.addend + k * 0x1000)
      ((superblock.groups * 20 / 0x1000 + 1) * 0x1000) fun _ => 0, a⟩) serves (by omega) (by omega)
  have size : b.originalSize = superblock.groups * 32 := by rw [lent.buffer]
  have ptr : b.ptr = m.allocator.addend + l * 0x1000 := by rw [lent.buffer, ← took.addend]
  have apartPages := runs_apart (fun j run => (took.sets j).mpr (Or.inr run)) lent.clear
    (Nat.succ_pos _) (by omega)
  have read := readIntoBuffer_ok (m := ⟨copyInto m.memory (m.allocator.addend + k * 0x1000)
    ((superblock.groups * 20 / 0x1000 + 1) * 0x1000) fun _ => 0, a'⟩) (b := b) drive.queue
    drive.sectors (size ▸ holds) (by rw [lent.buffer])
  rw [size] at read
  obtain ⟨memory, copied, copies, _⟩ := copyBlockGroups_ok
    (m.allocator.addend + k * 0x1000) b.ptr superblock.groups (Nat.le_refl _)
      (fun x less => by omega)
    (copyInto (copyInto m.memory (m.allocator.addend + k * 0x1000)
        ((superblock.groups * 20 / 0x1000 + 1) * 0x1000) fun _ => 0) b.ptr
      (disk.sectorsOf (superblock.groups * 32) * disk.sectorSize)
      (disk.from (startingLba + superblock.readBlock * superblock.blockBytes / disk.sectorSize))) a'
  have pages := Ext2Superblock.pagesUsed_eq some (by omega)
  have lba : superblock.descriptorTableLba startingLba disk.sectorSize = _ :=
    Ext2Superblock.descriptorTableLba_eq (bits.trans (by decide)) drive.sector.1
      (by have sectors := drive.sectors; unfold Disk.Holds at holds; omega)
  refine ⟨⟨m.allocator.addend + k * 0x1000, (superblock.groups * 20 / 0x1000 + 1) * 0x1000⟩,
    ⟨memory, a''⟩, ?_, ?_, lent.back, ?_, ?_, ?_⟩
  · unfold loadBlockGroups
    rw [has.numBlockGroups, orPanic_some, pure_bind, pages, orPanic_some, pure_bind,
      Nat.mod_eq_of_lt (by omega : superblock.groups * 20 / 0x1000 + 1 < 2 ^ 16),
      bind_of_ok allocated, bind_of_ok lent.made, lba, orPanic_some, pure_bind, bind_of_ok read,
      bind_of_ok copied, bind_of_ok (lent.released _)]
    rfl
  · dsimp only
    omega
  · exact lent.gave.addend.trans (lent.took.addend.trans took.addend)
  · -- the pages of the buffer are given back, those of the table are not
    have back : a''.bitmap = a.bitmap := restored lent.clear lent.took.sets lent.gave.clears
    have sets : SetsExactly m.allocator.bitmap a''.bitmap
        (InRun k (superblock.groups * 20 / 0x1000 + 1)) := back ▸ took.sets
    exact backed_of_took sets clear (by omega)
  · intro i less
    apply PhysicalExt2BlockGroup.at_congr
    intro j inside
    have sectors := drive.size_le (superblock.groups * 32)
    dsimp only
    rw [copies i less j inside, Nat.add_assoc, copyInto_inside (by omega), Nat.add_assoc,
      ← onDisk.sector_eq]
    rfl

/-! ### The root directory -/

/-- Reading an inode keeps what is in use. -/
theorem MountedExt2.readInode_yields {fs : MountedExt2} {inode lba offset : Nat}
    (drive : disk.Drive)
    (found : fs.locateInode m.memory inode disk.sectorSize = some (lba, offset))
    (small : Buffer.pages ((offset + 1) * 128) < 2 ^ 16) :
    Yields (fs.readInode inode disk) m (fun _ m' => Preserves m m') fun _ _ => True := by
  unfold readInode
  rw [yields_bind, yields_get, found, orPanic_some, pure_bind]
  dsimp only
  rw [yields_bind]
  refine (orPanic_yields _).mono ?_ fun _ _ _ => trivial
  rintro inodes m₁ ⟨rfl, sum⟩
  obtain ⟨_, rfl⟩ := some_of_addU32 sum
  refine yields_fill drive fun b k m₂ filled => ?_
  have kept := filled.preserves small
  have clear := filled.clear
  have sets := filled.took.sets
  rw [Nat.mod_eq_of_lt small] at clear sets
  rw [yields_bind, yields_get, yields_bind]
  refine (releaseBuffer_yields (Buffer.pages ((offset + 1) * 128)) k ?_ ?_ ?_).mono ?_
    fun _ _ _ => trivial
  · rw [filled.took.addend, filled.buffer]
  · rw [filled.buffer]
  · exact fun j run => (sets j).mpr (Or.inr run)
  · rintro _ m₃ ⟨memory, gave⟩
    exact kept.release clear memory gave

private theorem Ext2Superblock.Built.preserved {address table : Nat}
    (built : superblock.Built disk address m table m') (kept : Preserves m' m'') :
    superblock.Built disk address m table m'' where
  addend := kept.addend.trans built.addend
  backed := by
    refine ⟨built.backed.1, fun i less => ?_⟩
    obtain ⟨before, after⟩ := built.backed.2 i less
    have used : m'.allocator.InUse (table + i) := by
      refine ⟨?_, ?_⟩
      · have above := built.backed.1
        have addend := built.addend
        omega
      · rw [built.addend]
        exact after
    have still := (kept.inUse _ used).2
    rw [kept.addend, built.addend] at still
    exact ⟨before, still⟩
  entries i less := by
    rw [← built.entries i less]
    apply PhysicalExt2BlockGroup.at_congr
    intro j inside
    apply kept.bytes
    obtain ⟨_, after⟩ := built.backed.2 (i * 20 + j) (by omega)
    refine ⟨?_, ?_⟩
    · have above := built.backed.1
      have addend := built.addend
      omega
    · rw [built.addend, Nat.add_assoc]
      exact after

namespace Ext2Superblock

/-- What is mounted with a table, before the root directory is read. -/
def mounted (superblock : Ext2Superblock) (startingLba : Nat) (table : Nat × MemoryBlock) :
    MountedExt2 where
  startingLba := startingLba
  blockSize := superblock.blockSize % 2 ^ 16
  memory := table.2
  blockGroups := table.2.base
  numBlockGroups := table.1
  inodesPerBlockGroup := superblock.inodesPerBlockGroup
  rootDirectory := PhysicalExt2Directory.empty

/-- Where the descriptors are. -/
def tableAddress (superblock : Ext2Superblock) (disk : Disk) (startingLba : Nat) : Nat :=
  startingLba * disk.sectorSize + superblock.tableBlock * superblock.blockBytes

/-- The block group of the root directory, which is inode 2. -/
def rootGroup (superblock : Ext2Superblock) : Nat := 1 / superblock.inodesPerBlockGroup

/-- The root directory's inode is on the disk. -/
def RootOnDisk (superblock : Ext2Superblock) (disk : Disk) (startingLba : Nat) : Prop :=
  superblock.rootGroup < superblock.groups →
    startingLba * disk.sectorSize + (PhysicalExt2BlockGroup.at disk.content
      (superblock.tableAddress disk startingLba +
        superblock.rootGroup * 32)).blockAddressOfInodeTable * superblock.blockBytes +
      1 % superblock.inodesPerBlockGroup * 128 + 128 ≤ disk.numSectors * disk.sectorSize

/-- The table that is loaded holds the descriptors on the disk, all of them in memory that
was free, and so does the buffer they are read into. -/
structure Loads (superblock : Ext2Superblock) (extendedSuperblock : Option Ext2ExtendedSuperblock)
    (disk : Disk) (startingLba : Nat) (m : IoMachine) : Prop where
  table : ∃ r m', MountedExt2.load superblock extendedSuperblock disk startingLba m = .ok r m' ∧
    r.numBlockGroups = superblock.groups ∧ r.blockGroups = r.memory.base ∧
    superblock.groups * 20 ≤ r.memory.length ∧
    superblock.Built disk (superblock.tableAddress disk startingLba) m r.blockGroups m'
  buffer : ∀ pages block m₁ b m₂, pagesUsed superblock.groups = some pages →
    allocZeroed (pages % 2 ^ 16) m = .ok block m₁ →
    Buffer.new false (superblock.groups * 32) m₁ = .ok b m₂ →
    Backed m₁.allocator m₂.allocator b.ptr (superblock.groups * 32)

/-- The descriptors fit into pages that are counted in `u16`, the size of a block fits into
`u32`, inode 2 is in a block group, and where blocks have 1 KiB the descriptors are in the
next block as well. -/
structure Loadable (superblock : Ext2Superblock) (disk : Disk) (startingLba : Nat) : Prop where
  groups : superblock.groups ≤ 8388480
  block : superblock.blockSize < 22
  root : superblock.rootGroup < superblock.groups
  table : superblock.blockSize = 0 → ∀ i < superblock.groups,
    PhysicalExt2BlockGroup.at disk.content (superblock.readAddress disk startingLba + i * 32) =
      PhysicalExt2BlockGroup.at disk.content (superblock.tableAddress disk startingLba + i * 32)

/-- The descriptors that are read are those of the table. -/
theorem Loadable.entries (loadable : superblock.Loadable disk startingLba) :
    ∀ i < superblock.groups,
      PhysicalExt2BlockGroup.at disk.content (superblock.readAddress disk startingLba + i * 32) =
        PhysicalExt2BlockGroup.at disk.content (superblock.tableAddress disk startingLba +
          i * 32) := by
  by_cases small : superblock.blockSize = 0
  · exact loadable.table small
  · intro i _
    unfold readAddress tableAddress
    rw [tableBlock_eq, readBlock, if_neg small, if_neg small]

/-- What `load` returns, from the runs of its parts. -/
theorem load_eq {extendedSuperblock : Option Ext2ExtendedSuperblock}
    (supported : ∀ extBlock ∈ extendedSuperblock, extBlock.Supported) :
    MountedExt2.load superblock extendedSuperblock disk startingLba = (do
      let table ← loadBlockGroups superblock disk startingLba
      let root ← (superblock.mounted startingLba table).directoryFromInode 2 disk
      pure { superblock.mounted startingLba table with rootDirectory := root }) := by
  unfold MountedExt2.load
  rw [if_pos supported]
  rfl

theorem directoryFromInode_yields {fs : MountedExt2} {lba offset : Nat} (drive : disk.Drive)
    (found : fs.locateInode m.memory 2 disk.sectorSize = some (lba, offset))
    (small : Buffer.pages ((offset + 1) * 128) < 2 ^ 16) :
    Yields (fs.directoryFromInode 2 disk) m (fun _ m' => Preserves m m') fun _ _ => True := by
  unfold MountedExt2.directoryFromInode
  rw [yields_bind]
  exact (MountedExt2.readInode_yields drive found small).mono (fun _ _ kept => kept)
    fun _ _ failed => failed

theorem pages_root (offset : Nat) (small : offset ≤ 1) : Buffer.pages ((offset + 1) * 128) = 1 := by
  have covered := Buffer.le_pages ((offset + 1) * 128)
  have rounded := Buffer.pages_le ((offset + 1) * 128)
  omega

private theorem offset_root (superblock : Ext2Superblock) (startingLba : Nat)
    (table : Nat × MemoryBlock) :
    (superblock.mounted startingLba table).offsetOf 2 ≤ 1 :=
  (Nat.mod_le _ _).trans (Nat.mod_le 1 _)

private theorem lt_of_descriptorTableLba {sectorSize lba : Nat}
    (some : superblock.descriptorTableLba startingLba sectorSize = some lba) :
    superblock.blockSize < 64 := by
  unfold descriptorTableLba at some
  by_contra large
  have lost : shlU64 1024 superblock.blockSize = none := if_neg large
  rw [lost] at some
  cases some

variable {extendedSuperblock : Option Ext2ExtendedSuperblock}

/-- What has to be so for the table to be the one on the disk. -/
theorem Loads.loadable (loads : superblock.Loads extendedSuperblock disk startingLba m)
    (has : superblock.HasInodes) (onDisk : superblock.OnDisk disk startingLba)
    (supported : ∀ extBlock ∈ extendedSuperblock, extBlock.Supported)
    (serves : m.allocator.Serves [(superblock.groups * 20 / 0x1000 + 1) % 2 ^ 16,
      Buffer.pages (superblock.groups * 32) % 2 ^ 16, 1]) :
    superblock.Loadable disk startingLba := by
  obtain ⟨r, m', ran, count, base, _, built⟩ := loads.table
  rw [load_eq supported] at ran
  obtain ⟨table, m₁, loaded, ran⟩ := of_bind_ok ran
  obtain ⟨root, m₂, rooted, ran⟩ := of_bind_ok ran
  cases ran
  obtain ⟨few, u64⟩ : superblock.groups ≤ 8388480 ∧ superblock.blockSize < 64 := by
    have parts := loaded
    unfold loadBlockGroups at parts
    rw [has.numBlockGroups, orPanic_some, pure_bind] at parts
    obtain ⟨pages, m₀, counted, rest⟩ := of_bind_ok parts
    obtain ⟨same, used⟩ := (orPanic_yields _).ok counted
    rw [same] at rest
    obtain ⟨block, m₃, allocated, rest⟩ := of_bind_ok rest
    obtain ⟨b, m₄, made, rest⟩ := of_bind_ok rest
    obtain ⟨lba, _, placed, _⟩ := of_bind_ok rest
    have backed := loads.buffer _ _ _ _ _ used allocated made
    obtain ⟨_, k, _, _, took, rfl⟩ := (Buffer.new_yields false _).ok made
    have bound := le_of_backed took.sets backed
    exact ⟨by omega, lt_of_descriptorTableLba ((orPanic_yields _).ok placed).2⟩
  obtain ⟨place, found⟩ : ∃ place, (superblock.mounted startingLba table).locateInode m₁.memory 2
      disk.sectorSize = some place := by
    unfold MountedExt2.directoryFromInode MountedExt2.readInode at rooted
    obtain ⟨_, _, read, _⟩ := of_bind_ok rooted
    rw [get_bind_run] at read
    obtain ⟨place, _, located, _⟩ := of_bind_ok read
    exact ⟨place, ((orPanic_yields _).ok located).2⟩
  obtain ⟨group, computable, offset⟩ :=
    MountedExt2.locateInode_inv has.inodesPerBlockGroup.1 (by decide) found
  have bits : superblock.blockSize < 22 := by
    have small : superblock.blockSize % 2 ^ 16 < 22 := computable.block
    omega
  refine ⟨few, bits, ?_, fun _ i less => ?_⟩
  · rw [← count]
    exact group
  · -- the table is the one that the parts build, and the root directory keeps it
    obtain ⟨block, m₃, ran, _, _, read⟩ := loadBlockGroups_ok has onDisk bits (by omega) serves
    rw [loaded] at ran
    cases ran
    have kept := (directoryFromInode_yields onDisk.drive found
      (by rw [offset, pages_root _ (offset_root _ _ _)]; decide)).ok rooted
    exact ((read.preserved kept).entries i less).symm.trans (built.entries i less)

/-- The root directory's inode is one that is found. -/
theorem Loadable.inRange {block : MemoryBlock} (loadable : superblock.Loadable disk startingLba)
    (has : superblock.HasInodes) (onDisk : superblock.OnDisk disk startingLba)
    (root : superblock.RootOnDisk disk startingLba)
    (built : superblock.Built disk (superblock.readAddress disk startingLba) m block.base m') :
    (superblock.mounted startingLba (superblock.groups, block)).InRange disk m'.memory 2 := by
  have bits : superblock.blockSize % 2 ^ 16 = superblock.blockSize := by
    have small := loadable.block
    omega
  have bytes : (superblock.mounted startingLba (superblock.groups, block)).blockBytes =
      superblock.blockBytes := congrArg (1024 * 2 ^ ·) bits
  have entry := (built.entries _ loadable.root).trans (loadable.entries _ loadable.root)
  refine ⟨has.inodesPerBlockGroup.1, by decide, by decide, loadable.root, bytes ▸ onDisk.sector,
    onDisk.drive.sectors, onDisk.drive.queue, ?_⟩
  have inside := root loadable.root
  rw [← entry, ← bytes] at inside
  exact inside

theorem Loadable.loads (loadable : superblock.Loadable disk startingLba)
    (has : superblock.HasInodes) (onDisk : superblock.OnDisk disk startingLba)
    (root : superblock.RootOnDisk disk startingLba)
    (supported : ∀ extBlock ∈ extendedSuperblock, extBlock.Supported)
    (serves : m.allocator.Serves [(superblock.groups * 20 / 0x1000 + 1) % 2 ^ 16,
      Buffer.pages (superblock.groups * 32) % 2 ^ 16, 1]) :
    superblock.Loads extendedSuperblock disk startingLba m := by
  have few := loadable.groups
  obtain ⟨block, m₁, loaded, length, serves₁, built⟩ :=
    loadBlockGroups_ok has onDisk loadable.block (by omega) serves
  have range := loadable.inRange has onDisk root built
  have one := pages_root _ (offset_root superblock startingLba (superblock.groups, block))
  have computable : (superblock.mounted startingLba (superblock.groups, block)).Computable
      m₁.memory 2 := by
    have index : (superblock.mounted startingLba (superblock.groups, block)).indexOf 2 ≤ 1 :=
      Nat.mod_le 1 _
    have first : (superblock.mounted startingLba (superblock.groups, block)).blockOf 2 = 0 := by
      apply Nat.div_eq_of_lt
      have large : 1024 ≤ (superblock.mounted startingLba (superblock.groups, block)).blockBytes :=
        Nat.le_mul_of_pos_right _ (Nat.two_pow_pos _)
      omega
    refine ⟨?_, by omega, ?_⟩
    · have small := loadable.block
      exact (Nat.mod_le _ _).trans_lt small
    · rw [first, Nat.add_zero]
      exact littleEndian_lt _ _ 4
  have fits : (superblock.mounted startingLba (superblock.groups, block)).FitsBuffer disk 2 := by
    have pages := onDisk.drive.le_pages
      ((superblock.mounted startingLba (superblock.groups, block)).spanOf 2)
    unfold MountedExt2.FitsBuffer
    unfold MountedExt2.spanOf at pages ⊢
    rwa [one] at pages ⊢
  obtain ⟨m₂, read⟩ := range.returns computable fits (by
    unfold MountedExt2.spanOf
    rwa [one])
  have found := range.locateInode computable
  have kept := (MountedExt2.readInode_yields onDisk.drive found (by rw [one]; decide)).ok read
  obtain ⟨rootDirectory, rooted⟩ : ∃ rootDirectory,
      (superblock.mounted startingLba (superblock.groups, block)).directoryFromInode 2 disk m₁ =
        .ok rootDirectory m₂ := by
    unfold MountedExt2.directoryFromInode
    rw [bind_of_ok read]
    exact ⟨_, rfl⟩
  refine ⟨⟨{ superblock.mounted startingLba (superblock.groups, block) with rootDirectory },
    m₂, ?_, rfl, rfl, length, ?_⟩, ?_⟩
  · rw [load_eq supported, bind_of_ok loaded, bind_of_ok rooted]
    rfl
  · refine ⟨(built.preserved kept).addend, (built.preserved kept).backed, fun i less => ?_⟩
    exact ((built.preserved kept).entries i less).trans (loadable.entries i less)
  · intro pages block' m₃ b m₄ _ _ made
    have rounded := Buffer.pages_le (superblock.groups * 32)
    obtain ⟨_, k, _, picks, took, rfl⟩ := (Buffer.new_yields false _).ok made
    apply backed_of_took took.sets picks.clear
    rw [Nat.mod_eq_of_lt (by omega)]
    exact Buffer.le_pages _

/-- The table that is loaded holds the descriptors of the partition exactly if its blocks
have more than 1 KiB (or the next block reads the same), and its sizes fit. -/
theorem loads_iff (has : superblock.HasInodes) (onDisk : superblock.OnDisk disk startingLba)
    (root : superblock.RootOnDisk disk startingLba)
    (supported : ∀ extBlock ∈ extendedSuperblock, extBlock.Supported)
    (serves : m.allocator.Serves [(superblock.groups * 20 / 0x1000 + 1) % 2 ^ 16,
      Buffer.pages (superblock.groups * 32) % 2 ^ 16, 1]) :
    superblock.Loads extendedSuperblock disk startingLba m ↔
      superblock.Loadable disk startingLba := by
  constructor
  · intro loads
    exact loads.loadable has onDisk supported serves
  · intro loadable
    exact loadable.loads has onDisk root supported serves

/-- A partition of one block group, whose inode table is behind its descriptor. -/
def oneGroup (blockSize : Nat) : Ext2Superblock := ⟨16, blockSize, 16⟩

/-- Its disk: a descriptor at byte 2048 with an inode table at block 5. -/
def oneGroupDisk : Disk := ⟨0, fun a => if a = 2056 then 5 else 0, 512, 256, 2⟩

def loadMachine : IoMachine := ⟨fun _ => 0, ⟨fun _ => 0, 16, 0, 0x10000, 0⟩⟩

private theorem hasInodes_oneGroup (blockSize : Nat) : (oneGroup blockSize).HasInodes := by
  have numbers : (0 < 16 ∧ 16 < 2 ^ 32) := by decide
  exact ⟨numbers, numbers⟩

private theorem drive_oneGroupDisk :
    oneGroupDisk.Drive := ⟨⟨by decide, 8, rfl⟩, by decide, by decide⟩

private theorem serves_loadMachine : loadMachine.allocator.Serves [1, 1, 1] :=
  Allocator.serves_of_servesAll (by decide +kernel)

/-- With blocks of 2 KiB the descriptor is in block 1. -/
theorem loads_large : (oneGroup 1).Loads none oneGroupDisk 0 loadMachine := by
  have onDisk : (oneGroup 1).OnDisk oneGroupDisk 0 := ⟨drive_oneGroupDisk, ⟨4, rfl⟩, by decide⟩
  have root : (oneGroup 1).RootOnDisk oneGroupDisk 0 := fun _ => by decide +kernel
  refine (loads_iff (hasInodes_oneGroup 1) onDisk root (fun _ none => by cases none)
    serves_loadMachine).mpr ⟨by decide, by decide, by decide, fun zero => ?_⟩
  cases zero

/-- With blocks of 1 KiB the descriptor is in block 2, and block 3 is read. -/
theorem not_loads_small : (oneGroup 0).HasInodes ∧ (oneGroup 0).OnDisk oneGroupDisk 0 ∧
    (oneGroup 0).RootOnDisk oneGroupDisk 0 ∧ ¬(oneGroup 0).Loads none oneGroupDisk 0
    loadMachine := by
  have onDisk : (oneGroup 0).OnDisk oneGroupDisk 0 := ⟨drive_oneGroupDisk, ⟨2, rfl⟩, by decide⟩
  refine ⟨hasInodes_oneGroup 0, onDisk, fun _ => by decide +kernel, fun loads => ?_⟩
  have loadable := loads.loadable (hasInodes_oneGroup 0) onDisk (fun _ none => by cases none)
    serves_loadMachine
  have same := loadable.table rfl 0 (by decide)
  revert same
  decide +kernel

end Ext2Superblock

end EmkKernel
