import EmkKernel.Drivers.Reads
import EmkKernel.Pfs.Ext2
import Mathlib.Tactic.Ring

/-!
# Where an inode is read from

`read_inode` splits the address of an inode into a block, a sector and an offset in its
buffer. It finds the bytes of every inode as long as its products and sums stay in `u32`
and the sectors up to the inode fit into the pages of the buffer.
-/

namespace EmkKernel

open EStateM BitArray

-- The fields of inodes and block groups are numbers of which nothing is known.
attribute [local irreducible] littleEndian

variable {m m' : IoMachine} {disk : Disk}

private theorem wordsAt_congr {memory memory' : Nat → Byte} {address address' n : Nat}
    (same : ∀ i < 4 * n, memory (address + i) = memory' (address' + i)) :
    wordsAt memory address n = wordsAt memory' address' n := by
  apply List.map_congr_left
  intro i member
  have inside := List.mem_range.mp member
  apply littleEndian_congr
  intro j less
  rw [Nat.add_assoc, Nat.add_assoc]
  exact same _ (by omega)

theorem PhysicalExt2Inode.at_congr {memory memory' : Nat → Byte} {address address' : Nat}
    (same : ∀ i < 128, memory (address + i) = memory' (address' + i)) :
    PhysicalExt2Inode.at memory address = PhysicalExt2Inode.at memory' address' := by
  have field (offset n : Nat) (inside : offset + n ≤ 128) :
      littleEndian memory (address + offset) n = littleEndian memory' (address' + offset) n := by
    apply littleEndian_congr
    intro i less
    rw [Nat.add_assoc, Nat.add_assoc]
    exact same _ (by omega)
  have words (offset n : Nat) (inside : offset + 4 * n ≤ 128) :
      wordsAt memory (address + offset) n = wordsAt memory' (address' + offset) n := by
    apply wordsAt_congr
    intro i less
    rw [Nat.add_assoc, Nat.add_assoc]
    exact same _ (by omega)
  have first := field 0 2 (by omega)
  rw [Nat.add_zero, Nat.add_zero] at first
  unfold PhysicalExt2Inode.at
  rw [first, field 2 2 (by omega), field 4 4 (by omega), field 8 4 (by omega),
    field 12 4 (by omega), field 16 4 (by omega), field 20 4 (by omega), field 24 2 (by omega),
    field 26 2 (by omega), field 28 4 (by omega), field 32 4 (by omega), field 36 4 (by omega),
    words 40 12 (by omega), field 88 4 (by omega), field 92 4 (by omega), field 96 4 (by omega),
    field 100 4 (by omega), words 104 2 (by omega), field 112 4 (by omega), words 116 3 (by omega)]

/-! ### Arithmetic that is checked -/

private theorem some_of_divUnsigned {a b q : Nat} (divided : divUnsigned a b = some q) :
    b ≠ 0 ∧ q = a / b := by
  unfold divUnsigned at divided
  split at divided
  · cases divided
  next nonzero => exact ⟨nonzero, (Option.some.inj divided).symm⟩

theorem some_of_mulU32 {a b p : Nat} (product : mulU32 a b = some p) :
    a * b < 2 ^ 32 ∧ p = a * b := by
  unfold mulU32 at product
  split at product
  next small => exact ⟨small, (Option.some.inj product).symm⟩
  · cases product

theorem some_of_addU32 {a b c : Nat} (sum : addU32 a b = some c) : a + b < 2 ^ 32 ∧ c = a + b := by
  unfold addU32 at sum
  split at sum
  next small => exact ⟨small, (Option.some.inj sum).symm⟩
  · cases sum

/-- A block whose size is not lost in `u32`. -/
theorem shlU32_block {k : Nat} (small : k < 22) : shlU32 1024 k = some (1024 * 2 ^ k) := by
  have bound : 2 ^ k ≤ 2 ^ 21 := Nat.pow_le_pow_right (by decide) (by omega)
  unfold shlU32
  rw [if_pos (by omega), Nat.mod_eq_of_lt (by omega)]

theorem shlU64_block {k : Nat} (small : k < 54) : shlU64 1024 k = some (1024 * 2 ^ k) := by
  have bound : 2 ^ k ≤ 2 ^ 53 := Nat.pow_le_pow_right (by decide) (by omega)
  unfold shlU64
  rw [if_pos (by omega), Nat.mod_eq_of_lt (by omega)]

/-- The bits of the size of a larger block are lost, which leaves a division by zero. -/
theorem shlU32_zero {k b : Nat} (large : 22 ≤ k) (shifted : shlU32 1024 k = some b) : b = 0 := by
  unfold shlU32 at shifted
  split at shifted
  · obtain ⟨e, rfl⟩ := Nat.exists_eq_add_of_le large
    have lost : 1024 * 2 ^ (22 + e) % 2 ^ 32 = 0 := by
      rw [Nat.pow_add, ← Nat.mul_assoc]
      exact Nat.mul_mod_right _ _
    rw [lost] at shifted
    exact (Option.some.inj shifted).symm
  · cases shifted

/-! ### The place of an inode -/

namespace MountedExt2

variable (fs : MountedExt2)

/-- The block group of an inode. -/
def groupOf (inode : Nat) : Nat := (inode - 1) / fs.inodesPerBlockGroup

/-- The place of an inode in the inode table of its group. -/
def indexOf (inode : Nat) : Nat := (inode - 1) % fs.inodesPerBlockGroup

/-- The block the inode table of an inode's group starts at. -/
def tableBlock (memory : Nat → Byte) (inode : Nat) : Nat :=
  (PhysicalExt2BlockGroup.at memory
    (fs.blockGroups + fs.groupOf inode * PhysicalExt2BlockGroup.sizeOf)).blockAddressOfInodeTable

/-- The address of an inode on the disk. -/
def inodeAddress (disk : Disk) (memory : Nat → Byte) (inode : Nat) : Nat :=
  fs.startingLba * disk.sectorSize + fs.tableBlock memory inode * fs.blockBytes +
    fs.indexOf inode * 128

/-- The block that holds an inode, in the inode table of its group. -/
def blockOf (inode : Nat) : Nat := fs.indexOf inode * 128 / fs.blockBytes

/-- The inodes before an inode in its block. -/
def offsetOf (inode : Nat) : Nat := fs.indexOf inode % (fs.blockBytes / 128)

/-- The bytes of the buffer that an inode is read into. -/
def spanOf (inode : Nat) : Nat := (fs.offsetOf inode + 1) * 128

/-- The sector of the block that holds an inode. -/
def sectorOf (memory : Nat → Byte) (inode sectorSize : Nat) : Nat :=
  fs.startingLba + (fs.tableBlock memory inode + fs.blockOf inode) * fs.blockBytes / sectorSize

/-- The inode is one of the block groups', and its bytes are on a disk whose sectors
divide the blocks. -/
structure InRange (disk : Disk) (memory : Nat → Byte) (inode : Nat) : Prop where
  inodes : 0 < fs.inodesPerBlockGroup
  positive : 1 ≤ inode
  u32 : inode < 2 ^ 32
  group : fs.groupOf inode < fs.numBlockGroups
  sector : disk.sectorSize ∣ fs.blockBytes
  numSectors : disk.numSectors < 2 ^ 64
  queue : 1 ≤ disk.queuesImplemented - 1
  onDisk : fs.inodeAddress disk memory inode + 128 ≤ disk.numSectors * disk.sectorSize

variable {fs} {memory : Nat → Byte} {inode : Nat}

theorem blockBytes_eq : fs.blockBytes = 128 * (8 * 2 ^ fs.blockSize) := by
  unfold PhysicalExt2.blockBytes
  omega

theorem index_eq (fs : MountedExt2) (inode : Nat) :
    fs.indexOf inode * 128 = fs.blockOf inode * fs.blockBytes + fs.offsetOf inode * 128 := by
  unfold blockOf offsetOf
  rw [blockBytes_eq, Nat.mul_comm (fs.indexOf inode), Nat.mul_div_mul_left _ _ (by decide),
    Nat.mul_div_cancel_left _ (by decide)]
  have parts := Nat.div_add_mod (fs.indexOf inode) (8 * 2 ^ fs.blockSize)
  calc 128 * fs.indexOf inode
      = 128 * (8 * 2 ^ fs.blockSize * (fs.indexOf inode / (8 * 2 ^ fs.blockSize)) +
          fs.indexOf inode % (8 * 2 ^ fs.blockSize)) := by rw [parts]
    _ = _ := by ring

private theorem InRange.sector_pos (range : fs.InRange disk memory inode) :
    0 < disk.sectorSize := by
  rcases Nat.eq_zero_or_pos disk.sectorSize with zero | positive
  · have onDisk := range.onDisk
    rw [zero, Nat.mul_zero] at onDisk
    omega
  · exact positive

/-- The sector and the offset are those of the inode's bytes. -/
theorem InRange.address (range : fs.InRange disk memory inode) :
    fs.sectorOf memory inode disk.sectorSize * disk.sectorSize + fs.offsetOf inode * 128 =
      fs.inodeAddress disk memory inode := by
  obtain ⟨c, blocks⟩ := range.sector
  have index := fs.index_eq inode
  unfold sectorOf inodeAddress
  rw [index, blocks, Nat.mul_left_comm _ disk.sectorSize,
    Nat.mul_div_cancel_left _ range.sector_pos]
  ring

/-- The sectors that are read are on the disk. -/
theorem InRange.holds (range : fs.InRange disk memory inode) :
    disk.Holds (fs.sectorOf memory inode disk.sectorSize) (fs.spanOf inode) := by
  have onDisk := range.onDisk
  rw [← range.address] at onDisk
  apply Disk.holds_of_le range.sector_pos
  unfold spanOf
  omega

/-! ### What is computed in `u32` -/

/-- The products and the sum that are computed in `u32` fit. -/
structure Computable (fs : MountedExt2) (memory : Nat → Byte) (inode : Nat) : Prop where
  block : fs.blockSize < 22
  index : fs.indexOf inode < 2 ^ 25
  sum : fs.tableBlock memory inode + fs.blockOf inode < 2 ^ 32

private theorem blockGroupOfInode_eq (inodes : 0 < fs.inodesPerBlockGroup) (positive : 1 ≤ inode) :
    fs.blockGroupOfInode inode = some (fs.groupOf inode) := by
  have known : subUnsigned inode 1 = some (inode - 1) := if_neg (Nat.not_lt.mpr positive)
  have divided : divUnsigned (inode - 1) fs.inodesPerBlockGroup = some (fs.groupOf inode) :=
    if_neg inodes.ne'
  simp only [MountedExt2.blockGroupOfInode, known, Option.bind_eq_bind, Option.bind_some, divided]

private theorem indexIntoBlockGroup_eq (inodes : 0 < fs.inodesPerBlockGroup)
    (positive : 1 ≤ inode) :
    fs.indexIntoBlockGroup inode = some (fs.indexOf inode) := by
  have known : subUnsigned inode 1 = some (inode - 1) := if_neg (Nat.not_lt.mpr positive)
  have rest : remUnsigned (inode - 1) fs.inodesPerBlockGroup = some (fs.indexOf inode) :=
    if_neg inodes.ne'
  simp only [MountedExt2.indexIntoBlockGroup, known, Option.bind_eq_bind, Option.bind_some, rest]

/-- The inodes before the block are those of the group and of the blocks before. -/
theorem inode_eq (fs : MountedExt2) (positive : 1 ≤ inode) :
    inode = fs.groupOf inode * fs.inodesPerBlockGroup +
    fs.blockOf inode * fs.blockBytes / 128 + 1 + fs.offsetOf inode := by
  have index := fs.index_eq inode
  have parts : fs.groupOf inode * fs.inodesPerBlockGroup + fs.indexOf inode = inode - 1 := by
    have whole := Nat.div_add_mod (inode - 1) fs.inodesPerBlockGroup
    rwa [Nat.mul_comm] at whole
  omega

theorem Computable.blockContainingInode (computable : fs.Computable memory inode) :
    fs.blockContainingInode (fs.indexOf inode) = some (fs.blockOf inode) := by
  have product : mulU32 (fs.indexOf inode) 128 = some (fs.indexOf inode * 128) := by
    have bound := computable.index
    exact if_pos (by omega)
  have divided : divUnsigned (fs.indexOf inode * 128) (1024 * 2 ^ fs.blockSize) =
      some (fs.blockOf inode) := if_neg (Nat.mul_pos (by decide) (Nat.two_pow_pos _)).ne'
  simp only [MountedExt2.blockContainingInode, product, shlU32_block computable.block,
    Option.bind_eq_bind, Option.bind_some, divided]

/-- What fits is found. -/
theorem InRange.locateInode (range : fs.InRange disk memory inode)
    (computable : fs.Computable memory inode) :
    fs.locateInode memory inode disk.sectorSize =
      some (fs.sectorOf memory inode disk.sectorSize, fs.offsetOf inode) := by
  have index := fs.index_eq inode
  have small := computable.index
  have shifted := shlU32_block computable.block
  have u32 := range.u32
  have parts := inode_eq fs range.positive
  have group : fs.blockGroup memory (fs.groupOf inode) = some _ := if_pos range.group
  have bytes : mulU32 (fs.blockOf inode) (1024 * 2 ^ fs.blockSize) =
      some (fs.blockOf inode * fs.blockBytes) := by
    have below : fs.blockOf inode * fs.blockBytes < 2 ^ 32 := by omega
    exact if_pos below
  have first : mulU32 (fs.groupOf inode) fs.inodesPerBlockGroup =
      some (fs.groupOf inode * fs.inodesPerBlockGroup) := if_pos (by omega)
  have base : addU32 (fs.groupOf inode * fs.inodesPerBlockGroup)
      (fs.blockOf inode * fs.blockBytes / 128) = some _ := if_pos (by omega)
  have baseInode : addU32 (fs.groupOf inode * fs.inodesPerBlockGroup +
      fs.blockOf inode * fs.blockBytes / 128) 1 = some _ := if_pos (by omega)
  have offset : subUnsigned inode (fs.groupOf inode * fs.inodesPerBlockGroup +
      fs.blockOf inode * fs.blockBytes / 128 + 1) = some (fs.offsetOf inode) := by
    unfold subUnsigned
    rw [if_neg (by omega)]
    congr 1
    omega
  have block : addU32 (fs.tableBlock memory inode) (fs.blockOf inode) = some _ :=
    if_pos computable.sum
  have bytes64 : mulU64 (fs.tableBlock memory inode + fs.blockOf inode) (1024 * 2 ^ fs.blockSize) =
      some ((fs.tableBlock memory inode + fs.blockOf inode) * fs.blockBytes) := by
    have power : 2 ^ fs.blockSize ≤ 2 ^ 21 := by
      have bound := computable.block
      exact Nat.pow_le_pow_right (by decide) (by omega)
    have below : (fs.tableBlock memory inode + fs.blockOf inode) * (1024 * 2 ^ fs.blockSize) <
        2 ^ 32 * 2 ^ 32 :=
      Nat.mul_lt_mul_of_lt_of_le computable.sum (by omega) (by decide)
    exact if_pos below
  have divided : divUnsigned ((fs.tableBlock memory inode + fs.blockOf inode) * fs.blockBytes)
      disk.sectorSize = some _ := if_neg range.sector_pos.ne'
  have lba : sumU64 fs.startingLba ((fs.tableBlock memory inode + fs.blockOf inode) *
      fs.blockBytes / disk.sectorSize) = some (fs.sectorOf memory inode disk.sectorSize) := by
    have holds := range.holds
    have numSectors := range.numSectors
    unfold Disk.Holds at holds
    have below : fs.sectorOf memory inode disk.sectorSize < 2 ^ 64 := by omega
    exact if_pos below
  unfold MountedExt2.locateInode
  simp only [blockGroupOfInode_eq range.inodes range.positive,
    indexIntoBlockGroup_eq range.inodes range.positive, group, computable.blockContainingInode,
      shifted, bytes, first, base, baseInode, offset,
    Option.bind_eq_bind, Option.bind_some]
  have table : (PhysicalExt2BlockGroup.at memory (fs.blockGroups + fs.groupOf inode *
    PhysicalExt2BlockGroup.sizeOf)).blockAddressOfInodeTable = fs.tableBlock memory inode := rfl
  simp only [table, block, shlU64_block (computable.block.trans (by decide)), bytes64, divided, lba,
    Option.bind_some]

/-- What is found was computed, behind an element of the table. -/
theorem locateInode_inv (inodes : 0 < fs.inodesPerBlockGroup) (positive : 1 ≤ inode)
    {sectorSize : Nat} {place : Nat × Nat}
    (found : fs.locateInode memory inode sectorSize = some place) :
    fs.groupOf inode < fs.numBlockGroups ∧ fs.Computable memory inode ∧
      place.2 = fs.offsetOf inode := by
  have parts := inode_eq fs positive
  unfold MountedExt2.locateInode at found
  simp only [blockGroupOfInode_eq inodes positive, indexIntoBlockGroup_eq inodes positive,
    Option.bind_eq_bind, Option.bind_some, MountedExt2.blockContainingInode,
    Option.bind_eq_some_iff] at found
  obtain ⟨group, known, inodeBlock, ⟨index, product, size, shifted, divided⟩, found⟩ := found
  obtain ⟨size', shifted', bytes, bytesOf, first, firstOf, base, baseOf, baseInode, baseInodeOf,
    offset, offsetOf, block, sum, _, _, _, _, _, _, _, _, result⟩ := found
  have inGroup : fs.groupOf inode < fs.numBlockGroups := by
    unfold MountedExt2.blockGroup at known
    split at known
    next inside => exact inside
    · cases known
  unfold MountedExt2.blockGroup at known
  rw [if_pos inGroup] at known
  cases known
  obtain ⟨small, rfl⟩ := some_of_mulU32 product
  obtain ⟨nonzero, rfl⟩ := some_of_divUnsigned divided
  have bits : fs.blockSize < 22 := by
    by_contra large
    exact nonzero (shlU32_zero (Nat.le_of_not_lt large) shifted)
  rw [shlU32_block bits] at shifted shifted'
  cases shifted
  cases shifted'
  obtain ⟨below, _⟩ := some_of_addU32 sum
  refine ⟨inGroup, ⟨bits, by omega, below⟩, ?_⟩
  obtain ⟨_, rfl⟩ := some_of_mulU32 bytesOf
  obtain ⟨_, rfl⟩ := some_of_mulU32 firstOf
  obtain ⟨_, rfl⟩ := some_of_addU32 baseOf
  obtain ⟨_, rfl⟩ := some_of_addU32 baseInodeOf
  cases result
  have difference : inode - (fs.groupOf inode * fs.inodesPerBlockGroup +
      fs.blockOf inode * fs.blockBytes / 128 + 1) = offset := by
    unfold subUnsigned at offsetOf
    split at offsetOf
    · cases offsetOf
    · exact Option.some.inj offsetOf
  dsimp only
  omega

/-! ### What is read -/

/-- The inode that is returned is the one on the disk, and the sectors that are read hold all
of its bytes and stay in pages that were free before. -/
structure Locates (fs : MountedExt2) (disk : Disk) (m : IoMachine) (inode : Nat) : Prop where
  returns : ∃ m', fs.readInode inode disk m =
    .ok (PhysicalExt2Inode.at disk.content (fs.inodeAddress disk m.memory inode)) m'
  covers : ∀ lba offset, fs.locateInode m.memory inode disk.sectorSize = some (lba, offset) →
    lba * disk.sectorSize ≤ fs.inodeAddress disk m.memory inode ∧
      fs.inodeAddress disk m.memory inode + 128 ≤
        (lba + disk.sectorsOf ((offset + 1) * 128)) * disk.sectorSize
  stays : ∀ lba offset buffer m', fs.locateInode m.memory inode disk.sectorSize =
    some (lba, offset) →
    Buffer.new false ((offset + 1) * 128) m = .ok buffer m' →
    Backed m.allocator m'.allocator buffer.ptr
      (disk.sectorsOf ((offset + 1) * 128) * disk.sectorSize)

/-- The sectors up to an inode, from its block on, fit into the pages that are counted in
`u16`. -/
def FitsBuffer (fs : MountedExt2) (disk : Disk) (inode : Nat) : Prop :=
  disk.sectorsOf (fs.spanOf inode) * disk.sectorSize ≤ Buffer.pages (fs.spanOf inode) % 2 ^ 16 *
    0x1000

instance (inode : Nat) : Decidable (fs.FitsBuffer disk inode) := inferInstanceAs (Decidable (_ ≤ _))

private theorem spanOf_pos (fs : MountedExt2) (inode : Nat) : 0 < fs.spanOf inode := by
  unfold spanOf
  omega

/-- Sectors that fit into the pages do not lose any of them. -/
theorem InRange.pages_lt (range : fs.InRange disk memory inode) (fits : fs.FitsBuffer disk inode) :
    Buffer.pages (fs.spanOf inode) < 2 ^ 16 := by
  by_contra large
  have covered : fs.spanOf inode ≤ disk.sectorsOf (fs.spanOf inode) * disk.sectorSize :=
    disk.le_sectorsOf range.sector_pos _
  have rounded := Buffer.pages_le (fs.spanOf inode)
  have less := Nat.mod_lt (Buffer.pages (fs.spanOf inode)) (y := 2 ^ 16) (by decide)
  unfold FitsBuffer at fits
  omega

/-- The sectors cover the bytes of the inode. -/
theorem InRange.covers (range : fs.InRange disk memory inode) :
    fs.inodeAddress disk memory inode + 128 ≤
      (fs.sectorOf memory inode disk.sectorSize + disk.sectorsOf (fs.spanOf inode)) *
        disk.sectorSize := by
  have covered : fs.spanOf inode ≤ disk.sectorsOf (fs.spanOf inode) * disk.sectorSize :=
    disk.le_sectorsOf range.sector_pos _
  rw [← range.address, Nat.add_mul]
  unfold spanOf at covered ⊢
  omega

private theorem InRange.offset_lt (range : fs.InRange disk memory inode) :
    fs.offsetOf inode + 1 < 2 ^ 32 := by
  have u32 := range.u32
  have positive := range.positive
  have inGroup : fs.indexOf inode ≤ inode - 1 := Nat.mod_le _ _
  have inBlock : fs.offsetOf inode ≤ fs.indexOf inode := Nat.mod_le _ _
  omega

theorem InRange.returns (range : fs.InRange disk m.memory inode)
    (computable : fs.Computable m.memory inode) (fits : fs.FitsBuffer disk inode)
    (serves : m.allocator.Serves [Buffer.pages (fs.spanOf inode) % 2 ^ 16]) :
    ∃ m', fs.readInode inode disk m =
      .ok (PhysicalExt2Inode.at disk.content (fs.inodeAddress disk m.memory inode)) m' := by
  obtain ⟨k, b, a', a'', lent⟩ := serves.lends (fs.spanOf_pos inode) (range.pages_lt fits)
  have found := range.locateInode computable
  have inodes : addU32 (fs.offsetOf inode) 1 = some (fs.offsetOf inode + 1) :=
      if_pos range.offset_lt
  have size : b.originalSize = fs.spanOf inode := by rw [lent.buffer]
  have read := readIntoBuffer_ok (m := ⟨m.memory, a'⟩) (b := b) range.queue range.numSectors
    (size ▸ range.holds) (by rw [lent.buffer])
  rw [size] at read
  refine ⟨⟨copyInto m.memory b.ptr (disk.sectorsOf (fs.spanOf inode) * disk.sectorSize)
    (disk.from (fs.sectorOf m.memory inode disk.sectorSize)), a''⟩, ?_⟩
  unfold readInode
  rw [get_bind_run, found, orPanic_some, pure_bind]
  dsimp only
  rw [inodes, orPanic_some, pure_bind]
  change (Buffer.new false (fs.spanOf inode) >>= _) m = _
  rw [bind_of_ok lent.made, bind_of_ok read, get_bind_run, bind_of_ok (lent.released _)]
  have bytes : PhysicalExt2Inode.at (copyInto m.memory b.ptr
      (disk.sectorsOf (fs.spanOf inode) * disk.sectorSize)
      (disk.from (fs.sectorOf m.memory inode disk.sectorSize))) (b.ptr + fs.offsetOf inode * 128) =
      PhysicalExt2Inode.at disk.content (fs.inodeAddress disk m.memory inode) := by
    apply PhysicalExt2Inode.at_congr
    intro i less
    have covered : fs.spanOf inode ≤ disk.sectorsOf (fs.spanOf inode) * disk.sectorSize :=
      disk.le_sectorsOf range.sector_pos _
    have inside : fs.offsetOf inode * 128 + i < disk.sectorsOf (fs.spanOf inode) *
        disk.sectorSize := by
      unfold spanOf at covered ⊢
      omega
    rw [Nat.add_assoc, copyInto_inside inside, ← range.address, Nat.add_assoc]
    rfl
  rw [bytes]
  rfl

private theorem InRange.locates (range : fs.InRange disk m.memory inode)
    (computable : fs.Computable m.memory inode) (fits : fs.FitsBuffer disk inode)
    (serves : m.allocator.Serves [Buffer.pages (fs.spanOf inode) % 2 ^ 16]) :
    fs.Locates disk m inode := by
  have found := range.locateInode computable
  refine ⟨range.returns computable fits serves, ?_, ?_⟩
  · intro lba offset located
    rw [found] at located
    cases located
    refine ⟨?_, range.covers⟩
    rw [← range.address]
    exact Nat.le_add_right _ _
  · intro lba offset buffer m' located made
    rw [found] at located
    cases located
    obtain ⟨_, k, _, picks, took, rfl⟩ := (Buffer.new_yields false _).ok made
    exact backed_of_took took.sets picks.clear fits

theorem Locates.fits (locates : fs.Locates disk m inode) (range : fs.InRange disk m.memory inode) :
    fs.Computable m.memory inode ∧ fs.FitsBuffer disk inode := by
  obtain ⟨m', returns⟩ := locates.returns
  unfold readInode at returns
  rw [get_bind_run] at returns
  cases located : fs.locateInode m.memory inode disk.sectorSize with
  | none =>
    rw [located] at returns
    cases returns
  | some place =>
    obtain ⟨_, computable, _⟩ := locateInode_inv range.inodes range.positive located
    refine ⟨computable, ?_⟩
    have found := range.locateInode computable
    rw [found, orPanic_some, pure_bind] at returns
    dsimp only at returns
    have inodes : addU32 (fs.offsetOf inode) 1 = some (fs.offsetOf inode + 1) :=
      if_pos range.offset_lt
    rw [inodes, orPanic_some, pure_bind] at returns
    obtain ⟨buffer, m₁, made, _⟩ := of_bind_ok returns
    have stays := locates.stays _ _ _ _ found made
    obtain ⟨_, k, _, picks, took, rfl⟩ := (Buffer.new_yields false _).ok made
    exact le_of_backed took.sets stays

/-- The inode that is read is the one on the disk, and its sectors stay in the buffer,
exactly if what is computed fits into `u32` and the sectors fit into the pages. -/
theorem locates_iff (range : fs.InRange disk m.memory inode)
    (serves : m.allocator.Serves [Buffer.pages (fs.spanOf inode) % 2 ^ 16]) :
    fs.Locates disk m inode ↔ fs.Computable m.memory inode ∧ fs.FitsBuffer disk inode := by
  constructor
  · intro locates
    exact locates.fits range
  · rintro ⟨computable, fits⟩
    exact range.locates computable fits serves

/-- One block group of 64 inodes, whose table starts at block 5. -/
def oneGroup (blockSize : Nat) : MountedExt2 where
  startingLba := 0
  blockSize := blockSize
  memory := ⟨0, 0x1000⟩
  blockGroups := 0
  numBlockGroups := 1
  inodesPerBlockGroup := 64
  rootDirectory := PhysicalExt2Directory.empty

/-- The memory with its descriptor, and free pages behind it. -/
def oneGroupMachine : IoMachine := ⟨fun a => if a = 8 then 5 else 0,
    ⟨fun _ => 0, 16, 0, 0x10000, 0⟩⟩

/-- A drive of 128 KiB. -/
def driveOf (sectorSize : Nat) : Disk := ⟨0, BitVec.ofNat 8, sectorSize, 0x20000 / sectorSize, 2⟩

/-- The third inode starts in the middle of a sector. -/
theorem locates_third : (oneGroup 0).Locates (driveOf 512) oneGroupMachine 3 := by
  have range : (oneGroup 0).InRange (driveOf 512) oneGroupMachine.memory 3 :=
    ⟨by decide, by decide, by decide, by decide, ⟨2, rfl⟩, by decide, by decide,
      by decide +kernel⟩
  have serves : oneGroupMachine.allocator.Serves [1] :=
    Allocator.serves_of_servesAll (by decide +kernel)
  exact (locates_iff range serves).mpr ⟨⟨by decide, by decide, by decide +kernel⟩, by
    decide +kernel⟩

/-- A sector of 8 KiB is larger than the page of the buffer for the first inode. -/
theorem not_locates_first : (oneGroup 3).InRange (driveOf 8192) oneGroupMachine.memory 1 ∧
    ¬(oneGroup 3).Locates (driveOf 8192) oneGroupMachine 1 := by
  have range : (oneGroup 3).InRange (driveOf 8192) oneGroupMachine.memory 1 :=
    ⟨by decide, by decide, by decide, by decide, ⟨1, rfl⟩, by decide, by decide,
      by decide +kernel⟩
  refine ⟨range, fun locates => ?_⟩
  exact absurd (locates.fits range).2 (by decide)

end MountedExt2

end EmkKernel
