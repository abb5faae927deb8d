import EmkKernel.Drivers.Reads
import EmkKernel.Pfs.DiskScanner

/-!
# What the disk scanner finds

The scanner keeps what is in use and finds what is on the disks, as long as the tables
and superblocks it asks for are there, a table has less than 2^21 entries, and there are
no more file systems than one page holds.
-/

namespace EmkKernel

open EStateM BitArray

-- The fields of a header are numbers of which nothing is known.
attribute [local irreducible] littleEndian

variable {m m' m'' : IoMachine} {disk : Disk}

/-! ### The table of a disk -/

namespace Disk

variable (disk)

/-- The header that is on the disk. -/
def gptHeader : GptHeader := GptHeader.at (disk.from 1) 0

/-- The bytes of the table. -/
def tableSize : Nat := disk.gptHeader.numPartitionEntries * 128

/-- An entry of the table that is on the disk. -/
def partition (id : Nat) : GptPartitionEntry :=
  GptPartitionEntry.at (disk.from disk.gptHeader.partitionEntryArrayStartingLba) (128 * id)

/-- The sector of the superblock of a partition. -/
def superblockLba (startingLba : Nat) : Nat := startingLba + 1024 / disk.sectorSize

/-- What a partition is recognised as from its superblock on the disk. -/
def recognise (startingLba : Nat) : Option Ext2Fs :=
  let superblock := disk.from (disk.superblockLba startingLba)
  if littleEndian superblock 56 2 = ext2FsSignature then
    some (Ext2Fs.at superblock 0 startingLba disk.identifier)
  else none

def IsLinux (id : Nat) : Prop := (disk.partition id).partitionGuid = linuxFileSystemPartitionGuid

instance (id : Nat) : Decidable (disk.IsLinux id) := inferInstanceAs (Decidable (_ = _))

/-- What a partition of the table is recognised as. -/
def ext2At (id : Nat) : Option Ext2Fs :=
  if disk.IsLinux id then disk.recognise (disk.partition id).startingLba else none

/-- The ext2 file systems of a disk, in the order of its table. -/
def ext2 : List Ext2Fs := (List.range disk.gptHeader.numPartitionEntries).filterMap disk.ext2At

/-- The superblocks that a scan asks for are on the disk. -/
def Superblocks : Prop :=
  ∀ id < disk.gptHeader.numPartitionEntries, disk.IsLinux id →
    disk.Holds (disk.superblockLba (disk.partition id).startingLba) 1024

instance : Decidable disk.Superblocks := inferInstanceAs (Decidable (∀ _ < _, _ → _))

end Disk

theorem GptHeader.at_congr {memory memory' : Nat → Byte} {address address' : Nat}
    (same : ∀ i < 88, memory (address + i) = memory' (address' + i)) :
    GptHeader.at memory address = GptHeader.at memory' address' := by
  have field (offset n : Nat) (inside : offset + n ≤ 88) :
      littleEndian memory (address + offset) n = littleEndian memory' (address' + offset) n := by
    refine littleEndian_congr fun i less => ?_
    rw [Nat.add_assoc, Nat.add_assoc]
    exact same _ (by omega)
  unfold GptHeader.at
  rw [field 72 8 (by omega), field 80 4 (by omega), field 84 4 (by omega)]

theorem GptPartitionEntry.at_congr {memory memory' : Nat → Byte} {address address' : Nat}
    (same : ∀ i < 128, memory (address + i) = memory' (address' + i)) :
    GptPartitionEntry.at memory address = GptPartitionEntry.at memory' address' := by
  have field (offset n : Nat) (inside : offset + n ≤ 128) :
      littleEndian memory (address + offset) n = littleEndian memory' (address' + offset) n := by
    refine littleEndian_congr fun i less => ?_
    rw [Nat.add_assoc, Nat.add_assoc]
    exact same _ (by omega)
  have first := field 0 8 (by omega)
  unfold GptPartitionEntry.at
  rw [Nat.add_zero, Nat.add_zero] at first
  rw [field 8 8 (by omega), field 32 8 (by omega), first]

private theorem bytesAt_congr {memory memory' : Nat → Byte} {address address' n : Nat}
    (same : ∀ i < n, memory (address + i) = memory' (address' + i)) :
    bytesAt memory address n = bytesAt memory' address' n := by
  refine List.map_congr_left fun i member => ?_
  exact same i (List.mem_range.mp member)

theorem Ext2Fs.at_congr {memory memory' : Nat → Byte} {address address' : Nat}
    (same : ∀ i < 1024, memory (address + i) = memory' (address' + i)) (lba ident : Nat) :
    Ext2Fs.at memory address lba ident = Ext2Fs.at memory' address' lba ident := by
  have part (offset n : Nat) (inside : offset + n ≤ 1024) (i : Nat) (less : i < n) :
      memory (address + offset + i) = memory' (address' + offset + i) := by
    rw [Nat.add_assoc, Nat.add_assoc]
    exact same _ (by omega)
  have revision := littleEndian_congr (part 76 4 (by omega))
  have extended := bytesAt_congr (part 84 152 (by omega))
  have superblock := bytesAt_congr (part 0 84 (by omega))
  unfold Ext2Fs.at
  rw [revision, extended]
  rw [Nat.add_zero, Nat.add_zero] at superblock
  rw [superblock]

/-- A table that was read into pages that were clear. -/
structure Gpt.Made (gpt : Gpt) (disk : Disk) (m m' : IoMachine) (k : Nat) : Prop where
  positive : 0 < Buffer.pages disk.tableSize % 2 ^ 16
  clear : Clear m.allocator.bitmap k (Buffer.pages disk.tableSize % 2 ^ 16)
  sets : SetsExactly m.allocator.bitmap m'.allocator.bitmap
    (InRun k (Buffer.pages disk.tableSize % 2 ^ 16))
  addend : m'.allocator.addend = m.allocator.addend
  buffer : gpt.buffer = ⟨m.allocator.addend + k * 0x1000, Buffer.pages disk.tableSize * 0x1000,
    disk.tableSize, false⟩
  content : disk.Holds disk.gptHeader.partitionEntryArrayStartingLba disk.tableSize →
    ∀ i < disk.tableSize, m'.memory (gpt.buffer.ptr + i) =
      disk.from disk.gptHeader.partitionEntryArrayStartingLba i
  kept : Buffer.pages disk.tableSize < 2 ^ 16 →
    Preserves m m' ∧ gpt.numEntries = disk.gptHeader.numPartitionEntries

theorem Gpt.new_yields (drive : disk.Drive) (header : disk.Holds 1 512) :
    Yields (Gpt.new disk) m (fun gpt m' => ∃ k, gpt.Made disk m m' k) fun _ _ => True := by
  unfold Gpt.new
  refine yields_fill drive fun b k m₁ first => ?_
  have read : GptHeader.at m₁.memory b.ptr = disk.gptHeader := by
    refine GptHeader.at_congr fun i less => ?_
    rw [first.content header i (by omega), Nat.zero_add]
  rw [yields_bind, yields_get]
  dsimp only
  rw [read, yields_bind]
  refine (orPanic_yields _).mono ?_ fun _ _ _ => trivial
  rintro size m₂ ⟨rfl, product⟩
  rw [yields_ite]
  split
  next => trivial
  next entries =>
    obtain rfl : disk.tableSize = size := by
      unfold mulU32 at product
      rw [of_not_not entries] at product
      split at product
      · exact Option.some.inj product
      · cases product
    refine yields_fill drive fun table l m₃ second => ?_
    rw [yields_bind, yields_get]
    have took := first.took.sets
    rw [yields_bind]
    refine (releaseBuffer_yields 1 k ?_ ?_ ?_).mono ?_ fun _ _ _ => trivial
    · rw [second.took.addend, first.took.addend, first.buffer]
    · rw [first.buffer]
      rfl
    · exact fun j run => (second.took.sets j).mpr (Or.inl ((took j).mpr (Or.inr run)))
    rintro _ m₄ ⟨memory, gave⟩
    refine ⟨l, second.positive, ?_, ?_, ?_, ?_, ?_, ?_⟩
    · intro j run
      by_contra set
      have set' := (took j).mpr (Or.inl (Bool.eq_true_of_not_eq_false set))
      rw [second.clear j run] at set'
      cases set'
    · exact setsExactly_around first.clear second.clear took second.took.sets gave.clears
    · rw [gave.addend, second.took.addend, first.took.addend]
    · rw [← first.took.addend]
      exact second.buffer
    · intro holds i less
      rw [memory]
      exact second.content holds i less
    · intro small
      have kept := (first.preserves (by decide)).trans (second.preserves small)
      refine ⟨kept.release first.clear memory gave, ?_⟩
      rw [← read]
      refine congrArg GptHeader.numPartitionEntries (GptHeader.at_congr fun i less => ?_)
      exact (second.preserves small).bytes _ (first.inUse (by decide) i (by omega))

/-! ### The partitions of a table -/

private theorem scanLinuxFileSystem_yields (drive : disk.Drive) {partition startingLba : Nat}
    (used : ∀ i < 128, m.allocator.InUse (partition + i))
    (starts : (GptPartitionEntry.at m.memory partition).startingLba = startingLba) :
    Yields (scanLinuxFileSystem partition disk) m
      (fun r m' => Preserves m m' ∧
        (disk.Holds (disk.superblockLba startingLba) 1024 → r = disk.recognise startingLba))
      fun _ _ => True := by
  unfold scanLinuxFileSystem
  rw [yields_bind, yields_get]
  dsimp only
  rw [starts, yields_bind]
  refine (orPanic_yields _).mono ?_ fun _ _ _ => trivial
  rintro lba m₁ ⟨rfl, sum⟩
  obtain rfl : disk.superblockLba startingLba = lba := by
    unfold sumU64 at sum
    split at sum
    · exact Option.some.inj sum
    · cases sum
  refine yields_fill drive fun b k m₂ filled => ?_
  have kept := filled.preserves (by decide)
  have starts' : (GptPartitionEntry.at m₂.memory partition).startingLba = startingLba := by
    rw [← starts]
    refine congrArg GptPartitionEntry.startingLba (GptPartitionEntry.at_congr fun i less => ?_)
    exact kept.bytes _ (used i less)
  have given : Yields b.release m₂ (fun _ m' => Preserves m₁ m') fun _ _ => True := by
    refine (releaseBuffer_yields 1 k ?_ ?_ ?_).mono ?_ fun _ _ _ => trivial
    · rw [filled.took.addend, filled.buffer]
    · rw [filled.buffer]
      rfl
    · exact fun j run => (filled.took.sets j).mpr (Or.inr run)
    · rintro _ m' ⟨memory, gave⟩
      exact kept.release filled.clear memory gave
  rw [yields_bind, yields_get, starts', yields_ite]
  -- the superblock in the buffer is the one on the disk
  have read (holds : disk.Holds (disk.superblockLba startingLba) 1024) (i : Nat) (less : i < 1024) :
      m₂.memory (b.ptr + i) = disk.from (disk.superblockLba startingLba) (0 + i) := by
    rw [filled.content holds i less, Nat.zero_add]
  have signature (holds : disk.Holds (disk.superblockLba startingLba) 1024) :
      littleEndian m₂.memory (b.ptr + 56) 2 =
        littleEndian (disk.from (disk.superblockLba startingLba)) 56 2 := by
    refine littleEndian_congr fun i less => ?_
    rw [Nat.add_assoc, read holds _ (by omega), Nat.zero_add]
  split
  next signed =>
    rw [yields_bind]
    refine given.mono (fun _ m' kept' => ⟨kept', fun holds => ?_⟩) fun _ _ failed => failed
    unfold Disk.recognise
    rw [if_pos (signature holds ▸ signed), Ext2Fs.at_congr (read holds)]
  next other =>
    rw [yields_bind]
    refine given.mono (fun _ m' kept' => ⟨kept', fun holds => ?_⟩) fun _ _ failed => failed
    unfold Disk.recognise
    rw [if_neg (signature holds ▸ other)]

private theorem scanPartition_yields (drive : disk.Drive) {partition id : Nat}
    (used : ∀ i < 128, m.allocator.InUse (partition + i))
    (entry : GptPartitionEntry.at m.memory partition = disk.partition id)
    (superblock : disk.IsLinux id →
      disk.Holds (disk.superblockLba (disk.partition id).startingLba) 1024) :
    Yields (scanPartition partition disk) m (fun r m' => Preserves m m' ∧ r = disk.ext2At id)
      fun _ _ => True := by
  unfold scanPartition
  rw [yields_bind, yields_get]
  dsimp only
  rw [entry, yields_ite]
  split
  next efi =>
    refine ⟨Preserves.refl m, ?_⟩
    have other : ¬disk.IsLinux id := by
      unfold Disk.IsLinux
      rw [efi]
      decide
    rw [Disk.ext2At, if_neg other]
  rw [yields_ite]
  split
  next linux =>
    refine (scanLinuxFileSystem_yields drive used (congrArg _ entry)).mono ?_ fun _ _ _ => trivial
    rintro r m' ⟨kept, found⟩
    refine ⟨kept, ?_⟩
    rw [found (superblock linux), Disk.ext2At]
    exact (if_pos linux).symm
  next other =>
    refine ⟨Preserves.refl m, ?_⟩
    rw [Disk.ext2At]
    exact (if_neg other).symm

/-! ### The loops -/

theorem PageAllocator.room_of_values {T : Type} {p p' : PageAllocator T} {data : T}
    {found rest : List T} (values : p'.values ++ data :: rest = p.values ++ found)
    (room : p.allocated + found.length ≤ p'.capacity) : p'.allocated + 1 ≤ p'.capacity := by
  have length := congrArg List.length values
  rw [List.length_append, List.length_append, List.length_cons, PageAllocator.length_values,
    PageAllocator.length_values] at length
  omega

/-- The tables and superblocks that a scan asks for are on the disk, and the table is short. -/
structure Disk.Scannable (disk : Disk) : Prop where
  entries : disk.gptHeader.numPartitionEntries < 2 ^ 21
  table : disk.Holds disk.gptHeader.partitionEntryArrayStartingLba disk.tableSize
  superblocks : disk.Superblocks

/-- A short table for which there are pages has all of them. -/
theorem Disk.pages_lt (entries : disk.gptHeader.numPartitionEntries < 2 ^ 21)
    (positive : 0 < Buffer.pages disk.tableSize % 2 ^ 16) :
    Buffer.pages disk.tableSize < 2 ^ 16 := by
  have bound := Buffer.pages_le disk.tableSize
  unfold Disk.tableSize at bound positive ⊢
  omega

/-- Where the loop over the entries of a table is, with the entries left. -/
structure Scanning (disk : Disk) (gpt : Gpt) (p : PageAllocator Ext2Fs) (m : IoMachine)
    (rest : List Nat) (p' : PageAllocator Ext2Fs) (m' : IoMachine) : Prop where
  kept : Preserves m m'
  bound : ∀ i ∈ rest, i < gpt.numEntries
  values : p'.values ++ rest.filterMap disk.ext2At = p.values ++ disk.ext2
  capacity : p'.capacity = p.capacity

private theorem inside_table {number i j : Nat} (less : i < number) (small : j < 128) :
    128 * i + j < number * 128 := by
  omega

private theorem scanEntry_yields (drive : disk.Drive) (scannable : disk.Scannable) {gpt : Gpt}
    (number : gpt.numEntries = disk.gptHeader.numPartitionEntries)
    (used : ∀ i < disk.tableSize, m.allocator.InUse (gpt.buffer.ptr + i))
    (content : ∀ i < disk.tableSize, m.memory (gpt.buffer.ptr + i) =
      disk.from disk.gptHeader.partitionEntryArrayStartingLba i)
    {p p' : PageAllocator Ext2Fs} (room : p.allocated + disk.ext2.length ≤ p.capacity)
    {i : Nat} {rest : List Nat} (scanning : Scanning disk gpt p m (i :: rest) p' m') :
    Yields (scanEntry gpt disk p' i) m' (Scanning disk gpt p m rest) fun _ _ => True := by
  obtain ⟨kept, bound, values, capacity⟩ := scanning
  have less := bound i List.mem_cons_self
  rw [number] at less
  have inside {j : Nat} (small : j < 128) : 128 * i + j < disk.tableSize := inside_table less small
  have entry : GptPartitionEntry.at m'.memory (gpt.entry i) = disk.partition i := by
    refine GptPartitionEntry.at_congr fun j small => ?_
    rw [Gpt.entry, Nat.add_assoc, kept.bytes _ (used _ (inside small))]
    exact content _ (inside small)
  have used' (j : Nat) (small : j < 128) : m'.allocator.InUse (gpt.entry i + j) := by
    rw [Gpt.entry, Nat.add_assoc]
    exact kept.inUse _ (used _ (inside small))
  have superblock := scannable.superblocks i less
  unfold scanEntry
  rw [yields_bind]
  refine (scanPartition_yields drive used' entry superblock).mono ?_ fun _ _ failed => failed
  rintro r m'' ⟨kept', found⟩
  have bound' (j : Nat) (member : j ∈ rest) : j < gpt.numEntries :=
    bound j (List.mem_cons_of_mem _ member)
  cases r with
  | none =>
    rw [List.filterMap_cons_none found.symm] at values
    exact ⟨kept.trans kept', bound', values, capacity⟩
  | some data =>
    rw [List.filterMap_cons_some found.symm] at values
    have room' := PageAllocator.room_of_values values (capacity ▸ room)
    have pushed := PageAllocator.values_pushBack data room'
    refine ⟨kept.trans kept', bound', ?_, (PageAllocator.capacity_pushBack _).trans capacity⟩
    rw [pushed, List.append_assoc]
    exact values

private theorem scanDisk_yields (drive : disk.Drive) (header : disk.Holds 1 512)
    (scannable : disk.Scannable) {p : PageAllocator Ext2Fs}
    (room : p.allocated + disk.ext2.length ≤ p.capacity) :
    Yields (scanDisk p disk) m
      (fun p' _ => p'.values = p.values ++ disk.ext2 ∧ p'.capacity = p.capacity)
      fun _ _ => True := by
  unfold scanDisk
  rw [yields_bind]
  refine (Gpt.new_yields drive header).mono ?_ fun _ _ _ => trivial
  rintro gpt m₁ ⟨k, made⟩
  have small := Disk.pages_lt scannable.entries made.positive
  obtain ⟨_, number⟩ := made.kept small
  have used (i : Nat) (less : i < disk.tableSize) : m₁.allocator.InUse (gpt.buffer.ptr + i) := by
    have sets := made.sets
    rw [Nat.mod_eq_of_lt small] at sets
    rw [made.buffer]
    exact inUse_of_sets sets made.addend less
  have content := made.content scannable.table
  have start : Scanning disk gpt p m₁ (List.range gpt.numEntries) p m₁ := by
    refine ⟨Preserves.refl m₁, fun i member => List.mem_range.mp member, ?_, rfl⟩
    rw [number]
    rfl
  rw [yields_bind]
  refine (yields_foldlM _ (Scanning disk gpt p m₁) ?_ start).mono ?_ fun _ _ failed => failed
  · intro i rest p' m' scanning
    exact scanEntry_yields drive scannable number used content room scanning
  · rintro p' m₂ ⟨_, _, values, capacity⟩
    rw [List.filterMap_nil, List.append_nil] at values
    rw [yields_bind]
    exact (yields_any _ _).mono (fun _ _ _ => ⟨values, capacity⟩) fun _ _ _ => trivial

/-! ### A scan -/

/-- The scan of the first disks. -/
def scanFirst (disks : List Disk) : IoM (PageAllocator Ext2Fs) := do
  let (_, ext2Allocator) ← newExt2Allocator
  disks.foldlM scanDisk ext2Allocator

/-- The entries are in pages that were taken for the table, and are those of the disk. -/
structure Gpt.EntriesInside (gpt : Gpt) (disk : Disk) (m m' : IoMachine) : Prop where
  entries : gpt.numEntries * 128 ≤ gpt.buffer.originalSize
  backed : Backed m.allocator m'.allocator gpt.buffer.ptr gpt.buffer.originalSize
  read : disk.Holds disk.gptHeader.partitionEntryArrayStartingLba gpt.buffer.originalSize
  content : ∀ i < gpt.buffer.originalSize,
    m'.memory (gpt.buffer.ptr + i) = disk.from disk.gptHeader.partitionEntryArrayStartingLba i

/-- The scan examined entries that it had read, and found what is on the disks. -/
structure Scanned (disks : List Disk) (m : IoMachine) (r : DiskFileSystemArray) : Prop where
  tables : ∀ pre disk post p m₁ gpt m₂, disks = pre ++ disk :: post →
    scanFirst pre m = .ok p m₁ → Gpt.new disk m₁ = .ok gpt m₂ → gpt.EntriesInside disk m₁ m₂
  superblocks : ∀ disk ∈ disks, disk.Superblocks
  ext2 : r.ext2 = disks.flatMap Disk.ext2
  numExt2 : r.numExt2 = r.ext2.length
  inside : r.ext2.length * sizeOfExt2Fs ≤ r.fileSystemData.length

private theorem allocZeroed_yields (pages : Nat) :
    Yields (allocZeroed pages) m (fun mb _ => mb.length = pages * 0x1000) fun _ _ => True := by
  unfold allocZeroed
  rw [yields_bind, yields_get]
  split
  next mb a allocated =>
    obtain ⟨_, k, _, _, rfl, _⟩ := Allocator.alloc_ok _ allocated
    rfl
  next => trivial

private theorem newExt2Allocator_yields :
    Yields newExt2Allocator m (fun r _ => r.2.values = [] ∧ r.2.allocated = 0 ∧ r.2.capacity = 112)
      fun _ _ => True := by
  unfold newExt2Allocator
  rw [yields_bind]
  exact (yields_any _ _).mono (fun _ _ _ => ⟨rfl, rfl, rfl⟩) fun _ _ _ => trivial

theorem scanDisks_cases {disks : List Disk} {r : DiskFileSystemArray}
    (ran : scanDisks disks m = .ok r m') :
    ∃ p m₁, scanFirst disks m = .ok p m₁ ∧ r.ext2 = p.values ∧
      r.numExt2 = p.values.length % 2 ^ 8 ∧ r.fileSystemData.length = 0x1000 := by
  unfold scanDisks at ran
  obtain ⟨⟨block, p₀⟩, m₀, created, ran⟩ := of_bind_ok ran
  obtain ⟨p, m₁, scanned, ran⟩ := of_bind_ok ran
  obtain ⟨data, m₂, allocated, ran⟩ := of_bind_ok ran
  obtain ⟨_, m₃, _, ran⟩ := of_bind_ok ran
  cases ran
  refine ⟨p, m₁, ?_, rfl, rfl, ?_⟩
  · unfold scanFirst
    rw [bind_of_ok created]
    exact scanned
  · have length := (allocZeroed_yields 1).ok allocated
    exact length

private theorem scanFirst_append {pre post : List Disk} {p : PageAllocator Ext2Fs}
    (ran : scanFirst (pre ++ post) m = .ok p m'') :
    ∃ p' m', scanFirst pre m = .ok p' m' ∧ post.foldlM scanDisk p' m' = .ok p m'' := by
  unfold scanFirst at ran
  obtain ⟨⟨block, p₀⟩, m₀, created, ran⟩ := of_bind_ok ran
  dsimp only at ran
  rw [List.foldlM_append] at ran
  obtain ⟨p', m', first, ran⟩ := of_bind_ok ran
  refine ⟨p', m', ?_, ran⟩
  unfold scanFirst
  rw [bind_of_ok created]
  exact first

theorem gpt_of_scanFirst {pre post : List Disk} {p : PageAllocator Ext2Fs}
    (ran : scanFirst (pre ++ disk :: post) m = .ok p m'') :
    ∃ p' m₁ gpt m₂, scanFirst pre m = .ok p' m₁ ∧ Gpt.new disk m₁ = .ok gpt m₂ := by
  obtain ⟨p', m₁, first, ran⟩ := scanFirst_append ran
  rw [List.foldlM_cons] at ran
  obtain ⟨_, _, scanned, _⟩ := of_bind_ok ran
  unfold scanDisk at scanned
  obtain ⟨gpt, m₂, made, _⟩ := of_bind_ok scanned
  exact ⟨p', m₁, gpt, m₂, first, made⟩

/-- All disks have drives that read, and headers. -/
def Drives (disks : List Disk) : Prop := ∀ disk ∈ disks, disk.Drive ∧ disk.Holds 1 512

/-- Where the loop over the disks is, with the disks left. -/
structure Collecting (disks rest : List Disk) (p : PageAllocator Ext2Fs) (_ : IoMachine) :
    Prop where
  within : rest ⊆ disks
  values : p.values ++ rest.flatMap Disk.ext2 = disks.flatMap Disk.ext2
  capacity : p.capacity = 112

private theorem scanFirst_yields {disks : List Disk} (drives : Drives disks)
    (scannable : ∀ disk ∈ disks, disk.Scannable) (few : (disks.flatMap Disk.ext2).length ≤ 112) :
    Yields (scanFirst disks) m (fun p _ => p.values = disks.flatMap Disk.ext2) fun _ _ => True := by
  unfold scanFirst
  rw [yields_bind]
  refine newExt2Allocator_yields.mono ?_ fun _ _ _ => trivial
  rintro ⟨block, p₀⟩ m₀ ⟨none, _, capacity⟩
  dsimp only at none capacity ⊢
  have start : Collecting disks disks p₀ m₀ := ⟨List.Subset.refl _, by rw [none]; rfl, capacity⟩
  refine (yields_foldlM scanDisk (Collecting disks) ?_ start).mono ?_ fun _ _ failed => failed
  · rintro disk rest p m₁ ⟨within, values, capacity⟩
    have member := within List.mem_cons_self
    obtain ⟨drive, header⟩ := drives disk member
    rw [List.flatMap_cons] at values
    have room : p.allocated + disk.ext2.length ≤ p.capacity := by
      have length := congrArg List.length values
      rw [List.length_append, List.length_append, PageAllocator.length_values] at length
      omega
    refine (scanDisk_yields drive header (scannable disk member) room).mono ?_ fun _ _ failed =>
      failed
    rintro p' m₂ ⟨pushed, same⟩
    refine ⟨fun d left => within (List.mem_cons_of_mem _ left), ?_, same.trans capacity⟩
    rw [pushed, List.append_assoc]
    exact values
  · rintro p m₁ ⟨_, values, _⟩
    rw [List.flatMap_nil, List.append_nil] at values
    exact values

/-- A scan that returns found what is on the disks if and only if all that it asked for was
there, the tables were short, and one page has room for what it found. -/
theorem scanDisks_iff {disks : List Disk} {r : DiskFileSystemArray} (drives : Drives disks)
    (ran : scanDisks disks m = .ok r m') :
    Scanned disks m r ↔
      (∀ disk ∈ disks, disk.Scannable) ∧ (disks.flatMap Disk.ext2).length ≤ 16 := by
  obtain ⟨p, m₁, scanned, ext2, numExt2, length⟩ := scanDisks_cases ran
  constructor
  · intro found
    refine ⟨fun disk member => ?_, ?_⟩
    · obtain ⟨pre, post, rfl⟩ := List.append_of_mem member
      obtain ⟨drive, header⟩ := drives disk member
      obtain ⟨p', m₂, gpt, m₃, first, made⟩ := gpt_of_scanFirst scanned
      obtain ⟨entries, backed, read, _⟩ := found.tables _ _ _ _ _ _ _ rfl first made
      obtain ⟨k, made⟩ := (Gpt.new_yields drive header).ok made
      rw [made.buffer] at backed read
      refine ⟨?_, read, found.superblocks disk member⟩
      have bound := le_of_backed made.sets backed
      dsimp only at bound
      unfold Disk.tableSize at bound
      omega
    · have inside := found.inside
      rw [length, found.ext2] at inside
      unfold sizeOfExt2Fs at inside
      omega
  · rintro ⟨scannable, few⟩
    have values := (scanFirst_yields drives scannable (by omega)).ok scanned
    refine ⟨?_, fun disk member => (scannable disk member).superblocks, ext2.trans values, ?_, ?_⟩
    · rintro pre disk post p' m₂ gpt m₃ rfl first made
      have member : disk ∈ pre ++ disk :: post := List.mem_append_right _ List.mem_cons_self
      obtain ⟨drive, header⟩ := drives disk member
      obtain ⟨k, made⟩ := (Gpt.new_yields drive header).ok made
      have small := Disk.pages_lt (scannable disk member).entries made.positive
      have covered := Buffer.le_pages disk.tableSize
      have clear := made.clear
      have sets := made.sets
      rw [Nat.mod_eq_of_lt small] at clear sets
      refine ⟨?_, ?_, ?_, ?_⟩
      · rw [(made.kept small).2, made.buffer]
        exact Nat.le_refl _
      · rw [made.buffer]
        exact backed_of_took sets clear covered
      · rw [made.buffer]
        exact (scannable disk member).table
      · have content := made.content (scannable disk member).table
        rw [made.buffer] at content ⊢
        exact content
    · rw [numExt2, ext2, values]
      omega
    · rw [ext2, values, length]
      unfold sizeOfExt2Fs
      omega

/-! ### A disk of Linux partitions -/

/-- The bytes of an entry of a Linux partition that starts at sector 10. -/
def linuxEntry : List Byte :=
  [0xAF, 0x3D, 0xC6, 0x0F, 0x83, 0x84, 0x72, 0x47, 0x8E, 0x79, 0x3D, 0x69, 0xD8, 0x47, 0x7D, 0xE4,
    0, 0, 0, 0, 0, 0, 0, 0, 0, 0, 0, 0, 0, 0, 0, 0, 10]

/-- A disk with a table of `n` partitions, all at the same superblock. -/
def linuxDisk (n : Nat) : Disk where
  identifier := 0
  content := fun a =>
    if a = 584 then 2 else if a = 592 then BitVec.ofNat 8 n else if a = 596 then 128
    else if 1024 ≤ a ∧ a < 1024 + n * 128 then linuxEntry.getD ((a - 1024) % 128) 0
    else if a = 6200 then 0x53 else if a = 6201 then 0xEF else 0
  sectorSize := 512
  numSectors := 32
  queuesImplemented := 2

def scanMachine : IoMachine := ⟨fun _ => 0, ⟨fun _ => 0, 16, 0, 0, 0⟩⟩

/-- What is looked at after a scan of it: the file systems found, and the room for them. -/
def foundOn (n : Nat) : Option (Nat × Nat) :=
  ((scanDisks [linuxDisk n]).value? scanMachine).map fun r =>
    (r.ext2.length, r.fileSystemData.length)

private theorem scan_of_foundOn {n : Nat} {found : Nat × Nat} (seen : foundOn n = some found) :
    ∃ r m', scanDisks [linuxDisk n] scanMachine = .ok r m' ∧
      r.ext2.length = found.1 ∧ r.fileSystemData.length = found.2 := by
  obtain ⟨r, value, rfl⟩ := Option.map_eq_some_iff.mp seen
  unfold value? at value
  split at value
  next r' m' ran =>
    cases value
    exact ⟨r, m', ran, rfl, rfl⟩
  next => cases value

private theorem drives_linuxDisk (n : Nat) : Drives [linuxDisk n] := by
  intro disk member
  obtain rfl := List.mem_singleton.mp member
  have sector : 0 < 512 ∧ 512 ∣ 0x1000 := by decide
  have sectors : 32 < 2 ^ 64 := by decide
  have header : 1 + (512 / 512 + if 512 % 512 ≠ 0 then 1 else 0) ≤ 32 := by decide
  exact ⟨⟨sector, sectors, Nat.le_refl 1⟩, header⟩

theorem scanDisks_one :
    ∃ r m', scanDisks [linuxDisk 1] scanMachine = .ok r m' ∧
      Scanned [linuxDisk 1] scanMachine r := by
  have seen : foundOn 1 = some (1, 0x1000) := by decide +kernel
  obtain ⟨r, m', ran, _⟩ := scan_of_foundOn seen
  refine ⟨r, m', ran, (scanDisks_iff (drives_linuxDisk 1) ran).mpr ⟨fun disk member => ?_, ?_⟩⟩
  · obtain rfl := List.mem_singleton.mp member
    exact ⟨by decide +kernel, by decide +kernel, by decide +kernel⟩
  · decide +kernel

/-- The seventeenth file system is behind the page that the array has. -/
theorem scanDisks_overflows :
    ∃ r m', scanDisks [linuxDisk 17] scanMachine = .ok r m' ∧
      ¬Scanned [linuxDisk 17] scanMachine r := by
  have seen : foundOn 17 = some (17, 0x1000) := by decide +kernel
  obtain ⟨r, m', ran, found, room⟩ := scan_of_foundOn seen
  refine ⟨r, m', ran, fun scanned => ?_⟩
  have inside := scanned.inside
  rw [found, room] at inside
  exact absurd inside (by decide)

end EmkKernel
