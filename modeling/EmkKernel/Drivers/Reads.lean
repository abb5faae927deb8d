import EmkKernel.Drivers.Buffers

/-!
# Reads into new buffers

A buffer is taken from pages that are free, and what a drive reads into it does not leave
these pages, as long as their number fits into `u16`. So what is in use is preserved, from
the new buffer to its release.
-/

namespace EmkKernel

open EStateM BitArray

variable {m m' m'' : IoMachine} {disk : Disk}

/-- A drive with a queue for the scanner, sectors that fill pages, and a header. -/
structure Disk.Drive (disk : Disk) : Prop where
  sector : 0 < disk.sectorSize ∧ disk.sectorSize ∣ 0x1000
  sectors : disk.numSectors < 2 ^ 64
  queue : 1 ≤ disk.queuesImplemented - 1

/-- The sectors that a number of bytes takes. -/
def Disk.sectorsOf (disk : Disk) (size : Nat) : Nat :=
  size / disk.sectorSize + if size % disk.sectorSize ≠ 0 then 1 else 0

/-- The sectors are on the disk. -/
def Disk.Holds (disk : Disk) (lba size : Nat) : Prop := lba + disk.sectorsOf size ≤ disk.numSectors

instance (lba size : Nat) : Decidable (disk.Holds lba size) := inferInstanceAs (Decidable (_ ≤ _))

/-- The bytes from a sector on. -/
def Disk.from (disk : Disk) (lba : Nat) : Nat → Byte :=
    fun i => disk.content (lba * disk.sectorSize + i)

theorem Disk.le_sectorsOf (disk : Disk) (positive : 0 < disk.sectorSize) (size : Nat) :
    size ≤ disk.sectorsOf size * disk.sectorSize := by
  have whole := Nat.div_add_mod size disk.sectorSize
  have part := Nat.mod_lt size positive
  rw [Nat.mul_comm] at whole
  unfold Disk.sectorsOf
  split
  · rw [Nat.add_one_mul]
    omega
  · rw [Nat.add_zero]
    omega

/-- Bytes of the disk are in sectors of the disk. -/
theorem Disk.holds_of_le {lba size : Nat} (positive : 0 < disk.sectorSize)
    (inside : lba * disk.sectorSize + size ≤ disk.numSectors * disk.sectorSize) :
    disk.Holds lba size := by
  have whole := Nat.div_add_mod size disk.sectorSize
  rw [Nat.mul_comm] at whole
  unfold Disk.Holds Disk.sectorsOf
  split
  next more =>
    -- the last byte is in the last of the sectors
    have before : (lba + size / disk.sectorSize) * disk.sectorSize <
        disk.numSectors * disk.sectorSize := by
      rw [Nat.add_mul]
      omega
    exact Nat.lt_of_mul_lt_mul_right before
  next =>
    apply Nat.le_of_mul_le_mul_right _ positive
    rw [Nat.add_zero, Nat.add_mul]
    omega

theorem Disk.Drive.size_le (drive : disk.Drive) (size : Nat) :
    size ≤ disk.sectorsOf size * disk.sectorSize := disk.le_sectorsOf drive.sector.1 size

/-- A read of sectors that are on the disk. -/
theorem readIntoBuffer_ok {lba : Nat} {b : Buffer} (queue : 1 ≤ disk.queuesImplemented - 1)
    (sectors : disk.numSectors < 2 ^ 64) (holds : disk.Holds lba b.originalSize)
    (writable : b.readonly = false) :
    disk.readIntoBuffer lba b 1 m = .ok .success ⟨copyInto m.memory b.ptr
      (disk.sectorsOf b.originalSize * disk.sectorSize) (disk.from lba), m.allocator⟩ := by
  have sum : sumU64 lba (disk.sectorsOf b.originalSize) =
      some (lba + disk.sectorsOf b.originalSize) := if_pos (holds.trans_lt sectors)
  unfold Disk.readIntoBuffer
  rw [if_neg (by omega), writable, if_neg Bool.false_ne_true]
  change (orPanic (sumU64 lba (disk.sectorsOf b.originalSize)) >>= _) m = _
  rw [sum, orPanic_some, pure_bind, if_neg (Nat.not_lt.mpr holds)]
  rfl

/-- Whole sectors do not leave the pages of a buffer. -/
theorem Disk.Drive.le_pages (drive : disk.Drive) (size : Nat) :
    disk.sectorsOf size * disk.sectorSize ≤ Buffer.pages size * 0x1000 := by
  obtain ⟨positive, c, page⟩ := drive.sector
  have covered := Buffer.le_pages size
  have whole := Nat.div_add_mod size disk.sectorSize
  rw [Nat.mul_comm] at whole
  -- both are multiples of the sector size, and the pages reach behind the last byte
  rw [page, ← Nat.mul_assoc, Nat.mul_right_comm] at covered ⊢
  refine Nat.mul_le_mul_right _ ?_
  unfold Disk.sectorsOf
  split
  next more =>
    refine Nat.succ_le_of_lt (Nat.lt_of_mul_lt_mul_right (a := disk.sectorSize) ?_)
    omega
  next =>
    rw [Nat.add_zero]
    exact Nat.le_of_mul_le_mul_right (by omega) positive

/-- What is in use keeps its bytes and stays in use. -/
structure Preserves (m m' : IoMachine) : Prop where
  addend : m'.allocator.addend = m.allocator.addend
  inUse : ∀ a, m.allocator.InUse a → m'.allocator.InUse a
  bytes : ∀ a, m.allocator.InUse a → m'.memory a = m.memory a

theorem Preserves.refl (m : IoMachine) : Preserves m m := ⟨rfl, fun _ => id, fun _ _ => rfl⟩

theorem Preserves.trans (first : Preserves m m') (second : Preserves m' m'') : Preserves m m'' where
  addend := second.addend.trans first.addend
  inUse a used := second.inUse a (first.inUse a used)
  bytes a used := (second.bytes a (first.inUse a used)).trans (first.bytes a used)

theorem readIntoBuffer_spec (drive : disk.Drive) (lba : Nat) (buffer : Buffer)
    (writable : buffer.readonly = false) :
    Yields (disk.readIntoBuffer lba buffer 1) m
      (fun _ m' => m'.allocator = m.allocator ∧
        (∀ a, a < buffer.ptr ∨ buffer.ptr + Buffer.pages buffer.originalSize * 0x1000 ≤ a →
          m'.memory a = m.memory a) ∧
        (disk.Holds lba buffer.originalSize → ∀ i < buffer.originalSize,
          m'.memory (buffer.ptr + i) = disk.from lba i))
      fun _ _ => True := by
  have queue := drive.queue
  have inside := drive.size_le buffer.originalSize
  have pages := drive.le_pages buffer.originalSize
  unfold Disk.readIntoBuffer
  rw [if_neg (by omega), writable, if_neg Bool.false_ne_true]
  dsimp only
  change Yields (orPanic (sumU64 lba (disk.sectorsOf buffer.originalSize)) >>= _) _ _ _
  rw [yields_bind]
  refine (orPanic_yields _).mono ?_ fun _ _ _ => trivial
  rintro upper m₁ ⟨rfl, sum⟩
  obtain rfl : lba + disk.sectorsOf buffer.originalSize = upper := by
    unfold sumU64 at sum
    split at sum
    · exact Option.some.inj sum
    · cases sum
  rw [yields_ite]
  split
  next beyond =>
    refine ⟨rfl, fun _ _ => rfl, fun holds => ?_⟩
    exact absurd holds (Nat.not_le_of_lt beyond)
  next =>
    rw [yields_bind, yields_modify]
    refine ⟨rfl, fun a outside => ?_, fun _ i less => ?_⟩
    · have sectors : a < buffer.ptr ∨
          buffer.ptr + disk.sectorsOf buffer.originalSize * disk.sectorSize ≤ a := by omega
      have kept : copyInto m₁.memory buffer.ptr _ (disk.from lba) a = m₁.memory a :=
        copyInto_outside sectors
      exact kept
    · have sectors : i < disk.sectorsOf buffer.originalSize * disk.sectorSize := by omega
      have read : copyInto m₁.memory buffer.ptr _ (disk.from lba) (buffer.ptr + i) = _ :=
        copyInto_inside sectors
      exact read

/-- A new buffer that a read was made into. Its pages were free before. -/
structure Filled (disk : Disk) (m m' : IoMachine) (b : Buffer) (lba size k : Nat) : Prop where
  positive : 0 < Buffer.pages size % 2 ^ 16
  clear : Clear m.allocator.bitmap k (Buffer.pages size % 2 ^ 16)
  took : m.allocator.Took m'.allocator (Buffer.pages size % 2 ^ 16) k
  buffer : b = ⟨m.allocator.addend + k * 0x1000, Buffer.pages size * 0x1000, size, false⟩
  others : ∀ a, a < b.ptr ∨ b.ptr + Buffer.pages size * 0x1000 ≤ a → m'.memory a = m.memory a
  content : disk.Holds lba size → ∀ i < size, m'.memory (b.ptr + i) = disk.from lba i

/-- The rule for a new buffer and a read into it. -/
theorem yields_fill {α : Type} (drive : disk.Drive) {lba size : Nat} {f : Buffer → IoM α}
    {Q : α → IoMachine → Prop}
    (rest : ∀ b k m', Filled disk m m' b lba size k → Yields (f b) m' Q fun _ _ => True) :
    Yields (Buffer.new false size >>= fun b => disk.readIntoBuffer lba b 1 >>= fun _ => f b) m Q
      fun _ _ => True := by
  rw [yields_bind]
  refine (Buffer.new_yields false size).mono ?_ fun _ _ _ => trivial
  rintro b m₁ ⟨memory, k, positive, picks, took, rfl⟩
  rw [yields_bind]
  refine (readIntoBuffer_spec drive lba _ rfl).mono ?_ fun _ _ failed => failed
  rintro _ m₂ ⟨same, others, content⟩
  refine rest _ k m₂ ⟨positive, picks.clear, same ▸ took, rfl, fun a outside => ?_, content⟩
  rw [others a outside, memory]

/-- A page that is in use is none of those that were clear. -/
theorem outside_of_inUse {a : Allocator} {pages k i : Nat} (used : a.InUse i)
    (clear : Clear a.bitmap k pages) :
    i < a.addend + k * 0x1000 ∨ a.addend + k * 0x1000 + pages * 0x1000 ≤ i := by
  by_contra inside
  obtain ⟨above, set⟩ := used
  have free := clear ((i - a.addend) / 0x1000) ⟨by omega, by omega⟩
  rw [free] at set
  cases set

theorem Filled.preserves {b : Buffer} {lba size k : Nat} (filled : Filled disk m m' b lba size k)
    (small : Buffer.pages size < 2 ^ 16) : Preserves m m' where
  addend := filled.took.addend
  inUse a used := by
    refine ⟨filled.took.addend.symm ▸ used.1, ?_⟩
    rw [filled.took.addend]
    exact (filled.took.sets _).mpr (Or.inl used.2)
  bytes a used := by
    have outside := outside_of_inUse used filled.clear
    rw [Nat.mod_eq_of_lt small] at outside
    refine filled.others a ?_
    rw [filled.buffer]
    exact outside

/-- A release gives back the pages of the buffer. -/
theorem releaseBuffer_yields {b : Buffer} (pages k : Nat)
    (ptr : b.ptr = m.allocator.addend + k * 0x1000) (size : b.allocatedSize = pages * 0x1000)
    (taken : ∀ j, InRun k pages j → bit m.allocator.bitmap j = true) :
    Yields b.release m (fun _ m' => m'.memory = m.memory ∧ m.allocator.Gave m'.allocator pages k)
      fun _ _ => True := by
  unfold Buffer.release
  rw [yields_bind, yields_get, ptr, size]
  have block : (⟨m.allocator.addend + k * 0x1000, pages * 0x1000⟩ : MemoryBlock) =
      m.allocator.blockAt pages k := rfl
  rw [block]
  by_cases freeable : m.allocator.Freeable pages k
  · obtain ⟨a, freed, gave⟩ := Allocator.free_granted _ freeable taken
    rw [freed]
    exact ⟨rfl, gave⟩
  · obtain ⟨stop, freed⟩ := Allocator.free_refused _ freeable
    rw [freed]
    trivial

/-- What was in use before a buffer was made is still in use when it is released. -/
theorem Preserves.release {pages k : Nat} (before : Preserves m m')
    (clear : Clear m.allocator.bitmap k pages) (memory : m''.memory = m'.memory)
    (gave : m'.allocator.Gave m''.allocator pages k) : Preserves m m'' where
  addend := gave.addend.trans before.addend
  inUse a used := by
    obtain ⟨above, set⟩ := before.inUse a used
    refine ⟨gave.addend.symm ▸ above, ?_⟩
    rw [gave.addend]
    refine (gave.clears _).mpr ⟨set, fun run => ?_⟩
    -- the pages that are given back were clear, the page of `a` was not
    have free := clear _ (before.addend ▸ run)
    rw [used.2] at free
    cases free
  bytes a used := memory ▸ before.bytes a used

/-- The bytes of a buffer are in pages that were taken for it. -/
theorem inUse_of_sets {a a' : Allocator} {size k i : Nat}
    (sets : SetsExactly a.bitmap a'.bitmap (InRun k (Buffer.pages size)))
    (addend : a'.addend = a.addend) (less : i < size) : a'.InUse (a.addend + k * 0x1000 + i) := by
  have covered := Buffer.le_pages size
  have run : InRun k (Buffer.pages size) (k + i / 0x1000) := ⟨by omega, by omega⟩
  refine ⟨by omega, ?_⟩
  rw [addend, page_in_block]
  exact (sets _).mpr (Or.inr run)

/-- What is behind a buffer is in use. -/
theorem Filled.inUse {b : Buffer} {lba size k : Nat} (filled : Filled disk m m' b lba size k)
    (small : Buffer.pages size < 2 ^ 16) (i : Nat) (less : i < size) :
    m'.allocator.InUse (b.ptr + i) := by
  have sets := filled.took.sets
  rw [Nat.mod_eq_of_lt small] at sets
  rw [filled.buffer]
  exact inUse_of_sets sets filled.took.addend less

end EmkKernel
