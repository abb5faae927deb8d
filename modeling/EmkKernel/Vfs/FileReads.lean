import EmkKernel.Pfs.BlockReads
import EmkKernel.Vfs.File

/-!
# What the ways to read a file return

The three ways read the same bytes. They succeed for files that are not empty, need no
doubly indirect block and take less than 2^16 pages; `read` returns a buffer of whole
blocks, so it has the size of the file only if the file is made of whole blocks.
-/

namespace EmkKernel

open EStateM BitArray

variable {m m' : IoMachine}

/-! ### What the blocks of a file are read to -/

/-- The number of blocks, rounded up. -/
def numBlocks (blockSize size : Nat) : Nat := (size + blockSize - 1) / blockSize

/-- The bytes that the direct pointers name. -/
def directBytes (blockSize size : Nat) : Nat :=
  min (numBlocks blockSize size) 12 * blockSize

/-- The bytes that the singly indirect pointers name. -/
def indirectBytes (blockSize size : Nat) : Nat :=
  (numBlocks blockSize size - 12) * blockSize

/-- The same pages of the allocator are in use. -/
structure SamePages (m m' : IoMachine) : Prop where
  addend : m'.allocator.addend = m.allocator.addend
  bits : ∀ k, bit m'.allocator.bitmap k = bit m.allocator.bitmap k

theorem SamePages.trans {m'' : IoMachine} (first : SamePages m m') (second : SamePages m' m'') :
    SamePages m m'' :=
  ⟨second.addend.trans first.addend, fun k => (second.bits k).trans (first.bits k)⟩

theorem SamePages.inUse (same : SamePages m m') {i : Nat} (used : m.allocator.InUse i) :
    m'.allocator.InUse i := by
  unfold Allocator.InUse
  rw [same.addend, same.bits]
  exact used

/-- The bytes are at an address, and no other byte in use has changed. -/
structure Placed (m m' : IoMachine) (address n : Nat) (content : Nat → Byte) : Prop where
  bytes : ∀ i < n, m'.memory (address + i) = content i
  others : ∀ i, m.allocator.InUse i → i < address ∨ address + n ≤ i → m'.memory i = m.memory i
  pages : SamePages m m'

/-- A read that works returns the number of bytes it has placed. -/
def Places (x : IoM Nat) (m : IoMachine) (address n : Nat) (content : Nat → Byte) : Prop :=
  ∃ m', x m = .ok n m' ∧ Placed m m' address n content

/-- Reading a list of block pointers works. -/
structure ReadsPointers (gfs : GeneralFileSystem) (file : GfsFile) (scheduler : Nat)
    (content : Nat → Byte) : Prop where
  direct : ∀ (m : IoMachine) (buffer : Buffer), buffer.readonly = false →
    Places (gfs.readPointersIntoBuffer buffer file.directDataPointers file.fsIndex scheduler) m
      buffer.ptr (directBytes (gfs.blockSize file.fsIndex) file.size) content
  indirect : ∀ (m : IoMachine) (buffer : Buffer), buffer.readonly = false →
    Places (gfs.readSinglyIndirectPointerBlock buffer file.singlyIndirectDataPointer file.fsIndex
      scheduler) m buffer.ptr (indirectBytes (gfs.blockSize file.fsIndex) file.size)
      fun i => content (directBytes (gfs.blockSize file.fsIndex) file.size + i)

theorem Places.yields {x : IoM Nat} {address n : Nat} {content : Nat → Byte}
    (places : Places x m address n content) :
    Yields (unwrapRead x) m (fun r m' => r = n ∧ Placed m m' address n content)
      fun _ _ => False := by
  obtain ⟨m', ran, placed⟩ := places
  have yields : Yields x m (fun r m' => r = n ∧ Placed m m' address n content) fun _ _ => False :=
    yields_of_ok ran ⟨rfl, placed⟩
  exact yields_tryCatch yields fun _ _ impossible => impossible.elim

/-- A read behind another keeps what the first one placed. -/
theorem Placed.trans {m'' : IoMachine} {address n₁ n₂ : Nat} {content : Nat → Byte}
    (first : Placed m m' address n₁ content)
    (second : Placed m' m'' (address + n₁) n₂ fun i => content (n₁ + i))
    (owned : ∀ i < n₁, m.allocator.InUse (address + i)) :
    ∀ i < n₁ + n₂, m''.memory (address + i) = content i := by
  intro i less
  by_cases front : i < n₁
  · rw [second.others _ (first.pages.inUse (owned i front)) (Or.inl (by omega))]
    exact first.bytes i front
  · have behind := second.bytes (i - n₁) (by omega)
    rwa [Nat.add_assoc, Nat.add_sub_cancel' (Nat.le_of_not_lt front)] at behind

/-! ### The blocks of a file -/

variable {gfs : GeneralFileSystem} {file : GfsFile} {scheduler : Nat} {content : Nat → Byte}
  {s : Nat}

private theorem numBlocks_eq {blockSize size : Nat} (positive : 0 < blockSize) :
    numBlocks blockSize size = size / blockSize + if size % blockSize = 0 then 0 else 1 := by
  have whole := Nat.div_add_mod size blockSize
  have part := Nat.mod_lt size positive
  unfold numBlocks
  split
  next zero =>
    refine Nat.div_eq_of_lt_le ?_ ?_
    · rw [Nat.add_zero, Nat.mul_comm]
      omega
    · rw [Nat.add_zero, Nat.add_one_mul, Nat.mul_comm]
      omega
  next nonzero =>
    refine Nat.div_eq_of_lt_le ?_ ?_
    · rw [Nat.add_one_mul, Nat.mul_comm]
      omega
    · rw [Nat.add_one_mul, Nat.add_one_mul, Nat.mul_comm]
      omega

private theorem blockSize_ext2 (ext2 : gfs.detectedFileSystems file.fsIndex = .ext2 s) :
    gfs.blockSize file.fsIndex = 1024 * 2 ^ s := by
  unfold GeneralFileSystem.blockSize
  rw [ext2]

private theorem alignSize_ext2 (ext2 : gfs.detectedFileSystems file.fsIndex = .ext2 s) :
    gfs.alignSizeToBlocks file.size file.fsIndex =
      numBlocks (gfs.blockSize file.fsIndex) file.size * gfs.blockSize file.fsIndex := by
  have positive : 0 < 1024 * 2 ^ s := Nat.mul_pos (by decide) (Nat.two_pow_pos s)
  rw [blockSize_ext2 ext2, numBlocks_eq positive]
  unfold GeneralFileSystem.alignSizeToBlocks
  rw [ext2]
  dsimp only
  generalize 1024 * 2 ^ s = B at positive
  have whole := Nat.div_add_mod file.size B
  split
  next partial' =>
    have nonzero : file.size % B ≠ 0 := by
      intro zero
      rw [zero, Nat.add_zero, Nat.mul_comm] at whole
      exact partial' whole
    rw [if_neg nonzero, Nat.add_one_mul]
  next exact' =>
    have zero : file.size % B = 0 := by
      rw [Nat.mul_comm] at whole
      omega
    rw [if_pos zero, Nat.add_zero]

private theorem numBlocks_bounds {blockSize : Nat} (positive : 0 < blockSize) (size : Nat) :
    size ≤ numBlocks blockSize size * blockSize ∧
      numBlocks blockSize size * blockSize < size + blockSize := by
  have whole := Nat.div_add_mod (size + blockSize - 1) blockSize
  have part := Nat.mod_lt (size + blockSize - 1) positive
  unfold numBlocks
  rw [Nat.mul_comm] at whole
  omega

private theorem numBlocks_le_iff {blockSize size n : Nat} (positive : 0 < blockSize) :
    numBlocks blockSize size ≤ n ↔ size ≤ n * blockSize := by
  obtain ⟨lower, upper⟩ := numBlocks_bounds positive size
  constructor
  · intro few
    exact lower.trans (Nat.mul_le_mul_right _ few)
  · intro small
    refine Nat.le_of_lt_succ (Nat.lt_of_mul_lt_mul_right (upper.trans_le ?_))
    rw [Nat.add_one_mul]
    exact Nat.add_le_add_right small _

/-- The file needs no doubly indirect block, as the code tests it. -/
def SinglyIndirect (blockSize size : Nat) : Prop :=
  size ≤ 12 * blockSize ∨ size - 12 * blockSize < blockSize / 4 * blockSize

/-- Reading the blocks fails only if a product overflows or the file may need a doubly
indirect block. -/
theorem readBlocks_yields (reads : ReadsPointers gfs file scheduler content)
    (ext2 : gfs.detectedFileSystems file.fsIndex = .ext2 s) {buffer : Buffer}
    (writable : buffer.readonly = false)
    (size : buffer.originalSize = gfs.alignSizeToBlocks file.size file.fsIndex) :
    Yields (file.readBlocks gfs scheduler buffer) m
      (fun _ m' => SinglyIndirect (gfs.blockSize file.fsIndex) file.size ∧ SamePages m m' ∧
        ((∀ i < gfs.alignSizeToBlocks file.size file.fsIndex, m.allocator.InUse (buffer.ptr + i)) →
          ∀ i < gfs.alignSizeToBlocks file.size file.fsIndex,
            m'.memory (buffer.ptr + i) = content i))
      fun _ _ => ¬(12 * gfs.blockSize file.fsIndex < 2 ^ 32 ∧
        SinglyIndirect (gfs.blockSize file.fsIndex) file.size) := by
  have positive : 0 < gfs.blockSize file.fsIndex := by
    rw [blockSize_ext2 ext2]
    exact Nat.mul_pos (by decide) (Nat.two_pow_pos s)
  have direct := reads.direct
  have indirect := reads.indirect
  rw [alignSize_ext2 ext2] at size ⊢
  unfold GfsFile.readBlocks
  generalize gfs.blockSize file.fsIndex = B at *
  rw [yields_bind]
  refine (direct m buffer writable).yields.mono ?_ fun _ _ impossible => impossible.elim
  rintro n₁ m₁ ⟨rfl, first⟩
  unfold mulU32
  split
  next inside =>
    rw [orPanic_some, pure_bind, yields_ite]
    split
    next small =>
      -- no indirect pointers
      have few := (numBlocks_le_iff positive).mpr small
      have all : directBytes B file.size = numBlocks B file.size * B := by
        unfold directBytes
        rw [Nat.min_eq_left few]
      exact ⟨Or.inl small, first.pages, fun _ => all ▸ first.bytes⟩
    next large =>
      have many : 12 ≤ numBlocks B file.size := by
        by_contra few
        exact large ((numBlocks_le_iff positive).mp (by omega))
      have twelve : directBytes B file.size = 12 * B := by
        unfold directBytes
        rw [Nat.min_eq_right many]
      have total : directBytes B file.size + indirectBytes B file.size =
          numBlocks B file.size * B := by
        rw [twelve, indirectBytes, ← Nat.add_mul, Nat.add_sub_cancel' many]
      have rest : subUnsigned buffer.originalSize (directBytes B file.size) =
          some (indirectBytes B file.size) := by
        unfold subUnsigned
        rw [size, ← total, if_neg (by omega), Nat.add_sub_cancel_left]
      have sub : buffer.subBuffer (directBytes B file.size) (indirectBytes B file.size) =
          some ⟨buffer.ptr + directBytes B file.size, 0, indirectBytes B file.size,
            buffer.readonly⟩ := by
        unfold Buffer.subBuffer
        rw [size, ← total, if_neg (by omega)]
      simp only [rest, sub, orPanic_some, pure_bind, yields_bind]
      refine (indirect m₁ ⟨buffer.ptr + directBytes B file.size, 0, indirectBytes B file.size,
        buffer.readonly⟩ writable).yields.mono ?_ fun _ _ impossible => impossible.elim
      rintro n₂ m₂ ⟨rfl, second⟩
      rw [yields_ite]
      split
      next enough =>
        refine ⟨Or.inr enough, first.pages.trans second.pages, fun owned => ?_⟩
        rw [← total] at owned ⊢
        exact first.trans second fun i less => owned i (by omega)
      next full =>
        rintro ⟨_, fits | fits⟩
        · exact large fits
        · exact full fits
  next overflows => exact fun both => overflows both.1

/-! ### What the readers return -/

/-- The buffer has the size of the file and its bytes. -/
def Describes (readAt : Nat → Byte) (size : Nat) (content : Nat → Byte) (buffer : Buffer) : Prop :=
  buffer.originalSize = size ∧ ∀ i < size, readAt (buffer.ptr + i) = content i

/-- The three ways to read a file succeed, with buffers of its size and content that are
backed by memory, and only a virtualised file keeps its memory. -/
structure ReadersAgree (file : GfsFile) (gfs : GeneralFileSystem) (scheduler : Nat)
    (content : Nat → Byte) (m : IoMachine) (va : VirtualAllocator) : Prop where
  read : ∃ b m', file.read gfs scheduler m = .ok (b, false) m' ∧
    Describes m'.memory file.size content b ∧ Backed m.allocator m'.allocator b.ptr file.size
  readVirtual : ∃ b va' m', file.readVirtual gfs scheduler va m = .ok ((b, false), va') m' ∧
    Describes (va'.readAt m'.memory) file.size content b ∧
    Backed va.allocator va'.allocator b.ptr file.size
  virtualized : ∃ file' va' m' b m'',
    file.virtualizeVirtual gfs scheduler va m = .ok ((true, file'), va') m' ∧
    file'.read gfs scheduler m' = .ok (b, true) m'' ∧
    Describes (va'.readAt m''.memory) file.size content b ∧
    Backed va.allocator va'.allocator b.ptr file.size

/-- The pages that a reader asks for. -/
def pagesAsked (gfs : GeneralFileSystem) (file : GfsFile) : Nat :=
  Buffer.pages (gfs.alignSizeToBlocks file.size file.fsIndex) % 2 ^ 16

theorem inUse_of_took {a a' : Allocator} {pages k : Nat} (took : a.Took a' pages k) {i : Nat}
    (less : i < pages * 0x1000) : a'.InUse (a.addend + k * 0x1000 + i) := by
  unfold Allocator.InUse
  rw [took.addend, page_in_block]
  refine ⟨by omega, (took.sets _).mpr (Or.inr ⟨by omega, by omega⟩)⟩

/-- `read` on a file that is not virtualised. -/
theorem read_yields (reads : ReadsPointers gfs file scheduler content)
    (ext2 : gfs.detectedFileSystems file.fsIndex = .ext2 s) (plain : file.virtualization = 0) :
    Yields (file.read gfs scheduler) m
      (fun r m' => SinglyIndirect (gfs.blockSize file.fsIndex) file.size ∧ r.2 = false ∧
        ∃ k a, 0 < pagesAsked gfs file ∧ m.allocator.Picks (pagesAsked gfs file) k ∧
          m.allocator.Took a (pagesAsked gfs file) k ∧
            (∀ k, bit m'.allocator.bitmap k = bit a.bitmap k) ∧
          r.1.ptr = m.allocator.addend + k * 0x1000 ∧
          r.1.originalSize = gfs.alignSizeToBlocks file.size file.fsIndex ∧
          (gfs.alignSizeToBlocks file.size file.fsIndex ≤ pagesAsked gfs file * 0x1000 →
            ∀ i < gfs.alignSizeToBlocks file.size file.fsIndex,
              m'.memory (r.1.ptr + i) = content i))
      fun _ _ => ¬(m.allocator.Room (pagesAsked gfs file) ∧
        12 * gfs.blockSize file.fsIndex < 2 ^ 32 ∧
        SinglyIndirect (gfs.blockSize file.fsIndex) file.size) := by
  unfold GfsFile.read
  rw [if_neg (not_not.mpr plain), yields_bind]
  refine (Buffer.new_yields false _).mono ?_ fun _ _ full both => full both.1
  rintro b m₁ ⟨memory, k, positive, picks, took, rfl⟩
  rw [yields_bind]
  refine (readBlocks_yields reads ext2 rfl rfl).mono ?_ fun _ _ failed both => failed both.2
  rintro _ m₂ ⟨indirect, same, bytes⟩
  refine ⟨indirect, rfl, k, m₁.allocator, positive, picks, took, same.bits, rfl, rfl,
    fun fits => ?_⟩
  exact bytes fun i less => inUse_of_took took (less.trans_le fits)

/-- `read_virtual` on a file that is not virtualised. -/
theorem readVirtual_yields (reads : ReadsPointers gfs file scheduler content)
    (ext2 : gfs.detectedFileSystems file.fsIndex = .ext2 s) (plain : file.virtualization = 0)
    {va : VirtualAllocator} (owned : va.Owned m.allocator) :
    Yields (file.readVirtual gfs scheduler va) m
      (fun r m' => r.1.2 = false ∧ ∃ k, va.allocator.Picks (pagesAsked gfs file) k ∧
        va.allocator.Took r.2.allocator (pagesAsked gfs file) k ∧ r.2.physical = va.physical ∧
        r.1.1.ptr = va.allocator.addend + k * 0x1000 ∧ r.1.1.originalSize = file.size ∧
        (va.Room (pagesAsked gfs file) →
          gfs.alignSizeToBlocks file.size file.fsIndex ≤ pagesAsked gfs file * 0x1000 →
          ∀ i < gfs.alignSizeToBlocks file.size file.fsIndex,
            m'.memory (va.physical.base + k * 0x1000 + i) = content i))
      fun _ _ => ¬(va.Room (pagesAsked gfs file) ∧ 12 * gfs.blockSize file.fsIndex < 2 ^ 32 ∧
        SinglyIndirect (gfs.blockSize file.fsIndex) file.size) := by
  unfold GfsFile.readVirtual
  rw [if_neg (not_not.mpr plain), yields_bind]
  refine (newPhysicalVirtual_yields va owned false _).mono ?_ fun _ _ full both => full both.1
  rintro r m₁ ⟨rfl, k, positive, picks, took, physical, buffer, block⟩
  obtain ⟨⟨b, mb⟩, va'⟩ := r
  cases buffer
  cases block
  rw [yields_bind]
  refine (readBlocks_yields reads ext2 rfl rfl).mono ?_ fun _ _ failed both => failed both.2
  rintro _ m₂ ⟨_, same, bytes⟩
  refine ⟨rfl, k, picks, took, physical, rfl, rfl, fun room fits => bytes fun i less => ?_⟩
  -- the physical bytes belong to the block behind the virtual addresses
  obtain ⟨mb, a, allocated, inside⟩ := room
  obtain ⟨_, k', picks', _, rfl, _⟩ := Allocator.alloc_ok _ allocated
  obtain rfl := Allocator.picks_unique _ picks picks'
  have used := owned.inUse (k * 0x1000 + i) (by dsimp only at inside; omega)
  rwa [← Nat.add_assoc] at used

/-! ### When they agree -/

/-- The file is not empty, made of whole blocks, smaller than twelve blocks and those of a
singly indirect block, and its pages are counted in `u16`. -/
structure Readable (blockSize size : Nat) : Prop where
  positive : 0 < size
  whole : blockSize ∣ size
  indirect : size < 12 * blockSize + blockSize / 4 * blockSize
  pages : Buffer.pages size < 2 ^ 16

private theorem numBlocks_whole {blockSize size : Nat} (positive : 0 < blockSize) :
    numBlocks blockSize size * blockSize = size ↔ blockSize ∣ size := by
  constructor
  · intro same
    exact ⟨numBlocks blockSize size, (Nat.mul_comm .. |>.trans same).symm⟩
  · intro whole
    rw [numBlocks_eq positive, if_pos (Nat.mod_eq_zero_of_dvd whole), Nat.add_zero]
    exact Nat.div_mul_cancel whole

theorem Backed.congr {a a' a'' : Allocator} {address n : Nat} (backed : Backed a a' address n)
    (same : ∀ k, bit a'.bitmap k = bit a''.bitmap k) : Backed a a'' address n := by
  refine ⟨backed.1, fun i less => ?_⟩
  rw [← same]
  exact backed.2 i less

/-- The size that `read` returns, and what is behind it, say all there is to know. -/
theorem readable_of_read (reads : ReadsPointers gfs file scheduler content)
    (ext2 : gfs.detectedFileSystems file.fsIndex = .ext2 s) (plain : file.virtualization = 0)
    {b : Buffer} (ran : file.read gfs scheduler m = .ok (b, false) m')
    (size : b.originalSize = file.size)
    (backed : Backed m.allocator m'.allocator b.ptr file.size) :
    Readable (gfs.blockSize file.fsIndex) file.size := by
  have positive : 0 < gfs.blockSize file.fsIndex := by
    rw [blockSize_ext2 ext2]
    exact Nat.mul_pos (by decide) (Nat.two_pow_pos s)
  obtain ⟨indirect, _, k, a, asked, _, took, same, address, aligned, _⟩ :=
    (read_yields reads ext2 plain).ok ran
  dsimp only at address aligned
  rw [size] at aligned
  rw [address] at backed
  have bound := le_of_backed took.sets (backed.congr same)
  unfold pagesAsked at asked bound
  rw [← aligned] at asked bound
  have below := Nat.mod_lt (Buffer.pages file.size) (Nat.two_pow_pos 16)
  have above := Buffer.pages_le file.size
  refine ⟨?_, ?_, ?_, ?_⟩
  · -- an empty file has no page to ask for
    by_contra empty
    obtain zero : file.size = 0 := by omega
    rw [zero] at asked
    exact absurd asked (by decide)
  · rw [alignSize_ext2 ext2] at aligned
    exact (numBlocks_whole positive).mp aligned.symm
  · have table : 0 < gfs.blockSize file.fsIndex / 4 * gfs.blockSize file.fsIndex := by
      refine Nat.mul_pos (Nat.div_pos ?_ (by decide)) positive
      rw [blockSize_ext2 ext2]
      have power := Nat.two_pow_pos s
      omega
    rcases indirect with small | fits
    · omega
    · omega
  · -- more pages than `u16` counts are not behind the buffer
    by_contra many
    have whole := Nat.div_add_mod (Buffer.pages file.size) (2 ^ 16)
    omega

/-- A file that can be read has no product that overflows. -/
theorem Readable.product {blockSize size : Nat} (readable : Readable blockSize size) :
    12 * blockSize < 2 ^ 32 := by
  have block := Nat.le_of_dvd readable.positive readable.whole
  have pages := Buffer.le_pages size
  have few := readable.pages
  omega

private theorem Readable.singlyIndirect {blockSize size : Nat}
    (readable : Readable blockSize size) :
    SinglyIndirect blockSize size := by
  have fits := readable.indirect
  unfold SinglyIndirect
  omega

/-- The three ways to read a file agree exactly for the files that can be read. -/
theorem readers_agree_iff (file : GfsFile) (gfs : GeneralFileSystem) (scheduler : Nat)
    (content : Nat → Byte) (m : IoMachine) (va : VirtualAllocator) (s : Nat)
    (ext2 : gfs.detectedFileSystems file.fsIndex = .ext2 s)
    (plain : file.virtualization = 0) (reads : ReadsPointers gfs file scheduler content)
    (owned : va.Owned m.allocator)
    (room : 0 < pagesAsked gfs file →
      m.allocator.Room (pagesAsked gfs file) ∧ va.Room (pagesAsked gfs file)) :
    ReadersAgree file gfs scheduler content m va ↔ Readable (gfs.blockSize file.fsIndex)
      file.size := by
  constructor
  · intro agree
    obtain ⟨b, m', ran, ⟨size, _⟩, backed⟩ := agree.read
    exact readable_of_read reads ext2 plain ran size backed
  · intro readable
    have positive : 0 < gfs.blockSize file.fsIndex :=
      Nat.pos_of_dvd_of_pos readable.whole readable.positive
    have aligned : gfs.alignSizeToBlocks file.size file.fsIndex = file.size := by
      rw [alignSize_ext2 ext2]
      exact (numBlocks_whole positive).mpr readable.whole
    have asked : pagesAsked gfs file = Buffer.pages file.size := by
      unfold pagesAsked
      rw [aligned, Nat.mod_eq_of_lt readable.pages]
    have covered := Buffer.le_pages file.size
    have product := readable.product
    have indirect := readable.singlyIndirect
    have nonzero := readable.positive
    obtain ⟨roomPhysical, roomVirtual⟩ := room (by omega)
    obtain ⟨⟨b, flag⟩, m₁, ran, _, rfl, k, a, _, picks, took, same, place, size, bytes⟩ :=
      (read_yields reads ext2 plain).returns fun _ _ failed =>
        failed ⟨roomPhysical, product, indirect⟩
    obtain ⟨⟨⟨c, flag⟩, va'⟩, m₂, ranVirtual, rfl, k', picks', took', physical, place', size',
      bytes'⟩ := (readVirtual_yields reads ext2 plain owned).returns fun _ _ failed =>
        failed ⟨roomVirtual, product, indirect⟩
    dsimp only at size bytes place physical place' size' bytes' took'
    rw [aligned] at size
    rw [aligned, asked] at bytes bytes'
    rw [asked] at took took' picks picks' roomVirtual
    have backed := backed_of_took took.sets picks.clear covered
    have backed' := backed_of_took took'.sets picks'.clear covered
    have readAt (i : Nat) (less : i < file.size) : va'.readAt m₂.memory (c.ptr + i) =
        content i := by
      unfold VirtualAllocator.readAt
      rw [place', physical, took'.addend, Nat.add_assoc, Nat.add_sub_cancel_left, ← Nat.add_assoc]
      exact bytes' roomVirtual covered i less
    have virtual : c.ptr ≠ 0 := by
      have nonzero := owned.nonzero
      omega
    refine ⟨⟨b, m₁, ran, ⟨size, bytes covered⟩, ?_⟩, ⟨c, va', m₂, ranVirtual, ⟨size', readAt⟩, ?_⟩,
      { file with virtualization := c.ptr }, va', m₂,
      ⟨c.ptr, Buffer.roundToPages file.size, file.size, true⟩, m₂, ?_, ?_, ⟨rfl, readAt⟩, ?_⟩
    · rw [place]
      exact backed.congr fun k => (same k).symm
    · rw [place']
      exact backed'
    · unfold GfsFile.virtualizeVirtual
      rw [if_neg (not_not.mpr plain), bind_of_ok ranVirtual]
      rfl
    · unfold GfsFile.read
      rw [if_pos virtual]
      rfl
    · rw [place']
      exact backed'

/-! ### Files of one series of blocks -/

/-- The file system of `PhysicalExt2.fs1024` on its drive, without singly indirect blocks. -/
def smallFileSystem : GeneralFileSystem where
  detectedFileSystems := fun _ => .ext2 0
  readPointersIntoBuffer := fun buffer pointers _ scheduler =>
    PhysicalExt2.fs1024.readPointerContentIntoBuffer buffer pointers
      PhysicalExt2.smallDrive scheduler
  readSinglyIndirectPointerBlock := fun _ _ _ _ => pure 0

/-- A file in the blocks 5 and 6. -/
def twoBlocks (size : Nat) : GfsFile := ⟨0, [5, 6, 0], 0, size, 0⟩

def twoBlocksContent (i : Nat) : Byte :=
  PhysicalExt2.smallDrive.content (PhysicalExt2.fs1024.origin PhysicalExt2.smallDrive +
    5 * 1024 + i)

/-- A machine whose pages 256 and 257 are behind the virtual addresses. -/
def smallMachine : IoMachine := ⟨fun _ => 0, ⟨fun i => if i = 8 then 3 else 0, 16, 0, 0, 0⟩⟩

def smallVirtual : VirtualAllocator := ⟨⟨0x100000, 0x2000⟩, ⟨fun _ => 0, 1, 0, 0x80000000, 0⟩⟩

theorem readsPointers_two {size : Nat} (two : numBlocks 1024 size = 2) :
    ReadsPointers smallFileSystem (twoBlocks size) 1 twoBlocksContent where
  direct m buffer writable := by
    have usable : PhysicalExt2.fs1024.Usable PhysicalExt2.smallDrive buffer 1 :=
      ⟨⟨by decide, 2, rfl⟩, by decide, writable, by decide⟩
    have ran := PhysicalExt2.readPointers_run (m := m) [] usable (p := 5) (n := 2) (by decide)
      (by decide) (by decide)
    have count : directBytes (smallFileSystem.blockSize (twoBlocks size).fsIndex)
        (twoBlocks size).size = 2 * PhysicalExt2.fs1024.blockBytes := by
      show min (numBlocks 1024 size) 12 * 1024 = 2 * 1024
      rw [two]
      rfl
    rw [if_pos (by decide)] at ran
    rw [count]
    refine ⟨_, ran, fun i less => ?_, fun i _ outside => ?_, rfl, fun _ => rfl⟩
    · refine (if_pos (by omega)).trans ?_
      rw [Nat.add_sub_cancel_left]
      rfl
    · exact if_neg (by omega)
  indirect m buffer _ := by
    have count : indirectBytes (smallFileSystem.blockSize (twoBlocks size).fsIndex)
        (twoBlocks size).size = 0 := by
      show (numBlocks 1024 size - 12) * 1024 = 0
      rw [two]
    rw [count]
    exact ⟨m, rfl, nofun, fun _ _ _ => rfl, rfl, fun _ => rfl⟩

theorem readers_agree_two :
    ReadersAgree (twoBlocks 2048) smallFileSystem 1 twoBlocksContent smallMachine smallVirtual := by
  have asked : pagesAsked smallFileSystem (twoBlocks 2048) = 1 := by decide +kernel
  have physical : (smallMachine.allocator.alloc 1).value.1 = .ok ⟨0, 0x1000⟩ := by decide +kernel
  have virtual : (smallVirtual.allocator.alloc 1).value.1 = .ok ⟨0x80000000, 0x1000⟩ := by
    decide +kernel
  refine (readers_agree_iff (twoBlocks 2048) smallFileSystem 1 twoBlocksContent smallMachine
    smallVirtual 0 rfl rfl (readsPointers_two (by decide))
    ⟨by decide, by decide, fun i less => ?_⟩ fun _ => ?_).mpr ?_
  · have page : (0x100000 + i - 0) / 0x1000 = 256 ∨ (0x100000 + i - 0) / 0x1000 = 257 := by
      have bound : i < 0x2000 := less
      omega
    refine ⟨Nat.zero_le _, ?_⟩
    change bit _ ((0x100000 + i - 0) / 0x1000) = true
    rcases page with first | second
    · rw [first]
      decide
    · rw [second]
      decide
  · rw [asked]
    exact ⟨Allocator.room_of_ok physical, VirtualAllocator.room_of_ok virtual (by decide)⟩
  · exact ⟨by decide, by decide +kernel, by decide +kernel, by decide +kernel⟩

/-- The buffer of a small file is a whole block. -/
theorem readers_disagree_small :
    ReadsPointers smallFileSystem (twoBlocks 1500) 1 twoBlocksContent ∧
      ¬ReadersAgree (twoBlocks 1500) smallFileSystem 1 twoBlocksContent smallMachine
        smallVirtual := by
  refine ⟨readsPointers_two (by decide), fun agree => ?_⟩
  obtain ⟨b, m', ran, ⟨size, _⟩, _⟩ := agree.read
  have block : ((twoBlocks 1500).read smallFileSystem 1).value? smallMachine =
      some (⟨0, 0x1000, 2048, false⟩, false) := by decide +kernel
  rw [value?_of_ok ran] at block
  cases block
  cases size

end EmkKernel
