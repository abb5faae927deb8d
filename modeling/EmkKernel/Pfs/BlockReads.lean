import EmkKernel.Drivers.Buffers
import EmkKernel.Pfs.Linux

/-!
# What the reads of blocks return

A loop over pointers returns as many blocks as its series held when they were read. It
loses the pointer that breaks a series and the last one of the list, so a list is read
whole only if it is one series with a zero pointer behind it.
-/

namespace EmkKernel

open EStateM BitArray

variable {m m' : IoMachine} {buffer : Buffer} {disk : Disk} {scheduler : Nat}

namespace PhysicalExt2

variable {fs : PhysicalExt2} {address : Nat → Option Nat} {next : Nat → Nat → Option Nat}
  {start : Nat → Nat → Nat} {base series offset : Nat} {pointers rest : List Nat}

/-- The blocks that the loop reads, and whether it comes to the end of the pointers. -/
def flushed (start : Nat → Nat → Nat) : Nat → Nat → List Nat → Nat × Bool
  | _, _, [] => (0, true)
  | base, series, pointer :: rest =>
    if base + series ≠ pointer ∨ rest = [] ∧ series ≠ 0 then
      if pointer = 0 then (series, false)
      else
        let later := flushed start (start base pointer) 0 rest
        (series + later.1, later.2)
    else
      flushed start base (series + 1) rest

private theorem readSeries_yields (start : Nat → Nat → Nat) (starts : ∀ base pointer base',
    next base pointer = some base' →
    base' = start base pointer) :
    Yields (fs.readSeries buffer disk scheduler address next base series offset pointers) m
      (fun r m' => r = (offset + (flushed start base series pointers).1 * fs.blockBytes,
        (flushed start base series pointers).2) ∧ m'.allocator = m.allocator)
      fun _ _ => True := by
  induction pointers generalizing base series offset m with
  | nil =>
    refine ⟨?_, rfl⟩
    simp [flushed]
  | cons pointer rest ih =>
    unfold readSeries flushed
    rw [yields_bind]
    refine (orPanic_yields _).mono ?_ fun _ _ failed => failed
    rintro expected m₁ ⟨rfl, summed⟩
    obtain rfl : base + series = expected := by
      unfold addU32 at summed
      split at summed
      · exact Option.some.inj summed
      · cases summed
    rw [yields_ite]
    split
    next =>
      rw [yields_bind]
      refine (orPanic_yields _).mono ?_ fun _ _ failed => failed
      rintro lba m₂ ⟨rfl, _⟩
      rw [yields_bind]
      refine (orPanic_yields _).mono ?_ fun _ _ failed => failed
      rintro sub m₃ ⟨rfl, _⟩
      rw [yields_bind]
      refine (readIntoBuffer_yields lba sub).mono ?_ fun _ _ failed => failed
      rintro r m₄ same
      split
      next =>
        rw [yields_bind]
        refine (orPanic_yields _).mono ?_ fun _ _ failed => failed
        rintro base' m₅ ⟨rfl, moved⟩
        obtain rfl := starts _ _ _ moved
        rw [yields_ite]
        split
        next => exact ⟨rfl, same⟩
        next =>
          refine ih.mono ?_ fun _ _ failed => failed
          rintro r m₆ ⟨rfl, same'⟩
          refine ⟨?_, same'.trans same⟩
          simp only [Nat.add_mul, Nat.add_assoc]
      next => trivial
    next => exact ih

/-- The pointers in front of the first zero. -/
def named (pointers : List Nat) : List Nat := pointers.takeWhile (· ≠ 0)

/-- A loop reads all it was told to only if it is at the end, or the rest is one series
with a zero behind it. -/
theorem flushed_le (positive : ∀ base pointer, pointer ≠ 0 → start base pointer ≠ 0)
    (series : Nat) (pointers : List Nat) (nonzero : base ≠ 0) :
    (flushed start base series pointers).1 ≤ series + (named pointers).length ∧
      ((flushed start base series pointers).1 = series + (named pointers).length →
        pointers = [] ∧ series = 0 ∨
          ∃ n rest, pointers = List.range' (base + series) n ++ 0 :: rest) := by
  induction pointers generalizing base series with
  | nil =>
    refine ⟨Nat.zero_le _, fun same => Or.inl ⟨rfl, ?_⟩⟩
    exact same.symm
  | cons pointer rest ih =>
    unfold flushed
    split
    next breaks =>
      split
      next zero =>
        subst zero
        exact ⟨by simp [named], fun _ => Or.inr ⟨0, rest, rfl⟩⟩
      next present =>
        -- the pointer that breaks the series is lost
        obtain ⟨bound, _⟩ := ih 0 (positive base pointer present)
        have length : (named (pointer :: rest)).length = (named rest).length + 1 := by
          simp [named, present]
        refine ⟨?_, fun same => ?_⟩
        · simp only [length]
          omega
        · simp only [length] at same
          omega
    next continues =>
      obtain ⟨expected, open'⟩ := not_or.mp continues
      have expected : base + series = pointer := not_not.mp expected
      have present : pointer ≠ 0 := by omega
      have length : (named (pointer :: rest)).length = (named rest).length + 1 := by
        simp [named, present]
      obtain ⟨bound, shape⟩ := ih (series + 1) nonzero
      refine ⟨by omega, fun same => ?_⟩
      rcases shape (by omega) with ⟨rfl, last⟩ | ⟨n, tail, rfl⟩
      · omega
      · refine Or.inr ⟨n + 1, tail, ?_⟩
        rw [List.range'_succ, expected, ← expected]
        rfl

theorem le_flushed (more : pointers ≠ []) : series ≤ (flushed start base series pointers).1 := by
  induction pointers generalizing series with
  | nil => exact absurd rfl more
  | cons pointer rest ih =>
    unfold flushed
    split
    next =>
      split
      · exact Nat.le_refl _
      · exact Nat.le_add_right _ _
    next continues =>
      obtain ⟨_, open'⟩ := not_or.mp continues
      by_cases last : rest = []
      · have zero : series = 0 := not_not.mp fun counted => open' ⟨last, counted⟩
        exact zero ▸ Nat.zero_le _
      · exact Nat.le_of_succ_le (ih last)

/-! ### One series with a zero behind it -/

private theorem flushed_run (nonzero : base ≠ 0) (n : Nat) :
    flushed start base series (List.range' (base + series) n ++ 0 :: rest) =
      (series + n, false) := by
  induction n generalizing series with
  | zero =>
    have breaks : base + series ≠ 0 := by omega
    rw [List.range'_zero, List.nil_append]
    unfold flushed
    rw [if_pos (Or.inl breaks), if_pos rfl]
    rfl
  | succ n ih =>
    rw [List.range'_succ, List.cons_append]
    unfold flushed
    rw [if_neg (by simp), Nat.add_assoc base, ih, Nat.add_right_comm, Nat.add_assoc]

/-- The loop counts the series up to the zero, as long as the sums stay in `u32`. -/
theorem readSeries_run (fs : PhysicalExt2) (next : Nat → Nat → Option Nat) (buffer : Buffer)
    (disk : Disk) (scheduler : Nat)
    (address : Nat → Option Nat) (base series offset n : Nat) (rest : List Nat) :
    fs.readSeries buffer disk scheduler address next base series offset
        (List.range' (base + series) n ++ 0 :: rest) =
      if base + series + n < 2 ^ 32 then
        fs.readSeries buffer disk scheduler address next base (series + n) offset (0 :: rest)
      else throw .panic := by
  induction n generalizing series with
  | zero =>
    rw [List.range'_zero, List.nil_append]
    split
    next => rfl
    next overflows =>
      rw [Nat.add_zero] at overflows
      have summed : addU32 base series = none := if_neg overflows
      unfold readSeries
      rw [summed]
      rfl
  | succ n ih =>
    rw [List.range'_succ, List.cons_append]
    unfold readSeries
    by_cases small : base + series < 2 ^ 32
    · have summed : addU32 base series = some (base + series) := if_pos small
      rw [summed, orPanic, pure_bind, if_neg (by simp), Nat.add_assoc base, ih]
      rw [show base + (series + 1) + n = base + series + (n + 1) by omega,
        show series + 1 + n = series + (n + 1) by omega]
      rfl
    · have summed : addU32 base series = none := if_neg small
      rw [summed, if_neg (by omega)]
      rfl

/-- Where the blocks of the file system start on the disk. -/
def origin (fs : PhysicalExt2) (disk : Disk) : Nat := fs.startingLba * disk.sectorSize

/-- The bytes of the blocks that the pointers name, in their order. -/
def content (fs : PhysicalExt2) (disk : Disk) (pointers : List Nat) : List Byte :=
  (named pointers).flatMap fun pointer =>
    (List.range fs.blockBytes).map fun i => disk.content
      (fs.origin disk + pointer * fs.blockBytes + i)

private theorem length_content (fs : PhysicalExt2) (disk : Disk) (pointers : List Nat) :
    (fs.content disk pointers).length = (named pointers).length * fs.blockBytes := by
  unfold content
  simp only [List.length_flatMap, List.length_map, List.length_range, List.map_const',
    List.sum_replicate_nat]

private theorem named_run {p n : Nat} (nonzero : 0 < p) :
    named (List.range' p n ++ 0 :: rest) = List.range' p n := by
  unfold named
  rw [List.takeWhile_append_of_pos]
  · simp
  · intro pointer member
    have bound := (List.mem_range'_1.mp member).1
    simp only [ne_eq, decide_not, Bool.not_eq_eq_eq_not, Bool.not_true, decide_eq_false_iff_not]
    omega

theorem content_run (fs : PhysicalExt2) (disk : Disk) {p n : Nat} (nonzero : 0 < p) :
    fs.content disk (List.range' p n ++ 0 :: rest) =
      (List.range (n * fs.blockBytes)).map fun i =>
        disk.content (fs.origin disk + p * fs.blockBytes + i) := by
  unfold content
  rw [named_run nonzero]
  clear nonzero
  induction n generalizing p with
  | zero => simp
  | succ n ih =>
    rw [List.range'_succ, List.flatMap_cons, ih, Nat.succ_mul n, Nat.add_comm (n * _),
      List.range_add, List.map_append, List.map_map]
    refine congrArg _ (List.map_congr_left fun i _ => ?_)
    rw [Function.comp_apply, Nat.succ_mul p, ← Nat.add_assoc, ← Nat.add_assoc]

/-- The computation returns the number of bytes that the pointers name, puts them into the
buffer, and leaves the pages of the allocator as they were. -/
def Reads (fs : PhysicalExt2) (disk : Disk) (buffer : Buffer) (pointers : List Nat) (x : IoM Nat)
    (m : IoMachine) : Prop :=
  ∃ m', x m = .ok (fs.content disk pointers).length m' ∧
    (List.range (fs.content disk pointers).length).map (fun i => m'.memory (buffer.ptr + i)) =
      fs.content disk pointers ∧
    ∀ k, bit m'.allocator.bitmap k = bit m.allocator.bitmap k

/-- A block has whole sectors, the buffer can be written, and the queue exists. -/
structure Usable (fs : PhysicalExt2) (disk : Disk) (buffer : Buffer) (scheduler : Nat) : Prop where
  sector : 0 < disk.sectorSize ∧ disk.sectorSize ∣ fs.blockBytes
  sectors : disk.numSectors < 2 ^ 64
  writable : buffer.readonly = false
  queue : scheduler ≠ 0 ∧ scheduler ≤ disk.queuesImplemented - 1

/-- Every block that is named lies on the disk. -/
def OnDisk (fs : PhysicalExt2) (disk : Disk) (pointers : List Nat) : Prop :=
  ∀ pointer ∈ named pointers,
    fs.origin disk + (pointer + 1) * fs.blockBytes ≤ disk.numSectors * disk.sectorSize

private theorem blockBytes_pos (fs : PhysicalExt2) : 1024 ≤ fs.blockBytes :=
  Nat.le_mul_of_pos_right _ (Nat.two_pow_pos _)

theorem readIntoBuffer_blocks (usable : fs.Usable disk buffer scheduler) {p n : Nat}
    (fits : fs.origin disk + (p + n) * fs.blockBytes ≤ disk.numSectors * disk.sectorSize)
    (sub : Buffer) (readonly : sub.readonly = false) (size : sub.originalSize = n * fs.blockBytes) :
    disk.readIntoBuffer (fs.startingLba + p * fs.blockBytes / disk.sectorSize) sub scheduler m =
      .ok .success ⟨copyInto m.memory sub.ptr (n * fs.blockBytes)
        fun i => disk.content (fs.origin disk + p * fs.blockBytes + i), m.allocator⟩ := by
  obtain ⟨positive, c, blocks⟩ := usable.sector
  have sectors (k : Nat) : k * fs.blockBytes / disk.sectorSize = k * c := by
    rw [blocks, Nat.mul_left_comm, Nat.mul_div_cancel_left _ positive]
  have whole : n * fs.blockBytes % disk.sectorSize = 0 := by
    rw [blocks, Nat.mul_left_comm, Nat.mul_mod_right]
  have place : (fs.startingLba + p * c) * disk.sectorSize = fs.origin disk + p * fs.blockBytes := by
    rw [origin, Nat.add_mul, blocks, Nat.mul_assoc p, Nat.mul_comm c]
  have length : n * c * disk.sectorSize = n * fs.blockBytes := by
    rw [blocks, Nat.mul_assoc, Nat.mul_comm c]
  have inside : fs.startingLba + p * c + n * c ≤ disk.numSectors := by
    refine Nat.le_of_mul_le_mul_right ?_ positive
    rw [Nat.add_mul, place, length, Nat.add_assoc, ← Nat.add_mul]
    exact fits
  have queue := usable.queue
  unfold Disk.readIntoBuffer
  rw [if_neg (by omega), readonly, if_neg Bool.false_ne_true, size, sectors, sectors, whole]
  simp only [ne_eq, not_true, if_false, Nat.add_zero]
  have sum : sumU64 (fs.startingLba + p * c) (n * c) = some (fs.startingLba + p * c + n * c) :=
    if_pos (inside.trans_lt usable.sectors)
  rw [sum, orPanic_some, pure_bind, if_neg (by omega)]
  simp only [place, length]
  rfl

/-- One series with a zero behind it is one access to the disk, as long as the address of
its first byte and the pointer behind it stay in `u32`. -/
theorem readPointers_run (rest : List Nat) (usable : fs.Usable disk buffer scheduler) {p n : Nat}
    (positive : 0 < p)
    (some : 0 < n)
    (fits : fs.origin disk + (p + n) * fs.blockBytes ≤ disk.numSectors * disk.sectorSize) :
    fs.readPointerContentIntoBuffer buffer (List.range' p n ++ 0 :: rest) disk scheduler m =
      if p + n < 2 ^ 32 ∧ p * fs.blockBytes < 2 ^ 32 then
        .ok (n * fs.blockBytes) ⟨copyInto m.memory buffer.ptr (n * fs.blockBytes)
          fun i => disk.content (fs.origin disk + p * fs.blockBytes + i), m.allocator⟩
      else .error .panic m := by
  have head : (List.range' p n ++ 0 :: rest).head? = .some p := by
    obtain ⟨n, rfl⟩ := Nat.exists_eq_succ_of_ne_zero some.ne'
    rw [List.range'_succ]
    rfl
  have sub : buffer.subBuffer 0 (n * fs.blockBytes) =
      .some ⟨buffer.ptr, 0, n * fs.blockBytes, buffer.readonly⟩ := if_neg (Nat.not_lt_zero _)
  have counted := fs.readSeries_run addU32 buffer disk scheduler
    (fun base =>
      (mulU32 base fs.blockBytes).map fun bytes => fs.startingLba + bytes / disk.sectorSize)
    p 0 0 n rest
  simp only [Nat.add_zero, Nat.zero_add] at counted
  unfold readPointerContentIntoBuffer
  simp only [head, orPanic_some, pure_bind, counted]
  by_cases small : p + n < 2 ^ 32
  · have summed : addU32 p n = .some (p + n) := if_pos small
    have breaks : p + n ≠ 0 := by omega
    have zero : addU32 p 0 = .some p := if_pos (by omega)
    rw [if_pos small]
    unfold readSeries
    simp only [summed, orPanic_some, pure_bind, if_pos (Or.inl (b := rest = [] ∧ n ≠ 0) breaks),
      sub]
    by_cases low : p * fs.blockBytes < 2 ^ 32
    · have product : mulU32 p fs.blockBytes = .some (p * fs.blockBytes) := if_pos low
      have read := readIntoBuffer_blocks (m := m) usable fits
        ⟨buffer.ptr, 0, n * fs.blockBytes, buffer.readonly⟩ usable.writable rfl
      rw [if_pos ⟨small, low⟩, product]
      simp only [Option.map_some, pure_bind, bind_assoc, bind_of_ok read, zero,
        orPanic_some, if_true,
        Nat.zero_add]
      rfl
    · have product : mulU32 p fs.blockBytes = none := if_neg low
      rw [if_neg fun both => low both.2, product]
      rfl
  · rw [if_neg small, if_neg fun both => small both.1]
    rfl

/-! ### The pointers of an inode -/

/-- No pointer, or one series with a zero behind it. The byte address of the series and the
number of its end stay in `u32`. -/
def OneSeries (fs : PhysicalExt2) (pointers : List Nat) : Prop :=
  pointers = [0] ∨ ∃ p n rest, pointers = List.range' p n ++ 0 :: rest ∧ 0 < p ∧ 0 < n ∧
    p + n < 2 ^ 32 ∧ p * fs.blockBytes < 2 ^ 32

private theorem copyInto_read (memory : Nat → Byte) (address n : Nat) (source : Nat → Byte) :
    (List.range n).map (fun i => copyInto memory address n source (address + i)) =
      (List.range n).map source := by
  refine List.map_congr_left fun i member => ?_
  have inside := List.mem_range.mp member
  unfold copyInto
  rw [if_pos (by omega), Nat.add_sub_cancel_left]

theorem OnDisk.fits {p n : Nat} (onDisk : fs.OnDisk disk (List.range' p n ++ 0 :: rest))
    (positive : 0 < p) (some : 0 < n) :
    fs.origin disk + (p + n) * fs.blockBytes ≤ disk.numSectors * disk.sectorSize := by
  have last := onDisk (p + (n - 1))
  rw [named_run positive, List.mem_range'_1, show p + (n - 1) + 1 = p + n by omega] at last
  exact last (by omega)

private theorem readPointers_series (usable : fs.Usable disk buffer scheduler)
    (onDisk : fs.OnDisk disk pointers) (series : fs.OneSeries pointers) :
    fs.Reads disk buffer pointers
      (fs.readPointerContentIntoBuffer buffer pointers disk scheduler) m := by
  rcases series with rfl | ⟨p, n, rest, rfl, positive, some, small⟩
  · exact ⟨m, rfl, rfl, fun _ => rfl⟩
  · have ran := readPointers_run (m := m) rest usable positive some (onDisk.fits positive some)
    rw [if_pos small] at ran
    have length : (fs.content disk (List.range' p n ++ 0 :: rest)).length = n * fs.blockBytes := by
      rw [content_run fs disk positive, List.length_map, List.length_range]
    refine ⟨⟨copyInto m.memory buffer.ptr (n * fs.blockBytes)
      fun i => disk.content (fs.origin disk + p * fs.blockBytes + i), m.allocator⟩,
      ?_, ?_, fun _ => rfl⟩
    · rw [length]
      exact ran
    · rw [length, content_run fs disk positive]
      exact copyInto_read m.memory buffer.ptr _ fun i =>
        disk.content (fs.origin disk + p * fs.blockBytes + i)

/-- The length that is returned is right only for one series. -/
theorem series_of_reads (usable : fs.Usable disk buffer scheduler)
    (onDisk : fs.OnDisk disk pointers) (reads : fs.Reads disk buffer pointers
      (fs.readPointerContentIntoBuffer buffer pointers disk scheduler) m) :
    fs.OneSeries pointers := by
  obtain ⟨m', ran, _⟩ := reads
  cases pointers with
  | nil => cases ran
  | cons base rest =>
    have yields : Yields (fs.readPointerContentIntoBuffer buffer (base :: rest) disk scheduler) m
        (fun r _ => r = (flushed (· + ·) base 0 (base :: rest)).1 * fs.blockBytes)
        fun _ _ => True := by
      unfold readPointerContentIntoBuffer
      rw [List.head?_cons, orPanic_some, pure_bind, yields_bind]
      refine (readSeries_yields (· + ·) ?_).mono ?_ fun _ _ failed => failed
      · intro base pointer base' moved
        unfold addU32 at moved
        split at moved
        · exact (Option.some.inj moved).symm
        · cases moved
      · rintro r m₁ ⟨rfl, _⟩
        exact Nat.zero_add _
    have counted : (named (base :: rest)).length = (flushed (· + ·) base 0 (base :: rest)).1 := by
      refine Nat.eq_of_mul_eq_mul_right (fs.blockBytes_pos.trans_lt' (by decide)) ?_
      rw [← length_content fs disk]
      exact yields.ok ran
    by_cases zero : base = 0
    · subst zero
      -- a list that starts with a zero has no block, and the first pass counts one
      by_cases last : rest = []
      · exact Or.inl (last ▸ rfl)
      · have one : 1 ≤ (flushed (· + ·) 0 0 (0 :: rest)).1 := by
          unfold flushed
          rw [if_neg (by simp [last])]
          exact le_flushed last
        rw [← counted] at one
        simp [named] at one
    · have positive (base pointer : Nat) (present : pointer ≠ 0) : base + pointer ≠ 0 := by omega
      obtain ⟨_, shape⟩ := flushed_le positive 0 (base :: rest) zero
      rcases shape (by rw [← counted, Nat.zero_add]) with ⟨impossible, _⟩ | ⟨n, tail, run⟩
      · cases impossible
      · have some : 0 < n := by
          rcases Nat.eq_zero_or_pos n with rfl | some
          · exact absurd (List.cons.inj run).1 zero
          · exact some
        have positive := Nat.pos_of_ne_zero zero
        rw [run, Nat.add_zero] at ran onDisk
        rw [readPointers_run tail usable positive some (onDisk.fits positive some)] at ran
        split at ran
        next small => exact Or.inr ⟨base, n, tail, run, positive, some, small⟩
        next => cases ran

/-! ### The pointers of a pointer block -/

/-- The pointers in a block of the disk. -/
def table (fs : PhysicalExt2) (disk : Disk) (blockPointer : Nat) : List Nat :=
  fs.rawPointers (fun a => disk.content (fs.origin disk + blockPointer * fs.blockBytes + a)) 0

/-- Some page is taken that was not. -/
def Leaks (a a' : Allocator) : Prop := ∃ k, bit a.bitmap k = false ∧ bit a'.bitmap k = true

private theorem buffer_new_yields (size : Nat) :
    Yields (Buffer.new false size) m
      (fun b m' => b.readonly = false ∧ b.originalSize = size ∧ m'.memory = m.memory ∧
        Leaks m.allocator m'.allocator) fun _ _ => True := by
  refine (Buffer.new_yields false size).mono ?_ fun _ _ _ => trivial
  rintro b m' ⟨memory, k, positive, picks, took, rfl⟩
  have first : InRun k (Buffer.pages size % 2 ^ 16) k := ⟨Nat.le_refl _, by omega⟩
  exact ⟨rfl, rfl, memory, k, picks.clear k first, (took.sets k).mpr (Or.inr first)⟩

private theorem releaseOnError_yields {α : Type} {x : IoM α} {Q : α → IoMachine → Prop} (b : Buffer)
    (yields : Yields x m Q fun _ _ => True) : Yields (b.releaseOnError x) m Q fun _ _ => True := by
  refine yields_tryCatch yields fun e m' _ => ?_
  cases e with
  | diskError r =>
    rw [yields_bind]
    exact (yields_any _ _).mono (fun _ _ _ => trivial) fun _ _ _ => trivial
  | panic => trivial

private theorem rawPointers_copyInto (fs : PhysicalExt2) (memory : Nat → Byte) (address : Nat)
    (source : Nat → Byte) :
    fs.rawPointers (copyInto memory address fs.blockBytes source) address =
      fs.rawPointers source 0 := by
  unfold rawPointers
  refine List.map_congr_left fun i member => ?_
  have inside := List.mem_range.mp member
  rw [littleEndian_copyInto (by omega), Nat.zero_add]

/-- A loop that comes to the end of a table loses its last block. -/
theorem flushed_ne {start : Nat → Nat → Nat}
    (positive : ∀ base pointer, pointer ≠ 0 → start base pointer ≠ 0)
    (more : rest ≠ []) (finished : (flushed start base 0 (base :: rest)).2 = true) :
    (flushed start base 0 (base :: rest)).1 ≠ (named (base :: rest)).length := by
  intro same
  by_cases zero : base = 0
  · subst zero
    have one : 1 ≤ (flushed start 0 0 (0 :: rest)).1 := by
      unfold flushed
      rw [if_neg (by simp [more])]
      exact le_flushed more
    rw [same] at one
    simp [named] at one
  · obtain ⟨_, shape⟩ := flushed_le positive 0 (base :: rest) zero
    rcases shape (by rw [same, Nat.zero_add]) with ⟨impossible, _⟩ | ⟨n, tail, run⟩
    · cases impossible
    · rw [run, flushed_run zero] at finished
      cases finished

theorem table_shape (fs : PhysicalExt2) (disk : Disk) (blockPointer : Nat) :
    ∃ base rest, fs.table disk blockPointer = base :: rest ∧ rest ≠ [] := by
  have entries : (fs.table disk blockPointer).length = fs.blockBytes / 4 := by
    unfold table rawPointers
    rw [List.length_map, List.length_range]
  have large := fs.blockBytes_pos
  cases shape : fs.table disk blockPointer with
  | nil =>
    rw [shape, List.length_nil] at entries
    omega
  | cons base rest =>
    refine ⟨base, rest, rfl, ?_⟩
    rintro rfl
    rw [shape, List.length_singleton] at entries
    omega

/-- A table with a zero keeps the pointer buffer, one without loses its last block. -/
theorem not_reads_indirect (usable : fs.Usable disk buffer scheduler) {blockPointer : Nat}
    (fits : fs.origin disk + (blockPointer + 1) * fs.blockBytes ≤
      disk.numSectors * disk.sectorSize) :
    ¬fs.Reads disk buffer (fs.table disk blockPointer)
      (fs.readSinglyIndirectPointerBlock buffer blockPointer disk scheduler) m := by
  rintro ⟨m', ran, _, same⟩
  have yields : Yields (fs.readSinglyIndirectPointerBlock buffer blockPointer disk scheduler) m
      (fun r m' => r = (fs.content disk (fs.table disk blockPointer)).length →
        Leaks m.allocator m'.allocator) fun _ _ => True := by
    unfold readSinglyIndirectPointerBlock
    rw [yields_bind]
    refine (buffer_new_yields fs.blockBytes).mono ?_ fun _ _ failed => failed
    rintro b m₁ ⟨readonly, size, _, leaks⟩
    rw [yields_bind]
    have read := readIntoBuffer_blocks (m := m₁) usable (n := 1) fits b readonly
      (size.trans (Nat.one_mul _).symm)
    refine yields_of_ok read ?_
    rw [Nat.one_mul, yields_bind, yields_get]
    -- the memory now holds the table
    rw [rawPointers_copyInto]
    obtain ⟨base, rest, pointers, more⟩ := fs.table_shape disk blockPointer
    have held : fs.rawPointers
        (fun i => disk.content (fs.origin disk + blockPointer * fs.blockBytes + i)) 0 =
        base :: rest := pointers
    rw [held, pointers]
    clear held pointers ran
    simp only [List.head?_cons, orPanic_some, pure_bind, yields_bind]
    refine (releaseOnError_yields b (readSeries_yields (fun _ pointer => pointer)
      fun _ _ _ moved => (Option.some.inj moved).symm)).mono ?_ fun _ _ failed => failed
    rintro r m₂ ⟨rfl, unchanged⟩
    simp only [Nat.zero_add]
    cases finished : (flushed (fun _ pointer => pointer) base 0 (base :: rest)).2 with
    | false =>
      -- the return at a zero leaves the pointer buffer behind
      rintro -
      rw [unchanged]
      exact leaks
    | true =>
      -- the series of the last block is never read
      rw [if_pos rfl, yields_bind]
      refine (yields_any _ _).mono (fun _ m₃ _ => ?_) fun _ _ _ => trivial
      intro same
      rw [length_content] at same
      refine absurd (Nat.eq_of_mul_eq_mul_right ?_ same)
        (flushed_ne (fun _ _ present => present) more finished)
      exact fs.blockBytes_pos.trans_lt' (by decide)
  obtain ⟨k, clear, set⟩ := yields.ok ran rfl
  rw [same, clear] at set
  cases set

/-- The pointers of an inode are read as they name blocks exactly if they are one series
with a zero behind it, and those of a pointer block never are. -/
theorem blocks_read_iff (fs : PhysicalExt2) (disk : Disk) (buffer : Buffer) (scheduler : Nat)
    (m : IoMachine) (usable : fs.Usable disk buffer scheduler) :
    (∀ pointers, fs.OnDisk disk pointers →
      (fs.Reads disk buffer pointers
          (fs.readPointerContentIntoBuffer buffer pointers disk scheduler) m ↔
        fs.OneSeries pointers)) ∧
      ∀ blockPointer, fs.origin disk + (blockPointer + 1) * fs.blockBytes ≤
          disk.numSectors * disk.sectorSize →
        ¬fs.Reads disk buffer (fs.table disk blockPointer)
          (fs.readSinglyIndirectPointerBlock buffer blockPointer disk scheduler) m := by
  constructor
  · intro pointers onDisk
    exact ⟨series_of_reads usable onDisk, readPointers_series usable onDisk⟩
  · intro blockPointer fits
    exact not_reads_indirect usable fits

/-- A drive of 64 blocks, each of two sectors. -/
def smallDrive : Disk := ⟨0, BitVec.ofNat 8, 512, 128, 2⟩

def fs1024 : PhysicalExt2 := ⟨0, 0⟩

theorem blocks_read_two :
    fs1024.Reads smallDrive ⟨0x1000, 0x1000, 0x1000, false⟩ [5, 6, 0]
        (fs1024.readPointerContentIntoBuffer ⟨0x1000, 0x1000, 0x1000, false⟩ [5, 6, 0] smallDrive 1)
        ⟨fun _ => 0, ⟨fun _ => 0, 2, 0, 0, 0⟩⟩ ∧
      ¬fs1024.Reads smallDrive ⟨0x1000, 0x1000, 0x1000, false⟩ (fs1024.table smallDrive 7)
        (fs1024.readSinglyIndirectPointerBlock ⟨0x1000, 0x1000, 0x1000, false⟩ 7 smallDrive 1)
        ⟨fun _ => 0, ⟨fun _ => 0, 2, 0, 0, 0⟩⟩ := by
  obtain ⟨direct, indirect⟩ := blocks_read_iff fs1024 smallDrive ⟨0x1000, 0x1000, 0x1000, false⟩ 1
    ⟨fun _ => 0, ⟨fun _ => 0, 2, 0, 0, 0⟩⟩ ⟨⟨by decide, 2, rfl⟩, by decide, rfl, by decide⟩
  constructor
  · refine (direct [5, 6, 0] (by unfold OnDisk; decide)).mpr (Or.inr ⟨5, 2, [], rfl, ?_⟩)
    decide
  · exact indirect 7 (by decide)

/-- The last of three blocks behind each other is not read. -/
theorem blocks_lose_last :
    ¬fs1024.Reads smallDrive ⟨0x1000, 0x1000, 0x1000, false⟩ [5, 6, 7]
      (fs1024.readPointerContentIntoBuffer ⟨0x1000, 0x1000, 0x1000, false⟩ [5, 6, 7] smallDrive 1)
      ⟨fun _ => 0, ⟨fun _ => 0, 2, 0, 0, 0⟩⟩ := by
  rintro ⟨m', ran, _⟩
  have length : (fs1024.content smallDrive [5, 6, 7]).length = 3072 := length_content ..
  have two : ∃ m', fs1024.readPointerContentIntoBuffer ⟨0x1000, 0x1000, 0x1000, false⟩ [5, 6, 7]
      smallDrive 1 ⟨fun _ => 0, ⟨fun _ => 0, 2, 0, 0, 0⟩⟩ = .ok 2048 m' := ⟨_, rfl⟩
  obtain ⟨_, two⟩ := two
  rw [two, length] at ran
  cases ran

end PhysicalExt2

end EmkKernel
