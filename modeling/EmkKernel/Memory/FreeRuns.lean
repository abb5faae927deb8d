import EmkKernel.Memory.Range

/-!
# Which runs are found and which blocks are freed

The search of `alloc` misses no run: a large run can be started from the zero bits at the
top of the word its first bit is in. The check of `free` does miss free pages: of a whole
word it only sees whether it is zero, and of a block of 4 GiB or more it looks at the
pages that are left of its length in `u32`.
-/

namespace EmkKernel

open BitArray

namespace Allocator

variable (a : Allocator)

/-! ### `alloc` -/

/-- A large run can be followed from the word its first bit is in. -/
theorem runsFrom_of_clear {bitmap : Words} {k pages : Nat} (large : 32 < pages)
    (clear : Clear bitmap k pages) : RunsFrom bitmap (k / 32) pages := by
  -- the bits from `k` to the end of the word are counted
  have counted : 32 - k % 32 ≤ bitsAvail (bitmap (k / 32)) := by
    by_contra fewer
    have set := bitsAvail_maximal (bitmap (k / 32)) (by omega)
    have position : 32 * (k / 32) + (31 - bitsAvail (bitmap (k / 32))) = k +
        (31 - bitsAvail (bitmap (k / 32)) - k % 32) := by omega
    have unset := clear (k + (31 - bitsAvail (bitmap (k / 32)) - k % 32))
      ⟨Nat.le_add_right _ _, by omega⟩
    rw [← position, bit, show (32 * (k / 32) + (31 - bitsAvail (bitmap (k / 32)))) / 32 = k / 32
      by omega, show (32 * (k / 32) + (31 - bitsAvail (bitmap (k / 32)))) % 32 =
        31 - bitsAvail (bitmap (k / 32)) by omega, set] at unset
    cases unset
  have bound := bitsAvail_le (bitmap (k / 32))
  refine ⟨by omega, fun j run => ?_⟩
  unfold InRun at run
  by_cases before : j < k
  · rw [bit, show j / 32 = k / 32 by omega]
    exact bitsAvail_clear _ _ (by omega)
  · exact clear j ⟨Nat.le_of_not_lt before, by omega⟩

/-- `alloc` finds the runs it should, takes only what it returns, and does not fail otherwise. -/
structure FindsRuns (pages : Nat) : Prop where
  large : 32 < pages → (a.alloc pages).value.1 = .error (.err .nospace) →
    ∀ k, k + pages ≤ 32 * a.bitmapEntries → ¬Clear a.bitmap k pages
  small : 1 ≤ pages → pages ≤ 32 → (a.alloc pages).value.1 = .error (.err .nospace) →
    ∀ i < a.bitmapEntries, ∀ b, ¬FitsIn a.bitmap i pages b
  takes : ∀ mb a', (a.alloc pages).value = (.ok mb, a') →
    ∃ k, mb = ⟨a.addend + k * 0x1000, pages * 0x1000⟩ ∧ Clear a.bitmap k pages ∧
      SetsExactly a.bitmap a'.bitmap (InRun k pages)
  answers : 0 < pages → (∃ mb, (a.alloc pages).value.1 = .ok mb) ∨
    (a.alloc pages).value.1 = .error (.err .nospace) ∨
    -- a run was found, and its address is none
    (a.alloc pages).value.1 = .error .panic ∧
      ∃ k, Clear a.bitmap k pages ∧ 2 ^ 64 ≤ a.addend + k * 0x1000

/-- No space is reported only if the search picks nothing. -/
theorem nospace_picks {pages k : Nat} (nospace : (a.alloc pages).value.1 = .error (.err .nospace)) :
    ¬a.Picks pages k := by
  rcases a.alloc_cases pages with ⟨_, value⟩ | ⟨_, none, _⟩ | ⟨_, k', a', _, _, value⟩
  · rw [value] at nospace
    cases nospace
  · exact none k
  · rw [value] at nospace
    simp only [handOut] at nospace
    split at nospace <;> cases nospace

theorem alloc_findsRuns (pages : Nat) : a.FindsRuns pages := by
  constructor
  · intro large nospace k inside clear
    obtain ⟨k', picks⟩ := a.picks_of_runsFrom large (show k / 32 ≤ a.bitmapEntries by omega)
      (runsFrom_of_clear large clear)
    exact a.nospace_picks nospace picks
  · intro _ small nospace i inside b fits
    obtain ⟨k, picks⟩ := a.picks_of_fitsIn small (Nat.le_of_lt inside) fits
    exact a.nospace_picks nospace picks
  · intro mb a' returned
    obtain ⟨_, k, picks, took, same, _⟩ := a.alloc_ok returned
    exact ⟨k, same, picks.clear, took.sets⟩
  · intro positive
    rcases a.alloc_cases pages with ⟨zero, _⟩ | ⟨_, _, value⟩ | ⟨_, k, a', picks, _, value⟩
    · exact absurd zero (Nat.ne_of_gt positive)
    · exact Or.inr (Or.inl (by rw [value]))
    · rw [value, handOut]
      split
      next => exact Or.inl ⟨_, rfl⟩
      next high => exact Or.inr (Or.inr ⟨rfl, k, picks.clear, Nat.le_of_not_lt high⟩)

/-! ### `free` -/

/-- The page at an address is marked as allocated. -/
def TakenAt (address : Nat) : Prop := bit a.bitmap ((address - a.addend) / 0x1000) = true

/-- The argument checks of `free`. -/
structure Accepts (mb : MemoryBlock) : Prop where
  length : mb.length % 0x1000 = 0
  addend : a.addend ≤ mb.base
  base : mb.base % 0x1000 = 0
  bound : mb.endAddress ≤ kernelMaximumAllocatableAddress

/-- `free` returns `Ok` only for a block of allocated pages and else changes nothing. -/
structure FreesAllOrNothing (mb : MemoryBlock) : Prop where
  marked : ∀ a', (a.free mb).value = (.ok (), a') →
    ∀ i < mb.length / 0x1000, a.TakenAt (mb.base + i * 0x1000)
  unchanged : ∀ s a', (a.free mb).value = (.error s, a') → a'.bitmap = a.bitmap

/-- The entry of the first page of a block. -/
def entryOf (mb : MemoryBlock) : BitmapEntry := BitmapEntry.fromAddress (mb.base - a.addend)

/-- The pages of a block that `free` looks at. -/
def pagesSeen (mb : MemoryBlock) : Nat := mb.length % 2 ^ 32 / 0x1000

/-- The free pages that the check of `free` cannot see are not in this block: where its checks
pass, the whole words are all ones and the pages behind those it looks at are allocated. -/
structure HidesNothing (mb : MemoryBlock) : Prop where
  whole : a.Accepts mb → (a.entryOf mb).LooksOccupied a.bitmap (pagesSeen mb) →
    ∀ i, (a.entryOf mb).offset < i →
      i ≤ (a.entryOf mb).offset + wholeWords (a.entryOf mb).bitOffset (pagesSeen mb) →
      a.bitmap i = 0xFFFFFFFF
  behind : a.Accepts mb → (a.entryOf mb).LooksOccupied a.bitmap (pagesSeen mb) →
    ∀ i < mb.length / 0x1000, pagesSeen mb ≤ i → a.TakenAt (mb.base + i * 0x1000)

variable {a} {mb : MemoryBlock}

theorem entryOf_inside : (a.entryOf mb).bitOffset < 32 := Nat.mod_lt _ (by decide)

/-- The bit of a page of the block. -/
theorem Accepts.page (accepts : a.Accepts mb) (i : Nat) :
    (mb.base + i * 0x1000 - a.addend) / 0x1000 = (a.entryOf mb).page + i := by
  have bound := accepts.bound
  have below := accepts.addend
  simp only [MemoryBlock.endAddress, kernelMaximumAllocatableAddress] at bound
  simp only [entryOf, BitmapEntry.fromAddress, BitmapEntry.page]
  omega

/-- Behind its argument checks `free` is its check of the bitmap and `set_zero`. -/
theorem Accepts.free (accepts : a.Accepts mb) : (a.free mb).value =
    if ((a.entryOf mb).isOccupied a.bitmap (pagesSeen mb)).value then
      (.ok (), { a with
        bitmap := ((a.entryOf mb).setZero a.bitmap (mb.length / 0x1000 % 2 ^ 32)).value })
    else (.error (.err .invalidBlock), a) := by
  have bound := accepts.bound
  have inU64 : ¬2 ^ 64 ≤ mb.endAddress := by
    simp only [kernelMaximumAllocatableAddress] at bound
    omega
  rw [Allocator.free, if_neg (not_not.mpr accepts.length),
    if_neg (not_or.mpr ⟨Nat.not_lt.mpr accepts.addend, not_not.mpr accepts.base⟩), if_neg inU64,
    if_neg (Nat.not_lt.mpr bound)]
  simp only [Traced.value_bind, Traced.value_ite, Traced.value_pure]
  rfl

private theorem free_not_accepts (refused : ¬a.Accepts mb) :
    ∃ s, (a.free mb).value = (.error s, a) := by
  unfold Allocator.free
  split
  next => exact ⟨_, rfl⟩
  next length =>
    split
    next => exact ⟨_, rfl⟩
    next base =>
      split
      next => exact ⟨_, rfl⟩
      next =>
        split
        next => exact ⟨_, rfl⟩
        next bound =>
          obtain ⟨above, aligned⟩ := not_or.mp base
          exact absurd ⟨not_not.mp length, Nat.not_lt.mp above, not_not.mp aligned,
            Nat.not_lt.mp bound⟩ refused

/-- `free` accepts the blocks that pass its checks and look occupied. -/
theorem free_ok_iff : (∃ a', (a.free mb).value = (.ok (), a')) ↔
    a.Accepts mb ∧ (a.entryOf mb).LooksOccupied a.bitmap (pagesSeen mb) := by
  rw [← BitmapEntry.isOccupied_iff _ _ _ entryOf_inside]
  by_cases accepts : a.Accepts mb
  · rw [accepts.free]
    split
    next occupied => exact ⟨fun _ => ⟨accepts, occupied⟩, fun _ => ⟨_, rfl⟩⟩
    next refused =>
      constructor
      · rintro ⟨a', ok⟩
        cases ok
      · intro looks
        exact absurd looks.2 refused
  · obtain ⟨s, value⟩ := free_not_accepts accepts
    rw [value]
    constructor
    · rintro ⟨a', ok⟩
      cases ok
    · intro looks
      exact absurd looks.1 accepts

theorem Accepts.takenAt_iff (accepts : a.Accepts mb) (i : Nat) :
    a.TakenAt (mb.base + i * 0x1000) ↔ bit a.bitmap ((a.entryOf mb).page + i) = true := by
  rw [TakenAt, accepts.page]

/-- `free` is all-or-nothing exactly for the blocks in which its check misses no free page. -/
theorem free_allOrNothing_iff (a : Allocator) (mb : MemoryBlock) :
    a.FreesAllOrNothing mb ↔ a.HidesNothing mb := by
  constructor
  · intro correct
    have allMarked (accepts : a.Accepts mb)
        (looks : (a.entryOf mb).LooksOccupied a.bitmap (pagesSeen mb)) :
        ∀ i < mb.length / 0x1000, a.TakenAt (mb.base + i * 0x1000) := by
      obtain ⟨a', ok⟩ := free_ok_iff.mpr ⟨accepts, looks⟩
      exact correct.marked a' ok
    refine ⟨fun accepts looks i lower upper => ?_, fun accepts looks i inside _ =>
      allMarked accepts looks i inside⟩
    -- the bits of a whole word are bits of the run
    apply BitVec.eq_of_getLsbD_eq
    intro r small
    rw [getLsbD_ones r small]
    have run : InRun (a.entryOf mb).page (pagesSeen mb) (32 * i + r) :=
      (mem_run_iff entryOf_inside _).mpr (by omega)
    unfold InRun at run
    have seen : pagesSeen mb ≤ mb.length / 0x1000 :=
      Nat.div_le_div_right (Nat.mod_le _ _)
    have marked := allMarked accepts looks (32 * i + r - (a.entryOf mb).page) (by omega)
    rw [accepts.takenAt_iff, Nat.add_sub_cancel' run.1] at marked
    rwa [bit, show (32 * i + r) / 32 = i by omega, show (32 * i + r) % 32 = r by omega] at marked
  · intro hides
    refine ⟨fun a' ok i inside => ?_, fun s a' refused => by rw [free_err _ refused]⟩
    obtain ⟨accepts, looks⟩ := free_ok_iff.mp ⟨a', ok⟩
    by_cases seen : i < pagesSeen mb
    · rw [accepts.takenAt_iff]
      have run : InRun (a.entryOf mb).page (pagesSeen mb) ((a.entryOf mb).page + i) :=
        ⟨Nat.le_add_right _ _, by omega⟩
      rcases (mem_run_iff entryOf_inside _).mp run with first | whole | last
      · exact looks.first _ run first.1
      · rw [bit, hides.whole accepts looks _ (by omega) (by omega)]
        exact getLsbD_ones _ (Nat.mod_lt _ (by decide))
      · exact looks.last _ run (by omega)
    · exact hides.behind accepts looks i inside (Nat.le_of_not_lt seen)

/-- Three words of allocated pages with a free page in the middle one. -/
def freePageInside : Allocator :=
  ⟨fun i => if i = 1 then 0xFFFFFEFF else 0xFFFFFFFF, 3, 0, 0x100000, 0⟩

/-- The block of all 96 pages is freed although page 40 is free. -/
theorem not_freesAllOrNothing_freePageInside :
    ¬freePageInside.FreesAllOrNothing ⟨0x100000, 96 * 0x1000⟩ := by
  intro correct
  have accepts : freePageInside.Accepts ⟨0x100000, 96 * 0x1000⟩ := by
    constructor <;> decide
  have freed := accepts.free
  rw [if_pos (by decide +kernel)] at freed
  have marked := correct.marked _ freed 40 (by decide)
  exact absurd marked (by unfold TakenAt; decide)

end Allocator

end EmkKernel
