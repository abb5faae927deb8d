import EmkKernel.Memory.Create
import EmkKernel.Memory.Drain
import EmkKernel.Memory.Ledger

/-!
# `free` as the inverse of `alloc`

`free` refuses blocks that end above the maximum allocatable address, whatever
the allocator's addend is. An allocator frees what it hands out exactly when its
whole range lies below that address and starts at a page.
-/

namespace EmkKernel

open BitArray

namespace Allocator

variable {a a' a'' : Allocator}

/-- What `alloc` hands out can be freed, which restores the bitmap, and can be
handed out again. -/
def FreesWhatItAllocs (a : Allocator) (pages : Nat) : Prop :=
  ∀ mb a', (a.alloc pages).value = (.ok mb, a') →
    ∃ a'', (a'.free mb).value = (.ok (), a'') ∧ a''.bitmap = a.bitmap ∧
      ∃ again, (a''.alloc pages).value = (.ok mb, again)

/-- With the pages taken given back, the search stops at the same page. -/
theorem Picks.again {pages k : Nat} (picks : a.Picks pages k) (positive : 0 < pages)
    (took : a.Took a' pages k) (gave : a'.Gave a'' pages k) (restored : a''.bitmap = a.bitmap) :
    a''.Picks pages k := by
  have entries : a''.bitmapEntries = a.bitmapEntries :=
    gave.bitmapEntries.trans took.bitmapEntries
  have current := gave.currentEntry.trans took.currentEntry
  unfold Picks at picks ⊢
  split at picks
  next small =>
    rw [if_pos small] at current ⊢
    rw [current, restored]
    rcases picks with ⟨b, fit, rfl⟩ | ⟨_, i, b, _, fit, _, rfl⟩
    · have room := fit.1.1
      rw [show (32 * a.currentEntry + b) / 32 = a.currentEntry by omega]
      exact Or.inl ⟨b, fit, rfl⟩
    · have room := fit.1.1
      rw [show (32 * i + b) / 32 = i by omega]
      exact Or.inl ⟨b, fit, rfl⟩
  next large =>
    rw [if_neg large]
    rwa [restored, entries]

/-- A block that `free` accepts comes back as it was. -/
theorem freesWhatItAllocs_of_freeable {pages : Nat}
    (freeable : ∀ k, a.Picks pages k → a.Freeable pages k) : a.FreesWhatItAllocs pages := by
  intro mb a' returned
  obtain ⟨positive, k, picks, took, rfl, inU64⟩ := a.alloc_ok returned
  have block : a.blockAt pages k = a'.blockAt pages k := by rw [blockAt, blockAt, took.addend]
  have freeable' : a'.Freeable pages k := by
    have held := freeable k picks
    rwa [Freeable, block, ← took.addend] at held
  obtain ⟨a'', freed, gave⟩ := a'.free_granted freeable' fun j run =>
    (took.sets j).mpr (Or.inr run)
  have restored : a''.bitmap = a.bitmap := restored picks.clear took.sets gave.clears
  refine ⟨a'', ?_, restored, ?_⟩
  · rw [← freed, ← block, blockAt]
  · have picks' := picks.again positive took gave restored
    rcases a''.alloc_cases pages with ⟨zero, _⟩ | ⟨_, missed, _⟩ | ⟨_, k', again, other, _, value⟩
    · omega
    · exact absurd picks' (missed k)
    · obtain rfl := a''.picks_unique picks' other
      rw [gave.addend, took.addend, handOut, if_pos inU64] at value
      exact ⟨again, value⟩

/-- A block that `free` refuses is not an inverse. -/
theorem freeable_of_freesWhatItAllocs {pages k : Nat} (frees : a.FreesWhatItAllocs pages)
    (positive : 0 < pages) (picks : a.Picks pages k) (inU64 : a.addend + k * 0x1000 < 2 ^ 64) :
    a.Freeable pages k := by
  rcases a.alloc_cases pages with ⟨zero, _⟩ | ⟨_, missed, _⟩ | ⟨_, k', a', picks', took, value⟩
  · omega
  · exact absurd picks (missed k)
  · obtain rfl := a.picks_unique picks picks'
    rw [handOut, if_pos inU64] at value
    obtain ⟨a'', freed, _⟩ := frees _ a' value
    have block : a.blockAt pages k = a'.blockAt pages k := by rw [blockAt, blockAt, took.addend]
    by_contra refused
    have refused' : ¬a'.Freeable pages k := by
      rwa [Freeable, block, ← took.addend] at refused
    obtain ⟨stop, value'⟩ := a'.free_refused refused'
    rw [← block, blockAt, freed] at value'
    cases value'

/-! ### The allocators the kernel builds -/

/-- An allocator as `new` or `new_fake` returns it. -/
inductive Obtained : Allocator → Prop where
  | physical {descriptors : List EfiMemoryDescriptor} {images : List ImageAllocation}
      {memory : Words} {a : Allocator} (made : new descriptors images memory = .ok a) : Obtained a
  | virtual {parent parent' : Allocator} {numPages virtualAddress : Nat} {behind : Words}
      {a : Allocator} (u16 : numPages < 2 ^ 16) (u64 : virtualAddress < 2 ^ 64)
      (made : (parent.newFake numPages virtualAddress behind).value = (.ok a, parent')) :
      Obtained a

/-- A fake allocator starts empty, and the kernel panics rather than building an empty one. -/
private theorem newFake_fresh {parent parent' : Allocator} {numPages virtualAddress : Nat}
    {behind : Words}
    (made : (parent.newFake numPages virtualAddress behind).value = (.ok a, parent')) :
    0 < a.bitmapEntries ∧ ∀ k, k < 32 * a.bitmapEntries → bit a.bitmap k = false := by
  obtain ⟨mb, returned, rfl⟩ := newFake_ok made
  refine ⟨?_, fun k inside => zeroedBlock_clear returned behind inside⟩
  obtain ⟨positive, _⟩ := parent.alloc_ok returned
  by_contra empty
  rw [show numEntriesNeeded numPages = 0 by simpa using empty] at positive
  exact absurd positive (by decide)

private theorem searchEndsInside_one {p : Nat} (current : a.currentEntry < a.bitmapEntries)
    (inside : p < 32 * a.bitmapEntries) (clear : bit a.bitmap p = false) :
    a.SearchEndsInside 1 :=
  Or.inr (Or.inl ⟨by decide, current, p / 32, by omega, p % 32, (fitsIn_one a.bitmap p).mpr clear⟩)

private theorem session_of_drain {s : Session} {bound : Nat}
    (entries : s.allocator.bitmapEntries = bound)
    (run : Relation.ReflTransGen (DrainStep bound) s.allocator a') :
    ∃ s', Relation.ReflTransGen Session.Step s s' ∧ s'.allocator = a' := by
  induction run with
  | refl => exact ⟨s, .refl, rfl⟩
  | tail _ step ih =>
    obtain ⟨s', run, rfl⟩ := ih
    obtain ⟨current, ⟨i, tested, b, fits⟩, mb, returned⟩ := step
    have same := (Session.run_keeps run).2.trans entries
    refine ⟨⟨_, mb :: s'.outstanding⟩, run.tail ⟨.alloc 1, ?_, ?_⟩, rfl⟩
    · refine (s'.allocator.alloc_within_iff 1).mpr (Or.inr (Or.inl ⟨by decide, ?_⟩))
      exact ⟨same ▸ current, i, same ▸ tested, b, fits⟩
    · simp only [Session.serve, returned]

private theorem range_of_frees (cursor : a.currentEntry = 0) (nonempty : 0 < a.bitmapEntries)
    (fresh : ∀ k, k < 32 * a.bitmapEntries → bit a.bitmap k = false)
    (u64 : a.addend < 2 ^ 64) (small : a.bitmapEntries ≤ 0x800)
    (frees : ∀ s, Relation.ReflTransGen Session.Step ⟨a, []⟩ s → ∀ pages,
      s.allocator.SearchEndsInside pages → s.allocator.FreesWhatItAllocs pages) :
    a.addend % 0x1000 = 0 ∧ a.range.endAddress ≤ kernelMaximumAllocatableAddress := by
  have current : a.currentEntry < a.bitmapEntries := by omega
  have room : a.SearchEndsInside 1 :=
    searchEndsInside_one (p := 0) current (by omega) (fresh 0 (by omega))
  have picks : a.Picks 1 0 := by
    rw [Picks, if_pos (by decide), cursor]
    refine Or.inl ⟨0, ⟨(fitsIn_one a.bitmap 0).mpr (fresh 0 (by omega)), ?_⟩, rfl⟩
    exact fun b' below => absurd below (Nat.not_lt_zero b')
  have first : a.Freeable 1 0 :=
    freeable_of_freesWhatItAllocs (frees _ .refl 1 room) (by decide) picks (by omega)
  have start := first.bound
  rw [Nat.zero_mul, Nat.one_mul] at start
  obtain ⟨p, lastPage⟩ : ∃ p, p + 1 = 32 * a.bitmapEntries := ⟨32 * a.bitmapEntries - 1, by omega⟩
  have inside : p < 32 * a.bitmapEntries := by omega
  have inU64 : a.addend + 32 * a.bitmapEntries * 0x1000 ≤ 2 ^ 64 := by omega
  obtain ⟨a', run, current', picks', addend⟩ :=
    drain current (Nat.le_succ _) inU64 inside (fresh p inside)
  obtain ⟨s, steps, rfl⟩ := session_of_drain (s := ⟨a, []⟩) rfl run
  have entries : s.allocator.bitmapEntries = a.bitmapEntries := (Session.run_keeps steps).2
  have room' : s.allocator.SearchEndsInside 1 :=
    searchEndsInside_one (entries ▸ current') (entries ▸ inside)
      (picks'.clear p (by unfold InRun; omega))
  have last : s.allocator.Freeable 1 p :=
    freeable_of_freesWhatItAllocs (frees s steps 1 room') (by decide) picks' (by omega)
  have ends := last.bound
  rw [Nat.one_mul] at ends
  refine ⟨first.1, ?_⟩
  simp only [range, MemoryBlock.endAddress, kernelMaximumAllocatableAddress]
  omega

/-- In all runs inside the bitmap every allocation is undone by `free`, exactly
when the managed range starts at a page and ends at or below the maximum
allocatable address. -/
theorem frees_what_it_allocs_iff (obtained : a.Obtained) :
    (∀ s, Relation.ReflTransGen Session.Step ⟨a, []⟩ s → ∀ pages,
      s.allocator.SearchEndsInside pages → s.allocator.FreesWhatItAllocs pages) ↔
    a.addend % 0x1000 = 0 ∧ a.range.endAddress ≤ kernelMaximumAllocatableAddress := by
  constructor
  · intro frees
    cases obtained with
    | physical made =>
      obtain ⟨_, _, _, _, _, _, rfl⟩ := new_ok made
      refine ⟨rfl, ?_⟩
      simp only [range, MemoryBlock.endAddress, kernelNeededBitmapEntries,
        kernelMaximumAllocatableAddress]
      decide
    | «virtual» u16 u64 made =>
      obtain ⟨nonempty, fresh⟩ := newFake_fresh made
      obtain ⟨_, _, rfl⟩ := newFake_ok made
      refine range_of_frees rfl nonempty fresh u64 ?_ frees
      simp only [numEntriesNeeded]
      split <;> omega
  · rintro ⟨aligned, bound⟩ s run pages ends
    obtain ⟨addend, entries⟩ := Session.run_keeps run
    by_cases positive : 0 < pages
    · refine freesWhatItAllocs_of_freeable fun k picks => ⟨addend ▸ aligned, ?_⟩
      have inside := picks.inside positive ends
      simp only [range, blockAt, MemoryBlock.endAddress] at addend entries bound ⊢
      omega
    · intro mb a' returned
      exact absurd (s.allocator.alloc_ok returned).1 positive

/-- A fake allocator of 32 MiB whose bitmap is taken from an empty parent. -/
def fakeAt (virtualAddress : Nat) : Except Stop Allocator × Allocator :=
  (newFake ⟨fun _ => 0, 1, 0, 0x100000, 0⟩ 0x2000 virtualAddress fun _ => 0).value

private theorem fakeAt_obtained {virtualAddress : Nat} (u64 : virtualAddress < 2 ^ 64)
    (made : (fakeAt virtualAddress).1 = .ok a) : a.Obtained :=
  .virtual (by decide) u64 (Prod.ext made rfl)

/-- A fake allocator of low addresses frees whatever it hands out. -/
theorem frees_what_it_allocs_iff_low : ∃ a, (fakeAt 0x40000000).1 = .ok a ∧
    ∀ s, Relation.ReflTransGen Session.Step ⟨a, []⟩ s → ∀ pages,
      s.allocator.SearchEndsInside pages → s.allocator.FreesWhatItAllocs pages := by
  have bounds : ((fakeAt 0x40000000).1.map fun a => (a.addend, a.bitmapEntries)) =
      .ok (0x40000000, 0x100) := by decide +kernel
  obtain ⟨a, made, bounds⟩ := ok_of_map bounds
  obtain ⟨addend, entries⟩ := Prod.mk.inj bounds
  refine ⟨a, made, (frees_what_it_allocs_iff (fakeAt_obtained (by decide) made)).mpr ?_⟩
  simp only [range, MemoryBlock.endAddress, addend, entries, kernelMaximumAllocatableAddress]
  decide

/-- The kernel's own virtual addresses lie above the maximum: a page that was
just handed out there is refused by `free`. -/
theorem kernel_space_not_freed : ∃ a a' : Allocator, a.Obtained ∧
    (a.alloc 1).value = (.ok ⟨0xFFFF910000000000, 0x1000⟩, a') ∧
    (a'.free ⟨0xFFFF910000000000, 0x1000⟩).value.1 = .error (.err .invalidAddress) ∧
    ¬a.FreesWhatItAllocs 1 := by
  have computed : ((fakeAt 0xFFFF910000000000).1.map fun a => ((a.alloc 1).value.1,
      ((a.alloc 1).value.2.free ⟨0xFFFF910000000000, 0x1000⟩).value.1)) =
        .ok (.ok ⟨0xFFFF910000000000, 0x1000⟩, .error (.err .invalidAddress)) := by
    decide +kernel
  obtain ⟨a, made, computed⟩ := ok_of_map computed
  obtain ⟨granted, refused⟩ := Prod.mk.inj computed
  have returned : (a.alloc 1).value = (.ok ⟨0xFFFF910000000000, 0x1000⟩, _) :=
    Prod.ext granted rfl
  refine ⟨a, _, fakeAt_obtained (by decide) made, returned, refused, fun frees => ?_⟩
  obtain ⟨_, freed, _⟩ := frees _ _ returned
  rw [freed] at refused
  cases refused

end Allocator

end EmkKernel
