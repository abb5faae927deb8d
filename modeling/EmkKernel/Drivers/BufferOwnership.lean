import EmkKernel.Drivers.Buffers
import EmkKernel.Memory.Drain

/-!
# What buffers own

`Buffer::new` and `Buffer::new_physical_virtual` with `release` and `sub_buffer`, for every size
and every state of the allocator.
-/

namespace EmkKernel

open EStateM BitArray

namespace Allocator

variable (a : Allocator) {a' a'' : Allocator}

/-- The message for a size: the rounding is in `u64` and the allocator returns an error. -/
def Refuses (size : Nat) : Prop :=
  Buffer.roundToPages size < 2 ^ 64 ∧ ∃ e,
    (a.alloc (Buffer.roundToPages size / 0x1000 % 2 ^ 16)).value.1 = .error (.err e)

/-- Nothing is asked for, or no run of free pages is long enough. -/
def Lacks (pages : Nat) : Prop := pages = 0 ∨ ∀ k, ¬a.Picks pages k

/-- An address at which `free` finds the run of pages from page `k` on. -/
structure Returnable (base pages k : Nat) : Prop where
  aligned : base % 0x1000 = 0
  inside : a.addend ≤ base
  page : (base - a.addend) / 0x1000 = k
  ends : base + pages * 0x1000 ≤ kernelMaximumAllocatableAddress

variable {a} {pages k base size : Nat}

private theorem returnable_iff_freeable :
    a.Returnable (a.addend + k * 0x1000) pages k ↔ a.Freeable pages k := by
  constructor
  · intro returnable
    have aligned := returnable.aligned
    exact ⟨by omega, returnable.ends⟩
  · intro freeable
    have aligned := freeable.1
    exact ⟨by omega, by omega, by omega, freeable.2⟩

/-- What `free` accepts, and the pages that it clears. -/
theorem free_clears {base length : Nat} (freed : (a.free ⟨base, length⟩).value = (.ok (), a')) :
    base % 0x1000 = 0 ∧ a.addend ≤ base ∧ base + length ≤ kernelMaximumAllocatableAddress ∧
      ClearsExactly a.bitmap a'.bitmap
        (InRun ((base - a.addend) / 0x1000) (length / 0x1000 % 2 ^ 32)) := by
  unfold free at freed
  split at freed
  · cases freed
  · split at freed
    · cases freed
    next based =>
      split at freed
      · cases freed
      · split at freed
        · cases freed
        next below =>
          simp only [Traced.value_bind, Traced.value_ite, Traced.value_pure] at freed
          simp only [MemoryBlock.endAddress, kernelMaximumAllocatableAddress] at below based
          split at freed
          · cases freed
            have clears := BitmapEntry.setZero_clears (BitmapEntry.fromAddress (base - a.addend))
              a.bitmap (length / 0x1000 % 2 ^ 32) (by
                simp only [BitmapEntry.fromAddress]
                omega)
            have page : (BitmapEntry.fromAddress (base - a.addend)).page =
                (base - a.addend) / 0x1000 := by
              simp only [BitmapEntry.fromAddress, BitmapEntry.page]
              omega
            rw [page] at clears
            exact ⟨by omega, by omega, Nat.le_of_not_lt below, clears⟩
          · cases freed

/-- Freeing at an address restores the bitmap exactly if it is the address of the run. -/
theorem free_restores_iff (positive : 0 < pages) (small : pages < 2 ^ 16)
    (clear : Clear a.bitmap k pages) (took : a.Took a' pages k) :
    (∃ a'', (a'.free ⟨base, pages * 0x1000⟩).value = (.ok (), a'') ∧ a''.bitmap = a.bitmap) ↔
      a.Returnable base pages k := by
  have count : pages * 0x1000 / 0x1000 % 2 ^ 32 = pages := by omega
  constructor
  · rintro ⟨a'', freed, restored⟩
    obtain ⟨aligned, inside, ends, clears⟩ := free_clears freed
    rw [restored, count, took.addend] at clears
    rw [took.addend] at inside
    -- both ends of the run were set and are clear again
    have cleared : ∀ j, InRun k pages j → InRun ((base - a.addend) / 0x1000) pages j := by
      intro j run
      by_contra other
      have set := (clears j).mpr ⟨(took.sets j).mpr (Or.inr run), other⟩
      rw [clear j run] at set
      cases set
    have first := cleared k ⟨Nat.le_refl k, by omega⟩
    have last := cleared (k + pages - 1) ⟨by omega, by omega⟩
    unfold InRun at first last
    exact ⟨aligned, inside, by omega, ends⟩
  · intro returnable
    have set : ∀ j, InRun k pages j → bit a'.bitmap j = true := fun j run =>
      (took.sets j).mpr (Or.inr run)
    obtain ⟨a'', freed, gave⟩ := a'.free_run returnable.aligned (took.addend ▸ returnable.inside)
      (took.addend ▸ returnable.page) returnable.ends set
    exact ⟨a'', freed, restored clear took.sets gave.clears⟩

private theorem refuses_iff : a.Refuses size ↔
    Buffer.roundToPages size < 2 ^ 64 ∧ a.Lacks (Buffer.pages size % 2 ^ 16) := by
  apply and_congr_right
  intro _
  change (∃ e, (a.alloc (Buffer.pages size % 2 ^ 16)).value.1 = _) ↔ _
  generalize Buffer.pages size % 2 ^ 16 = pages
  rcases a.alloc_cases pages with ⟨zero, value⟩ | ⟨_, missed, value⟩ | ⟨positive, k, a', picks, _,
    value⟩
  · rw [value]
    exact ⟨fun _ => Or.inl zero, fun _ => ⟨_, rfl⟩⟩
  · rw [value]
    exact ⟨fun _ => Or.inr missed, fun _ => ⟨_, rfl⟩⟩
  · constructor
    · rintro ⟨e, refused⟩
      rw [value, handOut] at refused
      split at refused <;> cases refused
    · rintro (zero | missed)
      · omega
      · exact absurd picks (missed k)

/-- A run that is found at an address in `u64` is handed out. -/
theorem alloc_picks (positive : 0 < pages) (picks : a.Picks pages k)
    (inU64 : a.addend + k * 0x1000 < 2 ^ 64) : ∃ a', a.Took a' pages k ∧
      (a.alloc pages).value = (.ok ⟨a.addend + k * 0x1000, pages * 0x1000⟩, a') := by
  rcases a.alloc_cases pages with ⟨zero, _⟩ | ⟨_, missed, _⟩ | ⟨_, k', a', found, took, value⟩
  · omega
  · exact absurd picks (missed k)
  · obtain rfl := a.picks_unique picks found
    rw [handOut, if_pos inU64] at value
    exact ⟨a', took, value⟩

/-- An address of the run is at least the one that is handed out. -/
theorem Returnable.inU64 (returnable : a.Returnable base pages k) :
    a.addend + k * 0x1000 < 2 ^ 64 := by
  obtain ⟨_, inside, page, ends⟩ := returnable
  simp only [kernelMaximumAllocatableAddress] at ends
  omega

end Allocator

namespace Buffer

variable {before after a'' : Allocator} {b : Buffer} {m : IoMachine} {va : VirtualAllocator}
  {readonly : Bool} {base size offset length k ptr : Nat}

/-- The buffer between the allocator that was asked and the one after that, with its first page at
`base`. -/
structure Owns (before after : Allocator) (b : Buffer) (base size offset length : Nat) :
    Prop where
  enough : size ≤ b.allocatedSize
  backed : Backed before after base b.allocatedSize
  released : ∀ memory, ∃ a'', b.release ⟨memory, after⟩ = .ok () ⟨memory, a''⟩ ∧
    a''.bitmap = before.bitmap
  inside : ∀ sub, b.subBuffer offset length = some sub →
    b.ptr ≤ sub.ptr ∧ sub.ptr + sub.originalSize ≤ b.ptr + b.originalSize

private theorem release_iff {memory : Nat → Byte} :
    b.release ⟨memory, after⟩ = .ok () ⟨memory, a''⟩ ↔
      (after.free ⟨b.ptr, b.allocatedSize⟩).value = (.ok (), a'') := by
  rw [release, get_bind_run]
  rcases value : (after.free ⟨b.ptr, b.allocatedSize⟩).value with ⟨outcome, a⟩
  cases outcome with
  | error stop =>
    constructor
    · intro ran
      cases ran
    · intro freed
      cases freed
  | ok done =>
    constructor
    · intro ran
      cases ran
      rfl
    · intro freed
      cases freed
      rfl

/-- Only the offset is compared with the size. -/
theorem subBuffer_inside_iff : (∀ sub, b.subBuffer offset length = some sub →
    b.ptr ≤ sub.ptr ∧ sub.ptr + sub.originalSize ≤ b.ptr + b.originalSize) ↔
      (offset ≤ b.originalSize → offset + length ≤ b.originalSize) := by
  rw [subBuffer]
  split
  next beyond =>
    refine ⟨fun _ within => absurd beyond (Nat.not_lt.mpr within), fun _ sub taken => ?_⟩
    cases taken
  next within =>
    constructor
    · intro inside _
      have ends := (inside _ rfl).2
      dsimp only at ends
      omega
    · rintro inside sub ⟨⟩
      have ends := inside (Nat.le_of_not_lt within)
      dsimp only
      omega

/-- A buffer on the pages that its size leaves in `u16`. -/
theorem owns_iff_of_took (positive : 0 < pages size % 2 ^ 16)
    (clear : Clear before.bitmap k (pages size % 2 ^ 16))
    (took : before.Took after (pages size % 2 ^ 16) k) :
    Owns before after ⟨ptr, pages size * 0x1000, size, readonly⟩ (before.addend + k * 0x1000)
        size offset length ↔
      pages size < 2 ^ 16 ∧ before.Returnable ptr (pages size) k ∧
        (offset ≤ size → offset + length ≤ size) := by
  constructor
  · intro owns
    have bound := le_of_backed took.sets owns.backed
    have small : pages size < 2 ^ 16 := by
      have less := Nat.mod_lt (pages size) (y := 2 ^ 16) (by decide)
      dsimp only at bound
      omega
    rw [Nat.mod_eq_of_lt small] at positive clear took
    obtain ⟨a'', released, restored⟩ := owns.released fun _ => 0
    refine ⟨small, ?_, subBuffer_inside_iff.mp owns.inside⟩
    exact (Allocator.free_restores_iff positive small clear took).mp
      ⟨a'', release_iff.mp released, restored⟩
  · rintro ⟨small, returnable, inside⟩
    rw [Nat.mod_eq_of_lt small] at positive clear took
    obtain ⟨a'', freed, restored⟩ :=
      (Allocator.free_restores_iff positive small clear took).mpr returnable
    refine ⟨le_pages size, ?_, fun memory => ⟨a'', release_iff.mpr freed, restored⟩,
      subBuffer_inside_iff.mpr inside⟩
    exact backed_of_took took.sets clear (Nat.le_refl _)

/-- `new` stops with its message, or the buffer owns what it says. -/
def OwnsNew (m : IoMachine) (readonly : Bool) (size offset length : Nat) : Prop :=
  (m.allocator.Refuses size ∧ ∃ m', new readonly size m = .error .panic m') ∨
  ∃ b m', new readonly size m = .ok b m' ∧
    Owns m.allocator m'.allocator b b.ptr size offset length

/-- `new_physical_virtual` stops with its message, or the buffer owns what it says in the allocator
of virtual addresses and lies in the block behind them. -/
def OwnsNewPhysicalVirtual (va : VirtualAllocator) (m : IoMachine) (readonly : Bool)
    (size offset length : Nat) : Prop :=
  (va.allocator.Refuses size ∧ newPhysicalVirtual va readonly size m = .error .panic m) ∨
  ∃ b mb va', newPhysicalVirtual va readonly size m = .ok ((b, mb), va') m ∧
    Owns va.allocator va'.allocator b mb.base size offset length ∧
    b.ptr = va.physical.base + (mb.base - va.allocator.addend) ∧
    mb.base - va.allocator.addend + b.allocatedSize ≤ va.physical.length

private theorem new_refused (refuses : m.allocator.Refuses size) :
    ∃ m', new readonly size m = .error .panic m' := by
  obtain ⟨_, e, refused⟩ := refuses
  have value : (m.allocator.alloc (roundToPages size / 0x1000 % 2 ^ 16)).value =
      (.error (.err e), _) := Prod.ext refused rfl
  rw [new, get_bind_run, value]
  exact ⟨_, rfl⟩

private theorem new_handed {mb : MemoryBlock}
    (handed : (m.allocator.alloc (pages size % 2 ^ 16)).value = (.ok mb, after)) :
    new readonly size m = .ok ⟨mb.base, pages size * 0x1000, size, readonly⟩ ⟨m.memory, after⟩ := by
  change (m.allocator.alloc (roundToPages size / 0x1000 % 2 ^ 16)).value = _ at handed
  rw [new, get_bind_run, handed, ← roundToPages_eq]
  rfl

private theorem newPhysicalVirtual_refused (refuses : va.allocator.Refuses size) :
    newPhysicalVirtual va readonly size m = .error .panic m := by
  obtain ⟨_, e, refused⟩ := refuses
  have value : (va.allocator.alloc (roundToPages size / 0x1000 % 2 ^ 16)).value =
      (.error (.err e), _) := Prod.ext refused rfl
  rw [newPhysicalVirtual]
  dsimp only
  rw [value]
  rfl

private theorem newPhysicalVirtual_handed {mb : MemoryBlock}
    (handed : (va.allocator.alloc (pages size % 2 ^ 16)).value = (.ok mb, after))
    (inside : va.physical.base + (mb.base - va.allocator.addend) < 2 ^ 64) :
    newPhysicalVirtual va readonly size m =
      .ok ((⟨va.physical.base + (mb.base - va.allocator.addend), pages size * 0x1000, size,
        readonly⟩, mb), { va with allocator := after }) m := by
  rw [newPhysicalVirtual]
  dsimp only
  change (va.allocator.alloc (roundToPages size / 0x1000 % 2 ^ 16)).value = _ at handed
  rw [handed, ← roundToPages_eq]
  dsimp only
  rw [if_pos inside]
  rfl

/-- A buffer owns what it says exactly if the allocator refuses it, or if its pages are counted in
`u16`, the first run of free pages that is long enough can be given back at the address of the
buffer, and the sub-buffer ends within the size. -/
theorem ownsNew_iff : OwnsNew m readonly size offset length ↔
    (roundToPages size < 2 ^ 64 ∧ m.allocator.Lacks (pages size % 2 ^ 16)) ∨
    (pages size < 2 ^ 16 ∧ (offset ≤ size → offset + length ≤ size) ∧ 0 < pages size ∧
      ∃ k, m.allocator.Picks (pages size) k ∧ m.allocator.Freeable (pages size) k) := by
  rw [OwnsNew, Allocator.refuses_iff]
  constructor
  · rintro (⟨refuses, _⟩ | ⟨b, m', made, owns⟩)
    · exact Or.inl refuses
    · have yields := new_yields (m := m) readonly size
      rw [Yields, made] at yields
      obtain ⟨_, k, positive, picks, took, rfl⟩ := yields
      obtain ⟨small, returnable, inside⟩ := (owns_iff_of_took positive picks.clear took).mp owns
      rw [Nat.mod_eq_of_lt small] at positive picks
      exact Or.inr ⟨small, inside, positive, k, picks,
        Allocator.returnable_iff_freeable.mp returnable⟩
  · rintro (refuses | ⟨small, inside, positive, k, picks, freeable⟩)
    · exact Or.inl ⟨refuses, new_refused (Allocator.refuses_iff.mpr refuses)⟩
    · have returnable := Allocator.returnable_iff_freeable.mpr freeable
      rw [← Nat.mod_eq_of_lt small] at positive picks
      obtain ⟨after, took, handed⟩ :=
        Allocator.alloc_picks positive picks returnable.inU64
      refine Or.inr ⟨_, _, new_handed handed, ?_⟩
      exact (owns_iff_of_took positive picks.clear took).mpr ⟨small, returnable, inside⟩

private theorem ownsNewPhysicalVirtual_iff :
    OwnsNewPhysicalVirtual va m readonly size offset length ↔
      (roundToPages size < 2 ^ 64 ∧ va.allocator.Lacks (pages size % 2 ^ 16)) ∨
      (pages size < 2 ^ 16 ∧ (offset ≤ size → offset + length ≤ size) ∧ 0 < pages size ∧
        ∃ k, va.allocator.Picks (pages size) k ∧
          va.allocator.Returnable (va.physical.base + k * 0x1000) (pages size) k ∧
          (k + pages size) * 0x1000 ≤ va.physical.length) := by
  rw [OwnsNewPhysicalVirtual, Allocator.refuses_iff]
  constructor
  · rintro (⟨refuses, _⟩ | ⟨b, mb, va', made, owns, at_block, behind⟩)
    · exact Or.inl refuses
    · rw [newPhysicalVirtual] at made
      dsimp only at made
      rcases handed : (va.allocator.alloc (roundToPages size / 0x1000 % 2 ^ 16)).value with
        ⟨_ | mb', after⟩
      · rw [handed] at made
        cases made
      · rw [handed] at made
        dsimp only at made
        split at made
        · cases made
          obtain ⟨positive, k, picks, took, rfl, _⟩ := Allocator.alloc_ok _ handed
          change 0 < pages size % 2 ^ 16 at positive
          change va.allocator.Picks (pages size % 2 ^ 16) k at picks
          change va.allocator.Took after (pages size % 2 ^ 16) k at took
          rw [roundToPages_eq] at owns behind
          obtain ⟨small, returnable, inside⟩ :=
            (owns_iff_of_took positive picks.clear took).mp owns
          rw [Nat.mod_eq_of_lt small] at positive picks
          rw [Nat.add_sub_cancel_left] at returnable behind
          refine Or.inr ⟨small, inside, positive, k, picks, returnable, ?_⟩
          rw [Nat.add_mul]
          exact behind
        · cases made
  · rintro (refuses | ⟨small, inside, positive, k, picks, returnable, behind⟩)
    · exact Or.inl ⟨refuses, newPhysicalVirtual_refused (Allocator.refuses_iff.mpr refuses)⟩
    · have ends := returnable.ends
      have start := returnable.inU64
      rw [← Nat.mod_eq_of_lt small] at positive picks
      obtain ⟨after, took, handed⟩ := Allocator.alloc_picks positive picks start
      have inU64 : va.physical.base +
          (va.allocator.addend + k * 0x1000 - va.allocator.addend) < 2 ^ 64 := by
        simp only [kernelMaximumAllocatableAddress] at ends
        omega
      refine Or.inr ⟨_, _, _, newPhysicalVirtual_handed handed inU64, ?_, rfl, ?_⟩
      · apply (owns_iff_of_took positive picks.clear took).mpr
        rw [Nat.add_sub_cancel_left]
        exact ⟨small, returnable, inside⟩
      · dsimp only
        rw [Nat.add_sub_cancel_left, ← Nat.add_mul]
        exact behind

end Buffer

end EmkKernel
