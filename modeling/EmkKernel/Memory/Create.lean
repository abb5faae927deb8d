import EmkKernel.Memory.Alloc

/-!
# How allocators come into being

`new` builds the physical allocator from the firmware's memory map. `new_fake`
and `subdivide` build an allocator whose bitmap lies in pages of another one.
Memory is addressed in words of the bitmap: `memory` and `behind` are what the
kernel finds there before it writes.
-/

namespace EmkKernel

open BitArray

def efiConventionalMemory : Nat := 7
def efiUnusableMemory : Nat := 8

/-- `EfiMemoryDescriptor`. The firmware describes whole pages. -/
structure EfiMemoryDescriptor where
  descriptorType : Nat
  physicalStart : Nat
  numberOfPages : Nat
  aligned : physicalStart % pageSize = 0

/-- `hal::ImageAllocation`. The size is in bytes. -/
structure ImageAllocation where
  allocated : Nat
  size : Nat

/-- Why `new` gives no allocator: `Errno::ENOBUFS`, or the kernel panicked. -/
inductive NewFailure where
  | enobufs
  | panic
  deriving DecidableEq, Repr

namespace EfiMemoryDescriptor

def endAddress (d : EfiMemoryDescriptor) : Nat := d.physicalStart + d.numberOfPages * 0x1000

/-- The descriptor behind the bitmap cut off its front. -/
def withoutBitmap (d : EfiMemoryDescriptor) : EfiMemoryDescriptor where
  descriptorType :=
    if d.numberOfPages - bitmapSizeInPages = 0 then efiUnusableMemory else d.descriptorType
  physicalStart := d.physicalStart + bitmapSizeInBytes
  numberOfPages := d.numberOfPages - bitmapSizeInPages
  aligned := by
    have aligned := d.aligned
    simp only [pageSize, bitmapSizeInBytes, kernelNeededBitmapEntries,
      kernelMaximumAllocatablePages, kernelAllocatedPagesPerBitmapEntry] at aligned ⊢
    omega

end EfiMemoryDescriptor

namespace Allocator

/-- The first loop of `new`: the bitmap goes to the front of the first
conventional region that can hold it. Without one its address stays null. -/
def placeBitmap : List EfiMemoryDescriptor → Except NewFailure (Nat × List EfiMemoryDescriptor)
  | [] => .ok (0, [])
  | d :: rest =>
    if d.numberOfPages ≥ bitmapSizeInPages ∧ d.descriptorType = efiConventionalMemory then
      if 2 ^ 64 ≤ d.physicalStart + bitmapSizeInBytes then .error .panic
      else .ok (d.physicalStart, d.withoutBitmap :: rest)
    else
      match placeBitmap rest with
      | .ok (bitmap, rest) => .ok (bitmap, d :: rest)
      | .error e => .error e

/-- `memset_dword`. -/
def memsetDword (memory : Words) (value : BitVec 32) (length : Nat) : Words := fun i =>
  if i < length then value else memory i

/-- The second loop of `new`: it clears the conventional regions and breaks at the
first one that reaches past the maximum. -/
def clearRegions (bitmap : Words) : List EfiMemoryDescriptor → Except NewFailure Words
  | [] => .ok bitmap
  | d :: rest =>
    if d.descriptorType = efiConventionalMemory then
      if 2 ^ 64 ≤ d.endAddress then .error .panic
      else if d.endAddress > kernelMaximumAllocatableAddress then .ok bitmap
      else clearRegions ((BitmapEntry.fromAddress d.physicalStart).setZero bitmap
        (d.numberOfPages % 2 ^ 32)).value rest
    else
      clearRegions bitmap rest

/-- The third loop of `new`. -/
def markImages (bitmap : Words) : List ImageAllocation → Words
  | [] => bitmap
  | image :: rest =>
    if image.allocated = 0 then markImages bitmap rest
    else markImages ((BitmapEntry.fromAddress image.allocated).setOne bitmap
      (image.size / 0x1000 % 2 ^ 32)).value rest

def new (descriptors : List EfiMemoryDescriptor) (images : List ImageAllocation)
    (memory : Words) : Except NewFailure Allocator := do
  let (bitmapAddress, descriptors) ← placeBitmap descriptors
  if bitmapAddress = 0 then
    .error .enobufs
  else
    let bitmap := memsetDword memory 0xFFFFFFFF (bitmapSizeInBytes / 4)
    let bitmap ← clearRegions bitmap descriptors
    let bitmap := markImages bitmap images
    -- memory for core bootstrap
    let bitmap := ((BitmapEntry.fromAddress 0x8000).setOne bitmap 4).value
    .ok ⟨bitmap, kernelNeededBitmapEntries, 0, 0, 0⟩

def numEntriesNeeded (numPages : Nat) : Nat :=
  numPages / 32 + if numPages % 32 ≠ 0 then 1 else 0

def bitmapPagesNeeded (numEntries : Nat) : Nat :=
  numEntries * 4 / 0x1000 + if numEntries * 4 % 0x1000 ≠ 0 then 1 else 0

/-- `alloc_zero`: what the words from the block's address on hold afterwards. -/
def zeroedBlock (mb : MemoryBlock) (behind : Words) : Words :=
  memsetDword behind 0 (mb.length / 4)

def newFake (a : Allocator) (numPages virtualAddress : Nat) (behind : Words) :
    Traced (Except Stop Allocator × Allocator) := do
  match ← a.alloc (bitmapPagesNeeded (numEntriesNeeded numPages)) with
  | (.ok mb, a) =>
    pure (.ok ⟨zeroedBlock mb behind, numEntriesNeeded numPages, 0, virtualAddress, numPages⟩, a)
  | (.error _, a) => pure (.error .panic, a)

/-- `subdivide`. Both blocks it allocates stay allocated in the parent. -/
def subdivide (a : Allocator) (numPages : Nat) (behind : Words) :
    Traced (Except Stop Allocator × Allocator) := do
  match ← a.alloc (bitmapPagesNeeded (numEntriesNeeded numPages)) with
  | (.ok bitmap, a) =>
    match ← a.alloc numPages with
    | (.ok mb, a) =>
      pure (.ok ⟨zeroedBlock bitmap behind, numEntriesNeeded numPages, 0, mb.base, 0⟩, a)
    | (.error _, a) => pure (.error .panic, a)
  | (.error _, a) => pure (.error .panic, a)

/-! ### What a successful call did -/

theorem ok_of_map {ε α β : Type} {x : Except ε α} {f : α → β} {b : β} (mapped : x.map f = .ok b) :
    ∃ a, x = .ok a ∧ f a = b := by
  cases x with
  | error e => cases mapped
  | ok a => exact ⟨a, rfl, Except.ok.inj mapped⟩

theorem new_ok {descriptors : List EfiMemoryDescriptor} {images : List ImageAllocation}
    {memory : Words} {a : Allocator} (made : new descriptors images memory = .ok a) :
    ∃ bitmapAddress regions bitmap,
      placeBitmap descriptors = .ok (bitmapAddress, regions) ∧ bitmapAddress ≠ 0 ∧
      clearRegions (memsetDword memory 0xFFFFFFFF (bitmapSizeInBytes / 4)) regions =
        .ok bitmap ∧
      a = ⟨((BitmapEntry.fromAddress 0x8000).setOne (markImages bitmap images) 4).value,
        kernelNeededBitmapEntries, 0, 0, 0⟩ := by
  simp only [new, bind, Except.bind] at made
  split at made
  next => cases made
  next place placed =>
    split at made
    next => cases made
    next nonzero =>
      split at made
      next => cases made
      next bitmap cleared => exact ⟨_, _, _, placed, nonzero, cleared, (Except.ok.inj made).symm⟩

theorem newFake_ok {a a' sub : Allocator} {numPages virtualAddress : Nat} {behind : Words}
    (made : (a.newFake numPages virtualAddress behind).value = (.ok sub, a')) :
    ∃ mb, (a.alloc (bitmapPagesNeeded (numEntriesNeeded numPages))).value = (.ok mb, a') ∧
      sub = ⟨zeroedBlock mb behind, numEntriesNeeded numPages, 0, virtualAddress, numPages⟩ := by
  simp only [newFake, Traced.value_bind] at made
  split at made
  next mb a'' returned =>
    simp only [Traced.value_pure, Prod.mk.injEq, Except.ok.injEq] at made
    obtain ⟨rfl, rfl⟩ := made
    exact ⟨mb, returned, rfl⟩
  next => simp at made

theorem subdivide_ok {a a' sub : Allocator} {numPages : Nat} {behind : Words}
    (made : (a.subdivide numPages behind).value = (.ok sub, a')) :
    ∃ bitmap mb middle,
      (a.alloc (bitmapPagesNeeded (numEntriesNeeded numPages))).value = (.ok bitmap, middle) ∧
      (middle.alloc numPages).value = (.ok mb, a') ∧
      sub = ⟨zeroedBlock bitmap behind, numEntriesNeeded numPages, 0, mb.base, 0⟩ := by
  simp only [subdivide, Traced.value_bind] at made
  split at made
  next bitmap middle returned =>
    simp only [Traced.value_bind] at made
    split at made
    next mb a'' returned' =>
      simp only [Traced.value_pure, Prod.mk.injEq, Except.ok.injEq] at made
      obtain ⟨rfl, rfl⟩ := made
      exact ⟨bitmap, mb, middle, returned, returned', rfl⟩
    next => simp at made
  next => simp at made

/-! ### A fresh bitmap is empty -/

theorem memsetDword_bit (memory : Words) (value : BitVec 32) (length k : Nat) :
    bit (memsetDword memory value length) k =
      if k < 32 * length then value.getLsbD (k % 32) else bit memory k := by
  simp only [bit, memsetDword]
  split_ifs <;> first | rfl | omega

private theorem bitmapPagesNeeded_bound (numEntries : Nat) :
    numEntries ≤ bitmapPagesNeeded numEntries * 0x1000 / 4 := by
  unfold bitmapPagesNeeded
  split <;> omega

/-- The bits of the words that `alloc_zero` zeroed. -/
theorem zeroedBlock_clear {a a' : Allocator} {mb : MemoryBlock} {numEntries k : Nat}
    (returned : (a.alloc (bitmapPagesNeeded numEntries)).value = (.ok mb, a'))
    (behind : Words) (inside : k < 32 * numEntries) :
    bit (zeroedBlock mb behind) k = false := by
  obtain ⟨_, _, _, _, rfl, _⟩ := a.alloc_ok returned
  have bound := bitmapPagesNeeded_bound numEntries
  rw [zeroedBlock, memsetDword_bit, if_pos (by simp only; omega)]
  exact BitVec.getLsbD_zero

end Allocator

end EmkKernel
