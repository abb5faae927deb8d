import EmkKernel.Memory.Create
import EmkKernel.Memory.Drain
import Mathlib.Data.List.TakeWhile

/-!
# The memory map behind the physical allocator

Which pages `new` leaves to be returned: those of the regions its second loop
clears, less those its third loop and the bootstrap reservation mark. The pages
that should be left are stated apart from the loops, and `new_returns_iff` says
when the two agree.
-/

namespace EmkKernel

open BitArray

namespace Allocator

/-- The regions the second loop clears: it breaks at the first conventional one
that reaches past the maximum. -/
def clearedRegions (regions : List EfiMemoryDescriptor) : List EfiMemoryDescriptor :=
  (regions.filter fun d => d.descriptorType = efiConventionalMemory).takeWhile
    fun d => d.endAddress ≤ kernelMaximumAllocatableAddress

/-- Page `p` belongs to one of the regions. -/
def InRegions (regions : List EfiMemoryDescriptor) (p : Nat) : Prop :=
  ∃ d ∈ regions, InRun (d.physicalStart / 0x1000) d.numberOfPages p

/-- Page `p` is one of the whole pages the third loop marks for an image. -/
def Marked (images : List ImageAllocation) (p : Nat) : Prop :=
  ∃ image ∈ images, image.allocated ≠ 0 ∧
    InRun (BitmapEntry.fromAddress image.allocated).page (image.size / 0x1000 % 2 ^ 32) p

/-- The pages kept for the bootstrap of the other cores. -/
def Bootstrap (p : Nat) : Prop := InRun 8 4 p

instance (p : Nat) : Decidable (Bootstrap p) := inferInstanceAs (Decidable (InRun 8 4 p))

/-! ### What the loops leave -/

private theorem fromAddress_inside (address : Nat) :
    (BitmapEntry.fromAddress address).bitOffset < 32 :=
  Nat.mod_lt _ (by decide)

private theorem fromAddress_page {address : Nat} (low : address < 2 ^ 49) :
    (BitmapEntry.fromAddress address).page = address / 0x1000 := by
  simp only [BitmapEntry.page, BitmapEntry.fromAddress]
  omega

private theorem clearRegions_ok {bitmap w : Words} {regions : List EfiMemoryDescriptor}
    (ok : clearRegions bitmap regions = .ok w) (p : Nat) :
    bit w p = true ↔ bit bitmap p = true ∧ ¬InRegions (clearedRegions regions) p := by
  induction regions generalizing bitmap with
  | nil =>
    cases ok
    simp [clearedRegions, InRegions]
  | cons d rest ih =>
    simp only [clearRegions] at ok
    split at ok
    next conventional =>
      split at ok
      · cases ok
      · split at ok
        next past =>
          cases ok
          simp [clearedRegions, conventional, Nat.not_le_of_gt past, InRegions]
        next below =>
          have bound : d.physicalStart + d.numberOfPages * 0x1000 ≤ 0x800000000 :=
            Nat.le_of_not_gt below
          rw [show d.numberOfPages % 2 ^ 32 = d.numberOfPages from
            Nat.mod_eq_of_lt (by omega)] at ok
          have clears := BitmapEntry.setZero_clears (BitmapEntry.fromAddress d.physicalStart)
            bitmap d.numberOfPages (fromAddress_inside _)
          rw [fromAddress_page (by omega)] at clears
          rw [ih ok, clears p]
          simp [clearedRegions, conventional, Nat.le_of_not_gt below, InRegions, and_assoc]
    next other =>
      rw [ih ok]
      simp [clearedRegions, other]

private theorem markImages_bit (bitmap : Words) (images : List ImageAllocation) (p : Nat) :
    bit (markImages bitmap images) p = true ↔ bit bitmap p = true ∨ Marked images p := by
  induction images generalizing bitmap with
  | nil => simp [markImages, Marked]
  | cons image rest ih =>
    simp only [markImages]
    split
    next zero =>
      rw [ih]
      simp [Marked, zero]
    next allocated =>
      have sets := BitmapEntry.setOne_sets (BitmapEntry.fromAddress image.allocated) bitmap
        (image.size / 0x1000 % 2 ^ 32) (fromAddress_inside _)
      rw [ih, sets p]
      simp [Marked, allocated, or_assoc]

/-- The bitmap `new` ends with. -/
theorem new_bit {descriptors : List EfiMemoryDescriptor} {images : List ImageAllocation}
    {memory : Words} {a : Allocator} (made : new descriptors images memory = .ok a) :
    ∃ bitmapAddress regions, placeBitmap descriptors = .ok (bitmapAddress, regions) ∧
      a.addend = 0 ∧ a.bitmapEntries = kernelNeededBitmapEntries ∧ a.currentEntry = 0 ∧
      ∀ p, bit a.bitmap p = true ↔
        ((p < 0x800000 ∨ bit memory p = true) ∧ ¬InRegions (clearedRegions regions) p) ∨
          Marked images p ∨ Bootstrap p := by
  obtain ⟨bitmapAddress, regions, bitmap, placed, _, cleared, rfl⟩ := new_ok made
  refine ⟨bitmapAddress, regions, placed, rfl, rfl, rfl, fun p => ?_⟩
  have sets := BitmapEntry.setOne_sets (BitmapEntry.fromAddress 0x8000)
    (markImages bitmap images) 4 (fromAddress_inside _) p
  have filled : bit (memsetDword memory 0xFFFFFFFF (bitmapSizeInBytes / 4)) p = true ↔
      p < 0x800000 ∨ bit memory p = true := by
    rw [memsetDword_bit, show 32 * (bitmapSizeInBytes / 4) = 0x800000 from rfl]
    split
    next inside =>
      exact iff_of_true (getLsbD_ones (p % 32) (Nat.mod_lt _ (by decide))) (Or.inl inside)
    next outside => simp [outside]
  rw [sets, markImages_bit, clearRegions_ok cleared p, filled, or_assoc]
  rfl

/-! ### The pages that should be left -/

/-- The bytes of page `p`. -/
def pageBlock (p : Nat) : MemoryBlock := ⟨p * 0x1000, 0x1000⟩

/-- Page `p` intersects an image allocation. -/
def MeetsImage (images : List ImageAllocation) (p : Nat) : Prop :=
  ∃ image ∈ images, image.allocated ≠ 0 ∧
    ¬(pageBlock p).Disjoint ⟨image.allocated, image.size⟩

/-- The pages that callers may be given: conventional memory below the maximum,
less the bitmap, the images and the bootstrap pages. -/
structure Available (descriptors : List EfiMemoryDescriptor) (images : List ImageAllocation)
    (bitmapAddress p : Nat) : Prop where
  below : (pageBlock p).endAddress ≤ kernelMaximumAllocatableAddress
  conventional :
    InRegions (descriptors.filter fun d => d.descriptorType = efiConventionalMemory) p
  bitmap : ¬InRun (bitmapAddress / 0x1000) bitmapSizeInPages p
  images : ¬MeetsImage images p
  bootstrap : ¬Bootstrap p

/-- The memory map and the images are such that the loops of `new` leave the
right pages: no available page lies in a region behind the break or is marked
for an image elsewhere, no cleared page is in the bitmap or only partly covered
by an image, and the word behind the bitmap is full. -/
structure MapsExactly (descriptors regions : List EfiMemoryDescriptor)
    (images : List ImageAllocation) (memory : Words) (bitmapAddress : Nat) : Prop where
  covered : ∀ p, Available descriptors images bitmapAddress p →
    InRegions (clearedRegions regions) p ∧ ¬Marked images p
  spared : ∀ p, InRegions (clearedRegions regions) p → ¬Marked images p → ¬Bootstrap p →
    ¬InRun (bitmapAddress / 0x1000) bitmapSizeInPages p ∧ ¬MeetsImage images p
  fenced : ∀ p, InRun 0x800000 32 p → bit memory p = true ∨ Marked images p

/-- Cutting the bitmap off a region adds no page to the map. -/
theorem placeBitmap_regions {descriptors regions : List EfiMemoryDescriptor}
    {bitmapAddress : Nat} (placed : placeBitmap descriptors = .ok (bitmapAddress, regions))
    {p : Nat}
    (inside : InRegions (regions.filter fun d => d.descriptorType = efiConventionalMemory) p) :
    InRegions (descriptors.filter fun d => d.descriptorType = efiConventionalMemory) p := by
  induction descriptors generalizing regions with
  | nil =>
    cases placed
    exact inside
  | cons d rest ih =>
    simp only [placeBitmap] at placed
    split at placed
    next fits =>
      split at placed
      · cases placed
      · cases placed
        obtain ⟨d', member, run⟩ := inside
        obtain ⟨member, conventional⟩ := List.mem_filter.mp member
        rcases List.mem_cons.mp member with rfl | old
        · refine ⟨d, List.mem_filter.mpr ⟨List.mem_cons_self, by simp [fits.2]⟩, ?_⟩
          have room : 0x100 ≤ d.numberOfPages := fits.1
          have run : InRun ((d.physicalStart + 0x100000) / 0x1000)
            (d.numberOfPages - 0x100) p := run
          unfold InRun at run ⊢
          omega
        · exact ⟨d', List.mem_filter.mpr ⟨List.mem_cons_of_mem _ old, conventional⟩, run⟩
    next =>
      split at placed
      next bitmap rest' placed' =>
        cases placed
        obtain ⟨d', member, run⟩ := inside
        obtain ⟨member, conventional⟩ := List.mem_filter.mp member
        rcases List.mem_cons.mp member with rfl | old
        · exact ⟨d', List.mem_filter.mpr ⟨List.mem_cons_self, conventional⟩, run⟩
        · obtain ⟨e, member, run⟩ := ih placed' ⟨d', List.mem_filter.mpr ⟨old, conventional⟩, run⟩
          obtain ⟨member, conventional⟩ := List.mem_filter.mp member
          exact ⟨e, List.mem_filter.mpr ⟨List.mem_cons_of_mem _ member, conventional⟩, run⟩
      next => cases placed

private theorem clearedRegions_below {regions : List EfiMemoryDescriptor} {p : Nat}
    (inside : InRegions (clearedRegions regions) p) :
    p < 0x800000 ∧
      InRegions (regions.filter fun d => d.descriptorType = efiConventionalMemory) p := by
  obtain ⟨d, member, run⟩ := inside
  have kept := List.mem_takeWhile_imp
    (p := fun d : EfiMemoryDescriptor => d.endAddress ≤ kernelMaximumAllocatableAddress) member
  have bound : d.physicalStart + d.numberOfPages * 0x1000 ≤ 0x800000000 := of_decide_eq_true kept
  refine ⟨?_, d, (List.takeWhile_sublist _).subset member, run⟩
  unfold InRun at run
  omega

/-- The pages that a later run of allocations can return are the available ones,
exactly when the map is one that the loops of `new` treat right. -/
theorem new_returns_iff {descriptors : List EfiMemoryDescriptor} {images : List ImageAllocation}
    {memory : Words} {a : Allocator} (made : new descriptors images memory = .ok a) :
    ∃ bitmapAddress regions, placeBitmap descriptors = .ok (bitmapAddress, regions) ∧
      ((∀ p, a.Returns p ↔ Available descriptors images bitmapAddress p) ↔
        MapsExactly descriptors regions images memory bitmapAddress) := by
  obtain ⟨bitmapAddress, regions, placed, addend, entries, current, bits⟩ := new_bit made
  refine ⟨bitmapAddress, regions, placed, ?_⟩
  have entries' : 32 * a.bitmapEntries = 0x800000 := by rw [entries]; rfl
  have free (p : Nat) (tested : p < 0x800000 + 32) :
      a.Returns p ↔ bit a.bitmap p = false := by
    refine ⟨Returns.clear, fun clear => returns_of_clear ?_ ?_ ?_ clear⟩ <;> omega
  constructor
  · intro exact
    refine ⟨fun p available => ?_, fun p cleared unmarked kept => ?_, fun p behind => ?_⟩
    · have below : p * 0x1000 + 0x1000 ≤ 0x800000000 := available.below
      have clear := ((exact p).mpr available).clear
      rw [← Bool.not_eq_true, bits p] at clear
      push Not at clear
      exact ⟨clear.1 (Or.inl (by omega)), clear.2.1⟩
    · have low := (clearedRegions_below cleared).1
      have returns : a.Returns p := by
        rw [free p (by omega), ← Bool.not_eq_true, bits p]
        push Not
        exact ⟨fun _ => cleared, unmarked, kept⟩
      have available := (exact p).mp returns
      exact ⟨available.bitmap, available.images⟩
    · unfold InRun at behind
      by_contra clear
      push Not at clear
      have returns : a.Returns p := by
        rw [free p (by omega), ← Bool.not_eq_true, bits p]
        push Not
        refine ⟨fun set => ?_, clear.2, ?_⟩
        · rcases set with low | set
          · omega
          · exact absurd set clear.1
        · unfold Bootstrap InRun
          omega
      have below : p * 0x1000 + 0x1000 ≤ 0x800000000 := ((exact p).mp returns).below
      omega
  · rintro ⟨covered, spared, fenced⟩ p
    have fence : a.Fenced := by
      refine ⟨by omega, fun p behind => ?_⟩
      rw [entries'] at behind
      have outside : ¬InRegions (clearedRegions regions) p := fun inside => by
        have low := (clearedRegions_below inside).1
        unfold InRun at behind
        omega
      rw [bits p]
      rcases fenced p behind with set | marked
      · exact Or.inl ⟨Or.inr set, outside⟩
      · exact Or.inr (Or.inl marked)
    constructor
    · intro returns
      have low : p < 0x800000 := entries' ▸ fence.returns returns
      have clear := returns.clear
      rw [← Bool.not_eq_true, bits p] at clear
      push Not at clear
      obtain ⟨cleared, unmarked, kept⟩ := clear
      have inside := cleared (Or.inl low)
      obtain ⟨bitmap, image⟩ := spared p inside unmarked kept
      refine ⟨?_, placeBitmap_regions placed (clearedRegions_below inside).2, bitmap, image, kept⟩
      simp only [pageBlock, MemoryBlock.endAddress, kernelMaximumAllocatableAddress]
      omega
    · intro available
      obtain ⟨inside, unmarked⟩ := covered p available
      have low := (clearedRegions_below inside).1
      rw [free p (by omega), ← Bool.not_eq_true, bits p]
      push Not
      exact ⟨fun _ => inside, unmarked, available.bootstrap⟩

/-- One region, with an image of whole pages in it. -/
def plainRegion : EfiMemoryDescriptor := ⟨efiConventionalMemory, 0x100000, 0x200, rfl⟩

def plainImages : List ImageAllocation := [⟨0x200000, 0x2000⟩]

private theorem plainRegion_cleared :
    clearedRegions [plainRegion.withoutBitmap] = [plainRegion.withoutBitmap] := by
  have conventional : plainRegion.withoutBitmap.descriptorType = efiConventionalMemory := by
    decide +kernel
  have below : plainRegion.withoutBitmap.endAddress ≤ kernelMaximumAllocatableAddress := by
    decide +kernel
  simp [clearedRegions, conventional, below]

private theorem plainRegion_placed :
    placeBitmap [plainRegion] = .ok (0x100000, [plainRegion.withoutBitmap]) := by
  rw [placeBitmap, if_pos (by decide +kernel), if_neg (by decide +kernel)]
  rfl

theorem new_returns_iff_plain : ∃ a, new [plainRegion] plainImages (fun _ => 0xFFFFFFFF) = .ok a ∧
    ∀ p, a.Returns p ↔ Available [plainRegion] plainImages 0x100000 p := by
  have computed : ((new [plainRegion] plainImages fun _ => 0xFFFFFFFF).map fun a => a.addend) =
      .ok 0 := by decide +kernel
  obtain ⟨a, made, _⟩ := ok_of_map computed
  obtain ⟨_, _, placed, exact⟩ := new_returns_iff made
  rw [plainRegion_placed] at placed
  cases placed
  refine ⟨a, made, exact.mpr ⟨fun p available => ?_, fun p inside unmarked _ => ?_, ?_⟩⟩
  · obtain ⟨d, member, run⟩ := available.conventional
    obtain rfl := List.mem_singleton.mp (List.mem_filter.mp member).1
    have bitmap : ¬InRun 0x100 0x100 p := available.bitmap
    refine ⟨⟨plainRegion.withoutBitmap, ?_, ?_⟩, ?_⟩
    · rw [plainRegion_cleared]
      exact List.mem_singleton.mpr rfl
    · change InRun 0x200 0x100 p
      have run : InRun 0x100 0x200 p := run
      unfold InRun at run bitmap ⊢
      omega
    · rintro ⟨image, member, _, run⟩
      obtain rfl := List.mem_singleton.mp member
      have run : InRun 0x200 2 p := run
      unfold InRun at run
      refine available.images ⟨_, List.mem_singleton.mpr rfl, by decide, fun apart => ?_⟩
      refine apart (p * 0x1000) ?_ ?_ <;>
        simp only [MemoryBlock.Contains, pageBlock, MemoryBlock.endAddress] <;> omega
  · obtain ⟨d, member, run⟩ := inside
    rw [plainRegion_cleared] at member
    obtain rfl := List.mem_singleton.mp member
    have run : InRun 0x200 0x100 p := run
    refine ⟨?_, ?_⟩
    · change ¬InRun 0x100 0x100 p
      unfold InRun at run ⊢
      omega
    · rintro ⟨image, member, _, meets⟩
      obtain rfl := List.mem_singleton.mp member
      refine unmarked ⟨_, List.mem_singleton.mpr rfl, by decide, ?_⟩
      change InRun 0x200 2 p
      unfold InRun at run ⊢
      by_contra outside
      refine meets fun address inside inside' => ?_
      simp only [MemoryBlock.Contains, pageBlock, MemoryBlock.endAddress] at inside inside'
      omega
  · intro p _
    exact Or.inl (getLsbD_ones (p % 32) (Nat.mod_lt _ (by decide)))

/-- A region with the bitmap, one that reaches past the maximum and one below it
again. An image lies in the first region and its last page is half used. -/
def clippedMap : List EfiMemoryDescriptor :=
  [⟨efiConventionalMemory, 0x100000, 0x200, rfl⟩,
   ⟨efiConventionalMemory, 0x7FFFFF000, 2, rfl⟩,
   ⟨efiConventionalMemory, 0x400000, 0x10, rfl⟩]

def clippedImages : List ImageAllocation := [⟨0x210000, 0x1800⟩]

/-- The page at 4 MiB is lost, and the half used page of the image is handed out. -/
theorem clippedMap_not_exact : ∃ a, new clippedMap clippedImages (fun _ => 0xFFFFFFFF) = .ok a ∧
    (Available clippedMap clippedImages 0x100000 0x400 ∧ ¬a.Returns 0x400) ∧
    (a.Returns 0x211 ∧ ¬Available clippedMap clippedImages 0x100000 0x211) := by
  have computed : ((new clippedMap clippedImages fun _ => 0xFFFFFFFF).map fun a =>
      (bit a.bitmap 0x400, bit a.bitmap 0x211)) = .ok (true, false) := by decide +kernel
  obtain ⟨a, made, computed⟩ := ok_of_map computed
  obtain ⟨lost, given⟩ := Prod.mk.inj computed
  obtain ⟨_, _, _, addend, entries, current, _⟩ := new_bit made
  have entries' : 32 * a.bitmapEntries = 0x800000 := by rw [entries]; rfl
  refine ⟨a, made, ⟨⟨by decide, ?_, by decide, ?_, by decide⟩, fun returns => ?_⟩, ?_,
    fun available => available.images ?_⟩
  · refine ⟨⟨efiConventionalMemory, 0x400000, 0x10, rfl⟩, List.mem_filter.mpr ⟨?_, rfl⟩, by decide⟩
    exact List.mem_cons_of_mem _ (List.mem_cons_of_mem _ List.mem_cons_self)
  · rintro ⟨image, member, _, meets⟩
    obtain rfl := List.mem_singleton.mp member
    refine meets fun address inside inside' => ?_
    have lower : 0x400 * 0x1000 ≤ address := inside.1
    have upper : address < 0x210000 + 0x1800 := inside'.2
    omega
  · rw [returns.clear] at lost
    cases lost
  · exact returns_of_clear (by omega) (by omega) (by omega) given
  · refine ⟨⟨0x210000, 0x1800⟩, List.mem_singleton.mpr rfl, by decide, fun apart => ?_⟩
    exact apart 0x211000 (by decide) (by decide)

end Allocator

end EmkKernel
