import EmkKernel.Memory.Alloc

/-!
# The managed range

The loop condition of both searches lets them test the word behind the bitmap.
A search that ends before it keeps every access in the bitmap and every page in
the managed range, and no other search does.
-/

namespace EmkKernel

open BitArray

namespace Allocator

variable (a : Allocator)

/-- The addresses of the pages the bitmap stands for. -/
def range : MemoryBlock := ⟨a.addend, 32 * a.bitmapEntries * 0x1000⟩

/-- A small search that has room in the first `bound` words stops in one of them. -/
theorem Picks.below {a : Allocator} {pages k bound i b : Nat} (small : pages ≤ 32)
    (picks : a.Picks pages k) (current : a.currentEntry < bound) (tested : i < bound)
    (fits : FitsIn a.bitmap i pages b) : k + pages ≤ 32 * bound := by
  rw [Picks, if_pos small] at picks
  rcases picks with ⟨b', fit, rfl⟩ | ⟨_, i', b', _, fit, earlier, rfl⟩
  · have room := fit.1.1
    omega
  · have room := fit.1.1
    have first : i' ≤ i := by
      by_contra later
      exact earlier i (by omega) b fits
    omega

/-- The pages of a search that ends inside the bitmap have their bits there. -/
theorem Picks.inside {a : Allocator} {pages k : Nat} (positive : 0 < pages)
    (picks : a.Picks pages k) (ends : a.SearchEndsInside pages) :
    k + pages ≤ 32 * a.bitmapEntries := by
  rcases ends with zero | ⟨small, current, i, bound, b, fits⟩ | ⟨large, i, bound, runs⟩
  · omega
  · exact picks.below small current bound fits
  · rw [Picks, if_neg (Nat.not_le_of_lt large)] at picks
    obtain ⟨i', _, runs', earlier, rfl⟩ := picks
    have first : i' ≤ i := by
      by_contra later
      exact earlier i (by omega) runs
    have last := lastWord_mono a.bitmap large first
    have available := bitsAvail_le (a.bitmap i')
    unfold lastWord at last bound
    omega

/-- A search that ends inside the bitmap finds its pages. -/
theorem SearchEndsInside.picks {a : Allocator} {pages : Nat} (positive : 0 < pages)
    (ends : a.SearchEndsInside pages) : ∃ k, a.Picks pages k := by
  rcases ends with zero | ⟨small, _, i, bound, b, fits⟩ | ⟨large, i, bound, runs⟩
  · omega
  · exact a.picks_of_fitsIn small (Nat.le_of_lt bound) fits
  · unfold lastWord at bound
    exact a.picks_of_runsFrom large (show i ≤ a.bitmapEntries by omega) runs

/-- A search that ends inside the bitmap takes pages of it. -/
theorem SearchEndsInside.returns {a : Allocator} {pages : Nat} (positive : 0 < pages)
    (ends : a.SearchEndsInside pages)
    (low : a.addend + 32 * a.bitmapEntries * 0x1000 ≤ 2 ^ 64) :
    ∃ k a', (a.alloc pages).value = (.ok (a.blockAt pages k), a') ∧ a.Took a' pages k ∧
      Clear a.bitmap k pages ∧ k + pages ≤ 32 * a.bitmapEntries := by
  rcases a.alloc_cases pages with ⟨zero, _⟩ | ⟨_, missed, _⟩ | ⟨_, k, a', picks, took, value⟩
  · omega
  · obtain ⟨k, picks⟩ := ends.picks positive
    exact absurd picks (missed k)
  · have inside := picks.inside positive ends
    refine ⟨k, a', ?_, took, picks.clear, inside⟩
    rw [value, handOut, if_pos (by omega), blockAt]

/-- `alloc` touches only the bitmap, returns only blocks of the managed range
and says that there is no space when no block of this length is free in it. -/
structure RangeSafe (pages : Nat) : Prop where
  touches : (a.alloc pages).Within a.bitmapEntries
  inside : ∀ mb a', (a.alloc pages).value = (.ok mb, a') → mb.Within a.range
  nospace : (∀ k, Clear a.bitmap k pages → ¬(a.blockAt pages k).Within a.range) →
    (a.alloc pages).value = (.error (.err .nospace), a)

/-- Range safety holds exactly when the search ends before the word behind the bitmap. -/
theorem rangeSafe_iff (pages : Nat) : a.RangeSafe pages ↔ a.SearchEndsInside pages := by
  constructor
  · intro safe
    exact (a.alloc_within_iff pages).mp safe.touches
  · intro ends
    refine ⟨(a.alloc_within_iff pages).mpr ends, fun mb a' returned => ?_, fun none => ?_⟩
    · obtain ⟨positive, k, picks, _, rfl, _⟩ := a.alloc_ok returned
      have bound := picks.inside positive ends
      simp only [MemoryBlock.Within, MemoryBlock.endAddress, range]
      omega
    · exfalso
      by_cases positive : 0 < pages
      · obtain ⟨k, picks⟩ := ends.picks positive
        have bound := picks.inside positive ends
        refine none k picks.clear ?_
        simp only [MemoryBlock.Within, MemoryBlock.endAddress, range, blockAt]
        omega
      · refine none 0 (fun j run => ?_) ?_
        · unfold InRun at run
          omega
        · simp only [MemoryBlock.Within, MemoryBlock.endAddress, range, blockAt]
          omega

/-- One full bitmap word, with a zero word behind it. -/
def exhausted : Allocator := ⟨fun i => if i = 0 then 0xFFFFFFFF else 0, 1, 0, 0x100000, 0⟩

/-- The full allocator hands out the page behind its range. -/
theorem exhausted_not_rangeSafe :
    (exhausted.alloc 1).value.1 = .ok ⟨0x120000, 0x1000⟩ ∧
    ¬(MemoryBlock.mk 0x120000 0x1000).Within exhausted.range ∧
    ¬exhausted.RangeSafe 1 := by
  refine ⟨by decide +kernel, by decide, fun safe => ?_⟩
  have touched : ¬(exhausted.alloc 1).Within exhausted.bitmapEntries := by decide +kernel
  exact touched safe.touches

end Allocator

end EmkKernel
