import Mathlib.Algebra.Ring.Nat
import Mathlib.Data.Set.Lattice
import Mathlib.Order.CompletePartialOrder
import Mathlib.Tactic.Common

/-!
# Memory blocks and results

The kernel is built in the `dev` profile, so an integer that leaves its type
panics. Addresses and lengths are natural numbers here and the operations that
could leave `u64` stop with `Stop.panic` instead of wrapping.
-/

namespace EmkKernel

/-- `utils::memory::MemoryResult`, the error type of both allocator and pager. -/
inductive MemoryResult where
  | invalidLength
  | invalidAddress
  | invalidBlock
  | invalidFlags
  | invalidActivateFlags
  | allocationError
  | pagingError
  | nospace
  deriving DecidableEq, Repr

/-- Why a function gives no value: it returned an error, or the kernel panicked. -/
inductive Stop where
  | err (e : MemoryResult)
  | panic
  deriving DecidableEq, Repr

structure MemoryBlock where
  base : Nat
  length : Nat
  deriving DecidableEq, Repr

namespace MemoryBlock

/-- `Region::end`. The sum leaves `u64` exactly when it is not below `2 ^ 64`. -/
def endAddress (mb : MemoryBlock) : Nat := mb.base + mb.length

/-- The addresses of the block. -/
def Contains (mb : MemoryBlock) (address : Nat) : Prop :=
  mb.base ≤ address ∧ address < mb.endAddress

instance (mb : MemoryBlock) (address : Nat) : Decidable (mb.Contains address) :=
  inferInstanceAs (Decidable (_ ∧ _))

/-- No address belongs to both blocks. -/
def Disjoint (a b : MemoryBlock) : Prop := ∀ address, a.Contains address → ¬b.Contains address

/-- Every address of the inner block belongs to the outer one. -/
def Within (inner outer : MemoryBlock) : Prop :=
  outer.base ≤ inner.base ∧ inner.endAddress ≤ outer.endAddress

instance (inner outer : MemoryBlock) : Decidable (inner.Within outer) :=
  inferInstanceAs (Decidable (_ ∧ _))

theorem Disjoint.mono {a b a' b' : MemoryBlock} (apart : a.Disjoint b) (left : a'.Within a)
    (right : b'.Within b) : a'.Disjoint b' := by
  intro address first second
  refine apart address ⟨?_, ?_⟩ ⟨?_, ?_⟩
  · exact Nat.le_trans left.1 first.1
  · exact Nat.lt_of_lt_of_le first.2 left.2
  · exact Nat.le_trans right.1 second.1
  · exact Nat.lt_of_lt_of_le second.2 right.2

end MemoryBlock

abbrev Byte := BitVec 8

/-- The number in `n` bytes from an address on, the lowest byte first. -/
def littleEndian (memory : Nat → Byte) (address : Nat) : Nat → Nat
  | 0 => 0
  | n + 1 => (memory address).toNat + 2 ^ 8 * littleEndian memory (address + 1) n

/-- The size of a page. -/
abbrev pageSize : Nat := 0x1000

def kernelMaximumAllocatableAddress : Nat := 0x800000000
def kernelMaximumAllocatablePages : Nat := 0x800000
def kernelAllocatedPagesPerBitmapEntry : Nat := 0x20
def kernelNeededBitmapEntries : Nat :=
  kernelMaximumAllocatablePages / kernelAllocatedPagesPerBitmapEntry
def bitmapSizeInBytes : Nat := kernelNeededBitmapEntries * 4
def bitmapSizeInPages : Nat := bitmapSizeInBytes / pageSize

end EmkKernel
