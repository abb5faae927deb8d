import EmkKernel.Library.RadixTree
import EmkKernel.Library.Yields
import EmkKernel.Memory.Allocator
import EmkKernel.Paging.Entry
import Mathlib.Data.Fin.Basic

/-!
# Entries of page tables in memory

`PointerTable` is a handle on one entry of a page table: where the entry lies,
the flags it is to get, and the address it held when the handle was made. The
machine is the memory the tables lie in and the allocator that is passed along.
-/

namespace EmkKernel

abbrev Index := Fin 512

/-- Physical memory as frames of 512 quadwords. -/
abbrev Memory := BitVec 64 → Index → Entry

structure Machine where
  memory : Memory
  allocator : Allocator

abbrev PagerM := EStateM Stop Machine

/-- A pointer to an entry: `table.add(index)`. -/
structure Location where
  table : BitVec 64
  index : Index

/-- `*location`. -/
def load (location : Location) : PagerM Entry := do
  let m ← get
  pure (m.memory location.table location.index)

/-- `*location = entry`. -/
def store (location : Location) (entry : Entry) : PagerM Unit :=
  modify fun m =>
    { m with memory := RadixTree.write m.memory location.table location.index entry }

/-- `allocator.alloc_zero(1)`, with the address of the page. -/
def allocZeroPage : PagerM (BitVec 64) := do
  let m ← get
  match (m.allocator.alloc 1).value with
  | (.ok mb, a) =>
    let base := BitVec.ofNat 64 mb.base
    set { memory := RadixTree.fill m.memory base fun _ => 0, allocator := a : Machine }
    pure base
  | (.error stop, a) =>
    set { m with allocator := a }
    throw stop

def freeBlock (mb : MemoryBlock) : PagerM Unit := do
  let m ← get
  match (m.allocator.free mb).value with
  | (.ok _, a) => set { m with allocator := a }
  | (.error stop, a) =>
    set { m with allocator := a }
    throw stop

inductive PointerTableType where
  | pdpt
  | pdt
  | pt
  deriving DecidableEq, Repr

structure PointerTable where
  location : Location
  flags : Flags
  address : BitVec 64
  addressIncrement : Nat

namespace PointerTable

def new (ptt : PointerTableType) (base : BitVec 64) (index : Index) (flags : Flags) :
    PagerM PointerTable := do
  let location := Location.mk base index
  let increment := match ptt with
    | .pdpt => 0
    | .pdt => pager1Gib
    | .pt => pager2Mib
  let entry ← load location
  pure ⟨location, flags, entry.address, increment⟩

variable (self : PointerTable)

def readFlags : PagerM Flags := do
  let entry ← load self.location
  pure entry.flags

def pageSizeActive : PagerM Bool := do
  let entry ← load self.location
  pure (entry.any pagerPageSize)

def instantiate (index : Index) : PagerM (Option PointerTable) := do
  let entry ← load self.location
  if entry.any pagerPageSize then
    pure none
  else
    let next : Option Nat :=
      if self.addressIncrement = 0 then some pager1Gib
      else if self.addressIncrement = pager1Gib then some pager2Mib
      else none
    match next with
    | none => pure none
    | some increment =>
      let location := Location.mk self.address index
      let entry ← load location
      pure (some ⟨location, self.flags, entry.address, increment⟩)

/-- The entries `unfold` writes: 512 pages with the flags of the large one. -/
def unfolded (address : BitVec 64) (flags : Flags) (i : Index) : Entry :=
  Entry.pack (address + BitVec.ofNat 64 (i.val * 0x1000)) flags

/-- The sums of the loop are in `u64`, and the last of them is the largest. -/
@[irreducible] def unfoldOverflows (address : BitVec 64) : Bool :=
    2 ^ 64 ≤ address.toNat + 511 * 0x1000

def unfold : PagerM PointerTable := do
  let active ← self.pageSizeActive
  if active then
    let ptr ← allocZeroPage
    let entry ← load self.location
    let flags := entry.flags &&& ~~~pagerPageSize
    if unfoldOverflows self.address then
      throw .panic
    else
      modify fun m => { m with memory := RadixTree.fill m.memory ptr (unfolded self.address flags) }
      let flags := flags ||| pagerStabAllocated
      store self.location (Entry.pack ptr flags)
      pure { self with flags, address := ptr }
  else
    throw (.err .invalidActivateFlags)

def setNewAddress (address : BitVec 64) : PagerM PointerTable := do
  store self.location (Entry.pack address self.flags)
  pure { self with address }

def allocateIfNecessary : PagerM (Bool × PointerTable) := do
  let entry ← load self.location
  if entry = 0 ∧ self.flags.any pagerPageSize = false then
    let base ← allocZeroPage
    let flags := self.flags ||| pagerStabAllocated
    store self.location (Entry.pack base flags)
    pure (true, { self with flags, address := base })
  else
    pure (false, self)

def isAllocated : PagerM Bool := do
  let entry ← load self.location
  pure (entry.any pagerStabAllocated)

def isPresent : PagerM Bool := do
  let entry ← load self.location
  pure (decide (entry ≠ 0))

def deallocate : PagerM PointerTable := do
  freeBlock ⟨self.address.toNat, 0x1000⟩
  let entry ← load self.location
  store self.location (entry ^^^ pagerStabAllocated.setWidth 64)
  pure { self with flags := self.flags ^^^ pagerStabAllocated }

end PointerTable

end EmkKernel
