import EmkKernel.Memory.Bitmap

/-!
# The page allocator

`hal::memory::allocator::Allocator`. The bitmap is the memory of 32-bit words
that starts at the bitmap pointer: words with an index below `bitmapEntries`
belong to the allocator, the words behind them are whatever follows in memory.
`current_entry` is kept as an index into that memory.
-/

namespace EmkKernel

open BitArray

structure Allocator where
  bitmap : Words
  bitmapEntries : Nat
  currentEntry : Nat
  addend : Nat
  fakedPages : Nat

namespace Allocator

/-- `is_entry_valid`: the first offset in the word at which the pages fit. -/
def isEntryValid (bitmap : Words) (ptr pages : Nat) : Traced (Option Nat) := do
  let word ← readWord bitmap ptr
  pure ((List.range (32 - pages + 1)).find? fun i => word &&& (makeMask pages <<< i) == 0)

/-- The loop of `next_free_entry_ex` that counts the zero bits at the top of a word. -/
def bitsAvailLoop (word mask : BitVec 32) : Nat → Nat
  | 0 => 32
  | i + 1 =>
    let mask := mask ||| (1#32 <<< i)
    if word &&& mask ≠ 0 then 32 - (i + 1) else bitsAvailLoop word mask i

def bitsAvail (word : BitVec 32) : Nat := bitsAvailLoop word 0 32

/-- The `failed` loop of `next_free_entry_ex`: one of the whole words is in use. -/
def someWordUsed (bitmap : Words) (base : Nat) : Nat → Traced Bool
  | 0 => pure false
  | n + 1 => do
    let word ← readWord bitmap base
    if word ≠ 0 then pure true else someWordUsed bitmap (base + 1) n

/-- The body of the loop in `next_free_entry_ex`: the offset in the word from
which the run can start. -/
def isEntryValidEx (bitmap : Words) (ptr pages : Nat) : Traced (Option Nat) := do
  let word ← readWord bitmap ptr
  if word &&& (1#32 <<< 31) = 0 then do
    let bitsAvail := bitsAvail word
    let fullEntriesRequired := (pages - bitsAvail) / 32
    if ← someWordUsed bitmap (ptr + 1) fullEntriesRequired then
      pure none
    else do
      let endMask := makeMask ((pages - bitsAvail) % 32)
      let word ← readWord bitmap (ptr + 1 + fullEntriesRequired)
      if word &&& endMask ≠ 0 then pure none else pure (some (32 - bitsAvail))
  else
    pure none

/-- The search loop: entries are tested in order from `inc` on. -/
def firstEntry (valid : Nat → Traced (Option Nat)) (inc : Nat) :
    Nat → Traced (Except MemoryResult (Nat × Nat))
  | 0 => pure (.error .nospace)
  | n + 1 => do
    match ← valid inc with
    | some bitOffset => pure (.ok (bitOffset, inc))
    | none => firstEntry valid (inc + 1) n

/-- The loop condition is `ptr <= bitmap.add(bitmap_entries)`, so the word behind
the bitmap is tested as well. -/
def nextFreeEntry (a : Allocator) (pages : Nat) : Traced (Except MemoryResult (Nat × Nat)) :=
  firstEntry (fun ptr => isEntryValid a.bitmap ptr pages) 0 (a.bitmapEntries + 1)

def nextFreeEntryEx (a : Allocator) (pages : Nat) : Traced (Except MemoryResult (Nat × Nat)) :=
  firstEntry (fun ptr => isEntryValidEx a.bitmap ptr pages) 0 (a.bitmapEntries + 1)

/-- The block handed out; the address is summed up in `u64`. -/
def handOut (base pages : Nat) : Except Stop MemoryBlock :=
  if base < 2 ^ 64 then .ok ⟨base, pages * 0x1000⟩ else .error .panic

def allocEx (a : Allocator) (pages : Nat) : Traced (Except Stop MemoryBlock × Allocator) := do
  match ← a.nextFreeEntryEx pages with
  | .error e => pure (.error (.err e), a)
  | .ok (entryBitOffset, entryOffset) => do
    let firstMask := makeMask (32 - entryBitOffset)
    let word ← readWord a.bitmap entryOffset
    let bitmap ← writeWord a.bitmap entryOffset (word ||| firstMask <<< entryBitOffset)
    let fullEntries := (pages - (32 - entryBitOffset)) / 32
    let bitmap ← fillWords bitmap (entryOffset + 1) 0xFFFFFFFF fullEntries
    let base := a.addend + entryOffset * 0x20000 + entryBitOffset * 0x1000
    if (pages - (32 - entryBitOffset)) % 32 ≠ 0 then do
      let endMask := makeMask ((pages - (32 - entryBitOffset)) % 32)
      let word ← readWord bitmap (entryOffset + 1 + fullEntries)
      let bitmap ← writeWord bitmap (entryOffset + 1 + fullEntries) (word ||| endMask)
      pure (handOut base pages, { a with bitmap })
    else
      pure (handOut base pages, { a with bitmap })

def getCurrentEntryBase (a : Allocator) : Nat :=
  a.currentEntry * kernelAllocatedPagesPerBitmapEntry * 0x1000

/-- The end of the small path of `alloc`: the pages are taken in the current entry. -/
def takeCurrent (a : Allocator) (pages bitOffset : Nat) :
    Traced (Except Stop MemoryBlock × Allocator) := do
  let word ← readWord a.bitmap a.currentEntry
  let bitmap ← writeWord a.bitmap a.currentEntry (word ||| makeMask pages <<< bitOffset)
  pure (handOut (a.addend + a.getCurrentEntryBase + bitOffset * 0x1000) pages, { a with bitmap })

def alloc (a : Allocator) (pages : Nat) : Traced (Except Stop MemoryBlock × Allocator) :=
  if pages = 0 then
    pure (.error (.err .allocationError), a)
  else if pages ≤ 32 then do
    match ← isEntryValid a.bitmap a.currentEntry pages with
    | some bitOffset => a.takeCurrent pages bitOffset
    | none => do
      match ← a.nextFreeEntry pages with
      | .ok (bitOffset, entryOffset) =>
        takeCurrent { a with currentEntry := entryOffset } pages bitOffset
      | .error e => pure (.error (.err e), a)
  else
    a.allocEx pages

def free (a : Allocator) (mb : MemoryBlock) : Traced (Except Stop Unit × Allocator) :=
  if mb.length % 0x1000 ≠ 0 then
    pure (.error (.err .invalidLength), a)
  else if mb.base < a.addend ∨ mb.base % 0x1000 ≠ 0 then
    pure (.error (.err .invalidAddress), a)
  else if 2 ^ 64 ≤ mb.endAddress then
    pure (.error .panic, a)
  else if mb.endAddress > kernelMaximumAllocatableAddress then
    pure (.error (.err .invalidAddress), a)
  else do
    let entry := BitmapEntry.fromAddress (mb.base - a.addend)
    if ← entry.isOccupied a.bitmap (mb.length % 2 ^ 32 / 0x1000) then do
      let bitmap ← entry.setZero a.bitmap (mb.length / 0x1000 % 2 ^ 32)
      pure (.ok (), { a with bitmap })
    else
      pure (.error (.err .invalidBlock), a)

end Allocator

end EmkKernel
