import EmkKernel.Library.Stretch
import EmkKernel.Utils.Reallocate

/-!
# The string allocator

`vfs::gfs::string_allocator`. Strings of up to 8, 16 and 32 bytes lie in slots of
three regions with a bitmap each, longer ones in a fourth region with a node
allocator. `bytes` is what the window shows at each address; a range that leaves
its slice and a copy between slices of different lengths panic.
-/

namespace EmkKernel

/-- The bytes of a `&str`. -/
abbrev Text := List Byte

/-- `&'static mut [u8]` over the bytes of the window. -/
structure ByteSlice where
  base : Nat
  length : Nat
  deriving DecidableEq, Repr

/-- `&slice[low..high]`: the address of its first byte. -/
def ByteSlice.range (slice : ByteSlice) (low high : Nat) : Except Stop Nat :=
  if low ≤ high ∧ high ≤ slice.length then .ok (slice.base + low) else .error .panic

/-- `copy_from_slice` into a slice of `n` bytes at `base`. -/
def copyFromSlice (bytes : Nat → Byte) (base n : Nat) (src : Text) : Except Stop (Nat → Byte) :=
  if src.length = n then .ok (Stretch.put bytes base src) else .error .panic

/-- A bitmap of bytes. -/
structure ByteMap where
  length : Nat
  entries : Nat → Byte

/-- `as u32`. -/
def asU32 (x : Nat) : Nat := x % 2 ^ 32

def gfsStringsFixedVaddr : Nat := 0xFFFF800280000000

inductive GfsStringType where
  | length8
  | length16
  | length32
  | above32
  deriving DecidableEq, Repr

/-- The three regions with slots and the region of the longer strings. -/
structure GfsStringAllocator where
  memory : Fin 3 → MemoryBlock
  lengths : Fin 4 → ByteSlice
  bitmaps : Fin 3 → ByteMap
  allocator : NodeAllocator
  bytes : Nat → Byte

structure GfsStringAllocatorReallocationInfo where
  length16OldOffset : Nat
  length32OldOffset : Nat
  above32OldOffset : Nat
  length16NewOffset : Nat
  length32NewOffset : Nat
  above32NewOffset : Nat
  deriving DecidableEq, Repr

/-- `assign_new_offset`, with the arithmetic of `u32`. -/
def GfsStringAllocatorReallocationInfo.assignNewOffset
    (info : GfsStringAllocatorReallocationInfo) (oldIn : Nat) : Except Stop Nat :=
  if info.length16OldOffset > oldIn then
    .ok oldIn
  else if info.length16OldOffset ≥ oldIn ∧ info.length32OldOffset > oldIn then do
    let inner ← checkedSub oldIn info.length16OldOffset
    checkedAdd32 info.length16NewOffset inner
  else if info.length32OldOffset ≥ oldIn ∧ info.above32OldOffset > oldIn then do
    let inner ← checkedSub oldIn info.length32OldOffset
    checkedAdd32 info.length32NewOffset inner
  else do
    let inner ← checkedSub oldIn info.above32OldOffset
    checkedAdd32 info.above32NewOffset inner

/-- The size of a slot. -/
def maximumLength : Fin 3 → Nat
  | 0 => 8
  | 1 => 16
  | 2 => 32

/-- The region for strings of this length: `match length`. -/
def smallClass (length : Nat) : Option (Fin 3) :=
  if 8 ≥ length then some 0 else if 16 ≥ length then some 1 else if 32 ≥ length then some 2
  else none

namespace GfsStringAllocator

/-- The offset at which a region starts. -/
def regionOffset (h : GfsStringAllocator) : Fin 4 → Nat
  | 0 => 0
  | 1 => (h.lengths 0).length
  | 2 => (h.lengths 0).length + (h.lengths 1).length
  | 3 => (h.lengths 0).length + (h.lengths 1).length + (h.lengths 2).length

def stringType (h : GfsStringAllocator) (stringOffset : Nat) : GfsStringType :=
  let base16 := asU32 (h.regionOffset 1)
  let base32 := asU32 (h.regionOffset 2)
  let baseAbove32 := asU32 (h.regionOffset 3)
  if base16 > stringOffset then .length8
  else if base32 > stringOffset ∧ stringOffset ≥ base16 then .length16
  else if baseAbove32 > stringOffset ∧ stringOffset ≥ base32 then .length32
  else .above32

/-- The region of a type of strings. -/
def regionIndex : GfsStringType → Fin 4
  | .length8 => 0
  | .length16 => 1
  | .length32 => 2
  | .above32 => 3

/-- The longest string that `as_string` reads. -/
def readLength : GfsStringType → Nat
  | .length8 => 8
  | .length16 => 16
  | .length32 => 32
  | .above32 => 255

def asString (h : GfsStringAllocator) (offset : Nat) : Except Stop Text := do
  let type := h.stringType offset
  let lengths := h.lengths (regionIndex type)
  let internalOffset ← checkedSub offset (asU32 (h.regionOffset (regionIndex type)))
  let base ← lengths.range internalOffset (internalOffset + readLength type)
  pure ((Stretch.read h.bytes base (readLength type)).takeWhile (· ≠ 0))

def compare (h : GfsStringAllocator) (offset : Nat) (compareTo : Text) : Except Stop Bool := do
  let text ← h.asString offset
  pure (decide (text = compareTo))

/-- The loops of `allocate` over a bitmap: the first byte that is not full and its
first clear bit. -/
def findFree (bitmap : ByteMap) : Option (Nat × Nat) :=
  (List.range bitmap.length).findSome? fun entryIndex =>
    if bitmap.entries entryIndex = 0xFF then none
    else ((List.range 8).find? fun b =>
      decide (bitmap.entries entryIndex &&& (1#8 <<< b) = 0)).map fun b => (entryIndex, b)

/-- The bitmap with bit `b` of a byte set. -/
def mark (bitmap : ByteMap) (entryIndex b : Nat) : ByteMap :=
  { bitmap with
    entries := Function.update bitmap.entries entryIndex
      (bitmap.entries entryIndex ||| (1#8 <<< b)) }

/-- `allocate` in a region with slots. -/
def allocateSlot (h : GfsStringAllocator) (c : Fin 3) (string : Text) :
    Except Stop (Option Nat × GfsStringAllocator) :=
  match findFree (h.bitmaps c) with
  | none => .ok (none, h)
  | some (entryIndex, b) => do
    let internalOffset := b * maximumLength c + entryIndex * (8 * maximumLength c)
    let dst ← (h.lengths c.castSucc).range internalOffset (internalOffset + maximumLength c)
    let bytes ← copyFromSlice h.bytes dst string.length string
    let bytes := Stretch.fill bytes (dst + string.length) (maximumLength c - string.length) 0
    let offset ← checkedAdd32 (asU32 (h.regionOffset c.castSucc)) (asU32 internalOffset)
    pure (some offset, { h with
      bytes, bitmaps := Function.update h.bitmaps c (mark (h.bitmaps c) entryIndex b) })

/-- `allocate` in the region of the longer strings. The slice has room for the byte
behind the string, but the string is copied over all of it. -/
def allocateAbove32 (h : GfsStringAllocator) (string : Text) :
    Except Stop (Option Nat × GfsStringAllocator) := do
  match ← h.allocator.allocateAsOffset (string.length + 1) with
  | (none, _) => pure (none, h)
  | (some offset, allocator) => do
    let dst ← (h.lengths 3).range offset (offset + string.length + 1)
    let bytes ← copyFromSlice h.bytes dst (string.length + 1) string
    let bytes := Function.update bytes (dst + string.length) 0
    let result ← checkedAdd32 offset (asU32 (h.regionOffset 3))
    pure (some result, { h with allocator, bytes })

def allocate (h : GfsStringAllocator) (string : Text) :
    Except Stop (Option Nat × GfsStringAllocator) :=
  match smallClass string.length with
  | some c => h.allocateSlot c string
  | none => h.allocateAbove32 string

/-- The shortest string that `rename` leaves in a region. -/
def minimumSize : Fin 3 → Nat
  | 0 => 1
  | 1 => 9
  | 2 => 17

/-- `bitmap[entry / 8] ^= 1 << (entry % 8)`. -/
def toggle (bitmap : ByteMap) (entry : Nat) : Except Stop ByteMap :=
  if entry / 8 < bitmap.length then
    .ok { bitmap with
      entries := Function.update bitmap.entries (entry / 8)
        (bitmap.entries (entry / 8) ^^^ (1#8 <<< (entry % 8))) }
  else .error .panic

/-- `rename` of a string in a slot. The bit of the slot is taken to be the eighth
part of its offset, whatever the size of the slots. -/
def renameSlot (h : GfsStringAllocator) (c : Fin 3) (offset oldLength : Nat) (newData : Text) :
    Except Stop (Option Nat × GfsStringAllocator) := do
  if offset % maximumLength c ≠ 0 then throw .panic
  let internalOffset ← checkedSub offset (h.regionOffset c.castSucc)
  if newData.length > maximumLength c ∨ minimumSize c > newData.length ∨ newData.length = 0 then do
    let bitmap ← toggle (h.bitmaps c) (internalOffset / 8)
    let h := { h with bitmaps := Function.update h.bitmaps c bitmap }
    if newData.length ≠ 0 then h.allocate newData else pure (some 0, h)
  else do
    let bytes ← (do
      if oldLength > newData.length then do
        let cleared ← (h.lengths c.castSucc).range (internalOffset + newData.length)
          (internalOffset + oldLength)
        pure (Stretch.fill h.bytes cleared (oldLength - newData.length) 0)
      else
        pure h.bytes)
    let dst ← (h.lengths c.castSucc).range internalOffset (internalOffset + newData.length)
    let bytes ← copyFromSlice bytes dst newData.length newData
    pure (some offset, { h with bytes })

/-- `rename` of a longer string. -/
def renameAbove32 (h : GfsStringAllocator) (offset oldLength : Nat) (newData : Text) :
    Except Stop (Option Nat × GfsStringAllocator) := do
  let internalOffset ← checkedSub offset (h.regionOffset 3)
  let (_, allocator) ← h.allocator.freeOffset (asU32 internalOffset) oldLength
  let h := { h with allocator }
  if 32 ≥ newData.length ∨ newData.length = 0 then
    if 32 ≥ newData.length then h.allocate newData else pure (some 0, h)
  else do
    match ← h.allocator.allocateAsOffset newData.length with
    | (none, _) => pure (none, h)
    | (some off, allocator) => do
      let dst ← (h.lengths 3).range off (off + newData.length)
      let bytes ← copyFromSlice h.bytes dst newData.length newData
      pure (some off, { h with allocator, bytes })

def rename (h : GfsStringAllocator) (offset oldLength : Nat) (newData : Text) :
    Except Stop (Option Nat × GfsStringAllocator) :=
  match h.stringType offset with
  | .length8 => h.renameSlot 0 offset oldLength newData
  | .length16 => h.renameSlot 1 offset oldLength newData
  | .length32 => h.renameSlot 2 offset oldLength newData
  | .above32 => h.renameAbove32 offset oldLength newData

/-- `free`: a rename to the empty string. -/
def free (h : GfsStringAllocator) (offset oldLength : Nat) : Except Stop GfsStringAllocator := do
  let (_, h) ← h.rename offset oldLength []
  pure h

/-- `new` over the window, whose bytes are what is mapped there. -/
def new (bytes : Nat → Byte) : PagerM GfsStringAllocator := do
  let length8Bitmap ← unwrapResult (allocZero 2)
  let length16Bitmap ← unwrapResult (allocZero 2)
  let length32Bitmap ← unwrapResult (allocZero 1)
  let memory : MemoryBlock := ⟨gfsStringsFixedVaddr + 32768 + 32768 + 16384 + 20480, 28672⟩
  let allocator ← liftTraced fun allocator => NodeAllocator.newFake allocator 1 memory
  pure {
    memory := fun
      | 0 => length8Bitmap
      | 1 => length16Bitmap
      | 2 => length32Bitmap
    lengths := fun
      | 0 => ⟨gfsStringsFixedVaddr, 32768⟩
      | 1 => ⟨gfsStringsFixedVaddr + 32768, 32768⟩
      | 2 => ⟨gfsStringsFixedVaddr + 32768 + 32768, 16384⟩
      | 3 => ⟨gfsStringsFixedVaddr + 32768 + 32768 + 16384 + 20480, 28672⟩
    bitmaps := fun
      | 0 => ⟨512, fun _ => 0⟩
      | 1 => ⟨256, fun _ => 0⟩
      | 2 => ⟨64, fun _ => 0⟩
    allocator := allocator
    bytes := bytes }

/-! ### `reallocate` -/

open Stretch

/-- `expand_virtual`: zeroed frames are mapped one after another. -/
def expandVirtual (pager : Pager) (bytes : Nat → Byte) (newPages expandBegin : Nat) :
    PagerM (Nat → Byte) := do
  let pages := newPages % 2 ^ 16
  let mb ← unwrapResult (allocZero pages)
  (List.range pages).forM fun i => do
    let _ ← unwrapResult (pager.page4Kb (expandBegin + i * 0x1000)
      (BitVec.ofNat 64 (mb.base + i * 0x1000)) (pagerPresent ||| pagerRw))
    pure ()
  pure (fill bytes expandBegin (pages * 0x1000) 0)

/-- The new bitmap has the length that its memory has room for. -/
def reallocateExpandBitmap (bitmapMemory : MemoryBlock) (bitmap : ByteMap)
    (newPages maximumLength growthFactor : Nat) : PagerM (MemoryBlock × ByteMap) := do
  let numTotalEntries := bitmap.length * 8
  let requiredEntries := newPages * 0x1000 / maximumLength
  if requiredEntries > numTotalEntries then do
    let numBytes := bitmap.length * growthFactor
    let numPages := numBytes / 0x1000 + if numBytes % 0x1000 ≠ 0 then 1 else 0
    let newBitmapMemory ← unwrapResult (allocZero numPages)
    let length := newBitmapMemory.length / maximumLength / 8
    -- `copy_from_slice`
    if bitmap.length = length then pure (newBitmapMemory, ⟨length, bitmap.entries⟩)
    else throw .panic
  else
    pure (bitmapMemory, bitmap)

def growthFactor : Fin 3 → Nat
  | 0 => 2
  | 1 => 4
  | 2 => 2

/-- The slices after one of them has grown: those behind it are rebased. -/
def moveRegions (lengths : Fin 4 → ByteSlice) (c : Fin 3) (newPages : Nat) : Fin 4 → ByteSlice :=
  fun i =>
    if i = c.castSucc then ⟨(lengths i).base, newPages * 0x1000⟩
    else if c.castSucc < i then ⟨(lengths i).base + newPages * 0x1000, (lengths i).length⟩
    else lengths i

/-- The loop that copies a region from its old place, from its last byte on. -/
def copyRegion (slice : ByteSlice) (oldOffset : Nat) (bytes : Nat → Byte) :
    Except Stop (Nat → Byte) := do
  let last ← checkedSub slice.length 1
  (List.range' last (1 - last)).foldlM (fun bytes j =>
    if j < slice.length then
      .ok (Function.update bytes (slice.base + j) (bytes (gfsStringsFixedVaddr + oldOffset + j)))
    else .error .panic) bytes

/-- The copying of the regions behind the one that has grown. -/
def copyRegions (lengths : Fin 4 → ByteSlice) (above32OldOffset length32OldOffset : Nat) (c : Fin 3)
    (bytes : Nat → Byte) : Except Stop (Nat → Byte) :=
  (List.range' 3 (c.val + 2 - 3)).foldlM (fun bytes i =>
    match i with
    | 3 => copyRegion (lengths 3) above32OldOffset bytes
    | 2 => copyRegion (lengths 2) length32OldOffset bytes
    | 1 => copyRegion (lengths 1) length32OldOffset bytes
    | 0 => copyRegion (lengths 0) 0 bytes
    | _ => .error .panic) bytes

/-- `change_base` of the node allocator. -/
def changeBase (a : NodeAllocator) (newBase : Nat) : NodeAllocator :=
  if a.fake then { a with dataMemory := ⟨newBase, a.dataMemory.length⟩ } else a

/-- The offsets of the regions before and after. -/
def reallocationInfo (old new : GfsStringAllocator) : GfsStringAllocatorReallocationInfo where
  length16OldOffset := asU32 (old.regionOffset 1)
  length32OldOffset := asU32 (old.regionOffset 2)
  above32OldOffset := asU32 (old.regionOffset 3)
  length16NewOffset := asU32 (new.regionOffset 1)
  length32NewOffset := asU32 (new.regionOffset 2)
  above32NewOffset := asU32 (new.regionOffset 3)

/-- `reallocate` of a region with slots. -/
def reallocateSlots (pager : Pager) (h : GfsStringAllocator) (c : Fin 3) :
    PagerM (GfsStringAllocatorReallocationInfo × GfsStringAllocator) := do
  let above32OldOffset := asU32 (h.regionOffset 3)
  let newPages := (h.lengths c.castSucc).length / 0x1000 * growthFactor c
  let bytes ← expandVirtual pager h.bytes newPages
    (gfsStringsFixedVaddr + above32OldOffset + (h.lengths 3).length)
  let (memory, bitmap) ← reallocateExpandBitmap (h.memory c) (h.bitmaps c) newPages
    (maximumLength c) (growthFactor c)
  let lengths := moveRegions h.lengths c newPages
  let bytes ← liftExcept
    (copyRegions lengths above32OldOffset (asU32 (h.regionOffset 2)) c bytes)
  let h' : GfsStringAllocator := {
    memory := Function.update h.memory c memory
    lengths := lengths
    bitmaps := Function.update h.bitmaps c bitmap
    allocator := changeBase h.allocator (lengths 3).base
    bytes := bytes }
  pure (reallocationInfo h h', h')

/-- What the window shows after its node allocator has grown: all new frames are
mapped to the page behind its end. -/
def windowGrown (a : NodeAllocator) (growth : Nat) (bytes : Nat → Byte) : Nat → Byte :=
  match a.grownPages growth with
  | .ok (_ + 1) =>
    if a.fake then fill bytes (a.dataMemory.base + a.dataMemory.length) 0x1000 0 else bytes
  | _ => bytes

/-- `reallocate`: the string tells which region grows. -/
def reallocate (pager : Pager) (h : GfsStringAllocator) (string : Text) :
    PagerM (GfsStringAllocatorReallocationInfo × GfsStringAllocator) :=
  match smallClass string.length with
  | some c => reallocateSlots pager h c
  | none => do
    let allocator ← NodeAllocator.reallocate pager h.allocator 2
    pure (reallocationInfo h h, { h with
      lengths := Function.update h.lengths 3 ⟨(h.lengths 3).base, (h.lengths 3).length * 2⟩
      allocator := allocator
      bytes := windowGrown h.allocator 2 h.bytes })

/-- The offsets for which `assign_new_offset` does not fall into a branch that
subtracts too much. -/
def Translated (h : GfsStringAllocator) (x : Nat) : Prop :=
  x ≤ h.regionOffset 1 ∨ x = h.regionOffset 2

instance (h : GfsStringAllocator) (x : Nat) : Decidable (h.Translated x) :=
  inferInstanceAs (Decidable (_ ∨ _))

end GfsStringAllocator

namespace StringHeap

/-- The region of a slot. -/
def slotClass : GfsStringType → Option (Fin 3)
  | .length8 => some 0
  | .length16 => some 1
  | .length32 => some 2
  | .above32 => none

end StringHeap

end EmkKernel
