import EmkKernel.Processes.MarkTable
import EmkKernel.Vfs.StringAllocator

/-!
# The directory hash map

`vfs::gfs::directory_hashmap`. All maps share two pools: a bucket is a slice of
entries with the number of them used, an entry is a link and the offset of its name
in the string allocator. Buckets and entries are read and written through their
address; a slice whose index is out of range panics. Of the string allocator the
maps use `new`, `as_string` and `allocate`.
-/

namespace EmkKernel

structure GfsLink where
  link : BitVec 64
  deriving DecidableEq, Repr

structure DirectoryHashmapEntry where
  link : GfsLink
  stringOffset : Nat
  deriving DecidableEq, Repr

/-- `size_of::<DirectoryHashmapEntry>()`. -/
def directoryHashmapEntrySize : Nat := 16

/-- `size_of::<DirectoryHashmapBucket>()`. -/
def directoryHashmapBucketSize : Nat := 24

/-- `&'static mut [T]`. -/
structure PoolSlice where
  base : Nat
  length : Nat
  deriving DecidableEq, Repr

/-- The address of an entry. -/
def PoolSlice.entry (slice : PoolSlice) (i : Nat) : Nat :=
  slice.base + directoryHashmapEntrySize * i

/-- The address of a bucket. -/
def PoolSlice.bucket (slice : PoolSlice) (i : Nat) : Nat :=
  slice.base + directoryHashmapBucketSize * i

abbrev EntryMemory := Nat → DirectoryHashmapEntry

structure DirectoryHashmapBucket where
  entries : PoolSlice
  used : Nat
  deriving DecidableEq, Repr

/-- What the maps use of the string allocator. -/
structure StringStore (σ : Type) where
  new : PagerM σ
  asString : σ → Nat → Except Stop Text
  allocate : σ → Text → Except Stop (Option Nat × σ)

/-- `entries[i]`. -/
def readEntry (memory : EntryMemory) (entries : PoolSlice) (i : Nat) :
    Except Stop DirectoryHashmapEntry :=
  if i < entries.length then .ok (memory (entries.entry i)) else .error .panic

namespace DirectoryHashmapBucket

def maximumEntries : Nat := 16

/-- `append`: the memory and the bucket after it. -/
def append (memory : EntryMemory) (bucket : DirectoryHashmapBucket) (stringOffset : Nat)
    (link : GfsLink) : Except Stop (EntryMemory × DirectoryHashmapBucket) :=
  if bucket.used < bucket.entries.length ∧ bucket.used + 1 < 2 ^ 8 then
    .ok (Function.update memory (bucket.entries.entry bucket.used) ⟨link, stringOffset⟩,
      { bucket with used := bucket.used + 1 })
  else .error .panic

/-- The loop of `contains` over the used entries from `i` on. -/
def containsLoop {σ : Type} (store : StringStore σ) (strings : σ) (memory : EntryMemory)
    (entries : PoolSlice) (compareTo : Text) (i : Nat) : Nat → Except Stop Bool
  | 0 => .ok false
  | n + 1 => do
    let entry ← readEntry memory entries i
    let name ← store.asString strings entry.stringOffset
    if name = compareTo then pure true
    else containsLoop store strings memory entries compareTo (i + 1) n

/-- `is_full`: the length is cast to `u8`. -/
def isFull (bucket : DirectoryHashmapBucket) : Bool := bucket.used = bucket.entries.length % 2 ^ 8

def canGrow (bucket : DirectoryHashmapBucket) : Bool := bucket.entries.length ≠ maximumEntries

/-- `copy_contents_to`. -/
def copyContentsTo (memory : EntryMemory) (bucket : DirectoryHashmapBucket) (entries : PoolSlice)
    (offset : Nat) : Except Stop EntryMemory :=
  if offset + bucket.entries.length ≤ entries.length then
    .ok fun address =>
      if entries.entry offset ≤ address ∧
          address < entries.entry (offset + bucket.entries.length) then
        memory (bucket.entries.base + (address - entries.entry offset))
      else memory address
  else .error .panic

/-- `free_contents`: what `free_offset` returns is not looked at. -/
def freeContents (bucket : DirectoryHashmapBucket) (allocator : NodeAllocator) :
    Except Stop NodeAllocator := do
  let distance ← checkedSub bucket.entries.base allocator.dataMemory.base
  let (_, allocator) ← allocator.freeOffset
    (asU32 (distance / directoryHashmapEntrySize)) (asU32 bucket.entries.length)
  pure allocator

def assign (bucket : DirectoryHashmapBucket) (allocator : NodeAllocator) (offset length : Nat) :
    DirectoryHashmapBucket :=
  { bucket with
    entries := ⟨allocator.dataMemory.base + offset * directoryHashmapEntrySize, length⟩ }

/-- What `grow` leaves: its answer, the memory, the bucket and the pool. -/
structure Growth where
  grown : Bool
  memory : EntryMemory
  bucket : DirectoryHashmapBucket
  entryAllocator : NodeAllocator

def grow (memory : EntryMemory) (bucket : DirectoryHashmapBucket) (entryAllocator : NodeAllocator)
    (generalEntries : PoolSlice) (growthRate : Nat) : Except Stop Growth := do
  let newSize := bucket.entries.length * growthRate
  match ← entryAllocator.allocateAsOffset (asU32 newSize) with
  | (some newOffset, entryAllocator) => do
    let memory ← bucket.copyContentsTo memory generalEntries newOffset
    let entryAllocator ← bucket.freeContents entryAllocator
    pure ⟨true, memory, bucket.assign entryAllocator newOffset newSize, entryAllocator⟩
  | (none, entryAllocator) => pure ⟨false, memory, bucket, entryAllocator⟩

end DirectoryHashmapBucket

/-- `bucketMemory` and `entryMemory` are what lies at each address. -/
structure GfsDirectoryHashmapManager (σ : Type) where
  buckets : PoolSlice
  entries : PoolSlice
  bucketMemory : Nat → DirectoryHashmapBucket
  entryMemory : EntryMemory
  bucketAllocator : NodeAllocator
  entryAllocator : NodeAllocator
  allocatedBuckets : Nat
  allocatedEntries : Nat
  stringAllocator : σ

structure GfsDirectoryHashmap where
  bucketOffset : Nat
  numBuckets : Nat
  numEntriesUsed : Nat
  deriving DecidableEq, Repr

inductive GfsDirectoryHashmapInsertion where
  | allreadyPresent
  | entryReallocationRequired
  | stringReallocationRequired
  | bucketReallocationRequired
  | success (rehashed : Bool)
  deriving DecidableEq, Repr

/-- `as_mut_slice` of a pool. -/
def NodeAllocator.asMutSlice (a : NodeAllocator) : PoolSlice :=
  ⟨a.dataMemory.base, a.dataMemory.length / a.elementSize⟩

namespace GfsDirectoryHashmapManager

variable {σ : Type}

def initBucketCount : Nat := 640

def initEntryCount : Nat := initBucketCount * 4

/-- `new`, with both pools filled with zeros. -/
def new (store : StringStore σ) : PagerM (GfsDirectoryHashmapManager σ) := do
  let bucketAllocator ← liftTraced fun allocator =>
    NodeAllocator.new allocator directoryHashmapBucketSize initBucketCount
  let entryAllocator ← liftTraced fun allocator =>
    NodeAllocator.new allocator directoryHashmapEntrySize initEntryCount
  let stringAllocator ← store.new
  pure {
    buckets := ⟨bucketAllocator.dataMemory.base, initBucketCount⟩
    entries := ⟨entryAllocator.dataMemory.base, initEntryCount⟩
    bucketMemory := fun _ => ⟨⟨0, 0⟩, 0⟩
    entryMemory := fun _ => ⟨⟨0⟩, 0⟩
    bucketAllocator := bucketAllocator
    entryAllocator := entryAllocator
    allocatedBuckets := 0
    allocatedEntries := 0
    stringAllocator := stringAllocator }

/-- `self.buckets[index]`. -/
def bucket (manager : GfsDirectoryHashmapManager σ) (index : Nat) :
    Except Stop DirectoryHashmapBucket :=
  if index < manager.buckets.length then .ok (manager.bucketMemory (manager.buckets.bucket index))
  else .error .panic

/-- A bucket written back to its place. -/
def setBucket (manager : GfsDirectoryHashmapManager σ) (index : Nat)
    (bucket : DirectoryHashmapBucket) : GfsDirectoryHashmapManager σ :=
  { manager with
    bucketMemory := Function.update manager.bucketMemory (manager.buckets.bucket index) bucket }

/-- What a pool shows at its new place: the words of the old one, then zeros. -/
def movePool {α : Type} (memory : Nat → α) (zero : α) (old new : MemoryBlock) : Nat → α :=
  fun address =>
    if new.base ≤ address ∧ address < new.base + old.length / 8 * 8 then
      memory (old.base + (address - new.base))
    else if new.base ≤ address ∧ address < new.base + new.length then zero
    else memory address

/-- The first check of `allocate_hashmap`. -/
def reserveBuckets (pager : Pager) (manager : GfsDirectoryHashmapManager σ) (numEntries : Nat) :
    PagerM (GfsDirectoryHashmapManager σ) := do
  let needed ← liftExcept (checkedAdd32 manager.allocatedBuckets numEntries)
  if needed > asU32 manager.buckets.length then do
    let old := manager.bucketAllocator.dataMemory
    let bucketAllocator ← manager.bucketAllocator.reallocate pager 2
    pure { manager with
      bucketAllocator := bucketAllocator
      bucketMemory := movePool manager.bucketMemory ⟨⟨0, 0⟩, 0⟩ old bucketAllocator.dataMemory
      buckets := bucketAllocator.asMutSlice }
  else
    pure manager

/-- The loop that rebases the entries of every bucket of the slice. -/
def rebaseBuckets (manager : GfsDirectoryHashmapManager σ) (prevBase base i : Nat) :
    Nat → Except Stop (GfsDirectoryHashmapManager σ)
  | 0 => .ok manager
  | n + 1 => do
    let bucket ← manager.bucket i
    let distance ← checkedSub bucket.entries.base prevBase
    (manager.setBucket i
      { bucket with entries := ⟨base + distance, bucket.entries.length⟩ }).rebaseBuckets
        prevBase base (i + 1) n

/-- The second check of `allocate_hashmap`. -/
def reserveEntries (pager : Pager) (manager : GfsDirectoryHashmapManager σ) (numEntries : Nat) :
    PagerM (GfsDirectoryHashmapManager σ) := do
  let entries ← liftExcept (checkedMul32 numEntries 4)
  let needed ← liftExcept (checkedAdd32 manager.allocatedEntries entries)
  if needed > asU32 manager.entries.length then do
    let old := manager.entryAllocator.dataMemory
    let entryAllocator ← manager.entryAllocator.reallocate pager 4
    liftExcept (rebaseBuckets { manager with
      entryAllocator := entryAllocator
      entryMemory := movePool manager.entryMemory ⟨⟨0⟩, 0⟩ old entryAllocator.dataMemory }
      old.base entryAllocator.dataMemory.base 0 manager.buckets.length)
  else
    pure manager

/-- The loop of `allocate_hashmap` that gives every bucket four entries. -/
def allotBuckets (manager : GfsDirectoryHashmapManager σ) (bucketOffset entriesOffset i : Nat) :
    Nat → Except Stop (GfsDirectoryHashmapManager σ)
  | 0 => .ok manager
  | n + 1 => do
    let buckets := manager.bucketAllocator.asMutSlice
    let entries := manager.entryAllocator.asMutSlice
    if bucketOffset + i < buckets.length ∧ entriesOffset + (i + 1) * 4 ≤ entries.length then
      allotBuckets { manager with
        bucketMemory := Function.update manager.bucketMemory (buckets.bucket (bucketOffset + i))
          ⟨⟨entries.entry (entriesOffset + i * 4), 4⟩, 0⟩ }
        bucketOffset entriesOffset (i + 1) n
    else
      throw .panic

/-- The part of `allocate_hashmap` behind the checks. -/
def allotHashmap (manager : GfsDirectoryHashmapManager σ) (numEntries : Nat) :
    Except Stop (GfsDirectoryHashmap × GfsDirectoryHashmapManager σ) := do
  match ← manager.bucketAllocator.allocateAsOffset numEntries with
  | (none, _) => throw .panic
  | (some bucketOffset, bucketAllocator) => do
    let entries ← checkedMul32 numEntries 4
    match ← manager.entryAllocator.allocateAsOffset entries with
    | (none, _) => throw .panic
    | (some entriesOffset, entryAllocator) => do
      let manager ← allotBuckets { manager with bucketAllocator, entryAllocator }
        bucketOffset entriesOffset 0 numEntries
      pure (⟨bucketOffset, numEntries, entries⟩, manager)

def allocateHashmap (pager : Pager) (manager : GfsDirectoryHashmapManager σ) (numEntries : Nat) :
    PagerM (GfsDirectoryHashmap × GfsDirectoryHashmapManager σ) := do
  let manager ← manager.reserveBuckets pager numEntries
  let manager ← manager.reserveEntries pager numEntries
  liftExcept (manager.allotHashmap numEntries)

end GfsDirectoryHashmapManager

namespace GfsDirectoryHashmap

variable {σ : Type}

open GfsDirectoryHashmapInsertion

/-- The hash of a name below the number of buckets, which is not zero. -/
def hashOf (numBuckets : Nat) (name : Text) : Nat :=
  name.foldl (fun hash b => (hash + b.toNat * 577) % 2 ^ 64 * 11 % 2 ^ 64 % numBuckets) 0

/-- `hash_str`, which takes the number of buckets from the map and not from its
argument. -/
def hashStr (map : GfsDirectoryHashmap) (name : Text) : Except Stop Nat :=
  if map.numBuckets = 0 then .error .panic else .ok (hashOf map.numBuckets name)

/-- Put an entry into a bucket, which grows if it is full: the body of the loop of
`rehash_bucket`. -/
def moveEntry (manager : GfsDirectoryHashmapManager σ) (address : Nat)
    (entry : DirectoryHashmapEntry) : Except Stop (Bool × GfsDirectoryHashmapManager σ) := do
  let dst := manager.bucketMemory address
  let growth ← (do
    if dst.isFull then
      if dst.canGrow then dst.grow manager.entryMemory manager.entryAllocator manager.entries 2
      else throw .panic
    else
      pure ⟨true, manager.entryMemory, dst, manager.entryAllocator⟩)
  if growth.grown then do
    let (memory, bucket) ← growth.bucket.append growth.memory entry.stringOffset entry.link
    pure (true, { manager with
      entryMemory := memory
      entryAllocator := growth.entryAllocator
      bucketMemory := Function.update manager.bucketMemory address bucket })
  else
    pure (false, { manager with entryAllocator := growth.entryAllocator })

/-- `rehash_bucket`, over all entries of the slice from `i` on, used or not. -/
def rehashBucket (store : StringStore σ) (map : GfsDirectoryHashmap)
    (manager : GfsDirectoryHashmapManager σ) (oldBucket : DirectoryHashmapBucket)
    (newBucketOffset i : Nat) : Nat → Except Stop (Bool × GfsDirectoryHashmapManager σ)
  | 0 => .ok (true, manager)
  | n + 1 => do
    let entry ← readEntry manager.entryMemory oldBucket.entries i
    let name ← store.asString manager.stringAllocator entry.stringOffset
    let _ ← checkedMul32 map.numBuckets 2
    let newBucketIndex ← map.hashStr name
    if newBucketIndex < map.numBuckets * 2 then do
      match ← moveEntry manager (manager.buckets.bucket (newBucketOffset + newBucketIndex))
        entry with
      | (false, manager) => pure (false, manager)
      | (true, manager) => rehashBucket store map manager oldBucket newBucketOffset (i + 1) n
    else
      throw .panic

/-- The old buckets of `rehash_core` from `i` on. -/
def rehashBuckets (store : StringStore σ) (map : GfsDirectoryHashmap)
    (manager : GfsDirectoryHashmapManager σ) (newBucketOffset i : Nat) :
    Nat → Except Stop (Bool × GfsDirectoryHashmapManager σ)
  | 0 => .ok (true, manager)
  | n + 1 => do
    let oldBucket := manager.bucketMemory (manager.buckets.bucket (map.bucketOffset + i))
    match ← map.rehashBucket store manager oldBucket newBucketOffset 0 oldBucket.entries.length with
    | (false, manager) => pure (false, manager)
    | (true, manager) => rehashBuckets store map manager newBucketOffset (i + 1) n

/-- The loop that gives every new bucket four entries. -/
def assignBuckets (manager : GfsDirectoryHashmapManager σ) (newBucketOffset entryOffset i : Nat) :
    Nat → Except Stop (GfsDirectoryHashmapManager σ)
  | 0 => .ok manager
  | n + 1 => do
    let offset ← checkedAdd32 entryOffset (i * 4)
    let address := manager.buckets.bucket (newBucketOffset + i)
    let bucket : DirectoryHashmapBucket := { manager.bucketMemory address with used := 0 }
    assignBuckets { manager with
      bucketMemory := Function.update manager.bucketMemory address
        (bucket.assign manager.entryAllocator offset 4) }
      newBucketOffset entryOffset (i + 1) n

/-- The loops that free the contents of buckets from `i` on. -/
def freeBuckets (manager : GfsDirectoryHashmapManager σ) (bucketOffset i : Nat) :
    Nat → Except Stop (GfsDirectoryHashmapManager σ)
  | 0 => .ok manager
  | n + 1 => do
    let bucket := manager.bucketMemory (manager.buckets.bucket (bucketOffset + i))
    let entryAllocator ← bucket.freeContents manager.entryAllocator
    freeBuckets { manager with entryAllocator } bucketOffset (i + 1) n

/-- `free_contents` of the buckets and `free_offset` of their range. -/
def dropBuckets (manager : GfsDirectoryHashmapManager σ) (bucketOffset count : Nat) :
    Except Stop (GfsDirectoryHashmapManager σ) := do
  let manager ← freeBuckets manager bucketOffset 0 count
  let (_, bucketAllocator) ← manager.bucketAllocator.freeOffset bucketOffset (asU32 count)
  pure { manager with bucketAllocator }

/-- What an operation that changes the map and the manager leaves. -/
abbrev Outcome (σ : Type) :=
  GfsDirectoryHashmapInsertion × GfsDirectoryHashmap × GfsDirectoryHashmapManager σ

def rehashCore (store : StringStore σ) (map : GfsDirectoryHashmap)
    (manager : GfsDirectoryHashmapManager σ) (newBucketOffset entryOffset : Nat) :
    Except Stop (Outcome σ) := do
  let count := map.numBuckets * 2
  let manager ← assignBuckets manager newBucketOffset entryOffset 0 count
  let last ← checkedAdd32 map.bucketOffset map.numBuckets
  if last ≤ manager.buckets.length then do
    match ← map.rehashBuckets store manager newBucketOffset 0 map.numBuckets with
    | (false, manager) => do
      let manager ← dropBuckets manager newBucketOffset count
      pure (entryReallocationRequired, map, manager)
    | (true, manager) => do
      let manager ← dropBuckets manager map.bucketOffset map.numBuckets
      let numBuckets ← checkedMul32 map.numBuckets 2
      pure (success true, { map with bucketOffset := newBucketOffset, numBuckets }, manager)
  else
    throw .panic

def rehash (store : StringStore σ) (map : GfsDirectoryHashmap)
    (manager : GfsDirectoryHashmapManager σ) : Except Stop (Outcome σ) := do
  let numBuckets ← checkedMul32 map.numBuckets 2
  let (bucketAllocation, bucketAllocator) ← manager.bucketAllocator.allocateAsOffset numBuckets
  let numEntries ← checkedMul32 map.numEntriesUsed 2
  let (entryAllocation, entryAllocator) ← manager.entryAllocator.allocateAsOffset numEntries
  let manager := { manager with bucketAllocator, entryAllocator }
  match bucketAllocation, entryAllocation with
  | none, none => pure (bucketReallocationRequired, map, manager)
  | none, some offset => do
    let (_, entryAllocator) ← manager.entryAllocator.freeOffset offset numEntries
    pure (bucketReallocationRequired, map, { manager with entryAllocator })
  | some bucketOffset, none => do
    let (_, bucketAllocator) ← manager.bucketAllocator.freeOffset bucketOffset numBuckets
    pure (entryReallocationRequired, map, { manager with bucketAllocator })
  | some bucketOffset, some entryOffset =>
    rehashCore store { map with numEntriesUsed := numEntries } manager bucketOffset entryOffset

/-- The end of `insert`: the name is looked for and stored behind the others. -/
def insertInto (store : StringStore σ) (map : GfsDirectoryHashmap)
    (manager : GfsDirectoryHashmapManager σ) (name : Text) (link : GfsLink) (bucketIndex : Nat)
    (rehashed : Bool) : Except Stop (Outcome σ) := do
  let index ← checkedAdd32 map.bucketOffset bucketIndex
  let bucket ← manager.bucket index
  if ← DirectoryHashmapBucket.containsLoop store manager.stringAllocator manager.entryMemory
      bucket.entries name 0 bucket.used then
    pure (allreadyPresent, map, manager)
  else do
    match ← store.allocate manager.stringAllocator name with
    | (some stringOffset, stringAllocator) => do
      let (entryMemory, bucket) ← bucket.append manager.entryMemory stringOffset link
      pure (success rehashed, map,
        { manager with entryMemory, stringAllocator }.setBucket index bucket)
    | (none, stringAllocator) =>
      pure (stringReallocationRequired, map, { manager with stringAllocator })

/-- The growth of the bucket in `insert`, and what comes after it. -/
def insertGrown (store : StringStore σ) (map : GfsDirectoryHashmap)
    (manager : GfsDirectoryHashmapManager σ) (name : Text) (link : GfsLink)
    (bucketIndex length : Nat) (rehashed : Bool) : Except Stop (Outcome σ) := do
  let index ← checkedAdd32 map.bucketOffset bucketIndex
  let bucket ← manager.bucket index
  let growth ← bucket.grow manager.entryMemory manager.entryAllocator manager.entries 2
  if growth.grown then do
    let numEntriesUsed ← checkedAdd32 map.numEntriesUsed (asU32 length)
    insertInto store { map with numEntriesUsed }
      ({ manager with
        entryMemory := growth.memory
        entryAllocator := growth.entryAllocator }.setBucket index growth.bucket)
      name link bucketIndex rehashed
  else
    pure (entryReallocationRequired, map,
      { manager with entryAllocator := growth.entryAllocator })

def insert (store : StringStore σ) (map : GfsDirectoryHashmap)
    (manager : GfsDirectoryHashmapManager σ) (name : Text) (link : GfsLink) :
    Except Stop (Outcome σ) := do
  let bucketIndex ← map.hashStr name
  let index ← checkedAdd32 map.bucketOffset bucketIndex
  let bucket ← manager.bucket index
  let length := bucket.entries.length
  if bucket.isFull then
    if bucket.canGrow then
      insertGrown store map manager name link bucketIndex length false
    else do
      match ← map.rehash store manager with
      | (success _, map, manager) => do
        let bucketIndex ← map.hashStr name
        insertGrown store map manager name link bucketIndex length true
      | (allreadyPresent, map, manager) => do
        let bucketIndex ← map.hashStr name
        insertGrown store map manager name link bucketIndex length true
      | (refused, map, manager) =>
        pure (refused, { map with numEntriesUsed := map.numEntriesUsed / 2 }, manager)
  else
    insertInto store map manager name link bucketIndex false

/-- The loop of `lookup` over the used entries from `i` on. -/
def lookupLoop (store : StringStore σ) (strings : σ) (memory : EntryMemory) (entries : PoolSlice)
    (name : Text) (i : Nat) : Nat → Except Stop (Option GfsLink)
  | 0 => .ok none
  | n + 1 => do
    let entry ← readEntry memory entries i
    let text ← store.asString strings entry.stringOffset
    if text = name then pure (some entry.link)
    else lookupLoop store strings memory entries name (i + 1) n

def lookup (store : StringStore σ) (map : GfsDirectoryHashmap)
    (manager : GfsDirectoryHashmapManager σ) (name : Text) : Except Stop (Option GfsLink) := do
  let bucketIndex ← map.hashStr name
  let bucket ← manager.bucket (map.bucketOffset + bucketIndex)
  lookupLoop store manager.stringAllocator manager.entryMemory bucket.entries name 0 bucket.used

end GfsDirectoryHashmap

end EmkKernel
