import EmkKernel.Utils.Reallocate

/-!
# The mark table

`processes::mark_table`. A pair is a key and its count, a bucket is a slice of
pairs with the number of pairs used. Pairs are read and written through their
address, buckets through their index; a slice whose index is out of range panics.
-/

namespace EmkKernel

abbrev Key := BitVec 32

/-- `&'static mut [(u32, u32)]`. -/
structure PairSlice where
  base : Nat
  length : Nat
  deriving DecidableEq, Repr

/-- The address of a pair. -/
def PairSlice.address (pairs : PairSlice) (i : Nat) : Nat := pairs.base + 8 * i

structure MarkTableBucket where
  pairs : PairSlice
  used : Nat
  deriving DecidableEq, Repr

namespace MarkTableBucket

def maximumReferences : Nat := 8

def isFull (bucket : MarkTableBucket) : Bool := bucket.used = bucket.pairs.length

def canGrow (bucket : MarkTableBucket) : Bool := bucket.pairs.length ≠ maximumReferences

end MarkTableBucket

/-- `size_of::<MarkTableBucket>()`. -/
def markTableBucketSize : Nat := 24

def processesMarkTablePairFixedVaddr : Nat := 0xFFFF800041000000
def processesMarkTableBucketsFixedVaddr : Nat := 0xFFFF800041600000

inductive MarkTableResult where
  | success
  | valueKeyReallocationRequired
  | rehashRequired
  | notFound
  deriving DecidableEq, Repr

/-- `memory` is the pair at each address. -/
structure MarkTable where
  pairs : PairSlice
  buckets : Nat → MarkTableBucket
  numBuckets : Nat
  pairAllocator : NodeAllocator
  numPairs : Nat
  memory : Nat → Key × Nat

/-- Checked multiplication in `u32`. -/
def checkedMul32 (x y : Nat) : Except Stop Nat :=
  if x * y < 2 ^ 32 then .ok (x * y) else .error .panic

namespace MarkTable

/-- `MarkTable::hash`: the last step keeps the bits of `size`. -/
def hash (fi : Key) (size : BitVec 32) : BitVec 32 :=
  let key := fi.setWidth 64
  let key := ~~~key + (key <<< 15)
  let key := key ^^^ (key >>> 10)
  let key := key + (key <<< 3)
  let key := key ^^^ (key >>> 6)
  let key := ~~~key + (key <<< 11)
  let key := key ^^^ (key >>> 16)
  (key &&& size.setWidth 64).setWidth 32

/-- `MarkTable::hash(fi, self.buckets.len() as u32)`. -/
def bucketIndex (t : MarkTable) (fi : Key) : Nat := (hash fi (BitVec.ofNat 32 t.numBuckets)).toNat

/-- `self.buckets[index]`. -/
def bucket (t : MarkTable) (index : Nat) : Except Stop MarkTableBucket :=
  if index < t.numBuckets then .ok (t.buckets index) else .error .panic

/-- `pairs[i]`. -/
def pair (memory : Nat → Key × Nat) (pairs : PairSlice) (i : Nat) : Except Stop (Key × Nat) :=
  if i < pairs.length then .ok (memory (pairs.address i)) else .error .panic

/-- The loop of `MarkTableBucket::contains` over the used pairs from `i` on. -/
def containsLoop (memory : Nat → Key × Nat) (pairs : PairSlice) (key : Key) (i : Nat) :
    Nat → Except Stop Bool
  | 0 => .ok false
  | n + 1 => do
    let entry ← pair memory pairs i
    if entry.1 = key then pure true else containsLoop memory pairs key (i + 1) n

def contains (t : MarkTable) (fi : Key) : Except Stop Bool := do
  let bucket ← t.bucket (t.bucketIndex fi)
  containsLoop t.memory bucket.pairs fi 0 bucket.used

/-- `append_pair`: the memory and the bucket after it. -/
def appendPair (memory : Nat → Key × Nat) (bucket : MarkTableBucket) (reference : Key × Nat) :
    Except Stop ((Nat → Key × Nat) × MarkTableBucket) :=
  if bucket.used < bucket.pairs.length then
    .ok (Function.update memory (bucket.pairs.address bucket.used) reference,
      { bucket with used := bucket.used + 1 })
  else .error .panic

/-- `dst[..].copy_from_slice(src)` for a destination with the length of `src`. -/
def copyPairs (memory : Nat → Key × Nat) (dst src : PairSlice) : Nat → Key × Nat := fun address =>
  if dst.base ≤ address ∧ address < dst.base + 8 * src.length then
    memory (src.base + (address - dst.base))
  else memory address

/-- The loop of `new` that gives every bucket two pairs. -/
def allotBuckets (pairAllocator : NodeAllocator) (pairs : PairSlice)
    (buckets : Nat → MarkTableBucket) (i : Nat) :
    Nat → Except Stop (NodeAllocator × (Nat → MarkTableBucket))
  | 0 => .ok (pairAllocator, buckets)
  | n + 1 => do
    match ← pairAllocator.allocateAsOffset 2 with
    | (none, _) => throw .panic
    | (some offset, pairAllocator) =>
      allotBuckets pairAllocator pairs
        (Function.update buckets i ⟨⟨pairs.address offset, 2⟩, 0⟩) (i + 1) n

/-- The memory of `new`: both windows are mapped by the pager of the processor. -/
def mapWindows (pager : Pager) : PagerM MemoryBlock := do
  let valueKeyMemory ← unwrapResult (allocZero (4096 * 8 / 0x1000))
  let bucketMemory ← unwrapResult (allocZero (1024 * markTableBucketSize / 0x1000))
  unwrapResult (pager.map valueKeyMemory processesMarkTablePairFixedVaddr
    (pagerRw ||| pagerPresent))
  unwrapResult (pager.map bucketMemory processesMarkTableBucketsFixedVaddr
    (pagerRw ||| pagerPresent))
  pure valueKeyMemory

/-- `MarkTable::new`. Both windows show pages filled with zeros. -/
def new (pager : Pager) : PagerM MarkTable := do
  let valueKeyMemory ← mapWindows pager
  let pairAllocator ← liftTraced fun allocator =>
    NodeAllocator.newFake allocator 8 ⟨processesMarkTablePairFixedVaddr, valueKeyMemory.length⟩
  let pairs : PairSlice := ⟨processesMarkTablePairFixedVaddr, 1024⟩
  let (pairAllocator, buckets) ← liftExcept
    (allotBuckets pairAllocator pairs (fun _ => ⟨⟨0, 0⟩, 0⟩) 0 1024)
  pure {
    pairs := pairs
    buckets := buckets
    numBuckets := 1024
    pairAllocator := pairAllocator
    numPairs := 1024
    memory := fun _ => (0, 0) }

/-- The growth of a full bucket in `insert`. -/
def growBucket (t : MarkTable) (index : Nat) : Except Stop (Option MarkTable) := do
  let bucket := t.buckets index
  let prevSize := bucket.pairs.length
  match ← t.pairAllocator.allocateAsOffset (prevSize * 2) with
  | (none, _) => pure none
  | (some offset, pairAllocator) => do
    let newEntries : PairSlice := ⟨t.pairs.address offset, prevSize * 2⟩
    let distance ← checkedSub bucket.pairs.base t.pairs.base
    let (freed, pairAllocator) ← pairAllocator.freeOffset (distance / 8 % 2 ^ 32) prevSize
    if freed then do
      let numPairs ← checkedAdd32 t.numPairs prevSize
      pure (some { t with
        memory := copyPairs t.memory newEntries bucket.pairs
        pairAllocator := pairAllocator
        numPairs := numPairs
        buckets := Function.update t.buckets index { bucket with pairs := newEntries } })
    else
      throw .panic

/-- The end of `insert`: the pair is appended with a count of one. -/
def append (t : MarkTable) (index : Nat) (fi : Key) :
    Except Stop (MarkTableResult × MarkTable) := do
  let (memory, bucket) ← appendPair t.memory (t.buckets index) (fi, 1)
  pure (.success, { t with memory, buckets := Function.update t.buckets index bucket })

def insert (t : MarkTable) (fi : Key) : Except Stop (MarkTableResult × MarkTable) := do
  let index := t.bucketIndex fi
  let bucket ← t.bucket index
  if bucket.isFull then
    if bucket.canGrow then do
      match ← t.growBucket index with
      | none => pure (.valueKeyReallocationRequired, t)
      | some t => t.append index fi
    else
      pure (.rehashRequired, t)
  else
    t.append index fi

/-- The loop of `increase`: `foreach_mut` hands out copies of the pairs, so the
count that is raised is dropped. -/
def increaseLoop (memory : Nat → Key × Nat) (pairs : PairSlice) (fi : Key) (ret : MarkTableResult)
    (i : Nat) : Nat → Except Stop MarkTableResult
  | 0 => .ok ret
  | n + 1 => do
    let (key, count) ← pair memory pairs i
    if key = fi then do
      let _count ← checkedAdd32 count 1
      increaseLoop memory pairs fi .success (i + 1) n
    else
      increaseLoop memory pairs fi ret (i + 1) n

def increase (t : MarkTable) (fi : Key) : Except Stop (MarkTableResult × MarkTable) := do
  let bucket ← t.bucket (t.bucketIndex fi)
  let ret ← increaseLoop t.memory bucket.pairs fi .notFound 0 bucket.used
  pure (ret, t)

/-! ### `rehash` -/

/-- What the loop of `rehash` changes. -/
structure Rehash where
  pairAllocator : NodeAllocator
  newBuckets : Nat → MarkTableBucket
  numPairs : Nat
  memory : Nat → Key × Nat

/-- A full bucket of the new table gets twice the pairs. -/
def Rehash.grow (r : Rehash) (newIndex : Nat) : Except Stop Rehash := do
  let dst := r.newBuckets newIndex
  if dst.canGrow then do
    let newSize := if dst.pairs.length = 0 then 2 else dst.pairs.length * 2
    let numPairs ← checkedAdd32 r.numPairs
      (if dst.pairs.length = 0 then 2 else dst.pairs.length)
    match ← r.pairAllocator.allocateAsOffset newSize with
    | (none, _) => throw .panic
    | (some pairOffset, pairAllocator) => do
      let base := pairAllocator.dataMemory.base
      let pairs : PairSlice := ⟨base + 8 * pairOffset, newSize⟩
      let pairAllocator ← (do
        if dst.pairs.length = 0 then
          pure pairAllocator
        else do
          let distance ← checkedSub dst.pairs.base base
          let (freed, pairAllocator) ←
            pairAllocator.freeOffset (distance / 8 % 2 ^ 32) dst.pairs.length
          if freed then pure pairAllocator else throw .panic)
      pure {
        pairAllocator := pairAllocator
        newBuckets := Function.update r.newBuckets newIndex { dst with pairs }
        numPairs := numPairs
        memory := copyPairs r.memory pairs dst.pairs }
  else
    throw .panic

/-- The closure of `rehash`: a pair moves to its bucket in the new table. -/
def Rehash.move (r : Rehash) (numBuckets : Nat) (entry : Key × Nat) : Except Stop Rehash := do
  let newIndex := (hash entry.1 (BitVec.ofNat 32 (numBuckets * 2))).toNat
  if newIndex < numBuckets * 2 then do
    let r ← if (r.newBuckets newIndex).isFull then r.grow newIndex else pure r
    let (memory, bucket) ← appendPair r.memory (r.newBuckets newIndex) entry
    pure { r with memory, newBuckets := Function.update r.newBuckets newIndex bucket }
  else
    throw .panic

/-- The pairs of one bucket from `i` on. -/
def Rehash.bucketLoop (r : Rehash) (numBuckets : Nat) (pairs : PairSlice) (i : Nat) :
    Nat → Except Stop Rehash
  | 0 => .ok r
  | n + 1 => do
    let entry ← pair r.memory pairs i
    let r ← r.move numBuckets entry
    r.bucketLoop numBuckets pairs (i + 1) n

/-- The buckets from `i` on. -/
def Rehash.tableLoop (r : Rehash) (t : MarkTable) (i : Nat) : Nat → Except Stop Rehash
  | 0 => .ok r
  | n + 1 => do
    let bucket := t.buckets i
    let r ← r.bucketLoop t.numBuckets bucket.pairs 0 bucket.used
    r.tableLoop t (i + 1) n

/-- The pairs taken from the old allocator, after a reallocation if need be. -/
def reservePairs (pager : Pager) (t : MarkTable) : PagerM (Nat × NodeAllocator) := do
  let size ← liftExcept (checkedMul32 t.numBuckets 2)
  match ← liftExcept (t.pairAllocator.allocateAsOffset size) with
  | (some offset, a) => pure (offset, a)
  | (none, a) => do
    let a ← a.reallocate pager 2
    match ← liftExcept (a.allocateAsOffset size) with
    | (some offset, a) => pure (offset, a)
    | (none, _) => throw .panic

/-- `map(..).unwrap()`: `map` returns the error, so its success is what panics. -/
def unwrapError (x : PagerM Unit) : PagerM Unit := fun m =>
  match x m with
  | .ok _ m => .error .panic m
  | .error (.err _) m => .ok () m
  | .error .panic m => .error .panic m

/-- `MarkTable::rehash`. -/
def rehash (pager : Pager) (t : MarkTable) : PagerM (MarkTableResult × MarkTable) := do
  let newPairs ← liftExcept (checkedMul32 t.numPairs 2)
  let newPairs ← liftExcept (if newPairs % 4096 = 0 then .ok newPairs
    else checkedAdd32 newPairs (4096 - newPairs % 4096))
  let pairAllocator ← liftTraced fun allocator => NodeAllocator.new allocator 8 newPairs
  let (newPairs, _) ← reservePairs pager t
  let bucketMb ← unwrapResult (allocZero (t.numBuckets * markTableBucketSize / 0x1000 * 2))
  let moved ← liftExcept (Rehash.tableLoop
    ⟨pairAllocator, fun _ => ⟨⟨0, 0⟩, 0⟩, t.numPairs, t.memory⟩ t 0 t.numBuckets)
  let bucketPhys ← unwrapResult (pager.getPhysical processesMarkTableBucketsFixedVaddr)
  unwrapResult (freeBlock ⟨bucketPhys.toNat, t.numBuckets * markTableBucketSize⟩)
  unwrapError (pager.map bucketMb processesMarkTableBucketsFixedVaddr (pagerPresent ||| pagerRw))
  let pairPhys ← unwrapResult (pager.getPhysical processesMarkTablePairFixedVaddr)
  unwrapResult (freeBlock ⟨pairPhys.toNat, t.numBuckets * 8⟩)
  let pairAllocator ← liftExcept (moved.pairAllocator.toFake processesMarkTablePairFixedVaddr)
  pure (.success, { t with
    pairs := ⟨t.pairs.base, newPairs⟩
    buckets := moved.newBuckets
    numBuckets := t.numBuckets * 2
    pairAllocator := pairAllocator
    numPairs := moved.numPairs
    memory := moved.memory })

end MarkTable

end EmkKernel
