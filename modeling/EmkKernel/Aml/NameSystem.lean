import EmkKernel.Aml.Terms
import EmkKernel.Utils.PageAllocator

/-!
# Named objects

`aml::name_system::NameSystem`: the objects that belong to a scope or device are found by
their four characters through at most four fragments of one table of entries. A pointer
to an object is its index in the memory of objects.
-/

namespace EmkKernel

/-- `Entry`: the number of a name and the index of an object. -/
structure NameEntry where
  name : Nat
  offset : Nat

structure ReferenceBucket where
  start : Nat
  count : Nat

structure NameSystem where
  names : KernelString
  systems : PageAllocator (List Nat)
  referenceBuckets : PageAllocator ReferenceBucket
  entries : PageAllocator NameEntry
  memory : PageAllocator DataRefObject

/-- A value in `u16`. -/
def toU16 (n : Nat) : Option Nat := if n < 2 ^ 16 then some n else none

namespace NameSystem

variable (self : NameSystem)

/-- The entries from `e` on, the first with the name. -/
def findEntry (start : Nat) (name : Segment) (e : Nat) : Nat → Option (Option NameEntry)
  | 0 => some none
  | n + 1 => do
    let entry ← self.entries.asRef (← toU16 (start + e))
    if self.names.compareExtern (← toU16 (entry.name * 4)) (NameString.single name false).ptr 4 then
      some (some entry)
    else
      findEntry start name (e + 1) n

/-- The fragments in order, up to the first that is not in use. -/
def findFragment (name : Segment) : List Nat → Option (Option Nat)
  | [] => some none
  | fragment :: rest =>
    if fragment = 0 then some none
    else do
      let bucket ← self.referenceBuckets.asRef fragment
      match ← self.findEntry bucket.start name 0 bucket.count with
      | some entry =>
        some (if entry.offset > self.memory.allocated then none else some entry.offset)
      | none => findFragment name rest

/-- `get_mut`: the index of the object. -/
def getMut (nameSystem : Nat) (name : Segment) : Option (Option Nat) :=
  if nameSystem > self.systems.size % 2 ^ 16 then some none
  else do
    let fragments ← self.systems.asRef nameSystem
    self.findFragment name fragments

/-- The object at a pointer. -/
def object (ptr : Nat) : DataRefObject := self.memory.slots ptr

def setObject (ptr : Nat) (object : DataRefObject) : NameSystem :=
  { self with memory := self.memory.set ptr object }

/-- `get`, which differs from `get_mut` by what it lends. -/
def get (nameSystem : Nat) (name : Segment) : Option (Option DataRefObject) :=
  (self.getMut nameSystem name).map fun ptr => ptr.map self.object

end NameSystem

/-! ## Adding names -/

inductive NamePanic where
  | invalidNameSystem
  | notSingle
  | fragmentation
  | capacityOverflow
  | arithmetic
  | unwrap
  deriving DecidableEq

/-- The panics that say that a value cannot be stored. -/
def NamePanic.IsReport : NamePanic → Prop
  | .arithmetic => False
  | .unwrap => False
  | _ => True

def unwrapOr {α : Type} (e : NamePanic) : Option α → Except NamePanic α
  | some a => .ok a
  | none => .error e

namespace NameSystem

variable (self : NameSystem)

/-- The loop of `can_continue`: the bucket that ends where the entries do. -/
def continuable : List Nat → Except NamePanic (Option Nat)
  | [] => .ok none
  | fragment :: rest =>
    if fragment = 0 then continuable rest
    else do
      let bucket ← unwrapOr .unwrap (self.referenceBuckets.asRef fragment)
      let behind ← unwrapOr .arithmetic (toU16 (bucket.start + bucket.count))
      if behind = self.entries.size % 2 ^ 16 then .ok (some fragment) else continuable rest

def canContinue (nameSystem : Nat) : Except NamePanic (Option Nat) := do
  let fragments ← unwrapOr .unwrap (self.systems.asRef nameSystem)
  self.continuable fragments

/-- `attach_reference_bucket`: also the index of the bucket. -/
def attachReferenceBucket (nameSystem : Nat) : Except NamePanic (Nat × NameSystem) := do
  let fragments ← unwrapOr .unwrap (self.systems.asRef nameSystem)
  let i ← unwrapOr .fragmentation (fragments.findIdx? (· = 0))
  let fragment := self.referenceBuckets.size % 2 ^ 16
  let attached := { self with
    systems := self.systems.set nameSystem (fragments.set i fragment)
    referenceBuckets :=
      (self.referenceBuckets.pushBack ⟨self.entries.size % 2 ^ 16, 0⟩).2 }
  let _ ← unwrapOr .unwrap (attached.referenceBuckets.asRef fragment)
  .ok (fragment, attached)

/-- `*count = count` for a bucket. -/
def setCount (fragment count : Nat) : NameSystem :=
  let bucket := self.referenceBuckets.slots fragment
  { self with referenceBuckets := self.referenceBuckets.set fragment ⟨bucket.start, count⟩ }

/-- The count of a bucket is a `u8`. -/
def growFragment (nameSystem : Nat) : Except NamePanic NameSystem := do
  match ← self.canContinue nameSystem with
  | some fragment =>
    if (self.referenceBuckets.slots fragment).count + 1 < 2 ^ 8 then
      .ok (self.setCount fragment ((self.referenceBuckets.slots fragment).count + 1))
    else .error .arithmetic
  | none =>
    let (fragment, attached) ← self.attachReferenceBucket nameSystem
    .ok (attached.setCount fragment 1)

/-- `allocate_new_entry`: also the index of the entry. Whether there was room is not looked at. -/
def allocateNewEntry (nameSystem : Nat) : Except NamePanic (Nat × NameSystem) := do
  let grown ← self.growFragment nameSystem
  let index := grown.entries.size
  let allocated := { grown with entries := (grown.entries.pushBack ⟨0, 0⟩).2 }
  let _ ← unwrapOr .unwrap (allocated.entries.asRef index)
  .ok (index, allocated)

/-- `insert_name`: also the number of the name. -/
def insertName (name : Nat → Byte) : Except NamePanic (Nat × NameSystem) :=
  match (List.range (self.names.length / 4)).find? fun i =>
    self.names.compareExtern (i * 4) name 4 with
  | some i => .ok (i, self)
  | none => do
    let names ← unwrapOr .capacityOverflow (self.names.pushBackRaw name 4)
    .ok (self.names.length / 4, { self with names := names })

def add (nameSystem : Nat) (name : NameString) (dataRefObject : DataRefObject) :
    Except NamePanic NameSystem :=
  if nameSystem > self.systems.size % 2 ^ 16 then .error .invalidNameSystem
  else
    match name with
    | .single segment absolute => do
      let (nameOffset, named) ← self.insertName (NameString.single segment absolute).ptr
      let memoryOffset := named.memory.size % 2 ^ 16
      let (index, allocated) ← named.allocateNewEntry nameSystem
      .ok { allocated with
        entries := allocated.entries.set index ⟨nameOffset, memoryOffset⟩
        memory := (allocated.memory.pushBack dataRefObject).2 }
    | _ => .error .notSingle

/-- `new_system` -/
def newSystem : Nat × NameSystem :=
  let referenceBucketIndex := self.referenceBuckets.size % 2 ^ 16
  (self.systems.size % 2 ^ 16, { self with
    referenceBuckets := (self.referenceBuckets.pushBack ⟨self.entries.size % 2 ^ 16, 0⟩).2
    systems := (self.systems.pushBack [referenceBucketIndex, 0, 0, 0]).2 })

end NameSystem

/-- The memory of the arrays before `NameSystem::new`, which takes pages of zeros. -/
structure NameMemory where
  names : Nat → Byte
  systems : Nat → List Nat
  referenceBuckets : Nat → ReferenceBucket
  entries : Nat → NameEntry
  memory : Nat → DataRefObject
  zeroed : ∀ i < 1024, systems i = [0, 0, 0, 0]

/-- `_HID`, `_UID`, `_CID`, `_CRS`, `_PRS` and `_ADR`. -/
def NameSystem.firstNames : List Byte :=
  [0x5F, 0x48, 0x49, 0x44, 0x5F, 0x55, 0x49, 0x44, 0x5F, 0x43, 0x49, 0x44,
    0x5F, 0x43, 0x52, 0x53, 0x5F, 0x50, 0x52, 0x53, 0x5F, 0x41, 0x44, 0x52]

/-- `NameSystem::new`; the 0th bucket is invalid. -/
def NameSystem.new (memory : NameMemory) : NameSystem where
  names := ⟨fun i => if i < 24 then firstNames.getD i 0 else memory.names i, 0x1000, 24⟩
  systems := ⟨memory.systems, 0, 1024⟩
  referenceBuckets :=
    (PageAllocator.pushBack ⟨memory.referenceBuckets, 0, 1024⟩ ⟨0, 0⟩).2
  entries := ⟨memory.entries, 0, 1024⟩
  memory := ⟨memory.memory, 0, 0x1000⟩

end EmkKernel
