import EmkKernel.Library.Requests
import EmkKernel.Utils.Stack
import Mathlib.Data.Fintype.Basic

/-!
# Interned paths

`aml::path_system::PathSystem`. A path is a run of four byte segments in one storage;
`roots` says for each id where its run lies. `append` makes a path below the current
one, `insert` an absolute one, and both return an id that is there already. A call that
panics has no value.
-/

namespace EmkKernel

abbrev Segment := Fin 4 → Byte

/-- `n` segments from an address on. -/
def segmentsAt (bytes : Nat → Byte) (offset n : Nat) : List Segment :=
  (List.range n).map fun s i => bytes (offset + 4 * s + i)

/-- `utils::string::String`; `current` always points behind the bytes. -/
structure KernelString where
  bytes : Nat → Byte
  capacity : Nat
  length : Nat

namespace KernelString

variable (self : KernelString)

def compare (offset0 offset1 length : Nat) : Bool :=
  if offset0 + length > self.length ∨ offset1 + length > self.length then false
  else (List.range length).all fun i => self.bytes (offset0 + i) == self.bytes (offset1 + i)

def compareExtern (offset0 : Nat) (ptr : Nat → Byte) (length : Nat) : Bool :=
  if offset0 + length > self.length then false
  else (List.range length).all fun i => self.bytes (offset0 + i) == ptr i

def copy (dest srce length : Nat) : Option KernelString :=
  if dest + length > self.capacity ∨ srce + length > self.capacity then none
  else some { self with
    bytes := fun i => if dest ≤ i ∧ i < dest + length then self.bytes (srce + (i - dest))
      else self.bytes i
    length := max self.length (dest + length) }

def pushBackRaw (ptr : Nat → Byte) (length : Nat) : Option KernelString :=
  if self.length + length > self.capacity then none
  else some { self with
    bytes := fun i => if self.length ≤ i ∧ i < self.length + length then ptr (i - self.length)
      else self.bytes i
    length := self.length + length }

/-- `get_current().sub(n)`. -/
def currentSub (n : Nat) : Nat → Byte := fun i => self.bytes (self.length - n + i)

end KernelString

/-- The pointers of a name are given by what can be read at them. -/
inductive NameString where
  | single (name : Segment) (absolute : Bool)
  | dual (ptr : Nat → Byte) (absolute : Bool)
  | multiple (ptr : Nat → Byte) (segments : Nat) (absolute : Bool)

namespace NameString

def isAbsolute : NameString → Bool
  | single _ absolute => absolute
  | dual _ absolute => absolute
  | multiple _ _ absolute => absolute

/-- The number of segments, as `append` and `insert` find it. -/
def segments : NameString → Nat
  | single _ _ => 1
  | dual _ _ => 2
  | multiple _ segments _ => segments

def ptr : NameString → Nat → Byte
  | single name _ => fun i => name ⟨i % 4, Nat.mod_lt i (Nat.succ_pos 3)⟩
  | dual ptr _ => ptr
  | multiple ptr _ _ => ptr

/-- The segments of the name. -/
def path (name : NameString) : List Segment := segmentsAt name.ptr 0 name.segments

end NameString

/-- `Frame`. -/
structure PathFrame where
  appended : Option Bool
  extended : Bool

/-- An entry of `roots`. -/
structure PathRoot where
  offset : Nat
  length : Nat
  owner : Nat

structure PathSystem where
  storage : KernelString
  frameStack : Stack PathFrame
  roots : Nat → PathRoot
  allocated : Nat
  capacity : Nat
  activePaths : Stack Nat

namespace PathSystem

/-- The bytes that `new` writes. -/
def firstBytes : List Byte :=
  [0x5C, 0, 0, 0, 0x5F, 0x53, 0x42, 0x5F, 0x5F, 0x53, 0x42, 0x5F, 0x50, 0x43, 0x49, 0x30]

/-- The entries that `new` makes: an invalid one, the root, `_SB_` and `_SB_PCI0`. -/
def firstRoots : List PathRoot := [⟨0, 0, 0⟩, ⟨0, 1, 0⟩, ⟨4, 1, 1⟩, ⟨8, 2, 2⟩]

/-- The allocations are taken to succeed. -/
def new : PathSystem where
  storage := ⟨fun i => firstBytes.getD i 0, 0x4000, 16⟩
  frameStack := .new ⟨none, false⟩ 2 256
  roots := fun i => firstRoots.getD i ⟨0, 0, 0⟩
  allocated := 4
  capacity := 0x1000
  activePaths := .new 0 2 256

variable (self : PathSystem)

/-- `roots.as_ref(index).unwrap()`; the index behind the last one passes. -/
def root (index : Nat) : Option PathRoot :=
  if index > self.allocated then none else some (self.roots index)

/-- `roots.push_back`; a full table stays as it is. -/
def pushRoot (r : PathRoot) : PathSystem :=
  if self.allocated + 1 > self.capacity then self
  else { self with
    roots := Function.update self.roots self.allocated r
    allocated := self.allocated + 1 }

def getOwnerOf (path : Nat) : Option Nat := (self.root path).map PathRoot.owner

def currentPath : Nat := if self.activePaths.numOccupied ≠ 0 then self.activePaths.refTop else 1

def pushFrame : Option PathSystem := do
  let frameStack := if self.frameStack.numOccupied ≠ 0 then
      self.frameStack.setTop { self.frameStack.refTop with extended := true }
    else self.frameStack
  let frameStack ← frameStack.push ⟨none, false⟩
  some { self with frameStack }

/-- A frame with a path takes the path with it, and a zero stays behind. -/
def popActive (frame : PathFrame) : Option (Stack Nat) :=
  if frame.appended.isSome then (self.activePaths.setTop 0).pop.map Prod.snd
  else some self.activePaths

def popFrame : Option PathSystem := do
  let (frame, frameStack) ← self.frameStack.pop
  let activePaths ← self.popActive frame
  let frameStack := frameStack.setTop { frameStack.refTop with extended := false }
  some { self with frameStack, activePaths }

/-- The path of `base` with the segments behind it; the lengths are summed up in `u8`. -/
def find (base : Nat) (ptr : Nat → Byte) (segments : Nat) : Option (Option Nat) := do
  let baseRoot ← self.root base
  if baseRoot.length + segments < 2 ^ 8 then
    some ((List.range self.allocated).find? fun index =>
      decide (index ≠ base) && decide (baseRoot.length + segments = (self.roots index).length) &&
      self.storage.compare (self.roots index).offset baseRoot.offset (baseRoot.length * 4) &&
      self.storage.compareExtern ((self.roots index).offset + baseRoot.length * 4) ptr
        (segments * 4))
  else
    none

/-- `push_as_appended` and `push_as_inserted`, which differ in the mark of the frame. -/
def pushPath (path : Nat) (appended : Bool) : Option PathSystem := do
  let activePaths ← self.activePaths.push path
  let frameStack := self.frameStack.setTop { self.frameStack.refTop with appended := some appended }
  some { self with activePaths, frameStack }

def pushAsAppended (path : Nat) : Option PathSystem := self.pushPath path true

def pushAsInserted (path : Nat) : Option PathSystem := self.pushPath path false

def append (name : NameString) : Option (Nat × PathSystem) := do
  match ← self.find self.activePaths.refTop name.ptr name.segments with
  | some base => some (base, self)
  | none =>
    let currentIndex := self.activePaths.refTop
    let current ← self.root currentIndex
    let offset := self.storage.length
    let storage ← self.storage.copy offset current.offset (current.length * 4)
    let storage ← storage.pushBackRaw name.ptr (name.segments * 4)
    let ret := self.allocated
    some (ret, { self with storage }.pushRoot
      ⟨offset, name.segments + current.length, currentIndex⟩)

/-- The owner of the name that was just put at the end of the storage. -/
def ownerOf (name : NameString) : Option Nat :=
  if name.segments = 1 then some 0
  else if name.segments = 0 then none
  else do
    let found ← self.find 0 (self.storage.currentSub (name.segments * 4)) (name.segments - 1)
    some (found.getD 0)

def insert (name : NameString) : Option (Nat × PathSystem) := do
  match ← self.find 0 name.ptr name.segments with
  | some base => some (base, self)
  | none =>
    let offset := self.storage.length
    let storage ← self.storage.pushBackRaw name.ptr (name.segments * 4)
    let self := { self with storage }
    let owner ← self.ownerOf name
    let ret := self.allocated
    some (ret, self.pushRoot ⟨offset, name.segments, owner⟩)

/-- The segments an id stands for. -/
def path (id : Nat) : List Segment :=
  segmentsAt self.storage.bytes (self.roots id).offset (self.roots id).length

/-- The segments of the current scope, which are none in the root. -/
def scope : List Segment := if self.currentPath = 1 then [] else self.path self.currentPath

end PathSystem

end EmkKernel
