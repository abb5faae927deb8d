import EmkKernel.Library.Trails
import EmkKernel.Library.WordFields
import EmkKernel.Memory.Basic

/-!
# The interrupt lists of an OHCI controller

`OhciHccaInterruptList`: 32 pointers in the HCCA and one page of endpoint descriptors. The
first five connect the lists, the next 32 are places for endpoints that are polled every
32 ms, and all others are handed out one after another. Memory is read descriptor by
descriptor.
-/

namespace EmkKernel

open WordFields

structure RawOhciEndpointDescriptor where
  dword0 : BitVec 32
  dword1 : BitVec 32
  dword2 : BitVec 32
  dword3 : BitVec 32
  deriving DecidableEq

/-- The bit parts of the first dword, by their positions. -/
inductive EndpointDescriptorBitPart where
  | k
  | f
  | con
  | dum

def EndpointDescriptorBitPart.position : EndpointDescriptorBitPart → Nat
  | .k => 14
  | .f => 15
  | .con => 27
  | .dum => 28

namespace RawOhciEndpointDescriptor

open EndpointDescriptorBitPart

variable (ed : RawOhciEndpointDescriptor)

def zero : RawOhciEndpointDescriptor := ⟨0, 0, 0, 0⟩

def isSet (part : EndpointDescriptorBitPart) : Bool := ed.dword0.getLsbD part.position

def set (part : EndpointDescriptorBitPart) (value : Bool) : RawOhciEndpointDescriptor :=
  { ed with dword0 := setBit ed.dword0 part.position value }

def nextEd : Nat := ed.dword3.toNat

/-- `address()` is an `u32`. -/
def writeNextEd (address : Nat) : RawOhciEndpointDescriptor :=
  { ed with dword3 := BitVec.ofNat 32 address }

theorem nextEd_writeNextEd {address : Nat} (inside : address < 2 ^ 32) :
    (ed.writeNextEd address).nextEd = address := by
  rw [nextEd, writeNextEd, BitVec.toNat_ofNat, Nat.mod_eq_of_lt inside]

@[simp] theorem isSet_set (part other : EndpointDescriptorBitPart) (value : Bool) :
    (ed.set part value).isSet other =
      if other.position = part.position then value else ed.isSet other := by
  have inside : other.position < 32 := by cases other <;> decide
  rw [isSet, set, getLsbD_setBit _ _ inside]
  rfl

end RawOhciEndpointDescriptor

open RawOhciEndpointDescriptor EndpointDescriptorBitPart

/-- `memory` is what the descriptors at addresses hold, `endpoints` is the address of the
slice. -/
structure OhciHccaInterruptList where
  hcca : Nat → BitVec 32
  endpoints : Nat
  memory : Nat → RawOhciEndpointDescriptor
  endpointsAllocated : Nat

namespace OhciHccaInterruptList

variable (list : OhciHccaInterruptList)

def hccaEp (index : Nat) : Nat := (list.hcca index).toNat

def ep (index : Nat) : Nat := list.endpoints + 16 * index

def modify (address : Nat) (f : RawOhciEndpointDescriptor → RawOhciEndpointDescriptor) :
    OhciHccaInterruptList :=
  { list with memory := Function.update list.memory address (f (list.memory address)) }

/-- The loop that looks for the descriptor to append to. The slice has 256 descriptors, so
a longer walk never ends. -/
def findAppendEd (comesFirst : Bool) : Nat → Nat → Option Nat
  | 0, _ => none
  | n + 1, appendEd =>
    let next := (list.memory appendEd).nextEd
    if next ≠ 0 ∧ (list.memory next).isSet con = false then
      if comesFirst ∧ (list.memory next).isSet f then some appendEd
      else findAppendEd comesFirst n next
    else some appendEd

/-- The common end of both branches of `install`. The counter is an `u8`. -/
def appendAt (appendEd : Nat) (epd : RawOhciEndpointDescriptor) :
    Except Stop (Nat × OhciHccaInterruptList) :=
  let dstEp := list.ep list.endpointsAllocated
  let list := list.modify dstEp fun _ => epd
  let list := list.modify dstEp fun ed => ed.writeNextEd (list.memory appendEd).nextEd
  let list := list.modify appendEd fun ed => ed.writeNextEd dstEp
  if list.endpointsAllocated + 1 < 256 then
    .ok (list.endpointsAllocated,
      { list with endpointsAllocated := list.endpointsAllocated + 1 })
  else .error .panic

/-- The walk of `install` from a descriptor, and what follows. Nothing is returned when the
walk does not end. -/
def installBehind (start : Nat) (epd : RawOhciEndpointDescriptor) :
    Except Stop (Nat × OhciHccaInterruptList) :=
  match list.findAppendEd (!epd.isSet f) 256 start with
  | some appendEd => list.appendAt appendEd epd
  | none => .error .panic

def install (interval : Nat) (epd : RawOhciEndpointDescriptor) :
    Except Stop (Nat × OhciHccaInterruptList) :=
  if interval = 32 then
    match (List.range 32).find? fun i => (list.memory (list.hccaEp i)).isSet dum with
    | some i => .ok (i + 5,
        list.modify (list.hccaEp i) fun ed => epd.writeNextEd ed.nextEd)
    | none => list.installBehind (list.hccaEp 0) epd
  else if 0 < interval ∧ 2 ^ interval.log2 = interval then
    list.installBehind (list.ep interval.log2) epd
  else .error .panic

/-! ### Initialisation -/

def connect (index : Nat) : OhciHccaInterruptList :=
  list.modify (list.ep index) fun ed => (ed.set k true).set con true

def link (address index : Nat) : OhciHccaInterruptList :=
  list.modify address fun ed => ed.writeNextEd (list.ep index)

/-- The body of the loop that creates the places for 32 ms. -/
def createPlace (i : Nat) : OhciHccaInterruptList :=
  let ep := list.ep list.endpointsAllocated
  let list := { list with endpointsAllocated := list.endpointsAllocated + 1 }
  let list := list.modify ep fun ed => (ed.set k true).set dum true
  { list with hcca := Function.update list.hcca i (BitVec.ofNat 32 ep) }

/-- The connectors that the even places are linked to. -/
def evenLinks : List (Nat × Nat) :=
  [(0, 4), (2, 1), (4, 2), (6, 1), (8, 3), (10, 1), (12, 2), (14, 1), (16, 4), (18, 1), (20, 2),
    (22, 1), (24, 3), (26, 1), (28, 2), (30, 1)]

/-- `initialize` with the page that `alloc_zero(1)` returned. -/
def initializeTree (mb : MemoryBlock) : OhciHccaInterruptList :=
  let list : OhciHccaInterruptList :=
    { list with
      endpoints := mb.base
      memory := fun address =>
        if mb.base ≤ address ∧ address < mb.base + 0x1000 then zero else list.memory address
      endpointsAllocated := 5 }
  let list := [0, 1, 2, 3, 4].foldl connect list
  let list := [(4, 3), (3, 2), (2, 1), (1, 0)].foldl (fun l p => l.link (l.ep p.1) p.2) list
  let list := (List.range 32).foldl createPlace list
  let list := evenLinks.foldl (fun l p => l.link (l.hccaEp p.1) p.2) list
  (List.range 32).foldl (fun l i => if i % 2 = 1 then l.link (l.hccaEp i) 0 else l) list

end OhciHccaInterruptList

end EmkKernel
