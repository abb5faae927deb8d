import EmkKernel.Aml.DataObjects
import EmkKernel.Aml.PathComparison
import EmkKernel.Library.Checked

/-!
# Interrupts of PCI devices

`hal::PciRoutingTable`: the packages of `_PRT` are read one after the other, and for one that
matches, the resources in `_CRS` of the device it names are walked through. What is looked
at in these resources is recorded. Executing a method `_CRS` ends in a panic in each branch.
-/

namespace EmkKernel

open Checked

/-- `trigger_mode`: 1 for edges, 0 for levels; `polarity`: 1 for low, 0 for high. -/
structure PciRoutingInterrupt where
  irq : Nat
  triggerMode : Nat
  polarity : Nat
  deriving DecidableEq, Repr

structure PciRoutingTable where
  base : Nat
  numEntries : Nat
  pathRoot : Nat

/-- The interrupt that is found, or what is done else. -/
def foundOr (next : Checked Unit (Option PciRoutingInterrupt)) :
    Option PciRoutingInterrupt → Checked Unit (Option PciRoutingInterrupt)
  | some interrupt => pure (some interrupt)
  | none => next

/-! ### Resources -/

/-- The loop over the bits of a mask, which counts those that are set. -/
def findInMask (mask sourceIndex : Nat) : Nat → List Nat → Option Nat
  | _, [] => none
  | counter, i :: rest =>
    if mask.testBit i then
      if counter = sourceIndex then some i else findInMask mask sourceIndex (counter + 1) rest
    else findInMask mask sourceIndex counter rest

section Resources

variable (memory : Nat → Byte) (sourceIndex : Nat)

/-- The interrupt of a small descriptor, if it is an IRQ with so many interrupts. -/
def smallInterrupt (cptr : Nat) : Checked Unit (Option PciRoutingInterrupt) :=
  if (memory cptr).toNat / 2 ^ 3 = 0x04 then do
    look (cptr + 1) 2
    match findInMask (littleEndian memory (cptr + 1) 2) sourceIndex 0 (List.range 16) with
    | some i =>
      look (cptr + 3) 1
      let flags := (memory (cptr + 3)).toNat
      pure (some ⟨i, flags % 2, flags / 2 ^ 3 % 2⟩)
    | none => pure none
  else pure none

/-- `while rem != 0`, which stops when the fuel is used up. -/
def walkResources : Nat → Nat → Nat → Checked Unit (Option PciRoutingInterrupt)
  | 0, _, _ => stop
  | fuel + 1, rem, cptr =>
    if rem ≠ 0 then do
      look cptr 1
      let type := (memory cptr).toNat
      if type < 0x80 then
        let length := type % 2 ^ 3
        smallInterrupt memory sourceIndex cptr >>= foundOr
          (if rem < length + 1 then stop
          else walkResources fuel (rem - (length + 1)) (cptr + (length + 1)))
      else if sourceIndex ≠ 0 then stop
      else if type - 0x80 = 0x9 then
        look (cptr + 3) 1
        look (cptr + 5) 1
        let flags := (memory (cptr + 3)).toNat
        pure (some ⟨(memory (cptr + 5)).toNat, flags / 2 % 2, flags / 2 ^ 2 % 2⟩)
      else
        look (cptr + 1) 2
        -- the length does not count the three bytes before the data
        let length := littleEndian memory (cptr + 1) 2
        if rem < length then stop else walkResources fuel (rem - length) (cptr + length)
    else pure none

end Resources

/-! ### Entries -/

/-- The terms that are taken for an address, a pin and a source index. -/
def TermArgInt.prtAddress : TermArgInt → Option Nat
  | .word val => some val
  | .dWord val => some val
  | _ => none

def TermArgInt.prtPin : TermArgInt → Option Nat
  | .zero => some 0
  | .one => some 1
  | .byte b => some b
  | _ => none

def TermArgInt.prtSourceIndex : TermArgInt → Option Nat
  | .byte b => some b
  | .word w => some w
  | .dWord dw => some dw
  | .zero => some 0
  | .one => some 1
  | _ => none

/-- `_CRS`. -/
def crsName : Segment := segment 0x5F 0x43 0x52 0x53

/-- The object `_CRS` of the device with a name: the path is found from the root or from the
root of the table, and a device with this path and a name system has to be there. -/
def NamedObjects.resourcesOf (amlCode : NamedObjects) (pathRoot : Nat) (nameString : NameString) :
    Option (Option DataRefObject) := do
  let base := if nameString.isAbsolute then 0 else pathRoot
  let pathSystem ← ← amlCode.pathSystem.find base nameString.ptr nameString.segments
  let device ← amlCode.devices.values.find? fun cmp => cmp.path = pathSystem
  let ns ← device.nameSystem
  amlCode.nameSystem.get ns crsName

namespace PciRoutingTable

section

variable (amlCode : NamedObjects) (memory : Nat → Byte) (fuel : Nat) (self : PciRoutingTable)
  (device func pin : Nat)

/-- The address of an entry is that of the function, or of all functions of the device. -/
def MatchesAddress (addr : Nat) : Prop :=
  addr = device * 2 ^ 16 + func ∨ addr % 2 ^ 16 = 0xFFFF ∧ addr / 2 ^ 16 = device

instance (addr : Nat) : Decidable (MatchesAddress device func addr) :=
  inferInstanceAs (Decidable (_ ∨ _))

/-- What stands behind the pin of an entry that matches. -/
def routeSource (pkgReader : BufferedReader) : Checked Unit (Option PciRoutingInterrupt) := do
  let (source, pkgReader) ← orStop (parseTermargInt pkgReader)
  match source with
  | .nameString nameString =>
    match ← orStop (amlCode.resourcesOf self.pathRoot nameString) with
    | some (.buffer ptr len) =>
      let (index, _) ← orStop (parseTermargInt pkgReader)
      let sourceIndex ← orStop index.prtSourceIndex
      walkResources memory sourceIndex fuel len ptr
    | _ => stop
  | _ => stop

/-- The body of the loop over the entries, with the reader of a package. -/
def routeEntry (pkgReader : BufferedReader) : Checked Unit (Option PciRoutingInterrupt) := do
  let (address, pkgReader) ← orStop (parseTermargInt pkgReader)
  let addr ← orStop address.prtAddress
  if MatchesAddress device func addr then
    let (pkgPin, pkgReader) ← orStop (parseTermargInt pkgReader)
    let pkgPin ← orStop pkgPin.prtPin
    if pkgPin ≠ pin then pure none
    else routeSource amlCode memory fuel self pkgReader
  else pure none

/-- The loop over the entries. -/
def findEntry : Nat → BufferedReader → Checked Unit (Option PciRoutingInterrupt)
  | 0, _ => pure none
  | n + 1, reader => do
    let (pkg, reader) ← orStop (parseDataRefObject amlCode.getNameEntry reader)
    match pkg with
    | .package ptr length _ =>
      routeEntry amlCode memory fuel self device func pin (BufferedReader.new memory ptr length) >>=
        foundOr (findEntry n reader)
    | _ => stop

/-- `find_pci_int`. -/
def findPciInt : Checked Unit (Option PciRoutingInterrupt) :=
  findEntry amlCode memory fuel self device func pin self.numEntries
    (BufferedReader.new memory self.base 0xFFFFFFFF)

end

end PciRoutingTable

end EmkKernel
