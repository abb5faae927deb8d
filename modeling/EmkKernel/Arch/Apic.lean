import EmkKernel.Library.Yields
import EmkKernel.Memory.Basic

/-!
# Routing of interrupts

`arch::apic::Apic`, and what `Multithreading::new` records for it. The registers of an I/O
APIC are behind the page at its virtual address, so a store goes to the device whose
registers were mapped there last.
-/

namespace EmkKernel

open EStateM

structure IoApic where
  physicalAddress : Nat
  virtualAddress : Nat
  gisBase : BitVec 32
  ioapicId : BitVec 8

structure GsiOverride where
  ioApicRedirectionEntry : BitVec 32
  gsi : BitVec 32
  flags : BitVec 16
  correspondingIoApicIndex : Nat
  bus : BitVec 8
  src : BitVec 8
  registered : Bool
  deriving DecidableEq

def ioApicFixedVaddr : Nat := 0xFFFF800070021000

/-- The entries of the MADT that routing depends on. -/
inductive MadtEntry where
  | ioApic (ioapicId : BitVec 8) (ioapicAddress gsib : BitVec 32)
  | gsiOverride (bus source : BitVec 8) (gsi : BitVec 32) (flags : BitVec 16)
  | other

/-- A store to a register: the device by its physical address, the number of the register,
and the value. -/
structure RegisterWrite where
  device : Nat
  register : Nat
  value : BitVec 32
  deriving DecidableEq

/-- The overrides, the pages of the registers, and the stores made so far. -/
structure ApicMachine where
  gsiOverrides : List GsiOverride
  pages : Nat → Option Nat
  writes : List RegisterWrite

abbrev ApicM := EStateM Stop ApicMachine

/-- `List::for_each`: the operand gives false where the loop should break. -/
def forEachElement {ε σ α : Type} (operand : α → EStateM ε σ Bool) : List α → EStateM ε σ Unit
  | [] => pure ()
  | c :: rest => do
    if ← operand c then
      forEachElement operand rest
    else
      pure ()

/-- `gsi >= gis_base && gis_base + 24 >= gsi`; the sum is in `u32`. -/
def IoApic.inRange (self : IoApic) (gsi : BitVec 32) : Option Bool :=
  if gsi.toNat < self.gisBase.toNat then some false
  else if self.gisBase.toNat + 24 < 2 ^ 32 then
    some (decide (gsi.toNat ≤ self.gisBase.toNat + 24))
  else none

/-- `write_register`. -/
def IoApic.writeRegister (self : IoApic) (offset : Nat) (val : BitVec 32) : ApicM Unit := do
  let m ← get
  match m.pages self.virtualAddress with
  | none => throw .panic
  | some device =>
    set { m with writes := m.writes ++ [(⟨device, offset, val⟩ : RegisterWrite)] }

/-- `IOAPICREDTBL`; the number of a register is a `u8`. -/
def ioapicredtbl (n : Nat) : Option Nat :=
  if 0x10 + 2 * n < 2 ^ 8 then some (0x10 + 2 * n) else none

/-- The arguments of the two routines besides the GSI. -/
structure Redirection where
  isrVector : BitVec 8
  destinationMode : BitVec 8
  pinPolarity : BitVec 8
  triggerMode : BitVec 8
  destination : BitVec 32

namespace Redirection

variable (r : Redirection)

def half0 : BitVec 32 :=
  r.isrVector.setWidth 32 ||| (r.destinationMode.setWidth 32 &&& 1) <<< 11 |||
    (r.pinPolarity.setWidth 32 &&& 1) <<< 13 ||| (r.triggerMode.setWidth 32 &&& 1) <<< 15

def half1 : BitVec 32 := r.destination <<< 23

end Redirection

/-- The two stores of both routines; the entry is cast to `u8`. -/
def IoApic.writeEntry (self : IoApic) (entry : BitVec 32) (r : Redirection) : ApicM Unit := do
  match ioapicredtbl (entry.toNat % 2 ^ 8) with
  | none => throw .panic
  | some register =>
    self.writeRegister register r.half0
    -- the second number is a `u8` too, and an even one has room for its successor
    self.writeRegister (register + 1) r.half1

namespace Multithreading

/-- The loop over the I/O APICs that records an override; the bound is cast to `u16`. -/
def recordOverride (ioapics : List IoApic) (gsiOverrides : List GsiOverride)
    (bus source : BitVec 8) (gsi : BitVec 32) (flags : BitVec 16) : Option (List GsiOverride) := do
  let found ← (ioapics.zipIdx.take (ioapics.length % 2 ^ 16)).findM? fun ioapic =>
    ioapic.1.inRange gsi
  match found with
  | some ioapic =>
    let entry := gsi - ioapic.1.gisBase
    some (gsiOverrides ++ [⟨entry, gsi, flags, ioapic.2, bus, source, false⟩])
  | none => some gsiOverrides

/-- One entry of the MADT. -/
def recordEntry (recorded : List IoApic × List GsiOverride) :
    MadtEntry → Option (List IoApic × List GsiOverride)
  | .ioApic ioapicId ioapicAddress gsib =>
    some (recorded.1 ++ [⟨ioapicAddress.toNat, ioApicFixedVaddr, gsib, ioapicId⟩], recorded.2)
  | .gsiOverride bus source gsi flags => do
    let gsiOverrides ← recordOverride recorded.1 recorded.2 bus source gsi flags
    some (recorded.1, gsiOverrides)
  | .other => some recorded

/-- The lists that `new` makes of the MADT; `none` is a panic. -/
def new (madt : List MadtEntry) : Option (List IoApic × List GsiOverride) :=
  madt.foldlM recordEntry ([], [])

end Multithreading

namespace Apic

/-- `page_4_kb` for the registers of one I/O APIC. -/
def pageRegisters (pages : Nat → Option Nat) (apic : IoApic) : Nat → Option Nat :=
  Function.update pages apic.virtualAddress (some apic.physicalAddress)

/-- `Apic::new` maps the registers of each I/O APIC at its virtual address. -/
def new (apics : List IoApic) (gsiOverrides : List GsiOverride) : ApicMachine where
  gsiOverrides := gsiOverrides
  pages := apics.foldl pageRegisters fun _ => none
  writes := []

/-- `register_gsi`: the overrides afterwards, and whether one was marked. -/
def registerGsi (gsi : BitVec 32) : List GsiOverride → List GsiOverride × Bool
  | [] => ([], false)
  | gsiOverride :: rest =>
    if gsiOverride.gsi = gsi then
      if gsiOverride.registered then (gsiOverride :: rest, false)
      else ({ gsiOverride with registered := true } :: rest, true)
    else
      let later := registerGsi gsi rest
      (gsiOverride :: later.1, later.2)

/-- `write_and_register_gsi`. -/
def writeAndRegisterGsi (apics : List IoApic) (gsi : BitVec 32) (r : Redirection) :
    ApicM Bool := do
  let m ← get
  let registered := registerGsi gsi m.gsiOverrides
  set { m with gsiOverrides := registered.1 }
  if !registered.2 then
    pure false
  else
    forEachElement (fun gsiOverride =>
      if gsiOverride.gsi = gsi then
        -- `ref_const` lets the length itself pass, but no recorded index is that large
        match apics[gsiOverride.correspondingIoApicIndex]? with
        | none => throw .panic
        | some apic => do
          apic.writeEntry gsiOverride.ioApicRedirectionEntry r
          pure false
      else
        pure true) registered.1
    pure true

/-- `write_gsi`. -/
def writeGsi (apics : List IoApic) (gis : BitVec 32) (r : Redirection) : ApicM Bool := do
  let ret := false
  forEachElement (fun apic =>
    match apic.inRange gis with
    | none => throw .panic
    | some true => do
      apic.writeEntry (gis - apic.gisBase) r
      pure false
    | some false => pure true) apics
  pure ret

end Apic

end EmkKernel
