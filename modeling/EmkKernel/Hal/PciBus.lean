import EmkKernel.Paging.Permissions
import EmkKernel.Paging.Release

/-!
# The PCI bus

`hal::pci_bus::PciBus`: the configuration space of every function is a page behind the base
address, and the functions that are found stay mapped. A panic ends the enumeration.
-/

namespace EmkKernel

/-- `DynamicAllocator`: the values, and the room for them. -/
structure DynamicAllocator (T : Type) where
  memory : MemoryBlock
  values : List T
  capacity : Nat

/-- What a function says about itself. -/
structure PciHeader where
  vendorId : BitVec 16
  headerType : BitVec 8

/-- The headers by bus, device and function. -/
abbrev ConfigurationSpace := Nat → Nat → Nat → PciHeader

/-- `EnhancedConfigurationMechanism`, and the MCFG around it. -/
structure Mcfg where
  length : Nat
  entries : Nat
  baseAddress : Nat
  startPciBusNumber : Nat

/-- `page_4k` and `unpage_4k` of the system table; `none` is an error. -/
structure PagingCalls (σ : Type) where
  page4K : Nat → Nat → Flags → σ → Option σ
  unpage4K : Nat → σ → Option σ

/-- The calls go to the pager of the processor, with the physical allocator. -/
def SystemTable.pagingCalls (pager : Pager) : PagingCalls Machine where
  page4K virt physical flags m :=
    match pager.page4Kb virt (BitVec.ofNat 64 physical) flags m with
    | .ok _ m' => some m'
    | .error _ _ => none
  unpage4K virt m :=
    match pager.unpage4K virt m with
    | .ok _ m' => some m'
    | .error _ _ => none

/-- What the pager works on, the virtual allocator, the devices, the functions whose
configuration space was accessed, and the pages of it that are mapped. -/
structure PciMachine (σ : Type) where
  paging : σ
  virtualAllocator : Allocator
  devices : DynamicAllocator Nat
  accessed : List (Nat × Nat × Nat)
  mapped : List Nat

abbrev PciM (σ : Type) := EStateM Stop (PciMachine σ)

/-- Before the enumeration, with nothing of the configuration space mapped. -/
def PciMachine.new {σ : Type} (paging : σ) (virtualAllocator : Allocator) : PciMachine σ :=
  ⟨paging, virtualAllocator, ⟨⟨0, 0⟩, [], 0⟩, [], []⟩

def sizeOfMcfg : Nat := 44

namespace PciBus

def compressIdent (bus device func : Nat) : Nat :=
  func ||| device <<< 8 ||| bus <<< 16

def decompressIdent (pciIdent : Nat) : Nat × Nat × Nat :=
  ((pciIdent >>> 16) &&& 0xFF, (pciIdent >>> 8) &&& 0xFF, pciIdent &&& 0xFF)

/-- A sum in `u64`. -/
def addressOf (base devDesc : Nat) : Option Nat :=
  if base + devDesc * 0x1000 < 2 ^ 64 then some (base + devDesc * 0x1000) else none

/-- `pci_base`; an empty list gives `None`, and a sum behind `u64` a panic. -/
def pciBase (base : Nat) (pciDevices : List Nat) (pciIdent : Nat) : Option Nat :=
  if pciDevices.isEmpty then none
  else
    let ident := decompressIdent pciIdent
    addressOf base (ident.1 * 256 + ident.2.1 * 8 + ident.2.2)

variable {σ : Type}

/-- The value that is there, or a panic. -/
def checked {α : Type} : Option α → PciM σ α
  | some a => pure a
  | none => throw .panic

variable (calls : PagingCalls σ) (config : ConfigurationSpace) (mcfg : Mcfg)

/-- `page_4k` for a page of the configuration space. -/
def page4K (addr : Nat) : PciM σ Unit := do
  let m ← get
  let paging ← checked (calls.page4K addr addr 0x13 m.paging)
  set { m with paging, mapped := addr :: m.mapped.filter fun a => a ≠ addr }

/-- `unpage_4k`. -/
def unpage4K (addr : Nat) : PciM σ Unit := do
  let m ← get
  let paging ← checked (calls.unpage4K addr m.paging)
  set { m with paging, mapped := m.mapped.filter fun a => a ≠ addr }

/-- A read in the configuration space. A page of it belongs to one function, so an index of a
device from 32 on reads what is on another bus. -/
def readHeader (bus device func : Nat) : PciM σ PciHeader := do
  modify fun m => { m with accessed := m.accessed ++ [(bus, device, func)] }
  let devDesc := bus * 256 + device * 8 + func
  pure (config (devDesc / 256) (devDesc / 8 % 32) (devDesc % 8))

/-- `DynamicAllocator::new`. -/
def newDevices (capacity : Nat) : PciM σ Unit := do
  let bytes := capacity * 8
  let pages := bytes / 0x1000 + if bytes % 0x1000 ≠ 0 then 1 else 0
  let m ← get
  match (m.virtualAllocator.alloc pages).value with
  | (.ok mb, a) =>
    set { m with virtualAllocator := a, devices := ⟨mb, [], pages * 0x1000 / 8⟩ }
  | (.error _, _) => throw .panic

/-- `push_back`; a full list moves to twice the room. -/
def pushBack (data : Nat) : PciM σ Unit := do
  let m ← get
  if m.devices.values.length + 1 > m.devices.capacity then
    let bytes := m.devices.capacity * 8
    let pages := (bytes / 0x1000 + if bytes % 0x1000 ≠ 0 then 1 else 0) * 2
    match (m.virtualAllocator.alloc (pages % 2 ^ 16)).value with
    | (.ok newMemory, a) =>
      match (a.free m.devices.memory).value with
      | (.ok _, a) =>
        let values := m.devices.values ++ [data]
        set { m with
          virtualAllocator := a
          devices := ⟨newMemory, values, m.devices.capacity * 2⟩ }
      | (.error _, _) => throw .panic
    | (.error _, _) => throw .panic
  else
    set { m with devices := { m.devices with values := m.devices.values ++ [data] } }

/-- The body of the loop over the functions of a device with many. -/
def scanFunction (bus device func : Nat) : PciM σ Unit := do
  let addr ← checked (addressOf mcfg.baseAddress (bus * 256 + device * 8 + func))
  page4K calls addr
  let header ← readHeader config bus device func
  if header.vendorId ≠ 0xFFFF then
    page4K calls addr
    pushBack (compressIdent bus device func)
  else
    unpage4K calls addr

/-- The body of the loop over the devices of a bus. -/
def scanDevice (bus device : Nat) : PciM σ Unit := do
  let addr ← checked (addressOf mcfg.baseAddress (bus * 256 + device * 8))
  page4K calls addr
  let header ← readHeader config bus device 0
  if header.vendorId = 0xFFFF then
    unpage4K calls addr
  else
    let header ← readHeader config bus device 0
    if header.headerType >>> 7 = 1 then
      (List.range 8).forM fun func => scanFunction calls config mcfg bus device func
    else
      pushBack (compressIdent bus device 0)

/-- The loops over the buses and devices. -/
def scan : PciM σ Unit :=
  (List.range' mcfg.startPciBusNumber (2 - mcfg.startPciBusNumber)).forM fun bus =>
    (List.range 255).forM fun device => scanDevice calls config mcfg bus device

def initializeBus : PciM σ Unit := do
  if mcfg.length < sizeOfMcfg then
    throw .panic
  else
    let pageOfEntries := mcfg.entries / 0x1000 * 0x1000
    let m ← get
    let paging ← checked (calls.page4K pageOfEntries pageOfEntries pagerPresent m.paging)
    set { m with paging }
    if (mcfg.length - sizeOfMcfg) / 16 ≠ 1 then
      throw .panic
    else
      newDevices 4
      scan calls config mcfg

end PciBus

end EmkKernel
