import EmkKernel.Hal.PciBus
import EmkKernel.Memory.Bytes
import EmkKernel.Utils.PageAllocator

/-!
# The ACPI tables

`acpi_tables::AcpiTables`: the RSDP leads to the RSDT, and the entries of the RSDT to the
tables, which are paged at their own addresses before they are read. The memory that the
tables lie in is read at these addresses.
-/

namespace EmkKernel

inductive AcpiTableId where
  | apic
  | facp
  | srat
  | ssdt
  | dsdt
  | hpet
  | mcfg
  | unused
  deriving DecidableEq, Repr

structure AcpiTable where
  table : AcpiTableId
  ptr : Nat
  length : Nat
  deriving DecidableEq, Repr

/-- What the pager works on, the virtual allocator, the memory of the records, the records,
and the entries of the RSDT that were read, with the pager at that time. -/
structure AcpiMachine (σ : Type) where
  paging : σ
  virtualAllocator : Allocator
  memory : MemoryBlock
  tables : PageAllocator AcpiTable
  entryReads : List (Nat × σ)

abbrev AcpiM (σ : Type) := EStateM Stop (AcpiMachine σ)

/-- `page_align`. -/
def pageAlign (ptr : Nat) : Nat := ptr / 0x1000 * 0x1000

def apicSignature : Nat := 0x43495041
def facpSignature : Nat := 0x50434146
def sratSignature : Nat := 0x54415253
def ssdtSignature : Nat := 0x54445353
def hpetSignature : Nat := 0x54455048
def mcfgSignature : Nat := 0x4746434D

/-- The identifier of a signature. -/
def AcpiTableId.ofSignature (sig : Nat) : AcpiTableId :=
  if sig = apicSignature then .apic
  else if sig = facpSignature then .facp
  else if sig = sratSignature then .srat
  else if sig = ssdtSignature then .ssdt
  else if sig = hpetSignature then .hpet
  else if sig = mcfgSignature then .mcfg
  else .unused

def sizeOfRsdt : Nat := 36
/-- A pointer, a `u32` and a byte. -/
def sizeOfAcpiTable : Nat := 16

/-- Pages for a number of bytes, in `u32`. -/
def pagesFor (length : Nat) : Nat := (if length % 0x1000 ≠ 0 then 1 else 0) + length / 0x1000

/-- The pages for a number of records; the quotient is cast to `u16`. -/
def recordPages (capacity : Nat) : Nat :=
  (if capacity * sizeOfAcpiTable % 0x1000 ≠ 0 then 1 else 0) +
    capacity * sizeOfAcpiTable / 0x1000 % 2 ^ 16

/-- The records that the pages have room for. -/
def recordRoom (capacity : Nat) : Nat := recordPages capacity * 0x1000 / sizeOfAcpiTable

namespace AcpiTables

variable {σ : Type}

/-- The records before `initialize`. -/
def noTables : PageAllocator AcpiTable := ⟨fun _ => ⟨.apic, 0, 0⟩, 0, 0⟩

section Calls

variable (calls : PagingCalls σ) (memory : Nat → Byte)

/-- `page_4k` of a page at its own address, with `PRESENT`. -/
def page4K (addr : Nat) : AcpiM σ Unit := do
  let m ← get
  match calls.page4K addr addr pagerPresent m.paging with
  | some paging => set { m with paging := paging }
  | none => throw .panic

/-- `free`, whose result nobody looks at. -/
def freeTables : AcpiM σ Unit := modify fun m =>
  if m.memory.base = 0 then { m with tables := noTables }
  else
    match (m.virtualAllocator.free m.memory).value with
    | (.ok _, a) => { m with virtualAllocator := a, memory := ⟨0, 0⟩, tables := noTables }
    | (.error _, a) => { m with virtualAllocator := a, tables := noTables }

/-- `PageAllocator::initialize`. -/
def initializeTables (capacity : Nat) : AcpiM σ Unit := do
  -- the product is a `u32`, and the number of pages a `u16`
  if capacity * sizeOfAcpiTable ≥ 2 ^ 32 then throw .panic
  else if recordPages capacity ≥ 2 ^ 16 then throw .panic
  else
    let m ← get
    match (m.virtualAllocator.alloc (recordPages capacity)).value with
    | (.ok mb, a) =>
      set { m with
        virtualAllocator := a
        memory := mb
        tables := { noTables with capacity := recordRoom capacity } }
    | (.error _, _) => throw .panic

/-- `push_back`, whose result nobody looks at. -/
def pushBack (table : AcpiTable) : AcpiM σ Unit :=
  modify fun m => { m with tables := (m.tables.pushBack table).2 }

/-- The DSDT that an FADT refers to. -/
def recordDsdt (fadt : Nat) : AcpiM σ Unit :=
  -- the field is read through a pointer to a structure with an alignment of 8
  if fadt % 8 ≠ 0 then throw .panic
  else do
    let dsdt := littleEndian memory (fadt + 40) 4
    page4K calls (pageAlign dsdt)
    pushBack ⟨.dsdt, dsdt, littleEndian memory (dsdt + 4) 4⟩

/-- The address of an entry of the RSDT. -/
def entryAddress (rsdt i : Nat) : Nat := rsdt + sizeOfRsdt + i * 4

/-- The body of the loop over the entries of the RSDT. -/
def recordTable (rsdt i : Nat) : AcpiM σ Unit := do
  let entry := entryAddress rsdt i
  if entry % 4 ≠ 0 then throw .panic
  else
    modify fun m => { m with entryReads := m.entryReads ++ [(entry, m.paging)] }
    let dt := littleEndian memory entry 4
    page4K calls (pageAlign dt)
    let length := littleEndian memory (dt + 4) 4
    (List.range' 1 (pagesFor length - 1)).forM fun i => page4K calls (pageAlign dt + i * 0x1000)
    if dt % 4 ≠ 0 then throw .panic
    else
      let sig := littleEndian memory dt 4
      if sig = facpSignature then recordDsdt calls memory dt
      pushBack ⟨.ofSignature sig, dt, length⟩

/-- `AcpiTables::initialize`. -/
def initializeAcpi (rsdp : Nat) : AcpiM σ Unit := do
  freeTables
  page4K calls (pageAlign rsdp)
  let rsdt := littleEndian memory (rsdp + 16) 4
  page4K calls (pageAlign rsdt)
  let length := littleEndian memory (rsdt + 4) 4
  if length < sizeOfRsdt then throw .panic
  else
    let numTables := (length - sizeOfRsdt) / 4
    initializeTables numTables
    (List.range numTables).forM fun i => recordTable calls memory rsdt i

/-- `AcpiTables::new`. -/
def new (rsdp : Nat) (paging : σ) (virtualAllocator : Allocator) :
    EStateM.Result Stop (AcpiMachine σ) Unit :=
  initializeAcpi calls memory rsdp ⟨paging, virtualAllocator, ⟨0, 0⟩, noTables, []⟩

end Calls

/-- `get_table`. -/
def getTable (tables : PageAllocator AcpiTable) (tableId : AcpiTableId) : Option AcpiTable :=
  tables.values.find? fun t => t.table = tableId

end AcpiTables

end EmkKernel
