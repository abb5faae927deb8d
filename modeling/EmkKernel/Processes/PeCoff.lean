import EmkKernel.Drivers.Disk
import EmkKernel.Library.Checked

/-!
# The headers of PE files

`PeCoff::load` of `processes::pe` and its helpers. The structures are packed, and a
reference to one is to all of its bytes. A pointer to a number has to be aligned, and
arithmetic is checked.
-/

namespace EmkKernel

open Checked

inductive ExecutableLoadError where
  | unsupported
  | malformed
  | invalidISA
  | noIdata
  | missingSection
  | malformedSection
  | invalidAlignment
  | dependencyImportFailed
  | importMissing
  | memoryError
  deriving DecidableEq, Repr

abbrev PeM := Checked ExecutableLoadError

def peImageFileMachineAmd64 : Nat := 0x8664
def peImageFile32BitMachine : BitVec 16 := 0x0100
def peImageFileExecutableImage : BitVec 16 := 0x0002
def peImageFileBytesReversedHi : BitVec 16 := 0x8000

/-- `size_of` the structures. -/
def sizeOfPeHeader : Nat := 24
def sizeOfPe32OptionalHeader : Nat := 94
def sizeOfPe32PlusOptionalHeader : Nat := 110
def sizeOfImageDataDirectory : Nat := 8
def sizeOfImageSectionHeader : Nat := 40

/-- The fields of `PeHeader` that are used. -/
structure PeHeader where
  machine : Nat
  numberOfSections : Nat
  sizeOfOptionalHeader : Nat
  characteristics : BitVec 16

def PeHeader.at (memory : Nat → Byte) (address : Nat) : PeHeader where
  machine := littleEndian memory (address + 4) 2
  numberOfSections := littleEndian memory (address + 6) 2
  sizeOfOptionalHeader := littleEndian memory (address + 20) 2
  characteristics := BitVec.ofNat 16 (littleEndian memory (address + 22) 2)

/-- The fields of both optional headers that are used. -/
structure OptionalHeader where
  addressOfEntryPoint : Nat
  imageBase : Nat
  sectionAlignment : Nat
  fileAlignment : Nat
  win32VersionValue : Nat
  sizeOfImage : Nat
  sizeOfHeaders : Nat
  sizeOfStackReserve : Nat
  sizeOfStackCommit : Nat
  sizeOfHeapReserve : Nat
  sizeOfHeapCommit : Nat
  loaderFlags : Nat
  numberOfRvaAndSizes : Nat

/-- `Pe32OptionalHeader`, without the two bytes of the magic number. -/
def Pe32OptionalHeader.at (memory : Nat → Byte) (address : Nat) : OptionalHeader where
  addressOfEntryPoint := littleEndian memory (address + 14) 4
  imageBase := littleEndian memory (address + 26) 4
  sectionAlignment := littleEndian memory (address + 30) 4
  fileAlignment := littleEndian memory (address + 34) 4
  win32VersionValue := littleEndian memory (address + 50) 2
  sizeOfImage := littleEndian memory (address + 52) 4
  sizeOfHeaders := littleEndian memory (address + 56) 4
  sizeOfStackReserve := littleEndian memory (address + 70) 4
  sizeOfStackCommit := littleEndian memory (address + 74) 4
  sizeOfHeapReserve := littleEndian memory (address + 78) 4
  sizeOfHeapCommit := littleEndian memory (address + 82) 4
  loaderFlags := littleEndian memory (address + 86) 4
  numberOfRvaAndSizes := littleEndian memory (address + 90) 4

def Pe32PlusOptionalHeader.at (memory : Nat → Byte) (address : Nat) : OptionalHeader where
  addressOfEntryPoint := littleEndian memory (address + 14) 4
  imageBase := littleEndian memory (address + 22) 8
  sectionAlignment := littleEndian memory (address + 30) 4
  fileAlignment := littleEndian memory (address + 34) 4
  win32VersionValue := littleEndian memory (address + 50) 4
  sizeOfImage := littleEndian memory (address + 54) 4
  sizeOfHeaders := littleEndian memory (address + 58) 4
  sizeOfStackReserve := littleEndian memory (address + 70) 8
  sizeOfStackCommit := littleEndian memory (address + 78) 8
  sizeOfHeapReserve := littleEndian memory (address + 86) 8
  sizeOfHeapCommit := littleEndian memory (address + 94) 8
  loaderFlags := littleEndian memory (address + 102) 4
  numberOfRvaAndSizes := littleEndian memory (address + 106) 4

/-- A slice: the address of its first element, and their number. -/
structure PeSlice where
  address : Nat
  length : Nat
  deriving DecidableEq, Repr

/-- The fields of `UnifiedOptionalHeader` that are used. -/
structure UnifiedOptionalHeader where
  addressOfEntryPoint : Nat
  imageBase : Nat
  sectionAlignment : Nat
  fileAlignment : Nat
  sizeOfStackReserve : Nat
  sizeOfStackCommit : Nat
  rvaAndSizes : PeSlice

structure PeCoff where
  peCoffCharacteristics : BitVec 16
  optionalHeader : UnifiedOptionalHeader
  sectionTable : PeSlice
  is64bit : Bool

/-- A sum in `u64`, or a panic. -/
def addressSum (a b : Nat) : PeM Nat := orStop (sumU64 a b)

/-- A remainder, which panics where the divisor is zero. -/
def remainder (a b : Nat) : PeM Nat := if b = 0 then stop else pure (a % b)

/-- `*(address as *mut T)` for a `T` of `n` bytes. -/
def readNumber (memory : Nat → Byte) (address n : Nat) : PeM Nat := do
  if address % n ≠ 0 then stop
  else
    look address n
    pure (littleEndian memory address n)

namespace PeCoff

/-- The two optional headers are loaded in the same way. They differ in their layout, in
their size, and in what is malformed in `size_of_heap_reserve`. -/
def loadOptionalHeaderAt (layout : (Nat → Byte) → Nat → OptionalHeader) (bytes : Nat)
    (reserveMalformed : Nat → Bool) (memory : Nat → Byte) (size : Nat) (buffer : Buffer)
    (offset : Nat) : PeM UnifiedOptionalHeader := do
  let address ← addressSum buffer.ptr offset
  look address bytes
  let optionalHeader := layout memory address
  if optionalHeader.sectionAlignment ≠ 0x1000 ∧
      optionalHeader.sectionAlignment ≠ optionalHeader.fileAlignment then
    reject .malformed
  else if optionalHeader.win32VersionValue ≠ 0 then
    reject .malformed
  else
    let image ← remainder optionalHeader.sizeOfImage optionalHeader.sectionAlignment
    if image ≠ 0 then
      reject .malformed
    else
      let headers ← remainder optionalHeader.sizeOfHeaders optionalHeader.fileAlignment
      if headers ≠ 0 ∨ optionalHeader.loaderFlags ≠ 0 then
        reject .malformed
      else if bytes + 2 + optionalHeader.numberOfRvaAndSizes * sizeOfImageDataDirectory > size then
        reject .malformed
      else if optionalHeader.sizeOfHeapCommit % 0x1000 ≠ 0 ∨
          reserveMalformed optionalHeader.sizeOfHeapReserve ∨
          optionalHeader.sizeOfStackCommit % 0x1000 ≠ 0 ∨
          optionalHeader.sizeOfStackReserve % 0x1000 ≠ 0 then
        reject .malformed
      else
        let directories ← addressSum address bytes
        pure {
          addressOfEntryPoint := optionalHeader.addressOfEntryPoint
          imageBase := optionalHeader.imageBase
          sectionAlignment := optionalHeader.sectionAlignment
          fileAlignment := optionalHeader.fileAlignment
          sizeOfStackReserve := optionalHeader.sizeOfStackReserve
          sizeOfStackCommit := optionalHeader.sizeOfStackCommit
          rvaAndSizes := ⟨directories, optionalHeader.numberOfRvaAndSizes⟩ }

def loadOptionalHeader (memory : Nat → Byte) (size : Nat) (buffer : Buffer) (offset : Nat) :
    PeM UnifiedOptionalHeader :=
  loadOptionalHeaderAt Pe32OptionalHeader.at sizeOfPe32OptionalHeader (fun reserve => reserve ≠ 0)
    memory size buffer offset

def loadPlusOptionalHeader (memory : Nat → Byte) (size : Nat) (buffer : Buffer) (offset : Nat) :
    PeM UnifiedOptionalHeader :=
  loadOptionalHeaderAt Pe32PlusOptionalHeader.at sizeOfPe32PlusOptionalHeader
    (fun reserve => reserve % 0x1000 ≠ 0) memory size buffer offset

/-- The size of the buffer is cast to `u32`. -/
def load (memory : Nat → Byte) (buffer : Buffer) : PeM PeCoff := do
  let peOffset ← readNumber memory (← addressSum buffer.ptr 0x3C) 4
  if peOffset > buffer.originalSize % 2 ^ 32 then
    reject .malformed
  else
    let address ← addressSum buffer.ptr peOffset
    look address sizeOfPeHeader
    let peHeader := PeHeader.at memory address
    if peHeader.sizeOfOptionalHeader = 0 then
      reject .malformed
    else if peHeader.machine ≠ peImageFileMachineAmd64 then
      reject .invalidISA
    else if peHeader.characteristics &&& peImageFileExecutableImage = 0 ∨
        peHeader.characteristics &&& peImageFile32BitMachine ≠ 0 ∨
        peHeader.characteristics &&& peImageFileBytesReversedHi ≠ 0 then
      reject .malformed
    else
      let indicator ← readNumber memory (← addressSum address sizeOfPeHeader) 2
      let optionalOffset := peOffset + sizeOfPeHeader + 2
      let optionalBlock ← (
        if indicator = 0x10b then
          loadOptionalHeader memory peHeader.sizeOfOptionalHeader buffer optionalOffset
        else if indicator = 0x20b then
          loadPlusOptionalHeader memory peHeader.sizeOfOptionalHeader buffer optionalOffset
        else reject .malformed)
      let sections ← addressSum (← addressSum address sizeOfPeHeader) peHeader.sizeOfOptionalHeader
      pure {
        peCoffCharacteristics := peHeader.characteristics
        optionalHeader := optionalBlock
        sectionTable := ⟨sections, peHeader.numberOfSections⟩
        is64bit := indicator = 0x20b }

end PeCoff

end EmkKernel
