import EmkKernel.Library.Checked
import EmkKernel.Memory.Allocator
import EmkKernel.Utils.PageAllocator

/-!
# USB configurations

The configuration parsers of the four host controller drivers,
`drivers::usb::{uhci, ohci, ehci, xhci}::configuration_parser`. Each walks over the
descriptors behind a configuration descriptor and carves the endpoints of an interface out
of a table that all devices share. What is looked at are the bytes of the fields that are
read; of a descriptor that is only peeked at, this is its type.
-/

namespace EmkKernel

open Checked

/-- The fields of `UsbInterfaceDescriptor` that are read. -/
structure UsbInterfaceDescriptor where
  bInterfaceNumber : Byte
  bAlternateSetting : Byte
  bNumEndpoints : Byte
  bInterfaceClass : Byte
  bInterfaceSubClass : Byte
  bInterfaceProtocol : Byte
  deriving DecidableEq, Repr

structure UsbEndpointDescriptor where
  bEndpointAddress : Byte
  bmAttributes : Byte
  wMaxPacketSize : Nat
  bInterval : Byte
  deriving DecidableEq, Repr

structure UsbHID where
  bcdHid : Nat
  countryCode : Byte
  numDescriptors : Byte
  descriptorType : Byte
  descriptorLength : Nat
  interfaceIndex : Byte
  deriving DecidableEq, Repr

/-- The interface descriptor at an address. -/
def interfaceDescriptorAt (memory : Nat → Byte) (data : Nat) : UsbInterfaceDescriptor :=
  ⟨memory (data + 2), memory (data + 3), memory (data + 4), memory (data + 5), memory (data + 6),
    memory (data + 7)⟩

def endpointDescriptorAt (memory : Nat → Byte) (data : Nat) : UsbEndpointDescriptor :=
  ⟨memory (data + 2), memory (data + 3), littleEndian memory (data + 4) 2, memory (data + 6)⟩

/-- What is kept of the HID descriptor at an address. -/
def hidAt (memory : Nat → Byte) (data : Nat) (interfaceIndex : Byte) : UsbHID :=
  ⟨littleEndian memory (data + 2) 2, memory (data + 4), memory (data + 5), memory (data + 6),
    littleEndian memory (data + 7) 2, interfaceIndex⟩

/-- `UsbDescriptorType::Endpoint`. -/
def endpointType : Byte := 5

/-- A slice of a table. -/
structure TableSlice where
  start : Nat
  length : Nat
  deriving DecidableEq, Repr

/-- Where a parser stands: its pointer, what it has of the configuration, the tables of the
driver, and what only one of the drivers has. -/
structure UsbParsing (ι ε σ : Type) where
  data : Nat
  numEndpoints : Nat
  hidInterfaces : List UsbHID
  interfaces : PageAllocator ι
  endpoints : PageAllocator ε
  own : σ

/-- What differs between the drivers: how a table gives the slice behind its values, which
descriptors may stand in place of the first endpoint, and the two conversions. An endpoint
comes with the pointer behind its descriptors. -/
structure UsbDriver (ι ε σ : Type) where
  opens : {T : Type} → PageAllocator T → Option Nat
  handleSpecialDescriptor : (Nat → Byte) → Byte → UsbParsing ι ε σ →
    Checked Empty (UsbParsing ι ε σ)
  interfaceFromRaw : UsbInterfaceDescriptor → TableSlice → ι
  readEndpoint : (Nat → Byte) → Nat → σ → Checked Empty (ε × Nat × σ)

/-- Where `whole_as_mut_slice(offset)` begins. -/
def PageAllocator.wholeAsMutSlice {T : Type} (self : PageAllocator T) (offset : Nat) : Option Nat :=
  if offset ≥ self.capacity then none else some offset

/-- The slot of `as_mut_ptr(index)`. -/
def PageAllocator.asMutPtr {T : Type} (self : PageAllocator T) (index : Nat) : Option Nat :=
  if index > self.allocated then none else some index

namespace UsbDriver

variable {ι ε σ : Type}

/-- The branch of `handle_special_descriptor` for a HID descriptor. The slice of them is
made longer without a look at the memory behind it. -/
def handleHid (memory : Nat → Byte) (interfaceIndex : Byte) (c : UsbParsing ι ε σ) :
    Checked Empty (UsbParsing ι ε σ) := do
  look c.data 9
  pure { c with
    data := c.data + 9
    hidInterfaces := c.hidInterfaces ++ [hidAt memory c.data interfaceIndex] }

/-- `handle_special_descriptor` of all drivers but that of xHCI. -/
def handleHidOnly (memory : Nat → Byte) (interfaceIndex : Byte) (c : UsbParsing ι ε σ) :
    Checked Empty (UsbParsing ι ε σ) :=
  if memory (c.data + 1) = 0x21 then handleHid memory interfaceIndex c else stop

/-- The loop over the endpoints of an interface. A full table does not take one. -/
def endpointLoop (driver : UsbDriver ι ε σ) (memory : Nat → Byte) :
    Nat → UsbParsing ι ε σ → Checked Empty (UsbParsing ι ε σ)
  | 0, c => pure c
  | n + 1, c => do
    let read ← driver.readEndpoint memory c.data c.own
    endpointLoop driver memory n { c with
      endpoints := (c.endpoints.pushBack read.1).2
      data := read.2.1
      own := read.2.2 }

/-- The peek at the descriptor behind an interface descriptor. -/
def peekSpecial (driver : UsbDriver ι ε σ) (memory : Nat → Byte) (i : Nat) (c : UsbParsing ι ε σ) :
    Checked Empty (UsbParsing ι ε σ) := do
  look (c.data + 1) 1
  if memory (c.data + 1) ≠ endpointType then
    driver.handleSpecialDescriptor memory (BitVec.ofNat 8 i) c
  else
    pure c

/-- The interface goes into its table, with a slice of the endpoints that come next. -/
def pushInterface (driver : UsbDriver ι ε σ) (descriptor : UsbInterfaceDescriptor)
    (c : UsbParsing ι ε σ) : Checked Empty (UsbParsing ι ε σ) := do
  let start ← orStop (driver.opens c.endpoints)
  let interface := driver.interfaceFromRaw descriptor ⟨start, descriptor.bNumEndpoints.toNat⟩
  let numEndpoints := c.numEndpoints + descriptor.bNumEndpoints.toNat
  if numEndpoints < 2 ^ 16 then
    pure { c with interfaces := (c.interfaces.pushBack interface).2, numEndpoints }
  else
    stop

/-- The loop over the interfaces from index `i` on. -/
def interfaceLoop (driver : UsbDriver ι ε σ) (memory : Nat → Byte) (i : Nat) :
    Nat → UsbParsing ι ε σ → Checked Empty (UsbParsing ι ε σ)
  | 0, c => pure c
  | n + 1, c => do
    look c.data 9
    let descriptor := interfaceDescriptorAt memory c.data
    let c ← driver.peekSpecial memory i { c with data := c.data + 9 }
    let c ← driver.pushInterface descriptor c
    let c ← endpointLoop driver memory descriptor.bNumEndpoints.toNat c
    interfaceLoop driver memory (i + 1) n c

/-- What the functions `new` share: the slice of interfaces begins behind those that are
there, and has the length that it was asked for. -/
def newConfiguration (driver : UsbDriver ι ε σ) (interfaces : PageAllocator ι)
    (endpoints : PageAllocator ε) (own : σ) (memory : Nat → Byte) (data numInterfaces : Nat) :
    Checked Empty (TableSlice × UsbParsing ι ε σ) := do
  let start ← orStop (driver.opens interfaces)
  let c ← interfaceLoop driver memory 0 numInterfaces ⟨data, 0, [], interfaces, endpoints, own⟩
  pure (⟨start, numInterfaces⟩, c)

end UsbDriver

/-! ## UHCI -/

/-- The fields of `UhciGeneralEndpoint` that a descriptor determines. -/
structure UhciGeneralEndpoint where
  endpointAddress : Byte
  bmAttributes : Byte
  wMaxPacketSize : Nat
  bInterval : Byte

def UhciGeneralEndpoint.fromRaw (descriptor : UsbEndpointDescriptor) : UhciGeneralEndpoint :=
  ⟨descriptor.bEndpointAddress, descriptor.bmAttributes, descriptor.wMaxPacketSize,
    descriptor.bInterval⟩

structure UhciInterface where
  interfaceClass : Byte
  interfaceSubClass : Byte
  interfaceProtocol : Byte
  interfaceNumber : Byte
  alternateSetting : Byte
  endpoints : TableSlice

def UhciInterface.fromRaw (descriptor : UsbInterfaceDescriptor) (endpoints : TableSlice) :
    UhciInterface :=
  ⟨descriptor.bInterfaceClass, descriptor.bInterfaceSubClass, descriptor.bInterfaceProtocol,
    descriptor.bInterfaceNumber, descriptor.bAlternateSetting, endpoints⟩

def uhciDriver : UsbDriver UhciInterface UhciGeneralEndpoint Unit where
  opens table := table.wholeAsMutSlice table.size
  handleSpecialDescriptor := UsbDriver.handleHidOnly
  interfaceFromRaw := UhciInterface.fromRaw
  readEndpoint memory data _ := do
    look data 7
    pure (.fromRaw (endpointDescriptorAt memory data), data + 7, ())

/-- `UhciDeviceConfiguration::new`, with the pointer at its end. -/
def uhciDeviceConfigurationNew (interfaces : PageAllocator UhciInterface)
    (endpoints : PageAllocator UhciGeneralEndpoint) (memory : Nat → Byte)
    (data numInterfaces : Nat) :
    Checked Empty (TableSlice × UsbParsing UhciInterface UhciGeneralEndpoint Unit) :=
  uhciDriver.newConfiguration interfaces endpoints () memory data numInterfaces

/-! ## OHCI -/

/-- The fields of `OhciGeneralEndpoint` that a descriptor determines. -/
structure OhciGeneralEndpoint where
  endpointAddress : Byte
  bmAttributes : Byte
  wMaxPacketSize : Nat
  bInterval : Byte

def OhciGeneralEndpoint.fromRaw (descriptor : UsbEndpointDescriptor) : OhciGeneralEndpoint :=
  ⟨descriptor.bEndpointAddress, descriptor.bmAttributes, descriptor.wMaxPacketSize,
    descriptor.bInterval⟩

structure OhciInterface where
  interfaceNumber : Byte
  alternateSetting : Byte
  interfaceClass : Byte
  interfaceSubClass : Byte
  interfaceProtocol : Byte
  endpoints : TableSlice

def OhciInterface.fromRaw (descriptor : UsbInterfaceDescriptor) (endpoints : TableSlice) :
    OhciInterface :=
  ⟨descriptor.bInterfaceNumber, descriptor.bAlternateSetting, descriptor.bInterfaceClass,
    descriptor.bInterfaceSubClass, descriptor.bInterfaceProtocol, endpoints⟩

def ohciDriver : UsbDriver OhciInterface OhciGeneralEndpoint Unit where
  opens table := table.asMutPtr table.size
  handleSpecialDescriptor := UsbDriver.handleHidOnly
  interfaceFromRaw := OhciInterface.fromRaw
  readEndpoint memory data _ := do
    look data 7
    pure (.fromRaw (endpointDescriptorAt memory data), data + 7, ())

/-- `OhciDeviceConfiguration::new`, with the pointer at its end. -/
def ohciDeviceConfigurationNew (interfaces : PageAllocator OhciInterface)
    (endpoints : PageAllocator OhciGeneralEndpoint) (memory : Nat → Byte)
    (data numInterfaces : Nat) :
    Checked Empty (TableSlice × UsbParsing OhciInterface OhciGeneralEndpoint Unit) :=
  ohciDriver.newConfiguration interfaces endpoints () memory data numInterfaces

/-! ## EHCI -/

structure EhciEndpointInformation where
  endpointAddress : Byte
  attributes : Byte
  maxPacketSize : Nat
  interval : Byte

/-- `EhciEndpoint` without its queue head. -/
structure EhciEndpoint where
  endpointIndex : Byte
  maximumQtds : Nat
  qtdBase : Nat
  endpointInformation : EhciEndpointInformation

def EhciEndpoint.fullNewFromRaw (descriptor : UsbEndpointDescriptor) (maximumQtds qtdBase : Nat) :
    EhciEndpoint :=
  ⟨descriptor.bEndpointAddress &&& 0xF, maximumQtds, qtdBase,
    ⟨descriptor.bEndpointAddress, descriptor.bmAttributes, descriptor.wMaxPacketSize,
      descriptor.bInterval⟩⟩

structure EhciInterface where
  numEndpoints : Byte
  interfaceClass : Byte
  interfaceSubClass : Byte
  interfaceProtocol : Byte
  iInterface : Byte
  endpoints : TableSlice

/-- `from_raw`, which takes the protocol for the index of the text. -/
def EhciInterface.fromRaw (descriptor : UsbInterfaceDescriptor) (endpoints : TableSlice) :
    EhciInterface :=
  ⟨descriptor.bNumEndpoints, descriptor.bInterfaceClass, descriptor.bInterfaceSubClass,
    descriptor.bInterfaceProtocol, descriptor.bInterfaceProtocol, endpoints⟩

/-- A call of the allocator that panics when it fails. -/
def unwrapMemory {α : Type} (call : Traced (Except Stop α × Allocator)) : Option (α × Allocator) :=
  match call.value with
  | (.ok value, allocator) => some (value, allocator)
  | (.error _, _) => none

/-- Each endpoint gets two pages of its own. -/
def ehciDriver : UsbDriver EhciInterface EhciEndpoint Allocator where
  opens table := table.asMutPtr table.size
  handleSpecialDescriptor := UsbDriver.handleHidOnly
  interfaceFromRaw := EhciInterface.fromRaw
  readEndpoint memory data allocator := do
    let pages ← orStop (unwrapMemory (allocator.alloc 2))
    look data 7
    pure (.fullNewFromRaw (endpointDescriptorAt memory data) 256 pages.1.base, data + 7, pages.2)

/-- The end of `EhciDeviceConfiguration::new`: the page for the HID descriptors is given back
when there are none. -/
def releaseHidPage (page : MemoryBlock)
    (parsed : TableSlice × UsbParsing EhciInterface EhciEndpoint Allocator) :
    Checked Empty (TableSlice × UsbParsing EhciInterface EhciEndpoint Allocator) :=
  if parsed.2.hidInterfaces.length = 0 then do
    let freed ← orStop (unwrapMemory (parsed.2.own.free ⟨page.base, 0x1000⟩))
    pure (parsed.1, { parsed.2 with own := freed.2 })
  else
    pure parsed

/-- `EhciDeviceConfiguration::new`, with the pointer at its end. -/
def ehciDeviceConfigurationNew (interfaces : PageAllocator EhciInterface)
    (endpoints : PageAllocator EhciEndpoint) (allocator : Allocator) (memory : Nat → Byte)
    (data numInterfaces : Nat) :
    Checked Empty (TableSlice × UsbParsing EhciInterface EhciEndpoint Allocator) := do
  let page ← orStop (unwrapMemory (allocator.alloc 1))
  let parsed ← ehciDriver.newConfiguration interfaces endpoints page.2 memory data numInterfaces
  releaseHidPage page.1 parsed

/-! ## xHCI -/

/-- The fields of `XhciEndpointDescriptor` that descriptors determine. -/
structure XhciEndpointDescriptor where
  bmAttributes : Byte
  endpointAddress : Byte
  interval : Byte
  maxPacketSize : Nat
  superspeedMaxBurst : Byte
  superspeedBmAttributes : Byte

def XhciEndpointDescriptor.fromDescriptor (descriptor : UsbEndpointDescriptor) :
    XhciEndpointDescriptor :=
  ⟨descriptor.bmAttributes, descriptor.bEndpointAddress, descriptor.bInterval,
    descriptor.wMaxPacketSize, 0, 0⟩

structure XhciInterface where
  interfaceClass : Byte
  subClass : Byte
  protocol : Byte
  endpoints : TableSlice

def XhciInterface.fromRaw (descriptor : UsbInterfaceDescriptor) (endpoints : TableSlice) :
    XhciInterface :=
  ⟨descriptor.bInterfaceClass, descriptor.bInterfaceSubClass, descriptor.bInterfaceProtocol,
    endpoints⟩

/-- `u1_exit_latency` and `u2_exit_latency`. -/
structure XhciExitLatencies where
  u1 : Option Byte
  u2 : Option Nat

/-- The branch of `handle_special_descriptor` for a device capability. -/
def handleDeviceCapability (memory : Nat → Byte)
    (c : UsbParsing XhciInterface XhciEndpointDescriptor XhciExitLatencies) :
    Checked Empty (UsbParsing XhciInterface XhciEndpointDescriptor XhciExitLatencies) := do
  look (c.data + 2) 1
  let own ← (do
    if memory (c.data + 2) = 3 then
      look (c.data + 10) 3
      pure ⟨some (memory (c.data + 10)), some (littleEndian memory (c.data + 11) 2)⟩
    else
      pure c.own)
  look c.data 1
  pure { c with data := c.data + (memory c.data).toNat, own }

def xhciDriver : UsbDriver XhciInterface XhciEndpointDescriptor XhciExitLatencies where
  opens table := table.wholeAsMutSlice table.size
  handleSpecialDescriptor memory interfaceIndex c :=
    if memory (c.data + 1) = 0x10 then handleDeviceCapability memory c
    else if memory (c.data + 1) = 0x21 then UsbDriver.handleHid memory interfaceIndex c
    else stop
  interfaceFromRaw := XhciInterface.fromRaw
  readEndpoint memory data own := do
    look data 7
    let endpoint := XhciEndpointDescriptor.fromDescriptor (endpointDescriptorAt memory data)
    let data := data + 7
    -- the next descriptor is peeked at, also behind the last one
    look (data + 1) 1
    if memory (data + 1) = 48 then
      look (data + 2) 2
      pure ({ endpoint with
        superspeedMaxBurst := memory (data + 2)
        superspeedBmAttributes := memory (data + 3) }, data + 6, own)
    else
      pure (endpoint, data, own)

/-- `XhciDeviceConfiguration::new`, with the pointer at its end. -/
def xhciDeviceConfigurationNew (interfaces : PageAllocator XhciInterface)
    (endpoints : PageAllocator XhciEndpointDescriptor) (memory : Nat → Byte)
    (data numInterfaces : Nat) :
    Checked Empty (TableSlice × UsbParsing XhciInterface XhciEndpointDescriptor
      XhciExitLatencies) :=
  xhciDriver.newConfiguration interfaces endpoints ⟨none, none⟩ memory data numInterfaces

end EmkKernel
