import EmkKernel.Drivers.UhciControlTransfers
import EmkKernel.Drivers.UsbConfiguration

/-!
# Interrupt endpoints of a UHCI controller

The part of `UhciInterfaceData` that bulk and interrupt endpoints use: its `acquire` functions,
what `untraited_work2` does for an interrupt endpoint, and `interrupt_check_interrupt`. The
branch for bulk endpoints stops at a `todo!`, so only its two acquiring functions are here.

The link of the last descriptor of an endpoint is no pointer: where the controller has come to
it, the queue head holds the place and the number of its descriptors.
-/

namespace EmkKernel

open WordFields UhciControlEndpoint

namespace UhciTransferDescriptor

variable (td : UhciTransferDescriptor)

def status : BitVec 32 := getPart td.control 0xFF 16

def actLen : BitVec 32 := getPart td.control 0x7FF 0

def setActLen (value : BitVec 32) : UhciTransferDescriptor :=
  { td with control := setPart td.control 0x7FF 0 value }

def setCErr (value : BitVec 32) : UhciTransferDescriptor :=
  { td with control := setPart td.control 0x3 27 value }

def setIoc (value : Bool) : UhciTransferDescriptor :=
  { td with control := setBit td.control 24 value }

def setLs (value : Bool) : UhciTransferDescriptor :=
  { td with control := setBit td.control 26 value }

def setVf (value : Bool) : UhciTransferDescriptor := { td with link := setBit td.link 2 value }

def setPid (value : BitVec 32) : UhciTransferDescriptor :=
  { td with token := setPart td.token 0xFF 0 value }

def setMaxLen (value : BitVec 32) : UhciTransferDescriptor :=
  { td with token := setPart td.token 0x7FF 21 value }

/-- The bit `D`. -/
def setD (value : Bool) : UhciTransferDescriptor := { td with token := setBit td.token 19 value }

/-- A step of `construct_closed_td_list`, with the address of the next descriptor. -/
def closed (next : Option Nat) (lowSpeed vf : Bool) : UhciTransferDescriptor :=
  let td := match next with
    | some address => td.writeLinkPointer (BitVec.ofNat 32 address)
    | none => td.setT true
  let td := td.setVf vf
  let td := if lowSpeed then td.setLs true else td
  td.setCErr 0b11

/-- A step of `configure_transfer_descriptors`. -/
def configured (endpoint : UhciGeneralEndpoint) (deviceAddress : Byte) (lowSpeed : Bool)
    (maxLen : Nat) (dataToggle : Bool) : UhciTransferDescriptor :=
  let isIn := endpoint.endpointAddress >>> 7 = 1
  td.setDeviceAddress (deviceAddress.setWidth 32)
    |>.setEndPt ((endpoint.endpointAddress &&& 0b1111).setWidth 32)
    |>.setPid (if isIn then pidIn else pidOut)
    |>.setMaxLen (BitVec.ofNat 32 maxLen)
    |>.setLs lowSpeed
    |>.setStatus (1#32 <<< 7)
    |>.setActLen 0
    |>.setD dataToggle

/-- A step of the loop of `interrupt_check_interrupt` over the descriptors. -/
def recycled (flipToggle : Bool) : UhciTransferDescriptor :=
  let td := if flipToggle then td.setD (!td.toggle) else td
  td.setActLen 0 |>.setIoc true |>.setStatus (1#32 <<< 7)

/-- What the controller leaves of a descriptor that was answered. -/
def answered (length : BitVec 32) : UhciTransferDescriptor := td.setStatus 0 |>.setActLen length

end UhciTransferDescriptor

/-- `u8_rounded_to_highest_power_of_2`. -/
def u8RoundedToHighestPowerOf2 (value : Byte) : Nat :=
  match (List.range 8).reverse.find? fun i => value.getLsbD i with
  | some i => 2 ^ i
  | none => 0

/-- An array of descriptors one behind the other, with the index of its interrupt queue head. -/
structure UhciTransferDescriptorArray where
  transferDescriptors : Nat
  length : Nat
  interval : Nat
  queueHead : Nat

/-- The descriptor with an index. -/
def UhciTransferDescriptorArray.td (a : UhciTransferDescriptorArray) (i : Nat) : Nat :=
  tdAddress a.transferDescriptors i

/-- Memory is read descriptor by descriptor; of a queue head there is the element pointer. -/
structure UhciInterfaceData where
  memory : Nat → UhciTransferDescriptor
  elements : Nat → BitVec 32
  interruptTds : Nat
  bulkTransferDescriptors : Nat
  interruptQueueHeadsIndices : Nat → Nat
  tdArrays : List UhciTransferDescriptorArray
  allocatedInterruptQueueHeads : Nat
  allocatedBulkQueueHeads : Nat
  allocatedBulkTransferDescriptors : Nat
  allocatedInterruptTransferDescriptors : Nat → Nat

namespace UhciInterfaceData

open UhciTransferDescriptor

/-- The slices of the page of interrupt descriptors, one for each interval. The first half of
another page is for bulk endpoints. -/
def interruptTransferDescriptors : List (Nat × Nat) :=
  [(0, 128), (128, 20), (148, 20), (168, 32), (200, 16), (216, 16), (232, 6), (238, 6), (244, 6),
    (250, 4), (254, 2)]

def listOffset (index : Nat) : Nat := (interruptTransferDescriptors.getD index (0, 0)).1

def listLength (index : Nat) : Nat := (interruptTransferDescriptors.getD index (0, 0)).2

variable (d : UhciInterfaceData)

/-- The address of a slice. -/
def list (index : Nat) : Nat := tdAddress d.interruptTds (listOffset index)

/-! Nothing is returned where the code panics. -/

def acquireBulkQh : Option UhciInterfaceData :=
  if d.allocatedBulkQueueHeads < 11 then
    some { d with allocatedBulkQueueHeads := d.allocatedBulkQueueHeads + 1 }
  else none

/-- The address of the descriptors. -/
def acquireBulkTds (tdsNeeded : Nat) : Option (Nat × UhciInterfaceData) :=
  let first := d.allocatedBulkTransferDescriptors
  if first + tdsNeeded > 128 then none
  else some (tdAddress d.bulkTransferDescriptors first, { d with
    allocatedBulkTransferDescriptors := first + tdsNeeded })

/-- The queue head and the place of the descriptors in their slice. -/
def acquireQhAndTdsForInterrupt (tdsNeeded index : Nat) :
    Option (Nat × Nat × UhciInterfaceData) :=
  let qh := d.allocatedInterruptQueueHeads
  let first := d.allocatedInterruptTransferDescriptors index
  if 11 ≤ qh then none
  else if first + tdsNeeded > listLength index then none
  else if 11 ≤ d.allocatedBulkQueueHeads then none
  else some (qh, first, { d with
    interruptQueueHeadsIndices :=
      Function.update d.interruptQueueHeadsIndices d.allocatedBulkQueueHeads index
    allocatedInterruptQueueHeads := qh + 1
    allocatedInterruptTransferDescriptors :=
      Function.update d.allocatedInterruptTransferDescriptors index (first + tdsNeeded) })

/-- The loop of `construct_closed_td_list` over the last descriptors. -/
def constructClosedTdList (lowSpeed vf : Bool) :
    Nat → Nat → (Nat → UhciTransferDescriptor) → Nat → UhciTransferDescriptor
  | 0, _, memory => memory
  | n + 1, address, memory =>
    let next := if n = 0 then none else some (address + 16)
    constructClosedTdList lowSpeed vf n (address + 16)
      (Function.update memory address ((memory address).closed next lowSpeed vf))

def configureTransferDescriptors (endpoint : UhciGeneralEndpoint) (deviceAddress : Byte)
    (lowSpeed : Bool) : Nat → Nat → Bool → Nat → (Nat → UhciTransferDescriptor) →
      Option (Nat → UhciTransferDescriptor)
  | 0, _, _, _, memory => some memory
  | n + 1, address, dataToggle, lengthRem, memory =>
    if lengthRem = 0 then none
    else
      let took := if lengthRem > 64 then 64 else lengthRem
      configureTransferDescriptors endpoint deviceAddress lowSpeed n (address + 16) (!dataToggle)
        (lengthRem - took) (Function.update memory address
          ((memory address).configured endpoint deviceAddress lowSpeed (took - 1) dataToggle))

def queueHeadWasInterrupt : BitVec 32 := 1#32 <<< 29

/-- The link of the last descriptor. -/
def interruptLink (offset length : Nat) : BitVec 32 :=
  queueHeadWasInterrupt ||| (BitVec.ofNat 32 offset &&& 0xFFF) <<< 12 |||
    (BitVec.ofNat 32 length &&& 0xFF) <<< 4

/-- The descriptors of a new interrupt endpoint, and its queue head. -/
def attachInterrupt (endpoint : UhciGeneralEndpoint) (deviceAddress : Byte) (lowSpeed : Bool)
    (length index interval qh first : Nat) : Option UhciInterfaceData :=
  let address := tdAddress (d.list index) first
  let memory := constructClosedTdList lowSpeed true length address d.memory
  (configureTransferDescriptors endpoint deviceAddress lowSpeed length address false
    endpoint.wMaxPacketSize memory).bind fun memory =>
      if length = 0 then none
      else
        let last := tdAddress address (length - 1)
        some { d with
          memory := Function.update memory last
            ((memory last).writeLinkPointer (interruptLink first length))
          elements := Function.update d.elements qh
            (setQueueElementLinkPointer (setBit (d.elements qh) 0 true) address)
          tdArrays := d.tdArrays ++ [⟨address, length, interval, qh⟩] }

/-- What `untraited_work2` does for an interrupt endpoint, but for the frame list. -/
def registerInterrupt (endpoint : UhciGeneralEndpoint) (deviceAddress : Byte) (lowSpeed : Bool) :
    Option UhciInterfaceData :=
  let realInterval := u8RoundedToHighestPowerOf2 endpoint.bInterval
  if realInterval = 0 then none
  else
    let index := realInterval.log2
    if 11 ≤ index then none
    else
      let tdsNeeded := tdsRequired 64 endpoint.wMaxPacketSize % 2 ^ 8
      (d.acquireQhAndTdsForInterrupt tdsNeeded index).bind fun (qh, first, d) =>
        d.attachInterrupt endpoint deviceAddress lowSpeed tdsNeeded index realInterval qh first

/-- `install_interrupt_poller`, but for the buffer and the callback. -/
def installInterruptPoller (a : UhciTransferDescriptorArray) : UhciInterfaceData :=
  let last := a.td (a.length - 1)
  { d with
    memory := Function.update d.memory last ((d.memory last).setIoc true)
    elements := Function.update d.elements a.queueHead
      (setBit (d.elements a.queueHead) 0 false) }

/-- The loop over the descriptors of a queue head. -/
def recycleTds (flipToggle : Bool) : Nat → Nat → (Nat → UhciTransferDescriptor) →
    Option (Nat → UhciTransferDescriptor)
  | 0, _, memory => some memory
  | n + 1, address, memory =>
    if (memory address).status ≠ 0 then none
    else recycleTds flipToggle n (address + 16)
      (Function.update memory address ((memory address).recycled flipToggle))

/-- The three writes to the element pointer. -/
def relink (element : BitVec 32) (address : Nat) : BitVec 32 :=
  setBit (setBit (setQueueElementLinkPointer element address) 1 false) 0 false

def checkQueueHead (qh : Nat) : Option UhciInterfaceData :=
  let qele := d.elements qh &&& ~~~0xF#32
  if qele &&& queueHeadWasInterrupt = 0 then some d
  else
    let index := d.interruptQueueHeadsIndices qh
    let tdOffset := getPart qele 0xFFF 12
    let numTds := getPart qele 0xFF 4
    if 11 ≤ index ∨ listLength index < tdOffset.toNat + numTds.toNat then none
    else
      let address := tdAddress (d.list index) tdOffset.toNat
      let flipToggle := decide (numTds.toNat % 2 ≠ 0)
      (recycleTds flipToggle numTds.toNat address d.memory).map fun memory =>
        { d with
          memory
          elements := Function.update d.elements qh (relink (d.elements qh) address) }

def interruptCheckInterrupt : Option UhciInterfaceData :=
  (List.range d.allocatedInterruptQueueHeads).foldlM checkQueueHead d

/-- A step of the controller: it runs the descriptor that the queue head points at, and the queue
head goes on to the link. There is no step for a pointer that ends or leads to no active
descriptor, and for a queue head that is in no frame. -/
def execute (qh : Nat) (length : BitVec 32) : Option UhciInterfaceData :=
  let element := d.elements qh
  let address := (element &&& ~~~0xF#32).toNat
  let td := d.memory address
  if qh < d.allocatedInterruptQueueHeads ∧ element.getLsbD 0 = false ∧ element.getLsbD 1 = false ∧
      td.active = true then
    some { d with
      memory := Function.update d.memory address (td.answered length)
      elements := Function.update d.elements qh td.link }
  else none

end UhciInterfaceData

end EmkKernel
