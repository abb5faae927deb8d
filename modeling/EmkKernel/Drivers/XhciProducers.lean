import EmkKernel.Drivers.XhciTrbs
import EmkKernel.Library.Requests

/-!
# The rings that the driver writes

`XhciCommandRing::process`, and `request_trb`, `send_control_no_data` and `send_control_read` of
`XhciEndpoint`, with a controller that works on the ring. Both rings have a pointer and a cycle
state of the driver. The lists at the end of the state are history.
-/

namespace EmkKernel

/-- The ring, the driver's side of it and the controller's. -/
structure ProducerRing where
  memory : Nat → RawXhciTrb
  enqueuePointer : Nat
  pcs : Bool
  -- The doorbell was rung, and the controller has not found the end since.
  running : Bool
  dequeuePointer : Nat
  ccs : Bool
  /-- The blocks that the driver writes to. -/
  writes : List Nat
  /-- The blocks that it has written for the controller. -/
  written : List (Nat × RawXhciTrb)
  executed : List (Nat × RawXhciTrb)

inductive XhciCommand where
  | noOp
  | enableSlot (slotType : BitVec 8)
  | disableSlot (slotId : BitVec 8)
  | addressDevice (slotId : BitVec 8) (inputContextAddress : BitVec 64) (bsr : Bool)
  | configureEndpoint (slotId : BitVec 8) (inputContextAddress : BitVec 64) (dc : Bool)
  | evaluateContext (slotId : BitVec 8) (inputContextAddress : BitVec 64)
  | resetEndpoint (slotId endpointId : BitVec 8) (tsp : Bool)
  | stopEndpoint (slotId endpointId : BitVec 8) (sp : Bool)
  | setTRDequeuePointer (slotId endpointId : BitVec 8) (streamId : BitVec 16)
      (newTrDequeuePointerAddress : BitVec 64) (dcs sct : Bool)
  | resetDevice (slotId : Bool)
  | getPortBandwidth (hubSlotId devSpeed : BitVec 8) (portBandwidthContextAddress : BitVec 64)
  | forceHeader (type rootHubPortNumber : BitVec 8)
      (headerInfoLo headerInfoMid headerInfoHi : BitVec 32)
  | getExtendedProperty (slotId endpointId subType : BitVec 8)
      (extendedCapabilityIdentifier : BitVec 16)
      (extendedPropertyContextAddress : BitVec 64)
  | setExtendedProperty (slotId endpointId subType capabilityParameter : BitVec 8)
      (extendedCapabilityParameter : BitVec 16)

structure UsbStandardDeviceRequest where
  bmRequestType : BitVec 8
  bRequest : BitVec 8
  wValue : BitVec 16
  wIndex : BitVec 16
  wLength : BitVec 16

/-- The two functions of the control endpoint that send a request. -/
inductive ControlTransfer where
  | noData (request : UsbStandardDeviceRequest) (interrupterTarget : BitVec 16) (ioc : Bool)
  | read (request : UsbStandardDeviceRequest) (interrupterTarget : BitVec 16)
      (buffer : BitVec 64) (bufferLen : BitVec 32) (ioc : Bool)

namespace RawXhciTrb

/-- The last dword of a command: the cycle state, the type and what else there is. -/
def command (trb : RawXhciTrb) (pcs : Bool) (id : XhciTrbId) (parameters : BitVec 32) :
    RawXhciTrb :=
  { trb with dword3 := parameters ||| id.toU32 <<< 10 ||| (BitVec.ofBool pcs).setWidth 32 }

def setAddress (trb : RawXhciTrb) (address : BitVec 64) : RawXhciTrb :=
  { trb with dword0 := address.setWidth 32, dword1 := (address >>> 32).setWidth 32 }

def setInterrupterTarget (trb : RawXhciTrb) (target : BitVec 16) : RawXhciTrb :=
  { trb with dword2 := trb.dword2 &&& ~~~(0x3FF#32 <<< 22) ||| target.setWidth 32 <<< 22 }

def setTransferLength (trb : RawXhciTrb) (length : BitVec 32) : RawXhciTrb :=
  { trb with dword2 := trb.dword2 &&& ~~~0x1FFFF ||| length &&& 0x1FFFF }

/-- `set_trt`, with the number of the transfer type. -/
def setTransferType (trb : RawXhciTrb) (trt : BitVec 32) : RawXhciTrb :=
  { trb with dword3 := trb.dword3 &&& ~~~(3#32 <<< 16) ||| trt <<< 16 }

end RawXhciTrb

namespace ProducerRing

variable (s : ProducerRing)

/-- The driver writes a block and says that it is one for the controller. -/
def write (a : Nat) (trb : RawXhciTrb) : ProducerRing :=
  { s with
    memory := Function.update s.memory a trb
    writes := s.writes ++ [a]
    written := s.written ++ [(a, trb)] }

/-- The register of a doorbell. -/
def ringDoorbell : ProducerRing := { s with running := true }

/-- The block that `process` makes of a command; the others are not implemented. -/
def commandTrb (trb : RawXhciTrb) (pcs : Bool) : XhciCommand → Option RawXhciTrb
  | .noOp => some (trb.command pcs .noOpCommandTrb 0)
  | .enableSlot slotType =>
    some (trb.command pcs .enableSlotCommand (slotType.setWidth 32 <<< 16))
  | .addressDevice slotId inputContextAddress bsr =>
    some ((trb.setAddress inputContextAddress).command pcs .addressDeviceCommand
      (slotId.setWidth 32 <<< 24 ||| (BitVec.ofBool bsr).setWidth 32 <<< 9))
  | .configureEndpoint slotId inputContextAddress dc =>
    some ((trb.setAddress inputContextAddress).command pcs .configureEndpointCommand
      (slotId.setWidth 32 <<< 24 ||| (BitVec.ofBool dc).setWidth 32 <<< 9))
  | .evaluateContext slotId inputContextAddress =>
    some ((trb.setAddress inputContextAddress).command pcs .evaluateContextCommand
      (slotId.setWidth 32 <<< 24))
  | .stopEndpoint slotId endpointId sp =>
    some (trb.command pcs .stopEndpointCommand (slotId.setWidth 32 <<< 24 |||
      (BitVec.ofBool sp).setWidth 32 <<< 23 ||| endpointId.setWidth 32 <<< 16))
  | _ => none

/-- `XhciCommandRing::process` -/
def process (command : XhciCommand) : Option ProducerRing :=
  (commandTrb (s.memory s.enqueuePointer) s.pcs command).map fun trb =>
    ({ s.write s.enqueuePointer trb with enqueuePointer := s.enqueuePointer + 16 }).ringDoorbell

/-- `request_trb`: a block with the cycle state expected there. A Link block is passed. -/
def requestTrb : (Nat × Bool) × ProducerRing :=
  let s :=
    if (s.memory s.enqueuePointer).trbType = XhciTrbId.link.toU32 then
      let link := (s.memory s.enqueuePointer).setBit 0 s.pcs
      { s with
        memory := Function.update s.memory s.enqueuePointer link
        writes := s.writes ++ [s.enqueuePointer]
        enqueuePointer := link.ringSegmentPointer
        pcs := if link.isSet 1 then !s.pcs else s.pcs }
    else s
  ((s.enqueuePointer, s.pcs), { s with enqueuePointer := s.enqueuePointer + 16 })

/-- What both functions do with the Setup Stage block. -/
def setupTrb (trb : RawXhciTrb) (request : UsbStandardDeviceRequest) (wValue : BitVec 16)
    (trt : BitVec 32) (cycle : Bool) : RawXhciTrb :=
  let trb := { trb with
    dword0 := request.bmRequestType.setWidth 32 ||| request.bRequest.setWidth 32 <<< 8 |||
      wValue.setWidth 32 <<< 16
    dword1 := request.wIndex.setWidth 32 ||| request.wLength.setWidth 32 <<< 16 }
  let trb := (((trb.setType .setup).setTransferLength 8).setInterrupterTarget 0).setTransferType trt
  ((trb.setBit 5 false).setBit 6 true).setBit 0 cycle

/-- The Data Stage block of a read. -/
def dataTrb (trb : RawXhciTrb) (buffer : BitVec 64) (bufferLen : BitVec 32) (cycle : Bool) :
    RawXhciTrb :=
  let trb := (((trb.setType .data).setAddress buffer).setTransferLength bufferLen)
  let trb := (((trb.setInterrupterTarget 0).setBit 16 true).setBit 6 false).setBit 5 false
  ((((trb.setBit 4 false).setBit 3 false).setBit 2 false).setBit 1 false).setBit 0 cycle

def statusTrb (trb : RawXhciTrb) (interrupterTarget : BitVec 16) (ioc direction : Bool)
    (cycle : Bool) : RawXhciTrb :=
  let trb := ((trb.setType .status).setInterrupterTarget interrupterTarget).setBit 5 ioc
  (((trb.setBit 4 false).setBit 16 direction).setBit 1 false).setBit 0 cycle

/-- `send_control_no_data` -/
def sendControlNoData (request : UsbStandardDeviceRequest) (interrupterTarget : BitVec 16)
    (ioc : Bool) : ProducerRing :=
  let (setup, s) := s.requestTrb
  let (status, s) := s.requestTrb
  -- `w_value` stays as it is.
  let wValue := (s.memory setup.1).dword0.extractLsb' 16 16
  let s := s.write setup.1 (setupTrb (s.memory setup.1) request wValue 0 setup.2)
  let s := s.write status.1
    (statusTrb (s.memory status.1) interrupterTarget ioc true status.2)
  s.ringDoorbell

/-- `send_control_read` -/
def sendControlRead (request : UsbStandardDeviceRequest) (interrupterTarget : BitVec 16)
    (buffer : BitVec 64) (bufferLen : BitVec 32) (ioc : Bool) : ProducerRing :=
  let (setup, s) := s.requestTrb
  let (data, s) := s.requestTrb
  let (status, s) := s.requestTrb
  let s := s.write setup.1 (setupTrb (s.memory setup.1) request request.wValue 3 setup.2)
  let s := s.write data.1 (dataTrb (s.memory data.1) buffer bufferLen data.2)
  let s := s.write status.1
    (statusTrb (s.memory status.1) interrupterTarget ioc false status.2)
  s.ringDoorbell

def transfer : ControlTransfer → Option ProducerRing
  | .noData request interrupterTarget ioc =>
    some (s.sendControlNoData request interrupterTarget ioc)
  | .read request interrupterTarget buffer bufferLen ioc =>
    some (s.sendControlRead request interrupterTarget buffer bufferLen ioc)

/-- The controller takes the next block while its cycle bit is the controller's cycle state. -/
def fetch : Option ProducerRing :=
  let current := s.memory s.dequeuePointer
  if s.running then
    if current.cycle = s.ccs then
      let executed := s.executed ++ [(s.dequeuePointer, current)]
      if current.trbType = XhciTrbId.link.toU32 then
        some { s with
          executed
          dequeuePointer := current.ringSegmentPointer
          ccs := if current.isSet 1 then !s.ccs else s.ccs }
      else some { s with executed, dequeuePointer := s.dequeuePointer + 16 }
    else some { s with running := false }
  else none

end ProducerRing

/-- The driver issues a request, or the controller takes a step. -/
inductive ProducerAction (R : Type) where
  | issue (request : R)
  | fetch

namespace ProducerRing

def serve {R : Type} (issue : ProducerRing → R → Option ProducerRing) (s : ProducerRing) :
    ProducerAction R → Option ProducerRing
  | .issue request => issue s request
  | .fetch => s.fetch

/-- The pages of a ring are zero. -/
def zeroed (page pages : Nat) (rest : Nat → RawXhciTrb) : Nat → RawXhciTrb := fun a =>
  if 0x1000 * page ≤ a ∧ a < 0x1000 * (page + pages) then .zero else rest a

/-- A ring before its first block, with the cycle state that the controller is told. -/
def new (page pages : Nat) (rest : Nat → RawXhciTrb) (ccs : Bool) : ProducerRing where
  memory := zeroed page pages rest
  enqueuePointer := 0x1000 * page
  pcs := true
  running := false
  dequeuePointer := 0x1000 * page
  ccs := ccs
  writes := []
  written := []
  executed := []

/-- `write_command_ring_pointer`: the low bits stay as they are read. -/
def writeCommandRingPointer (register : BitVec 32) (pointer : Nat) : Nat :=
  pointer / 64 * 64 + register.toNat % 64

/-- The set-up of the command ring. The controller has its cycle state from bit 0 of the
register, Ring Cycle State. -/
def commandRing (page : Nat) (rest : Nat → RawXhciTrb) (register : BitVec 32) : ProducerRing :=
  let value := writeCommandRingPointer register (0x1000 * page)
  { new page 2 rest (value % 2 == 1) with dequeuePointer := value / 64 * 64 }

/-- The set-up of a default control endpoint, whose context has Dequeue Cycle State. -/
def controlRing (page : Nat) (rest : Nat → RawXhciTrb) : ProducerRing := new page 1 rest true

/-- The blocks written are in the pages, and the controller executes them in order and stops
after the last one. -/
structure StaysInside (page pages : Nat) (s : ProducerRing) : Prop where
  inside : ∀ a ∈ s.writes, 0x1000 * page ≤ a ∧ a + 16 ≤ 0x1000 * (page + pages)
  order : s.executed <+: s.written
  complete : s.running = false → s.executed = s.written

end ProducerRing

end EmkKernel
