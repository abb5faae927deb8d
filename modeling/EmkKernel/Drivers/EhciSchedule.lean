import EmkKernel.Drivers.EhciQueueHeads
import EmkKernel.Library.LinkedRing

/-!
# The asynchronous schedule

`untraited_work0`, which addresses the devices at the ports, and `untraited_work2`, which makes
a new list of all endpoints: what they link, and whether the links are one ring.
-/

namespace EmkKernel

inductive UsbDeviceState where
  | invalid
  | resetted
  | detached
  | default
  | address
  | configured
  deriving DecidableEq

/-- What the schedule needs of an `EhciEndpoint`. -/
structure ScheduledEndpoint where
  endpointIndex : BitVec 8
  maxPacketSize : BitVec 16
  designatedQueueHead : Nat

/-- Configurations are lists of interfaces, and these lists of endpoints. -/
structure EhciDevice where
  portNum : Nat
  address : Nat
  state : UsbDeviceState
  defaultControlEndpoint : ScheduledEndpoint
  configurations : List (List (List ScheduledEndpoint))

namespace EhciDevice

def newDetached (portNum : Nat) : EhciDevice := ⟨portNum, 0, .detached, ⟨0, 0, 0⟩, []⟩

def newReset (portNum : Nat) : EhciDevice := ⟨portNum, portNum, .resetted, ⟨0, 0, 0⟩, []⟩

end EhciDevice

inductive LineStatus where
  | se0
  | j
  | k
  deriving DecidableEq

/-- The bits of a port before and after its reset. -/
structure EhciPort where
  currentConnectStatus : Bool
  connectStatusChange : Bool
  lineStatus : LineStatus
  enabledAfterReset : Bool
  lineStatusAfterReset : LineStatus
  deriving DecidableEq

/-- `reset_port`: whether there is a high speed device at the port. -/
def EhciPort.reset (port : EhciPort) : Bool :=
  port.enabledAfterReset && port.lineStatusAfterReset ≠ .k

structure Ehci where
  memory : QueueHeads
  asynchronousList : AsynchronousList
  devices : List EhciDevice
  activeDeviceCount : Nat
  dummy : Bool

namespace Ehci

/-- `initialize_controller`, with the page of the list. -/
def initialized (page ports : Nat) (memory : QueueHeads) : Ehci where
  memory := AsynchronousList.newEntries ⟨0x1000 * page⟩ memory AsynchronousList.numberOfEntries
  asynchronousList := ⟨0x1000 * page⟩
  devices := (List.range ports).map EhciDevice.newDetached
  activeDeviceCount := 0
  dummy := false

variable (s : Ehci)

/-- The queue head of the first of the devices that has an address, or zero. -/
def firstAddressed (devices : List EhciDevice) (indices : List Nat) : Nat :=
  ((indices.findSome? fun j => devices[j]?.bind fun device =>
    if device.state = .address then some device.defaultControlEndpoint.designatedQueueHead
    else none)).getD 0

/-- The range `i - 1..=0` has an element only where `i` is 1. -/
def backwards (i : Nat) : List Nat := List.range' (i - 1) (0 + 1 - (i - 1))

def modify (memory : QueueHeads) (address : Nat) (f : QueueHead → QueueHead) : QueueHeads :=
  Function.update memory address (f (memory address))

/-- The queue head of a new device. -/
def resetQueueHead (list : AsynchronousList) (activeDeviceCount : Nat) : QueueHead :=
  let qh := QueueHead.reset
  let qh := if activeDeviceCount = 0 then (qh.setTerminate true).setHeadOfList true else qh
  let qh := ((qh.setLinkType QueueHead.ehciLinkTypeQh).setEps
    QueueHead.endpointSpeedHighSpeed).setMaximumPacketLength 8
  if activeDeviceCount ≠ 0 then
    (qh.setHorizontalLinkPointer (list.addressOfIndex 0)).setTerminate false
  else qh

/-- The part of `untraited_work0` for one port. -/
def work0Port (i : Nat) (port : EhciPort) : Option Ehci :=
  if ¬port.currentConnectStatus ∨ ¬port.connectStatusChange then some s
  else if port.lineStatus = .k then some s
  else if ¬port.reset then some s
  else if s.devices.length ≤ i then none
  else
    let current := s.asynchronousList.addressOfIndex s.activeDeviceCount
    let device := EhciDevice.newReset i
    let device := { device with defaultControlEndpoint.designatedQueueHead := current }
    let devices := s.devices.set i device
    let memory := Function.update s.memory current
      (resetQueueHead s.asynchronousList s.activeDeviceCount)
    let linked :=
      if s.activeDeviceCount = 0 then some memory
      else
        let previous := firstAddressed devices (backwards i)
        let memory :=
          if previous = 0 then memory else modify memory previous (·.chainNextQh current)
        let first := firstAddressed devices (List.range (i - 1))
        let last := firstAddressed devices (backwards i)
        -- The two assertions.
        if first = 0 ∨ last = 0 then none
        else
          some (modify (modify memory current (·.chainNextQh first)) last (·.chainNextQh current))
    linked.map fun memory => { s with
      memory := modify memory current (·.setDeviceAddress (i + 1))
      devices := devices.set i { device with address := i + 1, state := .address }
      activeDeviceCount := s.activeDeviceCount + 1 }

/-- The loop of `untraited_work0` over the ports. -/
def work0From (s : Ehci) (i : Nat) : List EhciPort → Option Ehci
  | [] => some s
  | port :: ports => (s.work0Port i port).bind fun s => s.work0From (i + 1) ports

def untraitedWork0 (ports : List EhciPort) : Option Ehci := s.work0From 0 ports

/-- The queue heads of the addressed devices. -/
def addressedQueueHeads : List Nat :=
  (s.devices.filter fun device => device.state = .address).map
    fun device => device.defaultControlEndpoint.designatedQueueHead

/-! ### The second list -/

/-- The loops of `untraited_work2`. -/
structure ListBuild where
  memory : QueueHeads
  index : Nat
  lastAddressWritten : Nat

/-- A loop that changes its elements. -/
def mapThrough {α : Type} (f : ListBuild → α → α × ListBuild) (b : ListBuild) :
    List α → List α × ListBuild
  | [] => ([], b)
  | x :: xs =>
    let changed := f b x
    let rest := mapThrough f changed.2 xs
    (changed.1 :: rest.1, rest.2)

/-- A default control endpoint. -/
def linkControl (list : AsynchronousList) (b : ListBuild) (device : EhciDevice) :
    EhciDevice × ListBuild :=
  if device.state = .detached then (device, b)
  else
    let address := list.addressOfIndex b.index
    let memory :=
      if b.index = 0 then modify b.memory address (·.setHeadOfList true) else b.memory
    let memory := modify memory address fun qh =>
      (qh.setCommonInfo device.address device.defaultControlEndpoint.maxPacketSize 0).chainNextQh
        (list.addressOfIndex (b.index + 1))
    ({ device with defaultControlEndpoint.designatedQueueHead := address },
      { b with memory, index := b.index + 1 })

def linkEndpoint (list : AsynchronousList) (device : EhciDevice) (b : ListBuild)
    (endpoint : ScheduledEndpoint) : ScheduledEndpoint × ListBuild :=
  let address := list.addressOfIndex b.index
  let memory := modify b.memory address fun qh =>
    (qh.setCommonInfo device.address endpoint.maxPacketSize endpoint.endpointIndex).chainNextQh
      (list.addressOfIndex (b.index + 1))
  ({ endpoint with designatedQueueHead := address },
    { memory, index := b.index + 1, lastAddressWritten := address })

def linkInterface (list : AsynchronousList) (device : EhciDevice) (b : ListBuild)
    (interface : List ScheduledEndpoint) : List ScheduledEndpoint × ListBuild :=
  mapThrough (linkEndpoint list device) b interface

def linkConfiguration (list : AsynchronousList) (device : EhciDevice) (b : ListBuild)
    (configuration : List (List ScheduledEndpoint)) : List (List ScheduledEndpoint) × ListBuild :=
  mapThrough (linkInterface list device) b configuration

def linkEndpoints (list : AsynchronousList) (b : ListBuild) (device : EhciDevice) :
    EhciDevice × ListBuild :=
  if device.state = .detached then (device, b)
  else
    let linked := mapThrough (linkConfiguration list device) b device.configurations
    ({ device with configurations := linked.1 }, linked.2)

/-- The first loop of `untraited_work2`, with the first page of the new list. -/
def linkControls (page : Nat) : List EhciDevice × ListBuild :=
  let newAsyncList : AsynchronousList := ⟨0x1000 * page⟩
  let memory := newAsyncList.newEntries s.memory AsynchronousList.numberOfEntries
  mapThrough (linkControl newAsyncList) ⟨memory, 0, 0⟩ s.devices

/-- The second loop goes on behind the first one. -/
def linkAllEndpoints (page : Nat) : List EhciDevice × ListBuild :=
  mapThrough (linkEndpoints ⟨0x1000 * page⟩) (s.linkControls page).2 (s.linkControls page).1

/-- Without an address the new list is freed. -/
def untraitedWork2 (page : Nat) : Ehci :=
  let devices := (s.linkAllEndpoints page).1
  let b := (s.linkAllEndpoints page).2
  let firstAddr := firstAddressed devices (List.range devices.length)
  if firstAddr = 0 then { s with memory := b.memory, devices, dummy := true }
  else
    { s with
      -- Where no endpoint was linked, this is the null pointer.
      memory := modify b.memory b.lastAddressWritten (·.setHorizontalLinkPointer firstAddr)
      devices
      asynchronousList := ⟨0x1000 * page⟩ }

/-- The queue heads of the default control endpoints of the devices that are not detached. -/
def controlQueueHeads : List Nat :=
  (s.devices.filter fun device => device.state ≠ .detached).map
    fun device => device.defaultControlEndpoint.designatedQueueHead

/-- The further endpoints of these devices. -/
def furtherEndpoints : List ScheduledEndpoint :=
  (s.devices.filter fun device => device.state ≠ .detached).flatMap
    fun device => device.configurations.flatten.flatten

def endpointQueueHeads : List Nat := s.furtherEndpoints.map (·.designatedQueueHead)

/-- Queue heads are one ring from the base of the schedule, and one of them is its head. -/
def OneRing (s : Ehci) (heads : List Nat) : Prop :=
  LinkedRing.IsRing (Links s.memory) s.asynchronousList.baseAddress heads ∧
    heads.countP (fun address => (s.memory address).headOfList) = 1

end Ehci

end EmkKernel
