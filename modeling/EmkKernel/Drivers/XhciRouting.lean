import EmkKernel.Drivers.UsbConfiguration
import EmkKernel.Library.Requests
import Mathlib.Data.List.Pairwise

/-!
# Endpoints by their index

The driver computes the index of an endpoint from its number and direction where it sets up
the context, rings the doorbell, installs a poller and handles an event.
-/

namespace EmkKernel

inductive Direction where
  | inward
  | outward
  deriving DecidableEq

namespace XhciEndpointDescriptor

variable (self : XhciEndpointDescriptor)

def endpointNumber : Nat := (self.endpointAddress &&& 0xF).toNat

/-- The highest bit, which has no third value. -/
def getDirection : Direction := if self.endpointAddress >>> 7 = 0 then .outward else .inward

/-- `dci` of `untraited_work2` and `install_interrupt_poller`, `this_epid` of
`xhci_interrupt0`. -/
def dci : Nat :=
  if self.getDirection = .inward then self.endpointNumber + 2 else self.endpointNumber + 1

/-- The target that `XhciEndpoint::ring` writes to the doorbell. -/
def ringTarget : Nat :=
  if self.endpointNumber = 0 then 1
  else if self.getDirection = .inward then self.endpointNumber + 2
  else self.endpointNumber + 1

/-- The index of the context that `untraited_work2` fills: the endpoints of the input context
come after the slot and the default control endpoint. -/
def contextIndex : Nat := self.dci - 2 + 2

end XhciEndpointDescriptor

/-- The slot is the eight bits of the event that it came with. -/
structure XhciDevice where
  slotId : Byte
  deviceAddress : Byte
  interfaces : List (List XhciEndpointDescriptor)

def XhciDevice.endpoints (device : XhciDevice) : List XhciEndpointDescriptor :=
  device.interfaces.flatten

/-- Where the loops over devices, interfaces and endpoints find an endpoint. -/
structure EndpointPlace where
  device : Nat
  interface : Nat
  endpoint : Nat
  deriving DecidableEq

inductive RealEndpoint where
  | closed
  | opened
  deriving DecidableEq

/-- A poller, with the endpoint that it was installed for. -/
structure XhciPoller where
  devAddr : Byte
  epid : Nat
  place : EndpointPlace

structure XhciTransferEvent where
  completionCode : Byte
  slotId : Byte
  endpointId : Byte

/-- An endpoint, with the device and where it is found. -/
structure EndpointEntry where
  place : EndpointPlace
  device : XhciDevice
  endpoint : XhciEndpointDescriptor

/-- The loops over the interfaces of a device and their endpoints. -/
def XhciDevice.entries (device : XhciDevice) (i : Nat) : List EndpointEntry :=
  device.interfaces.zipIdx.flatMap fun interface =>
    interface.1.zipIdx.map fun endpoint => ⟨⟨i, interface.2, endpoint.2⟩, device, endpoint.1⟩

/-- The order of the three loops. -/
def endpointEntries (devices : List XhciDevice) : List EndpointEntry :=
  devices.zipIdx.flatMap fun device => device.1.entries device.2

/-- The devices, which endpoints are open, and the pollers. -/
structure XhciRouting where
  devices : List XhciDevice
  realEndpoint : EndpointPlace → RealEndpoint
  pollers : List XhciPoller

/-- What a transfer event does: the endpoint that is re-armed, and the pollers called. -/
inductive XhciReaction where
  | signaled (device : Option Nat)
  | rearmed (place : EndpointPlace) (called : List XhciPoller)
  | panicked

namespace XhciRouting

/-- The state after `untraited_work2`. -/
def new (devices : List XhciDevice) : XhciRouting := ⟨devices, fun _ => .closed, []⟩

variable (self : XhciRouting)

/-- The branch of `xhci_interrupt0` for a transfer event. -/
def transferEvent (event : XhciTransferEvent) : XhciReaction :=
  if event.completionCode ≠ 1 then .panicked
  else if event.endpointId = 1 then
    .signaled (self.devices.findIdx? fun device => device.slotId == event.slotId)
  else
    match (endpointEntries self.devices).find? fun entry =>
        event.endpointId.toNat == entry.endpoint.dci with
    | none => .panicked
    | some entry =>
      match self.realEndpoint entry.place with
      | .closed => .panicked
      | .opened =>
        -- The loop over the pollers ends with the first one.
        .rearmed entry.place (self.pollers.find? fun poller =>
          poller.epid == entry.endpoint.dci && poller.devAddr == entry.device.deviceAddress).toList

structure InstallRequest where
  place : EndpointPlace
  callback : Bool

/-- `install_interrupt_poller` -/
def installInterruptPoller (request : InstallRequest) : Option XhciRouting :=
  match (endpointEntries self.devices).find? fun entry => entry.place == request.place with
  | none => none
  | some entry =>
    match self.realEndpoint entry.place with
    | .opened => none
    | .closed =>
      some { self with
        realEndpoint := fun place => if place = entry.place then .opened
          else self.realEndpoint place
        pollers := if request.callback then
            self.pollers ++ [⟨entry.device.deviceAddress, entry.endpoint.dci, entry.place⟩]
          else self.pollers }

end XhciRouting

/-- The index that the specification gives an endpoint. -/
def XhciEndpointDescriptor.deviceContextIndex (endpoint : XhciEndpointDescriptor) : Nat :=
  2 * endpoint.endpointNumber + if endpoint.getDirection = .inward then 1 else 0

/-- Addressed devices: slots and addresses are given once, and no device has two endpoints of
one number and direction. -/
structure AddressedDevices where
  devices : List XhciDevice
  slots : devices.Pairwise fun d d' => d.slotId ≠ d'.slotId
  addresses : devices.Pairwise fun d d' => d.deviceAddress ≠ d'.deviceAddress
  numbers : ∀ d ∈ devices, ∀ e ∈ d.endpoints, 1 ≤ e.endpointNumber
  endpoints : ∀ d ∈ devices, d.endpoints.Pairwise fun e e' =>
    ¬(e.endpointNumber = e'.endpointNumber ∧ e.getDirection = e'.getDirection)

/-- The events of an open endpoint reach this endpoint and its pollers. -/
structure XhciRouting.Routes (routing : XhciRouting) : Prop where
  events : ∀ entry ∈ endpointEntries routing.devices, routing.realEndpoint entry.place = .opened →
    ∀ event : XhciTransferEvent, event.completionCode = 1 → event.slotId = entry.device.slotId →
      event.endpointId.toNat = entry.endpoint.deviceContextIndex →
      ∃ called, routing.transferEvent event = .rearmed entry.place called ∧
        ∀ poller ∈ called, poller.place = entry.place
  indices : ∀ d ∈ routing.devices, ∀ e ∈ d.endpoints, e.contextIndex = e.deviceContextIndex ∧
    e.ringTarget = e.deviceContextIndex
  different : ∀ d ∈ routing.devices, d.endpoints.Pairwise fun e e' => e.dci ≠ e'.dci

/-- Every endpoint has number 1, and no two devices have one in the same direction. -/
def AddressedDevices.Apart (self : AddressedDevices) : Prop :=
  (∀ d ∈ self.devices, ∀ e ∈ d.endpoints, e.endpointNumber = 1) ∧
  self.devices.Pairwise fun d d' =>
    ∀ e ∈ d.endpoints, ∀ e' ∈ d'.endpoints, e.getDirection ≠ e'.getDirection

section Entries

variable {devices : List XhciDevice} {x y : EndpointEntry}

private theorem mem_entries {device : XhciDevice} {i : Nat} : x ∈ device.entries i ↔
    x.place.device = i ∧ x.device = device ∧
    ∃ interface, device.interfaces[x.place.interface]? = some interface ∧
      interface[x.place.endpoint]? = some x.endpoint := by
  simp only [XhciDevice.entries, List.mem_flatMap, List.mem_map, Prod.exists,
    List.mk_mem_zipIdx_iff_getElem?]
  constructor
  · rintro ⟨interface, j, found, endpoint, k, found', rfl⟩
    exact ⟨rfl, rfl, interface, found, found'⟩
  · rintro ⟨rfl, rfl, interface, found, found'⟩
    exact ⟨interface, _, found, _, _, found', rfl⟩

private theorem mem_endpointEntries : x ∈ endpointEntries devices ↔
    devices[x.place.device]? = some x.device ∧
    ∃ interface, x.device.interfaces[x.place.interface]? = some interface ∧
      interface[x.place.endpoint]? = some x.endpoint := by
  simp only [endpointEntries, List.mem_flatMap, Prod.exists, List.mk_mem_zipIdx_iff_getElem?,
    mem_entries]
  constructor
  · rintro ⟨device, i, found, rfl, rfl, inside⟩
    exact ⟨found, inside⟩
  · rintro ⟨found, inside⟩
    exact ⟨_, _, found, rfl, rfl, inside⟩

private theorem mem_device (found : x ∈ endpointEntries devices) : x.device ∈ devices :=
  List.mem_of_getElem? (mem_endpointEntries.mp found).1

private theorem mem_endpoints (found : x ∈ endpointEntries devices) :
    x.endpoint ∈ x.device.endpoints := by
  obtain ⟨_, interface, found', found''⟩ := mem_endpointEntries.mp found
  exact List.mem_flatten.mpr ⟨interface, List.mem_of_getElem? found', List.mem_of_getElem? found''⟩

theorem entry_of_place (found : x ∈ endpointEntries devices) (found' : y ∈ endpointEntries devices)
    (same : x.place = y.place) : x = y := by
  obtain ⟨device, interface, at', endpoint⟩ := mem_endpointEntries.mp found
  obtain ⟨device', interface', at'', endpoint'⟩ := mem_endpointEntries.mp found'
  rw [same] at device at' endpoint
  have devices' := Option.some.inj (device.symm.trans device')
  rw [devices'] at at'
  obtain rfl := Option.some.inj (at'.symm.trans at'')
  have endpoints := Option.some.inj (endpoint.symm.trans endpoint')
  cases x
  cases y
  simp_all

private theorem exists_entry {i : Nat} {device : XhciDevice} {endpoint : XhciEndpointDescriptor}
    (found : devices[i]? = some device) (mem : endpoint ∈ device.endpoints) :
    ∃ x ∈ endpointEntries devices, x.place.device = i ∧ x.device = device ∧
      x.endpoint = endpoint := by
  obtain ⟨interface, inside, mem'⟩ := List.mem_flatten.mp mem
  obtain ⟨j, found'⟩ := List.mem_iff_getElem?.mp inside
  obtain ⟨k, found''⟩ := List.mem_iff_getElem?.mp mem'
  exact ⟨⟨⟨i, j, k⟩, device, endpoint⟩, mem_endpointEntries.mpr ⟨found, interface, found', found''⟩,
    rfl, rfl, rfl⟩

theorem pairwise_device : (endpointEntries devices).Pairwise
    fun x y => x.place.device ≤ y.place.device := by
  have increasing : devices.zipIdx.Pairwise fun a b => a.2 < b.2 := by
    have positions : (devices.zipIdx.map Prod.snd).Pairwise (· < ·) := by
      rw [List.zipIdx_map_snd]
      exact List.pairwise_lt_range'
    exact List.pairwise_map.mp positions
  refine List.pairwise_flatMap.mpr ⟨fun a _ => ?_, increasing.imp fun less x found y found' => ?_⟩
  · refine List.pairwise_of_forall_mem_list fun x found y found' => ?_
    rw [(mem_entries.mp found).1, (mem_entries.mp found').1]
  · rw [(mem_entries.mp found).1, (mem_entries.mp found').1]
    exact less.le

private theorem pairwise_zipIdx {α : Type} {R : α → α → Prop} {l : List α} (apart : l.Pairwise R) :
    l.zipIdx.Pairwise fun a b => R a.1 b.1 := by
  rw [← List.pairwise_map, List.zipIdx_map_fst]
  exact apart

/-- What holds of any two endpoints of a device and of two devices, holds of any two entries. -/
theorem pairwise_entries {R : XhciEndpointDescriptor → XhciEndpointDescriptor → Prop}
    (inner : ∀ d ∈ devices, d.endpoints.Pairwise R)
    (outer : devices.Pairwise fun d d' => ∀ e ∈ d.endpoints, ∀ e' ∈ d'.endpoints, R e e') :
    (endpointEntries devices).Pairwise fun x y => R x.endpoint y.endpoint := by
  have endpoint : ∀ {device : XhciDevice} {i : Nat} {x : EndpointEntry},
      x ∈ device.entries i → x.endpoint ∈ device.endpoints := by
    intro device i x found
    obtain ⟨_, _, interface, inside, inside'⟩ := mem_entries.mp found
    exact List.mem_flatten.mpr ⟨interface, List.mem_of_getElem? inside,
      List.mem_of_getElem? inside'⟩
  refine List.pairwise_flatMap.mpr ⟨fun device found => ?_, ?_⟩
  · obtain ⟨lists, between⟩ :=
      List.pairwise_flatten.mp (inner device.1 (List.fst_mem_of_mem_zipIdx found))
    refine List.pairwise_flatMap.mpr ⟨fun interface inside => ?_, ?_⟩
    · exact List.pairwise_map.mpr (pairwise_zipIdx (lists interface.1
        (List.fst_mem_of_mem_zipIdx inside)))
    · refine (pairwise_zipIdx between).imp fun apart x found y found' => ?_
      obtain ⟨a, inside, rfl⟩ := List.mem_map.mp found
      obtain ⟨b, inside', rfl⟩ := List.mem_map.mp found'
      exact apart _ (List.fst_mem_of_mem_zipIdx inside) _ (List.fst_mem_of_mem_zipIdx inside')
  · refine (pairwise_zipIdx outer).imp fun apart x found y found' => ?_
    exact apart _ (endpoint found) _ (endpoint found')

end Entries

namespace XhciEndpointDescriptor

variable {e e' : XhciEndpointDescriptor}

private theorem contextIndex_eq (positive : 1 ≤ e.endpointNumber) : e.contextIndex = e.dci := by
  have second : 2 ≤ e.dci := by
    rw [dci]
    split
    · omega
    · omega
  rw [contextIndex]
  omega

private theorem ringTarget_eq (positive : 1 ≤ e.endpointNumber) : e.ringTarget = e.dci := by
  rw [ringTarget, dci, if_neg (by omega)]

theorem dci_eq_iff :
    e.dci = e.deviceContextIndex ↔ e.endpointNumber = 1 := by
  rw [dci, deviceContextIndex]
  split
  · omega
  · omega

private theorem direction_of_dci (one : e.endpointNumber = 1) (one' : e'.endpointNumber = 1)
    (same : e.dci = e'.dci) : e.getDirection = e'.getDirection := by
  rw [dci, dci, one, one'] at same
  cases d : e.getDirection with
  | inward =>
    cases d' : e'.getDirection with
    | inward => rfl
    | outward =>
      rw [d, d'] at same
      exact absurd same (by decide)
  | outward =>
    cases d' : e'.getDirection with
    | inward =>
      rw [d, d'] at same
      exact absurd same (by decide)
    | outward => rfl

end XhciEndpointDescriptor

namespace AddressedDevices

variable {self : AddressedDevices}

/-- Apart, no two endpoints have an index in common. -/
theorem Apart.dci_ne (apart : self.Apart) :
    (endpointEntries self.devices).Pairwise fun x y => x.endpoint.dci ≠ y.endpoint.dci := by
  obtain ⟨one, between⟩ := apart
  refine pairwise_entries (R := fun e e' => e.dci ≠ e'.dci) (fun d found => ?_) ?_
  · refine (self.endpoints d found).imp_of_mem fun inside inside' differ same => differ ⟨?_, ?_⟩
    · rw [one d found _ inside, one d found _ inside']
    · exact XhciEndpointDescriptor.direction_of_dci (one d found _ inside) (one d found _ inside')
        same
  · refine between.imp_of_mem fun found found' differ e inside e' inside' same => ?_
    exact differ e inside e' inside' (XhciEndpointDescriptor.direction_of_dci
      (one _ found e inside) (one _ found' e' inside') same)

private theorem Apart.entry_eq (apart : self.Apart) {x y : EndpointEntry}
    (found : x ∈ endpointEntries self.devices) (found' : y ∈ endpointEntries self.devices)
    (same : x.endpoint.dci = y.endpoint.dci) : x = y := by
  have symmetric : Std.Symm fun x y : EndpointEntry => x.endpoint.dci ≠ y.endpoint.dci :=
    ⟨fun _ _ => Ne.symm⟩
  by_contra different
  exact apart.dci_ne.forall found found' different same

end AddressedDevices

namespace XhciRouting

variable {self : XhciRouting} {devices : List XhciDevice}

/-- Every poller belongs to the endpoint that it was installed for. -/
structure Installed (devices : List XhciDevice) (routing : XhciRouting) : Prop where
  unchanged : routing.devices = devices
  pollers : ∀ poller ∈ routing.pollers, ∃ entry ∈ endpointEntries devices,
    entry.place = poller.place ∧ poller.epid = entry.endpoint.dci ∧
    poller.devAddr = entry.device.deviceAddress

private theorem installed_new (devices : List XhciDevice) : Installed devices (new devices) :=
  ⟨rfl, fun _ found => absurd found List.not_mem_nil⟩

private theorem installed_install {next : XhciRouting} {request : InstallRequest}
    (installed : Installed devices self) (ran : self.installInterruptPoller request = some next) :
    Installed devices next := by
  simp only [installInterruptPoller] at ran
  split at ran
  next => cases ran
  next entry found =>
    split at ran
    next => cases ran
    next =>
      obtain rfl := Option.some.inj ran
      refine ⟨installed.unchanged, fun poller inside => ?_⟩
      have inside : poller ∈ (if request.callback = true then
          self.pollers ++ [⟨entry.device.deviceAddress, entry.endpoint.dci, entry.place⟩]
        else self.pollers) := inside
      split at inside
      · rcases List.mem_append.mp inside with old | new
        · exact installed.pollers poller old
        · obtain rfl := List.mem_singleton.mp new
          rw [← installed.unchanged]
          exact ⟨entry, List.mem_of_find?_eq_some found, rfl, rfl, rfl⟩
      · exact installed.pollers poller inside

/-- Any number of pollers installed. -/
abbrev InstallRun : XhciRouting → XhciRouting → Prop :=
  Requests.Run installInterruptPoller fun _ _ => True

private theorem installed_run (run : InstallRun (new devices) self) : Installed devices self :=
  run.keeps (installed_new devices) fun _ _ _ inv _ ran => installed_install inv ran

theorem transferEvent_eq {entry : EndpointEntry} {event : XhciTransferEvent}
    (success : event.completionCode = 1) (other : event.endpointId ≠ 1)
    (found : ((endpointEntries self.devices).find? fun entry =>
      event.endpointId.toNat == entry.endpoint.dci) = some entry)
    (opened : self.realEndpoint entry.place = .opened) :
    self.transferEvent event = .rearmed entry.place (self.pollers.find? fun poller =>
      poller.epid == entry.endpoint.dci &&
        poller.devAddr == entry.device.deviceAddress).toList := by
  rw [transferEvent, if_neg (not_not_intro success), if_neg other, found]
  simp only [opened]

private theorem deviceContextIndex_ge {e : XhciEndpointDescriptor}
    (positive : 1 ≤ e.endpointNumber) :
    2 ≤ e.deviceContextIndex := by
  rw [XhciEndpointDescriptor.deviceContextIndex]
  omega

/-- Events of endpoints are not the ones of a control endpoint. -/
theorem endpointId_ne {e : XhciEndpointDescriptor} {event : XhciTransferEvent}
    (positive : 1 ≤ e.endpointNumber) (index : event.endpointId.toNat = e.deviceContextIndex) :
    event.endpointId ≠ 1 := by
  intro same
  have one : event.endpointId.toNat = 1 := by rw [same]; rfl
  have := deviceContextIndex_ge positive
  omega

private theorem routes_of_apart {table : AddressedDevices} (apart : table.Apart)
    (installed : Installed table.devices self) : self.Routes := by
  obtain ⟨devices, pollers⟩ := installed
  refine ⟨fun entry found opened event success _ index => ?_, fun d inside e inside' => ?_,
    fun d inside => ?_⟩
  · rw [devices] at found
    have one := apart.1 _ (mem_device found) _ (mem_endpoints found)
    have dci := XhciEndpointDescriptor.dci_eq_iff.mpr one
    have first : ((endpointEntries self.devices).find? fun entry =>
        event.endpointId.toNat == entry.endpoint.dci) = some entry := by
      rw [devices]
      cases search : (endpointEntries table.devices).find? fun entry =>
          event.endpointId.toNat == entry.endpoint.dci with
      | none =>
        have misses := List.find?_eq_none.mp search entry found
        exact absurd (beq_iff_eq.mpr (index.trans dci.symm)) misses
      | some other =>
        have same : event.endpointId.toNat = other.endpoint.dci := by
          simpa using List.find?_some search
        exact congrArg some (apart.entry_eq (List.mem_of_find?_eq_some search) found
          (same.symm.trans (index.trans dci.symm)))
    refine ⟨_, transferEvent_eq success (endpointId_ne (Nat.le_of_eq one.symm) index) first opened,
      fun poller called => ?_⟩
    have chosen := Option.mem_toList.mp called
    have matching := List.find?_some chosen
    simp only [Bool.and_eq_true, beq_iff_eq] at matching
    obtain ⟨entry', found', place, epid, _⟩ := pollers poller (List.mem_of_find?_eq_some chosen)
    have same := apart.entry_eq found' found (epid.symm.trans matching.1)
    rw [← place, same]
  · rw [devices] at inside
    have one := apart.1 d inside e inside'
    have positive : 1 ≤ e.endpointNumber := Nat.le_of_eq one.symm
    rw [XhciEndpointDescriptor.contextIndex_eq positive,
      XhciEndpointDescriptor.ringTarget_eq positive]
    exact ⟨XhciEndpointDescriptor.dci_eq_iff.mpr one, XhciEndpointDescriptor.dci_eq_iff.mpr one⟩
  · rw [devices] at inside
    refine (table.endpoints d inside).imp_of_mem fun mem mem' differ same => differ ⟨?_, ?_⟩
    · rw [apart.1 d inside _ mem, apart.1 d inside _ mem']
    · exact XhciEndpointDescriptor.direction_of_dci (apart.1 d inside _ mem)
        (apart.1 d inside _ mem') same

theorem install_new {entry : EndpointEntry} (found : entry ∈ endpointEntries devices) :
    ∃ next, InstallRun (new devices) next ∧ next.devices = devices ∧
      next.realEndpoint entry.place = .opened := by
  have search : ((endpointEntries devices).find? fun other => other.place == entry.place) =
      some entry := by
    cases searched : (endpointEntries devices).find? fun other => other.place == entry.place with
    | none => exact absurd (beq_self_eq_true _) (List.find?_eq_none.mp searched entry found)
    | some other =>
      have same : other.place = entry.place := by simpa using List.find?_some searched
      exact congrArg some (entry_of_place (List.mem_of_find?_eq_some searched) found same)
  have ran : (new devices).installInterruptPoller ⟨entry.place, false⟩ = some { new devices with
      realEndpoint := fun place => if place = entry.place then .opened else .closed } := by
    simp only [installInterruptPoller, new, search, Bool.false_eq_true, if_false]
  exact ⟨_, .single ⟨_, trivial, ran⟩, rfl, if_pos rfl⟩

theorem find_earlier {entry entry' other : EndpointEntry} {index : Nat}
    (found : entry ∈ endpointEntries devices) (same : entry.endpoint.dci = index)
    (later : entry.place.device < entry'.place.device)
    (search : ((endpointEntries devices).find? fun entry => index == entry.endpoint.dci) =
      some other) : other.place ≠ entry'.place := by
  intro place
  obtain ⟨_, front, back, split, misses⟩ := List.find?_eq_some_iff_append.mp search
  have ordered := @pairwise_device devices
  rw [split] at found ordered
  rcases List.mem_append.mp found with before | after
  · exact absurd (beq_iff_eq.mpr same.symm) (by simpa using misses entry before)
  · rcases List.mem_cons.mp after with here | behind
    · rw [here, place] at later
      exact absurd later (Nat.lt_irrefl _)
    · have less := (List.pairwise_cons.mp (List.pairwise_append.mp ordered).2.1).1 entry behind
      rw [place] at less
      omega

private theorem apart_of_routes {table : AddressedDevices}
    (routes : ∀ self, InstallRun (new table.devices) self → self.Routes) : table.Apart := by
  have fresh := routes _ .refl
  have one : ∀ d ∈ table.devices, ∀ e ∈ d.endpoints, e.endpointNumber = 1 := by
    intro d inside e inside'
    have right := (fresh.indices d inside e inside').1
    rw [XhciEndpointDescriptor.contextIndex_eq (table.numbers d inside e inside')] at right
    exact XhciEndpointDescriptor.dci_eq_iff.mp right
  refine ⟨one, List.pairwise_iff_getElem.mpr fun i j before before' less e inside e' inside' same =>
    ?_⟩
  obtain ⟨entry, found, place, device, rfl⟩ :=
    exists_entry (List.getElem?_eq_getElem before) inside
  obtain ⟨entry', found', place', device', rfl⟩ :=
    exists_entry (List.getElem?_eq_getElem before') inside'
  -- The endpoint of the later device is open and has an event.
  obtain ⟨next, run, unchanged, opened⟩ := install_new found'
  have number := one _ (mem_device found) _ (mem_endpoints found)
  have number' := one _ (mem_device found') _ (mem_endpoints found')
  have dci := XhciEndpointDescriptor.dci_eq_iff.mpr number
  have short : entry'.endpoint.deviceContextIndex < 256 := by
    rw [XhciEndpointDescriptor.deviceContextIndex, number']
    split
    · decide
    · decide
  let event : XhciTransferEvent :=
    ⟨1, entry'.device.slotId, BitVec.ofNat 8 entry'.endpoint.deviceContextIndex⟩
  have index : event.endpointId.toNat = entry'.endpoint.deviceContextIndex :=
    (BitVec.toNat_ofNat _ _).trans (Nat.mod_eq_of_lt short)
  obtain ⟨called, reaction, _⟩ :=
    (routes next run).events entry' (by rwa [unchanged]) opened event rfl rfl index
  have indices : entry.endpoint.dci = event.endpointId.toNat := by
    rw [index, dci, XhciEndpointDescriptor.deviceContextIndex,
      XhciEndpointDescriptor.deviceContextIndex, number, number', same]
  have other := endpointId_ne (Nat.le_of_eq number'.symm) index
  rw [transferEvent, if_neg (not_not_intro rfl), if_neg other, unchanged] at reaction
  split at reaction
  next => cases reaction
  next first search =>
    split at reaction
    next => cases reaction
    next =>
      have reached : first.place = entry'.place := (XhciReaction.rearmed.inj reaction).1
      exact find_earlier found indices (by rw [place, place']; exact less) search reached

/-- Events, contexts and doorbells are right where there are only endpoints with number 1, and
only one device with one in each direction. -/
theorem routes_iff_apart (table : AddressedDevices) :
    (∀ self, InstallRun (new table.devices) self → self.Routes) ↔ table.Apart :=
  ⟨apart_of_routes, fun apart _ run => routes_of_apart apart (installed_run run)⟩

/-- A keyboard with an interrupt endpoint, and a second device with one: its events reach the
keyboard. -/
def twoKeyboards : AddressedDevices where
  devices := [⟨1, 1, [[⟨3, 0x81, 10, 8, 0, 0⟩]]⟩, ⟨2, 2, [[⟨3, 0x81, 10, 8, 0, 0⟩]]⟩]
  slots := by decide
  addresses := by decide
  numbers := by decide
  endpoints := by decide

theorem not_routes_twoKeyboards :
    ∃ self, InstallRun (new twoKeyboards.devices) self ∧ ¬self.Routes := by
  by_contra all
  have apart : twoKeyboards.Apart := apart_of_routes fun self run => by
    by_contra wrong
    exact all ⟨self, run, wrong⟩
  have between := apart.2
  rw [twoKeyboards, List.pairwise_pair] at between
  exact between _ List.mem_cons_self _ List.mem_cons_self rfl

end XhciRouting

end EmkKernel
