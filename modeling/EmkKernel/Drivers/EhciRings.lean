import EmkKernel.Drivers.EhciSchedule

/-!
# Whether the schedule is one ring

`untraited_work0` stops at the second device, and the queue head of the first one ends the list.
The list of `untraited_work2` is one ring exactly when there is a further endpoint, because it is
closed behind the last of these.
-/

namespace EmkKernel.Ehci

open WordFields

variable {s s' : Ehci}

/-! ### The first list -/

/-- Before the first device that gets an address. -/
structure Detached (s : Ehci) : Prop where
  count : s.activeDeviceCount = 0
  states : ∀ device ∈ s.devices, device.state = .detached

/-- The device with an address is the first queue head, which ends the list. -/
structure Ended (s : Ehci) : Prop where
  count : s.activeDeviceCount ≠ 0
  base : (s.memory s.asynchronousList.baseAddress).terminate = true

private theorem terminate_resetQueueHead (list : AsynchronousList) :
    (resetQueueHead list 0).terminate = true := by
  have word : (resetQueueHead list 0).horizontalLink =
      setPart (setBit 1 0 true) 3 1 QueueHead.ehciLinkTypeQh := rfl
  rw [QueueHead.terminate, word]
  decide

/-- A port is left out, gives the first device its address, or the kernel panics. -/
theorem work0Port_cases {i : Nat} {port : EhciPort} (ran : s.work0Port i port = some s')
    (first : s.activeDeviceCount ≠ 0 → 0 < i) :
    s' = s ∨ s.activeDeviceCount = 0 ∧ Ended s' := by
  rw [work0Port] at ran
  split at ran
  · exact Or.inl (Option.some.inj ran).symm
  split at ran
  · exact Or.inl (Option.some.inj ran).symm
  split at ran
  · exact Or.inl (Option.some.inj ran).symm
  split at ran
  · cases ran
  obtain ⟨memory, linked, rfl⟩ := Option.map_eq_some_iff.mp ran
  by_cases none : s.activeDeviceCount = 0
  · refine Or.inr ⟨none, Nat.succ_ne_zero _, ?_⟩
    rw [if_pos none] at linked
    obtain rfl := Option.some.inj linked
    have here : s.asynchronousList.baseAddress =
        s.asynchronousList.addressOfIndex s.activeDeviceCount := by
      rw [none, AsynchronousList.addressOfIndex_zero]
    have frame : ∀ (qh : QueueHead) (address : Nat),
        (qh.setDeviceAddress address).terminate = qh.terminate := fun _ _ => rfl
    simp only [modify]
    rw [here, Function.update_self, Function.update_self, none, frame]
    exact terminate_resetQueueHead s.asynchronousList
  · rw [if_neg none] at linked
    have positive := first none
    have unlinked : firstAddressed (s.devices.set i { EhciDevice.newReset i with
          defaultControlEndpoint.designatedQueueHead :=
            s.asynchronousList.addressOfIndex s.activeDeviceCount }) (List.range (i - 1)) = 0 ∨
        firstAddressed (s.devices.set i { EhciDevice.newReset i with
          defaultControlEndpoint.designatedQueueHead :=
            s.asynchronousList.addressOfIndex s.activeDeviceCount }) (backwards i) = 0 := by
      -- There is no device before the second port, and no backward range from any later one.
      by_cases second : i = 1
      · left
        rw [second]
        rfl
      · right
        have range : backwards i = [] := by
          rw [backwards]
          have zero : 0 + 1 - (i - 1) = 0 := by omega
          rw [zero]
          rfl
        rw [range]
        rfl
    simp only [if_pos unlinked] at linked
    cases linked

/-- No port after the first device gives another one an address. -/
theorem ended_work0From {i : Nat} {ports : List EhciPort} (ended : Ended s) (positive : 0 < i)
    (ran : s.work0From i ports = some s') : Ended s' := by
  induction ports generalizing s i with
  | nil =>
    cases ran
    exact ended
  | cons port ports ih =>
    obtain ⟨next, step, rest⟩ := Option.bind_eq_some_iff.mp ran
    rcases work0Port_cases step fun _ => positive with rfl | ⟨none, _⟩
    · exact ih ended (Nat.succ_pos i) rest
    · exact absurd none ended.count

private theorem work0From_cases {i : Nat} {ports : List EhciPort} (detached : Detached s)
    (ran : s.work0From i ports = some s') : Detached s' ∨ Ended s' := by
  induction ports generalizing s i with
  | nil =>
    cases ran
    exact Or.inl detached
  | cons port ports ih =>
    obtain ⟨next, step, rest⟩ := Option.bind_eq_some_iff.mp ran
    rcases work0Port_cases step fun some => absurd detached.count some with rfl | ⟨_, ended⟩
    · exact ih detached rest
    · exact Or.inr (ended_work0From ended (Nat.succ_pos i) rest)

private theorem detached_initialized (page ports : Nat) (memory : QueueHeads) :
    Detached (initialized page ports memory) := by
  constructor
  · rfl
  · intro device found
    obtain ⟨port, _, rfl⟩ := List.mem_map.mp found
    rfl

/-- Whatever is connected, the addressed devices are no ring after `untraited_work0`. -/
theorem not_oneRing_work0 (page : Nat) (memory : QueueHeads) (ports : List EhciPort)
    (ran : (initialized page ports.length memory).untraitedWork0 ports = some s') :
    ¬s'.OneRing s'.addressedQueueHeads := by
  rintro ⟨ring, _⟩
  rcases work0From_cases (detached_initialized page _ memory) ran with detached | ended
  · have none : s'.addressedQueueHeads = [] := by
      rw [addressedQueueHeads, List.filter_eq_nil_iff.mpr, List.map_nil]
      intro device found
      rw [detached.states device found]
      decide
    have first := ring.first_mem
    rw [none] at first
    cases first
  · obtain ⟨_, _, link⟩ := ring.closed ring.first_mem
    have ends := ended.base
    rw [link.valid] at ends
    cases ends

/-! ### The second list -/

variable {list : AsynchronousList} {b b' b'' : ListBuild} {heads heads' : List Nat}

/-- Queue heads were put behind those of a list, one after another. -/
structure Built (list : AsynchronousList) (b b' : ListBuild) (heads : List Nat) : Prop where
  index : b'.index = b.index + heads.length
  numbered : heads = (List.range' b.index heads.length).map list.addressOfIndex
  linked : ∀ i, b.index ≤ i → i < b'.index → ∃ qh : QueueHead,
    (b'.memory (list.addressOfIndex i)).horizontalLink =
      (qh.chainNextQh (list.addressOfIndex (i + 1))).horizontalLink
  others : ∀ i, i < b.index →
    b'.memory (list.addressOfIndex i) = b.memory (list.addressOfIndex i)
  headOfList : ∀ i, (b.memory (list.addressOfIndex i)).headOfList = decide (i = 0) →
    (b'.memory (list.addressOfIndex i)).headOfList = decide (i = 0)

private theorem built_refl : Built list b b [] where
  index := rfl
  numbered := rfl
  linked := fun i from' before => by omega
  others := fun _ _ => rfl
  headOfList := fun _ same => same

private theorem built_trans (first : Built list b b' heads) (second : Built list b' b'' heads') :
    Built list b b'' (heads ++ heads') where
  index := by rw [second.index, first.index, List.length_append, Nat.add_assoc]
  numbered := by
    rw [List.length_append, ← List.range'_append_1, List.map_append, ← first.numbered,
      ← first.index, ← second.numbered]
  linked := fun i from' before => by
    by_cases old : i < b'.index
    · rw [second.others i old]
      exact first.linked i from' old
    · exact second.linked i (by omega) before
  others := fun i before => by
    have earlier := first.index
    rw [second.others i (by omega), first.others i before]
  headOfList := fun i same => second.headOfList i (first.headOfList i same)

theorem built_put (f : QueueHead → QueueHead)
    (chained : ∀ qh, ∃ before : QueueHead, (f qh).horizontalLink =
      (before.chainNextQh (list.addressOfIndex (b.index + 1))).horizontalLink)
    (kept : ∀ qh, qh.headOfList = decide (b.index = 0) →
      (f qh).headOfList = decide (b.index = 0)) (last : Nat) :
    Built list b ⟨modify b.memory (list.addressOfIndex b.index) f, b.index + 1, last⟩
      [list.addressOfIndex b.index] where
  index := rfl
  numbered := rfl
  linked := fun i from' before => by
    obtain rfl : i = b.index := by
      have bound : i < b.index + 1 := before
      omega
    simp only [modify, Function.update_self]
    exact chained _
  others := fun i before => by
    have apart : list.addressOfIndex i ≠ list.addressOfIndex b.index := fun same =>
      absurd (list.addressOfIndex_inj same) (Nat.ne_of_lt before)
    simp only [modify, Function.update_of_ne apart]
  headOfList := fun i same => by
    simp only [modify]
    by_cases here : i = b.index
    · rw [here, Function.update_self]
      rw [here] at same
      exact kept _ same
    · rw [Function.update_of_ne fun address => here (list.addressOfIndex_inj address)]
      exact same

theorem built_link (deviceAddress : Nat) (maximumPacketLength : BitVec 16)
    (endpointNumber : BitVec 8) (last : Nat) :
    Built list b ⟨modify b.memory (list.addressOfIndex b.index) fun qh =>
        (qh.setCommonInfo deviceAddress maximumPacketLength endpointNumber).chainNextQh
          (list.addressOfIndex (b.index + 1)), b.index + 1, last⟩
      [list.addressOfIndex b.index] := by
  refine built_put _ (fun qh => ?_) (fun qh same => ?_) last
  · exact ⟨qh.setCommonInfo deviceAddress maximumPacketLength endpointNumber, rfl⟩
  · rw [QueueHead.headOfList_chainNextQh, QueueHead.headOfList_setCommonInfo, same]

theorem modify_modify (memory : QueueHeads) (address : Nat) (f g : QueueHead → QueueHead) :
    modify (modify memory address f) address g = modify memory address fun qh => g (f qh) := by
  rw [modify, modify, modify, Function.update_idem, Function.update_self]

theorem mapThrough_related {α : Type} {f : ListBuild → α → α × ListBuild} {headsOf : α → List Nat}
    {R : ListBuild → ListBuild → List Nat → Prop} (refl : ∀ b, R b b [])
    (trans : ∀ {b b' b'' heads heads'}, R b b' heads → R b' b'' heads' → R b b'' (heads ++ heads'))
    (each : ∀ b x, R b (f b x).2 (headsOf (f b x).1)) (xs : List α) (b : ListBuild) :
    R b (mapThrough f b xs).2 ((mapThrough f b xs).1.flatMap headsOf) := by
  induction xs generalizing b with
  | nil => exact refl b
  | cons x xs ih =>
    rw [mapThrough, List.flatMap_cons]
    exact trans (each b x) (ih _)

theorem mapThrough_map {α β : Type} {f : ListBuild → α → α × ListBuild} {g : α → β}
    (kept : ∀ b x, g (f b x).1 = g x) (xs : List α) (b : ListBuild) :
    (mapThrough f b xs).1.map g = xs.map g := by
  induction xs generalizing b with
  | nil => rfl
  | cons x xs ih => rw [mapThrough, List.map_cons, List.map_cons, kept, ih]

/-- Where the list ends after further endpoints, if there was one. -/
structure Appended (list : AsynchronousList) (b b' : ListBuild) (heads : List Nat) : Prop where
  built : Built list b b' heads
  none : heads = [] → b'.lastAddressWritten = b.lastAddressWritten
  last : heads ≠ [] → b'.lastAddressWritten = list.addressOfIndex (b'.index - 1)

private theorem appended_refl : Appended list b b [] where
  built := built_refl
  none := fun _ => rfl
  last := fun some => absurd rfl some

private theorem appended_trans (first : Appended list b b' heads)
    (second : Appended list b' b'' heads') :
    Appended list b b'' (heads ++ heads') where
  built := built_trans first.built second.built
  none := fun empty => by
    obtain ⟨one, two⟩ := List.append_eq_nil_iff.mp empty
    rw [second.none two, first.none one]
  last := fun some => by
    by_cases two : heads' = []
    · have one : heads ≠ [] := by
        rintro rfl
        exact some (by rw [two]; rfl)
      have same := second.built.index
      rw [two, List.length_nil, Nat.add_zero] at same
      rw [second.none two, first.last one, same]
    · exact second.last two

private theorem appended_linkEndpoint (device : EhciDevice) (b : ListBuild)
    (endpoint : ScheduledEndpoint) :
    Appended list b (linkEndpoint list device b endpoint).2
      [(linkEndpoint list device b endpoint).1.designatedQueueHead] where
  built := built_link device.address endpoint.maxPacketSize endpoint.endpointIndex
    (list.addressOfIndex b.index)
  none := fun empty => by cases empty
  last := fun _ => rfl

private theorem appended_linkInterface (device : EhciDevice) (b : ListBuild)
    (interface : List ScheduledEndpoint) :
    Appended list b (linkInterface list device b interface).2
      ((linkInterface list device b interface).1.flatMap fun endpoint =>
        [endpoint.designatedQueueHead]) :=
  mapThrough_related (fun _ => appended_refl) appended_trans (appended_linkEndpoint device)
    interface
    b

private theorem appended_linkConfiguration (device : EhciDevice) (b : ListBuild)
    (configuration : List (List ScheduledEndpoint)) :
    Appended list b (linkConfiguration list device b configuration).2
      ((linkConfiguration list device b configuration).1.flatMap fun interface =>
        interface.flatMap fun endpoint => [endpoint.designatedQueueHead]) :=
  mapThrough_related (fun _ => appended_refl) appended_trans (appended_linkInterface device)
    configuration b

/-- The queue heads of the further endpoints of a device. -/
def deviceQueueHeads (device : EhciDevice) : List Nat :=
  if device.state = .detached then []
  else device.configurations.flatMap fun configuration =>
    configuration.flatMap fun interface =>
      interface.flatMap fun endpoint => [endpoint.designatedQueueHead]

private theorem appended_linkEndpoints (b : ListBuild) (device : EhciDevice) :
    Appended list b (linkEndpoints list b device).2
      (deviceQueueHeads (linkEndpoints list b device).1) := by
  rw [linkEndpoints]
  split
  next detached =>
    rw [deviceQueueHeads, if_pos detached]
    exact appended_refl
  next attached =>
    rw [deviceQueueHeads, if_neg attached]
    exact mapThrough_related (fun _ => appended_refl) appended_trans
      (appended_linkConfiguration device) device.configurations b

/-- The queue head of the default control endpoint of a device. -/
def controlQueueHead (device : EhciDevice) : List Nat :=
  if device.state = .detached then [] else [device.defaultControlEndpoint.designatedQueueHead]

/-- A default control endpoint does not change where the further ones end. -/
theorem built_linkControl (b : ListBuild) (device : EhciDevice) :
    Built list b (linkControl list b device).2 (controlQueueHead (linkControl list b device).1) ∧
      (linkControl list b device).2.lastAddressWritten = b.lastAddressWritten := by
  rw [linkControl]
  split
  next detached =>
    rw [controlQueueHead, if_pos detached]
    exact ⟨built_refl, rfl⟩
  next attached =>
    rw [controlQueueHead, if_neg attached]
    refine ⟨?_, rfl⟩
    by_cases first : b.index = 0
    · simp only [if_pos first, modify_modify]
      refine built_put _ (fun qh => ?_) (fun qh _ => ?_) b.lastAddressWritten
      · exact ⟨(qh.setHeadOfList true).setCommonInfo device.address
          device.defaultControlEndpoint.maxPacketSize 0, rfl⟩
      · rw [QueueHead.headOfList_chainNextQh, QueueHead.headOfList_setCommonInfo,
          QueueHead.headOfList_setHeadOfList, decide_eq_true first]
    · simp only [if_neg first]
      exact built_link device.address device.defaultControlEndpoint.maxPacketSize 0
        b.lastAddressWritten

private theorem flatMap_controlQueueHead (devices : List EhciDevice) :
    devices.flatMap controlQueueHead =
      (devices.filter fun device => device.state ≠ .detached).map
        fun device => device.defaultControlEndpoint.designatedQueueHead := by
  induction devices with
  | nil => rfl
  | cons device devices ih =>
    rw [List.flatMap_cons, ih, controlQueueHead]
    by_cases detached : device.state = .detached
    · rw [if_pos detached, List.filter_cons_of_neg (by simp [detached])]
      rfl
    · rw [if_neg detached, List.filter_cons_of_pos (by simp [detached])]
      rfl

private theorem flatMap_interfaces (interfaces : List (List ScheduledEndpoint)) :
    (interfaces.flatMap fun interface =>
      interface.flatMap fun endpoint => [endpoint.designatedQueueHead]) =
      interfaces.flatten.map (·.designatedQueueHead) := by
  induction interfaces with
  | nil => rfl
  | cons interface interfaces ih =>
    rw [List.flatMap_cons, ih, List.flatten_cons, List.map_append, ← List.map_eq_flatMap]

private theorem flatMap_configurations (configurations : List (List (List ScheduledEndpoint))) :
    (configurations.flatMap fun configuration => configuration.flatMap fun interface =>
      interface.flatMap fun endpoint => [endpoint.designatedQueueHead]) =
      configurations.flatten.flatten.map (·.designatedQueueHead) := by
  induction configurations with
  | nil => rfl
  | cons configuration configurations ih =>
    rw [List.flatMap_cons, ih, flatMap_interfaces, List.flatten_cons, List.flatten_append,
      List.map_append]

private theorem flatMap_deviceQueueHeads (devices : List EhciDevice) :
    devices.flatMap deviceQueueHeads =
      ((devices.filter fun device => device.state ≠ .detached).flatMap
        fun device => device.configurations.flatten.flatten).map (·.designatedQueueHead) := by
  induction devices with
  | nil => rfl
  | cons device devices ih =>
    rw [List.flatMap_cons, ih, deviceQueueHeads]
    by_cases detached : device.state = .detached
    · rw [if_pos detached, List.filter_cons_of_neg (by simp [detached])]
      rfl
    · rw [if_neg detached, List.filter_cons_of_pos (by simp [detached]), List.flatMap_cons,
        List.map_append, flatMap_configurations]

theorem controlQueueHead_linkEndpoints (b : ListBuild) (device : EhciDevice) :
    controlQueueHead (linkEndpoints list b device).1 = controlQueueHead device := by
  rw [linkEndpoints]
  split <;> rfl

/-- The devices after `untraited_work2`. -/
theorem devices_work2 (s : Ehci) (page : Nat) :
    (s.untraitedWork2 page).devices = (s.linkAllEndpoints page).1 := by
  simp only [untraitedWork2]
  split <;> rfl

private theorem controlQueueHeads_work2 (s : Ehci) (page : Nat) :
    (s.untraitedWork2 page).controlQueueHeads =
      (s.linkControls page).1.flatMap controlQueueHead := by
  rw [controlQueueHeads, devices_work2, ← flatMap_controlQueueHead, linkAllEndpoints,
    List.flatMap_def, mapThrough_map controlQueueHead_linkEndpoints, ← List.flatMap_def]

private theorem endpointQueueHeads_work2 (s : Ehci) (page : Nat) :
    (s.untraitedWork2 page).endpointQueueHeads =
      (s.linkAllEndpoints page).1.flatMap deviceQueueHeads := by
  rw [endpointQueueHeads, furtherEndpoints, devices_work2, ← flatMap_deviceQueueHeads]

/-- The first loop numbers the queue heads of the default control endpoints from the first entry
on, and the second one goes on behind them. -/
theorem built_work2 (s : Ehci) (page : Nat) :
    Built ⟨0x1000 * page⟩
        ⟨AsynchronousList.newEntries ⟨0x1000 * page⟩ s.memory AsynchronousList.numberOfEntries, 0,
          0⟩
        (s.linkControls page).2 (s.untraitedWork2 page).controlQueueHeads ∧
      (s.linkControls page).2.lastAddressWritten = 0 ∧
      Appended ⟨0x1000 * page⟩ (s.linkControls page).2 (s.linkAllEndpoints page).2
        (s.untraitedWork2 page).endpointQueueHeads := by
  rw [controlQueueHeads_work2, endpointQueueHeads_work2]
  obtain ⟨controls, last⟩ := @mapThrough_related _ (linkControl ⟨0x1000 * page⟩) controlQueueHead
    (fun b b' heads => Built ⟨0x1000 * page⟩ b b' heads ∧
      b'.lastAddressWritten = b.lastAddressWritten)
    (fun b => ⟨built_refl, rfl⟩)
    (fun first second => ⟨built_trans first.1 second.1, second.2.trans first.2⟩)
    built_linkControl s.devices
    ⟨AsynchronousList.newEntries ⟨0x1000 * page⟩ s.memory AsynchronousList.numberOfEntries, 0, 0⟩
  exact ⟨controls, last, mapThrough_related (fun _ => appended_refl) appended_trans
    appended_linkEndpoints _ _⟩

/-! ### The endpoints of the list -/

private theorem endpointIndex_linkInterface (device : EhciDevice) (b : ListBuild)
    (interface : List ScheduledEndpoint) :
    (linkInterface list device b interface).1.map (·.endpointIndex) =
      interface.map (·.endpointIndex) :=
  mapThrough_map (fun _ _ => rfl) interface b

private theorem endpointIndex_linkConfiguration (device : EhciDevice) (b : ListBuild)
    (configuration : List (List ScheduledEndpoint)) :
    (linkConfiguration list device b configuration).1.map (·.map (·.endpointIndex)) =
      configuration.map (·.map (·.endpointIndex)) :=
  mapThrough_map (endpointIndex_linkInterface device) configuration b

/-- The states and the numbers of the endpoints of a device. -/
def shape (device : EhciDevice) : UsbDeviceState × List (List (List (BitVec 8))) :=
  (device.state, device.configurations.map (·.map (·.map (·.endpointIndex))))

private theorem shape_linkControl (b : ListBuild) (device : EhciDevice) :
    shape (linkControl list b device).1 = shape device := by
  rw [linkControl]
  split <;> rfl

private theorem shape_linkEndpoints (b : ListBuild) (device : EhciDevice) :
    shape (linkEndpoints list b device).1 = shape device := by
  rw [linkEndpoints]
  split
  · rfl
  · rw [shape, shape]
    exact congrArg _ (mapThrough_map (endpointIndex_linkConfiguration device) _ b)

private theorem shape_work2 (s : Ehci) (page : Nat) :
    (s.untraitedWork2 page).devices.map shape = s.devices.map shape := by
  rw [devices_work2, linkAllEndpoints, mapThrough_map shape_linkEndpoints, linkControls,
    mapThrough_map shape_linkControl]

theorem length_furtherEndpoints (s : Ehci) :
    s.furtherEndpoints.length =
      (((s.devices.map shape).filter fun shape => shape.1 ≠ .detached).flatMap
        fun shape => shape.2.flatten.flatten).length := by
  rw [furtherEndpoints]
  induction s.devices with
  | nil => rfl
  | cons device devices ih =>
    rw [List.map_cons]
    by_cases detached : device.state = .detached
    · rw [List.filter_cons_of_neg (by simp [detached]),
        List.filter_cons_of_neg (by simp [detached, shape]), ih]
    · rw [List.filter_cons_of_pos (by simp [detached]),
        List.filter_cons_of_pos (by simp [detached, shape]), List.flatMap_cons, List.flatMap_cons,
        List.length_append, List.length_append, ih, shape]
      simp only [← List.map_flatten, List.length_map]

private theorem length_controlQueueHeads (s : Ehci) :
    s.controlQueueHeads.length =
      ((s.devices.map shape).filter fun shape => shape.1 ≠ .detached).length := by
  rw [controlQueueHeads, List.length_map, List.filter_map, List.length_map]
  rfl

theorem firstAddressed_eq (devices : List EhciDevice)
    (states : ∀ device ∈ devices, device.state = .detached ∨ device.state = .address) :
    firstAddressed devices (List.range devices.length) =
      (devices.flatMap controlQueueHead).head?.getD 0 := by
  rw [firstAddressed]
  refine congrArg (Option.getD · 0) ?_
  induction devices with
  | nil => rfl
  | cons device devices ih =>
    rw [List.length_cons, List.range_succ_eq_map, List.findSome?_cons, List.getElem?_cons_zero,
      Option.bind_some, List.flatMap_cons, controlQueueHead]
    rcases states device List.mem_cons_self with detached | address
    · rw [if_pos detached, if_neg (by rw [detached]; decide), List.findSome?_map, List.nil_append]
      exact ih fun device found => states device (List.mem_cons_of_mem _ found)
    · rw [if_pos address, if_neg (by rw [address]; decide)]
      rfl

/-! ### The ring -/

/-- All queue heads of the new list. -/
def queueHeads (s : Ehci) : List Nat := s.controlQueueHeads ++ s.endpointQueueHeads

private theorem built_queueHeads (s : Ehci) (page : Nat) :
    Built ⟨0x1000 * page⟩
      ⟨AsynchronousList.newEntries ⟨0x1000 * page⟩ s.memory AsynchronousList.numberOfEntries, 0, 0⟩
      (s.linkAllEndpoints page).2 (s.untraitedWork2 page).queueHeads :=
  let ⟨controls, _, endpoints⟩ := built_work2 s page
  built_trans controls endpoints.built

private theorem queueHeads_numbered (s : Ehci) (page : Nat) :
    (s.untraitedWork2 page).queueHeads =
      (List.range (s.untraitedWork2 page).queueHeads.length).map
        (AsynchronousList.addressOfIndex ⟨0x1000 * page⟩) := by
  have numbered := (built_queueHeads s page).numbered
  rwa [← List.range_eq_range'] at numbered

theorem countP_first {n : Nat} (positive : 0 < n) :
    (List.range n).countP (fun i => decide (i = 0)) = 1 := by
  obtain ⟨n, rfl⟩ : ∃ m, n = m + 1 := ⟨n - 1, by omega⟩
  rw [List.range_succ_eq_map, List.countP_cons_of_pos (by simp), List.countP_eq_zero.mpr]
  intro i found
  obtain ⟨j, _, rfl⟩ := List.mem_map.mp found
  simp

private theorem headOfList_linkAllEndpoints (s : Ehci) (page : Nat) {i : Nat}
    (inside : i < AsynchronousList.numberOfEntries) :
    ((s.linkAllEndpoints page).2.memory
      (AsynchronousList.addressOfIndex ⟨0x1000 * page⟩ i)).headOfList = decide (i = 0) := by
  refine (built_queueHeads s page).headOfList i ?_
  show (AsynchronousList.newEntries _ _ _ _).headOfList = _
  rw [AsynchronousList.newEntries_apply _ _ inside, AsynchronousList.headOfList_freshEntry]

section Closing

variable {page n : Nat}

private theorem aligned_addressOfIndex (page i : Nat) :
    2 ^ 5 ∣ AsynchronousList.addressOfIndex ⟨0x1000 * page⟩ i := by
  rw [AsynchronousList.addressOfIndex_eq]
  refine ⟨128 * page + 2 * i, ?_⟩
  show 0x1000 * page + 64 * i = _
  omega

theorem isRing_closed {memory : QueueHeads} (positive : 0 < n) (few : n ≤ 1024)
    (below : page + 16 ≤ 2 ^ 20)
    (linked : ∀ i < n, ∃ qh : QueueHead,
      (memory (AsynchronousList.addressOfIndex ⟨0x1000 * page⟩ i)).horizontalLink =
        (qh.chainNextQh (AsynchronousList.addressOfIndex ⟨0x1000 * page⟩ (i + 1))).horizontalLink) :
    LinkedRing.IsRing
      (Links (modify memory (AsynchronousList.addressOfIndex ⟨0x1000 * page⟩ (n - 1))
        (·.setHorizontalLinkPointer (AsynchronousList.addressOfIndex ⟨0x1000 * page⟩ 0))))
      (AsynchronousList.addressOfIndex ⟨0x1000 * page⟩ 0)
      ((List.range n).map (AsynchronousList.addressOfIndex ⟨0x1000 * page⟩)) := by
  have small : ∀ i < 1024, AsynchronousList.addressOfIndex ⟨0x1000 * page⟩ i < 2 ^ 32 := by
    intro i inside
    rw [AsynchronousList.addressOfIndex_eq]
    show 0x1000 * page + 64 * i < 2 ^ 32
    omega
  refine LinkedRing.isRing_numbered positive
    (fun i _ j _ same => AsynchronousList.addressOfIndex_inj _ same) (fun i before => ?_) ?_
  · obtain ⟨qh, here⟩ := linked i (by omega)
    refine @QueueHead.links_of_chain _ _ _ qh ?_ (aligned_addressOfIndex page (i + 1))
      (small _ (by omega))
    rw [modify, Function.update_of_ne, here]
    intro same
    have index := AsynchronousList.addressOfIndex_inj _ same
    omega
  · obtain ⟨qh, here⟩ := linked (n - 1) (by omega)
    refine @QueueHead.links_of_patch _ _
      (AsynchronousList.addressOfIndex ⟨0x1000 * page⟩ (n - 1 + 1)) _ qh ?_
      (aligned_addressOfIndex page 0) (small 0 (by decide))
    rw [modify, Function.update_self, QueueHead.setHorizontalLinkPointer, here]
    rfl

end Closing

/-- The address that the last queue head is set to: the first entry, if there is a device. -/
theorem firstAddressed_work2 (s : Ehci) (page : Nat)
    (states : ∀ device ∈ s.devices, device.state = .detached ∨ device.state = .address) :
    firstAddressed (s.linkAllEndpoints page).1
        (List.range (s.linkAllEndpoints page).1.length) =
      if (s.untraitedWork2 page).controlQueueHeads = [] then 0 else 0x1000 * page := by
  have states' : ∀ device ∈ (s.linkAllEndpoints page).1,
      device.state = .detached ∨ device.state = .address := by
    intro device found
    have same := shape_work2 s page
    rw [devices_work2] at same
    have member : shape device ∈ s.devices.map shape := by
      rw [← same]
      exact List.mem_map_of_mem found
    obtain ⟨before, here, shapes⟩ := List.mem_map.mp member
    have state : before.state = device.state := congrArg Prod.fst shapes
    rw [← state]
    exact states before here
  have heads : (s.linkAllEndpoints page).1.flatMap controlQueueHead =
      (s.untraitedWork2 page).controlQueueHeads := by
    rw [flatMap_controlQueueHead, controlQueueHeads, devices_work2]
  rw [firstAddressed_eq _ states', heads, (built_work2 s page).1.numbered]
  cases (s.untraitedWork2 page).controlQueueHeads with
  | nil => rfl
  | cons head rest =>
    rw [if_neg (by simp [List.range'_succ]), List.length_cons, List.range'_succ]
    rfl

private theorem memory_work2 (s : Ehci) (page : Nat) (positive : 0 < page)
    (states : ∀ device ∈ s.devices, device.state = .detached ∨ device.state = .address)
    (some : (s.untraitedWork2 page).controlQueueHeads ≠ []) :
    (s.untraitedWork2 page).memory =
        modify (s.linkAllEndpoints page).2.memory (s.linkAllEndpoints page).2.lastAddressWritten
          (·.setHorizontalLinkPointer (AsynchronousList.addressOfIndex ⟨0x1000 * page⟩ 0)) ∧
      (s.untraitedWork2 page).asynchronousList = ⟨0x1000 * page⟩ := by
  have first := firstAddressed_work2 s page states
  rw [if_neg some] at first
  have nonzero : 0x1000 * page ≠ 0 := by omega
  simp only [untraitedWork2, first, if_neg nonzero]
  exact ⟨rfl, trivial⟩

/-- A device that is not detached has the queue head of its default control endpoint. -/
theorem furtherEndpoints_eq_nil (s : Ehci) (none : s.controlQueueHeads = []) :
    s.furtherEndpoints = [] := by
  rw [furtherEndpoints, List.map_eq_nil_iff.mp none]
  rfl

/-- Without a further endpoint the list is not closed, and with one it is closed behind the last. -/
theorem oneRing_work2_iff (s : Ehci) (page : Nat) (positive : 0 < page)
    (below : page + 16 ≤ 2 ^ 20)
    (states : ∀ device ∈ s.devices, device.state = .detached ∨ device.state = .address)
    (capacity : s.controlQueueHeads.length + s.furtherEndpoints.length ≤ 1024) :
    (s.untraitedWork2 page).OneRing (s.untraitedWork2 page).queueHeads ↔
      s.furtherEndpoints ≠ [] := by
  obtain ⟨_, start, endpoints⟩ := built_work2 s page
  have built := built_queueHeads s page
  have numbered := queueHeads_numbered s page
  have controls : (s.untraitedWork2 page).controlQueueHeads.length =
      s.controlQueueHeads.length := by
    rw [length_controlQueueHeads, shape_work2, ← length_controlQueueHeads]
  have further : (s.untraitedWork2 page).endpointQueueHeads.length = s.furtherEndpoints.length := by
    rw [endpointQueueHeads, List.length_map, length_furtherEndpoints, shape_work2,
      ← length_furtherEndpoints]
  have length : (s.untraitedWork2 page).queueHeads.length =
      s.controlQueueHeads.length + s.furtherEndpoints.length := by
    rw [queueHeads, List.length_append, controls, further]
  generalize size : (s.untraitedWork2 page).queueHeads.length = n at *
  have index : (s.linkAllEndpoints page).2.index = n := by
    rw [built.index, size, Nat.zero_add]
  by_cases none : (s.untraitedWork2 page).controlQueueHeads = []
  · -- No device, so there is nothing to form a ring.
    have few : s.controlQueueHeads = [] := List.eq_nil_of_length_eq_zero
        (by rw [← controls, none]; rfl)
    have empty := furtherEndpoints_eq_nil s few
    have zero : n = 0 := by rw [length, few, empty]; rfl
    rw [empty]
    constructor
    · rintro ⟨ring, _⟩
      have first := ring.first_mem
      rw [numbered, zero] at first
      cases first
    · exact fun some => absurd rfl some
  · obtain ⟨memory, list⟩ := memory_work2 s page positive states none
    have some : 0 < n := by
      have positive := List.length_pos_iff.mpr none
      omega
    constructor
    · rintro ⟨ring, _⟩ empty
      have nothing : (s.untraitedWork2 page).endpointQueueHeads = [] :=
        List.eq_nil_of_length_eq_zero (by rw [further, empty]; rfl)
      -- The last queue head still points at the entry behind it.
      have last := endpoints.none nothing
      rw [start] at last
      have member : AsynchronousList.addressOfIndex ⟨0x1000 * page⟩ (n - 1) ∈
          (s.untraitedWork2 page).queueHeads := by
        rw [numbered]
        exact List.mem_map_of_mem (List.mem_range.mpr (by omega))
      obtain ⟨y, found, link⟩ := ring.closed member
      rw [numbered] at found
      obtain ⟨i, inside, rfl⟩ := List.mem_map.mp found
      have before := List.mem_range.mp inside
      obtain ⟨qh, here⟩ := built.linked (n - 1) (Nat.zero_le _) (by omega)
      have pointer := QueueHead.pointer_of_chain here (aligned_addressOfIndex page (n - 1 + 1))
      have elsewhere : AsynchronousList.addressOfIndex ⟨0x1000 * page⟩ (n - 1) ≠ 0 := by
        rw [AsynchronousList.addressOfIndex_eq]
        show 0x1000 * page + 64 * (n - 1) ≠ 0
        omega
      have points := link.pointer
      rw [memory, last, modify, Function.update_of_ne elsewhere, pointer,
        AsynchronousList.addressOfIndex_eq, AsynchronousList.addressOfIndex_eq] at points
      change (0x1000 * page + 64 * (n - 1 + 1)) % 2 ^ 32 = 0x1000 * page + 64 * i at points
      omega
    · intro more
      have nonempty : (s.untraitedWork2 page).endpointQueueHeads ≠ [] := by
        intro nothing
        rw [nothing] at further
        exact more (List.eq_nil_of_length_eq_zero further.symm)
      have last := endpoints.last nonempty
      rw [index] at last
      rw [OneRing, list, memory, last, numbered]
      constructor
      · exact isRing_closed some (by omega) below fun i before =>
          built.linked i (Nat.zero_le i) (by omega)
      · rw [List.countP_map]
        refine Eq.trans (List.countP_congr fun i inside => ?_) (countP_first some)
        have before := List.mem_range.mp inside
        have head := headOfList_linkAllEndpoints s page
          (show i < AsynchronousList.numberOfEntries by
            show i < 1024
            omega)
        simp only [Function.comp_apply, modify, Function.update_apply]
        split
        next same => rw [← same, QueueHead.headOfList_setHorizontalLinkPointer, head]
        next => rw [head]

/-- After `untraited_work0` the schedule is never one ring of the addressed devices, and after
`untraited_work2` it is one of all endpoints exactly where a device has a further endpoint. -/
theorem schedule_oneRing (page : Nat) (memory : QueueHeads) (ports : List EhciPort) (s : Ehci)
    (list : Nat) (nonzero : 0 < list) (room : list + 16 ≤ 2 ^ 20)
    (states : ∀ device ∈ s.devices, device.state = .detached ∨ device.state = .address)
    (fits : s.controlQueueHeads.length + s.furtherEndpoints.length ≤ 1024) :
    (¬∃ s₀, (initialized page ports.length memory).untraitedWork0 ports = some s₀ ∧
      s₀.OneRing s₀.addressedQueueHeads) ∧
    ((s.untraitedWork2 list).OneRing (s.untraitedWork2 list).queueHeads ↔
      s.furtherEndpoints ≠ []) := by
  constructor
  · rintro ⟨s₀, ran, ring⟩
    exact not_oneRing_work0 page memory ports ran ring
  · exact oneRing_work2_iff s list nonzero room states fits

/-- A port with a device that turns out to be a high speed one. -/
def highSpeedPort : EhciPort := ⟨true, true, .j, true, .se0⟩

/-- A device whose interface has these endpoints. -/
def oneDevice (endpoints : List ScheduledEndpoint) : Ehci :=
  ⟨fun _ => .reset, ⟨0x1000⟩, [⟨0, 1, .address, ⟨0, 64, 0x1000⟩, [[endpoints]]⟩], 1, false⟩

/-- One device with an interrupt endpoint, and one without. -/
theorem schedule_oneRing_device :
    ((oneDevice [⟨1, 8, 0⟩]).untraitedWork2 32).OneRing
      ((oneDevice [⟨1, 8, 0⟩]).untraitedWork2 32).queueHeads ∧
    ¬((oneDevice []).untraitedWork2 32).OneRing ((oneDevice []).untraitedWork2 32).queueHeads := by
  have address (endpoints : List ScheduledEndpoint) (device)
      (found : device ∈ (oneDevice endpoints).devices) :
      device.state = .detached ∨ device.state = .address := by
    rw [List.mem_singleton.mp found]
    exact Or.inr rfl
  constructor
  · apply (schedule_oneRing 1 (fun _ => .reset) [] _ 32 (by decide) (by decide) (address _)
      (by decide)).2.mpr
    decide
  · intro ring
    apply (schedule_oneRing 1 (fun _ => .reset) [] _ 32 (by decide) (by decide) (address _)
      (by decide)).2.mp ring
    decide

/-- One device ends the list, and two stop the kernel. -/
theorem not_oneRing_ports :
    (∃ s, (initialized 1 1 fun _ => .reset).untraitedWork0 [highSpeedPort] = some s ∧
      s.addressedQueueHeads = [0x1000] ∧ ¬s.OneRing s.addressedQueueHeads) ∧
    (initialized 1 2 fun _ => .reset).untraitedWork0 [highSpeedPort, highSpeedPort] = none := by
  constructor
  · have ran : ((initialized 1 1 fun _ => .reset).untraitedWork0 [highSpeedPort]).any
        (fun s => s.addressedQueueHeads = [0x1000]) = true := by decide +kernel
    obtain ⟨s, served, heads⟩ := (Option.any_eq_true _ _).1 ran
    exact ⟨s, served, of_decide_eq_true heads, not_oneRing_work0 1 _ [highSpeedPort] served⟩
  · decide +kernel

end EmkKernel.Ehci
