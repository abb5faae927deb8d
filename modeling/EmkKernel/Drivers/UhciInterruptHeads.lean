import EmkKernel.Drivers.UhciInterruptTds

/-!
# The queue head of an interrupt endpoint

What a queue head and its descriptors are like while the controller runs them one after the
other: from the registration on, through `interrupt_check_interrupt`.
-/

namespace EmkKernel

open WordFields UhciControlEndpoint UhciTransferDescriptor UhciInterfaceData

namespace UhciTransferDescriptorArray

variable {a : UhciTransferDescriptorArray} {memory memory' : Nat → UhciTransferDescriptor}
  {element word : BitVec 32} {offset sent taken i : Nat} {d d' : UhciInterfaceData}
  {endpoint : UhciGeneralEndpoint} {deviceAddress : Byte} {lowSpeed : Bool}

/-- Where a queue head points when so many descriptors were answered; `offset` is the place of
the first one in its slice. -/
def pointer (a : UhciTransferDescriptorArray) (offset i : Nat) : BitVec 32 :=
  if i < a.length then BitVec.ofNat 32 (a.td i) else interruptLink offset a.length

/-- The descriptors are at addresses that are not taken for the link of the last one. -/
structure Addresses (a : UhciTransferDescriptorArray) : Prop where
  aligned : ∀ i < a.length, 2 ^ 4 ∣ a.td i
  small : ∀ i < a.length, a.td i < 2 ^ 32
  clear : ∀ i < a.length, (a.td i).testBit 29 = false

/-- A word leads to the descriptor with an index, or ends behind the last one. -/
structure Goes (a : UhciTransferDescriptorArray) (offset i : Nat) (word : BitVec 32) : Prop where
  pointer : word &&& ~~~0xF#32 = a.pointer offset i
  descriptor : word.getLsbD 1 = false
  ends : word.getLsbD 0 = false → i < a.length

/-- A queue head and its descriptors, of which so many were answered since they were recycled. -/
structure Queue (a : UhciTransferDescriptorArray) (memory : Nat → UhciTransferDescriptor)
    (element : BitVec 32) (offset sent taken : Nat) : Prop where
  inside : taken ≤ a.length
  counted : taken ≤ sent
  element : a.Goes offset taken element
  link : ∀ i < a.length, a.Goes offset (i + 1) (memory (a.td i)).link
  valid : ∀ i, i + 1 < a.length → (memory (a.td i)).link.getLsbD 0 = false
  status : ∀ i < a.length, (memory (a.td i)).status = if i < taken then 0#32 else 1#32 <<< 7
  toggle : ∀ i < a.length, (memory (a.td i)).toggle = decide ((sent - taken + i) % 2 = 1)

/-- All descriptors were answered. -/
def Completed (a : UhciTransferDescriptorArray) (memory : Nat → UhciTransferDescriptor) : Prop :=
  ∀ i < a.length, (memory (a.td i)).active = false

private theorem td_ne {j : Nat} (apart : i ≠ j) : a.td i ≠ a.td j := tdAddress_ne apart

theorem Queue.active (queue : a.Queue memory element offset sent taken) (less : i < a.length) :
    (memory (a.td i)).active = decide (taken ≤ i) := by
  rw [active_eq, queue.status i less]
  by_cases done : i < taken
  · rw [if_pos done, decide_eq_false (Nat.not_le.mpr done)]
    rfl
  · rw [if_neg done, decide_eq_true (Nat.le_of_not_lt done)]
    rfl

theorem Queue.completed_iff (queue : a.Queue memory element offset sent taken) :
    a.Completed memory ↔ taken = a.length := by
  constructor
  · intro completed
    by_contra more
    have less : taken < a.length := Nat.lt_of_le_of_ne queue.inside more
    have idle := completed taken less
    rw [queue.active less, decide_eq_true (Nat.le_refl taken)] at idle
    cases idle
  · intro all i less
    rw [queue.active less, all, decide_eq_false (Nat.not_le.mpr less)]

theorem Queue.congr (queue : a.Queue memory element offset sent taken)
    (same : ∀ i < a.length, memory' (a.td i) = memory (a.td i)) :
    a.Queue memory' element offset sent taken where
  inside := queue.inside
  counted := queue.counted
  element := queue.element
  link i less := same i less ▸ queue.link i less
  valid i less := same i (Nat.lt_of_succ_lt less) ▸ queue.valid i less
  status i less := same i less ▸ queue.status i less
  toggle i less := same i less ▸ queue.toggle i less

/-! ### Steps of the controller -/

theorem Goes.address (goes : a.Goes offset i word) (addresses : a.Addresses) (less : i < a.length) :
    (word &&& ~~~0xF#32).toNat = a.td i := by
  rw [goes.pointer, UhciTransferDescriptorArray.pointer, if_pos less, BitVec.toNat_ofNat,
    Nat.mod_eq_of_lt (addresses.small i less)]

theorem Goes.linksTo (goes : a.Goes offset i word) (addresses : a.Addresses) (less : i < a.length)
    (valid : word.getLsbD 0 = false) : LinksTo word (a.td i) where
  valid := valid
  descriptor := goes.descriptor
  pointer := by rw [shift_back_eq, goes.address addresses less]

/-- The controller runs the next descriptor. -/
theorem Queue.answer (queue : a.Queue memory element offset sent taken) (less : taken < a.length)
    (length : BitVec 32) :
    a.Queue (Function.update memory (a.td taken) ((memory (a.td taken)).answered length))
      (memory (a.td taken)).link offset (sent + 1) (taken + 1) := by
  have other {i : Nat} (apart : i ≠ taken) : Function.update memory (a.td taken)
      ((memory (a.td taken)).answered length) (a.td i) = memory (a.td i) :=
    Function.update_of_ne (td_ne apart) ..
  have counted := queue.counted
  refine ⟨less, Nat.succ_le_succ counted, queue.link taken less, fun i small => ?_,
    fun i small => ?_, fun i small => ?_, fun i small => ?_⟩
  · by_cases here : i = taken
    · rw [here, Function.update_self]
      exact queue.link taken less
    · rw [other here]
      exact queue.link i small
  · by_cases here : i = taken
    · rw [here, Function.update_self]
      exact queue.valid taken (here ▸ small)
    · rw [other here]
      exact queue.valid i small
  · by_cases here : i = taken
    · rw [here, Function.update_self, if_pos (Nat.lt_succ_self taken), status_answered]
      rfl
    · rw [other here, queue.status i small]
      exact if_congr (by omega) rfl rfl
  · rw [Nat.add_sub_add_right]
    by_cases here : i = taken
    · rw [here, Function.update_self]
      exact queue.toggle taken less
    · rw [other here]
      exact queue.toggle i small

/-- A poller is installed before the first packet. -/
theorem Queue.install (queue : a.Queue memory element offset sent taken) (less : taken < a.length) :
    a.Queue (Function.update memory (a.td (a.length - 1))
      ((memory (a.td (a.length - 1))).setIoc true)) (setBit element 0 false) offset sent taken := by
  have same {α : Type} (field : UhciTransferDescriptor → α)
      (kept : ∀ td, field (setIoc td true) = field td) (i : Nat) :
      field (Function.update memory (a.td (a.length - 1))
        ((memory (a.td (a.length - 1))).setIoc true) (a.td i)) = field (memory (a.td i)) := by
    by_cases here : i = a.length - 1
    · rw [here, Function.update_self, kept]
    · rw [Function.update_of_ne (td_ne here)]
  have link := same UhciTransferDescriptor.link fun _ => rfl
  have toggle := same UhciTransferDescriptor.toggle fun _ => rfl
  have status := same UhciTransferDescriptor.status fun td => getPart_setBit _ _ (by decide)
  refine ⟨queue.inside, queue.counted, ⟨?_, ?_, fun _ => less⟩, ?_, ?_, ?_, ?_⟩
  · rw [← queue.element.pointer]
    refine and_not_low_congr fun i small high => ?_
    rw [getLsbD_setBit _ _ small, if_neg (by omega)]
  · rw [getLsbD_setBit _ _ (by decide), if_neg (by decide)]
    exact queue.element.descriptor
  · exact fun i small => (link i).symm ▸ queue.link i small
  · exact fun i small => (link i).symm ▸ queue.valid i small
  · exact fun i small => (status i).trans (queue.status i small)
  · exact fun i small => (toggle i).trans (queue.toggle i small)

/-! ### `interrupt_check_interrupt` -/

/-- The flag in the element pointer tells whether all descriptors were answered. -/
theorem Goes.unfinished_iff (goes : a.Goes offset i word) (addresses : a.Addresses) :
    (word &&& ~~~0xF#32) &&& queueHeadWasInterrupt = 0 ↔ i < a.length := by
  rw [queueHeadWasInterrupt, and_one_shift_eq_zero_iff _ (by decide), goes.pointer,
    UhciTransferDescriptorArray.pointer]
  by_cases less : i < a.length
  · rw [if_pos less, BitVec.getLsbD_ofNat, addresses.clear i less, Bool.and_false]
    exact iff_of_true rfl less
  · rw [if_neg less, getLsbD_interruptLink (by decide)]
    exact iff_of_false (by simp) less

theorem goes_relink (offset : Nat) (addresses : a.Addresses) (some : 0 < a.length)
    (element : BitVec 32) :
    a.Goes offset 0 (relink element a.transferDescriptors) ∧
      (relink element a.transferDescriptors).getLsbD 0 = false := by
  have bits {i : Nat} (inside : i < 32) : (relink element a.transferDescriptors).getLsbD i =
      if i = 0 ∨ i = 1 then false
      else if i < 4 then element.getLsbD i
      else (BitVec.ofNat 32 a.transferDescriptors).getLsbD i := by
    rw [relink, getLsbD_setBit _ _ inside, getLsbD_setBit _ _ inside, setQueueElementLinkPointer,
      getLsbD_low_or_high _ _ inside]
    by_cases zero : i = 0
    · simp [zero]
    · by_cases one : i = 1 <;> simp [zero, one]
  refine ⟨⟨?_, ?_, fun _ => some⟩, ?_⟩
  · have first : a.td 0 = a.transferDescriptors := rfl
    rw [UhciTransferDescriptorArray.pointer, if_pos some,
      ← and_not_low_ofNat (addresses.aligned 0 some), first]
    refine and_not_low_congr fun i inside high => ?_
    rw [bits inside, if_neg (by omega), if_neg (Nat.not_lt.mpr high)]
  · rw [bits (by decide), if_pos (Or.inr rfl)]
  · rw [bits (by decide), if_pos (Or.inl rfl)]

/-- What is recycled has the toggles of the packets that follow. -/
theorem Queue.recycle (queue : a.Queue memory element offset sent a.length)
    (addresses : a.Addresses) (some : 0 < a.length)
    (changes : ChangesEach memory memory' a.transferDescriptors a.length fun _ td =>
      td.recycled (decide (a.length % 2 ≠ 0))) :
    a.Queue memory' (relink element a.transferDescriptors) offset sent 0 := by
  have counted := queue.counted
  have first := (goes_relink offset addresses some element).1
  refine ⟨Nat.zero_le _, Nat.zero_le _, first, fun i less => ?_, fun i less => ?_,
    fun i less => ?_, fun i less => ?_⟩
  · rw [td, changes.at_td i less, link_recycled]
    exact queue.link i less
  · rw [td, changes.at_td i (Nat.lt_of_succ_lt less), link_recycled]
    exact queue.valid i less
  · rw [td, changes.at_td i less, status_recycled, if_neg (Nat.not_lt_zero i)]
  · have toggle : (memory (tdAddress a.transferDescriptors i)).toggle =
        decide ((sent - a.length + i) % 2 = 1) := queue.toggle i less
    rw [td, changes.at_td i less, toggle_recycled, toggle]
    -- an odd number of packets changes the parity of those sent
    by_cases odd : a.length % 2 = 0
    · have same : (sent - a.length + i) % 2 = (sent - 0 + i) % 2 := by omega
      rw [same, odd]
      exact Bool.xor_false _
    · have flip : (sent - a.length + i) % 2 = 1 ↔ ¬(sent - 0 + i) % 2 = 1 := by omega
      rw [decide_eq_true odd, Bool.xor_true, ← decide_not]
      exact decide_eq_decide.mpr (not_iff_comm.mp flip.symm)

/-- A queue head with descriptors to run is left. -/
theorem Queue.check_unfinished {q : Nat}
    (queue : a.Queue d.memory (d.elements q) offset sent taken) (addresses : a.Addresses)
    (less : taken < a.length) : d.checkQueueHead q = some d := by
  rw [checkQueueHead]
  exact if_pos ((queue.element.unfinished_iff addresses).mpr less)

/-- The descriptors of a finished queue head are found again by its link and its index. -/
theorem Queue.check_finished {q index : Nat}
    (queue : a.Queue d.memory (d.elements q) offset sent a.length) (addresses : a.Addresses)
    (recorded : d.interruptQueueHeadsIndices q = index) (small : index < 11)
    (place : a.transferDescriptors = tdAddress (d.list index) offset)
    (slice : offset + a.length ≤ listLength index) :
    ∃ memory', d.checkQueueHead q = some { d with
        memory := memory'
        elements := Function.update d.elements q (relink (d.elements q) a.transferDescriptors) } ∧
      ChangesEach d.memory memory' a.transferDescriptors a.length fun _ td =>
        td.recycled (decide (a.length % 2 ≠ 0)) := by
  have lengths : ∀ index < 11, listLength index ≤ 128 := by decide
  have short := lengths index small
  have few : offset < 2 ^ 12 := by omega
  have narrow : a.length < 2 ^ 8 := by omega
  have finished := queue.element.pointer
  rw [UhciTransferDescriptorArray.pointer, if_neg (Nat.lt_irrefl _)] at finished
  have flagged : ¬interruptLink offset a.length &&& queueHeadWasInterrupt = 0 := fun none =>
    Nat.lt_irrefl _ ((queue.element.unfinished_iff addresses).mp (finished ▸ none))
  have place' : (getPart (interruptLink offset a.length) 0xFFF 12).toNat = offset := by
    rw [getPart_offset few, BitVec.toNat_ofNat, Nat.mod_eq_of_lt (by omega)]
  have number : (getPart (interruptLink offset a.length) 0xFF 4).toNat = a.length := by
    rw [getPart_length narrow, BitVec.toNat_ofNat, Nat.mod_eq_of_lt (by omega)]
  have answered (i) (less : i < a.length) :
      (d.memory (tdAddress a.transferDescriptors i)).status = 0 :=
    (queue.status i less).trans (if_pos less)
  obtain ⟨memory', ran, changes⟩ : ∃ memory',
      recycleTds (decide (a.length % 2 ≠ 0)) a.length a.transferDescriptors d.memory =
          some memory' ∧
        ChangesEach d.memory memory' a.transferDescriptors a.length fun _ td =>
          td.recycled (decide (a.length % 2 ≠ 0)) := recycleTds_changes a.length answered
  have fits : ¬(11 ≤ index ∨ listLength index < offset + a.length) := by omega
  refine ⟨memory', ?_, changes⟩
  rw [checkQueueHead]
  simp only [finished, recorded, place', number]
  rw [if_neg flagged, if_neg fits, ← place, ran]
  rfl

/-! ### New endpoints -/

/-- What becomes of a descriptor that was never used. -/
def attached (a : UhciTransferDescriptorArray) (endpoint : UhciGeneralEndpoint)
    (deviceAddress : Byte) (lowSpeed : Bool) (offset i : Nat) (td : UhciTransferDescriptor) :
    UhciTransferDescriptor :=
  let next := if i + 1 = a.length then none else some (a.td (i + 1))
  let td := (td.closed next lowSpeed true).configured endpoint deviceAddress lowSpeed
    (min 64 (endpoint.wMaxPacketSize - 64 * i) - 1) (decide (i % 2 = 1))
  if i = a.length - 1 then td.writeLinkPointer (interruptLink offset a.length) else td

private theorem status_attached {td : UhciTransferDescriptor} :
    (a.attached endpoint deviceAddress lowSpeed offset i td).status = 1#32 <<< 7 := by
  rw [attached]
  split
  · rw [status_writeLinkPointer, status_configured]
  · rw [status_configured]

private theorem toggle_attached {td : UhciTransferDescriptor} :
    (a.attached endpoint deviceAddress lowSpeed offset i td).toggle = decide (i % 2 = 1) := by
  rw [attached]
  split
  · rw [toggle_writeLinkPointer, toggle_configured]
  · rw [toggle_configured]

theorem configureTransferDescriptors_some {n address lengthRem : Nat} {toggle : Bool}
    (enough : ∀ i < n, 64 * i < lengthRem) :
    ∃ memory', configureTransferDescriptors endpoint deviceAddress lowSpeed n address toggle
      lengthRem memory = some memory' := by
  induction n generalizing address lengthRem toggle memory with
  | zero => exact ⟨memory, rfl⟩
  | succ n ih =>
    have first := enough 0 (Nat.zero_lt_succ n)
    rw [configureTransferDescriptors, if_neg (Nat.ne_of_gt first)]
    apply ih
    intro i less
    have later := enough (i + 1) (Nat.succ_lt_succ less)
    split <;> omega

theorem attachInterrupt_some {length index interval qh first : Nat} (some : 0 < length)
    (enough : length ≤ tdsRequired 64 endpoint.wMaxPacketSize) :
    (d.attachInterrupt endpoint deviceAddress lowSpeed length index interval qh first).isSome := by
  have packets (i) (less : i < length) : 64 * i < endpoint.wMaxPacketSize := by
    have needed := tdsRequired_needed (by decide) i (Nat.lt_of_lt_of_le less enough)
    rwa [Nat.mul_comm] at needed
  let address := tdAddress (d.list index) first
  obtain ⟨memory', ran⟩ : ∃ memory', configureTransferDescriptors endpoint deviceAddress lowSpeed
      length address false endpoint.wMaxPacketSize
        (constructClosedTdList lowSpeed true length address d.memory) = .some memory' :=
    configureTransferDescriptors_some packets
  rw [attachInterrupt, ran, Option.bind_some, if_neg (Nat.ne_of_gt some)]
  rfl

theorem attachInterrupt_spec {length index interval qh first : Nat}
    (ran : d.attachInterrupt endpoint deviceAddress lowSpeed length index interval qh first =
      some d') (array : a = ⟨tdAddress (d.list index) first, length, interval, qh⟩) :
    0 < length ∧ ∃ memory', d' = { d with
        memory := memory'
        elements := Function.update d.elements qh
          (setQueueElementLinkPointer (setBit (d.elements qh) 0 true) a.transferDescriptors)
        tdArrays := d.tdArrays ++ [a] } ∧
      ChangesEach d.memory memory' a.transferDescriptors a.length
        (a.attached endpoint deviceAddress lowSpeed first) := by
  subst array
  obtain ⟨middle, configured, rest⟩ := Option.bind_eq_some_iff.mp ran
  split at rest
  · cases rest
  next some =>
    have positive : 0 < length := Nat.pos_of_ne_zero some
    cases rest
    have changes := (constructClosedTdList_changes length _ d.memory).trans
      (configureTransferDescriptors_changes length configured)
    simp only [Bool.false_xor] at changes
    exact ⟨positive, _, rfl, changes.update (Nat.sub_one_lt some)
      fun td => td.writeLinkPointer (interruptLink first length)⟩

theorem goes_next (offset : Nat) (addresses : a.Addresses) (less : i < a.length) (vf : Bool) :
    a.Goes offset i (setBit ((0 : BitVec 32) &&& 0xF ||| BitVec.ofNat 32 (a.td i) &&& ~~~0xF#32)
      2 vf) ∧ (setBit ((0 : BitVec 32) &&& 0xF ||| BitVec.ofNat 32 (a.td i) &&& ~~~0xF#32)
        2 vf).getLsbD 0 = false := by
  refine ⟨⟨?_, ?_, fun _ => less⟩, ?_⟩
  · rw [UhciTransferDescriptorArray.pointer, if_pos less,
      ← and_not_low_ofNat (addresses.aligned i less)]
    refine and_not_low_congr fun j inside high => ?_
    rw [getLsbD_setBit _ _ inside, if_neg (by omega), getLsbD_low_or_high _ _ inside,
      if_neg (Nat.not_lt.mpr high), and_not_low_ofNat (addresses.aligned i less)]
  · rw [getLsbD_setBit _ _ (by decide), if_neg (by decide), getLsbD_low_or_high _ _ (by decide),
      if_pos (by decide)]
    exact BitVec.getLsbD_zero
  · rw [getLsbD_setBit _ _ (by decide), if_neg (by decide), getLsbD_low_or_high _ _ (by decide),
      if_pos (by decide)]
    exact BitVec.getLsbD_zero

theorem goes_last (link : BitVec 32) (ends : link.getLsbD 0 = true)
    (descriptor : link.getLsbD 1 = false) :
    a.Goes offset a.length (link &&& 0xF ||| interruptLink offset a.length &&& ~~~0xF#32) := by
  refine ⟨?_, ?_, fun goes => ?_⟩
  · rw [UhciTransferDescriptorArray.pointer, if_neg (Nat.lt_irrefl _), ← pointer_interruptLink]
    refine and_not_low_congr fun j inside high => ?_
    rw [getLsbD_low_or_high _ _ inside, if_neg (Nat.not_lt.mpr high), pointer_interruptLink]
  · rw [getLsbD_low_or_high _ _ (by decide), if_pos (by decide), descriptor]
  · rw [getLsbD_low_or_high _ _ (by decide), if_pos (by decide), ends] at goes
    cases goes

theorem queue_attached (addresses : a.Addresses) (some : 0 < a.length)
    (fresh : ∀ i < a.length, memory (a.td i) = UhciTransferDescriptor.zero)
    (changes : ChangesEach memory memory' a.transferDescriptors a.length
      (a.attached endpoint deviceAddress lowSpeed offset)) :
    a.Queue memory'
      (setQueueElementLinkPointer (setBit 0 0 true) a.transferDescriptors) offset 0 0 := by
  have found {i : Nat} (less : i < a.length) : memory' (a.td i) =
      a.attached endpoint deviceAddress lowSpeed offset i UhciTransferDescriptor.zero := by
    rw [← fresh i less]
    exact changes.at_td i less
  have link {i : Nat} (less : i + 1 < a.length) :
      (a.attached endpoint deviceAddress lowSpeed offset i UhciTransferDescriptor.zero).link =
        setBit ((0 : BitVec 32) &&& 0xF ||| BitVec.ofNat 32 (a.td (i + 1)) &&& ~~~0xF#32) 2
          true := by
    have other : i ≠ a.length - 1 := by omega
    rw [attached, if_neg other, if_neg (Nat.ne_of_lt less)]
    cases lowSpeed <;> rfl
  refine ⟨Nat.zero_le _, Nat.le_refl _, ⟨?_, ?_, fun _ => some⟩, fun i less => ?_, fun i less => ?_,
    fun i less => ?_, fun i less => ?_⟩
  · have first : a.td 0 = a.transferDescriptors := rfl
    rw [UhciTransferDescriptorArray.pointer, if_pos some,
      ← and_not_low_ofNat (addresses.aligned 0 some), first]
    refine and_not_low_congr fun j inside high => ?_
    rw [setQueueElementLinkPointer, getLsbD_low_or_high _ _ inside, if_neg (Nat.not_lt.mpr high)]
  · rw [setQueueElementLinkPointer, getLsbD_low_or_high _ _ (by decide), if_pos (by decide),
      getLsbD_setBit _ _ (by decide), if_neg (by decide)]
    exact BitVec.getLsbD_zero
  · rw [found less]
    by_cases last : i + 1 = a.length
    · have here : i = a.length - 1 := by omega
      rw [attached, if_pos here, if_pos last, last]
      refine goes_last _ ?_ ?_
      all_goals
        rw [link_configured]
        cases lowSpeed <;> decide
    · have more : i + 1 < a.length := by omega
      rw [link more]
      exact (goes_next offset addresses more true).1
  · rw [found (Nat.lt_of_succ_lt less), link less]
    exact (goes_next offset addresses less true).2
  · rw [found less, if_neg (Nat.not_lt_zero i), status_attached]
  · rw [found less, toggle_attached, Nat.sub_self, Nat.zero_add]

end UhciTransferDescriptorArray

end EmkKernel
