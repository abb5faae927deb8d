import EmkKernel.Drivers.UhciInterruptHeads
import EmkKernel.Library.Requests
import Mathlib.Data.List.Nodup

/-!
# Interrupt endpoints at work

Registrations of bulk and interrupt endpoints, packets that the controller runs and calls of
`interrupt_check_interrupt`, in any order.
-/

namespace EmkKernel

open WordFields UhciControlEndpoint UhciTransferDescriptor UhciInterfaceData

inductive UhciInterruptRequest where
  | bulkQh
  | bulkTds (tdsNeeded : Nat)
  | interrupt (endpoint : UhciGeneralEndpoint) (deviceAddress : Byte) (lowSpeed : Bool)
  | install (k : Nat)
  | packet (qh : Nat) (length : BitVec 32)
  | check

/-- The number of packets that were run on each interrupt queue head, and the arrays that
bulk endpoints got. -/
structure UhciInterruptRun where
  data : UhciInterfaceData
  sent : Nat → Nat
  bulkTds : List (Nat × Nat)

namespace UhciInterruptRun

/-- The two pages of descriptors and the page of indices are given as zeroes. -/
def start (memory : Nat → UhciTransferDescriptor) (interruptTds bulkTds : Nat) :
    UhciInterruptRun where
  data := {
    memory := zeroPage memory interruptTds
    elements := fun _ => 0
    interruptTds := interruptTds
    bulkTransferDescriptors := bulkTds
    interruptQueueHeadsIndices := fun _ => 0
    tdArrays := []
    allocatedInterruptQueueHeads := 0
    allocatedBulkQueueHeads := 0
    allocatedBulkTransferDescriptors := 0
    allocatedInterruptTransferDescriptors := fun _ => 0 }
  sent := fun _ => 0
  bulkTds := []

def serve (s : UhciInterruptRun) : UhciInterruptRequest → Option UhciInterruptRun
  | .bulkQh => s.data.acquireBulkQh.map fun data => { s with data }
  | .bulkTds tdsNeeded => (s.data.acquireBulkTds tdsNeeded).map fun (address, data) =>
    { s with data, bulkTds := s.bulkTds ++ [(address, tdsNeeded)] }
  | .interrupt endpoint deviceAddress lowSpeed =>
    (s.data.registerInterrupt endpoint deviceAddress lowSpeed).map fun data => { s with data }
  | .install k => s.data.tdArrays[k]?.map fun a =>
    { s with data := s.data.installInterruptPoller a }
  | .packet qh length => (s.data.execute qh length).map fun data =>
    { s with data, sent := Function.update s.sent qh (s.sent qh + 1) }
  | .check => s.data.interruptCheckInterrupt.map fun data => { s with data }

/-! ### What is to be -/

/-- Arrays of descriptors, by their address and their number, with no descriptor in common. -/
def Apart (a b : Nat × Nat) : Prop :=
  ∀ i < a.2, ∀ j < b.2, tdAddress a.1 i ≠ tdAddress b.1 j

/-- The toggle of the packet with a number. -/
def toggleOf (packet : Nat) : Bool := decide (packet % 2 = 1)

/-- The queue head is at one of its own descriptors, which is to be run as the next packet. -/
def Next (s : UhciInterruptRun) (a : UhciTransferDescriptorArray) : Prop :=
  ∃ i < a.length, (s.data.elements a.queueHead &&& ~~~0xF#32).toNat = a.td i ∧
    (s.data.memory (a.td i)).active = true ∧
    (s.data.memory (a.td i)).toggle = toggleOf (s.sent a.queueHead)

/-- Ready to run as the packet with a number. -/
structure Ready (td : UhciTransferDescriptor) (packet : Nat) : Prop where
  status : td.status = 1#32 <<< 7
  actLen : td.actLen = 0
  toggle : td.toggle = toggleOf packet

/-- A finished queue head is back at its first descriptor, and all of them are ready for the
packets that follow; another one is left. -/
structure Recycles (s : UhciInterruptRun) (d : UhciInterfaceData)
    (a : UhciTransferDescriptorArray) : Prop where
  ready : a.Completed s.data.memory → ∀ i < a.length,
    Ready (d.memory (a.td i)) (s.sent a.queueHead + i) ∧
      (d.memory (a.td i)).link = (s.data.memory (a.td i)).link
  first : a.Completed s.data.memory → LinksTo (d.elements a.queueHead) (a.td 0)
  left : ¬a.Completed s.data.memory → d.elements a.queueHead = s.data.elements a.queueHead

/-- Nothing but descriptors of finished queue heads is written. -/
def Frame (s : UhciInterruptRun) (d : UhciInterfaceData)
    (arrays : List UhciTransferDescriptorArray) : Prop :=
  ∀ x, (∀ a ∈ arrays, a.Completed s.data.memory → ∀ i < a.length, x ≠ a.td i) →
    d.memory x = s.data.memory x

/-- Every queue head has its interval recorded and descriptors of its own, which are run in their
order with alternating toggles and recycled when they are all done. -/
structure Good (s : UhciInterruptRun) : Prop where
  heads : s.data.tdArrays.map (·.queueHead) = List.range s.data.allocatedInterruptQueueHeads
  indices : ∀ a ∈ s.data.tdArrays,
    s.data.interruptQueueHeadsIndices a.queueHead = a.interval.log2
  disjoint : (s.data.tdArrays.map (fun a => (a.transferDescriptors, a.length)) ++
    s.bulkTds).Pairwise Apart
  next : ∀ a ∈ s.data.tdArrays, ¬a.Completed s.data.memory → s.Next a
  chained : ∀ a ∈ s.data.tdArrays, ∀ i, i + 1 < a.length →
    LinksTo (s.data.memory (a.td i)).link (a.td (i + 1))
  recycles : ∃ d, s.data.interruptCheckInterrupt = some d ∧
    (∀ a ∈ s.data.tdArrays, s.Recycles d a) ∧ s.Frame d s.data.tdArrays

/-- The index of the interval of an endpoint. -/
def indexOf (endpoint : UhciGeneralEndpoint) : Nat :=
  (u8RoundedToHighestPowerOf2 endpoint.bInterval).log2

/-- The index is written at the number of the bulk queue heads: that is the number of the new
interrupt queue head, or what is written there and what is read for the new one is right
already. -/
def Records (s : UhciInterruptRun) (index : Nat) : Prop :=
  (s.data.allocatedBulkQueueHeads = s.data.allocatedInterruptQueueHeads ∨
    s.data.interruptQueueHeadsIndices s.data.allocatedInterruptQueueHeads = index) ∧
  (s.data.allocatedBulkQueueHeads < s.data.allocatedInterruptQueueHeads →
    s.data.interruptQueueHeadsIndices s.data.allocatedBulkQueueHeads = index)

/-- The condition. A poller is installed before the first packet. -/
def Meets (s : UhciInterruptRun) : UhciInterruptRequest → Prop
  | .bulkQh => True
  | .bulkTds _ => True
  | .interrupt endpoint _ _ => s.Records (indexOf endpoint)
  | .install k => ∀ a ∈ s.data.tdArrays[k]?, s.sent a.queueHead = 0
  | .packet _ _ => True
  | .check => True

/-- The arrays hold the endpoint, and the place where its index is written is there. -/
structure Fits (s : UhciInterruptRun) (endpoint : UhciGeneralEndpoint) : Prop where
  interval : u8RoundedToHighestPowerOf2 endpoint.bInterval ≠ 0
  index : indexOf endpoint < 11
  queueHead : s.data.allocatedInterruptQueueHeads < 11
  place : s.data.allocatedBulkQueueHeads < 11
  some : 0 < tdsRequired 64 endpoint.wMaxPacketSize % 2 ^ 8
  descriptors : s.data.allocatedInterruptTransferDescriptors (indexOf endpoint) +
    tdsRequired 64 endpoint.wMaxPacketSize % 2 ^ 8 ≤ listLength (indexOf endpoint)

/-- The bookkeeping is right, and a registration outside the condition breaks it. -/
structure Right (s : UhciInterruptRun) : Prop where
  good : s.Good
  served : ∀ endpoint deviceAddress lowSpeed,
    (s.serve (.interrupt endpoint deviceAddress lowSpeed)).isSome ↔ s.Fits endpoint
  exact : ∀ endpoint deviceAddress lowSpeed s',
    s.serve (.interrupt endpoint deviceAddress lowSpeed) = some s' →
      (s'.Good ↔ s.Records (indexOf endpoint))

/-! ### The invariant -/

/-- An array lies in the allocated part of the slice of its interval. -/
structure Placed (d : UhciInterfaceData) (a : UhciTransferDescriptorArray) (offset : Nat) :
    Prop where
  index : a.interval.log2 < 11
  place : a.transferDescriptors = tdAddress (d.list a.interval.log2) offset
  some : 0 < a.length
  allocated : offset + a.length ≤ d.allocatedInterruptTransferDescriptors a.interval.log2

/-- Two pages, one of them at an address that is no link of a last descriptor. -/
structure Pages (interruptTds bulkTds : Nat) : Prop where
  aligned : 2 ^ 12 ∣ interruptTds
  inside : interruptTds + 0x1000 ≤ 2 ^ 32
  clear : interruptTds.testBit 29 = false
  apart : interruptTds + 0x1000 ≤ bulkTds ∨ bulkTds + 0x1000 ≤ interruptTds

/-- The arrays of bulk endpoints lie one behind the other. -/
structure KeepsBulk (s : UhciInterruptRun) : Prop where
  few : s.data.allocatedBulkTransferDescriptors ≤ 128
  inside : ∀ g ∈ s.bulkTds, s.data.bulkTransferDescriptors ≤ g.1 ∧
    g.1 + 16 * g.2 ≤ s.data.bulkTransferDescriptors + 16 * s.data.allocatedBulkTransferDescriptors
  apart : s.bulkTds.Pairwise Apart

structure Keeps (s : UhciInterruptRun) : Prop where
  pages : Pages s.data.interruptTds s.data.bulkTransferDescriptors
  heads : s.data.tdArrays.map (·.queueHead) = List.range s.data.allocatedInterruptQueueHeads
  indices : ∀ a ∈ s.data.tdArrays,
    s.data.interruptQueueHeadsIndices a.queueHead = a.interval.log2
  queues : ∀ a ∈ s.data.tdArrays, ∃ offset taken, Placed s.data a offset ∧
    a.Queue s.data.memory (s.data.elements a.queueHead) offset (s.sent a.queueHead) taken
  apart : ∀ a ∈ s.data.tdArrays, ∀ b ∈ s.data.tdArrays, a.queueHead ≠ b.queueHead →
    ∀ i < a.length, ∀ j < b.length, a.td i ≠ b.td j
  allocated : ∀ index < 11,
    s.data.allocatedInterruptTransferDescriptors index ≤ listLength index
  fresh : ∀ index < 11, ∀ i, s.data.allocatedInterruptTransferDescriptors index ≤ i →
    i < listLength index → s.data.memory (tdAddress (s.data.list index) i) = .zero
  unused : ∀ q, s.data.allocatedInterruptQueueHeads ≤ q →
    s.data.elements q = 0 ∧ s.sent q = 0
  bulk : s.KeepsBulk

variable {s s' : UhciInterruptRun} {a b : UhciTransferDescriptorArray} {d : UhciInterfaceData}
  {offset taken index q : Nat} {endpoint : UhciGeneralEndpoint} {deviceAddress : Byte}
  {lowSpeed : Bool}

/-! ### Places -/

private theorem lists_inside : ∀ index < 11, listOffset index + listLength index ≤ 256 := by decide

private theorem lists_apart :
    ∀ i < 11, ∀ j < 11, i ≠ j → listOffset i + listLength i ≤ listOffset j ∨
    listOffset j + listLength j ≤ listOffset i := by decide

private theorem Placed.td_eq (placed : Placed d a offset) (i : Nat) :
    a.td i = d.interruptTds + 16 * (listOffset a.interval.log2 + offset + i) := by
  rw [UhciTransferDescriptorArray.td, placed.place, list]
  unfold tdAddress
  omega

/-- The descriptors of an array are in the page. -/
theorem Placed.inPage (placed : Placed d a offset)
    (allocated : ∀ index < 11, d.allocatedInterruptTransferDescriptors index ≤ listLength index)
    {i : Nat} (less : i < a.length) : listOffset a.interval.log2 + offset + i < 256 := by
  have inside := lists_inside _ placed.index
  have upper := allocated _ placed.index
  have slice := placed.allocated
  omega

theorem Pages.addresses {bulkTds : Nat} (pages : Pages d.interruptTds bulkTds)
    (allocated : ∀ index < 11, d.allocatedInterruptTransferDescriptors index ≤ listLength index)
    (placed : Placed d a offset) : a.Addresses := by
  obtain ⟨page, multiple⟩ := pages.aligned
  have inside := pages.inside
  have clear := pages.clear
  refine ⟨fun i less => ?_, fun i less => ?_, fun i less => ?_⟩
  all_goals
    have small := placed.inPage allocated less
    rw [placed.td_eq i]
  · omega
  · omega
  · -- the page does not reach over a bit above its twelve lowest
    rw [Nat.testBit_eq_decide_div_mod_eq, decide_eq_false_iff_not] at clear ⊢
    have same : (d.interruptTds + 16 * (listOffset a.interval.log2 + offset + i)) / 2 ^ 29 =
        d.interruptTds / 2 ^ 29 := by omega
    rwa [same]

/-- A place of a slice that is not allocated yet is in no array. -/
theorem Placed.td_ne_fresh (placed : Placed d a offset)
    (allocated : ∀ index < 11, d.allocatedInterruptTransferDescriptors index ≤ listLength index)
    (small : index < 11) {i j : Nat} (less : i < a.length)
    (free : d.allocatedInterruptTransferDescriptors index ≤ j) (inside : j < listLength index) :
    tdAddress (d.list index) j ≠ a.td i := by
  have upper := allocated _ placed.index
  have slice := placed.allocated
  rw [placed.td_eq i, list]
  unfold tdAddress
  by_cases same : index = a.interval.log2
  · rw [same] at free ⊢
    omega
  · have apart := lists_apart index small _ placed.index same
    omega

theorem Keeps.addresses (keeps : Keeps s) (placed : Placed s.data a offset) : a.Addresses :=
  keeps.pages.addresses keeps.allocated placed

/-! ### Steps at one queue head -/

private theorem Keeps.queueHead_lt (keeps : Keeps s) (member : a ∈ s.data.tdArrays) :
    a.queueHead < s.data.allocatedInterruptQueueHeads := by
  have here : a.queueHead ∈ s.data.tdArrays.map (·.queueHead) := List.mem_map_of_mem member
  rw [keeps.heads] at here
  exact List.mem_range.mp here

private theorem Keeps.exists_array (keeps : Keeps s)
    (less : q < s.data.allocatedInterruptQueueHeads) :
    ∃ a ∈ s.data.tdArrays, a.queueHead = q := by
  have here := List.mem_range.mpr less
  rw [← keeps.heads] at here
  exact List.mem_map.mp here

theorem Keeps.queueHead_ne (keeps : Keeps s) (first : a ∈ s.data.tdArrays)
    (second : b ∈ s.data.tdArrays) (different : a ≠ b) : a.queueHead ≠ b.queueHead := by
  have nodup : (s.data.tdArrays.map (·.queueHead)).Nodup := keeps.heads ▸ List.nodup_range
  exact fun same => different (List.inj_on_of_nodup_map nodup first second same)

/-- What is done with a queue head and its descriptors keeps the others. -/
theorem Keeps.change (keeps : Keeps s) (member : a ∈ s.data.tdArrays)
    {memory' : Nat → UhciTransferDescriptor} {elements' : Nat → BitVec 32} {sent' : Nat → Nat}
    (outside : ∀ x, (∀ i < a.length, x ≠ a.td i) → memory' x = s.data.memory x)
    (elements : ∀ q, q ≠ a.queueHead → elements' q = s.data.elements q)
    (sents : ∀ q, q ≠ a.queueHead → sent' q = s.sent q)
    (queue : ∀ offset taken, Placed s.data a offset →
      a.Queue s.data.memory (s.data.elements a.queueHead) offset (s.sent a.queueHead) taken →
      ∃ taken', a.Queue memory' (elements' a.queueHead) offset (sent' a.queueHead) taken') :
    Keeps ⟨{ s.data with memory := memory', elements := elements' }, sent', s.bulkTds⟩ where
  pages := keeps.pages
  heads := keeps.heads
  indices := keeps.indices
  queues b other := by
    obtain ⟨offset, taken, placed, old⟩ := keeps.queues b other
    have placed' : Placed { s.data with memory := memory', elements := elements' } b offset :=
      ⟨placed.index, placed.place, placed.some, placed.allocated⟩
    by_cases same : b = a
    · subst same
      obtain ⟨taken', new⟩ := queue offset taken placed old
      exact ⟨offset, taken', placed', new⟩
    · have heads := keeps.queueHead_ne other member same
      refine ⟨offset, taken, placed', ?_⟩
      dsimp only
      rw [elements _ heads, sents _ heads]
      exact old.congr fun i less => outside _ (keeps.apart b other a member heads i less)
  apart := keeps.apart
  allocated := keeps.allocated
  fresh index small i free inside := by
    obtain ⟨offset, taken, placed, _⟩ := keeps.queues a member
    refine (outside _ fun j less => ?_).trans (keeps.fresh index small i free inside)
    exact placed.td_ne_fresh keeps.allocated small less free inside
  unused q unused := by
    have other : q ≠ a.queueHead :=
      Nat.ne_of_gt (Nat.lt_of_lt_of_le (keeps.queueHead_lt member) unused)
    obtain ⟨element, sent⟩ := keeps.unused q unused
    exact ⟨(elements q other).trans element, (sents q other).trans sent⟩
  bulk := ⟨keeps.bulk.few, keeps.bulk.inside, keeps.bulk.apart⟩

/-- The controller runs a packet of a queue head that is not finished. -/
theorem Keeps.packet (keeps : Keeps s) {length : BitVec 32}
    (ran : s.serve (.packet q length) = some s') : Keeps s' := by
  obtain ⟨d, executed, rfl⟩ := Option.map_eq_some_iff.mp ran
  rw [execute] at executed
  split at executed
  next runs =>
    obtain ⟨less, goes, -, -⟩ := runs
    obtain ⟨a, member, rfl⟩ := keeps.exists_array less
    cases executed
    obtain ⟨offset, taken, placed, old⟩ := keeps.queues a member
    have more : taken < a.length := old.element.ends goes
    have address : (s.data.elements a.queueHead &&& ~~~0xF#32).toNat = a.td taken :=
      old.element.address (keeps.addresses placed) more
    refine keeps.change member (fun x apart => ?_) (fun q other => ?_) (fun q other => ?_) ?_
    · rw [address, Function.update_of_ne (apart taken more)]
    · rw [Function.update_of_ne other]
    · rw [Function.update_of_ne other]
    · intro offset' taken' placed' old'
      have more' : taken' < a.length := old'.element.ends goes
      have address' : (s.data.elements a.queueHead &&& ~~~0xF#32).toNat = a.td taken' :=
        old'.element.address (keeps.addresses placed') more'
      rw [address', Function.update_self, Function.update_self]
      exact ⟨taken' + 1, old'.answer more' length⟩
  next => cases executed

theorem Keeps.install (keeps : Keeps s) (member : a ∈ s.data.tdArrays)
    (idle : s.sent a.queueHead = 0) :
    Keeps { s with data := s.data.installInterruptPoller a } := by
  have some : 0 < a.length := by
    obtain ⟨_, _, placed, _⟩ := keeps.queues a member
    exact placed.some
  refine keeps.change member (fun x apart => ?_) (fun q other => ?_) (fun _ _ => rfl) ?_
  · rw [Function.update_of_ne (apart (a.length - 1) (Nat.sub_one_lt (Nat.ne_of_gt some)))]
  · rw [Function.update_of_ne other]
  · intro offset taken placed old
    have none : taken = 0 := by
      have counted := old.counted
      omega
    rw [Function.update_self]
    exact ⟨taken, old.install (none ▸ some)⟩

/-! ### `interrupt_check_interrupt` -/

theorem Keeps.checkOne (keeps : Keeps s) (member : a ∈ s.data.tdArrays) :
    ∃ d, s.data.checkQueueHead a.queueHead = some d ∧ Keeps { s with data := d } ∧
      s.Recycles d a ∧ s.Frame d [a] ∧ d.tdArrays = s.data.tdArrays ∧
      ∀ q, q ≠ a.queueHead → d.elements q = s.data.elements q := by
  obtain ⟨offset, taken, placed, queue⟩ := keeps.queues a member
  have addresses := keeps.addresses placed
  rcases Nat.lt_or_eq_of_le queue.inside with less | rfl
  · have unfinished : ¬a.Completed s.data.memory := fun completed =>
      Nat.ne_of_lt less (queue.completed_iff.mp completed)
    refine ⟨s.data, queue.check_unfinished addresses less, keeps, ⟨?_, ?_, fun _ => rfl⟩,
      fun _ _ => rfl, rfl, fun _ _ => rfl⟩
    · exact fun completed => absurd completed unfinished
    · exact fun completed => absurd completed unfinished
  · have completed : a.Completed s.data.memory := queue.completed_iff.mpr rfl
    have slice : offset + a.length ≤ listLength a.interval.log2 :=
      placed.allocated.trans (keeps.allocated _ placed.index)
    obtain ⟨memory', ran, changes⟩ := queue.check_finished addresses (keeps.indices a member)
      placed.index placed.place slice
    have recycled := queue.recycle addresses placed.some changes
    refine ⟨_, ran, ?_, ⟨fun _ i less => ⟨⟨?_, ?_, ?_⟩, ?_⟩, fun _ => ?_, fun unfinished => ?_⟩,
      fun x apart => ?_, rfl, fun q other => ?_⟩
    · refine keeps.change member changes.other (fun q other => ?_) (fun _ _ => rfl) ?_
      · rw [Function.update_of_ne other]
      · intro offset' taken' placed' queue'
        rw [Function.update_self]
        obtain rfl := queue'.completed_iff.mp completed
        exact ⟨0, queue'.recycle addresses placed'.some changes⟩
    · exact (recycled.status i less).trans (if_neg (Nat.not_lt_zero i))
    · exact (congrArg actLen (changes.at_td i less)).trans actLen_recycled
    · exact recycled.toggle i less
    · exact (congrArg UhciTransferDescriptor.link (changes.at_td i less)).trans link_recycled
    · obtain ⟨goes, valid⟩ := UhciTransferDescriptorArray.goes_relink offset addresses placed.some
        (s.data.elements a.queueHead)
      dsimp only
      rw [Function.update_self]
      exact goes.linksTo addresses placed.some valid
    · exact absurd completed unfinished
    · exact changes.other x (apart a List.mem_cons_self completed)
    · exact Function.update_of_ne other ..

/-- What happens to a queue head depends on it and its descriptors only. -/
theorem Recycles.congr {d' : UhciInterfaceData} (recycles : s.Recycles d a)
    (memory : ∀ i < a.length, s'.data.memory (a.td i) = s.data.memory (a.td i))
    (element : s'.data.elements a.queueHead = s.data.elements a.queueHead)
    (sent : s'.sent a.queueHead = s.sent a.queueHead)
    (memory' : ∀ i < a.length, d'.memory (a.td i) = d.memory (a.td i))
    (element' : d'.elements a.queueHead = d.elements a.queueHead) : s'.Recycles d' a := by
  have same : a.Completed s'.data.memory ↔ a.Completed s.data.memory := by
    refine forall₂_congr fun i less => ?_
    rw [memory i less]
  refine ⟨fun completed i less => ?_, fun completed => ?_, fun unfinished => ?_⟩
  · rw [memory' i less, sent, memory i less]
    exact recycles.ready (same.mp completed) i less
  · rw [element']
    exact recycles.first (same.mp completed)
  · rw [element', element]
    exact recycles.left (mt same.mpr unfinished)

theorem Keeps.checkAll {arrays : List UhciTransferDescriptorArray} (keeps : Keeps s)
    (among : ∀ a ∈ arrays, a ∈ s.data.tdArrays) (nodup : arrays.Nodup) :
    ∃ d, (arrays.map (·.queueHead)).foldlM checkQueueHead s.data = some d ∧
      Keeps { s with data := d } ∧ (∀ a ∈ arrays, s.Recycles d a) ∧ s.Frame d arrays ∧
      ∀ q, q ∉ arrays.map (·.queueHead) → d.elements q = s.data.elements q := by
  induction arrays generalizing s with
  | nil => exact ⟨s.data, rfl, keeps, nofun, fun _ _ => rfl, fun _ _ => rfl⟩
  | cons a rest ih =>
    obtain ⟨missing, nodup'⟩ := List.nodup_cons.mp nodup
    have member := among a List.mem_cons_self
    obtain ⟨d₁, ran, keeps₁, recycles, frame, arrays, elements⟩ := keeps.checkOne member
    have among' (b) (here : b ∈ rest) : b ∈ d₁.tdArrays :=
      arrays ▸ among b (List.mem_cons_of_mem a here)
    obtain ⟨d, ran', keeps', recycled, frame', elements'⟩ := ih keeps₁ among' nodup'
    -- the others are what they were, and the first one stays what it is
    have heads (b) (here : b ∈ rest) : b.queueHead ≠ a.queueHead :=
      keeps.queueHead_ne (among b (List.mem_cons_of_mem a here)) member
        (ne_of_mem_of_not_mem here missing)
    have apart (b) (here : b ∈ rest) (i) (less : i < b.length) (j) (small : j < a.length) :
        b.td i ≠ a.td j :=
      keeps.apart b (among b (List.mem_cons_of_mem a here)) a member (heads b here) i less j small
    have before (b) (here : b ∈ rest) (i) (less : i < b.length) :
        d₁.memory (b.td i) = s.data.memory (b.td i) := by
      refine frame _ fun c same _ j small => ?_
      rw [List.mem_singleton.mp same] at small ⊢
      exact apart b here i less j small
    refine ⟨d, ?_, keeps', ?_, fun x outside => ?_, fun q outside => ?_⟩
    · rw [List.map_cons, List.foldlM_cons, ran]
      exact ran'
    · refine List.forall_mem_cons.mpr ⟨?_, fun b here => ?_⟩
      · refine recycles.congr (fun _ _ => rfl) rfl rfl (fun i less => ?_) ?_
        · exact frame' _ fun b here _ j small => (apart b here j small i less).symm
        · refine elements' _ fun here => ?_
          obtain ⟨b, there, same⟩ := List.mem_map.mp here
          exact heads b there same
      · exact (recycled b here).congr (fun i less => (before b here i less).symm)
          (elements _ (heads b here)).symm rfl (fun _ _ => rfl) rfl
    · have later : d.memory x = d₁.memory x := by
        refine frame' x fun b here completed => ?_
        refine outside b (List.mem_cons_of_mem a here) fun i less => ?_
        rw [← before b here i less]
        exact completed i less
      refine later.trans (frame x fun c same => ?_)
      rw [List.mem_singleton.mp same]
      exact outside a List.mem_cons_self
    · rw [List.map_cons, List.mem_cons, not_or] at outside
      exact (elements' q outside.2).trans (elements q outside.1)

theorem Keeps.check (keeps : Keeps s) :
    ∃ d, s.data.interruptCheckInterrupt = some d ∧ Keeps { s with data := d } ∧
      (∀ a ∈ s.data.tdArrays, s.Recycles d a) ∧ s.Frame d s.data.tdArrays := by
  have nodup : (s.data.tdArrays.map (·.queueHead)).Nodup := keeps.heads ▸ List.nodup_range
  obtain ⟨d, ran, keeps', recycles, frame, _⟩ :=
    keeps.checkAll (fun _ member => member) nodup.of_map
  rw [keeps.heads] at ran
  exact ⟨d, ran, keeps', recycles, frame⟩

/-! ### Registrations -/

/-- The array of a new endpoint. -/
def newArray (s : UhciInterruptRun) (endpoint : UhciGeneralEndpoint) :
    UhciTransferDescriptorArray where
  transferDescriptors := tdAddress (s.data.list (indexOf endpoint))
    (s.data.allocatedInterruptTransferDescriptors (indexOf endpoint))
  length := tdsRequired 64 endpoint.wMaxPacketSize % 2 ^ 8
  interval := u8RoundedToHighestPowerOf2 endpoint.bInterval
  queueHead := s.data.allocatedInterruptQueueHeads

private theorem td_newArray (s : UhciInterruptRun) (i : Nat) : (s.newArray endpoint).td i =
    tdAddress (s.data.list (indexOf endpoint))
      (s.data.allocatedInterruptTransferDescriptors (indexOf endpoint) + i) := by
  change tdAddress (tdAddress _ _) i = _
  unfold tdAddress
  omega

/-- What is recorded of it. -/
def recorded (s : UhciInterruptRun) (endpoint : UhciGeneralEndpoint) : UhciInterfaceData :=
  { s.data with
    interruptQueueHeadsIndices := Function.update s.data.interruptQueueHeadsIndices
      s.data.allocatedBulkQueueHeads (indexOf endpoint)
    allocatedInterruptQueueHeads := s.data.allocatedInterruptQueueHeads + 1
    allocatedInterruptTransferDescriptors :=
      Function.update s.data.allocatedInterruptTransferDescriptors (indexOf endpoint)
        (s.data.allocatedInterruptTransferDescriptors (indexOf endpoint) +
          tdsRequired 64 endpoint.wMaxPacketSize % 2 ^ 8) }

/-- The data after the registration. -/
def registered (s : UhciInterruptRun) (endpoint : UhciGeneralEndpoint)
    (memory' : Nat → UhciTransferDescriptor) : UhciInterfaceData :=
  { s.recorded endpoint with
    memory := memory'
    elements := Function.update s.data.elements s.data.allocatedInterruptQueueHeads
      (setQueueElementLinkPointer
        (setBit (s.data.elements s.data.allocatedInterruptQueueHeads) 0 true)
        (s.newArray endpoint).transferDescriptors)
    tdArrays := s.data.tdArrays ++ [s.newArray endpoint] }

private theorem registerInterrupt_eq (fits : s.Fits endpoint) :
    s.data.registerInterrupt endpoint deviceAddress lowSpeed =
      (s.recorded endpoint).attachInterrupt endpoint deviceAddress lowSpeed
        (tdsRequired 64 endpoint.wMaxPacketSize % 2 ^ 8) (indexOf endpoint)
        (u8RoundedToHighestPowerOf2 endpoint.bInterval) s.data.allocatedInterruptQueueHeads
        (s.data.allocatedInterruptTransferDescriptors (indexOf endpoint)) := by
  have index : ¬11 ≤ (u8RoundedToHighestPowerOf2 endpoint.bInterval).log2 :=
    Nat.not_le.mpr fits.index
  have acquired : s.data.acquireQhAndTdsForInterrupt
      (tdsRequired 64 endpoint.wMaxPacketSize % 2 ^ 8) (indexOf endpoint) =
        some (s.data.allocatedInterruptQueueHeads,
          s.data.allocatedInterruptTransferDescriptors (indexOf endpoint),
          s.recorded endpoint) := by
    simp only [acquireQhAndTdsForInterrupt]
    rw [if_neg (Nat.not_le.mpr fits.queueHead), if_neg (Nat.not_lt.mpr fits.descriptors),
      if_neg (Nat.not_le.mpr fits.place)]
    rfl
  rw [registerInterrupt, if_neg fits.interval]
  refine (if_neg index).trans ?_
  exact (congrArg (Option.bind · _) acquired).trans (Option.bind_some ..)

private theorem fits_of_registerInterrupt
    (ran : s.data.registerInterrupt endpoint deviceAddress lowSpeed = some d) :
    s.Fits endpoint := by
  simp only [registerInterrupt] at ran
  split at ran
  · cases ran
  next interval =>
  split at ran
  · cases ran
  next index =>
  obtain ⟨⟨qh, first, middle⟩, acquired, attached⟩ := Option.bind_eq_some_iff.mp ran
  have some := (UhciTransferDescriptorArray.attachInterrupt_spec attached rfl).1
  simp only [acquireQhAndTdsForInterrupt] at acquired
  split at acquired
  · cases acquired
  next queueHead =>
  split at acquired
  · cases acquired
  next descriptors =>
  split at acquired
  · cases acquired
  next place =>
  exact ⟨interval, Nat.not_le.mp index, Nat.not_le.mp queueHead, Nat.not_le.mp place, some,
    Nat.not_lt.mp descriptors⟩

theorem registerInterrupt_isSome_iff :
    (s.data.registerInterrupt endpoint deviceAddress lowSpeed).isSome ↔ s.Fits endpoint := by
  constructor
  · intro some
    obtain ⟨d, ran⟩ := Option.isSome_iff_exists.mp some
    exact fits_of_registerInterrupt ran
  · intro fits
    rw [registerInterrupt_eq fits]
    exact UhciTransferDescriptorArray.attachInterrupt_some fits.some (Nat.mod_le _ _)

private theorem registerInterrupt_spec
    (ran : s.data.registerInterrupt endpoint deviceAddress lowSpeed = some d) :
    s.Fits endpoint ∧ ∃ memory', d = s.registered endpoint memory' ∧
      ChangesEach s.data.memory memory' (s.newArray endpoint).transferDescriptors
        (s.newArray endpoint).length ((s.newArray endpoint).attached endpoint deviceAddress lowSpeed
          (s.data.allocatedInterruptTransferDescriptors (indexOf endpoint))) := by
  have fits := fits_of_registerInterrupt ran
  rw [registerInterrupt_eq fits] at ran
  obtain ⟨_, memory', same, changes⟩ :=
    UhciTransferDescriptorArray.attachInterrupt_spec (a := s.newArray endpoint) ran rfl
  exact ⟨fits, memory', same, changes⟩

/-- The new array is behind those that are allocated in its slice. -/
theorem Fits.placed (fits : s.Fits endpoint) (memory' : Nat → UhciTransferDescriptor) :
    Placed (s.registered endpoint memory') (s.newArray endpoint)
      (s.data.allocatedInterruptTransferDescriptors (indexOf endpoint)) where
  index := fits.index
  place := rfl
  some := fits.some
  allocated := by
    have last : (s.recorded endpoint).allocatedInterruptTransferDescriptors (indexOf endpoint) =
        s.data.allocatedInterruptTransferDescriptors (indexOf endpoint) +
          tdsRequired 64 endpoint.wMaxPacketSize % 2 ^ 8 := Function.update_self ..
    exact Nat.le_of_eq last.symm

theorem Fits.allocated (fits : s.Fits endpoint)
    (allocated : ∀ index < 11,
      s.data.allocatedInterruptTransferDescriptors index ≤ listLength index) (index : Nat)
    (small : index < 11) :
    (s.recorded endpoint).allocatedInterruptTransferDescriptors index ≤ listLength index := by
  rw [recorded]
  dsimp only
  by_cases here : index = indexOf endpoint
  · rw [here, Function.update_self]
    exact fits.descriptors
  · rw [Function.update_of_ne here]
    exact allocated index small

/-- The slices only get shorter. -/
theorem le_recorded (s : UhciInterruptRun) (endpoint : UhciGeneralEndpoint) (index : Nat) :
    s.data.allocatedInterruptTransferDescriptors index ≤
      (s.recorded endpoint).allocatedInterruptTransferDescriptors index := by
  rw [recorded]
  dsimp only
  by_cases here : index = indexOf endpoint
  · rw [here, Function.update_self]
    exact Nat.le_add_right ..
  · rw [Function.update_of_ne here]

theorem Placed.registered (placed : Placed s.data a offset) (endpoint : UhciGeneralEndpoint)
    (memory' : Nat → UhciTransferDescriptor) : Placed (s.registered endpoint memory') a offset where
  index := placed.index
  place := placed.place
  some := placed.some
  allocated := placed.allocated.trans (s.le_recorded endpoint _)

/-- No descriptor of the new array is in an array that was there. -/
theorem Keeps.apart_new (keeps : Keeps s) (fits : s.Fits endpoint) (member : a ∈ s.data.tdArrays)
    {i j : Nat} (less : i < a.length) (small : j < (s.newArray endpoint).length) :
    a.td i ≠ (s.newArray endpoint).td j := by
  obtain ⟨offset, _, placed, _⟩ := keeps.queues a member
  have slice : s.data.allocatedInterruptTransferDescriptors (indexOf endpoint) + j <
      listLength (indexOf endpoint) :=
    Nat.lt_of_lt_of_le (Nat.add_lt_add_left small _) fits.descriptors
  have apart := placed.td_ne_fresh keeps.allocated fits.index less (Nat.le_add_right _ j) slice
  rw [s.td_newArray]
  exact apart.symm

/-- What is recorded stays right, and the new index is right too, under the condition. -/
theorem Keeps.records_iff (keeps : Keeps s) (memory' : Nat → UhciTransferDescriptor) :
    (∀ a ∈ (s.registered endpoint memory').tdArrays,
      (s.registered endpoint memory').interruptQueueHeadsIndices a.queueHead =
        a.interval.log2) ↔ s.Records (indexOf endpoint) := by
  have old := keeps.indices
  constructor
  · intro indices
    obtain ⟨before, last⟩ := List.forall_mem_append.mp indices
    have new := List.forall_mem_singleton.mp last
    constructor
    · by_cases here : s.data.allocatedBulkQueueHeads = s.data.allocatedInterruptQueueHeads
      · exact Or.inl here
      · exact Or.inr ((Function.update_of_ne (Ne.symm here) ..).symm.trans new)
    · intro less
      obtain ⟨a, member, same⟩ := keeps.exists_array less
      have written := before a member
      rw [same] at written
      have recorded := old a member
      rw [same] at recorded
      exact recorded.trans (written.symm.trans (Function.update_self ..))
  · rintro ⟨new, kept⟩
    refine List.forall_mem_append.mpr ⟨fun a member => ?_, List.forall_mem_singleton.mpr ?_⟩
    · by_cases here : a.queueHead = s.data.allocatedBulkQueueHeads
      · have same := kept (here ▸ keeps.queueHead_lt member)
        rw [here]
        refine (Function.update_self ..).trans ?_
        rw [← same, ← here]
        exact old a member
      · exact (Function.update_of_ne here ..).trans (old a member)
    · rcases new with same | right
      · refine (congrArg _ same.symm).trans ?_
        exact Function.update_self ..
      · by_cases here : s.data.allocatedInterruptQueueHeads = s.data.allocatedBulkQueueHeads
        · refine (congrArg _ here).trans ?_
          exact Function.update_self ..
        · exact (Function.update_of_ne here ..).trans right

/-- A registration that meets the condition. -/
theorem Keeps.register (keeps : Keeps s) (records : s.Records (indexOf endpoint))
    (ran : s.data.registerInterrupt endpoint deviceAddress lowSpeed = some d) :
    Keeps { s with data := d } := by
  obtain ⟨fits, memory', rfl, changes⟩ := registerInterrupt_spec ran
  have placed := fits.placed memory'
  have addresses : (s.newArray endpoint).Addresses :=
    Pages.addresses (d := s.registered endpoint memory') keeps.pages
      (fits.allocated keeps.allocated) placed
  obtain ⟨element, sent⟩ := keeps.unused _ (Nat.le_refl s.data.allocatedInterruptQueueHeads)
  have fresh (i) (less : i < (s.newArray endpoint).length) :
      s.data.memory ((s.newArray endpoint).td i) = UhciTransferDescriptor.zero := by
    have slice : s.data.allocatedInterruptTransferDescriptors (indexOf endpoint) + i <
        listLength (indexOf endpoint) :=
      Nat.lt_of_lt_of_le (Nat.add_lt_add_left less _) fits.descriptors
    rw [s.td_newArray]
    exact keeps.fresh _ fits.index _ (Nat.le_add_right _ i) slice
  have queue := UhciTransferDescriptorArray.queue_attached addresses fits.some fresh changes
  refine ⟨keeps.pages, ?_, (keeps.records_iff memory').mpr records, ?_, ?_,
    fits.allocated keeps.allocated, fun index small i free inside => ?_, fun q unused => ?_,
    ⟨keeps.bulk.few, keeps.bulk.inside, keeps.bulk.apart⟩⟩
  · have heads := keeps.heads
    change (s.data.tdArrays ++ [s.newArray endpoint]).map (·.queueHead) =
      List.range (s.data.allocatedInterruptQueueHeads + 1)
    rw [List.map_append, heads, List.range_succ]
    rfl
  · refine List.forall_mem_append.mpr ⟨fun a member => ?_, List.forall_mem_singleton.mpr ?_⟩
    · obtain ⟨offset, taken, old, queue⟩ := keeps.queues a member
      refine ⟨offset, taken, old.registered endpoint memory', ?_⟩
      have other : a.queueHead ≠ s.data.allocatedInterruptQueueHeads :=
        Nat.ne_of_lt (keeps.queueHead_lt member)
      have same : (s.registered endpoint memory').elements a.queueHead =
          s.data.elements a.queueHead := Function.update_of_ne other ..
      dsimp only
      rw [same]
      refine queue.congr fun i less => changes.other _ fun j small => ?_
      exact keeps.apart_new fits member less small
    · refine ⟨_, 0, placed, ?_⟩
      have linked : (s.registered endpoint memory').elements (s.newArray endpoint).queueHead =
          setQueueElementLinkPointer (setBit 0 0 true)
            (s.newArray endpoint).transferDescriptors :=
        (Function.update_self ..).trans (congrArg (fun element => setQueueElementLinkPointer
          (setBit element 0 true) (s.newArray endpoint).transferDescriptors) element)
      dsimp only
      rw [linked]
      exact sent.symm ▸ queue
  · intro a first b second different i less j small
    rcases List.mem_append.mp first with old | new <;>
      rcases List.mem_append.mp second with old' | new'
    · exact keeps.apart a old b old' different i less j small
    · obtain rfl := List.mem_singleton.mp new'
      exact keeps.apart_new fits old less small
    · obtain rfl := List.mem_singleton.mp new
      exact (keeps.apart_new fits old' small less).symm
    · exact absurd (congrArg (·.queueHead) ((List.mem_singleton.mp new).trans
        (List.mem_singleton.mp new').symm)) different
  · -- a descriptor that is free is not one of the new array
    refine (changes.other _ fun j less => ?_).trans (keeps.fresh index small i
      ((s.le_recorded endpoint index).trans free) inside)
    exact (placed.td_ne_fresh (fits.allocated keeps.allocated) small less free inside)
  · have above : s.data.allocatedInterruptQueueHeads < q := unused
    have other : q ≠ s.data.allocatedInterruptQueueHeads := Nat.ne_of_gt above
    obtain ⟨element', sent'⟩ := keeps.unused q above.le
    exact ⟨(Function.update_of_ne other ..).trans element', sent'⟩

/-! ### Bulk endpoints -/

theorem Keeps.acquireBulkQh (keeps : Keeps s) (ran : s.data.acquireBulkQh = some d) :
    Keeps { s with data := d } := by
  rw [UhciInterfaceData.acquireBulkQh] at ran
  split at ran
  · cases ran
    refine ⟨keeps.pages, keeps.heads, keeps.indices, fun a member => ?_, keeps.apart,
      keeps.allocated, keeps.fresh, keeps.unused,
      ⟨keeps.bulk.few, keeps.bulk.inside, keeps.bulk.apart⟩⟩
    obtain ⟨offset, taken, placed, queue⟩ := keeps.queues a member
    exact ⟨offset, taken, ⟨placed.index, placed.place, placed.some, placed.allocated⟩, queue⟩
  · cases ran

theorem Keeps.acquireBulkTds (keeps : Keeps s) {tdsNeeded address : Nat}
    (ran : s.data.acquireBulkTds tdsNeeded = some (address, d)) :
    Keeps { s with data := d, bulkTds := s.bulkTds ++ [(address, tdsNeeded)] } := by
  simp only [UhciInterfaceData.acquireBulkTds] at ran
  split at ran
  · cases ran
  next room =>
    cases ran
    have few := keeps.bulk.few
    refine ⟨keeps.pages, keeps.heads, keeps.indices, fun a member => ?_, keeps.apart,
      keeps.allocated, keeps.fresh, keeps.unused, ⟨Nat.not_lt.mp room, ?_, ?_⟩⟩
    · obtain ⟨offset, taken, placed, queue⟩ := keeps.queues a member
      exact ⟨offset, taken, ⟨placed.index, placed.place, placed.some, placed.allocated⟩, queue⟩
    · refine List.forall_mem_append.mpr ⟨fun g old => ?_, List.forall_mem_singleton.mpr ?_⟩
      · obtain ⟨above, below⟩ := keeps.bulk.inside g old
        dsimp only
        omega
      · unfold tdAddress
        dsimp only
        omega
    · refine List.pairwise_append.mpr ⟨keeps.bulk.apart, List.pairwise_singleton .., ?_⟩
      intro g old g' new i less j small
      obtain ⟨above, below⟩ := keeps.bulk.inside g old
      rw [List.mem_singleton.mp new] at small ⊢
      unfold tdAddress
      dsimp only at small ⊢
      omega

/-! ### Runs -/

/-- The arrays of interrupt endpoints are in another page than those of bulk endpoints. -/
theorem Keeps.disjoint (keeps : Keeps s) :
    (s.data.tdArrays.map (fun a => (a.transferDescriptors, a.length)) ++
      s.bulkTds).Pairwise Apart := by
  have nodup : (s.data.tdArrays.map (·.queueHead)).Nodup := keeps.heads ▸ List.nodup_range
  refine List.pairwise_append.mpr ⟨List.pairwise_map.mpr ?_, keeps.bulk.apart, ?_⟩
  · refine (List.pairwise_map.mp nodup).imp_of_mem fun {a b} first second different => ?_
    exact keeps.apart a first b second different
  · intro g interrupt g' bulk i less j small
    obtain ⟨a, member, rfl⟩ := List.mem_map.mp interrupt
    obtain ⟨offset, _, placed, _⟩ := keeps.queues a member
    have inPage := placed.inPage keeps.allocated less
    have here : tdAddress a.transferDescriptors i = _ := placed.td_eq i
    obtain ⟨above, below⟩ := keeps.bulk.inside g' bulk
    have few := keeps.bulk.few
    have apart := keeps.pages.apart
    rw [here]
    unfold tdAddress
    omega

theorem Keeps.next (keeps : Keeps s) (member : a ∈ s.data.tdArrays)
    (unfinished : ¬a.Completed s.data.memory) : s.Next a := by
  obtain ⟨offset, taken, placed, queue⟩ := keeps.queues a member
  have less : taken < a.length :=
    Nat.lt_of_le_of_ne queue.inside (mt queue.completed_iff.mpr unfinished)
  have counted := queue.counted
  refine ⟨taken, less, queue.element.address (keeps.addresses placed) less, ?_, ?_⟩
  · rw [queue.active less, decide_eq_true (Nat.le_refl taken)]
  · rw [queue.toggle taken less, Nat.sub_add_cancel counted]
    rfl

theorem Keeps.chained (keeps : Keeps s) (member : a ∈ s.data.tdArrays) {i : Nat}
    (less : i + 1 < a.length) : LinksTo (s.data.memory (a.td i)).link (a.td (i + 1)) := by
  obtain ⟨offset, taken, placed, queue⟩ := keeps.queues a member
  exact (queue.link i (Nat.lt_of_succ_lt less)).linksTo (keeps.addresses placed) less
    (queue.valid i less)

theorem Keeps.good (keeps : Keeps s) : s.Good := by
  obtain ⟨d, ran, _, recycles, frame⟩ := keeps.check
  exact ⟨keeps.heads, keeps.indices, keeps.disjoint, fun a => keeps.next, fun a member i =>
    keeps.chained member, d, ran, recycles, frame⟩

theorem Keeps.right (keeps : Keeps s) : s.Right where
  good := keeps.good
  served endpoint deviceAddress lowSpeed := by
    rw [serve, Option.isSome_map, registerInterrupt_isSome_iff]
  exact endpoint deviceAddress lowSpeed s' served := by
    obtain ⟨d, ran, rfl⟩ := Option.map_eq_some_iff.mp served
    constructor
    · intro good
      obtain ⟨_, memory', rfl, _⟩ := registerInterrupt_spec ran
      exact (keeps.records_iff memory').mp good.indices
    · exact fun records => (keeps.register records ran).good

/-- Every request that meets the condition keeps the invariant. -/
theorem Keeps.serve (keeps : Keeps s) {r : UhciInterruptRequest} (meets : s.Meets r)
    (served : s.serve r = some s') : Keeps s' := by
  cases r with
  | bulkQh =>
    obtain ⟨d, ran, rfl⟩ := Option.map_eq_some_iff.mp served
    exact keeps.acquireBulkQh ran
  | bulkTds tdsNeeded =>
    obtain ⟨⟨address, d⟩, ran, rfl⟩ := Option.map_eq_some_iff.mp served
    exact keeps.acquireBulkTds ran
  | interrupt endpoint deviceAddress lowSpeed =>
    obtain ⟨d, ran, rfl⟩ := Option.map_eq_some_iff.mp served
    exact keeps.register meets ran
  | install k =>
    obtain ⟨a, found, rfl⟩ := Option.map_eq_some_iff.mp served
    exact keeps.install (List.mem_of_getElem? found) (meets a found)
  | packet qh length => exact keeps.packet served
  | check =>
    obtain ⟨d, ran, rfl⟩ := Option.map_eq_some_iff.mp served
    obtain ⟨d', ran', keeps', _⟩ := keeps.check
    cases ran.symm.trans ran'
    exact keeps'

theorem keeps_start {memory : Nat → UhciTransferDescriptor} {interruptTds bulkTds : Nat}
    (pages : Pages interruptTds bulkTds) : Keeps (start memory interruptTds bulkTds) where
  pages := pages
  heads := rfl
  indices := nofun
  queues := nofun
  apart := nofun
  allocated index small := Nat.zero_le _
  fresh index small i _ inside := by
    have page := lists_inside index small
    refine if_pos ?_
    rw [list]
    unfold tdAddress
    change interruptTds ≤ interruptTds + 16 * listOffset index + 16 * i ∧
      interruptTds + 16 * listOffset index + 16 * i < interruptTds + 0x1000
    omega
  unused _ _ := ⟨rfl, rfl⟩
  bulk := ⟨Nat.zero_le _, nofun, List.Pairwise.nil⟩

/-- In every run whose registrations are recorded right, the interrupt queue heads have their
intervals and their own descriptors, and a finished one is recycled for the packets that
follow. -/
theorem interrupts_right {memory : Nat → UhciTransferDescriptor} {interruptTds bulkTds : Nat}
    (pages : Pages interruptTds bulkTds)
    (run : Requests.Run serve Meets (start memory interruptTds bulkTds) s) : Right s := by
  have keeps : Keeps s := run.keeps (keeps_start pages) fun _ _ _ keeps meets served =>
    keeps.serve meets served
  exact keeps.right

section Samples

instance (s : UhciInterruptRun) (r : UhciInterruptRequest) : Decidable (s.Meets r) :=
  match r with
  | .bulkQh => inferInstanceAs (Decidable True)
  | .bulkTds _ => inferInstanceAs (Decidable True)
  | .interrupt _ _ _ => inferInstanceAs (Decidable ((_ ∨ _) ∧ (_ → _)))
  | .install _ => inferInstanceAs (Decidable (∀ a ∈ _, _))
  | .packet _ _ => inferInstanceAs (Decidable True)
  | .check => inferInstanceAs (Decidable True)

/-- An endpoint that is asked every so many milliseconds for so many bytes. -/
def endpointIn (bInterval : Byte) (wMaxPacketSize : Nat) : UhciGeneralEndpoint :=
  ⟨0x81, 3, wMaxPacketSize, bInterval⟩

/-- The pages are at `0x1000` and `0x2000`. -/
def zeroPages : UhciInterruptRun := start (fun _ => .zero) 0x1000 0x2000

/-- With a bulk queue head between them two endpoints are recorded right; the first one has three
descriptors and is recycled. -/
theorem interrupts_right_two : ∃ s, Requests.Run serve Meets zeroPages s ∧
    s.data.tdArrays.length = 2 ∧ s.sent 0 = 3 ∧ Right s := by
  have shown : ((Requests.serveAll serve Meets zeroPages [.interrupt (endpointIn 8 130) 1 false,
      .bulkQh, .interrupt (endpointIn 4 8) 2 true, .install 0, .packet 0 63, .packet 0 63,
      .packet 0 1, .check]).any fun s =>
        decide (s.data.tdArrays.length = 2 ∧ s.sent 0 = 3)) = true := by decide +kernel
  obtain ⟨s, served, facts⟩ := (Option.any_eq_true _ _).mp shown
  obtain ⟨two, three⟩ := of_decide_eq_true facts
  have run := Requests.serveAll_run served
  have pages : Pages 0x1000 0x2000 := ⟨by decide, by decide, by decide, by decide⟩
  exact ⟨s, run, two, three, interrupts_right pages run⟩

/-- The second of two endpoints with the same interval is not recorded; and a page of
descriptors may be taken for the link of a last one. -/
theorem not_recorded : (∃ s, Requests.Run serve (fun _ _ => True) zeroPages s ∧ ¬s.Good) ∧
    ∃ s, Requests.Run serve Meets (start (fun _ => .zero) 0x20000000 0x1000) s ∧ ¬s.Good := by
  constructor
  · have shown : ((Requests.serveAll serve (fun _ _ => True) zeroPages
        [.interrupt (endpointIn 8 8) 1 false, .interrupt (endpointIn 8 8) 2 false]).any fun s =>
          s.data.tdArrays.any fun a =>
            s.data.interruptQueueHeadsIndices a.queueHead ≠ a.interval.log2) = true := by
      decide +kernel
    obtain ⟨s, served, wrong⟩ := (Option.any_eq_true _ _).mp shown
    obtain ⟨a, member, different⟩ := List.any_eq_true.mp wrong
    refine ⟨s, Requests.serveAll_run served, fun good => ?_⟩
    exact of_decide_eq_true different (good.indices a member)
  · have shown : ((Requests.serveAll serve Meets (start (fun _ => .zero) 0x20000000 0x1000)
        [.interrupt (endpointIn 8 8) 1 false]).any fun s =>
          s.data.interruptCheckInterrupt.isNone) = true := by decide +kernel
    obtain ⟨s, served, panics⟩ := (Option.any_eq_true _ _).mp shown
    refine ⟨s, Requests.serveAll_run served, fun good => ?_⟩
    obtain ⟨d, ran, _⟩ := good.recycles
    rw [ran] at panics
    cases panics

end Samples

end UhciInterruptRun

end EmkKernel
