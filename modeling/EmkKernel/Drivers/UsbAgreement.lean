import EmkKernel.Drivers.UsbTables

/-!
# Four parsers for one format

The parsers of the four drivers find the same interfaces in a block exactly when what they
peek at belongs to it, every HID descriptor has the length that they expect, and there is
room.
-/

namespace EmkKernel

open Checked UsbParsing

/-- The two tables of a driver, as `push_back` keeps them. -/
structure DriverTables (ι ε : Type) where
  interfaces : PageAllocator ι
  endpoints : PageAllocator ε
  interfacesKept : interfaces.allocated ≤ interfaces.capacity
  endpointsKept : endpoints.allocated ≤ endpoints.capacity

/-- The tables take the interfaces and endpoints of the block. A strict driver carves every
slice out of a table that is not full, also an empty slice. -/
structure DriverTables.Room {ι ε : Type} (tables : DriverTables ι ε) (strict : Bool)
    (blocks : List InterfaceBlock) : Prop where
  interfaces : tables.interfaces.allocated + blocks.length ≤ tables.interfaces.capacity
  endpoints : tables.endpoints.allocated + endpointCount blocks ≤ tables.endpoints.capacity
  first : strict = true → tables.interfaces.allocated < tables.interfaces.capacity
  each : strict = true → blocks ≠ [] →
    tables.endpoints.allocated + endpointCount blocks.dropLast < tables.endpoints.capacity

/-- A buffer with a configuration block. -/
structure UsbBuffer (blocks : List InterfaceBlock) where
  memory : Nat → Byte
  data : Nat
  holds : HoldsBytes memory data (blockBytes blocks)

/-- The end of the block: `wTotalLength` from the configuration descriptor on. -/
def UsbBuffer.high {blocks : List InterfaceBlock} (buffer : UsbBuffer blocks) : Nat :=
  buffer.data + (blockBytes blocks).length

private theorem endpointCount_le (blocks : List InterfaceBlock) :
    endpointCount blocks ≤ 255 * blocks.length := by
  induction blocks with
  | nil => exact Nat.le_refl 0
  | cons b rest ih =>
    have few := b.few
    rw [endpointCount_cons, List.length_cons]
    omega

section Generic

variable {ι ε σ : Type} {driver : UsbDriver ι ε σ} {view : UsbView ι ε}
  {step : EndpointBlock → σ → Option (ε × σ)} {strict peeks : Bool} {Suits : EndpointBlock → Prop}

private theorem safe_newConfiguration (follows : driver.Follows view step strict peeks Suits)
    {blocks : List InterfaceBlock} (suits : ∀ b ∈ blocks, ∀ e ∈ b.endpoints, Suits e)
    (single : SingleClass blocks) (few : blocks.length < 2 ^ 8) (buffer : UsbBuffer blocks)
    (tables : DriverTables ι ε) (own : σ) (K : σ → Prop) :
    Safe (driver.newConfiguration tables.interfaces tables.endpoints own buffer.memory buffer.data
          blocks.length) (Inside buffer.data buffer.high)
        (fun r => view.Produces blocks buffer.high r ∧ K r.2.own) ↔
      Announced blocks ∧ (peeks = true → EndsCompanioned blocks) ∧ tables.Room strict blocks ∧
        ∃ own', takeOwn step (blocks.flatMap InterfaceBlock.endpoints) own = some own' ∧
          K own' := by
  have count := endpointCount_le blocks
  simp only [UsbDriver.newConfiguration, safe_bind, safe_orStop, safe_pure, opens_some follows]
  have loop : ∀ Q : UsbParsing ι ε σ → Prop, _ := fun Q =>
    safe_interfaceLoop (Q := Q) follows suits single (i := 0)
      (c := ⟨buffer.data, 0, [], tables.interfaces, tables.endpoints, own⟩)
      buffer.holds (Nat.le_refl buffer.data) (by simp only; omega)
  constructor
  · rintro ⟨start, ⟨first, rfl⟩, safe⟩
    obtain ⟨announced, ends, c', took, produces, kept⟩ := (loop _).1 safe
    obtain ⟨interfaces, endpoints⟩ :=
      (takeInterfaces_read follows took tables.interfacesKept tables.endpointsKept).1
        produces.interfaces
    obtain ⟨each, owned⟩ := (takeInterfaces_some follows endpoints).1 ⟨c', took, rfl⟩
    exact ⟨announced, ends, ⟨interfaces, endpoints, first, each⟩, c'.own, owned, kept⟩
  · rintro ⟨announced, ends, room, own', owned, kept⟩
    obtain ⟨c', took, rfl⟩ := (takeInterfaces_some follows (i := 0)
      (c := ⟨buffer.data, 0, [], tables.interfaces, tables.endpoints, own⟩) room.endpoints).2
      ⟨room.each, owned⟩
    obtain ⟨data, numEndpoints, hids⟩ := takeInterfaces_frame took
    refine ⟨_, ⟨room.first, rfl⟩, (loop _).2 ⟨announced, ends, c', took, ⟨?_, ?_, ?_, data⟩, kept⟩⟩
    · exact (takeInterfaces_read follows took tables.interfacesKept tables.endpointsKept).2
        ⟨room.interfaces, room.endpoints⟩
    · rw [hids, List.nil_append]
    · rw [numEndpoints, Nat.zero_add]

end Generic

/-! ## The drivers -/

def uhciView : UsbView UhciInterface UhciGeneralEndpoint where
  interfaceClass := UhciInterface.interfaceClass
  subClass := UhciInterface.interfaceSubClass
  protocol := UhciInterface.interfaceProtocol
  endpoints := UhciInterface.endpoints
  endpoint e := ⟨e.endpointAddress, e.bmAttributes, e.wMaxPacketSize, e.bInterval⟩

def ohciView : UsbView OhciInterface OhciGeneralEndpoint where
  interfaceClass := OhciInterface.interfaceClass
  subClass := OhciInterface.interfaceSubClass
  protocol := OhciInterface.interfaceProtocol
  endpoints := OhciInterface.endpoints
  endpoint e := ⟨e.endpointAddress, e.bmAttributes, e.wMaxPacketSize, e.bInterval⟩

def ehciView : UsbView EhciInterface EhciEndpoint where
  interfaceClass := EhciInterface.interfaceClass
  subClass := EhciInterface.interfaceSubClass
  protocol := EhciInterface.interfaceProtocol
  endpoints := EhciInterface.endpoints
  endpoint e := ⟨e.endpointInformation.endpointAddress, e.endpointInformation.attributes,
    e.endpointInformation.maxPacketSize, e.endpointInformation.interval⟩

def xhciView : UsbView XhciInterface XhciEndpointDescriptor where
  interfaceClass := XhciInterface.interfaceClass
  subClass := XhciInterface.subClass
  protocol := XhciInterface.protocol
  endpoints := XhciInterface.endpoints
  endpoint e := ⟨e.endpointAddress, e.bmAttributes, e.maxPacketSize, e.interval⟩

/-- An endpoint without a companion. -/
def Alone (e : EndpointBlock) : Prop := e.companion = none

private theorem handleHidOnly_follows {ι ε σ : Type} {memory : Nat → Byte} {i : Byte}
    {c : UsbParsing ι ε σ} :
    (memory (c.data + 1) = 0x21 →
      UsbDriver.handleHidOnly memory i c = UsbDriver.handleHid memory i c) ∧
    (memory (c.data + 1) = 4 → UsbDriver.handleHidOnly memory i c = stop) := by
  constructor
  · intro type
    rw [UsbDriver.handleHidOnly, if_pos type]
  · intro type
    rw [UsbDriver.handleHidOnly, type, if_neg (by decide)]

private theorem wholeAsMutSlice_size {T : Type} (table : PageAllocator T) :
    table.wholeAsMutSlice table.size =
      if true = true ∧ table.capacity ≤ table.allocated then none else some table.allocated := by
  simp [PageAllocator.wholeAsMutSlice, PageAllocator.size]

private theorem asMutPtr_size {T : Type} (table : PageAllocator T) :
    table.asMutPtr table.size =
      if false = true ∧ table.capacity ≤ table.allocated then none else some table.allocated := by
  simp [PageAllocator.asMutPtr, PageAllocator.size]

theorem alone_reads {e : EndpointBlock} {memory : Nat → Byte} {data low : Nat} {rest : List Byte}
    (alone : Alone e) (holds : HoldsBytes memory data (e.bytes ++ rest)) (ordered : low ≤ data) :
    Inside low (data + (e.bytes ++ rest).length) data 7 ∧
      endpointDescriptorAt memory data = e.descriptor ∧ e.bytes.length = 7 := by
  have length : e.bytes.length = 7 := by
    rw [e.bytes_length, show e.companion = none from alone]
    rfl
  refine ⟨⟨ordered, ?_⟩, endpointDescriptorAt_bytes (holdsBytes_append.1 holds).1, length⟩
  rw [List.length_append, length]
  omega

private theorem uhci_follows : uhciDriver.Follows uhciView
    (fun e _ => some (.fromRaw e.descriptor, ())) true false Alone where
  opens := wholeAsMutSlice_size
  hid := handleHidOnly_follows.1
  other := handleHidOnly_follows.2
  interface _ _ := ⟨rfl, rfl, rfl, rfl⟩
  endpoint taken := by cases taken; rfl
  reads alone holds _ ordered := by
    obtain ⟨inside, descriptor, length⟩ := alone_reads alone holds ordered
    simp only [uhciDriver, safe_bind, safe_look, safe_pure, inside, true_and, descriptor, length,
      Option.some.injEq, exists_eq_left', Bool.false_eq_true, false_implies]

private theorem ohci_follows : ohciDriver.Follows ohciView
    (fun e _ => some (.fromRaw e.descriptor, ())) false false Alone where
  opens := asMutPtr_size
  hid := handleHidOnly_follows.1
  other := handleHidOnly_follows.2
  interface _ _ := ⟨rfl, rfl, rfl, rfl⟩
  endpoint taken := by cases taken; rfl
  reads alone holds _ ordered := by
    obtain ⟨inside, descriptor, length⟩ := alone_reads alone holds ordered
    simp only [ohciDriver, safe_bind, safe_look, safe_pure, inside, true_and, descriptor, length,
      Option.some.injEq, exists_eq_left', Bool.false_eq_true, false_implies]

/-- The endpoint with the two pages that it gets. -/
def ehciStep (e : EndpointBlock) (allocator : Allocator) : Option (EhciEndpoint × Allocator) :=
  (unwrapMemory (allocator.alloc 2)).map fun pages =>
    (.fullNewFromRaw e.descriptor 256 pages.1.base, pages.2)

private theorem ehci_follows : ehciDriver.Follows ehciView ehciStep false false Alone where
  opens := asMutPtr_size
  hid := handleHidOnly_follows.1
  other := handleHidOnly_follows.2
  interface _ _ := ⟨rfl, rfl, rfl, rfl⟩
  endpoint taken := by
    obtain ⟨pages, _, same⟩ := Option.map_eq_some_iff.1 taken
    cases same
    rfl
  reads alone holds _ ordered := by
    obtain ⟨inside, descriptor, length⟩ := alone_reads alone holds ordered
    simp only [ehciDriver, ehciStep, safe_bind, safe_orStop, safe_look, safe_pure, inside, true_and,
      descriptor, length, Bool.false_eq_true, false_implies, Option.map_eq_some_iff]
    constructor
    · rintro ⟨pages, granted, value⟩
      exact ⟨_, ⟨pages, granted, rfl⟩, value⟩
    · rintro ⟨_, ⟨pages, granted, rfl⟩, value⟩
      exact ⟨pages, granted, value⟩

/-- The endpoint with what its companion says. -/
def xhciEndpoint (e : EndpointBlock) : XhciEndpointDescriptor :=
  match e.companion with
  | none => .fromDescriptor e.descriptor
  | some companion => { XhciEndpointDescriptor.fromDescriptor e.descriptor with
      superspeedMaxBurst := companion.maxBurst
      superspeedBmAttributes := companion.attributes }

private theorem xhci_follows : xhciDriver.Follows xhciView (fun e own => some (xhciEndpoint e, own))
    true true
    fun _ => True where
  opens := wholeAsMutSlice_size
  hid := by
    intro memory i c type
    simp only [xhciDriver, type]
    rfl
  other := by
    intro memory i c type
    simp only [xhciDriver, type]
    rfl
  interface _ _ := ⟨rfl, rfl, rfl, rfl⟩
  endpoint {e _ _ _} taken := by
    cases taken
    unfold xhciEndpoint
    cases e.companion <;> rfl
  reads {e memory data own rest low Q} _ holds starts ordered := by
    have descriptor := endpointDescriptorAt_bytes (holdsBytes_append.1 holds).1
    have length := e.bytes_length
    have total : (e.bytes ++ rest).length = e.bytes.length + rest.length := List.length_append
    have within : Inside low (data + (e.bytes ++ rest).length) data 7 := by
      refine ⟨ordered, ?_⟩
      rw [total, length]
      split <;> omega
    simp only [xhciDriver, safe_bind, safe_look, safe_ite, safe_pure, within, true_and, descriptor,
      Option.some.injEq, exists_eq_left', forall_const]
    cases companion : e.companion with
    | none =>
      rw [companion] at length
      simp only [Option.isSome_none, Bool.false_eq_true, if_false] at length
      rcases starts with rfl | ⟨a, t, more, rfl, other⟩
      · -- the block ends behind the endpoint
        simp only [ne_eq, not_true, false_and, iff_false, imp_false]
        rintro ⟨⟨_, below⟩, _⟩
        simp only [List.length_nil] at total
        omega
      · have next := (holdsBytes_append.1 holds).2
        rw [length, holdsBytes_cons, holdsBytes_cons] at next
        rw [if_neg (by rw [next.2.1]; exact other), length]
        simp only [List.length_cons] at total
        have peeked : Inside low (data + (e.bytes ++ a :: t :: more).length) (data + 7 + 1) 1 :=
          ⟨by omega, by omega⟩
        simp only [peeked, xhciEndpoint, companion, true_and, ne_eq, reduceCtorEq,
          not_false_eq_true,
          implies_true]
    | some c =>
      rw [companion] at length
      simp only [Option.isSome_some, if_true] at length
      have bytes := (holdsBytes_append.1 holds).1
      simp only [EndpointBlock.bytes, companion, CompanionBlock.bytes, wordBytes, List.cons_append,
        List.nil_append, Option.map_some, Option.getD_some, holdsBytes_cons, Nat.add_assoc,
        Nat.reduceAdd] at bytes
      obtain ⟨-, -, -, -, -, -, -, -, type, burst, attributes, -⟩ := bytes
      have peeked : Inside low (data + (e.bytes ++ rest).length) (data + 7 + 1) 1 :=
        ⟨by omega, by omega⟩
      have looked : Inside low (data + (e.bytes ++ rest).length) (data + 7 + 2) 2 :=
        ⟨by omega, by omega⟩
      simp only [Nat.add_assoc, Nat.reduceAdd] at peeked looked ⊢
      rw [if_pos type, length]
      simp only [peeked, looked, burst, attributes, xhciEndpoint, companion, true_and, reduceCtorEq,
        false_implies]

/-! ## Every byte counts -/

/-- How many optional class descriptors there are. -/
def optionalCount (blocks : List InterfaceBlock) : Nat :=
  (blocks.map fun b => (b.hid.map fun h => h.optional.length).getD 0).sum

private theorem singleClass_of_optionalCount {blocks : List InterfaceBlock}
    (none : optionalCount blocks = 0) :
    SingleClass blocks := by
  induction blocks with
  | nil => exact nofun
  | cons b rest ih =>
    rw [optionalCount, List.map_cons, List.sum_cons] at none
    obtain ⟨own, later⟩ := Nat.add_eq_zero_iff.1 none
    intro b' member h here
    rcases List.mem_cons.1 member with rfl | member
    · rw [Option.mem_def.1 here, Option.map_some, Option.getD_some] at own
      exact List.length_eq_zero_iff.1 own
    · exact ih later b' member h here

private theorem blockBytes_length {blocks : List InterfaceBlock}
    (alone : ∀ b ∈ blocks, ∀ e ∈ b.endpoints, Alone e) (i : Nat) :
    (blockBytes blocks).length = 9 * blocks.length + 9 * (hidsFrom i blocks).length +
      3 * optionalCount blocks + 7 * endpointCount blocks := by
  induction blocks generalizing i with
  | nil => rfl
  | cons b rest ih =>
    have later := ih (fun b' member => alone b' (List.mem_cons_of_mem _ member)) (i + 1)
    have endpoints : (b.endpoints.flatMap EndpointBlock.bytes).length = 7 * b.endpoints.length := by
      have each : b.endpoints.map (fun e => e.bytes.length) = b.endpoints.map fun _ => 7 := by
        refine List.map_congr_left fun e member => ?_
        rw [e.bytes_length, show e.companion = none from alone b (List.mem_cons_self ..) e member]
        rfl
      rw [List.length_flatMap, each, List.map_const', List.sum_replicate_nat, Nat.mul_comm]
    rw [blockBytes_cons, endpointCount_cons, hidsFrom]
    simp only [List.length_append, InterfaceBlock.header_length, endpoints, later, List.length_cons,
      optionalCount, List.map_cons, List.sum_cons]
    cases hid : b.hid with
    | none =>
      simp only [InterfaceBlock.hidBytes, hid, Option.map_none, Option.getD_none, List.length_nil,
        Option.toList_none]
      omega
    | some h =>
      simp only [InterfaceBlock.hidBytes, hid, Option.map_some, Option.getD_some, h.bytes_length,
        Option.toList_some, List.length_cons, List.length_nil]
      omega

/-- What the loops of the parser of UHCI have consumed, by what they have found. -/
def Accounts {ι ε σ : Type} (interfaces : Nat) (c c' : UsbParsing ι ε σ) : Prop :=
  c'.data + 9 * c.hidInterfaces.length + 7 * c.numEndpoints =
    c.data + 9 * interfaces + 9 * c'.hidInterfaces.length + 7 * c'.numEndpoints

private theorem ends_endpointLoop (memory : Nat → Byte) (n : Nat)
    (c : UsbParsing UhciInterface UhciGeneralEndpoint Unit) :
    EndsWith (uhciDriver.endpointLoop memory n c) fun c' => c'.data = c.data + 7 * n ∧
      c'.numEndpoints = c.numEndpoints ∧ c'.hidInterfaces = c.hidInterfaces := by
  induction n generalizing c with
  | zero =>
    rw [UsbDriver.endpointLoop, ends_pure]
    exact ⟨rfl, rfl, rfl⟩
  | succ n ih =>
    rw [UsbDriver.endpointLoop, ends_bind]
    simp only [uhciDriver, ends_bind, ends_look, ends_pure]
    refine (ih _).mono ?_
    rintro c' ⟨data, numEndpoints, hids⟩
    exact ⟨by rw [data]; simp only; omega, numEndpoints, hids⟩

private theorem ends_interfaceLoop (memory : Nat → Byte) (i n : Nat)
    (c : UsbParsing UhciInterface UhciGeneralEndpoint Unit) :
    EndsWith (uhciDriver.interfaceLoop memory i n c) (Accounts n c) := by
  induction n generalizing i c with
  | zero =>
    rw [UsbDriver.interfaceLoop, ends_pure, Accounts]
    omega
  | succ n ih =>
    have push : ∀ (c : UsbParsing UhciInterface UhciGeneralEndpoint Unit)
        (d : UsbInterfaceDescriptor),
        EndsWith (uhciDriver.pushInterface d c) fun c' => c'.data = c.data ∧
          c'.numEndpoints = c.numEndpoints + d.bNumEndpoints.toNat ∧
          c'.hidInterfaces = c.hidInterfaces := by
      intro c d
      simp only [UsbDriver.pushInterface, ends_bind, ends_orStop, ends_ite, ends_pure, ends_stop]
      intro start _
      split
      · exact ⟨trivial, trivial, trivial⟩
      · trivial
    have peek : ∀ c : UsbParsing UhciInterface UhciGeneralEndpoint Unit,
        EndsWith (uhciDriver.peekSpecial memory i c) fun c' => c'.numEndpoints = c.numEndpoints ∧
          c'.data + 9 * c.hidInterfaces.length = c.data + 9 * c'.hidInterfaces.length := by
      intro c
      simp only [UsbDriver.peekSpecial, uhciDriver, UsbDriver.handleHidOnly, UsbDriver.handleHid,
        ends_bind, ends_look, ends_ite, ends_pure, ends_stop, List.length_append, List.length_cons,
        List.length_nil]
      split
      · split
        · exact ⟨trivial, by omega⟩
        · trivial
      · exact ⟨trivial, trivial⟩
    rw [UsbDriver.interfaceLoop, ends_bind, ends_look, ends_bind]
    refine (peek _).mono ?_
    rintro c₁ ⟨num₁, data₁⟩
    rw [ends_bind]
    refine (push c₁ _).mono ?_
    rintro c₂ ⟨data₂, num₂, hids₂⟩
    rw [ends_bind]
    refine (ends_endpointLoop memory _ c₂).mono ?_
    rintro c₃ ⟨data₃, num₃, hids₃⟩
    refine (ih (i + 1) c₃).mono ?_
    intro c' accounts
    rw [Accounts] at accounts ⊢
    rw [hids₃, hids₂] at accounts
    simp only at num₁ data₁
    omega

/-! ## The agreement -/

/-- What the four drivers have when a device is configured. -/
structure UsbControllers where
  uhci : DriverTables UhciInterface UhciGeneralEndpoint
  ohci : DriverTables OhciInterface OhciGeneralEndpoint
  ehci : DriverTables EhciInterface EhciEndpoint
  xhci : DriverTables XhciInterface XhciEndpointDescriptor
  memorySpace : Allocator

/-- The block without companions. -/
def plainBlocks (blocks : List InterfaceBlock) : List InterfaceBlock :=
  blocks.map InterfaceBlock.plain

/-- All parsers return the interfaces of the block, consume its bytes and look at nothing else.
That of xHCI gets the block with its companions. -/
structure ParsersAgree (controllers : UsbControllers) (blocks : List InterfaceBlock)
    (plain : UsbBuffer (plainBlocks blocks)) (full : UsbBuffer blocks) : Prop where
  uhci : Safe (uhciDeviceConfigurationNew controllers.uhci.interfaces controllers.uhci.endpoints
    plain.memory plain.data blocks.length) (Inside plain.data plain.high)
    (uhciView.Produces blocks plain.high)
  ohci : Safe (ohciDeviceConfigurationNew controllers.ohci.interfaces controllers.ohci.endpoints
    plain.memory plain.data blocks.length) (Inside plain.data plain.high)
    (ohciView.Produces blocks plain.high)
  ehci : Safe (ehciDeviceConfigurationNew controllers.ehci.interfaces controllers.ehci.endpoints
    controllers.memorySpace plain.memory plain.data blocks.length) (Inside plain.data plain.high)
    (ehciView.Produces blocks plain.high)
  xhci : Safe (xhciDeviceConfigurationNew controllers.xhci.interfaces controllers.xhci.endpoints
    full.memory full.data blocks.length) (Inside full.data full.high)
    (xhciView.Produces blocks full.high)

/-- Two pages for each of some endpoints. -/
def pagesForEach : Nat → Allocator → Option Allocator
  | 0, allocator => some allocator
  | n + 1, allocator => (unwrapMemory (allocator.alloc 2)).bind fun pages => pagesForEach n pages.2

/-- The allocator has a page for the HID descriptors, two for each endpoint, and takes the
first one back if it was not needed. -/
def PagesGranted (allocator : Allocator) (blocks : List InterfaceBlock) : Prop :=
  ∃ page, unwrapMemory (allocator.alloc 1) = some page ∧
    ∃ left, pagesForEach (endpointCount blocks) page.2 = some left ∧
      ((∀ b ∈ blocks, b.hid = none) →
        (unwrapMemory (left.free ⟨page.1.base, 0x1000⟩)).isSome = true)

section Plain

variable {blocks : List InterfaceBlock}

private theorem plain_alone : ∀ b ∈ plainBlocks blocks, ∀ e ∈ b.endpoints, Alone e := by
  intro b member e here
  obtain ⟨b', _, rfl⟩ := List.mem_map.1 member
  obtain ⟨e', _, rfl⟩ := List.mem_map.1 here
  rfl

@[simp] theorem endpointCount_plain : endpointCount (plainBlocks blocks) =
    endpointCount blocks := by
  simp only [endpointCount, plainBlocks, List.map_map]
  refine congrArg _ (List.map_congr_left fun b _ => ?_)
  exact List.length_map _

@[simp] theorem hidsFrom_plain (i : Nat) : hidsFrom i (plainBlocks blocks) = hidsFrom i blocks := by
  induction blocks generalizing i with
  | nil => rfl
  | cons b rest ih =>
    have later := ih (i + 1)
    rw [plainBlocks] at later
    simp only [plainBlocks, List.map_cons, hidsFrom, later]
    rfl

@[simp] theorem view_plain : (plainBlocks blocks).map InterfaceBlock.view =
    blocks.map InterfaceBlock.view := by
  rw [plainBlocks, List.map_map]
  refine List.map_congr_left fun b _ => ?_
  simp only [Function.comp_apply, InterfaceBlock.view, InterfaceBlock.plain, List.map_map]
  rfl

private theorem produces_plain {ι ε σ : Type} {view : UsbView ι ε} {high : Nat}
    {result : TableSlice × UsbParsing ι ε σ} :
    view.Produces (plainBlocks blocks) high result ↔ view.Produces blocks high result := by
  constructor
  · rintro ⟨interfaces, hids, numEndpoints, consumed⟩
    rw [view_plain] at interfaces
    rw [hidsFrom_plain] at hids
    rw [endpointCount_plain] at numEndpoints
    exact ⟨interfaces, hids, numEndpoints, consumed⟩
  · rintro ⟨interfaces, hids, numEndpoints, consumed⟩
    refine ⟨?_, ?_, ?_, consumed⟩
    · rw [view_plain, interfaces]
    · rw [hidsFrom_plain, hids]
    · rw [endpointCount_plain, numEndpoints]

private theorem singleClass_plain : SingleClass (plainBlocks blocks) ↔ SingleClass blocks := by
  simp only [SingleClass, plainBlocks, List.mem_map, forall_exists_index, and_imp,
    forall_apply_eq_imp_iff₂]
  rfl

private theorem announced_plain : Announced (plainBlocks blocks) ↔ Announced blocks := by
  simp only [Announced, plainBlocks, List.mem_map, forall_exists_index, and_imp,
    forall_apply_eq_imp_iff₂]
  refine forall₂_congr fun b _ => ?_
  simp [InterfaceBlock.plain]

private theorem room_plain {ι ε : Type} {tables : DriverTables ι ε} {strict : Bool} :
    tables.Room strict (plainBlocks blocks) ↔ tables.Room strict blocks := by
  have last : endpointCount (plainBlocks blocks).dropLast = endpointCount blocks.dropLast := by
    rw [plainBlocks, ← List.map_dropLast]
    exact endpointCount_plain
  have length : (plainBlocks blocks).length = blocks.length := List.length_map _
  have given : plainBlocks blocks ≠ [] ↔ blocks ≠ [] := by simp [plainBlocks]
  constructor
  · rintro ⟨interfaces, endpoints, first, each⟩
    rw [length] at interfaces
    rw [endpointCount_plain] at endpoints
    rw [given, last] at each
    exact ⟨interfaces, endpoints, first, each⟩
  · rintro ⟨interfaces, endpoints, first, each⟩
    refine ⟨?_, ?_, first, ?_⟩
    · rw [length]; exact interfaces
    · rw [endpointCount_plain]; exact endpoints
    · rw [given, last]; exact each

private theorem safe_plain {ι ε σ : Type} {driver : UsbDriver ι ε σ} {view : UsbView ι ε}
    {step : EndpointBlock → σ → Option (ε × σ)} {strict : Bool}
    (follows : driver.Follows view step strict false Alone) (single : SingleClass blocks)
    (few : blocks.length < 2 ^ 8) (plain : UsbBuffer (plainBlocks blocks))
    (tables : DriverTables ι ε) (own : σ) (K : σ → Prop) :
    Safe (driver.newConfiguration tables.interfaces tables.endpoints own plain.memory plain.data
          blocks.length) (Inside plain.data plain.high)
        (fun r => view.Produces blocks plain.high r ∧ K r.2.own) ↔
      Announced blocks ∧ tables.Room strict blocks ∧
        ∃ own', takeOwn step ((plainBlocks blocks).flatMap InterfaceBlock.endpoints)
          own = some own' ∧
          K own' := by
  have length : (plainBlocks blocks).length = blocks.length := List.length_map _
  have safe := safe_newConfiguration follows plain_alone (singleClass_plain.2 single)
    (by rw [length]; exact few) plain tables own K
  simp only [length, produces_plain, announced_plain, room_plain, Bool.false_eq_true, false_implies,
    true_and] at safe
  exact safe

private theorem length_endpoints : (blocks.flatMap InterfaceBlock.endpoints).length =
    endpointCount blocks := by
  rw [List.length_flatMap, endpointCount]

end Plain

/-- The condition for the parsers to agree. -/
structure Suited (controllers : UsbControllers) (blocks : List InterfaceBlock) : Prop where
  announced : Announced blocks
  single : SingleClass blocks
  companioned : EndsCompanioned blocks
  uhci : controllers.uhci.Room true blocks
  ohci : controllers.ohci.Room false blocks
  ehci : controllers.ehci.Room false blocks
  granted : PagesGranted controllers.memorySpace blocks
  xhci : controllers.xhci.Room true blocks

section Agreement

variable {controllers : UsbControllers} {blocks : List InterfaceBlock}
  {plain : UsbBuffer (plainBlocks blocks)} {full : UsbBuffer blocks}

private theorem takeOwn_same {ε σ : Type} {make : EndpointBlock → ε} (es : List EndpointBlock)
    (own : σ) :
    takeOwn (fun e own => some (make e, own)) es own = some own := by
  induction es with
  | nil => rfl
  | cons e es ih => exact ih

private theorem takeOwn_ehci (es : List EndpointBlock) (allocator : Allocator) :
    takeOwn ehciStep es allocator = pagesForEach es.length allocator := by
  induction es generalizing allocator with
  | nil => rfl
  | cons e es ih =>
    simp only [takeOwn, ehciStep, List.length_cons, pagesForEach, Option.bind_map]
    exact congrArg _ (funext fun pages => ih pages.2)

private theorem uhci_iff (single : SingleClass blocks) (few : blocks.length < 2 ^ 8) :
    Safe (uhciDeviceConfigurationNew controllers.uhci.interfaces controllers.uhci.endpoints
        plain.memory plain.data blocks.length) (Inside plain.data plain.high)
        (uhciView.Produces blocks plain.high) ↔
      Announced blocks ∧ controllers.uhci.Room true blocks := by
  have safe := safe_plain uhci_follows single few plain controllers.uhci () fun _ => True
  simp only [and_true] at safe
  rw [uhciDeviceConfigurationNew, safe]
  exact and_congr_right fun _ => and_iff_left ⟨(), takeOwn_same (σ := Unit) _ ()⟩

private theorem ohci_iff (single : SingleClass blocks) (few : blocks.length < 2 ^ 8) :
    Safe (ohciDeviceConfigurationNew controllers.ohci.interfaces controllers.ohci.endpoints
        plain.memory plain.data blocks.length) (Inside plain.data plain.high)
        (ohciView.Produces blocks plain.high) ↔
      Announced blocks ∧ controllers.ohci.Room false blocks := by
  have safe := safe_plain ohci_follows single few plain controllers.ohci () fun _ => True
  simp only [and_true] at safe
  rw [ohciDeviceConfigurationNew, safe]
  exact and_congr_right fun _ => and_iff_left ⟨(), takeOwn_same (σ := Unit) _ ()⟩

private theorem xhci_iff (single : SingleClass blocks) (few : blocks.length < 2 ^ 8) :
    Safe (xhciDeviceConfigurationNew controllers.xhci.interfaces controllers.xhci.endpoints
        full.memory full.data blocks.length) (Inside full.data full.high)
        (xhciView.Produces blocks full.high) ↔
      Announced blocks ∧ EndsCompanioned blocks ∧ controllers.xhci.Room true blocks := by
  have safe := safe_newConfiguration xhci_follows (fun _ _ _ _ => trivial) single few full
    controllers.xhci ⟨none, none⟩ fun _ => True
  simp only [and_true, forall_const] at safe
  rw [xhciDeviceConfigurationNew, safe]
  exact and_congr_right fun _ => and_congr_right fun _ => and_iff_left ⟨_, takeOwn_same _ _⟩

private theorem hidsFrom_eq_nil {i : Nat} :
    hidsFrom i blocks = [] ↔ ∀ b ∈ blocks, b.hid = none := by
  induction blocks generalizing i with
  | nil => simp [hidsFrom]
  | cons b rest ih =>
    rw [hidsFrom, List.append_eq_nil_iff, ih, List.forall_mem_cons]
    refine and_congr_left fun _ => ?_
    cases b.hid <;> simp

private theorem safe_releaseHidPage {page : MemoryBlock}
    {r : TableSlice × UsbParsing EhciInterface EhciEndpoint Allocator} {allowed : Nat → Nat → Prop}
    {high : Nat} :
    Safe (releaseHidPage page r) allowed (ehciView.Produces blocks high) ↔
      ehciView.Produces blocks high r ∧ ((∀ b ∈ blocks, b.hid = none) →
        (unwrapMemory (r.2.own.free ⟨page.base, 0x1000⟩)).isSome = true) := by
  -- the configuration does not depend on what the allocator keeps
  have other : ∀ own : Allocator, ehciView.Produces blocks high (r.1, { r.2 with own }) ↔
      ehciView.Produces blocks high r := by
    intro own
    constructor
    · rintro ⟨interfaces, hids, num, data⟩
      exact ⟨interfaces, hids, num, data⟩
    · rintro ⟨interfaces, hids, num, data⟩
      exact ⟨interfaces, hids, num, data⟩
  rw [releaseHidPage]
  split
  next empty =>
    simp only [safe_bind, safe_orStop, safe_pure, other]
    constructor
    · rintro ⟨freed, released, produces⟩
      exact ⟨produces, fun _ => by rw [released]; rfl⟩
    · rintro ⟨produces, released⟩
      have none := produces.hids.symm.trans (List.length_eq_zero_iff.1 empty)
      obtain ⟨freed, released⟩ := Option.isSome_iff_exists.1 (released (hidsFrom_eq_nil.1 none))
      exact ⟨freed, released, produces⟩
  next some =>
    rw [safe_pure]
    refine (and_iff_left_of_imp fun produces none => absurd ?_ some).symm
    rw [produces.hids, hidsFrom_eq_nil.2 none]
    rfl

private theorem ehci_iff (single : SingleClass blocks) (few : blocks.length < 2 ^ 8) :
    Safe (ehciDeviceConfigurationNew controllers.ehci.interfaces controllers.ehci.endpoints
        controllers.memorySpace plain.memory plain.data blocks.length)
        (Inside plain.data plain.high) (ehciView.Produces blocks plain.high) ↔
      Announced blocks ∧ controllers.ehci.Room false blocks ∧
        PagesGranted controllers.memorySpace blocks := by
  have count : ((plainBlocks blocks).flatMap InterfaceBlock.endpoints).length =
      endpointCount blocks := by
    rw [length_endpoints, endpointCount_plain]
  have safe := fun page : MemoryBlock × Allocator => safe_plain ehci_follows single few plain
    controllers.ehci page.2 fun left => (∀ b ∈ blocks, b.hid = none) →
      (unwrapMemory (left.free ⟨page.1.base, 0x1000⟩)).isSome = true
  simp only [takeOwn_ehci, count] at safe
  simp only [ehciDeviceConfigurationNew, safe_bind, safe_orStop, safe_releaseHidPage, safe]
  constructor
  · rintro ⟨page, granted, announced, room, left, pages, freed⟩
    exact ⟨announced, room, page, granted, left, pages, freed⟩
  · rintro ⟨announced, room, page, granted, left, pages, freed⟩
    exact ⟨page, granted, announced, room, left, pages, freed⟩

theorem single_of_uhci
    (safe : Safe (uhciDeviceConfigurationNew controllers.uhci.interfaces controllers.uhci.endpoints
      plain.memory plain.data blocks.length) (Inside plain.data plain.high)
      (uhciView.Produces blocks plain.high)) : SingleClass blocks := by
  have ends : EndsWith (uhciDeviceConfigurationNew controllers.uhci.interfaces
      controllers.uhci.endpoints plain.memory plain.data blocks.length)
      fun r => r.2.data = plain.data + 9 * blocks.length + 9 * r.2.hidInterfaces.length +
        7 * r.2.numEndpoints := by
    simp only [uhciDeviceConfigurationNew, UsbDriver.newConfiguration, ends_bind, ends_orStop,
      ends_pure]
    intro start _
    refine (ends_interfaceLoop _ _ _ _).mono fun c' accounts => ?_
    simp only [Accounts, List.length_nil] at accounts
    omega
  have both := safe.and_ends ends
  have value := both.2
  revert value
  cases (uhciDeviceConfigurationNew controllers.uhci.interfaces controllers.uhci.endpoints
    plain.memory plain.data blocks.length).result with
  | error halt =>
    cases halt with
    | rejects e => exact e.elim
    | stops => exact False.elim
  | ok r =>
    rintro ⟨produces, consumed⟩
    have whole := blockBytes_length (@plain_alone blocks) 0
    have length : (plainBlocks blocks).length = blocks.length := List.length_map _
    rw [produces.consumed, produces.hids, produces.numEndpoints, UsbBuffer.high, whole,
      hidsFrom_plain, endpointCount_plain, length] at consumed
    exact singleClass_plain.1 (singleClass_of_optionalCount (by omega))

theorem parsersAgree_iff (few : blocks.length < 2 ^ 8) :
    ParsersAgree controllers blocks plain full ↔ Suited controllers blocks := by
  constructor
  · rintro ⟨uhci, ohci, ehci, xhci⟩
    have single := single_of_uhci uhci
    obtain ⟨announced, uhciRoom⟩ := (uhci_iff single few).1 uhci
    obtain ⟨_, ohciRoom⟩ := (ohci_iff single few).1 ohci
    obtain ⟨_, ehciRoom, granted⟩ := (ehci_iff single few).1 ehci
    obtain ⟨_, companioned, xhciRoom⟩ := (xhci_iff single few).1 xhci
    exact ⟨announced, single, companioned, uhciRoom, ohciRoom, ehciRoom, granted, xhciRoom⟩
  · rintro ⟨announced, single, companioned, uhciRoom, ohciRoom, ehciRoom, granted, xhciRoom⟩
    exact ⟨(uhci_iff single few).2 ⟨announced, uhciRoom⟩,
      (ohci_iff single few).2 ⟨announced, ohciRoom⟩,
      (ehci_iff single few).2 ⟨announced, ehciRoom, granted⟩,
      (xhci_iff single few).2 ⟨announced, companioned, xhciRoom⟩⟩

end Agreement

/-! ## A keyboard, and an interface without endpoints -/

/-- A buffer that holds a block, with zeros around it. -/
def bufferOf (blocks : List InterfaceBlock) : UsbBuffer blocks where
  memory address := (blockBytes blocks).getD (address - 9) 0
  data := 9
  holds k below := by
    simp only [Nat.add_sub_cancel_left, List.getD_eq_getElem?_getD, List.getElem?_eq_getElem below,
      Option.getD_some]

def emptyTables {ι ε : Type} (interface : ι) (endpoint : ε) : DriverTables ι ε :=
  ⟨⟨fun _ => interface, 0, 8⟩, ⟨fun _ => endpoint, 0, 8⟩, Nat.zero_le _, Nat.zero_le _⟩

def firstControllers : UsbControllers where
  uhci := emptyTables ⟨0, 0, 0, 0, 0, ⟨0, 0⟩⟩ ⟨0, 0, 0, 0⟩
  ohci := emptyTables ⟨0, 0, 0, 0, 0, ⟨0, 0⟩⟩ ⟨0, 0, 0, 0⟩
  ehci := emptyTables ⟨0, 0, 0, 0, 0, ⟨0, 0⟩⟩ ⟨0, 0, 0, ⟨0, 0, 0, 0⟩⟩
  xhci := emptyTables ⟨0, 0, 0, ⟨0, 0⟩⟩ ⟨0, 0, 0, 0, 0, 0⟩
  memorySpace := ⟨fun _ => 0, 1, 0, 0x100000, 0⟩

/-- A boot keyboard, with the companion that it has on a SuperSpeed bus. -/
def keyboard : InterfaceBlock where
  number := 0
  alternateSetting := 0
  interfaceClass := 3
  subClass := 1
  protocol := 1
  text := 0
  hid := some ⟨0x110, 0, 0x22, 63, [], by decide⟩
  endpoints := [⟨0x81, 3, 8, 10, some ⟨0, 0, 8⟩⟩]
  few := by decide

/-- An interface for control requests only. -/
def bare : InterfaceBlock := ⟨0, 0, 0xFE, 1, 1, 0, none, [], by decide⟩

theorem parsersAgree_keyboard : ParsersAgree firstControllers [keyboard]
    (bufferOf (plainBlocks [keyboard])) (bufferOf [keyboard]) := by
  have granted : ((unwrapMemory (firstControllers.memorySpace.alloc 1)).bind fun page =>
      pagesForEach 1 page.2).isSome = true := by decide +kernel
  obtain ⟨left, granted⟩ := Option.isSome_iff_exists.1 granted
  obtain ⟨page, allocated, pages⟩ := Option.bind_eq_some_iff.1 granted
  refine (parsersAgree_iff (by decide)).2 ⟨?_, ?_, ?_, ⟨?_, ?_, ?_, ?_⟩, ⟨?_, ?_, nofun, nofun⟩,
    ⟨?_, ?_, nofun, nofun⟩, ⟨page, allocated, left, pages, ?_⟩, ⟨?_, ?_, ?_, ?_⟩⟩
  any_goals decide
  · intro b member
    rw [List.mem_singleton.1 member]
    exact Or.inl rfl
  · intro b member h here
    rw [List.mem_singleton.1 member] at here
    cases here
    rfl
  · intro b last e here
    cases last
    cases here
    exact nofun
  · exact fun none => nomatch none keyboard (List.mem_singleton_self _)

/-- The type behind the only descriptor of the block is looked at. -/
theorem parsers_peek_behind : ¬ParsersAgree firstControllers [bare]
    (bufferOf (plainBlocks [bare])) (bufferOf [bare]) := by
  intro agree
  have single : SingleClass [bare] := by
    intro b member h here
    rw [List.mem_singleton.1 member] at here
    cases here
  obtain ⟨announced, _⟩ := (uhci_iff single (by decide)).1 agree.uhci
  rcases announced bare (List.mem_singleton_self _) with hid | endpoints
  · cases hid
  · exact endpoints rfl

end EmkKernel
