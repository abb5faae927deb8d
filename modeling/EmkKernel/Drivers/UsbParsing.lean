import EmkKernel.Drivers.UsbBlocks

/-!
# The configuration parsers agree

Each parser looks at the type behind an interface descriptor, also when the interface has
neither a HID descriptor nor an endpoint, and that of xHCI at the type behind an endpoint.
Where these are descriptors of the block and the tables have room, all of them find the
interfaces that are there.
-/

namespace EmkKernel

open Checked

/-- What follows an endpoint is no companion. -/
def Starts (rest : List Byte) : Prop := rest = [] ∨ ∃ a t more, rest = a :: t :: more ∧ t ≠ 48

private theorem starts_blocks (blocks : List InterfaceBlock) : Starts (blockBytes blocks) := by
  cases blocks with
  | nil => exact Or.inl rfl
  | cons b rest => exact Or.inr ⟨9, 4, _, rfl, by decide⟩

private theorem starts_endpoints {rest : List Byte} (starts : Starts rest)
    (es : List EndpointBlock) :
    Starts (es.flatMap EndpointBlock.bytes ++ rest) := by
  cases es with
  | nil => exact starts
  | cons e es => exact Or.inr ⟨7, 5, _, rfl, by decide⟩

/-- The fields of an interface block that a parser reads. -/
def InterfaceBlock.descriptor (b : InterfaceBlock) : UsbInterfaceDescriptor :=
  ⟨b.number, b.alternateSetting, BitVec.ofNat 8 b.endpoints.length, b.interfaceClass, b.subClass,
    b.protocol⟩

/-- The values of a slice, which have to be values of the table. -/
def TableSlice.read {T : Type} (slice : TableSlice) (table : PageAllocator T) : Option (List T) :=
  if slice.start + slice.length ≤ table.allocated then
    some ((List.range' slice.start slice.length).map table.slots)
  else none

/-- What all drivers keep of an interface and of an endpoint. -/
structure UsbView (ι ε : Type) where
  interfaceClass : ι → Byte
  subClass : ι → Byte
  protocol : ι → Byte
  endpoints : ι → TableSlice
  endpoint : ε → UsbEndpointDescriptor

namespace UsbView

variable {ι ε σ : Type} (view : UsbView ι ε)

def readInterface (endpoints : PageAllocator ε) (interface : ι) : Option InterfaceView :=
  ((view.endpoints interface).read endpoints).map fun es =>
    ⟨view.interfaceClass interface, view.subClass interface, view.protocol interface,
      es.map view.endpoint⟩

/-- The interfaces of a configuration, read through the tables. -/
def readInterfaces (slice : TableSlice) (c : UsbParsing ι ε σ) : Option (List InterfaceView) :=
  (slice.read c.interfaces).bind fun is => is.mapM (view.readInterface c.endpoints)

/-- The configuration has the interfaces of the block, and its bytes are consumed. -/
structure Produces (blocks : List InterfaceBlock) (high : Nat)
    (result : TableSlice × UsbParsing ι ε σ) : Prop where
  interfaces : view.readInterfaces result.1 result.2 = some (blocks.map InterfaceBlock.view)
  hids : result.2.hidInterfaces = hidsFrom 0 blocks
  numEndpoints : result.2.numEndpoints = endpointCount blocks
  consumed : result.2.data = high

end UsbView

/-- A driver that reads its endpoints in steps. One that is strict carves slices only out of a
table with room, and one that peeks looks for a companion. -/
structure UsbDriver.Follows {ι ε σ : Type} (driver : UsbDriver ι ε σ) (view : UsbView ι ε)
    (step : EndpointBlock → σ → Option (ε × σ)) (strict peeks : Bool)
    (Suits : EndpointBlock → Prop) : Prop where
  opens : ∀ {T : Type} (table : PageAllocator T), driver.opens table =
    if strict = true ∧ table.capacity ≤ table.allocated then none else some table.allocated
  hid : ∀ {memory i c}, memory (c.data + 1) = 0x21 →
    driver.handleSpecialDescriptor memory i c = UsbDriver.handleHid memory i c
  other : ∀ {memory i c}, memory (c.data + 1) = 4 →
    driver.handleSpecialDescriptor memory i c = stop
  interface : ∀ b : InterfaceBlock, ∀ slice, let i := driver.interfaceFromRaw b.descriptor slice
    view.interfaceClass i = b.interfaceClass ∧ view.subClass i = b.subClass ∧
      view.protocol i = b.protocol ∧ view.endpoints i = slice
  endpoint : ∀ {e own x own'}, step e own = some (x, own') → view.endpoint x = e.descriptor
  reads : ∀ {e memory data own rest low} {Q : ε × Nat × σ → Prop}, Suits e →
    HoldsBytes memory data (e.bytes ++ rest) → Starts rest → low ≤ data →
    (Safe (driver.readEndpoint memory data own)
        (Inside low (data + (e.bytes ++ rest).length)) Q ↔
      (peeks = true → e.companion = none → rest ≠ []) ∧
        ∃ r, step e own = some r ∧ Q (r.1, data + e.bytes.length, r.2))

namespace UsbParsing

variable {ι ε σ : Type}

/-- The endpoints of an interface, taken in steps. -/
def takeEndpoints (step : EndpointBlock → σ → Option (ε × σ)) :
    List EndpointBlock → UsbParsing ι ε σ → Option (UsbParsing ι ε σ)
  | [], c => some c
  | e :: es, c => (step e c.own).bind fun r =>
      takeEndpoints step es { c with
        endpoints := (c.endpoints.pushBack r.1).2
        data := c.data + e.bytes.length
        own := r.2 }

/-- An interface with its HID descriptor and without its endpoints. -/
def takeHeader (driver : UsbDriver ι ε σ) (i : Nat) (b : InterfaceBlock) (start : Nat)
    (c : UsbParsing ι ε σ) : UsbParsing ι ε σ :=
  { c with
    data := c.data + 9 + b.hidBytes.length
    hidInterfaces := c.hidInterfaces ++ (b.hid.map fun h => h.kept i).toList
    interfaces := (c.interfaces.pushBack
      (driver.interfaceFromRaw b.descriptor ⟨start, b.endpoints.length⟩)).2
    numEndpoints := c.numEndpoints + b.endpoints.length }

section

variable (driver : UsbDriver ι ε σ) (i : Nat) (b : InterfaceBlock) (start : Nat)
  (c : UsbParsing ι ε σ)

@[simp] theorem takeHeader_data :
    (c.takeHeader driver i b start).data = c.data + 9 + b.hidBytes.length := rfl

@[simp] theorem takeHeader_numEndpoints :
    (c.takeHeader driver i b start).numEndpoints = c.numEndpoints + b.endpoints.length := rfl

@[simp] theorem takeHeader_endpoints : (c.takeHeader driver i b start).endpoints = c.endpoints :=
    rfl

end

/-- The interfaces from index `i` on, taken in steps. -/
def takeInterfaces (driver : UsbDriver ι ε σ) (step : EndpointBlock → σ → Option (ε × σ))
    (i : Nat) : List InterfaceBlock → UsbParsing ι ε σ → Option (UsbParsing ι ε σ)
  | [], c => some c
  | b :: rest, c => (driver.opens c.endpoints).bind fun start =>
      (takeEndpoints step b.endpoints (c.takeHeader driver i b start)).bind
        (takeInterfaces driver step (i + 1) rest)

/-- The endpoints leave everything else as it is. -/
theorem takeEndpoints_frame {step : EndpointBlock → σ → Option (ε × σ)} {es : List EndpointBlock}
    {c c' : UsbParsing ι ε σ} (took : c.takeEndpoints step es = some c') :
    c'.data = c.data + (es.flatMap EndpointBlock.bytes).length ∧
      c'.numEndpoints = c.numEndpoints ∧ c'.hidInterfaces = c.hidInterfaces ∧
      c'.interfaces = c.interfaces := by
  induction es generalizing c with
  | nil =>
    cases took
    exact ⟨rfl, rfl, rfl, rfl⟩
  | cons e es ih =>
    rw [takeEndpoints] at took
    obtain ⟨r, _, later⟩ := Option.bind_eq_some_iff.1 took
    obtain ⟨data, num, hids, interfaces⟩ := ih later
    refine ⟨?_, num, hids, interfaces⟩
    rw [data, List.flatMap_cons, List.length_append, Nat.add_assoc]

end UsbParsing

/-! ## A parser takes the descriptors that are there -/

section Taking

variable {ι ε σ : Type} {driver : UsbDriver ι ε σ} {view : UsbView ι ε}
  {step : EndpointBlock → σ → Option (ε × σ)} {strict peeks : Bool} {Suits : EndpointBlock → Prop}
  {memory : Nat → Byte} {low : Nat} {Q : UsbParsing ι ε σ → Prop}

private theorem safe_endpointLoop (follows : driver.Follows view step strict peeks Suits)
    {rest : List Byte} (starts : Starts rest) {es : List EndpointBlock} (suits : ∀ e ∈ es, Suits e)
    {c : UsbParsing ι ε σ}
    (placed : HoldsBytes memory c.data (es.flatMap EndpointBlock.bytes ++ rest))
      (ordered : low ≤ c.data) :
    Safe (driver.endpointLoop memory es.length c)
        (Inside low (c.data + (es.flatMap EndpointBlock.bytes ++ rest).length)) Q ↔
      (peeks = true → ∀ e ∈ es.getLast?, e.companion = none → rest ≠ []) ∧
        ∃ c', c.takeEndpoints step es = some c' ∧ Q c' := by
  induction es generalizing c with
  | nil => simp [UsbDriver.endpointLoop, UsbParsing.takeEndpoints]
  | cons e es ih =>
    have starts' := starts_endpoints starts es
    rw [List.flatMap_cons, List.append_assoc] at placed ⊢
    have later := (holdsBytes_append.1 placed).2
    simp only [List.length_cons, UsbDriver.endpointLoop, safe_bind]
    rw [follows.reads (suits e (List.mem_cons_self ..)) placed starts' ordered]
    have bound : c.data + (e.bytes ++ (es.flatMap EndpointBlock.bytes ++ rest)).length =
        c.data + e.bytes.length + (es.flatMap EndpointBlock.bytes ++ rest).length := by
      simp only [List.length_append, Nat.add_assoc]
    rw [bound]
    have next : ∀ r : ε × σ, _ := fun r => ih (fun e' member =>
        suits e' (List.mem_cons_of_mem _ member))
      (c := { c with
        endpoints := (c.endpoints.pushBack r.1).2
        data := c.data + e.bytes.length
        own := r.2 }) later (Nat.le_add_right_of_le ordered)
    simp only [UsbParsing.takeEndpoints, Option.bind_eq_some_iff]
    constructor
    · rintro ⟨alone, r, taken, safe⟩
      obtain ⟨last, c', took, value⟩ := (next r).1 safe
      refine ⟨fun peek e' member none => ?_, c', ⟨r, taken, took⟩, value⟩
      cases es with
      | nil =>
        obtain rfl : e = e' := by simpa using member
        simpa using alone peek none
      | cons e'' es => exact last peek e' (by simpa using member) none
    · rintro ⟨last, c', ⟨r, taken, took⟩, value⟩
      refine ⟨fun peek none => ?_, r, taken, (next r).2 ⟨fun peek e' member none => ?_, c',
        took, value⟩⟩
      · cases es with
        | nil => simpa using last peek e (by simp) none
        | cons e'' es => simp [EndpointBlock.bytes]
      · cases es with
        | nil => simp at member
        | cons e'' es => exact last peek e' (by simpa using member) none

/-- The peek behind an interface descriptor finds a descriptor of the same interface. -/
def Announced (blocks : List InterfaceBlock) : Prop :=
  ∀ b ∈ blocks, b.hid.isSome = true ∨ b.endpoints ≠ []

/-- The block does not end with an endpoint without a companion. -/
def EndsCompanioned (blocks : List InterfaceBlock) : Prop :=
  ∀ b ∈ blocks.getLast?, ∀ e ∈ b.endpoints.getLast?, e.companion ≠ none

/-- No HID descriptor has optional class descriptors. -/
def SingleClass (blocks : List InterfaceBlock) : Prop := ∀ b ∈ blocks, ∀ h ∈ b.hid, h.optional = []

theorem blockBytes_cons (b : InterfaceBlock) (rest : List InterfaceBlock) :
    blockBytes (b :: rest) =
      b.header ++ (b.hidBytes ++ (b.endpoints.flatMap EndpointBlock.bytes ++ blockBytes rest)) := by
  simp only [blockBytes, List.flatMap_cons, InterfaceBlock.bytes, List.append_assoc]

private theorem blockBytes_ne_nil {blocks : List InterfaceBlock} (given : blocks ≠ []) :
    blockBytes blocks ≠ [] := by
  obtain ⟨b, rest, rfl⟩ := List.exists_cons_of_ne_nil given
  rw [blockBytes_cons]
  exact List.cons_ne_nil _ _

private theorem endsCompanioned_cons {b : InterfaceBlock} {rest : List InterfaceBlock} :
    EndsCompanioned (b :: rest) ↔
      (∀ e ∈ b.endpoints.getLast?, e.companion = none → blockBytes rest ≠ []) ∧
        EndsCompanioned rest := by
  cases rest with
  | nil => simp [EndsCompanioned, blockBytes]
  | cons b' rest =>
    rw [EndsCompanioned, List.getLast?_cons_cons]
    exact ⟨fun ends => ⟨fun _ _ _ => blockBytes_ne_nil (List.cons_ne_nil _ _), ends⟩, And.right⟩

theorem safe_peek (follows : driver.Follows view step strict peeks Suits) {b : InterfaceBlock}
    {rest : List InterfaceBlock} {i : Nat} {c : UsbParsing ι ε σ} {data : Nat}
    (behind : c.data = data + 9) (single : ∀ h ∈ b.hid, h.optional = [])
    (placed : HoldsBytes memory c.data
      (b.hidBytes ++ (b.endpoints.flatMap EndpointBlock.bytes ++ blockBytes rest)))
    (ordered : low ≤ data) {high : Nat}
    (bound : high = data + (blockBytes (b :: rest)).length) :
    Safe (driver.peekSpecial memory i c) (Inside low high) Q ↔
      (b.hid.isSome = true ∨ b.endpoints ≠ []) ∧
        Q { c with
          data := c.data + b.hidBytes.length
          hidInterfaces := c.hidInterfaces ++ (b.hid.map fun h => h.kept i).toList } := by
  rw [blockBytes_cons] at bound
  simp only [List.length_append, InterfaceBlock.header_length] at bound
  rw [UsbDriver.peekSpecial, safe_bind, safe_look]
  cases hid : b.hid with
  | some h =>
    have bytes : b.hidBytes = h.bytes := by rw [InterfaceBlock.hidBytes, hid]; rfl
    have length := h.bytes_length
    rw [single h (by rw [hid]; rfl)] at length
    rw [bytes] at placed bound ⊢
    have type := type_of_hid placed
    have kept := hidAt_bytes (holdsBytes_append.1 placed).1 i
    rw [if_pos (by rw [type]; decide), follows.hid type, UsbDriver.handleHid]
    simp only [safe_bind, safe_look, safe_pure, kept, length, List.length_nil, Option.isSome_some,
      true_or, true_and, Option.map_some, Option.toList_some]
    simp only [List.length_nil] at length
    constructor
    · exact fun safe => safe.2.2
    · intro value
      refine ⟨⟨by omega, by omega⟩, ⟨by omega, by omega⟩, value⟩
  | none =>
    have bytes : b.hidBytes = [] := by rw [InterfaceBlock.hidBytes, hid]; rfl
    rw [bytes] at placed bound ⊢
    cases endpoints : b.endpoints with
    | cons e es =>
      rw [endpoints, List.nil_append, List.flatMap_cons, List.append_assoc] at placed
      have type := type_of_endpoint placed
      have length := e.bytes_length
      have long : 7 ≤ (b.endpoints.flatMap EndpointBlock.bytes).length := by
        rw [endpoints, List.flatMap_cons, List.length_append, length]
        split <;> omega
      rw [if_neg (not_not.2 type)]
      simp only [safe_pure, Option.isSome_none, Option.map_none, Option.toList_none,
        List.append_nil,
        List.length_nil, Nat.add_zero]
      constructor
      · exact fun safe => ⟨Or.inr (List.cons_ne_nil _ _), safe.2⟩
      · exact fun safe => ⟨⟨by omega, by omega⟩, safe.2⟩
    | nil =>
      rw [endpoints, List.nil_append, List.flatMap_nil, List.nil_append] at placed
      rw [endpoints, List.flatMap_nil] at bound
      simp only [List.length_nil, Option.isSome_none, ne_eq, not_true, or_false,
        false_and, iff_false,
        Bool.false_eq_true]
      rintro ⟨allowed, safe⟩
      cases rest with
      | nil =>
        -- nothing of the block is left behind the descriptor
        simp only [blockBytes, List.flatMap_nil, List.length_nil] at bound
        have := allowed.2
        omega
      | cons b' rest =>
        have type := type_of_header (blockBytes_cons b' rest ▸ placed)
        rw [if_pos (by rw [type]; decide), follows.other type] at safe
        simp at safe

private theorem safe_pushInterface {b : InterfaceBlock} {c : UsbParsing ι ε σ}
    {allowed : Nat → Nat → Prop} (few : c.numEndpoints + b.endpoints.length < 2 ^ 16) :
    Safe (driver.pushInterface b.descriptor c) allowed Q ↔
      ∃ start, driver.opens c.endpoints = some start ∧ Q { c with
        interfaces := (c.interfaces.pushBack
          (driver.interfaceFromRaw b.descriptor ⟨start, b.endpoints.length⟩)).2
        numEndpoints := c.numEndpoints + b.endpoints.length } := by
  have count : b.descriptor.bNumEndpoints.toNat = b.endpoints.length := by
    rw [InterfaceBlock.descriptor, BitVec.toNat_ofNat, Nat.mod_eq_of_lt b.few]
  simp only [UsbDriver.pushInterface, safe_bind, safe_orStop, count, if_pos few, safe_pure]

theorem safe_interfaceLoop (follows : driver.Follows view step strict peeks Suits)
    {blocks : List InterfaceBlock} (suits : ∀ b ∈ blocks, ∀ e ∈ b.endpoints, Suits e)
    (single : SingleClass blocks) {i : Nat} {c : UsbParsing ι ε σ}
    (placed : HoldsBytes memory c.data (blockBytes blocks)) (ordered : low ≤ c.data)
    (few : c.numEndpoints + endpointCount blocks < 2 ^ 16) :
    Safe (driver.interfaceLoop memory i blocks.length c)
        (Inside low (c.data + (blockBytes blocks).length)) Q ↔
      Announced blocks ∧ (peeks = true → EndsCompanioned blocks) ∧
        ∃ c', c.takeInterfaces driver step i blocks = some c' ∧ Q c' := by
  induction blocks generalizing i c with
  | nil => simp [UsbDriver.interfaceLoop, UsbParsing.takeInterfaces, Announced, EndsCompanioned]
  | cons b rest ih =>
    have parts := blockBytes_cons b rest
    have length := congrArg List.length parts
    simp only [List.length_append, InterfaceBlock.header_length] at length
    rw [parts] at placed
    obtain ⟨header, behind⟩ := holdsBytes_append.1 placed
    have descriptor : interfaceDescriptorAt memory c.data = b.descriptor :=
      interfaceDescriptorAt_header header
    have count : (b.descriptor.bNumEndpoints).toNat = b.endpoints.length := by
      rw [InterfaceBlock.descriptor, BitVec.toNat_ofNat, Nat.mod_eq_of_lt b.few]
    rw [endpointCount, List.map_cons, List.sum_cons] at few
    simp only [List.length_cons, UsbDriver.interfaceLoop, safe_bind, safe_look, descriptor, count]
    rw [safe_peek follows rfl (single b (List.mem_cons_self ..)) behind ordered rfl,
      safe_pushInterface (by simpa using Nat.lt_of_le_of_lt (by omega) few)]
    have suits_b := suits b (List.mem_cons_self ..)
    obtain ⟨_, endpoints⟩ := holdsBytes_append.1 behind
    -- what the loop does from the endpoints of this interface on
    have after : ∀ start, Safe (driver.endpointLoop memory b.endpoints.length
          (c.takeHeader driver i b start)) (Inside low (c.data + (blockBytes (b :: rest)).length))
          (fun c₁ => Safe (driver.interfaceLoop memory (i + 1) rest.length c₁)
            (Inside low (c.data + (blockBytes (b :: rest)).length)) Q) ↔
        (peeks = true → ∀ e ∈ b.endpoints.getLast?, e.companion = none → blockBytes rest ≠ []) ∧
          ∃ c₁, (c.takeHeader driver i b start).takeEndpoints step b.endpoints = some c₁ ∧
            Announced rest ∧ (peeks = true → EndsCompanioned rest) ∧
              ∃ c', c₁.takeInterfaces driver step (i + 1) rest = some c' ∧ Q c' := by
      intro start
      have bound : c.data + (blockBytes (b :: rest)).length =
          (c.takeHeader driver i b start).data +
            (b.endpoints.flatMap EndpointBlock.bytes ++ blockBytes rest).length := by
        rw [length, List.length_append, UsbParsing.takeHeader_data]
        omega
      rw [bound, safe_endpointLoop follows (starts_blocks rest) suits_b endpoints
        (by rw [UsbParsing.takeHeader_data]; omega)]
      refine and_congr_right fun _ => exists_congr fun c₁ => and_congr_right fun took => ?_
      obtain ⟨data, numEndpoints, _, _⟩ := UsbParsing.takeEndpoints_frame took
      have bound₁ : (c.takeHeader driver i b start).data +
          (b.endpoints.flatMap EndpointBlock.bytes ++ blockBytes rest).length =
            c₁.data + (blockBytes rest).length := by
        rw [data, List.length_append, Nat.add_assoc]
      rw [bound₁]
      refine ih (fun b' member => suits b' (List.mem_cons_of_mem _ member))
        (fun b' member => single b' (List.mem_cons_of_mem _ member)) ?_ ?_ ?_
      · rw [data]
        exact (holdsBytes_append.1 endpoints).2
      · rw [data, UsbParsing.takeHeader_data]
        omega
      · rw [numEndpoints, UsbParsing.takeHeader_numEndpoints, endpointCount]
        omega
    have whole : Inside low (c.data + (blockBytes (b :: rest)).length) c.data 9 :=
      ⟨ordered, by omega⟩
    rw [endsCompanioned_cons]
    simp only [UsbParsing.takeInterfaces, Option.bind_eq_some_iff]
    constructor
    · rintro ⟨-, own, start, opened, safe⟩
      obtain ⟨ends, c₁, took, announced, later, c', took', value⟩ := (after start).1 safe
      refine ⟨?_, fun peek => ⟨ends peek, later peek⟩, c', ⟨start, opened, c₁, took, took'⟩, value⟩
      intro b' member
      rcases List.mem_cons.1 member with rfl | member
      · exact own
      · exact announced b' member
    · rintro ⟨announced, ends, c', ⟨start, opened, c₁, took, took'⟩, value⟩
      refine ⟨whole, announced b (List.mem_cons_self ..), start, opened, (after start).2 ?_⟩
      exact ⟨fun peek => (ends peek).1, c₁, took,
        fun b' member => announced b' (List.mem_cons_of_mem _ member), fun peek => (ends peek).2,
        c', took', value⟩

end Taking

end EmkKernel
