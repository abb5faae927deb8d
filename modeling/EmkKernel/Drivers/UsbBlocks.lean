import EmkKernel.Drivers.UsbConfiguration
import EmkKernel.Memory.Bytes

/-!
# Configuration blocks

What lies behind a configuration descriptor: interfaces, each with at most one HID
descriptor and the endpoints that it announces, as data and as bytes.
-/

namespace EmkKernel

/-- A number of two bytes, the lower one first. -/
def wordBytes (w : BitVec 16) : List Byte := [w.setWidth 8, (w >>> 8).setWidth 8]

private theorem littleEndian_word {memory : Nat → Byte} {data : Nat} {w : BitVec 16}
    (low : memory data = w.setWidth 8) (high : memory (data + 1) = (w >>> 8).setWidth 8) :
    littleEndian memory data 2 = w.toNat := by
  simp only [littleEndian, low, high, BitVec.toNat_setWidth, BitVec.toNat_ushiftRight,
    Nat.shiftRight_eq_div_pow]
  have below := w.isLt
  omega

/-! ## Descriptors -/

/-- A SuperSpeed companion descriptor. -/
structure CompanionBlock where
  maxBurst : Byte
  attributes : Byte
  bytesPerInterval : BitVec 16

/-- An endpoint descriptor, and the companion behind it. -/
structure EndpointBlock where
  address : Byte
  attributes : Byte
  maxPacketSize : BitVec 16
  interval : Byte
  companion : Option CompanionBlock

/-- A HID descriptor: the class descriptor that every one has, and optional ones. -/
structure HidBlock where
  bcdHid : BitVec 16
  countryCode : Byte
  descriptorType : Byte
  descriptorLength : BitVec 16
  optional : List (Byte × BitVec 16)
  short : 9 + 3 * optional.length < 2 ^ 8

structure InterfaceBlock where
  number : Byte
  alternateSetting : Byte
  interfaceClass : Byte
  subClass : Byte
  protocol : Byte
  text : Byte
  hid : Option HidBlock
  endpoints : List EndpointBlock
  few : endpoints.length < 2 ^ 8

def CompanionBlock.bytes (c : CompanionBlock) : List Byte :=
  [6, 48, c.maxBurst, c.attributes] ++ wordBytes c.bytesPerInterval

def EndpointBlock.bytes (e : EndpointBlock) : List Byte :=
  [7, 5, e.address, e.attributes] ++ wordBytes e.maxPacketSize ++ [e.interval] ++
    (e.companion.map CompanionBlock.bytes).getD []

def HidBlock.bytes (h : HidBlock) : List Byte :=
  [BitVec.ofNat 8 (9 + 3 * h.optional.length), 0x21] ++ wordBytes h.bcdHid ++
    [h.countryCode, BitVec.ofNat 8 (1 + h.optional.length), h.descriptorType] ++
    wordBytes h.descriptorLength ++ h.optional.flatMap fun d => d.1 :: wordBytes d.2

namespace InterfaceBlock

def header (b : InterfaceBlock) : List Byte :=
  [9, 4, b.number, b.alternateSetting, BitVec.ofNat 8 b.endpoints.length, b.interfaceClass,
    b.subClass, b.protocol, b.text]

def hidBytes (b : InterfaceBlock) : List Byte := (b.hid.map HidBlock.bytes).getD []

def bytes (b : InterfaceBlock) : List Byte :=
  b.header ++ b.hidBytes ++ b.endpoints.flatMap EndpointBlock.bytes

/-- The interface without the companions of its endpoints. -/
def plain (b : InterfaceBlock) : InterfaceBlock :=
  { b with
    endpoints := b.endpoints.map fun e => { e with companion := none }
    few := by rw [List.length_map]; exact b.few }

end InterfaceBlock

/-- The bytes of a configuration block. -/
def blockBytes (blocks : List InterfaceBlock) : List Byte := blocks.flatMap InterfaceBlock.bytes

/-! ## What a parser should find -/

def EndpointBlock.descriptor (e : EndpointBlock) : UsbEndpointDescriptor :=
  ⟨e.address, e.attributes, e.maxPacketSize.toNat, e.interval⟩

/-- The HID descriptor of the interface with an index. -/
def HidBlock.kept (h : HidBlock) (interfaceIndex : Nat) : UsbHID :=
  ⟨h.bcdHid.toNat, h.countryCode, BitVec.ofNat 8 (1 + h.optional.length), h.descriptorType,
    h.descriptorLength.toNat, BitVec.ofNat 8 interfaceIndex⟩

/-- An interface as all drivers keep it, with its endpoints. -/
structure InterfaceView where
  interfaceClass : Byte
  subClass : Byte
  protocol : Byte
  endpoints : List UsbEndpointDescriptor
  deriving DecidableEq, Repr

def InterfaceBlock.view (b : InterfaceBlock) : InterfaceView :=
  ⟨b.interfaceClass, b.subClass, b.protocol, b.endpoints.map EndpointBlock.descriptor⟩

/-- The HID descriptors of interfaces with indices from `i` on. -/
def hidsFrom (i : Nat) : List InterfaceBlock → List UsbHID
  | [] => []
  | b :: rest => (b.hid.map fun h => h.kept i).toList ++ hidsFrom (i + 1) rest

def endpointCount (blocks : List InterfaceBlock) : Nat :=
  (blocks.map fun b => b.endpoints.length).sum

/-! ## What lies at a pointer -/

section Reading

variable {memory : Nat → Byte} {data : Nat}

theorem interfaceDescriptorAt_header {b : InterfaceBlock}
    (placed : HoldsBytes memory data b.header) :
    interfaceDescriptorAt memory data =
      ⟨b.number, b.alternateSetting, BitVec.ofNat 8 b.endpoints.length, b.interfaceClass,
        b.subClass, b.protocol⟩ := by
  simp only [InterfaceBlock.header, holdsBytes_cons, Nat.add_assoc, Nat.reduceAdd] at placed
  obtain ⟨-, -, number, alternate, count, cls, sub, protocol, -⟩ := placed
  simp only [interfaceDescriptorAt, number, alternate, count, cls, sub, protocol]

theorem endpointDescriptorAt_bytes {e : EndpointBlock} (placed : HoldsBytes memory data e.bytes) :
    endpointDescriptorAt memory data = e.descriptor := by
  simp only [EndpointBlock.bytes, wordBytes, List.cons_append, List.nil_append, holdsBytes_cons,
    Nat.add_assoc, Nat.reduceAdd] at placed
  obtain ⟨-, -, address, attributes, low, high, interval, -⟩ := placed
  simp only [endpointDescriptorAt, address, attributes, littleEndian_word low high, interval,
    EndpointBlock.descriptor]

theorem hidAt_bytes {h : HidBlock} (placed : HoldsBytes memory data h.bytes) (i : Nat) :
    hidAt memory data (BitVec.ofNat 8 i) = h.kept i := by
  simp only [HidBlock.bytes, wordBytes, List.cons_append, List.nil_append, holdsBytes_cons,
    Nat.add_assoc, Nat.reduceAdd] at placed
  obtain ⟨-, -, low, high, country, count, type, low', high', -⟩ := placed
  simp only [hidAt, country, count, type, littleEndian_word low high, littleEndian_word low' high',
    HidBlock.kept]

theorem type_of_header {b : InterfaceBlock} {rest : List Byte}
    (placed : HoldsBytes memory data (b.header ++ rest)) : memory (data + 1) = 4 := by
  simp only [InterfaceBlock.header, List.cons_append, holdsBytes_cons] at placed
  exact placed.2.1

theorem type_of_hid {h : HidBlock} {rest : List Byte}
    (placed : HoldsBytes memory data (h.bytes ++ rest)) : memory (data + 1) = 0x21 := by
  simp only [HidBlock.bytes, List.cons_append, holdsBytes_cons] at placed
  exact placed.2.1

theorem type_of_endpoint {e : EndpointBlock} {rest : List Byte}
    (placed : HoldsBytes memory data (e.bytes ++ rest)) : memory (data + 1) = endpointType := by
  simp only [EndpointBlock.bytes, List.cons_append, holdsBytes_cons] at placed
  exact placed.2.1

end Reading

@[simp] theorem InterfaceBlock.header_length (b : InterfaceBlock) : b.header.length = 9 := rfl

theorem HidBlock.bytes_length (h : HidBlock) : h.bytes.length = 9 + 3 * h.optional.length := by
  simp only [HidBlock.bytes, wordBytes, List.length_append, List.length_cons, List.length_nil,
    List.length_flatMap, List.map_const', List.sum_replicate_nat, Nat.reduceAdd]
  omega

theorem EndpointBlock.bytes_length (e : EndpointBlock) :
    e.bytes.length = if e.companion.isSome then 13 else 7 := by
  cases same : e.companion <;>
    simp [EndpointBlock.bytes, wordBytes, same, CompanionBlock.bytes]

end EmkKernel
