import EmkKernel.Library.WordFields

/-!
# Control transfers of an UHCI endpoint

`UhciControlEndpoint::send_control_read` with its two paths and `send_over_sized_control_write`:
the transfer descriptors they build and what a controller reads in them.
-/

namespace EmkKernel

open WordFields

/-- `UhciTransferDescriptor`, dword by dword. -/
structure UhciTransferDescriptor where
  link : BitVec 32
  control : BitVec 32
  token : BitVec 32
  bufferPointer : BitVec 32

namespace UhciTransferDescriptor

variable (td : UhciTransferDescriptor)

def zero : UhciTransferDescriptor := ⟨0, 0, 0, 0⟩

def setStatus (value : BitVec 32) : UhciTransferDescriptor :=
  { td with control := setPart td.control 0xFF 16 value }

def setDeviceAddress (value : BitVec 32) : UhciTransferDescriptor :=
  { td with token := setPart td.token 0x7F 8 value }

def deviceAddress : BitVec 32 := getPart td.token 0x7F 8

def setEndPt (value : BitVec 32) : UhciTransferDescriptor :=
  { td with token := setPart td.token 0xF 15 value }

def endPt : BitVec 32 := getPart td.token 0xF 15

/-- The bit `T`. -/
def setT (value : Bool) : UhciTransferDescriptor := { td with link := setBit td.link 0 value }

def writeLinkPointer (value : BitVec 32) : UhciTransferDescriptor :=
  { td with link := td.link &&& 0xF ||| value &&& ~~~0xF#32 }

def writeBufferPointer (value : BitVec 32) : UhciTransferDescriptor :=
  { td with bufferPointer := value }

def linkNextTd (tdAddress : BitVec 32) (vf : Bool) : UhciTransferDescriptor :=
  { td with link := tdAddress >>> 4 <<< 4 ||| (BitVec.ofBool vf).setWidth 32 <<< 2 }

/-- What `refresh_for_setup`, `refresh_for_in`, `refresh_for_out` and `refresh_for_status` have
in common: the parts `Status`, `CErr`, `ActLen` and the bit `Ioc`, the parts `Pid` and `MaxLen`
and the bit `D`. -/
def refresh (status pid maxLen : BitVec 32) (ioc toggle : Bool) : UhciTransferDescriptor :=
  { td with
    control := setBit (setPart (setPart (setPart td.control 0xFF 16 status) 0x3 27 0b11) 0x7FF 0 0)
      24 ioc
    token := setBit (setPart (setPart td.token 0xFF 0 pid) 0x7FF 21 maxLen) 19 toggle }

def pidSetup : BitVec 32 := 0x2D

def pidIn : BitVec 32 := 0x69

def pidOut : BitVec 32 := 0xE1

def refreshForSetup (request : Nat) : UhciTransferDescriptor :=
  (td.refresh 0 pidSetup 7 false false).writeBufferPointer (BitVec.ofNat 32 request)

/-- `(1 << 7) * active`. -/
def activeStatus (active : Bool) : BitVec 32 := if active then 1#32 <<< 7 else 0

def refreshForIn (maxLen : Nat) (ioc toggle active : Bool) : UhciTransferDescriptor :=
  td.refresh (activeStatus active) pidIn (BitVec.ofNat 32 maxLen) ioc toggle

def refreshForOut (maxLen : Nat) (ioc toggle active : Bool) : UhciTransferDescriptor :=
  td.refresh (activeStatus active) pidOut (BitVec.ofNat 32 maxLen) ioc toggle

def refreshForStatus (isIn : Bool) : UhciTransferDescriptor :=
  td.refresh (1#32 <<< 7) (if isIn then pidIn else pidOut) 0x7FF true true

/-! ### What a controller reads -/

def pid : BitVec 32 := getPart td.token 0xFF 0

def maxLen : BitVec 32 := getPart td.token 0x7FF 21

def toggle : Bool := td.token.getLsbD 19

def active : Bool := td.control.getLsbD 23

/-- The bytes of a packet; the longest `MaxLen` is the one of the empty packet. -/
def bytes : Nat := if td.maxLen = 0x7FF then 0 else td.maxLen.toNat + 1

end UhciTransferDescriptor

/-- `UhciControlEndpoint` with the element pointer of its queue head and the memory. Memory is
read descriptor by descriptor. -/
structure UhciControlEndpoint where
  memory : Nat → UhciTransferDescriptor
  queueElement : BitVec 32
  maximumPacketSize : Nat
  transferDescriptors : Nat
  transferDescriptorBaseOffset : BitVec 8

namespace UhciControlEndpoint

open UhciTransferDescriptor

def queueHeadWasControl : BitVec 32 := 1#32 <<< 30

def queueHeadWasCustom : BitVec 32 := 1#32 <<< 31

/-- `set_queue_element_link_pointer`. -/
def setQueueElementLinkPointer (element : BitVec 32) (value : Nat) : BitVec 32 :=
  element &&& 0xF ||| BitVec.ofNat 32 value &&& ~~~0xF#32

/-- The descriptor with an index in a list of them. -/
def tdAddress (base index : Nat) : Nat := base + 16 * index

/-- The memory with a page of empty descriptors. -/
def zeroPage (memory : Nat → UhciTransferDescriptor) (base : Nat) : Nat → UhciTransferDescriptor :=
  fun a => if base ≤ a ∧ a < base + 0x1000 then zero else memory a

/-- A descriptor of the data stage of an over-sized transfer. -/
def dataTd (td : UhciTransferDescriptor) (isIn : Bool) (took dstBuffer next : Nat) (toggle : Bool)
    (deviceAddress endpointNumber : BitVec 32) : UhciTransferDescriptor :=
  (if isIn then td.refreshForIn (took - 1) false toggle true
    else td.refreshForOut (took - 1) false toggle true)
    |>.writeBufferPointer (BitVec.ofNat 32 dstBuffer)
    |>.linkNextTd (BitVec.ofNat 32 next) true
    |>.setDeviceAddress deviceAddress
    |>.setEndPt endpointNumber

/-- The descriptor of the setup stage of an over-sized transfer, which is not active yet. -/
def setupTd (td : UhciTransferDescriptor) (request next : Nat)
    (deviceAddress endpointNumber : BitVec 32) : UhciTransferDescriptor :=
  td.refreshForSetup request
    |>.linkNextTd (BitVec.ofNat 32 next) true
    |>.setDeviceAddress deviceAddress
    |>.setEndPt endpointNumber

/-- The descriptor of the status stage of an over-sized transfer. -/
def statusTd (td : UhciTransferDescriptor) (isIn : Bool) (link : BitVec 32)
    (deviceAddress endpointNumber : BitVec 32) : UhciTransferDescriptor :=
  td.refreshForStatus isIn
    |>.setT false
    |>.writeLinkPointer link
    |>.setDeviceAddress deviceAddress
    |>.setEndPt endpointNumber

/-- The descriptors of a transfer of one packet. -/
def ownSetupTd (td : UhciTransferDescriptor) (request next : Nat) : UhciTransferDescriptor :=
  td.refreshForSetup request
    |>.linkNextTd (BitVec.ofNat 32 next) true
    |>.setStatus (1#32 <<< 7)

def ownInTd (td : UhciTransferDescriptor) (dstBuffer dstLength next : Nat) :
    UhciTransferDescriptor :=
  td.refreshForIn (if dstLength = 0 then 0x7FF else dstLength - 1) false true true
    |>.writeBufferPointer (BitVec.ofNat 32 dstBuffer)
    |>.linkNextTd (BitVec.ofNat 32 next) true

def ownStatusTd (td : UhciTransferDescriptor) (isIn : Bool) (link : BitVec 32) :
    UhciTransferDescriptor :=
  td.refreshForStatus isIn
    |>.setT true
    |>.writeBufferPointer 0
    |>.writeLinkPointer link

variable (ep : UhciControlEndpoint)

/-- The loop over the descriptors; the difference is in `u16` and the sum in `u32`. -/
def dataTds (base : Nat) (isIn : Bool) (deviceAddress endpointNumber : BitVec 32) :
    Nat → Nat → Nat → Nat → Bool → (Nat → UhciTransferDescriptor) →
      Option (Nat → UhciTransferDescriptor)
  | 0, _, _, _, _, memory => some memory
  | n + 1, index, bufRem, dstBuffer, toggle, memory =>
    let took := if ep.maximumPacketSize ≥ bufRem then bufRem else ep.maximumPacketSize
    if took = 0 ∨ 2 ^ 32 ≤ dstBuffer + took then none
    else
      let here := tdAddress base index
      let td := dataTd (memory here) isIn took dstBuffer (tdAddress base (index + 1)) toggle
        deviceAddress endpointNumber
      dataTds base isIn deviceAddress endpointNumber n (index + 1) (bufRem - took)
        (dstBuffer + took) (!toggle) (Function.update memory here td)

def tdsRequired (maximumPacketSize bufferLength : Nat) : Nat :=
  bufferLength / maximumPacketSize + if bufferLength % maximumPacketSize ≠ 0 then 1 else 0

/-- `send_over_sized_control_read` and `send_over_sized_control_write`, with the page that the
allocator hands out and the lowest address it has. Nothing is returned where the arithmetic
panics. -/
def sendOverSized (isIn : Bool) (custom lowestAddress request dstBuffer bufferLength : Nat) :
    Option UhciControlEndpoint :=
  if ep.maximumPacketSize = 0 then none
  else
    let deviceAddress := (ep.memory ep.transferDescriptors).deviceAddress
    let endpointNumber := (ep.memory ep.transferDescriptors).endPt
    let memory := zeroPage ep.memory custom
    let pageOffset := (custom - lowestAddress) / 0x1000
    let required := tdsRequired ep.maximumPacketSize bufferLength
    let memory := Function.update memory (tdAddress custom 0)
      (setupTd (memory (tdAddress custom 0)) request (tdAddress custom 1) deviceAddress
        endpointNumber)
    (ep.dataTds custom isIn deviceAddress endpointNumber required 1 bufferLength dstBuffer true
      memory).map fun memory =>
        let link := queueHeadWasCustom ||| ep.transferDescriptorBaseOffset.setWidth 32 <<< 16 |||
          BitVec.ofNat 32 pageOffset <<< 8
        let memory := Function.update memory (tdAddress custom (1 + required))
          (statusTd (memory (tdAddress custom (1 + required))) (!isIn) link deviceAddress
            endpointNumber)
        let memory := Function.update memory (tdAddress custom 0)
          ((memory (tdAddress custom 0)).setStatus (1#32 <<< 7))
        { ep with
          memory
          queueElement := setBit (setQueueElementLinkPointer ep.queueElement
            (tdAddress custom 0)) 0 false }

def sendOverSizedControlRead := ep.sendOverSized true

def sendOverSizedControlWrite := ep.sendOverSized false

def sendRightSizedControlRead (request dstBuffer dstLength : Nat) : UhciControlEndpoint :=
  let setupAt := tdAddress ep.transferDescriptors 0
  let inAt := tdAddress ep.transferDescriptors 1
  let statusAt := tdAddress ep.transferDescriptors 2
  let link := queueHeadWasControl ||| ep.transferDescriptorBaseOffset.setWidth 32 <<< 8
  let memory := Function.update ep.memory setupAt (ownSetupTd (ep.memory setupAt) request inAt)
  let memory := Function.update memory inAt (ownInTd (ep.memory inAt) dstBuffer dstLength statusAt)
  let memory := Function.update memory statusAt (ownStatusTd (ep.memory statusAt) false link)
  { ep with memory, queueElement := setBit ep.queueElement 0 false }

def sendControlRead (custom lowestAddress request dstBuffer bufferLength : Nat) :
    Option UhciControlEndpoint :=
  if bufferLength > ep.maximumPacketSize then
    ep.sendOverSizedControlRead custom lowestAddress request dstBuffer bufferLength
  else some (ep.sendRightSizedControlRead request dstBuffer bufferLength)

/-! ### What a transfer is to be -/

/-- A valid pointer to another descriptor. -/
structure LinksTo (dword : BitVec 32) (address : Nat) : Prop where
  valid : dword.getLsbD 0 = false
  descriptor : dword.getLsbD 1 = false
  pointer : (dword >>> 4 <<< 4).toNat = address

/-- What a controller reads in a descriptor. -/
structure Packet where
  pid : BitVec 32
  bytes : Nat
  toggle : Bool
  deviceAddress : BitVec 32
  endPt : BitVec 32
  active : Bool
  bufferPointer : BitVec 32
  deriving DecidableEq

def packet (td : UhciTransferDescriptor) : Packet where
  pid := td.pid
  bytes := td.bytes
  toggle := td.toggle
  deviceAddress := td.deviceAddress
  endPt := td.endPt
  active := td.active
  bufferPointer := td.bufferPointer

/-- The chain ends at a descriptor. -/
def Ends (td : UhciTransferDescriptor) : Prop := td.link.getLsbD 0 = true

def directed (isIn : Bool) : BitVec 32 := if isIn then pidIn else pidOut

/-- The packet of a stage of a transfer for this endpoint. -/
def stage (pid : BitVec 32) (bytes : Nat) (toggle : Bool) (bufferPointer : BitVec 32) : Packet where
  pid
  bytes
  toggle
  deviceAddress := (ep.memory ep.transferDescriptors).deviceAddress
  endPt := (ep.memory ep.transferDescriptors).endPt
  active := true
  bufferPointer

/-- The controller takes the descriptors at these addresses one after the other. -/
def Chained (after : UhciControlEndpoint) (tdAt : Nat → Nat) (n : Nat) : Prop :=
  LinksTo after.queueElement (tdAt 0) ∧
    ∀ i < n, LinksTo (after.memory (tdAt i)).link (tdAt (i + 1))

/-- A transfer with so many data packets in the room from `base` on, but for its end. -/
structure Packetised (after : UhciControlEndpoint) (isIn : Bool)
    (request dstBuffer length base room : Nat) (tdAt : Nat → Nat) (n : Nat) : Prop where
  inside : ∀ i ≤ n + 1, base ≤ tdAt i ∧ tdAt i + 16 ≤ base + 16 * room
  chained : Chained after tdAt (n + 1)
  setup : packet (after.memory (tdAt 0)) = ep.stage pidSetup 8 false (BitVec.ofNat 32 request)
  data : ∀ i < n, packet (after.memory (tdAt (i + 1))) =
    ep.stage (directed isIn) (min ep.maximumPacketSize (length - i * ep.maximumPacketSize))
      (decide (i % 2 = 0)) (BitVec.ofNat 32 (dstBuffer + i * ep.maximumPacketSize))
  needed : ∀ i < n, i * ep.maximumPacketSize < length
  covers : length ≤ n * ep.maximumPacketSize
  status : packet (after.memory (tdAt (n + 1))) = ep.stage (directed !isIn) 0 true 0

/-- The transfer is given to the controller, but for its end. -/
def Packetises (sent : Option UhciControlEndpoint) (isIn : Bool)
    (request dstBuffer length base room : Nat) : Prop :=
  ∃ after tdAt n, sent = some after ∧
    ep.Packetised after isIn request dstBuffer length base room tdAt n

/-- The transfer is given to the controller, and the chain ends with its status stage. -/
def Carries (sent : Option UhciControlEndpoint) (isIn : Bool)
    (request dstBuffer length base room : Nat) : Prop :=
  ∃ after tdAt n, sent = some after ∧
    ep.Packetised after isIn request dstBuffer length base room tdAt n ∧
    Ends (after.memory (tdAt (n + 1)))

/-- A control read, in the page or in the descriptors that the endpoint has for itself. -/
def Reads (custom lowestAddress request dstBuffer length : Nat) : Prop :=
  ep.Carries (ep.sendControlRead custom lowestAddress request dstBuffer length) true request
    dstBuffer length (if length > ep.maximumPacketSize then custom else ep.transferDescriptors)
    (if length > ep.maximumPacketSize then 256 else 4)

/-- An over-sized control write. -/
def Writes (custom lowestAddress request dstBuffer length : Nat) : Prop :=
  ep.Carries (ep.sendOverSizedControlWrite custom lowestAddress request dstBuffer length) false
    request dstBuffer length custom 256

/-- Two chains give the controller the same packets and end at the same one. -/
def SameChain (after after' : UhciControlEndpoint) (n : Nat) : Prop :=
  ∃ tdAt tdAt', Chained after tdAt n ∧ Chained after' tdAt' n ∧
    ∀ i ≤ n, packet (after.memory (tdAt i)) = packet (after'.memory (tdAt' i)) ∧
      (Ends (after.memory (tdAt i)) ↔ Ends (after'.memory (tdAt' i)))

/-- The two ways to read one packet are equivalent. -/
def Equivalent (custom lowestAddress request dstBuffer length : Nat) : Prop :=
  ∃ after, ep.sendOverSizedControlRead custom lowestAddress request dstBuffer length = some after ∧
    SameChain after (ep.sendRightSizedControlRead request dstBuffer length) 2

/-- A control endpoint between two transfers, with a page for the next one. -/
structure WellFormed (ep : UhciControlEndpoint) (custom : Nat) : Prop where
  element : (ep.queueElement >>> 4 <<< 4).toNat = ep.transferDescriptors
  descriptor : ep.queueElement.getLsbD 1 = false
  aligned : 2 ^ 4 ∣ ep.transferDescriptors
  inside : ep.transferDescriptors + 64 ≤ 2 ^ 32
  page : 2 ^ 12 ∣ custom
  page_inside : custom + 0x1000 ≤ 2 ^ 32
  deviceAddress : ∀ i < 3, (ep.memory (tdAddress ep.transferDescriptors i)).deviceAddress =
    (ep.memory ep.transferDescriptors).deviceAddress
  endPt : ∀ i < 3, (ep.memory (tdAddress ep.transferDescriptors i)).endPt =
    (ep.memory ep.transferDescriptors).endPt

/-- The packets fit their field, the descriptors fit the page and the buffer fits the memory. -/
structure Fits (ep : UhciControlEndpoint) (dstBuffer length : Nat) : Prop where
  some_bytes : 0 < ep.maximumPacketSize
  bytes : min ep.maximumPacketSize length ≤ 0x7FF
  descriptors : tdsRequired ep.maximumPacketSize length + 2 ≤ 256
  buffer : dstBuffer + length < 2 ^ 32

/-! ### The words of the descriptors -/

/-- The token that `refresh` writes. -/
def refreshToken (token pid maxLen : BitVec 32) (toggle : Bool) : BitVec 32 :=
  setBit (setPart (setPart token 0xFF 0 pid) 0x7FF 21 maxLen) 19 toggle

/-- The token with the address of the endpoint. -/
def addressToken (token deviceAddress endPt : BitVec 32) : BitVec 32 :=
  setPart (setPart token 0x7F 8 deviceAddress) 0xF 15 endPt

section

variable {token pid maxLen : BitVec 32} {toggle : Bool} {deviceAddress endPt : BitVec 32}

private theorem pid_refreshToken :
    getPart (refreshToken token pid maxLen toggle) 0xFF 0 = pid &&& 0xFF := by
  rw [refreshToken, getPart_setBit _ _ (by decide), getPart_setPart_other _ _ (by decide),
    getPart_setPart _ _ (by decide)]

private theorem maxLen_refreshToken :
    getPart (refreshToken token pid maxLen toggle) 0x7FF 21 = maxLen &&& 0x7FF := by
  rw [refreshToken, getPart_setBit _ _ (by decide), getPart_setPart _ _ (by decide)]

private theorem toggle_refreshToken :
    (refreshToken token pid maxLen toggle).getLsbD 19 = toggle := by
  rw [refreshToken, getLsbD_setBit _ _ (by decide), if_pos rfl]

private theorem deviceAddress_refreshToken :
    getPart (refreshToken token pid maxLen toggle) 0x7F 8 = getPart token 0x7F 8 := by
  rw [refreshToken, getPart_setBit _ _ (by decide), getPart_setPart_other _ _ (by decide),
    getPart_setPart_other _ _ (by decide)]

private theorem endPt_refreshToken :
    getPart (refreshToken token pid maxLen toggle) 0xF 15 = getPart token 0xF 15 := by
  rw [refreshToken, getPart_setBit _ _ (by decide), getPart_setPart_other _ _ (by decide),
    getPart_setPart_other _ _ (by decide)]

private theorem pid_addressToken :
    getPart (addressToken token deviceAddress endPt) 0xFF 0 = getPart token 0xFF 0 := by
  rw [addressToken, getPart_setPart_other _ _ (by decide), getPart_setPart_other _ _ (by decide)]

private theorem maxLen_addressToken :
    getPart (addressToken token deviceAddress endPt) 0x7FF 21 = getPart token 0x7FF 21 := by
  rw [addressToken, getPart_setPart_other _ _ (by decide), getPart_setPart_other _ _ (by decide)]

private theorem toggle_addressToken :
    (addressToken token deviceAddress endPt).getLsbD 19 = token.getLsbD 19 := by
  rw [addressToken, getLsbD_setPart _ _ _ (by decide), if_neg (by decide),
    getLsbD_setPart _ _ _ (by decide), if_neg (by decide)]

private theorem deviceAddress_addressToken :
    getPart (addressToken token deviceAddress endPt) 0x7F 8 = deviceAddress &&& 0x7F := by
  rw [addressToken, getPart_setPart_other _ _ (by decide), getPart_setPart _ _ (by decide)]

private theorem endPt_addressToken :
    getPart (addressToken token deviceAddress endPt) 0xF 15 = endPt &&& 0xF := by
  rw [addressToken, getPart_setPart _ _ (by decide)]

end

private theorem getPart_masked (word mask : BitVec 32) (position : Nat) :
    getPart word mask position &&& mask = getPart word mask position := by
  rw [getPart, BitVec.and_assoc, BitVec.and_self]

private theorem bytes_le (td : UhciTransferDescriptor) : td.bytes ≤ 0x7FF := by
  have masked : td.maxLen.toNat ≤ 0x7FF := by
    rw [UhciTransferDescriptor.maxLen, getPart, BitVec.toNat_and]
    exact Nat.and_le_right
  unfold bytes
  split
  next empty => omega
  next some =>
    have apart : td.maxLen.toNat ≠ 0x7FF := fun same => some (BitVec.eq_of_toNat_eq same)
    omega

theorem bytes_of_maxLen {td : UhciTransferDescriptor} {took : Nat} (some_bytes : 0 < took)
    (small : took ≤ 0x7FF) (written : td.maxLen = BitVec.ofNat 32 (took - 1) &&& 0x7FF) :
    td.bytes = took := by
  have value : td.maxLen.toNat = took - 1 := by
    rw [written, BitVec.toNat_and, BitVec.toNat_ofNat, Nat.mod_eq_of_lt (by omega),
      show (0x7FF : BitVec 32).toNat = 2 ^ 11 - 1 from rfl, Nat.and_two_pow_sub_one_eq_mod,
      Nat.mod_eq_of_lt (by omega)]
  have apart : td.maxLen ≠ 0x7FF := by
    intro same
    rw [same] at value
    have longest : (0x7FF : BitVec 32).toNat = 0x7FF := rfl
    omega
  rw [bytes, if_neg apart, value]
  omega

/-- The status part is written, and with it the bit that makes the descriptor active. -/
theorem active_setStatus (td : UhciTransferDescriptor) :
    (td.setStatus (1#32 <<< 7)).active = true := by
  rw [active, setStatus, getLsbD_setPart _ _ _ (by decide)]
  rfl

/-- The control dword that `refresh` writes. -/
def refreshControl (control status : BitVec 32) (ioc : Bool) : BitVec 32 :=
  setBit (setPart (setPart (setPart control 0xFF 16 status) 0x3 27 0b11) 0x7FF 0 0) 24 ioc

private theorem active_of_refreshControl {td : UhciTransferDescriptor} {control : BitVec 32}
    {ioc : Bool}
    (written : td.control = refreshControl control (1#32 <<< 7) ioc) : td.active = true := by
  rw [active, written, refreshControl, getLsbD_setBit _ _ (by decide), if_neg (by decide),
    getLsbD_setPart _ _ _ (by decide), if_neg (by decide), getLsbD_setPart _ _ _ (by decide),
    if_neg (by decide), getLsbD_setPart _ _ _ (by decide), if_pos (by decide)]
  rfl

/-! ### The links -/

private theorem linksTo_linkNextTd (td : UhciTransferDescriptor) {address : Nat} (vf : Bool)
    (aligned : 2 ^ 4 ∣ address) :
    LinksTo (td.linkNextTd (BitVec.ofNat 32 address) vf).link (address % 2 ^ 32) := by
  have flag : ∀ n, ((BitVec.ofBool vf).setWidth 32).getLsbD n = (decide (n = 0) && vf) := by
    intro n
    cases vf <;> cases n <;> simp
  have bits : ∀ i < 32, (td.linkNextTd (BitVec.ofNat 32 address) vf).link.getLsbD i =
      ((if 4 ≤ i then (BitVec.ofNat 32 address).getLsbD i else false) ||
        (decide (i = 2) && vf)) := by
    intro i small
    rw [linkNextTd, BitVec.getLsbD_or, getLsbD_shift_back _ _ small, BitVec.getLsbD_shiftLeft, flag]
    by_cases here : i = 2
    · subst here
      simp
    · by_cases before : i < 2
      · simp [here, before]
      · have apart : i - 2 ≠ 0 := by omega
        simp [here, apart]
  refine ⟨?_, ?_, ?_⟩
  · rw [bits 0 (by decide)]
    rfl
  · rw [bits 1 (by decide)]
    rfl
  · rw [shift_pointer_eq aligned fun i small high => ?_]
    have apart : i ≠ 2 := by omega
    rw [bits i small, if_pos high, decide_eq_false apart, Bool.false_and, Bool.or_false]

private theorem linksTo_setBit {element : BitVec 32} {address : Nat}
    (descriptor : element.getLsbD 1 = false) (pointer : (element >>> 4 <<< 4).toNat = address) :
    LinksTo (setBit element 0 false) address := by
  refine ⟨?_, ?_, ?_⟩
  · rw [getLsbD_setBit _ _ (by decide), if_pos rfl]
  · rw [getLsbD_setBit _ _ (by decide), if_neg (by decide), descriptor]
  · have same : setBit element 0 false >>> 4 <<< 4 = element >>> 4 <<< 4 := by
      apply BitVec.eq_of_getLsbD_eq
      intro i small
      rw [getLsbD_shift_back _ _ small, getLsbD_shift_back _ _ small]
      split
      next high => rw [getLsbD_setBit _ _ small, if_neg (by omega)]
      next low => rfl
    rw [same, pointer]

private theorem linksTo_setQueueElementLinkPointer {element : BitVec 32} {address : Nat}
    (descriptor : element.getLsbD 1 = false) (aligned : 2 ^ 4 ∣ address)
    (inside : address < 2 ^ 32) :
    LinksTo (setBit (setQueueElementLinkPointer element address) 0 false) address := by
  have bits {i : Nat} (small : i < 32) : (setQueueElementLinkPointer element address).getLsbD i =
      if i < 4 then element.getLsbD i else (BitVec.ofNat 32 address).getLsbD i :=
    getLsbD_low_or_high _ _ small
  apply linksTo_setBit
  · rw [bits (by decide), if_pos (by decide), descriptor]
  · rw [shift_pointer_eq aligned fun i small high => ?_, Nat.mod_eq_of_lt inside]
    rw [bits small, if_neg (Nat.not_lt.mpr high)]

/-- The chain from an element pointer is determined. -/
theorem Chained.unique {after : UhciControlEndpoint} {tdAt tdAt' : Nat → Nat} {n : Nat}
    (chained : Chained after tdAt n) (chained' : Chained after tdAt' n) :
    ∀ i ≤ n, tdAt i = tdAt' i := by
  intro i
  induction i with
  | zero => exact fun _ => chained.1.pointer.symm.trans chained'.1.pointer
  | succ i ih =>
    intro before
    have link := (chained.2 i before).pointer
    rw [ih (Nat.le_of_succ_le before)] at link
    exact link.symm.trans (chained'.2 i before).pointer

theorem Chained.take {after : UhciControlEndpoint} {tdAt : Nat → Nat} {n m : Nat}
    (chained : Chained after tdAt n) (before : m ≤ n) : Chained after tdAt m :=
  ⟨chained.1, fun i small => chained.2 i (Nat.lt_of_lt_of_le small before)⟩

/-! ### The number of descriptors -/

section

variable {maximumPacketSize length : Nat} (some_bytes : 0 < maximumPacketSize)

include some_bytes

theorem tdsRequired_needed :
    ∀ i < tdsRequired maximumPacketSize length, i * maximumPacketSize < length := by
  intro i before
  have split : maximumPacketSize * (length / maximumPacketSize) + length % maximumPacketSize =
    length := Nat.div_add_mod _ _
  unfold tdsRequired at before
  by_cases full : length % maximumPacketSize = 0
  · rw [if_neg (not_not.mpr full)] at before
    have bound : (i + 1) * maximumPacketSize ≤ length / maximumPacketSize * maximumPacketSize :=
      Nat.mul_le_mul_right _ (by omega)
    rw [Nat.succ_mul, Nat.mul_comm (length / _)] at bound
    omega
  · rw [if_pos full] at before
    have bound : i * maximumPacketSize ≤ length / maximumPacketSize * maximumPacketSize :=
      Nat.mul_le_mul_right _ (by omega)
    rw [Nat.mul_comm (length / _)] at bound
    omega

private theorem tdsRequired_covers :
    length ≤ tdsRequired maximumPacketSize length * maximumPacketSize := by
  have split : maximumPacketSize * (length / maximumPacketSize) + length % maximumPacketSize =
    length := Nat.div_add_mod _ _
  have short : length % maximumPacketSize < maximumPacketSize := Nat.mod_lt _ some_bytes
  rw [tdsRequired, Nat.add_mul, Nat.mul_comm (length / _)]
  by_cases full : length % maximumPacketSize = 0
  · rw [if_neg (not_not.mpr full)]
    omega
  · rw [if_pos full]
    omega

omit some_bytes in
/-- There is only one number of packets that are all needed and cover the buffer. -/
theorem packets_unique {n m : Nat} (needed : ∀ i < n, i * maximumPacketSize < length)
    (covers : length ≤ n * maximumPacketSize) (needed' : ∀ i < m, i * maximumPacketSize < length)
    (covers' : length ≤ m * maximumPacketSize) : n = m := by
  apply Nat.le_antisymm
  · apply Nat.le_of_not_lt
    intro less
    exact absurd covers' (Nat.not_le.mpr (needed m less))
  · apply Nat.le_of_not_lt
    intro less
    exact absurd covers (Nat.not_le.mpr (needed' n less))

end

/-! ### The loop over the data stage -/

section

variable {ep : UhciControlEndpoint} {base : Nat} {isIn : Bool} {deviceAddress endPt : BitVec 32}

private theorem dataTds_succ {n index bufRem dstBuffer : Nat} {toggle : Bool}
    {memory memory' : Nat → UhciTransferDescriptor} :
    ep.dataTds base isIn deviceAddress endPt (n + 1) index bufRem dstBuffer toggle memory =
        some memory' ↔
      min ep.maximumPacketSize bufRem ≠ 0 ∧
      dstBuffer + min ep.maximumPacketSize bufRem < 2 ^ 32 ∧
      ep.dataTds base isIn deviceAddress endPt n (index + 1)
        (bufRem - min ep.maximumPacketSize bufRem) (dstBuffer + min ep.maximumPacketSize bufRem)
        (!toggle) (Function.update memory (tdAddress base index)
          (dataTd (memory (tdAddress base index)) isIn (min ep.maximumPacketSize bufRem) dstBuffer
            (tdAddress base (index + 1)) toggle deviceAddress endPt)) = some memory' := by
  have took : (if ep.maximumPacketSize ≥ bufRem then bufRem else ep.maximumPacketSize) =
      min ep.maximumPacketSize bufRem := by
    split
    next all => rw [Nat.min_eq_right all]
    next part => rw [Nat.min_eq_left (by omega)]
  rw [dataTds, took]
  split
  next stop =>
    constructor
    · intro nothing
      cases nothing
    · rintro ⟨some_bytes, room, -⟩
      omega
  next go =>
    constructor
    · intro run
      exact ⟨by omega, by omega, run⟩
    · rintro ⟨-, -, run⟩
      exact run

theorem dataTds_frame {n : Nat} : ∀ {index bufRem dstBuffer : Nat} {toggle : Bool}
    {memory memory' : Nat → UhciTransferDescriptor},
    ep.dataTds base isIn deviceAddress endPt n index bufRem dstBuffer toggle memory =
      some memory' →
    ∀ a, (∀ i < n, a ≠ tdAddress base (index + i)) → memory' a = memory a := by
  induction n with
  | zero =>
    intro index bufRem dstBuffer toggle memory memory' run a _
    cases run
    rfl
  | succ n ih =>
    intro index bufRem dstBuffer toggle memory memory' run a apart
    obtain ⟨-, -, rest⟩ := dataTds_succ.mp run
    have here : a ≠ tdAddress base index := apart 0 (Nat.succ_pos n)
    have later : ∀ i < n, a ≠ tdAddress base (index + 1 + i) := by
      intro i small
      rw [Nat.add_assoc, Nat.add_comm 1]
      exact apart (i + 1) (Nat.succ_lt_succ small)
    rw [ih rest a later, Function.update_of_ne here]

theorem tdAddress_ne {i j : Nat} (apart : i ≠ j) : tdAddress base i ≠ tdAddress base j := by
  unfold tdAddress
  omega

theorem dataTds_at {n : Nat} : ∀ {index bufRem dstBuffer : Nat} {toggle : Bool}
    {memory memory' : Nat → UhciTransferDescriptor},
    ep.dataTds base isIn deviceAddress endPt n index bufRem dstBuffer toggle memory =
      some memory' →
    ∀ i < n, memory' (tdAddress base (index + i)) =
      dataTd (memory (tdAddress base (index + i))) isIn
        (min ep.maximumPacketSize (bufRem - i * ep.maximumPacketSize))
        (dstBuffer + i * ep.maximumPacketSize) (tdAddress base (index + i + 1))
        (toggle ^^ decide (i % 2 = 1)) deviceAddress endPt := by
  induction n with
  | zero => exact fun _ i none => absurd none (Nat.not_lt_zero i)
  | succ n ih =>
    intro index bufRem dstBuffer toggle memory memory' run i before
    obtain ⟨-, -, rest⟩ := dataTds_succ.mp run
    cases i with
    | zero =>
      -- the rest of the loop is about later descriptors
      have later : ∀ i < n, tdAddress base index ≠ tdAddress base (index + 1 + i) :=
        fun i _ => tdAddress_ne (by omega)
      rw [Nat.add_zero, dataTds_frame rest _ later, Function.update_self, Nat.zero_mul,
        Nat.sub_zero, Nat.add_zero]
      simp
    | succ i =>
      have small : i < n := Nat.lt_of_succ_lt_succ before
      have apart : tdAddress base (index + 1 + i) ≠ tdAddress base index :=
        tdAddress_ne (by omega)
      -- there is a next packet only behind a full one
      have full : min ep.maximumPacketSize bufRem = ep.maximumPacketSize := by
        cases n with
        | zero => exact absurd small (Nat.not_lt_zero i)
        | succ n =>
          obtain ⟨some_bytes, -, -⟩ := dataTds_succ.mp rest
          omega
      have turned : (!toggle ^^ decide (i % 2 = 1)) = (toggle ^^ decide ((i + 1) % 2 = 1)) := by
        rcases Nat.mod_two_eq_zero_or_one i with even | odd
        · have next : (i + 1) % 2 = 1 := by omega
          simp [even, next]
        · have next : (i + 1) % 2 = 0 := by omega
          simp [odd, next]
      have found := ih rest i small
      rw [Function.update_of_ne apart, full, turned] at found
      rw [show index + (i + 1) = index + 1 + i by omega, found, Nat.succ_mul,
        Nat.add_comm (i * _), ← Nat.sub_sub, Nat.add_assoc dstBuffer]

theorem dataTds_some_iff {n : Nat} : ∀ {index bufRem dstBuffer : Nat} {toggle : Bool}
    {memory : Nat → UhciTransferDescriptor}, 0 < ep.maximumPacketSize →
    (∀ i < n, i * ep.maximumPacketSize < bufRem) → bufRem ≤ n * ep.maximumPacketSize →
    ((∃ memory', ep.dataTds base isIn deviceAddress endPt n index bufRem dstBuffer toggle memory =
      some memory') ↔ n = 0 ∨ dstBuffer + bufRem < 2 ^ 32) := by
  induction n with
  | zero => exact fun _ _ _ => ⟨fun _ => .inl rfl, fun _ => ⟨_, rfl⟩⟩
  | succ n ih =>
    intro index bufRem dstBuffer toggle memory some_bytes needed covers
    have some_left : 0 < bufRem := by simpa using needed 0 (Nat.succ_pos n)
    have took_some : min ep.maximumPacketSize bufRem ≠ 0 := by omega
    rw [Nat.succ_mul] at covers
    have needed' : ∀ i < n, i * ep.maximumPacketSize <
        bufRem - min ep.maximumPacketSize bufRem := by
      intro i small
      have next := needed (i + 1) (Nat.succ_lt_succ small)
      rw [Nat.succ_mul] at next
      omega
    have covers' : bufRem - min ep.maximumPacketSize bufRem ≤ n * ep.maximumPacketSize := by omega
    constructor
    · rintro ⟨memory', run⟩
      obtain ⟨-, room, rest⟩ := dataTds_succ.mp run
      rcases (ih some_bytes needed' covers').mp ⟨memory', rest⟩ with last | fits
      · subst last
        omega
      · omega
    · intro fits
      have room : dstBuffer + bufRem < 2 ^ 32 := fits.resolve_left (Nat.succ_ne_zero n)
      have rest_fits : dstBuffer + min ep.maximumPacketSize bufRem +
          (bufRem - min ep.maximumPacketSize bufRem) < 2 ^ 32 := by omega
      have goes_on : ∀ memory, ∃ memory', ep.dataTds base isIn deviceAddress endPt n (index + 1)
          (bufRem - min ep.maximumPacketSize bufRem)
          (dstBuffer + min ep.maximumPacketSize bufRem) (!toggle) memory = some memory' :=
        fun _ => (ih some_bytes needed' covers').mpr (.inr rest_fits)
      obtain ⟨memory', rest⟩ := goes_on _
      exact ⟨memory', dataTds_succ.mpr ⟨took_some, by omega, rest⟩⟩

end

/-! ### The packets -/

section

variable {td : UhciTransferDescriptor} {token pid maxLen : BitVec 32} {toggle : Bool}
  {bytes : Nat} {deviceAddress endPt : BitVec 32}

theorem packet_of_refreshToken (written : td.token = refreshToken token pid maxLen toggle)
    (pid_small : pid &&& 0xFF = pid) (length : td.bytes = bytes) (active : td.active = true) :
    packet td = ⟨pid, bytes, toggle, getPart token 0x7F 8, getPart token 0xF 15, true,
      td.bufferPointer⟩ := by
  rw [packet, UhciTransferDescriptor.pid, UhciTransferDescriptor.toggle,
    UhciTransferDescriptor.deviceAddress, UhciTransferDescriptor.endPt, written, length, active,
    pid_refreshToken, toggle_refreshToken, deviceAddress_refreshToken, endPt_refreshToken,
    pid_small]

theorem packet_of_addressToken
    (written : td.token = addressToken (refreshToken token pid maxLen toggle) deviceAddress endPt)
    (pid_small : pid &&& 0xFF = pid) (length : td.bytes = bytes) (active : td.active = true) :
    packet td = ⟨pid, bytes, toggle, deviceAddress &&& 0x7F, endPt &&& 0xF, true,
      td.bufferPointer⟩ := by
  rw [packet, UhciTransferDescriptor.pid, UhciTransferDescriptor.toggle,
    UhciTransferDescriptor.deviceAddress, UhciTransferDescriptor.endPt, written, length, active,
    pid_addressToken, toggle_addressToken, deviceAddress_addressToken, endPt_addressToken,
    pid_refreshToken, toggle_refreshToken, pid_small]

private theorem maxLen_of_refreshToken (written : td.token = refreshToken token pid maxLen toggle) :
    td.maxLen = maxLen &&& 0x7FF := by
  rw [UhciTransferDescriptor.maxLen, written, maxLen_refreshToken]

private theorem maxLen_of_addressToken
    (written : td.token = addressToken (refreshToken token pid maxLen toggle) deviceAddress endPt) :
    td.maxLen = maxLen &&& 0x7FF := by
  rw [UhciTransferDescriptor.maxLen, written, maxLen_addressToken, maxLen_refreshToken]

private theorem bytes_of_setup (written : td.maxLen = 7 &&& 0x7FF) : td.bytes = 8 :=
  bytes_of_maxLen (by decide) (by decide) written

private theorem bytes_of_status (written : td.maxLen = 0x7FF &&& 0x7FF) : td.bytes = 0 :=
  if_pos written

private theorem directed_small (isIn : Bool) : directed isIn &&& 0xFF = directed isIn := by
  cases isIn <;> rfl

end

section

variable {td : UhciTransferDescriptor} {isIn toggle : Bool} {deviceAddress endPt : BitVec 32}

private theorem packet_setupTd (request next : Nat) :
    packet ((setupTd td request next deviceAddress endPt).setStatus (1#32 <<< 7)) =
      ⟨pidSetup, 8, false, deviceAddress &&& 0x7F, endPt &&& 0xF, true,
        BitVec.ofNat 32 request⟩ := by
  have written : ((setupTd td request next deviceAddress endPt).setStatus (1#32 <<< 7)).token =
    addressToken (refreshToken td.token pidSetup 7 false) deviceAddress endPt := rfl
  exact packet_of_addressToken written rfl (bytes_of_setup (maxLen_of_addressToken written))
    (active_setStatus _)

private theorem packet_dataTd {took : Nat} (some_bytes : 0 < took) (small : took ≤ 0x7FF)
    (dstBuffer next : Nat) :
    packet (dataTd td isIn took dstBuffer next toggle deviceAddress endPt) =
      ⟨directed isIn, took, toggle, deviceAddress &&& 0x7F, endPt &&& 0xF, true,
        BitVec.ofNat 32 dstBuffer⟩ := by
  have active : (dataTd td isIn took dstBuffer next toggle deviceAddress endPt).active = true := by
    have control : (dataTd td isIn took dstBuffer next toggle deviceAddress endPt).control =
        refreshControl td.control (1#32 <<< 7) false := by
      cases isIn <;> rfl
    exact active_of_refreshControl control
  have written : (dataTd td isIn took dstBuffer next toggle deviceAddress endPt).token =
      addressToken (refreshToken td.token (directed isIn) (BitVec.ofNat 32 (took - 1)) toggle)
        deviceAddress endPt := by
    cases isIn <;> rfl
  rw [packet_of_addressToken written (directed_small isIn)
    (bytes_of_maxLen some_bytes small (maxLen_of_addressToken written)) active]
  cases isIn <;> rfl

private theorem link_dataTd (took dstBuffer next : Nat) :
    (dataTd td isIn took dstBuffer next toggle deviceAddress endPt).link =
      (td.linkNextTd (BitVec.ofNat 32 next) true).link := by
  cases isIn <;> rfl

private theorem packet_statusTd (link : BitVec 32) :
    packet (statusTd td isIn link deviceAddress endPt) =
      ⟨directed isIn, 0, true, deviceAddress &&& 0x7F, endPt &&& 0xF, true, td.bufferPointer⟩ := by
  have written : (statusTd td isIn link deviceAddress endPt).token =
    addressToken (refreshToken td.token (directed isIn) 0x7FF true) deviceAddress endPt := rfl
  have active : (statusTd td isIn link deviceAddress endPt).control =
    refreshControl td.control (1#32 <<< 7) true := rfl
  exact packet_of_addressToken written (directed_small isIn)
    (bytes_of_status (maxLen_of_addressToken written)) (active_of_refreshControl active)

private theorem packet_ownSetupTd (request next : Nat) :
    packet (ownSetupTd td request next) =
      ⟨pidSetup, 8, false, td.deviceAddress, td.endPt, true, BitVec.ofNat 32 request⟩ := by
  have written : (ownSetupTd td request next).token = refreshToken td.token pidSetup 7 false := rfl
  exact packet_of_refreshToken written rfl (bytes_of_setup (maxLen_of_refreshToken written))
    (active_setStatus _)

private theorem packet_ownInTd {length : Nat} (some_data : 0 < length) (small : length ≤ 0x7FF)
    (dstBuffer next : Nat) :
    packet (ownInTd td dstBuffer length next) =
      ⟨pidIn, length, true, td.deviceAddress, td.endPt, true, BitVec.ofNat 32 dstBuffer⟩ := by
  have control : (ownInTd td dstBuffer length next).control =
    refreshControl td.control (1#32 <<< 7) false := rfl
  have written : (ownInTd td dstBuffer length next).token =
      refreshToken td.token pidIn (BitVec.ofNat 32 (length - 1)) true := by
    rw [ownInTd, if_neg (Nat.ne_of_gt some_data)]
    rfl
  exact packet_of_refreshToken written rfl
    (bytes_of_maxLen some_data small (maxLen_of_refreshToken written))
    (active_of_refreshControl control)

private theorem packet_ownStatusTd (link : BitVec 32) :
    packet (ownStatusTd td isIn link) =
      ⟨directed isIn, 0, true, td.deviceAddress, td.endPt, true, 0⟩ := by
  have control : (ownStatusTd td isIn link).control =
    refreshControl td.control (1#32 <<< 7) true := rfl
  have written : (ownStatusTd td isIn link).token =
    refreshToken td.token (directed isIn) 0x7FF true := rfl
  exact packet_of_refreshToken written (directed_small isIn)
    (bytes_of_status (maxLen_of_refreshToken written)) (active_of_refreshControl control)

private theorem ends_ownStatusTd (link : BitVec 32) : Ends (ownStatusTd td isIn link) := by
  have low : (0xF#32).getLsbD 0 = true := by decide
  change (setBit td.link 0 true &&& 0xF#32 ||| link &&& ~~~0xF#32).getLsbD 0 = true
  rw [BitVec.getLsbD_or, BitVec.getLsbD_and, low, getLsbD_setBit _ _ (by decide), if_pos rfl]
  rfl

/-- The status stage of an over-sized transfer is not the end of the chain. -/
theorem not_ends_statusTd (link : BitVec 32) :
    ¬Ends (statusTd td isIn link deviceAddress endPt) := by
  have low : (0xF#32).getLsbD 0 = true := by decide
  have read : (statusTd td isIn link deviceAddress endPt).link.getLsbD 0 = false := by
    change (setBit td.link 0 false &&& 0xF#32 ||| link &&& ~~~0xF#32).getLsbD 0 = false
    rw [BitVec.getLsbD_or, BitVec.getLsbD_and, BitVec.getLsbD_and, BitVec.getLsbD_not, low,
      getLsbD_setBit _ _ (by decide), if_pos rfl]
    simp
  rw [Ends, read]
  decide

end

/-! ### The over-sized transfers -/

/-- What an over-sized transfer leaves in memory. -/
structure Built (ep after : UhciControlEndpoint) (isIn : Bool)
    (custom request dstBuffer length : Nat) : Prop where
  queueElement : after.queueElement =
    setBit (setQueueElementLinkPointer ep.queueElement (tdAddress custom 0)) 0 false
  setup : ∃ td, after.memory (tdAddress custom 0) =
    (setupTd td request (tdAddress custom 1) (ep.memory ep.transferDescriptors).deviceAddress
      (ep.memory ep.transferDescriptors).endPt).setStatus (1#32 <<< 7)
  data : ∀ i < tdsRequired ep.maximumPacketSize length, ∃ td,
    after.memory (tdAddress custom (i + 1)) = dataTd td isIn
      (min ep.maximumPacketSize (length - i * ep.maximumPacketSize))
      (dstBuffer + i * ep.maximumPacketSize) (tdAddress custom (i + 1 + 1)) (decide (i % 2 = 0))
      (ep.memory ep.transferDescriptors).deviceAddress (ep.memory ep.transferDescriptors).endPt
  status : ∃ link, after.memory (tdAddress custom (tdsRequired ep.maximumPacketSize length + 1)) =
    statusTd (zeroPage ep.memory custom
        (tdAddress custom (tdsRequired ep.maximumPacketSize length + 1))) (!isIn) link
      (ep.memory ep.transferDescriptors).deviceAddress (ep.memory ep.transferDescriptors).endPt

section

variable {ep after : UhciControlEndpoint} {isIn : Bool}
  {custom lowestAddress request dstBuffer length : Nat}

private theorem sendOverSized_built
    (run : ep.sendOverSized isIn custom lowestAddress request dstBuffer length = some after) :
    Built ep after isIn custom request dstBuffer length := by
  unfold sendOverSized at run
  split at run
  next stop => cases run
  next some_bytes =>
    obtain ⟨memory', loop, rfl⟩ := Option.map_eq_some_iff.mp run
    -- the loop leaves the descriptors of the other two stages alone
    have setup := dataTds_frame loop (tdAddress custom 0) fun i _ => tdAddress_ne (by omega)
    have status := dataTds_frame loop
      (tdAddress custom (1 + tdsRequired ep.maximumPacketSize length))
      fun i small => tdAddress_ne (by omega)
    have apart : tdAddress custom 0 ≠
      tdAddress custom (1 + tdsRequired ep.maximumPacketSize length) := tdAddress_ne (by omega)
    refine ⟨rfl, ⟨zeroPage ep.memory custom (tdAddress custom 0), ?_⟩, fun i small => ?_, ?_⟩
    · change Function.update _ _ _ _ = _
      rw [Function.update_self, Function.update_of_ne apart, setup, Function.update_self]
    · have found := dataTds_at loop i small
      have parity : (true ^^ decide (i % 2 = 1)) = decide (i % 2 = 0) := by
        rcases Nat.mod_two_eq_zero_or_one i with even | odd
        · simp [even]
        · simp [odd]
      rw [parity, Nat.add_comm 1 i] at found
      have not_setup : tdAddress custom (i + 1) ≠ tdAddress custom 0 := tdAddress_ne (by omega)
      have not_status : tdAddress custom (i + 1) ≠
        tdAddress custom (1 + tdsRequired ep.maximumPacketSize length) := tdAddress_ne (by omega)
      refine ⟨_, Eq.trans ?_ found⟩
      change Function.update _ _ _ _ = _
      rw [Function.update_of_ne not_setup, Function.update_of_ne not_status]
    · rw [Function.update_of_ne (Ne.symm apart)] at status
      rw [Nat.add_comm _ 1, ← status]
      refine ⟨queueHeadWasCustom ||| ep.transferDescriptorBaseOffset.setWidth 32 <<< 16 |||
        BitVec.ofNat 32 ((custom - lowestAddress) / 0x1000) <<< 8, ?_⟩
      change Function.update _ _ _ _ = _
      rw [Function.update_of_ne (Ne.symm apart), Function.update_self]

/-- An over-sized transfer is built where the division and the sums do not panic. -/
theorem sendOverSized_some_iff (some_data : 0 < length) :
    (∃ after, ep.sendOverSized isIn custom lowestAddress request dstBuffer length = some after) ↔
      0 < ep.maximumPacketSize ∧ dstBuffer + length < 2 ^ 32 := by
  unfold sendOverSized
  split
  next none =>
    constructor
    · rintro ⟨_, nothing⟩
      cases nothing
    · rintro ⟨some_bytes, -⟩
      omega
  next some =>
    have some_bytes : 0 < ep.maximumPacketSize := by omega
    have some_tds : tdsRequired ep.maximumPacketSize length ≠ 0 := by
      intro none
      have covers : length ≤ _ := tdsRequired_covers some_bytes
      rw [none, Nat.zero_mul] at covers
      omega
    constructor
    · rintro ⟨after, run⟩
      obtain ⟨memory', loop, -⟩ := Option.map_eq_some_iff.mp run
      exact ⟨some_bytes, ((dataTds_some_iff some_bytes (tdsRequired_needed some_bytes)
        (tdsRequired_covers some_bytes)).mp ⟨memory', loop⟩).resolve_left some_tds⟩
    · rintro ⟨-, fits⟩
      obtain ⟨memory', loop⟩ := (dataTds_some_iff some_bytes (tdsRequired_needed some_bytes)
        (tdsRequired_covers some_bytes)).mpr (.inr fits)
      exact ⟨_, Option.map_eq_some_iff.mpr ⟨memory', loop, rfl⟩⟩

private theorem tdAddress_aligned (page : 2 ^ 12 ∣ custom) (i : Nat) :
    2 ^ 4 ∣ tdAddress custom i := by
  unfold tdAddress
  omega

theorem Built.link (built : Built ep after isIn custom request dstBuffer length)
    (page : 2 ^ 12 ∣ custom) {i : Nat}
    (before : i ≤ tdsRequired ep.maximumPacketSize length) :
    LinksTo (after.memory (tdAddress custom i)).link (tdAddress custom (i + 1) % 2 ^ 32) := by
  cases i with
  | zero =>
    obtain ⟨td, found⟩ := built.setup
    rw [found]
    exact linksTo_linkNextTd (td.refreshForSetup request) true (tdAddress_aligned page 1)
  | succ i =>
    obtain ⟨td, found⟩ := built.data i before
    rw [found, link_dataTd]
    exact linksTo_linkNextTd td true (tdAddress_aligned page (i + 1 + 1))

/-- The descriptors that are built follow one another, as long as their addresses fit. -/
theorem Built.chained (built : Built ep after isIn custom request dstBuffer length)
    (formed : ep.WellFormed custom) {m : Nat}
    (before : m ≤ tdsRequired ep.maximumPacketSize length + 1)
    (inside : tdAddress custom m < 2 ^ 32) : Chained after (tdAddress custom) m := by
  have small : ∀ i ≤ m, tdAddress custom i < 2 ^ 32 := by
    intro i less
    unfold tdAddress at inside ⊢
    omega
  constructor
  · rw [built.queueElement]
    exact linksTo_setQueueElementLinkPointer formed.descriptor (tdAddress_aligned formed.page 0)
      (small 0 (Nat.zero_le m))
  · intro i less
    have link := built.link formed.page (i := i) (by omega)
    rwa [Nat.mod_eq_of_lt (small (i + 1) less)] at link

private theorem stage_masked (pid : BitVec 32) (bytes : Nat) (toggle : Bool)
    (bufferPointer : BitVec 32) :
    (⟨pid, bytes, toggle, (ep.memory ep.transferDescriptors).deviceAddress &&& 0x7F,
      (ep.memory ep.transferDescriptors).endPt &&& 0xF, true, bufferPointer⟩ : Packet) =
      ep.stage pid bytes toggle bufferPointer := by
  rw [deviceAddress, UhciTransferDescriptor.endPt, getPart_masked, getPart_masked]
  rfl

theorem Built.packetised (built : Built ep after isIn custom request dstBuffer length)
    (formed : ep.WellFormed custom) (fits : ep.Fits dstBuffer length) :
    ep.Packetised after isIn request dstBuffer length custom 256 (tdAddress custom)
      (tdsRequired ep.maximumPacketSize length) := by
  have descriptors := fits.descriptors
  have page_inside := formed.page_inside
  refine ⟨fun i small => ?_, built.chained formed (Nat.le_refl _) ?_, ?_, fun i small => ?_,
    tdsRequired_needed fits.some_bytes, tdsRequired_covers fits.some_bytes, ?_⟩
  · unfold tdAddress
    omega
  · unfold tdAddress
    omega
  · obtain ⟨td, found⟩ := built.setup
    rw [found, packet_setupTd, stage_masked]
  · obtain ⟨td, found⟩ := built.data i small
    have some_left : i * ep.maximumPacketSize < length :=
      tdsRequired_needed fits.some_bytes i small
    have some_bytes := fits.some_bytes
    have bytes := fits.bytes
    rw [found, packet_dataTd (by omega) (by omega), stage_masked]
  · obtain ⟨link, found⟩ := built.status
    have inPage : custom ≤ tdAddress custom (tdsRequired ep.maximumPacketSize length + 1) ∧
        tdAddress custom (tdsRequired ep.maximumPacketSize length + 1) < custom + 0x1000 := by
      unfold tdAddress
      omega
    rw [found, packet_statusTd, stage_masked, zeroPage, if_pos inPage]
    rfl

theorem Built.determined (built : Built ep after isIn custom request dstBuffer length)
    (formed : ep.WellFormed custom) (some_bytes : 0 < ep.maximumPacketSize) {tdAt : Nat → Nat}
    {n : Nat}
    (packetised : ep.Packetised after isIn request dstBuffer length custom 256 tdAt n) :
    n = tdsRequired ep.maximumPacketSize length ∧
      tdsRequired ep.maximumPacketSize length + 2 ≤ 256 ∧
      ∀ i ≤ n + 1, tdAt i = tdAddress custom i := by
  have count : n = tdsRequired ep.maximumPacketSize length := packets_unique packetised.needed
    packetised.covers (tdsRequired_needed some_bytes) (tdsRequired_covers some_bytes)
  have page_inside := formed.page_inside
  have room : tdsRequired ep.maximumPacketSize length + 2 ≤ 256 := by
    apply Nat.le_of_not_lt
    intro more
    -- the last descriptor of the page leads out of it
    have chained := built.chained formed (m := 255) (by omega) (by unfold tdAddress; omega)
    have last : tdAt 255 = tdAddress custom 255 :=
      (packetised.chained.take (by omega)).unique chained 255 (Nat.le_refl _)
    have out : ((after.memory (tdAt 255)).link >>> 4 <<< 4).toNat = tdAt 256 :=
      (packetised.chained.2 255 (by omega)).pointer
    rw [last, (built.link formed.page (i := 255) (by omega)).pointer] at out
    obtain ⟨above, below⟩ := packetised.inside 256 (by omega)
    unfold tdAddress at out
    omega
  refine ⟨count, room, ?_⟩
  have chained := built.chained formed (Nat.le_refl _) (by unfold tdAddress; omega)
  rw [← count] at chained
  exact packetised.chained.unique chained

/-- A data stage with some bytes has a first packet, which fits its field. -/
theorem Packetised.first {tdAt : Nat → Nat} {n base room : Nat}
    (packetised : ep.Packetised after isIn request dstBuffer length base room tdAt n)
    (some_data : 0 < length) :
    0 < ep.maximumPacketSize ∧ min ep.maximumPacketSize length ≤ 0x7FF := by
  have covers := packetised.covers
  have some_packets : 0 < n := by
    apply Nat.pos_of_ne_zero
    intro none
    rw [none, Nat.zero_mul] at covers
    omega
  have some_bytes : 0 < ep.maximumPacketSize := by
    apply Nat.pos_of_ne_zero
    intro none
    rw [none, Nat.mul_zero] at covers
    omega
  have bytes : (after.memory (tdAt 1)).bytes = min ep.maximumPacketSize length := by
    have read := congrArg Packet.bytes (packetised.data 0 some_packets)
    rw [Nat.zero_mul, Nat.sub_zero] at read
    exact read
  exact ⟨some_bytes, bytes ▸ bytes_le _⟩

/-- An over-sized transfer is packetised exactly, but for its end, where everything fits. -/
theorem packetises_iff_fits (formed : ep.WellFormed custom) (some_data : 0 < length) :
    ep.Packetises (ep.sendOverSized isIn custom lowestAddress request dstBuffer length) isIn
      request dstBuffer length custom 256 ↔ ep.Fits dstBuffer length := by
  constructor
  · rintro ⟨after, tdAt, n, run, packetised⟩
    obtain ⟨some_bytes, bytes⟩ := packetised.first some_data
    obtain ⟨-, descriptors, -⟩ :=
      (sendOverSized_built run).determined formed some_bytes packetised
    exact ⟨some_bytes, bytes, descriptors, ((sendOverSized_some_iff some_data).mp ⟨_, run⟩).2⟩
  · intro fits
    obtain ⟨after, run⟩ := (sendOverSized_some_iff some_data).mpr ⟨fits.some_bytes, fits.buffer⟩
    exact ⟨after, _, _, run, (sendOverSized_built run).packetised formed fits⟩

/-- Whatever it is about, the chain of an over-sized transfer goes on behind its status stage. -/
theorem not_carries_overSized (formed : ep.WellFormed custom) (some_data : 0 < length) :
    ¬ep.Carries (ep.sendOverSized isIn custom lowestAddress request dstBuffer length) isIn
      request dstBuffer length custom 256 := by
  rintro ⟨after, tdAt, n, run, packetised, ends⟩
  have built := sendOverSized_built run
  obtain ⟨count, -, found⟩ := built.determined formed (packetised.first some_data).1 packetised
  obtain ⟨link, status⟩ := built.status
  rw [found (n + 1) (Nat.le_refl _), count, status] at ends
  exact not_ends_statusTd link ends

end

/-! ### The transfers of one packet -/

section

variable {ep : UhciControlEndpoint} {custom lowestAddress request dstBuffer length : Nat}

theorem rightSized_memory :
    (ep.sendRightSizedControlRead request dstBuffer length).memory
        (tdAddress ep.transferDescriptors 0) =
      ownSetupTd (ep.memory (tdAddress ep.transferDescriptors 0)) request
        (tdAddress ep.transferDescriptors 1) ∧
    (ep.sendRightSizedControlRead request dstBuffer length).memory
        (tdAddress ep.transferDescriptors 1) =
      ownInTd (ep.memory (tdAddress ep.transferDescriptors 1)) dstBuffer length
        (tdAddress ep.transferDescriptors 2) ∧
    (ep.sendRightSizedControlRead request dstBuffer length).memory
        (tdAddress ep.transferDescriptors 2) =
      ownStatusTd (ep.memory (tdAddress ep.transferDescriptors 2)) false
        (queueHeadWasControl ||| ep.transferDescriptorBaseOffset.setWidth 32 <<< 8) := by
  have setup_in : tdAddress ep.transferDescriptors 0 ≠ tdAddress ep.transferDescriptors 1 :=
    tdAddress_ne (by decide)
  have setup_status : tdAddress ep.transferDescriptors 0 ≠ tdAddress ep.transferDescriptors 2 :=
    tdAddress_ne (by decide)
  have in_status : tdAddress ep.transferDescriptors 1 ≠ tdAddress ep.transferDescriptors 2 :=
    tdAddress_ne (by decide)
  refine ⟨?_, ?_, Function.update_self ..⟩
  · change Function.update (Function.update (Function.update _ _ _) _ _) _ _ _ = _
    rw [Function.update_of_ne setup_status, Function.update_of_ne setup_in, Function.update_self]
  · change Function.update (Function.update _ _ _) _ _ _ = _
    rw [Function.update_of_ne in_status, Function.update_self]

private theorem ends_rightSized :
    Ends ((ep.sendRightSizedControlRead request dstBuffer length).memory
      (tdAddress ep.transferDescriptors 2)) := by
  rw [rightSized_memory.2.2]
  exact ends_ownStatusTd _

private theorem rightSized_chained (formed : ep.WellFormed custom) :
    Chained (ep.sendRightSizedControlRead request dstBuffer length)
      (tdAddress ep.transferDescriptors) 2 := by
  have inside := formed.inside
  have aligned : ∀ i, 2 ^ 4 ∣ tdAddress ep.transferDescriptors i := by
    intro i
    have start := formed.aligned
    unfold tdAddress
    omega
  have small : ∀ i < 3, tdAddress ep.transferDescriptors i % 2 ^ 32 =
      tdAddress ep.transferDescriptors i := by
    intro i less
    unfold tdAddress
    omega
  constructor
  · exact linksTo_setBit formed.descriptor formed.element
  · intro i less
    rcases (by omega : i = 0 ∨ i = 1) with rfl | rfl
    · have link := linksTo_linkNextTd (ep.memory (tdAddress ep.transferDescriptors 0)) true
        (aligned 1)
      rw [small 1 (by decide)] at link
      rw [rightSized_memory.1]
      exact link
    · have link := linksTo_linkNextTd (ep.memory (tdAddress ep.transferDescriptors 1)) true
        (aligned 2)
      rw [small 2 (by decide)] at link
      rw [rightSized_memory.2.1]
      exact link

theorem rightSized_packetised (formed : ep.WellFormed custom) (some_data : 0 < length)
    (one : length ≤ ep.maximumPacketSize) (small : length ≤ 0x7FF) :
    ep.Packetised (ep.sendRightSizedControlRead request dstBuffer length) true request dstBuffer
      length ep.transferDescriptors 4 (tdAddress ep.transferDescriptors) 1 := by
  refine ⟨fun i less => ?_, rightSized_chained formed, ?_, fun i less => ?_, fun i less => ?_,
    ?_, ?_⟩
  · unfold tdAddress
    omega
  · rw [rightSized_memory.1, packet_ownSetupTd, formed.deviceAddress 0 (by decide),
      formed.endPt 0 (by decide)]
    rfl
  · have first : i = 0 := by omega
    subst first
    rw [rightSized_memory.2.1, packet_ownInTd some_data small, formed.deviceAddress 1 (by decide),
      formed.endPt 1 (by decide), Nat.zero_mul, Nat.sub_zero, Nat.min_eq_right one, Nat.add_zero]
    rfl
  · have first : i = 0 := by omega
    rwa [first, Nat.zero_mul]
  · rwa [Nat.one_mul]
  · rw [rightSized_memory.2.2, packet_ownStatusTd, formed.deviceAddress 2 (by decide),
      formed.endPt 2 (by decide)]
    rfl

theorem not_equivalent (formed : ep.WellFormed custom) (some_data : 0 < length)
    (one : length ≤ ep.maximumPacketSize) :
    ¬ep.Equivalent custom lowestAddress request dstBuffer length := by
  rintro ⟨after, run, tdAt, tdAt', chained, chained', same⟩
  have some_bytes : 0 < ep.maximumPacketSize := Nat.lt_of_lt_of_le some_data one
  have count : tdsRequired ep.maximumPacketSize length = 1 := by
    apply packets_unique (tdsRequired_needed some_bytes) (tdsRequired_covers some_bytes)
    · intro i less
      have first : i = 0 := by omega
      rwa [first, Nat.zero_mul]
    · rwa [Nat.one_mul]
  have built := sendOverSized_built run
  have page_inside := formed.page_inside
  -- both chains are the ones that were built, up to their status stages
  have built_chained := built.chained formed (m := 2) (by omega) (by unfold tdAddress; omega)
  obtain ⟨link, status⟩ := built.status
  rw [count] at status
  have ends := (same 2 (Nat.le_refl _)).2
  rw [chained.unique built_chained 2 (Nat.le_refl _),
    chained'.unique (rightSized_chained formed) 2 (Nat.le_refl _), status] at ends
  exact not_ends_statusTd link (ends.mpr ends_rightSized)

theorem reads_iff_one (formed : ep.WellFormed custom) (some_data : 0 < length) :
    ep.Reads custom lowestAddress request dstBuffer length ↔
      length ≤ ep.maximumPacketSize ∧ length ≤ 0x7FF := by
  unfold Reads sendControlRead
  by_cases overSized : length > ep.maximumPacketSize
  · rw [if_pos overSized, if_pos overSized, if_pos overSized]
    constructor
    · exact fun carried => absurd carried (not_carries_overSized formed some_data)
    · exact fun one => absurd overSized (Nat.not_lt.mpr one.1)
  · have one : length ≤ ep.maximumPacketSize := Nat.le_of_not_lt overSized
    rw [if_neg overSized, if_neg overSized, if_neg overSized]
    constructor
    · rintro ⟨after, tdAt, n, -, packetised, -⟩
      have bytes := (packetised.first some_data).2
      rw [Nat.min_eq_right one] at bytes
      exact ⟨one, bytes⟩
    · rintro ⟨-, small⟩
      exact ⟨_, _, 1, rfl, rightSized_packetised formed some_data one small, ends_rightSized⟩

/-- A control read is exact where it is one packet that fits its field. The chain of an over-sized
transfer never ends, and is exact up to its end where everything fits; the chain of one packet
that it builds is not the one that the endpoint has for itself. -/
theorem controlTransfers_iff (formed : ep.WellFormed custom) (some_data : 0 < length) :
    (ep.Reads custom lowestAddress request dstBuffer length ↔
      length ≤ ep.maximumPacketSize ∧ length ≤ 0x7FF) ∧
    ¬ep.Writes custom lowestAddress request dstBuffer length ∧
    (length ≤ ep.maximumPacketSize →
      ¬ep.Equivalent custom lowestAddress request dstBuffer length) ∧
    (ep.Packetises (ep.sendOverSizedControlRead custom lowestAddress request dstBuffer length) true
      request dstBuffer length custom 256 ↔ ep.Fits dstBuffer length) ∧
    (ep.Packetises (ep.sendOverSizedControlWrite custom lowestAddress request dstBuffer length)
      false request dstBuffer length custom 256 ↔ ep.Fits dstBuffer length) :=
  ⟨reads_iff_one formed some_data, not_carries_overSized formed some_data,
    not_equivalent formed some_data, packetises_iff_fits formed some_data,
    packetises_iff_fits formed some_data⟩

end

/-- The default control endpoint, whose packets have eight bytes. -/
def defaultControl : UhciControlEndpoint where
  memory _ := zero
  queueElement := 0x1000
  maximumPacketSize := 8
  transferDescriptors := 0x1000
  transferDescriptorBaseOffset := 0

private theorem defaultControl_wellFormed : defaultControl.WellFormed 0x2000 where
  element := by decide
  descriptor := by decide
  aligned := by decide
  inside := by decide
  page := by decide
  page_inside := by decide
  deviceAddress _ _ := rfl
  endPt _ _ := rfl

/-- Eight bytes are read as one packet. For 18 bytes the three packets are right in either
direction, but the chain of the write does not end. -/
theorem controlTransfers_iff_defaultControl :
    (defaultControl.Reads 0x2000 0x1000 0x3000 0x4000 8 ∧
      ¬defaultControl.Equivalent 0x2000 0x1000 0x3000 0x4000 8) ∧
    ¬defaultControl.Writes 0x2000 0x1000 0x3000 0x4000 18 ∧
    defaultControl.Packetises
      (defaultControl.sendOverSizedControlRead 0x2000 0x1000 0x3000 0x4000 18) true 0x3000 0x4000
      18 0x2000 256 ∧
    defaultControl.Packetises
      (defaultControl.sendOverSizedControlWrite 0x2000 0x1000 0x3000 0x4000 18) false 0x3000
      0x4000 18 0x2000 256 := by
  obtain ⟨reads, _, unequal, _⟩ := @controlTransfers_iff defaultControl 0x2000 0x1000 0x3000
    0x4000 8 defaultControl_wellFormed (by decide)
  obtain ⟨_, unwritten, _, read, written⟩ := @controlTransfers_iff defaultControl 0x2000 0x1000
    0x3000 0x4000 18 defaultControl_wellFormed (by decide)
  have fits : defaultControl.Fits 0x4000 18 := ⟨by decide, by decide, by decide, by decide⟩
  exact ⟨⟨reads.mpr (by decide), unequal (by decide)⟩, unwritten, read.mpr fits,
    written.mpr fits⟩

/-- The 18 bytes of a device descriptor are three packets, and the chain that reads them does not
end. -/
theorem not_reads_deviceDescriptor : ¬defaultControl.Reads 0x2000 0x1000 0x3000 0x4000 18 :=
  fun reads => absurd ((reads_iff_one defaultControl_wellFormed (by decide)).mp reads).1
    (by decide)

end UhciControlEndpoint

end EmkKernel
