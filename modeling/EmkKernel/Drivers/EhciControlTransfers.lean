import Mathlib.Data.Nat.ModEq
import Mathlib.Tactic.IntervalCases
import EmkKernel.Library.WordFields

/-!
# Control transfers of an EHCI endpoint

`EhciEndpoint::control_with_data`: the transfer descriptors of the setup, data and status stages
in the ring of the endpoint, and what a controller reads in them.
-/

namespace EmkKernel

open WordFields

/-- `QueueElementTransferDescriptor`: the link dwords, the token and the five buffer pointers. -/
structure QueueElementTransferDescriptor where
  nextQtd : BitVec 32
  alternateNextQtd : BitVec 32
  token : BitVec 32
  bufferPointers : Nat → BitVec 32

inductive PidCode where
  | outToken
  | inToken
  | setupToken
  deriving DecidableEq, Repr

namespace PidCode

def asEhci : PidCode → BitVec 32
  | outToken => 0
  | inToken => 1
  | setupToken => 2

def inoutFromBool (value : Bool) : PidCode := if value then inToken else outToken

end PidCode

/-- `qTDPointer::set_transfer_element_pointer`. -/
def setTransferElementPointer (dword : BitVec 32) (ptr : Nat) : BitVec 32 :=
  dword &&& ~~~(0x7FFFFFF#32 <<< 5) ||| BitVec.ofNat 32 ptr >>> 5 <<< 5

namespace QueueElementTransferDescriptor

variable (qtd : QueueElementTransferDescriptor)

def reset : QueueElementTransferDescriptor where
  nextQtd := 1
  alternateNextQtd := 1
  token := 0b11#32 <<< 10
  bufferPointers _ := 0

def setNextQtd (ptr : Nat) : QueueElementTransferDescriptor :=
  { qtd with nextQtd := setTransferElementPointer qtd.nextQtd ptr }

def setTerminate (value : Bool) : QueueElementTransferDescriptor :=
  { qtd with nextQtd := setBit qtd.nextQtd 0 value }

def setPidCode (code : PidCode) : QueueElementTransferDescriptor :=
  { qtd with token := qtd.token &&& ~~~(0b11#32 <<< 8) ||| code.asEhci <<< 8 }

def setInterruptOnCompletion (value : Bool) : QueueElementTransferDescriptor :=
  { qtd with token := setBit qtd.token 15 value }

def setTotalBytesToTransfer (bytes : Nat) : QueueElementTransferDescriptor :=
  { qtd with token := setPart qtd.token 0x7FFF 16 (BitVec.ofNat 32 bytes) }

def setDt (value : Bool) : QueueElementTransferDescriptor :=
  { qtd with token := setBit qtd.token 31 value }

def setStatusBit (bit : Nat) : QueueElementTransferDescriptor :=
  { qtd with token := qtd.token ||| 1#32 <<< bit }

def setCurrentOffset (offset : Nat) : QueueElementTransferDescriptor :=
  { qtd with
    bufferPointers := Function.update qtd.bufferPointers 0
      (qtd.bufferPointers 0 >>> 12 <<< 12 ||| BitVec.ofNat 32 offset &&& 0xFFF) }

/-- `set_buffer_pointer0` to `set_buffer_pointer4`. -/
def setBufferPointer (index pointer : Nat) : QueueElementTransferDescriptor :=
  { qtd with
    bufferPointers := Function.update qtd.bufferPointers index
      (qtd.bufferPointers index &&& ~~~(0xFFFFF#32 <<< 12) ||| BitVec.ofNat 32 pointer) }

/-! ### What a controller reads -/

def pid : BitVec 32 := getPart qtd.token 0x3 8

def totalBytes : Nat := (getPart qtd.token 0x7FFF 16).toNat

def dataToggle : Bool := qtd.token.getLsbD 31

def active : Bool := qtd.token.getLsbD 7

def currentOffset : Nat := (qtd.bufferPointers 0 &&& 0xFFF).toNat

def page (index : Nat) : Nat := (qtd.bufferPointers index >>> 12 <<< 12).toNat

/-- The address of a byte of the transfer. -/
def byteAddress (j : Nat) : Nat :=
  qtd.page ((qtd.currentOffset + j) / 0x1000) + (qtd.currentOffset + j) % 0x1000

end QueueElementTransferDescriptor

/-- The dwords of the overlay of a queue head that start a chain. -/
structure QueueHeadOverlay where
  nextQtd : BitVec 32
  token : BitVec 32

/-- `EhciEndpoint` without its queue head, with its ring and the overlay that is given to it.
Memory is read descriptor by descriptor. -/
structure EhciControlPipe where
  memory : Nat → QueueElementTransferDescriptor
  overlay : QueueHeadOverlay
  maximumQtds : Nat
  qtdBase : Nat
  setupQtdIndex : Nat

inductive EhciTransferStop where
  | maximumQtdsExceeded
  | panic
  deriving DecidableEq, Repr

namespace EhciControlPipe

open QueueElementTransferDescriptor

variable (pipe : EhciControlPipe)

def getSetupQtd : Nat := pipe.qtdBase + pipe.setupQtdIndex * 32

def getAfterSetup (index : Nat) : Nat :=
  pipe.qtdBase + (pipe.setupQtdIndex + index) % pipe.maximumQtds * 32

def advanceSetupQtd (chainedQtds : Nat) : EhciControlPipe :=
  { pipe with setupQtdIndex := (pipe.setupQtdIndex + chainedQtds + 1) % pipe.maximumQtds }

def dataQtdsNeeded (length : Nat) : Nat := length / 0x5000 + if length % 0x5000 ≠ 0 then 1 else 0

/-- A descriptor with the offset and the five pages from an address on. -/
def dataPages (start : Nat) : QueueElementTransferDescriptor :=
  let aligned := start / 0x1000 * 0x1000
  reset
    |>.setCurrentOffset (start % 0x1000)
    |>.setBufferPointer 0 aligned
    |>.setBufferPointer 1 (aligned + 0x1000)
    |>.setBufferPointer 2 (aligned + 0x2000)
    |>.setBufferPointer 3 (aligned + 0x3000)
    |>.setBufferPointer 4 (aligned + 0x4000)

/-- A descriptor of the data stage. -/
def dataQtd (start bytes next : Nat) (dataIn : Bool) : QueueElementTransferDescriptor :=
  dataPages start
    |>.setPidCode (.inoutFromBool dataIn)
    |>.setTotalBytesToTransfer bytes
    |>.setNextQtd next
    |>.setStatusBit 7
    |>.setTerminate false
    |>.setDt true

/-- The loop over the data stage; the sums are in `u32`. -/
def dataStage (dataIn : Bool) : Nat → Nat → Nat → Nat →
    (Nat → QueueElementTransferDescriptor) → Option (Nat → QueueElementTransferDescriptor)
  | 0, _, _, _, memory => some memory
  | n + 1, d, currentBasePtr, ptrLength, memory =>
    let next := currentBasePtr / 0x1000 * 0x1000 + 0x4000
    if 2 ^ 32 ≤ next then none
    else
      let transferLength := (next - currentBasePtr) % 2 ^ 16
      let bytes := if transferLength > ptrLength then ptrLength else transferLength
      dataStage dataIn n (d + 1) next (ptrLength - bytes)
        (Function.update memory (pipe.getAfterSetup (d + 1))
          (dataQtd currentBasePtr bytes (pipe.getAfterSetup (d + 2)) dataIn))

def setupQtd (setupAddress next : Nat) : QueueElementTransferDescriptor :=
  reset
    |>.setTotalBytesToTransfer 8
    |>.setCurrentOffset (setupAddress % 0x1000)
    |>.setBufferPointer 0 (setupAddress / 0x1000 * 0x1000)
    |>.setPidCode .setupToken
    |>.setNextQtd next
    |>.setStatusBit 7
    |>.setTerminate false

def statusQtd (dataIn : Bool) : QueueElementTransferDescriptor :=
  reset
    |>.setInterruptOnCompletion true
    |>.setPidCode (.inoutFromBool !dataIn)
    |>.setStatusBit 7
    |>.setTerminate true
    |>.setDt true

/-- `control_with_data` up to the queue of queue heads. -/
def controlWithData (setupAddress basePtr ptrLength : Nat) (dataIn : Bool) :
    Except EhciTransferStop EhciControlPipe :=
  let needed := dataQtdsNeeded ptrLength
  if needed + 2 > pipe.maximumQtds then .error .maximumQtdsExceeded
  else
    match pipe.dataStage dataIn needed 0 basePtr ptrLength pipe.memory with
    | none => .error .panic
    | some memory =>
      let memory := Function.update memory pipe.getSetupQtd
        (setupQtd setupAddress (pipe.getAfterSetup 1))
      let memory := Function.update memory (pipe.getAfterSetup (needed + 1)) (statusQtd dataIn)
      let overlay : QueueHeadOverlay :=
        ⟨setBit (setTransferElementPointer pipe.overlay.nextQtd pipe.getSetupQtd) 0 false,
          pipe.overlay.token &&& ~~~(1#32 <<< 7)⟩
      .ok ({ pipe with memory, overlay }.advanceSetupQtd (1 + needed))

/-! ### What the stages are to be -/

/-- A valid pointer to a descriptor. -/
structure PointsTo (dword : BitVec 32) (address : Nat) : Prop where
  valid : dword.getLsbD 0 = false
  pointer : (dword >>> 5 <<< 5).toNat = address

/-- From a pointer on, the controller takes the descriptors at these addresses and no more. -/
def Chain (memory : Nat → QueueElementTransferDescriptor) : BitVec 32 → List Nat → Prop
  | dword, [] => dword.getLsbD 0 = true
  | dword, address :: rest => PointsTo dword address ∧ Chain memory (memory address).nextQtd rest

/-- A descriptor is about the bytes from an address on, and they are on its five pages. -/
structure Describes (qtd : QueueElementTransferDescriptor) (address : Nat) : Prop where
  fits : qtd.currentOffset + qtd.totalBytes ≤ 5 * 0x1000
  bytes : ∀ j < qtd.totalBytes, qtd.byteAddress j = address + j

/-- The descriptors are about one part of the buffer after the other. -/
def Covers : List QueueElementTransferDescriptor → Nat → Nat → Prop
  | [], start, stop => start = stop
  | qtd :: rest, start, stop => Describes qtd start ∧ Covers rest (start + qtd.totalBytes) stop

def packets (maximumPacketSize bytes : Nat) : Nat :=
  (bytes + maximumPacketSize - 1) / maximumPacketSize

/-- Every descriptor starts with the toggle after the packets that were sent. -/
def Toggles (maximumPacketSize : Nat) : Nat → List QueueElementTransferDescriptor → Prop
  | _, [] => True
  | sent, qtd :: rest => qtd.dataToggle = decide (sent % 2 = 0) ∧
    Toggles maximumPacketSize (sent + packets maximumPacketSize qtd.totalBytes) rest

/-- A control transfer, with the addresses of its descriptors. -/
structure Transfers (pipe : EhciControlPipe) (maximumPacketSize basePtr length : Nat)
    (dataIn : Bool) (setup : Nat) (data : List Nat) (status : Nat) : Prop where
  idle : pipe.overlay.token.getLsbD 7 = false
  chain : Chain pipe.memory pipe.overlay.nextQtd (setup :: data ++ [status])
  active : ∀ a ∈ setup :: data ++ [status], (pipe.memory a).active = true
  setup : (pipe.memory setup).pid = PidCode.setupToken.asEhci ∧
    (pipe.memory setup).totalBytes = 8 ∧ (pipe.memory setup).dataToggle = false
  direction : ∀ a ∈ data, (pipe.memory a).pid = (PidCode.inoutFromBool dataIn).asEhci
  covers : Covers (data.map pipe.memory) basePtr (basePtr + length)
  toggles : Toggles maximumPacketSize 0 (data.map pipe.memory)
  status : (pipe.memory status).pid = (PidCode.inoutFromBool !dataIn).asEhci ∧
    (pipe.memory status).totalBytes = 0 ∧ (pipe.memory status).dataToggle = true

/-- The transfer that is asked for is given to the controller. -/
def Carries (pipe : EhciControlPipe) (maximumPacketSize setupAddress basePtr length : Nat)
    (dataIn : Bool) : Prop :=
  ∃ pipe' setup data status,
    pipe.controlWithData setupAddress basePtr length dataIn = .ok pipe' ∧
    Transfers pipe' maximumPacketSize basePtr length dataIn setup data status

/-- The ring lies in 32-bit memory and has the sizes that the driver uses. -/
structure WellFormed (pipe : EhciControlPipe) : Prop where
  index : pipe.setupQtdIndex < pipe.maximumQtds
  aligned : 2 ^ 5 ∣ pipe.qtdBase
  inside : pipe.qtdBase + pipe.maximumQtds * 32 ≤ 2 ^ 32
  size : pipe.maximumQtds ≤ 256

/-! ### The words of the descriptors -/

private theorem asEhci_masked (code : PidCode) : code.asEhci &&& 0x3 = code.asEhci := by
  cases code <;> rfl

private theorem token_setPidCode (qtd : QueueElementTransferDescriptor) (code : PidCode) :
    (qtd.setPidCode code).token = setPart qtd.token 0x3 8 code.asEhci := by
  rw [setPart, asEhci_masked]
  rfl

private theorem token_setStatusBit (qtd : QueueElementTransferDescriptor) (bit : Nat) :
    (qtd.setStatusBit bit).token = setBit qtd.token bit true := or_one_shift _ _

private theorem token_dataQtd (start bytes next : Nat) (dataIn : Bool) :
    (dataQtd start bytes next dataIn).token =
      setBit (setBit (setPart (setPart reset.token 0x3 8 (PidCode.inoutFromBool dataIn).asEhci)
        0x7FFF 16 (BitVec.ofNat 32 bytes)) 7 true) 31 true := by
  rw [← token_setPidCode]
  exact congrArg (setBit · 31 true) (token_setStatusBit _ _)

private theorem and_mask_toNat {value bits : Nat} (small : value < 2 ^ bits) (inside : bits ≤ 32)
    {mask : BitVec 32} (masked : mask.toNat = 2 ^ bits - 1) :
    (BitVec.ofNat 32 value &&& mask).toNat = value := by
  have word : value < 2 ^ 32 := Nat.lt_of_lt_of_le small (Nat.pow_le_pow_right (by decide) inside)
  rw [BitVec.toNat_and, masked, BitVec.toNat_ofNat, Nat.mod_eq_of_lt word,
    Nat.and_two_pow_sub_one_eq_mod, Nat.mod_eq_of_lt small]

section

variable (start next : Nat) (dataIn : Bool) {bytes : Nat}

private theorem pid_dataQtd : (dataQtd start bytes next dataIn).pid =
    (PidCode.inoutFromBool dataIn).asEhci := by
  rw [pid, token_dataQtd, getPart_setBit _ _ (by decide), getPart_setBit _ _ (by decide),
    getPart_setPart_other _ _ (by decide), getPart_setPart _ _ (by decide), asEhci_masked]

private theorem totalBytes_dataQtd (small : bytes < 2 ^ 15) :
    (dataQtd start bytes next dataIn).totalBytes = bytes := by
  rw [totalBytes, token_dataQtd, getPart_setBit _ _ (by decide), getPart_setBit _ _ (by decide),
    getPart_setPart _ _ (by decide)]
  exact and_mask_toNat small (by decide) rfl

private theorem dataToggle_dataQtd : (dataQtd start bytes next dataIn).dataToggle = true := by
  rw [dataToggle, token_dataQtd, getLsbD_setBit _ _ (by decide), if_pos rfl]

private theorem active_dataQtd : (dataQtd start bytes next dataIn).active = true := by
  rw [active, token_dataQtd, getLsbD_setBit _ _ (by decide), if_neg (by decide),
    getLsbD_setBit _ _ (by decide), if_pos rfl]

end

/-! ### The pointers -/

private theorem getLsbD_setTransferElementPointer (dword : BitVec 32) (ptr : Nat) {i : Nat}
    (small : i < 32) : (setTransferElementPointer dword ptr).getLsbD i =
      if 5 ≤ i then (BitVec.ofNat 32 ptr).getLsbD i else dword.getLsbD i := by
  have mask : ∀ n < 32, (0x7FFFFFF#32 <<< 5).getLsbD n = decide (5 ≤ n) := by decide
  rw [setTransferElementPointer, BitVec.getLsbD_or, BitVec.getLsbD_and, BitVec.getLsbD_not,
    mask i small, getLsbD_shift_back _ _ small, decide_eq_true small]
  split
  next high => simp [high]
  next low => simp [low]

private theorem pointsTo_set {address : Nat} (aligned : 2 ^ 5 ∣ address) (inside : address < 2 ^ 32)
    (dword : BitVec 32) :
    PointsTo (setBit (setTransferElementPointer dword address) 0 false) address := by
  constructor
  · rw [getLsbD_setBit _ _ (by decide), if_pos rfl]
  · rw [shift_pointer_eq aligned, Nat.mod_eq_of_lt inside]
    intro i small high
    rw [getLsbD_setBit _ _ small, if_neg (by omega), getLsbD_setTransferElementPointer _ _ small,
      if_pos high]

private theorem getLsbD_page (word : BitVec 32) (pointer : Nat) {i : Nat} (small : i < 32) :
    (word &&& ~~~(0xFFFFF#32 <<< 12) ||| BitVec.ofNat 32 pointer).getLsbD i =
      if 12 ≤ i then (BitVec.ofNat 32 pointer).getLsbD i
      else word.getLsbD i || (BitVec.ofNat 32 pointer).getLsbD i := by
  have mask : ∀ n < 32, (0xFFFFF#32 <<< 12).getLsbD n = decide (12 ≤ n) := by decide
  rw [BitVec.getLsbD_or, BitVec.getLsbD_and, BitVec.getLsbD_not, mask i small,
    decide_eq_true small]
  split
  next high => simp [high]
  next low => simp [low]

private theorem page_setBufferPointer {pointer : Nat} (aligned : 2 ^ 12 ∣ pointer)
    (inside : pointer < 2 ^ 32) (word : BitVec 32) :
    ((word &&& ~~~(0xFFFFF#32 <<< 12) ||| BitVec.ofNat 32 pointer) >>> 12 <<< 12).toNat =
      pointer := by
  rw [shift_pointer_eq aligned, Nat.mod_eq_of_lt inside]
  intro i small high
  rw [getLsbD_page _ _ small, if_pos high]

private theorem offset_setBufferPointer {pointer : Nat} (aligned : 2 ^ 12 ∣ pointer)
    (word : BitVec 32) :
    (word &&& ~~~(0xFFFFF#32 <<< 12) ||| BitVec.ofNat 32 pointer) &&& 0xFFF = word &&& 0xFFF := by
  have mask : ∀ n < 32, (0xFFF : BitVec 32).getLsbD n = decide (n < 12) := by decide
  apply BitVec.eq_of_getLsbD_eq
  intro i small
  rw [BitVec.getLsbD_and, BitVec.getLsbD_and, mask i small]
  by_cases low : i < 12
  · rw [getLsbD_page _ _ small, if_neg (by omega), getLsbD_aligned aligned low, Bool.or_false]
  · rw [decide_eq_false low, Bool.and_false, Bool.and_false]

private theorem bufferPointers_setBufferPointer (qtd : QueueElementTransferDescriptor)
    (index pointer k : Nat) : (qtd.setBufferPointer index pointer).bufferPointers k =
      if k = index then
        qtd.bufferPointers index &&& ~~~(0xFFFFF#32 <<< 12) ||| BitVec.ofNat 32 pointer
      else qtd.bufferPointers k := Function.update_apply ..

section

variable (bytes next : Nat) (dataIn : Bool) {start : Nat}

private theorem bufferPointers_dataQtd :
    (dataQtd start bytes next dataIn).bufferPointers = (dataPages start).bufferPointers := rfl

private theorem currentOffset_dataQtd :
    (dataQtd start bytes next dataIn).currentOffset = start % 0x1000 := by
  have aligned : 2 ^ 12 ∣ start / 0x1000 * 0x1000 := Nat.dvd_mul_left ..
  have small : start % 0x1000 < 2 ^ 12 := Nat.mod_lt _ (by decide)
  rw [currentOffset, bufferPointers_dataQtd, dataPages]
  iterate 4 rw [bufferPointers_setBufferPointer, if_neg (by decide)]
  rw [bufferPointers_setBufferPointer, if_pos rfl, offset_setBufferPointer aligned,
    setCurrentOffset]
  dsimp only
  rw [Function.update_self]
  have word : reset.bufferPointers 0 >>> 12 <<< 12 ||| BitVec.ofNat 32 (start % 0x1000) &&& 0xFFF =
      BitVec.ofNat 32 (start % 0x1000) &&& 0xFFF := BitVec.zero_or ..
  rw [word, BitVec.and_assoc, BitVec.and_self]
  exact and_mask_toNat small (by decide) rfl

private theorem page_dataQtd {index : Nat} (small : index < 5)
    (inside : start / 0x1000 * 0x1000 + 0x4000 < 2 ^ 32) :
    (dataQtd start bytes next dataIn).page index =
      start / 0x1000 * 0x1000 + index * 0x1000 := by
  have aligned : 2 ^ 12 ∣ start / 0x1000 * 0x1000 + index * 0x1000 :=
    Nat.dvd_add (Nat.dvd_mul_left ..) (Nat.dvd_mul_left ..)
  have fits : start / 0x1000 * 0x1000 + index * 0x1000 < 2 ^ 32 := by omega
  have word := page_setBufferPointer aligned fits
  rw [page, bufferPointers_dataQtd, dataPages]
  simp only [bufferPointers_setBufferPointer]
  interval_cases index
  all_goals
    simp only [Nat.reduceMul, Nat.add_zero, Nat.reduceEqDiff, OfNat.ofNat_ne_zero, if_true,
      if_false] at word ⊢
    apply word

variable {bytes} in
theorem describes_dataQtd (short : bytes ≤ start / 0x1000 * 0x1000 + 0x4000 - start)
    (inside : start / 0x1000 * 0x1000 + 0x4000 < 2 ^ 32) :
    Describes (dataQtd start bytes next dataIn) start := by
  have offset : (dataQtd start bytes next dataIn).currentOffset = start % 0x1000 :=
    currentOffset_dataQtd bytes next dataIn
  have total : (dataQtd start bytes next dataIn).totalBytes = bytes :=
    totalBytes_dataQtd start next dataIn (by omega)
  constructor
  · rw [offset, total]
    omega
  · intro j less
    rw [total] at less
    rw [byteAddress, offset, page_dataQtd bytes next dataIn (by omega) inside]
    omega

end

/-! ### The ring -/

variable {pipe : EhciControlPipe}

theorem WellFormed.setup (formed : pipe.WellFormed) : pipe.getSetupQtd = pipe.getAfterSetup 0 := by
  rw [getSetupQtd, getAfterSetup, Nat.add_zero, Nat.mod_eq_of_lt formed.index]

private theorem getAfterSetup_inj {i j : Nat} (i_less : i < pipe.maximumQtds)
    (j_less : j < pipe.maximumQtds)
    (same : pipe.getAfterSetup i = pipe.getAfterSetup j) : i = j := by
  rw [getAfterSetup, getAfterSetup] at same
  have slots : (pipe.setupQtdIndex + i) % pipe.maximumQtds =
      (pipe.setupQtdIndex + j) % pipe.maximumQtds := by omega
  have indices := Nat.ModEq.add_left_cancel' pipe.setupQtdIndex slots
  rwa [Nat.ModEq, Nat.mod_eq_of_lt i_less, Nat.mod_eq_of_lt j_less] at indices

theorem WellFormed.slot (formed : pipe.WellFormed) (i : Nat) :
    2 ^ 5 ∣ pipe.getAfterSetup i ∧ pipe.getAfterSetup i < 2 ^ 32 := by
  have index := formed.index
  have inside := formed.inside
  have less := Nat.mod_lt (pipe.setupQtdIndex + i) (Nat.zero_lt_of_lt index)
  refine ⟨Nat.dvd_add formed.aligned (Nat.dvd_mul_left ..), ?_⟩
  rw [getAfterSetup]
  omega

/-! ### The data stage -/

/-- The descriptors of the data stage, in order. -/
def dataQtds (pipe : EhciControlPipe) (dataIn : Bool) :
    Nat → Nat → Nat → Nat → List QueueElementTransferDescriptor
  | 0, _, _, _ => []
  | n + 1, d, start, length =>
    let next := start / 0x1000 * 0x1000 + 0x4000
    dataQtd start (min length (next - start)) (pipe.getAfterSetup (d + 2)) dataIn ::
      dataQtds pipe dataIn n (d + 1) next (length - min length (next - start))

theorem next_aligned (start : Nat) :
    (start / 0x1000 * 0x1000 + 0x4000) / 0x1000 * 0x1000 = start / 0x1000 * 0x1000 + 0x4000 := by
  generalize start / 0x1000 = page
  omega

private theorem page_step (page n : Nat) :
    page + 0x4000 + n * 0x4000 = page + (n + 1) * 0x4000 := by
  omega

private theorem dataStage_none {dataIn : Bool} {n d start length : Nat}
    {memory : Nat → QueueElementTransferDescriptor} (some_qtds : 0 < n)
    (outside : 2 ^ 32 ≤ start / 0x1000 * 0x1000 + n * 0x4000) :
    pipe.dataStage dataIn n d start length memory = none := by
  induction n generalizing d start length memory with
  | zero => cases some_qtds
  | succ n ih =>
    rw [dataStage]
    dsimp only
    split
    · rfl
    next inside =>
      have further : 0 < n := by
        apply Nat.pos_of_ne_zero
        rintro rfl
        omega
      apply ih further
      rwa [next_aligned, page_step]

/-- The memory after the loop. -/
structure DataWritten (pipe : EhciControlPipe) (dataIn : Bool) (n d start length : Nat)
    (memory memory' : Nat → QueueElementTransferDescriptor) : Prop where
  written : (List.range' (d + 1) n).map (fun i => memory' (pipe.getAfterSetup i)) =
    pipe.dataQtds dataIn n d start length
  linked : ∀ i, d < i → i ≤ d + n → ∃ start bytes, memory' (pipe.getAfterSetup i) =
    dataQtd start bytes (pipe.getAfterSetup (i + 1)) dataIn
  kept : ∀ a, (∀ i, d < i → i ≤ d + n → a ≠ pipe.getAfterSetup i) → memory' a = memory a

private theorem dataStage_some {dataIn : Bool} {n d start length : Nat}
    {memory : Nat → QueueElementTransferDescriptor} (room : d + n < pipe.maximumQtds)
    (inside : n = 0 ∨ start / 0x1000 * 0x1000 + n * 0x4000 < 2 ^ 32) :
    ∃ memory', pipe.dataStage dataIn n d start length memory = some memory' ∧
      DataWritten pipe dataIn n d start length memory memory' := by
  induction n generalizing d start length memory with
  | zero => exact ⟨memory, rfl, rfl, fun i _ _ => by omega, fun _ _ => rfl⟩
  | succ n ih =>
    have below : ¬2 ^ 32 ≤ start / 0x1000 * 0x1000 + 0x4000 := by omega
    have whole : (start / 0x1000 * 0x1000 + 0x4000 - start) % 2 ^ 16 =
        start / 0x1000 * 0x1000 + 0x4000 - start := by omega
    have taken : (if start / 0x1000 * 0x1000 + 0x4000 - start > length then length
        else start / 0x1000 * 0x1000 + 0x4000 - start) =
        min length (start / 0x1000 * 0x1000 + 0x4000 - start) := by
      split <;> omega
    have left : n = 0 ∨ (start / 0x1000 * 0x1000 + 0x4000) / 0x1000 * 0x1000 + n * 0x4000 <
        2 ^ 32 := by
      rw [next_aligned]
      omega
    obtain ⟨memory', ran, done⟩ := @ih (d + 1) (start / 0x1000 * 0x1000 + 0x4000)
      (length - min length (start / 0x1000 * 0x1000 + 0x4000 - start))
      (Function.update memory (pipe.getAfterSetup (d + 1)) (dataQtd start
        (min length (start / 0x1000 * 0x1000 + 0x4000 - start)) (pipe.getAfterSetup (d + 2))
        dataIn)) (by omega) left
    -- the later rounds are in other slots
    have here : memory' (pipe.getAfterSetup (d + 1)) = dataQtd start
        (min length (start / 0x1000 * 0x1000 + 0x4000 - start)) (pipe.getAfterSetup (d + 2))
        dataIn := by
      rw [done.kept, Function.update_self]
      intro i behind before same
      have equal := getAfterSetup_inj (by omega) (by omega) same
      omega
    refine ⟨memory', ?_, ?_, fun i behind before => ?_, fun a outside => ?_⟩
    · rw [dataStage, if_neg below, whole]
      dsimp only
      rw [taken]
      exact ran
    · rw [dataQtds, List.range'_succ, List.map_cons, here, done.written]
    · by_cases first : i = d + 1
      · subst first
        exact ⟨_, _, here⟩
      · exact done.linked i (by omega) (by omega)
    · rw [done.kept a fun i behind before => outside i (by omega) (by omega)]
      apply Function.update_of_ne
      exact outside (d + 1) (by omega) (by omega)

/-- The bytes that a number of descriptors from an address on can hold. -/
def capacity (n start : Nat) : Nat := start / 0x1000 * 0x1000 + n * 0x4000 - start

/-- The descriptors before the last one are full. -/
def Full (n start length : Nat) : Prop :=
  start / 0x1000 * 0x1000 + n * 0x4000 ≤ start + length + 0x4000

theorem Full.step {n start length : Nat} (full : Full (n + 1) start length) (more : n ≠ 0) :
    start / 0x1000 * 0x1000 + 0x4000 ≤ start + length ∧
      Full n (start / 0x1000 * 0x1000 + 0x4000)
        (length - (start / 0x1000 * 0x1000 + 0x4000 - start)) := by
  have page_le : start / 0x1000 * 0x1000 ≤ start := by omega
  have page_near : start < start / 0x1000 * 0x1000 + 0x1000 := by omega
  have some_more : 1 ≤ n := Nat.pos_of_ne_zero more
  rw [Full] at full ⊢
  rw [next_aligned, page_step]
  obtain ⟨page, page_eq⟩ : ∃ page, start / 0x1000 * 0x1000 = page := ⟨_, rfl⟩
  rw [page_eq] at full page_le page_near ⊢
  omega

private theorem covers_dataQtds {dataIn : Bool} {n d start length stop : Nat} (some_qtds : 0 < n)
    (inside : start / 0x1000 * 0x1000 + n * 0x4000 < 2 ^ 32) (full : Full n start length) :
    Covers (pipe.dataQtds dataIn n d start length) start stop ↔
      stop = start + min length (capacity n start) := by
  induction n generalizing d start length with
  | zero => cases some_qtds
  | succ n ih =>
    have fits : start / 0x1000 * 0x1000 + 0x4000 < 2 ^ 32 := by omega
    have page_le : start / 0x1000 * 0x1000 ≤ start := by omega
    have page_near : start < start / 0x1000 * 0x1000 + 0x1000 := by omega
    have total := @totalBytes_dataQtd start (pipe.getAfterSetup (d + 2)) dataIn
      (min length (start / 0x1000 * 0x1000 + 0x4000 - start)) (by omega)
    have describes := @describes_dataQtd
      (min length (start / 0x1000 * 0x1000 + 0x4000 - start)) (pipe.getAfterSetup (d + 2)) dataIn
      start (Nat.min_le_right ..) fits
    rw [dataQtds, Covers, total]
    by_cases last : n = 0
    · subst last
      rw [dataQtds, Covers, capacity]
      constructor
      · rintro ⟨_, ends⟩
        omega
      · exact fun ends => ⟨describes, by omega⟩
    · -- this descriptor holds all up to its last page, where the next one starts
      obtain ⟨first, left⟩ := full.step last
      have whole : min length (start / 0x1000 * 0x1000 + 0x4000 - start) =
          start / 0x1000 * 0x1000 + 0x4000 - start := Nat.min_eq_right (by omega)
      have next : start + (start / 0x1000 * 0x1000 + 0x4000 - start) =
          start / 0x1000 * 0x1000 + 0x4000 := by omega
      rw [← page_step, ← next_aligned] at inside
      have behind := @ih (d + 1) _ _ (Nat.pos_of_ne_zero last) inside left
      rw [whole] at describes ⊢
      rw [next, behind, capacity, capacity, next_aligned, page_step]
      constructor
      · rintro ⟨_, ends⟩
        omega
      · exact fun ends => ⟨describes, by omega⟩

private theorem toggles_dataQtds {dataIn : Bool} {mps n d sent start length : Nat}
    (some_qtds : 0 < n) (page : start % 0x1000 = 0) (full : Full n start length) :
    Toggles mps sent (pipe.dataQtds dataIn n d start length) ↔
      sent % 2 = 0 ∧ (2 ≤ n → packets mps 0x4000 % 2 = 0) := by
  induction n generalizing d sent start length with
  | zero => cases some_qtds
  | succ n ih =>
    have at_page : start / 0x1000 * 0x1000 = start := by omega
    rw [dataQtds, Toggles, dataToggle_dataQtd, at_page, Nat.add_sub_cancel_left, eq_comm,
      decide_eq_true_iff]
    apply and_congr_right
    intro even
    by_cases last : n = 0
    · subst last
      exact ⟨fun _ two => absurd two (by decide), fun _ => trivial⟩
    · obtain ⟨first, left⟩ := full.step last
      rw [at_page] at first
      rw [at_page, Nat.add_sub_cancel_left] at left
      have whole : min length 0x4000 = 0x4000 := Nat.min_eq_right (by omega)
      rw [whole, totalBytes_dataQtd _ _ _ (by decide),
        ih (Nat.pos_of_ne_zero last) (by omega) left]
      constructor
      · intro both _
        omega
      · intro rest
        have p_even := rest (by omega)
        exact ⟨by omega, fun _ => p_even⟩

/-! ### The chain -/

private theorem chain_unique {memory : Nat → QueueElementTransferDescriptor} {dword : BitVec 32}
    {first second : List Nat} (left : Chain memory dword first)
    (right : Chain memory dword second) : first = second := by
  induction first generalizing dword second with
  | nil =>
    cases second with
    | nil => rfl
    | cons b rest =>
      have valid := right.1.valid
      rw [Chain] at left
      rw [left] at valid
      cases valid
  | cons a rest ih =>
    cases second with
    | nil =>
      have valid := left.1.valid
      rw [Chain] at right
      rw [right] at valid
      cases valid
    | cons b rest' =>
      obtain rfl := left.1.pointer.symm.trans right.1.pointer
      rw [ih left.2 right.2]

private theorem chain_slots {memory : Nat → QueueElementTransferDescriptor} {dword : BitVec 32}
    {k n : Nat} (start : PointsTo dword (pipe.getAfterSetup k))
    (links : ∀ i, k ≤ i → i < k + n →
      PointsTo (memory (pipe.getAfterSetup i)).nextQtd (pipe.getAfterSetup (i + 1)))
    (ends : (memory (pipe.getAfterSetup (k + n))).nextQtd.getLsbD 0 = true) :
    Chain memory dword
      ((List.range' k n).map pipe.getAfterSetup ++ [pipe.getAfterSetup (k + n)]) := by
  induction n generalizing k dword with
  | zero => exact ⟨start, ends⟩
  | succ n ih =>
    rw [List.range'_succ]
    refine ⟨start, ?_⟩
    have further : k + (n + 1) = k + 1 + n := by omega
    rw [further] at ends ⊢
    exact ih (links k (Nat.le_refl k) (by omega))
      (fun i behind before => links i (by omega) (by omega)) ends

private theorem setupQtd_fields (setupAddress next : Nat) :
    (setupQtd setupAddress next).pid = PidCode.setupToken.asEhci ∧
    (setupQtd setupAddress next).totalBytes = 8 ∧
    (setupQtd setupAddress next).dataToggle = false ∧
    (setupQtd setupAddress next).active = true := by
  have token : (setupQtd setupAddress next).token = (setupQtd 0 0).token := rfl
  rw [pid, totalBytes, dataToggle, active, token]
  decide

private theorem statusQtd_fields (dataIn : Bool) :
    (statusQtd dataIn).pid = (PidCode.inoutFromBool !dataIn).asEhci ∧
    (statusQtd dataIn).totalBytes = 0 ∧ (statusQtd dataIn).dataToggle = true ∧
    (statusQtd dataIn).active = true ∧ (statusQtd dataIn).nextQtd.getLsbD 0 = true := by
  cases dataIn <;> decide

/-! ### The whole transfer -/

/-- The part of the buffer that the count of descriptors leaves to each of them, and the packets
in these parts. -/
structure Fits (maximumPacketSize basePtr length : Nat) : Prop where
  holds : basePtr % 0x1000 + length ≤ dataQtdsNeeded length * 0x4000
  inU32 : basePtr / 0x1000 * 0x1000 + dataQtdsNeeded length * 0x4000 < 2 ^ 32
  first : 2 ≤ dataQtdsNeeded length →
    packets maximumPacketSize (0x4000 - basePtr % 0x1000) % 2 = 0
  further : 3 ≤ dataQtdsNeeded length → packets maximumPacketSize 0x4000 % 2 = 0

variable {maximumPacketSize setupAddress basePtr length : Nat} {dataIn : Bool}
  {memory' : Nat → QueueElementTransferDescriptor}

/-- The pipe after a data stage with its memory. -/
def finished (pipe : EhciControlPipe) (setupAddress needed : Nat) (dataIn : Bool)
    (memory : Nat → QueueElementTransferDescriptor) : EhciControlPipe :=
  { pipe with
    memory := Function.update (Function.update memory pipe.getSetupQtd
      (setupQtd setupAddress (pipe.getAfterSetup 1))) (pipe.getAfterSetup (needed + 1))
      (statusQtd dataIn)
    overlay := ⟨setBit (setTransferElementPointer pipe.overlay.nextQtd pipe.getSetupQtd) 0 false,
      pipe.overlay.token &&& ~~~(1#32 <<< 7)⟩ }.advanceSetupQtd (1 + needed)

private theorem controlWithData_ok (accepted : dataQtdsNeeded length + 2 ≤ pipe.maximumQtds)
    (ran : pipe.dataStage dataIn (dataQtdsNeeded length) 0 basePtr length pipe.memory =
      some memory') :
    pipe.controlWithData setupAddress basePtr length dataIn =
      .ok (pipe.finished setupAddress (dataQtdsNeeded length) dataIn memory') := by
  rw [controlWithData]
  dsimp only
  rw [if_neg (Nat.not_lt.mpr accepted), ran]
  rfl

private theorem controlWithData_panic (accepted : dataQtdsNeeded length + 2 ≤ pipe.maximumQtds)
    (ran : pipe.dataStage dataIn (dataQtdsNeeded length) 0 basePtr length pipe.memory = none) :
    pipe.controlWithData setupAddress basePtr length dataIn = .error .panic := by
  rw [controlWithData]
  dsimp only
  rw [if_neg (Nat.not_lt.mpr accepted), ran]

section

variable (formed : pipe.WellFormed) {needed : Nat} (room : needed + 2 ≤ pipe.maximumQtds)
  {memory : Nat → QueueElementTransferDescriptor}
  (done : DataWritten pipe dataIn needed 0 basePtr length memory memory')

include formed room

private theorem finished_setup : (pipe.finished setupAddress needed dataIn memory').memory
    (pipe.getAfterSetup 0) = setupQtd setupAddress (pipe.getAfterSetup 1) := by
  have apart : pipe.getAfterSetup 0 ≠ pipe.getAfterSetup (needed + 1) := by
    intro same
    have equal := getAfterSetup_inj (by omega) (by omega) same
    omega
  change Function.update _ _ _ _ = _
  rw [Function.update_of_ne apart, formed.setup, Function.update_self]

private theorem finished_data {i : Nat} (behind : 0 < i) (before : i ≤ needed) :
    (pipe.finished setupAddress needed dataIn memory').memory (pipe.getAfterSetup i) =
      memory' (pipe.getAfterSetup i) := by
  have status : pipe.getAfterSetup i ≠ pipe.getAfterSetup (needed + 1) := by
    intro same
    have equal := getAfterSetup_inj (by omega) (by omega) same
    omega
  have setup : pipe.getAfterSetup i ≠ pipe.getAfterSetup 0 := by
    intro same
    have equal := getAfterSetup_inj (by omega) (by omega) same
    omega
  change Function.update _ _ _ _ = _
  rw [Function.update_of_ne status, formed.setup, Function.update_of_ne setup]

omit formed room in
theorem finished_status : (pipe.finished setupAddress needed dataIn memory').memory
    (pipe.getAfterSetup (needed + 1)) = statusQtd dataIn := Function.update_self ..

include done

theorem finished_chain : Chain (pipe.finished setupAddress needed dataIn memory').memory
    (pipe.finished setupAddress needed dataIn memory').overlay.nextQtd
    (pipe.getAfterSetup 0 :: (List.range' 1 needed).map pipe.getAfterSetup ++
      [pipe.getAfterSetup (needed + 1)]) := by
  have start : PointsTo (pipe.finished setupAddress needed dataIn memory').overlay.nextQtd
      (pipe.getAfterSetup 0) := by
    change PointsTo (setBit (setTransferElementPointer _ pipe.getSetupQtd) 0 false) _
    rw [formed.setup]
    exact pointsTo_set (formed.slot 0).1 (formed.slot 0).2 _
  refine ⟨start, ?_⟩
  have further : needed + 1 = 1 + needed := Nat.add_comm ..
  rw [further]
  apply chain_slots
  · rw [finished_setup formed room]
    exact pointsTo_set (formed.slot 1).1 (formed.slot 1).2 _
  · intro i behind before
    rw [finished_data formed room behind (by omega)]
    obtain ⟨start, bytes, here⟩ := done.linked i behind (by omega)
    rw [here]
    exact pointsTo_set (formed.slot (i + 1)).1 (formed.slot (i + 1)).2 _
  · rw [← further, finished_status]
    exact (statusQtd_fields dataIn).2.2.2.2

private theorem finished_dataQtds :
    ((List.range' 1 needed).map pipe.getAfterSetup).map
      (pipe.finished setupAddress needed dataIn memory').memory =
        pipe.dataQtds dataIn needed 0 basePtr length := by
  rw [← done.written, List.map_map]
  apply List.map_congr_left
  intro i member
  obtain ⟨behind, before⟩ := List.mem_range'_1.mp member
  exact finished_data formed room behind (by omega)

private theorem stages_iff : (∃ setup data status, Transfers
      (pipe.finished setupAddress needed dataIn memory') maximumPacketSize basePtr length dataIn
      setup data status) ↔
    Covers (pipe.dataQtds dataIn needed 0 basePtr length) basePtr (basePtr + length) ∧
      Toggles maximumPacketSize 0 (pipe.dataQtds dataIn needed 0 basePtr length) := by
  have chain := @finished_chain _ setupAddress _ _ _ _ formed _ room _ done
  have qtds := @finished_dataQtds _ setupAddress _ _ _ _ formed _ room _ done
  have setup := @finished_setup _ setupAddress dataIn memory' formed _ room
  have status := @finished_status pipe setupAddress dataIn memory' needed
  constructor
  · rintro ⟨first, data, last, transfers⟩
    -- the chain leaves no choice of the addresses
    have addresses := chain_unique transfers.chain chain
    rw [List.cons_append, List.cons_append, List.cons.injEq] at addresses
    obtain ⟨rfl, _⟩ := List.append_inj' addresses.2 rfl
    rw [← qtds]
    exact ⟨transfers.covers, transfers.toggles⟩
  · rintro ⟨covers, toggles⟩
    obtain ⟨setup_pid, setup_total, setup_toggle, setup_active⟩ :=
      setupQtd_fields setupAddress (pipe.getAfterSetup 1)
    obtain ⟨status_pid, status_total, status_toggle, status_active, _⟩ := statusQtd_fields dataIn
    have data : ∀ a ∈ (List.range' 1 needed).map pipe.getAfterSetup, ∃ start bytes next,
        (pipe.finished setupAddress needed dataIn memory').memory a =
          dataQtd start bytes next dataIn := by
      intro a member
      obtain ⟨i, index, rfl⟩ := List.mem_map.mp member
      obtain ⟨behind, before⟩ := List.mem_range'_1.mp index
      obtain ⟨start, bytes, here⟩ := done.linked i behind (by omega)
      exact ⟨start, bytes, _, (finished_data formed room behind (by omega)).trans here⟩
    refine ⟨_, _, _, ?_, chain, ?_, ?_, ?_, ?_, ?_, ?_⟩
    · change (pipe.overlay.token &&& ~~~(1#32 <<< 7)).getLsbD 7 = false
      rw [BitVec.getLsbD_and]
      exact Bool.and_eq_false_imp.mpr fun _ => by decide
    · intro a member
      rcases List.mem_append.mp member with before | last
      · rcases List.mem_cons.mp before with rfl | inner
        · rw [setup]
          exact setup_active
        · obtain ⟨start, bytes, next, here⟩ := data a inner
          rw [here]
          exact active_dataQtd start next dataIn
      · rw [List.mem_singleton.mp last, status]
        exact status_active
    · rw [setup]
      exact ⟨setup_pid, setup_total, setup_toggle⟩
    · intro a member
      obtain ⟨start, bytes, next, here⟩ := data a member
      rw [here]
      exact pid_dataQtd start next dataIn
    · rw [qtds]
      exact covers
    · rw [qtds]
      exact toggles
    · rw [status]
      exact ⟨status_pid, status_total, status_toggle⟩

end

private theorem needed_bounds (some_bytes : 0 < length) : 0 < dataQtdsNeeded length ∧
    (dataQtdsNeeded length - 1) * 0x5000 < length := by
  rw [dataQtdsNeeded]
  split <;> omega

private theorem full_of_needed (some_bytes : 0 < length) :
    Full (dataQtdsNeeded length) basePtr length := by
  obtain ⟨positive, enough⟩ := needed_bounds some_bytes
  have page_le : basePtr / 0x1000 * 0x1000 ≤ basePtr := by omega
  rw [Full]
  obtain ⟨page, page_eq⟩ : ∃ page, basePtr / 0x1000 * 0x1000 = page := ⟨_, rfl⟩
  rw [page_eq] at page_le ⊢
  omega

/-- All descriptors have the toggle 1, so an even number of packets is before each of them. -/
theorem toggles_first {n : Nat} (some_qtds : 0 < n) (full : Full n basePtr length) :
    Toggles maximumPacketSize 0 (pipe.dataQtds dataIn n 0 basePtr length) ↔
      (2 ≤ n → packets maximumPacketSize (0x4000 - basePtr % 0x1000) % 2 = 0) ∧
      (3 ≤ n → packets maximumPacketSize 0x4000 % 2 = 0) := by
  obtain ⟨n, rfl⟩ := Nat.exists_eq_succ_of_ne_zero some_qtds.ne'
  rw [dataQtds, Toggles, dataToggle_dataQtd]
  by_cases last : n = 0
  · subst last
    constructor
    · exact fun _ => ⟨fun two => absurd two (by decide), fun three => absurd three (by decide)⟩
    · exact fun _ => ⟨rfl, trivial⟩
  · obtain ⟨first, left⟩ := full.step last
    have part : basePtr / 0x1000 * 0x1000 + 0x4000 - basePtr = 0x4000 - basePtr % 0x1000 := by
      omega
    have whole : min length (basePtr / 0x1000 * 0x1000 + 0x4000 - basePtr) =
        0x4000 - basePtr % 0x1000 := by
      rw [part]
      exact Nat.min_eq_right (by omega)
    have page : (basePtr / 0x1000 * 0x1000 + 0x4000) % 0x1000 = 0 := by omega
    rw [part] at left
    rw [whole, totalBytes_dataQtd _ _ _ (by omega),
      toggles_dataQtds (Nat.pos_of_ne_zero last) page left, Nat.zero_add]
    constructor
    · rintro ⟨_, even, further⟩
      exact ⟨fun _ => even, fun three => further (by omega)⟩
    · rintro ⟨even, further⟩
      exact ⟨rfl, even (by omega), fun two => further (by omega)⟩

private theorem transfers_iff_fits (formed : pipe.WellFormed)
    (accepted : dataQtdsNeeded length + 2 ≤ pipe.maximumQtds) (some_bytes : 0 < length)
    (inU32 : basePtr / 0x1000 * 0x1000 + dataQtdsNeeded length * 0x4000 < 2 ^ 32)
    {memory : Nat → QueueElementTransferDescriptor}
    (done : DataWritten pipe dataIn (dataQtdsNeeded length) 0 basePtr length memory memory') :
    (∃ setup data status, Transfers
      (pipe.finished setupAddress (dataQtdsNeeded length) dataIn memory') maximumPacketSize basePtr
      length dataIn setup data status) ↔ Fits maximumPacketSize basePtr length := by
  have some_qtds := (needed_bounds some_bytes).1
  have full : Full (dataQtdsNeeded length) basePtr length := full_of_needed some_bytes
  have holds : basePtr + length = basePtr + min length
      (capacity (dataQtdsNeeded length) basePtr) ↔
        basePtr % 0x1000 + length ≤ dataQtdsNeeded length * 0x4000 := by
    rw [capacity]
    omega
  rw [stages_iff formed accepted done, covers_dataQtds some_qtds inU32 full, holds,
    toggles_first some_qtds full]
  constructor
  · rintro ⟨fit, first, further⟩
    exact ⟨fit, inU32, first, further⟩
  · intro fits
    exact ⟨fits.holds, fits.first, fits.further⟩

private theorem fits_of_carries (formed : pipe.WellFormed)
    (accepted : dataQtdsNeeded length + 2 ≤ pipe.maximumQtds) (some_bytes : 0 < length)
    (carries : Carries pipe maximumPacketSize setupAddress basePtr length dataIn) :
    Fits maximumPacketSize basePtr length := by
  obtain ⟨pipe', setup, data, status, sent, carried⟩ := carries
  by_cases inU32 : basePtr / 0x1000 * 0x1000 + dataQtdsNeeded length * 0x4000 < 2 ^ 32
  · have room : 0 + dataQtdsNeeded length < pipe.maximumQtds := by omega
    obtain ⟨memory', ran, done⟩ := dataStage_some room (Or.inr inU32)
    rw [controlWithData_ok accepted ran] at sent
    cases sent
    exact (transfers_iff_fits formed accepted some_bytes inU32 done).mp
      ⟨setup, data, status, carried⟩
  · -- the loop stops at the end of 32-bit memory
    rw [controlWithData_panic accepted (dataStage_none (needed_bounds some_bytes).1
      (Nat.le_of_not_lt inU32))] at sent
    cases sent

private theorem carries_of_fits (formed : pipe.WellFormed)
    (accepted : dataQtdsNeeded length + 2 ≤ pipe.maximumQtds) (some_bytes : 0 < length)
    (fits : Fits maximumPacketSize basePtr length) :
    Carries pipe maximumPacketSize setupAddress basePtr length dataIn := by
  have room : 0 + dataQtdsNeeded length < pipe.maximumQtds := by omega
  obtain ⟨memory', ran, done⟩ := dataStage_some room (Or.inr fits.inU32)
  obtain ⟨setup, data, status, carried⟩ :=
    (transfers_iff_fits formed accepted some_bytes fits.inU32 done).mpr fits
  exact ⟨_, setup, data, status, controlWithData_ok accepted ran, carried⟩

private theorem carries_empty (formed : pipe.WellFormed) (accepted : 2 ≤ pipe.maximumQtds) :
    Carries pipe maximumPacketSize setupAddress basePtr 0 dataIn := by
  have room : 0 + dataQtdsNeeded 0 < pipe.maximumQtds := Nat.lt_of_lt_of_le (by decide) accepted
  obtain ⟨memory', ran, done⟩ := @dataStage_some pipe dataIn (dataQtdsNeeded 0) 0 basePtr 0
    pipe.memory room (Or.inl rfl)
  obtain ⟨setup, data, status, carried⟩ := (@stages_iff pipe maximumPacketSize setupAddress
    basePtr 0 dataIn memory' formed _ accepted _ done).mpr ⟨rfl, trivial⟩
  exact ⟨_, setup, data, status, controlWithData_ok accepted ran, carried⟩

/-- A control transfer with data is what it is to be exactly if there is no data, or if the
buffer fits into four pages for each descriptor, these pages end in 32-bit memory, and the
packets before each descriptor are an even number. -/
theorem carries_iff (formed : pipe.WellFormed)
    (accepted : dataQtdsNeeded length + 2 ≤ pipe.maximumQtds) :
    Carries pipe maximumPacketSize setupAddress basePtr length dataIn ↔
      length = 0 ∨ Fits maximumPacketSize basePtr length := by
  by_cases empty : length = 0
  · subst empty
    exact ⟨fun _ => Or.inl rfl, fun _ => carries_empty formed accepted⟩
  · have some_bytes := Nat.pos_of_ne_zero empty
    constructor
    · exact fun carries => Or.inr (fits_of_carries formed accepted some_bytes carries)
    · rintro (none_left | fits)
      · exact absurd none_left empty
      · exact carries_of_fits formed accepted some_bytes fits

/-- The default control endpoint of a new device, with its descriptors in a page. -/
def fresh : EhciControlPipe where
  memory _ := reset
  overlay := ⟨1, 0⟩
  maximumQtds := 128
  qtdBase := 0x1000
  setupQtdIndex := 0

private theorem fresh_formed : fresh.WellFormed where
  index := by decide
  aligned := by decide
  inside := by decide
  size := by decide

/-- A device descriptor into a buffer in the middle of a page. -/
theorem carries_iff_descriptor : Carries fresh 64 0x2000 0x3800 18 true :=
  (carries_iff fresh_formed (by decide)).mpr
    (Or.inr ⟨by decide, by decide, by decide, by decide⟩)

/-- A buffer of five pages at a page is one descriptor, which is about the first four of them. -/
theorem not_carries_fivePages : ¬Carries fresh 64 0x2000 0x3000 0x5000 true := by
  intro carries
  have fits := fits_of_carries fresh_formed (by decide) (by decide) carries
  exact absurd fits.holds (by decide)

end EhciControlPipe

end EmkKernel
