import EmkKernel.Library.WordFields

/-!
# Queue heads of the asynchronous schedule

The two dwords of a queue head that the schedule is made of, and the list of queue heads that
`AsynchronousList::new` writes. Memory is read queue head by queue head.
-/

namespace EmkKernel

open WordFields

structure QueueHead where
  horizontalLink : BitVec 32
  characteristics : BitVec 32

namespace QueueHead

def reset : QueueHead := ⟨1, 0⟩

variable (qh : QueueHead)

/-- The bit part `T`. -/
def terminate : Bool := qh.horizontalLink.getLsbD 0

/-- The bit part `H`. -/
def headOfList : Bool := qh.characteristics.getLsbD 15

def setTerminate (value : Bool) : QueueHead :=
  { qh with horizontalLink := setBit qh.horizontalLink 0 value }

def setHeadOfList (value : Bool) : QueueHead :=
  { qh with characteristics := setBit qh.characteristics 15 value }

/-- `EhciLinkType::Qh`. -/
def ehciLinkTypeQh : BitVec 32 := 1

def linkType : BitVec 32 := qh.horizontalLink >>> 1 &&& 3#32

def setLinkType (type : BitVec 32) : QueueHead :=
  { qh with horizontalLink := setPart qh.horizontalLink 3 1 type }

def setEps (eps : BitVec 32) : QueueHead :=
  { qh with characteristics := setPart qh.characteristics 3 12 eps }

def setDeviceAddress (address : Nat) : QueueHead :=
  { qh with characteristics := setPart qh.characteristics 0x3F 0 (BitVec.ofNat 32 address) }

def setMaximumPacketLength (length : BitVec 16) : QueueHead :=
  { qh with characteristics := setPart qh.characteristics 0x7FF 16 (length.setWidth 32) }

def setEndpt (endpointNumber : BitVec 8) : QueueHead :=
  { qh with characteristics := setPart qh.characteristics 0xF 8 (endpointNumber.setWidth 32) }

def horizontalLinkPointer : Nat := (qh.horizontalLink >>> 5 <<< 5).toNat

def setHorizontalLinkPointer (address : Nat) : QueueHead :=
  { qh with
    horizontalLink := qh.horizontalLink &&& ~~~(0x7FFFFFF#32 <<< 5) |||
      (BitVec.ofNat 32 address &&& ~~~0x1F#32) }

def chainNextQh (address : Nat) : QueueHead :=
  ((qh.setLinkType ehciLinkTypeQh).setHorizontalLinkPointer address).setTerminate false

/-- `EndpointSpeed::HighSpeed`. -/
def endpointSpeedHighSpeed : BitVec 32 := 2

/-- `Mult` is in another dword. -/
def setCommonInfo (deviceAddress : Nat) (maximumPacketLength : BitVec 16)
    (endpointNumber : BitVec 8) : QueueHead :=
  (((qh.setEps endpointSpeedHighSpeed).setDeviceAddress deviceAddress).setMaximumPacketLength
    maximumPacketLength).setEndpt endpointNumber

/-! ### What the links say -/

@[simp] theorem horizontalLink_setHeadOfList (value : Bool) :
    (qh.setHeadOfList value).horizontalLink = qh.horizontalLink := rfl

@[simp] theorem headOfList_setHeadOfList (value : Bool) :
    (qh.setHeadOfList value).headOfList = value := by
  rw [headOfList, setHeadOfList, getLsbD_setBit _ _ (by decide), if_pos rfl]

/-- No other part of the dword has the bit. -/
@[simp] theorem headOfList_setCommonInfo (deviceAddress : Nat) (maximumPacketLength : BitVec 16)
    (endpointNumber : BitVec 8) :
    (qh.setCommonInfo deviceAddress maximumPacketLength endpointNumber).headOfList =
      qh.headOfList := by
  simp only [setCommonInfo, setEndpt, setMaximumPacketLength, setDeviceAddress, setEps, headOfList]
  iterate 4 rw [getLsbD_setPart _ _ _ (by decide), if_neg (by decide)]

@[simp] theorem headOfList_chainNextQh (address : Nat) :
    (qh.chainNextQh address).headOfList = qh.headOfList := rfl

@[simp] theorem headOfList_setHorizontalLinkPointer (address : Nat) :
    (qh.setHorizontalLinkPointer address).headOfList = qh.headOfList := rfl

private theorem getLsbD_setHorizontalLinkPointer (address : Nat) {i : Nat} (small : i < 32) :
    (qh.setHorizontalLinkPointer address).horizontalLink.getLsbD i =
      if 5 ≤ i then (BitVec.ofNat 32 address).getLsbD i else qh.horizontalLink.getLsbD i := by
  have high : ∀ n < 32, (0x7FFFFFF#32 <<< 5).getLsbD n = decide (5 ≤ n) := by decide
  have low : ∀ n < 32, (0x1F#32).getLsbD n = decide (n < 5) := by decide
  rw [setHorizontalLinkPointer, BitVec.getLsbD_or, BitVec.getLsbD_and, BitVec.getLsbD_not,
    BitVec.getLsbD_and, BitVec.getLsbD_not, high i small, low i small]
  by_cases here : 5 ≤ i
  · have behind : ¬i < 5 := by omega
    simp [here, behind, small]
  · have before : i < 5 := by omega
    simp [here, before, small]

theorem linkType_eq {qh : QueueHead} (first : qh.horizontalLink.getLsbD 1 = true)
    (second : qh.horizontalLink.getLsbD 2 = false) : qh.linkType = ehciLinkTypeQh := by
  have three : ∀ n < 32, (3#32).getLsbD n = decide (n < 2) := by decide
  have one : ∀ n < 32, ehciLinkTypeQh.getLsbD n = decide (n = 0) := by decide
  apply BitVec.eq_of_getLsbD_eq
  intro i small
  rw [linkType, BitVec.getLsbD_and, BitVec.getLsbD_ushiftRight, three i small, one i small]
  rcases i with _ | _ | i
  · rw [first]
    rfl
  · rw [second]
    rfl
  · simp

end QueueHead

abbrev QueueHeads := Nat → QueueHead

/-- The controller goes on with the queue head at `b` after the one at `a`. -/
structure Links (memory : QueueHeads) (a b : Nat) : Prop where
  valid : (memory a).terminate = false
  type : (memory a).linkType = QueueHead.ehciLinkTypeQh
  pointer : (memory a).horizontalLinkPointer = b

namespace QueueHead

variable (qh : QueueHead)

private theorem chainNextQh_bits (address : Nat) {i : Nat} (small : i < 32) :
    (qh.chainNextQh address).horizontalLink.getLsbD i =
      if i = 0 then false
      else if 5 ≤ i then (BitVec.ofNat 32 address).getLsbD i
      else (qh.setLinkType ehciLinkTypeQh).horizontalLink.getLsbD i := by
  rw [chainNextQh, setTerminate, getLsbD_setBit _ _ small,
    getLsbD_setHorizontalLinkPointer _ _ small]

/-- A queue head points at an aligned address that it was chained to. -/
theorem pointer_of_chain {qh before : QueueHead} {address : Nat}
    (here : qh.horizontalLink = (before.chainNextQh address).horizontalLink)
    (aligned : 2 ^ 5 ∣ address) : qh.horizontalLinkPointer = address % 2 ^ 32 := by
  rw [horizontalLinkPointer, here]
  apply shift_pointer_eq aligned
  intro i small high
  rw [chainNextQh_bits _ _ small, if_neg (by omega), if_pos high]

theorem links_of_chain {memory : QueueHeads} {a address : Nat} {qh : QueueHead}
    (here : (memory a).horizontalLink = (qh.chainNextQh address).horizontalLink)
    (aligned : 2 ^ 5 ∣ address) (inside : address < 2 ^ 32) : Links memory a address := by
  constructor
  · rw [terminate, here, chainNextQh_bits _ _ (by decide), if_pos rfl]
  · apply linkType_eq
    · rw [here, chainNextQh_bits _ _ (by decide), if_neg (by decide), if_neg (by decide),
        setLinkType, getLsbD_setPart _ _ _ (by decide), if_pos (by decide)]
      decide
    · rw [here, chainNextQh_bits _ _ (by decide), if_neg (by decide), if_neg (by decide),
        setLinkType, getLsbD_setPart _ _ _ (by decide), if_pos (by decide)]
      decide
  · rw [pointer_of_chain here aligned, Nat.mod_eq_of_lt inside]

/-- A pointer that is set behind a chain leaves the other bits. -/
theorem links_of_patch {memory : QueueHeads} {a address first : Nat} {qh : QueueHead}
    (here : (memory a).horizontalLink =
      ((qh.chainNextQh address).setHorizontalLinkPointer first).horizontalLink)
    (aligned : 2 ^ 5 ∣ first) (inside : first < 2 ^ 32) : Links memory a first := by
  have same : (memory a).horizontalLink = (qh.chainNextQh first).horizontalLink := by
    rw [here]
    apply BitVec.eq_of_getLsbD_eq
    intro i small
    rw [getLsbD_setHorizontalLinkPointer _ _ small, chainNextQh_bits _ _ small,
      chainNextQh_bits _ _ small]
    by_cases zero : i = 0
    · simp [zero]
    · by_cases high : 5 ≤ i
      · simp [zero, high]
      · simp [zero, high]
  exact links_of_chain same aligned inside

end QueueHead

/-! ### The list -/

structure AsynchronousList where
  baseAddress : Nat

namespace AsynchronousList

def numberOfEntries : Nat := 1024

variable (list : AsynchronousList)

def addressOfIndex (index : Nat) : Nat :=
  let inc := if index ≠ 0 then 16 * index else 0
  list.baseAddress + index * 48 + inc

theorem addressOfIndex_eq (index : Nat) :
    list.addressOfIndex index = list.baseAddress + 64 * index := by
  rw [addressOfIndex]
  split <;> omega

theorem addressOfIndex_zero : list.addressOfIndex 0 = list.baseAddress := by
  rw [addressOfIndex_eq, Nat.mul_zero, Nat.add_zero]

theorem addressOfIndex_inj {i j : Nat} (same : list.addressOfIndex i = list.addressOfIndex j) :
    i = j := by
  rw [addressOfIndex_eq, addressOfIndex_eq] at same
  omega

/-- The entry that `new` writes. -/
def freshEntry (index : Nat) : QueueHead :=
  let qh := if index = 0 then QueueHead.reset.setHeadOfList true else QueueHead.reset
  if index ≠ numberOfEntries - 1 then qh.chainNextQh (list.addressOfIndex (index + 1))
  else qh.chainNextQh (list.addressOfIndex 0)

/-- The loop of `new`. -/
def newEntries (memory : QueueHeads) : Nat → QueueHeads
  | 0 => memory
  | i + 1 => Function.update (newEntries memory i) (list.addressOfIndex i) (list.freshEntry i)

theorem newEntries_apply (memory : QueueHeads) {n i : Nat} (written : i < n) :
    list.newEntries memory n (list.addressOfIndex i) = list.freshEntry i := by
  induction n with
  | zero => cases written
  | succ n ih =>
    rw [newEntries]
    by_cases last : i = n
    · rw [last, Function.update_self]
    · rw [Function.update_of_ne fun same => last (list.addressOfIndex_inj same)]
      exact ih (by omega)

theorem headOfList_freshEntry (index : Nat) :
    (list.freshEntry index).headOfList = decide (index = 0) := by
  have entry : ∀ qh : QueueHead, (if index ≠ numberOfEntries - 1 then
      qh.chainNextQh (list.addressOfIndex (index + 1))
      else qh.chainNextQh (list.addressOfIndex 0)).headOfList = qh.headOfList := by
    intro qh
    split <;> rfl
  rw [freshEntry, entry]
  split
  next first => rw [QueueHead.headOfList_setHeadOfList, decide_eq_true first]
  next other =>
    rw [decide_eq_false other]
    decide

end AsynchronousList

end EmkKernel
