import EmkKernel.Library.CycleRing
import EmkKernel.Memory.Basic

/-!
# Transfer request blocks

`RawXhciTrb` and the parts of its dwords that the driver reads and sets, and `XhciTrbId`.
Memory is read block by block; a block starts at a multiple of 16.
-/

namespace EmkKernel

inductive XhciTrbId where
  | normal
  | setup
  | data
  | status
  | isoch
  | link
  | eventData
  | noOp
  | enableSlotCommand
  | disableSlotCommand
  | addressDeviceCommand
  | configureEndpointCommand
  | evaluateContextCommand
  | resetEndpointCommand
  | stopEndpointCommand
  | setTRDequeuePointerCommand
  | resetDeviceCommand
  | forceHeaderCommand
  | noOpCommandTrb
  | getExtendedPropertyCommand
  | setExtendedPropertyCommand
  | transferEvent
  | commandCompletionEvent
  | portStatusChangeEvent
  | hostControllerEvent
  | deviceNotificationEvent
  | mFindexWrapEvent
  deriving DecidableEq

namespace XhciTrbId

def toU32 : XhciTrbId → BitVec 32
  | normal => 1
  | setup => 2
  | data => 3
  | status => 4
  | isoch => 5
  | link => 6
  | eventData => 7
  | noOp => 8
  | enableSlotCommand => 9
  | disableSlotCommand => 10
  | addressDeviceCommand => 11
  | configureEndpointCommand => 12
  | evaluateContextCommand => 13
  | resetEndpointCommand => 14
  | stopEndpointCommand => 15
  | setTRDequeuePointerCommand => 16
  | resetDeviceCommand => 17
  | forceHeaderCommand => 22
  | noOpCommandTrb => 23
  | getExtendedPropertyCommand => 24
  | setExtendedPropertyCommand => 25
  | transferEvent => 32
  | commandCompletionEvent => 33
  | portStatusChangeEvent => 34
  | hostControllerEvent => 37
  | deviceNotificationEvent => 38
  | mFindexWrapEvent => 39

/-- Any other number is a panic. -/
def fromU32 (number : BitVec 32) : Option XhciTrbId :=
  match number.toNat with
  | 1 => some normal
  | 2 => some setup
  | 3 => some data
  | 4 => some status
  | 5 => some isoch
  | 6 => some link
  | 7 => some eventData
  | 8 => some noOp
  | 9 => some enableSlotCommand
  | 10 => some disableSlotCommand
  | 11 => some addressDeviceCommand
  | 12 => some configureEndpointCommand
  | 13 => some evaluateContextCommand
  | 14 => some resetEndpointCommand
  | 15 => some stopEndpointCommand
  | 16 => some setTRDequeuePointerCommand
  | 17 => some resetDeviceCommand
  | 22 => some forceHeaderCommand
  | 23 => some noOpCommandTrb
  | 24 => some getExtendedPropertyCommand
  | 25 => some setExtendedPropertyCommand
  | 32 => some transferEvent
  | 33 => some commandCompletionEvent
  | 34 => some portStatusChangeEvent
  | 37 => some hostControllerEvent
  | 38 => some deviceNotificationEvent
  | 39 => some mFindexWrapEvent
  | _ => none

theorem fromU32_toU32 (id : XhciTrbId) : fromU32 id.toU32 = some id := by cases id <;> rfl

end XhciTrbId

structure RawXhciTrb where
  dword0 : BitVec 32
  dword1 : BitVec 32
  dword2 : BitVec 32
  dword3 : BitVec 32
  deriving DecidableEq

namespace RawXhciTrb

def zero : RawXhciTrb := ⟨0, 0, 0, 0⟩

variable (trb : RawXhciTrb)

/-- The types of blocks have an `is_set` and a `set` each, with the position of the bit in the
last dword. -/
def isSet (position : Nat) : Bool := (trb.dword3 >>> position) &&& 1#32 == 1#32

def setBit (position : Nat) (value : Bool) : RawXhciTrb :=
  { trb with dword3 := trb.dword3 &&& ~~~(1#32 <<< position) |||
      (BitVec.ofBool value).setWidth 32 <<< position }

/-- The number of the type. -/
def trbType : BitVec 32 := (trb.dword3 >>> 10) &&& 0x3F

def setType (id : XhciTrbId) : RawXhciTrb :=
  { trb with dword3 := trb.dword3 &&& ~~~(0x3F#32 <<< 10) ||| id.toU32 <<< 10 }

/-- The bit part `C`. -/
abbrev cycle : Bool := trb.isSet 0

def setRingSegmentPointer (address : Nat) : RawXhciTrb :=
  let address := address / 16 * 16
  { trb with dword0 := BitVec.ofNat 32 address, dword1 := BitVec.ofNat 32 (address / 2 ^ 32) }

def ringSegmentPointer : Nat := trb.dword0.toNat + 2 ^ 32 * trb.dword1.toNat

theorem isSet_eq (position : Nat) : trb.isSet position = trb.dword3.getLsbD position := by
  rw [isSet, BitVec.and_one_eq_setWidth_ofBool_getLsbD, BitVec.getLsbD_ushiftRight, Nat.add_zero]
  cases trb.dword3.getLsbD position <;> rfl

theorem getLsbD_setBit {position : Nat} (inside : position < 32) (value : Bool) (i : Nat) :
    (trb.setBit position value).dword3.getLsbD i =
      if i = position then value else trb.dword3.getLsbD i := by
  simp only [setBit, BitVec.getLsbD_or, BitVec.getLsbD_and, BitVec.getLsbD_not,
    BitVec.getLsbD_shiftLeft]
  by_cases same : i = position
  · subst same
    simp [inside]
  · by_cases short : i < 32
    · have clear : i < position ∨ i - position ≠ 0 := by omega
      rcases clear with before | after
      · simp [same, short, before]
      · simp [same, short, after]
    · have beyond := BitVec.getLsbD_of_ge trb.dword3 i (by omega)
      simp [same, short, beyond]

@[simp] theorem isSet_setBit {position : Nat} (inside : position < 32) (value : Bool) :
    (trb.setBit position value).isSet position = value := by
  rw [isSet_eq, getLsbD_setBit trb inside, if_pos rfl]

theorem isSet_setBit_other {position other : Nat} (inside : position < 32)
    (different : other ≠ position) (value : Bool) :
    (trb.setBit position value).isSet other = trb.isSet other := by
  rw [isSet_eq, getLsbD_setBit trb inside, if_neg different, isSet_eq]

theorem mask_bits : ∀ i : Fin 32, (0x3F : BitVec 32).getLsbD i = decide (i.val < 6) := by decide

private theorem toU32_bits (id : XhciTrbId) :
    ∀ i : Fin 32, 6 ≤ i.val → id.toU32.getLsbD i = false := by
  cases id <;> decide

variable {trb} in
/-- The type is six bits of the last dword. -/
theorem trbType_eq {id : XhciTrbId}
    (bits : ∀ i < 6, trb.dword3.getLsbD (10 + i) = id.toU32.getLsbD i) :
    trb.trbType = id.toU32 := by
  refine BitVec.eq_of_getLsbD_eq fun i inside => ?_
  have mask : (0x3F : BitVec 32).getLsbD i = decide (i < 6) := mask_bits ⟨i, inside⟩
  rw [trbType, BitVec.getLsbD_and, BitVec.getLsbD_ushiftRight, mask]
  by_cases low : i < 6
  · rw [bits i low, decide_eq_true low, Bool.and_true]
  · have high : id.toU32.getLsbD i = false := toU32_bits id ⟨i, inside⟩ (Nat.le_of_not_lt low)
    rw [high, decide_eq_false low, Bool.and_false]

theorem trbType_setType (id : XhciTrbId) : (trb.setType id).trbType = id.toU32 := by
  refine trbType_eq fun i low => ?_
  have mask : (0x3F#32).getLsbD i = decide (i < 6) := mask_bits ⟨i, by omega⟩
  simp only [setType, BitVec.getLsbD_or, BitVec.getLsbD_and, BitVec.getLsbD_not,
    BitVec.getLsbD_shiftLeft, Nat.add_sub_cancel_left, mask]
  have short : 10 + i < 32 := by omega
  have after : ¬10 + i < 10 := by omega
  simp [short, after, low]

/-- No flag is part of the type. -/
theorem trbType_setBit {position : Nat} (inside : position < 32)
    (outside : position < 10 ∨ 16 ≤ position) (value : Bool) :
    (trb.setBit position value).trbType = trb.trbType := by
  refine BitVec.eq_of_getLsbD_eq fun i short => ?_
  have mask : (0x3F : BitVec 32).getLsbD i = decide (i < 6) := mask_bits ⟨i, short⟩
  rw [trbType, trbType, BitVec.getLsbD_and, BitVec.getLsbD_and, BitVec.getLsbD_ushiftRight,
    BitVec.getLsbD_ushiftRight, mask]
  by_cases low : i < 6
  · rw [getLsbD_setBit trb inside, if_neg (by omega)]
  · rw [decide_eq_false low, Bool.and_false, Bool.and_false]

theorem ringSegmentPointer_setRingSegmentPointer {address : Nat} (aligned : address % 16 = 0)
    (short : address < 2 ^ 64) :
    (trb.setRingSegmentPointer address).ringSegmentPointer = address := by
  have whole : address / 16 * 16 = address := by omega
  simp only [setRingSegmentPointer, ringSegmentPointer, whole, BitVec.toNat_ofNat]
  omega

end RawXhciTrb

end EmkKernel
