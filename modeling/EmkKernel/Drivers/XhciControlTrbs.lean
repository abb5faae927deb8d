import EmkKernel.Drivers.XhciOverruns

/-!
# What the blocks of a control transfer say

The fields that a controller reads in Setup, Data and Status Stage blocks, whatever the slots
held before.
-/

namespace EmkKernel

/-- The fields of a Setup Stage block. -/
structure SetupStage where
  bmRequestType : BitVec 8
  bRequest : BitVec 8
  wValue : BitVec 16
  wIndex : BitVec 16
  wLength : BitVec 16
  transferLength : BitVec 17
  interrupterTarget : BitVec 10
  cycle : Bool
  interruptOnCompletion : Bool
  immediateData : Bool
  type : BitVec 32
  transferType : BitVec 2

/-- The fields of a Data Stage block. The length is read as a number. -/
structure DataStage where
  dataBuffer : BitVec 64
  transferLength : Nat
  tdSize : BitVec 5
  interrupterTarget : BitVec 10
  cycle : Bool
  evaluateNext : Bool
  interruptOnShortPacket : Bool
  noSnoop : Bool
  chain : Bool
  interruptOnCompletion : Bool
  immediateData : Bool
  type : BitVec 32
  direction : Bool

/-- The fields of a Status Stage block. -/
structure StatusStage where
  interrupterTarget : BitVec 10
  cycle : Bool
  evaluateNext : Bool
  chain : Bool
  interruptOnCompletion : Bool
  type : BitVec 32
  direction : Bool

namespace RawXhciTrb

variable (trb : RawXhciTrb)

def readSetup : SetupStage where
  bmRequestType := trb.dword0.extractLsb' 0 8
  bRequest := trb.dword0.extractLsb' 8 8
  wValue := trb.dword0.extractLsb' 16 16
  wIndex := trb.dword1.extractLsb' 0 16
  wLength := trb.dword1.extractLsb' 16 16
  transferLength := trb.dword2.extractLsb' 0 17
  interrupterTarget := trb.dword2.extractLsb' 22 10
  cycle := trb.isSet 0
  interruptOnCompletion := trb.isSet 5
  immediateData := trb.isSet 6
  type := trb.trbType
  transferType := trb.dword3.extractLsb' 16 2

def readData : DataStage where
  dataBuffer := trb.dword1 ++ trb.dword0
  transferLength := (trb.dword2.extractLsb' 0 17).toNat
  tdSize := trb.dword2.extractLsb' 17 5
  interrupterTarget := trb.dword2.extractLsb' 22 10
  cycle := trb.isSet 0
  evaluateNext := trb.isSet 1
  interruptOnShortPacket := trb.isSet 2
  noSnoop := trb.isSet 3
  chain := trb.isSet 4
  interruptOnCompletion := trb.isSet 5
  immediateData := trb.isSet 6
  type := trb.trbType
  direction := trb.isSet 16

def readStatus : StatusStage where
  interrupterTarget := trb.dword2.extractLsb' 22 10
  cycle := trb.isSet 0
  evaluateNext := trb.isSet 1
  chain := trb.isSet 4
  interruptOnCompletion := trb.isSet 5
  type := trb.trbType
  direction := trb.isSet 16

end RawXhciTrb

/-- A request with a transfer type, in a slot with a cycle state. -/
def SetupStage.of (request : UsbStandardDeviceRequest) (transferType : BitVec 2) (cycle : Bool) :
    SetupStage where
  bmRequestType := request.bmRequestType
  bRequest := request.bRequest
  wValue := request.wValue
  wIndex := request.wIndex
  wLength := request.wLength
  transferLength := 8
  interrupterTarget := 0
  cycle := cycle
  interruptOnCompletion := false
  immediateData := true
  type := XhciTrbId.setup.toU32
  transferType := transferType

/-- Data to be read into a buffer. -/
def DataStage.of (buffer : BitVec 64) (length : BitVec 32) (cycle : Bool) : DataStage where
  dataBuffer := buffer
  transferLength := length.toNat
  tdSize := 0
  interrupterTarget := 0
  cycle := cycle
  evaluateNext := false
  interruptOnShortPacket := false
  noSnoop := false
  chain := false
  interruptOnCompletion := false
  immediateData := false
  type := XhciTrbId.data.toU32
  direction := true

def StatusStage.of (interrupterTarget : BitVec 16) (ioc direction cycle : Bool) : StatusStage where
  interrupterTarget := interrupterTarget.setWidth 10
  cycle := cycle
  evaluateNext := false
  chain := false
  interruptOnCompletion := ioc
  type := XhciTrbId.status.toU32
  direction := direction

namespace RawXhciTrb

variable {trb : RawXhciTrb}

/-! ### Bits of the dwords -/

private theorem getLsbD_setInterrupterTarget (target : BitVec 16) {i : Nat} (inside : i < 32) :
    (trb.setInterrupterTarget target).dword2.getLsbD i =
      if 22 ≤ i then target.getLsbD (i - 22) else trb.dword2.getLsbD i := by
  have mask : ∀ j : Fin 32, (0x3FF#32).getLsbD j = decide (j.val < 10) := by decide
  rw [setInterrupterTarget, BitVec.getLsbD_or, BitVec.getLsbD_and, BitVec.getLsbD_not,
    BitVec.getLsbD_shiftLeft, BitVec.getLsbD_shiftLeft, BitVec.getLsbD_setWidth,
    decide_eq_true inside]
  split
  next high =>
    have here : (0x3FF#32).getLsbD (i - 22) = true :=
      (mask ⟨i - 22, by omega⟩).trans (decide_eq_true (by show i - 22 < 10; omega))
    rw [here, decide_eq_false (Nat.not_lt.mpr high), decide_eq_true (show i - 22 < 32 by omega)]
    simp
  next low =>
    rw [decide_eq_true (Nat.lt_of_not_le low)]
    simp

private theorem getLsbD_setTransferLength (length : BitVec 32) {i : Nat} (inside : i < 32) :
    (trb.setTransferLength length).dword2.getLsbD i =
      if i < 17 then length.getLsbD i else trb.dword2.getLsbD i := by
  have mask : ∀ j : Fin 32, (0x1FFFF : BitVec 32).getLsbD j = decide (j.val < 17) := by decide
  have here : (0x1FFFF : BitVec 32).getLsbD i = decide (i < 17) := mask ⟨i, inside⟩
  rw [setTransferLength, BitVec.getLsbD_or, BitVec.getLsbD_and, BitVec.getLsbD_and,
    BitVec.getLsbD_not, here, decide_eq_true inside]
  split
  next low => simp [low]
  next high => simp [high]

private theorem getLsbD_setTransferType (trt : BitVec 2) {i : Nat} (inside : i < 32) :
    (trb.setTransferType (trt.setWidth 32)).dword3.getLsbD i =
      if 16 ≤ i ∧ i < 18 then trt.getLsbD (i - 16) else trb.dword3.getLsbD i := by
  have mask : ∀ j : Fin 32, (3#32).getLsbD j = decide (j.val < 2) := by decide
  rw [setTransferType, BitVec.getLsbD_or, BitVec.getLsbD_and, BitVec.getLsbD_not,
    BitVec.getLsbD_shiftLeft, BitVec.getLsbD_shiftLeft, BitVec.getLsbD_setWidth,
    decide_eq_true inside]
  by_cases before : i < 16
  · rw [if_neg (by omega), decide_eq_true before]
    simp
  · have here : (3#32).getLsbD (i - 16) = decide (i - 16 < 2) := mask ⟨i - 16, by omega⟩
    rw [here, decide_eq_false before, decide_eq_true (show i - 16 < 32 by omega)]
    split
    next both => rw [decide_eq_true (by omega)]; simp
    next none =>
      rw [decide_eq_false (by omega), BitVec.getLsbD_of_ge trt (i - 16) (by omega)]
      simp

theorem extract_packed (a b : BitVec 8) (c : BitVec 16) :
    (a.setWidth 32 ||| b.setWidth 32 <<< 8 ||| c.setWidth 32 <<< 16).extractLsb' 0 8 = a ∧
    (a.setWidth 32 ||| b.setWidth 32 <<< 8 ||| c.setWidth 32 <<< 16).extractLsb' 8 8 = b ∧
    (a.setWidth 32 ||| b.setWidth 32 <<< 8 ||| c.setWidth 32 <<< 16).extractLsb' 16 16 = c := by
  refine ⟨?_, ?_, ?_⟩
  all_goals
    apply BitVec.eq_of_getLsbD_eq
    intro i small
    rw [BitVec.getLsbD_extractLsb', BitVec.getLsbD_or, BitVec.getLsbD_or, BitVec.getLsbD_shiftLeft,
      BitVec.getLsbD_shiftLeft, BitVec.getLsbD_setWidth, BitVec.getLsbD_setWidth,
      BitVec.getLsbD_setWidth, decide_eq_true small]
  · rw [decide_eq_true (show 0 + i < 8 by omega), decide_eq_true (show 0 + i < 16 by omega),
      decide_eq_true (show 0 + i < 32 by omega), Nat.zero_add]
    simp
  · rw [decide_eq_false (show ¬8 + i < 8 by omega), decide_eq_true (show 8 + i < 16 by omega),
      decide_eq_true (show 8 + i < 32 by omega), BitVec.getLsbD_of_ge a (8 + i) (by omega),
      Nat.add_sub_cancel_left, decide_eq_true (show i < 32 by omega)]
    simp
  · rw [decide_eq_false (show ¬16 + i < 8 by omega), decide_eq_false (show ¬16 + i < 16 by omega),
      decide_eq_true (show 16 + i < 32 by omega), BitVec.getLsbD_of_ge a (16 + i) (by omega),
      BitVec.getLsbD_of_ge b (16 + i - 8) (by omega), Nat.add_sub_cancel_left,
      decide_eq_true (show i < 32 by omega)]
    simp

theorem extract_halves (a b : BitVec 16) :
    (a.setWidth 32 ||| b.setWidth 32 <<< 16).extractLsb' 0 16 = a ∧
    (a.setWidth 32 ||| b.setWidth 32 <<< 16).extractLsb' 16 16 = b := by
  refine ⟨?_, ?_⟩
  all_goals
    apply BitVec.eq_of_getLsbD_eq
    intro i small
    rw [BitVec.getLsbD_extractLsb', BitVec.getLsbD_or, BitVec.getLsbD_shiftLeft,
      BitVec.getLsbD_setWidth, BitVec.getLsbD_setWidth, decide_eq_true small]
  · rw [decide_eq_true (show 0 + i < 16 by omega), decide_eq_true (show 0 + i < 32 by omega),
      Nat.zero_add]
    simp
  · rw [decide_eq_false (show ¬16 + i < 16 by omega), decide_eq_true (show 16 + i < 32 by omega),
      BitVec.getLsbD_of_ge a (16 + i) (by omega), Nat.add_sub_cancel_left,
      decide_eq_true (show i < 32 by omega)]
    simp

private theorem extract_interrupterTarget (target : BitVec 16) :
    (trb.setInterrupterTarget target).dword2.extractLsb' 22 10 = target.setWidth 10 := by
  apply BitVec.eq_of_getLsbD_eq
  intro i small
  rw [BitVec.getLsbD_extractLsb', getLsbD_setInterrupterTarget target (by omega),
    if_pos (by omega), Nat.add_sub_cancel_left, BitVec.getLsbD_setWidth]

theorem extract_setInterrupterTarget (target : BitVec 16) {start width : Nat}
    (below : start + width ≤ 22) :
    (trb.setInterrupterTarget target).dword2.extractLsb' start width =
      trb.dword2.extractLsb' start width := by
  apply BitVec.eq_of_getLsbD_eq
  intro i small
  rw [BitVec.getLsbD_extractLsb', BitVec.getLsbD_extractLsb',
    getLsbD_setInterrupterTarget target (by omega), if_neg (by omega)]

private theorem extract_transferLength (length : BitVec 32) :
    (trb.setTransferLength length).dword2.extractLsb' 0 17 = length.extractLsb' 0 17 := by
  apply BitVec.eq_of_getLsbD_eq
  intro i small
  rw [BitVec.getLsbD_extractLsb', BitVec.getLsbD_extractLsb',
    getLsbD_setTransferLength length (by omega), if_pos (by omega)]

private theorem extract_setTransferLength (length : BitVec 32) {start width : Nat}
    (above : 17 ≤ start) (inside : start + width ≤ 32) :
    (trb.setTransferLength length).dword2.extractLsb' start width =
      trb.dword2.extractLsb' start width := by
  apply BitVec.eq_of_getLsbD_eq
  intro i small
  rw [BitVec.getLsbD_extractLsb', BitVec.getLsbD_extractLsb',
    getLsbD_setTransferLength length (by omega), if_neg (by omega)]

private theorem extract_transferType (trt : BitVec 2) :
    (trb.setTransferType (trt.setWidth 32)).dword3.extractLsb' 16 2 = trt := by
  apply BitVec.eq_of_getLsbD_eq
  intro i small
  rw [BitVec.getLsbD_extractLsb', getLsbD_setTransferType trt (by omega), if_pos (by omega),
    Nat.add_sub_cancel_left, decide_eq_true small, Bool.true_and]

/-- A flag is no part of a field elsewhere in the last dword. -/
theorem extract_setBit {position start width : Nat} (inside : position < 32) (value : Bool)
    (outside : position < start ∨ start + width ≤ position) :
    (trb.setBit position value).dword3.extractLsb' start width =
      trb.dword3.extractLsb' start width := by
  apply BitVec.eq_of_getLsbD_eq
  intro i small
  rw [BitVec.getLsbD_extractLsb', BitVec.getLsbD_extractLsb', getLsbD_setBit trb inside,
    if_neg (by omega)]

end RawXhciTrb

namespace ProducerRing

open RawXhciTrb

private theorem readSetup_setupTrb (trb : RawXhciTrb) (request : UsbStandardDeviceRequest)
    (wValue : BitVec 16) (trt : BitVec 2) (cycle : Bool) :
    (setupTrb trb request wValue (trt.setWidth 32) cycle).readSetup =
      .of { request with wValue } trt cycle := by
  obtain ⟨requestType, requestNumber, value⟩ :=
    extract_packed request.bmRequestType request.bRequest wValue
  obtain ⟨index, length⟩ := extract_halves request.wIndex request.wLength
  simp only [readSetup, SetupStage.of, SetupStage.mk.injEq]
  refine ⟨requestType, requestNumber, value, index, length, ?_, ?_, ?_, ?_, ?_, ?_, ?_⟩
  · exact (extract_setInterrupterTarget 0 (by decide)).trans (extract_transferLength 8)
  · exact extract_interrupterTarget 0
  · exact isSet_setBit _ (by decide) _
  · rw [setupTrb, isSet_setBit_other _ (by decide) (by decide),
      isSet_setBit_other _ (by decide) (by decide), isSet_setBit _ (by decide)]
  · rw [setupTrb, isSet_setBit_other _ (by decide) (by decide), isSet_setBit _ (by decide)]
  · rw [setupTrb, trbType_setBit _ (by decide) (by decide),
      trbType_setBit _ (by decide) (by decide),
      trbType_setBit _ (by decide) (by decide), trbType_setTransferType]
    exact trbType_setType _ _
  · rw [setupTrb, extract_setBit (by decide) _ (by decide),
      extract_setBit (by decide) _ (by decide),
      extract_setBit (by decide) _ (by decide), extract_transferType]

theorem append_halves (buffer : BitVec 64) :
    (buffer >>> 32).setWidth 32 ++ buffer.setWidth 32 = buffer := by
  apply BitVec.eq_of_getLsbD_eq
  intro i small
  rw [BitVec.getLsbD_append]
  split
  next low => rw [BitVec.getLsbD_setWidth, decide_eq_true low, Bool.true_and]
  next high =>
    rw [BitVec.getLsbD_setWidth, BitVec.getLsbD_ushiftRight,
      decide_eq_true (show i - 32 < 32 by omega), Bool.true_and,
      Nat.add_sub_cancel' (Nat.le_of_not_lt high)]

theorem readData_dataTrb {trb : RawXhciTrb} (clear : trb.dword2.extractLsb' 17 5 = 0)
    (buffer : BitVec 64) (length : BitVec 32) (cycle : Bool) :
    (dataTrb trb buffer length cycle).readData = .of buffer length cycle ↔
      length.toNat < 2 ^ 17 := by
  have field : ((dataTrb trb buffer length cycle).dword2.extractLsb' 0 17).toNat =
      length.toNat % 2 ^ 17 := by
    refine (congrArg BitVec.toNat ((extract_setInterrupterTarget 0 (by decide)).trans
      (extract_transferLength length))).trans ?_
    rw [BitVec.extractLsb'_toNat, Nat.shiftRight_zero]
  simp only [readData, DataStage.of, DataStage.mk.injEq]
  constructor
  · intro same
    rw [← same.2.1, field]
    exact Nat.mod_lt _ (by decide)
  · intro short
    refine ⟨append_halves buffer, field.trans (Nat.mod_eq_of_lt short), ?_, ?_, ?_⟩
    · refine (extract_setInterrupterTarget 0 (by decide)).trans ?_
      rw [extract_setTransferLength _ (by decide) (by decide)]
      exact clear
    · exact extract_interrupterTarget 0
    · rw [dataTrb]
      -- each flag is written once
      refine ⟨isSet_setBit _ (by decide) _, ?_, ?_, ?_, ?_, ?_, ?_, ?_, ?_⟩
      · rw [isSet_setBit_other _ (by decide) (by decide), isSet_setBit _ (by decide)]
      · iterate 2 rw [isSet_setBit_other _ (by decide) (by decide)]
        rw [isSet_setBit _ (by decide)]
      · iterate 3 rw [isSet_setBit_other _ (by decide) (by decide)]
        rw [isSet_setBit _ (by decide)]
      · iterate 4 rw [isSet_setBit_other _ (by decide) (by decide)]
        rw [isSet_setBit _ (by decide)]
      · iterate 5 rw [isSet_setBit_other _ (by decide) (by decide)]
        rw [isSet_setBit _ (by decide)]
      · iterate 6 rw [isSet_setBit_other _ (by decide) (by decide)]
        rw [isSet_setBit _ (by decide)]
      · iterate 8 rw [trbType_setBit _ (by decide) (by decide)]
        exact trbType_setType _ _
      · iterate 7 rw [isSet_setBit_other _ (by decide) (by decide)]
        rw [isSet_setBit _ (by decide)]

private theorem readStatus_statusTrb (trb : RawXhciTrb) (interrupterTarget : BitVec 16)
    (ioc direction cycle : Bool) :
    (statusTrb trb interrupterTarget ioc direction cycle).readStatus =
      .of interrupterTarget ioc direction cycle := by
  simp only [readStatus, StatusStage.of, StatusStage.mk.injEq]
  refine ⟨extract_interrupterTarget interrupterTarget, isSet_setBit _ (by decide) _, ?_, ?_, ?_,
    ?_, ?_⟩
  all_goals rw [statusTrb]
  · rw [isSet_setBit_other _ (by decide) (by decide), isSet_setBit _ (by decide)]
  · iterate 3 rw [isSet_setBit_other _ (by decide) (by decide)]
    rw [isSet_setBit _ (by decide)]
  · iterate 4 rw [isSet_setBit_other _ (by decide) (by decide)]
    rw [isSet_setBit _ (by decide)]
  · iterate 5 rw [trbType_setBit _ (by decide) (by decide)]
    exact trbType_setType _ _
  · iterate 2 rw [isSet_setBit_other _ (by decide) (by decide)]
    rw [isSet_setBit _ (by decide)]

/-! ### Whole transfers -/

variable {s s' start : ProducerRing} {slots : Nat → Prop}

/-- The field TD Size is clear in the slots. -/
def ClearSizes (slots : Nat → Prop) (s : ProducerRing) : Prop :=
  ∀ a, slots a → (s.memory a).dword2.extractLsb' 17 5 = 0

/-- What is written changes no TD Size. -/
structure KeepsSizes (s s' : ProducerRing) : Prop where
  same : ∀ a, (s'.memory a).dword2.extractLsb' 17 5 = (s.memory a).dword2.extractLsb' 17 5

theorem KeepsSizes.trans {s'' : ProducerRing} (first : KeepsSizes s s')
    (second : KeepsSizes s' s'') :
    KeepsSizes s s'' := ⟨fun a => (second.same a).trans (first.same a)⟩

/-- A request changes the last dword of a Link block, and nothing else. -/
theorem requestTrb_memory (s : ProducerRing) (a : Nat) :
    (s.requestTrb.2.memory a).dword0 = (s.memory a).dword0 ∧
      (s.requestTrb.2.memory a).dword2 = (s.memory a).dword2 := by
  have memory : s.requestTrb.2.memory =
      if (s.memory s.enqueuePointer).trbType = XhciTrbId.link.toU32 then
        Function.update s.memory s.enqueuePointer ((s.memory s.enqueuePointer).setBit 0 s.pcs)
      else s.memory := by
    rw [requestTrb]
    split <;> rfl
  rw [memory]
  split
  · rw [Function.update_apply]
    split
    next here =>
      rw [here]
      exact ⟨rfl, rfl⟩
    next => exact ⟨rfl, rfl⟩
  · exact ⟨rfl, rfl⟩

private theorem keepsSizes_requestTrb (s : ProducerRing) : KeepsSizes s s.requestTrb.2 :=
  ⟨fun a => congrArg (BitVec.extractLsb' 17 5) (requestTrb_memory s a).2⟩

private theorem keepsSizes_write (s : ProducerRing) (a : Nat) {trb : RawXhciTrb}
    (same : trb.dword2.extractLsb' 17 5 = (s.memory a).dword2.extractLsb' 17 5) :
    KeepsSizes s (s.write a trb) := by
  refine ⟨fun b => ?_⟩
  show (Function.update s.memory a trb b).dword2.extractLsb' 17 5 = _
  rw [Function.update_apply]
  split
  next here => rw [same, here]
  next => rfl

private theorem setupTrb_size (trb : RawXhciTrb) (request : UsbStandardDeviceRequest)
    (wValue : BitVec 16) (trt : BitVec 32) (cycle : Bool) :
    (setupTrb trb request wValue trt cycle).dword2.extractLsb' 17 5 =
      trb.dword2.extractLsb' 17 5 :=
  (extract_setInterrupterTarget 0 (by decide)).trans
    (extract_setTransferLength 8 (by decide) (by decide))

private theorem dataTrb_size (trb : RawXhciTrb) (buffer : BitVec 64) (length : BitVec 32)
    (cycle : Bool) :
    (dataTrb trb buffer length cycle).dword2.extractLsb' 17 5 = trb.dword2.extractLsb' 17 5 :=
  (extract_setInterrupterTarget 0 (by decide)).trans
    (extract_setTransferLength length (by decide) (by decide))

private theorem statusTrb_size (trb : RawXhciTrb) (interrupterTarget : BitVec 16)
    (ioc direction cycle : Bool) :
    (statusTrb trb interrupterTarget ioc direction cycle).dword2.extractLsb' 17 5 =
      trb.dword2.extractLsb' 17 5 := extract_setInterrupterTarget interrupterTarget (by decide)

/-- The Setup Stage block of a request without data. -/
def noDataSetup (s : ProducerRing) (request : UsbStandardDeviceRequest) : RawXhciTrb :=
  setupTrb (s.requestTrb.2.requestTrb.2.memory s.requestTrb.1.1) request
    ((s.requestTrb.2.requestTrb.2.memory s.requestTrb.1.1).dword0.extractLsb' 16 16) 0
    s.requestTrb.1.2

private theorem noDataSetup_size (s : ProducerRing) (request : UsbStandardDeviceRequest) :
    (noDataSetup s request).dword2.extractLsb' 17 5 =
      (s.requestTrb.2.requestTrb.2.memory s.requestTrb.1.1).dword2.extractLsb' 17 5 :=
  setupTrb_size _ request _ 0 _

/-- The Setup Stage block of a read. -/
def readSetupTrb (s : ProducerRing) (request : UsbStandardDeviceRequest) : RawXhciTrb :=
  setupTrb (s.requestTrb.2.requestTrb.2.requestTrb.2.memory s.requestTrb.1.1) request
    request.wValue 3 s.requestTrb.1.2

private theorem readSetupTrb_size (s : ProducerRing) (request : UsbStandardDeviceRequest) :
    (readSetupTrb s request).dword2.extractLsb' 17 5 =
      (s.requestTrb.2.requestTrb.2.requestTrb.2.memory s.requestTrb.1.1).dword2.extractLsb' 17 5 :=
  setupTrb_size _ request _ 3 _

private theorem keepsSizes_transfer {t : ControlTransfer} (ran : transfer s t = some s') :
    KeepsSizes s s' := by
  have requests := (keepsSizes_requestTrb s).trans (keepsSizes_requestTrb s.requestTrb.2)
  cases t with
  | noData request interrupterTarget ioc =>
    obtain rfl := Option.some.inj ran
    apply requests.trans
    show KeepsSizes _ (((s.requestTrb.2.requestTrb.2.write _ _).write _ _).ringDoorbell)
    apply KeepsSizes.trans
    · exact keepsSizes_write _ s.requestTrb.1.1 (noDataSetup_size s request)
    · exact ⟨(keepsSizes_write _ _ (statusTrb_size _ interrupterTarget ioc _ _)).same⟩
  | read request interrupterTarget buffer bufferLen ioc =>
    obtain rfl := Option.some.inj ran
    apply (requests.trans (keepsSizes_requestTrb s.requestTrb.2.requestTrb.2)).trans
    show KeepsSizes _ ((((s.requestTrb.2.requestTrb.2.requestTrb.2.write _ _).write _ _).write _
      _).ringDoorbell)
    apply KeepsSizes.trans
    · exact keepsSizes_write _ s.requestTrb.1.1 (readSetupTrb_size s request)
    · apply KeepsSizes.trans
      · exact keepsSizes_write _ s.requestTrb.2.requestTrb.1.1
          (dataTrb_size _ buffer bufferLen s.requestTrb.2.requestTrb.1.2)
      · exact ⟨(keepsSizes_write _ _ (statusTrb_size _ interrupterTarget ioc _ _)).same⟩

/-- The blocks that a transfer writes say what it was called with, and nothing else. -/
def Encodes (s : ProducerRing) : ControlTransfer → Prop
  | .noData request interrupterTarget ioc =>
    let setup := s.requestTrb
    let status := setup.2.requestTrb
    ∃ trb trb', (s.sendControlNoData request interrupterTarget ioc).written =
        s.written ++ [(setup.1.1, trb), (status.1.1, trb')] ∧
      trb.readSetup = .of request 0 setup.1.2 ∧
      trb'.readStatus = .of interrupterTarget ioc true status.1.2
  | .read request interrupterTarget buffer bufferLen ioc =>
    let setup := s.requestTrb
    let data := setup.2.requestTrb
    let status := data.2.requestTrb
    ∃ trb trb' trb'', (s.sendControlRead request interrupterTarget buffer bufferLen ioc).written =
        s.written ++ [(setup.1.1, trb), (data.1.1, trb'), (status.1.1, trb'')] ∧
      trb.readSetup = .of request 3 setup.1.2 ∧
      trb'.readData = .of buffer bufferLen data.1.2 ∧
      trb''.readStatus = .of interrupterTarget ioc false status.1.2

/-- The slot for the Setup Stage holds the value of the request already, or the length fits its
field. -/
def Fits (s : ProducerRing) : ControlTransfer → Prop
  | .noData request _ _ =>
    (s.memory s.requestTrb.1.1).dword0.extractLsb' 16 16 = request.wValue
  | .read _ _ _ bufferLen _ => bufferLen.toNat < 2 ^ 17

/-- The slots that a transfer is handed. -/
def handedTo (s : ProducerRing) : ControlTransfer → List Nat
  | .noData _ _ _ => [s.requestTrb.1.1, s.requestTrb.2.requestTrb.1.1]
  | .read _ _ _ _ _ => [s.requestTrb.1.1, s.requestTrb.2.requestTrb.1.1,
      s.requestTrb.2.requestTrb.2.requestTrb.1.1]

private theorem requestTrb_written (s : ProducerRing) : s.requestTrb.2.written = s.written := by
  rw [requestTrb]
  split <;> rfl

private theorem sendControlNoData_written (s : ProducerRing) (request : UsbStandardDeviceRequest)
    (interrupterTarget : BitVec 16) (ioc : Bool) :
    ∃ trb, (s.sendControlNoData request interrupterTarget ioc).written = s.written ++
      [(s.requestTrb.1.1, noDataSetup s request), (s.requestTrb.2.requestTrb.1.1,
        statusTrb trb interrupterTarget ioc true s.requestTrb.2.requestTrb.1.2)] := by
  refine ⟨(s.requestTrb.2.requestTrb.2.write s.requestTrb.1.1 (noDataSetup s request)).memory
    s.requestTrb.2.requestTrb.1.1, ?_⟩
  rw [← requestTrb_written s, ← requestTrb_written s.requestTrb.2]
  exact List.append_assoc _ [_] [_]

private theorem encodes_noData (s : ProducerRing) (request : UsbStandardDeviceRequest)
    (interrupterTarget : BitVec 16) (ioc : Bool) :
    s.Encodes (.noData request interrupterTarget ioc) ↔
      s.Fits (.noData request interrupterTarget ioc) := by
  have old : (s.requestTrb.2.requestTrb.2.memory s.requestTrb.1.1).dword0 =
      (s.memory s.requestTrb.1.1).dword0 :=
    (requestTrb_memory _ _).1.trans (requestTrb_memory _ _).1
  obtain ⟨last, written⟩ := sendControlNoData_written s request interrupterTarget ioc
  have setup := readSetup_setupTrb (s.requestTrb.2.requestTrb.2.memory s.requestTrb.1.1) request
    ((s.requestTrb.2.requestTrb.2.memory s.requestTrb.1.1).dword0.extractLsb' 16 16) 0
    s.requestTrb.1.2
  rw [old] at setup
  constructor
  · rintro ⟨trb, trb', same, encoded, _⟩
    have blocks := List.append_cancel_left (written.symm.trans same)
    simp only [List.cons.injEq, Prod.mk.injEq, true_and, and_true] at blocks
    rw [← blocks.1, noDataSetup, old] at encoded
    exact congrArg SetupStage.wValue (setup.symm.trans encoded)
  · intro fits
    refine ⟨_, _, written, ?_, readStatus_statusTrb _ _ _ _ _⟩
    have value : (s.memory s.requestTrb.1.1).dword0.extractLsb' 16 16 = request.wValue := fits
    rw [noDataSetup, old]
    refine setup.trans ?_
    rw [value]

private theorem sendControlRead_written (s : ProducerRing) (request : UsbStandardDeviceRequest)
    (interrupterTarget : BitVec 16) (buffer : BitVec 64) (bufferLen : BitVec 32) (ioc : Bool) :
    ∃ trb trb', trb.dword2.extractLsb' 17 5 =
        (s.memory s.requestTrb.2.requestTrb.1.1).dword2.extractLsb' 17 5 ∧
      (s.sendControlRead request interrupterTarget buffer bufferLen ioc).written = s.written ++
        [(s.requestTrb.1.1, readSetupTrb s request),
          (s.requestTrb.2.requestTrb.1.1, dataTrb trb buffer bufferLen
            s.requestTrb.2.requestTrb.1.2),
          (s.requestTrb.2.requestTrb.2.requestTrb.1.1, statusTrb trb' interrupterTarget ioc false
            s.requestTrb.2.requestTrb.2.requestTrb.1.2)] := by
  let setup := s.requestTrb.2.requestTrb.2.requestTrb.2.write s.requestTrb.1.1
    (readSetupTrb s request)
  let data := setup.write s.requestTrb.2.requestTrb.1.1
    (dataTrb (setup.memory s.requestTrb.2.requestTrb.1.1) buffer bufferLen
      s.requestTrb.2.requestTrb.1.2)
  refine ⟨setup.memory s.requestTrb.2.requestTrb.1.1,
    data.memory s.requestTrb.2.requestTrb.2.requestTrb.1.1, ?_, ?_⟩
  · have requests := ((keepsSizes_requestTrb s).trans
      (keepsSizes_requestTrb s.requestTrb.2)).trans
        (keepsSizes_requestTrb s.requestTrb.2.requestTrb.2)
    exact (requests.trans (keepsSizes_write _ _ (readSetupTrb_size s request))).same _
  · rw [← requestTrb_written s, ← requestTrb_written s.requestTrb.2,
      ← requestTrb_written s.requestTrb.2.requestTrb.2]
    exact (List.append_assoc (_ ++ [_]) [_] [_]).trans (List.append_assoc _ [_] [_, _])

private theorem encodes_read (s : ProducerRing)
    (clear : (s.memory s.requestTrb.2.requestTrb.1.1).dword2.extractLsb' 17 5 = 0)
    (request : UsbStandardDeviceRequest) (interrupterTarget : BitVec 16) (buffer : BitVec 64)
    (bufferLen : BitVec 32) (ioc : Bool) :
    s.Encodes (.read request interrupterTarget buffer bufferLen ioc) ↔
      s.Fits (.read request interrupterTarget buffer bufferLen ioc) := by
  obtain ⟨trb, trb', size, written⟩ :=
    sendControlRead_written s request interrupterTarget buffer bufferLen ioc
  have data := readData_dataTrb (size.trans clear) buffer bufferLen s.requestTrb.2.requestTrb.1.2
  constructor
  · rintro ⟨_, block, _, same, _, encoded, _⟩
    have blocks := List.append_cancel_left (written.symm.trans same)
    simp only [List.cons.injEq, Prod.mk.injEq, true_and, and_true] at blocks
    rw [← blocks.2.1] at encoded
    exact data.mp encoded
  · intro fits
    exact ⟨_, _, _, written, readSetup_setupTrb _ request _ 3 _, data.mpr fits,
      readStatus_statusTrb _ _ _ _ _⟩

/-- Behind any sequence of transfers on slots that were clear. -/
theorem encodes_iff (clear : ClearSizes slots start)
    (run : Requests.Run transfer (fun _ _ => True) start s) (t : ControlTransfer)
    (inside : ∀ a ∈ s.handedTo t, slots a) : s.Encodes t ↔ s.Fits t := by
  have kept : ClearSizes slots s := run.keeps clear fun _ _ _ clear _ ran a member =>
    ((keepsSizes_transfer ran).same a).trans (clear a member)
  cases t with
  | noData request interrupterTarget ioc => exact encodes_noData s request interrupterTarget ioc
  | read request interrupterTarget buffer bufferLen ioc =>
    refine encodes_read s (kept _ (inside _ ?_)) request interrupterTarget buffer bufferLen ioc
    exact List.mem_cons_of_mem _ (List.mem_cons_self ..)

/-- The ring of a device that was given an address. -/
def addressedRing : ProducerRing :=
  (controlRing 1 fun _ => .zero).sendControlNoData ⟨0, 5, 1, 0, 0⟩ 0 true

/-- A descriptor is read behind the request that gave the device its address. -/
theorem encodes_iff_read :
    addressedRing.Encodes (.read ⟨0x80, 6, 0x100, 0, 18⟩ 0 0x5000 18 true) := by
  have clear : ClearSizes (fun _ => True) (controlRing 1 fun _ => .zero) := by
    intro a _
    have zero : (controlRing 1 fun _ => .zero).memory a = .zero := ite_self _
    rw [zero]
    rfl
  have run : Requests.Run transfer (fun _ _ => True) (controlRing 1 fun _ => .zero)
      addressedRing := .single ⟨.noData ⟨0, 5, 1, 0, 0⟩ 0 true, trivial, rfl⟩
  exact (encodes_iff clear run (.read ⟨0x80, 6, 0x100, 0, 18⟩ 0 0x5000 18 true)
    fun _ _ => trivial).mpr (by
      show (18#32).toNat < 2 ^ 17
      decide)

/-- A configuration is chosen: its number is not written. -/
theorem not_encodes_configuration : ¬(controlRing 1 fun _ => .zero).Encodes
    (.noData ⟨0, 9, 1, 0, 0⟩ 0 true) := by
  rw [encodes_noData]
  show ¬(((controlRing 1 fun _ => .zero).memory _).dword0.extractLsb' 16 16 = 1#16)
  have zero (a : Nat) : (controlRing 1 fun _ => .zero).memory a = .zero := ite_self _
  rw [zero]
  decide

end ProducerRing

end EmkKernel
