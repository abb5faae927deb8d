import EmkKernel.Drivers.UhciInterruptQueues

/-!
# The descriptors of an interrupt endpoint

What the loops over descriptors do, and what is found in the link of the last one.
-/

namespace EmkKernel

open WordFields UhciControlEndpoint

namespace UhciTransferDescriptor

variable {td : UhciTransferDescriptor} {endpoint : UhciGeneralEndpoint} {deviceAddress : Byte}
  {lowSpeed vf toggle flip : Bool} {maxLen : Nat} {next : Option Nat} {length : BitVec 32}

theorem active_eq : td.active = td.status.getLsbD 7 := by
  rw [active, status, getPart, BitVec.getLsbD_and, BitVec.getLsbD_ushiftRight]
  exact (Bool.and_true _).symm

@[simp] theorem status_answered : (td.answered length).status = 0 := by
  rw [status, answered, setActLen, setStatus, getPart_setPart_other _ _ (by decide),
    getPart_setPart _ _ (by decide)]
  rfl

@[simp] theorem status_recycled : (td.recycled flip).status = 1#32 <<< 7 := by
  rw [status, recycled]
  exact getPart_setPart _ _ (by decide)

@[simp] theorem actLen_recycled : (td.recycled flip).actLen = 0 := by
  rw [actLen, recycled]
  dsimp only [setStatus, setIoc, setActLen]
  rw [getPart_setPart_other _ _ (by decide), getPart_setBit _ _ (by decide),
    getPart_setPart _ _ (by decide)]
  rfl

@[simp] theorem toggle_recycled : (td.recycled flip).toggle = (td.toggle ^^ flip) := by
  cases flip with
  | false => exact (Bool.xor_false _).symm
  | true =>
    change (setBit td.token 19 (!td.toggle)).getLsbD 19 = _
    rw [getLsbD_setBit _ _ (by decide), if_pos rfl, Bool.xor_true]

@[simp] theorem link_recycled : (td.recycled flip).link = td.link := by
  cases flip <;> rfl

@[simp] theorem status_configured :
    (td.configured endpoint deviceAddress lowSpeed maxLen toggle).status = 1#32 <<< 7 := by
  change getPart (setPart (setPart _ 0xFF 16 (1#32 <<< 7)) 0x7FF 0 0) 0xFF 16 = _
  rw [getPart_setPart_other _ _ (by decide), getPart_setPart _ _ (by decide)]
  rfl

@[simp] theorem toggle_configured :
    (td.configured endpoint deviceAddress lowSpeed maxLen toggle).toggle = toggle := by
  change (setBit _ 19 toggle).getLsbD 19 = _
  rw [getLsbD_setBit _ _ (by decide), if_pos rfl]

@[simp] theorem link_configured :
    (td.configured endpoint deviceAddress lowSpeed maxLen toggle).link = td.link := rfl

@[simp] theorem status_writeLinkPointer (value : BitVec 32) :
    (td.writeLinkPointer value).status = td.status := rfl

@[simp] theorem toggle_writeLinkPointer (value : BitVec 32) :
    (td.writeLinkPointer value).toggle = td.toggle := rfl

end UhciTransferDescriptor

open UhciTransferDescriptor

/-! ### Loops over descriptors -/

/-- A loop changes each descriptor of an array by itself, and nothing else. -/
structure ChangesEach (memory memory' : Nat → UhciTransferDescriptor) (address n : Nat)
    (f : Nat → UhciTransferDescriptor → UhciTransferDescriptor) : Prop where
  at_td : ∀ i < n, memory' (tdAddress address i) = f i (memory (tdAddress address i))
  other : ∀ x, (∀ i < n, x ≠ tdAddress address i) → memory' x = memory x

private theorem tdAddress_succ (address i : Nat) :
    tdAddress (address + 16) i = tdAddress address (i + 1) := by
  unfold tdAddress
  omega

namespace ChangesEach

variable {memory memory' memory'' : Nat → UhciTransferDescriptor} {address n : Nat}
  {f g : Nat → UhciTransferDescriptor → UhciTransferDescriptor}

theorem zero : ChangesEach memory memory address 0 f where
  at_td i less := absurd less (Nat.not_lt_zero i)
  other _ _ := rfl

/-- The first step of a loop, and the others. -/
theorem succ (rest : ChangesEach (Function.update memory address (f 0 (memory address))) memory'
    (address + 16) n fun i => f (i + 1)) : ChangesEach memory memory' address (n + 1) f := by
  have first : tdAddress address 0 = address := rfl
  constructor
  · intro i less
    cases i with
    | zero =>
      have apart : ∀ i < n, address ≠ tdAddress (address + 16) i := by
        intro i _
        unfold tdAddress
        omega
      rw [first, rest.other address apart, Function.update_self]
    | succ i =>
      have other : tdAddress address (i + 1) ≠ address := by
        unfold tdAddress
        omega
      rw [← tdAddress_succ, rest.at_td i (Nat.lt_of_succ_lt_succ less), tdAddress_succ,
        Function.update_of_ne other]
  · intro x apart
    have here : x ≠ address := apart 0 (Nat.zero_lt_succ n)
    rw [rest.other x fun i less => tdAddress_succ address i ▸ apart _ (Nat.succ_lt_succ less),
      Function.update_of_ne here]

theorem trans (first : ChangesEach memory memory' address n f)
    (second : ChangesEach memory' memory'' address n g) :
    ChangesEach memory memory'' address n fun i td => g i (f i td) where
  at_td i less := by rw [second.at_td i less, first.at_td i less]
  other x apart := by rw [second.other x apart, first.other x apart]

/-- A write to one of the descriptors. -/
theorem update (changes : ChangesEach memory memory' address n f) {k : Nat} (small : k < n)
    (h : UhciTransferDescriptor → UhciTransferDescriptor) :
    ChangesEach memory (Function.update memory' (tdAddress address k)
      (h (memory' (tdAddress address k)))) address n
        fun i td => if i = k then h (f i td) else f i td := by
  constructor
  · intro i less
    by_cases here : i = k
    · rw [here, Function.update_self, if_pos rfl, changes.at_td k small]
    · rw [Function.update_of_ne (tdAddress_ne here), if_neg here, changes.at_td i less]
  · intro x apart
    rw [Function.update_of_ne (apart k small), changes.other x apart]

end ChangesEach

namespace UhciInterfaceData

variable {memory memory' : Nat → UhciTransferDescriptor} {lowSpeed vf flip : Bool}
  {endpoint : UhciGeneralEndpoint} {deviceAddress : Byte}

theorem constructClosedTdList_changes (n address : Nat) (memory : Nat → UhciTransferDescriptor) :
    ChangesEach memory (constructClosedTdList lowSpeed vf n address memory) address n fun i td =>
      td.closed (if i + 1 = n then none else some (tdAddress address (i + 1))) lowSpeed vf := by
  induction n generalizing address memory with
  | zero => exact .zero
  | succ n ih =>
    have next : (if n = 0 then none else some (address + 16)) =
        if 0 + 1 = n + 1 then none else some (tdAddress address (0 + 1)) := by
      by_cases last : n = 0
      · rw [if_pos last, if_pos (by omega)]
      · rw [if_neg last, if_neg (by omega)]
        rfl
    rw [constructClosedTdList, next]
    refine ChangesEach.succ ?_
    have rest := ih (address + 16) (Function.update memory address ((memory address).closed
      (if 0 + 1 = n + 1 then none else some (tdAddress address (0 + 1))) lowSpeed vf))
    simpa only [tdAddress_succ, Nat.add_right_cancel_iff] using rest

/-- The packets are filled one after the other, with alternating toggles. -/
theorem configureTransferDescriptors_changes (n : Nat) {address lengthRem : Nat} {toggle : Bool}
    (ran : configureTransferDescriptors endpoint deviceAddress lowSpeed n address toggle lengthRem
      memory = some memory') :
    ChangesEach memory memory' address n fun i td => td.configured endpoint deviceAddress lowSpeed
      (min 64 (lengthRem - 64 * i) - 1) (toggle ^^ decide (i % 2 = 1)) := by
  induction n generalizing address lengthRem toggle memory with
  | zero =>
    cases ran
    exact .zero
  | succ n ih =>
    rw [configureTransferDescriptors] at ran
    split at ran
    · cases ran
    · refine ChangesEach.succ ?_
      have took : (if lengthRem > 64 then 64 else lengthRem) = min 64 (lengthRem - 64 * 0) := by
        split <;> omega
      have even : (toggle ^^ decide (0 % 2 = 1)) = toggle := Bool.xor_false toggle
      rw [took] at ran
      have rest := ih ran
      rw [even]
      convert rest using 4 with i td
      · congr 2
        omega
      · by_cases odd : i % 2 = 1
        · rw [decide_eq_true odd, decide_eq_false (by omega), Bool.xor_false, Bool.xor_true,
            Bool.not_not]
        · rw [decide_eq_false odd, decide_eq_true (by omega), Bool.xor_false, Bool.xor_true]

/-- The descriptors are recycled where each of them was answered. -/
theorem recycleTds_changes (n : Nat) {address : Nat}
    (answered : ∀ i < n, (memory (tdAddress address i)).status = 0) :
    ∃ memory', recycleTds flip n address memory = some memory' ∧
      ChangesEach memory memory' address n fun _ td => td.recycled flip := by
  induction n generalizing address memory with
  | zero => exact ⟨memory, rfl, .zero⟩
  | succ n ih =>
    have first : ¬(memory address).status ≠ 0 := not_not.mpr (answered 0 (Nat.zero_lt_succ n))
    let next := Function.update memory address ((memory address).recycled flip)
    have later (i) (less : i < n) : (next (tdAddress (address + 16) i)).status = 0 := by
      have other : tdAddress address (i + 1) ≠ address := by
        unfold tdAddress
        omega
      rw [tdAddress_succ]
      refine (congrArg status (Function.update_of_ne other ..)).trans ?_
      exact answered (i + 1) (Nat.succ_lt_succ less)
    obtain ⟨memory', ran, rest⟩ := ih later
    refine ⟨memory', ?_, rest.succ⟩
    rw [recycleTds, if_neg first]
    exact ran

/-! ### The link of the last descriptor -/

section

variable {offset length : Nat}

theorem getLsbD_interruptLink {i : Nat} (inside : i < 32) :
    (interruptLink offset length).getLsbD i = (decide (i = 29) ||
      (decide (12 ≤ i ∧ i < 24) && offset.testBit (i - 12)) ||
        (decide (4 ≤ i ∧ i < 12) && length.testBit (i - 4))) := by
  have flag : ∀ i < 32, queueHeadWasInterrupt.getLsbD i = decide (i = 29) := by decide
  have wide : ∀ i < 32, (0xFFF#32).getLsbD i = decide (i < 12) := by decide
  have narrow : ∀ i < 32, (0xFF#32).getLsbD i = decide (i < 8) := by decide
  change (queueHeadWasInterrupt ||| (BitVec.ofNat 32 offset &&& 0xFFF#32) <<< 12 |||
    (BitVec.ofNat 32 length &&& 0xFF#32) <<< 4).getLsbD i = _
  rw [BitVec.getLsbD_or, BitVec.getLsbD_or, flag i inside, BitVec.getLsbD_shiftLeft,
    BitVec.getLsbD_shiftLeft, BitVec.getLsbD_and, BitVec.getLsbD_and, wide _ (by omega),
    narrow _ (by omega), BitVec.getLsbD_ofNat, BitVec.getLsbD_ofNat]
  grind

/-- The place of the descriptors is found in the link again. -/
theorem getPart_offset (few : offset < 2 ^ 12) :
    getPart (interruptLink offset length) 0xFFF 12 = BitVec.ofNat 32 offset := by
  refine getPart_eq_ofNat few (by decide) fun i small => ?_
  have apart : ¬(4 ≤ 12 + i ∧ 12 + i < 12) ∧ 12 + i ≠ 29 := by omega
  have here : 12 ≤ 12 + i ∧ 12 + i < 24 := by omega
  rw [getLsbD_interruptLink (by omega)]
  simp [apart, here]

/-- And their number. -/
theorem getPart_length (few : length < 2 ^ 8) :
    getPart (interruptLink offset length) 0xFF 4 = BitVec.ofNat 32 length := by
  refine getPart_eq_ofNat few (by decide) fun i small => ?_
  have apart : ¬(12 ≤ 4 + i ∧ 4 + i < 24) ∧ 4 + i ≠ 29 := by omega
  have here : 4 ≤ 4 + i ∧ 4 + i < 12 := by omega
  rw [getLsbD_interruptLink (by omega)]
  simp [apart, here]

theorem pointer_interruptLink :
    interruptLink offset length &&& ~~~0xF#32 = interruptLink offset length := by
  apply BitVec.eq_of_getLsbD_eq
  intro i inside
  rw [getLsbD_and_not_low _ inside, getLsbD_interruptLink inside]
  by_cases high : 4 ≤ i
  · rw [decide_eq_true high, Bool.true_and]
  · have low : ¬(12 ≤ i ∧ i < 24) ∧ ¬(4 ≤ i ∧ i < 12) ∧ i ≠ 29 := by omega
    simp [high, low]

end

end UhciInterfaceData

end EmkKernel
