import Mathlib.Algebra.Ring.Nat
import Mathlib.Data.Set.Lattice
import Mathlib.Order.CompletePartialOrder
import Mathlib.Tactic.Common

/-!
# Fields of 32-bit words

A word of a hardware structure holds flags, parts under a mask and a pointer to an aligned
address, whose low bits are free for the flags. Words are compared bit by bit.
-/

namespace WordFields

/-- A flag is written. -/
def setBit (word : BitVec 32) (position : Nat) (value : Bool) : BitVec 32 :=
  word &&& ~~~(1#32 <<< position) ||| (BitVec.ofBool value).setWidth 32 <<< position

/-- The bits of a mask are written. -/
def setPart (word mask : BitVec 32) (position : Nat) (value : BitVec 32) : BitVec 32 :=
  word &&& ~~~(mask <<< position) ||| (value &&& mask) <<< position

/-- The bits of a mask are read. -/
def getPart (word mask : BitVec 32) (position : Nat) : BitVec 32 := word >>> position &&& mask

theorem getLsbD_setBit (word : BitVec 32) {position i : Nat} (value : Bool) (inside : i < 32) :
    (setBit word position value).getLsbD i = if i = position then value else word.getLsbD i := by
  have one : ∀ n, (1#32).getLsbD n = decide (n = 0) := fun n => by simp
  have flag : ∀ n, ((BitVec.ofBool value).setWidth 32).getLsbD n = (decide (n = 0) && value) := by
    intro n
    cases value <;> cases n <;> simp
  rw [setBit, BitVec.getLsbD_or, BitVec.getLsbD_and, BitVec.getLsbD_not, BitVec.getLsbD_shiftLeft,
    BitVec.getLsbD_shiftLeft, one, flag]
  by_cases here : i = position
  · subst here
    simp [inside]
  · by_cases before : i < position
    · simp [here, before, inside]
    · have apart : i - position ≠ 0 := by omega
      simp [here, before, inside, apart]

theorem getLsbD_one_shift {w position i : Nat} (inside : i < w) :
    (1#w <<< position).getLsbD i = decide (i = position) := by
  rw [BitVec.getLsbD_shiftLeft, BitVec.getLsbD_one, decide_eq_true inside, Bool.true_and]
  by_cases before : i < position
  · simp [before, Nat.ne_of_lt before]
  · by_cases here : i = position
    · subst here
      simp [Nat.zero_lt_of_lt inside]
    · have apart : i - position ≠ 0 := by omega
      simp [here, apart]

/-- Setting a flag is a disjunction. -/
theorem or_one_shift (word : BitVec 32) (position : Nat) :
    word ||| 1#32 <<< position = setBit word position true := by
  apply BitVec.eq_of_getLsbD_eq
  intro i small
  rw [getLsbD_setBit _ _ small, BitVec.getLsbD_or, getLsbD_one_shift small]
  by_cases here : i = position <;> simp [here]

theorem getLsbD_setPart (word mask : BitVec 32) {position i : Nat} (value : BitVec 32)
    (inside : i < 32) :
    (setPart word mask position value).getLsbD i =
      if position ≤ i ∧ mask.getLsbD (i - position) = true then value.getLsbD (i - position)
      else word.getLsbD i := by
  rw [setPart, BitVec.getLsbD_or, BitVec.getLsbD_and, BitVec.getLsbD_not, BitVec.getLsbD_shiftLeft,
    BitVec.getLsbD_shiftLeft, BitVec.getLsbD_and]
  by_cases before : i < position
  · have behind : ¬position ≤ i := by omega
    simp [before, behind, inside]
  · have from' : position ≤ i := by omega
    cases mask.getLsbD (i - position) <;> simp [before, from', inside]

/-- A part that lies in the word is read as it was written. -/
theorem getPart_setPart (word value : BitVec 32) {mask : BitVec 32} {position : Nat}
    (inside : ∀ i < 32, mask.getLsbD i = true → position + i < 32) :
    getPart (setPart word mask position value) mask position = value &&& mask := by
  apply BitVec.eq_of_getLsbD_eq
  intro i small
  rw [getPart, BitVec.getLsbD_and, BitVec.getLsbD_ushiftRight, BitVec.getLsbD_and]
  by_cases masked : mask.getLsbD i = true
  · have here : position ≤ position + i ∧ mask.getLsbD (position + i - position) = true := by
      rw [Nat.add_sub_cancel_left]
      exact ⟨Nat.le_add_right .., masked⟩
    rw [getLsbD_setPart _ _ _ (inside i small masked), if_pos here, Nat.add_sub_cancel_left]
  · rw [Bool.eq_false_iff.mpr masked, Bool.and_false, Bool.and_false]

/-- A part is not changed by another one. -/
theorem getPart_setPart_other (word value : BitVec 32) {mask mask' : BitVec 32}
    {position position' : Nat} (apart : ∀ i < 32, mask.getLsbD i = true →
      ¬(position' ≤ position + i ∧ mask'.getLsbD (position + i - position') = true)) :
    getPart (setPart word mask' position' value) mask position = getPart word mask position := by
  apply BitVec.eq_of_getLsbD_eq
  intro i small
  rw [getPart, getPart, BitVec.getLsbD_and, BitVec.getLsbD_and, BitVec.getLsbD_ushiftRight,
    BitVec.getLsbD_ushiftRight]
  by_cases masked : mask.getLsbD i = true
  · by_cases inside : position + i < 32
    · rw [getLsbD_setPart _ _ _ inside, if_neg (apart i small masked)]
    · rw [BitVec.getLsbD_of_ge _ _ (Nat.le_of_not_lt inside),
        BitVec.getLsbD_of_ge _ _ (Nat.le_of_not_lt inside)]
  · rw [Bool.eq_false_iff.mpr masked, Bool.and_false, Bool.and_false]

/-- A part is not changed by a flag. -/
theorem getPart_setBit (word : BitVec 32) (value : Bool) {mask : BitVec 32}
    {position position' : Nat}
    (apart : ∀ i < 32, mask.getLsbD i = true → position + i ≠ position') :
    getPart (setBit word position' value) mask position = getPart word mask position := by
  apply BitVec.eq_of_getLsbD_eq
  intro i small
  rw [getPart, getPart, BitVec.getLsbD_and, BitVec.getLsbD_and, BitVec.getLsbD_ushiftRight,
    BitVec.getLsbD_ushiftRight]
  by_cases masked : mask.getLsbD i = true
  · by_cases inside : position + i < 32
    · rw [getLsbD_setBit _ _ inside, if_neg (apart i small masked)]
    · rw [BitVec.getLsbD_of_ge _ _ (Nat.le_of_not_lt inside),
        BitVec.getLsbD_of_ge _ _ (Nat.le_of_not_lt inside)]
  · rw [Bool.eq_false_iff.mpr masked, Bool.and_false, Bool.and_false]

/-- The low bits of an aligned address are free. -/
theorem getLsbD_aligned {address bits i : Nat} (aligned : 2 ^ bits ∣ address) (low : i < bits) :
    (BitVec.ofNat 32 address).getLsbD i = false := by
  obtain ⟨k, rfl⟩ := aligned
  rw [BitVec.getLsbD_ofNat, Nat.mul_comm, Nat.testBit_mul_two_pow]
  simp [low]

theorem getLsbD_shift_back (word : BitVec 32) (bits : Nat) {i : Nat} (small : i < 32) :
    (word >>> bits <<< bits).getLsbD i = if bits ≤ i then word.getLsbD i else false := by
  rw [BitVec.getLsbD_shiftLeft, BitVec.getLsbD_ushiftRight, decide_eq_true small, Bool.true_and]
  split
  next high =>
    rw [decide_eq_false (Nat.not_lt.mpr high), Nat.add_sub_cancel' high]
    rfl
  next low => rw [decide_eq_true (Nat.lt_of_not_le low), Bool.not_true, Bool.false_and]

/-- The pointer to an aligned address, where the low bits are shifted out. -/
theorem shift_pointer_eq {word : BitVec 32} {address bits : Nat} (aligned : 2 ^ bits ∣ address)
    (high : ∀ i < 32, bits ≤ i → word.getLsbD i = (BitVec.ofNat 32 address).getLsbD i) :
    (word >>> bits <<< bits).toNat = address % 2 ^ 32 := by
  have same : word >>> bits <<< bits = BitVec.ofNat 32 address := by
    apply BitVec.eq_of_getLsbD_eq
    intro i small
    rw [getLsbD_shift_back _ _ small]
    split
    next above => rw [high i small above]
    next low => rw [getLsbD_aligned aligned (Nat.lt_of_not_le low)]
  rw [same, BitVec.toNat_ofNat]

/-- The low bits of one word and the high bits of another one. -/
theorem getLsbD_low_or_high (low high : BitVec 32) {i : Nat} (inside : i < 32) :
    (low &&& 0xF ||| high &&& ~~~0xF#32).getLsbD i =
      if i < 4 then low.getLsbD i else high.getLsbD i := by
  have mask : ∀ i < 32, (0xF#32).getLsbD i = decide (i < 4) := by decide
  change (low &&& 0xF#32 ||| high &&& ~~~0xF#32).getLsbD i = _
  rw [BitVec.getLsbD_or, BitVec.getLsbD_and, BitVec.getLsbD_and, BitVec.getLsbD_not,
    mask i inside, decide_eq_true inside, Bool.true_and]
  by_cases small : i < 4
  · rw [if_pos small, decide_eq_true small, Bool.and_true, Bool.not_true, Bool.and_false,
      Bool.or_false]
  · rw [if_neg small, decide_eq_false small, Bool.and_false, Bool.not_false, Bool.and_true,
      Bool.false_or]

theorem getLsbD_and_not_low (word : BitVec 32) {i : Nat} (inside : i < 32) :
    (word &&& ~~~0xF#32).getLsbD i = (decide (4 ≤ i) && word.getLsbD i) := by
  have mask : ∀ i < 32, (~~~0xF#32).getLsbD i = decide (4 ≤ i) := by decide
  rw [BitVec.getLsbD_and, mask i inside, Bool.and_comm]

/-- Words with the same high bits are the same pointer. -/
theorem and_not_low_congr {word word' : BitVec 32}
    (same : ∀ i < 32, 4 ≤ i → word.getLsbD i = word'.getLsbD i) :
    word &&& ~~~0xF#32 = word' &&& ~~~0xF#32 := by
  apply BitVec.eq_of_getLsbD_eq
  intro i inside
  rw [getLsbD_and_not_low _ inside, getLsbD_and_not_low _ inside]
  by_cases high : 4 ≤ i
  · rw [same i inside high]
  · rw [decide_eq_false high, Bool.false_and, Bool.false_and]

/-- An aligned address is its own pointer. -/
theorem and_not_low_ofNat {address : Nat} (aligned : 2 ^ 4 ∣ address) :
    BitVec.ofNat 32 address &&& ~~~0xF#32 = BitVec.ofNat 32 address := by
  apply BitVec.eq_of_getLsbD_eq
  intro i inside
  rw [getLsbD_and_not_low _ inside]
  by_cases high : 4 ≤ i
  · rw [decide_eq_true high, Bool.true_and]
  · rw [getLsbD_aligned aligned (Nat.lt_of_not_le high), Bool.and_false]

theorem shift_back_eq (word : BitVec 32) : word >>> 4 <<< 4 = word &&& ~~~0xF#32 := by
  apply BitVec.eq_of_getLsbD_eq
  intro i inside
  rw [getLsbD_shift_back _ _ inside, getLsbD_and_not_low _ inside]
  by_cases high : 4 ≤ i
  · rw [if_pos high, decide_eq_true high, Bool.true_and]
  · rw [if_neg high, decide_eq_false high, Bool.false_and]

/-- A flag is tested. -/
theorem and_one_shift_eq_zero_iff {w : Nat} (word : BitVec w) {position : Nat}
    (inside : position < w) :
    word &&& 1#w <<< position = 0 ↔ word.getLsbD position = false := by
  constructor
  · intro none
    have bit : (word &&& 1#w <<< position).getLsbD position = (0#w).getLsbD position :=
      congrArg (·.getLsbD position) none
    rw [BitVec.getLsbD_and, getLsbD_one_shift inside, decide_eq_true rfl, Bool.and_true] at bit
    exact bit.trans BitVec.getLsbD_zero
  · intro clear
    apply BitVec.eq_of_getLsbD_eq
    intro i small
    have zero : (0#w).getLsbD i = false := BitVec.getLsbD_zero
    rw [BitVec.getLsbD_and, getLsbD_one_shift small]
    refine Eq.trans ?_ zero.symm
    by_cases here : i = position
    · rw [here, clear, Bool.false_and]
    · rw [decide_eq_false here, Bool.and_false]

/-- A part whose bits are those of a number is that number. -/
theorem getPart_eq_ofNat {word mask : BitVec 32} {position bits value : Nat}
    (few : value < 2 ^ bits) (wide : ∀ i < 32, mask.getLsbD i = decide (i < bits))
    (found : ∀ i < bits, word.getLsbD (position + i) = value.testBit i) :
    getPart word mask position = BitVec.ofNat 32 value := by
  apply BitVec.eq_of_getLsbD_eq
  intro i inside
  rw [getPart, BitVec.getLsbD_and, wide i inside, BitVec.getLsbD_ushiftRight,
    BitVec.getLsbD_ofNat, decide_eq_true inside, Bool.true_and]
  by_cases small : i < bits
  · rw [decide_eq_true small, Bool.and_true, found i small]
  · have more : 2 ^ bits ≤ 2 ^ i := Nat.pow_le_pow_right (by decide) (Nat.le_of_not_lt small)
    rw [decide_eq_false small, Bool.and_false,
      Nat.testBit_lt_two_pow (Nat.lt_of_lt_of_le few more)]

end WordFields
