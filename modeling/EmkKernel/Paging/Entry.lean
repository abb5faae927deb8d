import EmkKernel.Memory.Basic
import Mathlib.Data.Nat.Bitwise

/-!
# Page table entries

An entry is a quadword: the address of a frame in bits 12 to 51 and flags in the
bits below. The code masks only the lower twelve bits, the processor also ignores
the upper twelve.
-/

namespace EmkKernel

abbrev Entry := BitVec 64

abbrev Flags := BitVec 16

def pagerPageSize : Flags := 1 <<< 7
def pagerStabAllocated : Flags := 1 <<< 8
def pager2Mib : Nat := 0x200000
def pager1Gib : Nat := 0x40000000
def pager512Gib : Nat := 0x8000000000
def pagerUs : Flags := 1 <<< 2
def pagerRw : Flags := 1 <<< 1
def pagerPresent : Flags := 1
def pagerPat : Flags := 1 <<< 12
def pagerPat2 : Flags := 1 <<< 7

namespace Entry

/-- `entry & !0xFFF`. -/
def address (e : Entry) : BitVec 64 := e &&& ~~~0xFFF#64

/-- `entry as u16 & 0xFFF`. -/
def flags (e : Entry) : Flags := e.setWidth 16 &&& 0xFFF

/-- `address | flags as u64`. -/
def pack (address : BitVec 64) (flags : Flags) : Entry := address ||| flags.setWidth 64

/-- The frame the processor takes from an entry. -/
def frame (e : Entry) : BitVec 64 := e &&& 0x000FFFFFFFFFF000#64

def present (e : Entry) : Bool := e.getLsbD 0
def writable (e : Entry) : Bool := e.getLsbD 1
def user (e : Entry) : Bool := e.getLsbD 2
def pageSize (e : Entry) : Bool := e.getLsbD 7
def stabAllocated (e : Entry) : Bool := e.getLsbD 8

/-- `*location & mask as u64 != 0`. -/
def any (e : Entry) (mask : Flags) : Bool := e &&& mask.setWidth 64 ≠ 0

end Entry

/-- `flags & mask != 0`. -/
def Flags.any (flags mask : Flags) : Bool := flags &&& mask ≠ 0

/-- The flag words that mapping functions accept: no reserved bit, no page size. -/
def Flags.Accepted (flags : Flags) : Prop := flags.any 0xF0A0 = false

instance (flags : Flags) : Decidable flags.Accepted := inferInstanceAs (Decidable (_ = _))

/-- The address of a page frame: page aligned and at most 52 bits wide. -/
def IsFrame (f : BitVec 64) : Prop := Entry.frame f = f

instance (f : BitVec 64) : Decidable (IsFrame f) := inferInstanceAs (Decidable (_ = _))

/-! ### Bits of masks -/

private theorem getLsbD_of_small {w : Nat} (v : BitVec w) (p : Nat → Bool)
    (bits : ∀ k : Fin w, v.getLsbD k = p k) (outside : ∀ k, w ≤ k → p k = false) (k : Nat) :
    v.getLsbD k = p k := by
  by_cases small : k < w
  · exact bits ⟨k, small⟩
  · rw [BitVec.getLsbD_of_ge v k (by omega), outside k (by omega)]

private theorem getLsbD_pageMask (k : Nat) : (0xFFF#64).getLsbD k = decide (k < 12) :=
  getLsbD_of_small _ (fun k => decide (k < 12)) (by decide) (by simp; omega) k

private theorem getLsbD_frameMask (k : Nat) :
    (0x000FFFFFFFFFF000#64).getLsbD k = decide (12 ≤ k ∧ k < 52) :=
  getLsbD_of_small _ (fun k => decide (12 ≤ k ∧ k < 52)) (by decide) (by simp; omega) k

private theorem any_eq_bit {w : Nat} (v mask : BitVec w) (k : Nat)
    (single : ∀ i, mask.getLsbD i = decide (i = k)) :
    decide (v &&& mask ≠ 0) = v.getLsbD k := by
  rw [Bool.eq_iff_iff, decide_eq_true_eq]
  constructor
  · intro nonzero
    by_contra unset
    apply nonzero
    apply BitVec.eq_of_getLsbD_eq
    intro i _
    by_cases here : i = k
    · simp [here, unset]
    · simp [single, here]
  · intro set zero
    have bit := congrArg (fun v => BitVec.getLsbD v k) zero
    simp [set, single] at bit

private theorem getLsbD_flag (k : Nat) (small : k < 16) (i : Nat) :
    ((1 <<< k : Flags)).getLsbD i = decide (i = k) := by
  have power : (1 <<< k : Flags) = BitVec.twoPow 16 k := (BitVec.twoPow_eq 16 k).symm
  rw [power, BitVec.getLsbD_twoPow]
  simp [small, eq_comm]

@[simp] theorem getLsbD_present (k : Nat) : pagerPresent.getLsbD k = decide (k = 0) :=
  getLsbD_flag 0 (by decide) k

@[simp] theorem getLsbD_rw (k : Nat) : pagerRw.getLsbD k = decide (k = 1) :=
  getLsbD_flag 1 (by decide) k

@[simp] theorem getLsbD_us (k : Nat) : pagerUs.getLsbD k = decide (k = 2) :=
  getLsbD_flag 2 (by decide) k

@[simp] theorem getLsbD_pageSize (k : Nat) : pagerPageSize.getLsbD k = decide (k = 7) :=
  getLsbD_flag 7 (by decide) k

@[simp] theorem getLsbD_stab (k : Nat) : pagerStabAllocated.getLsbD k = decide (k = 8) :=
  getLsbD_flag 8 (by decide) k

@[simp] theorem getLsbD_pat (k : Nat) : pagerPat.getLsbD k = decide (k = 12) :=
  getLsbD_flag 12 (by decide) k

@[simp] theorem getLsbD_pat2 (k : Nat) : pagerPat2.getLsbD k = decide (k = 7) :=
  getLsbD_flag 7 (by decide) k

theorem Flags.any_flag (flags : Flags) (k : Nat) (small : k < 16) :
    flags.any (1 <<< k) = flags.getLsbD k :=
  any_eq_bit flags _ k (getLsbD_flag k small)

theorem Entry.any_flag (e : Entry) (k : Nat) (small : k < 16) :
    e.any (1 <<< k) = e.getLsbD k := by
  refine any_eq_bit e _ k fun i => ?_
  rw [BitVec.getLsbD_setWidth, getLsbD_flag k small]
  by_cases here : i = k
  · simp [here]; omega
  · simp [here]

@[simp] theorem Flags.any_present (flags : Flags) : flags.any pagerPresent = flags.getLsbD 0 :=
  flags.any_flag 0 (by decide)

@[simp] theorem Flags.any_rw (flags : Flags) : flags.any pagerRw = flags.getLsbD 1 :=
  flags.any_flag 1 (by decide)

@[simp] theorem Flags.any_us (flags : Flags) : flags.any pagerUs = flags.getLsbD 2 :=
  flags.any_flag 2 (by decide)

@[simp] theorem Flags.any_pageSize (flags : Flags) : flags.any pagerPageSize = flags.getLsbD 7 :=
  flags.any_flag 7 (by decide)

@[simp] theorem Flags.any_stab (flags : Flags) :
    flags.any pagerStabAllocated = flags.getLsbD 8 := flags.any_flag 8 (by decide)

@[simp] theorem Flags.any_pat (flags : Flags) : flags.any pagerPat = flags.getLsbD 12 :=
  flags.any_flag 12 (by decide)

@[simp] theorem Entry.any_present (e : Entry) : e.any pagerPresent = e.present :=
  e.any_flag 0 (by decide)

@[simp] theorem Entry.any_pageSize (e : Entry) : e.any pagerPageSize = e.pageSize :=
  e.any_flag 7 (by decide)

@[simp] theorem Entry.any_stab (e : Entry) : e.any pagerStabAllocated = e.stabAllocated :=
  e.any_flag 8 (by decide)

theorem Flags.Accepted.bit {flags : Flags} (accepted : flags.Accepted) {k : Nat}
    (reserved : k = 5 ∨ k = 7 ∨ 12 ≤ k) : flags.getLsbD k = false := by
  by_cases small : k < 16
  · have zero : flags &&& 0xF0A0 = 0 := by simpa [Accepted, any] using accepted
    have masked : (0xF0A0 : Flags).getLsbD k = true := by
      have bits : ∀ k : Fin 16, (k.val = 5 ∨ k.val = 7 ∨ 12 ≤ k.val) →
          (0xF0A0 : Flags).getLsbD k = true := by decide
      exact bits ⟨k, small⟩ reserved
    have bit := congrArg (fun v => BitVec.getLsbD v k) zero
    rw [BitVec.getLsbD_and, masked] at bit
    simpa using bit
  · exact BitVec.getLsbD_of_ge flags k (by omega)

theorem masked_iff_bits {w : Nat} (v mask : BitVec w) :
    v &&& mask = mask ↔ ∀ k, mask.getLsbD k = true → v.getLsbD k = true := by
  constructor
  · intro same k set
    have bit := congrArg (fun v => BitVec.getLsbD v k) same
    simpa [set] using bit
  · intro sets
    apply BitVec.eq_of_getLsbD_eq
    intro k _
    rw [BitVec.getLsbD_and]
    cases set : mask.getLsbD k with
    | false => simp
    | true => rw [sets k set, Bool.and_true]

/-! ### Bits of entries -/

namespace Entry

@[simp] theorem getLsbD_address (e : Entry) (k : Nat) :
    (address e).getLsbD k = (decide (12 ≤ k) && e.getLsbD k) := by
  simp only [address, BitVec.getLsbD_and, BitVec.getLsbD_not, getLsbD_pageMask]
  by_cases small : k < 64
  · by_cases low : k < 12 <;> simp [small, low, Nat.not_le_of_lt, Nat.le_of_not_lt, Bool.and_comm]
  · simp [BitVec.getLsbD_of_ge e k (by omega)]

@[simp] theorem getLsbD_frame (e : Entry) (k : Nat) :
    (frame e).getLsbD k = (decide (12 ≤ k ∧ k < 52) && e.getLsbD k) := by
  rw [frame, BitVec.getLsbD_and, getLsbD_frameMask, Bool.and_comm]

@[simp] theorem getLsbD_pack (address : BitVec 64) (flags : Flags) (k : Nat) :
    (pack address flags).getLsbD k = (address.getLsbD k || flags.getLsbD k) := by
  rw [pack, BitVec.getLsbD_or, BitVec.getLsbD_setWidth]
  by_cases small : k < 64
  · simp [small]
  · simp [BitVec.getLsbD_of_ge flags k (by omega)]

@[simp] theorem getLsbD_flags (e : Entry) (k : Nat) :
    (flags e).getLsbD k = (decide (k < 12) && e.getLsbD k) := by
  have mask : (0xFFF#16).getLsbD k = decide (k < 12) :=
    getLsbD_of_small _ (fun k => decide (k < 12)) (by decide) (by simp; omega) k
  have literal : (0xFFF : Flags) = 0xFFF#16 := rfl
  rw [flags, literal, BitVec.getLsbD_and, mask, BitVec.getLsbD_setWidth]
  by_cases low : k < 12
  · simp [low, show k < 16 by omega]
  · simp [low]

end Entry

theorem IsFrame.low {f : BitVec 64} (isFrame : IsFrame f) {k : Nat} (low : k < 12) :
    f.getLsbD k = false := by
  rw [← isFrame, Entry.getLsbD_frame]
  simp [Nat.not_le_of_lt low]

theorem IsFrame.high {f : BitVec 64} (isFrame : IsFrame f) {k : Nat} (high : 52 ≤ k) :
    f.getLsbD k = false := by
  rw [← isFrame, Entry.getLsbD_frame]
  simp [Nat.not_lt_of_le high]

private theorem isFrame_of_bits {f : BitVec 64} (low : ∀ k, k < 12 → f.getLsbD k = false)
    (high : ∀ k, 52 ≤ k → f.getLsbD k = false) : IsFrame f := by
  apply BitVec.eq_of_getLsbD_eq
  intro k _
  rw [Entry.getLsbD_frame]
  by_cases below : k < 12
  · simp [low k below]
  · by_cases above : 52 ≤ k
    · simp [high k above]
    · simp [show 12 ≤ k by omega, show k < 52 by omega]

/-- A page of physical memory has a frame. -/
theorem isFrame_ofNat {address : Nat} (aligned : address % 0x1000 = 0)
    (bound : address < 2 ^ 52) : IsFrame (BitVec.ofNat 64 address) := by
  refine isFrame_of_bits (fun k low => ?_) fun k high => ?_
  · rw [BitVec.getLsbD_ofNat]
    have zero : address.testBit k = false := by
      obtain ⟨q, rfl⟩ : 2 ^ 12 ∣ address := Nat.dvd_of_mod_eq_zero aligned
      rw [Nat.testBit_two_pow_mul]
      simp [Nat.not_le_of_lt low]
    simp [zero]
  · rw [BitVec.getLsbD_ofNat, Nat.testBit_lt_two_pow
      (Nat.lt_of_lt_of_le bound (Nat.pow_le_pow_right (by decide) high))]
    simp


namespace Entry

/-- The address comes back out of an entry that holds it. -/
theorem address_pack {a : BitVec 64} {flags : Flags} (low : ∀ k, k < 12 → a.getLsbD k = false)
    (high : ∀ k, 12 ≤ k → flags.getLsbD k = false) : address (pack a flags) = a := by
  apply BitVec.eq_of_getLsbD_eq
  intro k _
  rw [getLsbD_address, getLsbD_pack]
  by_cases below : k < 12
  · simp [low k below, Nat.not_le_of_lt below]
  · simp [high k (by omega), show 12 ≤ k by omega]

theorem frame_pack {a : BitVec 64} {flags : Flags}
    (high : ∀ k, 12 ≤ k → flags.getLsbD k = false) : frame (pack a flags) = frame a := by
  apply BitVec.eq_of_getLsbD_eq
  intro k _
  rw [getLsbD_frame, getLsbD_pack, getLsbD_frame]
  by_cases below : k < 12
  · simp [Nat.not_le_of_lt below]
  · simp [high k (by omega)]

/-- Setting a flag moves no address. -/
theorem address_pack_entry (e : Entry) {flags : Flags}
    (high : ∀ k, 12 ≤ k → flags.getLsbD k = false) : address (pack e flags) = address e := by
  apply BitVec.eq_of_getLsbD_eq
  intro k _
  rw [getLsbD_address, getLsbD_address, getLsbD_pack]
  by_cases below : k < 12
  · simp [Nat.not_le_of_lt below]
  · simp [high k (by omega)]

theorem frame_address (e : Entry) : frame (address e) = frame e := by
  apply BitVec.eq_of_getLsbD_eq
  intro k _
  rw [getLsbD_frame, getLsbD_address, getLsbD_frame]
  by_cases below : 12 ≤ k <;> simp [below]

theorem flags_pack {a : BitVec 64} {flags : Flags} (low : ∀ k, k < 12 → a.getLsbD k = false)
    (high : ∀ k, 12 ≤ k → flags.getLsbD k = false) : (pack a flags).flags = flags := by
  apply BitVec.eq_of_getLsbD_eq
  intro k _
  rw [getLsbD_flags, getLsbD_pack]
  by_cases below : k < 12
  · simp [low k below, below]
  · simp [high k (by omega), below]

theorem toNat_frame (e : Entry) : (frame e).toNat = e.toNat % 2 ^ 52 / 2 ^ 12 * 2 ^ 12 := by
  apply Nat.eq_of_testBit_eq
  intro k
  rw [← BitVec.getLsbD, getLsbD_frame, Nat.testBit_mul_two_pow, Nat.testBit_div_two_pow,
    Nat.testBit_mod_two_pow, BitVec.getLsbD]
  by_cases low : 12 ≤ k
  · simp [low]
  · simp [low]

theorem toNat_address (e : Entry) : (address e).toNat = e.toNat / 2 ^ 12 * 2 ^ 12 := by
  apply Nat.eq_of_testBit_eq
  intro k
  rw [← BitVec.getLsbD, getLsbD_address, Nat.testBit_mul_two_pow, Nat.testBit_div_two_pow,
    BitVec.getLsbD]
  by_cases low : 12 ≤ k
  · simp [low]
  · simp [low]

theorem ne_zero_of_bit {e : Entry} {k : Nat} (set : e.getLsbD k = true) : e ≠ 0 := by
  rintro rfl
  simp at set

end Entry

end EmkKernel
