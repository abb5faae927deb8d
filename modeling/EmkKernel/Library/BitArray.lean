import EmkKernel.Library.Traced

/-!
# Bit arrays packed into 32-bit words

An unbounded memory of 32-bit words read as an array of bits: bit `k` is bit
`k % 32` of word `k / 32`. A run of bits that starts inside one word is cut by
`mem_run_iff` into a part of that word, a number of whole words and a part of
the word behind them, which is the shape every masked loop over such an array
has.
-/

namespace BitArray

/-- The words of a memory, indexed by word. -/
abbrev Words := Nat → BitVec 32

/-- Bit `k` of the array. -/
def bit (words : Words) (k : Nat) : Bool := (words (k / 32)).getLsbD (k % 32)

/-- The bits `k, …, k + n - 1`. -/
def InRun (k n j : Nat) : Prop := k ≤ j ∧ j < k + n

instance (k n j : Nat) : Decidable (InRun k n j) := inferInstanceAs (Decidable (_ ∧ _))

theorem words_ext {v w : Words} (same : ∀ k, bit v k = bit w k) : v = w := by
  funext i
  apply BitVec.eq_of_getLsbD_eq
  intro j hj
  have equal := same (32 * i + j)
  simpa only [bit, show (32 * i + j) / 32 = i by omega, show (32 * i + j) % 32 = j by omega]
    using equal

/-- No bit of the run is set. -/
def Clear (words : Words) (k n : Nat) : Prop := ∀ j, InRun k n j → bit words j = false

/-- The array with the bits of a set added. -/
def SetsExactly (v w : Words) (s : Nat → Prop) : Prop :=
  ∀ j, bit w j = true ↔ bit v j = true ∨ s j

/-- The array with the bits of a set removed. -/
def ClearsExactly (v w : Words) (s : Nat → Prop) : Prop :=
  ∀ j, bit w j = true ↔ bit v j = true ∧ ¬s j

/-- Clearing what was just set on clear bits restores the array. -/
theorem restored {u v w : Words} {s : Nat → Prop} (fresh : ∀ j, s j → bit u j = false)
    (sets : SetsExactly u v s) (clears : ClearsExactly v w s) : w = u := by
  apply words_ext
  intro j
  rw [Bool.eq_iff_iff, clears j, sets j]
  constructor
  · rintro ⟨old | new, out⟩
    · exact old
    · exact absurd new out
  · intro old
    exact ⟨Or.inl old, fun new => by simp [fresh j new] at old⟩

/-- Between taking and giving back `s`, a set that was clear is taken. -/
theorem setsExactly_around {u v w x : Words} {s t : Nat → Prop}
    (fresh : ∀ j, s j → bit u j = false) (clear : ∀ j, t j → bit v j = false)
    (first : SetsExactly u v s) (second : SetsExactly v w t) (clears : ClearsExactly w x s) :
    SetsExactly u x t := by
  intro j
  rw [clears j, second j, first j]
  constructor
  · rintro ⟨(old | mine) | taken, apart⟩
    · exact Or.inl old
    · exact absurd mine apart
    · exact Or.inr taken
  · rintro (old | taken)
    · refine ⟨Or.inl (Or.inl old), fun mine => ?_⟩
      rw [fresh j mine] at old
      cases old
    · refine ⟨Or.inr taken, fun mine => ?_⟩
      have set := (first j).mpr (Or.inr mine)
      rw [clear j taken] at set
      cases set

/-! ### Masks -/

/-- The lowest `n` bits. -/
def lowMask (n : Nat) : BitVec 32 := BitVec.ofNat 32 (2 ^ n - 1)

theorem getLsbD_lowMask (n i : Nat) : (lowMask n).getLsbD i = decide (i < n ∧ i < 32) := by
  simp only [lowMask, BitVec.getLsbD_ofNat, Nat.testBit_two_pow_sub_one, Bool.decide_and]
  exact Bool.and_comm _ _

theorem getLsbD_lowMask_shift (n s i : Nat) :
    (lowMask n <<< s).getLsbD i = decide (s ≤ i ∧ i < s + n ∧ i < 32) := by
  rw [BitVec.getLsbD_shiftLeft, getLsbD_lowMask, Bool.eq_iff_iff]
  simp only [Bool.and_eq_true, decide_eq_true_eq, Bool.not_eq_true', decide_eq_false_iff_not]
  omega

theorem getLsbD_ones (i : Nat) (small : i < 32) : (0xFFFFFFFF : BitVec 32).getLsbD i = true := by
  have ones : (0xFFFFFFFF : BitVec 32) = BitVec.allOnes 32 := rfl
  rw [ones, BitVec.getLsbD_allOnes, decide_eq_true small]

theorem and_eq_zero_iff (word mask : BitVec 32) :
    word &&& mask = 0 ↔ ∀ i, mask.getLsbD i = true → word.getLsbD i = false := by
  constructor
  · intro zero i masked
    have bits := congrArg (fun v => BitVec.getLsbD v i) zero
    simpa [masked] using bits
  · intro clear
    apply BitVec.eq_of_getLsbD_eq
    intro i _
    cases masked : mask.getLsbD i
    · simp [masked]
    · simp [clear i masked]

theorem and_eq_mask_iff (word mask : BitVec 32) :
    word &&& mask = mask ↔ ∀ i, mask.getLsbD i = true → word.getLsbD i = true := by
  constructor
  · intro full i masked
    have bits := congrArg (fun v => BitVec.getLsbD v i) full
    simpa [masked] using bits
  · intro full
    apply BitVec.eq_of_getLsbD_eq
    intro i _
    cases masked : mask.getLsbD i
    · simp [masked]
    · simp [masked, full i masked]

/-! ### Runs cut at word boundaries -/

/-- The part of a run of `n` bits from bit `b` of a word that lies in this word. -/
def headWidth (b n : Nat) : Nat := min n (32 - b)

/-- The number of whole words behind the first one. -/
def wholeWords (b n : Nat) : Nat := (n - headWidth b n) / 32

/-- The number of bits left for the word behind the whole ones. -/
def tailWidth (b n : Nat) : Nat := (n - headWidth b n) % 32

theorem wholeWords_def (b n : Nat) : wholeWords b n = (n - headWidth b n) / 32 := rfl

theorem tailWidth_def (b n : Nat) : tailWidth b n = (n - headWidth b n) % 32 := rfl

theorem headWidth_le (b n : Nat) : headWidth b n ≤ 32 := by
  unfold headWidth
  omega

theorem tailWidth_lt (b n : Nat) : tailWidth b n < 32 := Nat.mod_lt _ (by decide)

theorem mem_run_iff {i b n : Nat} (inside : b < 32) (j : Nat) :
    InRun (32 * i + b) n j ↔
      (j / 32 = i ∧ b ≤ j % 32 ∧ j % 32 < b + headWidth b n) ∨
      (i + 1 ≤ j / 32 ∧ j / 32 < i + 1 + wholeWords b n) ∨
      (j / 32 = i + 1 + wholeWords b n ∧ j % 32 < tailWidth b n) := by
  simp only [InRun, wholeWords, tailWidth, headWidth]
  omega

/-! ### Loops over words -/

/-- Reads word `i`. -/
abbrev readWord (words : Words) (i : Nat) : Traced (BitVec 32) := ⟨words i, [i]⟩

/-- Overwrites word `i`. -/
abbrev writeWord (words : Words) (i : Nat) (word : BitVec 32) : Traced Words :=
  ⟨Function.update words i word, [i]⟩

@[simp] theorem readWord_value (words : Words) (i : Nat) :
    (readWord words i).value = words i := rfl

@[simp] theorem readWord_within (words : Words) (i bound : Nat) :
    (readWord words i).Within bound ↔ i < bound := by
  simp [Traced.Within]

@[simp] theorem writeWord_value (words : Words) (i : Nat) (word : BitVec 32) :
    (writeWord words i word).value = Function.update words i word := rfl

@[simp] theorem writeWord_within (words : Words) (i bound : Nat) (word : BitVec 32) :
    (writeWord words i word).Within bound ↔ i < bound := by
  simp [Traced.Within]

/-- Writes `value` to the `n` words from `base` on, in order. -/
def fillWords (words : Words) (base : Nat) (value : BitVec 32) : Nat → Traced Words
  | 0 => pure words
  | n + 1 => do
    let words ← fillWords words base value n
    writeWord words (base + n) value

theorem fillWords_apply (words : Words) (base : Nat) (value : BitVec 32) (n i : Nat) :
    (fillWords words base value n).value i =
      if base ≤ i ∧ i < base + n then value else words i := by
  induction n with
  | zero =>
    simp only [fillWords, Traced.value_pure, Nat.add_zero]
    split_ifs <;> first | rfl | omega
  | succ n ih =>
    simp only [fillWords, Traced.value_bind, Function.update_apply, ih]
    split_ifs <;> first | rfl | omega

theorem fillWords_within (words : Words) (base : Nat) (value : BitVec 32) (n bound : Nat) :
    (fillWords words base value n).Within bound ↔ n = 0 ∨ base + n ≤ bound := by
  induction n with
  | zero => simp [fillWords]
  | succ n ih =>
    simp only [fillWords, Traced.within_bind, writeWord_within, ih]
    omega

end BitArray
