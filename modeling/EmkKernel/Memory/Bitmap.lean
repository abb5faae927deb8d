import EmkKernel.Library.BitArray
import EmkKernel.Memory.Basic

/-!
# Runs of pages in the allocation bitmap

`BitmapEntry` names one bit of the bitmap. `set_one`, `set_zero` and
`is_occupied` treat the run of pages that starts there as a masked first word,
a number of whole words and a masked last word.
-/

namespace EmkKernel

open BitArray

/-- `Allocator::make_mask`: computed in `u64`, returned as `u32`. -/
def makeMask (pages : Nat) : BitVec 32 := ((1#64 <<< pages) - 1#64).setWidth 32

theorem makeMask_eq_lowMask {pages : Nat} (small : pages ≤ 32) :
    makeMask pages = lowMask pages := by
  apply BitVec.eq_of_toNat_eq
  have bound : 2 ^ pages ≤ 2 ^ 32 := Nat.pow_le_pow_right (by decide) small
  have positive := Nat.two_pow_pos pages
  have shifted : (1#64 <<< pages).toNat = 2 ^ pages := by
    rw [BitVec.toNat_shiftLeft, Nat.shiftLeft_eq]
    simp only [BitVec.toNat_ofNat]
    omega
  simp only [makeMask, lowMask, BitVec.toNat_setWidth, BitVec.toNat_sub, BitVec.toNat_ofNat,
    shifted]
  omega

structure BitmapEntry where
  offset : Nat
  bitOffset : Nat
  deriving DecidableEq, Repr

namespace BitmapEntry

/-- `BitmapEntry::from_address`; the word offset is cast to `u32`. -/
def fromAddress (address : Nat) : BitmapEntry where
  offset := address / 0x1000 / 32 % 2 ^ 32
  bitOffset := address / 0x1000 % 32

def getFrontbitsEx (entry : BitmapEntry) : Nat := 32 - entry.bitOffset

/-- The index of the entry's bit, which is the index of its page. -/
def page (entry : BitmapEntry) : Nat := 32 * entry.offset + entry.bitOffset

/-- The early exit of `is_occupied`: one of the words is zero. -/
def someWordZero (bitmap : Words) (base : Nat) : Nat → Traced Bool
  | 0 => pure false
  | n + 1 => do
    let word ← readWord bitmap base
    if word = 0 then pure true else someWordZero bitmap (base + 1) n

def isOccupied (entry : BitmapEntry) (bitmap : Words) (pages : Nat) : Traced Bool := do
  let beginMaskWidth := if entry.getFrontbitsEx > pages then pages else entry.getFrontbitsEx
  let beginMask := makeMask beginMaskWidth <<< entry.bitOffset
  let word ← readWord bitmap entry.offset
  if word &&& beginMask ≠ beginMask then
    pure false
  else do
    let fullEntries := (pages - beginMaskWidth) / 32
    if ← someWordZero bitmap (entry.offset + 1) fullEntries then
      pure false
    else if (pages - beginMaskWidth) % 32 ≠ 0 then do
      let mask := makeMask ((pages - beginMaskWidth) % 32)
      let word ← readWord bitmap (entry.offset + 1 + fullEntries)
      pure (decide (word &&& mask = mask))
    else
      pure true

/-- The common body of `set_zero` and `set_one`, which differ in how a word is
masked and in the value of a whole word. -/
def setRun (masked : BitVec 32 → BitVec 32 → BitVec 32) (whole : BitVec 32)
    (entry : BitmapEntry) (bitmap : Words) (pages : Nat) : Traced Words := do
  let baseMaskWidth := if entry.getFrontbitsEx ≥ pages then pages else entry.getFrontbitsEx
  let baseMask := makeMask baseMaskWidth <<< entry.bitOffset
  let word ← readWord bitmap entry.offset
  let bitmap ← writeWord bitmap entry.offset (masked word baseMask)
  let entriesAfter := (pages - baseMaskWidth) / 32
  let bitmap ← fillWords bitmap (entry.offset + 1) whole entriesAfter
  if (pages - baseMaskWidth) % 32 ≠ 0 then do
    let mask := makeMask ((pages - baseMaskWidth) % 32)
    let word ← readWord bitmap (entry.offset + 1 + entriesAfter)
    writeWord bitmap (entry.offset + 1 + entriesAfter) (masked word mask)
  else
    pure bitmap

def setZero : BitmapEntry → Words → Nat → Traced Words :=
  setRun (fun word mask => word &&& ~~~mask) 0

def setOne : BitmapEntry → Words → Nat → Traced Words :=
  setRun (fun word mask => word ||| mask) 0xFFFFFFFF

/-! ### What the loops do to the bits -/

variable (entry : BitmapEntry) (bitmap : Words) (pages : Nat)

private theorem baseMaskWidth_eq :
    (if entry.getFrontbitsEx ≥ pages then pages else entry.getFrontbitsEx) =
      headWidth entry.bitOffset pages := by
  unfold getFrontbitsEx headWidth
  split <;> omega

private theorem beginMaskWidth_eq :
    (if entry.getFrontbitsEx > pages then pages else entry.getFrontbitsEx) =
      headWidth entry.bitOffset pages := by
  unfold getFrontbitsEx headWidth
  split <;> omega

private theorem setRun_apply (masked : BitVec 32 → BitVec 32 → BitVec 32) (whole : BitVec 32)
    (i : Nat) :
    (setRun masked whole entry bitmap pages).value i =
      if i = entry.offset then
        masked (bitmap i) (lowMask (headWidth entry.bitOffset pages) <<< entry.bitOffset)
      else if entry.offset < i ∧ i ≤ entry.offset + wholeWords entry.bitOffset pages then whole
      else if i = entry.offset + 1 + wholeWords entry.bitOffset pages ∧
          tailWidth entry.bitOffset pages ≠ 0 then
        masked (bitmap i) (lowMask (tailWidth entry.bitOffset pages))
      else bitmap i := by
  have head := makeMask_eq_lowMask (headWidth_le entry.bitOffset pages)
  have tail := makeMask_eq_lowMask (Nat.le_of_lt (tailWidth_lt entry.bitOffset pages))
  simp only [setRun, baseMaskWidth_eq, Traced.value_bind, Traced.value_ite, Traced.value_pure,
    ← wholeWords_def, ← tailWidth_def, head, tail]
  split
  · simp only [Function.update_apply, fillWords_apply]
    split_ifs <;> first | rfl | omega | (subst i; rfl)
  · simp only [Function.update_apply, fillWords_apply]
    split_ifs <;> first | rfl | omega | (subst i; rfl)

private theorem setRun_bit (masked : BitVec 32 → BitVec 32 → BitVec 32) (whole : BitVec 32)
    (written : Bool) (inside : entry.bitOffset < 32)
    (maskedBits : ∀ word mask i, i < 32 →
      (masked word mask).getLsbD i = if mask.getLsbD i then written else word.getLsbD i)
    (wholeBits : ∀ i, i < 32 → whole.getLsbD i = written) (j : Nat) :
    bit (setRun masked whole entry bitmap pages).value j =
      if InRun entry.page pages j then written else bit bitmap j := by
  have small : j % 32 < 32 := by omega
  have run : InRun entry.page pages j ↔ _ := mem_run_iff inside j
  simp only [bit, setRun_apply]
  by_cases first : j / 32 = entry.offset
  · rw [if_pos first, maskedBits _ _ _ small, getLsbD_lowMask_shift]
    have same : InRun entry.page pages j ↔
        entry.bitOffset ≤ j % 32 ∧
          j % 32 < entry.bitOffset + headWidth entry.bitOffset pages ∧ j % 32 < 32 := by
      rw [run]
      omega
    simp only [same, decide_eq_true_eq]
  · rw [if_neg first]
    by_cases full : entry.offset < j / 32 ∧
        j / 32 ≤ entry.offset + wholeWords entry.bitOffset pages
    · rw [if_pos full, wholeBits _ small, if_pos (run.mpr (by omega))]
    · rw [if_neg full]
      by_cases last : j / 32 = entry.offset + 1 + wholeWords entry.bitOffset pages ∧
          tailWidth entry.bitOffset pages ≠ 0
      · rw [if_pos last, maskedBits _ _ _ small, getLsbD_lowMask]
        have same : InRun entry.page pages j ↔
            j % 32 < tailWidth entry.bitOffset pages ∧ j % 32 < 32 := by
          rw [run]
          omega
        simp only [same, decide_eq_true_eq]
      · rw [if_neg last, if_neg]
        rw [run]
        omega

theorem setOne_sets (inside : entry.bitOffset < 32) :
    SetsExactly bitmap (entry.setOne bitmap pages).value (InRun entry.page pages) := by
  intro j
  unfold setOne
  rw [setRun_bit entry bitmap pages _ _ true inside]
  · by_cases run : InRun entry.page pages j <;> simp [run]
  · intro word mask i _
    cases masked : mask.getLsbD i <;> simp [masked]
  · exact getLsbD_ones

theorem setZero_clears (inside : entry.bitOffset < 32) :
    ClearsExactly bitmap (entry.setZero bitmap pages).value (InRun entry.page pages) := by
  intro j
  unfold setZero
  rw [setRun_bit entry bitmap pages _ _ false inside]
  · by_cases run : InRun entry.page pages j <;> simp [run]
  · intro word mask i small
    rw [BitVec.getLsbD_and, BitVec.getLsbD_not, decide_eq_true small]
    cases mask.getLsbD i <;> simp
  · intro i _
    simp

theorem setRun_within (masked : BitVec 32 → BitVec 32 → BitVec 32) (whole : BitVec 32)
    {entries : Nat} (inside : entry.bitOffset < 32) (positive : 0 < pages)
    (fits : entry.page + pages ≤ 32 * entries) :
    (setRun masked whole entry bitmap pages).Within entries := by
  have start : 32 * entry.offset + entry.bitOffset + pages ≤ 32 * entries := fits
  have first : entry.offset < entries := by omega
  have middle : wholeWords entry.bitOffset pages = 0 ∨
      entry.offset + 1 + wholeWords entry.bitOffset pages ≤ entries := by
    unfold wholeWords headWidth
    omega
  have last : tailWidth entry.bitOffset pages ≠ 0 →
      entry.offset + 1 + wholeWords entry.bitOffset pages < entries := by
    unfold tailWidth wholeWords headWidth
    omega
  rw [setRun, baseMaskWidth_eq, ← wholeWords_def, ← tailWidth_def]
  -- the first word, the whole words behind it and the word they end at
  simp only [Traced.within_bind, readWord_within, writeWord_within, fillWords_within, first,
    middle, true_and]
  split
  next tail => simp only [Traced.within_bind, readWord_within, writeWord_within,
    last tail, and_self]
  next => exact Traced.within_pure _ _

/-- What `set_one` and `set_zero` do to a run that starts at bit `k` of a bitmap. -/
structure HandlesRun (bitmap : Words) (entries k pages : Nat) : Prop where
  insideOne : ((mk (k / 32) (k % 32)).setOne bitmap pages).Within entries
  insideZero : ((mk (k / 32) (k % 32)).setZero bitmap pages).Within entries
  sets : SetsExactly bitmap ((mk (k / 32) (k % 32)).setOne bitmap pages).value (InRun k pages)
  clears : ClearsExactly bitmap ((mk (k / 32) (k % 32)).setZero bitmap pages).value (InRun k pages)
  restores : Clear bitmap k pages →
    ((mk (k / 32) (k % 32)).setZero ((mk (k / 32) (k % 32)).setOne bitmap pages).value
      pages).value = bitmap

/-- Inside one word, up to the end of a word or over any number of words. -/
theorem handlesRun {entries k pages : Nat} (positive : 0 < pages)
    (fits : k + pages ≤ 32 * entries) (bitmap : Words) : HandlesRun bitmap entries k pages := by
  have page : (mk (k / 32) (k % 32)).page = k := by
    change 32 * (k / 32) + k % 32 = k
    omega
  have inside : (mk (k / 32) (k % 32)).bitOffset < 32 := Nat.mod_lt _ (by decide)
  have fits' : (mk (k / 32) (k % 32)).page + pages ≤ 32 * entries := by rwa [page]
  have sets (bitmap : Words) := setOne_sets (mk (k / 32) (k % 32)) bitmap pages inside
  have clears (bitmap : Words) := setZero_clears (mk (k / 32) (k % 32)) bitmap pages inside
  rw [page] at sets clears
  constructor
  · exact setRun_within _ _ _ _ _ inside positive fits'
  · exact setRun_within _ _ _ _ _ inside positive fits'
  · exact sets bitmap
  · exact clears bitmap
  · intro free
    exact restored free (sets bitmap) (clears _)

/-- A run from the middle of a word to the end of the word behind it. -/
theorem handlesRun_boundary : HandlesRun (fun _ => 0) 2 20 44 :=
    handlesRun (by decide) (by decide) _

private theorem someWordZero_iff (base n : Nat) :
    (someWordZero bitmap base n).value = true ↔ ∃ i, base ≤ i ∧ i < base + n ∧ bitmap i = 0 := by
  induction n generalizing base with
  | zero => simp [someWordZero]; omega
  | succ n ih =>
    simp only [someWordZero, Traced.value_bind, Traced.value_ite, Traced.value_pure]
    split
    next zero => exact ⟨fun _ => ⟨base, Nat.le_refl _, by omega, zero⟩, fun _ => rfl⟩
    next used =>
      rw [ih]
      constructor
      · rintro ⟨i, lower, upper, zero⟩
        exact ⟨i, by omega, by omega, zero⟩
      · rintro ⟨i, lower, upper, zero⟩
        rcases Nat.eq_or_lt_of_le lower with rfl | above
        · exact absurd zero used
        · exact ⟨i, above, by omega, zero⟩

/-- What `is_occupied` finds: the bits in the first and the last word of the run are set,
and no whole word between them is zero. -/
structure LooksOccupied : Prop where
  first : ∀ j, InRun entry.page pages j → j / 32 = entry.offset → bit bitmap j = true
  whole : ∀ i, entry.offset < i → i ≤ entry.offset + wholeWords entry.bitOffset pages → bitmap i ≠ 0
  last : ∀ j, InRun entry.page pages j →
    entry.offset + wholeWords entry.bitOffset pages < j / 32 → bit bitmap j = true

theorem isOccupied_iff (inside : entry.bitOffset < 32) :
    (entry.isOccupied bitmap pages).value = true ↔ entry.LooksOccupied bitmap pages := by
  have head := makeMask_eq_lowMask (headWidth_le entry.bitOffset pages)
  have tail := makeMask_eq_lowMask (Nat.le_of_lt (tailWidth_lt entry.bitOffset pages))
  have run (j : Nat) : InRun entry.page pages j ↔ _ := mem_run_iff inside j
  have first : bitmap entry.offset &&&
      lowMask (headWidth entry.bitOffset pages) <<< entry.bitOffset =
        lowMask (headWidth entry.bitOffset pages) <<< entry.bitOffset ↔
      ∀ j, InRun entry.page pages j → j / 32 = entry.offset → bit bitmap j = true := by
    rw [and_eq_mask_iff]
    simp only [getLsbD_lowMask_shift, decide_eq_true_eq, run]
    constructor
    · intro set j member word
      rw [bit, word]
      exact set (j % 32) (by omega)
    · intro set i masked
      have here := set (32 * entry.offset + i) (by omega) (by omega)
      rwa [bit, show (32 * entry.offset + i) / 32 = entry.offset by omega,
        show (32 * entry.offset + i) % 32 = i by omega] at here
  have whole : (someWordZero bitmap (entry.offset + 1)
      (wholeWords entry.bitOffset pages)).value = true ↔
      ¬∀ i, entry.offset < i → i ≤ entry.offset + wholeWords entry.bitOffset pages →
        bitmap i ≠ 0 := by
    rw [someWordZero_iff]
    push Not
    apply exists_congr
    intro i
    constructor
    · rintro ⟨lower, upper, zero⟩
      exact ⟨by omega, by omega, zero⟩
    · rintro ⟨lower, upper, zero⟩
      exact ⟨by omega, by omega, zero⟩
  have last : bitmap (entry.offset + 1 + wholeWords entry.bitOffset pages) &&&
      lowMask (tailWidth entry.bitOffset pages) = lowMask (tailWidth entry.bitOffset pages) ↔
      ∀ j, InRun entry.page pages j → entry.offset + wholeWords entry.bitOffset pages < j / 32 →
        bit bitmap j = true := by
    rw [and_eq_mask_iff]
    simp only [getLsbD_lowMask, decide_eq_true_eq, run]
    constructor
    · intro set j member behind
      rw [bit, show j / 32 = entry.offset + 1 + wholeWords entry.bitOffset pages by omega]
      exact set (j % 32) (by omega)
    · intro set i masked
      have here := set (32 * (entry.offset + 1 + wholeWords entry.bitOffset pages) + i) (by omega)
        (by omega)
      rwa [bit, show ∀ w, (32 * w + i) / 32 = w by omega,
        show ∀ w, (32 * w + i) % 32 = i by omega] at here
  simp only [isOccupied, beginMaskWidth_eq, head, ← wholeWords_def, ← tailWidth_def, tail,
    Traced.value_bind, Traced.value_ite, Traced.value_pure]
  constructor
  · intro occupied
    split at occupied
    next => cases occupied
    next set =>
      split at occupied
      next => cases occupied
      next used =>
        refine ⟨first.mp (not_not.mp set), not_not.mp fun zero => used (whole.mpr zero), ?_⟩
        split at occupied
        next => exact last.mp (of_decide_eq_true occupied)
        next none =>
          intro j member behind
          rw [run] at member
          omega
  · intro looks
    rw [if_neg (not_not.mpr (first.mpr looks.first)),
      if_neg fun zero => whole.mp zero looks.whole]
    split
    next => exact decide_eq_true (last.mpr looks.last)
    next => rfl

/-- A run whose bits are all set is reported as occupied. -/
theorem isOccupied_of_set (inside : entry.bitOffset < 32)
    (set : ∀ j, InRun entry.page pages j → bit bitmap j = true) :
    (entry.isOccupied bitmap pages).value = true := by
  rw [isOccupied_iff _ _ _ inside]
  refine ⟨fun j run _ => set j run, fun i lower upper zero => ?_, fun j run _ => set j run⟩
  have first := set (32 * i) ((mem_run_iff inside _).mpr (by omega))
  rw [bit, show 32 * i / 32 = i by omega, zero] at first
  simp at first

end BitmapEntry

end EmkKernel
