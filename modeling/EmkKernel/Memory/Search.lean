import EmkKernel.Memory.Allocator

/-!
# What the two searches of `alloc` find

The small search looks for the pages inside one word. The large search starts a
run in the zero bits at the top of a word and follows it through the next words.
Both are instances of one loop, and both stop at the first entry that passes.
-/

namespace EmkKernel

open BitArray

namespace Allocator

variable (bitmap : Words)

/-- The pages fit into word `i` from bit `b` on. -/
def FitsIn (i pages b : Nat) : Prop := b + pages ≤ 32 ∧ Clear bitmap (32 * i + b) pages

/-- The last word the large search reads when it follows a run from word `i`. -/
def lastWord (i pages : Nat) : Nat := i + 1 + (pages - bitsAvail (bitmap i)) / 32

/-- A run of the pages starts in the zero bits at the top of word `i`. -/
def RunsFrom (i pages : Nat) : Prop :=
  0 < bitsAvail (bitmap i) ∧ Clear bitmap (32 * i + (32 - bitsAvail (bitmap i))) pages

/-! ### The small search -/

private theorem clear_in_word_iff (i pages b : Nat) (fits : b + pages ≤ 32) :
    bitmap i &&& (makeMask pages <<< b) = 0 ↔ Clear bitmap (32 * i + b) pages := by
  rw [makeMask_eq_lowMask (by omega), and_eq_zero_iff]
  simp only [getLsbD_lowMask_shift, decide_eq_true_eq, Clear, InRun]
  constructor
  · intro clear j run
    have word : j / 32 = i := by omega
    simpa [bit, word] using clear (j % 32) (by omega)
  · intro clear r masked
    simpa [bit, show (32 * i + r) / 32 = i by omega, show (32 * i + r) % 32 = r by omega]
      using clear (32 * i + r) (by omega)

theorem isEntryValid_some {i pages b : Nat} (small : pages ≤ 32)
    (found : (isEntryValid bitmap i pages).value = some b) :
    FitsIn bitmap i pages b ∧ ∀ b' < b, ¬FitsIn bitmap i pages b' := by
  simp only [isEntryValid, Traced.value_bind, Traced.value_pure, List.find?_range_eq_some,
    beq_iff_eq, List.mem_range, Bool.not_eq_true', beq_eq_false_iff_ne] at found
  obtain ⟨zero, bound, earlier⟩ := found
  have fits : b + pages ≤ 32 := by omega
  refine ⟨⟨fits, (clear_in_word_iff bitmap i pages b fits).mp zero⟩, ?_⟩
  intro b' before ⟨fits', clear⟩
  exact earlier b' before ((clear_in_word_iff bitmap i pages b' fits').mpr clear)

theorem isEntryValid_none {i pages : Nat} (small : pages ≤ 32)
    (missed : (isEntryValid bitmap i pages).value = none) (b : Nat) :
    ¬FitsIn bitmap i pages b := by
  simp only [isEntryValid, Traced.value_bind, Traced.value_pure, List.find?_range_eq_none,
    Bool.not_eq_true', beq_eq_false_iff_ne] at missed
  rintro ⟨fits, clear⟩
  exact missed b (by omega) ((clear_in_word_iff bitmap i pages b fits).mpr clear)

theorem isEntryValid_within (i pages bound : Nat) :
    (isEntryValid bitmap i pages).Within bound ↔ i < bound := by
  simp [isEntryValid]

/-! ### The large search -/

/-- The loop invariant: `mask` has the bits from `i` on, and these are clear in the word. -/
private theorem bitsAvailLoop_spec (word mask : BitVec 32) (i : Nat) (bound : i ≤ 32)
    (masks : ∀ j, j < 32 → (mask.getLsbD j = true ↔ i ≤ j))
    (clear : ∀ j, i ≤ j → word.getLsbD j = false) :
    bitsAvailLoop word mask i ≤ 32 ∧
    (∀ j, 32 - bitsAvailLoop word mask i ≤ j → word.getLsbD j = false) ∧
    (bitsAvailLoop word mask i < 32 →
      word.getLsbD (31 - bitsAvailLoop word mask i) = true) := by
  induction i generalizing mask with
  | zero =>
    refine ⟨Nat.le_refl _, fun j _ => clear j (Nat.zero_le _), fun less => ?_⟩
    exact absurd less (Nat.lt_irrefl 32)
  | succ i ih =>
    have masks' : ∀ j, j < 32 → ((mask ||| 1#32 <<< i).getLsbD j = true ↔ i ≤ j) := by
      intro j small
      rw [BitVec.getLsbD_or, Bool.or_eq_true, masks j small, ← BitVec.twoPow_eq,
        BitVec.getLsbD_twoPow]
      simp only [Bool.and_eq_true, decide_eq_true_eq]
      omega
    simp only [bitsAvailLoop]
    split
    next used =>
      have set : word.getLsbD i = true := by
        by_contra unset
        apply used
        rw [and_eq_zero_iff]
        intro j masked
        by_cases small : j < 32
        · have lower := (masks' j small).mp masked
          rcases Nat.eq_or_lt_of_le lower with rfl | above
          · simpa using unset
          · exact clear j above
        · exact BitVec.getLsbD_of_ge word j (by omega)
      refine ⟨by omega, fun j lower => clear j (by omega), fun _ => ?_⟩
      rwa [show 31 - (32 - (i + 1)) = i by omega]
    next unused =>
      have zero := (and_eq_zero_iff _ _).mp (not_not.mp unused)
      apply ih _ (by omega) masks'
      intro j lower
      by_cases small : j < 32
      · exact zero j ((masks' j small).mpr lower)
      · exact BitVec.getLsbD_of_ge word j (by omega)

private theorem bitsAvail_spec (word : BitVec 32) :
    bitsAvail word ≤ 32 ∧
    (∀ j, 32 - bitsAvail word ≤ j → word.getLsbD j = false) ∧
    (bitsAvail word < 32 → word.getLsbD (31 - bitsAvail word) = true) :=
  bitsAvailLoop_spec word 0 32 (Nat.le_refl _) (by simp) (BitVec.getLsbD_of_ge word)

theorem bitsAvail_le (word : BitVec 32) : bitsAvail word ≤ 32 := (bitsAvail_spec word).1

theorem bitsAvail_clear (word : BitVec 32) (j : Nat) (top : 32 - bitsAvail word ≤ j) :
    word.getLsbD j = false := (bitsAvail_spec word).2.1 j top

/-- The zero bits counted are all there are: the bit below them is set. -/
theorem bitsAvail_maximal (word : BitVec 32) (used : bitsAvail word < 32) :
    word.getLsbD (31 - bitsAvail word) = true := (bitsAvail_spec word).2.2 used

private theorem top_bit_clear_iff (word : BitVec 32) :
    word &&& (1#32 <<< 31) = 0 ↔ 0 < bitsAvail word := by
  rw [and_eq_zero_iff, ← BitVec.twoPow_eq]
  simp only [BitVec.getLsbD_twoPow, Bool.and_eq_true, decide_eq_true_eq]
  constructor
  · intro clear
    by_contra none
    have maximal := bitsAvail_maximal word (by omega)
    rw [show bitsAvail word = 0 by omega, clear 31 ⟨by decide, rfl⟩] at maximal
    exact Bool.false_ne_true maximal
  · rintro positive i ⟨_, rfl⟩
    exact bitsAvail_clear word 31 (by omega)

private theorem someWordUsed_iff (base n : Nat) :
    (someWordUsed bitmap base n).value = true ↔ ∃ i, base ≤ i ∧ i < base + n ∧ bitmap i ≠ 0 := by
  induction n generalizing base with
  | zero => simp [someWordUsed]; omega
  | succ n ih =>
    simp only [someWordUsed, Traced.value_bind, Traced.value_ite, Traced.value_pure]
    split
    next used => exact ⟨fun _ => ⟨base, Nat.le_refl _, by omega, used⟩, fun _ => rfl⟩
    next unused =>
      rw [ih]
      constructor
      · rintro ⟨i, lower, upper, used⟩
        exact ⟨i, by omega, by omega, used⟩
      · rintro ⟨i, lower, upper, used⟩
        rcases Nat.eq_or_lt_of_le lower with rfl | above
        · exact absurd used unused
        · exact ⟨i, above, by omega, used⟩

private theorem someWordUsed_within {base n bound : Nat} (inside : base + n ≤ bound) :
    (someWordUsed bitmap base n).Within bound := by
  induction n generalizing base with
  | zero => simp [someWordUsed]
  | succ n ih =>
    rw [someWordUsed, Traced.within_bind, readWord_within]
    refine ⟨by omega, ?_⟩
    split
    · exact Traced.within_pure _ _
    · exact ih (by omega)

private theorem word_eq_zero_iff (i : Nat) :
    bitmap i = 0 ↔ ∀ r, r < 32 → (bitmap i).getLsbD r = false := by
  constructor
  · intro zero r _
    simp [zero]
  · intro clear
    apply BitVec.eq_of_getLsbD_eq
    intro r small
    simpa using clear r small

private theorem runsFrom_iff {i pages : Nat} (large : 32 < pages) :
    RunsFrom bitmap i pages ↔
      0 < bitsAvail (bitmap i) ∧
      (∀ j, i + 1 ≤ j → j < lastWord bitmap i pages → bitmap j = 0) ∧
      bitmap (lastWord bitmap i pages) &&&
        makeMask ((pages - bitsAvail (bitmap i)) % 32) = 0 := by
  have bound := bitsAvail_le (bitmap i)
  rw [makeMask_eq_lowMask (by omega), and_eq_zero_iff]
  simp only [RunsFrom, and_congr_right_iff]
  intro positive
  have width : headWidth (32 - bitsAvail (bitmap i)) pages = bitsAvail (bitmap i) := by
    unfold headWidth
    omega
  have run (j : Nat) := mem_run_iff (i := i) (n := pages)
    (show 32 - bitsAvail (bitmap i) < 32 by omega) j
  simp only [wholeWords_def, tailWidth_def, width] at run
  simp only [getLsbD_lowMask, decide_eq_true_eq, word_eq_zero_iff, Clear, run, lastWord]
  constructor
  · intro clear
    refine ⟨fun j lower upper r small => ?_, fun r masked => ?_⟩
    · simpa [bit, show (32 * j + r) / 32 = j by omega, show (32 * j + r) % 32 = r by omega]
        using clear (32 * j + r) (by omega)
    · have last := clear (32 * (i + 1 + (pages - bitsAvail (bitmap i)) / 32) + r) (by omega)
      simpa [bit, show ∀ w, (32 * w + r) / 32 = w by omega,
        show ∀ w, (32 * w + r) % 32 = r by omega] using last
  · rintro ⟨whole, last⟩ j (⟨word, lower, _⟩ | ⟨lower, upper⟩ | ⟨word, upper⟩)
    · rw [bit, word]
      exact bitsAvail_clear _ _ lower
    · exact whole (j / 32) lower upper (j % 32) (by omega)
    · rw [bit, word]
      exact last (j % 32) (by omega)

theorem isEntryValidEx_value {i pages : Nat} (large : 32 < pages) (b : Nat) :
    (isEntryValidEx bitmap i pages).value = some b ↔
      RunsFrom bitmap i pages ∧ b = 32 - bitsAvail (bitmap i) := by
  rw [runsFrom_iff bitmap large]
  simp only [isEntryValidEx, Traced.value_bind, Traced.value_ite, Traced.value_pure,
    top_bit_clear_iff]
  split
  next positive =>
    split
    next used =>
      obtain ⟨j, lower, upper, word⟩ := (someWordUsed_iff bitmap _ _).mp used
      simp only [reduceCtorEq, false_iff]
      rintro ⟨⟨_, whole, _⟩, _⟩
      exact word (whole j lower upper)
    next unused =>
      have whole : ∀ j, i + 1 ≤ j → j < lastWord bitmap i pages → bitmap j = 0 := by
        intro j lower upper
        by_contra word
        exact unused ((someWordUsed_iff bitmap _ _).mpr ⟨j, lower, upper, word⟩)
      split
      next last => simp only [reduceCtorEq, false_iff]; exact fun found => last found.1.2.2
      next last =>
        simp only [Option.some.injEq]
        exact ⟨fun equal => ⟨⟨positive, whole, not_not.mp last⟩, equal.symm⟩,
          fun found => found.2.symm⟩
  next none => simp only [reduceCtorEq, false_iff]; exact fun found => none found.1.1

/-- The large search never reads behind the last word it needs. -/
theorem isEntryValidEx_within {i pages bound : Nat} (inside : lastWord bitmap i pages < bound) :
    (isEntryValidEx bitmap i pages).Within bound := by
  unfold lastWord at inside
  rw [isEntryValidEx, Traced.within_bind, readWord_within]
  refine ⟨by omega, ?_⟩
  split
  · rw [Traced.within_bind]
    refine ⟨someWordUsed_within bitmap (by simp only; omega), ?_⟩
    split
    · exact Traced.within_pure _ _
    · rw [Traced.within_bind, readWord_within]
      refine ⟨inside, ?_⟩
      split <;> exact Traced.within_pure _ _
  · exact Traced.within_pure _ _

theorem isEntryValidEx_reads {i pages bound : Nat}
    (inside : (isEntryValidEx bitmap i pages).Within bound) : i < bound := by
  rw [isEntryValidEx, Traced.within_bind, readWord_within] at inside
  exact inside.1

/-- An accepted run was followed to its last word. -/
theorem lastWord_lt_of_within {i pages bound : Nat} (large : 32 < pages)
    (runs : RunsFrom bitmap i pages) (inside : (isEntryValidEx bitmap i pages).Within bound) :
    lastWord bitmap i pages < bound := by
  obtain ⟨positive, whole, _⟩ := (runsFrom_iff bitmap large).mp runs
  have unused : (someWordUsed bitmap (i + 1)
      ((pages - bitsAvail (bitmap i)) / 32)).value = false := by
    rw [Bool.eq_false_iff, Ne, someWordUsed_iff]
    rintro ⟨j, lower, upper, word⟩
    exact word (whole j lower upper)
  rw [isEntryValidEx, Traced.within_bind] at inside
  have followed := inside.2
  rw [readWord_value, if_pos ((top_bit_clear_iff _).mpr positive), Traced.within_bind,
    unused] at followed
  have last := followed.2
  rw [if_neg Bool.false_ne_true, Traced.within_bind, readWord_within] at last
  exact last.1

/-! ### The search loop -/

variable {valid : Nat → Traced (Option Nat)}

theorem firstEntry_ok {inc n b i : Nat} (found : (firstEntry valid inc n).value = .ok (b, i)) :
    inc ≤ i ∧ i < inc + n ∧ (valid i).value = some b ∧
      ∀ j, inc ≤ j → j < i → (valid j).value = none := by
  induction n generalizing inc with
  | zero => simp [firstEntry] at found
  | succ n ih =>
    simp only [firstEntry, Traced.value_bind] at found
    cases here : (valid inc).value with
    | some bitOffset =>
      simp only [here, Traced.value_pure, Except.ok.injEq, Prod.mk.injEq] at found
      obtain ⟨rfl, rfl⟩ := found
      exact ⟨Nat.le_refl _, by omega, here, fun j lower upper => by omega⟩
    | none =>
      simp only [here] at found
      obtain ⟨lower, upper, stops, earlier⟩ := ih found
      refine ⟨by omega, by omega, stops, fun j least before => ?_⟩
      rcases Nat.eq_or_lt_of_le least with rfl | above
      · exact here
      · exact earlier j above before

theorem firstEntry_error {inc n : Nat} {e : MemoryResult}
    (missed : (firstEntry valid inc n).value = .error e) :
    e = .nospace ∧ ∀ j, inc ≤ j → j < inc + n → (valid j).value = none := by
  induction n generalizing inc with
  | zero =>
    simp only [firstEntry, Traced.value_pure, Except.error.injEq] at missed
    exact ⟨missed.symm, fun j lower upper => by omega⟩
  | succ n ih =>
    simp only [firstEntry, Traced.value_bind] at missed
    cases here : (valid inc).value with
    | some bitOffset => simp [here] at missed
    | none =>
      simp only [here] at missed
      obtain ⟨nospace, all⟩ := ih missed
      refine ⟨nospace, fun j least below => ?_⟩
      rcases Nat.eq_or_lt_of_le least with rfl | above
      · exact here
      · exact all j above (by omega)

/-- The loop touches what its tests touch, up to the one that passes. -/
theorem firstEntry_within_iff {inc n bound : Nat} :
    (firstEntry valid inc n).Within bound ↔
      ∀ i, inc ≤ i → i < inc + n → (∀ j, inc ≤ j → j < i → (valid j).value = none) →
        (valid i).Within bound := by
  induction n generalizing inc with
  | zero => simp only [firstEntry, Traced.within_pure, true_iff]; omega
  | succ n ih =>
    simp only [firstEntry, Traced.within_bind]
    cases here : (valid inc).value with
    | some bitOffset =>
      simp only [Traced.within_pure, and_true]
      constructor
      · intro first i least _ earlier
        rcases Nat.eq_or_lt_of_le least with rfl | above
        · exact first
        · simp [earlier inc (Nat.le_refl _) above] at here
      · intro all
        exact all inc (Nat.le_refl _) (by omega) fun j lower upper => by omega
    | none =>
      simp only [ih]
      constructor
      · rintro ⟨first, rest⟩ i least below earlier
        rcases Nat.eq_or_lt_of_le least with rfl | above
        · exact first
        · exact rest i above (by omega) fun j lower upper => earlier j (by omega) upper
      · intro all
        refine ⟨all inc (Nat.le_refl _) (by omega) fun j lower upper => by omega, ?_⟩
        intro i least below earlier
        refine all i (by omega) (by omega) fun j lower upper => ?_
        rcases Nat.eq_or_lt_of_le lower with rfl | above
        · exact here
        · exact earlier j above upper

end Allocator

end EmkKernel
