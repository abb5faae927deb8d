import EmkKernel.Memory.Search
import Mathlib.Data.Nat.Find

/-!
# What `alloc` and `free` do to the bitmap

`alloc_cases` says everything a call of `alloc` can do: it takes the run of
pages its search picks, or it returns an error and leaves the allocator as it
was. `free_granted` says what `free` does with a block whose pages are taken.
Later modules use these two and no definition of the searches.
-/

namespace EmkKernel

open BitArray

namespace Allocator

/-- The first offset in word `i` at which the pages fit. -/
def FirstFit (bitmap : Words) (i pages b : Nat) : Prop :=
  FitsIn bitmap i pages b ∧ ∀ b' < b, ¬FitsIn bitmap i pages b'

/-- The search of `alloc` stops at page `k`: up to 32 pages go into the current
entry if they fit there, else into the first entry that has room; a larger run
starts in the first entry from which it can. -/
def Picks (a : Allocator) (pages k : Nat) : Prop :=
  if pages ≤ 32 then
    (∃ b, FirstFit a.bitmap a.currentEntry pages b ∧ k = 32 * a.currentEntry + b) ∨
    ((∀ b, ¬FitsIn a.bitmap a.currentEntry pages b) ∧
      ∃ i b, i ≤ a.bitmapEntries ∧ FirstFit a.bitmap i pages b ∧
        (∀ j < i, ∀ b', ¬FitsIn a.bitmap j pages b') ∧ k = 32 * i + b)
  else
    ∃ i, i ≤ a.bitmapEntries ∧ RunsFrom a.bitmap i pages ∧
      (∀ j < i, ¬RunsFrom a.bitmap j pages) ∧ k = 32 * i + (32 - bitsAvail (a.bitmap i))

/-- The allocator after `pages` pages were taken from page `k` on. -/
structure Took (a a' : Allocator) (pages k : Nat) : Prop where
  sets : SetsExactly a.bitmap a'.bitmap (InRun k pages)
  bitmapEntries : a'.bitmapEntries = a.bitmapEntries
  currentEntry : a'.currentEntry = if pages ≤ 32 then k / 32 else a.currentEntry
  addend : a'.addend = a.addend
  fakedPages : a'.fakedPages = a.fakedPages

/-- The allocator after `pages` pages were given back from page `k` on. -/
structure Gave (a a' : Allocator) (pages k : Nat) : Prop where
  clears : ClearsExactly a.bitmap a'.bitmap (InRun k pages)
  bitmapEntries : a'.bitmapEntries = a.bitmapEntries
  currentEntry : a'.currentEntry = a.currentEntry
  addend : a'.addend = a.addend
  fakedPages : a'.fakedPages = a.fakedPages

variable (a : Allocator)

private theorem firstFit_unique {bitmap : Words} {i pages b b' : Nat}
    (first : FirstFit bitmap i pages b) (second : FirstFit bitmap i pages b') : b = b' := by
  rcases Nat.lt_trichotomy b b' with less | equal | greater
  · exact absurd first.1 (second.2 b less)
  · exact equal
  · exact absurd second.1 (first.2 b' greater)

private theorem first_unique {P : Nat → Prop} {i j : Nat} (hi : P i) (hj : P j)
    (before_i : ∀ l < i, ¬P l) (before_j : ∀ l < j, ¬P l) : i = j := by
  rcases Nat.lt_trichotomy i j with less | equal | greater
  · exact absurd hi (before_j i less)
  · exact equal
  · exact absurd hj (before_i j greater)

/-- The search is deterministic. -/
theorem picks_unique {pages k k' : Nat} (first : a.Picks pages k) (second : a.Picks pages k') :
    k = k' := by
  unfold Picks at first second
  split at first
  next small =>
    rw [if_pos small] at second
    rcases first with ⟨b, fit, rfl⟩ | ⟨full, i, b, _, fit, earlier, rfl⟩ <;>
      rcases second with ⟨b', fit', rfl⟩ | ⟨full', i', b', _, fit', earlier', rfl⟩
    · rw [firstFit_unique fit fit']
    · exact absurd fit.1 (full' b)
    · exact absurd fit'.1 (full b')
    · have same : i = i' := first_unique (P := fun j => ∃ b, FitsIn a.bitmap j pages b)
        ⟨b, fit.1⟩ ⟨b', fit'.1⟩ (fun j before ⟨c, fits⟩ => earlier j before c fits)
        (fun j before ⟨c, fits⟩ => earlier' j before c fits)
      subst same
      rw [firstFit_unique fit fit']
  next large =>
    rw [if_neg large] at second
    obtain ⟨i, _, runs, earlier, rfl⟩ := first
    obtain ⟨i', _, runs', earlier', rfl⟩ := second
    rw [first_unique (P := fun j => RunsFrom a.bitmap j pages) runs runs' earlier earlier']

/-- The pages picked are free. -/
theorem Picks.clear {a : Allocator} {pages k : Nat} (picks : a.Picks pages k) :
    Clear a.bitmap k pages := by
  unfold Picks at picks
  split at picks
  · rcases picks with ⟨b, fit, rfl⟩ | ⟨_, i, b, _, fit, _, rfl⟩
    · exact fit.1.2
    · exact fit.1.2
  · obtain ⟨i, _, runs, _, rfl⟩ := picks
    exact runs.2

/-- The small search finds its pages in any word it tests. -/
theorem picks_of_fitsIn {pages i b : Nat} (small : pages ≤ 32) (tested : i ≤ a.bitmapEntries)
    (fits : FitsIn a.bitmap i pages b) : ∃ k, a.Picks pages k := by
  classical
  simp only [Picks, if_pos small]
  by_cases current : ∃ b, FitsIn a.bitmap a.currentEntry pages b
  · exact ⟨_, Or.inl ⟨_, ⟨Nat.find_spec current, fun b' => Nat.find_min current⟩, rfl⟩⟩
  · have found : ∃ i b, FitsIn a.bitmap i pages b := ⟨i, b, fits⟩
    have least := Nat.find_spec found
    have first : Nat.find found ≤ i := Nat.find_min' found ⟨b, fits⟩
    refine ⟨_, Or.inr ⟨not_exists.mp current, _, _, Nat.le_trans first tested,
      ⟨Nat.find_spec least, fun b' => Nat.find_min least⟩, ?_, rfl⟩⟩
    intro j before b' fits'
    exact Nat.find_min found before ⟨b', fits'⟩

theorem picks_of_runsFrom {pages i : Nat} (large : 32 < pages) (tested : i ≤ a.bitmapEntries)
    (runs : RunsFrom a.bitmap i pages) : ∃ k, a.Picks pages k := by
  classical
  simp only [Picks, if_neg (Nat.not_le_of_lt large)]
  have found : ∃ i, RunsFrom a.bitmap i pages := ⟨i, runs⟩
  exact ⟨_, _, Nat.le_trans (Nat.find_min' found runs) tested, Nat.find_spec found,
    fun j => Nat.find_min found, rfl⟩

private theorem handOut_ok {base pages : Nat} {mb : MemoryBlock}
    (ok : handOut base pages = .ok mb) :
    mb = ⟨base, pages * 0x1000⟩ ∧ base < 2 ^ 64 := by
  unfold handOut at ok
  split at ok
  next bound => exact ⟨(Except.ok.inj ok).symm, bound⟩
  · cases ok

/-! ### The writes of the two paths -/

private theorem takeCurrent_took {pages b : Nat} (small : pages ≤ 32)
    (fits : FitsIn a.bitmap a.currentEntry pages b) :
    ∃ bitmap, (a.takeCurrent pages b).value =
        (handOut (a.addend + (32 * a.currentEntry + b) * 0x1000) pages, { a with bitmap }) ∧
      SetsExactly a.bitmap bitmap (InRun (32 * a.currentEntry + b) pages) := by
  refine ⟨Function.update a.bitmap a.currentEntry
    (a.bitmap a.currentEntry ||| makeMask pages <<< b), ?_, ?_⟩
  · simp only [takeCurrent, Traced.value_bind, Traced.value_pure, getCurrentEntryBase,
      kernelAllocatedPagesPerBitmapEntry]
    rw [show a.addend + a.currentEntry * 0x20 * 0x1000 + b * 0x1000 =
      a.addend + (32 * a.currentEntry + b) * 0x1000 by omega]
  · intro j
    simp only [bit, Function.update_apply]
    have bound := fits.1
    by_cases word : j / 32 = a.currentEntry
    · rw [if_pos word, BitVec.getLsbD_or, makeMask_eq_lowMask small, getLsbD_lowMask_shift,
        Bool.or_eq_true, decide_eq_true_eq, ← word]
      simp only [InRun]
      refine or_congr_right ⟨fun masked => by omega, fun run => by omega⟩
    · rw [if_neg word]
      exact ⟨Or.inl, fun set => set.elim id fun run => by unfold InRun at run; omega⟩

/-- The writes of `alloc_ex` are those of `set_one` at the entry found. -/
private theorem allocEx_ok {pages b i : Nat} (large : 32 < pages)
    (found : (a.nextFreeEntryEx pages).value = .ok (b, i)) :
    (a.allocEx pages).value = (handOut (a.addend + (32 * i + b) * 0x1000) pages,
      { a with bitmap := ((BitmapEntry.mk i b).setOne a.bitmap pages).value }) := by
  have width : (if (BitmapEntry.mk i b).getFrontbitsEx ≥ pages then pages
      else (BitmapEntry.mk i b).getFrontbitsEx) = 32 - b := by
    unfold BitmapEntry.getFrontbitsEx
    exact if_neg (by omega)
  simp only [allocEx, Traced.value_bind, found, Traced.value_ite, Traced.value_pure,
    BitmapEntry.setOne, BitmapEntry.setRun, width]
  have base : a.addend + i * 0x20000 + b * 0x1000 = a.addend + (32 * i + b) * 0x1000 := by omega
  rw [base]
  split <;> rfl

/-! ### `alloc` -/

/-- Everything a call of `alloc` can do. -/
theorem alloc_cases (pages : Nat) :
    (pages = 0 ∧ (a.alloc pages).value = (.error (.err .allocationError), a)) ∨
    (0 < pages ∧ (∀ k, ¬a.Picks pages k) ∧
      (a.alloc pages).value = (.error (.err .nospace), a)) ∨
    (0 < pages ∧ ∃ k a', a.Picks pages k ∧ a.Took a' pages k ∧
      (a.alloc pages).value = (handOut (a.addend + k * 0x1000) pages, a')) := by
  unfold alloc
  split
  next zero => exact Or.inl ⟨zero, rfl⟩
  next nonzero =>
    right
    have positive : 0 < pages := Nat.pos_of_ne_zero nonzero
    split
    next small =>
      simp only [Traced.value_bind]
      cases current : (isEntryValid a.bitmap a.currentEntry pages).value with
      | some b =>
        obtain ⟨fits, first⟩ := isEntryValid_some a.bitmap small current
        obtain ⟨bitmap, value, sets⟩ := takeCurrent_took a small fits
        refine Or.inr ⟨positive, 32 * a.currentEntry + b, _, ?_, ?_, value⟩
        · rw [Picks, if_pos small]
          exact Or.inl ⟨b, ⟨fits, first⟩, rfl⟩
        · refine ⟨sets, rfl, ?_, rfl, rfl⟩
          have bound := fits.1
          rw [if_pos small]
          change a.currentEntry = _
          omega
      | none =>
        have full := isEntryValid_none a.bitmap small current
        simp only [Traced.value_bind]
        cases searched : (a.nextFreeEntry pages).value with
        | ok place =>
          obtain ⟨b, i⟩ := place
          obtain ⟨_, bound, found, earlier⟩ := firstEntry_ok searched
          obtain ⟨fits, first⟩ := isEntryValid_some a.bitmap small found
          obtain ⟨bitmap, value, sets⟩ :=
            takeCurrent_took { a with currentEntry := i } small fits
          refine Or.inr ⟨positive, 32 * i + b, _, ?_, ?_, value⟩
          · rw [Picks, if_pos small]
            refine Or.inr ⟨full, i, b, by omega, ⟨fits, first⟩, fun j before b' => ?_, rfl⟩
            exact isEntryValid_none a.bitmap small (earlier j (Nat.zero_le _) before) b'
          · refine ⟨sets, rfl, ?_, rfl, rfl⟩
            have bound := fits.1
            rw [if_pos small]
            change i = _
            omega
        | error e =>
          obtain ⟨rfl, missed⟩ := firstEntry_error searched
          refine Or.inl ⟨positive, fun k picks => ?_, rfl⟩
          rw [Picks, if_pos small] at picks
          rcases picks with ⟨b, fit, _⟩ | ⟨_, i, b, bound, fit, _, _⟩
          · exact full b fit.1
          · exact isEntryValid_none a.bitmap small
              (missed i (Nat.zero_le _) (by omega)) b fit.1
    next notSmall =>
      have large : 32 < pages := by omega
      cases searched : (a.nextFreeEntryEx pages).value with
      | ok place =>
        obtain ⟨b, i⟩ := place
        obtain ⟨_, bound, found, earlier⟩ := firstEntry_ok searched
        obtain ⟨runs, rfl⟩ := (isEntryValidEx_value a.bitmap large b).mp found
        have inside : 32 - bitsAvail (a.bitmap i) < 32 := by
          have := runs.1
          omega
        refine Or.inr ⟨positive, 32 * i + (32 - bitsAvail (a.bitmap i)), _, ?_, ?_,
          allocEx_ok a large searched⟩
        · rw [Picks, if_neg notSmall]
          refine ⟨i, by omega, runs, fun j before runs' => ?_, rfl⟩
          have none := earlier j (Nat.zero_le _) before
          rw [(isEntryValidEx_value a.bitmap large _).mpr ⟨runs', rfl⟩] at none
          cases none
        · refine ⟨?_, rfl, (if_neg notSmall).symm, rfl, rfl⟩
          exact BitmapEntry.setOne_sets ⟨i, _⟩ a.bitmap pages inside
      | error e =>
        obtain ⟨rfl, missed⟩ := firstEntry_error searched
        refine Or.inl ⟨positive, fun k picks => ?_, ?_⟩
        · rw [Picks, if_neg notSmall] at picks
          obtain ⟨i, bound, runs, _, _⟩ := picks
          have none := missed i (Nat.zero_le _) (by omega)
          rw [(isEntryValidEx_value a.bitmap large _).mpr ⟨runs, rfl⟩] at none
          cases none
        · simp only [allocEx, Traced.value_bind, searched, Traced.value_pure]

/-- A block handed out is the run the search picked. -/
theorem alloc_ok {pages : Nat} {mb : MemoryBlock} {a' : Allocator}
    (returned : (a.alloc pages).value = (.ok mb, a')) :
    0 < pages ∧ ∃ k, a.Picks pages k ∧ a.Took a' pages k ∧
      mb = ⟨a.addend + k * 0x1000, pages * 0x1000⟩ ∧ a.addend + k * 0x1000 < 2 ^ 64 := by
  rcases a.alloc_cases pages with ⟨_, value⟩ | ⟨_, _, value⟩ | ⟨positive, k, b, picks, took, value⟩
  · simp [value] at returned
  · simp [value] at returned
  · rw [value, Prod.mk.injEq] at returned
    obtain ⟨handed, rfl⟩ := returned
    exact ⟨positive, k, picks, took, handOut_ok handed⟩

/-- An error of `alloc` leaves the allocator as it was. -/
theorem alloc_err {pages : Nat} {e : MemoryResult} {a' : Allocator}
    (returned : (a.alloc pages).value = (.error (.err e), a')) : a' = a := by
  rcases a.alloc_cases pages with ⟨_, value⟩ | ⟨_, _, value⟩ | ⟨_, k, b, _, _, value⟩
  · simpa [value, eq_comm] using (Prod.mk.inj (value.symm.trans returned)).2
  · simpa [value, eq_comm] using (Prod.mk.inj (value.symm.trans returned)).2
  · have handed := (Prod.mk.inj (value.symm.trans returned)).1
    unfold handOut at handed
    split at handed <;> cases handed

/-- No call of `alloc` moves the managed range. -/
theorem alloc_keeps {pages : Nat} {r : Except Stop MemoryBlock} {a' : Allocator}
    (returned : (a.alloc pages).value = (r, a')) :
    a'.addend = a.addend ∧ a'.bitmapEntries = a.bitmapEntries := by
  rcases a.alloc_cases pages with ⟨_, value⟩ | ⟨_, _, value⟩ | ⟨_, k, b, _, took, value⟩
  · obtain rfl := (Prod.mk.inj (value.symm.trans returned)).2
    exact ⟨rfl, rfl⟩
  · obtain rfl := (Prod.mk.inj (value.symm.trans returned)).2
    exact ⟨rfl, rfl⟩
  · obtain rfl := (Prod.mk.inj (value.symm.trans returned)).2
    exact ⟨took.addend, took.bitmapEntries⟩

/-! ### The words `alloc` touches -/

/-- A later start needs no earlier last word. -/
theorem lastWord_mono (bitmap : Words) {pages i j : Nat} (large : 32 < pages)
    (order : i ≤ j) : lastWord bitmap i pages ≤ lastWord bitmap j pages := by
  have first := bitsAvail_le (bitmap i)
  have second := bitsAvail_le (bitmap j)
  rcases Nat.eq_or_lt_of_le order with rfl | before
  · exact Nat.le_refl _
  · unfold lastWord
    omega

private theorem takeCurrent_within (pages b bound : Nat) :
    (a.takeCurrent pages b).Within bound ↔ a.currentEntry < bound := by
  simp [takeCurrent]

private theorem small_within_iff {pages : Nat} (small : pages ≤ 32) :
    (a.nextFreeEntry pages).Within a.bitmapEntries ↔
      ∃ i, i < a.bitmapEntries ∧ ∃ b, FitsIn a.bitmap i pages b := by
  simp only [nextFreeEntry, firstEntry_within_iff, isEntryValid_within]
  constructor
  · intro inside
    by_contra full
    push Not at full
    refine Nat.lt_irrefl _ (inside a.bitmapEntries (Nat.zero_le _) (by omega) ?_)
    intro j _ before
    cases valid : (isEntryValid a.bitmap j pages).value with
    | none => rfl
    | some b => exact absurd (isEntryValid_some a.bitmap small valid).1 (full j before b)
  · rintro ⟨i, bound, b, fits⟩ j _ _ earlier
    by_contra outside
    exact isEntryValid_none a.bitmap small (earlier i (Nat.zero_le _) (by omega)) b fits

private theorem large_within_iff {pages : Nat} (large : 32 < pages) :
    (a.nextFreeEntryEx pages).Within a.bitmapEntries ↔
      ∃ i, lastWord a.bitmap i pages < a.bitmapEntries ∧ RunsFrom a.bitmap i pages := by
  have missed {j : Nat} : (isEntryValidEx a.bitmap j pages).value = none ↔
      ¬RunsFrom a.bitmap j pages := by
    constructor
    · intro none runs
      rw [(isEntryValidEx_value a.bitmap large _).mpr ⟨runs, rfl⟩] at none
      cases none
    · intro blocked
      cases valid : (isEntryValidEx a.bitmap j pages).value with
      | none => rfl
      | some b => exact absurd ((isEntryValidEx_value a.bitmap large b).mp valid).1 blocked
  simp only [nextFreeEntryEx, firstEntry_within_iff, missed]
  constructor
  · intro inside
    by_contra full
    push Not at full
    -- the first run found, or the word behind the bitmap, lies outside
    by_cases found : ∃ i, i ≤ a.bitmapEntries ∧ RunsFrom a.bitmap i pages
    · classical
      have least := Nat.find_spec found
      have within := inside (Nat.find found) (Nat.zero_le _) (by omega) fun j _ before runs =>
        Nat.find_min found before ⟨by omega, runs⟩
      exact full _ (lastWord_lt_of_within a.bitmap large least.2 within) least.2
    · push Not at found
      have behind := inside a.bitmapEntries (Nat.zero_le _) (by omega) fun j _ before =>
        found j (by omega)
      exact Nat.lt_irrefl _ (isEntryValidEx_reads a.bitmap behind)
  · rintro ⟨i, bound, runs⟩ j _ _ earlier
    apply isEntryValidEx_within
    refine Nat.lt_of_le_of_lt (lastWord_mono a.bitmap large ?_) bound
    by_contra later
    exact earlier i (Nat.zero_le _) (by omega) runs

private theorem allocEx_within_iff {pages : Nat} (large : 32 < pages) (bound : Nat) :
    (a.allocEx pages).Within bound ↔ (a.nextFreeEntryEx pages).Within bound := by
  simp only [allocEx, Traced.within_bind]
  refine ⟨And.left, fun inside => ⟨inside, ?_⟩⟩
  cases searched : (a.nextFreeEntryEx pages).value with
  | error e => exact Traced.within_pure _ _
  | ok place =>
    obtain ⟨b, i⟩ := place
    obtain ⟨_, upper, found, earlier⟩ := firstEntry_ok searched
    obtain ⟨runs, rfl⟩ := (isEntryValidEx_value a.bitmap large b).mp found
    have last := lastWord_lt_of_within a.bitmap large runs
      (firstEntry_within_iff.mp inside i (Nat.zero_le _) upper earlier)
    have top := bitsAvail_le (a.bitmap i)
    have width : 32 - (32 - bitsAvail (a.bitmap i)) = bitsAvail (a.bitmap i) := by omega
    simp only [width, Traced.within_bind, readWord_within, writeWord_within, fillWords_within]
    unfold lastWord at last
    refine ⟨by omega, by omega, Or.inr (by omega), ?_⟩
    split
    · simp only [Traced.within_bind, readWord_within, writeWord_within, Traced.within_pure]
      exact ⟨last, last, trivial⟩
    · exact Traced.within_pure _ _

/-- `alloc` stays inside the bitmap exactly when its search ends there. -/
def SearchEndsInside (pages : Nat) : Prop :=
  pages = 0 ∨
  (pages ≤ 32 ∧ a.currentEntry < a.bitmapEntries ∧
    ∃ i, i < a.bitmapEntries ∧ ∃ b, FitsIn a.bitmap i pages b) ∨
  (32 < pages ∧ ∃ i, lastWord a.bitmap i pages < a.bitmapEntries ∧ RunsFrom a.bitmap i pages)

theorem alloc_within_iff (pages : Nat) :
    (a.alloc pages).Within a.bitmapEntries ↔ a.SearchEndsInside pages := by
  unfold alloc SearchEndsInside
  by_cases zero : pages = 0
  · simp [zero]
  · rw [if_neg zero]
    by_cases small : pages ≤ 32
    · rw [if_pos small, Traced.within_bind, isEntryValid_within]
      simp only [zero, small, false_or, true_and, show ¬32 < pages by omega, false_and, or_false,
        and_congr_right_iff]
      intro current
      cases here : (isEntryValid a.bitmap a.currentEntry pages).value with
      | some b =>
        simp only [takeCurrent_within, current, true_iff]
        exact ⟨a.currentEntry, current, b, (isEntryValid_some a.bitmap small here).1⟩
      | none =>
        simp only [Traced.within_bind, small_within_iff a small]
        refine ⟨And.left, fun room => ⟨room, ?_⟩⟩
        cases searched : (a.nextFreeEntry pages).value with
        | error e => exact Traced.within_pure _ _
        | ok place =>
          obtain ⟨b, i⟩ := place
          obtain ⟨_, upper, _, earlier⟩ := firstEntry_ok searched
          have inside := firstEntry_within_iff.mp ((small_within_iff a small).mpr room) i
            (Nat.zero_le _) upper earlier
          rw [isEntryValid_within] at inside
          simpa only [takeCurrent_within] using inside
    · have large : 32 < pages := by omega
      rw [if_neg small, allocEx_within_iff a large, large_within_iff a large]
      simp only [zero, small, large, false_or, false_and, true_and]

/-! ### `free` -/

theorem free_keeps {mb : MemoryBlock} {r : Except Stop Unit} {a' : Allocator}
    (returned : (a.free mb).value = (r, a')) :
    a'.addend = a.addend ∧ a'.bitmapEntries = a.bitmapEntries := by
  unfold free at returned
  split at returned
  · cases returned
    exact ⟨rfl, rfl⟩
  · split at returned
    · cases returned
      exact ⟨rfl, rfl⟩
    · split at returned
      · cases returned
        exact ⟨rfl, rfl⟩
      · split at returned
        · cases returned
          exact ⟨rfl, rfl⟩
        · simp only [Traced.value_bind, Traced.value_ite, Traced.value_pure] at returned
          split at returned <;> cases returned <;> exact ⟨rfl, rfl⟩

/-- A refused `free` changes nothing. -/
theorem free_err {mb : MemoryBlock} {s : Stop} {a' : Allocator}
    (refused : (a.free mb).value = (.error s, a')) : a' = a := by
  unfold free at refused
  split at refused
  · cases refused
    rfl
  · split at refused
    · cases refused
      rfl
    · split at refused
      · cases refused
        rfl
      · split at refused
        · cases refused
          rfl
        · simp only [Traced.value_bind, Traced.value_ite, Traced.value_pure] at refused
          split at refused <;> cases refused
          rfl

/-- The block of `pages` pages from page `k` on. -/
def blockAt (pages k : Nat) : MemoryBlock := ⟨a.addend + k * 0x1000, pages * 0x1000⟩

/-- `free` accepts a block whose pages are all taken exactly when the allocator's
pages are aligned and the block ends below the maximum. -/
def Freeable (pages k : Nat) : Prop :=
  a.addend % 0x1000 = 0 ∧ (a.blockAt pages k).endAddress ≤ kernelMaximumAllocatableAddress

instance (pages k : Nat) : Decidable (a.Freeable pages k) :=
  inferInstanceAs (Decidable (_ ∧ _))

theorem Freeable.bound {a : Allocator} {pages k : Nat} (freeable : a.Freeable pages k) :
    a.addend + k * 0x1000 + pages * 0x1000 ≤ 0x800000000 := freeable.2

/-- A run of pages that are all taken is given back at its address. -/
theorem free_run {base pages k : Nat} (aligned : base % 0x1000 = 0) (inside : a.addend ≤ base)
    (first : (base - a.addend) / 0x1000 = k)
    (ends : base + pages * 0x1000 ≤ kernelMaximumAllocatableAddress)
    (taken : ∀ j, InRun k pages j → bit a.bitmap j = true) :
    ∃ a', (a.free ⟨base, pages * 0x1000⟩).value = (.ok (), a') ∧ a.Gave a' pages k := by
  have bound : base + pages * 0x1000 ≤ 0x800000000 := ends
  have lengthAligned : ¬pages * 0x1000 % 0x1000 ≠ 0 := by omega
  have baseAligned : ¬(base < a.addend ∨ base % 0x1000 ≠ 0) := by omega
  have inU64 : ¬2 ^ 64 ≤ (MemoryBlock.mk base (pages * 0x1000)).endAddress := by
    simp only [MemoryBlock.endAddress]
    omega
  have below : ¬(MemoryBlock.mk base (pages * 0x1000)).endAddress >
      kernelMaximumAllocatableAddress := Nat.not_lt.mpr ends
  have entry : BitmapEntry.fromAddress (base - a.addend) = ⟨k / 32, k % 32⟩ := by
    simp only [BitmapEntry.fromAddress, BitmapEntry.mk.injEq]
    omega
  have page : (BitmapEntry.mk (k / 32) (k % 32)).page = k := by
    simp only [BitmapEntry.page]
    omega
  have small : (BitmapEntry.mk (k / 32) (k % 32)).bitOffset < 32 := Nat.mod_lt _ (by decide)
  have occupied : ((BitmapEntry.mk (k / 32) (k % 32)).isOccupied a.bitmap
      (pages * 0x1000 % 2 ^ 32 / 0x1000)).value = true := by
    apply BitmapEntry.isOccupied_of_set _ _ _ small
    rw [page]
    intro j run
    have upper := run.2
    exact taken j ⟨run.1, by omega⟩
  have length : pages * 0x1000 / 0x1000 % 2 ^ 32 = pages := by omega
  refine ⟨{ a with bitmap := ((BitmapEntry.mk (k / 32) (k % 32)).setZero a.bitmap pages).value },
    ?_, ?_, rfl, rfl, rfl, rfl⟩
  · rw [free, if_neg lengthAligned, if_neg baseAligned, if_neg inU64, if_neg below, entry, length]
    simp only [Traced.value_bind, occupied, if_true, Traced.value_pure]
  · have clears := BitmapEntry.setZero_clears ⟨k / 32, k % 32⟩ a.bitmap pages small
    rwa [page] at clears

theorem free_granted {pages k : Nat} (freeable : a.Freeable pages k)
    (taken : ∀ j, InRun k pages j → bit a.bitmap j = true) :
    ∃ a', (a.free (a.blockAt pages k)).value = (.ok (), a') ∧ a.Gave a' pages k := by
  have aligned := freeable.1
  apply a.free_run _ (Nat.le_add_right ..) _ freeable.2 taken <;> omega

theorem free_refused {pages k : Nat} (refused : ¬a.Freeable pages k) :
    ∃ s, (a.free (a.blockAt pages k)).value = (.error s, a) := by
  unfold free
  rw [if_neg (by simp only [blockAt]; omega)]
  split
  · exact ⟨_, rfl⟩
  next based =>
    split
    · exact ⟨_, rfl⟩
    · split
      · exact ⟨_, rfl⟩
      next below =>
        refine absurd ⟨?_, Nat.le_of_not_lt below⟩ refused
        simp only [blockAt, not_or, not_not] at based
        omega

end Allocator

end EmkKernel
