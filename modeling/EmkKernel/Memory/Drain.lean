import EmkKernel.Memory.Range
import Mathlib.Data.Finset.Card
import Mathlib.Logic.Relation

/-!
# Which pages an allocator can ever return

Allocating page by page visits every free page of the words the search tests,
so a free page is returned by some run. A page that is not free never is, since
`alloc` only sets bits.
-/

namespace EmkKernel

open BitArray

namespace Allocator

/-- A successful `alloc`. -/
def AllocStep (a a' : Allocator) : Prop := ∃ pages mb, (a.alloc pages).value = (.ok mb, a')

/-- Some later run of allocations returns a block that contains page `p`. -/
def Returns (a : Allocator) (p : Nat) : Prop :=
  ∃ a' a'' pages mb, Relation.ReflTransGen AllocStep a a' ∧
    (a'.alloc pages).value = (.ok mb, a'') ∧ mb.Contains (a.addend + p * 0x1000)

/-- One page taken from one of the first `bound` words. -/
def DrainStep (bound : Nat) (a a' : Allocator) : Prop :=
  a.currentEntry < bound ∧ (∃ i < bound, ∃ b, FitsIn a.bitmap i 1 b) ∧
    ∃ mb, (a.alloc 1).value = (.ok mb, a')

variable {a a' : Allocator}

theorem fitsIn_one (bitmap : Words) (p : Nat) :
    FitsIn bitmap (p / 32) 1 (p % 32) ↔ bit bitmap p = false := by
  unfold FitsIn Clear InRun
  constructor
  · rintro ⟨_, clear⟩
    exact clear p (by omega)
  · intro clear
    refine ⟨by omega, fun j run => ?_⟩
    rwa [show j = p by omega]

/-! ### Runs of allocations -/

/-- What a run of allocations leaves as it was. -/
theorem AllocStep.keeps (step : AllocStep a a') :
    a'.addend = a.addend ∧ a'.bitmapEntries = a.bitmapEntries ∧
      ∀ p, bit a.bitmap p = true → bit a'.bitmap p = true := by
  obtain ⟨pages, mb, returned⟩ := step
  obtain ⟨_, k, _, took, _⟩ := a.alloc_ok returned
  exact ⟨took.addend, took.bitmapEntries, fun p set => (took.sets p).mpr (Or.inl set)⟩

theorem allocSteps_keep (run : Relation.ReflTransGen AllocStep a a') :
    a'.addend = a.addend ∧ a'.bitmapEntries = a.bitmapEntries ∧
      ∀ p, bit a.bitmap p = true → bit a'.bitmap p = true := by
  induction run with
  | refl => exact ⟨rfl, rfl, fun _ set => set⟩
  | tail _ step ih =>
    obtain ⟨addend, entries, bits⟩ := ih
    obtain ⟨addend', entries', bits'⟩ := step.keeps
    exact ⟨addend'.trans addend, entries'.trans entries, fun p set => bits' p (bits p set)⟩

/-- A page that is taken is never returned. -/
theorem Returns.clear {p : Nat} (returns : a.Returns p) : bit a.bitmap p = false := by
  obtain ⟨a', a'', pages, mb, run, returned, contains⟩ := returns
  obtain ⟨addend, _, bits⟩ := allocSteps_keep run
  obtain ⟨_, k, picks, _, rfl, _⟩ := a'.alloc_ok returned
  have run : InRun k pages p := by
    simp only [MemoryBlock.Contains, MemoryBlock.endAddress] at contains
    unfold InRun
    omega
  by_contra set
  have clear := picks.clear p run
  rw [bits p (Bool.not_eq_false _ ▸ set)] at clear
  cases clear

/-! ### A full word behind the bitmap -/

/-- The word behind the bitmap is full, and the search starts before it. -/
structure Fenced (a : Allocator) : Prop where
  current : a.currentEntry ≤ a.bitmapEntries
  full : ∀ p, InRun (32 * a.bitmapEntries) 32 p → bit a.bitmap p = true

/-- The pages behind a full word are out of reach. -/
theorem Fenced.picks (fenced : a.Fenced) {pages k : Nat} (positive : 0 < pages)
    (picks : a.Picks pages k) : k + pages ≤ 32 * a.bitmapEntries := by
  have current := fenced.current
  have start : k < 32 * (a.bitmapEntries + 1) := by
    unfold Picks at picks
    split at picks
    · rcases picks with ⟨b, fit, rfl⟩ | ⟨_, i, b, tested, fit, _, rfl⟩
      · have room := fit.1.1
        omega
      · have room := fit.1.1
        omega
    · obtain ⟨i, tested, runs, _, rfl⟩ := picks
      have available := runs.1
      omega
  by_contra outside
  have clear := picks.clear (max k (32 * a.bitmapEntries)) (by unfold InRun; omega)
  rw [fenced.full _ (by unfold InRun; omega)] at clear
  cases clear

theorem Fenced.step (fenced : a.Fenced) (step : AllocStep a a') : a'.Fenced := by
  obtain ⟨addend, entries, bits⟩ := step.keeps
  obtain ⟨pages, mb, returned⟩ := step
  obtain ⟨positive, k, picks, took, _⟩ := a.alloc_ok returned
  have bound := fenced.picks positive picks
  have current := fenced.current
  refine ⟨?_, fun p behind => bits p (fenced.full p (by rwa [← entries]))⟩
  rw [took.currentEntry, entries]
  split <;> omega

theorem Fenced.run (fenced : a.Fenced) (run : Relation.ReflTransGen AllocStep a a') :
    a'.Fenced := by
  induction run with
  | refl => exact fenced
  | tail _ step ih => exact ih.step step

theorem Fenced.returns (fenced : a.Fenced) {p : Nat} (returns : a.Returns p) :
    p < 32 * a.bitmapEntries := by
  obtain ⟨a', a'', pages, mb, run, returned, contains⟩ := returns
  obtain ⟨addend, entries, _⟩ := allocSteps_keep run
  obtain ⟨positive, k, picks, _, rfl, _⟩ := a'.alloc_ok returned
  have bound := (fenced.run run).picks positive picks
  simp only [MemoryBlock.Contains, MemoryBlock.endAddress] at contains
  omega

/-! ### Allocating page by page -/

/-- The free pages of the first `bound` words. -/
def freePages (bound : Nat) (a : Allocator) : Finset Nat :=
  (Finset.range (32 * bound)).filter fun p => bit a.bitmap p = false

/-- A free page in the words tested is reached by taking single pages from these words. -/
theorem drain {bound p : Nat} (current : a.currentEntry < bound)
    (tested : bound ≤ a.bitmapEntries + 1) (inU64 : a.addend + 32 * bound * 0x1000 ≤ 2 ^ 64)
    (inside : p < 32 * bound) (clear : bit a.bitmap p = false) :
    ∃ a', Relation.ReflTransGen (DrainStep bound) a a' ∧ a'.currentEntry < bound ∧
      a'.Picks 1 p ∧ a'.addend = a.addend := by
  -- the free pages in these words become fewer until the search stops at `p`
  induction size : (freePages bound a).card using Nat.strong_induction_on generalizing a with
  | _ n ih =>
    have fits := (fitsIn_one a.bitmap p).mpr clear
    have word : p / 32 < bound := by omega
    obtain ⟨k, picks⟩ := a.picks_of_fitsIn (by decide) (by omega) fits
    by_cases here : k = p
    · exact ⟨a, .refl, current, here ▸ picks, rfl⟩
    · have below := picks.below (by decide) current word fits
      rcases a.alloc_cases 1 with ⟨zero, _⟩ | ⟨_, missed, _⟩ | ⟨_, k', a', picks', took, value⟩
      · omega
      · exact absurd picks (missed k)
      · obtain rfl := a.picks_unique picks picks'
        rw [handOut, if_pos (by omega)] at value
        have step : DrainStep bound a a' := ⟨current, ⟨_, word, _, fits⟩, _, value⟩
        have current' : a'.currentEntry < bound := by
          rw [took.currentEntry, if_pos (by decide)]
          omega
        have clear' : bit a'.bitmap p = false := by
          rw [Bool.eq_false_iff, Ne, took.sets p, clear]
          unfold InRun
          simp only [Bool.false_eq_true, false_or]
          omega
        have fewer : (freePages bound a').card < n := by
          rw [← size]
          apply Finset.card_lt_card
          refine Finset.ssubset_iff_of_subset (fun j member => ?_) |>.mpr ⟨k, ?_, ?_⟩
          · simp only [freePages, Finset.mem_filter, Finset.mem_range] at member ⊢
            refine ⟨member.1, ?_⟩
            by_contra set
            have set' := (took.sets j).mpr (Or.inl (Bool.not_eq_false _ ▸ set))
            rw [member.2] at set'
            cases set'
          · simp only [freePages, Finset.mem_filter, Finset.mem_range]
            exact ⟨by omega, picks.clear k (by unfold InRun; omega)⟩
          · simp only [freePages, Finset.mem_filter, Finset.mem_range, not_and,
              Bool.not_eq_false]
            exact fun _ => (took.sets k).mpr (Or.inr (by unfold InRun; omega))
        obtain ⟨a'', run, current'', picks'', addend⟩ :=
          ih _ fewer current' (by rw [took.bitmapEntries]; exact tested)
            (by rw [took.addend]; exact inU64) clear' rfl
        exact ⟨a'', run.head step, current'', picks'', addend.trans took.addend⟩

/-- A free page of the words tested is returned by some run. -/
theorem returns_of_clear {p : Nat} (current : a.currentEntry ≤ a.bitmapEntries)
    (inU64 : a.addend + 32 * (a.bitmapEntries + 1) * 0x1000 ≤ 2 ^ 64)
    (tested : p < 32 * (a.bitmapEntries + 1)) (clear : bit a.bitmap p = false) :
    a.Returns p := by
  obtain ⟨a', run, _, picks, addend⟩ :=
    drain (Nat.lt_succ_of_le current) (Nat.le_refl _) inU64 tested clear
  have run' : Relation.ReflTransGen AllocStep a a' :=
    run.lift id fun _ _ step => ⟨1, step.2.2⟩
  rcases a'.alloc_cases 1 with ⟨zero, _⟩ | ⟨_, missed, _⟩ | ⟨_, k, a'', picks', _, value⟩
  · omega
  · exact absurd picks (missed p)
  · obtain rfl := a'.picks_unique picks picks'
    rw [handOut, if_pos (by omega)] at value
    refine ⟨a', a'', 1, _, run', value, ?_⟩
    simp only [MemoryBlock.Contains, MemoryBlock.endAddress]
    omega

end Allocator

end EmkKernel
