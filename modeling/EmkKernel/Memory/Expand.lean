import EmkKernel.Memory.Create
import EmkKernel.Memory.FreeRuns
import EmkKernel.Memory.Ledger

/-!
# Growing an allocator

`new_fake` takes the frames of a bitmap from another allocator, and `expand` should move
the bitmap to more of them. It allocates the new bitmap from the range it hands out itself
and gives back a block whose length is a number of pages, so the other allocator keeps
the frames of the old bitmap and is never asked for new ones.
-/

namespace EmkKernel

open BitArray

/-- An allocator made by `new_fake`, with its callers, where its bitmap lies, and the
allocator that the bitmap was taken from. -/
structure Faked where
  session : Session
  bitmapAddress : Nat
  super : Allocator

namespace Faked

def make (super : Allocator) (numPages virtualAddress : Nat) (behind : Words) : Option Faked :=
  match (super.alloc (Allocator.bitmapPagesNeeded (Allocator.numEntriesNeeded numPages))).value with
  | (.ok mb, super) => some
      { session := ⟨⟨Allocator.zeroedBlock mb behind, Allocator.numEntriesNeeded numPages, 0,
          virtualAddress, numPages⟩, []⟩
        bitmapAddress := mb.base
        super }
  | (.error _, _) => none

/-- `memcpy` of whole words. -/
def memcpy (destination source : Words) (length : Nat) : Words := fun i =>
  if i < length then source i else destination i

/-- `Allocator::expand`. The page number that the block to free gets as its length is the
number of whole pages of the old bitmap. -/
def expand (s : Faked) (morePages : Nat) (behind : Words) : Option Faked :=
  if s.session.allocator.fakedPages = 0 then some s
  else
    let numPages := s.session.allocator.fakedPages + morePages
    let entries := Allocator.numEntriesNeeded numPages
    match (s.session.allocator.alloc (Allocator.bitmapPagesNeeded entries % 2 ^ 16)).value with
    | (.error _, _) => none
    | (.ok mb, a) =>
      let bitmap := memcpy (Allocator.zeroedBlock mb behind) a.bitmap a.bitmapEntries
      match (s.super.free ⟨s.bitmapAddress, a.bitmapEntries * 4 / 0x1000⟩).value with
      | (.error _, _) => none
      | (.ok _, super) => some
          { session := ⟨{ a with bitmap, bitmapEntries := entries }, s.session.outstanding⟩
            bitmapAddress := mb.base
            super }

/-- A caller's request to the allocator. -/
def serve (s : Faked) (r : Request) : Option Faked :=
  (s.session.serve r).map fun session => { s with session }

/-- Callers of the allocator allocate and free. -/
abbrev Run : Faked → Faked → Prop := Relation.ReflTransGen fun s s' => ∃ r, s.serve r = some s'

/-- The pages of the other allocator in which a bitmap lies. -/
def bitmapFrames (s : Faked) (super : Allocator) (k : Nat) : Prop :=
  InRun ((s.bitmapAddress - super.addend) / 0x1000)
    (Allocator.bitmapPagesNeeded s.session.allocator.bitmapEntries) k

/-- The allocator was grown: it manages what it did and more free pages, in a bitmap that
was moved to other frames of the allocator it was made from. -/
structure Grown (s s' : Faked) (morePages : Nat) : Prop where
  outstanding : s'.session.outstanding = s.session.outstanding ∧
    ∀ mb ∈ s.session.outstanding, ∀ i < mb.length / 0x1000,
      s'.session.allocator.TakenAt (mb.base + i * 0x1000)
  addend : s'.session.allocator.addend = s.session.allocator.addend
  free : ∀ k < 32 * s.session.allocator.bitmapEntries,
    bit s.session.allocator.bitmap k = false → bit s'.session.allocator.bitmap k = false
  more : ∀ k, 32 * s.session.allocator.bitmapEntries ≤ k →
    k < 32 * s'.session.allocator.bitmapEntries → bit s'.session.allocator.bitmap k = false
  managed : s.session.allocator.fakedPages + morePages ≤ 32 * s'.session.allocator.bitmapEntries
  addsUp : s'.session.allocator.fakedPages = s.session.allocator.fakedPages + morePages
  taken : ∀ k, s'.bitmapFrames s.super k → bit s.super.bitmap k = false
  super : ∀ k, bit s'.super.bitmap k = true ↔
    (bit s.super.bitmap k = true ∧ ¬s.bitmapFrames s.super k) ∨ s'.bitmapFrames s.super k

variable {s s' : Faked} {super : Allocator} {numPages morePages virtualAddress : Nat}
  {behind : Words}

/-- The bitmap lies in frames that are allocated for it. -/
structure Placed (s : Faked) : Prop where
  frames : ∀ k, s.bitmapFrames s.super k → bit s.super.bitmap k = true
  positive : 0 < s.session.allocator.bitmapEntries
  small : s.session.allocator.bitmapEntries ≤ 2048

private theorem placed_make (small : numPages < 2 ^ 16)
    (made : make super numPages virtualAddress behind = some s) : s.Placed := by
  simp only [make] at made
  split at made
  next mb super' returned =>
    obtain ⟨positive, k, _, took, rfl, _⟩ := super.alloc_ok returned
    cases made
    refine ⟨fun j frame => ?_, ?_, ?_⟩
    · refine (took.sets j).mpr (Or.inr ?_)
      simp only [bitmapFrames, took.addend] at frame
      rwa [Nat.add_sub_cancel_left, Nat.mul_div_cancel _ (by decide)] at frame
    · by_contra none
      have zero : Allocator.numEntriesNeeded numPages = 0 := Nat.eq_zero_of_not_pos none
      rw [zero] at positive
      exact absurd positive (by decide)
    · simp only [Allocator.numEntriesNeeded]
      split <;> omega
  next => cases made

/-- A request neither moves the bitmap nor reaches the other allocator. -/
theorem Placed.serve {r : Request} (placed : s.Placed) (served : s.serve r = some s') :
    s'.Placed ∧ s'.super = s.super := by
  obtain ⟨session, answered, rfl⟩ := Option.map_eq_some_iff.mp served
  have entries : session.allocator.bitmapEntries = s.session.allocator.bitmapEntries := by
    cases r with
    | alloc pages =>
      simp only [Session.serve] at answered
      split at answered
      next returned => cases answered; exact (Allocator.alloc_keeps _ returned).2
      next returned => cases answered; exact (Allocator.alloc_keeps _ returned).2
      next => cases answered
    | free mb =>
      simp only [Session.serve] at answered
      split at answered
      next =>
        split at answered
        next returned => cases answered; exact (Allocator.free_keeps _ returned).2
        next returned => cases answered; exact (Allocator.free_keeps _ returned).2
        next => cases answered
      next => cases answered
  refine ⟨⟨fun k frame => placed.frames k ?_, ?_, ?_⟩, rfl⟩
  · simp only [bitmapFrames, entries] at frame
    exact frame
  · exact entries ▸ placed.positive
  · exact entries ▸ placed.small

theorem Placed.run (placed : s.Placed) (run : Run s s') : s'.Placed := by
  induction run with
  | refl => exact placed
  | tail _ step ih =>
    obtain ⟨r, served⟩ := step
    exact (ih.serve served).1

/-- Freeing an empty block changes nothing. -/
theorem free_empty {a a' : Allocator} {base : Nat}
    (freed : (a.free ⟨base, 0⟩).value = (.ok (), a')) : a'.bitmap = a.bitmap := by
  have accepts := (Allocator.free_ok_iff.mp ⟨a', freed⟩).1
  rw [accepts.free] at freed
  split at freed
  next =>
    cases freed
    apply words_ext
    intro k
    have clears := BitmapEntry.setZero_clears (a.entryOf ⟨base, 0⟩)
        a.bitmap 0 Allocator.entryOf_inside k
    have none : ¬InRun (a.entryOf ⟨base, 0⟩).page 0 k := by
      unfold InRun
      omega
    rw [and_iff_left none] at clears
    simp only [Nat.zero_div, Nat.zero_mod]
    exact Bool.eq_iff_iff.mpr clears
  next => cases freed

/-- When `expand` returns, the other allocator has got nothing back and was asked for
nothing. -/
theorem Placed.super_expand (placed : s.Placed) (returned : s.expand morePages behind = some s') :
    s'.super.bitmap = s.super.bitmap := by
  simp only [expand] at returned
  split at returned
  next => cases returned; rfl
  next =>
    split at returned
    next => cases returned
    next mb a taken =>
      split at returned
      next => cases returned
      next super freed =>
        cases returned
        have entries := (Allocator.alloc_keeps _ taken).2
        have accepts := (Allocator.free_ok_iff.mp ⟨super, freed⟩).1.length
        have small := placed.small
        -- the length is a number of pages, so only an empty block passes
        have empty : a.bitmapEntries * 4 / 0x1000 = 0 := by
          simp only at accepts
          omega
        rw [empty] at freed
        exact free_empty freed

/-- In no state of a faked allocator does `expand` grow it. -/
theorem expand_never_grows {s₀ : Faked} {behind' : Words} (small : numPages < 2 ^ 16)
    (made : make super numPages virtualAddress behind = some s₀) (run : Run s₀ s)
    (returned : s.expand morePages behind' = some s') : ¬s.Grown s' morePages := by
  have placed := (placed_make small made).run run
  intro grown
  have same := placed.super_expand returned
  -- the first frame of the old bitmap is still allocated
  have frame : s.bitmapFrames s.super ((s.bitmapAddress - s.super.addend) / 0x1000) := by
    refine ⟨Nat.le_refl _, Nat.lt_add_of_pos_right ?_⟩
    have positive := placed.positive
    simp only [Allocator.bitmapPagesNeeded]
    split <;> omega
  have held := placed.frames _ frame
  rcases (grown.super _).mp (same ▸ held) with ⟨_, gone⟩ | new
  · exact gone frame
  · have free := grown.taken _ new
    rw [held] at free
    cases free

/-- Two words of free pages. -/
def twoWords : Allocator := ⟨fun _ => 0, 2, 0, 0x100000, 0⟩

/-- An allocator of 64 pages from the address on, whose bitmap takes a page. -/
theorem expand_twoWords : ∃ s s', make twoWords 64 0x400000 (fun _ => 0) = some s ∧
    s.expand 32 (fun _ => 0) = some s' ∧ ¬s.Grown s' 32 := by
  obtain ⟨s, made⟩ := Option.isSome_iff_exists.mp
    (show (make twoWords 64 0x400000 (fun _ => 0)).isSome = true by decide +kernel)
  have expands : ((make twoWords 64 0x400000 (fun _ => 0)).bind fun s =>
      s.expand 32 (fun _ => 0)).isSome = true := by decide +kernel
  rw [made] at expands
  obtain ⟨s', returned⟩ := Option.isSome_iff_exists.mp expands
  exact ⟨s, s', made, returned, expand_never_grows (by decide) made .refl returned⟩

/-- The first page that the allocator manages is free, and is not after `expand`. -/
theorem not_grown_twoWords : ∃ s s', make twoWords 64 0x400000 (fun _ => 0) = some s ∧
    s.expand 32 (fun _ => 0) = some s' ∧ ¬s.Grown s' 32 := by
  have ran : ((make twoWords 64 0x400000 (fun _ => 0)).any fun s =>
      (s.expand 32 (fun _ => 0)).any fun s' =>
        s.session.allocator.bitmapEntries == 2 && bit s.session.allocator.bitmap 0 == false &&
          bit s'.session.allocator.bitmap 0) = true := by decide +kernel
  obtain ⟨s, made, ran⟩ := (Option.any_eq_true _ _).1 ran
  obtain ⟨s', returned, bits⟩ := (Option.any_eq_true _ _).1 ran
  simp only [Bool.and_eq_true, beq_iff_eq] at bits
  obtain ⟨⟨entries, unset⟩, set⟩ := bits
  refine ⟨s, s', made, returned, fun grown => ?_⟩
  have kept := grown.free 0 (by rw [entries]; decide) unset
  rw [set] at kept
  cases kept

end Faked

end EmkKernel
