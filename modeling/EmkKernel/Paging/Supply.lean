import EmkKernel.Memory.Drain
import EmkKernel.Paging.PointerTable

/-!
# Frames for page tables

What the pager relies on when it takes frames from an allocator: they are frames,
and nobody uses them yet. `Supplies` says this of all single pages the allocator
will return, so it holds again after each of them.
-/

namespace EmkKernel

open EStateM

/-- A computation failed: the allocator refused a page in a state with `P`, or a sum
of addresses overflowed. -/
inductive Fails (P : Machine → Prop) (overflow : Prop) : Stop → Machine → Prop where
  | refused (m : Machine) (s : Stop) (a : Allocator) (before : P m)
      (refused : (m.allocator.alloc 1).value = (.error s, a)) : Fails P overflow s ⟨m.memory, a⟩
  | overflow (overflows : overflow) (m : Machine) : Fails P overflow .panic m

theorem Fails.mono {P P' : Machine → Prop} {overflow overflow' : Prop}
    (before : ∀ m, P m → P' m) (more : overflow → overflow') (s : Stop) (m : Machine)
    (fails : Fails P overflow s m) : Fails P' overflow' s m := by
  cases fails with
  | refused m s a held refused => exact .refused m s a (before m held) refused
  | overflow overflows => exact .overflow (more overflows) m

/-- An error, other than a panic, leaves the state as the allocator found it. -/
theorem Fails.err {P : Machine → Prop} {overflow : Prop} {e : MemoryResult} {m : Machine}
    (fails : Fails P overflow (.err e) m) :
    P m ∧ (m.allocator.alloc 1).value = (.error (.err e), m.allocator) := by
  cases fails with
  | refused m s a before refused =>
    have same := m.allocator.alloc_err refused
    subst same
    exact ⟨before, refused⟩

section Steps

variable {m : Machine} {R : Stop → Machine → Prop}

@[simp] theorem yields_load (location : Location) {Q : Entry → Machine → Prop} :
    Yields (load location) m Q R ↔ Q (m.memory location.table location.index) m := Iff.rfl

@[simp] theorem yields_store (location : Location) (entry : Entry) {Q : Unit → Machine → Prop} :
    Yields (store location entry) m Q R ↔
      Q () { m with memory := RadixTree.write m.memory location.table location.index entry } :=
  Iff.rfl

end Steps

namespace Allocator

/-- A page was taken. -/
def TakesPage (a a' : Allocator) : Prop := ∃ mb, (a.alloc 1).value = (.ok mb, a')

/-- Every page the allocator returns from now on is a frame that is not in use. -/
def Supplies (used : BitVec 64 → Prop) (a : Allocator) : Prop :=
  ∀ a' a'' mb, Relation.ReflTransGen TakesPage a a' → (a'.alloc 1).value = (.ok mb, a'') →
    mb.base % 0x1000 = 0 ∧ mb.base < 2 ^ 52 ∧ ¬used (BitVec.ofNat 64 mb.base)

variable {used used' : BitVec 64 → Prop} {a a' : Allocator} {mb : MemoryBlock}

theorem Supplies.mono (supplies : a.Supplies used) (fewer : ∀ f, used' f → used f) :
    a.Supplies used' := by
  intro a' a'' mb run returned
  obtain ⟨aligned, bound, unused⟩ := supplies a' a'' mb run returned
  exact ⟨aligned, bound, fun old => unused (fewer _ old)⟩

theorem Supplies.isFrame (supplies : a.Supplies used)
    (returned : (a.alloc 1).value = (.ok mb, a')) :
    IsFrame (BitVec.ofNat 64 mb.base) := by
  obtain ⟨aligned, bound, _⟩ := supplies a a' mb .refl returned
  exact isFrame_ofNat aligned bound

theorem Supplies.unused (supplies : a.Supplies used) (returned : (a.alloc 1).value = (.ok mb, a')) :
    ¬used (BitVec.ofNat 64 mb.base) :=
  (supplies a a' mb .refl returned).2.2

private theorem takesPage_allocStep (run : Relation.ReflTransGen TakesPage a a') :
    Relation.ReflTransGen AllocStep a a' :=
  run.lift id fun _ _ ⟨mb, returned⟩ => ⟨1, mb, returned⟩

/-- The frame returned is not returned again. -/
theorem Supplies.grant (supplies : a.Supplies used)
    (returned : (a.alloc 1).value = (.ok mb, a')) :
    a'.Supplies fun f => used f ∨ f = BitVec.ofNat 64 mb.base := by
  intro b b' mb' run later
  obtain ⟨aligned, bound, unused⟩ := supplies b b' mb' (run.head ⟨mb, returned⟩) later
  refine ⟨aligned, bound, ?_⟩
  rintro (old | again)
  · exact unused old
  · have first := (supplies a a' mb .refl returned).2.1
    obtain ⟨_, k, _, took, rfl, _⟩ := a.alloc_ok returned
    obtain ⟨addend, _, bits⟩ := allocSteps_keep (takesPage_allocStep run)
    obtain ⟨_, k', picks', _, rfl, _⟩ := b.alloc_ok later
    have same : k' = k := by
      have equal := congrArg BitVec.toNat again
      simp only [BitVec.toNat_ofNat] at equal bound first
      have addend' := addend.trans took.addend
      omega
    have clear := picks'.clear k' (by unfold BitArray.InRun; omega)
    rw [same, bits k ((took.sets k).mpr (Or.inr (by unfold BitArray.InRun; omega)))] at clear
    cases clear

/-- Every block the allocator returns from now on lies in physical memory, in frames that are
not used. -/
def Offers (used : BitVec 64 → Prop) (a : Allocator) : Prop :=
  ∀ pages before after mb, Relation.ReflTransGen AllocStep a before →
    (before.alloc pages).value = (.ok mb, after) →
    mb.base % 0x1000 = 0 ∧ mb.endAddress ≤ 2 ^ 52 ∧
      ∀ i < pages, ¬used (BitVec.ofNat 64 (mb.base + i * 0x1000))

theorem Offers.supplies (offers : a.Offers used) : a.Supplies used := by
  intro before after mb run returned
  obtain ⟨aligned, bound, unused⟩ := offers 1 before after mb (takesPage_allocStep run) returned
  obtain ⟨_, k, _, _, rfl, _⟩ := before.alloc_ok returned
  simp only [MemoryBlock.endAddress] at bound
  exact ⟨aligned, by simp only; omega, unused 0 (by decide)⟩

theorem Offers.step (offers : a.Offers used) (step : AllocStep a a') :
    a'.Offers used := by
  intro pages before after mb run returned
  exact offers pages before after mb (run.head step) returned

/-- An allocator with a full word behind its bitmap offers its free pages, if they are frames that
are not used. -/
theorem offers_of_fenced (fenced : a.Fenced) (aligned : a.addend % 0x1000 = 0)
    (bound : a.addend + 32 * a.bitmapEntries * 0x1000 ≤ 2 ^ 52)
    (unused : ∀ k, BitArray.bit a.bitmap k = false →
      ¬used (BitVec.ofNat 64 (a.addend + k * 0x1000))) : a.Offers used := by
  intro pages before after mb run returned
  obtain ⟨addend, entries, bits⟩ := allocSteps_keep run
  obtain ⟨positive, k, picks, _, rfl, _⟩ := before.alloc_ok returned
  have inside := (fenced.run run).picks positive picks
  rw [addend]
  refine ⟨by simp only; omega, by simp only [MemoryBlock.endAddress]; omega, fun i below => ?_⟩
  have clear := picks.clear (k + i) (by unfold BitArray.InRun; omega)
  rw [Nat.add_assoc, ← Nat.add_mul]
  refine unused (k + i) (Bool.eq_false_iff.mpr fun set => ?_)
  rw [bits _ set] at clear
  cases clear

theorem supplies_of_fenced (fenced : a.Fenced) (aligned : a.addend % 0x1000 = 0)
    (bound : a.addend + 32 * a.bitmapEntries * 0x1000 ≤ 2 ^ 52)
    (unused : ∀ k, BitArray.bit a.bitmap k = false →
      ¬used (BitVec.ofNat 64 (a.addend + k * 0x1000))) : a.Supplies used :=
  (offers_of_fenced fenced aligned bound unused).supplies

end Allocator

/-- A page of zeros. -/
theorem allocZeroPage_yields (m : Machine) :
    Yields allocZeroPage m
      (fun f m' => ∃ mb a, (m.allocator.alloc 1).value = (.ok mb, a) ∧
        f = BitVec.ofNat 64 mb.base ∧ m' = ⟨RadixTree.fill m.memory f fun _ => 0, a⟩)
      (Fails (· = m) False) := by
  unfold allocZeroPage
  rw [yields_bind, yields_get]
  split
  next mb a returned =>
    simp only [yields_bind, yields_set, yields_pure]
    exact ⟨mb, a, returned, rfl, rfl⟩
  next stop a refused =>
    simp only [yields_bind, yields_set, yields_throw]
    exact .refused m stop a rfl refused

/-- The allocator takes a block back, or refuses it and nothing changed. -/
theorem freeBlock_yields (m : Machine) (mb : MemoryBlock) :
    Yields (freeBlock mb) m
      (fun _ m' => m'.memory = m.memory ∧
        (m.allocator.free mb).value = (.ok (), m'.allocator))
      (fun s m' => m' = m ∧ (m.allocator.free mb).value = (.error s, m.allocator)) := by
  unfold freeBlock
  rw [yields_bind, yields_get]
  split
  next a freed => exact ⟨rfl, freed⟩
  next s a refused =>
    simp only [yields_bind, yields_set, yields_throw]
    have same := m.allocator.free_err refused
    subst same
    exact ⟨rfl, refused⟩

end EmkKernel
