import EmkKernel.Paging.LargePages

/-!
# Pages in stock

What an allocator has to offer a pager: every page its search can reach is taken, or
it is a frame nobody uses that the allocator would take back. Both `alloc` of one page
and `free` of a page that was lent keep this, and count.
-/

namespace EmkKernel

open BitArray

namespace Allocator

/-- The search tests the words up to the one behind the bitmap. -/
def reach (a : Allocator) : Nat := 32 * (a.bitmapEntries + 1)

def frameOf (a : Allocator) (k : Nat) : BitVec 64 := BitVec.ofNat 64 (a.addend + k * 0x1000)

/-- The free pages that can be reached are frames that are not used. -/
structure Stocked (used : BitVec 64 → Prop) (a : Allocator) : Prop where
  current : a.currentEntry ≤ a.bitmapEntries
  freeable : ∀ k < a.reach, bit a.bitmap k = false → a.Freeable 1 k
  unused : ∀ k < a.reach, bit a.bitmap k = false → ¬used (a.frameOf k)

/-- The pages that are not taken. -/
def stock (a : Allocator) : Finset Nat := freePages (a.bitmapEntries + 1) a

/-- The frame is a page of this allocator that is taken. -/
def Lent (a : Allocator) (f : BitVec 64) : Prop :=
  ∃ k < a.reach, a.Freeable 1 k ∧ f = a.frameOf k ∧ bit a.bitmap k = true

variable {a a' : Allocator} {used used' : BitVec 64 → Prop} {k : Nat} {f g : BitVec 64}

theorem mem_stock : k ∈ a.stock ↔ k < a.reach ∧ bit a.bitmap k = false := by
  simp only [stock, freePages, reach, Finset.mem_filter, Finset.mem_range]

theorem Freeable.toNat_frameOf (freeable : a.Freeable 1 k) :
    (a.frameOf k).toNat = a.addend + k * 0x1000 := by
  have bound := freeable.bound
  rw [frameOf, BitVec.toNat_ofNat]
  omega

/-- Two pages have two frames. -/
theorem Freeable.frameOf_inj {j : Nat} (first : a.Freeable 1 k) (second : a.Freeable 1 j)
    (same : a.frameOf k = a.frameOf j) : k = j := by
  have equal := congrArg BitVec.toNat same
  rw [first.toNat_frameOf, second.toNat_frameOf] at equal
  omega

theorem Stocked.mono (stocked : a.Stocked used) (fewer : ∀ f, used' f → used f) :
    a.Stocked used' :=
  ⟨stocked.current, stocked.freeable, fun k reached clear old =>
    stocked.unused k reached clear (fewer _ old)⟩

/-- The search for one page stops at a page it can reach. -/
theorem Picks.reached {a : Allocator} {k : Nat} (picks : a.Picks 1 k)
    (current : a.currentEntry ≤ a.bitmapEntries) : k < a.reach := by
  rw [Picks, if_pos (by decide)] at picks
  rcases picks with ⟨b, fit, rfl⟩ | ⟨_, i, b, tested, fit, _, rfl⟩
  · have room := fit.1.1
    unfold reach
    omega
  · have room := fit.1.1
    unfold reach
    omega

/-- One page is taken from the stock, or the stock is empty. -/
theorem Stocked.alloc_cases (stocked : a.Stocked used) :
    (a.stock = ∅ ∧ (a.alloc 1).value = (.error (.err .nospace), a)) ∨
    ∃ k a', k ∈ a.stock ∧ a.Took a' 1 k ∧ (a.alloc 1).value = (.ok (a.blockAt 1 k), a') := by
  rcases a.alloc_cases 1 with ⟨zero, _⟩ | ⟨_, missed, value⟩ | ⟨_, k, a', picks, took, value⟩
  · exact absurd zero (by decide)
  · refine Or.inl ⟨Finset.eq_empty_of_forall_notMem fun k member => ?_, value⟩
    obtain ⟨reached, clear⟩ := mem_stock.mp member
    unfold reach at reached
    obtain ⟨j, picks⟩ := a.picks_of_fitsIn (i := k / 32) (by decide) (by omega)
      ((fitsIn_one a.bitmap k).mpr clear)
    exact missed j picks
  · have reached := picks.reached stocked.current
    have clear := picks.clear k (by unfold InRun; omega)
    have bound := (stocked.freeable k reached clear).bound
    rw [handOut, if_pos (by omega)] at value
    exact Or.inr ⟨k, a', mem_stock.mpr ⟨reached, clear⟩, took, value⟩

/-! ### One page taken -/

/-- Page `k` was taken from the stock. -/
structure Grants (a a' : Allocator) (k : Nat) : Prop where
  member : k ∈ a.stock
  took : a.Took a' 1 k

theorem Grants.reach (grants : a.Grants a' k) : a'.reach = a.reach := by
  rw [Allocator.reach, Allocator.reach, grants.took.bitmapEntries]

theorem Grants.frameOf (grants : a.Grants a' k) (j : Nat) : a'.frameOf j = a.frameOf j := by
  rw [Allocator.frameOf, Allocator.frameOf, grants.took.addend]

private theorem Grants.freeable_iff (grants : a.Grants a' k) (j : Nat) :
    a'.Freeable 1 j ↔ a.Freeable 1 j := by
  simp only [Freeable, blockAt, grants.took.addend]

theorem Grants.bit (grants : a.Grants a' k) (j : Nat) :
    BitArray.bit a'.bitmap j = true ↔ BitArray.bit a.bitmap j = true ∨ j = k := by
  rw [grants.took.sets j]
  unfold InRun
  exact or_congr_right ⟨fun run => by omega, fun same => by omega⟩

theorem Grants.clear (grants : a.Grants a' k) {j : Nat}
    (clear : BitArray.bit a'.bitmap j = false) : BitArray.bit a.bitmap j = false ∧ j ≠ k := by
  have unset : ¬(BitArray.bit a.bitmap j = true ∨ j = k) := fun set =>
    Bool.false_ne_true (clear.symm.trans ((grants.bit j).mpr set))
  exact ⟨Bool.eq_false_iff.mpr fun set => unset (Or.inl set), fun same => unset (Or.inr same)⟩

theorem Stocked.grants (stocked : a.Stocked used) {mb : MemoryBlock}
    (returned : (a.alloc 1).value = (.ok mb, a')) :
    ∃ k, a.Grants a' k ∧ BitVec.ofNat 64 mb.base = a.frameOf k := by
  rcases stocked.alloc_cases with ⟨_, value⟩ | ⟨k, b, member, took, value⟩
  · cases value.symm.trans returned
  · cases value.symm.trans returned
    exact ⟨k, ⟨member, took⟩, rfl⟩

theorem Stocked.freeable_of_mem (stocked : a.Stocked used) (member : k ∈ a.stock) :
    a.Freeable 1 k := by
  obtain ⟨reached, clear⟩ := mem_stock.mp member
  exact stocked.freeable k reached clear

/-- The page taken is not in stock any more. -/
theorem Stocked.grant (stocked : a.Stocked used) (grants : a.Grants a' k) :
    a'.Stocked fun f => used f ∨ f = a.frameOf k := by
  have mine := stocked.freeable_of_mem grants.member
  refine ⟨?_, fun j reached clear => ?_, fun j reached clear => ?_⟩
  · have bound := (mem_stock.mp grants.member).1
    rw [grants.took.currentEntry, if_pos (by decide), grants.took.bitmapEntries]
    unfold reach at bound
    omega
  · rw [grants.freeable_iff]
    exact stocked.freeable j (grants.reach ▸ reached) (grants.clear clear).1
  · rw [grants.frameOf]
    obtain ⟨clear, other⟩ := grants.clear clear
    rw [grants.reach] at reached
    rintro (old | same)
    · exact stocked.unused j reached clear old
    · exact other ((stocked.freeable j reached clear).frameOf_inj mine same)

theorem Stocked.lent_of_grants (stocked : a.Stocked used) (grants : a.Grants a' k) :
    a'.Lent (a.frameOf k) := by
  have reached := (mem_stock.mp grants.member).1
  exact ⟨k, grants.reach.symm ▸ reached,
    (grants.freeable_iff k).mpr (stocked.freeable_of_mem grants.member), (grants.frameOf k).symm,
    (grants.bit k).mpr (Or.inr rfl)⟩

theorem Grants.lent (grants : a.Grants a' k) (lent : a.Lent f) : a'.Lent f := by
  obtain ⟨j, reached, freeable, rfl, taken⟩ := lent
  exact ⟨j, grants.reach.symm ▸ reached, (grants.freeable_iff j).mpr freeable,
    (grants.frameOf j).symm, (grants.bit j).mpr (Or.inl taken)⟩

theorem Grants.stock (grants : a.Grants a' k) : a'.stock = a.stock.erase k := by
  ext j
  rw [Finset.mem_erase, mem_stock, mem_stock, grants.reach]
  constructor
  · rintro ⟨reached, clear⟩
    exact ⟨(grants.clear clear).2, reached, (grants.clear clear).1⟩
  · rintro ⟨other, reached, clear⟩
    refine ⟨reached, Bool.eq_false_iff.mpr fun set => ?_⟩
    rcases (grants.bit j).mp set with old | same
    · exact Bool.false_ne_true (clear.symm.trans old)
    · exact other same

theorem Grants.card (grants : a.Grants a' k) : a'.stock.card + 1 = a.stock.card := by
  rw [grants.stock]
  exact Finset.card_erase_add_one grants.member

/-- The stock says how many pages the allocator returns. -/
theorem Stocked.provides_iff (stocked : a.Stocked used) (n : Nat) :
    a.Provides n ↔ n ≤ a.stock.card := by
  induction n generalizing a used with
  | zero => exact ⟨fun _ => Nat.zero_le _, fun _ => trivial⟩
  | succ n ih =>
    constructor
    · rintro ⟨mb, a', returned, rest⟩
      obtain ⟨k, grants, _⟩ := stocked.grants returned
      have fewer := (ih (stocked.grant grants)).mp rest
      have card := grants.card
      omega
    · intro enough
      rcases stocked.alloc_cases with ⟨empty, _⟩ | ⟨k, a', member, took, value⟩
      · rw [empty, Finset.card_empty] at enough
        exact absurd enough (Nat.not_succ_le_zero n)
      · have grants : a.Grants a' k := ⟨member, took⟩
        have card := grants.card
        exact ⟨_, a', value, (ih (stocked.grant grants)).mpr (by omega)⟩

/-! ### One page given back -/

/-- Page `k` was given back. -/
structure Regains (a a' : Allocator) (k : Nat) : Prop where
  reached : k < a.reach
  freeable : a.Freeable 1 k
  taken : BitArray.bit a.bitmap k = true
  gave : a.Gave a' 1 k

/-- The allocator takes back what it lent. -/
theorem Lent.regains (lent : a.Lent f) :
    ∃ k a', f = a.frameOf k ∧ a.Regains a' k ∧
      (a.free ⟨f.toNat, 0x1000⟩).value = (.ok (), a') := by
  obtain ⟨k, reached, freeable, rfl, taken⟩ := lent
  obtain ⟨a', freed, gave⟩ := a.free_granted freeable fun j run => by
    unfold InRun at run
    rwa [show j = k by omega]
  refine ⟨k, a', rfl, ⟨reached, freeable, taken, gave⟩, ?_⟩
  rwa [freeable.toNat_frameOf]

theorem Regains.reach (regains : a.Regains a' k) : a'.reach = a.reach := by
  rw [Allocator.reach, Allocator.reach, regains.gave.bitmapEntries]

theorem Regains.frameOf (regains : a.Regains a' k) (j : Nat) : a'.frameOf j = a.frameOf j := by
  rw [Allocator.frameOf, Allocator.frameOf, regains.gave.addend]

private theorem Regains.freeable_iff (regains : a.Regains a' k) (j : Nat) :
    a'.Freeable 1 j ↔ a.Freeable 1 j := by
  simp only [Freeable, blockAt, regains.gave.addend]

theorem Regains.bit (regains : a.Regains a' k) (j : Nat) :
    BitArray.bit a'.bitmap j = true ↔ BitArray.bit a.bitmap j = true ∧ j ≠ k := by
  rw [regains.gave.clears j]
  unfold InRun
  exact and_congr_right' (not_congr ⟨fun run => by omega, fun same => by omega⟩)

/-- The page given back is in stock, so nobody may use it. -/
theorem Stocked.regain (stocked : a.Stocked used) (regains : a.Regains a' k)
    (fewer : ∀ g, used' g → used g ∧ g ≠ a.frameOf k) : a'.Stocked used' := by
  have older {j : Nat} (clear : BitArray.bit a'.bitmap j = false) :
      j = k ∨ BitArray.bit a.bitmap j = false := by
    by_cases same : j = k
    · exact Or.inl same
    · refine Or.inr (Bool.eq_false_iff.mpr fun set => ?_)
      exact Bool.false_ne_true (clear.symm.trans ((regains.bit j).mpr ⟨set, same⟩))
  refine ⟨?_, fun j reached clear => ?_, fun j reached clear used => ?_⟩
  · rw [regains.gave.currentEntry, regains.gave.bitmapEntries]
    exact stocked.current
  · rw [regains.freeable_iff]
    rcases older clear with rfl | before
    · exact regains.freeable
    · exact stocked.freeable j (regains.reach ▸ reached) before
  · rw [regains.frameOf] at used
    rcases older clear with rfl | before
    · exact (fewer _ used).2 rfl
    · exact stocked.unused j (regains.reach ▸ reached) before (fewer _ used).1

theorem Regains.lent (regains : a.Regains a' k) (lent : a.Lent f) (other : f ≠ a.frameOf k) :
    a'.Lent f := by
  obtain ⟨j, reached, freeable, rfl, taken⟩ := lent
  have apart : j ≠ k := fun same => other (by rw [same])
  exact ⟨j, regains.reach.symm ▸ reached, (regains.freeable_iff j).mpr freeable,
    (regains.frameOf j).symm, (regains.bit j).mpr ⟨taken, apart⟩⟩

theorem Regains.stock (regains : a.Regains a' k) : a'.stock = insert k a.stock := by
  ext j
  rw [Finset.mem_insert, mem_stock, mem_stock, regains.reach]
  constructor
  · rintro ⟨reached, clear⟩
    by_cases same : j = k
    · exact Or.inl same
    · refine Or.inr ⟨reached, Bool.eq_false_iff.mpr fun set => ?_⟩
      exact Bool.false_ne_true (clear.symm.trans ((regains.bit j).mpr ⟨set, same⟩))
  · rintro (rfl | ⟨reached, clear⟩)
    · exact ⟨regains.reached, Bool.eq_false_iff.mpr fun set => ((regains.bit j).mp set).2 rfl⟩
    · refine ⟨reached, Bool.eq_false_iff.mpr fun set => ?_⟩
      exact Bool.false_ne_true (clear.symm.trans ((regains.bit j).mp set).1)

theorem Regains.card (regains : a.Regains a' k) : a'.stock.card = a.stock.card + 1 := by
  rw [regains.stock, Finset.card_insert_of_notMem]
  intro member
  exact Bool.false_ne_true ((mem_stock.mp member).2.symm.trans regains.taken)

/-- Whatever single pages the allocator returns later come out of the stock. -/
theorem Stocked.run (stocked : a.Stocked used)
    (run : Relation.ReflTransGen TakesPage a a') : a'.Stocked used := by
  induction run with
  | refl => exact stocked
  | tail _ step ih =>
    obtain ⟨mb, returned⟩ := step
    obtain ⟨k, grants, _⟩ := ih.grants returned
    exact (ih.grant grants).mono fun f old => Or.inl old

theorem Stocked.supplies (stocked : a.Stocked used) : a.Supplies used := by
  intro a' a'' mb run returned
  have later := stocked.run run
  obtain ⟨_, k, picks, _, rfl, _⟩ := a'.alloc_ok returned
  have reached := picks.reached later.current
  have clear := picks.clear k (by unfold InRun; omega)
  have freeable := later.freeable k reached clear
  have aligned := freeable.1
  have bound := freeable.bound
  exact ⟨show (a'.addend + k * 0x1000) % 0x1000 = 0 by omega,
    show a'.addend + k * 0x1000 < 2 ^ 52 by omega, later.unused k reached clear⟩

end Allocator

end EmkKernel
