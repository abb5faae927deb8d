import EmkKernel.Paging.Stock

/-!
# Runs of small pages

What one call of `page_4_kb` leaves for the next one: the bytes of its page are translated, the
other pages are as they were, and an allocator with enough pages does not refuse the tables.
-/

namespace EmkKernel

open EStateM

/-- The page of an address is translated like its first byte. -/
theorem translation_inPage {read : Path → Entry} {virt u : Nat} {t : Translation}
    (same : Pager.translate u = Pager.translate virt)
    (small : (read (Pager.translate virt).third).pageSize = false) (aligned : virt % 0x1000 = 0)
    (first : translation read virt = some t) :
    translation read u = some ⟨t.physical + u % 0x1000, t.flags⟩ := by
  simp only [translation, same, small, Bool.false_eq_true, if_false] at first ⊢
  split at first
  next present =>
    cases first
    rw [if_pos present]
    simp only [smallPage, aligned, Nat.add_zero]
  next absent => cases first

/-- An entry holds an address of 52 bits. -/
theorem physical_lt_of_translation {read : Path → Entry} {virt : Nat} {t : Translation}
    (found : translation read virt = some t) : t.physical < 2 ^ 52 := by
  simp only [translation] at found
  split at found
  next present =>
    cases found
    split
    next large =>
      simp only [largePage, Entry.toNat_frame, pager2Mib]
      omega
    next small =>
      simp only [smallPage, Entry.toNat_frame]
      omega
  next absent => cases found

namespace Allocator

variable {a a' : Allocator}

theorem Provides.less {n : Nat} (provides : a.Provides (n + 1)) : a.Provides n := by
  induction n generalizing a with
  | zero => trivial
  | succ n ih =>
    obtain ⟨mb, a', returned, rest⟩ := provides
    exact ⟨mb, a', returned, ih rest⟩

end Allocator

namespace Pager

variable {pager : Pager} {kept : BitVec 64 → Prop} {m m' : Machine} {address : Address}
  {flags : Flags}

/-- Opening an entry takes one page at most. -/
theorem Opened.provides {rw : Bool} {q : Path} {n : Nat} (opened : pager.Opened rw flags q m m')
    (provides : m.allocator.Provides (n + 1)) : m'.allocator.Provides n := by
  cases opened with
  | kept _ _ _ _ _ allocator _ =>
    rw [allocator]
    exact provides.less
  | linked mb _ returned _ _ _ => exact provides.after returned

theorem Opens.provides {n : Nat} (opens : pager.Opens kept address flags m m')
    (provides : m.allocator.Provides (n + 2)) : m'.allocator.Provides n := by
  obtain ⟨m₁, _, first, second⟩ := opens.opened
  exact second.provides (first.provides provides)

theorem Begun.provides {n : Nat} (begun : pager.Begun kept address flags m m')
    (provides : m.allocator.Provides (n + 1)) : m'.allocator.Provides n := by
  cases begun with
  | nothing ready missing => exact provides.less
  | first _ ready opened missing => exact opened.provides provides

theorem Small.provides {q : Path} {n : Nat} (small : pager.Small q flags m m')
    (provides : m.allocator.Provides (n + 1)) : m'.allocator.Provides n := by
  cases small with
  | opened e before small opened => exact opened.provides provides
  | unfolded e unfolded =>
    obtain ⟨mb, returned, _⟩ := unfolded.opened
    exact provides.after returned

theorem Reached.provides {n : Nat} (reached : pager.Reached kept address flags m m')
    (provides : m.allocator.Provides (n + 3)) : m'.allocator.Provides n := by
  obtain ⟨m₁, opens, small⟩ := reached.steps
  exact small.provides (opens.provides provides)

/-- The next page can be mapped. -/
structure Ready4Kb (pager : Pager) (m : Machine) : Prop where
  wellFormed : pager.WellFormed m.memory
  supplies : m.allocator.Supplies (pager.IsTable m.memory)

/-- The bytes of a page are translated, and the other pages are as they were. -/
structure Maps4Kb (pager : Pager) (m m' : Machine) (virt physical : Nat) : Prop where
  page : ∀ j < 0x1000, ∃ t, pager.walk m'.memory (virt + j) = some t ∧ t.physical = physical + j
  other : ∀ u, Canonical u → u / 0x1000 ≠ virt / 0x1000 →
    pager.walk m'.memory u = pager.walk m.memory u

theorem translate_inPage {virt j : Nat} (aligned : virt % 0x1000 = 0) (inside : j < 0x1000) :
    translate (virt + j) = translate virt := by
  have page : (virt + j) / 0x1000 = virt / 0x1000 := by omega
  simp only [translate, page]

/-- Behind a page that is present the pager is ready for another one. -/
theorem page4Kb_ready (ready : pager.Ready4Kb m) {virt : Nat} {physical : BitVec 64}
    (present : flags.any pagerPresent = true) {page : Page}
    (returned : pager.page4Kb virt physical flags m = .ok page m') :
    virt % 0x1000 = 0 ∧ pager.Ready4Kb m' := by
  obtain ⟨_, takes, ready', m₁, reached, stored⟩ :=
    (page4Kb_yields (ready.wellFormed.tree.ready ready.supplies) virt physical flags).ok returned
  have after := reached.wellFormed ready.wellFormed (by
    rwa [getLsbD_tableFlags flags (by decide), ← Flags.any_present])
  exact ⟨takes.1, stored.wellFormed ready'.tree rfl after, ready'.supplies.mono fun _ => Or.inr⟩

/-- A page that is present is mapped as a whole. -/
theorem page4Kb_maps (ready : pager.Ready4Kb m) {virt : Nat} (canonical : Canonical virt)
    {physical : BitVec 64} (inMemory : physical.toNat < 2 ^ 52)
    (present : flags.any pagerPresent = true) {page : Page}
    (returned : pager.page4Kb virt physical flags m = .ok page m') :
    pager.Maps4Kb m m' virt physical.toNat := by
  obtain ⟨_, takes, ready', m₁, reached, stored⟩ :=
    (page4Kb_yields (ready.wellFormed.tree.ready ready.supplies) virt physical flags).ok returned
  have first := translation_mapped reached stored takes inMemory ready.wellFormed.toIntact
  rw [if_pos present] at first
  obtain ⟨m₂, _, small⟩ := reached.steps
  have third : (pager.seen m'.memory (translate virt).third).pageSize = false := by
    rw [stored.sets.seen, if_neg (by simp [Address.third, Address.fourth])]
    exact (small.third reached.ready.tree).2
  constructor
  · intro j inside
    have low : (virt + j) % 0x1000 = j := by
      have aligned := takes.1
      omega
    refine ⟨_, (walk_eq ready'.tree _).trans
      (translation_inPage (translate_inPage takes.1 inside) third takes.1 first), ?_⟩
    rw [low]
  · intro u canonicalU other
    exact walk_mapped_other reached stored ready.wellFormed.tree (ready.wellFormed.third _)
      ready'.tree canonical canonicalU other

/-- With three pages to take, a page is mapped that the checks let through. -/
theorem page4Kb_returns (ready : pager.Ready4Kb m) {virt : Nat} {physical : BitVec 64}
    (takes : Takes4Kb virt physical flags) {n : Nat}
    (provides : m.allocator.Provides (n + 3)) :
    ∃ page m', pager.page4Kb virt physical flags m = .ok page m' ∧ m'.allocator.Provides n := by
  have outcome := page4Kb_yields (ready.wellFormed.tree.ready ready.supplies) virt physical flags
  cases returned : pager.page4Kb virt physical flags m with
  | ok page m' =>
    obtain ⟨_, _, _, m₁, reached, stored⟩ := outcome.ok returned
    exact ⟨page, m', rfl, stored.allocator ▸ reached.provides provides⟩
  | error s m' =>
    rcases outcome.error returned with ⟨refused, _⟩ | fails
    · exact absurd takes refused
    · cases fails with
      | refused m₁ s a before refused =>
        -- whichever entries were opened, there is still a page
        cases before with
        | begun begun => exact ((begun.provides provides).refused refused).elim
        | both opens => exact ((opens.provides provides).refused refused).elim
      | overflow overflows m =>
        -- a large page is aligned, so its small ones have addresses
        obtain ⟨e, found, large, overflow⟩ := overflows
        have aligned : e.address.toNat % pager2Mib = 0 :=
          ready.wellFormed.aligned _ _ e (by simp) found large
        have inU64 := e.address.isLt
        unfold PointerTable.unfoldOverflows at overflow
        have last := of_decide_eq_true overflow
        unfold pager2Mib at aligned
        omega

/-- Nothing is mapped on a pager without mappings. -/
theorem Fresh.walk {m : Memory} (fresh : pager.Fresh m) (virt : Nat) :
    pager.walk m virt = none := by
  have zero : pager.seen m (translate virt).first = 0 := by
    cases found : pager.view m (translate virt).first with
    | none => rw [seen, found, Option.getD_none]
    | some e => rw [seen_of_view found, fresh.view found]
  rw [walk_eq fresh.tree]
  apply translation_none
  left
  rw [zero]
  rfl

end Pager

/-! ### A pager with many pages -/

/-- 2^22 pages from 1 MiB on. -/
def wideAllocator : Allocator where
  bitmap := fun w => if w < 2 ^ 17 then 0 else 0xFFFFFFFF
  bitmapEntries := 2 ^ 17
  currentEntry := 0
  addend := 0x100000
  fakedPages := 0

def wideMachine : Machine := ⟨fun _ _ => 0, wideAllocator⟩

private theorem wideAllocator_clear_iff (k : Nat) :
    BitArray.bit wideAllocator.bitmap k = false ↔ k < 2 ^ 22 := by
  have ones : ∀ b < 32, (0xFFFFFFFF#32).getLsbD b = true := by decide
  simp only [BitArray.bit, wideAllocator]
  by_cases inside : k / 32 < 2 ^ 17
  · rw [if_pos inside]
    refine iff_of_true BitVec.getLsbD_zero (by omega)
  · rw [if_neg inside]
    have set := ones (k % 32) (Nat.mod_lt _ (by decide))
    exact ⟨fun clear => absurd (clear.symm.trans set) Bool.false_ne_true, fun small => by omega⟩

private theorem wideAllocator_stocked : wideAllocator.Stocked (· = Pager.plainPager.cr3) := by
  refine ⟨Nat.zero_le _, fun k _ clear => ⟨by decide, ?_⟩, fun k _ clear root => ?_⟩
  · have inside := (wideAllocator_clear_iff k).mp clear
    simp only [Allocator.blockAt, MemoryBlock.endAddress, wideAllocator,
      kernelMaximumAllocatableAddress]
    omega
  · have inside := (wideAllocator_clear_iff k).mp clear
    have value : (0x100000 + k * 0x1000) % 2 ^ 64 = 0x1000 := congrArg BitVec.toNat root
    omega

theorem wideAllocator_provides {n : Nat} (small : n ≤ 2 ^ 22) : wideAllocator.Provides n := by
  rw [wideAllocator_stocked.provides_iff]
  refine Nat.le_trans small ?_
  have some_pages : Finset.range (2 ^ 22) ⊆ wideAllocator.stock := by
    intro k member
    have inside := Finset.mem_range.mp member
    refine Allocator.mem_stock.mpr ⟨?_, (wideAllocator_clear_iff k).mpr inside⟩
    simp only [Allocator.reach, wideAllocator]
    omega
  have card := Finset.card_le_card some_pages
  rwa [Finset.card_range] at card

theorem wideMachine_ready : Pager.plainPager.Ready4Kb wideMachine := by
  refine ⟨Pager.plainFresh.wellFormed, wideAllocator_stocked.supplies.mono fun f used => ?_⟩
  exact Pager.plainFresh.isTable_iff.mp used

end EmkKernel
