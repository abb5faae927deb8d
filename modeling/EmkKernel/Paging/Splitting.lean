import EmkKernel.Paging.AddressSpaces

/-!
# `page_4_kb` as a refinement

The call changes the translation of its own page only, also where it splits a page of 2 MiB.
The small pages that take the place of one that starts at no multiple of its size lie elsewhere
than the processor looks.
-/

namespace EmkKernel

open EStateM

namespace Pager

variable {pager : Pager} {kept : BitVec 64 → Prop} {flags : Flags}

/-- `page_4_kb` maps the page it is given and changes no other translation; an error changes
none. A page without `PRESENT` is not mapped. -/
structure Refines4Kb (pager : Pager) (m : Machine) (virt : Nat) (physical : BitVec 64)
    (flags : Flags) : Prop where
  mapped : ∀ page m', pager.page4Kb virt physical flags m = .ok page m' →
    pager.walk m'.memory virt =
      if flags.any pagerPresent then some ⟨physical.toNat, leafFlags flags⟩ else none
  others : ∀ page m', pager.page4Kb virt physical flags m = .ok page m' →
    ∀ u, Canonical u → u / 0x1000 ≠ virt / 0x1000 → pager.walk m'.memory u = pager.walk m.memory u
  unchanged : ∀ e m', pager.page4Kb virt physical flags m = .error (.err e) m' →
    ∀ u, pager.walk m'.memory u = pager.walk m.memory u

/-- The page is accepted and lies in one of 2 MiB that does not start at a multiple of its size,
whose small pages have addresses in `u64` and for whose table there is a frame. -/
structure SplitsMisaligned (pager : Pager) (m : Machine) (virt : Nat) (physical : BitVec 64)
    (flags : Flags) : Prop where
  takes : Takes4Kb virt physical flags
  page : ∃ e, pager.view m.memory (translate virt).third = some e ∧ e.pageSize = true ∧
    ¬LargeAligned e ∧ PointerTable.unfoldOverflows e.address = false
  frame : ∃ a, m.allocator.TakesPage a

section Refines

variable {m : Machine} {virt : Nat} {physical : BitVec 64}

/-- A page of 2 MiB that is split is aligned, or the call splits one that is not. -/
theorem Reached.aligned {m₁ : Machine}
    (reached : pager.Reached kept (translate virt) (tableFlags flags) m m₁)
    (takes : Takes4Kb virt physical flags)
    (spared : ¬pager.SplitsMisaligned m virt physical flags) {e : Entry}
    (here : pager.view m.memory (translate virt).third = some e) (large : e.pageSize = true) :
    LargeAligned e := by
  obtain ⟨m₂, opens, small⟩ := reached.steps
  obtain ⟨after, allocator⟩ := opens.third_some here
  by_contra misaligned
  cases small with
  | opened e' before small _ =>
    obtain rfl := Option.some.inj (after.symm.trans before)
    exact absurd (small.symm.trans large) nofun
  | unfolded e' unfolded =>
    obtain rfl := Option.some.inj (after.symm.trans unfolded.before)
    obtain ⟨mb, returned, _⟩ := unfolded.opened
    exact spared ⟨takes, ⟨e, here, large, misaligned, unfolded.inU64⟩, m₁.allocator, mb,
      allocator ▸ returned⟩

/-- With nothing misaligned on the way, the call does what it should. -/
theorem refines4Kb_of_spared (intact : pager.Intact m.memory)
    (supplies : m.allocator.Supplies (pager.IsTable m.memory)) (canonical : Canonical virt)
    (inMemory : physical.toNat < 2 ^ 52)
    (spared : ¬pager.SplitsMisaligned m virt physical flags) :
    pager.Refines4Kb m virt physical flags := by
  have outcome := page4Kb_yields (intact.tree.ready supplies) virt physical flags
  refine ⟨fun page m' returned => ?_, fun page m' returned u canonicalU other => ?_,
    fun e m' failed u => ?_⟩
  · obtain ⟨_, takes, ready', m₁, reached, stored⟩ := outcome.ok returned
    exact (walk_eq ready'.tree virt).trans
      (translation_mapped reached stored takes inMemory intact)
  · obtain ⟨_, takes, ready', m₁, reached, stored⟩ := outcome.ok returned
    exact walk_mapped_other reached stored intact.tree
      (fun e => reached.aligned takes spared) ready'.tree canonical canonicalU other
  · rcases outcome.error failed with ⟨_, rfl⟩ | fails
    · rfl
    · obtain ⟨prepared, _⟩ := fails.err
      rw [walk_eq prepared.ready.tree, walk_eq intact.tree, prepared.translation]

theorem translation_large {m : Memory} (intact : pager.Intact m) {e : Entry}
    (here : pager.view m (translate virt).third = some e) (large : e.pageSize = true) :
    translation (pager.seen m) virt = some (largePage e virt) := by
  obtain ⟨e₂, here₂, nonzero₂⟩ := view_above here
  obtain ⟨e₁, here₁, nonzero₁⟩ := view_above here₂
  have first := intact.present _ _ e₁ (by simp) here₁ nonzero₁
  have second := intact.present _ _ e₂ (by simp) here₂ nonzero₂
  have third := intact.present _ _ e (by simp) here (Entry.ne_zero_of_bit large)
  rw [← seen_of_view here₁] at first
  rw [← seen_of_view here₂] at second
  simp only [translation, everyLevel, Address.first, Address.second, first, second,
    seen_of_view here, third, large, Bool.and_self, Bool.true_or, if_true]

theorem smallPage_misaligned {e : Entry} (misaligned : ¬LargeAligned e) (virt : Nat) :
    smallPage (PointerTable.unfolded e.address e.smallFlags (translate virt).page) virt ≠
      largePage e virt := by
  intro same
  have physical := congrArg Translation.physical same
  simp only [smallPage, largePage, PointerTable.unfolded,
    Entry.frame_pack e.smallFlags_plain.high, Entry.toNat_frame, BitVec.toNat_add,
    BitVec.toNat_ofNat, translate, Fin.ofNat] at physical
  have address := e.toNat_address
  have inU64 := e.isLt
  unfold LargeAligned pager2Mib at misaligned
  unfold pager2Mib at physical
  omega

theorem exists_beside (canonical : Canonical virt) : ∃ u, Canonical u ∧
    u / 0x1000 ≠ virt / 0x1000 ∧ (translate u).third = (translate virt).third := by
  have start : virt / pager2Mib * pager2Mib % pager2Mib = 0 := Nat.mul_mod_left _ _
  have here := third_add start (Nat.mod_lt virt (show 0 < pager2Mib by decide))
  rw [Nat.div_add_mod' virt pager2Mib] at here
  unfold Canonical at canonical ⊢
  unfold pager2Mib at start here
  by_cases first : virt % 0x200000 < 0x1000
  · refine ⟨virt / 0x200000 * 0x200000 + 0x1000, by omega, by omega, ?_⟩
    rw [here]
    exact third_add start (by decide)
  · exact ⟨virt / 0x200000 * 0x200000, by omega, by omega, here.symm⟩

/-- `page_4_kb` does what it should on a tree of tables exactly if it splits no page of 2 MiB
that is misaligned. -/
theorem page4Kb_refines_iff (intact : pager.Intact m.memory)
    (supplies : m.allocator.Supplies (pager.IsTable m.memory)) (canonical : Canonical virt)
    (inMemory : physical.toNat < 2 ^ 52) :
    pager.Refines4Kb m virt physical flags ↔ ¬pager.SplitsMisaligned m virt physical flags := by
  refine ⟨?_, refines4Kb_of_spared intact supplies canonical inMemory⟩
  rintro refines ⟨takes, ⟨e, here, large, misaligned, inU64⟩, a, mb, frame⟩
  have outcome := page4Kb_yields (intact.tree.ready supplies) virt physical flags
  cases ran : pager.page4Kb virt physical flags m with
  | error s m' =>
    -- the tables are in place and a frame is there, so the call returns
    rcases outcome.error ran with ⟨refused, _⟩ | fails
    · exact refused takes
    cases fails with
    | refused m₁ s a' prepared failed =>
      rw [prepared.allocator_of_third here] at failed
      cases frame.symm.trans failed
    | overflow overflows =>
      obtain ⟨e', here', _, overflows⟩ := overflows
      obtain rfl := Option.some.inj (here.symm.trans here')
      cases inU64.symm.trans overflows
  | ok page m' =>
    obtain ⟨_, _, ready', m₁, reached, stored⟩ := outcome.ok ran
    obtain ⟨u, canonicalU, other, same⟩ := exists_beside canonical
    have kept := refines.others page m' ran u canonicalU other
    rw [walk_eq ready'.tree, walk_eq intact.tree, stored.translation_other fun same =>
      other (page_eq_of_fourth canonicalU canonical same)] at kept
    obtain ⟨m₂, opens, small⟩ := reached.steps
    have after := (opens.third_some here).1
    cases small with
    | opened e' before small _ =>
      obtain rfl := Option.some.inj (after.symm.trans before)
      exact absurd (small.symm.trans large) nofun
    | unfolded e' unfolded =>
      obtain rfl := Option.some.inj (after.symm.trans unfolded.before)
      rw [← same] at unfolded here
      rw [unfolded.translation_here reached.ready.tree, opens.translation,
        translation_large intact here large, Option.map_some] at kept
      exact smallPage_misaligned misaligned u (Option.some.inj kept)

end Refines

/-! ### A page inside one of 2 MiB -/

theorem largePage_intact {physical : BitVec 64} {page : Page} {m : Machine}
    (aligned : physical.toNat % 0x1000 = 0)
    (returned : lentPager.page2Mb 0x400000 physical 3 lentMachine = .ok page m) :
    lentPager.Intact m.memory ∧ m.allocator.Supplies (lentPager.IsTable m.memory) := by
  have presents := lentFresh.presents lentAllocator_stocked
  have overwritten := ((page2Mb_yields presents.keeps.ready 0x400000 physical 3).ok returned).2.2
  have small : (lentPager.seen lentMachine.memory (translate 0x400000).third).pageSize = false := by
    decide
  exact ⟨overwritten.intact presents.wellFormed.toIntact (by decide) aligned small,
    (overwritten.keeps presents.keeps small).ready.supplies.mono fun _ => Or.inr⟩

/-- A page inside one of 2 MiB that is aligned is mapped alone. -/
theorem page4Kb_refines_iff_split : ∃ page m page' m',
    lentPager.page2Mb 0x400000 0x600000 3 lentMachine = .ok page m ∧
      lentPager.page4Kb 0x401000 0x7000 3 m = .ok page' m' ∧
      lentPager.walk m'.memory 0x401000 = some ⟨0x7000, 3⟩ ∧
      lentPager.walk m'.memory 0x402345 = lentPager.walk m.memory 0x402345 := by
  have ran : ((lentPager.page2Mb 0x400000 0x600000 3).state? lentMachine).any (fun m =>
      ((lentPager.page4Kb 0x401000 0x7000 3).state? m).isSome &&
        (lentPager.view m.memory (translate 0x401000).third).any fun e =>
          decide (LargeAligned e)) = true := by decide +kernel
  obtain ⟨m, ended, checked⟩ := (Option.any_eq_true _ _).1 ran
  obtain ⟨again, aligned⟩ := Bool.and_eq_true_iff.mp checked
  obtain ⟨e, here, aligned⟩ := (Option.any_eq_true _ _).1 aligned
  obtain ⟨m', ended'⟩ := Option.isSome_iff_exists.mp again
  obtain ⟨page, returned⟩ := ok_of_state? ended
  obtain ⟨page', returned'⟩ := ok_of_state? ended'
  obtain ⟨intact, supplies⟩ := largePage_intact (by decide) returned
  have refines := (@page4Kb_refines_iff lentPager 3 m 0x401000 0x7000 intact supplies (by decide)
    (by decide)).mpr fun splits => by
      obtain ⟨e', here', _, misaligned, _⟩ := splits.page
      obtain rfl := Option.some.inj (here.symm.trans here')
      exact misaligned (of_decide_eq_true aligned)
  exact ⟨page, m, page', m', returned, returned', refines.mapped page' m' returned',
    refines.others page' m' returned' 0x402345 (by decide) (by decide)⟩

/-- A page of 2 MiB at a multiple of 1 MiB only is accepted, and splitting it moves its pages. -/
theorem not_refines4Kb_split : ∃ page m,
    lentPager.page2Mb 0x400000 0x100000 3 lentMachine = .ok page m ∧
      lentPager.Intact m.memory ∧ m.allocator.Supplies (lentPager.IsTable m.memory) ∧
      ¬lentPager.Refines4Kb m 0x401000 0x7000 3 := by
  have ran : ((lentPager.page2Mb 0x400000 0x100000 3).state? lentMachine).any (fun m =>
      ((lentPager.page4Kb 0x401000 0x7000 3).state? m).any fun m' =>
        decide (lentPager.walk m'.memory 0x500000 ≠ lentPager.walk m.memory 0x500000)) =
      true := by decide +kernel
  obtain ⟨m, ended, checked⟩ := (Option.any_eq_true _ _).1 ran
  obtain ⟨m', ended', moved⟩ := (Option.any_eq_true _ _).1 checked
  obtain ⟨page, returned⟩ := ok_of_state? ended
  obtain ⟨page', returned'⟩ := ok_of_state? ended'
  obtain ⟨intact, supplies⟩ := largePage_intact (by decide) returned
  refine ⟨page, m, returned, intact, supplies, fun refines => ?_⟩
  exact of_decide_eq_true moved (refines.others page' m' returned' 0x500000 (by decide) (by decide))

end Pager

end EmkKernel
