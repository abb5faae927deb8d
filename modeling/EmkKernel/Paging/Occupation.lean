import EmkKernel.Paging.Queries

/-!
# Overlap of two address spaces

`occupation_check` descends in two trees at once as far as the second entries. Behind them
it takes both tables from the tree of `self`, so the pages of the other one do not matter.
-/

namespace EmkKernel

open EStateM

namespace Pager

/-- The test of `occupation_check` for a pair of third entries. -/
def bothOccupied (selfPt otherPt : PointerTable) : PagerM Bool := do
  let otherFlags ← otherPt.readFlags
  let selfFlags ← selfPt.readFlags
  if otherFlags.any pagerPresent = false ∨ selfFlags.any pagerPresent = false then
    pure false
  else if (otherFlags.any pagerPageSize ∨ selfFlags.any pagerPageSize) ∧
      (otherFlags.any pagerPresent ∨ selfFlags.any pagerPresent) then
    pure true
  else
    (List.finRange 512).anyM fun pi => do
      let selfPage ← load ⟨selfPt.address, pi⟩
      let otherPage ← load ⟨otherPt.address, pi⟩
      pure (selfPage.any pagerPresent && otherPage.any pagerPresent)

/-- The test for a pair of second entries. -/
def regionOccupied (selfPdt otherPdt : PointerTable) : PagerM Bool := do
  let otherFlags ← otherPdt.readFlags
  let selfFlags ← selfPdt.readFlags
  if otherFlags.any pagerPresent = false ∨ selfFlags.any pagerPresent = false then
    pure false
  else
    (List.finRange 512).anyM fun pti => do
      let selfPt ← unwrap (← selfPdt.instantiate pti)
      -- taken from `self` as well
      let otherPt ← unwrap (← selfPdt.instantiate pti)
      bothOccupied selfPt otherPt

-- irreducible, so that no proof runs the loops by accident
@[irreducible] def occupationCheck (self other : Pager) : PagerM Bool :=
  (List.finRange 512).anyM fun pdpi => do
    let selfTop ← load ⟨self.cr3, pdpi⟩
    let selfPdpt ← PointerTable.new .pdpt self.cr3 pdpi selfTop.flags
    let otherTop ← load ⟨other.cr3, pdpi⟩
    let otherPdpt ← PointerTable.new .pdpt other.cr3 pdpi otherTop.flags
    if otherPdpt.flags.any pagerPresent = false ∨ selfPdpt.flags.any pagerPresent = false then
      pure false
    else
      (List.finRange 512).anyM fun pdi => do
        let selfPdt ← unwrap (← selfPdpt.instantiate pdi)
        let otherPdt ← unwrap (← otherPdpt.instantiate pdi)
        regionOccupied selfPdt otherPdt

variable {a b : Pager} {m : Machine}

@[simp] theorem flags_any_present (e : Entry) : e.flags.any pagerPresent = e.present := by
  rw [Flags.any_present, Entry.getLsbD_flags]
  rfl

@[simp] theorem flags_any_pageSize (e : Entry) : e.flags.any pagerPageSize = e.pageSize := by
  rw [Flags.any_pageSize, Entry.getLsbD_flags]
  rfl

/-- The pager maps a page in a region for which the other one has the first two entries. -/
def MapsBeside (a b : Pager) (m : Memory) (virt : Nat) : Prop :=
  a.walk m virt ≠ none ∧ (b.seen m (translate virt).first).present = true ∧
    (b.seen m (translate virt).second).present = true

theorem translate_intoAddress (pdp pd pt page : Index) :
    translate (intoAddress pdp pd pt page) = ⟨pdp, pd, pt, page⟩ := by
  have value : translate (intoAddress pdp pd pt page) =
      ⟨Fin.ofNat 512 pdp, Fin.ofNat 512 pd, Fin.ofNat 512 pt, Fin.ofNat 512 page⟩ := by
    simp only [translate, intoAddress, pager2Mib, pager1Gib, pager512Gib,
      Address.mk.injEq, Fin.ofNat,
      Fin.mk.injEq]
    refine ⟨?_, ?_, ?_, ?_⟩ <;> omega
  simpa using value

private theorem walk_ne_none_iff (tree : a.Tree m.memory) (virt : Nat) :
    a.walk m.memory virt ≠ none ↔
    everyLevel (a.seen m.memory) (translate virt) Entry.present = true := by
  rw [walk_eq tree, translation]
  split
  next present => exact iff_of_true (Option.some_ne_none _) present
  next absent => exact iff_of_false (not_not_intro rfl) absent

/-! ### What the search finds -/

/-- Something is mapped below an entry of the third level. -/
def MapsBelow (a : Pager) (m : Memory) (q : Path) : Prop :=
  (a.seen m q).present = true ∧
    ((a.seen m q).pageSize = true ∨ ∃ pi, (a.seen m (pi :: q)).present = true)

private theorem bothOccupied_yields {pt pt' : PointerTable} {i : Index} {p : Path}
    {R : Stop → Machine → Prop} (handle : a.Handle m.memory pt i p)
    (handle' : a.Handle m.memory pt' i p) (third : p.length = 2) :
    Yields (bothOccupied pt pt') m
      (fun found m' => m' = m ∧ (found = true ↔ a.MapsBelow m.memory (i :: p))) R := by
  have entry := seen_of_view handle.view
  have entry' := seen_of_view handle'.view
  unfold bothOccupied
  generalize all : List.finRange 512 = indices
  simp only [PointerTable.readFlags, yields_bind, yields_load, yields_pure, yields_ite,
    handle.index,
    handle'.index, ← entry, ← entry', flags_any_present, flags_any_pageSize, or_self]
  unfold MapsBelow
  split
  next absent => exact ⟨trivial, by simp [absent]⟩
  next present =>
  have present := (Bool.not_eq_false _).mp present
  split
  next large => exact ⟨trivial, iff_of_true trivial ⟨present, Or.inl large.1⟩⟩
  next both =>
    have small : ¬(a.seen m.memory (i :: p)).pageSize = true := fun large => both ⟨large, present⟩
    rw [or_iff_right small, and_iff_right present]
    have table := tableAt_of_view handle.view (by omega) (entry ▸ Entry.ne_zero_of_bit present)
      (entry ▸ Bool.eq_false_iff.mpr small)
    have page (pi : Index) : a.seen m.memory (pi :: i :: p) = m.memory pt.address pi := by
      rw [handle.address]
      exact seen_of_view (view_cons table pi)
    have same : pt'.address = pt.address := by
      rw [handle.address, handle'.address, ← entry, ← entry']
    refine (yields_anyM (R := R) _ (Q := fun pi => (a.seen m.memory (pi :: i :: p)).present = true)
      ?_).mono ?_ fun _ _ failed => failed
    · intro pi _
      simp only [same, yields_bind, yields_load, yields_pure, Bool.and_self,
        Entry.any_present, page,
        and_self]
    · rintro found m' ⟨rfl, some⟩
      refine ⟨rfl, some.trans ?_⟩
      simp [← all]

private theorem not_absent_iff {e e' : Entry} : ¬(e.present = false ∨ e'.present = false) ↔
    e.present = true ∧ e'.present = true := by
  rw [not_or, Bool.not_eq_false, Bool.not_eq_false]

variable (a b) in
/-- Something is mapped below a pair of second entries that are both present. -/
def MapsInRegion (m : Memory) (q : Path) : Prop :=
  ((b.seen m q).present = true ∧ (a.seen m q).present = true) ∧ ∃ pti, a.MapsBelow m (pti :: q)

private theorem regionOccupied_yields {ptA ptB : PointerTable} {i : Index} {p : Path}
    {R : Stop → Machine → Prop} (tree : a.Tree m.memory) (handleA : a.Handle m.memory ptA i p)
    (handleB : b.Handle m.memory ptB i p) (second : p.length = 1) :
    Yields (regionOccupied ptA ptB) m
      (fun found m' => m' = m ∧ (found = true ↔ MapsInRegion a b m.memory (i :: p))) R := by
  have entryA := seen_of_view handleA.view
  have entryB := seen_of_view handleB.view
  unfold regionOccupied
  generalize all : List.finRange 512 = indices
  simp only [PointerTable.readFlags, yields_bind, yields_load, yields_pure, yields_ite,
    handleA.index, handleB.index, ← entryA, ← entryB, flags_any_present]
  unfold MapsInRegion
  split
  next absent =>
    refine ⟨trivial, iff_of_false Bool.false_ne_true fun both => ?_⟩
    exact not_absent_iff.mpr both.1 absent
  next both =>
  have both := not_absent_iff.mp both
  have small : (a.seen m.memory (i :: p)).pageSize = false := tree.small (by omega)
  have next (pti : Index) := instantiate_yields (R := R) handleA (by omega) handleA.view
    (entryA ▸ Entry.ne_zero_of_bit both.2) (entryA ▸ small) pti
  refine (yields_anyM _ (Q := fun pti => a.MapsBelow m.memory (pti :: i :: p)) ?_).mono ?_
    fun _ _ failed => failed
  · intro pti _
    rw [yields_bind]
    refine (next pti).mono ?_ fun _ _ failed => failed
    rintro _ m ⟨rfl, ptA, rfl, handle, _⟩
    simp only [unwrap, yields_bind, yields_pure]
    refine (next pti).mono ?_ fun _ _ failed => failed
    rintro _ m ⟨rfl, ptA', rfl, handle', _⟩
    exact bothOccupied_yields handle handle' (by simp [second])
  · rintro found m' ⟨rfl, some⟩
    refine ⟨rfl, some.trans ?_⟩
    rw [and_iff_right both, ← all]
    simp

variable (a b) in
/-- Something is mapped below a pair of first entries that are both present. -/
def MapsInside (m : Memory) (pdpi : Index) : Prop :=
  ((b.seen m [pdpi]).present = true ∧ (a.seen m [pdpi]).present = true) ∧
    ∃ pdi, MapsInRegion a b m [pdi, pdpi]

private theorem occupationCheck_yields (treeA : a.Tree m.memory) (treeB : b.Tree m.memory) :
    Yields (a.occupationCheck b) m
      (fun found m' => m' = m ∧ (found = true ↔ ∃ pdpi, MapsInside a b m.memory pdpi))
      (fun _ _ => False) := by
  unfold occupationCheck
  generalize all : List.finRange 512 = indices
  have member (i : Index) : i ∈ indices := all ▸ List.mem_finRange i
  refine (yields_anyM _ (Q := MapsInside a b m.memory) ?_).mono ?_ fun _ _ failed => failed
  · intro pdpi _
    rw [yields_bind, yields_load, yields_bind]
    refine (new_yields _ _).mono ?_ fun _ _ failed => failed
    rintro pdptA m ⟨rfl, handleA, flagsA⟩
    rw [yields_bind, yields_load, yields_bind]
    refine (new_yields _ _).mono ?_ fun _ _ failed => failed
    rintro pdptB m ⟨rfl, handleB, flagsB⟩
    have entryA : a.seen m.memory [pdpi] = m.memory a.cr3 pdpi := seen_of_view (view_cons rfl pdpi)
    have entryB : b.seen m.memory [pdpi] = m.memory b.cr3 pdpi := seen_of_view (view_cons rfl pdpi)
    rw [yields_ite, flagsA, flagsB, flags_any_present, flags_any_present, ← entryA, ← entryB]
    split
    next absent =>
      refine ⟨rfl, iff_of_false Bool.false_ne_true fun both => ?_⟩
      exact not_absent_iff.mpr both.1 absent
    next both =>
    have both := not_absent_iff.mp both
    refine (yields_anyM _ (Q := fun pdi => MapsInRegion a b m.memory [pdi, pdpi]) ?_).mono ?_
      fun _ _ failed => failed
    · intro pdi _
      rw [yields_bind]
      refine (instantiate_yields handleA (by simp) (view_cons rfl pdpi)
        (entryA ▸ Entry.ne_zero_of_bit both.2) (entryA ▸ treeA.small (by simp)) pdi).mono ?_
        fun _ _ failed => failed
      rintro _ m ⟨rfl, ptA, rfl, handle, _⟩
      simp only [unwrap, yields_bind, yields_pure]
      refine (instantiate_yields handleB (by simp) (view_cons rfl pdpi)
        (entryB ▸ Entry.ne_zero_of_bit both.1) (entryB ▸ treeB.small (by simp)) pdi).mono ?_
        fun _ _ failed => failed
      rintro _ m ⟨rfl, ptB, rfl, handle', _⟩
      exact regionOccupied_yields treeA handle handle' (by simp)
    · rintro found m' ⟨rfl, some⟩
      refine ⟨rfl, some.trans ?_⟩
      simp only [MapsInside, both, member, true_and, and_self]
  · rintro found m' ⟨rfl, some⟩
    refine ⟨rfl, some.trans ?_⟩
    simp only [member, true_and]

private theorem mapsInside_iff (tree : a.Tree m.memory) :
    (∃ pdpi, MapsInside a b m.memory pdpi) ↔ ∃ virt, MapsBeside a b m.memory virt := by
  constructor
  · rintro ⟨pdpi, ⟨firstB, firstA⟩, pdi, ⟨secondB, secondA⟩, pti, third, below⟩
    -- an address with the indices that the search went through
    have mapped (pi : Index) (fourth : (a.seen m.memory [pti, pdi, pdpi]).pageSize = true ∨
        (a.seen m.memory [pi, pti, pdi, pdpi]).present = true) :
        MapsBeside a b m.memory (intoAddress pdpi pdi pti pi) := by
      rw [MapsBeside, walk_ne_none_iff tree, translate_intoAddress]
      refine ⟨?_, firstB, secondB⟩
      simp only [everyLevel, Address.first, Address.second, Address.third, Address.fourth, firstA,
        secondA, third, Bool.true_and, Bool.or_eq_true]
      exact fourth
    rcases below with large | ⟨pi, present⟩
    · exact ⟨_, mapped 0 (Or.inl large)⟩
    · exact ⟨_, mapped pi (Or.inr present)⟩
  · rintro ⟨virt, mapped, firstB, secondB⟩
    rw [walk_ne_none_iff tree] at mapped
    obtain ⟨firstA, secondA, third⟩ := everyLevel_present mapped
    refine ⟨(translate virt).pdp, ⟨firstB, firstA⟩, (translate virt).pd, ⟨secondB, secondA⟩,
      (translate virt).pt, third, ?_⟩
    simp only [everyLevel, Bool.and_eq_true, Bool.or_eq_true] at mapped
    exact mapped.2.imp_right fun present => ⟨(translate virt).page, present⟩

private theorem occupationCheck_value (treeA : a.Tree m.memory) (treeB : b.Tree m.memory) :
    ∃ found, (a.occupationCheck b).value? m = some found ∧
      (found = true ↔ ∃ virt, MapsBeside a b m.memory virt) := by
  obtain ⟨found, _, ran, rfl, answer⟩ :=
    (occupationCheck_yields treeA treeB).returns fun _ _ failed => failed
  exact ⟨found, value?_of_ok ran, answer.trans (mapsInside_iff treeA)⟩

/-! ### What the test should answer -/

/-- The test tells whether a page is mapped in both trees, and reads nothing but tables. -/
structure ChecksOccupation (a b : Pager) (m : Machine) : Prop where
  overlap : (a.occupationCheck b).value? m = some true ↔
    ∃ virt, a.walk m.memory virt ≠ none ∧ b.walk m.memory virt ≠ none
  returns : (a.occupationCheck b).value? m ≠ none
  symmetric : (a.occupationCheck b).value? m = (b.occupationCheck a).value? m
  tables : ∀ m' : Machine, (∀ f, a.IsTable m.memory f ∨ b.IsTable m.memory f →
    m'.memory f = m.memory f) → (a.occupationCheck b).value? m' = (a.occupationCheck b).value? m

/-- Pages beside tables of the other pager come with a page in both. -/
def SharesPage (a b : Pager) (m : Memory) : Prop :=
  (∃ virt, MapsBeside a b m virt ∨ MapsBeside b a m virt) →
    ∃ virt, a.walk m virt ≠ none ∧ b.walk m virt ≠ none

private theorem MapsBeside.of_both (treeB : b.Tree m.memory) {virt : Nat}
    (both : a.walk m.memory virt ≠ none ∧ b.walk m.memory virt ≠ none) :
    MapsBeside a b m.memory virt := by
  obtain ⟨first, second, _⟩ := everyLevel_present ((walk_ne_none_iff treeB virt).mp both.2)
  exact ⟨both.1, first, second⟩

private theorem walk_congr {m' : Memory} (tree : a.Tree m.memory)
    (same : ∀ f, a.IsTable m.memory f → m' f = m.memory f) : a.walk m' = a.walk m.memory := by
  funext virt
  rw [walk_eq tree, walk_eq (tree.congr same)]
  apply Agree.translation
  apply agree_of_eq <;> rw [seen, seen, view_congr same]

/-- The test answers what it should exactly if no page lies beside tables of the other pager,
or some page is mapped in both trees anyway. -/
theorem checksOccupation_iff (treeA : a.Tree m.memory) (treeB : b.Tree m.memory) :
    ChecksOccupation a b m ↔ SharesPage a b m.memory := by
  obtain ⟨found, value, answer⟩ := occupationCheck_value treeA treeB
  obtain ⟨found', value', answer'⟩ := occupationCheck_value treeB treeA
  constructor
  · rintro ⟨overlap, _, symmetric, _⟩ ⟨virt, beside⟩
    rw [← overlap, value]
    rw [value, value', Option.some.injEq] at symmetric
    rcases beside with beside | beside
    · rw [answer.mpr ⟨virt, beside⟩]
    · rw [symmetric, answer'.mpr ⟨virt, beside⟩]
  · intro shares
    have all : found = true ↔ ∃ virt, a.walk m.memory virt ≠ none ∧
        b.walk m.memory virt ≠ none := by
      rw [answer]
      constructor
      · rintro ⟨virt, beside⟩
        exact shares ⟨virt, Or.inl beside⟩
      · rintro ⟨virt, both⟩
        exact ⟨virt, .of_both treeB both⟩
    have all' : found' = true ↔ ∃ virt, a.walk m.memory virt ≠ none ∧
        b.walk m.memory virt ≠ none := by
      rw [answer']
      constructor
      · rintro ⟨virt, beside⟩
        exact shares ⟨virt, Or.inr beside⟩
      · rintro ⟨virt, both⟩
        exact ⟨virt, .of_both treeA both.symm⟩
    refine ⟨?_, ?_, ?_, fun m' same => ?_⟩
    · rw [value, Option.some.injEq, all]
    · rw [value]
      exact Option.some_ne_none _
    · rw [value, value', Option.some.injEq, Bool.eq_iff_iff, all, all']
    · have sameA (f : BitVec 64) (isTable : a.IsTable m.memory f) := same f (Or.inl isTable)
      have sameB (f : BitVec 64) (isTable : b.IsTable m.memory f) := same f (Or.inr isTable)
      obtain ⟨found₁, value₁, answer₁⟩ :=
        occupationCheck_value (treeA.congr sameA) (treeB.congr sameB)
      rw [value, value₁, Option.some.injEq, Bool.eq_iff_iff, answer, answer₁]
      simp only [MapsBeside, walk_congr treeA sameA, seen, view_congr sameB]

/-! ### Two pagers with tables for one region -/

/-- Below the root there is a table in the first slot, and one in the first slot of that. -/
structure Chain (a : Pager) (m : Memory) (f g : BitVec 64) : Prop where
  frames : IsFrame a.cr3 ∧ IsFrame f ∧ IsFrame g
  apart : a.cr3 ≠ f ∧ a.cr3 ≠ g ∧ f ≠ g
  first : ∀ i, m a.cr3 i ≠ 0 → i = 0
  second : ∀ i, m f i ≠ 0 → i = 0
  links : child 0 (m a.cr3 0) = some f ∧ child 1 (m f 0) = some g
  leaves : ∀ i, child 2 (m g i) = none

theorem Chain.tables {m : Memory} {f g n : BitVec 64} (chain : a.Chain m f g) {p : Path}
    (reached : a.tableAt m p = some n) :
    p = [] ∧ n = a.cr3 ∨ p = [0] ∧ n = f ∨ p = [0, 0] ∧ n = g := by
  induction p generalizing n with
  | nil => exact Or.inl ⟨rfl, (Option.some.inj reached).symm⟩
  | cons i p ih =>
    obtain ⟨t, above, points⟩ := RadixTree.table_of_cons reached
    have nonzero := (child_some points).2.1
    rcases ih above with ⟨rfl, rfl⟩ | ⟨rfl, rfl⟩ | ⟨rfl, rfl⟩
    · obtain rfl := chain.first i nonzero
      exact Or.inr (Or.inl ⟨rfl, Option.some.inj (points.symm.trans chain.links.1)⟩)
    · obtain rfl := chain.second i nonzero
      exact Or.inr (Or.inr ⟨rfl, Option.some.inj (points.symm.trans chain.links.2)⟩)
    · cases (chain.leaves i).symm.trans points

theorem Chain.tree {m : Memory} {f g : BitVec 64} (chain : a.Chain m f g) : a.Tree m := by
  obtain ⟨apart₁, apart₂, apart₃⟩ := chain.apart
  refine ⟨fun p q n first second => ?_, fun p n reached => ?_, fun i p e above found => ?_⟩
  · rcases chain.tables first with ⟨rfl, rfl⟩ | ⟨rfl, rfl⟩ | ⟨rfl, rfl⟩ <;>
      rcases chain.tables second with ⟨rfl, same⟩ | ⟨rfl, same⟩ | ⟨rfl, same⟩ <;>
      first
      | rfl
      | exact absurd same (by assumption)
      | exact absurd same.symm (by assumption)
  · rcases chain.tables reached with ⟨_, rfl⟩ | ⟨_, rfl⟩ | ⟨_, rfl⟩
    · exact chain.frames.1
    · exact chain.frames.2.1
    · exact chain.frames.2.2
  · obtain ⟨t, here, rfl⟩ := Option.map_eq_some_iff.mp found
    by_cases zero : m t i = 0
    · rw [zero]
      rfl
    · rcases chain.tables here with ⟨rfl, rfl⟩ | ⟨rfl, rfl⟩ | ⟨rfl, rfl⟩
      · obtain rfl := chain.first i zero
        exact (child_some chain.links.1).2.2.1
      · obtain rfl := chain.second i zero
        exact (child_some chain.links.2).2.2.1
      · simp at above

/-- A page of 2 MiB in the tree at 0x1000, and no page in the tree at 0x2000. -/
def besideMachine : Machine where
  memory := fun f i =>
    if f = 0x1000 ∧ i.val = 0 then 0x3003
    else if f = 0x3000 ∧ i.val = 0 then 0x4003
    else if f = 0x4000 ∧ i.val = 1 then 0x800083
    else if f = 0x2000 ∧ i.val = 0 then 0x5003
    else if f = 0x5000 ∧ i.val = 0 then 0x6003
    else 0
  allocator := plainAllocator

private theorem besideChain : Chain ⟨0x1000⟩ besideMachine.memory 0x3000 0x4000 := by
  refine ⟨by decide, by decide, ?_, ?_, ?_, ?_⟩ <;> decide +kernel

private theorem besideChain' : Chain ⟨0x2000⟩ besideMachine.memory 0x5000 0x6000 := by
  refine ⟨by decide, by decide, ?_, ?_, ?_, ?_⟩ <;> decide +kernel

/-- The page of 2 MiB is in the tree at 0x2000 as well. -/
def sharedMachine : Machine where
  memory := fun f i => if f = 0x6000 ∧ i.val = 1 then 0xA00083 else besideMachine.memory f i
  allocator := plainAllocator

/-- Two pagers with tables of their own that map one page. -/
theorem checksOccupation_shared :
    Tree ⟨0x1000⟩ sharedMachine.memory ∧ Tree ⟨0x2000⟩ sharedMachine.memory ∧
      ChecksOccupation ⟨0x1000⟩ ⟨0x2000⟩ sharedMachine := by
  have treeA : Tree ⟨0x1000⟩ sharedMachine.memory := by
    refine Chain.tree (f := 0x3000) (g := 0x4000) ⟨by decide, by decide, ?_, ?_, ?_, ?_⟩ <;>
      decide +kernel
  have treeB : Tree ⟨0x2000⟩ sharedMachine.memory := by
    refine Chain.tree (f := 0x5000) (g := 0x6000) ⟨by decide, by decide, ?_, ?_, ?_, ?_⟩ <;>
      decide +kernel
  have both : walk ⟨0x1000⟩ sharedMachine.memory 0x200000 ≠ none ∧
      walk ⟨0x2000⟩ sharedMachine.memory 0x200000 ≠ none := by
    rw [walk_ne_none_iff treeA, walk_ne_none_iff treeB]
    decide +kernel
  exact ⟨treeA, treeB, (checksOccupation_iff treeA treeB).mpr fun _ => ⟨_, both⟩⟩

/-- A page is reported to overlap with a tree without pages. -/
theorem not_checksOccupation_beside :
    Tree ⟨0x1000⟩ besideMachine.memory ∧ Tree ⟨0x2000⟩ besideMachine.memory ∧
      ¬ChecksOccupation ⟨0x1000⟩ ⟨0x2000⟩ besideMachine := by
  refine ⟨besideChain.tree, besideChain'.tree, fun checks => ?_⟩
  obtain ⟨found, value, answer⟩ := occupationCheck_value besideChain.tree besideChain'.tree
  have beside : MapsBeside ⟨0x1000⟩ ⟨0x2000⟩ besideMachine.memory 0x200000 := by
    unfold MapsBeside
    decide +kernel
  rw [answer.mpr ⟨_, beside⟩] at value
  obtain ⟨virt, _, mapped⟩ := checks.overlap.mp value
  rw [walk_ne_none_iff besideChain'.tree] at mapped
  have third := (everyLevel_present mapped).2.2
  cases here : view ⟨0x2000⟩ besideMachine.memory (translate virt).third with
  | none =>
    rw [seen, here] at third
    cases third
  | some e =>
    obtain ⟨t, table, rfl⟩ := Option.map_eq_some_iff.mp here
    rw [seen_of_view here] at third
    rcases besideChain'.tables table with ⟨path, _⟩ | ⟨path, _⟩ | ⟨_, rfl⟩
    · exact absurd (congrArg List.length path) (by simp)
    · exact absurd (congrArg List.length path) (by simp)
    · have empty : ∀ i, besideMachine.memory 0x6000 i = 0 := by decide +kernel
      rw [empty] at third
      cases third

end Pager

end EmkKernel
