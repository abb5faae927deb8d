import EmkKernel.Paging.Calls
import EmkKernel.Paging.Permissions

/-!
# Queries about single pages

`get_physical`, `is_active` and `is_kernel_only` descend to the third entry of an address
and take what they answer from it or from the entry behind it. The handle on a large page
has the flags of the first entry, and a third entry without a table is read through like
one with a table.
-/

namespace EmkKernel

open EStateM

theorem Entry.getLsbD_one (k : Nat) : (1 : Entry).getLsbD k = decide (k = 0) := by
  change (1#64).getLsbD k = _
  rw [BitVec.getLsbD_one]
  simp

namespace Pager

section Queries

variable {α : Type} (self : Pager)

/-- The common body of the queries, which differ in what they answer for the flags and the
address of a large page and for the entry of a small one. -/
def queryPage (virt : Nat) (large : Flags → BitVec 64 → α) (small : Entry → α) : PagerM α := do
  if virt % 0x1000 ≠ 0 then
    throw (.err .invalidAddress)
  else
    let address := translate virt
    let top ← load ⟨self.cr3, address.pdp⟩
    let pd ← self.getPdUnallocated address top.flags
    match ← pd.instantiate address.pt with
    | none => throw (.err .pagingError)
    | some pt =>
      let active ← pt.pageSizeActive
      if active then
        pure (large pt.flags pt.address)
      else
        let entry ← load ⟨pt.address, address.page⟩
        pure (small entry)

def isActive (virt : Nat) : PagerM Bool :=
  self.queryPage virt (fun flags _ => decide (flags &&& 1 = 1)) fun entry =>
    decide (entry &&& 1 = 1)

def isKernelOnly (virt : Nat) : PagerM Bool :=
  self.queryPage virt (fun flags _ => !flags.any pagerUs) fun entry => !entry.any pagerUs

private theorem getPhysical_eq_queryPage (virt : Nat) :
    self.getPhysical virt = self.queryPage virt (fun _ address => address) Entry.address := rfl

end Queries

variable {pager : Pager} {m : Machine} {virt : Nat}

theorem queryPage_yields {α : Type} (tree : pager.Tree m.memory) (aligned : virt % 0x1000 = 0)
    (large : Flags → BitVec 64 → α) (small : Entry → α) :
    Yields (pager.queryPage virt large small) m
      (fun answer m' => m' = m ∧ ∃ e, pager.view m.memory (translate virt).third = some e ∧
        answer = if e.pageSize then large (m.memory pager.cr3 (translate virt).pdp).flags e.address
          else small (m.memory e.address (translate virt).page))
      (fun _ m' => m' = m ∧ pager.view m.memory (translate virt).third = none) := by
  unfold queryPage
  rw [yields_ite, if_neg (not_not.mpr aligned), yields_bind, yields_load]
  apply third_yields tree
  · intro pt handle flags
    simp only [PointerTable.pageSizeActive, yields_bind, yields_load, yields_pure, yields_ite,
      handle.index, Entry.any_pageSize]
    split
    next isLarge =>
      refine ⟨trivial, _, handle.view, ?_⟩
      rw [if_pos isLarge, flags, handle.address]
    next isSmall =>
      refine ⟨trivial, _, handle.view, ?_⟩
      rw [if_neg isSmall, handle.address]
  · intro none s _
    exact ⟨rfl, none⟩

theorem queryPage_value {α : Type} (tree : pager.Tree m.memory) (aligned : virt % 0x1000 = 0)
    (large : Flags → BitVec 64 → α) (small : Entry → α) :
    (pager.queryPage virt large small).value? m =
      (pager.view m.memory (translate virt).third).map fun e =>
        if e.pageSize then large (m.memory pager.cr3 (translate virt).pdp).flags e.address
        else small (m.memory e.address (translate virt).page) := by
  have outcome := queryPage_yields tree aligned large small
  unfold Yields at outcome
  unfold value?
  split at outcome
  next ran =>
    obtain ⟨_, e, here, answer⟩ := outcome
    rw [here, answer, Option.map_some]
  next ran => rw [outcome.2, Option.map_none]

/-! ### What the queries should answer -/

/-- The queries answer what the processor does, whatever lies outside the tables. -/
structure QueriesAgree (pager : Pager) (m : Machine) (virt : Nat) : Prop where
  physical : ((pager.getPhysical virt).value? m).map BitVec.toNat =
    (pager.walk m.memory virt).map Translation.physical
  active : (pager.isActive virt).value? m = some true ↔
    everyLevel (entryAt m.memory pager.cr3) (translate virt) Entry.present = true
  kernelOnly : (pager.isKernelOnly virt).value? m = some true ↔
    everyLevel (entryAt m.memory pager.cr3) (translate virt) Entry.present = true ∧
      pager.permits m.memory virt false .process = false
  tables : ∀ m' : Machine, (∀ f, pager.IsTable m.memory f → m'.memory f = m.memory f) →
    (pager.getPhysical virt).value? m' = (pager.getPhysical virt).value? m ∧
    (pager.isActive virt).value? m' = (pager.isActive virt).value? m ∧
    (pager.isKernelOnly virt).value? m' = (pager.isKernelOnly virt).value? m

/-- What is asked about a large page: its own address, where the tables above do not
withhold what the first entry grants to the user. -/
structure LargeTold (read : Path → Entry) (virt : Nat) : Prop where
  frame : (read (translate virt).third).address = (read (translate virt).third).frame
  offset : (read (translate virt).third).frame.toNat % pager2Mib = virt % pager2Mib
  user : (read (translate virt).first).user = true →
    (read (translate virt).second).user = true ∧ (read (translate virt).third).user = true

/-- What is asked about a small page, where the tables above do not withhold what its
entry grants to the user. -/
structure SmallTold (read : Path → Entry) (virt : Nat) : Prop where
  frame : (read (translate virt).fourth).address = (read (translate virt).fourth).frame
  user : (read (translate virt).fourth).user = true → (read (translate virt).first).user = true ∧
    (read (translate virt).second).user = true ∧ (read (translate virt).third).user = true

/-- There is no third entry, or the page is present and the answers are read off the
entry that has them. -/
def QueriesTold (pager : Pager) (m : Memory) (virt : Nat) : Prop :=
  pager.view m (translate virt).third = none ∨
  everyLevel (pager.seen m) (translate virt) Entry.present = true ∧
    if (pager.seen m (translate virt).third).pageSize then LargeTold (pager.seen m) virt
    else SmallTold (pager.seen m) virt

private theorem flags_masked_present (e : Entry) : e.flags &&& 1 = 1 ↔ e.present = true := by
  have one (k : Nat) : (1 : Flags).getLsbD k = decide (k = 0) := getLsbD_present k
  rw [masked_iff_bits]
  simp only [one, decide_eq_true_eq, forall_eq, Entry.getLsbD_flags]
  rfl

private theorem masked_present (e : Entry) : e &&& 1 = 1 ↔ e.present = true := by
  rw [masked_iff_bits]
  simp only [Entry.getLsbD_one, decide_eq_true_eq, forall_eq]
  rfl

theorem any_us (e : Entry) : e.any pagerUs = e.user := e.any_flag 2 (by decide)

private theorem flags_any_us (e : Entry) : e.flags.any pagerUs = e.user := by
  rw [Flags.any_us, Entry.getLsbD_flags]
  rfl

theorem permits_user (tree : pager.Tree m.memory)
    (present : everyLevel (pager.seen m.memory) (translate virt) Entry.present = true) :
    pager.permits m.memory virt false .process =
      ((pager.seen m.memory (translate virt).first).user &&
        (pager.seen m.memory (translate virt).second).user &&
        (pager.seen m.memory (translate virt).third).user &&
        ((pager.seen m.memory (translate virt).third).pageSize ||
          (pager.seen m.memory (translate virt).fourth).user)) := by
  rw [permits, ← (agree_seen tree (translate virt)).everyLevel fun _ => present_of_suits]
  have user (e : Entry) : e.suits false .process = (e.present && e.user) := suits_process e
  simp only [everyLevel, Bool.and_eq_true, Bool.or_eq_true] at present
  obtain ⟨⟨⟨first, second⟩, third⟩, fourth⟩ := present
  simp only [everyLevel, user, first, second, third, Bool.true_and]
  rcases fourth with large | small
  · rw [large, Bool.true_or, Bool.true_or]
  · rw [small, Bool.true_and]

private theorem everyLevel_seen (tree : pager.Tree m.memory) (virt : Nat) :
    everyLevel (pager.seen m.memory) (translate virt) Entry.present =
      everyLevel (entryAt m.memory pager.cr3) (translate virt) Entry.present :=
  (agree_seen tree (translate virt)).everyLevel fun _ => id

section Told

variable (tree : pager.Tree m.memory) (aligned : virt % 0x1000 = 0)

include tree aligned

private theorem getPhysical_value : (pager.getPhysical virt).value? m =
    (pager.view m.memory (translate virt).third).map fun e =>
      if e.pageSize then e.address else (m.memory e.address (translate virt).page).address := by
  rw [getPhysical_eq_queryPage, queryPage_value tree aligned]

private theorem isActive_value : (pager.isActive virt).value? m =
    (pager.view m.memory (translate virt).third).map fun e =>
      if e.pageSize then (pager.seen m.memory (translate virt).first).present
      else (m.memory e.address (translate virt).page).present := by
  have first : pager.seen m.memory (translate virt).first = _ :=
    seen_of_view (view_cons rfl (translate virt).pdp)
  simp only [isActive, queryPage_value tree aligned, flags_masked_present, masked_present,
    Bool.decide_eq_true, first]

private theorem isKernelOnly_value : (pager.isKernelOnly virt).value? m =
    (pager.view m.memory (translate virt).third).map fun e =>
      if e.pageSize then !(pager.seen m.memory (translate virt).first).user
      else !(m.memory e.address (translate virt).page).user := by
  have first : pager.seen m.memory (translate virt).first = _ :=
    seen_of_view (view_cons rfl (translate virt).pdp)
  simp only [isKernelOnly, queryPage_value tree aligned, flags_any_us, any_us, first]

end Told

/-- A large page is at its own address and offset where its entry holds no other bits. -/
theorem largePage_iff (e : Entry) (virt : Nat) : e.address.toNat = (largePage e virt).physical ↔
    e.address = e.frame ∧ e.frame.toNat % pager2Mib = virt % pager2Mib := by
  simp only [← BitVec.toNat_inj, largePage, Entry.toNat_address, Entry.toNat_frame, pager2Mib]
  constructor
  · intro same
    -- the sum is below the width of a frame, so the entry has no bits above it
    have below : e.toNat < 2 ^ 52 := by omega
    rw [Nat.mod_eq_of_lt below] at same ⊢
    omega
  · rintro ⟨same, offset⟩
    rw [← offset, Nat.div_add_mod']
    exact same

private theorem smallPage_iff (e : Entry) {virt : Nat} (aligned : virt % 0x1000 = 0) :
    e.address.toNat = (smallPage e virt).physical ↔ e.address = e.frame := by
  rw [← BitVec.toNat_inj, smallPage, aligned, Nat.add_zero]

/-- The entry of a small page lies in the table behind the third entry. -/
theorem seen_fourth {e : Entry} (here : pager.view m.memory (translate virt).third = some e)
    (nonzero : e ≠ 0) (small : e.pageSize = false) :
    pager.seen m.memory (translate virt).fourth = m.memory e.address (translate virt).page :=
  seen_of_view (view_cons (tableAt_of_view here (by simp) nonzero small) _)

/-- Where the third entry is not zero, the queries read nothing but tables. -/
theorem queries_tables (tree : pager.Tree m.memory) (aligned : virt % 0x1000 = 0)
    (told : pager.view m.memory (translate virt).third ≠ some 0) {m' : Machine}
    (same : ∀ f, pager.IsTable m.memory f → m'.memory f = m.memory f) :
    (pager.getPhysical virt).value? m' = (pager.getPhysical virt).value? m ∧
    (pager.isActive virt).value? m' = (pager.isActive virt).value? m ∧
    (pager.isKernelOnly virt).value? m' = (pager.isKernelOnly virt).value? m := by
  have tree' := tree.congr same
  have first : pager.seen m'.memory (translate virt).first =
      pager.seen m.memory (translate virt).first := by rw [seen, seen, view_congr same]
  rw [getPhysical_value tree' aligned, isActive_value tree' aligned,
    isKernelOnly_value tree' aligned, getPhysical_value tree aligned,
    isActive_value tree aligned, isKernelOnly_value tree aligned, view_congr same, first]
  cases here : pager.view m.memory (translate virt).third with
  | none => exact ⟨rfl, rfl, rfl⟩
  | some e =>
    simp only [Option.map_some]
    cases size : e.pageSize with
    | true => exact ⟨rfl, rfl, rfl⟩
    | false =>
      have nonzero : e ≠ 0 := fun zero => told (zero ▸ here)
      rw [same _ ⟨_, tableAt_of_view here (by simp) nonzero size⟩]
      exact ⟨rfl, rfl, rfl⟩

section Mapped

variable {e : Entry} (tree : pager.Tree m.memory) (aligned : virt % 0x1000 = 0)
  (here : pager.view m.memory (translate virt).third = some e)
  (present : everyLevel (pager.seen m.memory) (translate virt) Entry.present = true)

include tree aligned here present

private theorem queries_agree_large (large : e.pageSize = true) :
    QueriesAgree pager m virt ↔ LargeTold (pager.seen m.memory) virt := by
  have third := seen_of_view here
  have levels := everyLevel_seen tree virt
  have physical := getPhysical_value tree aligned
  have active := isActive_value tree aligned
  have kernelOnly := isKernelOnly_value tree aligned
  simp only [here, Option.map_some, large, if_true] at physical active kernelOnly
  have walk : pager.walk m.memory virt = some (largePage e virt) := by
    rw [walk_eq tree, translation, if_pos present, third, if_pos large]
  have permits := permits_user tree present
  rw [third, large, Bool.true_or, Bool.and_true] at permits
  have told : pager.view m.memory (translate virt).third ≠ some 0 := by
    rw [here]
    rintro ⟨rfl⟩
    cases large
  have first := (everyLevel_present present).1
  constructor
  · intro agree
    have address := agree.physical
    rw [physical, walk, Option.map_some, Option.map_some, Option.some.injEq,
      largePage_iff] at address
    have user := agree.kernelOnly
    rw [kernelOnly, ← levels, present, permits] at user
    refine ⟨third ▸ address.1, third ▸ address.2, fun granted => ?_⟩
    simpa [granted, third] using user
  · rintro ⟨frame, offset, user⟩
    rw [third] at frame offset user
    refine ⟨?_, ?_, ?_, fun _ => queries_tables tree aligned told⟩
    · rw [physical, walk, Option.map_some, Option.map_some,
        (largePage_iff e virt).mpr ⟨frame, offset⟩]
    · rw [active, ← levels, present, first]
      exact iff_of_true rfl rfl
    · rw [kernelOnly, ← levels, present, permits]
      cases granted : (pager.seen m.memory (translate virt).first).user with
      | false => simp
      | true => simp [user granted]

private theorem queries_agree_small (small : e.pageSize = false) :
    QueriesAgree pager m virt ↔ SmallTold (pager.seen m.memory) virt := by
  have third := seen_of_view here
  have nonzero := Entry.ne_zero_of_bit (everyLevel_present present).2.2
  rw [third] at nonzero
  have levels := everyLevel_seen tree virt
  have physical := getPhysical_value tree aligned
  have active := isActive_value tree aligned
  have kernelOnly := isKernelOnly_value tree aligned
  simp only [here, Option.map_some, small, Bool.false_eq_true, if_false,
    ← seen_fourth here nonzero small] at physical active kernelOnly
  have walk : pager.walk m.memory virt =
      some (smallPage (pager.seen m.memory (translate virt).fourth) virt) := by
    rw [walk_eq tree, translation, if_pos present, third, if_neg (by simp [small])]
  have permits := permits_user tree present
  rw [third, small, Bool.false_or] at permits
  have told : pager.view m.memory (translate virt).third ≠ some 0 := by
    rw [here]
    rintro ⟨rfl⟩
    exact nonzero rfl
  have fourth : (pager.seen m.memory (translate virt).fourth).present = true := by
    have all := present
    simp only [everyLevel, third, small, Bool.false_or, Bool.and_eq_true] at all
    exact all.2
  constructor
  · intro agree
    have address := agree.physical
    rw [physical, walk, Option.map_some, Option.map_some, Option.some.injEq,
      smallPage_iff _ aligned] at address
    have user := agree.kernelOnly
    rw [kernelOnly, ← levels, present, permits] at user
    refine ⟨address, fun granted => ?_⟩
    simpa [granted, third, and_assoc] using user
  · rintro ⟨frame, user⟩
    rw [third] at user
    refine ⟨?_, ?_, ?_, fun _ => queries_tables tree aligned told⟩
    · rw [physical, walk, Option.map_some, Option.map_some, (smallPage_iff _ aligned).mpr frame]
    · rw [active, ← levels, present, fourth]
      exact iff_of_true rfl rfl
    · rw [kernelOnly, ← levels, present, permits]
      cases granted : (pager.seen m.memory (translate virt).fourth).user with
      | false => simp
      | true => simp [user granted]

end Mapped

/-- The queries answer what the processor does exactly if the page is present and the
entries that they read have the answers, or if there is no third entry. -/
theorem queries_agree_iff (tree : pager.Tree m.memory) (aligned : virt % 0x1000 = 0) :
    QueriesAgree pager m virt ↔ QueriesTold pager m.memory virt := by
  have walk := walk_eq tree virt
  have levels := everyLevel_seen tree virt
  have physical := getPhysical_value tree aligned
  cases present : everyLevel (pager.seen m.memory) (translate virt) Entry.present with
  | true =>
    have third := (everyLevel_present present).2.2
    cases here : pager.view m.memory (translate virt).third with
    | none =>
      rw [seen, here] at third
      cases third
    | some e =>
      simp only [QueriesTold, here, present, reduceCtorEq, false_or, true_and, seen_of_view here]
      split
      next large => exact queries_agree_large tree aligned here present large
      next small => exact queries_agree_small tree aligned here present (by simpa using small)
  | false =>
    have unmapped : pager.walk m.memory virt = none := by rw [walk, translation, present]; rfl
    cases here : pager.view m.memory (translate virt).third with
    | none =>
      have told : pager.view m.memory (translate virt).third ≠ some 0 := by simp [here]
      refine iff_of_true ⟨?_, ?_, ?_, fun _ => queries_tables tree aligned told⟩ (Or.inl here)
      · rw [physical, unmapped, here]
        rfl
      · simp [isActive_value tree aligned, here, ← levels, present]
      · simp [isKernelOnly_value tree aligned, here, ← levels, present]
    | some e =>
      -- a page that is not there has no physical address to answer
      refine iff_of_false (fun agree => ?_) fun told => ?_
      · have answered := agree.physical
        rw [physical, unmapped, here] at answered
        cases answered
      · rcases told with none | ⟨present', _⟩
        · cases here.symm.trans none
        · cases present.symm.trans present'

/-- A small page that is just mapped is told about. -/
theorem queries_agree_iff_small : ∃ page m,
    plainPager.page4Kb 0x400000 0x7000 7 plainMachine = .ok page m ∧
      plainPager.QueriesAgree m 0x400000 := by
  have ran : ((plainPager.page4Kb 0x400000 0x7000 7).state? plainMachine).any (fun m =>
      let read := plainPager.seen m.memory
      let a := translate 0x400000
      everyLevel read a Entry.present && !(read a.third).pageSize &&
        decide ((read a.fourth).address = (read a.fourth).frame) &&
        (read a.first).user && (read a.second).user && (read a.third).user) = true := by
    decide +kernel
  obtain ⟨m, ended, checked⟩ := (Option.any_eq_true _ _).1 ran
  obtain ⟨page, returned⟩ := ok_of_state? ended
  simp only [Bool.and_eq_true, Bool.not_eq_true', decide_eq_true_eq] at checked
  obtain ⟨⟨⟨⟨⟨present, small⟩, frame⟩, first⟩, second⟩, third⟩ := checked
  have tree := page4Kb_tree (plainFresh.tree.ready plainAllocator_supplies)
    (Or.inl ⟨page, returned⟩)
  refine ⟨page, m, returned, (queries_agree_iff tree (by decide)).mpr (Or.inr ⟨present, ?_⟩)⟩
  rw [small]
  exact ⟨frame, fun _ => ⟨first, second, third⟩⟩

/-- In the middle of a large page the answer lacks the offset. -/
theorem not_queriesAgree_large : ∃ page m,
    plainPager.page2Mb 0x400000 0x600000 3 plainMachine = .ok page m ∧
      plainPager.Tree m.memory ∧ ¬plainPager.QueriesAgree m 0x423000 := by
  have ran : ((plainPager.page2Mb 0x400000 0x600000 3).state? plainMachine).any (fun m =>
      decide (((plainPager.getPhysical 0x423000).value? m).map BitVec.toNat = some 0x600000) &&
        decide ((plainPager.walk m.memory 0x423000).map Translation.physical = some 0x623000)) =
      true := by decide +kernel
  obtain ⟨m, ended, checked⟩ := (Option.any_eq_true _ _).1 ran
  obtain ⟨page, returned⟩ := ok_of_state? ended
  simp only [Bool.and_eq_true, decide_eq_true_eq] at checked
  obtain ⟨answered, physical⟩ := checked
  have ready := plainFresh.tree.ready plainAllocator_supplies
  have slot : (plainPager.seen plainMachine.memory (translate 0x400000).third).pageSize =
      false := by
    decide +kernel
  refine ⟨page, m, returned, page2Mb_tree ready slot (Or.inl ⟨page, returned⟩), fun agree => ?_⟩
  have same := agree.physical
  rw [answered, physical] at same
  cases same

end Pager

end EmkKernel
