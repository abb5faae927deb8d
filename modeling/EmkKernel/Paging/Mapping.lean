import EmkKernel.Paging.Descend

/-!
# Mapping functions as edits

`page_4_kb` opens three entries on the way, one with a large page by unfolding it,
and writes the leaf. `page_2_mb` opens two and writes the third.
-/

namespace EmkKernel

open EStateM

namespace Address

/-- The paths to the entries on the way of an address. -/
def first (a : Address) : Path := [a.pdp]
def second (a : Address) : Path := [a.pd, a.pdp]
def third (a : Address) : Path := [a.pt, a.pd, a.pdp]
def fourth (a : Address) : Path := [a.page, a.pt, a.pd, a.pdp]

end Address

/-- The flags that `unfold` gives to the small pages. -/
def Entry.smallFlags (e : Entry) : Flags := e.flags &&& ~~~pagerPageSize

theorem Entry.getLsbD_smallFlags (e : Entry) (k : Nat) :
    e.smallFlags.getLsbD k = (decide (k < 12 ∧ k ≠ 7) && e.getLsbD k) := by
  rw [smallFlags, BitVec.getLsbD_and, getLsbD_flags, BitVec.getLsbD_not, getLsbD_pageSize]
  by_cases low : k < 12
  · have width : k < 16 := by omega
    by_cases ps : k = 7 <;> simp [low, width, ps, Bool.and_comm]
  · simp [low]

theorem Entry.smallFlags_plain (e : Entry) : e.smallFlags.Plain := by
  refine ⟨?_, fun k high => ?_⟩
  · rw [getLsbD_smallFlags]
    rfl
  · rw [getLsbD_smallFlags]
    simp [Nat.not_lt_of_le high]

namespace Pager

variable {pager : Pager} {kept : BitVec 64 → Prop} {m m' : Machine} {pt : PointerTable} {i : Index}
  {p : Path} {flags : Flags}

/-- The large page at `q` is replaced by a table of 512 small ones. -/
structure Unfolded (pager : Pager) (q : Path) (e : Entry) (m m' : Machine) : Prop where
  before : pager.view m.memory q = some e
  large : e.pageSize = true
  inU64 : PointerTable.unfoldOverflows e.address = false
  opened : ∃ mb, (m.allocator.alloc 1).value = (.ok mb, m'.allocator) ∧
    Adds (pager.view m.memory) (pager.view m'.memory) q
      (Entry.pack (BitVec.ofNat 64 mb.base) (e.smallFlags ||| pagerStabAllocated))
      (PointerTable.unfolded e.address e.smallFlags) ∧
    (∀ r, pager.tableAt m'.memory r =
      if r = q then some (BitVec.ofNat 64 mb.base) else pager.tableAt m.memory r) ∧
    pager.Untouched m.memory m'.memory fun g => g = BitVec.ofNat 64 mb.base

/-- `unfold` on a handle of the third level. -/
theorem unfold_yields (ready : pager.Ready kept m) (handle : pager.Handle m.memory pt i p)
    (lowest : p.length = 2) {e : Entry} (entry : pager.view m.memory (i :: p) = some e)
    (large : e.pageSize = true) :
    Yields pt.unfold m (fun pt' m' => pager.Ready kept m' ∧ pager.Unfolded (i :: p) e m m' ∧
        pager.tableAt m'.memory (i :: p) = some pt'.address)
      (Fails (· = m) (PointerTable.unfoldOverflows e.address)) := by
  have loaded := handle.load entry
  unfold PointerTable.unfold
  simp only [PointerTable.pageSizeActive, yields_bind, yields_load, loaded, yields_pure,
    yields_ite, Entry.any_pageSize, large, if_true]
  refine (allocZeroPage_yields m).mono ?_ (Fails.mono (fun _ same => same) False.elim)
  rintro f m₁ ⟨mb, a, returned, rfl, rfl⟩
  have isFrame := ready.supplies.isFrame returned
  have fresh := fun isTable => ready.supplies.unused returned (Or.inr isTable)
  -- the table of the entry is not the page that was just cleared
  have apart : pt.location.table ≠ BitVec.ofNat 64 mb.base :=
    fun same => fresh ⟨p, same ▸ handle.table⟩
  have same : RadixTree.fill m.memory (BitVec.ofNat 64 mb.base) (fun _ => 0)
      pt.location.table pt.location.index = e := by
    rw [RadixTree.fill_apply, if_neg apart, loaded]
  have address : pt.address = e.address := by
    rw [handle.address, ← handle.index, loaded]
  simp only [same, address, RadixTree.fill_fill, yields_throw, yields_modify, yields_store]
  split
  next overflows => exact .overflow overflows _
  next inU64 =>
    have bare : child p.length (m.memory pt.location.table pt.location.index) = none := by
      rw [loaded, child_large _ large]
    have link : child p.length (Entry.pack (BitVec.ofNat 64 mb.base)
        (e.smallFlags ||| pagerStabAllocated)) = some (BitVec.ofNat 64 mb.base) :=
      child_link isFrame e.smallFlags_plain (by omega)
    obtain ⟨tree, adds, tables⟩ := ready.tree.add (e := Entry.pack (BitVec.ofNat 64 mb.base)
      (e.smallFlags ||| pagerStabAllocated)) handle.table bare fresh isFrame link
      (fun j => child_lowest (by omega) (PointerTable.unfolded e.address e.smallFlags j))
      fun _ _ => by omega
    rw [handle.index] at tree adds tables ⊢
    exact ⟨ready.grant returned tree tables, ⟨entry, large,
      Bool.eq_false_iff.mpr inU64, mb, returned, adds, tables,
      untouched_graft ⟨p, handle.table⟩ i _ _⟩, (tables _).trans (if_pos rfl)⟩

/-- The entry of the third level is made to point to a table of small pages. -/
inductive Small (pager : Pager) (q : Path) (flags : Flags) (m m' : Machine) : Prop where
  | opened (e : Entry) (before : pager.view m.memory q = some e) (small : e.pageSize = false)
      (opened : pager.Opened false flags q m m')
  | unfolded (e : Entry) (unfolded : pager.Unfolded q e m m')

/-- One entry is overwritten, and it points to no other table than before. -/
structure Stored (pager : Pager) (q : Path) (e : Entry) (m m' : Machine) : Prop where
  sets : Sets (pager.view m.memory) (pager.view m'.memory) q e
  tables : ∀ r, pager.tableAt m'.memory r = pager.tableAt m.memory r
  allocator : m'.allocator = m.allocator
  untouched : pager.Untouched m.memory m'.memory fun _ => False

theorem store_yields {n : BitVec 64} {e : Entry} (ready : pager.Ready kept m)
    (here : pager.tableAt m.memory p = some n)
    (same : child p.length e = child p.length (m.memory n i))
    (upper : p.length < 2 → e.pageSize = false) {R : Stop → Machine → Prop} :
    Yields (store ⟨n, i⟩ e) m (fun _ m' => pager.Ready kept m' ∧ pager.Stored (i :: p) e m m')
      R := by
  obtain ⟨tree, sets, tables⟩ := ready.tree.set here same upper
  exact ⟨ready.same tree tables, sets, tables, rfl, untouched_write ⟨p, here⟩ i e⟩

/-- With all tables in place nothing is allocated above the third level. -/
theorem Opens.third_some {address : Address} {e : Entry}
    (opens : pager.Opens kept address flags m m')
    (before : pager.view m.memory address.third = some e) :
    pager.view m'.memory address.third = some e ∧ m'.allocator = m.allocator := by
  obtain ⟨m₁, _, first, second⟩ := opens.opened
  obtain ⟨e₂, here₂, nonzero₂⟩ := view_above before
  obtain ⟨e₁, here₁, nonzero₁⟩ := view_above here₂
  have after₂ := first.other (by simp) here₂
  exact ⟨second.other (by simp [Address.third]) (first.other (by simp [Address.third]) before),
    (second.kept_of_nonzero after₂ nonzero₂).trans (first.kept_of_nonzero here₁ nonzero₁)⟩

/-- What `page_4_kb` does with accepted flags before it writes the leaf. -/
structure Reached (pager : Pager) (kept : BitVec 64 → Prop) (address : Address) (flags : Flags)
    (m m' : Machine) : Prop where
  ready : pager.Ready kept m'
  steps : ∃ m₁, pager.Opens kept address flags m m₁ ∧ pager.Small address.third flags m₁ m'

/-- The flags that `page_4_kb` gives to the tables on the way. -/
def tableFlags (flags : Flags) : Flags :=
  if flags.any pagerPat then flags ^^^ pagerPat else flags

/-- The flags that `page_4_kb` writes into the leaf. -/
def leafFlags (flags : Flags) : Flags :=
  if flags.any pagerPat then flags ^^^ pagerPat ^^^ pagerPat2 else flags

/-- The third level of `page_4_kb` when the entry has no large page. -/
theorem small_yields (ready : pager.Ready kept m) (handle : pager.Handle m.memory pt i p)
    (lowest : p.length = 2) (plain : pt.flags.Plain) {e : Entry}
    (entry : pager.view m.memory (i :: p) = some e) (small : e.pageSize = false) :
    Yields pt.allocateIfNecessary m (fun r m' => pager.Ready kept m' ∧
        pager.Small (i :: p) pt.flags m m' ∧ pager.tableAt m'.memory (i :: p) = some r.2.address)
      (Fails (· = m) False) := by
  refine (allocateIfNecessary_yields ready handle (by omega) plain entry).mono ?_
    (Fails.mono (fun _ failed => failed.1) id)
  rintro r m' ⟨ready', opened, handle', _⟩
  refine ⟨ready', .opened e entry small opened, ?_⟩
  obtain ⟨e', entry', nonzero⟩ := opened.nonzero
  have small' : e'.pageSize = false := by
    cases opened with
    | kept e₁ before _ sets tables allocator untouched =>
      obtain rfl := Option.some.inj (entry.symm.trans before)
      obtain rfl := Option.some.inj (sets.here.symm.trans entry')
      rwa [Entry.pageSize_granted]
    | linked mb before returned adds tables untouched =>
      have reached := (tables (i :: p)).trans (if_pos rfl)
      rw [tableAt_cons, entry', Option.bind_some] at reached
      exact (child_some reached).2.2.1
  rw [handle'.address, ← handle'.index, handle'.load entry', handle'.index]
  exact tableAt_of_view entry' (by omega) nonzero small'

/-- `page_4_kb` behind its checks. -/
def mapSmall (pager : Pager) (address : Address) (flags : Flags) (leaf : Entry) (page : Page) :
    PagerM Page := do
  let pd ← pager.getPdAllocated address flags
  match ← pd.instantiate address.pt with
  | none => throw (.err .pagingError)
  | some pt =>
    let active ← pt.pageSizeActive
    if active then
      let pt ← pt.unfold
      store ⟨pt.address, address.page⟩ leaf
      pure page
    else
      let (_, pt) ← pt.allocateIfNecessary
      store ⟨pt.address, address.page⟩ leaf
      pure page

theorem page4Kb_eq (pager : Pager) (virt : Nat) (physical : BitVec 64) (flags : Flags) :
    pager.page4Kb virt physical flags =
      if virt % 0x1000 ≠ 0 ∨ physical &&& 0xFFF ≠ 0 then throw (.err .invalidAddress)
      else if (tableFlags flags).any 0xF0A0 then throw (.err .invalidFlags)
      else pager.mapSmall (translate virt) (tableFlags flags)
        (Entry.pack physical (leafFlags flags)) ⟨physical, virt⟩ := by
  unfold page4Kb mapSmall tableFlags leafFlags
  cases flags.any pagerPat <;> rfl

/-- A large page at the third level whose small pages have no addresses in `u64`. -/
def Overflows (pager : Pager) (m : Memory) (address : Address) : Prop :=
  ∃ e, pager.view m address.third = some e ∧ e.pageSize = true ∧
    PointerTable.unfoldOverflows e.address = true

/-- What an error of a mapping leaves behind: some of the entries on the way were opened. -/
inductive Prepared (pager : Pager) (kept : BitVec 64 → Prop) (address : Address) (flags : Flags)
    (m m' : Machine) : Prop where
  | begun (begun : pager.Begun kept address flags m m')
  | both (opens : pager.Opens kept address flags m m')

/-- With all tables in place an error leaves the allocator as it was. -/
theorem Prepared.allocator_of_third {address : Address} {e : Entry}
    (prepared : pager.Prepared kept address flags m m')
    (before : pager.view m.memory address.third = some e) : m'.allocator = m.allocator := by
  cases prepared with
  | both opens => exact (opens.third_some before).2
  | begun begun =>
    cases begun with
    | nothing ready missing => rfl
    | first _ ready opened missing =>
      obtain ⟨_, here₂, _⟩ := view_above before
      obtain ⟨_, here₁, nonzero₁⟩ := view_above here₂
      exact opened.kept_of_nonzero here₁ nonzero₁

private theorem mapSmall_yields (ready : pager.Ready kept m) (address : Address)
    (plain : flags.Plain) (leaf : Entry) (page : Page) :
    Yields (pager.mapSmall address flags leaf page) m
      (fun page' m' => page' = page ∧ pager.Ready kept m' ∧
        ∃ m₁, pager.Reached kept address flags m m₁ ∧ pager.Stored address.fourth leaf m₁ m')
      (Fails (pager.Prepared kept address flags m) (pager.Overflows m.memory address)) := by
  unfold mapSmall
  rw [yields_bind]
  refine (getPdAllocated_yields ready address plain).mono ?_
    (Fails.mono (fun _ => .begun) False.elim)
  rintro pd m₁ ⟨opens, handle, flags₁⟩
  obtain ⟨m₀, ready₀, first, second⟩ := opens.opened
  obtain ⟨e₁, entry₁, nonzero₁⟩ := second.nonzero
  have small₁ := opens.ready.tree.upper _ _ _ (by simp) entry₁
  rw [yields_bind]
  refine (instantiate_yields handle (by simp) entry₁ nonzero₁ small₁ address.pt).mono ?_
    fun _ _ failed => failed
  rintro _ m₂ ⟨rfl, pt, rfl, handle₂, flags₂⟩
  have same : pt.flags ||| pagerStabAllocated = flags ||| pagerStabAllocated := by
    rw [flags₂, flags₁, carried_or_stab]
  have entry := handle₂.view
  -- either way the leaf is written into a table that the third entry points to
  have written (table : BitVec 64) {m₃ : Machine} (ready₃ : pager.Ready kept m₃)
      (small : pager.Small address.third flags m₂ m₃)
      (here : pager.tableAt m₃.memory address.third = some table) :
      Yields (store ⟨table, address.page⟩ leaf) m₃
        (fun _ m' => True ∧ pager.Ready kept m' ∧
          ∃ m₁, pager.Reached kept address flags m m₁ ∧ pager.Stored address.fourth leaf m₁ m')
        (Fails (pager.Prepared kept address flags m) (pager.Overflows m.memory address)) := by
    have lowest (e : Entry) : child address.third.length e = none := child_lowest (by rfl) e
    refine (store_yields ready₃ here ((lowest _).trans (lowest _).symm) fun above => ?_).mono ?_
      fun _ _ failed => failed
    · simp [Address.third] at above
    · exact fun _ m' stored => ⟨trivial, stored.1, m₃, ⟨ready₃, m₂, opens, small⟩, stored.2⟩
  have prepared (m' : Machine) (same : m' = m₂) : pager.Prepared kept address flags m m' :=
    same ▸ .both opens
  simp only [PointerTable.pageSizeActive, yields_bind, yields_load, yields_pure, yields_ite,
    Entry.any_pageSize, handle₂.index]
  split
  next large =>
    refine (unfold_yields opens.ready handle₂ rfl entry large).mono ?_
      (Fails.mono prepared fun overflows => ?_)
    · rintro pt' m₃ ⟨ready₃, unfolded, here⟩
      exact written pt'.address ready₃ (.unfolded _ unfolded) here
    · have nonzero : m₂.memory pt.location.table address.pt ≠ 0 :=
        Entry.ne_zero_of_bit large
      exact ⟨_, first.old (by simp [Address.third])
        (second.old (by simp [Address.third]) entry nonzero) nonzero, large, overflows⟩
  next small =>
    refine (small_yields opens.ready handle₂ rfl (plain.of_or_stab same) entry
      (Bool.eq_false_iff.mpr small)).mono ?_ (Fails.mono prepared False.elim)
    rintro ⟨_, pt'⟩ m₃ ⟨ready₃, opened, here⟩
    refine written pt'.address ready₃ ?_ here
    cases opened with
    | opened e before small opened => exact .opened e before small (opened.of_or_stab same)
    | unfolded e unfolded => exact .unfolded e unfolded

/-- The arguments pass the checks of `page_4_kb`. -/
def Takes4Kb (virt : Nat) (physical : BitVec 64) (flags : Flags) : Prop :=
  virt % 0x1000 = 0 ∧ physical &&& 0xFFF = 0 ∧ (tableFlags flags).Accepted

/-- `page_4_kb` opens the entries on the way and writes the leaf. -/
theorem page4Kb_yields (ready : pager.Ready kept m) (virt : Nat) (physical : BitVec 64)
    (flags : Flags) :
    Yields (pager.page4Kb virt physical flags) m
      (fun page m' => page = ⟨physical, virt⟩ ∧ Takes4Kb virt physical flags ∧
        pager.Ready kept m' ∧
        ∃ m₁, pager.Reached kept (translate virt) (tableFlags flags) m m₁ ∧
          pager.Stored (translate virt).fourth (Entry.pack physical (leafFlags flags)) m₁ m')
      (fun s m' => ¬Takes4Kb virt physical flags ∧ m' = m ∨
        Fails (pager.Prepared kept (translate virt) (tableFlags flags) m)
          (pager.Overflows m.memory (translate virt)) s m') := by
  rw [page4Kb_eq, yields_ite, yields_ite]
  split
  next misaligned =>
    refine Or.inl ⟨fun takes => ?_, rfl⟩
    rcases misaligned with virt | physical
    · exact virt takes.1
    · exact physical takes.2.1
  next aligned =>
    obtain ⟨pageVirt, pagePhysical⟩ := not_or.mp aligned
    split
    next rejected =>
      exact Or.inl ⟨fun takes => Bool.false_ne_true (takes.2.2.symm.trans rejected), rfl⟩
    next accepted =>
      have accepted : (tableFlags flags).Accepted := Bool.eq_false_iff.mpr accepted
      refine (mapSmall_yields ready (translate virt) accepted.plain _ _).mono ?_
        fun _ _ failed => Or.inr failed
      rintro page m' ⟨rfl, ready', steps⟩
      exact ⟨rfl, ⟨by omega, by simpa using pagePhysical, accepted⟩, ready', steps⟩

/-! ### `page_2_mb` -/

/-- The flags `page_2_mb` writes over the entry `e`: a large page keeps the flags of
the handle, without `PS`. -/
def largeFlags (e : Entry) (flags : Flags) : Flags :=
  if e.pageSize then flags
  else if e.stabAllocated then (flags ^^^ pagerStabAllocated) ||| pagerPageSize
  else flags ||| pagerPageSize

/-- The arguments pass the checks of `page_2_mb`. -/
def Takes2Mb (virt : Nat) (physical : BitVec 64) (flags : Flags) : Prop :=
  virt % 0x100000 = 0 ∧ physical &&& 0xFFFFF = 0 ∧ flags.Accepted

/-- The table of small pages that an entry marks as allocated is given back. -/
def GivesBack (e : Entry) (a a' : Allocator) : Prop :=
  if e.pageSize = false ∧ e.stabAllocated = true then
    (a.free ⟨e.address.toNat, 0x1000⟩).value = (.ok (), a')
  else a' = a

private theorem givesBack_same {e : Entry} (a : Allocator)
    (unowned : ¬(e.pageSize = false ∧ e.stabAllocated = true)) : GivesBack e a a := by
  rw [GivesBack, if_neg unowned]

/-- What `page_2_mb` does behind its checks: it opens two entries and overwrites the third. -/
structure Overwritten (pager : Pager) (kept : BitVec 64 → Prop) (address : Address) (flags : Flags)
    (physical : BitVec 64) (m m' : Machine) : Prop where
  steps : ∃ m₁ n e, pager.Opens kept address flags m m₁ ∧
    pager.tableAt m₁.memory address.second = some n ∧ m₁.memory n address.pt = e ∧
    m'.memory = RadixTree.write m₁.memory n address.pt
      (Entry.pack physical (largeFlags e (pager.carried m.memory address flags))) ∧
    GivesBack e m₁.allocator m'.allocator

theorem page2Mb_yields (ready : pager.Ready kept m) (virt : Nat) (physical : BitVec 64)
    (flags : Flags) :
    Yields (pager.page2Mb virt physical flags) m
      (fun page m' => page = ⟨physical, virt⟩ ∧ Takes2Mb virt physical flags ∧
        pager.Overwritten kept (translate virt) flags physical m m')
      (fun s m' => ¬Takes2Mb virt physical flags ∧ m' = m ∨
        Takes2Mb virt physical flags ∧
          (Fails (pager.Begun kept (translate virt) flags m) False s m' ∨
            pager.Opens kept (translate virt) flags m m' ∧ ∃ e,
              pager.view m'.memory (translate virt).third = some e ∧ e.pageSize = false ∧
              e.stabAllocated = true ∧
              (m'.allocator.free ⟨e.address.toNat, 0x1000⟩).value = (.error s, m'.allocator))) := by
  unfold page2Mb
  rw [yields_ite, yields_ite]
  split
  next misaligned =>
    refine Or.inl ⟨fun takes => ?_, rfl⟩
    rcases misaligned with virt | physical
    · exact virt takes.1
    · exact physical takes.2.1
  next aligned =>
  obtain ⟨pageVirt, pagePhysical⟩ := not_or.mp aligned
  split
  next rejected =>
    exact Or.inl ⟨fun takes => Bool.false_ne_true (takes.2.2.symm.trans rejected), rfl⟩
  next accepted =>
  have accepted : flags.Accepted := Bool.eq_false_iff.mpr accepted
  have takes : Takes2Mb virt physical flags :=
    ⟨by omega, by simpa using pagePhysical, accepted⟩
  rw [yields_bind]
  refine (getPdAllocated_yields ready (translate virt) accepted.plain).mono ?_
    fun _ _ failed => Or.inr ⟨takes, Or.inl failed⟩
  rintro pd m₁ ⟨opens, handle, flags₁⟩
  obtain ⟨m₀, ready₀, first, second⟩ := opens.opened
  obtain ⟨e₁, entry₁, nonzero₁⟩ := second.nonzero
  have small₁ := opens.ready.tree.upper _ _ _ (by simp) entry₁
  rw [yields_bind]
  refine (instantiate_yields handle (by simp) entry₁ nonzero₁ small₁ (translate virt).pt).mono ?_
    fun _ _ failed => failed
  rintro _ m₂ ⟨rfl, pt, rfl, handle₂, flags₂⟩
  have entry := handle₂.view
  have carried : pt.flags = pager.carried m.memory (translate virt) flags := flags₂.trans flags₁
  have address := handle₂.address
  -- the third entry, whatever is done to it, ends with the address and flags of the page
  have written (a : Allocator) (flags' : Flags)
      (given : largeFlags (m₂.memory pt.location.table (translate virt).pt)
        (pager.carried m.memory (translate virt) flags) = flags')
      (gives : GivesBack (m₂.memory pt.location.table (translate virt).pt) m₂.allocator a) :
      pager.Overwritten kept (translate virt) flags physical m
        ⟨RadixTree.write m₂.memory pt.location.table (translate virt).pt
          (Entry.pack physical flags'), a⟩ :=
    ⟨m₂, _, _, opens, handle₂.table, rfl, by rw [given], gives⟩
  simp only [PointerTable.pageSizeActive, PointerTable.isAllocated, PointerTable.setNewAddress,
    yields_bind, yields_load, yields_pure, yields_ite, yields_store, Entry.any_pageSize,
    Entry.any_stab, handle₂.index]
  split
  next large =>
    exact ⟨trivial, takes, written _ _ (by rw [largeFlags, if_pos large, carried])
      (givesBack_same _ fun both => Bool.false_ne_true (both.1.symm.trans large))⟩
  next small =>
    split
    next marked =>
      simp only [PointerTable.deallocate, yields_bind]
      have small := Bool.eq_false_iff.mpr small
      rw [address]
      refine (freeBlock_yields m₂ _).mono ?_ ?_
      · rintro _ m₃ ⟨memory, freed⟩
        simp only [yields_load, yields_store, yields_pure, memory,
          RadixTree.write_write, handle₂.index]
        refine ⟨trivial, takes, written _ _ ?_ ?_⟩
        · rw [largeFlags, small, if_neg Bool.false_ne_true, if_pos marked, carried]
        · rw [GivesBack, if_pos ⟨small, marked⟩]
          exact freed
      · rintro s m₃ ⟨rfl, refused⟩
        exact Or.inr ⟨takes, Or.inr ⟨opens, _, entry, small, marked, refused⟩⟩
    next unmarked =>
      exact ⟨trivial, takes, written _ _
        (by rw [largeFlags, if_neg small, if_neg unmarked, carried])
        (givesBack_same _ fun both => unmarked both.2)⟩

end Pager

end EmkKernel
