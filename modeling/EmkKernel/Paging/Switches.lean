import EmkKernel.Paging.Queries

/-!
# Switching bits of a page

`deactivate`, `activate` and `switch_permission` edit the entry of a small page in place.
The entry of a large page they put together anew, from its address and the flags of the
first entry.
-/

namespace EmkKernel

open EStateM

namespace Entry

private theorem getLsbD_setPresent (e : Entry) (k : Nat) :
    (e ||| 1).getLsbD k = if k = 0 then true else e.getLsbD k := by
  rw [BitVec.getLsbD_or, getLsbD_one]
  split
  next zero => rw [decide_eq_true zero, Bool.or_true]
  next other => rw [decide_eq_false other, Bool.or_false]

private theorem getLsbD_clearPresent (e : Entry) (k : Nat) :
    (e &&& ~~~1).getLsbD k = if k = 0 then false else e.getLsbD k := by
  rw [BitVec.getLsbD_and, BitVec.getLsbD_not, getLsbD_one]
  split
  next zero => simp [zero]
  next other =>
    by_cases inside : k < 64
    · simp [inside, other]
    · simp [BitVec.getLsbD_of_ge e k (by omega)]

private theorem getLsbD_switchUser (e : Entry) (k : Nat) :
    (e ^^^ pagerUs.setWidth 64).getLsbD k = if k = 2 then !e.getLsbD k else e.getLsbD k := by
  rw [BitVec.getLsbD_xor, BitVec.getLsbD_setWidth, getLsbD_us]
  split
  next two => simp [two]
  next other => simp [other]

end Entry

namespace Pager

variable {pager : Pager} {m m' : Machine} {virt : Nat}

variable (pager) in
/-- The memory behind `editPage`, from the table at the second path of the address. -/
def edited (m : Memory) (virt : Nat) (n : BitVec 64) (editFlags : Flags → Flags)
    (editEntry : Entry → Entry) : Memory :=
  let a := translate virt
  let e := m n a.pt
  if e.pageSize then
    RadixTree.write m n a.pt (Entry.pack e.address (editFlags (m pager.cr3 a.pdp).flags))
  else
    RadixTree.write m e.address a.page (editEntry (m e.address a.page))

private theorem editPage_yields (tree : pager.Tree m.memory) (aligned : virt % 0x1000 = 0)
    (editFlags : Flags → Flags) (editEntry : Entry → Entry) :
    Yields (pager.editPage virt editFlags editEntry) m
      (fun _ m' => ∃ n, pager.tableAt m.memory (translate virt).second = some n ∧
        m' = { m with memory := pager.edited m.memory virt n editFlags editEntry })
      (fun s m' => m' = m ∧ s ≠ .panic ∧ pager.view m.memory (translate virt).third = none) := by
  unfold editPage
  rw [yields_ite, if_neg (not_not_intro aligned), yields_bind, yields_load]
  apply third_yields tree
  · intro pt handle flags
    simp only [PointerTable.pageSizeActive, yields_bind, yields_load, yields_pure, yields_ite,
      yields_store, handle.index, Entry.any_pageSize]
    rw [handle.address, flags]
    split
    next large =>
      refine ⟨_, handle.table, ?_⟩
      rw [edited, if_pos large]
    next small =>
      refine ⟨_, handle.table, ?_⟩
      rw [edited, if_neg small]
  · intro none s failed
    exact ⟨rfl, failed, none⟩

theorem editPage_ok (tree : pager.Tree m.memory) (aligned : virt % 0x1000 = 0) {e : Entry}
    (here : pager.view m.memory (translate virt).third = some e)
    (editFlags : Flags → Flags) (editEntry : Entry → Entry) :
    ∃ n, pager.tableAt m.memory (translate virt).second = some n ∧
      m.memory n (translate virt).pt = e ∧ pager.editPage virt editFlags editEntry m =
        .ok () { m with memory := pager.edited m.memory virt n editFlags editEntry } := by
  have outcome := editPage_yields tree aligned editFlags editEntry
  cases ran : pager.editPage virt editFlags editEntry m with
  | error s m' =>
    have none := (outcome.error ran).2.2
    cases here.symm.trans none
  | ok u m' =>
    obtain ⟨n, table, rfl⟩ := outcome.ok ran
    exact ⟨n, table, Option.some.inj ((view_cons table _).symm.trans here), rfl⟩

/-- An address that lies in no page is rejected. -/
theorem editPage_aligned {editFlags : Flags → Flags} {editEntry : Entry → Entry}
    (returned : pager.editPage virt editFlags editEntry m = .ok () m') : virt % 0x1000 = 0 := by
  by_contra unaligned
  have outcome : Yields (pager.editPage virt editFlags editEntry) m (fun _ _ => False)
      fun _ _ => True := by
    unfold editPage
    rw [yields_ite, if_pos unaligned]
    trivial
  exact outcome.ok returned

/-! ### What a switch should do -/

variable (pager m virt) in
/-- The entry that maps an address. -/
def leaf : Path :=
  if (pager.seen m.memory (translate virt).third).pageSize then (translate virt).third
  else (translate virt).fourth

/-- A call changes one bit of the entry that maps an address, and nothing for the pages
that this entry does not map. -/
structure Switches (pager : Pager) (m : Machine) (virt bit : Nat) (f : Bool → Bool)
    (m' : Machine) : Prop where
  leaf : ∀ k, (pager.seen m'.memory (pager.leaf m virt)).getLsbD k =
    if k = bit then f ((pager.seen m.memory (pager.leaf m virt)).getLsbD k)
    else (pager.seen m.memory (pager.leaf m virt)).getLsbD k
  walk : ∀ v, ¬pager.leaf m virt <:+ (translate v).fourth →
    pager.walk m'.memory v = pager.walk m.memory v
  permits : ∀ v write mode, ¬pager.leaf m virt <:+ (translate v).fourth →
    pager.permits m'.memory v write mode = pager.permits m.memory v write mode

structure SwitchesPage (pager : Pager) (m : Machine) (virt : Nat) : Prop where
  restores : ∃ m', pager.deactivate virt m = .ok () m' ∧ pager.activate virt m' = .ok () m
  deactivate : ∃ m', pager.deactivate virt m = .ok () m' ∧
    pager.Switches m virt 0 (fun _ => false) m'
  activate : ∃ m', pager.activate virt m = .ok () m' ∧ pager.Switches m virt 0 (fun _ => true) m'
  permission : ∃ m', pager.switchPermission virt m = .ok () m' ∧
    pager.Switches m virt 2 (fun user => !user) m'

section Small

variable {e : Entry} (tree : pager.Tree m.memory)
  (here : pager.view m.memory (translate virt).third = some e) (nonzero : e ≠ 0)
  (small : e.pageSize = false)

include tree here nonzero small

private theorem editPage_small (aligned : virt % 0x1000 = 0) (editFlags : Flags → Flags)
    (editEntry : Entry → Entry) :
    let table := e.address
    let i := (translate virt).page
    pager.editPage virt editFlags editEntry m =
      .ok ()
        { m with memory := RadixTree.write m.memory table i (editEntry (m.memory table i)) } := by
  obtain ⟨n, _, rfl, ran⟩ := editPage_ok tree aligned here editFlags editEntry
  rw [ran, edited, if_neg (by simp [small])]

/-- The entry of a small page points to no table. -/
theorem write_small (entry : Entry) :
    pager.Tree (RadixTree.write m.memory e.address (translate virt).page entry) ∧
      Sets (pager.view m.memory)
        (pager.view (RadixTree.write m.memory e.address (translate virt).page entry))
        (translate virt).fourth entry := by
  have table := tableAt_of_view here (by simp) nonzero small
  have lowest (e : Entry) : child (translate virt).third.length e = none := child_lowest (by rfl) e
  obtain ⟨tree', sets, _⟩ := tree.set (i := (translate virt).page) table
    ((lowest entry).trans (lowest _).symm) fun above => absurd above (by simp)
  exact ⟨tree', sets⟩

private theorem write_small_other (entry : Entry) {v : Nat}
    (other : (translate v).fourth ≠ (translate virt).fourth) :
    let memory := RadixTree.write m.memory e.address (translate virt).page entry
    pager.walk memory v = pager.walk m.memory v ∧
      ∀ write mode, pager.permits memory v write mode = pager.permits m.memory v write mode := by
  obtain ⟨tree', sets⟩ := write_small tree here nonzero small entry
  have seen (r : Path) (apart : r ≠ (translate virt).fourth) := (sets.seen r).trans (if_neg apart)
  have agree := agree_of_eq (a := translate v) (seen _ (by simp [Address.first, Address.fourth]))
    (seen _ (by simp [Address.second, Address.fourth]))
    (seen _ (by simp [Address.third, Address.fourth])) (seen _ other)
  constructor
  · rw [walk_eq tree', walk_eq tree, agree.translation]
  · intro write mode
    rw [permits, permits, ← (agree_seen tree' _).everyLevel fun _ => present_of_suits,
      ← (agree_seen tree _).everyLevel fun _ => present_of_suits,
      agree.everyLevel fun _ => present_of_suits]

theorem switches_small {edit : Entry → Entry} {bit : Nat} {f : Bool → Bool}
    (edits : ∀ e k, (edit e).getLsbD k = if k = bit then f (e.getLsbD k) else e.getLsbD k) :
    let table := e.address
    let i := (translate virt).page
    pager.Switches m virt bit f
      { m with memory := RadixTree.write m.memory table i (edit (m.memory table i)) } := by
  have sets := (write_small tree here nonzero small
    (edit (m.memory e.address (translate virt).page))).2
  have old := seen_fourth here nonzero small
  have leaf : pager.leaf m virt = (translate virt).fourth := by
    rw [Pager.leaf, seen_of_view here, if_neg (by simp [small])]
  have other (v : Nat) (outside : ¬pager.leaf m virt <:+ (translate v).fourth) :=
    write_small_other (v := v) tree here nonzero small
      (edit (m.memory e.address (translate virt).page)) fun same => outside (by rw [leaf, same])
  refine ⟨fun k => ?_, fun v outside => (other v outside).1,
    fun v write mode outside => (other v outside).2 write mode⟩
  rw [leaf, sets.seen, if_pos rfl, old, edits]

end Small

/-- The first entry has no `PS`, so the entry of a large page loses it. -/
theorem not_switches_large {e : Entry} (tree : pager.Tree m.memory)
    (here : pager.view m.memory (translate virt).third = some e) (large : e.pageSize = true)
    (aligned : virt % 0x1000 = 0) {editEntry : Entry → Entry} {f : Bool → Bool} :
    ¬∃ m', pager.editPage virt (fun flags => flags &&& ~~~1) editEntry m = .ok () m' ∧
      pager.Switches m virt 0 f m' := by
  rintro ⟨m', ran, switches⟩
  obtain ⟨n, table, found, ran'⟩ := editPage_ok tree aligned here _ editEntry
  cases ran.symm.trans ran'
  have kept := switches.leaf 7
  have leaf : pager.leaf m virt = (translate virt).third := by
    rw [Pager.leaf, seen_of_view here, if_pos large]
  have first : (m.memory pager.cr3 (translate virt).pdp).getLsbD 7 = false :=
    tree.upper _ [] _ (by simp) (view_cons rfl _)
  have written (entry : Entry) :
      pager.view (RadixTree.write m.memory n (translate virt).pt entry) (translate virt).third =
        some entry := RadixTree.entry_write_self entry tree.distinct table
  rw [leaf, seen_of_view here, if_neg (by decide)] at kept
  have now : (pager.seen (pager.edited m.memory virt n (fun flags => flags &&& ~~~1) editEntry)
      (translate virt).third).getLsbD 7 = false := by
    rw [edited, found, if_pos large, seen_of_view (written _), Entry.getLsbD_pack,
      Entry.getLsbD_address, BitVec.getLsbD_and, Entry.getLsbD_flags, first]
    rfl
  exact Bool.false_ne_true (now.symm.trans (kept.trans large))

/-- A page that is present is restored by clearing the bit and setting it again. -/
theorem restores_small {e : Entry} (tree : pager.Tree m.memory)
    (here : pager.view m.memory (translate virt).third = some e) (nonzero : e ≠ 0)
    (small : e.pageSize = false) (aligned : virt % 0x1000 = 0)
    (present : (pager.seen m.memory (translate virt).fourth).present = true) :
    ∃ m', pager.deactivate virt m = .ok () m' ∧ pager.activate virt m' = .ok () m := by
  refine ⟨_, editPage_small tree here nonzero small aligned _ _, ?_⟩
  obtain ⟨tree', sets⟩ := write_small tree here nonzero small
    (m.memory e.address (translate virt).page &&& ~~~1)
  have here' := (sets.other (translate virt).third (by simp [Address.third, Address.fourth])).trans
      here
  rw [seen_fourth here nonzero small] at present
  have same : m.memory e.address (translate virt).page &&& ~~~1 ||| 1 =
      m.memory e.address (translate virt).page := by
    apply BitVec.eq_of_getLsbD_eq
    intro k _
    rw [Entry.getLsbD_setPresent, Entry.getLsbD_clearPresent]
    split
    next zero => rw [zero, ← present, Entry.present]
    next => rfl
  refine (editPage_small tree' here' nonzero small aligned _ _).trans ?_
  simp only [RadixTree.write_write, RadixTree.write_apply, and_self, if_true, same,
    RadixTree.write_self]

/-- The calls switch their bit alone exactly in the entries of small pages. -/
theorem switchesPage_iff (tree : pager.Tree m.memory) (mapped : pager.walk m.memory virt ≠ none) :
    pager.SwitchesPage m virt ↔ virt % 0x1000 = 0 ∧
      (pager.seen m.memory (translate virt).third).pageSize = false := by
  have third : (pager.seen m.memory (translate virt).third).present = true := by
    rw [walk_eq tree, translation] at mapped
    split at mapped
    next present => exact (everyLevel_present present).2.2
    next => exact absurd rfl mapped
  have nonzero := Entry.ne_zero_of_bit third
  cases here : pager.view m.memory (translate virt).third with
  | none =>
    rw [seen, here] at third
    cases third
  | some e =>
    rw [seen_of_view here] at nonzero ⊢
    constructor
    · intro switches
      obtain ⟨m', ran, clears⟩ := switches.deactivate
      have aligned := editPage_aligned ran
      refine ⟨aligned, ?_⟩
      by_contra large
      exact not_switches_large tree here (by simpa using large) aligned ⟨m', ran, clears⟩
    · rintro ⟨aligned, small⟩
      have edit := editPage_small tree here nonzero small aligned
      have fourth : (pager.seen m.memory (translate virt).fourth).present = true := by
        rw [walk_eq tree] at mapped
        by_contra absent
        exact mapped (translation_none_small (by rw [seen_of_view here, small])
          (by simpa using absent))
      refine ⟨restores_small tree here nonzero small aligned fourth,
        ⟨_, edit _ _, ?_⟩, ⟨_, edit _ _, ?_⟩, ⟨_, edit _ _, ?_⟩⟩
      · exact switches_small (f := fun _ => false) tree here nonzero small
          Entry.getLsbD_clearPresent
      · exact switches_small (f := fun _ => true) tree here nonzero small Entry.getLsbD_setPresent
      · exact switches_small tree here nonzero small Entry.getLsbD_switchUser

/-- A page that is just mapped. -/
theorem switchesPage_iff_plain : ∃ page m,
    plainPager.page4Kb 0x400000 0x7000 7 plainMachine = .ok page m ∧
      plainPager.SwitchesPage m 0x400000 := by
  have ran : ((plainPager.page4Kb 0x400000 0x7000 7).state? plainMachine).any (fun m =>
      (plainPager.walk m.memory 0x400000).isSome &&
        !(plainPager.seen m.memory (translate 0x400000).third).pageSize) = true := by decide +kernel
  obtain ⟨m, ended, checked⟩ := (Option.any_eq_true _ _).1 ran
  obtain ⟨page, returned⟩ := ok_of_state? ended
  simp only [Bool.and_eq_true, Bool.not_eq_true'] at checked
  have tree := page4Kb_tree (plainFresh.tree.ready plainAllocator_supplies)
    (Or.inl ⟨page, returned⟩)
  have mapped := Option.isSome_iff_ne_none.mp checked.1
  exact ⟨page, m, returned, (switchesPage_iff tree mapped).mpr ⟨by decide, checked.2⟩⟩

/-- A large page is no longer one behind `deactivate`. -/
theorem not_switchesPage_large : ∃ page m,
    plainPager.page2Mb 0x400000 0x600000 3 plainMachine = .ok page m ∧
      plainPager.Tree m.memory ∧ plainPager.walk m.memory 0x400000 ≠ none ∧
      ¬plainPager.SwitchesPage m 0x400000 := by
  have ran : ((plainPager.page2Mb 0x400000 0x600000 3).state? plainMachine).any (fun m =>
      (plainPager.walk m.memory 0x400000).isSome &&
        (plainPager.view m.memory (translate 0x400000).third).any Entry.pageSize) = true := by
    decide +kernel
  obtain ⟨m, ended, checked⟩ := (Option.any_eq_true _ _).1 ran
  obtain ⟨page, returned⟩ := ok_of_state? ended
  rw [Bool.and_eq_true] at checked
  obtain ⟨e, here, large⟩ := (Option.any_eq_true _ _).1 checked.2
  have slot : (plainPager.seen plainMachine.memory (translate 0x400000).third).pageSize =
      false := by
    decide +kernel
  have tree := page2Mb_tree (plainFresh.tree.ready plainAllocator_supplies) slot
    (Or.inl ⟨page, returned⟩)
  refine ⟨page, m, returned, tree, Option.isSome_iff_ne_none.mp checked.1, fun switches => ?_⟩
  exact not_switches_large tree here large (by decide) switches.deactivate

end Pager

end EmkKernel
