import EmkKernel.Paging.Queries
import EmkKernel.Paging.Release

/-!
# Unmapping a page

`unpage_4k` makes an entry zero. Where the third entry is zero there is no table behind it,
and the call makes an entry of frame 0 zero instead, or panics if that is the first one.
-/

namespace EmkKernel

open EStateM

namespace Pager

variable {pager : Pager} {m : Memory} {p : Path} {i : Index} {n : BitVec 64}

/-- Nothing is translated through an entry that becomes zero. -/
theorem walk_cut (tree : pager.Tree m) (here : pager.tableAt m p = some n) (v : Nat) :
    pager.walk (RadixTree.write m n i 0) v =
      if i :: p <:+ (translate v).fourth then none else pager.walk m v := by
  obtain ⟨tree', self', below, other⟩ := tree.cut (i := i) here
  rw [walk_eq tree', walk_eq tree]
  split
  next through =>
    have zero (r : Path) (inside : i :: p <:+ r) :
        pager.seen (RadixTree.write m n i 0) r = 0 := by
      cases r with
      | nil => rfl
      | cons j r =>
        rw [seen]
        rcases List.suffix_cons_iff.mp inside with same | deeper
        · rw [← same, self', Option.getD_some]
        · rw [below j r deeper, Option.getD_none]
    have absent (r : Path) (inside : i :: p <:+ r) :
        (pager.seen (RadixTree.write m n i 0) r).present = false := by
      rw [zero r inside]
      rfl
    have fourth : (translate v).fourth = (translate v).page :: (translate v).third := rfl
    rw [fourth, List.suffix_cons_iff] at through
    rcases through with last | upper
    · -- the entry of the page itself, below a table
      obtain ⟨rfl, rfl⟩ := List.cons.inj last
      obtain ⟨e, above, _, _, small, _⟩ := tableAt_of_cons here
      have kept := other (translate v).third fun inside => by
        have longer := inside.length_le
        rw [List.length_cons] at longer
        omega
      apply translation_none_small
      · rw [seen_of_view (kept.trans above), small]
      · exact absent _ (List.suffix_refl _)
    · exact translation_none (Or.inr (Or.inr (absent _ upper)))
  next outside =>
    have same {r : Path} (above : r <:+ (translate v).fourth) :
        pager.seen (RadixTree.write m n i 0) r = pager.seen m r := by
      rw [seen, seen, other r fun inside => outside (inside.trans above)]
    apply Agree.translation
    apply agree_of_eq
    · exact same (by simp [Address.first, Address.fourth, List.suffix_cons_iff])
    · exact same (by simp [Address.second, Address.fourth, List.suffix_cons_iff])
    · exact same (List.suffix_cons _ _)
    · exact same (List.suffix_refl _)

section Unpage

variable {m m' : Machine} {virt : Nat}

/-- The entry that `unpage_4k` is about to write is at address 0. -/
def AtNull (pager : Pager) (m : Machine) (virt : Nat) : Prop :=
  ∃ e, pager.view m.memory (translate virt).third = some e ∧ e.pageSize = false ∧
    e.address = 0 ∧ (translate virt).page.val = 0

/-- `unpage_4k` writes a zero behind the third entry. -/
theorem unpage4K_yields (tree : pager.Tree m.memory) (aligned : virt % 0x1000 = 0) :
    Yields (pager.unpage4K virt) m
      (fun _ m' => ¬pager.AtNull m virt ∧ ∃ e,
        pager.view m.memory (translate virt).third = some e ∧ e.pageSize = false ∧
        m' = { m with memory := RadixTree.write m.memory e.address (translate virt).page 0 })
      (fun s m' => m' = m ∧ (s = .panic ∧ pager.AtNull m virt ∨ s ≠ .panic ∧
        ∀ e, pager.view m.memory (translate virt).third = some e → e.pageSize = true)) := by
  unfold unpage4K
  rw [yields_ite, if_neg (not_not_intro aligned)]
  apply third_yields tree
  · intro pt handle _
    simp only [PointerTable.pageSizeActive, yields_bind, yields_load, yields_pure, yields_ite,
      yields_store, yields_throw, handle.index, Entry.any_pageSize]
    rw [handle.address]
    split
    next large =>
      refine ⟨trivial, Or.inr ⟨by simp, fun e here => ?_⟩⟩
      rw [← Option.some.inj (handle.view.symm.trans here)]
      exact large
    next small =>
      split
      next null =>
        exact ⟨trivial, Or.inl ⟨trivial, _, handle.view, by simpa using small, null⟩⟩
      next inside =>
        refine ⟨?_, _, handle.view, by simpa using small, rfl⟩
        rintro ⟨e, here, _, null⟩
        obtain rfl := Option.some.inj (handle.view.symm.trans here)
        exact inside null
  · intro none s failed
    refine ⟨rfl, Or.inr ⟨failed, fun e here => ?_⟩⟩
    cases none.symm.trans here

/-- `unpage_4k` writes only to tables, maps the page no more or reports an error without a
change, and leaves every other page alone. -/
structure Unpages (pager : Pager) (m : Machine) (virt : Nat) : Prop where
  tables : ∀ m', Ends (pager.unpage4K virt) m m' →
    ∀ f i, m'.memory f i ≠ m.memory f i → pager.IsTable m.memory f
  unmapped : (∃ m', pager.unpage4K virt m = .ok () m' ∧ pager.walk m'.memory virt = none) ∨
    ∃ e, pager.unpage4K virt m = .error (.err e) m
  others : ∀ m', Ends (pager.unpage4K virt) m m' →
    ∀ v, (translate v).fourth ≠ (translate virt).fourth →
      pager.walk m'.memory v = pager.walk m.memory v

/-- The entry that is written is not the one at address 0. Where the third entry is zero, the
entry of frame 0 that is written is zero already, or one of a table through which no page is
translated. -/
def SparesFrame0 (pager : Pager) (m : Machine) (virt : Nat) : Prop :=
  virt % 0x1000 = 0 → ¬pager.AtNull m virt ∧
    (pager.view m.memory (translate virt).third = some 0 →
      m.memory 0 (translate virt).page = 0 ∨
      pager.IsTable m.memory 0 ∧ ∀ p v, pager.tableAt m.memory p = some 0 →
        (translate virt).page :: p <:+ (translate v).fourth → pager.walk m.memory v = none)

theorem unpage4K_rejects (unaligned : virt % 0x1000 ≠ 0) :
    pager.unpage4K virt m = .error (.err .invalidAddress) m := by
  unfold unpage4K
  rw [if_pos unaligned]
  rfl

private theorem unpages_of_error {e : MemoryResult}
    (failed : pager.unpage4K virt m = .error (.err e) m) : pager.Unpages m virt := by
  have same {m' : Machine} (ends : Ends (pager.unpage4K virt) m m') : m' = m := by
    rcases ends with ⟨u, ran⟩ | ⟨e', ran⟩
    · cases failed.symm.trans ran
    · cases failed.symm.trans ran
      rfl
  refine ⟨fun m' ends f i changed => ?_, Or.inr ⟨e, failed⟩, fun m' ends v _ => ?_⟩
  · rw [same ends] at changed
    exact absurd rfl changed
  · rw [same ends]

/-- A call that panics neither unmaps the page nor reports an error. -/
theorem not_unpages_of_panic (panicked : pager.unpage4K virt m = .error .panic m') :
    ¬pager.Unpages m virt := by
  intro unpages
  rcases unpages.unmapped with ⟨m₁, ran, _⟩ | ⟨e, failed⟩
  · cases panicked.symm.trans ran
  · cases panicked.symm.trans failed

private theorem unpages_iff_of_ok (returned : pager.unpage4K virt m = .ok () m') :
    pager.Unpages m virt ↔
      (∀ f i, m'.memory f i ≠ m.memory f i → pager.IsTable m.memory f) ∧
      pager.walk m'.memory virt = none ∧
      ∀ v, (translate v).fourth ≠ (translate virt).fourth →
        pager.walk m'.memory v = pager.walk m.memory v := by
  have ends : Ends (pager.unpage4K virt) m m' := Or.inl ⟨(), returned⟩
  have same {m₁ : Machine} (ends : Ends (pager.unpage4K virt) m m₁) : m₁ = m' := by
    rcases ends with ⟨u, ran⟩ | ⟨e, ran⟩
    · cases returned.symm.trans ran
      rfl
    · cases returned.symm.trans ran
  constructor
  · intro unpages
    refine ⟨unpages.tables m' ends, ?_, unpages.others m' ends⟩
    rcases unpages.unmapped with ⟨m₁, ran, none⟩ | ⟨e, failed⟩
    · rwa [same (Or.inl ⟨(), ran⟩)] at none
    · cases returned.symm.trans failed
  · rintro ⟨tables, none, others⟩
    refine ⟨fun m₁ ends => ?_, Or.inl ⟨m', returned, none⟩, fun m₁ ends => ?_⟩
    · rw [same ends]
      exact tables
    · rw [same ends]
      exact others

private theorem eq_of_write_ne {m : Memory} {n : BitVec 64} {i : Index} {e : Entry} {f : BitVec 64}
    {j : Index} (changed : RadixTree.write m n i e f j ≠ m f j) : f = n ∧ j = i := by
  rw [RadixTree.write_apply] at changed
  split at changed
  next same => exact same
  next => exact absurd rfl changed

/-- Nothing is translated through a third entry of zero. -/
theorem walk_of_third_zero (tree : pager.Tree m.memory) {v : Nat}
    (here : pager.view m.memory (translate v).third = some 0) : pager.walk m.memory v = none := by
  rw [walk_eq tree]
  apply translation_none
  rw [seen_of_view here]
  exact Or.inr (Or.inr rfl)

/-- A store through a third entry of zero does what the call should do exactly if it changes
nothing, or an entry of a table through which no page is translated. -/
theorem unpages_iff_zero (tree : pager.Tree m.memory)
    (here : pager.view m.memory (translate virt).third = some 0)
    (returned : pager.unpage4K virt m =
      .ok () { m with memory := RadixTree.write m.memory 0 (translate virt).page 0 }) :
    pager.Unpages m virt ↔ m.memory 0 (translate virt).page = 0 ∨
      pager.IsTable m.memory 0 ∧ ∀ p v, pager.tableAt m.memory p = some 0 →
        (translate virt).page :: p <:+ (translate v).fourth → pager.walk m.memory v = none := by
  have none := walk_of_third_zero tree here
  rw [unpages_iff_of_ok returned]
  dsimp only
  by_cases zero : m.memory 0 (translate virt).page = 0
  · refine iff_of_true ?_ (Or.inl zero)
    have same := RadixTree.write_self m.memory 0 (translate virt).page
    rw [zero] at same
    rw [same]
    exact ⟨fun f i changed => absurd rfl changed, none, fun v _ => rfl⟩
  · rw [or_iff_right zero]
    constructor
    · rintro ⟨tables, _, others⟩
      refine ⟨tables 0 (translate virt).page ?_, fun p v table through => ?_⟩
      · rw [RadixTree.write_apply, if_pos ⟨rfl, rfl⟩]
        exact Ne.symm zero
      · by_cases same : (translate v).fourth = (translate virt).fourth
        · apply walk_of_third_zero tree
          rwa [show (translate v).third = (translate virt).third from (List.cons.inj same).2]
        · rw [← others v same, walk_cut tree table, if_pos through]
    · rintro ⟨⟨p, table⟩, unmapped⟩
      have kept (v : Nat) : pager.walk (RadixTree.write m.memory 0 (translate virt).page 0) v =
          pager.walk m.memory v := by
        rw [walk_cut tree table]
        split
        next through => rw [unmapped p v table through]
        next => rfl
      refine ⟨fun f i changed => ?_, (kept virt).trans none, fun v _ => kept v⟩
      rw [(eq_of_write_ne changed).1]
      exact ⟨p, table⟩

/-- The call does what it should exactly where it neither panics nor writes to frame 0 in place
of a table. -/
theorem unpages_iff (tree : pager.Tree m.memory) :
    pager.Unpages m virt ↔ pager.SparesFrame0 m virt := by
  by_cases aligned : virt % 0x1000 = 0
  · have outcome := unpage4K_yields tree aligned
    cases ran : pager.unpage4K virt m with
    | error s m' =>
      obtain ⟨rfl, ⟨rfl, null⟩ | ⟨failed, large⟩⟩ := outcome.error ran
      · exact iff_of_false (not_unpages_of_panic ran) fun spares => (spares aligned).1 null
      · refine iff_of_true ?_ fun _ => ⟨?_, fun here => ?_⟩
        · cases s with
          | panic => exact absurd rfl failed
          | err e => exact unpages_of_error ran
        · rintro ⟨e, here, small, _⟩
          exact Bool.false_ne_true (small.symm.trans (large e here))
        · cases large 0 here
    | ok u m' =>
      obtain ⟨inside, e, here, small, rfl⟩ := outcome.ok ran
      by_cases zero : e = 0
      · subst zero
        rw [unpages_iff_zero tree here ran]
        exact ⟨fun spares _ => ⟨inside, fun _ => spares⟩, fun spares => (spares aligned).2 here⟩
      · -- the entry is one of the lowest table of the address
        have table := tableAt_of_view here (by simp) zero small
        have walk (v : Nat) := walk_cut (i := (translate virt).page) tree table v
        refine iff_of_true ((unpages_iff_of_ok ran).mpr ⟨fun f i changed => ?_, ?_,
          fun v other => ?_⟩)
          fun _ => ⟨inside, fun here' => ?_⟩
        · rw [(eq_of_write_ne changed).1]
          exact ⟨_, table⟩
        · rw [walk, if_pos]
          exact List.suffix_refl _
        · rw [walk, if_neg]
          intro through
          exact other (through.eq_of_length rfl).symm
        · exact absurd (Option.some.inj (here.symm.trans here')) zero
  · exact iff_of_true (unpages_of_error (unpage4K_rejects aligned)) fun aligned' =>
      absurd aligned' aligned

end Unpage

/-! ### A page beside one that is mapped -/

/-- Frame 0 holds data. -/
def usedMachine : Machine := ⟨fun f _ => if f = 0 then 1 else 0, lentAllocator⟩

private theorem usedFresh : lentPager.Fresh usedMachine.memory := ⟨by decide, fun _ => rfl⟩

private theorem usedMachine_keeps : lentPager.Keeps (· = 0) usedMachine := by
  refine ⟨usedFresh.tree, ?_, ⟨lentAllocator_stocked.current, lentAllocator_stocked.freeable, ?_⟩,
    ?_⟩
  · rintro f rfl isTable
    exact absurd (usedFresh.isTable_iff.mp isTable) (by decide)
  · rintro k reach clear (zero | isTable)
    · have small : k < 64 := reach
      have value : (0x100000 + k * 0x1000) % 2 ^ 64 = 0 := congrArg BitVec.toNat zero
      omega
    · exact lentAllocator_stocked.unused k reach clear (usedFresh.isTable_iff.mp isTable)
  · intro i p e _ found _ marked
    rw [usedFresh.view found] at marked
    cases marked

/-- A page that is mapped is mapped no more. -/
theorem unpages_iff_lent : ∃ page m,
    lentPager.page4Kb 0x400000 0x7000 3 usedMachine = .ok page m ∧
      lentPager.Unpages m 0x400000 := by
  have ran : ((lentPager.page4Kb 0x400000 0x7000 3).state? usedMachine).any (fun m =>
      (lentPager.view m.memory (translate 0x400000).third).any (·.address ≠ 0)) = true := by
    decide +kernel
  obtain ⟨m, ended, checked⟩ := (Option.any_eq_true _ _).1 ran
  obtain ⟨page, returned⟩ := ok_of_state? ended
  have tree := page4Kb_tree usedMachine_keeps.ready (Or.inl ⟨page, returned⟩)
  obtain ⟨e, here, nonzero⟩ := (Option.any_eq_true _ _).1 checked
  have pointer : e.address ≠ 0 := of_decide_eq_true nonzero
  refine ⟨page, m, returned, (unpages_iff tree).mpr fun _ => ⟨?_, fun zero => ?_⟩⟩
  · rintro ⟨e', here', _, null, _⟩
    obtain rfl := Option.some.inj (here.symm.trans here')
    exact pointer null
  · obtain rfl := Option.some.inj (here.symm.trans zero)
    exact absurd rfl pointer

/-- Below a third entry of zero, the second quadword of the memory is overwritten. -/
theorem not_unpages_beside : ∃ page m,
    lentPager.page4Kb 0x400000 0x7000 3 usedMachine = .ok page m ∧
      lentPager.Tree m.memory ∧ ¬lentPager.Unpages m 0x601000 := by
  have ran : ((lentPager.page4Kb 0x400000 0x7000 3).state? usedMachine).any (fun m =>
      ((lentPager.unpage4K 0x601000).state? m).any fun m' => m'.memory 0 1 ≠ m.memory 0 1) =
      true := by decide +kernel
  obtain ⟨m, ended, checked⟩ := (Option.any_eq_true _ _).1 ran
  obtain ⟨page, returned⟩ := ok_of_state? ended
  obtain ⟨m', ended', changed⟩ := (Option.any_eq_true _ _).1 checked
  obtain ⟨_, removed⟩ := ok_of_state? ended'
  obtain ⟨_, _, ready, m₁, reached, stored⟩ :=
    (page4Kb_yields usedMachine_keeps.ready 0x400000 0x7000 3).ok returned
  have keeps := stored.keeps ready.tree rfl (reached.keeps usedMachine_keeps)
  refine ⟨page, m, returned, keeps.tree, fun unpages => ?_⟩
  exact keeps.apart 0 rfl (unpages.tables m' (Or.inl ⟨_, removed⟩) 0 1 (of_decide_eq_true changed))

end Pager

end EmkKernel
