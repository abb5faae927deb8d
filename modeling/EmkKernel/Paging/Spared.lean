import EmkKernel.Paging.Blocks
import EmkKernel.Paging.Upkeep

/-!
# What mapping a page leaves alone

`page_4_kb` writes to the tables of its pager and to fresh pages, so not to frames that are kept
for others. Flags that it does not accept change nothing, and accepted pages of physical memory
leave the upper bits of the entries clear.
-/

namespace EmkKernel

open EStateM

namespace Pager

variable {pager : Pager} {kept : BitVec 64 → Prop} {m m' : Machine} {address : Address}
  {flags : Flags} {q : Path}

/-! ### Frames that are kept for others -/

theorem Opened.spares {rw : Bool} (opened : pager.Opened rw flags q m m')
    (keeps : pager.Keeps kept m) {f : BitVec 64} (others : kept f) : m'.memory f = m.memory f := by
  cases opened with
  | kept _ _ _ _ _ _ untouched => exact untouched f (keeps.apart f others) id
  | linked mb _ returned _ _ untouched =>
    refine untouched f (keeps.apart f others) ?_
    rintro rfl
    exact keeps.stocked.supplies.unused returned (Or.inl others)

theorem Opens.spares (opens : pager.Opens kept address flags m m') (keeps : pager.Keeps kept m)
    {f : BitVec 64} (others : kept f) : m'.memory f = m.memory f := by
  obtain ⟨m₁, ready₁, first, second⟩ := opens.opened
  exact (second.spares (first.keeps ready₁.tree keeps) others).trans (first.spares keeps others)

theorem Prepared.spares (prepared : pager.Prepared kept address flags m m')
    (keeps : pager.Keeps kept m) {f : BitVec 64} (others : kept f) :
    m'.memory f = m.memory f := by
  cases prepared with
  | begun begun =>
    cases begun with
    | nothing _ _ => rfl
    | first _ _ opened _ => exact opened.spares keeps others
  | both opens => exact opens.spares keeps others

theorem Reached.spares (reached : pager.Reached kept address flags m m')
    (keeps : pager.Keeps kept m) {f : BitVec 64} (others : kept f) :
    m'.memory f = m.memory f := by
  obtain ⟨m₁, opens, small⟩ := reached.steps
  have keeps₁ := opens.keeps keeps
  refine Eq.trans ?_ (opens.spares keeps others)
  cases small with
  | opened _ _ _ opened => exact opened.spares keeps₁ others
  | unfolded e unfolded =>
    obtain ⟨mb, returned, _, _, untouched⟩ := unfolded.opened
    refine untouched f (keeps₁.apart f others) ?_
    rintro rfl
    exact keeps₁.stocked.supplies.unused returned (Or.inl others)

/-- `page_4_kb` writes to no frame that is kept for others. -/
theorem page4Kb_spares (keeps : pager.Keeps kept m) (virt : Nat) (physical : BitVec 64)
    (flags : Flags) :
    Yields (pager.page4Kb virt physical flags) m
      (fun _ m' => ∀ f, kept f → m'.memory f = m.memory f)
      fun s m' => s = .panic ∨ ∀ f, kept f → m'.memory f = m.memory f := by
  refine (page4Kb_yields keeps.ready virt physical flags).mono ?_ ?_
  · rintro page m' ⟨_, _, _, m₁, reached, stored⟩ f others
    refine Eq.trans ?_ (reached.spares keeps others)
    exact stored.untouched f ((reached.keeps keeps).apart f others) id
  · rintro s m' (⟨_, rfl⟩ | fails)
    · exact Or.inr fun _ _ => rfl
    · exact fails.after.imp_right fun prepared f others => prepared.spares keeps others

/-! ### Flags that are rejected -/

private theorem page4Kb_rejected {virt : Nat} {physical : BitVec 64}
    (rejected : ¬(tableFlags flags).Accepted) :
    Yields (pager.page4Kb virt physical flags) m (fun _ _ => False) fun _ m' => m' = m := by
  rw [page4Kb_eq, yields_ite, yields_ite]
  split
  next => rfl
  next =>
    rw [if_pos (by simpa [Flags.Accepted] using rejected)]
    rfl

private theorem mapPages_rejected {vaddr paddr start pages : Nat}
    (rejected : ¬(tableFlags flags).Accepted) (positive : 0 < pages) :
    Yields (pager.mapPages vaddr paddr start flags pages) m (fun _ _ => False)
      fun s m' => s = .panic ∨ m' = m := by
  obtain ⟨n, rfl⟩ := Nat.exists_eq_succ_of_ne_zero positive.ne'
  unfold mapPages
  rw [List.range_succ_eq_map]
  -- the first page is rejected already
  refine (yields_bind ..).mpr ?_
  rw [yields_bind]
  refine addU64_yields (fun _ => ?_) (Or.inl rfl)
  rw [yields_bind]
  refine addU64_yields (fun _ => ?_) (Or.inl rfl)
  rw [yields_bind]
  exact (page4Kb_rejected rejected).mono (fun _ _ none => none.elim) fun _ _ same => Or.inr same

theorem mapEfficient_rejected {mb : MemoryBlock} {vaddr : Nat}
    (rejected : ¬(tableFlags flags).Accepted) (positive : 0 < mb.length) :
    Yields (pager.mapEfficient mb vaddr flags) m (fun _ _ => False)
      fun s m' => s = .panic ∨ m' = m := by
  rw [mapEfficient_eq, yields_ite]
  split
  next =>
    refine mapPages_rejected rejected ?_
    unfold pagesOf
    split <;> omega
  next =>
    rw [yields_bind]
    refine (mapPages_rejected rejected ?_).mono (fun _ _ none => none.elim) fun _ _ same => same
    unfold pagesBefore pager2Mib
    omega

theorem page2Mb_rejected {virt : Nat} {physical : BitVec 64} (rejected : ¬flags.Accepted) :
    Yields (pager.page2Mb virt physical flags) m (fun _ _ => False) fun _ m' => m' = m := by
  unfold page2Mb
  rw [yields_ite, yields_ite]
  split
  next => rfl
  next =>
    rw [if_pos (by simpa [Flags.Accepted] using rejected)]
    rfl

/-! ### Entries of physical memory -/

/-- The entries hold nothing but addresses of 52 bits and flags. -/
def InMemory (pager : Pager) (m : Memory) : Prop :=
  ∀ q e, pager.view m q = some e → ∀ k, 52 ≤ k → e.getLsbD k = false

theorem address_lt_of_high {e : Entry} (high : ∀ k, 52 ≤ k → e.getLsbD k = false) :
    e.address.toNat < 2 ^ 52 := by
  have small : e.toNat < 2 ^ 52 := Nat.lt_pow_two_of_testBit _ fun k above => high k above
  rw [Entry.toNat_address]
  omega

private theorem pack_high {a : BitVec 64} {flags : Flags} (small : a.toNat < 2 ^ 52)
    (plain : ∀ k, 12 ≤ k → flags.getLsbD k = false) (k : Nat) (high : 52 ≤ k) :
    (Entry.pack a flags).getLsbD k = false := by
  have clear : a.getLsbD k = false :=
    Nat.testBit_lt_two_pow (small.trans_le (Nat.pow_le_pow_right (by decide) high))
  rw [Entry.getLsbD_pack, clear, plain k (by omega)]
  rfl

theorem Opened.inMemory {rw : Bool} (opened : pager.Opened rw flags q m m')
    (tree : pager.Tree m'.memory) (plain : flags.Plain) (before : pager.InMemory m.memory) :
    pager.InMemory m'.memory := by
  intro r e found k high
  cases opened with
  | kept e' here _ sets _ _ _ =>
    by_cases same : r = q
    · rw [same, sets.here] at found
      obtain rfl := Option.some.inj found
      rw [Entry.getLsbD_granted, before q e' here k high]
      simp
      omega
    · exact before r e ((sets.other r same).symm.trans found) k high
  | linked mb here returned adds tables _ =>
    by_cases same : r = q
    · rw [same, adds.here] at found
      obtain rfl := Option.some.inj found
      have isFrame := tree.frames q _ ((tables q).trans (if_pos rfl))
      rw [Entry.getLsbD_pack, isFrame.high high, plain.stab.high k (by omega)]
      rfl
    by_cases below : ∃ j, r = j :: q
    · obtain ⟨j, rfl⟩ := below
      rw [adds.below] at found
      obtain rfl := Option.some.inj found
      exact BitVec.getLsbD_zero
    · exact before r e ((adds.other r same fun j same => below ⟨j, same⟩).symm.trans found) k high

theorem Stored.inMemory {leaf : Entry} (stored : pager.Stored q leaf m m')
    (high : ∀ k, 52 ≤ k → leaf.getLsbD k = false) (before : pager.InMemory m.memory) :
    pager.InMemory m'.memory := by
  intro r e found
  by_cases same : r = q
  · rw [same, stored.sets.here] at found
    rw [← Option.some.inj found]
    exact high
  · exact before r e ((stored.sets.other r same).symm.trans found)

/-- An unfolded page of physical memory consists of small ones. -/
theorem Unfolded.inMemory {e : Entry} (unfolded : pager.Unfolded q e m m')
    (tree : pager.Tree m'.memory) (aligned : LargeAligned e) (before : pager.InMemory m.memory) :
    pager.InMemory m'.memory := by
  obtain ⟨mb, returned, adds, tables, _⟩ := unfolded.opened
  intro r e' found k high
  have plain := e.smallFlags_plain
  by_cases same : r = q
  · rw [same, adds.here] at found
    obtain rfl := Option.some.inj found
    have isFrame := tree.frames q _ ((tables q).trans (if_pos rfl))
    rw [Entry.getLsbD_pack, isFrame.high high, plain.stab.high k (by omega)]
    rfl
  by_cases below : ∃ j, r = j :: q
  · obtain ⟨j, rfl⟩ := below
    rw [adds.below] at found
    obtain rfl := Option.some.inj found
    have small := address_lt_of_high (before q e unfolded.before)
    refine pack_high ?_ plain.high k high
    have index := j.isLt
    unfold LargeAligned pager2Mib at aligned
    rw [BitVec.toNat_add, BitVec.toNat_ofNat]
    omega
  · exact before r e' ((adds.other r same fun j same => below ⟨j, same⟩).symm.trans found) k high

/-- Every page of physical memory that `page_4_kb` maps keeps the entries so. -/
theorem page4Kb_inMemory {virt : Nat} {physical : BitVec 64} (ready : pager.Ready kept m)
    (wellFormed : pager.WellFormed m.memory) (small : physical.toNat < 2 ^ 52)
    (before : pager.InMemory m.memory) :
    Yields (pager.page4Kb virt physical flags) m (fun _ m' => pager.InMemory m'.memory)
      fun _ _ => True := by
  refine (page4Kb_yields ready virt physical flags).mono ?_ fun _ _ _ => trivial
  rintro page m' ⟨_, takes, _, m₁, reached, stored⟩
  have plain := takes.2.2.plain
  obtain ⟨m₂, opens, third⟩ := reached.steps
  obtain ⟨m₃, ready₃, first, second⟩ := opens.opened
  have opened := second.inMemory opens.ready.tree plain (first.inMemory ready₃.tree plain before)
  refine stored.inMemory (pack_high small (leafFlags_high takes.2.2)) ?_
  cases third with
  | opened _ _ _ last => exact last.inMemory reached.ready.tree plain opened
  | unfolded e unfolded =>
    refine unfolded.inMemory reached.ready.tree ?_ opened
    have nonzero := Entry.ne_zero_of_bit unfolded.large
    exact wellFormed.aligned _ _ e rfl
      (first.old (by simp) (second.old (by simp) unfolded.before nonzero) nonzero)
      unfolded.large

end Pager

end EmkKernel
