import EmkKernel.Paging.Stock

/-!
# Pagers over a stock of pages

A pager keeps its tables apart from the stock of its allocator: a new table comes out
of the stock, and a table that is marked as allocated can be given back. Every edit of
the tree and every call that maps a page keeps this, also when it fails.
-/

namespace EmkKernel

open EStateM

namespace Pager

/-- The tables are a tree of frames that are not kept for others, the stock is neither of
both, and marked tables are lent by the allocator. -/
structure Keeps (pager : Pager) (kept : BitVec 64 → Prop) (m : Machine) : Prop where
  tree : pager.Tree m.memory
  apart : ∀ f, kept f → ¬pager.IsTable m.memory f
  stocked : m.allocator.Stocked fun f => kept f ∨ pager.IsTable m.memory f
  lends : ∀ i p e, p.length < 3 → pager.view m.memory (i :: p) = some e →
    e.pageSize = false → e.stabAllocated = true → m.allocator.Lent e.address

variable {pager : Pager} {kept : BitVec 64 → Prop} {m m' : Machine} {q : Path} {e : Entry}
  {flags : Flags} {rw : Bool} {address : Address}

theorem Keeps.ready (keeps : pager.Keeps kept m) : pager.Ready kept m :=
  ⟨keeps.tree, keeps.stocked.supplies⟩

/-! ### Edits of the tree -/

/-- An entry is overwritten that points where it pointed. -/
theorem Keeps.set (keeps : pager.Keeps kept m) (tree : pager.Tree m'.memory)
    (sets : Sets (pager.view m.memory) (pager.view m'.memory) q e)
    (tables : ∀ r, pager.tableAt m'.memory r = pager.tableAt m.memory r)
    (allocator : m'.allocator = m.allocator)
    (own : ∀ i p, i :: p = q → p.length < 3 → e.pageSize = false → e.stabAllocated = true →
      m.allocator.Lent e.address) : pager.Keeps kept m' := by
  have older (f : BitVec 64) (isTable : pager.IsTable m'.memory f) :
      pager.IsTable m.memory f := by
    obtain ⟨r, reached⟩ := isTable
    exact ⟨r, (tables r).symm.trans reached⟩
  refine ⟨tree, fun f others isTable => keeps.apart f others (older f isTable), ?_,
    fun i p e' shallow found small marked => ?_⟩
  · rw [allocator]
    exact keeps.stocked.mono fun f used => used.imp_right (older f)
  · rw [allocator]
    by_cases here : i :: p = q
    · obtain rfl : e = e' := Option.some.inj (sets.here.symm.trans (here ▸ found))
      exact own i p here shallow small marked
    · exact keeps.lends i p e' shallow ((sets.other _ here).symm.trans found) small marked

/-- A page out of the stock becomes the table of an entry. -/
theorem Keeps.add {k : Nat} {content : Index → Entry} (keeps : pager.Keeps kept m)
    (tree : pager.Tree m'.memory) (grants : m.allocator.Grants m'.allocator k)
    (adds : Adds (pager.view m.memory) (pager.view m'.memory) q e content)
    (tables : ∀ r, pager.tableAt m'.memory r =
      if r = q then some (m.allocator.frameOf k) else pager.tableAt m.memory r)
    (below : q.length < 3 → ∀ j, content j = 0) : pager.Keeps kept m' := by
  have older (f : BitVec 64) (isTable : pager.IsTable m'.memory f) :
      pager.IsTable m.memory f ∨ f = m.allocator.frameOf k := by
    obtain ⟨r, reached⟩ := isTable
    rw [tables] at reached
    split at reached
    next => exact Or.inr (Option.some.inj reached).symm
    next => exact Or.inl ⟨r, reached⟩
  obtain ⟨reached, clear⟩ := Allocator.mem_stock.mp grants.member
  refine ⟨tree, fun f others isTable => ?_, ?_, fun i p e' shallow found small marked => ?_⟩
  · rcases older f isTable with old | rfl
    · exact keeps.apart f others old
    · exact keeps.stocked.unused k reached clear (Or.inl others)
  · refine (keeps.stocked.grant grants).mono fun f used => ?_
    rcases used with others | isTable
    · exact Or.inl (Or.inl others)
    · exact (older f isTable).imp_left Or.inr
  · by_cases here : i :: p = q
    · -- the entry of the new table
      obtain ⟨e₁, entry, _, _, _, points⟩ := tableAt_of_cons ((tables (i :: p)).trans (if_pos here))
      obtain rfl := Option.some.inj (found.symm.trans entry)
      rw [points]
      exact keeps.stocked.lent_of_grants grants
    by_cases inside : ∃ j, i :: p = j :: q
    · -- an entry of the new table
      obtain ⟨j, same⟩ := inside
      have length : p.length = q.length := congrArg List.length (List.cons.inj same).2
      rw [same, adds.below, below (length ▸ shallow) j] at found
      obtain rfl := Option.some.inj found
      cases marked
    · exact grants.lent (keeps.lends i p e' shallow
        ((adds.other _ here fun j same => inside ⟨j, same⟩).symm.trans found) small marked)

theorem Opened.keeps (opened : pager.Opened rw flags q m m') (tree : pager.Tree m'.memory)
    (keeps : pager.Keeps kept m) : pager.Keeps kept m' := by
  cases opened with
  | kept e before nonzero sets tables allocator untouched =>
    refine keeps.set tree sets tables allocator fun i p here shallow small marked => ?_
    rw [Entry.address_granted]
    rw [Entry.pageSize_granted] at small
    rw [Entry.stabAllocated_granted] at marked
    exact keeps.lends i p e shallow (here ▸ before) small marked
  | linked mb before returned adds tables untouched =>
    obtain ⟨k, grants, frame⟩ := keeps.stocked.grants returned
    exact keeps.add tree grants adds (frame ▸ tables) fun _ _ => rfl

theorem Unfolded.keeps (unfolded : pager.Unfolded q e m m') (tree : pager.Tree m'.memory)
    (lowest : q.length = 3) (keeps : pager.Keeps kept m) : pager.Keeps kept m' := by
  obtain ⟨mb, returned, adds, tables, _⟩ := unfolded.opened
  obtain ⟨k, grants, frame⟩ := keeps.stocked.grants returned
  exact keeps.add tree grants adds (frame ▸ tables) fun above => by omega

theorem Stored.keeps (stored : pager.Stored q e m m') (tree : pager.Tree m'.memory)
    (lowest : q.length = 4) (keeps : pager.Keeps kept m) : pager.Keeps kept m' := by
  refine keeps.set tree stored.sets stored.tables stored.allocator fun i p here shallow => ?_
  rw [← here, List.length_cons] at lowest
  omega

theorem Opens.keeps (opens : pager.Opens kept address flags m m') (keeps : pager.Keeps kept m) :
    pager.Keeps kept m' := by
  obtain ⟨m₁, ready₁, first, second⟩ := opens.opened
  exact second.keeps opens.ready.tree (first.keeps ready₁.tree keeps)

theorem Begun.keeps (begun : pager.Begun kept address flags m m') (keeps : pager.Keeps kept m) :
    pager.Keeps kept m' := by
  cases begun with
  | nothing ready missing => exact keeps
  | first _ ready opened missing => exact opened.keeps ready.tree keeps

theorem Prepared.keeps (prepared : pager.Prepared kept address flags m m')
    (keeps : pager.Keeps kept m) : pager.Keeps kept m' := by
  cases prepared with
  | begun begun => exact begun.keeps keeps
  | both opens => exact opens.keeps keeps

theorem Reached.keeps (reached : pager.Reached kept address flags m m')
    (keeps : pager.Keeps kept m) : pager.Keeps kept m' := by
  obtain ⟨m₁, opens, small⟩ := reached.steps
  cases small with
  | opened e _ _ opened => exact opened.keeps reached.ready.tree (opens.keeps keeps)
  | unfolded e unfolded => exact unfolded.keeps reached.ready.tree rfl (opens.keeps keeps)

/-! ### The entry of a large page -/

/-- A large page in the slot hides the table that was there. -/
theorem Replaced.tables {m m' : Memory} {leaf : Entry}
    (replaced : pager.Replaced address e leaf m m') (small : e.pageSize = false)
    (large : leaf.pageSize = true) (r : Path) (f : BitVec 64) :
    pager.tableAt m' r = some f ↔ r ≠ address.third ∧ pager.tableAt m r = some f := by
  cases r with
  | nil => exact ⟨fun root => ⟨(List.cons_ne_nil _ _).symm, root⟩, fun root => root.2⟩
  | cons i p =>
    by_cases here : i :: p = address.third
    · refine ⟨fun reached => ?_, fun other => absurd here other.1⟩
      rw [tableAt_cons, here, replaced.here, Option.bind_some, child_large _ large] at reached
      cases reached
    rw [tableAt_cons, tableAt_cons]
    by_cases below : ∃ j, i :: p = j :: address.third
    · obtain ⟨j, same⟩ := below
      have length : p.length = 3 := congrArg List.length (List.cons.inj same).2
      have lowest (o : Option Entry) : o.bind (child p.length) = none := by
        cases o with
        | none => rfl
        | some e => exact child_lowest length.ge e
      simp only [lowest, reduceCtorEq, and_false]
    · rw [replaced.other small _ here fun j same => below ⟨j, same⟩]
      exact ⟨fun reached => ⟨here, reached⟩, And.right⟩

theorem Overwritten.keeps {physical : BitVec 64} (keeps : pager.Keeps kept m)
    (small : (pager.seen m.memory address.third).pageSize = false)
    (overwritten : pager.Overwritten kept address flags physical m m') :
    pager.Keeps kept m' := by
  obtain ⟨m₁, e, opens, here, gives, replaced⟩ := overwritten.replaced
  obtain rfl := Option.some.inj (here.symm.trans (opens.third keeps.tree))
  have keeps₁ := opens.keeps keeps
  have large := pageSize_largeFlags physical (pager.carried m.memory address flags) small
  have tables := replaced.tables small large
  -- the marked tables elsewhere are as they were
  have older {i : Index} {p : Path} {e : Entry} (shallow : p.length < 3)
      (found : pager.view m'.memory (i :: p) = some e) (small' : e.pageSize = false) :
      i :: p ≠ address.third ∧ pager.view m₁.memory (i :: p) = some e := by
    have apart : i :: p ≠ address.third := by
      intro same
      rw [same, replaced.here] at found
      rw [← Option.some.inj found, large] at small'
      cases small'
    refine ⟨apart, (replaced.other small _ apart fun j same => ?_).symm.trans found⟩
    rw [(List.cons.inj same).2] at shallow
    exact absurd shallow (Nat.lt_irrefl 3)
  have apart' (f : BitVec 64) (others : kept f) : ¬pager.IsTable m'.memory f := by
    rintro ⟨r, reached⟩
    exact keeps₁.apart f others ⟨r, ((tables r f).mp reached).2⟩
  rw [GivesBack] at gives
  split at gives
  next marked =>
    obtain ⟨k, a', frame, regains, freed⟩ :=
      (keeps₁.lends _ _ _ (by simp) here small marked.2).regains
    cases freed.symm.trans gives
    have gone : pager.tableAt m₁.memory address.third = some (m₁.allocator.frameOf k) := by
      rw [← frame]
      exact tableAt_of_view here (by simp) (Entry.ne_zero_of_bit marked.2) small
    refine ⟨replaced.tree small, apart', keeps₁.stocked.regain regains fun f used => ?_,
      fun i p e' shallow found small' marked' => ?_⟩
    · rcases used with others | ⟨r, reached⟩
      · exact ⟨Or.inl others, fun same => keeps₁.apart f others ⟨_, same ▸ gone⟩⟩
      · obtain ⟨apart, before⟩ := (tables r f).mp reached
        refine ⟨Or.inr ⟨r, before⟩, ?_⟩
        rintro rfl
        exact apart (keeps₁.tree.distinct r _ _ before gone)
    · obtain ⟨apart, before⟩ := older shallow found small'
      refine regains.lent (keeps₁.lends i p e' shallow before small' marked') fun same => apart ?_
      refine keeps₁.tree.distinct _ _ _ ?_ gone
      rw [← same]
      exact tableAt_of_view before shallow (Entry.ne_zero_of_bit marked') small'
  next =>
    refine ⟨replaced.tree small, apart', ?_, fun i p e' shallow found small' marked' => ?_⟩
    · rw [gives]
      refine keeps₁.stocked.mono fun f used => used.imp_right ?_
      rintro ⟨r, reached⟩
      exact ⟨r, ((tables r f).mp reached).2⟩
    · rw [gives]
      exact keeps₁.lends i p e' shallow (older shallow found small').2 small' marked'

end Pager

end EmkKernel
