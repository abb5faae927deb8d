import EmkKernel.Paging.Upkeep

/-!
# Which pages belong to a pager

`Books` compares the allocator with the one the pager was made with: the pages taken
since are the tables below the root, and the marks in the entries tell these tables
from pages that are mapped.
-/

namespace EmkKernel

open EStateM BitArray

namespace Pager

variable (pager : Pager)

/-- `f` is a table below the root. -/
def IsLower (m : Memory) (f : BitVec 64) : Prop := ∃ i p, pager.tableAt m (i :: p) = some f

/-- The marks are on the entries that point to tables. -/
def Marked (m : Memory) : Prop :=
  ∀ i p e, p.length < 3 → pager.view m (i :: p) = some e →
    (e.stabAllocated = true ↔ e ≠ 0 ∧ e.pageSize = false)

/-- Page `k` of the allocator is a table below the root. -/
def IsLowerPage (m : Machine) (k : Nat) : Prop :=
  ∃ f, pager.IsLower m.memory f ∧ f.toNat = m.allocator.addend + k * 0x1000

/-- The pages in use are those that were in use at the start and the lower tables. -/
structure Accounts (start : Allocator) (m : Machine) : Prop where
  addend : m.allocator.addend = start.addend
  bits : ∀ k, bit m.allocator.bitmap k = true ↔
    bit start.bitmap k = true ∨ pager.IsLowerPage m k
  fresh : ∀ k, pager.IsLowerPage m k → bit start.bitmap k = false

structure Books (start : Allocator) (m : Machine) : Prop where
  keeps : pager.Keeps (fun _ => False) m
  marked : pager.Marked m.memory
  accounts : pager.Accounts start m
  root : m.allocator.Lent pager.cr3

variable {pager} {start : Allocator} {m m' : Machine} {q : Path} {e : Entry} {flags : Flags}
  {rw : Bool} {address : Address} {kept : BitVec 64 → Prop}

/-- A marked table is a lower table. -/
theorem Marked.table {m : Memory} (marked : pager.Marked m) {i : Index} {p : Path} {f : BitVec 64}
    (reached : pager.tableAt m (i :: p) = some f) :
    ∃ e, pager.view m (i :: p) = some e ∧ p.length < 3 ∧ e.pageSize = false ∧
      e.stabAllocated = true ∧ e.address = f := by
  obtain ⟨e, here, shallow, nonzero, small, points⟩ := tableAt_of_cons reached
  exact ⟨e, here, shallow, small, (marked i p e shallow here).mpr ⟨nonzero, small⟩, points⟩

theorem Books.lower (books : pager.Books start m) {f : BitVec 64}
    (lower : pager.IsLower m.memory f) : m.allocator.Lent f := by
  obtain ⟨i, p, reached⟩ := lower
  obtain ⟨e, here, shallow, small, marked, rfl⟩ := books.marked.table reached
  exact books.keeps.lends i p e shallow here small marked

/-! ### Edits of the tree -/

theorem Books.set (books : pager.Books start m) (keeps : pager.Keeps (fun _ => False) m')
    (sets : Sets (pager.view m.memory) (pager.view m'.memory) q e)
    (tables : ∀ r, pager.tableAt m'.memory r = pager.tableAt m.memory r)
    (allocator : m'.allocator = m.allocator)
    (own : ∀ i p, i :: p = q → p.length < 3 →
      (e.stabAllocated = true ↔ e ≠ 0 ∧ e.pageSize = false)) : pager.Books start m' := by
  have same (k : Nat) : pager.IsLowerPage m' k ↔ pager.IsLowerPage m k := by
    simp only [IsLowerPage, IsLower, tables, allocator]
  have accounts := books.accounts
  refine ⟨keeps, fun i p e' shallow found => ?_, ⟨?_, fun k => ?_, fun k => ?_⟩, ?_⟩
  · by_cases here : i :: p = q
    · obtain rfl : e = e' := Option.some.inj (sets.here.symm.trans (here ▸ found))
      exact own i p here shallow
    · exact books.marked i p e' shallow ((sets.other _ here).symm.trans found)
  · rw [allocator, accounts.addend]
  · rw [allocator, same]
    exact accounts.bits k
  · rw [same]
    exact accounts.fresh k
  · rw [allocator]
    exact books.root

theorem Books.add {k : Nat} {content : Index → Entry} (books : pager.Books start m)
    (keeps : pager.Keeps (fun _ => False) m') (grants : m.allocator.Grants m'.allocator k)
    (adds : Adds (pager.view m.memory) (pager.view m'.memory) q e content)
    (tables : ∀ r, pager.tableAt m'.memory r =
      if r = q then some (m.allocator.frameOf k) else pager.tableAt m.memory r)
    (bare : pager.tableAt m.memory q = none) (mark : e.stabAllocated = true)
    (below : q.length < 3 → ∀ j, content j = 0) : pager.Books start m' := by
  have accounts := books.accounts
  have lower (f : BitVec 64) :
      pager.IsLower m'.memory f ↔ pager.IsLower m.memory f ∨ f = m.allocator.frameOf k := by
    constructor
    · rintro ⟨i, p, reached⟩
      rw [tables] at reached
      split at reached
      next => exact Or.inr (Option.some.inj reached).symm
      next => exact Or.inl ⟨i, p, reached⟩
    · rintro (⟨i, p, reached⟩ | rfl)
      · refine ⟨i, p, (tables _).trans ((if_neg ?_).trans reached)⟩
        rintro rfl
        cases bare.symm.trans reached
      · cases q with
        | nil => cases bare
        | cons i p => exact ⟨i, p, (tables _).trans (if_pos rfl)⟩
  have mine := books.keeps.stocked.freeable_of_mem grants.member
  have page (j : Nat) : pager.IsLowerPage m' j ↔ pager.IsLowerPage m j ∨ j = k := by
    simp only [IsLowerPage, lower, grants.took.addend]
    constructor
    · rintro ⟨f, old | rfl, place⟩
      · exact Or.inl ⟨f, old, place⟩
      · rw [mine.toNat_frameOf] at place
        exact Or.inr (by omega)
    · rintro (⟨f, old, place⟩ | rfl)
      · exact ⟨f, Or.inl old, place⟩
      · exact ⟨_, Or.inr rfl, mine.toNat_frameOf⟩
  refine ⟨keeps, fun i p e' shallow found => ?_, ⟨?_, fun j => ?_, fun j isLower => ?_⟩,
    grants.lent books.root⟩
  · by_cases here : i :: p = q
    · obtain ⟨e₁, entry, _, nonzero, small, _⟩ :=
        tableAt_of_cons ((tables (i :: p)).trans (if_pos here))
      obtain rfl := Option.some.inj (found.symm.trans entry)
      obtain rfl := Option.some.inj (adds.here.symm.trans (here ▸ found))
      exact ⟨fun _ => ⟨nonzero, small⟩, fun _ => mark⟩
    by_cases inside : ∃ j, i :: p = j :: q
    · obtain ⟨j, same⟩ := inside
      have length : p.length = q.length := congrArg List.length (List.cons.inj same).2
      rw [same, adds.below, below (length ▸ shallow) j] at found
      obtain rfl := Option.some.inj found
      exact ⟨fun marked => Bool.noConfusion marked, fun nonzero => absurd rfl nonzero.1⟩
    · exact books.marked i p e' shallow
        ((adds.other _ here fun j same => inside ⟨j, same⟩).symm.trans found)
  · exact grants.took.addend.trans accounts.addend
  · rw [grants.bit, accounts.bits, page, or_assoc]
  · rcases (page j).mp isLower with old | rfl
    · exact accounts.fresh j old
    · -- the page was free, so it was free at the start
      refine Bool.eq_false_iff.mpr fun set => ?_
      have clear := (Allocator.mem_stock.mp grants.member).2
      exact Bool.false_ne_true (clear.symm.trans ((accounts.bits j).mpr (Or.inl set)))

private theorem tableAt_of_zero {m : Memory} (zero : pager.view m q = some 0) :
    pager.tableAt m q = none := by
  cases q with
  | nil => cases zero
  | cons i p => rw [tableAt_cons, zero, Option.bind_some, child_zero]

private theorem tableAt_of_large {m : Memory} (here : pager.view m q = some e)
    (large : e.pageSize = true) :
    pager.tableAt m q = none := by
  cases q with
  | nil => cases here
  | cons i p => rw [tableAt_cons, here, Option.bind_some, child_large _ large]

theorem Opened.books (opened : pager.Opened rw flags q m m') (tree : pager.Tree m'.memory)
    (books : pager.Books start m) : pager.Books start m' := by
  have keeps := opened.keeps tree books.keeps
  cases opened with
  | kept e before nonzero sets tables allocator untouched =>
    refine books.set keeps sets tables allocator fun i p here shallow => ?_
    have marks := books.marked i p e shallow (here ▸ before)
    rw [Entry.stabAllocated_granted, Entry.pageSize_granted, marks]
    exact and_congr_left' ⟨fun _ => Entry.granted_ne_zero rw nonzero, fun _ => nonzero⟩
  | linked mb before returned adds tables untouched =>
    obtain ⟨k, grants, frame⟩ := books.keeps.stocked.grants returned
    refine books.add keeps grants adds (frame ▸ tables) (tableAt_of_zero before) ?_ fun _ _ => rfl
    simp [Entry.stabAllocated]

theorem Unfolded.books (unfolded : pager.Unfolded q e m m') (tree : pager.Tree m'.memory)
    (lowest : q.length = 3) (books : pager.Books start m) : pager.Books start m' := by
  have keeps := unfolded.keeps tree lowest books.keeps
  have bare := tableAt_of_large unfolded.before unfolded.large
  obtain ⟨mb, returned, adds, tables, _⟩ := unfolded.opened
  obtain ⟨k, grants, frame⟩ := books.keeps.stocked.grants returned
  refine books.add keeps grants adds (frame ▸ tables) bare ?_ fun above => by omega
  simp [Entry.stabAllocated]

theorem Stored.books (stored : pager.Stored q e m m') (tree : pager.Tree m'.memory)
    (lowest : q.length = 4) (books : pager.Books start m) : pager.Books start m' := by
  refine books.set (stored.keeps tree lowest books.keeps) stored.sets stored.tables
    stored.allocator fun i p here shallow => ?_
  rw [← here, List.length_cons] at lowest
  omega

theorem Opens.books (opens : pager.Opens kept address flags m m') (books : pager.Books start m) :
    pager.Books start m' := by
  obtain ⟨m₁, ready₁, first, second⟩ := opens.opened
  exact second.books opens.ready.tree (first.books ready₁.tree books)

theorem Begun.books (begun : pager.Begun kept address flags m m') (books : pager.Books start m) :
    pager.Books start m' := by
  cases begun with
  | nothing ready missing => exact books
  | first _ ready opened missing => exact opened.books ready.tree books

theorem Prepared.books (prepared : pager.Prepared kept address flags m m')
    (books : pager.Books start m) : pager.Books start m' := by
  cases prepared with
  | begun begun => exact begun.books books
  | both opens => exact opens.books books

theorem Reached.books (reached : pager.Reached kept address flags m m')
    (books : pager.Books start m) : pager.Books start m' := by
  obtain ⟨m₁, opens, small⟩ := reached.steps
  cases small with
  | opened e _ _ opened => exact opened.books reached.ready.tree (opens.books books)
  | unfolded e unfolded => exact unfolded.books reached.ready.tree rfl (opens.books books)

/-! ### Calls -/

/-- A page of 2 MiB without the mark, in a slot without a large page, takes the place of
a table of the pager, which is given back, or of nothing. -/
theorem Overwritten.books {physical : BitVec 64} (books : pager.Books start m)
    (aligned : physical.toNat % 0x1000 = 0)
    (small : (pager.seen m.memory address.third).pageSize = false)
    (unmarked : (pager.writtenFlags m.memory address flags).getLsbD 8 = false)
    (overwritten : pager.Overwritten (fun _ => False) address flags physical m m') :
    pager.Books start m' := by
  have keeps := overwritten.keeps books.keeps small
  obtain ⟨m₁, e, opens, here, gives, replaced⟩ := overwritten.replaced
  obtain rfl := Option.some.inj (here.symm.trans (opens.third books.keeps.tree))
  have books₁ := opens.books books
  have large := pageSize_largeFlags physical (pager.carried m.memory address flags) small
  have tables := replaced.tables small large
  have bare : (Entry.pack physical (largeFlags (pager.seen m.memory address.third)
      (pager.carried m.memory address flags))).stabAllocated = false := by
    rw [Entry.stabAllocated, Entry.getLsbD_pack, low_of_aligned aligned (by decide),
      getLsbD_largeFlags _ small, ← unmarked, writtenFlags, getLsbD_pageFlags]
    simp
  have marked : pager.Marked m'.memory := by
    intro i p e shallow found
    by_cases apart : i :: p = address.third
    · rw [apart, replaced.here] at found
      obtain rfl := Option.some.inj found
      rw [bare, large]
      simp
    · refine books₁.marked i p e shallow ((replaced.other small _ apart fun j same =>
        ?_).symm.trans found)
      rw [(List.cons.inj same).2] at shallow
      exact absurd shallow (Nat.lt_irrefl 3)
  have accounts := books₁.accounts
  rw [GivesBack] at gives
  split at gives
  next owned =>
    obtain ⟨k, a', frame, regains, freed⟩ :=
      (books₁.keeps.lends _ _ _ (by simp) here small owned.2).regains
    cases freed.symm.trans gives
    have gone : pager.tableAt m₁.memory address.third = some (m₁.allocator.frameOf k) := by
      rw [← frame]
      exact tableAt_of_view here (by simp) (Entry.ne_zero_of_bit owned.2) small
    have place := regains.freeable.toNat_frameOf
    have lower : pager.IsLowerPage m₁ k := ⟨_, ⟨_, _, gone⟩, place⟩
    have page (j : Nat) : pager.IsLowerPage m' j ↔ pager.IsLowerPage m₁ j ∧ j ≠ k := by
      simp only [IsLowerPage, IsLower, tables, regains.gave.addend]
      constructor
      · rintro ⟨f, ⟨i, p, apart, reached⟩, placed⟩
        refine ⟨⟨f, ⟨i, p, reached⟩, placed⟩, ?_⟩
        rintro rfl
        obtain rfl := BitVec.eq_of_toNat_eq (placed.trans place.symm)
        exact apart (books₁.keeps.tree.distinct _ _ _ reached gone)
      · rintro ⟨⟨f, ⟨i, p, reached⟩, placed⟩, other⟩
        refine ⟨f, ⟨i, p, fun same => other ?_, reached⟩, placed⟩
        rw [same, gone, Option.some.injEq] at reached
        rw [← reached, place] at placed
        omega
    refine ⟨keeps, marked, ⟨regains.gave.addend.trans accounts.addend, fun j => ?_, fun j isLower =>
      accounts.fresh j ((page j).mp isLower).1⟩, ?_⟩
    · rw [regains.bit, accounts.bits, page]
      -- the page given back was free at the start
      have free := accounts.fresh k lower
      by_cases same : j = k
      · simp [same, free]
      · simp [same]
    · refine regains.lent books₁.root fun same => ?_
      have root : pager.tableAt m₁.memory [] = some (m₁.allocator.frameOf k) :=
        congrArg some same
      exact List.cons_ne_nil _ _ (books₁.keeps.tree.distinct _ _ _ gone root)
  next foreign =>
    have zero : pager.seen m.memory address.third = 0 := by
      by_contra nonzero
      exact foreign ⟨small, (books₁.marked _ _ _ (by simp) here).mpr ⟨nonzero, small⟩⟩
    have page (j : Nat) : pager.IsLowerPage m' j ↔ pager.IsLowerPage m₁ j := by
      simp only [IsLowerPage, IsLower, tables, gives]
      refine exists_congr fun f => and_congr_left' (exists_congr fun i => exists_congr fun p =>
        and_iff_right_of_imp fun reached same => ?_)
      rw [same, tableAt_of_zero (zero ▸ here)] at reached
      cases reached
    refine ⟨keeps, marked, ⟨?_, fun j => ?_, fun j => ?_⟩, ?_⟩
    · rw [gives, accounts.addend]
    · rw [gives, page]
      exact accounts.bits j
    · rw [page]
      exact accounts.fresh j
    · rw [gives]
      exact books₁.root

end Pager

end EmkKernel
