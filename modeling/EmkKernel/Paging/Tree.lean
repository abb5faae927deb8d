import EmkKernel.Paging.Pager
import EmkKernel.Paging.Supply

/-!
# The tree of page tables

The tables of a pager as a tree in memory. `view` is the state the self's
operations are about: the entries by their path, with the index in the lowest
table first. Each operation on a handle is an edit of the view.
-/

namespace EmkKernel

open EStateM

abbrev Path := List Index

/-- The table an entry points to. Entries of the lowest tables and of large pages
point to none. -/
def child (depth : Nat) (e : Entry) : Option (BitVec 64) :=
  if depth < 3 ∧ e ≠ 0 ∧ e.pageSize = false then some e.address else none

theorem child_zero (depth : Nat) : child depth 0 = none := by simp [child]

theorem child_lowest {depth : Nat} (lowest : 3 ≤ depth) (e : Entry) : child depth e = none := by
  simp [child, Nat.not_lt_of_le lowest]

theorem child_large (depth : Nat) {e : Entry} (large : e.pageSize = true) :
    child depth e = none := by
  simp [child, large]

theorem child_pointer {depth : Nat} {e : Entry} (shallow : depth < 3) (nonzero : e ≠ 0)
    (small : e.pageSize = false) : child depth e = some e.address := by
  rw [child, if_pos ⟨shallow, nonzero, small⟩]

theorem child_some {depth : Nat} {e : Entry} {f : BitVec 64} (points : child depth e = some f) :
    depth < 3 ∧ e ≠ 0 ∧ e.pageSize = false ∧ e.address = f := by
  unfold child at points
  split at points
  next pointer => exact ⟨pointer.1, pointer.2.1, pointer.2.2, Option.some.inj points⟩
  next => cases points

/-! ### Edits of a view -/

section Edits

variable (v v' : Path → Option Entry) (q : Path) (e : Entry)

/-- One entry is overwritten. -/
structure Sets : Prop where
  here : v' q = some e
  other : ∀ r, r ≠ q → v' r = v r

/-- An entry is made to point to a new table. -/
structure Adds (content : Index → Entry) : Prop where
  here : v' q = some e
  below : ∀ j, v' (j :: q) = some (content j)
  other : ∀ r, r ≠ q → (∀ j, r ≠ j :: q) → v' r = v r

/-- An entry that pointed to a table is overwritten, and the table is gone. -/
structure Drops : Prop where
  here : v' q = some e
  below : ∀ j, v' (j :: q) = none
  other : ∀ r, r ≠ q → (∀ j, r ≠ j :: q) → v' r = v r

end Edits

namespace Pager

variable (pager : Pager)

def tableAt (m : Memory) : Path → Option (BitVec 64) := RadixTree.table child m pager.cr3

/-- The entries of the pager by path. -/
def view (m : Memory) : Path → Option Entry := RadixTree.entry child m pager.cr3

/-- `f` is one of the self's tables. -/
def IsTable (m : Memory) (f : BitVec 64) : Prop := ∃ p, pager.tableAt m p = some f

/-- The tables are distinct frames, and only the third level has large pages. -/
structure Tree (m : Memory) : Prop where
  distinct : RadixTree.Distinct child m pager.cr3
  frames : ∀ p f, pager.tableAt m p = some f → IsFrame f
  upper : ∀ i p e, p.length < 2 → pager.view m (i :: p) = some e → e.pageSize = false

/-- The tables are a tree, and the allocator returns frames that are neither in
it nor kept for others. -/
structure Ready (kept : BitVec 64 → Prop) (m : Machine) : Prop where
  tree : pager.Tree m.memory
  supplies : m.allocator.Supplies fun f => kept f ∨ pager.IsTable m.memory f

variable {pager} {m : Memory} {p : Path} {i : Index} {n f : BitVec 64} {e : Entry}
  {content : Index → Entry}

theorem view_cons (here : pager.tableAt m p = some n) (i : Index) :
    pager.view m (i :: p) = some (m n i) :=
  RadixTree.entry_cons here i

theorem tableAt_cons (i : Index) (p : Path) :
    pager.tableAt m (i :: p) = (pager.view m (i :: p)).bind (child p.length) :=
  RadixTree.table_cons i p

theorem tableAt_of_view (here : pager.view m (i :: p) = some e) (shallow : p.length < 3)
    (nonzero : e ≠ 0) (small : e.pageSize = false) :
    pager.tableAt m (i :: p) = some e.address := by
  rw [tableAt_cons, here, Option.bind_some, child_pointer shallow nonzero small]

/-- A table on the way of a path. -/
theorem tableAt_of_cons (reached : pager.tableAt m (i :: p) = some f) :
    ∃ e, pager.view m (i :: p) = some e ∧ p.length < 3 ∧ e ≠ 0 ∧ e.pageSize = false ∧
      e.address = f := by
  rw [tableAt_cons] at reached
  obtain ⟨e, here, points⟩ := Option.bind_eq_some_iff.mp reached
  exact ⟨e, here, child_some points⟩

/-- An entry lies in a table that the entry above points to. -/
theorem view_above {j : Index}
    (here : pager.view m (i :: j :: p) = some e) :
    ∃ e', pager.view m (j :: p) = some e' ∧ e' ≠ 0 := by
  cases reached : pager.tableAt m (j :: p) with
  | none =>
    rw [view, RadixTree.entry_eq_none i reached] at here
    cases here
  | some n =>
    obtain ⟨e', above, _, nonzero, _⟩ := tableAt_of_cons reached
    exact ⟨e', above, nonzero⟩

/-- Memory that agrees on the tables of a pager has the same tables. -/
theorem tableAt_congr {m' : Memory} (same : ∀ f, pager.IsTable m f → m' f = m f) :
    pager.tableAt m' = pager.tableAt m :=
  funext (RadixTree.table_congr fun p f reached => same f ⟨p, reached⟩)

theorem view_congr {m' : Memory} (same : ∀ f, pager.IsTable m f → m' f = m f) :
    pager.view m' = pager.view m :=
  funext (RadixTree.entry_congr fun p f reached => same f ⟨p, reached⟩)

theorem Tree.congr {m' : Memory} (tree : pager.Tree m)
    (same : ∀ f, pager.IsTable m f → m' f = m f) : pager.Tree m' := by
  refine ⟨?_, ?_, ?_⟩
  · change ∀ p q f, pager.tableAt m' p = _ → pager.tableAt m' q = _ → _
    rw [tableAt_congr same]
    exact tree.distinct
  · rw [tableAt_congr same]
    exact tree.frames
  · rw [view_congr same]
    exact tree.upper

/-- Overwriting an entry without changing where it points. -/
theorem Tree.set (tree : pager.Tree m) (here : pager.tableAt m p = some n)
    (same : child p.length e = child p.length (m n i))
    (upper : p.length < 2 → e.pageSize = false) :
    pager.Tree (RadixTree.write m n i e) ∧
      Sets (pager.view m) (pager.view (RadixTree.write m n i e)) (i :: p) e ∧
      ∀ r, pager.tableAt (RadixTree.write m n i e) r = pager.tableAt m r := by
  have tables := RadixTree.table_write tree.distinct here same
  have entries := RadixTree.entry_write tree.distinct here same
  refine ⟨⟨tree.distinct.write here same, fun r f reached => ?_, fun j r e' shallow found => ?_⟩,
    ⟨?_, fun r other => ?_⟩, tables⟩
  · exact tree.frames r f ((tables r).symm.trans reached)
  · rw [view, entries] at found
    split at found
    next slot =>
      obtain ⟨rfl, rfl⟩ := List.cons.inj slot
      cases found
      exact upper shallow
    next => exact tree.upper j r e' shallow found
  · rw [view, entries, if_pos rfl]
  · rw [view, entries, if_neg other, view]

/-- Pointing an entry without a table to a fresh one. -/
theorem Tree.add (tree : pager.Tree m) (here : pager.tableAt m p = some n)
    (bare : child p.length (m n i) = none) (fresh : ¬pager.IsTable m f) (isFrame : IsFrame f)
    (link : child p.length e = some f) (leaves : ∀ j, child (p.length + 1) (content j) = none)
    (upper : ∀ j, p.length < 1 → (content j).pageSize = false) :
    pager.Tree (RadixTree.write (RadixTree.fill m f content) n i e) ∧
      Adds (pager.view m) (pager.view (RadixTree.write (RadixTree.fill m f content) n i e))
        (i :: p) e content ∧
      ∀ r, pager.tableAt (RadixTree.write (RadixTree.fill m f content) n i e) r =
        if r = i :: p then some f else pager.tableAt m r := by
  have fresh' : ∀ r, RadixTree.table child m pager.cr3 r ≠ some f :=
    fun r reached => fresh ⟨r, reached⟩
  have tables := RadixTree.table_graft tree.distinct here bare fresh' link leaves
  have self' := RadixTree.entry_graft_self tree.distinct here bare fresh' link leaves
  have below := RadixTree.entry_graft_below tree.distinct here bare fresh' link leaves
  have other (r : Path) :=
    RadixTree.entry_graft_other (r := r) tree.distinct here bare fresh' link leaves
  refine ⟨⟨tree.distinct.graft here bare fresh' link leaves, fun r g reached => ?_,
    fun j r e' shallow found => ?_⟩, ⟨self', below, other⟩, tables⟩
  · rw [tableAt, tables] at reached
    split at reached
    next => exact Option.some.inj reached ▸ isFrame
    next => exact tree.frames r g reached
  · by_cases slot : j :: r = i :: p
    · rw [slot, view, self'] at found
      cases found
      exact (child_some link).2.2.1
    · by_cases inside : r = i :: p
      · subst inside
        rw [view, below] at found
        cases found
        rw [List.length_cons] at shallow
        exact upper j (by omega)
      · rw [view, other _ slot fun k same => inside (List.cons.inj same).2] at found
        exact tree.upper j r e' shallow found

/-- Overwriting an entry that pointed to a lowest table. -/
theorem Tree.drop (tree : pager.Tree m) (here : pager.tableAt m p = some n)
    (had : child p.length (m n i) = some f) (lowest : p.length = 2)
    (bare : child p.length e = none) :
    pager.Tree (RadixTree.write m n i e) ∧
      Drops (pager.view m) (pager.view (RadixTree.write m n i e)) (i :: p) e ∧
      ∀ r, pager.tableAt (RadixTree.write m n i e) r =
        if r = i :: p then none else pager.tableAt m r := by
  have leaves : ∀ j, child (p.length + 1) (m f j) = none := fun j =>
    child_lowest (by omega) _
  have tables := RadixTree.table_prune tree.distinct here had leaves bare
  have self' := RadixTree.entry_prune_self tree.distinct here had leaves bare
  have below := RadixTree.entry_prune_below tree.distinct here had leaves bare
  have other (r : Path) := RadixTree.entry_prune_other (r := r) tree.distinct here had leaves bare
  refine ⟨⟨tree.distinct.prune here had leaves bare, fun r g reached => ?_,
    fun j r e' shallow found => ?_⟩, ⟨self', below, other⟩, tables⟩
  · rw [tableAt, tables] at reached
    split at reached
    next => cases reached
    next => exact tree.frames r g reached
  · by_cases slot : j :: r = i :: p
    · obtain ⟨_, rfl⟩ := List.cons.inj slot
      omega
    · by_cases inside : r = i :: p
      · subst inside
        rw [List.length_cons] at shallow
        omega
      · rw [view, other _ slot fun k same => inside (List.cons.inj same).2] at found
        exact tree.upper j r e' shallow found

/-- Whatever hangs at an entry is gone when the entry becomes zero. -/
theorem Tree.cut (tree : pager.Tree m) (here : pager.tableAt m p = some n) :
    pager.Tree (RadixTree.write m n i 0) ∧
      pager.view (RadixTree.write m n i 0) (i :: p) = some 0 ∧
      (∀ j r, i :: p <:+ r → pager.view (RadixTree.write m n i 0) (j :: r) = none) ∧
      ∀ r, ¬i :: p <:+ r → pager.view (RadixTree.write m n i 0) r = pager.view m r := by
  have bare : child p.length 0 = none := child_zero _
  have self' := RadixTree.entry_write_self (i := i) 0 tree.distinct here
  have other (r : Path) (outside : ¬i :: p <:+ r) :=
    RadixTree.entry_cut_other tree.distinct here bare outside
  refine ⟨⟨tree.distinct.cut here bare, fun r g reached => ?_, fun j r e shallow found => ?_⟩,
    self',
    fun j r inside => RadixTree.entry_cut_below tree.distinct here bare inside, other⟩
  · rw [tableAt, RadixTree.table_cut tree.distinct here bare] at reached
    split at reached
    next => cases reached
    next => exact tree.frames r g reached
  · by_cases slot : j :: r = i :: p
    · rw [slot, view, self'] at found
      cases found
      rfl
    · by_cases inside : i :: p <:+ r
      · rw [view, RadixTree.entry_cut_below tree.distinct here bare inside] at found
        cases found
      · rw [view, other _ fun below => (List.suffix_cons_iff.mp below).elim (slot ∘ Eq.symm) inside]
          at found
        exact tree.upper j r e shallow found

theorem Tree.ready {m : Machine} (tree : pager.Tree m.memory)
    (supplies : m.allocator.Supplies (pager.IsTable m.memory)) : pager.Ready (fun _ => False) m :=
  ⟨tree, supplies.mono fun _ used => used.resolve_left id⟩

/-! ### A pager without mappings -/

/-- The root is a frame of zeros. -/
structure Fresh (pager : Pager) (m : Memory) : Prop where
  isFrame : IsFrame pager.cr3
  zero : ∀ i, m pager.cr3 i = 0

theorem Fresh.tableAt (fresh : pager.Fresh m) (i : Index) (p : Path) :
    pager.tableAt m (i :: p) = none := by
  induction p generalizing i with
  | nil =>
    rw [tableAt_cons, view_cons rfl, fresh.zero, Option.bind_some, child_zero]
  | cons j p ih =>
    rw [tableAt_cons, view, RadixTree.entry_eq_none i (ih j), Option.bind_none]

theorem Fresh.isTable_iff (fresh : pager.Fresh m) : pager.IsTable m f ↔ f = pager.cr3 := by
  constructor
  · rintro ⟨_ | ⟨i, p⟩, reached⟩
    · exact (Option.some.inj reached).symm
    · rw [fresh.tableAt] at reached
      cases reached
  · rintro rfl
    exact ⟨[], rfl⟩

theorem Fresh.view (fresh : pager.Fresh m) (found : pager.view m p = some e) : e = 0 := by
  cases p with
  | nil => cases found
  | cons i p =>
    cases p with
    | nil =>
      rw [view_cons rfl, fresh.zero] at found
      exact (Option.some.inj found).symm
    | cons j p =>
      rw [Pager.view, RadixTree.entry_eq_none i (fresh.tableAt j p)] at found
      cases found

theorem Fresh.tree (fresh : pager.Fresh m) : pager.Tree m := by
  refine ⟨fun p q n first second => ?_, fun p g reached => ?_, fun i p e _ found => ?_⟩
  · cases p with
    | cons i p => cases (fresh.tableAt i p).symm.trans first
    | nil =>
      cases q with
      | nil => rfl
      | cons j q => cases (fresh.tableAt j q).symm.trans second
  · rw [fresh.isTable_iff.mp ⟨p, reached⟩]
    exact fresh.isFrame
  · rw [fresh.view found]
    rfl

end Pager

end EmkKernel
