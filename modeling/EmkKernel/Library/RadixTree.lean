import Mathlib.Algebra.Ring.Nat
import Mathlib.Data.Set.Lattice
import Mathlib.Logic.Function.Basic
import Mathlib.Order.CompletePartialOrder
import Mathlib.Tactic.Common

/-!
# Trees of tables in a memory

A memory holds tables of entries, and `child` says which table an entry points
to at a given depth. Paths are lists of indices with the last index first, so
the slot at `i :: p` is entry `i` of the table reached along `p`.

A tree whose tables are reached along one path each can be edited slot by slot:
a write that keeps the child changes one slot (`entry_write`), a write that hangs
in a fresh table adds the slots of that table (`entry_graft`), and a write that
drops a table of leaves removes them (`entry_prune`). A write without a child removes
whatever hangs at the slot (`entry_cut_below`).
-/

namespace RadixTree

variable {N I E : Type}

/-- The table reached along a path. -/
def table (child : Nat → E → Option N) (m : N → I → E) (root : N) : List I → Option N
  | [] => some root
  | i :: p => (table child m root p).bind fun n => child p.length (m n i)

/-- The entry in the slot at a path. The empty path is no slot. -/
def entry (child : Nat → E → Option N) (m : N → I → E) (root : N) : List I → Option E
  | [] => none
  | i :: p => (table child m root p).map fun n => m n i

/-- Every table is reached along one path. -/
def Distinct (child : Nat → E → Option N) (m : N → I → E) (root : N) : Prop :=
  ∀ p q n, table child m root p = some n → table child m root q = some n → p = q

variable {child : Nat → E → Option N} {m : N → I → E} {root n f : N} {i : I} {p : List I}

theorem table_cons (i : I) (p : List I) :
    table child m root (i :: p) = (entry child m root (i :: p)).bind (child p.length) := by
  simp only [table, entry, Option.bind_map]
  rfl

theorem entry_cons (here : table child m root p = some n) (i : I) :
    entry child m root (i :: p) = some (m n i) := by
  simp only [entry, here, Option.map_some]

theorem entry_eq_none (i : I) (unreached : table child m root p = none) :
    entry child m root (i :: p) = none := by
  simp only [entry, unreached, Option.map_none]

/-- A path with a table has tables all along. -/
theorem table_of_cons {i : I} {t : N} (here : table child m root (i :: p) = some t) :
    ∃ n, table child m root p = some n ∧ child p.length (m n i) = some t :=
  Option.bind_eq_some_iff.mp here

/-- Memories that agree on the tables of one have the same tables. -/
theorem table_congr {m' : N → I → E} (same : ∀ p n, table child m root p = some n → m' n = m n)
    (p : List I) : table child m' root p = table child m root p := by
  induction p with
  | nil => rfl
  | cons i p ih =>
    rw [table, table, ih]
    cases here : table child m root p with
    | none => rfl
    | some n => rw [Option.bind_some, Option.bind_some, same p n here]

theorem entry_congr {m' : N → I → E} (same : ∀ p n, table child m root p = some n → m' n = m n)
    (p : List I) : entry child m' root p = entry child m root p := by
  cases p with
  | nil => rfl
  | cons i p =>
    rw [entry, entry, table_congr same]
    cases here : table child m root p with
    | none => rfl
    | some n => rw [Option.map_some, Option.map_some, same p n here]

/-! ### Overwriting a slot without changing its child -/

variable [DecidableEq N]

/-- The memory with one table overwritten. -/
def fill (m : N → I → E) (n : N) (content : I → E) : N → I → E := Function.update m n content

theorem fill_apply (m : N → I → E) (n : N) (content : I → E) (n' : N) (i' : I) :
    fill m n content n' i' = if n' = n then content i' else m n' i' := by
  unfold fill
  by_cases same : n' = n
  · subst same
    simp
  · simp [same]

theorem fill_fill (m : N → I → E) (n : N) (content content' : I → E) :
    fill (fill m n content) n content' = fill m n content' := by
  funext n' i
  simp only [fill_apply]
  split <;> rfl

variable [DecidableEq I]

/-- The memory with one slot overwritten. -/
def write (m : N → I → E) (n : N) (i : I) (e : E) : N → I → E :=
  Function.update m n (Function.update (m n) i e)

theorem write_apply (m : N → I → E) (n : N) (i : I) (e : E) (n' : N) (i' : I) :
    write m n i e n' i' = if n' = n ∧ i' = i then e else m n' i' := by
  unfold write
  by_cases same : n' = n
  · subst same
    by_cases slot : i' = i <;> simp [slot]
  · simp [same]

theorem write_self (m : N → I → E) (n : N) (i : I) : write m n i (m n i) = m := by
  funext n' i'
  rw [write_apply]
  split
  next same => rw [same.1, same.2]
  next => rfl

theorem write_write (m : N → I → E) (n : N) (i : I) (e e' : E) :
    write (write m n i e) n i e' = write m n i e' := by
  funext n' i'
  simp only [write_apply]
  split <;> rfl

theorem table_write {e : E} (distinct : Distinct child m root)
    (here : table child m root p = some n) (same : child p.length e = child p.length (m n i))
    (r : List I) : table child (write m n i e) root r = table child m root r := by
  induction r with
  | nil => rfl
  | cons j r ih =>
    simp only [table, ih]
    cases reached : table child m root r with
    | none => rfl
    | some t =>
      simp only [Option.bind_some, write_apply]
      split
      next slot =>
        -- the slot overwritten is reached along one path
        obtain ⟨rfl, rfl⟩ := slot
        rw [distinct r p t reached here, same]
      next => rfl

theorem entry_write {e : E} (distinct : Distinct child m root)
    (here : table child m root p = some n) (same : child p.length e = child p.length (m n i))
    (r : List I) :
    entry child (write m n i e) root r = if r = i :: p then some e else entry child m root r := by
  cases r with
  | nil => simp [entry]
  | cons j r =>
    simp only [entry, table_write distinct here same]
    by_cases slot : j :: r = i :: p
    · obtain ⟨rfl, rfl⟩ := List.cons.inj slot
      simp [here, write_apply]
    · rw [if_neg slot]
      cases reached : table child m root r with
      | none => rfl
      | some t =>
        simp only [Option.map_some, write_apply]
        rw [if_neg]
        rintro ⟨rfl, rfl⟩
        exact slot (by rw [distinct r p t reached here])

/-- Whatever is written into a slot, the tables above stay. -/
theorem table_write_above (e : E) (distinct : Distinct child m root)
    (here : table child m root p = some n) {r : List I} (above : r.length ≤ p.length) :
    table child (write m n i e) root r = table child m root r := by
  induction r with
  | nil => rfl
  | cons j r ih =>
    rw [List.length_cons] at above
    simp only [table, ih (by omega)]
    cases reached : table child m root r with
    | none => rfl
    | some t =>
      have other : t ≠ n := by
        rintro rfl
        rw [distinct r p t reached here] at above
        omega
      simp only [Option.bind_some, write_apply, other, false_and, if_false]

theorem entry_write_self (e : E) (distinct : Distinct child m root)
    (here : table child m root p = some n) :
    entry child (write m n i e) root (i :: p) = some e := by
  rw [entry_cons ((table_write_above e distinct here (Nat.le_refl _)).trans here), write_apply,
    if_pos ⟨rfl, rfl⟩]

theorem Distinct.write {e : E} (distinct : Distinct child m root)
    (here : table child m root p = some n) (same : child p.length e = child p.length (m n i)) :
    Distinct child (write m n i e) root := by
  intro q r t first second
  rw [table_write distinct here same] at first second
  exact distinct q r t first second

/-- A write beside the tables changes none of them. -/
theorem table_write_beside (e : E) (beside : ∀ r, table child m root r ≠ some n) (r : List I) :
    table child (write m n i e) root r = table child m root r := by
  induction r with
  | nil => rfl
  | cons j r ih =>
    simp only [table, ih]
    cases reached : table child m root r with
    | none => rfl
    | some t =>
      have other : t ≠ n := fun same => beside r (same ▸ reached)
      simp only [Option.bind_some, write_apply, other, false_and, if_false]

theorem entry_write_beside (e : E) (beside : ∀ r, table child m root r ≠ some n) (r : List I) :
    entry child (write m n i e) root r = entry child m root r := by
  cases r with
  | nil => rfl
  | cons j r =>
    simp only [entry, table_write_beside e beside]
    cases reached : table child m root r with
    | none => rfl
    | some t =>
      have other : t ≠ n := fun same => beside r (same ▸ reached)
      simp only [Option.map_some, write_apply, other, false_and, if_false]

/-! ### Hanging a fresh table into a slot without a child -/

section Graft

variable {e : E} {content : I → E} (distinct : Distinct child m root)
  (here : table child m root p = some n) (bare : child p.length (m n i) = none)
  (fresh : ∀ r, table child m root r ≠ some f) (link : child p.length e = some f)
  (leaves : ∀ j, child (p.length + 1) (content j) = none)

include distinct here bare fresh link leaves

theorem table_graft (r : List I) : table child (write (fill m f content) n i e) root r =
    if r = i :: p then some f else table child m root r := by
  have apart : n ≠ f := fun same => fresh p (same ▸ here)
  induction r with
  | nil => simp [table]
  | cons j r ih =>
    simp only [table, ih]
    by_cases slot : j :: r = i :: p
    · obtain ⟨rfl, rfl⟩ := List.cons.inj slot
      rw [if_neg (List.cons_ne_self j r).symm, here, if_pos rfl]
      simp [write_apply, link]
    · rw [if_neg slot]
      by_cases below : r = i :: p
      · -- the tables below the fresh one would hang in its leaves
        subst below
        simp [write_apply, fill_apply, apart.symm, leaves, table, here, bare]
      · rw [if_neg below]
        cases reached : table child m root r with
        | none => rfl
        | some t =>
          have other : t ≠ f := fun same => fresh r (same ▸ reached)
          simp only [Option.bind_some, write_apply, fill_apply, if_neg other]
          rw [if_neg]
          rintro ⟨rfl, rfl⟩
          exact slot (by rw [distinct r p t reached here])

theorem entry_graft_self :
    entry child (write (fill m f content) n i e) root (i :: p) = some e := by
  rw [entry, table_graft distinct here bare fresh link leaves, if_neg (List.cons_ne_self i p).symm,
    here]
  simp [write_apply]

theorem entry_graft_below (j : I) :
    entry child (write (fill m f content) n i e) root (j :: i :: p) = some (content j) := by
  have apart : f ≠ n := fun same => fresh p (same ▸ here)
  rw [entry, table_graft distinct here bare fresh link leaves, if_pos rfl]
  simp [write_apply, fill_apply, apart]

theorem entry_graft_other {r : List I} (slot : r ≠ i :: p) (below : ∀ j, r ≠ j :: i :: p) :
    entry child (write (fill m f content) n i e) root r = entry child m root r := by
  cases r with
  | nil => rfl
  | cons j r =>
    rw [entry, table_graft distinct here bare fresh link leaves,
      if_neg fun same => below j (by rw [same]), entry]
    cases reached : table child m root r with
    | none => rfl
    | some t =>
      have other : t ≠ f := fun same => fresh r (same ▸ reached)
      simp only [Option.map_some, write_apply, fill_apply, if_neg other]
      rw [if_neg]
      rintro ⟨rfl, rfl⟩
      exact slot (by rw [distinct r p t reached here])

theorem Distinct.graft : Distinct child (RadixTree.write (fill m f content) n i e) root := by
  intro q r t first second
  rw [table_graft distinct here bare fresh link leaves] at first second
  split at first
  next atQ =>
    split at second
    next atR => rw [atQ, atR]
    next =>
      cases first
      exact absurd second (fresh r)
  next =>
    split at second
    next =>
      cases second
      exact absurd first (fresh q)
    next => exact distinct q r t first second

end Graft

/-! ### Cutting off what hangs at a slot -/

section Cut

variable {e : E} (distinct : Distinct child m root) (here : table child m root p = some n)
  (bare : child p.length e = none)

include distinct here bare

theorem table_cut (r : List I) : table child (write m n i e) root r =
    if i :: p <:+ r then none else table child m root r := by
  induction r with
  | nil => simp [table]
  | cons j r ih =>
    simp only [table, ih]
    by_cases below : i :: p <:+ r
    · rw [if_pos below, if_pos (below.trans (List.suffix_cons j r)), Option.bind_none]
    · rw [if_neg below]
      cases reached : table child m root r with
      | none => simp
      | some t =>
        simp only [Option.bind_some, write_apply]
        by_cases slot : t = n ∧ j = i
        · obtain ⟨rfl, rfl⟩ := slot
          obtain rfl := distinct r p t reached here
          rw [if_pos ⟨rfl, rfl⟩, if_pos (List.suffix_refl _), bare]
        · rw [if_neg slot, if_neg]
          rw [List.suffix_cons_iff]
          rintro (same | inside)
          · obtain ⟨rfl, rfl⟩ := List.cons.inj same
            exact slot ⟨Option.some.inj (reached.symm.trans here), rfl⟩
          · exact below inside

theorem entry_cut_other {r : List I} (outside : ¬i :: p <:+ r) :
    entry child (write m n i e) root r = entry child m root r := by
  cases r with
  | nil => rfl
  | cons j r =>
    have above : ¬i :: p <:+ r := fun inside => outside (inside.trans (List.suffix_cons j r))
    rw [entry, entry, table_cut distinct here bare, if_neg above]
    cases reached : table child m root r with
    | none => rfl
    | some t =>
      simp only [Option.map_some, write_apply]
      rw [if_neg]
      rintro ⟨rfl, rfl⟩
      obtain rfl := distinct r p t reached here
      exact outside (List.suffix_refl _)

theorem entry_cut_below {j : I} {r : List I} (inside : i :: p <:+ r) :
    entry child (write m n i e) root (j :: r) = none := by
  rw [entry, table_cut distinct here bare, if_pos inside, Option.map_none]

theorem Distinct.cut : Distinct child (RadixTree.write m n i e) root := by
  intro q r t first second
  rw [table_cut distinct here bare] at first second
  split at first
  next => cases first
  next =>
    split at second
    next => cases second
    next => exact distinct q r t first second

end Cut

/-! ### Dropping a table of leaves -/

section Prune

variable {e : E} (distinct : Distinct child m root) (here : table child m root p = some n)
  (had : child p.length (m n i) = some f) (leaves : ∀ j, child (p.length + 1) (m f j) = none)
  (bare : child p.length e = none)

include distinct here had leaves bare

theorem table_prune (r : List I) : table child (write m n i e) root r =
    if r = i :: p then none else table child m root r := by
  induction r with
  | nil => simp [table]
  | cons j r ih =>
    simp only [table, ih]
    by_cases slot : j :: r = i :: p
    · obtain ⟨rfl, rfl⟩ := List.cons.inj slot
      rw [if_neg (List.cons_ne_self j r).symm, here, if_pos rfl]
      simp [write_apply, bare]
    · rw [if_neg slot]
      by_cases below : r = i :: p
      · -- nothing hangs below the table that is dropped
        subst below
        simp [table, here, had, leaves]
      · rw [if_neg below]
        cases reached : table child m root r with
        | none => rfl
        | some t =>
          simp only [Option.bind_some, write_apply]
          rw [if_neg]
          rintro ⟨rfl, rfl⟩
          exact slot (by rw [distinct r p t reached here])

theorem entry_prune_self : entry child (write m n i e) root (i :: p) = some e := by
  rw [entry, table_prune distinct here had leaves bare, if_neg (List.cons_ne_self i p).symm, here]
  simp [write_apply]

theorem entry_prune_below (j : I) : entry child (write m n i e) root (j :: i :: p) = none := by
  rw [entry, table_prune distinct here had leaves bare, if_pos rfl, Option.map_none]

theorem entry_prune_other {r : List I} (slot : r ≠ i :: p) (below : ∀ j, r ≠ j :: i :: p) :
    entry child (write m n i e) root r = entry child m root r := by
  cases r with
  | nil => rfl
  | cons j r =>
    rw [entry, table_prune distinct here had leaves bare,
      if_neg fun same => below j (by rw [same]), entry]
    cases reached : table child m root r with
    | none => rfl
    | some t =>
      simp only [Option.map_some, write_apply]
      rw [if_neg]
      rintro ⟨rfl, rfl⟩
      exact slot (by rw [distinct r p t reached here])

theorem Distinct.prune : Distinct child (RadixTree.write m n i e) root := by
  intro q r t first second
  rw [table_prune distinct here had leaves bare] at first second
  split at first
  next => cases first
  next =>
    split at second
    next => cases second
    next => exact distinct q r t first second

end Prune

end RadixTree
