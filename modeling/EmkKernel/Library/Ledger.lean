import Mathlib.Algebra.Ring.Nat
import Mathlib.Data.List.Pairwise
import Mathlib.Data.List.Perm.Basic
import Mathlib.Data.Set.Disjoint
import Mathlib.Data.Set.Lattice
import Mathlib.Order.CompletePartialOrder
import Mathlib.Tactic.Common

/-!
# Ledgers of granted resources

The purpose of an allocator, stated without one: resources are handed out in
items, some resources are reserved from the start, and nothing is ever owned
twice. A `Ledger` carries that as its invariant, so the only ways to change one
are to grant an item whose resources nobody holds and to take an item back.
-/

/-- The items outstanding over a set of reserved resources. -/
structure Ledger {ι P : Type*} (extent : ι → Set P) where
  reserved : Set P
  outstanding : List ι
  disjoint : outstanding.Pairwise fun a b => Disjoint (extent a) (extent b)
  fresh : ∀ a ∈ outstanding, Disjoint (extent a) reserved

namespace Ledger

variable {ι P : Type*} {extent : ι → Set P}

/-- The resources that are reserved or held. -/
def taken (L : Ledger extent) : Set P :=
  {p | p ∈ L.reserved ∨ ∃ a ∈ L.outstanding, p ∈ extent a}

theorem mem_taken (L : Ledger extent) (p : P) :
    p ∈ L.taken ↔ p ∈ L.reserved ∨ ∃ a ∈ L.outstanding, p ∈ extent a := Iff.rfl

theorem apart (L : Ledger extent) {a b : ι} (ha : a ∈ L.outstanding) (hb : b ∈ L.outstanding)
    (different : a ≠ b) : Disjoint (extent a) (extent b) := by
  have : Std.Symm fun a b => Disjoint (extent a) (extent b) := ⟨fun _ _ h => h.symm⟩
  exact L.disjoint.forall ha hb different

/-- The ledger in which nothing is outstanding. -/
def opened (reserved : Set P) : Ledger extent where
  reserved := reserved
  outstanding := []
  disjoint := List.Pairwise.nil
  fresh := by simp

@[simp] theorem taken_opened (reserved : Set P) :
    (opened reserved : Ledger extent).taken = reserved := by
  ext p
  simp [mem_taken, opened]

/-- Hand out an item that meets nothing taken. -/
def grant (L : Ledger extent) (a : ι) (free : Disjoint (extent a) L.taken) : Ledger extent where
  reserved := L.reserved
  outstanding := a :: L.outstanding
  disjoint := by
    refine List.pairwise_cons.mpr ⟨fun b member => ?_, L.disjoint⟩
    exact free.mono_right fun p held => Or.inr ⟨b, member, held⟩
  fresh := by
    intro b member
    rcases List.mem_cons.mp member with rfl | old
    · exact free.mono_right fun p held => Or.inl held
    · exact L.fresh b old

theorem mem_taken_grant (L : Ledger extent) (a : ι) (free : Disjoint (extent a) L.taken) (p : P) :
    p ∈ (L.grant a free).taken ↔ p ∈ L.taken ∨ p ∈ extent a := by
  simp only [mem_taken, grant, List.mem_cons, or_and_right, exists_or, exists_eq_left]
  rw [or_assoc, or_comm (a := ∃ x, x ∈ L.outstanding ∧ p ∈ extent x)]

/-- The same items in another order. -/
def reorder (L : Ledger extent) (items : List ι) (perm : L.outstanding.Perm items) :
    Ledger extent where
  reserved := L.reserved
  outstanding := items
  disjoint := (perm.pairwise_iff fun h => h.symm).mp L.disjoint
  fresh := fun a member => L.fresh a (perm.mem_iff.mpr member)

theorem taken_reorder (L : Ledger extent) (items : List ι) (perm : L.outstanding.Perm items) :
    (L.reorder items perm).taken = L.taken := by
  ext p
  simp only [mem_taken, reorder, perm.mem_iff]

/-- Two items that share a resource are one item. -/
theorem owner_unique (L : Ledger extent) {a b : ι} {p : P} (ha : a ∈ L.outstanding)
    (hb : b ∈ L.outstanding) (pa : p ∈ extent a) (pb : p ∈ extent b) : a = b := by
  by_contra different
  exact Set.disjoint_left.mp (L.apart ha hb different) pa pb

section Erase

variable [DecidableEq ι]

/-- Take an item back. -/
def giveBack (L : Ledger extent) (a : ι) : Ledger extent where
  reserved := L.reserved
  outstanding := L.outstanding.erase a
  disjoint := L.disjoint.sublist List.erase_sublist
  fresh := fun b member => L.fresh b (List.mem_of_mem_erase member)

theorem mem_taken_giveBack (L : Ledger extent) {a : ι} (held : a ∈ L.outstanding) (p : P) :
    p ∈ (L.giveBack a).taken ↔ p ∈ L.taken ∧ p ∉ extent a := by
  have split := List.perm_cons_erase held
  have apart := List.pairwise_cons.mp ((split.pairwise_iff fun h => h.symm).mp L.disjoint)
  simp only [mem_taken, giveBack]
  constructor
  · rintro (reserved | ⟨b, member, owns⟩)
    · exact ⟨Or.inl reserved, fun owned =>
        Set.disjoint_left.mp (L.fresh a held) owned reserved⟩
    · exact ⟨Or.inr ⟨b, List.mem_of_mem_erase member, owns⟩, fun owned =>
        Set.disjoint_left.mp (apart.1 b member) owned owns⟩
  · rintro ⟨reserved | ⟨b, member, owns⟩, out⟩
    · exact Or.inl reserved
    · rcases List.mem_cons.mp (split.mem_iff.mp member) with rfl | rest
      · exact absurd owns out
      · exact Or.inr ⟨b, rest, owns⟩

end Erase

/-- A resource is taken exactly when it is reserved or has one owner. -/
theorem mem_taken_iff_unique (L : Ledger extent) (p : P) :
    p ∈ L.taken ↔ p ∈ L.reserved ∨ ∃! a, a ∈ L.outstanding ∧ p ∈ extent a := by
  refine or_congr_right ⟨?_, ?_⟩
  · rintro ⟨a, member, owns⟩
    exact ⟨a, ⟨member, owns⟩, fun b other => L.owner_unique other.1 member other.2 owns⟩
  · rintro ⟨a, owned, _⟩
    exact ⟨a, owned⟩

end Ledger
