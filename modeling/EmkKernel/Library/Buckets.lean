import Mathlib.Algebra.Ring.Nat
import Mathlib.Data.List.Nodup
import Mathlib.Data.Set.Lattice
import Mathlib.Logic.Function.Basic
import Mathlib.Order.CompletePartialOrder
import Mathlib.Tactic.Common

/-!
# Hash tables with chains

A table files every entry under the bucket of its key and holds no key twice. The
two invariants are fields, so a lookup that searches one bucket is a lookup in
the whole table, and what is filed under one key does not concern another.
-/

/-- Entries filed under the bucket of their key. -/
structure Buckets {K I : Type*} (V : Type*) (index : K → I) where
  entries : I → List (K × V)
  filed : ∀ i, ∀ e ∈ entries i, index e.1 = i
  nodup : ∀ i, ((entries i).map Prod.fst).Nodup

namespace Buckets

variable {K I V : Type*} {index : K → I}

/-- The table without entries. -/
def empty (V : Type*) (index : K → I) : Buckets V index where
  entries := fun _ => []
  filed := fun _ e member => by cases member
  nodup := fun _ => List.nodup_nil

section Lookup

variable [DecidableEq K]

/-- What is filed under a key: its bucket is searched from the front. -/
def lookup (b : Buckets V index) (k : K) : Option V :=
  ((b.entries (index k)).find? fun e => e.1 = k).map Prod.snd

theorem lookup_eq_none (b : Buckets V index) (k : K) :
    b.lookup k = none ↔ ∀ e ∈ b.entries (index k), e.1 ≠ k := by
  simp [lookup]

/-- Entries and answers are the same thing. -/
theorem lookup_eq_some (b : Buckets V index) (k : K) (v : V) :
    b.lookup k = some v ↔ (k, v) ∈ b.entries (index k) := by
  constructor
  · intro found
    obtain ⟨⟨k', v'⟩, here, rfl⟩ := Option.map_eq_some_iff.mp found
    obtain rfl : k' = k := by simpa using List.find?_some here
    exact List.mem_of_find?_eq_some here
  · intro member
    have unique : ∀ e ∈ b.entries (index k), e.1 = k → e = (k, v) := fun e other same =>
      List.inj_on_of_nodup_map (b.nodup (index k)) other member same
    rw [lookup, Option.map_eq_some_iff]
    cases found : (b.entries (index k)).find? fun e => e.1 = k with
    | none => exact absurd (decide_eq_true rfl) (List.find?_eq_none.mp found _ member)
    | some e =>
      exact ⟨e, rfl, congrArg Prod.snd (unique e (List.mem_of_find?_eq_some found)
        (by simpa using List.find?_some found))⟩

@[simp] theorem lookup_empty (k : K) : (empty V index).lookup k = none := rfl

variable [DecidableEq I]

/-- File an entry at the end of the bucket of its key. -/
def insert (b : Buckets V index) (k : K) (v : V) (fresh : b.lookup k = none) :
    Buckets V index where
  entries := Function.update b.entries (index k) (b.entries (index k) ++ [(k, v)])
  filed := by
    intro i e member
    by_cases here : i = index k
    · subst here
      rw [Function.update_self] at member
      rcases List.mem_append.mp member with old | new
      · exact b.filed _ e old
      · rw [List.mem_singleton.mp new]
    · rw [Function.update_of_ne here] at member
      exact b.filed i e member
  nodup := by
    intro i
    by_cases here : i = index k
    · subst here
      rw [Function.update_self, List.map_append, List.map_cons, List.map_nil, List.nodup_append]
      refine ⟨b.nodup _, List.nodup_singleton _, fun j old l new => ?_⟩
      obtain ⟨e, member, rfl⟩ := List.mem_map.mp old
      rw [List.mem_singleton.mp new]
      exact (b.lookup_eq_none k).mp fresh e member
    · rw [Function.update_of_ne here]
      exact b.nodup i

@[simp] theorem entries_insert_self (b : Buckets V index) {k : K} {v : V}
    (fresh : b.lookup k = none) :
    (b.insert k v fresh).entries (index k) = b.entries (index k) ++ [(k, v)] :=
  Function.update_self ..

theorem lookup_insert (b : Buckets V index) {k : K} {v : V} (fresh : b.lookup k = none) (j : K) :
    (b.insert k v fresh).lookup j = if j = k then some v else b.lookup j := by
  split
  next same =>
    subst same
    rw [lookup_eq_some]
    simp only [insert, Function.update_self]
    exact List.mem_append_right _ (List.mem_singleton_self _)
  next other =>
    have find : ((b.insert k v fresh).entries (index j)).find? (fun e => e.1 = j) =
        (b.entries (index j)).find? fun e => e.1 = j := by
      by_cases here : index j = index k
      · have apart : decide (k = j) = false := decide_eq_false (Ne.symm other)
        simp only [insert, here, Function.update_self, List.find?_append, List.find?_cons, apart,
          List.find?_nil, Option.or_none]
      · simp only [insert, Function.update_of_ne here]
    rw [lookup, find, lookup]

end Lookup

end Buckets
