import Mathlib.Algebra.Ring.Nat
import Mathlib.Data.Set.Lattice
import Mathlib.Logic.Function.Basic
import Mathlib.Order.CompletePartialOrder
import Mathlib.Tactic.Common

/-!
# Computations that record which cells they touch

A `Traced` computation returns its value together with the indices of the
memory cells it read or wrote, in order. The two projections of a bind are the
projections of its parts, so a proof about the value never sees the trace and a
proof about the trace only follows the accesses.
-/

/-- A value and the cells touched while computing it. -/
structure Traced (α : Type) where
  value : α
  touched : List Nat

namespace Traced

variable {α β : Type}

instance : Monad Traced where
  pure a := ⟨a, []⟩
  bind x f := ⟨(f x.value).value, x.touched ++ (f x.value).touched⟩

@[simp] theorem value_pure (a : α) : (pure a : Traced α).value = a := rfl

@[simp] theorem touched_pure (a : α) : (pure a : Traced α).touched = [] := rfl

@[simp] theorem value_bind (x : Traced α) (f : α → Traced β) :
    (x >>= f).value = (f x.value).value := rfl

@[simp] theorem touched_bind (x : Traced α) (f : α → Traced β) :
    (x >>= f).touched = x.touched ++ (f x.value).touched := rfl

@[simp] theorem value_ite (c : Prop) [Decidable c] (x y : Traced α) :
    (if c then x else y).value = if c then x.value else y.value := by
  split <;> rfl

@[simp] theorem touched_ite (c : Prop) [Decidable c] (x y : Traced α) :
    (if c then x else y).touched = if c then x.touched else y.touched := by
  split <;> rfl

/-- Every cell touched lies below the bound. -/
def Within (x : Traced α) (bound : Nat) : Prop :=
  ∀ i ∈ x.touched, i < bound

instance (x : Traced α) (bound : Nat) : Decidable (x.Within bound) :=
  inferInstanceAs (Decidable (∀ i ∈ x.touched, i < bound))

@[simp] theorem within_pure (a : α) (bound : Nat) : (pure a : Traced α).Within bound := by
  simp [Within]

@[simp] theorem within_bind (x : Traced α) (f : α → Traced β) (bound : Nat) :
    (x >>= f).Within bound ↔ x.Within bound ∧ (f x.value).Within bound := by
  simp [Within, or_imp, forall_and]

end Traced
