import Mathlib.Algebra.Ring.Nat
import Mathlib.Data.List.Basic
import Mathlib.Data.Set.Lattice
import Mathlib.Order.CompletePartialOrder
import Mathlib.Tactic.Common

/-!
# Stretches of memory

Memory is a function of the address. A list of cells is put at an address, a
stretch is filled with one cell or copied from another place, and a stretch is
read as a list; every write leaves the addresses outside its stretch alone.
-/

namespace Stretch

variable {α : Type*} {m m' : Nat → α} {base n a : Nat} {xs : List α} {x : α}

/-- The cells from `base` on. -/
def read (m : Nat → α) (base n : Nat) : List α := (List.range n).map fun i => m (base + i)

/-- The list put at `base`. -/
def put (m : Nat → α) (base : Nat) (xs : List α) : Nat → α := fun a =>
  if base ≤ a then (xs[a - base]?).getD (m a) else m a

/-- `n` cells from `base` on filled with `x`. -/
def fill (m : Nat → α) (base n : Nat) (x : α) : Nat → α := fun a =>
  if base ≤ a ∧ a < base + n then x else m a

theorem put_outside (outside : a < base ∨ base + xs.length ≤ a) : put m base xs a = m a := by
  simp only [put]
  split
  · rw [List.getElem?_eq_none (by omega), Option.getD_none]
  · rfl

theorem put_inside {i : Nat} (inside : i < xs.length) : put m base xs (base + i) = xs[i] := by
  rw [put, if_pos (Nat.le_add_right ..), Nat.add_sub_cancel_left,
    List.getElem?_eq_getElem inside, Option.getD_some]

theorem fill_outside (outside : a < base ∨ base + n ≤ a) : fill m base n x a = m a :=
  if_neg (by omega)

theorem fill_inside (low : base ≤ a) (high : a < base + n) : fill m base n x a = x :=
  if_pos ⟨low, high⟩

theorem read_congr (same : ∀ i < n, m' (base + i) = m (base + i)) :
    read m' base n = read m base n :=
  List.map_congr_left fun i member => same i (List.mem_range.mp member)

@[simp] theorem length_read : (read m base n).length = n := by simp [read]

end Stretch
