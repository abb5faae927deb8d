import Mathlib.Algebra.Ring.Nat
import Mathlib.Data.Set.Lattice
import Mathlib.Order.CompletePartialOrder
import Mathlib.Tactic.Common

/-!
# First in, first out

A list that is appended to at its back and taken from at its front. `Serves` relates
the requests made to it to the values it returns, for runs in which it never holds
more than a capacity and is never taken from when empty.
-/

namespace Fifo

variable {α : Type*} {capacity : Nat}

inductive Request (α : Type*) where
  | enqueue (val : α)
  | dequeue
  | dequeueSilent

/-- The requests turn the first list into the second one and return the values in order. -/
inductive Serves (capacity : Nat) : List α → List (Request α) → List α → List α → Prop
  | done (l : List α) : Serves capacity l [] [] l
  | enqueue {val : α} {l left returned : List α} {rest : List (Request α)} :
      l.length < capacity → Serves capacity (l ++ [val]) rest returned left →
      Serves capacity l (.enqueue val :: rest) returned left
  | dequeue {val : α} {l left returned : List α} {rest : List (Request α)} :
      Serves capacity l rest returned left →
      Serves capacity (val :: l) (.dequeue :: rest) (val :: returned) left
  | dequeueSilent {val : α} {l left returned : List α} {rest : List (Request α)} :
      Serves capacity l rest returned left →
      Serves capacity (val :: l) (.dequeueSilent :: rest) returned left

/-- How many values are enqueued. -/
def enqueues : List (Request α) → Nat
  | [] => 0
  | .enqueue _ :: rest => enqueues rest + 1
  | _ :: rest => enqueues rest

/-- A value put in and taken out again, any number of times. -/
def laps (val : α) : Nat → List (Request α) → List (Request α)
  | 0, rest => rest
  | n + 1, rest => .enqueue val :: .dequeue :: laps val n rest

theorem enqueues_laps (val : α) (n : Nat) (rest : List (Request α)) :
    enqueues (laps val n rest) = enqueues rest + n := by
  induction n with
  | zero => rfl
  | succ n ih =>
    simp only [laps, enqueues, ih]
    omega

theorem Serves.laps {val : α} {rest : List (Request α)} {returned left : List α}
    (positive : 0 < capacity) (served : Serves capacity [] rest returned left) (n : Nat) :
    Serves capacity [] (laps val n rest) (List.replicate n val ++ returned) left := by
  induction n with
  | zero => exact served
  | succ n ih => exact .enqueue positive (.dequeue ih)

/-! ### A list in a row of cells -/

/-- The cells hold the list: its `i`-th value is in the cell of position `first + i`. -/
def Holds (cell : Nat → Nat) (cells : Nat → α) (first : Nat) (l : List α) : Prop :=
  ∀ i (inside : i < l.length), cells (cell (first + i)) = l[i]

variable {cell : Nat → Nat} {cells : Nat → α} {first : Nat} {l : List α} {val : α}

theorem holds_nil : Holds cell cells first [] := by
  intro i inside
  exact absurd inside (Nat.not_lt_zero i)

/-- A value written behind the list, to a cell none of its values is in, is its last one. -/
theorem Holds.append (holds : Holds cell cells first l)
    (apart : ∀ i < l.length, cell (first + i) ≠ cell (first + l.length)) :
    Holds cell (Function.update cells (cell (first + l.length)) val) first (l ++ [val]) := by
  intro i inside
  rw [List.length_append, List.length_singleton] at inside
  by_cases old : i < l.length
  · rw [Function.update_of_ne (apart i old), List.getElem_append_left old]
    exact holds i old
  · obtain rfl : i = l.length := by omega
    rw [Function.update_self, List.getElem_concat_length rfl]

theorem Holds.head (holds : Holds cell cells first (val :: l)) : cells (cell first) = val := by
  have here := holds 0 (Nat.zero_lt_succ _)
  simpa using here

theorem Holds.tail (holds : Holds cell cells first (val :: l)) :
    Holds cell cells (first + 1) l := by
  intro i inside
  have here := holds (i + 1) (Nat.succ_lt_succ inside)
  rw [List.getElem_cons_succ] at here
  rw [← here, Nat.add_right_comm, Nat.add_assoc]

end Fifo
