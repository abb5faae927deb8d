import Mathlib.Order.Basic
import Mathlib.Tactic.Common

/-!
# Steps that may come to an end

A partial function taken as the step of a loop: the state after so many steps, and loops
that end. A loop ends if every state it comes to ends it or makes some measure smaller.
-/

namespace Iteration

variable {α : Type} {step step' : α → Option α} {a b : α} {m n : Nat}

/-- The state after `n` steps, if there are so many. -/
def stepsTo (step : α → Option α) : Nat → α → Option α
  | 0, a => some a
  | n + 1, a => (stepsTo step n a).bind step

/-- There is a last step. -/
def Ends (step : α → Option α) (a : α) : Prop := ∃ n, stepsTo step n a = none

theorem stepsTo_add (m n : Nat) (a : α) :
    stepsTo step (m + n) a = (stepsTo step m a).bind (stepsTo step n) := by
  induction n with
  | zero =>
    cases stepsTo step m a with
    | none => rfl
    | some b => rfl
  | succ n ih =>
    rw [← Nat.add_assoc, stepsTo, ih, Option.bind_assoc]
    rfl

theorem stepsTo_one (a : α) : stepsTo step 1 a = step a := rfl

theorem stepsTo_succ (n : Nat) (a : α) :
    stepsTo step (n + 1) a = (step a).bind (stepsTo step n) := by
  rw [Nat.add_comm, stepsTo_add, stepsTo_one]

/-- A state that is reached has all the states before it. -/
theorem reached_before (reached : stepsTo step n a = some b) (less : m ≤ n) :
    ∃ c, stepsTo step m a = some c ∧ stepsTo step (n - m) c = some b := by
  obtain ⟨k, rfl⟩ := Nat.exists_eq_add_of_le less
  rw [stepsTo_add] at reached
  obtain ⟨c, before, after⟩ := Option.bind_eq_some_iff.mp reached
  rw [Nat.add_sub_cancel_left]
  exact ⟨c, before, after⟩

theorem none_of_le (ended : stepsTo step m a = none) (le : m ≤ n) : stepsTo step n a = none := by
  obtain ⟨k, rfl⟩ := Nat.exists_eq_add_of_le le
  rw [stepsTo_add, ended]
  rfl

theorem ends_of_none (last : step a = none) : Ends step a := ⟨1, last⟩

/-- A step that leads back to where it starts has no end. -/
theorem not_ends_of_fixed (fixed : step a = some a) : ¬Ends step a := by
  rintro ⟨n, ended⟩
  have still : stepsTo step n a = some a := by
    clear ended
    induction n with
    | zero => rfl
    | succ n ih =>
      rw [stepsTo, ih]
      exact fixed
  rw [still] at ended
  cases ended

/-- A loop ends if it ends from a state that it comes to, and only then. -/
theorem ends_iff_of_reached (reached : stepsTo step n a = some b) :
    Ends step a ↔ Ends step b := by
  constructor
  · rintro ⟨k, ended⟩
    refine ⟨k, ?_⟩
    have later := none_of_le ended (Nat.le_add_left k n)
    rw [stepsTo_add, reached] at later
    exact later
  · rintro ⟨k, ended⟩
    refine ⟨n + k, ?_⟩
    rw [stepsTo_add, reached]
    exact ended

/-- Two loops whose steps agree on the states that one of them comes to. -/
theorem stepsTo_congr (agree : ∀ m < n, ∀ b, stepsTo step m a = some b → step' b = step b) :
    stepsTo step' n a = stepsTo step n a := by
  induction n with
  | zero => rfl
  | succ n ih =>
    have before := ih fun m less => agree m (Nat.lt_succ_of_lt less)
    rw [stepsTo, stepsTo, before]
    cases reached : stepsTo step n a with
    | none => rfl
    | some b => exact agree n (Nat.lt_succ_self n) b reached

/-- A loop ends if every state it comes to ends it or makes a measure smaller. -/
theorem ends_of_measure (μ : α → Nat)
    (each : ∀ n b, stepsTo step n a = some b →
      Ends step b ∨ ∀ c, step b = some c → μ c < μ b) : Ends step a := by
  induction measure : μ a using Nat.strongRecOn generalizing a with
  | ind k ih =>
    rcases each 0 a rfl with ends | smaller
    · exact ends
    · cases next : step a with
      | none => exact ends_of_none next
      | some b =>
        refine (ends_iff_of_reached (n := 1) next).mpr (ih (μ b) ?_ ?_ rfl)
        · rw [← measure]
          exact smaller b next
        · intro n c reached
          refine each (n + 1) c ?_
          rw [stepsTo_succ, next]
          exact reached

end Iteration
