import Mathlib.Algebra.Ring.Nat
import Mathlib.Data.Set.Lattice
import Mathlib.Logic.Function.Basic
import Mathlib.Order.CompletePartialOrder
import Mathlib.Tactic.Common

/-!
# Rings with a cycle bit

The slots of a ring are used lap after lap. A position counts the slots from the first one
on, so that it names a slot and a lap. Every slot carries a bit, and a position is filled
while the bit of its slot is the bit of its lap.
-/

namespace CycleRing

variable {len n first last : Nat} {bits : Nat → Bool}

/-- The bit of the lap that a position is in; laps alternate. -/
def lapBit (len n : Nat) : Bool := n / len % 2 == 0

@[simp] theorem lapBit_zero : lapBit len 0 = true := by simp [lapBit]

theorem lapBit_add (positive : 0 < len) : lapBit len (n + len) = !lapBit len n := by
  have next : (n + len) / len = n / len + 1 := Nat.add_div_right n positive
  rw [lapBit, lapBit, next]
  rcases Nat.mod_two_eq_zero_or_one (n / len) with even | odd
  · simp [Nat.add_mod, even]
  · simp [Nat.add_mod, odd]

/-- The next position is in the next slot of the lap, or the lap ends. -/
theorem next_position (positive : 0 < len) :
    (n % len + 1 < len ∧ (n + 1) % len = n % len + 1 ∧ lapBit len (n + 1) = lapBit len n) ∨
    (n % len + 1 = len ∧ (n + 1) % len = 0 ∧ lapBit len (n + 1) = !lapBit len n) := by
  have inside := Nat.mod_lt n positive
  have parts := Nat.div_add_mod n len
  by_cases ends : n % len + 1 = len
  · have whole : n + 1 = len * (n / len + 1) := by rw [Nat.mul_add]; omega
    refine Or.inr ⟨ends, by rw [whole, Nat.mul_mod_right], ?_⟩
    have same : lapBit len (n + 1) = lapBit len (n / len * len + len) := by
      rw [whole, Nat.mul_add, Nat.mul_one, Nat.mul_comm]
    rw [same, lapBit_add positive, lapBit, lapBit, Nat.mul_div_cancel _ positive]
  · have whole : n + 1 = (n % len + 1) + len * (n / len) := by omega
    have small : n % len + 1 < len := by omega
    refine Or.inl ⟨small, ?_, ?_⟩
    · rw [whole, Nat.add_mul_mod_self_left, Nat.mod_eq_of_lt small]
    · rw [lapBit, lapBit, whole, Nat.add_mul_div_left _ _ positive, Nat.div_eq_of_lt small,
        Nat.zero_add]

/-- Two positions less than a lap apart are in different slots. -/
theorem slot_ne {m : Nat} (before : m < n) (near : n < m + len) : n % len ≠ m % len := by
  intro same
  have apart := Nat.sub_mod_eq_zero_of_mod_eq same
  rw [Nat.mod_eq_of_lt (by omega)] at apart
  omega

/-- The positions from `first` to before `last` are filled, and no later ones are. -/
structure Window (len : Nat) (bits : Nat → Bool) (first last : Nat) : Prop where
  ordered : first ≤ last
  fits : last ≤ first + len
  filled : ∀ n, first ≤ n → n < last → bits (n % len) = lapBit len n
  free : ∀ n, last ≤ n → n < first + len → bits (n % len) ≠ lapBit len n

namespace Window

theorem empty (clear : ∀ i < len, bits i = false) : Window len bits 0 0 where
  ordered := Nat.le_refl 0
  fits := Nat.zero_le _
  filled n _ before := absurd before (Nat.not_lt_zero n)
  free n _ inside := by
    rw [Nat.zero_add] at inside
    rw [Nat.mod_eq_of_lt inside, clear n inside, lapBit, Nat.div_eq_of_lt inside]
    decide

theorem full (set : ∀ i < len, bits i = true) : Window len bits 0 len where
  ordered := Nat.zero_le _
  fits := Nat.le_of_eq (Nat.zero_add _).symm
  filled n _ inside := by
    rw [Nat.mod_eq_of_lt inside, set n inside, lapBit, Nat.div_eq_of_lt inside]
    decide
  free n after inside := by omega

/-- Only the bits of the slots matter. -/
theorem congr (window : Window len bits first last) (positive : 0 < len) {bits' : Nat → Bool}
    (same : ∀ i < len, bits' i = bits i) : Window len bits' first last where
  ordered := window.ordered
  fits := window.fits
  filled n after before := by
    rw [same _ (Nat.mod_lt _ positive)]
    exact window.filled n after before
  free n after inside := by
    rw [same _ (Nat.mod_lt _ positive)]
    exact window.free n after inside

/-- The slot after the filled ones tells whether there is a filled one. -/
theorem filled_iff (window : Window len bits first last) (positive : 0 < len) :
    bits (first % len) = lapBit len first ↔ first < last := by
  constructor
  · intro same
    by_contra none
    exact window.free first (by omega) (by omega) same
  · exact window.filled first (Nat.le_refl _)

/-- A position that is taken is free in the next lap. -/
theorem take (window : Window len bits first last) (some : first < last) :
    Window len bits (first + 1) last where
  ordered := some
  fits := by
    have := window.fits
    omega
  filled n after before := window.filled n (by omega) before
  free n after inside := by
    have fits := window.fits
    by_cases lap : n = first + len
    · rw [lap, Nat.add_mod_right, lapBit_add (by omega), window.filled first (Nat.le_refl _) some]
      exact (Bool.not_ne_self _).symm
    · exact window.free n after (by omega)

/-- The next position is filled. -/
theorem put (window : Window len bits first last) (room : last < first + len) {bits' : Nat → Bool}
    (set : bits' (last % len) = lapBit len last)
    (others : ∀ i, i ≠ last % len → bits' i = bits i) : Window len bits' first (last + 1) where
  ordered := by
    have := window.ordered
    omega
  fits := room
  filled n after before := by
    have ordered := window.ordered
    by_cases new : n = last
    · rw [new, set]
    · rw [others _ (slot_ne (m := n) (by omega) (by omega)).symm]
      exact window.filled n after (by omega)
  free n after inside := by
    have ordered := window.ordered
    rw [others _ (slot_ne (by omega) (by omega))]
    exact window.free n (by omega) inside

end Window

/-- What was consumed so far, and the next one that was produced. -/
theorem consumed_concat {α : Type*} {consumed produced : List α} {x : α}
    (order : consumed <+: produced) (next : produced[consumed.length]? = some x) :
    consumed ++ [x] <+: produced := by
  obtain ⟨rest, rfl⟩ := order
  rw [List.getElem?_append_right (Nat.le_refl _), Nat.sub_self] at next
  cases rest with
  | nil => cases next
  | cons y rest =>
    obtain rfl := Option.some.inj next
    exact ⟨rest, List.append_assoc _ _ _⟩

end CycleRing
