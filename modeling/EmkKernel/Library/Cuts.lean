import Mathlib.Algebra.Group.Nat.Even
import Mathlib.Algebra.Ring.Nat
import Mathlib.Data.Set.Lattice
import Mathlib.Order.CompletePartialOrder
import Mathlib.Order.Interval.Set.Basic
import Mathlib.Order.Monotone.Basic
import Mathlib.Tactic.Common

/-!
# Cells between cut points

A monotone sequence of cut points divides an interval into cells. The cells with
an even index are held, the ones between them are free. Three edits change what
is held: a cut point that starts a free cell moves up, a cut point that starts a
held cell moves up, and two new cut points open a gap in a held cell.
-/

namespace Cuts

variable {α : Type*} [LinearOrder α] {cut : Nat → α} {n c : Nat} {x y : α}

/-- The points of cell `i`. -/
def cell (cut : Nat → α) (i : Nat) : Set α := Set.Ico (cut i) (cut (i + 1))

/-- The points of the even cells among the first `n`. -/
def held (cut : Nat → α) (n : Nat) : Set α := {x | ∃ i < n, Even i ∧ x ∈ cell cut i}

/-- The points of the odd cells among the first `n`. -/
def free (cut : Nat → α) (n : Nat) : Set α := {x | ∃ i < n, ¬Even i ∧ x ∈ cell cut i}

/-- A point has at most one cell. -/
theorem cell_unique (monotone : Monotone cut) {i j : Nat} (first : x ∈ cell cut i)
    (second : x ∈ cell cut j) : i = j := by
  rcases Nat.lt_trichotomy i j with before | same | after
  · exact absurd (first.2.trans_le ((monotone before).trans second.1)) (lt_irrefl x)
  · exact same
  · exact absurd (second.2.trans_le ((monotone after).trans first.1)) (lt_irrefl x)

theorem cell_disjoint_held (monotone : Monotone cut) (odd : ¬Even c) :
    Disjoint (cell cut c) (held cut n) := by
  refine Set.disjoint_left.mpr fun x free ⟨i, _, even, inside⟩ => ?_
  exact odd (cell_unique monotone free inside ▸ even)

theorem held_subset (monotone : Monotone cut) : held cut n ⊆ Set.Ico (cut 0) (cut n) := by
  rintro x ⟨i, below, _, inside⟩
  exact ⟨(monotone (Nat.zero_le i)).trans inside.1, inside.2.trans_le (monotone below)⟩

/-- A point between the first and the last cut point has a cell. -/
theorem exists_cell (start : cut 0 ≤ x) (bound : x < cut n) : ∃ i < n, x ∈ cell cut i := by
  induction n with
  | zero => exact absurd (start.trans_lt bound) (lt_irrefl _)
  | succ n ih =>
    rcases lt_or_ge x (cut n) with before | here
    · obtain ⟨i, below, member⟩ := ih before
      exact ⟨i, by omega, member⟩
    · exact ⟨n, Nat.lt_succ_self n, here, bound⟩

/-- What is not held is free. -/
theorem free_eq (monotone : Monotone cut) : free cut n = Set.Ico (cut 0) (cut n) \ held cut n := by
  ext x
  constructor
  · rintro ⟨i, below, odd, member⟩
    refine ⟨⟨(monotone (Nat.zero_le i)).trans member.1, member.2.trans_le (monotone below)⟩, ?_⟩
    exact Set.disjoint_left.mp (cell_disjoint_held monotone odd) member
  · rintro ⟨inside, unheld⟩
    obtain ⟨i, below, member⟩ := exists_cell inside.1 inside.2
    exact ⟨i, below, fun even => unheld ⟨i, below, even, member⟩, member⟩

/-- Move cut point `c` to `y`. -/
def move (cut : Nat → α) (c : Nat) (y : α) : Nat → α := Function.update cut c y

omit [LinearOrder α] in
@[simp] theorem move_self (cut : Nat → α) (c : Nat) (y : α) : move cut c y c = y :=
  Function.update_self ..

omit [LinearOrder α] in
theorem move_of_ne {i : Nat} (other : i ≠ c) : move cut c y i = cut i :=
  Function.update_of_ne other ..

theorem move_monotone (monotone : Monotone cut) (low : cut c ≤ y) (high : y ≤ cut (c + 1)) :
    Monotone (move cut c y) := by
  refine monotone_nat_of_le_succ fun i => ?_
  by_cases here : i = c
  · subst here
    rw [move_self, move_of_ne (Nat.succ_ne_self i)]
    exact high
  · rw [move_of_ne here]
    by_cases next : i + 1 = c
    · rw [next, move_self]
      exact (monotone (next ▸ Nat.le_succ i)).trans low
    · rw [move_of_ne next]
      exact monotone (Nat.le_succ i)

theorem cell_move_of_ne {i : Nat} (notHere : i ≠ c) (notNext : i + 1 ≠ c) :
    cell (move cut c y) i = cell cut i := by
  rw [cell, cell, move_of_ne notHere, move_of_ne notNext]

/-- Moving up the start of a free cell adds the points passed to the held ones. -/
theorem held_move_free (monotone : Monotone cut) (low : cut (c + 1) ≤ y) (even : Even c)
    (inside : c < n) : held (move cut (c + 1) y) n = held cut n ∪ Set.Ico (cut (c + 1)) y := by
  have grown : cell (move cut (c + 1) y) c = Set.Ico (cut c) y := by
    rw [cell, move_self, move_of_ne (Nat.ne_of_lt (Nat.lt_succ_self c))]
  have other {i : Nat} (evenI : Even i) (different : i ≠ c) :
      cell (move cut (c + 1) y) i = cell cut i := by
    refine cell_move_of_ne (fun same => ?_) (by omega)
    exact Nat.even_add_one.mp (same ▸ evenI) even
  ext x
  constructor
  · rintro ⟨i, below, evenI, member⟩
    by_cases same : i = c
    · rw [same, grown] at member
      by_cases old : x < cut (c + 1)
      · exact Or.inl ⟨c, inside, even, member.1, old⟩
      · exact Or.inr ⟨not_lt.mp old, member.2⟩
    · exact Or.inl ⟨i, below, evenI, other evenI same ▸ member⟩
  · rintro (⟨i, below, evenI, member⟩ | passed)
    · refine ⟨i, below, evenI, ?_⟩
      by_cases same : i = c
      · rw [same, grown]
        exact ⟨same ▸ member.1, (same ▸ member.2 : x < cut (c + 1)).trans_le low⟩
      · rw [other evenI same]
        exact member
    · refine ⟨c, inside, even, ?_⟩
      rw [grown]
      exact ⟨(monotone (Nat.le_succ c)).trans passed.1, passed.2⟩

/-- Moving up the start of a held cell takes the points passed from the held ones. -/
theorem held_move_held (monotone : Monotone cut) (high : y ≤ cut (c + 1)) (low : cut c ≤ y)
    (even : Even c) : held (move cut c y) n = held cut n \ Set.Ico (cut c) y := by
  have shrunk : cell (move cut c y) c = Set.Ico y (cut (c + 1)) := by
    rw [cell, move_self, move_of_ne (Nat.succ_ne_self c)]
  have other {i : Nat} (evenI : Even i) (different : i ≠ c) :
      cell (move cut c y) i = cell cut i := by
    refine cell_move_of_ne different fun same => ?_
    exact Nat.even_add_one.mp (same ▸ even) evenI
  ext x
  constructor
  · rintro ⟨i, below, evenI, member⟩
    by_cases same : i = c
    · rw [same, shrunk] at member
      exact ⟨⟨c, same ▸ below, even, low.trans member.1, member.2⟩,
        fun passed => absurd (passed.2.trans_le member.1) (lt_irrefl x)⟩
    · rw [other evenI same] at member
      refine ⟨⟨i, below, evenI, member⟩, fun passed => same ?_⟩
      exact cell_unique monotone member ⟨passed.1, passed.2.trans_le high⟩
  · rintro ⟨⟨i, below, evenI, member⟩, out⟩
    refine ⟨i, below, evenI, ?_⟩
    by_cases same : i = c
    · subst same
      rw [shrunk]
      exact ⟨not_lt.mp fun lower => out ⟨member.1, lower⟩, member.2⟩
    · rw [other evenI same]
      exact member

/-- Two new cut points `x` and `y` in cell `r`. -/
def gap (cut : Nat → α) (r : Nat) (x y : α) (i : Nat) : α :=
  if i ≤ r then cut i else if i = r + 1 then x else if i = r + 2 then y else cut (i - 2)

section Gap

variable {r : Nat}

omit [LinearOrder α] in
theorem gap_of_le {i : Nat} (before : i ≤ r) : gap cut r x y i = cut i := if_pos before

omit [LinearOrder α] in
@[simp] theorem gap_first : gap cut r x y (r + 1) = x := by simp [gap]

omit [LinearOrder α] in
@[simp] theorem gap_second : gap cut r x y (r + 2) = y := by simp [gap]

omit [LinearOrder α] in
theorem gap_later {i : Nat} (later : r < i) : gap cut r x y (i + 2) = cut i := by
  simp only [gap]
  rw [if_neg (by omega), if_neg (by omega), if_neg (by omega), Nat.add_sub_cancel]

theorem gap_monotone (monotone : Monotone cut) (low : cut r ≤ x) (ordered : x ≤ y)
    (high : y ≤ cut (r + 1)) : Monotone (gap cut r x y) := by
  refine monotone_nat_of_le_succ fun i => ?_
  rcases Nat.lt_trichotomy i r with before | rfl | after
  · rw [gap_of_le before.le, gap_of_le before]
    exact monotone (Nat.le_succ i)
  · rw [gap_of_le le_rfl, gap_first]
    exact low
  · obtain ⟨j, rfl⟩ : ∃ j, i = r + 1 + j := ⟨i - (r + 1), by omega⟩
    match j with
    | 0 => exact (gap_first : gap cut r x y (r + 1) = x).trans_le (ordered.trans_eq gap_second.symm)
    | 1 =>
      rw [show r + 1 + 1 = r + 2 from rfl, gap_second, gap_later (Nat.lt_succ_self r)]
      exact high
    | k + 2 =>
      rw [show r + 1 + (k + 2) = r + 1 + k + 2 from rfl, gap_later (by omega),
        show r + 1 + k + 2 + 1 = r + 1 + k + 1 + 2 from rfl, gap_later (by omega)]
      exact monotone (Nat.le_succ _)

/-- Opening a gap in the last held cell takes its points from the held ones. -/
theorem held_gap (monotone : Monotone cut) (low : cut r ≤ x) (ordered : x ≤ y)
    (high : y ≤ cut (r + 1)) (even : Even r) :
    held (gap cut r x y) (r + 4) = held cut (r + 2) \ Set.Ico x y := by
  have before {i : Nat} (less : i < r) : cell (gap cut r x y) i = cell cut i := by
    rw [cell, cell, gap_of_le less.le, gap_of_le less]
  have front : cell (gap cut r x y) r = Set.Ico (cut r) x := by
    rw [cell, gap_of_le le_rfl, gap_first]
  have back : cell (gap cut r x y) (r + 2) = Set.Ico y (cut (r + 1)) := by
    rw [cell, gap_second, show r + 2 + 1 = r + 1 + 2 from rfl, gap_later (Nat.lt_succ_self r)]
  have notOdd {i : Nat} (evenI : Even i) : i ≠ r + 1 := fun same =>
    Nat.even_add_one.mp (same ▸ evenI) even
  ext z
  constructor
  · rintro ⟨i, below, evenI, member⟩
    rcases Nat.lt_trichotomy i r with less | rfl | more
    · rw [before less] at member
      refine ⟨⟨i, by omega, evenI, member⟩, fun opened => Nat.ne_of_lt less ?_⟩
      exact cell_unique monotone member ⟨low.trans opened.1, opened.2.trans_le high⟩
    · rw [front] at member
      exact ⟨⟨i, by omega, even, member.1, member.2.trans_le (ordered.trans high)⟩,
        fun opened => absurd (member.2.trans_le opened.1) (lt_irrefl z)⟩
    · have last : i = r + 2 := by
        have := notOdd evenI
        have : i ≠ r + 3 := fun same => by
          subst same
          exact Nat.even_add_one.mp evenI (even.add ⟨1, rfl⟩)
        omega
      rw [last, back] at member
      exact ⟨⟨r, by omega, even, low.trans (ordered.trans member.1), member.2⟩,
        fun opened => absurd (opened.2.trans_le member.1) (lt_irrefl z)⟩
  · rintro ⟨⟨i, below, evenI, member⟩, out⟩
    rcases Nat.lt_trichotomy i r with less | rfl | more
    · exact ⟨i, by omega, evenI, (before less).symm ▸ member⟩
    · by_cases left : z < x
      · exact ⟨i, by omega, evenI, front.symm ▸ ⟨member.1, left⟩⟩
      · refine ⟨i + 2, by omega, evenI.add ⟨1, rfl⟩, ?_⟩
        rw [back]
        exact ⟨not_lt.mp fun right => out ⟨not_lt.mp left, right⟩, member.2⟩
    · exact absurd (Nat.le_antisymm (Nat.lt_succ_iff.mp below) more) (notOdd evenI)

end Gap

/-- All cut points from `n` on are replaced by one. -/
def lengthen (cut : Nat → α) (n : Nat) (y : α) (i : Nat) : α := if i < n then cut i else y

omit [LinearOrder α] in
theorem lengthen_of_lt {i : Nat} (below : i < n) : lengthen cut n y i = cut i := if_pos below

omit [LinearOrder α] in
@[simp] theorem lengthen_self : lengthen cut n y n = y := if_neg (Nat.lt_irrefl n)

theorem lengthen_monotone (monotone : Monotone cut) (high : cut n ≤ y) :
    Monotone (lengthen cut n y) := by
  intro i j le
  unfold lengthen
  split_ifs with before after
  · exact monotone le
  · exact (monotone (Nat.le_of_lt before)).trans high
  · omega
  · exact le_rfl

/-- A longer last cell that is free does not change what is held. -/
theorem held_lengthen (odd : ¬Even c) (last : c + 1 = n) :
    held (lengthen cut n y) n = held cut n := by
  ext x
  refine exists_congr fun i => and_congr_right fun below => and_congr_right fun even => ?_
  have different : i ≠ c := fun same => odd (same ▸ even)
  rw [cell, cell, lengthen_of_lt below, lengthen_of_lt (by omega)]

end Cuts
