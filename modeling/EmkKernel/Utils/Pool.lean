import EmkKernel.Utils.Heap

/-!
# Pools

A pool lends ranges of its elements. Callers give back parts of what they got in one
piece, and a range that is not given back stays lent; the ranges lent are apart.
-/

namespace EmkKernel

open Cuts

namespace NodeAllocator

/-- The ranges lent lie apart in the node list, which reserves exactly their elements. -/
def Lends (a : NodeAllocator) (capacity : Nat) (lent : List Extent) : Prop :=
  ∃ cut L, (Heap.mk a lent).KeepsBooks capacity cut L

/-- The range ends at the end of a reserving node or in no reserving node: what
`free_offset` answers with `false`. -/
def Unheld (a : NodeAllocator) (e : Extent) : Prop :=
  ∀ i < a.numUsedNodes, (a.nodes i).isReserving → a.startOf i ≤ e.offset →
    a.startOf i + (a.nodes i).length ≤ e.offset + e.size

instance (a : NodeAllocator) (e : Extent) : Decidable (a.Unheld e) :=
  inferInstanceAs (Decidable (∀ i < a.numUsedNodes, _))

/-- The node list of `b` is one over the elements of `a`. -/
structure SameMemory (a b : NodeAllocator) : Prop where
  data : b.dataMemory = a.dataMemory
  element : b.elementSize = a.elementSize

/-- The pool after a request, as it was if the request panics. -/
def afterRequest (a : NodeAllocator) (size : Nat) : NodeAllocator :=
  match a.allocateAsOffset size with
  | .ok (_, b) => b
  | .error _ => a

variable {a : NodeAllocator} {capacity size : Nat} {lent : List Extent} {e f : Extent}

theorem lends_of_built (built : Heap.Built a) : a.Lends a.capacity [] := by
  obtain ⟨steady, used, _⟩ := Heap.built_steady built
  refine ⟨initialCut a.capacity, Ledger.opened ∅, steady, rfl, fun x => ?_, rfl, fun e member => ?_⟩
  · rw [Ledger.taken_opened, used, Heap.held_initialCut]
  · cases member

theorem Lends.apart (lends : a.Lends capacity lent) (he : e ∈ lent) (hf : f ∈ lent)
    (other : e ≠ f) : e.Disjoint f := by
  obtain ⟨cut, L, books⟩ := lends
  exact fun x first second => Set.disjoint_left.mp
    (L.apart (books.outstanding ▸ he) (books.outstanding ▸ hf) other) first second

theorem Lends.pairwise (lends : a.Lends capacity lent) : lent.Pairwise Extent.Disjoint := by
  obtain ⟨cut, L, books⟩ := lends
  rw [show lent = L.outstanding from books.outstanding]
  exact L.disjoint.imp fun apart x first second => Set.disjoint_left.mp apart first second

theorem Lends.positive (lends : a.Lends capacity lent) (he : e ∈ lent) : 0 < e.size := by
  obtain ⟨cut, L, books⟩ := lends
  exact books.nonempty e he

theorem Lends.inside (lends : a.Lends capacity lent) (he : e ∈ lent) :
    e.offset + e.size ≤ capacity := by
  have positive := lends.positive he
  obtain ⟨cut, L, books⟩ := lends
  have last : e.offset + e.size - 1 ∈ L.taken := by
    refine Or.inr ⟨e, books.outstanding ▸ he, ?_, ?_⟩ <;> omega
  have bound := (held_subset books.steady.monotone ((books.held _).mpr last)).2
  rw [books.steady.full] at bound
  omega

/-- A request that suits the node list is refused or lends a new range. -/
theorem Lends.allocate (lends : a.Lends capacity lent) (some : 0 < size)
    (suits : a.SuitsSize size) :
    (a.chosen size = none ∧ a.allocateAsOffset size = .ok (none, a)) ∨
      ∃ c b, a.chosen size = Option.some c ∧
        a.allocateAsOffset size = .ok (Option.some (a.startOf c), b) ∧
        a.SameMemory b ∧ b.Lends capacity (⟨a.startOf c, size⟩ :: lent) := by
  obtain ⟨cut, L, books⟩ := lends
  have steady := books.steady
  obtain ⟨s', served, cut', L', books', _⟩ := books.allocate some suits
  cases found : a.chosen size with
  | none => exact Or.inl ⟨rfl, steady.allocateAsOffset_none found⟩
  | some c =>
    obtain ⟨free, shorter, narrow⟩ := suits c found
    obtain ⟨used, _⟩ := chosen_used steady found
    have start := Heap.startOf_eq steady used
    have odd := (steady.isFreeing_iff used).mp free
    obtain ⟨c, rfl⟩ : ∃ b, c = b + 1 := Nat.exists_eq_succ_of_ne_zero fun zero =>
      odd (zero ▸ ⟨0, rfl⟩)
    rw [start] at narrow
    have ran := steady.allocateAsOffset found shorter
    rw [Heap.serve, ran] at served
    cases served
    refine Or.inr ⟨c + 1, ({ a with currentNode := c + 1 } : NodeAllocator).shifted c size, rfl, ?_,
      ⟨rfl, rfl⟩, cut', L', ?_⟩
    · rw [show a.startOf (c + 1) = _ from start]
      exact ran
    · rw [show a.startOf (c + 1) = _ from start]
      exact books'

/-- A lent range that is freed is lent no longer, or stays lent. -/
theorem Lends.free (lends : a.Lends capacity lent) (he : e ∈ lent)
    (suits : a.SuitsRange e ∨ a.Unheld e) :
    ∃ freed b, a.freeOffset e.offset e.size = .ok (freed, b) ∧ a.SameMemory b ∧
      ∃ lent', b.Lends capacity lent' ∧ ∀ f ∈ lent, f ≠ e → f ∈ lent' := by
  have lends' := lends
  obtain ⟨cut, L, books⟩ := lends
  rcases suits with suits | unheld
  · obtain ⟨s', served, cut', L', books', _⟩ := books.free he suits
    obtain ⟨b, cut₁, ran, data, element, _⟩ := Heap.freeOffset_suited books.steady suits
    rw [Heap.serve, ran] at served
    cases served
    exact ⟨true, b, ran, ⟨data, element⟩, lent.erase e, ⟨cut', L', books'⟩, fun f member other =>
      (List.mem_erase_of_ne other).mpr member⟩
  · have steady := books.steady
    -- the last element is reserved, so the range ends below the largest offset
    have positive := lends'.positive he
    have last : e.offset + e.size - 1 ∈ held cut a.numUsedNodes := by
      refine (books.held _).mpr (Or.inr ⟨e, books.outstanding ▸ he, ?_, ?_⟩) <;> omega
    obtain ⟨i, below, even, member⟩ := last
    have next := steady.next_used even below
    have narrow := steady.narrow _ next
    have ends := member.2
    refine ⟨false, a, steady.freeOffset_none (by omega) fun j used evenJ low => ?_,
      ⟨rfl, rfl⟩, lent,
      lends', fun f member _ => member⟩
    have reserving : (a.nodes j).isReserving := by
      rw [steady.nodes j used]
      exact decide_eq_true evenJ
    have reaches := unheld j used reserving (by rw [Heap.startOf_eq steady used]; exact low)
    rw [Heap.startOf_eq steady used, steady.length_eq used] at reaches
    have : cut j ≤ cut (j + 1) := steady.monotone (Nat.le_succ j)
    omega

/-- The pieces of a range. -/
def pieces (offset size n : Nat) : List Extent :=
  (List.range n).map fun i => ⟨offset + size * i, size⟩

/-- A lent range may be seen as its pieces. -/
theorem Lends.split {offset n : Nat} (lends : a.Lends capacity (⟨offset, size * n⟩ :: lent))
    (positive : 0 < size) : a.Lends capacity (pieces offset size n ++ lent) := by
  obtain ⟨cut, L, books⟩ := lends
  have elements (x : Nat) : (∃ e ∈ pieces offset size n, x ∈ e.elements) ↔
      x ∈ (Extent.mk offset (size * n)).elements := by
    simp only [pieces, List.mem_map, List.mem_range, Extent.elements, Set.mem_Ico]
    constructor
    · rintro ⟨_, ⟨i, below, rfl⟩, low, high⟩
      have : size * (i + 1) ≤ size * n := Nat.mul_le_mul_left _ below
      rw [Nat.mul_succ] at this
      simp only [] at low high
      omega
    · rintro ⟨low, high⟩
      refine ⟨_, ⟨(x - offset) / size, ?_, rfl⟩, ?_, ?_⟩
      · exact Nat.div_lt_of_lt_mul (by omega)
      · have := Nat.mul_div_le (x - offset) size
        simp only []
        omega
      · have := Nat.lt_mul_div_succ (x - offset) positive
        rw [Nat.mul_succ] at this
        simp only []
        omega
  have apart := L.disjoint
  have outstanding : L.outstanding = _ := books.outstanding.symm
  rw [outstanding] at apart
  obtain ⟨fresh, rest⟩ := List.pairwise_cons.mp apart
  refine ⟨cut, ⟨∅, pieces offset size n ++ lent, ?_, fun _ _ => Set.disjoint_empty _⟩,
    books.steady, rfl, fun x => ?_, rfl, fun e member => ?_⟩
  · refine List.pairwise_append.mpr ⟨?_, rest, fun e piece f other => ?_⟩
    · refine List.pairwise_map.mpr (List.pairwise_lt_range.imp fun {i j} less => ?_)
      refine Set.disjoint_left.mpr fun x first second => ?_
      have : size * (i + 1) ≤ size * j := Nat.mul_le_mul_left _ less
      rw [Nat.mul_succ] at this
      have := first.2
      have := second.1
      simp only [] at *
      omega
    · exact Set.disjoint_left.mpr fun x first second =>
        Set.disjoint_left.mp (fresh f other) ((elements x).mp ⟨e, piece, first⟩) second
  · rw [books.held x, L.mem_taken, books.reserved, outstanding, Ledger.mem_taken]
    simp only [List.mem_append, List.mem_cons, or_and_right, exists_or, exists_eq_left, elements x]
  · rcases List.mem_append.mp member with piece | old
    · obtain ⟨i, _, rfl⟩ := List.mem_map.mp piece
      exact positive
    · exact books.nonempty e (List.mem_cons_of_mem _ old)

end NodeAllocator

end EmkKernel
