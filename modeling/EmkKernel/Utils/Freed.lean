import EmkKernel.Utils.Space

/-!
# What the node allocator takes back

A range that is held lies in one reserving node, which may hold its neighbours as
well. `free_offset` does not find a range that ends its node, stops at the front of the
first node, and writes over the nodes behind one that is not the last.
-/

namespace EmkKernel

open Cuts

namespace NodeAllocator

variable {a b : NodeAllocator} {capacity offset size i : Nat} {cut : Nat → Nat}

theorem insertNode_full (node : Node) (last : a.numUsedNodes = i + 1) (full : nodeCapacity ≤ i) :
    a.insertNode node i = .error .panic := by
  have missing : a.refNode i = .error .panic := if_neg (by omega)
  rw [insertNode, last, checkedSub_ok (Nat.le_add_left 1 i), Nat.add_sub_cancel]
  simp only [bind, Except.bind, Nat.add_sub_cancel_left, shiftUp, missing]

/-- Before the last node nothing moves up, so the node that is there is lost. -/
theorem insertNode_inside (node : Node) (inside : i + 1 < a.numUsedNodes)
    (fits : i < nodeCapacity) :
    a.insertNode node i =
      .ok { a.setNode i node with numUsedNodes := a.numUsedNodes + 1 } := by
  have none : i + 1 - (a.numUsedNodes - 1) = 0 := by omega
  have here : a.refNode i = .ok (a.nodes i) := if_pos fits
  rw [insertNode, checkedSub_ok (by omega)]
  simp only [bind, Except.bind, none, shiftUp, here]
  rfl

section Steady

variable (steady : a.Steady capacity cut)
include steady

/-- A range that ends its node is not found. -/
theorem freeOffset_ending (below : i + 1 < a.numUsedNodes) (inside : offset < cut (i + 1))
    (ends : offset + size = cut (i + 1)) : a.freeOffset offset size = .ok (false, a) := by
  apply steady.freeOffset_none
  · rw [ends]
    exact steady.narrow _ below
  · intro j _ _ low
    rw [ends]
    apply steady.monotone
    by_contra later
    have : cut (i + 1) ≤ cut j := steady.monotone (by omega)
    omega

/-- The front of the first node is never freed. -/
theorem freeOffset_first (used : 0 < a.numUsedNodes) (starts : cut 0 = offset)
    (high : offset + size < cut 1) : a.freeOffset offset size = .error .panic := by
  have even : Even 0 := ⟨0, rfl⟩
  have stops (frontSize backBase backSize : Nat) :
      a.freeFront 0 frontSize backBase backSize = .error .panic := rfl
  rw [freeOffset, steady.findReservingNodeForOffset even used starts.le high]
  simp only [steady.nodes _ used, steady.freeingType_front even used starts high, bind,
    Except.bind, stops]

variable (even : Even i)
include even

/-- No gap is opened once the slice is full. -/
theorem freeOffset_full (last : i + 2 = a.numUsedNodes) (full : nodeCapacity < a.numUsedNodes + 2)
    (starts : cut i < offset) (high : offset + size < cut (i + 1)) :
    a.freeOffset offset size = .error .panic := by
  have used : i < a.numUsedNodes := by omega
  have within := steady.within
  have capacity : nodeCapacity = 170 := by decide
  obtain ⟨half, count⟩ := steady.even
  have exact : a.numUsedNodes = 170 := by omega
  rw [freeOffset, steady.findReservingNodeForOffset even used starts.le high]
  simp only [steady.nodes _ used, steady.freeingType_middle even used starts high, bind,
    Except.bind, freeMiddle]
  rw [insertNode_eq (a := a.modifyNode i _) _ (i := i + 1) last.symm (by omega)]
  simp only []
  rw [insertNode_full _ (i := i + 2) rfl (by omega)]

/-- A gap in a node that is not the last replaces the two nodes behind it. -/
theorem freeOffset_inside (inside : i + 2 < a.numUsedNodes) (starts : cut i < offset)
    (high : offset + size < cut (i + 1)) :
    ∃ b, a.freeOffset offset size = .ok (true, b) ∧ b.elementSize = a.elementSize ∧
      b.dataMemory = a.dataMemory ∧ b.numUsedNodes = a.numUsedNodes + 2 ∧
      b.nodes i = { a.nodeBetween cut i with length := offset - cut i } ∧
      (b.nodes (i + 1)).isReserving = false ∧
      b.nodes (i + 2) = ⟨cut (i + 1) - (offset + size),
        a.dataMemory.base + a.elementSize * (offset + size), true⟩ ∧
      ∀ j, j ≠ i → j ≠ i + 1 → j ≠ i + 2 → b.nodes j = a.nodes j := by
  have used : i < a.numUsedNodes := by omega
  have within := steady.within
  obtain ⟨half, count⟩ := steady.even
  obtain ⟨k, index⟩ := even
  rw [freeOffset, steady.findReservingNodeForOffset ⟨k, index⟩ used starts.le high]
  simp only [steady.nodes _ used, steady.freeingType_middle ⟨k, index⟩ used starts high, bind,
    Except.bind, freeMiddle]
  rw [insertNode_inside (a := a.modifyNode i _) _
    (show i + 1 + 1 < a.numUsedNodes from inside) (by omega)]
  simp only []
  rw [insertNode_inside _ (show i + 2 + 1 < a.numUsedNodes + 1 by omega) (by omega)]
  simp only [modifyNode, setNode]
  refine ⟨_, rfl, rfl, rfl, rfl, ?_, ?_, ?_, fun j first second third => ?_⟩
  · simp only []
    rw [Function.update_of_ne (by omega), Function.update_of_ne (by omega), Function.update_self,
      steady.nodes _ used]
  · simp only []
    rw [Function.update_of_ne (by omega), Function.update_self]
    rfl
  · simp only []
    rw [Function.update_self]
  · simp only []
    rw [Function.update_of_ne third, Function.update_of_ne second, Function.update_of_ne first]

/-- The reserving node behind the gap loses its elements. -/
theorem freeOffset_loses (tidy : a.Tidy cut) (inside : i + 2 < a.numUsedNodes)
    (starts : cut i < offset) (high : offset + size < cut (i + 1)) :
    ∃ b, a.freeOffset offset size = .ok (true, b) ∧ cut (i + 2) ∉ b.reservedElements := by
  obtain ⟨b, ran, sameSize, sameData, count, front, middle, back, others⟩ :=
    freeOffset_inside steady even inside starts high
  refine ⟨b, ran, ?_⟩
  rintro ⟨j, below, reserving, member⟩
  have elements := steady.elements
  have later : cut (i + 1) ≤ cut (i + 2) := steady.monotone (Nat.le_succ _)
  -- the cut point lies behind what is left of node `i`, and the rest is gone
  by_cases first : j = i
  · subst first
    have bound := member.2
    rw [startOf, front, sameSize, sameData, nodeBetween] at bound
    simp only [Nat.add_sub_cancel_left, Nat.mul_div_cancel _ elements] at bound
    omega
  by_cases second : j = i + 1
  · subst second
    rw [middle] at reserving
    cases reserving
  by_cases third : j = i + 2
  · subst third
    have bound := member.2
    rw [startOf, back, sameSize, sameData] at bound
    simp only [Nat.add_sub_cancel_left, Nat.mul_div_cancel_left _ elements] at bound
    omega
  have same := others j first second third
  by_cases old : j < a.numUsedNodes
  · have here : cut (i + 2) ∈ cell cut j := by
      rw [← elementsOf_eq steady.toPartitioned elements old]
      simpa only [elementsOf, startOf, same, sameSize, sameData] using member
    have tight := tidy.tight (i + 2) (by omega) inside
    exact third (cell_unique steady.monotone here ⟨le_rfl, tight⟩)
  · have blank := tidy.blank j (by omega)
    rw [same, blank] at reserving
    cases reserving

end Steady

end NodeAllocator

namespace Heap

open NodeAllocator

variable {a : NodeAllocator} {s : Heap} {e : Extent} {capacity : Nat} {cut : Nat → Nat}
  {L : Ledger Extent.elements}

/-- A range is freed: its elements become free, no others do, and all other ranges that are
held stay reserved. -/
def FreesRange (s : Heap) (e : Extent) : Prop :=
  ∃ b, s.allocator.freeOffset e.offset e.size = .ok (true, b) ∧
    b.freeElements = s.allocator.freeElements ∪ e.elements ∧
    ∀ f ∈ s.outstanding.erase e, f.elements ⊆ b.reservedElements

theorem KeepsBooks.range_in_cell (books : s.KeepsBooks capacity cut L)
    (tidy : s.allocator.Tidy cut) (member : e ∈ s.outstanding) :
    ∃ i < s.allocator.numUsedNodes, Even i ∧ cut i ≤ e.offset ∧
      e.offset + e.size ≤ cut (i + 1) := by
  have positive := books.nonempty e member
  have held (x : Nat) (inside : x ∈ e.elements) :
      x ∈ Cuts.held cut s.allocator.numUsedNodes :=
    (books.held x).mpr (Or.inr ⟨e, books.outstanding ▸ member, inside⟩)
  obtain ⟨i, used, even, start⟩ := held e.offset ⟨le_rfl, by omega⟩
  refine ⟨i, used, even, start.1, ?_⟩
  -- else the free node behind starts inside the range
  by_contra longer
  have next := books.steady.next_used even used
  have tight := tidy.tight (i + 1) (Nat.succ_pos i) next
  have inside := held (cut (i + 1)) ⟨start.2.le, by omega⟩
  have odd : ¬Even (i + 1) := fun evenNext => Nat.even_add_one.mp evenNext even
  exact Set.disjoint_left.mp (cell_disjoint_held books.steady.monotone odd) ⟨le_rfl, tight⟩ inside

private theorem KeepsBooks.freesRange (books : s.KeepsBooks capacity cut L)
    (member : e ∈ s.outstanding) (suits : s.allocator.SuitsRange e) : s.FreesRange e := by
  have steady := books.steady
  obtain ⟨b, cut', ran, _, sameSize, _, steady', opened, _⟩ := freeOffset_suited steady suits
  have elements' : 0 < b.elementSize := sameSize ▸ steady.elements
  have owned : e.elements ⊆ Cuts.held cut s.allocator.numUsedNodes := fun x inside =>
    (books.held x).mpr (Or.inr ⟨e, books.outstanding ▸ member, inside⟩)
  have within : e.elements ⊆ Set.Ico 0 capacity := by
    have bounds := owned.trans (held_subset steady.monotone)
    rwa [steady.start, steady.full] at bounds
  refine ⟨b, ran, ?_, fun f other x inside => ?_⟩
  · rw [freeElements_eq steady'.toPartitioned elements', opened,
      freeElements_eq steady.toPartitioned steady.elements, Set.sdiff_sdiff_right,
      Set.inter_eq_self_of_subset_right within]
  · rw [reservedElements_eq steady'.toPartitioned elements', opened]
    rw [books.outstanding] at member other
    have kept := (L.mem_taken_giveBack member x).mp (Or.inr ⟨f, other, inside⟩)
    exact ⟨(books.held x).mpr kept.1, kept.2⟩

theorem KeepsBooks.freesRange_iff (books : s.KeepsBooks capacity cut L)
    (tidy : s.allocator.Tidy cut) (member : e ∈ s.outstanding) :
    s.FreesRange e ↔ s.allocator.SuitsRange e := by
  constructor
  · rintro ⟨b, ran, _, kept⟩
    have steady := books.steady
    have positive := books.nonempty e member
    obtain ⟨i, used, even, low, high⟩ := books.range_in_cell tidy member
    have next := steady.next_used even used
    have ends : e.offset + e.size < cut (i + 1) := by
      refine lt_of_le_of_ne high fun same => ?_
      rw [freeOffset_ending steady next (by omega) same] at ran
      cases ran
    refine ⟨i, used, ?_, ?_, ?_⟩
    · rw [steady.nodes i used]
      exact decide_eq_true even
    · rw [startOf_eq steady used, steady.length_eq used]
      omega
    rw [startOf_eq steady used]
    rcases low.eq_or_lt with starts | starts
    · refine Or.inl ⟨starts, Nat.pos_of_ne_zero fun first => ?_⟩
      rw [first] at starts ends used
      rw [freeOffset_first steady used starts ends] at ran
      cases ran
    · refine Or.inr ⟨starts, ?_⟩
      by_cases last : i + 2 = s.allocator.numUsedNodes
      · refine ⟨last, ?_⟩
        by_contra room
        rw [freeOffset_full steady even last (by omega) starts ends] at ran
        cases ran
      -- a range behind the gap loses its first element
      · exfalso
        have inside : i + 2 < s.allocator.numUsedNodes := by omega
        obtain ⟨b', ran', lost⟩ := freeOffset_loses steady even tidy inside starts ends
        cases ran'.symm.trans ran
        have tight := tidy.tight (i + 2) (Nat.succ_pos _) inside
        have owned := (books.held (cut (i + 2))).mp
          ⟨i + 2, inside, even.add ⟨1, rfl⟩, le_rfl, tight⟩
        rw [L.mem_taken, books.reserved] at owned
        obtain none | ⟨f, holds, owns⟩ := owned
        · exact none
        have later : cut (i + 1) ≤ cut (i + 2) := steady.monotone (Nat.le_succ _)
        have different : f ≠ e := fun same => by
          rw [same] at owns
          have := owns.2
          omega
        exact lost (kept f ((List.mem_erase_of_ne different).mpr (books.outstanding ▸ holds)) owns)
  · intro suits
    exact books.freesRange member suits

/-- After a run of requests that meet the condition, a held range is freed as it should be
exactly if it suits the node list. -/
theorem freesRange_after_run (built : Built a)
    (run : Relation.ReflTransGen (Step Meets) ⟨a, []⟩ s) (member : e ∈ s.outstanding) :
    s.FreesRange e ↔ s.allocator.SuitsRange e := by
  obtain ⟨⟨cut, L, books, tidy⟩, _⟩ := run_keepsBooks built run
  refine books.freesRange_iff (tidy ?_) member
  have positive := books.nonempty e member
  have held := (books.held e.offset).mpr
    (Or.inr ⟨e, books.outstanding ▸ member, le_rfl, by omega⟩)
  have bounds := held_subset books.steady.monotone held
  rw [books.steady.full] at bounds
  exact Nat.zero_lt_of_lt bounds.2

/-- A range between two others in one node is freed. -/
theorem freesRange_after_run_middle : ∃ s, Relation.ReflTransGen (Step Meets) ⟨plainNodes, []⟩ s ∧
    s.outstanding = [⟨8, 8⟩, ⟨4, 4⟩, ⟨0, 4⟩] ∧ s.FreesRange ⟨4, 4⟩ := by
  have served : (Requests.serveAll serve Meets ⟨plainNodes, []⟩
      [.allocate 4, .allocate 4, .allocate 8]).any (fun s =>
        decide (s.outstanding = [⟨8, 8⟩, ⟨4, 4⟩, ⟨0, 4⟩]) &&
          decide (s.allocator.SuitsRange ⟨4, 4⟩)) = true := by
    decide +kernel
  obtain ⟨s, served, checked⟩ := (Option.any_eq_true _ _).1 served
  simp only [Bool.and_eq_true, decide_eq_true_eq] at checked
  obtain ⟨outstanding, suits⟩ := checked
  have run := Requests.serveAll_run served
  refine ⟨s, run, outstanding, ?_⟩
  exact (freesRange_after_run plainNodes_built run (by rw [outstanding]; simp)).mpr suits

/-- The only range that is held is not freed. -/
theorem not_freesRange_last : ∃ s, Relation.ReflTransGen (Step Meets) ⟨plainNodes, []⟩ s ∧
    Built plainNodes ∧ s.outstanding = [⟨0, 4⟩] ∧ ¬s.FreesRange ⟨0, 4⟩ := by
  have served : (Requests.serveAll serve Meets ⟨plainNodes, []⟩ [.allocate 4]).any (fun s =>
      decide (s.outstanding = [⟨0, 4⟩]) &&
        ((s.allocator.freeOffset 0 4).toOption.map Prod.fst == some false)) = true := by
    decide +kernel
  obtain ⟨s, served, checked⟩ := (Option.any_eq_true _ _).1 served
  simp only [Bool.and_eq_true, decide_eq_true_eq] at checked
  obtain ⟨outstanding, failed⟩ := checked
  refine ⟨s, Requests.serveAll_run served, plainNodes_built, outstanding, ?_⟩
  rintro ⟨b, ran, _, _⟩
  simp only [ran, Except.toOption, Option.map_some] at failed
  cases failed

end Heap

end EmkKernel
