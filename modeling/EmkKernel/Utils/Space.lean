import EmkKernel.Utils.Heap

/-!
# Where the node allocator finds space

A request should be refused only if no free node is long enough, and else take a
range from one free node. `allocate_as_offset` looks at the lengths of nodes alone, and a
request that takes all elements of a free node removes nodes behind the list.
-/

namespace EmkKernel

open Cuts

namespace NodeAllocator

variable {a b : NodeAllocator} {capacity size i c : Nat} {cut : Nat → Nat}

/-- The elements of a node. -/
def elementsOf (a : NodeAllocator) (i : Nat) : Set Nat :=
  Set.Ico (a.startOf i) (a.startOf i + (a.nodes i).length)

/-- The elements of the reserving nodes. -/
def reservedElements (a : NodeAllocator) : Set Nat :=
  {x | ∃ i < a.numUsedNodes, (a.nodes i).isReserving ∧ x ∈ a.elementsOf i}

/-- The elements of the free nodes. -/
def freeElements (a : NodeAllocator) : Set Nat :=
  {x | ∃ i < a.numUsedNodes, (a.nodes i).isFreeing ∧ x ∈ a.elementsOf i}

section Partitioned

variable (partitioned : a.Partitioned capacity cut) (elements : 0 < a.elementSize)

include partitioned elements

theorem elementsOf_eq (below : i < a.numUsedNodes) : a.elementsOf i = cell cut i := by
  have start : a.startOf i = cut i := by
    rw [startOf, partitioned.nodes i below, nodeBetween]
    simp only [Nat.add_sub_cancel_left]
    exact Nat.mul_div_cancel _ elements
  rw [elementsOf, start, partitioned.nodes i below, nodeBetween]
  simp only [cell]
  rw [Nat.add_sub_cancel' (partitioned.monotone (Nat.le_succ i))]

theorem reservedElements_eq : a.reservedElements = held cut a.numUsedNodes := by
  ext x
  constructor
  · rintro ⟨i, below, reserving, member⟩
    rw [elementsOf_eq partitioned elements below] at member
    rw [partitioned.nodes i below] at reserving
    exact ⟨i, below, of_decide_eq_true reserving, member⟩
  · rintro ⟨i, below, even, member⟩
    refine ⟨i, below, ?_, ?_⟩
    · rw [partitioned.nodes i below]
      exact decide_eq_true even
    · rwa [elementsOf_eq partitioned elements below]

theorem freeElements_eq : a.freeElements = Set.Ico 0 capacity \ held cut a.numUsedNodes := by
  rw [← partitioned.start, ← partitioned.full, ← free_eq partitioned.monotone]
  ext x
  constructor
  · rintro ⟨i, below, freeing, member⟩
    rw [elementsOf_eq partitioned elements below] at member
    rw [partitioned.nodes i below] at freeing
    exact ⟨i, below, by simpa [Node.isFreeing, nodeBetween] using freeing, member⟩
  · rintro ⟨i, below, odd, member⟩
    refine ⟨i, below, ?_, ?_⟩
    · rw [partitioned.nodes i below]
      simpa [Node.isFreeing, nodeBetween] using odd
    · rwa [elementsOf_eq partitioned elements below]

end Partitioned

/-- A range is taken from one free node and reserved, or no free node is long enough and
nothing changes. -/
inductive FindsSpace (a : NodeAllocator) (size : Nat) : Prop
  | found (offset : Nat) (b : NodeAllocator)
      (ran : a.allocateAsOffset size = .ok (some offset, b))
      (inside : ∃ i < a.numUsedNodes, (a.nodes i).isFreeing ∧
        Set.Ico offset (offset + size) ⊆ a.elementsOf i)
      (reserved : b.reservedElements = a.reservedElements ∪ Set.Ico offset (offset + size))
      (free : b.freeElements = a.freeElements \ Set.Ico offset (offset + size))
  | full (ran : a.allocateAsOffset size = .ok (none, a))
      (short : ∀ i < a.numUsedNodes, (a.nodes i).isFreeing → (a.nodes i).length < size)

/-- The node that is chosen is free and longer than what is asked for. -/
def ChoosesFree (a : NodeAllocator) (size : Nat) : Prop :=
  ∀ c, a.chosen size = some c → (a.nodes c).isFreeing ∧ size < (a.nodes c).length

/-- `allocate_as_offset` goes on with the node that is chosen. -/
theorem Steady.allocateAsOffset_some (steady : a.Steady capacity cut)
    (found : a.chosen size = some c) : a.allocateAsOffset size =
      (takeFromCurrent { a with currentNode := c } size).map fun taken =>
        (some taken.1, taken.2) := by
  rw [NodeAllocator.allocateAsOffset, steady.selectCurrent, found]
  simp only [Option.map_some, bind, Except.bind, Except.map]
  cases takeFromCurrent { a with currentNode := c } size <;> rfl

theorem takeFromCurrent_offset {offset : Nat} (ran : a.takeFromCurrent size = .ok (offset, b)) :
    a.baseAsOffset (a.nodes a.currentNode) = .ok offset := by
  unfold takeFromCurrent at ran
  obtain ⟨start, here, ran⟩ := bind_ok ran
  obtain ⟨before, _, ran⟩ := bind_ok ran
  obtain ⟨rest, _, ran⟩ := bind_ok ran
  split at ran
  next =>
    obtain ⟨_, _, ran⟩ := bind_ok ran
    obtain ⟨_, _, ran⟩ := bind_ok ran
    obtain ⟨_, _, ran⟩ := bind_ok ran
    obtain ⟨_, _, ran⟩ := bind_ok ran
    cases ran
    exact here
  next =>
    cases ran
    exact here

theorem firstNode_reserving (first : (a.nodes 0).isReserving = true) (n : Nat) :
    a.firstNode (fun node => pure node.isReserving) 0 (n + 1) = .ok (some 0) := by
  have here : a.refNode 0 = .ok (a.nodes 0) := if_pos (by decide)
  rw [firstNode, here]
  simp only [bind, Except.bind, pure, Except.pure, first, if_true]

/-- `remove_node` keeps the nodes before, and makes a reserving node the current one. -/
theorem removeNode_ok {k : Nat} {isCurrent : Bool} (ran : a.removeNode k isCurrent = .ok b) :
    k + 1 ≤ a.numUsedNodes ∧ b.numUsedNodes = a.numUsedNodes - 1 ∧
      (∀ i < k, b.nodes i = a.nodes i) ∧
      (isCurrent = false → b.currentNode = a.currentNode) ∧
      (isCurrent = true → (a.nodes 0).isReserving = true → 0 < k → b.currentNode = 0) := by
  unfold removeNode at ran
  obtain ⟨_, _, ran⟩ := bind_ok ran
  obtain ⟨length, bound, ran⟩ := bind_ok ran
  have enough : k + 1 ≤ a.numUsedNodes := by
    by_contra short
    rw [checkedSub, if_neg short] at bound
    cases bound
  have before (i : Nat) (below : i < k) : (a.copyDown k length).nodes i = a.nodes i := if_pos below
  have count : (a.copyDown k length).numUsedNodes = a.numUsedNodes := rfl
  simp only [count, checkedSub_ok (show 1 ≤ a.numUsedNodes by omega)] at ran
  obtain ⟨_, used, ran⟩ := bind_ok ran
  cases used
  split at ran
  next current =>
    obtain ⟨found, searched, ran⟩ := bind_ok ran
    have isFirst (first : (a.nodes 0).isReserving = true) (above : 0 < k) : found = some 0 := by
      obtain ⟨m, more⟩ : ∃ m, a.numUsedNodes - 1 = m + 1 := ⟨a.numUsedNodes - 2, by omega⟩
      rw [more, firstNode_reserving] at searched
      · cases searched
        rfl
      · exact (congrArg Node.isReserving (before 0 above)).trans first
    cases found with
    | some i =>
      cases ran
      refine ⟨enough, rfl, before, fun other => ?_, fun _ first above => ?_⟩
      · cases current.symm.trans other
      · exact Option.some.inj (isFirst first above)
    | none =>
      cases ran
      refine ⟨enough, rfl, before, fun other => ?_, fun _ first above => ?_⟩
      · cases current.symm.trans other
      · cases isFirst first above
  next notCurrent =>
    cases ran
    exact ⟨enough, rfl, before, fun _ => rfl, fun current => absurd current notCurrent⟩

private theorem currentNode_modifyNode (i : Nat) (f : Node → Node) :
    (a.modifyNode i f).currentNode = a.currentNode := rfl

private theorem isReserving_modifyNode {f : Node → Node} (keeps : ∀ node,
    (f node).reserving = node.reserving)
    (i j : Nat) : ((a.modifyNode i f).nodes j).isReserving = (a.nodes j).isReserving := by
  simp only [modifyNode, setNode, Node.isReserving, Function.update_apply]
  split
  next same => rw [keeps, same]
  next => rfl

theorem takeFromCurrent_exact (first : (a.nodes 0).isReserving = true) (above : 0 < a.currentNode)
    (fits : (a.nodes a.currentNode).length = size) (taken : Nat × NodeAllocator) :
    a.takeFromCurrent size ≠ .ok taken := by
  intro ran
  unfold takeFromCurrent at ran
  obtain ⟨start, here, ran⟩ := bind_ok ran
  rw [checkedSub_ok (show 1 ≤ a.currentNode from above)] at ran
  obtain ⟨_, before, ran⟩ := bind_ok ran
  cases before
  obtain ⟨rest, left, ran⟩ := bind_ok ran
  have same : ((a.modifyNode (a.currentNode - 1) fun node =>
      { node with length := node.length + size }).nodes a.currentNode).length = size :=
    (congrArg Node.length (Function.update_of_ne (by omega) _ _)).trans fits
  rw [currentNode_modifyNode, same, checkedSub_ok le_rfl, Nat.sub_self] at left
  cases left
  rw [if_pos rfl] at ran
  obtain ⟨next, _, ran⟩ := bind_ok ran
  obtain ⟨a₁, removed, ran⟩ := bind_ok ran
  obtain ⟨a₂, removed', ran⟩ := bind_ok ran
  obtain ⟨_, _, kept, current, _⟩ := removeNode_ok removed
  obtain ⟨_, _, _, _, restarts⟩ := removeNode_ok removed'
  have zero : a₂.currentNode = 0 := by
    refine restarts rfl ?_ ?_
    · rw [kept 0 (Nat.succ_pos _), isReserving_modifyNode, isReserving_modifyNode, first]
      · intro node
        rfl
      · intro node
        rfl
    · rw [current rfl]
      exact above
  rw [zero] at ran
  cases ran

private theorem chosen_none (none : a.chosen size = none) (below : i < a.numUsedNodes) :
    (a.nodes i).length < size := by
  rw [chosen] at none
  split at none
  next => cases none
  next =>
    have short := List.find?_eq_none.mp none i (List.mem_range.mpr below)
    simpa using short

/-- Space is found as it should be exactly if no node is long enough, or the one that is
chosen is free and has elements left. -/
theorem Steady.findsSpace_iff (steady : a.Steady capacity cut) (positive : 0 < size) :
    a.FindsSpace size ↔ a.ChoosesFree size := by
  have elements := steady.elements
  constructor
  · intro finds c found
    obtain ⟨used, long⟩ := chosen_used steady found
    have ran' := steady.allocateAsOffset_some found
    cases finds with
    | full ran short =>
      rw [ran'] at ran
      cases taken : takeFromCurrent { a with currentNode := c } size with
      | error e =>
        rw [taken] at ran
        cases ran
      | ok r =>
        rw [taken] at ran
        cases ran
    | found offset b ran inside reserved free =>
      rw [ran'] at ran
      cases taken : takeFromCurrent { a with currentNode := c } size with
      | error e =>
        rw [taken] at ran
        cases ran
      | ok r =>
        rw [taken] at ran
        cases ran
        obtain ⟨i, below, free, within⟩ := inside
        have start : r.1 = cut c := by
          have here := takeFromCurrent_offset taken
          rw [show ({ a with currentNode := c } : NodeAllocator).baseAsOffset (a.nodes c) =
            .ok (cut c) by rw [steady.nodes c used]; exact steady.baseAsOffset used] at here
          exact (Except.ok.inj here).symm
        rw [start, elementsOf_eq steady.toPartitioned elements below] at within
        -- the first element of the range has one node, so the range comes from a free one
        have length := steady.length_eq used
        have same := cell_unique steady.monotone
          (within ⟨le_rfl, by omega⟩ : cut c ∈ cell cut i) ⟨le_rfl, by omega⟩
        rw [same] at free
        refine ⟨free, lt_of_le_of_ne long fun all => ?_⟩
        have odd := (steady.isFreeing_iff used).mp free
        have above : 0 < c := Nat.pos_of_ne_zero fun zero => odd (zero ▸ ⟨0, rfl⟩)
        refine takeFromCurrent_exact (a := { a with currentNode := c }) ?_ above all.symm r taken
        exact congrArg Node.isReserving (steady.nodes 0 (by omega))
  · intro chooses
    cases found : a.chosen size with
    | none =>
      exact .full (steady.allocateAsOffset_none found) fun i below _ => chosen_none found below
    | some c =>
      obtain ⟨free, shorter⟩ := chooses c found
      obtain ⟨used, _⟩ := chosen_used steady found
      have odd := (steady.isFreeing_iff used).mp free
      obtain ⟨c, rfl⟩ : ∃ b, c = b + 1 :=
        Nat.exists_eq_succ_of_ne_zero fun zero => odd (zero ▸ ⟨0, rfl⟩)
      have even : Even c := by
        by_contra notEven
        exact odd (Nat.even_add_one.mpr notEven)
      have partitioned := (steady.select found free).shifted_partitioned used shorter.le
      have held := held_move_free (n := a.numUsedNodes) steady.monotone
        (Nat.le_add_right (cut (c + 1)) size) even (by omega)
      refine .found _ _ (steady.allocateAsOffset found shorter) ⟨c + 1, used, free, ?_⟩ ?_ ?_
      · rw [elementsOf_eq steady.toPartitioned elements used, cell]
        rw [steady.length_eq used] at shorter
        exact Set.Ico_subset_Ico_right (by omega)
      · rw [reservedElements_eq partitioned elements,
          reservedElements_eq steady.toPartitioned elements]
        exact held
      · rw [freeElements_eq partitioned elements, freeElements_eq steady.toPartitioned elements,
          Set.sdiff_sdiff]
        exact congrArg _ held

end NodeAllocator

namespace Heap

open NodeAllocator

variable {a : NodeAllocator} {s : Heap}

/-- After a run of requests that meet the condition, a request finds space as it should
exactly if no node is long enough, or the chosen one is free and has elements left. -/
theorem findsSpace_after_run (built : Built a)
    (run : Relation.ReflTransGen (Step Meets) ⟨a, []⟩ s) (size : Nat) (positive : 0 < size) :
    s.allocator.FindsSpace size ↔ s.allocator.ChoosesFree size := by
  obtain ⟨⟨cut, L, books, _⟩, _⟩ := run_keepsBooks built run
  exact books.steady.findsSpace_iff positive

/-- A gap in the middle is used again. -/
theorem findsSpace_after_run_gap : ∃ s, Relation.ReflTransGen (Step Meets) ⟨plainNodes, []⟩ s ∧
    s.outstanding = [⟨8, 8⟩, ⟨0, 4⟩] ∧ s.allocator.FindsSpace 2 := by
  have served : (Requests.serveAll serve Meets ⟨plainNodes, []⟩
      [.allocate 4, .allocate 4, .allocate 8, .free ⟨4, 4⟩]).any (fun s =>
        decide (s.outstanding = [⟨8, 8⟩, ⟨0, 4⟩]) && decide (s.allocator.SuitsSize 2)) = true := by
    decide +kernel
  obtain ⟨s, served, checked⟩ := (Option.any_eq_true _ _).1 served
  simp only [Bool.and_eq_true, decide_eq_true_eq] at checked
  obtain ⟨outstanding, suits⟩ := checked
  have run := Requests.serveAll_run served
  refine ⟨s, run, outstanding, ?_⟩
  refine (findsSpace_after_run plainNodes_built run 2 (by decide)).mpr fun c found => ?_
  exact ⟨(suits c found).1, (suits c found).2.1⟩

/-- A request for all 512 elements stops the kernel. -/
theorem not_findsSpace_all : Built plainNodes ∧ ¬plainNodes.FindsSpace 512 := by
  refine ⟨plainNodes_built, fun finds => ?_⟩
  have failed : (plainNodes.allocateAsOffset 512).toBool = false := by decide +kernel
  cases finds with
  | found offset b ran inside reserved free =>
    rw [ran] at failed
    cases failed
  | full ran short =>
    rw [ran] at failed
    cases failed

end Heap

end EmkKernel
