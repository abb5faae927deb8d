import EmkKernel.Library.Cuts
import EmkKernel.Utils.NodeAllocator
import Mathlib.Data.List.Range

/-!
# The node list as cut points

A steady node list is determined by its cut points: node `i` reaches from cut
point `i` to the next one, the nodes with an even index reserve and the current
node is one of the others. `allocate_as_offset` moves the start of a free node,
`free_offset` moves the start of a reserving node or opens a gap in the last one.
-/

namespace EmkKernel

open Cuts

@[simp] theorem checkedSub_ok {x y : Nat} (le : y ≤ x) : checkedSub x y = .ok (x - y) :=
  if_pos le

theorem checkedAdd32_ok {x y : Nat} (fits : x + y < 2 ^ 32) : checkedAdd32 x y = .ok (x + y) :=
  if_pos fits

namespace NodeAllocator

variable {a : NodeAllocator} {cut : Nat → Nat} {capacity i c size offset : Nat}

/-- The node that reaches from one cut point to the next. -/
def nodeBetween (a : NodeAllocator) (cut : Nat → Nat) (i : Nat) : Node where
  length := cut (i + 1) - cut i
  base := a.dataMemory.base + cut i * a.elementSize
  reserving := decide (Even i)

/-- The node list divides the elements below `capacity` in increasing order. -/
structure Partitioned (a : NodeAllocator) (capacity : Nat) (cut : Nat → Nat) : Prop where
  monotone : Monotone cut
  start : cut 0 = 0
  full : cut a.numUsedNodes = capacity
  nodes : ∀ i < a.numUsedNodes, a.nodes i = a.nodeBetween cut i

/-- A partition on which the operations work: it ends with a free node, the
current node is free and the offsets of all nodes fit `u32`. -/
structure Steady (a : NodeAllocator) (capacity : Nat) (cut : Nat → Nat) : Prop
    extends Partitioned a capacity cut where
  elements : 0 < a.elementSize
  even : Even a.numUsedNodes
  within : a.numUsedNodes ≤ nodeCapacity
  current : a.currentNode < a.numUsedNodes
  currentFree : ¬Even a.currentNode
  narrow : ∀ i < a.numUsedNodes, cut i < 2 ^ 32

/-- No node but the first is empty, and behind the list no node reserves. -/
structure Tidy (a : NodeAllocator) (cut : Nat → Nat) : Prop where
  tight : ∀ i, 0 < i → i < a.numUsedNodes → cut i < cut (i + 1)
  blank : ∀ i, a.numUsedNodes ≤ i → (a.nodes i).isReserving = false

/-- The cut points of a new node list. -/
def initialCut (capacity : Nat) (i : Nat) : Nat := if i ≤ 1 then 0 else capacity

theorem steady_initial {elementSize : Nat} (elements : 0 < elementSize)
    (nodeList data : MemoryBlock) (fake : Bool) :
    (initial elementSize nodeList data fake).Steady (data.length / elementSize)
      (initialCut (data.length / elementSize)) where
  monotone := by
    intro i j le
    simp only [initialCut]
    split_ifs
    · exact le_rfl
    · exact Nat.zero_le _
    · omega
    · exact le_rfl
  start := rfl
  full := rfl
  nodes := by
    intro i below
    have : i = 0 ∨ i = 1 := by
      simp only [initial] at below
      omega
    rcases this with rfl | rfl <;> simp [initial, nodeBetween, initialCut]
  elements := elements
  even := ⟨1, rfl⟩
  within := show 2 ≤ nodeCapacity by decide
  current := by simp [initial]
  currentFree := by simp [initial]
  narrow := by
    intro i below
    have : i ≤ 1 := by
      simp only [initial] at below
      omega
    simp [initialCut, this]

namespace Steady

variable (steady : a.Steady capacity cut)
include steady

theorem refNode (below : i < a.numUsedNodes) : a.refNode i = .ok (a.nodeBetween cut i) := by
  rw [NodeAllocator.refNode, if_pos (below.trans_le steady.within), steady.nodes i below]

theorem length_eq (below : i < a.numUsedNodes) : (a.nodes i).length = cut (i + 1) - cut i := by
  rw [steady.nodes i below, nodeBetween]

theorem isFreeing_iff (below : i < a.numUsedNodes) : (a.nodes i).isFreeing ↔ ¬Even i := by
  rw [steady.nodes i below, Node.isFreeing, nodeBetween]
  simp

theorem baseAsOffset (below : i < a.numUsedNodes) :
    a.baseAsOffset (a.nodeBetween cut i) = .ok (cut i) := by
  rw [NodeAllocator.baseAsOffset, Node.baseAsOffset, nodeBetween,
    checkedSub_ok (Nat.le_add_right ..),
    Nat.add_sub_cancel_left]
  change Except.ok (cut i * a.elementSize / a.elementSize % 2 ^ 32) = _
  rw [Nat.mul_div_cancel _ steady.elements, Nat.mod_eq_of_lt (steady.narrow i below)]

theorem endAsOffset (below : i + 1 < a.numUsedNodes) :
    a.endAsOffset (a.nodeBetween cut i) = .ok (cut (i + 1)) := by
  have ends : (a.nodeBetween cut i).endAddress a.elementSize =
      a.dataMemory.base + cut (i + 1) * a.elementSize := by
    rw [Node.endAddress, nodeBetween, Nat.add_assoc, ← Nat.add_mul,
      Nat.add_sub_cancel' (steady.monotone (Nat.le_succ i))]
  rw [NodeAllocator.endAsOffset, Node.endAsOffset, ends, checkedSub_ok (Nat.le_add_right ..),
    Nat.add_sub_cancel_left]
  change Except.ok (cut (i + 1) * a.elementSize / a.elementSize % 2 ^ 32) = _
  rw [Nat.mul_div_cancel _ steady.elements, Nat.mod_eq_of_lt (steady.narrow _ below)]

/-- The node after an even one is used. -/
theorem next_used (even : Even i) (below : i < a.numUsedNodes) : i + 1 < a.numUsedNodes := by
  obtain ⟨k, count⟩ := steady.even
  obtain ⟨j, rfl⟩ := even
  omega

end Steady

theorem firstNode_eq {test : Node → Except Stop Bool} {p : Nat → Bool} {n : Nat}
    (fits : i + n ≤ nodeCapacity) (plain : ∀ j, i ≤ j → j < i + n → test (a.nodes j) = .ok (p j)) :
    a.firstNode test i n = .ok ((List.range' i n).find? p) := by
  induction n generalizing i with
  | zero => rfl
  | succ n ih =>
    have here : a.refNode i = .ok (a.nodes i) := if_pos (by omega)
    have rest := ih (i := i + 1) (by omega) fun j low high => plain j (by omega) (by omega)
    rw [firstNode, here, List.range'_succ, List.find?_cons]
    change (do if ← test (a.nodes i) then pure (some i) else a.firstNode test (i + 1) n) = _
    rw [plain i le_rfl (by omega)]
    cases passes : p i with
    | true => simp [bind, Except.bind, pure, Except.pure]
    | false => simp [bind, Except.bind, rest]

theorem bind_ok {α β : Type} {x : Except Stop α} {f : α → Except Stop β} {r : β}
    (ran : x >>= f = .ok r) : ∃ v, x = .ok v ∧ f v = .ok r := by
  cases x with
  | error e => cases ran
  | ok v => exact ⟨v, rfl, ran⟩

/-- The node `allocate_as_offset` takes elements from. -/
def chosen (a : NodeAllocator) (size : Nat) : Option Nat :=
  if size ≤ (a.nodes a.currentNode).length then some a.currentNode
  else (List.range a.numUsedNodes).find? fun i => decide (size ≤ (a.nodes i).length)

theorem Steady.selectCurrent (steady : a.Steady capacity cut) (size : Nat) :
    a.selectCurrent size = .ok ((a.chosen size).map fun c => { a with currentNode := c }) := by
  rw [NodeAllocator.selectCurrent, steady.refNode steady.current,
    ← steady.nodes _ steady.current, chosen]
  change (if (a.nodes a.currentNode).length < size then _ else _) = _
  by_cases long : size ≤ (a.nodes a.currentNode).length
  · rw [if_neg (Nat.not_lt.mpr long), if_pos long]
    rfl
  · rw [if_pos (Nat.not_le.mp long), if_neg long, findNewCurrent,
      firstNode_eq (p := fun i => decide (size ≤ (a.nodes i).length)) (by simpa using steady.within)
        fun _ _ _ => rfl, ← List.range_eq_range']
    simp only [bind, Except.bind]
    cases (List.range a.numUsedNodes).find? fun i => decide (size ≤ (a.nodes i).length) <;> rfl

theorem chosen_used (steady : a.Steady capacity cut) (found : a.chosen size = some c) :
    c < a.numUsedNodes ∧ size ≤ (a.nodes c).length := by
  rw [chosen] at found
  split at found
  next long =>
    cases found
    exact ⟨steady.current, long⟩
  next =>
    obtain ⟨passes, member, _⟩ := List.find?_range_eq_some.mp found
    exact ⟨List.mem_range.mp member, of_decide_eq_true passes⟩

/-- The node list after `size` elements moved from node `c + 1` to node `c`. -/
def shifted (a : NodeAllocator) (c size : Nat) : NodeAllocator :=
  (a.modifyNode c fun node => { node with length := node.length + size }).modifyNode (c + 1)
    fun node => { node with
      base := node.base + size * a.elementSize
      length := node.length - size }

@[simp] theorem shifted_dataMemory (c : Nat) : (a.shifted c size).dataMemory = a.dataMemory := rfl

@[simp] theorem shifted_numUsedNodes (c : Nat) :
    (a.shifted c size).numUsedNodes = a.numUsedNodes := rfl

@[simp] theorem shifted_currentNode (c : Nat) :
    (a.shifted c size).currentNode = a.currentNode := rfl

/-- Moving elements between neighbours moves the cut point between them. -/
theorem Steady.shifted_partitioned (steady : a.Steady capacity cut) (used : c + 1 < a.numUsedNodes)
    (fits : size ≤ (a.nodes (c + 1)).length) :
    (a.shifted c size).Partitioned capacity (move cut (c + 1) (cut (c + 1) + size)) := by
  rw [steady.length_eq used] at fits
  have high : cut (c + 1) + size ≤ cut (c + 1 + 1) := by
    have : cut (c + 1) ≤ cut (c + 1 + 1) := steady.monotone (Nat.le_succ (c + 1))
    omega
  have low : cut c ≤ cut (c + 1) := steady.monotone (Nat.le_succ c)
  refine ⟨move_monotone steady.monotone (Nat.le_add_right ..) high, ?_, ?_, fun i below => ?_⟩
  · rw [move_of_ne (Nat.succ_ne_zero c).symm]
    exact steady.start
  · rw [shifted_numUsedNodes, move_of_ne used.ne']
    exact steady.full
  · -- only the nodes on both sides of the moved cut point change
    have old := steady.nodes i below
    simp only [NodeAllocator.shifted, modifyNode, setNode, nodeBetween] at old ⊢
    by_cases second : i = c + 1
    · subst second
      rw [Function.update_self, Function.update_of_ne (Nat.succ_ne_self c), old, move_self,
        move_of_ne (Nat.succ_ne_self (c + 1))]
      simp only [Node.mk.injEq, and_true]
      exact ⟨(Nat.sub_add_eq ..).symm, by rw [Nat.add_mul, Nat.add_assoc]⟩
    · rw [Function.update_of_ne second, move_of_ne second]
      by_cases first : i = c
      · subst first
        rw [Function.update_self, old, move_self]
        simp only [Node.mk.injEq, and_true]
        omega
      · rw [Function.update_of_ne first, move_of_ne (by omega), old]

theorem Steady.shifted (steady : a.Steady capacity cut) (used : c + 1 < a.numUsedNodes)
    (fits : size ≤ (a.nodes (c + 1)).length) (narrow : cut (c + 1) + size < 2 ^ 32) :
    (a.shifted c size).Steady capacity (move cut (c + 1) (cut (c + 1) + size)) := by
  refine { steady with
    toPartitioned := steady.shifted_partitioned used fits
    narrow := fun i below => ?_ }
  by_cases here : i = c + 1
  · rw [here, move_self]
    exact narrow
  · rw [move_of_ne here]
    exact steady.narrow i below

theorem Tidy.shifted (tidy : a.Tidy cut) (used : c + 1 < a.numUsedNodes)
    (positive : 0 < size) (shorter : cut (c + 1) + size < cut (c + 1 + 1)) :
    (a.shifted c size).Tidy (move cut (c + 1) (cut (c + 1) + size)) := by
  refine ⟨fun i above below => ?_, fun i behind => ?_⟩
  · have old := tidy.tight i above below
    by_cases here : i = c + 1
    · subst here
      rw [move_self, move_of_ne (Nat.succ_ne_self _)]
      exact shorter
    · rw [move_of_ne here]
      by_cases next : i + 1 = c + 1
      · rw [next, move_self]
        rw [next] at old
        omega
      · rwa [move_of_ne next]
  · have behind : a.numUsedNodes ≤ i := behind
    have old := tidy.blank i behind
    simp only [NodeAllocator.shifted, modifyNode, setNode]
    rwa [Function.update_of_ne (by omega), Function.update_of_ne (by omega)]

/-- `allocate_as_offset` on a list on which no node is long enough. -/
theorem Steady.allocateAsOffset_none (steady : a.Steady capacity cut)
    (missing : a.chosen size = none) : a.allocateAsOffset size = .ok (none, a) := by
  rw [allocateAsOffset, steady.selectCurrent, missing]
  rfl

/-- `allocate_as_offset` takes the first elements of the chosen node, if it is
free and longer than what is asked for. -/
theorem Steady.allocateAsOffset (steady : a.Steady capacity cut)
    (found : a.chosen size = some (c + 1)) (shorter : size < (a.nodes (c + 1)).length) :
    a.allocateAsOffset size =
      .ok (some (cut (c + 1)), ({ a with currentNode := c + 1 } : NodeAllocator).shifted
        c size) := by
  obtain ⟨used, _⟩ := chosen_used steady found
  have base : ({ a with currentNode := c + 1 } : NodeAllocator).baseAsOffset (a.nodes (c + 1)) =
      .ok (cut (c + 1)) := by
    rw [steady.nodes _ used]
    exact steady.baseAsOffset used
  have apart : c + 1 ≠ c := Nat.succ_ne_self c
  simp only [NodeAllocator.allocateAsOffset, steady.selectCurrent, found, Option.map_some,
    takeFromCurrent, base, modifyNode, setNode, Nat.add_sub_cancel,
      checkedSub_ok (Nat.le_add_left 1 c),
    Function.update_of_ne apart, checkedSub_ok shorter.le, bind, Except.bind]
  rw [if_neg (Nat.sub_ne_zero_of_lt shorter)]
  simp only [NodeAllocator.shifted, modifyNode, setNode, Function.update_of_ne apart]
  rfl

/-- The node that is chosen becomes the current one. -/
theorem Steady.select (steady : a.Steady capacity cut) (found : a.chosen size = some c)
    (free : (a.nodes c).isFreeing) :
    ({ a with currentNode := c } : NodeAllocator).Steady capacity cut := by
  obtain ⟨used, _⟩ := chosen_used steady found
  exact { steady with current := used, currentFree := (steady.isFreeing_iff used).mp free }

/-- The search of `free_offset` goes to the first reserving node that reaches beyond
the end of the range. -/
theorem Steady.findReservingNodeForOffset_eq (steady : a.Steady capacity cut)
    (narrow : offset + size < 2 ^ 32) :
    a.findReservingNodeForOffset offset size = .ok ((List.range a.numUsedNodes).find? fun j =>
      decide (Even j ∧ cut j ≤ offset ∧ offset + size < cut (j + 1))) := by
  have plain (j : Nat) (_ : 0 ≤ j) (below : j < 0 + a.numUsedNodes) :
      a.holdsRange offset size (a.nodes j) =
        .ok (decide (Even j ∧ cut j ≤ offset ∧ offset + size < cut (j + 1))) := by
    rw [Nat.zero_add] at below
    rw [steady.nodes j below, holdsRange, show (a.nodeBetween cut j).reserving = decide (Even j)
      from rfl]
    by_cases evenJ : Even j
    · simp only [evenJ, decide_true, if_true, steady.baseAsOffset below,
        steady.endAsOffset (steady.next_used evenJ below), checkedAdd32_ok narrow, bind,
        Except.bind, pure, Except.pure, true_and]
      by_cases starts : cut j ≤ offset <;> simp [starts]
    · simp [evenJ, pure, Except.pure]
  rw [NodeAllocator.findReservingNodeForOffset,
    firstNode_eq (by simpa using steady.within) plain, ← List.range_eq_range']

theorem Steady.findReservingNodeForOffset (steady : a.Steady capacity cut) (even : Even i)
    (used : i < a.numUsedNodes) (low : cut i ≤ offset) (high : offset + size < cut (i + 1)) :
    a.findReservingNodeForOffset offset size = .ok (some i) := by
  have narrow : offset + size < 2 ^ 32 := high.trans (steady.narrow _ (steady.next_used even used))
  rw [steady.findReservingNodeForOffset_eq narrow]
  refine congrArg Except.ok (List.find?_range_eq_some.mpr ⟨by simp [even, low, high],
    List.mem_range.mpr used, fun j before => ?_⟩)
  -- an earlier node ends before the range starts
  have : cut (j + 1) ≤ cut i := steady.monotone before
  simp only [Bool.not_eq_true', decide_eq_false_iff_not]
  omega

/-- Where no reserving node reaches beyond the end of the range, nothing is freed. -/
theorem Steady.freeOffset_none (steady : a.Steady capacity cut) (narrow : offset + size < 2 ^ 32)
    (none : ∀ j < a.numUsedNodes, Even j → cut j ≤ offset → cut (j + 1) ≤ offset + size) :
    a.freeOffset offset size = .ok (false, a) := by
  have missing : (List.range a.numUsedNodes).find? (fun j =>
      decide (Even j ∧ cut j ≤ offset ∧ offset + size < cut (j + 1))) = Option.none := by
    refine List.find?_eq_none.mpr fun j member => ?_
    rw [decide_eq_true_eq]
    exact fun ⟨even, low, high⟩ => absurd (none j (List.mem_range.mp member) even low) (by omega)
  rw [freeOffset, steady.findReservingNodeForOffset_eq narrow, missing]
  rfl

/-- A range at the start of a reserving node is taken off its front. -/
theorem Steady.freeingType_front (steady : a.Steady capacity cut) (even : Even i)
    (used : i < a.numUsedNodes) (starts : cut i = offset) (high : offset + size < cut (i + 1)) :
    a.freeingType (a.nodeBetween cut i) offset size =
      .ok (.front (a.nodeBetween cut i).base size
        ((a.nodeBetween cut i).base + size * a.elementSize) (cut (i + 1) - cut i - size)) := by
  have shorter : size ≤ (a.nodeBetween cut i).length := by
    simp only [nodeBetween]
    omega
  rw [freeingType]
  simp only [steady.baseAsOffset used, steady.endAsOffset (steady.next_used even used), bind,
    Except.bind]
  rw [if_pos (Or.inl starts), checkedSub_ok shorter]
  rfl

/-- `free_offset` of a range at the start of a reserving node behind a free one. -/
theorem Steady.freeOffset_front (steady : a.Steady capacity cut) (even : Even (c + 1))
    (used : c + 1 < a.numUsedNodes) (starts : cut (c + 1) = offset)
    (high : offset + size < cut (c + 1 + 1)) :
    a.freeOffset offset size = .ok (true, a.shifted c size) := by
  have apart : c ≠ c + 1 := (Nat.succ_ne_self c).symm
  have longer : size < cut (c + 1 + 1) - cut (c + 1) := by omega
  have free : (a.nodes c).isFreeing := (steady.isFreeing_iff (by omega)).mpr
    (Nat.even_add_one.mp even)
  rw [freeOffset, steady.findReservingNodeForOffset even used starts.le high]
  simp only [steady.nodes _ used, steady.freeingType_front even used starts high, bind, Except.bind,
    freeFront, Nat.add_sub_cancel]
  rw [if_neg (Nat.succ_ne_zero c), if_neg (Nat.sub_ne_zero_of_lt longer)]
  simp only [pure, Except.pure, modifyNode, setNode, Function.update_of_ne apart]
  rw [if_pos free]
  simp only [NodeAllocator.shifted, modifyNode, setNode, Function.update_of_ne apart.symm,
    steady.nodes _ used]
  rw [Function.update_comm apart]
  rfl

/-- The node list after a gap was opened in node `r`, the last reserving one. -/
def gapped (a : NodeAllocator) (r : Nat) (front middle back : Node) : NodeAllocator where
  elementSize := a.elementSize
  nodeListMemory := a.nodeListMemory
  dataMemory := a.dataMemory
  nodes := fun i =>
    if i = r then front else if i = r + 1 then middle else if i = r + 2 then back
    else if i = r + 3 then a.nodes (r + 1) else a.nodes i
  currentNode := a.currentNode
  numUsedNodes := r + 4
  fake := a.fake

/-- Inserting at the end of the list, or right before the last node. -/
theorem insertNode_eq (node : Node) (last : a.numUsedNodes = i + 1) (fits : i < nodeCapacity) :
    a.insertNode node i =
      .ok { a with
        nodes := Function.update (Function.update a.nodes (i + 1) (a.nodes i)) i node
        numUsedNodes := i + 2 } := by
  have here : a.refNode i = .ok (a.nodes i) := if_pos (by omega)
  have slot : (a.setNode (i + 1) (a.nodes i)).refNode i = .ok (a.nodes i) := by
    rw [NodeAllocator.refNode, if_pos (by omega), setNode]
    exact congrArg Except.ok (Function.update_of_ne (Nat.succ_ne_self i).symm ..)
  rw [insertNode, last, checkedSub_ok (Nat.le_add_left 1 i), Nat.add_sub_cancel]
  simp only [bind, Except.bind, Nat.add_sub_cancel_left, shiftUp, here, slot]
  simp only [setNode, last]
  rfl

/-- The `Middle` branch works when the node is the last reserving one. -/
theorem freeMiddle_eq {r : Nat} (last : r + 2 = a.numUsedNodes) (room : r + 4 ≤ nodeCapacity)
    (frontSize middleBase middleSize backBase backSize : Nat) :
    a.freeMiddle r frontSize middleBase middleSize backBase backSize =
      .ok (a.gapped r { a.nodes r with length := frontSize } ⟨middleSize, middleBase, false⟩
        ⟨backSize, backBase, true⟩) := by
  rw [freeMiddle]
  simp only []
  rw [insertNode_eq (a := a.modifyNode r _) _ (i := r + 1) last.symm (by omega)]
  simp only [bind, Except.bind]
  rw [insertNode_eq _ (i := r + 2) rfl (by omega)]
  simp only [NodeAllocator.gapped, modifyNode, setNode, Except.ok.injEq, NodeAllocator.mk.injEq,
    true_and, and_true]
  funext i
  simp only [Function.update_apply]
  split_ifs <;> first | rfl | omega

/-- The node list with a gap opened in the last reserving node opens a gap in its
cut points. -/
theorem Steady.gapped {r low high : Nat} (steady : a.Steady capacity cut) (even : Even r)
    (last : r + 2 = a.numUsedNodes) (room : r + 4 ≤ nodeCapacity) (starts : cut r ≤ low)
    (ordered : low ≤ high) (ends : high ≤ cut (r + 1)) :
    (a.gapped r (a.nodeBetween (gap cut r low high) r) (a.nodeBetween (gap cut r low high) (r + 1))
      (a.nodeBetween (gap cut r low high) (r + 2))).Steady capacity (gap cut r low high) where
  monotone := gap_monotone steady.monotone starts ordered ends
  start := (gap_of_le (Nat.zero_le r)).trans steady.start
  full := by
    have full := steady.full
    rw [← last] at full
    rw [show (NodeAllocator.gapped ..).numUsedNodes = r + 2 + 2 from rfl, gap_later (by omega)]
    exact full
  nodes := by
    intro i below
    have below : i < r + 4 := below
    simp only [NodeAllocator.gapped]
    split_ifs with first second third fourth
    · subst first
      rfl
    · subst second
      rfl
    · subst third
      rfl
    · subst fourth
      rw [steady.nodes (r + 1) (by omega)]
      simp only [nodeBetween, show r + 3 = r + 1 + 2 from rfl,
        show r + 1 + 2 + 1 = r + 2 + 2 from rfl, gap_later (Nat.lt_succ_self r),
        gap_later (show r < r + 2 by omega), Nat.even_add_one, even]
      simp
    · -- the nodes before the gap keep their cut points
      rw [steady.nodes i (by omega)]
      simp only [nodeBetween, gap_of_le (show i ≤ r by omega), gap_of_le (show i + 1 ≤ r by omega)]
  elements := steady.elements
  even := (even.add ⟨2, rfl⟩ : Even (r + 4))
  within := room
  current := steady.current.trans (show a.numUsedNodes < r + 4 by omega)
  currentFree := steady.currentFree
  narrow := by
    intro i below
    have below : i < r + 4 := below
    have bound := steady.narrow (r + 1) (by omega)
    rcases Nat.lt_or_ge i (r + 4 - 1) with less | last
    · refine lt_of_le_of_lt (gap_monotone steady.monotone starts ordered ends
        (show i ≤ r + 1 + 2 by omega)) ?_
      rw [gap_later (Nat.lt_succ_self r)]
      exact bound
    · rw [show i = r + 1 + 2 by omega, gap_later (Nat.lt_succ_self r)]
      exact bound

theorem Tidy.gapped {r low high : Nat} {front middle back : Node} (tidy : a.Tidy cut)
    (last : r + 2 = a.numUsedNodes) (starts : cut r < low) (ordered : low < high)
    (ends : high < cut (r + 1)) : (a.gapped r front middle back).Tidy (gap cut r low high) := by
  refine ⟨fun i above below => ?_, fun i behind => ?_⟩
  · have below : i < r + 4 := below
    rcases Nat.lt_or_ge i r with before | after
    · rw [gap_of_le before.le, gap_of_le before]
      exact tidy.tight i above (by omega)
    · obtain rfl | rfl | rfl | rfl : i = r ∨ i = r + 1 ∨ i = r + 2 ∨ i = r + 3 := by omega
      · rw [gap_of_le le_rfl, gap_first]
        exact starts
      · rw [gap_first, gap_second]
        exact ordered
      · rw [gap_second, show r + 2 + 1 = r + 1 + 2 from rfl, gap_later (Nat.lt_succ_self r)]
        exact ends
      · rw [show r + 3 = r + 1 + 2 from rfl, show r + 1 + 2 + 1 = r + 1 + 1 + 2 from rfl,
          gap_later (Nat.lt_succ_self r), gap_later (by omega)]
        exact tidy.tight (r + 1) (by omega) (by omega)
  · have behind : r + 4 ≤ i := behind
    have old := tidy.blank i (by omega)
    simp only [NodeAllocator.gapped]
    rwa [if_neg (by omega), if_neg (by omega), if_neg (by omega), if_neg (by omega)]

/-- A range inside a reserving node cuts it in three. -/
theorem Steady.freeingType_middle (steady : a.Steady capacity cut) (even : Even i)
    (used : i < a.numUsedNodes) (starts : cut i < offset) (high : offset + size < cut (i + 1)) :
    a.freeingType (a.nodeBetween cut i) offset size =
      .ok (.middle (a.nodeBetween cut i).base (offset - cut i)
        (a.dataMemory.base + a.elementSize * offset) size
        (a.dataMemory.base + a.elementSize * (offset + size)) (cut (i + 1) - (offset + size))) := by
  have next := steady.next_used even used
  have narrow : offset + size < 2 ^ 32 := high.trans (steady.narrow _ next)
  have length : (a.nodeBetween cut i).length = cut (i + 1) - cut i := rfl
  rw [freeingType]
  simp only [steady.baseAsOffset used, steady.endAsOffset next, bind, Except.bind]
  rw [if_neg (by rw [length]; omega), checkedSub_ok (by omega)]
  simp only []
  rw [if_neg (by omega), checkedSub_ok starts.le, checkedAdd32_ok narrow]
  simp only []
  rw [checkedSub_ok high.le]
  rfl

/-- `free_offset` of a range inside the last reserving node. -/
theorem Steady.freeOffset_middle {r : Nat} (steady : a.Steady capacity cut) (even : Even r)
    (last : r + 2 = a.numUsedNodes) (room : r + 4 ≤ nodeCapacity) (starts : cut r < offset)
    (high : offset + size < cut (r + 1)) :
    a.freeOffset offset size = .ok (true, a.gapped r
      (a.nodeBetween (gap cut r offset (offset + size)) r)
      (a.nodeBetween (gap cut r offset (offset + size)) (r + 1))
      (a.nodeBetween (gap cut r offset (offset + size)) (r + 2))) := by
  have used : r < a.numUsedNodes := by omega
  rw [freeOffset, steady.findReservingNodeForOffset even used starts.le high]
  simp only [steady.nodes _ used, steady.freeingType_middle even used starts high, bind,
    Except.bind,
    freeMiddle_eq last room]
  refine congrArg (fun b => Except.ok (true, b)) ?_
  congr 1
  · rw [nodeBetween, nodeBetween, gap_of_le le_rfl, gap_first]
  · simp only [nodeBetween, gap_first, gap_second, Nat.add_sub_cancel_left, Nat.even_add_one, even,
      Nat.mul_comm]
    rfl
  · simp only [nodeBetween, gap_second, show r + 2 + 1 = r + 1 + 2 from rfl,
      gap_later (Nat.lt_succ_self r), Nat.even_add_one, even, Nat.mul_comm]
    rfl

end NodeAllocator

end EmkKernel
