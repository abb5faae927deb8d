import EmkKernel.Library.Ledger
import EmkKernel.Library.Requests
import EmkKernel.Utils.Partition

/-!
# The node allocator keeps a ledger of its elements

A `Heap` is a node allocator together with the ranges its callers hold. A request
that fits the node list refines a step of the abstract `Ledger` over elements: an
element lies in a reserving node exactly when an outstanding range contains it.
-/

namespace EmkKernel

open Cuts

/-- A range of elements. -/
structure Extent where
  offset : Nat
  size : Nat
  deriving DecidableEq, Repr

namespace Extent

def elements (e : Extent) : Set Nat := Set.Ico e.offset (e.offset + e.size)

def Disjoint (e f : Extent) : Prop := ∀ x, x ∈ e.elements → x ∉ f.elements

end Extent

/-- A node allocator and the ranges handed out and not yet freed. -/
structure Heap where
  allocator : NodeAllocator
  outstanding : List Extent

inductive HeapRequest where
  | allocate (size : Nat)
  | free (e : Extent)
  deriving DecidableEq, Repr

namespace Heap

/-- Serve a request; a panic ends the run. -/
def serve (s : Heap) : HeapRequest → Option Heap
  | .allocate size =>
    match s.allocator.allocateAsOffset size with
    | .ok (some offset, a) => some ⟨a, ⟨offset, size⟩ :: s.outstanding⟩
    | .ok (none, a) => some ⟨a, s.outstanding⟩
    | .error _ => none
  | .free e =>
    match s.allocator.freeOffset e.offset e.size with
    | .ok (_, a) => some ⟨a, s.outstanding.erase e⟩
    | .error _ => none

/-- The requests callers make: something is asked for, and only a range that is
held is freed. -/
def Permits (s : Heap) : HeapRequest → Prop
  | .allocate size => 0 < size ∧ size < 2 ^ 32
  | .free e => e ∈ s.outstanding

instance (s : Heap) : (r : HeapRequest) → Decidable (s.Permits r)
  | .allocate _ => inferInstanceAs (Decidable (_ ∧ _))
  | .free _ => inferInstanceAs (Decidable (_ ∈ _))

/-- A step by a request with a property. -/
def Step (meets : Heap → HeapRequest → Prop) (s s' : Heap) : Prop :=
  ∃ r, meets s r ∧ s.serve r = some s'

/-- An allocator as one of the constructors returns it. -/
def Built (a : NodeAllocator) : Prop :=
  ∃ (allocator rest : Allocator) (elementSize : Nat),
    (∃ numEntries, (NodeAllocator.new allocator elementSize numEntries).value = .ok (a, rest)) ∨
    ∃ mb, (NodeAllocator.newFake allocator elementSize mb).value = .ok (a, rest)

end Heap

namespace NodeAllocator

/-- The number of elements in the data memory. -/
def capacity (a : NodeAllocator) : Nat := a.dataMemory.length / a.elementSize

/-- The offset at which a node starts. -/
def startOf (a : NodeAllocator) (i : Nat) : Nat :=
  ((a.nodes i).base - a.dataMemory.base) / a.elementSize

/-- The first long enough node, the current one before all others, is free and
longer than what is asked for, and the elements taken end below `2 ^ 32`. -/
def SuitsSize (a : NodeAllocator) (size : Nat) : Prop :=
  ∀ c, a.chosen size = some c →
    (a.nodes c).isFreeing ∧ size < (a.nodes c).length ∧ a.startOf c + size < 2 ^ 32

/-- The range ends inside a reserving node, and either starts it, behind a free
node, or lies inside the last one while two more nodes fit the list. -/
def SuitsRange (a : NodeAllocator) (e : Extent) : Prop :=
  ∃ i < a.numUsedNodes, (a.nodes i).isReserving ∧
    e.offset + e.size < a.startOf i + (a.nodes i).length ∧
    (a.startOf i = e.offset ∧ 0 < i ∨
      a.startOf i < e.offset ∧ i + 2 = a.numUsedNodes ∧ a.numUsedNodes + 2 ≤ nodeCapacity)

end NodeAllocator

namespace Heap

open NodeAllocator

/-- The condition on the state before a request. -/
def Suits (s : Heap) : HeapRequest → Prop
  | .allocate size => s.allocator.SuitsSize size
  | .free e => s.allocator.SuitsRange e

/-- A request of a caller that meets the condition. -/
def Meets (s : Heap) (r : HeapRequest) : Prop := s.Permits r ∧ s.Suits r

instance (a : NodeAllocator) (size : Nat) : Decidable (a.SuitsSize size) :=
  match found : a.chosen size with
  | none => isTrue fun c other => by
      rw [found] at other
      cases other
  | some c =>
    decidable_of_iff
      ((a.nodes c).isFreeing ∧ size < (a.nodes c).length ∧ a.startOf c + size < 2 ^ 32)
      ⟨fun suits _ other => by
        rw [found] at other
        cases other
        exact suits, fun suits => suits c found⟩

instance (a : NodeAllocator) (e : Extent) : Decidable (a.SuitsRange e) :=
  inferInstanceAs (Decidable (∃ i < a.numUsedNodes, _))

instance (s : Heap) : (r : HeapRequest) → Decidable (s.Suits r)
  | .allocate size => inferInstanceAs (Decidable (s.allocator.SuitsSize size))
  | .free e => inferInstanceAs (Decidable (s.allocator.SuitsRange e))

instance (s : Heap) (r : HeapRequest) : Decidable (s.Meets r) :=
  inferInstanceAs (Decidable (_ ∧ _))

/-- The outstanding ranges are disjoint and inside the memory, and the reserving
nodes of a partition of the memory cover exactly them. -/
structure KeepsLedger (s : Heap) (capacity : Nat) : Prop where
  disjoint : s.outstanding.Pairwise Extent.Disjoint
  inside : ∀ e ∈ s.outstanding, e.offset + e.size ≤ capacity
  covers : ∃ cut, s.allocator.Partitioned capacity cut ∧
    ∀ x, x ∈ held cut s.allocator.numUsedNodes ↔ ∃ e ∈ s.outstanding, x ∈ e.elements

/-- A heap with a steady node list and a ledger of the elements held. -/
structure KeepsBooks (s : Heap) (capacity : Nat) (cut : Nat → Nat) (L : Ledger Extent.elements) :
    Prop where
  steady : s.allocator.Steady capacity cut
  outstanding : s.outstanding = L.outstanding
  held : ∀ x, x ∈ held cut s.allocator.numUsedNodes ↔ x ∈ L.taken
  reserved : L.reserved = ∅
  nonempty : ∀ e ∈ s.outstanding, 0 < e.size

variable {s s' : Heap} {a : NodeAllocator} {capacity : Nat} {cut : Nat → Nat}
  {L : Ledger Extent.elements}

theorem startOf_eq {i : Nat} (steady : a.Steady capacity cut) (used : i < a.numUsedNodes) :
    a.startOf i = cut i := by
  rw [startOf, steady.nodes i used, nodeBetween]
  simp only [Nat.add_sub_cancel_left]
  exact Nat.mul_div_cancel _ steady.elements

theorem KeepsBooks.allocate (books : s.KeepsBooks capacity cut L) {size : Nat} (some : 0 < size)
    (suits : s.allocator.SuitsSize size) :
    ∃ s', s.serve (.allocate size) = Option.some s' ∧ ∃ cut' L', s'.KeepsBooks capacity cut' L' ∧
      (s.allocator.Tidy cut → s'.allocator.Tidy cut') := by
  obtain ⟨steady, outstanding, held, reserved, nonempty⟩ := books
  cases found : s.allocator.chosen size with
  | none =>
    refine ⟨s, ?_, cut, L, ⟨steady, outstanding, held, reserved, nonempty⟩, id⟩
    rw [serve, steady.allocateAsOffset_none found]
  | some c =>
    obtain ⟨free, shorter, narrow⟩ := suits c found
    obtain ⟨used, _⟩ := chosen_used steady found
    have odd := (steady.isFreeing_iff used).mp free
    rw [startOf_eq steady used] at narrow
    obtain ⟨c, rfl⟩ : ∃ b, c = b + 1 := Nat.exists_eq_succ_of_ne_zero fun zero =>
      odd (zero ▸ ⟨0, rfl⟩)
    have even : Even c := by
      by_contra notEven
      exact odd (Nat.even_add_one.mpr notEven)
    have ran := steady.allocateAsOffset found shorter
    have steady' := (steady.select found free).shifted used shorter.le narrow
    rw [steady.length_eq used] at shorter
    -- the elements granted come from a free node
    have fresh : Disjoint (Extent.mk (cut (c + 1)) size).elements L.taken := by
      have apart := cell_disjoint_held (n := s.allocator.numUsedNodes) steady.monotone odd
      refine Set.disjoint_left.mpr fun x granted taken => ?_
      refine Set.disjoint_left.mp apart ⟨granted.1, ?_⟩ ((held x).mpr taken)
      exact lt_of_lt_of_le granted.2 (by simp only []; omega)
    refine ⟨_, by rw [serve, ran], move cut (c + 1) (cut (c + 1) + size), L.grant _ fresh, ⟨steady',
      by simp only [outstanding, Ledger.grant], fun x => ?_, reserved, ?_⟩, fun tidy => ?_⟩
    · change x ∈ Cuts.held (move cut (c + 1) (cut (c + 1) + size)) s.allocator.numUsedNodes ↔ _
      rw [L.mem_taken_grant, ← held x,
        held_move_free steady.monotone (Nat.le_add_right ..) even (by omega)]
      rfl
    · intro e member
      rcases List.mem_cons.mp member with rfl | old
      · exact some
      · exact nonempty e old
    · have tidy' : ({ s.allocator with currentNode := c + 1 } : NodeAllocator).Tidy cut :=
        ⟨tidy.tight, tidy.blank⟩
      exact tidy'.shifted used some (by omega)

/-- What `free_offset` does to a range that suits the node list. -/
theorem freeOffset_suited {e : Extent} (steady : a.Steady capacity cut) (suits : a.SuitsRange e) :
    ∃ b cut', a.freeOffset e.offset e.size = .ok (true, b) ∧ b.dataMemory = a.dataMemory ∧
      b.elementSize = a.elementSize ∧ b.fake = a.fake ∧ b.Steady capacity cut' ∧
      Cuts.held cut' b.numUsedNodes = Cuts.held cut a.numUsedNodes \ e.elements ∧
      (0 < e.size → a.Tidy cut → b.Tidy cut') := by
  obtain ⟨i, used, reserving, ends, place⟩ := suits
  have even : Even i := by
    rw [steady.nodes i used] at reserving
    exact of_decide_eq_true reserving
  have next := steady.next_used even used
  have length := steady.length_eq used
  have ordered : cut i ≤ cut (i + 1) := steady.monotone (Nat.le_succ i)
  rw [startOf_eq steady used] at ends place
  have high : e.offset + e.size < cut (i + 1) := by omega
  rcases place with ⟨starts, positive⟩ | ⟨starts, last, room⟩
  · obtain ⟨c, rfl⟩ : ∃ c, i = c + 1 := ⟨i - 1, by omega⟩
    refine ⟨_, _, steady.freeOffset_front even used starts high, rfl, rfl, rfl,
      steady.shifted used (by omega) (by have := steady.narrow _ next; omega), ?_,
      fun some tidy => tidy.shifted used some (by omega)⟩
    rw [shifted_numUsedNodes, held_move_held steady.monotone (by omega) (Nat.le_add_right ..) even,
      starts]
    rfl
  · refine ⟨_, _, steady.freeOffset_middle even last (by omega) starts high, rfl, rfl, rfl,
      steady.gapped even last (by omega) starts.le (Nat.le_add_right ..) high.le, ?_,
      fun some tidy => tidy.gapped last starts (by omega) high⟩
    rw [← last]
    exact held_gap steady.monotone starts.le (Nat.le_add_right ..) high.le even

theorem KeepsBooks.free (books : s.KeepsBooks capacity cut L) {e : Extent}
    (member : e ∈ s.outstanding) (suits : s.allocator.SuitsRange e) :
    ∃ s', s.serve (.free e) = some s' ∧ ∃ cut' L', s'.KeepsBooks capacity cut' L' ∧
      (s.allocator.Tidy cut → s'.allocator.Tidy cut') := by
  obtain ⟨steady, outstanding, held, reserved, nonempty⟩ := books
  obtain ⟨b, cut', ran, _, _, _, steady', opened, kept⟩ := freeOffset_suited steady suits
  refine ⟨⟨b, s.outstanding.erase e⟩, by rw [serve, ran], cut', L.giveBack e, ⟨steady',
    by simp only [outstanding, Ledger.giveBack], fun x => ?_, reserved,
    fun f kept => nonempty f (List.mem_of_mem_erase kept)⟩, kept (nonempty e member)⟩
  rw [L.mem_taken_giveBack (outstanding ▸ member), ← held x, opened]
  rfl

/-- A range that is held ends inside the memory. -/
theorem KeepsBooks.inside (books : s.KeepsBooks capacity cut L) {e : Extent}
    (member : e ∈ s.outstanding) : e.offset + e.size ≤ capacity := by
  have positive := books.nonempty e member
  -- the last element of the range lies in a reserving node
  have last : e.offset + e.size - 1 ∈ L.taken := by
    refine Or.inr ⟨e, books.outstanding ▸ member, ?_, ?_⟩ <;> omega
  have bound := (held_subset books.steady.monotone ((books.held _).mpr last)).2
  rw [books.steady.full] at bound
  omega

theorem KeepsBooks.serves (books : s.KeepsBooks capacity cut L) {r : HeapRequest}
    (permits : s.Permits r) (suits : s.Suits r) :
    ∃ s', s.serve r = some s' ∧ ∃ cut' L', s'.KeepsBooks capacity cut' L' ∧
      (s.allocator.Tidy cut → s'.allocator.Tidy cut') := by
  cases r with
  | allocate size => exact books.allocate permits.1 suits
  | free e => exact books.free permits suits

theorem built_steady (built : Built a) :
    a.Steady a.capacity (initialCut a.capacity) ∧ a.numUsedNodes = 2 ∧
      ∀ i, a.numUsedNodes ≤ i → (a.nodes i).isReserving = false := by
  have ofMemory {elementSize : Nat} {nodeList data : MemoryBlock} {fake : Bool}
      {left rest : Allocator}
      (result : (NodeAllocator.ofMemory elementSize nodeList data fake).map (·, left) =
        .ok (a, rest)) :
      a.Steady a.capacity (initialCut a.capacity) ∧ a.numUsedNodes = 2 ∧
        ∀ i, a.numUsedNodes ≤ i → (a.nodes i).isReserving = false := by
    rw [NodeAllocator.ofMemory] at result
    split at result
    next => cases result
    next positive =>
      cases result
      refine ⟨steady_initial (Nat.pos_of_ne_zero positive) nodeList data fake, rfl,
        fun i behind => ?_⟩
      have behind : 2 ≤ i := behind
      simp only [initial, show i ≠ 0 by omega, show i ≠ 1 by omega, if_false]
      rfl
  obtain ⟨allocator, rest, elementSize, ⟨numEntries, result⟩ | ⟨mb, result⟩⟩ := built
  · simp only [new, Traced.value_bind] at result
    split at result
    next => cases result
    next =>
      simp only [Traced.value_bind] at result
      split at result
      next => cases result
      next => exact ofMemory result
  · simp only [newFake, Traced.value_bind] at result
    split at result
    next => cases result
    next => exact ofMemory result

theorem held_initialCut (capacity : Nat) : Cuts.held (initialCut capacity) 2 = ∅ := by
  refine Set.eq_empty_of_forall_notMem fun x ⟨i, below, even, member⟩ => ?_
  have : i ≠ 1 := fun one => by simp [one] at even
  obtain rfl : i = 0 := by omega
  exact absurd member.2 (Nat.not_lt_zero x)

/-- What every run keeps: the books, and a tidy node list where there is memory at all. -/
theorem run_keepsBooks (built : Built a) (run : Relation.ReflTransGen (Step Meets) ⟨a, []⟩ s) :
    (∃ cut L, s.KeepsBooks a.capacity cut L ∧ (0 < a.capacity → s.allocator.Tidy cut)) ∧
      ∀ r, s.Meets r → (s.serve r).isSome := by
  obtain ⟨steady, used, blank⟩ := built_steady built
  have start : (Heap.mk a []).KeepsBooks a.capacity (initialCut a.capacity) (Ledger.opened ∅) := by
    refine ⟨steady, rfl, fun x => ?_, rfl, fun e member => ?_⟩
    · rw [Ledger.taken_opened, used, held_initialCut]
    · cases member
  have tidy (some : 0 < a.capacity) : a.Tidy (initialCut a.capacity) := by
    refine ⟨fun i above below => ?_, blank⟩
    obtain rfl : i = 1 := by omega
    exact some
  apply Requests.Run.keeps_serving (show Requests.Run serve Meets _ _ from run)
    (I := fun s => ∃ cut L, s.KeepsBooks a.capacity cut L ∧ (0 < a.capacity → s.allocator.Tidy cut))
    ⟨_, _, start, tidy⟩
  rintro s r ⟨cut, L, books, tidy⟩ ⟨permits, suits⟩
  obtain ⟨s', served, cut', L', books', kept⟩ := books.serves permits suits
  exact ⟨s', served, cut', L', books', fun some => kept (tidy some)⟩

/-- In every run of steps that meet the condition, the outstanding ranges are
disjoint and inside the memory, the reserving nodes of a partition of the memory
cover exactly them, and the next request that meets the condition is served. -/
theorem heap_keepsLedger (built : Built a) (run : Relation.ReflTransGen (Step Meets) ⟨a, []⟩ s) :
    s.KeepsLedger a.capacity ∧ ∀ r, s.Meets r → (s.serve r).isSome := by
  obtain ⟨⟨cut, L, books, _⟩, served⟩ := run_keepsBooks built run
  refine ⟨⟨?_, fun e => books.inside, cut, books.steady.toPartitioned, fun x => ?_⟩, served⟩
  · rw [books.outstanding]
    exact L.disjoint.imp fun apart x first second => Set.disjoint_left.mp apart first second
  · rw [books.held x, L.mem_taken, books.reserved, books.outstanding]
    simp

section Samples

/-- An allocator whose 128 pages from `0x100000` on are free. -/
def plainPages : Allocator := ⟨fun _ => 0, 4, 0, 0x100000, 0⟩

/-- A node allocator over the 512 elements of one page. -/
def plainNodes : NodeAllocator :=
  NodeAllocator.initial 8 ⟨0x100000, 0x1000⟩ ⟨0x101000, 0x1000⟩ false

theorem plainNodes_built : Built plainNodes :=
  ⟨plainPages, _, 8, Or.inl ⟨512, rfl⟩⟩

/-- A gap is opened, grown at its end and used again. -/
theorem heap_keepsLedger_plain : ∃ s, Relation.ReflTransGen (Step Meets) ⟨plainNodes, []⟩ s ∧
    s.outstanding = [⟨4, 2⟩, ⟨16, 8⟩, ⟨0, 4⟩] ∧ s.KeepsLedger plainNodes.capacity := by
  have served : ((Requests.serveAll serve Meets ⟨plainNodes, []⟩ [.allocate 4, .allocate 4,
      .allocate 8,
      .allocate 8, .free ⟨4, 4⟩, .free ⟨8, 8⟩, .allocate 2]).map Heap.outstanding) =
      some [⟨4, 2⟩, ⟨16, 8⟩, ⟨0, 4⟩] := by decide +kernel
  obtain ⟨s, served, outstanding⟩ := Option.map_eq_some_iff.mp served
  have run := Requests.serveAll_run served
  exact ⟨s, run, outstanding, (heap_keepsLedger plainNodes_built run).1⟩

/-- After a range in the middle was freed, a request that is longer than the gap
gets elements of a range that is still held. -/
theorem heap_not_keepsLedger : ∃ s, Relation.ReflTransGen (Step Permits) ⟨plainNodes, []⟩ s ∧
    Built plainNodes ∧ ¬s.KeepsLedger plainNodes.capacity := by
  have served : ((Requests.serveAll serve Permits ⟨plainNodes, []⟩ [.allocate 4, .allocate 4,
      .allocate 16,
      .free ⟨4, 4⟩, .allocate 8]).map Heap.outstanding) =
      some [⟨8, 8⟩, ⟨8, 16⟩, ⟨0, 4⟩] := by decide +kernel
  obtain ⟨s, served, outstanding⟩ := Option.map_eq_some_iff.mp served
  refine ⟨s, Requests.serveAll_run served, plainNodes_built, fun books => ?_⟩
  have disjoint := books.disjoint
  rw [outstanding] at disjoint
  exact (List.pairwise_cons.mp disjoint).1 ⟨8, 16⟩ (by simp) 8 (by simp [Extent.elements])
    (by simp [Extent.elements])

end Samples

end Heap

end EmkKernel
