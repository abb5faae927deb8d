import EmkKernel.Memory.FreeRuns
import EmkKernel.Paging.SmallPages
import EmkKernel.Utils.Copies
import EmkKernel.Utils.Space

/-!
# Node allocators after they grew

The node list of a real backing moves to a longer copy of the elements, and its last node,
which is free, gets what was added. The pages added to a window of addresses are
all mapped at its end, so only the last one of them is left.
-/

namespace EmkKernel

open Cuts

namespace NodeAllocator

variable {a b : NodeAllocator} {capacity : Nat} {cut : Nat → Nat} {data : MemoryBlock}

/-! ### The node list -/

def rebased (node : Node) (oldBase newBase : Nat) : Node :=
  { node with base := newBase + (node.base - oldBase) }

/-- The nodes from `i` on are moved from one base to another. -/
theorem rebaseNodes_eq {oldBase newBase i n : Nat}
    (above : ∀ j, i ≤ j → j < i + n → oldBase ≤ (a.nodes j).base) :
    a.rebaseNodes oldBase newBase i n = .ok { a with
      nodes := fun j =>
        if i ≤ j ∧ j < i + n then rebased (a.nodes j) oldBase newBase else a.nodes j } := by
  induction n generalizing a i with
  | zero =>
    have none (j : Nat) : ¬(i ≤ j ∧ j < i + 0) := by omega
    simp only [rebaseNodes, none, if_false]
  | succ n ih =>
    have others (j : Nat) (later : i + 1 ≤ j) (f : Node → Node) :
        (a.modifyNode i f).nodes j = a.nodes j := Function.update_of_ne (by omega) _ _
    rw [rebaseNodes, checkedSub_ok (above i le_rfl (by omega))]
    change (a.modifyNode i fun node => { node with
      base := newBase + ((a.nodes i).base - oldBase) }).rebaseNodes oldBase newBase (i + 1) n = _
    rw [ih]
    · congr 1
      simp only [modifyNode, setNode, NodeAllocator.mk.injEq, true_and, and_true]
      funext j
      by_cases here : j = i
      · subst here
        rw [if_neg (by omega), if_pos (by omega), Function.update_self, rebased]
      · rw [Function.update_of_ne here]
        by_cases inside : i + 1 ≤ j ∧ j < i + 1 + n
        · rw [if_pos inside, if_pos (by omega)]
        · rw [if_neg inside, if_neg (by omega)]
    · intro j later below
      rw [others j later]
      exact above j (by omega) (by omega)

/-- The cut points of the list over new memory. -/
def extendedCut (a : NodeAllocator) (cut : Nat → Nat) (data : MemoryBlock) : Nat → Nat :=
  Cuts.lengthen cut a.numUsedNodes (data.length / a.elementSize)

/-- The node list over new memory. -/
def extended (a : NodeAllocator) (cut : Nat → Nat) (data : MemoryBlock) : NodeAllocator :=
  { a with
    dataMemory := data
    nodes := fun j =>
      if j < a.numUsedNodes then
        nodeBetween { a with dataMemory := data } (a.extendedCut cut data) j
      else a.nodes j }

theorem Steady.extend_eq (steady : a.Steady capacity cut)
    (fits : capacity * a.elementSize ≤ data.length) :
    a.extend data = .ok (a.extended cut data) := by
  have used := steady.current
  have elements := steady.elements
  obtain ⟨n, count⟩ : ∃ n, a.numUsedNodes = n + 1 := ⟨a.numUsedNodes - 1, by omega⟩
  have above (j : Nat) (_ : 0 ≤ j) (below : j < 0 + a.numUsedNodes) :
      a.dataMemory.base ≤ (a.nodes j).base := by
    rw [steady.nodes j (by omega)]
    exact Nat.le_add_right _ _
  have moved (j : Nat) (below : j < a.numUsedNodes) :
      rebased (a.nodes j) a.dataMemory.base data.base =
        ⟨cut (j + 1) - cut j, data.base + cut j * a.elementSize, decide (Even j)⟩ := by
    rw [steady.nodes j below, rebased, nodeBetween]
    simp only [Nat.add_sub_cancel_left]
  have lastCut : cut n * a.elementSize ≤ data.length := by
    refine (Nat.mul_le_mul_right _ ?_).trans fits
    rw [← steady.full]
    exact steady.monotone (by omega)
  rw [NodeAllocator.extend, rebaseNodes_eq above]
  simp only [bind, Except.bind, count, checkedSub_ok (Nat.le_add_left 1 n), Nat.add_sub_cancel]
  rw [if_pos (by omega), moved n (by omega), checkedSub_ok (by simp only; omega)]
  simp only [pure, Except.pure, extended, modifyNode, setNode, Except.ok.injEq,
    NodeAllocator.mk.injEq, true_and, and_true]
  refine ⟨?_, count.symm⟩
  funext j
  by_cases last : j = n
  · subst last
    rw [Function.update_self, if_pos (by omega), if_pos (by omega), moved j (by omega)]
    simp only [nodeBetween, extendedCut]
    rw [← count, lengthen_self, lengthen_of_lt (by omega),
      show data.base + data.length - (data.base + cut j * a.elementSize) =
        data.length - a.elementSize * cut j by rw [Nat.mul_comm]; omega, Nat.sub_mul_div]
  · rw [Function.update_of_ne last]
    by_cases below : j < a.numUsedNodes
    · rw [if_pos (by omega), if_pos (by omega), moved j below]
      simp only [nodeBetween, extendedCut]
      rw [lengthen_of_lt below, lengthen_of_lt (by omega)]
    · rw [if_neg (by omega), if_neg (by omega)]

theorem Steady.extended (steady : a.Steady capacity cut)
    (fits : capacity * a.elementSize ≤ data.length) :
    (a.extended cut data).Steady (data.length / a.elementSize) (a.extendedCut cut data) where
  monotone := by
    refine lengthen_monotone steady.monotone ?_
    rw [steady.full]
    exact (Nat.le_div_iff_mul_le steady.elements).mpr fits
  start := (lengthen_of_lt (Nat.zero_lt_of_lt steady.current)).trans steady.start
  full := lengthen_self
  nodes := fun i below => if_pos below
  elements := steady.elements
  even := steady.even
  within := steady.within
  current := steady.current
  currentFree := steady.currentFree
  narrow := by
    intro i below
    have below : i < a.numUsedNodes := below
    rw [extendedCut, lengthen_of_lt below]
    exact steady.narrow i below

/-- The reserving nodes keep their elements, and the last free node gets all that were added. -/
theorem Steady.held_extended (steady : a.Steady capacity cut) (data : MemoryBlock) :
    held (a.extendedCut cut data) a.numUsedNodes = held cut a.numUsedNodes := by
  obtain ⟨n, count⟩ : ∃ n, a.numUsedNodes = n + 1 :=
    ⟨a.numUsedNodes - 1, by have := steady.current; omega⟩
  refine held_lengthen (c := n) (fun even => ?_) count.symm
  have next := steady.next_used even (by omega)
  omega

end NodeAllocator

/-! ### What `reallocate` does -/

open EStateM

private theorem yields_liftExcept {α : Type} {x : Except Stop α} {m : Machine}
    {Q : α → Machine → Prop}
    (ok : ∀ v, x = .ok v → Q v m) : Yields (liftExcept x) m Q fun _ _ => True := by
  cases x with
  | ok v => exact ok v rfl
  | error e => trivial

private theorem allocZero_alloc (pages : Nat) (m : Machine) :
    Yields (allocZero pages) m (fun data m' =>
      (m.allocator.alloc (pages % 2 ^ 16)).value = (.ok data, m'.allocator) ∧
        m'.memory = zeroFrames m.memory data.base (data.length / 0x1000)) fun _ _ => True := by
  unfold allocZero
  rw [yields_bind, yields_get]
  split
  next data a returned =>
    simp only [yields_bind, yields_set, yields_pure]
    exact ⟨returned, trivial⟩
  next => simp only [yields_bind, yields_set, yields_throw]

namespace NodeAllocator

variable {a b : NodeAllocator} {pager : Pager} {growth : Nat} {m m' : Machine}

/-- The memory an allocation of pages returned to `reallocate`. -/
structure Obtains (a : NodeAllocator) (growth : Nat) (m : Machine) (data : MemoryBlock)
    (m' : Machine) : Prop where
  pages : ∃ n, a.grownPages growth = .ok n ∧
    (m.allocator.alloc n).value = (.ok data, m'.allocator)
  zeroed : m'.memory = zeroFrames m.memory data.base (data.length / 0x1000)

private theorem grownPages_ok {n : Nat} (pages : a.grownPages growth = .ok n) :
    n = a.dataMemory.length / 0x1000 % 2 ^ 16 * growth ∧ n < 2 ^ 16 := by
  unfold grownPages at pages
  simp only at pages
  split at pages
  next fits =>
    cases pages
    exact ⟨rfl, fits⟩
  next => cases pages

private theorem reallocate_real (real : a.fake = false)
    (ran : reallocate pager a growth m = .ok b m') :
    ∃ data m₁, a.Obtains growth m data m₁ ∧ a.extend data = .ok b ∧
      (m₁.allocator.free a.dataMemory).value = (.ok (), m'.allocator) ∧
      m'.memory = memcpyQword m₁.memory data.base a.dataMemory.base
        (a.dataMemory.length / 8 % 2 ^ 32) := by
  have outcome : Yields (reallocate pager a growth) m (fun b m' =>
      ∃ data m₁, a.Obtains growth m data m₁ ∧ a.extend data = .ok b ∧
        (m₁.allocator.free a.dataMemory).value = (.ok (), m'.allocator) ∧
        m'.memory = memcpyQword m₁.memory data.base a.dataMemory.base
          (a.dataMemory.length / 8 % 2 ^ 32)) fun _ _ => True := by
    unfold reallocate growMemory
    simp only [yields_bind, yields_pure, yields_modify, real, Bool.false_eq_true, if_false]
    refine yields_liftExcept fun n pages => ?_
    refine (yields_unwrapResult (allocZero_alloc n m)).mono ?_ fun _ _ h => h
    rintro data m₁ ⟨returned, zeroed⟩
    rw [Nat.mod_eq_of_lt (grownPages_ok pages).2] at returned
    refine yields_liftExcept fun b extended => ?_
    refine (yields_unwrapResult (((freeBlock_yields _ _).mono (fun _ _ freed => freed)
      fun _ _ _ => trivial))).mono ?_ fun _ _ h => h
    rintro _ m₂ ⟨memory, freed⟩
    exact ⟨data, m₁, ⟨⟨n, pages, returned⟩, zeroed⟩, extended, freed, memory⟩
  exact outcome.ok ran

end NodeAllocator

/-! ### What the rest of the kernel promises -/

namespace Allocator

variable {allocator allocator' : Allocator} {mb : MemoryBlock}

/-- The pages of a block that was taken as a whole are not free. -/
def Holds (allocator : Allocator) (mb : MemoryBlock) : Prop :=
  ∃ pages k, pages < 2 ^ 16 ∧ mb = allocator.blockAt pages k ∧
    ∀ j, BitArray.InRun k pages j → BitArray.bit allocator.bitmap j = true

/-- What is handed out lies apart from what is held. -/
theorem Holds.apart (holds : allocator.Holds mb) {pages : Nat} {data : MemoryBlock}
    (returned : (allocator.alloc pages).value = (.ok data, allocator')) (some : 0 < mb.length) :
    mb.endAddress ≤ data.base ∨ data.endAddress ≤ mb.base := by
  obtain ⟨p, j, _, rfl, taken⟩ := holds
  obtain ⟨positive, k, picks, _, rfl, _⟩ := allocator.alloc_ok returned
  have clear := picks.clear
  simp only [MemoryBlock.endAddress, blockAt] at some ⊢
  by_contra overlap
  -- the first page of one of the two runs belongs to both
  by_cases first : j ≤ k
  · have set := taken k (by unfold BitArray.InRun; omega)
    rw [clear k (by unfold BitArray.InRun; omega)] at set
    cases set
  · have set := taken j (by unfold BitArray.InRun; omega)
    rw [clear j (by unfold BitArray.InRun; omega)] at set
    cases set

theorem Holds.aligned (holds : allocator.Holds mb) {pages : Nat} {data : MemoryBlock}
    (returned : (allocator.alloc pages).value = (.ok data, allocator'))
    (aligned : data.base % 0x1000 = 0) : mb.base % 0x1000 = 0 := by
  obtain ⟨p, j, _, rfl, _⟩ := holds
  obtain ⟨_, k, _, _, rfl, _⟩ := allocator.alloc_ok returned
  rw [Nat.add_mul_mod_self_right] at aligned
  exact (Nat.add_mul_mod_self_right ..).trans aligned

end Allocator

/-- The machine a node allocator grows in: the tables are well formed, the page allocator
returns frames that are no tables, and the memory of a real backing is held. -/
structure Carries (pager : Pager) (a : NodeAllocator) (m : Machine) : Prop where
  wellFormed : pager.WellFormed m.memory
  offers : m.allocator.Offers (pager.IsTable m.memory)
  held : a.fake = false → m.allocator.Holds a.dataMemory

namespace NodeAllocator

variable {a b : NodeAllocator} {pager : Pager} {growth : Nat} {m m' m₁ : Machine}
  {data : MemoryBlock}

/-- The old elements fit the memory that is obtained. -/
theorem Obtains.longer (obtains : a.Obtains growth m data m₁) (more : 1 < growth)
    (holds : m.allocator.Holds a.dataMemory) : 0 < a.dataMemory.length ∧
      a.dataMemory.length % 0x1000 = 0 ∧ a.dataMemory.length ≤ data.length ∧
      a.dataMemory.length < 2 ^ 28 := by
  obtain ⟨n, pages, returned⟩ := obtains.pages
  obtain ⟨p, j, small, same, _⟩ := holds
  obtain ⟨positive, k, _, _, rfl, _⟩ := m.allocator.alloc_ok returned
  have length : a.dataMemory.length = p * 0x1000 := by rw [same, Allocator.blockAt]
  have count : n = p * growth := by
    rw [(grownPages_ok pages).1, length, Nat.mul_div_cancel _ (by decide), Nat.mod_eq_of_lt small]
  have some : 0 < p := Nat.pos_of_ne_zero fun zero => by simp [count, zero] at positive
  have grown : p ≤ n := count ▸ Nat.le_mul_of_pos_right p (by omega)
  refine ⟨by omega, by omega, ?_, by omega⟩
  simp only [length]
  omega

/-- The elements of a real backing are what they were. -/
theorem Obtains.contents (obtains : a.Obtains growth m data m₁) (more : 1 < growth)
    (holds : m.allocator.Holds a.dataMemory) {used : BitVec 64 → Prop}
    (offers : m.allocator.Offers used) (accepts : a.dataMemory.endAddress ≤ 2 ^ 52)
    {x : Nat} (inside : x < a.dataMemory.length) :
    physicalByte (memcpyQword m₁.memory data.base a.dataMemory.base
      (a.dataMemory.length / 8 % 2 ^ 32)) (data.base + x) =
      physicalByte m.memory (a.dataMemory.base + x) := by
  obtain ⟨some, whole, longer, small⟩ := obtains.longer more holds
  obtain ⟨n, pages, returned⟩ := obtains.pages
  obtain ⟨aligned, bound, _⟩ := offers n _ _ _ .refl returned
  have apart := holds.apart returned some
  have alignedOld := holds.aligned returned aligned
  have lengthData : data.length % 0x1000 = 0 := by
    obtain ⟨_, k, _, _, rfl, _⟩ := m.allocator.alloc_ok returned
    exact Nat.mul_mod_left _ _
  simp only [MemoryBlock.endAddress] at apart accepts bound
  have words : a.dataMemory.length / 8 % 2 ^ 32 = a.dataMemory.length / 8 :=
      Nat.mod_eq_of_lt (by omega)
  have floorNew : (data.base + x) / 8 * 8 = data.base + 8 * (x / 8) := by omega
  have floorOld : (a.dataMemory.base + x) / 8 * 8 = a.dataMemory.base + 8 * (x / 8) := by omega
  rw [physicalByte, physicalByte, ← wordAt_floor, ← wordAt_floor m.memory, words,
    floorNew, floorOld,
    wordAt_memcpyQword (by omega) (by omega) (by omega) (by omega) (by omega) (by omega),
    obtains.zeroed, wordAt_zeroFrames aligned (by omega) (by omega) (by omega)]
  congr 2
  omega

end NodeAllocator

/-! ### The pages behind a window -/

section Window

variable {pager : Pager} {m : Machine} {virt n : Nat} {data : MemoryBlock}

/-- Well formed tables, and an allocator whose pages are none of them. -/
def Serves (pager : Pager) (m : Machine) : Prop :=
  pager.WellFormed m.memory ∧ m.allocator.Supplies (pager.IsTable m.memory)

theorem mapped_yields (serves : Serves pager m) (virt : Nat) {physical : BitVec 64}
    (inMemory : physical.toNat < 2 ^ 52) :
    Yields (pager.page4Kb virt physical (pagerPresent ||| pagerRw)) m
      (fun _ m' => Serves pager m' ∧
        (pager.walk m'.memory virt).map Translation.physical = some physical.toNat)
      fun _ _ => True := by
  obtain ⟨wellFormed, supplies⟩ := serves
  refine (Pager.page4Kb_yields (wellFormed.tree.ready supplies) virt physical _).mono ?_
    fun _ _ _ => trivial
  rintro page m' ⟨_, takes, ready, m₁, reached, stored⟩
  have present : (Pager.tableFlags (pagerPresent ||| pagerRw)).getLsbD 0 = true := by decide
  refine ⟨⟨stored.wellFormed ready.tree rfl (reached.wellFormed wellFormed present),
    ready.supplies.mono fun _ => Or.inr⟩, ?_⟩
  rw [Pager.walk_eq ready.tree, Pager.translation_mapped reached stored takes inMemory
    wellFormed.toIntact,
    if_pos (by decide), Option.map_some]

theorem mapAll_yields (serves : Serves pager m) (bound : data.base + (n + 1) * 0x1000 ≤ 2 ^ 52) :
    Yields ((List.range (n + 1)).forM fun i => do
        let _ ← unwrapResult (pager.page4Kb virt (BitVec.ofNat 64 (data.base + i * 0x1000))
          (pagerPresent ||| pagerRw))
        pure ()) m
      (fun _ m' => (pager.walk m'.memory virt).map Translation.physical =
        some (data.base + n * 0x1000)) fun _ _ => True := by
  have each (i : Nat) (below : i ≤ n) (m : Machine) (serves : Serves pager m) :
      Yields (unwrapResult (pager.page4Kb virt (BitVec.ofNat 64 (data.base + i * 0x1000))
        (pagerPresent ||| pagerRw))) m (fun _ m' => Serves pager m' ∧
          (pager.walk m'.memory virt).map Translation.physical = some (data.base + i * 0x1000))
        fun _ _ => True := by
    have value : (BitVec.ofNat 64 (data.base + i * 0x1000)).toNat = data.base + i * 0x1000 := by
      rw [BitVec.toNat_ofNat]
      exact Nat.mod_eq_of_lt (by omega)
    have inMemory : (BitVec.ofNat 64 (data.base + i * 0x1000)).toNat < 2 ^ 52 := by omega
    have mapped := yields_unwrapResult (mapped_yields serves virt inMemory)
    rwa [value] at mapped
  rw [List.range_succ]
  change Yields (forM (List.range n ++ [n]) _) _ _ _
  rw [List.forM_append, yields_bind]
  refine (yields_forM _ (fun rest m => Serves pager m ∧ ∀ i ∈ rest, i ≤ n) ?_ ⟨serves, ?_⟩).mono ?_
    fun _ _ h => h
  · rintro i rest m ⟨serves, below⟩
    rw [yields_bind]
    refine (each i (below i (List.mem_cons_self ..)) m serves).mono ?_ fun _ _ h => h
    rintro _ m' ⟨serves', _⟩
    rw [yields_pure]
    exact ⟨serves', fun j member => below j (List.mem_cons_of_mem _ member)⟩
  · intro i member
    exact (List.mem_range.mp member).le
  · rintro _ m' ⟨serves', _⟩
    simp only [List.forM_cons, List.forM_nil, yields_bind, yields_pure]
    exact (each n le_rfl m' serves').mono (fun _ _ mapped => mapped.2) fun _ _ h => h

end Window

namespace NodeAllocator

variable {a b : NodeAllocator} {pager : Pager} {growth : Nat} {m m' : Machine}

theorem reallocate_fake (fake : a.fake = true) (carries : Carries pager a m) (more : 1 < growth)
    (ran : reallocate pager a growth m = .ok b m') :
    ∃ n data m₁, 1 < n ∧ a.grownPages growth = .ok n ∧ (m.allocator.alloc n).value =
      (.ok data, m₁) ∧
      (pager.walk m'.memory (a.dataMemory.base + a.dataMemory.length)).map Translation.physical =
        some (data.base + (n - 1) * 0x1000) := by
  have outcome : Yields (reallocate pager a growth) m (fun _ m' => ∃ n data m₁, 1 < n ∧
      a.grownPages growth = .ok n ∧ (m.allocator.alloc n).value = (.ok data, m₁) ∧
      (pager.walk m'.memory (a.dataMemory.base + a.dataMemory.length)).map Translation.physical =
        some (data.base + (n - 1) * 0x1000)) fun _ _ => True := by
    unfold reallocate growMemory
    simp only [yields_bind, yields_pure, fake, if_true]
    refine yields_liftExcept fun n pages => ?_
    refine (yields_unwrapResult (allocZero_alloc n m)).mono ?_ fun _ _ h => h
    rintro data m₁ ⟨returned, zeroed⟩
    obtain ⟨count, small⟩ := grownPages_ok pages
    rw [Nat.mod_eq_of_lt small] at returned
    obtain ⟨aligned, bound, unused⟩ := carries.offers n _ _ _ .refl returned
    obtain ⟨positive, k, _, _, block, _⟩ := m.allocator.alloc_ok returned
    have length : data.length = n * 0x1000 := congrArg MemoryBlock.length block
    -- a positive product with a factor above one
    have several : 1 < n := by
      rw [count] at positive ⊢
      exact Nat.lt_of_lt_of_le more (Nat.le_mul_of_pos_left _ (Nat.pos_of_mul_pos_right positive))
    have same (f : BitVec 64) (isTable : pager.IsTable m.memory f) : m₁.memory f = m.memory f := by
      rw [zeroed, length, Nat.mul_div_cancel _ (by decide)]
      exact zeroFrames_of_other fun i below equal => unused i below (equal ▸ isTable)
    have serves : Serves pager m₁ := by
      have tables : pager.IsTable m₁.memory = pager.IsTable m.memory := by
        funext f
        rw [Pager.IsTable, Pager.tableAt_congr same, Pager.IsTable]
      refine ⟨carries.wellFormed.congr same, ?_⟩
      rw [tables]
      exact (carries.offers.step ⟨n, data, returned⟩).supplies
    obtain ⟨n, rfl⟩ : ∃ k, n = k + 1 := ⟨n - 1, by omega⟩
    refine (mapAll_yields serves ?_).mono ?_ fun _ _ h => h
    · simpa only [MemoryBlock.endAddress, length] using bound
    · intro _ m₂ mapped
      refine yields_liftExcept fun b _ => ?_
      exact ⟨n + 1, data, m₁.allocator, several, pages, returned, mapped⟩
  exact outcome.ok ran

/-- `to_fake` returns only if no node, used or not, lies before the memory. -/
theorem rebaseNodes_above {oldBase newBase i n : Nat}
    (ran : a.rebaseNodes oldBase newBase i n = .ok b) :
    ∀ j, i ≤ j → j < i + n → oldBase ≤ (a.nodes j).base := by
  induction n generalizing a i with
  | zero => exact fun j low high => absurd high (by omega)
  | succ n ih =>
    rw [rebaseNodes] at ran
    obtain ⟨distance, checked, rest⟩ := bind_ok ran
    intro j low high
    by_cases here : j = i
    · subst here
      by_contra below
      rw [checkedSub, if_neg below] at checked
      cases checked
    · have later := ih rest j (by omega) (by omega)
      have same (f : Node → Node) : (a.modifyNode i f).nodes j = a.nodes j :=
        Function.update_of_ne here _ _
      rwa [same] at later

variable {capacity : Nat} {cut : Nat → Nat}

theorem Steady.toFake (steady : a.Steady capacity cut) {base : Nat} (ran : a.toFake base = .ok b) :
    b.Steady capacity cut ∧ b.capacity = a.capacity ∧ b.numUsedNodes = a.numUsedNodes := by
  rw [NodeAllocator.toFake] at ran
  obtain ⟨moved, rebased, same⟩ := bind_ok ran
  rw [rebaseNodes_eq (rebaseNodes_above rebased)] at rebased
  cases rebased
  cases same
  refine ⟨⟨⟨steady.monotone, steady.start, steady.full, fun i below => ?_⟩, steady.elements,
    steady.even, steady.within, steady.current, steady.currentFree, steady.narrow⟩, rfl, rfl⟩
  have below : i < a.numUsedNodes := below
  have within := steady.within
  change (if 0 ≤ i ∧ i < 0 + nodeCapacity then _ else _) = _
  rw [if_pos (by omega), steady.nodes i below, NodeAllocator.rebased, nodeBetween, nodeBetween]
  simp only [Nat.add_sub_cancel_left]

end NodeAllocator

namespace Heap

open NodeAllocator

variable {s s' : Heap} {a b : NodeAllocator} {pager : Pager} {growth : Nat} {m m' : Machine}
  {capacity : Nat} {cut : Nat → Nat} {L : Ledger Extent.elements}

/-- The bytes of the elements. A window is read through the tables. -/
def elementByte (pager : Pager) (a : NodeAllocator) (m : Memory) (x : Nat) : Option Byte :=
  if a.fake then
    (pager.walk m (a.dataMemory.base + x)).map fun page => physicalByte m page.physical
  else some (physicalByte m (a.dataMemory.base + x))

/-- A growth keeps the ranges that are held and their contents, makes what was added a free space
at the end, and maps the pages added to a window one after the other. -/
structure Grows (pager : Pager) (s : Heap) (growth : Nat) (m : Machine) (b : NodeAllocator)
    (m' : Machine) : Prop where
  reserved : ∀ e ∈ s.outstanding, e.elements ⊆ b.reservedElements
  contents : ∀ e ∈ s.outstanding, ∀ x, e.offset * s.allocator.elementSize ≤ x →
    x < (e.offset + e.size) * s.allocator.elementSize →
    elementByte pager b m'.memory x = elementByte pager s.allocator m.memory x
  larger : s.allocator.capacity ≤ b.capacity
  space : b.freeElements = s.allocator.freeElements ∪ Set.Ico s.allocator.capacity b.capacity
  mapped : s.allocator.fake = true → ∀ n data rest, s.allocator.grownPages growth = .ok n →
    (m.allocator.alloc n).value = (.ok data, rest) → ∀ i < n,
      (pager.walk m'.memory (s.allocator.dataMemory.base + s.allocator.dataMemory.length +
        i * 0x1000)).map Translation.physical = some (data.base + i * 0x1000)

/-- What a real backing is after a growth. -/
theorem KeepsBooks.reallocate (books : s.KeepsBooks s.allocator.capacity cut L)
    (real : s.allocator.fake = false) (carries : Carries pager s.allocator m) (more : 1 < growth)
    (ran : NodeAllocator.reallocate pager s.allocator growth m = .ok b m') :
    ∃ data m₁, s.allocator.Obtains growth m data m₁ ∧ b = s.allocator.extended cut data ∧
      s.allocator.capacity * s.allocator.elementSize ≤ data.length ∧
      s.allocator.dataMemory.endAddress ≤ 2 ^ 52 ∧
      m'.memory = memcpyQword m₁.memory data.base s.allocator.dataMemory.base
        (s.allocator.dataMemory.length / 8 % 2 ^ 32) := by
  obtain ⟨data, m₁, obtains, extended, freed, memory⟩ := reallocate_real real ran
  obtain ⟨_, _, longer, _⟩ := obtains.longer more (carries.held real)
  have fits := (Nat.div_mul_le_self s.allocator.dataMemory.length s.allocator.elementSize).trans
      longer
  have accepted := (Allocator.free_ok_iff.mp ⟨_, freed⟩).1.bound
  rw [books.steady.extend_eq fits] at extended
  cases extended
  exact ⟨data, m₁, obtains, rfl, fits, accepted.trans (by decide), memory⟩

theorem KeepsBooks.grows_iff (books : s.KeepsBooks s.allocator.capacity cut L)
    (carries : Carries pager s.allocator m) (more : 1 < growth)
    (ran : NodeAllocator.reallocate pager s.allocator growth m = .ok b m') :
    Grows pager s growth m b m' ↔ s.allocator.fake = false := by
  constructor
  · intro grows
    refine (Bool.not_eq_true _).mp fun fake => ?_
    obtain ⟨n, data, rest, several, pages, returned, last⟩ := reallocate_fake fake carries more ran
    have first := grows.mapped fake n data rest pages returned 0 (by omega)
    rw [Nat.zero_mul, Nat.add_zero, last] at first
    have same := Option.some.inj first
    omega
  · intro real
    obtain ⟨data, m₁, obtains, rfl, fits, bound, memory⟩ := books.reallocate real carries more ran
    have steady := books.steady
    have steady' := steady.extended fits
    have held := steady.held_extended data
    have larger : s.allocator.capacity ≤ data.length / s.allocator.elementSize :=
      (Nat.le_div_iff_mul_le steady.elements).mpr fits
    have within := held_subset (n := s.allocator.numUsedNodes) steady.monotone
    rw [steady.start, steady.full] at within
    refine ⟨fun e member x inside => ?_, fun e member x _ high => ?_, larger, ?_, fun fake => ?_⟩
    · rw [reservedElements_eq steady'.toPartitioned steady'.elements]
      refine held.symm ▸ (books.held x).mpr (Or.inr ⟨e, books.outstanding ▸ member, inside⟩)
    · have below := high.trans_le ((Nat.mul_le_mul_right _ (books.inside member)).trans
        (Nat.div_mul_le_self ..))
      have same := obtains.contents more (carries.held real) carries.offers bound below
      have realNew : (s.allocator.extended cut data).fake = false := real
      simp only [elementByte, real, realNew, Bool.false_eq_true, if_false, memory,
        Option.some.injEq]
      exact same
    · rw [freeElements_eq steady'.toPartitioned steady'.elements,
        freeElements_eq steady.toPartitioned steady.elements]
      change Set.Ico 0 (data.length / s.allocator.elementSize) \
        Cuts.held (s.allocator.extendedCut cut data) s.allocator.numUsedNodes = _
      rw [held]
      ext x
      constructor
      · rintro ⟨⟨_, high⟩, unheld⟩
        by_cases old : x < s.allocator.capacity
        · exact Or.inl ⟨⟨Nat.zero_le x, old⟩, unheld⟩
        · exact Or.inr ⟨not_lt.mp old, high⟩
      · rintro (⟨⟨_, high⟩, unheld⟩ | ⟨low, high⟩)
        · exact ⟨⟨Nat.zero_le x, high.trans_le larger⟩, unheld⟩
        · exact ⟨⟨Nat.zero_le x, high⟩, fun inside => absurd (within inside).2 (not_lt.mpr low)⟩
    · cases real.symm.trans fake

/-- A request that meets the condition does not change the memory. -/
theorem KeepsBooks.serve_capacity (books : s.KeepsBooks capacity cut L) {r : HeapRequest}
    (meets : s.Meets r) (served : s.serve r = some s') :
    s'.allocator.capacity = s.allocator.capacity := by
  have steady := books.steady
  cases r with
  | allocate size =>
    cases found : s.allocator.chosen size with
    | none =>
      rw [serve, steady.allocateAsOffset_none found] at served
      cases served
      rfl
    | some c =>
      obtain ⟨free, shorter, _⟩ := meets.2 c found
      obtain ⟨used, _⟩ := chosen_used steady found
      have odd := (steady.isFreeing_iff used).mp free
      obtain ⟨c, rfl⟩ : ∃ b, c = b + 1 :=
        Nat.exists_eq_succ_of_ne_zero fun zero => odd (zero ▸ ⟨0, rfl⟩)
      rw [serve, steady.allocateAsOffset found shorter] at served
      cases served
      rfl
  | free e =>
    obtain ⟨b, _, ran, memory, size, _⟩ := freeOffset_suited steady meets.2
    rw [serve, ran] at served
    cases served
    rw [NodeAllocator.capacity, memory, size, NodeAllocator.capacity]

/-- A request that meets the condition, the growth of a real backing in a machine that carries it,
or the change to a window. -/
inductive GrowthStep (pager : Pager) (s s' : Heap) : Prop
  | serves (r : HeapRequest) (meets : s.Meets r) (served : s.serve r = some s')
  | grows (growth : Nat) (m m' : Machine) (more : 1 < growth) (real : s.allocator.fake = false)
      (carries : Carries pager s.allocator m)
      (ran : NodeAllocator.reallocate pager s.allocator growth m = .ok s'.allocator m')
      (same : s'.outstanding = s.outstanding)
  | fakes (base : Nat) (ran : s.allocator.toFake base = .ok s'.allocator)
      (same : s'.outstanding = s.outstanding)

private theorem KeepsBooks.growthStep (books : s.KeepsBooks s.allocator.capacity cut L)
    (step : GrowthStep pager s s') :
    ∃ cut' L', s'.KeepsBooks s'.allocator.capacity cut' L' := by
  cases step with
  | serves r meets served =>
    obtain ⟨s₁, served₁, cut', L', books', _⟩ := books.serves meets.1 meets.2
    cases served.symm.trans served₁
    rw [books.serve_capacity meets served]
    exact ⟨cut', L', books'⟩
  | grows growth m m' more real carries ran same =>
    obtain ⟨data, _, _, extended, fits, _⟩ := books.reallocate real carries more ran
    have held := books.steady.held_extended data
    refine ⟨s.allocator.extendedCut cut data, L, ?_, same.trans books.outstanding, fun x => ?_,
      books.reserved, same ▸ books.nonempty⟩
    · rw [extended]
      exact books.steady.extended fits
    · rw [extended]
      exact held.symm ▸ books.held x
  | fakes base ran same =>
    obtain ⟨steady, capacity, count⟩ := books.steady.toFake ran
    refine ⟨cut, L, capacity ▸ steady, same.trans books.outstanding, fun x => ?_, books.reserved,
      same ▸ books.nonempty⟩
    rw [count]
    exact books.held x

private theorem growthRun_keepsBooks (built : Built a)
    (run : Relation.ReflTransGen (GrowthStep pager) ⟨a, []⟩ s) :
    ∃ cut L, s.KeepsBooks s.allocator.capacity cut L := by
  induction run with
  | refl =>
    obtain ⟨⟨cut, L, books, _⟩, _⟩ := run_keepsBooks built .refl
    exact ⟨cut, L, books⟩
  | tail _ step ih =>
    obtain ⟨cut, L, books⟩ := ih
    exact books.growthStep step

/-- After a run of requests that meet the condition and of growths of real backings, a growth is
as it should be exactly if the backing is real. -/
theorem grows_after_run (built : Built a)
    (run : Relation.ReflTransGen (GrowthStep pager) ⟨a, []⟩ s)
    (carries : Carries pager s.allocator m)
    (more : 1 < growth) (ran : NodeAllocator.reallocate pager s.allocator growth m = .ok b m') :
    Grows pager s growth m b m' ↔ s.allocator.fake = false := by
  obtain ⟨cut, L, books⟩ := growthRun_keepsBooks built run
  exact books.grows_iff carries more ran

section Samples

open Pager

/-- The allocator after it gave away its first two pages. -/
def plainRest : Allocator := ((plainAllocator.alloc 1).value.2.alloc 1).value.2

def restMachine : Machine := ⟨fun _ _ => 0, plainRest⟩

private theorem plainAllocator_offers :
    plainAllocator.Offers (plainPager.IsTable restMachine.memory) := by
  refine Allocator.offers_of_fenced plainAllocator_fenced rfl (by decide) fun k clear used => ?_
  have inside := plainAllocator_clear clear
  rw [show restMachine.memory = plainMachine.memory from rfl, plainFresh.isTable_iff] at used
  have value : (0x100000 + k * 0x1000) % 2 ^ 64 = 0x1000 := congrArg BitVec.toNat used
  omega

private theorem restMachine_offers :
    restMachine.allocator.Offers (plainPager.IsTable restMachine.memory) := by
  have first : plainAllocator.AllocStep (plainAllocator.alloc 1).value.2 :=
    ⟨1, ⟨0x100000, 0x1000⟩, Prod.ext (by decide +kernel) rfl⟩
  refine (plainAllocator_offers.step first).step ⟨1, ⟨0x101000, 0x1000⟩, Prod.ext ?_ rfl⟩
  decide +kernel

private theorem restMachine_carries (held : a.fake = false → a.dataMemory = ⟨0x101000, 0x1000⟩) :
    Carries plainPager a restMachine := by
  refine ⟨plainFresh.wellFormed, restMachine_offers, fun real => ?_⟩
  refine ⟨1, 1, by decide, held real, fun j run => ?_⟩
  obtain rfl : j = 1 := by unfold BitArray.InRun at run; omega
  decide +kernel

/-- A list over real memory grows with a range that is held. -/
theorem grows_after_run_plain : ∃ s b m', Relation.ReflTransGen (GrowthStep plainPager)
      ⟨plainNodes, []⟩ s ∧ s.outstanding = [⟨0, 4⟩] ∧
      NodeAllocator.reallocate plainPager s.allocator 2 restMachine = .ok b m' ∧
      Grows plainPager s 2 restMachine b m' := by
  have served : (Requests.serveAll serve Meets ⟨plainNodes, []⟩ [.allocate 4]).any (fun s =>
      decide (s.outstanding = [⟨0, 4⟩]) && decide (s.allocator.dataMemory = ⟨0x101000, 0x1000⟩) &&
        decide (s.allocator.fake = false) &&
        ((NodeAllocator.reallocate plainPager s.allocator 2).state? restMachine).isSome) =
          true := by
    decide +kernel
  obtain ⟨s, served, checked⟩ := (Option.any_eq_true _ _).1 served
  simp only [Bool.and_eq_true, decide_eq_true_eq] at checked
  obtain ⟨⟨⟨outstanding, memory⟩, real⟩, returned⟩ := checked
  obtain ⟨m', ended⟩ := Option.isSome_iff_exists.mp returned
  obtain ⟨b, ran⟩ := ok_of_state? ended
  have run : Relation.ReflTransGen (GrowthStep plainPager) ⟨plainNodes, []⟩ s :=
    (Requests.serveAll_run served).lift id fun _ _ ⟨r, meets, served⟩ => .serves r meets served
  refine ⟨s, b, m', run, outstanding, ran, ?_⟩
  exact (grows_after_run plainNodes_built run (restMachine_carries fun _ => memory)
    (by decide) ran).mpr
    real

/-- A list over a window of one page at 4 MiB. -/
def windowNodes : NodeAllocator :=
  NodeAllocator.initial 8 ⟨0x100000, 0x1000⟩ ⟨0x400000, 0x1000⟩ true

/-- Two pages are added to a window, and only one of them is mapped. -/
theorem not_grows_window : ∃ b m', Built windowNodes ∧
    NodeAllocator.reallocate plainPager windowNodes 2 restMachine = .ok b m' ∧
    ¬Grows plainPager ⟨windowNodes, []⟩ 2 restMachine b m' := by
  have returned : ((NodeAllocator.reallocate plainPager windowNodes 2).state?
      restMachine).isSome := by
    decide +kernel
  obtain ⟨m', ended⟩ := Option.isSome_iff_exists.mp returned
  obtain ⟨b, ran⟩ := ok_of_state? ended
  have built : Built windowNodes := ⟨plainPages, _, 8, Or.inr ⟨⟨0x400000, 0x1000⟩, rfl⟩⟩
  refine ⟨b, m', built, ran, fun grows => ?_⟩
  have carries : Carries plainPager windowNodes restMachine := restMachine_carries nofun
  have unrun : Relation.ReflTransGen (GrowthStep plainPager) ⟨windowNodes, []⟩ ⟨windowNodes, []⟩ :=
    .refl
  obtain ⟨cut, L, books⟩ := growthRun_keepsBooks built unrun
  have real := (books.grows_iff carries (by decide) ran).mp grows
  cases real

end Samples

end Heap

end EmkKernel
