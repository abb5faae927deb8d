import EmkKernel.Memory.Alloc
import EmkKernel.Paging.Pager
import EmkKernel.Utils.NodeAllocator

/-!
# Node allocators that grow

`NodeAllocator::reallocate` takes memory from the page allocator. It copies the
elements there or, for a node list over a window of addresses, maps the memory behind
the window.
-/

namespace EmkKernel

/-- `unwrap` of a result: an error panics. -/
def unwrapResult {α : Type} (x : PagerM α) : PagerM α := fun m =>
  match x m with
  | .ok a m => .ok a m
  | .error _ m => .error .panic m

/-- A computation that touches neither memory nor allocator. -/
def liftExcept {α : Type} : Except Stop α → PagerM α
  | .ok a => pure a
  | .error stop => throw stop

/-- The frames of a block filled with zeros. -/
def zeroFrames (m : Memory) (base : Nat) : Nat → Memory
  | 0 => m
  | n + 1 => zeroFrames (RadixTree.fill m (BitVec.ofNat 64 base) fun _ => 0) (base + 0x1000) n

/-- `allocator.alloc_zero(pages)`; the pages are passed as `u16`. -/
def allocZero (pages : Nat) : PagerM MemoryBlock := do
  let m ← get
  match (m.allocator.alloc (pages % 2 ^ 16)).value with
  | (.ok mb, a) =>
    set { memory := zeroFrames m.memory mb.base (mb.length / 0x1000), allocator := a : Machine }
    pure mb
  | (.error stop, a) =>
    set { m with allocator := a }
    throw stop

private theorem entries_ne_zero : NeZero 512 := inferInstance

/-- The place of the quadword at a physical address. -/
def locate (address : Nat) : Location :=
  ⟨BitVec.ofNat 64 (address / 0x1000 * 0x1000), @Fin.ofNat 512 entries_ne_zero (address / 8)⟩

def wordAt (m : Memory) (address : Nat) : Entry := m (locate address).table (locate address).index

/-- `memcpy_qword`: the quadwords are copied one after the other. -/
def memcpyQword (m : Memory) (dst src : Nat) : Nat → Memory
  | 0 => m
  | n + 1 =>
    memcpyQword (RadixTree.write m (locate dst).table (locate dst).index (wordAt m src))
      (dst + 8) (src + 8) n

open EStateM

theorem yields_unwrapResult {α : Type} {x : PagerM α} {m : Machine} {Q : α → Machine → Prop}
    (yields : Yields x m Q fun _ _ => True) :
    Yields (unwrapResult x) m Q fun _ _ => True := by
  unfold Yields unwrapResult at *
  cases ran : x m with
  | ok a m' => simpa only [ran] using yields
  | error e m' => trivial

theorem allocZero_yields (pages : Nat) (m : Machine) :
    Yields (allocZero pages) m (fun mb _ => mb.length = pages % 2 ^ 16 * 0x1000)
      fun _ _ => True := by
  unfold allocZero
  rw [yields_bind, yields_get]
  split
  next mb a returned =>
    obtain ⟨_, k, _, _, rfl, _⟩ := m.allocator.alloc_ok returned
    simp only [yields_bind, yields_set, yields_pure]
  next => simp only [yields_bind, yields_set, yields_throw]

/-- A constructor that takes memory from the page allocator. -/
def liftTraced {α : Type} (f : Allocator → Traced (Except Stop (α × Allocator))) : PagerM α := do
  let m ← get
  match (f m.allocator).value with
  | .ok (b, a) =>
    set { m with allocator := a }
    pure b
  | .error stop => throw stop

theorem newFake_yields (elementSize : Nat) (memory : MemoryBlock) (m : Machine) :
    Yields (liftTraced fun allocator => NodeAllocator.newFake allocator elementSize memory) m
      (fun a _ => a.fake = true ∧ a.dataMemory = memory) fun _ _ => True := by
  unfold liftTraced
  rw [yields_bind, yields_get]
  split
  next b a ran =>
    rw [yields_bind, yields_set, yields_pure]
    simp only [NodeAllocator.newFake, Traced.value_bind] at ran
    split at ran
    next => cases ran
    next =>
      simp only [Traced.value_pure, NodeAllocator.ofMemory] at ran
      split at ran <;> cases ran
      exact ⟨rfl, rfl⟩
  next => trivial

namespace NodeAllocator

/-- The loop that rebases the used nodes, with the subtraction in `u64`. -/
def rebaseNodes (a : NodeAllocator) (oldBase newBase : Nat) (i : Nat) :
    Nat → Except Stop NodeAllocator
  | 0 => .ok a
  | n + 1 => do
    let distance ← checkedSub (a.nodes i).base oldBase
    (a.modifyNode i fun node => { node with base := newBase + distance }).rebaseNodes
      oldBase newBase (i + 1) n

/-- The number of pages asked for, a product in `u16`. -/
def grownPages (a : NodeAllocator) (growth : Nat) : Except Stop Nat :=
  let pages := a.dataMemory.length / 0x1000 % 2 ^ 16 * growth
  if pages < 2 ^ 16 then .ok pages else .error .panic

/-- The memory in which the elements lie afterwards. All new pages of a window are
mapped to the same address, the end of the window. -/
def growMemory (pager : Pager) (a : NodeAllocator) (growth : Nat) : PagerM MemoryBlock := do
  let pages ← liftExcept (a.grownPages growth)
  let newData ← unwrapResult (allocZero pages)
  if a.fake then
    let virtAddr := a.dataMemory.base + a.dataMemory.length
    (List.range pages).forM fun i => do
      let _ ← unwrapResult (pager.page4Kb virtAddr (BitVec.ofNat 64 (newData.base + i * 0x1000))
        (pagerPresent ||| pagerRw))
      pure ()
    pure ⟨a.dataMemory.base, a.dataMemory.length + pages * 0x1000⟩
  else
    -- the length is passed as `u32`
    modify fun m => { m with
      memory := memcpyQword m.memory newData.base a.dataMemory.base
        (a.dataMemory.length / 8 % 2 ^ 32) }
    pure newData

/-- The node list over its new memory: the last node gets the space up to the end. -/
def extend (a : NodeAllocator) (newData : MemoryBlock) : Except Stop NodeAllocator := do
  let a ← a.rebaseNodes a.dataMemory.base newData.base 0 a.numUsedNodes
  let last ← checkedSub a.numUsedNodes 1
  let spaceLeft ← checkedSub (newData.base + newData.length) (a.nodes last).base
  pure { a.modifyNode last fun node => { node with length := spaceLeft / a.elementSize } with
    dataMemory := newData }

def reallocate (pager : Pager) (a : NodeAllocator) (growth : Nat) : PagerM NodeAllocator := do
  let newData ← growMemory pager a growth
  let extended ← liftExcept (a.extend newData)
  if a.fake then
    pure extended
  else do
    unwrapResult (freeBlock a.dataMemory)
    pure extended

/-- `to_fake`: every node of the slice is rebased, used or not. -/
def toFake (a : NodeAllocator) (base : Nat) : Except Stop NodeAllocator := do
  let a ← a.rebaseNodes a.dataMemory.base base 0 nodeCapacity
  pure { a with dataMemory := ⟨base, a.dataMemory.length⟩, fake := true }

end NodeAllocator

end EmkKernel
