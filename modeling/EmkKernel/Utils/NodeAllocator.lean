import EmkKernel.Memory.Allocator

/-!
# The node allocator

`utils::allocators::NodeAllocator`. Lengths and offsets count elements of `T`,
bases are addresses. The node list is the memory behind `nodes`: indices below
`nodeCapacity` belong to the slice, `ref_mut_node` reaches the memory behind it
as well. A subtraction below zero and a `u32` sum that leaves its type panic.
-/

namespace EmkKernel

structure Node where
  length : Nat
  base : Nat
  reserving : Bool
  deriving DecidableEq, Repr

/-- `size_of::<Node>()`. -/
def nodeSize : Nat := 24

/-- The length of the slice `nodes`. -/
def nodeCapacity : Nat := 0x1000 / nodeSize

/-- Checked subtraction of unsigned integers. -/
def checkedSub (x y : Nat) : Except Stop Nat :=
  if y ≤ x then .ok (x - y) else .error .panic

/-- Checked addition in `u32`. -/
def checkedAdd32 (x y : Nat) : Except Stop Nat :=
  if x + y < 2 ^ 32 then .ok (x + y) else .error .panic

/-- The bytes of `y` below `n`, then the bytes of `x`. -/
def spliceBytes (x y n : Nat) : Nat :=
  if 8 ≤ n then y else x / 256 ^ n * 256 ^ n + y % 256 ^ n

namespace Node

def endAddress (node : Node) (elementSize : Nat) : Nat :=
  node.base + node.length * elementSize

def isFreeing (node : Node) : Bool := !node.reserving

def isReserving (node : Node) : Bool := node.reserving

def baseAsOffset (node : Node) (elementSize base : Nat) : Except Stop Nat := do
  let distance ← checkedSub node.base base
  pure (distance / elementSize % 2 ^ 32)

def endAsOffset (node : Node) (elementSize base : Nat) : Except Stop Nat := do
  let distance ← checkedSub (node.endAddress elementSize) base
  pure (distance / elementSize % 2 ^ 32)

/-- The first `n` bytes of `src`, then what `dst` holds. The fields lie in the
order of their declaration, the flag in the byte with index 16. -/
def splice (dst src : Node) (n : Nat) : Node where
  length := spliceBytes dst.length src.length n
  base := spliceBytes dst.base src.base (n - 8)
  reserving := if 16 < n then src.reserving else dst.reserving

end Node

inductive FreeingType where
  | front (frontBase frontSize backBase backSize : Nat)
  | middle (frontBase frontSize middleBase middleSize backBase backSize : Nat)
  | back (frontBase frontSize backBase backSize : Nat)
  deriving DecidableEq, Repr

/-- `elementSize` is what the code knows of the type in `phantom_data`. -/
structure NodeAllocator where
  elementSize : Nat
  nodeListMemory : MemoryBlock
  dataMemory : MemoryBlock
  nodes : Nat → Node
  currentNode : Nat
  numUsedNodes : Nat
  fake : Bool

namespace NodeAllocator

/-- The state both constructors return. -/
def initial (elementSize : Nat) (nodeListMemory dataMemory : MemoryBlock) (fake : Bool) :
    NodeAllocator where
  elementSize := elementSize
  nodeListMemory := nodeListMemory
  dataMemory := dataMemory
  nodes := fun i =>
    if i = 0 then ⟨0, dataMemory.base, true⟩
    else if i = 1 then ⟨dataMemory.length / elementSize, dataMemory.base, false⟩
    else ⟨0, 0, false⟩
  currentNode := 1
  numUsedNodes := 2
  fake := fake

/-- The end of both constructors: the length of the data memory is divided by
the size of an element. -/
def ofMemory (elementSize : Nat) (nodeListMemory dataMemory : MemoryBlock) (fake : Bool) :
    Except Stop NodeAllocator :=
  if elementSize = 0 then .error .panic
  else .ok (initial elementSize nodeListMemory dataMemory fake)

/-- `alloc_zero(pages).unwrap()`; the pages are passed as `u16`. -/
def allocZeroUnwrap (allocator : Allocator) (pages : Nat) :
    Traced (Except Stop (MemoryBlock × Allocator)) := do
  match ← allocator.alloc (pages % 2 ^ 16) with
  | (.ok mb, a) => pure (.ok (mb, a))
  | (.error _, _) => pure (.error .panic)

/-- `new_fake`, which does not use its third argument. -/
def newFake (allocator : Allocator) (elementSize : Nat) (fakeAddress : MemoryBlock) :
    Traced (Except Stop (NodeAllocator × Allocator)) := do
  match ← allocZeroUnwrap allocator 1 with
  | .error e => pure (.error e)
  | .ok (nodeList, allocator) =>
    pure ((ofMemory elementSize nodeList fakeAddress true).map (·, allocator))

def new (allocator : Allocator) (elementSize numEntries : Nat) :
    Traced (Except Stop (NodeAllocator × Allocator)) := do
  match ← allocZeroUnwrap allocator 1 with
  | .error e => pure (.error e)
  | .ok (nodeList, allocator) => do
    let memory := elementSize * numEntries
    let dataPages := memory / 0x1000 + if memory % 0x1000 ≠ 0 then 1 else 0
    match ← allocZeroUnwrap allocator dataPages with
    | .error e => pure (.error e)
    | .ok (data, allocator) =>
      pure ((ofMemory elementSize nodeList data false).map (·, allocator))

/-- `ref_node`: the index is checked against the slice. -/
def refNode (a : NodeAllocator) (i : Nat) : Except Stop Node :=
  if i < nodeCapacity then .ok (a.nodes i) else .error .panic

/-- A write through `ref_mut_node`. -/
def setNode (a : NodeAllocator) (i : Nat) (node : Node) : NodeAllocator :=
  { a with nodes := Function.update a.nodes i node }

def modifyNode (a : NodeAllocator) (i : Nat) (f : Node → Node) : NodeAllocator :=
  a.setNode i (f (a.nodes i))

def baseAsOffset (a : NodeAllocator) (node : Node) : Except Stop Nat :=
  node.baseAsOffset a.elementSize a.dataMemory.base

def endAsOffset (a : NodeAllocator) (node : Node) : Except Stop Nat :=
  node.endAsOffset a.elementSize a.dataMemory.base

/-- The loops over the used nodes: the first index from `i` on that passes. -/
def firstNode (a : NodeAllocator) (test : Node → Except Stop Bool) (i : Nat) :
    Nat → Except Stop (Option Nat)
  | 0 => .ok none
  | n + 1 => do
    let node ← a.refNode i
    if ← test node then pure (some i) else a.firstNode test (i + 1) n

def freeingType (a : NodeAllocator) (node : Node) (offsetToFree size : Nat) :
    Except Stop FreeingType := do
  let baseOffset ← a.baseAsOffset node
  let endOffset ← a.endAsOffset node
  if baseOffset = offsetToFree ∨ size = node.length then do
    let backSize ← checkedSub node.length size
    pure (.front node.base size (node.base + size * a.elementSize) backSize)
  else if (← checkedSub endOffset size) = offsetToFree then do
    let frontSize ← checkedSub node.length size
    pure (.back node.base frontSize (a.dataMemory.base + offsetToFree * a.elementSize) size)
  else do
    let frontSize ← checkedSub offsetToFree baseOffset
    let freedEnd ← checkedAdd32 offsetToFree size
    let backSize ← checkedSub endOffset freedEnd
    pure (.middle node.base frontSize (a.dataMemory.base + a.elementSize * offsetToFree) size
      (a.dataMemory.base + a.elementSize * freedEnd) backSize)

/-- `find_new_current`: the flag of a node is not looked at. -/
def findNewCurrent (a : NodeAllocator) (size : Nat) : Except Stop (Option NodeAllocator) := do
  match ← a.firstNode (fun node => pure (decide (size ≤ node.length))) 0 a.numUsedNodes with
  | some i => pure (some { a with currentNode := i })
  | none => pure none

/-- The test of `find_reserving_node_for_offset`. -/
def holdsRange (a : NodeAllocator) (offset size : Nat) (node : Node) : Except Stop Bool :=
  if node.reserving then do
    let startOffset ← a.baseAsOffset node
    let endOffset ← a.endAsOffset node
    if startOffset ≤ offset then do
      let freedEnd ← checkedAdd32 offset size
      pure (decide (freedEnd < endOffset))
    else
      pure false
  else
    pure false

def findReservingNodeForOffset (a : NodeAllocator) (offset size : Nat) :
    Except Stop (Option Nat) :=
  a.firstNode (a.holdsRange offset size) 0 a.numUsedNodes

/-- `memcpy` of `n` bytes from the node behind `dst` to `dst`. -/
def copyDown (a : NodeAllocator) (dst n : Nat) : NodeAllocator :=
  { a with
    nodes := fun i =>
      if i < dst then a.nodes i
      else (a.nodes i).splice (a.nodes (i + 1)) (n - nodeSize * (i - dst)) }

/-- `remove_node`: the length passed to `memcpy` counts nodes, not bytes, and the
new current node is the first reserving one. -/
def removeNode (a : NodeAllocator) (nodeIndex : Nat) (isCurrentNode : Bool) :
    Except Stop NodeAllocator := do
  let _src ← a.refNode (nodeIndex + 1)
  let length ← checkedSub a.numUsedNodes (nodeIndex + 1)
  let a := a.copyDown nodeIndex length
  let numUsedNodes ← checkedSub a.numUsedNodes 1
  let a := { a with numUsedNodes }
  if isCurrentNode then do
    match ← a.firstNode (fun node => pure node.isReserving) 0 a.numUsedNodes with
    | some i => pure { a with currentNode := i }
    | none => pure a
  else
    pure a

/-- The loop of `insert_node`, upwards from `i`. -/
def shiftUp (a : NodeAllocator) (i : Nat) : Nat → Except Stop NodeAllocator
  | 0 => .ok a
  | n + 1 => do
    let node ← a.refNode i
    (a.setNode (i + 1) node).shiftUp (i + 1) n

/-- `insert_node`: the range `num_used_nodes - 1..=destination_index` is empty
unless the node is inserted at the end. -/
def insertNode (a : NodeAllocator) (insertedNode : Node) (destinationIndex : Nat) :
    Except Stop NodeAllocator := do
  let last ← checkedSub a.numUsedNodes 1
  let a ← a.shiftUp last (destinationIndex + 1 - last)
  let _slot ← a.refNode destinationIndex
  let a := a.setNode destinationIndex insertedNode
  pure { a with numUsedNodes := a.numUsedNodes + 1 }

/-- The first part of `allocate_as_offset`: the node the elements are taken from. -/
def selectCurrent (a : NodeAllocator) (size : Nat) : Except Stop (Option NodeAllocator) := do
  let node ← a.refNode a.currentNode
  if node.length < size then a.findNewCurrent size else pure (some a)

/-- The second part of `allocate_as_offset`, from the current node on. -/
def takeFromCurrent (a : NodeAllocator) (size : Nat) : Except Stop (Nat × NodeAllocator) := do
  let offset ← a.baseAsOffset (a.nodes a.currentNode)
  let before ← checkedSub a.currentNode 1
  let a := a.modifyNode before fun node => { node with length := node.length + size }
  let rest ← checkedSub (a.nodes a.currentNode).length size
  let a := a.modifyNode a.currentNode fun node =>
    { node with base := node.base + size * a.elementSize, length := rest }
  if rest = 0 then do
    let next ← a.refNode (a.currentNode + 1)
    let a ← a.removeNode (a.currentNode + 1) false
    let a ← a.removeNode a.currentNode true
    let before ← checkedSub a.currentNode 1
    pure (offset, a.modifyNode before fun node => { node with length := node.length + next.length })
  else
    pure (offset, a)

def allocateAsOffset (a : NodeAllocator) (size : Nat) :
    Except Stop (Option Nat × NodeAllocator) := do
  match ← a.selectCurrent size with
  | none => pure (none, a)
  | some a => do
    let (offset, a) ← a.takeFromCurrent size
    pure (some offset, a)

/-- The `Front` branch of `free_offset`. -/
def freeFront (a : NodeAllocator) (index frontSize backBase backSize : Nat) :
    Except Stop NodeAllocator := do
  if index = 0 then throw .panic
  let a := a.modifyNode index fun node => { node with base := backBase, length := backSize }
  let a ← (do
    if backSize = 0 then do
      let next ← a.refNode (index + 1)
      let a ← a.removeNode (index + 1) false
      let a ← a.removeNode index false
      pure (a.modifyNode (index - 1) fun node => { node with length := node.length + next.length })
    else
      pure a)
  if (a.nodes (index - 1)).isFreeing then
    pure (a.modifyNode (index - 1) fun node => { node with length := node.length + frontSize })
  else
    throw .panic

/-- The `Middle` branch of `free_offset`. -/
def freeMiddle (a : NodeAllocator)
    (index frontSize middleBase middleSize backBase backSize : Nat) :
    Except Stop NodeAllocator := do
  let a := a.modifyNode index fun node => { node with length := frontSize }
  let a ← a.insertNode ⟨middleSize, middleBase, false⟩ (index + 1)
  a.insertNode ⟨backSize, backBase, true⟩ (index + 2)

/-- The `Back` branch of `free_offset`. -/
def freeBack (a : NodeAllocator) (index frontSize backBase backSize : Nat) :
    Except Stop NodeAllocator := do
  let a := a.modifyNode index fun node => { node with length := frontSize }
  if (a.nodes (index + 1)).isFreeing then
    pure (a.modifyNode (index + 1) fun node =>
      { node with base := backBase, length := node.length + backSize })
  else
    throw .panic

def freeOffset (a : NodeAllocator) (offset size : Nat) : Except Stop (Bool × NodeAllocator) := do
  match ← a.findReservingNodeForOffset offset size with
  | none => pure (false, a)
  | some index => do
    match ← a.freeingType (a.nodes index) offset size with
    | .front _ frontSize backBase backSize => do
      let a ← a.freeFront index frontSize backBase backSize
      pure (true, a)
    | .middle _ frontSize middleBase middleSize backBase backSize => do
      let a ← a.freeMiddle index frontSize middleBase middleSize backBase backSize
      pure (true, a)
    | .back _ frontSize backBase backSize => do
      let a ← a.freeBack index frontSize backBase backSize
      pure (true, a)

end NodeAllocator

end EmkKernel
