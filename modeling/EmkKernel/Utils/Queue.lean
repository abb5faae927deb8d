import EmkKernel.Library.Fifo
import EmkKernel.Memory.Create

/-!
# The queue of `utils/queue.rs`

`utils::queue::Queue`. Its memory is a row of slots, each as long as an entry; the slots
behind the last one that fits into the queue's pages are whatever follows in memory. The
counter and both indices are `u16`.
-/

namespace EmkKernel

variable {α : Type}

structure Queue (α : Type) where
  base : MemoryBlock
  slots : Nat → α
  capacity : Nat
  inserted : Nat
  currentEnqueue : Nat
  currentDequeue : Nat

namespace Queue

/-- The pages that hold the bytes. -/
def pagesNeeded (bytesNeeded : Nat) : Nat :=
  bytesNeeded / 0x1000 + if bytesNeeded % 0x1000 ≠ 0 then 1 else 0

/-- `Queue::new`. The size of an entry is cast to `u16`; `zeroed` is what the zeroed pages
and the memory behind them hold. -/
def new (allocator : Allocator) (size capacity : Nat) (zeroed : Nat → α) :
    Traced (Option (Queue α × Allocator)) := do
  let sizeOfEntry := size % 2 ^ 16
  let bytesNeeded := capacity * sizeOfEntry
  let pages := pagesNeeded bytesNeeded
  if 2 ^ 16 ≤ bytesNeeded ∨ 2 ^ 16 ≤ pages * 0x1000 ∨ sizeOfEntry = 0 then
    pure none
  else do
    match ← allocator.alloc pages with
    | (.ok base, allocator) =>
      pure (some (⟨base, zeroed, pages * 0x1000 / sizeOfEntry, 0, 0, 0⟩, allocator))
    | (.error _, _) => pure none

def numOccupied (q : Queue α) : Nat := q.inserted

/-- `index + 1 % capacity`: the remainder is taken first. -/
def advance (index capacity : Nat) : Option Nat :=
  if capacity = 0 ∨ 2 ^ 16 ≤ index + 1 % capacity then none else some (index + 1 % capacity)

def getAtDequeue (q : Queue α) : Traced α := ⟨q.slots q.currentDequeue, [q.currentDequeue]⟩

/-- The slots after a write through `get_at_enqueue`. -/
def setAtEnqueue (q : Queue α) (val : α) : Traced (Nat → α) :=
  ⟨Function.update q.slots q.currentEnqueue val, [q.currentEnqueue]⟩

def enqueue (q : Queue α) (val : α) : Traced (Option (Queue α)) :=
  if 2 ^ 16 ≤ q.inserted + 1 then pure none
  else do
    let slots ← q.setAtEnqueue val
    pure ((advance q.currentEnqueue q.capacity).map fun index =>
      { q with inserted := q.inserted + 1, slots, currentEnqueue := index })

def dequeueSilent (q : Queue α) : Option (Queue α) :=
  if q.inserted = 0 then none
  else
    (advance q.currentDequeue q.capacity).map fun index =>
      { q with inserted := q.inserted - 1, currentDequeue := index }

/-- `dequeue` does what `dequeue_silent` does and reads the slot in between. -/
def dequeue (q : Queue α) : Traced (Option (α × Queue α)) :=
  if q.inserted = 0 then pure none
  else do
    let ret ← q.getAtDequeue
    pure ((advance q.currentDequeue q.capacity).map fun index =>
      (ret, { q with inserted := q.inserted - 1, currentDequeue := index }))

/-- Requests served in order: the values the dequeues return, and the queue left. -/
def run (q : Queue α) : List (Fifo.Request α) → Traced (Option (List α × Queue α))
  | [] => pure (some ([], q))
  | .enqueue val :: rest => do
    match ← q.enqueue val with
    | some q' => run q' rest
    | none => pure none
  | .dequeue :: rest => do
    match ← q.dequeue with
    | some (val, q') => do
      let done ← run q' rest
      pure (done.map fun d => (val :: d.1, d.2))
    | none => pure none
  | .dequeueSilent :: rest =>
    match q.dequeueSilent with
    | some q' => run q' rest
    | none => pure none

/-! ### What a new queue is -/

theorem new_some {allocator allocator' : Allocator} {size capacity : Nat} {zeroed : Nat → α}
    {q : Queue α} (made : (new allocator size capacity zeroed).value = some (q, allocator')) :
    0 < size % 2 ^ 16 ∧ q.base.length < 2 ^ 16 ∧
      q.capacity = q.base.length / (size % 2 ^ 16) ∧
      q.inserted = 0 ∧ q.currentEnqueue = 0 ∧ q.currentDequeue = 0 := by
  simp only [new, Traced.value_ite, Traced.value_bind, Traced.value_pure] at made
  split at made
  next => cases made
  next fits =>
    push Not at fits
    obtain ⟨_, below, positive⟩ := fits
    split at made
    next base allocator'' returned =>
      obtain ⟨_, _, _, _, rfl, _⟩ := allocator.alloc_ok returned
      obtain ⟨rfl, rfl⟩ := Prod.mk.inj (Option.some.inj made)
      exact ⟨Nat.pos_of_ne_zero positive, below, rfl, rfl, rfl, rfl⟩
    next => cases made

end Queue

end EmkKernel
