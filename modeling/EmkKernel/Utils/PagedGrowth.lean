import EmkKernel.Utils.PagedArrays

/-!
# The growth of arrays

What one operation of `utils::allocators` does: a sound array stays one, a push adds its value
behind the others, and a growth takes all values along, as long as the pages it asks for are
counted in `u16`.
-/

namespace EmkKernel

open EStateM BitArray IoMachine

/-- `free` panics only where the end of the block leaves `u64`. -/
theorem Allocator.free_panics {a a' : Allocator} {mb : MemoryBlock}
    (panics : (a.free mb).value = (.error .panic, a')) : 2 ^ 64 ≤ mb.endAddress := by
  unfold free at panics
  split at panics
  · cases panics
  · split at panics
    · cases panics
    · split at panics
      next beyond => exact beyond
      next =>
        split at panics
        · cases panics
        · simp only [Traced.value_bind, Traced.value_ite, Traced.value_pure] at panics
          split at panics <;> cases panics

namespace IoMachine

variable {m m' : IoMachine} {memory : Nat → Byte} {size address a : Nat}

private theorem valueAt_storeValue (memory : Nat → Byte) (address : Nat) (data : ValueBytes size) :
    valueAt size (storeValue memory address data) address = data := by
  funext j
  have inside : address ≤ address + j ∧ address + j - address < size :=
    ⟨Nat.le_add_right .., by omega⟩
  rw [valueAt, storeValue, dif_pos inside]
  exact congrArg data (Fin.ext (Nat.add_sub_cancel_left ..))

theorem storeValue_outside {data : ValueBytes size} (outside : a < address ∨ address + size ≤ a) :
    storeValue memory address data a = memory a :=
  dif_neg (by omega)

private theorem valueAt_congr {memory' : Nat → Byte} {address' : Nat}
    (same : ∀ i < size, memory' (address' + i) = memory (address + i)) :
    valueAt size memory' address' = valueAt size memory address :=
  funext fun j => same j j.isLt

/-- Ranges that are apart are copied as a whole. -/
theorem copyQwords_eq {dst src n : Nat} (apart : dst + 8 * n ≤ src ∨ src + 8 * n ≤ dst) :
    copyQwords memory dst src n = copyInto memory dst (8 * n) fun i => memory (src + i) := by
  induction n generalizing memory dst src with
  | zero =>
    funext a
    exact (copyInto_outside (by omega)).symm
  | succ n ih =>
    rw [copyQwords, ih (by omega)]
    funext a
    by_cases outside : a < dst ∨ dst + 8 * (n + 1) ≤ a
    · rw [copyInto_outside (by omega), copyInto_outside (by omega), copyInto_outside outside]
    · obtain ⟨i, rfl⟩ := Nat.exists_eq_add_of_le (Nat.not_lt.mp (not_or.mp outside).1)
      rw [copyInto_inside (n := 8 * (n + 1)) (by omega)]
      by_cases first : i < 8
      · rw [copyInto_outside (by omega), copyInto_inside first]
      · -- the source of the later quadwords is not written yet
        obtain ⟨j, rfl⟩ := Nat.exists_eq_add_of_le (Nat.not_lt.mp first)
        rw [← Nat.add_assoc, copyInto_inside (by omega), copyInto_outside (by omega),
          ← Nat.add_assoc]

/-- A block of pages that were free, which is zeroed. -/
structure Zeroed (m : IoMachine) (pages k : Nat) (mb : MemoryBlock) (m' : IoMachine) : Prop where
  positive : 0 < pages
  picks : m.allocator.Picks pages k
  took : m.allocator.Took m'.allocator pages k
  block : mb = m.allocator.blockAt pages k
  memory : m'.memory = copyInto m.memory mb.base mb.length fun _ => 0

theorem allocZero_yields {pages : Nat} (small : pages < 2 ^ 16) :
    Yields (allocZero pages) m
      (fun r m' => (∃ e, r = .error e ∧ m' = m) ∨ ∃ mb k, r = .ok mb ∧ Zeroed m pages k mb m')
      fun _ _ => ∃ k, m.allocator.Picks pages k ∧
        2 ^ 64 ≤ (m.allocator.blockAt pages k).endAddress := by
  rw [allocZero, yields_bind, yields_get]
  rcases m.allocator.alloc_cases pages with ⟨_, value⟩ | ⟨_, _, value⟩ |
    ⟨positive, k, a, picks, took, value⟩
  · rw [value]
    exact Or.inl ⟨_, rfl, rfl⟩
  · rw [value]
    exact Or.inl ⟨_, rfl, rfl⟩
  · rw [value, Allocator.handOut]
    by_cases bound : m.allocator.addend + k * 0x1000 < 2 ^ 64
    · rw [if_pos bound]
      have whole : 8 * (pages * 0x1000 / 8 % 2 ^ 32) = pages * 0x1000 := by omega
      refine Or.inr ⟨_, k, rfl, positive, picks, took, rfl, ?_⟩
      dsimp only
      rw [whole]
    · rw [if_neg bound]
      refine ⟨k, picks, ?_⟩
      change 2 ^ 64 ≤ m.allocator.addend + k * 0x1000 + pages * 0x1000
      omega

theorem free_yields {pages k : Nat}
    (taken : ∀ j, InRun k pages j → bit m.allocator.bitmap j = true) :
    Yields (free (m.allocator.blockAt pages k)) m
      (fun r m' => (∃ e, r = .error e ∧ m' = m) ∨
        r = .ok () ∧ m'.memory = m.memory ∧ m.allocator.Gave m'.allocator pages k)
      fun _ _ => 2 ^ 64 ≤ (m.allocator.blockAt pages k).endAddress := by
  rw [free, yields_bind, yields_get]
  by_cases freeable : m.allocator.Freeable pages k
  · obtain ⟨a, value, gave⟩ := m.allocator.free_granted freeable taken
    rw [value]
    exact Or.inr ⟨rfl, rfl, gave⟩
  · obtain ⟨stop, value⟩ := m.allocator.free_refused freeable
    rw [value]
    cases stop with
    | err e => exact Or.inl ⟨e, rfl, rfl⟩
    | panic => exact Allocator.free_panics value

end IoMachine

namespace PagedArray

variable {a a' : PagedArray} {m m' m₁ m₂ : IoMachine} {memory : Nat → Byte} {size : Nat}
  {pushed : List (ValueBytes size)} {data : ValueBytes size}

/-! ### Slots -/

/-- The values in memory. -/
def slots (a : PagedArray) (size : Nat) (memory : Nat → Byte) : PageAllocator (ValueBytes size) :=
  ⟨fun i => valueAt size memory (a.address size i), a.allocated, a.capacity⟩

theorem slots_apart {i j : Nat} (apart : i ≠ j) (c : Nat) (less : c < size) :
    a.address size i + c < a.address size j ∨ a.address size j + size ≤ a.address size i + c := by
  rw [address, address]
  rcases Nat.lt_or_gt_of_ne apart with before | behind
  · have next : size * (i + 1) ≤ size * j := Nat.mul_le_mul_left size before
    rw [Nat.mul_add_one] at next
    omega
  · have next : size * (j + 1) ≤ size * i := Nat.mul_le_mul_left size behind
    rw [Nat.mul_add_one] at next
    omega

@[simp] theorem allocated_slots : (a.slots size memory).allocated = a.allocated := rfl

@[simp] theorem capacity_slots : (a.slots size memory).capacity = a.capacity := rfl

theorem slots_append (room : a.allocated < a.capacity) :
    ({ a with allocated := a.allocated + 1 } : PagedArray).slots size
      (storeValue memory (a.address size a.allocated) data) =
        ((a.slots size memory).pushBack data).2 := by
  have stored : (fun i => valueAt size (storeValue memory (a.address size a.allocated) data)
      (a.address size i)) = Function.update (a.slots size memory).slots a.allocated data := by
    funext i
    by_cases here : i = a.allocated
    · rw [here, valueAt_storeValue, Function.update_self]
    · rw [Function.update_of_ne here]
      exact valueAt_congr fun c less => storeValue_outside (slots_apart here c less)
  have space : ¬(a.slots size memory).allocated + 1 > (a.slots size memory).capacity :=
    Nat.not_lt.mpr room
  rw [PageAllocator.pushBack, if_neg space]
  exact congrArg (fun slots => (⟨slots, a.allocated + 1, a.capacity⟩ : PageAllocator _)) stored

private theorem append_eq (room : a.allocated + 1 < 2 ^ 32) : a.append data m =
    .ok { a with allocated := a.allocated + 1 } { m with
      memory := storeValue m.memory (a.address size a.allocated) data } := by
  have next : addU32 a.allocated 1 = some (a.allocated + 1) := if_pos room
  simp only [append, next, orPanic_some, pure_bind]
  rfl

theorem pushBackFixed_full (full : a.capacity ≤ a.allocated) (small : a.allocated + 1 < 2 ^ 32) :
    a.pushBackFixed data m = .ok (false, a) m := by
  have next : addU32 a.allocated 1 = some (a.allocated + 1) := if_pos small
  simp only [pushBackFixed, next, orPanic_some, pure_bind]
  rw [if_pos (Nat.lt_succ_of_le full)]
  rfl

theorem pushBackFixed_room (room : a.allocated < a.capacity) (small : a.allocated + 1 < 2 ^ 32) :
    a.pushBackFixed data m = .ok (true, { a with allocated := a.allocated + 1 }) { m with
      memory := storeValue m.memory (a.address size a.allocated) data } := by
  have next : addU32 a.allocated 1 = some (a.allocated + 1) := if_pos small
  simp only [pushBackFixed, next, orPanic_some, pure_bind]
  rw [if_neg (Nat.not_lt.mpr room), bind_of_ok (append_eq small)]
  rfl

/-! ### What the memory of an array keeps -/

/-- The block is made of pages that are in use. -/
def Held (m : IoMachine) (mb : MemoryBlock) : Prop :=
  ∃ pages k, pages < 2 ^ 16 ∧ mb = m.allocator.blockAt pages k ∧
    ∀ j, InRun k pages j → bit m.allocator.bitmap j = true

/-- A block stays where it is and as it is. -/
structure Leaves (m : IoMachine) (mb : MemoryBlock) (m' : IoMachine) : Prop where
  addend : m'.allocator.addend = m.allocator.addend
  inUse : ∀ i < mb.length, m.allocator.InUse (mb.base + i) → m'.allocator.InUse (mb.base + i)
  bytes : ∀ i < mb.length, m'.memory (mb.base + i) = m.memory (mb.base + i)

instance (m : IoMachine) (mb : MemoryBlock) (m' : IoMachine) : Decidable (Leaves m mb m') :=
  decidable_of_iff (m'.allocator.addend = m.allocator.addend ∧
    (∀ i < mb.length, m.allocator.InUse (mb.base + i) → m'.allocator.InUse (mb.base + i)) ∧
      ∀ i < mb.length, m'.memory (mb.base + i) = m.memory (mb.base + i))
    ⟨fun parts => ⟨parts.1, parts.2.1, parts.2.2⟩,
      fun leaves => ⟨leaves.addend, leaves.inUse, leaves.bytes⟩⟩

theorem Held.inUse {mb : MemoryBlock} (held : Held m mb) {i : Nat} (less : i < mb.length) :
    m.allocator.InUse (mb.base + i) := by
  obtain ⟨pages, k, _, rfl, taken⟩ := held
  have bound : i < pages * 0x1000 := less
  refine ⟨?_, ?_⟩
  · simp only [Allocator.blockAt]
    omega
  · rw [Allocator.blockAt, page_in_block]
    exact taken _ ⟨by omega, by omega⟩

theorem Held.leaves {mb : MemoryBlock} (held : Held m mb) (leaves : Leaves m mb m') :
    Held m' mb := by
  obtain ⟨pages, k, small, rfl, taken⟩ := id held
  refine ⟨pages, k, small, ?_, fun j run => ?_⟩
  · rw [Allocator.blockAt, Allocator.blockAt, leaves.addend]
  · obtain ⟨i, rfl⟩ := Nat.exists_eq_add_of_le run.1
    have above := run.2
    have inside : i * 0x1000 < (m.allocator.blockAt pages k).length := by
      simp only [Allocator.blockAt]
      omega
    have used := (leaves.inUse _ inside (held.inUse inside)).2
    rw [leaves.addend, Allocator.blockAt, page_in_block, Nat.mul_div_cancel _ (by decide)] at used
    exact used

/-- The values are those that were pushed, and the capacity fits the memory. -/
structure Sound (a : PagedArray) (m : IoMachine) (pushed : List (ValueBytes size)) : Prop where
  values : (a.slots size m.memory).values = pushed
  filled : a.allocated ≤ a.capacity
  fits : a.capacity * size ≤ a.memory.length
  ptr : a.ptr = a.memory.base
  sized : 0 < a.capacity → 0 < size
  held : 0 < a.memory.length → Held m a.memory

theorem Sound.backed (sound : Sound a m pushed) (some : 0 < a.capacity) :
    0 < size ∧ Held m a.memory := by
  have positive := sound.sized some
  have fits := sound.fits
  have product : 0 < a.capacity * size := Nat.mul_pos some positive
  exact ⟨positive, sound.held (by omega)⟩

theorem Sound.count (sound : Sound a m pushed) : a.allocated = pushed.length := by
  rw [← sound.values, PageAllocator.length_values]
  rfl

theorem Sound.getElem? (sound : Sound a m pushed) {i : Nat} (less : i < pushed.length) :
    pushed[i]? = some (valueAt size m.memory (a.address size i)) := by
  have below : i < a.allocated := sound.count ▸ less
  rw [← sound.values, PageAllocator.values, List.getElem?_map, allocated_slots,
    List.getElem?_range below]
  rfl

theorem Sound.bound (sound : Sound a m pushed) : a.capacity < 2 ^ 28 := by
  rcases Nat.eq_zero_or_pos a.capacity with none | some
  · omega
  · obtain ⟨positive, pages, k, small, block, _⟩ := sound.backed some
    have fits := sound.fits
    have inside := Nat.le_mul_of_pos_right a.capacity positive
    rw [block] at fits
    simp only [Allocator.blockAt] at fits
    omega

/-- The bytes of a value are in the memory of the array. -/
theorem Sound.inside (sound : Sound a m pushed) {i c : Nat} (less : i < a.allocated)
    (byte : c < size) : size * i + c < a.memory.length := by
  have filled := sound.filled
  have step : size * (i + 1) ≤ size * a.capacity := Nat.mul_le_mul_left size (by omega)
  have fits := sound.fits
  rw [Nat.mul_comm] at fits
  rw [Nat.mul_add_one] at step
  omega

private theorem values_congr {a' : PagedArray} {memory' : Nat → Byte}
    (allocated : a'.allocated = a.allocated)
    (same : ∀ i < a.allocated, ∀ c < size,
      memory' (a'.address size i + c) = memory (a.address size i + c)) :
    (a'.slots size memory').values = (a.slots size memory).values := by
  have range : List.range (a'.slots size memory').allocated = List.range a.allocated :=
    congrArg List.range allocated
  rw [PageAllocator.values, PageAllocator.values, range]
  refine List.map_congr_left fun i member => ?_
  exact valueAt_congr (same i (List.mem_range.mp member))

/-- What is done elsewhere is nothing to the array. -/
theorem Sound.leaves (sound : Sound a m pushed) (leaves : Leaves m a.memory m') :
    Sound a m' pushed := by
  refine ⟨?_, sound.filled, sound.fits, sound.ptr, sound.sized,
    fun some => (sound.held some).leaves leaves⟩
  rw [← sound.values]
  refine values_congr rfl fun i less c byte => ?_
  rw [address, sound.ptr, Nat.add_assoc]
  exact leaves.bytes _ (sound.inside less byte)

/-- What preserves all that is in use leaves the array. -/
theorem Sound.leaves_of_preserves (sound : Sound a m pushed) (preserves : Preserves m m') :
    Leaves m a.memory m' where
  addend := preserves.addend
  inUse _ _ used := preserves.inUse _ used
  bytes _ less := preserves.bytes _ ((sound.held (Nat.zero_lt_of_lt less)).inUse less)

theorem Sound.append (sound : Sound a m pushed) (room : a.allocated < a.capacity)
    (data : ValueBytes size) : Sound { a with allocated := a.allocated + 1 }
      { m with memory := storeValue m.memory (a.address size a.allocated) data }
      (pushed ++ [data]) := by
  refine ⟨?_, room, sound.fits, sound.ptr, sound.sized, sound.held⟩
  rw [slots_append room, PageAllocator.values_pushBack data room, sound.values]

/-! ### Growth -/

/-- The pages are no more than a growth takes. -/
def Ample (size : Nat) (a : PagedArray) : Prop :=
  0 < a.capacity → a.memory.length ≤ 2 * pagesNeeded (a.capacity * size) * 0x1000

/-- A block of the array or of its allocator ends where there are no addresses. -/
def Overflows (a : PagedArray) (m : IoMachine) : Prop :=
  2 ^ 64 ≤ a.memory.endAddress ∨
    ∃ pages k, m.allocator.Picks pages k ∧ 2 ^ 64 ≤ (m.allocator.blockAt pages k).endAddress

private theorem pagesNeeded_mono {b b' : Nat} (le : b ≤ b') : pagesNeeded b ≤ pagesNeeded b' := by
  unfold pagesNeeded
  split <;> split <;> omega

private theorem le_pagesNeeded (bytes : Nat) : bytes ≤ pagesNeeded bytes * 0x1000 := by
  unfold pagesNeeded
  split <;> omega

private theorem pagesNeeded_le {bytes pages : Nat} (le : bytes ≤ pages * 0x1000) :
    pagesNeeded bytes ≤ pages := by
  unfold pagesNeeded
  split <;> omega

private theorem pagesNeeded_lt {bytes : Nat} (some : 0 < pagesNeeded bytes) :
    (pagesNeeded bytes - 1) * 0x1000 < bytes := by
  unfold pagesNeeded at some ⊢
  by_cases rest : bytes % 0x1000 ≠ 0
  · rw [if_pos rest]
    omega
  · rw [if_neg rest] at some ⊢
    omega

/-- Pages are needed for some values only. -/
theorem pos_of_pagesNeeded {count : Nat} (some : 0 < pagesNeeded (count * size)) : 0 < count := by
  by_contra none
  rw [Nat.eq_zero_of_not_pos none, Nat.zero_mul] at some
  exact absurd some (by decide)

theorem preserves_zeroed {pages k : Nat} {mb : MemoryBlock} (zeroed : Zeroed m pages k mb m') :
    Preserves m m' where
  addend := zeroed.took.addend
  inUse a used := by
    refine ⟨zeroed.took.addend.symm ▸ used.1, ?_⟩
    rw [zeroed.took.addend]
    exact (zeroed.took.sets _).mpr (Or.inl used.2)
  bytes a used := by
    rw [zeroed.memory, zeroed.block]
    exact copyInto_outside (outside_of_inUse used zeroed.picks.clear)

/-- The machine after the values were copied to new pages. -/
theorem preserves_copy {pages k n : Nat} {mb : MemoryBlock} {source : Nat → Byte}
    (zeroed : Zeroed m pages k mb m₁) (fits : n ≤ mb.length) :
    Preserves m { m₁ with memory := copyInto m₁.memory mb.base n source } where
  addend := (preserves_zeroed zeroed).addend
  inUse := (preserves_zeroed zeroed).inUse
  bytes a used := by
    have outside := outside_of_inUse used zeroed.picks.clear
    have length : mb.length = pages * 0x1000 := by rw [zeroed.block, Allocator.blockAt]
    have base : mb.base = m.allocator.addend + k * 0x1000 := by
      rw [zeroed.block, Allocator.blockAt]
    have apart : a < mb.base ∨ mb.base + n ≤ a := by omega
    have kept : copyInto m₁.memory mb.base n source a = m₁.memory a := copyInto_outside apart
    exact kept.trans ((preserves_zeroed zeroed).bytes a used)

/-- Blocks of pages that were in use and of pages that were not have no byte in common. -/
theorem Held.apart {pages k : Nat} {mb block : MemoryBlock} (held : Held m mb)
    (zeroed : Zeroed m pages k block m') (fits : mb.length ≤ block.length) :
    block.base + mb.length ≤ mb.base ∨ mb.base + mb.length ≤ block.base := by
  obtain ⟨pages', k', _, rfl, taken⟩ := held
  have clear := zeroed.picks.clear
  rw [zeroed.block] at fits ⊢
  simp only [Allocator.blockAt] at fits ⊢
  by_contra overlap
  -- a page in both blocks is set and clear
  have both : InRun k' pages' (max k k') ∧ InRun k pages (max k k') := by
    unfold InRun
    omega
  have set := taken _ both.1
  rw [clear _ both.2] at set
  cases set

/-- The array in twice the pages. -/
def grown (a : PagedArray) (mb : MemoryBlock) : PagedArray :=
  { a with memory := mb, ptr := mb.base, capacity := a.capacity * 2 }

/-- The bytes are copied, and all values with them. -/
theorem Sound.grown {pages k : Nat} {mb : MemoryBlock} (sound : Sound a m pushed)
    (some : 0 < a.capacity) (zeroed : Zeroed m pages k mb m₁)
    (count : pages = pagesNeeded (a.capacity * size) * 2) (small : pages < 2 ^ 16)
    (memory : m₂.memory = copyInto m₁.memory mb.base a.memory.length fun i =>
      m₁.memory (a.memory.base + i))
    (addend : m₂.allocator.addend = m.allocator.addend)
    (taken : ∀ j, InRun k pages j → bit m₂.allocator.bitmap j = true) :
    Sound (a.grown mb) m₂ pushed := by
  obtain ⟨positive, held⟩ := sound.backed some
  have filled := sound.filled
  have room := le_pagesNeeded (a.capacity * size)
  refine ⟨?_, ?_, ?_, rfl, fun _ => positive, fun _ => ⟨pages, k, small, ?_, taken⟩⟩
  · rw [← sound.values]
    refine values_congr rfl fun i less c byte => ?_
    -- the bytes of the value are copied from pages that the new ones do not touch
    have inside := sound.inside less byte
    rw [memory, address, address, sound.ptr, Nat.add_assoc, Nat.add_assoc, PagedArray.grown,
      copyInto_inside inside]
    exact (preserves_zeroed zeroed).bytes _ (held.inUse inside)
  · change a.allocated ≤ a.capacity * 2
    omega
  · change a.capacity * 2 * size ≤ mb.length
    rw [zeroed.block, Allocator.blockAt, count, Nat.mul_right_comm]
    dsimp only
    omega
  · change mb = _
    rw [zeroed.block, Allocator.blockAt, Allocator.blockAt, addend]

private theorem ample_grown {pages k : Nat} {mb : MemoryBlock} (zeroed : Zeroed m pages k mb m₁)
    (count : pages = pagesNeeded (a.capacity * size) * 2) : Ample size (a.grown mb) := by
  intro _
  have more : pagesNeeded (a.capacity * size) ≤ pagesNeeded (a.capacity * 2 * size) :=
    pagesNeeded_mono (Nat.mul_le_mul_right size (Nat.le_mul_of_pos_right _ (by decide)))
  change mb.length ≤ 2 * pagesNeeded (a.capacity * 2 * size) * 0x1000
  rw [zeroed.block, Allocator.blockAt, count]
  dsimp only
  omega

theorem moveTo_yields {k : Nat} {mb : MemoryBlock} (sound : Sound a m pushed)
    (some : 0 < a.capacity) (small : pagesNeeded (a.capacity * size) * 2 < 2 ^ 16)
    (zeroed : Zeroed m (pagesNeeded (a.capacity * size) * 2) k mb m₁)
    (fits : a.memory.length ≤ mb.length) :
    Yields (a.moveTo mb) m₁
      (fun r m' => (∃ e, r = .error e ∧ Preserves m m') ∨
        r = .ok (a.grown mb) ∧ Sound (a.grown mb) m' pushed)
      fun _ _ => 2 ^ 64 ≤ a.memory.endAddress ∨ 2 ^ 64 ≤ mb.endAddress := by
  have bound := sound.bound
  obtain ⟨_, held⟩ := sound.backed some
  obtain ⟨pages, k', few, block, taken⟩ := id held
  have whole : 8 * (a.memory.length / 8 % 2 ^ 32) = a.memory.length := by
    rw [block, Allocator.blockAt]
    dsimp only
    omega
  have apart := held.apart zeroed fits
  have copied : copyQwords m₁.memory mb.base a.memory.base (a.memory.length / 8 % 2 ^ 32) =
      copyInto m₁.memory mb.base a.memory.length fun i => m₁.memory (a.memory.base + i) := by
    rw [copyQwords_eq (by omega), whole]
  let copy : IoMachine := { m₁ with
    memory := copyInto m₁.memory mb.base a.memory.length fun i => m₁.memory (a.memory.base + i) }
  have preserves : Preserves m copy := preserves_copy zeroed fits
  -- both blocks are in use now
  have old : a.memory = m₁.allocator.blockAt pages k' := by
    rw [block, Allocator.blockAt, Allocator.blockAt, zeroed.took.addend]
  have new : mb = m₁.allocator.blockAt (pagesNeeded (a.capacity * size) * 2) k := by
    rw [zeroed.block, Allocator.blockAt, Allocator.blockAt, zeroed.took.addend]
  have freeOld := IoMachine.free_yields (m := copy) fun j run =>
    (zeroed.took.sets j).mpr (Or.inl (taken j run))
  have freeNew := IoMachine.free_yields (m := copy) fun j run =>
    (zeroed.took.sets j).mpr (Or.inr run)
  rw [← old] at freeOld
  rw [← new] at freeNew
  simp only [moveTo, yields_bind, yields_modify, copied]
  refine freeOld.mono ?_ fun _ _ beyond => Or.inl beyond
  rintro _ m₂ (⟨e, rfl, rfl⟩ | ⟨rfl, memory, gave⟩)
  · -- the old memory is not given back, so the new one is
    simp only [yields_bind]
    refine freeNew.mono ?_ fun _ _ beyond => Or.inr beyond
    rintro _ m₃ (⟨e', rfl, rfl⟩ | ⟨rfl, memory, gave⟩)
    · exact Or.inl ⟨e, rfl, preserves⟩
    · exact Or.inl ⟨e, rfl, preserves.release zeroed.picks.clear memory gave⟩
  · have doubled : mulU32 a.capacity 2 = Option.some (a.capacity * 2) := if_pos (by omega)
    simp only [doubled, orPanic_some, pure_bind]
    refine Or.inr ⟨rfl, sound.grown some zeroed rfl small memory ?_ fun j run => ?_⟩
    · exact gave.addend.trans zeroed.took.addend
    · refine (gave.clears j).mpr ⟨(zeroed.took.sets j).mpr (Or.inr run), fun before => ?_⟩
      -- the pages given back were in use before the new ones were taken
      have set := taken j before
      rw [zeroed.picks.clear j run] at set
      cases set

/-- A growth that asks for no more pages than there are in `u16` keeps the values, in the old
memory or in the new one. -/
theorem grow_yields (sound : Sound a m pushed) (ample : Ample size a) (narrow : size < 2 ^ 32)
    (few : pagesNeeded (a.capacity * size) ≤ 2 ^ 15) :
    Yields (a.grow size) m
      (fun r m' => (∃ e, r = .error e ∧ Preserves m m') ∨
        ∃ mb, r = .ok (a.grown mb) ∧ 0 < a.capacity ∧ Sound (a.grown mb) m' pushed ∧
          Ample size (a.grown mb))
      fun _ _ => a.Overflows m := by
  have bytes : mulU32 a.capacity (size % 2 ^ 32) = some (a.capacity * size) := by
    have covered := le_pagesNeeded (a.capacity * size)
    rw [Nat.mod_eq_of_lt narrow]
    exact if_pos (by omega)
  have pages : mulU32 (pagesNeeded (a.capacity * size)) 2 =
      some (pagesNeeded (a.capacity * size) * 2) := if_pos (by omega)
  simp only [grow, bytes, pages, orPanic_some, pure_bind]
  rw [yields_bind]
  refine (allocZero_yields (Nat.mod_lt _ (by decide))).mono ?_ ?_
  swap
  · rintro _ _ ⟨k, picks, beyond⟩
    exact Or.inr ⟨_, k, picks, beyond⟩
  rintro _ m₁ (⟨e, rfl, rfl⟩ | ⟨mb, k, rfl, zeroed⟩)
  · exact Or.inl ⟨e, rfl, Preserves.refl _⟩
  -- `2 ^ 16` pages are cut to none, and none are never given
  have positive := zeroed.positive
  have small : pagesNeeded (a.capacity * size) * 2 < 2 ^ 16 := by omega
  rw [Nat.mod_eq_of_lt small] at zeroed
  have needed : 0 < pagesNeeded (a.capacity * size) := by omega
  have some : 0 < a.capacity := pos_of_pagesNeeded needed
  have fits : a.memory.length ≤ mb.length := by
    have upper := ample some
    rw [Nat.mul_comm 2] at upper
    rw [zeroed.block]
    exact upper
  refine (moveTo_yields sound some small zeroed fits).mono ?_ ?_
  · rintro r m₂ (refused | ⟨rfl, sound'⟩)
    · exact Or.inl refused
    · exact Or.inr ⟨mb, rfl, some, sound', ample_grown zeroed rfl⟩
  · rintro _ _ (beyond | beyond)
    · exact Or.inl beyond
    · exact Or.inr ⟨_, k, zeroed.picks, zeroed.block ▸ beyond⟩

/-- Only the new memory and twice the capacity are recorded. -/
theorem moveTo_grown (mb : MemoryBlock) :
    Yields (a.moveTo mb) m (fun r _ => ∀ b, r = .ok b → b = a.grown mb) fun _ _ => True := by
  simp only [moveTo, yields_bind, yields_modify]
  refine (yields_any _ _).mono ?_ fun _ _ _ => trivial
  rintro (e | _) m₁ _
  · dsimp only
    rw [yields_bind]
    refine (yields_any _ _).mono ?_ fun _ _ _ => trivial
    intro _ _ _ b refused
    cases refused
  · dsimp only
    rw [yields_bind]
    refine (orPanic_yields _).mono ?_ fun _ _ _ => trivial
    rintro capacity m₂ ⟨rfl, twice⟩
    obtain rfl := Option.some.inj (Option.ite_none_right_eq_some.mp twice).2
    rintro b ⟨⟩
    rfl

/-- More pages than `2 ^ 16` are cut to `u16`: the capacity is doubled, the memory is not. -/
theorem grow_short (sound : Sound a m pushed) (narrow : size < 2 ^ 32)
    (many : 2 ^ 15 < pagesNeeded (a.capacity * size)) :
    Yields (a.grow size) m
      (fun r _ => ∀ b, r = .ok b → b.memory.length < b.capacity * size ∧
        b.allocated = a.allocated) fun _ _ => True := by
  have upper : pagesNeeded (a.capacity * size) < 2 ^ 16 := by
    -- the array is in fewer than `2 ^ 16` pages
    have some : 0 < a.capacity := pos_of_pagesNeeded (Nat.zero_lt_of_lt many)
    obtain ⟨_, pages, k, small, block, _⟩ := sound.backed some
    have fits := sound.fits
    rw [block] at fits
    exact Nat.lt_of_le_of_lt (pagesNeeded_le fits) small
  have lower := pagesNeeded_lt (Nat.zero_lt_of_lt many)
  rw [grow, yields_bind, Nat.mod_eq_of_lt narrow]
  refine (orPanic_yields _).mono ?_ fun _ _ _ => trivial
  rintro bytes _ ⟨rfl, product⟩
  obtain rfl := Option.some.inj (Option.ite_none_right_eq_some.mp product).2
  rw [yields_bind]
  refine (orPanic_yields _).mono ?_ fun _ _ _ => trivial
  rintro pages m₁ ⟨rfl, doubled⟩
  obtain rfl := Option.some.inj (Option.ite_none_right_eq_some.mp doubled).2
  rw [yields_bind]
  refine (allocZero_yields (Nat.mod_lt _ (by decide))).mono ?_ fun _ _ _ => trivial
  rintro _ m₂ (⟨e, rfl, rfl⟩ | ⟨mb, k, rfl, zeroed⟩)
  · intro b refused
    cases refused
  -- what was cut off is at least `2 ^ 16` pages, more than the values have room to spare
  have length : mb.length = pagesNeeded (a.capacity * size) * 2 % 2 ^ 16 * 0x1000 := by
    rw [zeroed.block, Allocator.blockAt]
  refine (moveTo_grown mb).mono ?_ fun _ _ _ => trivial
  intro r _ recorded b ok
  obtain rfl := recorded b ok
  refine ⟨?_, rfl⟩
  change mb.length < a.capacity * 2 * size
  rw [Nat.mul_right_comm]
  omega

theorem Sound.next (sound : Sound a m pushed) : a.allocated + 1 < 2 ^ 32 := by
  have bound := sound.bound
  have filled := sound.filled
  omega

/-- A push keeps the values and adds the new one, or it is an error and leaves the array. -/
theorem pushBackGrowing_yields (sound : Sound a m pushed) (ample : Ample size a)
    (narrow : size < 2 ^ 32)
    (few : a.capacity ≤ a.allocated → pagesNeeded (a.capacity * size) ≤ 2 ^ 15)
    (data : ValueBytes size) :
    Yields (a.pushBackGrowing data) m
      (fun r m' => r.1.isSome ∧ r.2 = a ∧ Preserves m m' ∨
        r.1 = none ∧ Sound r.2 m' (pushed ++ [data]) ∧ Ample size r.2)
      fun _ _ => a.Overflows m := by
  have next : addU32 a.allocated 1 = some (a.allocated + 1) := if_pos sound.next
  simp only [pushBackGrowing, next, orPanic_some, pure_bind]
  rw [yields_ite]
  split
  next full =>
    rw [yields_bind]
    refine (grow_yields sound ample narrow (few (Nat.le_of_lt_succ full))).mono ?_ fun _ _ h => h
    rintro _ m₁ (⟨e, rfl, preserves⟩ | ⟨mb, rfl, some, sound', ample'⟩)
    · exact Or.inl ⟨rfl, rfl, preserves⟩
    · have filled := sound.filled
      have room : (a.grown mb).allocated < (a.grown mb).capacity := by
        change a.allocated < a.capacity * 2
        omega
      have small : (a.grown mb).allocated + 1 < 2 ^ 32 := sound.next
      dsimp only
      rw [yields_bind]
      refine yields_of_ok (append_eq small) ?_
      exact Or.inr ⟨rfl, sound'.append room data, ample'⟩
  next space =>
    rw [yields_bind]
    refine yields_of_ok (append_eq sound.next) ?_
    exact Or.inr ⟨rfl, sound.append (Nat.not_lt.mp space) data, ample⟩

/-- A list has the values of the array that it was made of. -/
theorem Sound.toList (sound : Sound a m pushed) :
    Sound ⟨a.toList.memory, a.toList.ptr, a.toList.entries, a.toList.entries⟩ m pushed := by
  refine ⟨?_, Nat.le_refl _, ?_, rfl, fun some => ?_, sound.held⟩
  · rw [← sound.values]
    refine values_congr rfl fun i less c byte => ?_
    rw [address, address, sound.ptr]
    rfl
  · exact (Nat.mul_le_mul_right size sound.filled).trans sound.fits
  · exact sound.sized (Nat.lt_of_lt_of_le some sound.filled)

theorem sound_empty : Sound empty m ([] : List (ValueBytes size)) :=
  ⟨rfl, Nat.le_refl 0, by simp [empty], rfl, fun some => absurd some (Nat.lt_irrefl 0),
    fun some => absurd some (Nat.lt_irrefl 0)⟩

/-- A new array is empty, and its capacity is what its pages hold. -/
theorem new_yields {capacity : Nat} (narrow : size < 2 ^ 32) :
    Yields (new size capacity) m
      (fun a m' => Sound a m' ([] : List (ValueBytes size)) ∧ Ample size a) fun _ _ => True := by
  rw [new, yields_bind, Nat.mod_eq_of_lt narrow]
  refine (orPanic_yields _).mono ?_ fun _ _ _ => trivial
  rintro bytes _ ⟨rfl, _⟩
  rw [yields_bind]
  refine (orPanic_yields _).mono ?_ fun _ _ _ => trivial
  rintro pages _ ⟨rfl, counted⟩
  have small : pages < 2 ^ 16 := by
    obtain ⟨less, same⟩ := Option.ite_none_right_eq_some.mp counted
    exact Option.some.inj same ▸ less
  rw [yields_bind]
  refine (orPanic_yields _).mono ?_ fun _ _ _ => trivial
  rintro count m₁ ⟨rfl, divided⟩
  rw [yields_bind]
  refine (allocZero_yields small).mono ?_ fun _ _ _ => trivial
  rintro _ m₂ (⟨e, rfl, rfl⟩ | ⟨mb, k, rfl, zeroed⟩)
  · trivial
  unfold elementsIn at divided
  split at divided
  next => cases divided
  next sized =>
    obtain rfl := Option.some.inj divided
    have positive : 0 < size := Nat.pos_of_ne_zero sized
    have length : mb.length = pages * 0x1000 := by rw [zeroed.block, Allocator.blockAt]
    have block : mb = m₂.allocator.blockAt pages k := by
      rw [zeroed.block, Allocator.blockAt, Allocator.blockAt, zeroed.took.addend]
    refine ⟨⟨rfl, Nat.zero_le _, ?_, rfl, fun _ => positive,
      fun _ => ⟨pages, k, small, block, ?_⟩⟩, ?_⟩
    · exact length ▸ Nat.div_mul_le_self _ _
    · exact fun j run => (zeroed.took.sets j).mpr (Or.inr run)
    · intro some
      -- what is left of the pages is less than one value
      have whole := Nat.div_add_mod (pages * 0x1000) size
      have left := Nat.mod_lt (pages * 0x1000) positive
      have one := Nat.le_mul_of_pos_left size some
      have covered := le_pagesNeeded (pages * 0x1000 / size * size)
      rw [Nat.mul_comm size] at whole
      dsimp only at one ⊢
      omega

/-- A push with such a growth leaves a capacity that does not fit the memory. -/
theorem pushBackGrowing_short (sound : Sound a m pushed) (narrow : size < 2 ^ 32)
    (full : a.capacity ≤ a.allocated) (many : 2 ^ 15 < pagesNeeded (a.capacity * size))
    (data : ValueBytes size) :
    Yields (a.pushBackGrowing data) m
      (fun r _ => r.1 = none → r.2.memory.length < r.2.capacity * size) fun _ _ => True := by
  have next : addU32 a.allocated 1 = some (a.allocated + 1) := if_pos sound.next
  simp only [pushBackGrowing, next, orPanic_some, pure_bind]
  rw [if_pos (Nat.lt_succ_of_le full), yields_bind]
  refine (grow_short sound narrow many).mono ?_ fun _ _ _ => trivial
  rintro (e | b) m₁ short
  · intro taken
    cases taken
  · obtain ⟨short, same⟩ := short b rfl
    have small : b.allocated + 1 < 2 ^ 32 := same ▸ sound.next
    dsimp only
    rw [yields_bind]
    exact yields_of_ok (append_eq small) fun _ => short

end PagedArray

end EmkKernel
