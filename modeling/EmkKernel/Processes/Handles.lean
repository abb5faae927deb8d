import EmkKernel.Processes.Applications
import EmkKernel.Utils.PagedGrowth
import EmkKernel.Library.Requests

/-!
# Tables of handles

What one operation on the handles of an application does to its table, and that it leaves
every block that lies apart from it.
-/

namespace EmkKernel

open EStateM BitArray IoMachine

namespace PagedArray

variable {m m' : IoMachine} {mb block : MemoryBlock} {pages k : Nat}

/-- What preserves all that is in use leaves a block that is held. -/
theorem Held.leaves_of_preserves (held : Held m mb) (preserves : Preserves m m') :
    Leaves m mb m' where
  addend := preserves.addend
  inUse _ _ used := preserves.inUse _ used
  bytes _ less := preserves.bytes _ (held.inUse less)

/-- Pages that were free lie apart from a block that is held. -/
theorem Held.disjoint (held : Held m mb) (zeroed : Zeroed m pages k block m') :
    mb.Disjoint block := by
  intro x inside taken
  obtain ⟨i, rfl⟩ := Nat.exists_eq_add_of_le inside.1
  have less : i < mb.length := Nat.lt_of_add_lt_add_left inside.2
  have outside := outside_of_inUse (held.inUse less) zeroed.picks.clear
  rw [zeroed.block] at taken
  obtain ⟨low, high⟩ := taken
  simp only [MemoryBlock.endAddress, Allocator.blockAt] at low high
  omega

theorem held_of_zeroed (zeroed : Zeroed m pages k mb m') (small : pages < 2 ^ 16) : Held m' mb := by
  refine ⟨pages, k, small, ?_, fun j run => (zeroed.took.sets j).mpr (Or.inr run)⟩
  rw [zeroed.block, Allocator.blockAt, Allocator.blockAt, zeroed.took.addend]

theorem leaves_of_gave (memory : m'.memory = m.memory)
    (gave : m.allocator.Gave m'.allocator pages k)
    (apart : (m.allocator.blockAt pages k).Disjoint mb) : Leaves m mb m' where
  addend := gave.addend
  inUse i less used := by
    refine ⟨gave.addend.symm ▸ used.1, ?_⟩
    rw [gave.addend]
    refine (gave.clears _).mpr ⟨used.2, fun run => ?_⟩
    -- an address of such a page is in the block given back
    have above := used.1
    refine apart (mb.base + i) ⟨?_, ?_⟩ ⟨Nat.le_add_right _ _, Nat.add_lt_add_left less _⟩ <;>
      simp only [MemoryBlock.endAddress, Allocator.blockAt] <;> unfold InRun at run <;> omega
  bytes _ _ := by rw [memory]

private theorem leaves_of_memory {memory : Nat → Byte}
    (outside : ∀ i < mb.length, memory (mb.base + i) = m.memory (mb.base + i)) :
    Leaves m mb { m with memory } :=
  ⟨rfl, fun _ _ used => used, outside⟩

theorem Leaves.trans {m'' : IoMachine} (first : Leaves m mb m') (second : Leaves m' mb m'') :
    Leaves m mb m'' where
  addend := second.addend.trans first.addend
  inUse i less used := second.inUse i less (first.inUse i less used)
  bytes i less := (second.bytes i less).trans (first.bytes i less)

end PagedArray

open PagedArray

/-- A value stored as `u64` is read back. -/
theorem littleEndian_of_valueAt {memory : Nat → Byte} {address v : Nat}
    (stored : valueAt 8 memory address = qwordBytes v) (small : v < 2 ^ 64) :
    littleEndian memory address 8 = v := by
  rw [littleEndian_leBytes (v := v), Nat.mod_eq_of_lt small]
  intro k below
  rw [length_leBytes] at below
  rw [List.getElem?_eq_getElem (by rwa [length_leBytes])]
  exact congrArg some (congrFun stored ⟨k, below⟩).symm

namespace Application

variable {app : Application} {m m' : IoMachine} {handles : List (Nat × BitVec 32)}
  {mb : MemoryBlock}

/-- The application was spawned and not released. -/
def Opened (app : Application) : Prop := 0 < app.fsHandleBuffer.handles.length

instance (app : Application) : Decidable app.Opened := inferInstanceAs (Decidable (_ < _))

/-- The handle buffer as an array of quadwords. -/
def table (app : Application) : PagedArray :=
  ⟨app.fsHandleBuffer.memory, app.fsHandleBuffer.handles.ptr, app.fsHandleBuffer.current,
    app.fsHandleBuffer.handles.length⟩

/-- The table holds the file of each handle that was given, in a block of its own. -/
structure Keeps (app : Application) (m : IoMachine) (handles : List (Nat × BitVec 32)) : Prop where
  sound : Sound app.table m (handles.map fun e => qwordBytes e.2.toNat)
  whole : app.fsHandleBuffer.memory.length = 8 * app.fsHandleBuffer.handles.length
  numbered : handles.map Prod.fst = (List.range handles.length).map (· + fixedFsHandleBase)

theorem Keeps.held (keeps : app.Keeps m handles) (opened : app.Opened) :
    Held m app.fsHandleBuffer.memory := by
  refine keeps.sound.held ?_
  have whole := keeps.whole
  unfold Opened at opened
  change 0 < app.fsHandleBuffer.memory.length
  omega

theorem Keeps.leaves (keeps : app.Keeps m handles)
    (leaves : Leaves m app.fsHandleBuffer.memory m') : app.Keeps m' handles :=
  ⟨keeps.sound.leaves leaves, keeps.whole, keeps.numbered⟩

theorem Keeps.current (keeps : app.Keeps m handles) :
    app.fsHandleBuffer.current = handles.length := by
  have count := keeps.sound.count
  rwa [List.length_map] at count

/-- The application that `spawn` returns. -/
def spawned (app : Application) (fi : Key) (mb : MemoryBlock) : Application :=
  { app with executionFi := fi, fsHandleBuffer := .over mb 0 }

/-- A table is given a page that was free, or nothing happens. -/
theorem spawn_yields (app : Application) (fi : Key) (m : IoMachine) :
    Yields (app.spawn fi) m
      (fun r m' => r = (false, app) ∧ m' = m ∨
        ∃ mb k, r = (true, app.spawned fi mb) ∧ Zeroed m 1 k mb m')
      fun _ _ => True := by
  rw [spawn, yields_bind]
  refine (IoMachine.allocZero_yields (by decide)).mono ?_ fun _ _ _ => trivial
  rintro _ m₁ (⟨e, rfl, rfl⟩ | ⟨mb, k, rfl, zeroed⟩)
  · exact Or.inl ⟨rfl, rfl⟩
  · exact Or.inr ⟨mb, k, rfl, zeroed⟩

/-- The table of an application just spawned is empty. -/
theorem keeps_spawned {k : Nat} (fi : Key) (zeroed : Zeroed m 1 k mb m') :
    (app.spawned fi mb).Keeps m' [] := by
  have length : mb.length = 0x1000 := by rw [zeroed.block, Allocator.blockAt]
  refine ⟨⟨rfl, Nat.zero_le _, ?_, rfl, fun _ => by decide, fun _ => ?_⟩, ?_, rfl⟩
  · exact Nat.div_mul_le_self _ _
  · exact held_of_zeroed zeroed (by decide)
  · change mb.length = 8 * (mb.length / 8)
    omega

/-- The application after a handle was given. -/
def pushed (app : Application) : Application :=
  { app with fsHandleBuffer :=
      { app.fsHandleBuffer with current := app.fsHandleBuffer.current + 1 } }

/-- The machine after a handle was given. -/
def stored (app : Application) (m : IoMachine) (ftabIndex : BitVec 32) : IoMachine :=
  { m with
    memory := storeValue m.memory (app.table.address 8 app.table.allocated)
      (qwordBytes ftabIndex.toNat) }

/-- `allocate_handle` never panics: a full table gives no handle, and one with room the next. -/
theorem Keeps.allocateHandle (keeps : app.Keeps m handles) (ftabIndex : BitVec 32) :
    (handles.length = app.fsHandleBuffer.handles.length ∧
      app.allocateHandle ftabIndex m = .ok (none, app) m) ∨
    (handles.length < app.fsHandleBuffer.handles.length ∧ app.allocateHandle ftabIndex m =
      .ok (some (handles.length + app.fsHandleBase), app.pushed) (app.stored m ftabIndex)) := by
  have current := keeps.current
  have filled := keeps.sound.filled
  have bound := keeps.sound.bound
  change app.fsHandleBuffer.current ≤ app.fsHandleBuffer.handles.length at filled
  change app.fsHandleBuffer.handles.length < 2 ^ 28 at bound
  have next : addU32 app.fsHandleBuffer.current 1 = some (app.fsHandleBuffer.current + 1) :=
    if_pos (by omega)
  simp only [Application.allocateHandle, next, orPanic_some, pure_bind]
  rw [Nat.mod_eq_of_lt (by omega)]
  by_cases full : app.fsHandleBuffer.current + 1 > app.fsHandleBuffer.handles.length
  · rw [if_pos full]
    exact Or.inl ⟨by omega, rfl⟩
  · rw [if_neg full, if_pos (by omega), ← current]
    exact Or.inr ⟨by omega, rfl⟩

/-- A table that was given back is full. -/
theorem allocateHandle_unopened (unopened : ¬app.Opened) (ftabIndex : BitVec 32) (m : IoMachine) :
    Yields (app.allocateHandle ftabIndex) m (fun r m' => r = (none, app) ∧ m' = m)
      fun _ _ => True := by
  have none : app.fsHandleBuffer.handles.length = 0 := Nat.eq_zero_of_not_pos unopened
  simp only [Application.allocateHandle, yields_bind]
  refine (orPanic_yields _).mono ?_ fun _ _ _ => trivial
  rintro next m₀ ⟨same, sum⟩
  subst m₀
  obtain rfl := Option.some.inj (Option.ite_none_right_eq_some.mp sum).2
  rw [none, if_pos (by omega)]
  exact ⟨rfl, rfl⟩

theorem Keeps.push (keeps : app.Keeps m handles) (base : app.fsHandleBase = fixedFsHandleBase)
    (room : handles.length < app.fsHandleBuffer.handles.length) (ftabIndex : BitVec 32) :
    app.pushed.Keeps (app.stored m ftabIndex)
      (handles ++ [(handles.length + app.fsHandleBase, ftabIndex)]) := by
  have space : app.table.allocated < app.table.capacity := keeps.current.trans_lt room
  refine ⟨?_, keeps.whole, ?_⟩
  · rw [List.map_append]
    exact keeps.sound.append space (qwordBytes ftabIndex.toNat)
  · rw [List.map_append, keeps.numbered, List.length_append, List.length_singleton,
      List.range_succ, List.map_append, base]
    rfl

/-- A handle is written to the block of its application. -/
theorem Keeps.push_leaves (keeps : app.Keeps m handles)
    (room : handles.length < app.fsHandleBuffer.handles.length)
    (apart : app.fsHandleBuffer.memory.Disjoint mb) (ftabIndex : BitVec 32) :
    Leaves m mb (app.stored m ftabIndex) := by
  refine leaves_of_memory fun i less => storeValue_outside ?_
  have current := keeps.current
  have whole := keeps.whole
  have ptr : app.table.ptr = app.fsHandleBuffer.memory.base := keeps.sound.ptr
  have outside := fun inside => apart (mb.base + i) inside
    ⟨Nat.le_add_right _ _, Nat.add_lt_add_left less _⟩
  by_contra within
  refine outside ⟨?_, ?_⟩ <;>
    simp only [PagedArray.address, ptr, MemoryBlock.endAddress] at within ⊢ <;>
    change ¬(_ ∨ _ + 8 * app.fsHandleBuffer.current + 8 ≤ _) at within <;> omega

/-- The application after its handles were moved to a block. -/
def moved (app : Application) (mb : MemoryBlock) : Application :=
  { app with fsHandleBuffer := .over mb app.fsHandleBuffer.current }

/-- The table is moved to twice the pages, or there is a panic. -/
theorem Keeps.reallocateHandles (keeps : app.Keeps m handles) (opened : app.Opened) :
    Yields app.reallocateHandles m
      (fun app' m' => ∃ block, app' = app.moved block ∧ app'.Keeps m' handles ∧
        app'.fsHandleBuffer.handles.length = 2 * app.fsHandleBuffer.handles.length ∧
        ∀ mb, Held m mb → app.fsHandleBuffer.memory.Disjoint mb →
          Leaves m mb m' ∧ block.Disjoint mb)
      fun _ _ => True := by
  have held := keeps.held opened
  have whole := keeps.whole
  have bound := keeps.sound.bound
  change app.fsHandleBuffer.handles.length < 2 ^ 28 at bound
  obtain ⟨p, k', small, block, taken⟩ := id held
  have length : app.fsHandleBuffer.memory.length = p * 0x1000 := by rw [block, Allocator.blockAt]
  unfold Opened at opened
  rw [Application.reallocateHandles, yields_bind]
  refine (orPanic_yields _).mono ?_ fun _ _ _ => trivial
  rintro pages m₀ ⟨same, doubled⟩
  subst m₀
  obtain ⟨few, rfl⟩ : p * 2 < 2 ^ 16 ∧ p * 2 = pages := by
    have counted : app.fsHandleBuffer.memory.length / 0x1000 % 2 ^ 16 * 2 = p * 2 := by
      rw [length]
      omega
    rw [doubledPages, counted] at doubled
    obtain ⟨few, same⟩ := Option.ite_none_right_eq_some.mp doubled
    exact ⟨few, Option.some.inj same⟩
  rw [yields_bind]
  refine (IoMachine.allocZero_yields few).mono ?_ fun _ _ _ => trivial
  rintro _ m₁ (⟨e, rfl, rfl⟩ | ⟨mb, k, rfl, zeroed⟩)
  · trivial
  have lengthNew : mb.length = p * 2 * 0x1000 := by rw [zeroed.block, Allocator.blockAt]
  have apart := held.apart zeroed (show app.fsHandleBuffer.memory.length ≤ mb.length by omega)
  have copied : copyQwords m₁.memory mb.base app.fsHandleBuffer.memory.base
      (app.fsHandleBuffer.handles.length % 2 ^ 32) =
      copyInto m₁.memory mb.base app.fsHandleBuffer.memory.length fun i =>
        m₁.memory (app.fsHandleBuffer.memory.base + i) := by
    rw [Nat.mod_eq_of_lt (by omega), copyQwords_eq (by omega), whole]
  let copy : IoMachine := { m₁ with
    memory := copyInto m₁.memory mb.base app.fsHandleBuffer.memory.length fun i =>
      m₁.memory (app.fsHandleBuffer.memory.base + i) }
  have preserves : Preserves m copy := preserves_copy zeroed (by omega)
  have old : app.fsHandleBuffer.memory = m₁.allocator.blockAt p k' := by
    rw [block, Allocator.blockAt, Allocator.blockAt, zeroed.took.addend]
  have freed := IoMachine.free_yields (m := copy) fun j run =>
    (zeroed.took.sets j).mpr (Or.inl (taken j run))
  rw [← old] at freed
  simp only [yields_bind, yields_modify, copied]
  refine freed.mono ?_ fun _ _ _ => trivial
  rintro _ m₂ (⟨e, rfl, rfl⟩ | ⟨rfl, memory, gave⟩)
  · trivial
  have needed : pagesNeeded (app.table.capacity * 8) = p := by
    have bytes : app.table.capacity * 8 = p * 0x1000 := by
      rw [Nat.mul_comm, ← length, whole]
      rfl
    rw [bytes]
    unfold pagesNeeded
    rw [if_neg (by omega)]
    omega
  have sound := keeps.sound.grown opened zeroed (by rw [needed]) few memory
    (gave.addend.trans zeroed.took.addend) fun j run => by
      refine (gave.clears j).mpr ⟨(zeroed.took.sets j).mpr (Or.inr run), fun before => ?_⟩
      -- the pages given back were in use before the new ones were taken
      have set := taken j before
      rw [zeroed.picks.clear j run] at set
      cases set
  have doubledLength : mb.length / 8 = app.fsHandleBuffer.handles.length * 2 := by omega
  refine ⟨mb, rfl, ⟨?_, ?_, keeps.numbered⟩, ?_, fun other heldOther disjoint => ⟨?_, ?_⟩⟩
  · have same : (app.moved mb).table = app.table.grown mb := by
      simp only [Application.table, moved, HandleBuffer.over, PagedArray.grown, doubledLength]
    change Sound (app.moved mb).table m₂ _
    rw [same]
    exact sound
  · change mb.length = 8 * (mb.length / 8)
    omega
  · change mb.length / 8 = _
    omega
  · refine (heldOther.leaves_of_preserves preserves).trans (leaves_of_gave memory gave ?_)
    rw [old] at disjoint
    exact disjoint
  · intro x inside taken
    exact heldOther.disjoint zeroed x taken inside

/-- The application after its handles were given back. -/
def closed (app : Application) : Application :=
  { app with fsHandleBuffer := { app.fsHandleBuffer with handles := .invalid } }

theorem release_yields (held : Held m app.fsHandleBuffer.memory) :
    Yields app.release m
      (fun r m' => r = (false, app) ∧ m' = m ∨ r = (true, app.closed) ∧
        ∀ mb, app.fsHandleBuffer.memory.Disjoint mb → Leaves m mb m')
      fun _ _ => True := by
  obtain ⟨p, k, _, block, taken⟩ := held
  have freed := IoMachine.free_yields (m := m) taken
  rw [← block] at freed
  rw [release, yields_bind]
  refine freed.mono ?_ fun _ _ _ => trivial
  rintro _ m₁ (⟨e, rfl, rfl⟩ | ⟨rfl, memory, gave⟩)
  · exact Or.inl ⟨rfl, rfl⟩
  · exact Or.inr ⟨rfl, fun mb apart => leaves_of_gave memory gave (block ▸ apart)⟩

theorem not_opened_closed : ¬app.closed.Opened := Nat.lt_irrefl 0

end Application

end EmkKernel
