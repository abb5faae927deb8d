import EmkKernel.Drivers.Disk
import EmkKernel.Memory.Alloc
import EmkKernel.Memory.Bytes

/-!
# What buffers and disks yield

The specifications of the operations on buffers: a new buffer has the pages that its size
leaves in `u16`, and reading one from a disk changes memory alone.
-/

namespace EmkKernel

open EStateM BitArray

variable {m m' : IoMachine}

@[simp] theorem orPanic_some {α : Type} (a : α) : orPanic (some a) = pure a := rfl

@[simp] theorem orPanic_none {α : Type} : (orPanic none : IoM α) = throw .panic := rfl

theorem orPanic_yields {α : Type} (o : Option α) :
    Yields (orPanic o) m (fun a m' => m' = m ∧ o = some a) fun _ _ => True := by
  cases o with
  | some a => exact ⟨rfl, rfl⟩
  | none => trivial

theorem bind_of_ok {α β : Type} {x : IoM α} {f : α → IoM β} {a : α} (ran : x m = .ok a m') :
    (x >>= f) m = f a m' := by
  simp only [bind, EStateM.bind, ran]

theorem of_bind_ok {α β : Type} {x : IoM α} {f : α → IoM β} {b : β}
    (ran : (x >>= f) m = .ok b m₁) : ∃ a m', x m = .ok a m' ∧ f a m' = .ok b m₁ := by
  simp only [bind, EStateM.bind] at ran
  split at ran
  next a m' first => exact ⟨a, m', first, ran⟩
  next => cases ran

/-- Reading a buffer changes memory alone. -/
theorem readIntoBuffer_yields {disk : Disk} {scheduler : Nat} (lba : Nat) (buffer : Buffer) :
    Yields (disk.readIntoBuffer lba buffer scheduler) m (fun _ m' => m'.allocator = m.allocator)
      fun _ _ => True := by
  unfold Disk.readIntoBuffer
  rw [yields_ite]
  split
  · rfl
  · rw [yields_ite]
    split
    · rfl
    · rw [yields_bind]
      refine (orPanic_yields _).mono ?_ fun _ _ _ => trivial
      rintro upper m₁ ⟨rfl, _⟩
      rw [yields_ite]
      split
      · rfl
      · exact rfl

/-! ### What is read from memory -/

theorem copyInto_inside {memory : Nat → Byte} {address n i : Nat} {source : Nat → Byte}
    (inside : i < n) : copyInto memory address n source (address + i) = source i := by
  unfold copyInto
  rw [if_pos (by omega), Nat.add_sub_cancel_left]

theorem copyInto_outside {memory : Nat → Byte} {address n a : Nat} {source : Nat → Byte}
    (outside : a < address ∨ address + n ≤ a) : copyInto memory address n source a = memory a :=
  if_neg (by omega)

/-- A number in the bytes that were copied. -/
theorem littleEndian_copyInto {memory : Nat → Byte} {address n offset width : Nat}
    {source : Nat → Byte} (inside : offset + width ≤ n) :
    littleEndian (copyInto memory address n source) (address + offset) width =
      littleEndian source offset width := by
  refine littleEndian_congr fun i less => ?_
  rw [Nat.add_assoc]
  exact copyInto_inside (by omega)

/-! ### Buffers and the pages under them -/

/-- The allocator can hand out that many pages. -/
def Allocator.Room (a : Allocator) (pages : Nat) : Prop :=
  ∃ mb a', (a.alloc pages).value = (.ok mb, a')

theorem Allocator.room_of_ok {a : Allocator} {pages : Nat} {mb : MemoryBlock}
    (handed : (a.alloc pages).value.1 = .ok mb) : a.Room pages :=
  ⟨mb, (a.alloc pages).value.2, Prod.ext handed rfl⟩

/-- The address lies in a page that is in use. -/
def Allocator.InUse (a : Allocator) (address : Nat) : Prop :=
  a.addend ≤ address ∧ bit a.bitmap ((address - a.addend) / 0x1000) = true

instance (a : Allocator) (address : Nat) : Decidable (a.InUse address) :=
  inferInstanceAs (Decidable (_ ∧ _))

/-- The pages under the bytes were free before and are in use after. -/
def Backed (a a' : Allocator) (address n : Nat) : Prop :=
  a.addend ≤ address ∧ ∀ i < n, bit a.bitmap ((address + i - a.addend) / 0x1000) = false ∧
    bit a'.bitmap ((address + i - a.addend) / 0x1000) = true

theorem page_in_block (addend k i : Nat) :
    (addend + k * 0x1000 + i - addend) / 0x1000 = k + i / 0x1000 := by
  omega

theorem backed_of_took {a a' : Allocator} {pages k n : Nat}
    (sets : SetsExactly a.bitmap a'.bitmap (InRun k pages))
    (clear : Clear a.bitmap k pages) (bound : n ≤ pages * 0x1000) :
    Backed a a' (a.addend + k * 0x1000) n := by
  refine ⟨Nat.le_add_right _ _, fun i less => ?_⟩
  have run : InRun k pages (k + i / 0x1000) := ⟨by omega, by omega⟩
  rw [page_in_block]
  exact ⟨clear _ run, (sets _).mpr (Or.inr run)⟩

/-- The pages that were taken are all that is behind a block. -/
theorem le_of_backed {a a' : Allocator} {pages k n : Nat}
    (sets : SetsExactly a.bitmap a'.bitmap (InRun k pages))
    (backed : Backed a a' (a.addend + k * 0x1000) n) : n ≤ pages * 0x1000 := by
  by_contra more
  obtain ⟨before, after⟩ := backed.2 (pages * 0x1000) (Nat.lt_of_not_le more)
  rw [page_in_block, Nat.mul_div_cancel _ (by decide)] at before after
  rcases (sets _).mp after with old | run
  · rw [old] at before
    cases before
  · exact absurd run.2 (Nat.lt_irrefl _)

namespace Buffer

/-- The pages of a size. -/
def pages (size : Nat) : Nat := roundToPages size / 0x1000

theorem le_pages (size : Nat) : size ≤ pages size * 0x1000 := by
  unfold pages roundToPages
  split <;> omega

theorem pages_le (size : Nat) : pages size * 0x1000 < size + 0x1000 := by
  unfold pages roundToPages
  split <;> omega

theorem roundToPages_eq (size : Nat) : roundToPages size = pages size * 0x1000 := by
  unfold pages roundToPages
  split <;> omega

/-- A new buffer has the pages that are counted in `u16`. -/
theorem new_yields (readonly : Bool) (size : Nat) :
    Yields (new readonly size) m
      (fun b m' => m'.memory = m.memory ∧ ∃ k, 0 < pages size % 2 ^ 16 ∧
        m.allocator.Picks (pages size % 2 ^ 16) k ∧
        m.allocator.Took m'.allocator (pages size % 2 ^ 16) k ∧
        b = ⟨m.allocator.addend + k * 0x1000, pages size * 0x1000, size, readonly⟩)
      fun _ _ => ¬m.allocator.Room (pages size % 2 ^ 16) := by
  unfold new
  rw [yields_bind, yields_get, roundToPages_eq, Nat.mul_div_cancel _ (by decide)]
  split
  next mb a allocated =>
    obtain ⟨positive, k, picks, took, rfl, _⟩ := Allocator.alloc_ok _ allocated
    exact ⟨rfl, k, positive, picks, took, rfl⟩
  next failed =>
    rintro ⟨mb, a, allocated⟩
    rw [allocated] at failed
    cases failed

end Buffer

/-! ### Requests that are served -/

/-- The requests are served one after the other, whether a block that was handed out is kept
or given back before the next one. -/
def Allocator.Serves : List Nat → Allocator → Prop
  | [], _ => True
  | pages :: rest, a => 0 < pages → ∃ mb a' a'', (a.alloc pages).value = (.ok mb, a') ∧
      (a'.free mb).value = (.ok (), a'') ∧ Serves rest a' ∧ Serves rest a''

/-- Whether requests are served, computed. -/
def Allocator.servesAll : List Nat → Allocator → Bool
  | [], _ => true
  | pages :: rest, a =>
    match (a.alloc pages).value with
    | (.ok mb, a') =>
      match (a'.free mb).value with
      | (.ok _, a'') => servesAll rest a' && servesAll rest a''
      | (.error _, _) => false
    | (.error _, _) => pages = 0

theorem Allocator.serves_of_servesAll {a : Allocator} {requests : List Nat}
    (computed : a.servesAll requests = true) : a.Serves requests := by
  induction requests generalizing a with
  | nil => trivial
  | cons pages rest ih =>
    intro positive
    unfold servesAll at computed
    split at computed
    next mb a' allocated =>
      split at computed
      next a'' freed =>
        rw [Bool.and_eq_true] at computed
        exact ⟨mb, a', a'', allocated, freed, ih computed.1, ih computed.2⟩
      next => cases computed
    next => exact absurd (of_decide_eq_true computed) positive.ne'

/-- A new buffer whose pages were free, and its release at any later time. -/
structure Lent (m : IoMachine) (size : Nat) (rest : List Nat) (k : Nat) (b : Buffer)
    (a' a'' : Allocator) : Prop where
  made : Buffer.new false size m = .ok b ⟨m.memory, a'⟩
  buffer : b = ⟨m.allocator.addend + k * 0x1000, Buffer.pages size * 0x1000, size, false⟩
  clear : Clear m.allocator.bitmap k (Buffer.pages size)
  took : m.allocator.Took a' (Buffer.pages size) k
  gave : a'.Gave a'' (Buffer.pages size) k
  released : ∀ memory, b.release ⟨memory, a'⟩ = .ok () ⟨memory, a''⟩
  kept : a'.Serves rest
  back : a''.Serves rest

theorem Allocator.Serves.lends {size : Nat} {rest : List Nat}
    (serves : m.allocator.Serves (Buffer.pages size % 2 ^ 16 :: rest)) (positive : 0 < size)
    (small : Buffer.pages size < 2 ^ 16) : ∃ k b a' a'', Lent m size rest k b a' a'' := by
  have some : 0 < Buffer.pages size := by
    have covered := Buffer.le_pages size
    omega
  rw [Nat.mod_eq_of_lt small] at serves
  obtain ⟨mb, a', a'', allocated, freed, kept, back⟩ := serves some
  obtain ⟨_, k, picks, took, rfl, _⟩ := Allocator.alloc_ok _ allocated
  have block : (⟨m.allocator.addend + k * 0x1000, Buffer.pages size * 0x1000⟩ : MemoryBlock) =
      a'.blockAt (Buffer.pages size) k := by rw [Allocator.blockAt, took.addend]
  have gave : a'.Gave a'' (Buffer.pages size) k := by
    rw [block] at freed
    by_cases freeable : a'.Freeable (Buffer.pages size) k
    · obtain ⟨given, value, gave⟩ := a'.free_granted freeable fun j run =>
        (took.sets j).mpr (Or.inr run)
      rw [value] at freed
      cases freed
      exact gave
    · obtain ⟨stop, value⟩ := a'.free_refused freeable
      rw [value] at freed
      cases freed
  refine ⟨k, _, a', a'', ?_, rfl, picks.clear, took, gave, ?_, kept, back⟩
  · unfold Buffer.new
    rw [Buffer.roundToPages_eq, Nat.mul_div_cancel _ (by decide), Nat.mod_eq_of_lt small,
      get_bind_run, allocated]
    rfl
  · intro memory
    unfold Buffer.release
    rw [get_bind_run]
    dsimp only
    rw [freed]
    rfl

/-- The virtual addresses have that many pages left, with physical ones behind them. -/
def VirtualAllocator.Room (va : VirtualAllocator) (pages : Nat) : Prop :=
  ∃ mb a', (va.allocator.alloc pages).value = (.ok mb, a') ∧
    mb.base - va.allocator.addend + mb.length ≤ va.physical.length

theorem VirtualAllocator.room_of_ok {va : VirtualAllocator} {pages : Nat} {mb : MemoryBlock}
    (handed : (va.allocator.alloc pages).value.1 = .ok mb)
    (inside : mb.base - va.allocator.addend + mb.length ≤ va.physical.length) : va.Room pages :=
  ⟨mb, (va.allocator.alloc pages).value.2, Prod.ext handed rfl, inside⟩

/-- The block behind the virtual addresses belongs to them. -/
structure VirtualAllocator.Owned (va : VirtualAllocator) (a : Allocator) : Prop where
  nonzero : 0 < va.allocator.addend
  inside : va.physical.base + va.physical.length ≤ 2 ^ 64
  inUse : ∀ i < va.physical.length, a.InUse (va.physical.base + i)

/-- The byte at a virtual address. -/
def VirtualAllocator.readAt (va : VirtualAllocator) (memory : Nat → Byte) (address : Nat) : Byte :=
  memory (va.physical.base + (address - va.allocator.addend))

theorem newPhysicalVirtual_yields (va : VirtualAllocator) (owned : va.Owned m.allocator)
    (readonly : Bool) (size : Nat) :
    Yields (Buffer.newPhysicalVirtual va readonly size) m
      (fun r m' => m' = m ∧ ∃ k, 0 < Buffer.pages size % 2 ^ 16 ∧
        va.allocator.Picks (Buffer.pages size % 2 ^ 16) k ∧
        va.allocator.Took r.2.allocator (Buffer.pages size % 2 ^ 16) k ∧
        r.2.physical = va.physical ∧
        r.1.1 = ⟨va.physical.base + k * 0x1000, Buffer.pages size * 0x1000, size, readonly⟩ ∧
        r.1.2 = ⟨va.allocator.addend + k * 0x1000, Buffer.pages size % 2 ^ 16 * 0x1000⟩)
      fun _ _ => ¬va.Room (Buffer.pages size % 2 ^ 16) := by
  unfold Buffer.newPhysicalVirtual
  dsimp only
  rw [Buffer.roundToPages_eq, Nat.mul_div_cancel _ (by decide)]
  split
  next mb a allocated =>
    obtain ⟨positive, k, picks, took, rfl, _⟩ := Allocator.alloc_ok _ allocated
    rw [yields_ite]
    split
    · refine ⟨rfl, k, positive, picks, took, rfl, ?_, rfl⟩
      simp only [Nat.add_sub_cancel_left]
    next outside =>
      rintro ⟨mb, a, allocated', inside⟩
      rw [allocated, Prod.mk.injEq, Except.ok.injEq] at allocated'
      obtain ⟨rfl, rfl⟩ := allocated'
      have limit := owned.inside
      dsimp only at inside outside
      omega
  next failed =>
    rintro ⟨mb, a, allocated, _⟩
    rw [allocated] at failed
    cases failed

end EmkKernel
