import Mathlib.Logic.Function.Basic

/-!
# The page allocator

`utils::allocators::PageAllocator`: values in slots behind each other. A full one stays as
it is, and the index behind the last value passes the check of `as_ref`.
-/

namespace EmkKernel

structure PageAllocator (T : Type) where
  slots : Nat → T
  allocated : Nat
  capacity : Nat

namespace PageAllocator

variable {T : Type} (self : PageAllocator T)

def size : Nat := self.allocated

/-- `as_ref(index)`. -/
def asRef (index : Nat) : Option T :=
  if index > self.allocated then none else some (self.slots index)

/-- `*as_mut(index).unwrap() = data`. -/
def set (index : Nat) (data : T) : PageAllocator T :=
  { self with slots := Function.update self.slots index data }

/-- `push_back`, and whether there was room. -/
def pushBack (data : T) : Bool × PageAllocator T :=
  if self.allocated + 1 > self.capacity then (false, self)
  else (true, { self with
    slots := Function.update self.slots self.allocated data
    allocated := self.allocated + 1 })

/-- The allocator after a push for which there was room. -/
def pushed (data : T) : PageAllocator T :=
  { self with
    slots := Function.update self.slots self.allocated data
    allocated := self.allocated + 1 }

/-- The values, as `for_each` visits them. -/
def values : List T := (List.range self.allocated).map self.slots

variable {tables : PageAllocator T} {ts : List T}

/-- What was pushed, as far as there was room. -/
structure Tracks (tables : PageAllocator T) (ts : List T) : Prop where
  values : tables.values = ts.take tables.capacity
  allocated : tables.allocated = min ts.length tables.capacity

theorem pushBack_eq (room : tables.allocated < tables.capacity) (data : T) :
    tables.pushBack data = (true, tables.pushed data) := if_neg (Nat.not_lt.mpr room)

theorem slots_pushed (data : T) : (tables.pushed data).slots tables.allocated = data :=
  Function.update_self ..

theorem asRef_pushed (data : T) : (tables.pushed data).asRef tables.allocated = some data :=
  (if_neg (Nat.not_lt.mpr (Nat.le_succ _))).trans (congrArg some (slots_pushed data))

theorem set_pushed (data data' : T) :
    (tables.pushed data).set tables.allocated data' = tables.pushed data' := by
  rw [set, pushed, pushed, Function.update_idem]

@[simp] theorem capacity_pushBack (data : T) :
    (tables.pushBack data).2.capacity = tables.capacity := by
  rw [pushBack]
  split <;> rfl

theorem length_values : tables.values.length = tables.allocated := by
  rw [PageAllocator.values, List.length_map, List.length_range]

theorem values_pushBack (data : T) (room : tables.allocated < tables.capacity) :
    (tables.pushBack data).2.values = tables.values ++ [data] := by
  rw [PageAllocator.pushBack, if_neg (Nat.not_lt.mpr room), PageAllocator.values,
    PageAllocator.values]
  dsimp only
  rw [List.range_succ, List.map_append, List.map_singleton, Function.update_self]
  -- the slots before the new one stay
  refine congrArg (· ++ [data]) (List.map_congr_left fun i member => ?_)
  exact Function.update_of_ne (Nat.ne_of_lt (List.mem_range.mp member)) ..

theorem Tracks.pushBack (tracks : tables.Tracks ts) (data : T) :
    (tables.pushBack data).2.Tracks (ts ++ [data]) := by
  obtain ⟨values, allocated⟩ := tracks
  by_cases full : tables.allocated + 1 > tables.capacity
  · have long : tables.capacity ≤ ts.length := by omega
    simp only [PageAllocator.pushBack, if_pos full]
    constructor
    · rw [values, List.take_append_of_le_length long]
    · rw [List.length_append]
      omega
  · have room : tables.allocated < tables.capacity := Nat.not_lt.mp full
    have short : ts.length < tables.capacity := by omega
    have inside : (ts ++ [data]).length ≤ tables.capacity := by
      rw [List.length_append]
      exact short
    have pushed : (tables.pushBack data).2.values = ts ++ [data] := by
      rw [values_pushBack data room, values, List.take_of_length_le (Nat.le_of_lt short)]
    refine ⟨?_, ?_⟩
    · rw [pushed, capacity_pushBack, List.take_of_length_le inside]
    · rw [← length_values, pushed, capacity_pushBack, Nat.min_eq_left inside]

end PageAllocator

end EmkKernel
