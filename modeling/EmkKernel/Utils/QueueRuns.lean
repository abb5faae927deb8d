import EmkKernel.Utils.Queue

/-!
# Runs of the queue

The indices of the queue add `1 % capacity` where they should be taken modulo the
capacity, so they never wrap: the queue is first-in first-out for its first lap only.
A queue of one slot adds zero and stays at it.
-/

namespace EmkKernel

open Fifo

variable {α : Type}

namespace Queue

/-- Where the indices are after a number of values. -/
def position (capacity n : Nat) : Nat := n * (1 % capacity)

private theorem position_succ (capacity n : Nat) :
    position capacity (n + 1) = position capacity n + 1 % capacity := by
  rw [position, position, Nat.succ_mul]

@[simp] theorem position_one (n : Nat) : position 1 n = 0 := by
  rw [position, Nat.mod_self, Nat.mul_zero]

private theorem position_of_ne {capacity : Nat} (wide : capacity ≠ 1) (n : Nat) :
    position capacity n = n := by
  have step : 1 % capacity = 1 := by
    rcases Nat.lt_or_ge 1 capacity with more | less
    · exact Nat.mod_eq_of_lt more
    · obtain rfl : capacity = 0 := by omega
      exact Nat.mod_zero 1
  rw [position, step, Nat.mul_one]

/-- One lap is enough for the values. -/
def Room (capacity puts : Nat) : Prop := capacity = 1 ∨ puts ≤ capacity

/-- The queue stands for the list after it was given and has returned some values. -/
structure Tracks (q : Queue α) (puts takes : Nat) (l : List α) : Prop where
  currentEnqueue : q.currentEnqueue = position q.capacity puts
  currentDequeue : q.currentDequeue = position q.capacity takes
  inserted : q.inserted = l.length
  puts_eq : puts = takes + l.length
  holds : Holds (position q.capacity) q.slots takes l
  bound : l.length ≤ q.capacity
  small : q.capacity < 2 ^ 16

/-- The queue does what the list does, in slots of its own memory. -/
structure FirstInFirstOut (q : Queue α) (size : Nat) (requests : List (Fifo.Request α))
    (returned left : List α) : Prop where
  answers : ∃ q', (q.run requests).value = some (returned, q') ∧ q'.numOccupied = left.length
  slots : ∀ slot ∈ (q.run requests).touched,
    slot < q.capacity ∧ (slot + 1) * size ≤ q.base.length

variable {q : Queue α} {puts takes : Nat} {l : List α} {val : α}

/-! ### One request -/

private theorem advance_position {capacity n : Nat} (positive : 0 < capacity)
    (small : capacity < 2 ^ 16) (room : Room capacity (n + 1)) :
    advance (position capacity n) capacity = some (position capacity (n + 1)) := by
  have below : position capacity (n + 1) < 2 ^ 16 := by
    rcases room with rfl | inside
    · rw [position_one]
      decide
    · by_cases wide : capacity = 1
      · subst wide
        rw [position_one]
        decide
      · rw [position_of_ne wide]
        omega
  rw [position_succ] at below ⊢
  rw [advance, if_neg]
  omega

private theorem position_lt {capacity n : Nat} (positive : 0 < capacity)
    (room : Room capacity (n + 1)) :
    position capacity n < capacity := by
  by_cases wide : capacity = 1
  · subst wide
    rw [position_one]
    exact Nat.zero_lt_one
  · rw [position_of_ne wide]
    exact room.resolve_left wide

theorem Tracks.enqueue (tracks : q.Tracks puts takes l) (free : l.length < q.capacity)
    (room : Room q.capacity (puts + 1)) :
    ∃ q', (q.enqueue val).value = some q' ∧ q'.capacity = q.capacity ∧
      q'.Tracks (puts + 1) takes (l ++ [val]) := by
  have small := tracks.small
  have counted : ¬2 ^ 16 ≤ q.inserted + 1 := by
    rw [tracks.inserted]
    omega
  have advanced := advance_position (Nat.zero_lt_of_lt free) small room
  refine ⟨{ q with
    inserted := q.inserted + 1
    slots := Function.update q.slots q.currentEnqueue val
    currentEnqueue := position q.capacity (puts + 1) }, ?_, rfl, rfl, tracks.currentDequeue, ?_, ?_,
    ?_, ?_, small⟩
  · rw [Queue.enqueue, if_neg counted]
    simp only [Traced.value_bind, Traced.value_pure, setAtEnqueue]
    rw [tracks.currentEnqueue, advanced]
    rfl
  · rw [List.length_append, List.length_singleton, tracks.inserted]
  · rw [List.length_append, List.length_singleton, tracks.puts_eq]
    rfl
  · change Holds _ (Function.update q.slots q.currentEnqueue val) takes (l ++ [val])
    rw [tracks.currentEnqueue, tracks.puts_eq]
    refine tracks.holds.append fun i inside => ?_
    -- a queue of one slot is empty here
    by_cases wide : q.capacity = 1
    · omega
    · rw [position_of_ne wide, position_of_ne wide]
      omega
  · rw [List.length_append, List.length_singleton]
    exact free

/-- The queue after a value was taken from it. -/
def taken (q : Queue α) (takes : Nat) : Queue α :=
  { q with inserted := q.inserted - 1, currentDequeue := position q.capacity (takes + 1) }

theorem Tracks.positive (tracks : q.Tracks puts takes (val :: l)) : 0 < q.capacity :=
  Nat.lt_of_lt_of_le (Nat.zero_lt_succ _) tracks.bound

private theorem Tracks.advance_dequeue (tracks : q.Tracks puts takes (val :: l))
    (room : Room q.capacity puts) :
    q.inserted ≠ 0 ∧ advance q.currentDequeue q.capacity =
      some (position q.capacity (takes + 1)) := by
  have counted := tracks.puts_eq
  rw [List.length_cons] at counted
  refine ⟨by rw [tracks.inserted, List.length_cons]; exact Nat.succ_ne_zero _, ?_⟩
  rw [tracks.currentDequeue]
  exact advance_position tracks.positive tracks.small (room.imp_right (by omega))

theorem Tracks.taken (tracks : q.Tracks puts takes (val :: l)) :
    (q.taken takes).Tracks puts (takes + 1) l := by
  refine ⟨tracks.currentEnqueue, rfl, ?_, ?_, tracks.holds.tail,
    Nat.le_of_succ_le tracks.bound, tracks.small⟩
  · change q.inserted - 1 = l.length
    rw [tracks.inserted, List.length_cons, Nat.add_sub_cancel]
  · rw [tracks.puts_eq, List.length_cons]
    omega

theorem Tracks.dequeue (tracks : q.Tracks puts takes (val :: l))
    (room : Room q.capacity puts) :
    (q.dequeue).value = some (val, q.taken takes) := by
  obtain ⟨some, advanced⟩ := tracks.advance_dequeue room
  rw [Queue.dequeue, if_neg some]
  simp only [Traced.value_bind, Traced.value_pure, getAtDequeue]
  rw [advanced, tracks.currentDequeue, tracks.holds.head]
  rfl

theorem Tracks.dequeueSilent (tracks : q.Tracks puts takes (val :: l))
    (room : Room q.capacity puts) :
    q.dequeueSilent = some (q.taken takes) := by
  obtain ⟨some, advanced⟩ := tracks.advance_dequeue room
  rw [Queue.dequeueSilent, if_neg some, advanced]
  rfl

/-! ### The requests of a run -/

private theorem run_enqueue {q' : Queue α} {rest : List (Fifo.Request α)}
    (served : (q.enqueue val).value = some q') :
    q.run (.enqueue val :: rest) =
      ⟨(q'.run rest).value, (q.enqueue val).touched ++ (q'.run rest).touched⟩ := by
  simp only [run, bind, served]

private theorem run_dequeue {q' : Queue α} {rest : List (Fifo.Request α)}
    (served : q.dequeue.value = some (val, q')) :
    q.run (.dequeue :: rest) =
      ⟨(q'.run rest).value.map fun d => (val :: d.1, d.2),
        q.dequeue.touched ++ (q'.run rest).touched⟩ := by
  simp only [run, bind, served, pure, List.append_nil]

private theorem run_dequeueSilent {q' : Queue α} {rest : List (Fifo.Request α)}
    (served : q.dequeueSilent = some q') :
    q.run (.dequeueSilent :: rest) = q'.run rest := by
  simp only [run, served]

private theorem Tracks.touched_enqueue (tracks : q.Tracks puts takes l)
    (free : l.length < q.capacity) :
    (q.enqueue val).touched = [position q.capacity puts] := by
  have small := tracks.small
  have counted : ¬2 ^ 16 ≤ q.inserted + 1 := by
    rw [tracks.inserted]
    omega
  rw [Queue.enqueue, if_neg counted, ← tracks.currentEnqueue]
  rfl

private theorem touched_dequeue (some : q.inserted ≠ 0) :
    q.dequeue.touched = [q.currentDequeue] := by
  rw [Queue.dequeue, if_neg some]
  rfl

variable {capacity : Nat} {requests : List (Fifo.Request α)} {returned left : List α}

/-- As long as there is room, the queue serves what the list serves. -/
theorem Tracks.run (served : Serves capacity l requests returned left)
    (tracks : q.Tracks puts takes l) (same : q.capacity = capacity)
    (room : Room capacity (puts + enqueues requests)) :
    (∃ q', (q.run requests).value = some (returned, q') ∧ q'.numOccupied = left.length) ∧
      (q.run requests).Within capacity := by
  induction served generalizing q puts takes with
  | done l => exact ⟨⟨q, rfl, tracks.inserted⟩, Traced.within_pure _ _⟩
  | @enqueue val l left returned rest free _ ih =>
    subst same
    have next : Room q.capacity (puts + 1) := room.imp_right fun inside => by
      rw [enqueues] at inside
      omega
    obtain ⟨q', served, kept, tracks'⟩ := @Tracks.enqueue _ _ _ _ _ val tracks free next
    obtain ⟨answers, within⟩ := ih tracks' kept (by
      rw [enqueues, Nat.add_comm _ 1, ← Nat.add_assoc] at room
      exact room)
    rw [run_enqueue served]
    refine ⟨answers, ?_⟩
    intro slot touched
    rw [List.mem_append, tracks.touched_enqueue free, List.mem_singleton] at touched
    rcases touched with rfl | later
    · exact position_lt (Nat.zero_lt_of_lt free) next
    · exact within slot later
  | @dequeue val l left returned rest _ ih =>
    subst same
    have now : Room q.capacity puts := room.imp_right fun inside => by omega
    obtain ⟨⟨q', ran, occupied⟩, within⟩ := ih tracks.taken rfl room
    rw [run_dequeue (tracks.dequeue now), ran]
    refine ⟨⟨q', rfl, occupied⟩, ?_⟩
    intro slot touched
    rw [List.mem_append, touched_dequeue (tracks.advance_dequeue now).1, List.mem_singleton,
      tracks.currentDequeue] at touched
    rcases touched with rfl | later
    · have counted := tracks.puts_eq
      rw [List.length_cons] at counted
      exact position_lt tracks.positive (now.imp_right (by omega))
    · exact within slot later
  | @dequeueSilent val l left returned rest _ ih =>
    subst same
    have now : Room q.capacity puts := room.imp_right fun inside => by omega
    rw [run_dequeueSilent (tracks.dequeueSilent now)]
    exact ih tracks.taken rfl room

/-- Without room, the value behind the first lap goes to the slot behind the last one. -/
theorem Tracks.run_strays (served : Serves capacity l requests returned left)
    (tracks : q.Tracks puts takes l) (same : q.capacity = capacity) (wide : capacity ≠ 1)
    (inside : puts ≤ capacity) (more : capacity < puts + enqueues requests) :
    capacity ∈ (q.run requests).touched := by
  induction served generalizing q puts takes with
  | done l => exact absurd more (Nat.not_lt.mpr inside)
  | @enqueue val l left returned rest free _ ih =>
    subst same
    rcases Nat.eq_or_lt_of_le inside with full | room
    · -- the slot is written before anything else happens
      have touched := @Tracks.touched_enqueue _ _ _ _ _ val tracks free
      rw [position_of_ne wide, full] at touched
      rw [Queue.run, Traced.touched_bind, touched]
      exact List.mem_append_left _ (List.mem_singleton.mpr rfl)
    · obtain ⟨q', served, kept, tracks'⟩ := @Tracks.enqueue _ _ _ _ _ val tracks free (Or.inr room)
      rw [run_enqueue served]
      apply List.mem_append_right
      rw [enqueues] at more
      exact ih tracks' kept room (by omega)
  | @dequeue val l left returned rest _ ih =>
    subst same
    rw [run_dequeue (tracks.dequeue (Or.inr inside))]
    exact List.mem_append_right _ (ih tracks.taken rfl inside more)
  | @dequeueSilent val l left returned rest _ ih =>
    subst same
    rw [run_dequeueSilent (tracks.dequeueSilent (Or.inr inside))]
    exact ih tracks.taken rfl inside more

/-! ### A new queue -/

variable {allocator allocator' : Allocator} {size entries : Nat} {zeroed : Nat → α}

private theorem tracks_new
    (made : (new allocator size entries zeroed).value = some (q, allocator')) :
    q.Tracks 0 0 [] := by
  obtain ⟨_, below, capacity, inserted, enqueue, dequeue⟩ := new_some made
  refine ⟨?_, ?_, inserted, rfl, holds_nil, Nat.zero_le _, ?_⟩
  · rw [enqueue, position, Nat.zero_mul]
  · rw [dequeue, position, Nat.zero_mul]
  · rw [capacity]
    exact Nat.lt_of_le_of_lt (Nat.div_le_self _ _) below

/-- The slots below the capacity lie in the pages, if the size of an entry is a `u16`. -/
theorem slot_inside (made : (new allocator size entries zeroed).value = some (q, allocator'))
    (small : size < 2 ^ 16) {slot : Nat} (inside : slot < q.capacity) :
    (slot + 1) * size ≤ q.base.length := by
  obtain ⟨positive, _, capacity, _⟩ := new_some made
  rw [Nat.mod_eq_of_lt small] at positive capacity
  rw [← Nat.le_div_iff_mul_le positive, ← capacity]
  exact inside

theorem zero_touched (made : (new allocator size entries zeroed).value = some (q, allocator'))
    (served : Serves q.capacity [] requests returned left) (some : requests ≠ []) :
    0 ∈ (q.run requests).touched := by
  cases served with
  | done => exact absurd rfl some
  | @enqueue val _ _ _ rest free _ =>
    have touched := @Tracks.touched_enqueue _ _ _ _ _ val (tracks_new made) free
    rw [position, Nat.zero_mul] at touched
    rw [run, Traced.touched_bind, touched]
    exact List.mem_append_left _ (List.mem_singleton.mpr rfl)

/-- What a queue of entries of this size and this capacity can follow. -/
def Followed (capacity size : Nat) (requests : List (Fifo.Request α)) : Prop :=
  requests = [] ∨ size < 2 ^ 16 ∧ Room capacity (enqueues requests)

/-- A new queue is first-in first-out exactly for the runs of at most one lap. -/
theorem firstInFirstOut_iff
    (made : (new allocator size entries zeroed).value = some (q, allocator'))
    (served : Serves q.capacity [] requests returned left) :
    q.FirstInFirstOut size requests returned left ↔ Followed q.capacity size requests := by
  have tracks := tracks_new made
  constructor
  · intro correct
    by_cases none : requests = []
    · exact Or.inl none
    · refine Or.inr ⟨?_, ?_⟩
      · have first := (correct.slots 0 (zero_touched made served none)).2
        have below := (new_some made).2.1
        omega
      · by_contra noRoom
        obtain ⟨wide, more⟩ := not_or.mp noRoom
        have strays := tracks.run_strays served rfl wide (Nat.zero_le _) (by omega)
        exact Nat.lt_irrefl _ (correct.slots _ strays).1
  · rintro (rfl | ⟨small, room⟩)
    · cases served
      exact ⟨⟨q, rfl, tracks.inserted⟩, fun slot touched => by cases touched⟩
    · obtain ⟨answers, within⟩ := tracks.run served rfl (by rwa [Nat.zero_add])
      exact ⟨answers, fun slot touched =>
        ⟨within slot touched, slot_inside made small (within slot touched)⟩⟩

/-- An allocator with a free page. -/
def onePage : Allocator := ⟨fun _ => 0, 1, 0, 0x100000, 0⟩

/-- The queue of the EHCI driver, whose entries are pointers: 256 of them are asked for and
512 fit. -/
theorem new_onePage : ∃ q a, (new onePage 8 256 (fun _ => 0)).value = some (q, a) ∧
    q.capacity = 512 :=
  ⟨_, _, rfl, rfl⟩

theorem firstInFirstOut_lap : ∃ q a, (new onePage 8 256 (fun _ => 0)).value = some (q, a) ∧
    q.FirstInFirstOut 8 (laps 7 512 []) (List.replicate 512 7 ++ []) [] := by
  obtain ⟨q, a, made, capacity⟩ := new_onePage
  refine ⟨q, a, made, ?_⟩
  have served : Serves q.capacity [] (laps 7 512 []) (List.replicate 512 7 ++ []) [] :=
    .laps (by rw [capacity]; decide) (.done []) 512
  refine (firstInFirstOut_iff made served).mpr (Or.inr ⟨by decide, Or.inr ?_⟩)
  rw [enqueues_laps, capacity]
  exact Nat.le_refl _

/-- The value after one lap is written behind the last slot. -/
theorem not_firstInFirstOut_lap : ∃ q a, (new onePage 8 256 (fun _ => 0)).value = some (q, a) ∧
    Serves q.capacity [] (laps 7 512 [.enqueue 8]) (List.replicate 512 7 ++ []) [8] ∧
    ¬q.FirstInFirstOut 8 (laps 7 512 [.enqueue 8]) (List.replicate 512 7 ++ []) [8] := by
  obtain ⟨q, a, made, capacity⟩ := new_onePage
  have positive : 0 < q.capacity := by
    rw [capacity]
    decide
  have served : Serves q.capacity [] (laps 7 512 [.enqueue 8]) (List.replicate 512 7 ++ []) [8] :=
    .laps positive (.enqueue positive (.done _)) 512
  refine ⟨q, a, made, served, fun correct => ?_⟩
  have strays := (tracks_new made).run_strays served rfl (by rw [capacity]; decide)
    (Nat.zero_le _) (by rw [enqueues_laps, capacity]; decide)
  exact Nat.lt_irrefl _ (correct.slots _ strays).1

end Queue

end EmkKernel
