import EmkKernel.Drivers.XhciOverruns

/-!
# A transfer ring with a Link block

`request_trb` on a ring whose last block is a Link block back to its start, with Toggle Cycle.
The callers of `request_trb` fill the blocks that it hands out, in any order, and the
controller takes steps in between.
-/

namespace EmkKernel

open CycleRing

/-- The ring with its history: the blocks that were handed out, and what they were filled
with. -/
structure TransferRing where
  ring : ProducerRing
  handed : List (Nat × Bool)
  contents : Nat → Option RawXhciTrb

inductive TransferAction where
  | request
  | fill (k : Nat) (trb : RawXhciTrb)
  | fetch

namespace TransferRing

/-- `XhciEndpoint::new` on a ring in memory, and a controller with Dequeue Cycle State. -/
def new (base : Nat) (memory : Nat → RawXhciTrb) : TransferRing where
  ring :=
    { memory
      enqueuePointer := base
      pcs := true
      running := false
      dequeuePointer := base
      ccs := true
      writes := []
      written := []
      executed := [] }
  handed := []
  contents := fun _ => none

variable (s : TransferRing)

/-- A block is filled once, with the cycle state that it was handed out with, and is no Link
block. -/
def serve : TransferAction → Option TransferRing
  | .request =>
    let (trb, ring) := s.ring.requestTrb
    some { s with ring, handed := s.handed ++ [trb] }
  | .fill k trb =>
    match s.handed[k]? with
    | some (a, cycle) =>
      if s.contents k = none ∧ trb.cycle = cycle ∧ trb.trbType ≠ XhciTrbId.link.toU32 then
        some { s with
          ring := (s.ring.write a trb).ringDoorbell
          contents := Function.update s.contents k (some trb) }
      else none
    | none => none
  | .fetch => s.ring.fetch.map fun ring => { s with ring }

/-- What the controller executed, without the Link block. -/
def consumed : List (Nat × RawXhciTrb) :=
  s.ring.executed.filter fun e => e.2.trbType ≠ XhciTrbId.link.toU32

end TransferRing

/-- The last block leads back to the start and toggles the cycle state. -/
structure EndsWithLink (base n : Nat) (memory : Nat → RawXhciTrb) : Prop where
  type : (memory (base + 16 * n)).trbType = XhciTrbId.link.toU32
  pointer : (memory (base + 16 * n)).ringSegmentPointer = base
  toggles : (memory (base + 16 * n)).isSet 1 = true

/-- A ring of `n` blocks and a Link block, none of which was used. -/
structure FreshRing (base n : Nat) (memory : Nat → RawXhciTrb) : Prop where
  positive : 0 < n
  ends : EndsWithLink base n memory
  ordinary : ∀ i < n, (memory (base + 16 * i)).trbType ≠ XhciTrbId.link.toU32
  clear : ∀ i < n, (memory (base + 16 * i)).cycle = false

namespace TransferRing

variable {base n : Nat} {memory : Nat → RawXhciTrb} {s s' : TransferRing}

/-- The blocks are handed out lap after lap with the cycle state of the lap, and the Link block
has the cycle state of the lap that it ended last. -/
structure HandsOut (base n : Nat) (s : TransferRing) : Prop where
  inOrder : s.handed = (List.range s.handed.length).map fun k => (base + 16 * (k % n), lapBit n k)
  ends : EndsWithLink base n s.ring.memory
  crossed : n < s.handed.length →
    (s.ring.memory (base + 16 * n)).cycle = lapBit n (s.handed.length - 1 - n)

/-- The controller has taken the first of the blocks as they were filled, and has stopped only
before one that is not filled. -/
structure ConsumesInOrder (s : TransferRing) : Prop where
  taken : ∀ k < s.consumed.length, ∃ a cycle trb, s.handed[k]? = some (a, cycle) ∧
    s.contents k = some trb ∧ s.consumed[k]? = some (a, trb)
  complete : s.ring.running = false → s.contents s.consumed.length = none

/-- No block is requested before the controller took the one that was there. -/
def RoomFirst (n : Nat) (s : TransferRing) : TransferAction → Prop
  | .request => s.handed.length < s.consumed.length + n
  | _ => True

instance RoomFirst.decidable (n : Nat) (s : TransferRing) :
    (action : TransferAction) → Decidable (RoomFirst n s action)
  | .request => inferInstanceAs (Decidable (_ < _))
  | .fill _ _ => inferInstanceAs (Decidable True)
  | .fetch => inferInstanceAs (Decidable True)

/-! ### Requests -/

/-- The invariant of the driver's side. -/
structure Produces (base n : Nat) (s : TransferRing) : Prop extends HandsOut base n s where
  positive : 0 < n
  enqueue : s.ring.enqueuePointer =
    if s.handed.length = 0 then base else base + 16 * ((s.handed.length - 1) % n + 1)
  pcs : s.ring.pcs = lapBit n (s.handed.length - 1)
  ordinary : ∀ i < n, (s.ring.memory (base + 16 * i)).trbType ≠ XhciTrbId.link.toU32
  later : ∀ k, s.handed.length ≤ k → s.contents k = none

/-- The memory behind a request: only the Link block may have changed. -/
def crossedMemory (base n : Nat) (s : TransferRing) : Nat → RawXhciTrb :=
  if 0 < s.handed.length ∧ s.handed.length % n = 0 then
    Function.update s.ring.memory (base + 16 * n)
      ((s.ring.memory (base + 16 * n)).setBit 0 (lapBit n (s.handed.length - 1)))
  else s.ring.memory

private theorem request_eq (produces : Produces base n s) :
    s.ring.requestTrb = ((base + 16 * (s.handed.length % n), lapBit n s.handed.length),
      { s.ring with
        memory := crossedMemory base n s
        writes := s.ring.requestTrb.2.writes
        enqueuePointer := base + 16 * (s.handed.length % n) + 16
        pcs := lapBit n s.handed.length }) := by
  have positive := produces.positive
  have enqueue := produces.enqueue
  have pcs := produces.pcs
  cases length : s.handed.length with
  | zero =>
    rw [length] at enqueue pcs
    have start : s.ring.enqueuePointer = base + 16 * 0 := enqueue
    have other := produces.ordinary 0 positive
    rw [← start] at other
    have same : crossedMemory base n s = s.ring.memory := by
      rw [crossedMemory, length, if_neg (fun both => Nat.lt_irrefl 0 both.1)]
    rw [same, ProducerRing.requestTrb, if_neg other, Nat.zero_mod, ← start, ← pcs]
  | succ k =>
    rw [length, if_neg (Nat.succ_ne_zero k), Nat.add_sub_cancel] at enqueue
    rw [length, Nat.add_sub_cancel] at pcs
    rcases next_position positive with ⟨inside, slot, lap⟩ | ⟨atEnd, slot, lap⟩
    · -- the next block is in the same lap
      have other := produces.ordinary (k % n + 1) inside
      rw [← enqueue] at other
      have same : crossedMemory base n s = s.ring.memory := by
        rw [crossedMemory, length, if_neg (fun both => Nat.succ_ne_zero _ (slot.symm.trans both.2))]
      rw [same, ProducerRing.requestTrb, if_neg other, slot, lap, ← enqueue, ← pcs]
    · -- the pointer is at the Link block
      rw [atEnd] at enqueue
      have link := produces.ends.type
      have pointer := produces.ends.pointer
      have toggles := produces.ends.toggles
      have same : crossedMemory base n s = Function.update s.ring.memory (base + 16 * n)
          ((s.ring.memory (base + 16 * n)).setBit 0 (lapBit n k)) := by
        rw [crossedMemory, length, if_pos ⟨Nat.succ_pos k, slot⟩, Nat.add_sub_cancel]
      have toggles' : ((s.ring.memory (base + 16 * n)).setBit 0 (lapBit n k)).isSet 1 = true := by
        rw [RawXhciTrb.isSet_setBit_other _ (by decide) (by decide), toggles]
      have pointer' : ((s.ring.memory (base + 16 * n)).setBit 0 (lapBit n k)).ringSegmentPointer =
          base := pointer
      rw [same, ProducerRing.requestTrb, enqueue, if_pos link, pcs]
      simp only [toggles', pointer', if_true, slot, lap, Nat.mul_zero, Nat.add_zero]

private theorem lapBit_sub (positive : 0 < n) {k : Nat} (whole : n ≤ k) :
    lapBit n (k - n) = !lapBit n k := by
  have next := lapBit_add (n := k - n) positive
  rw [Nat.sub_add_cancel whole] at next
  rw [next, Bool.not_not]

theorem lapBit_of_start (positive : 0 < n) {first k : Nat} (start : first % n = 0)
    (after : first ≤ k) (before : k < first + n) : lapBit n k = lapBit n first := by
  obtain ⟨laps, rfl⟩ := Nat.dvd_of_mod_eq_zero start
  have same : k / n = n * laps / n := by
    rw [Nat.mul_div_cancel_left laps positive]
    apply Nat.div_eq_of_lt_le
    · rw [Nat.mul_comm]
      exact after
    · rw [Nat.mul_comm, Nat.mul_add, Nat.mul_one]
      exact before
  rw [lapBit, lapBit, same]

private theorem crossedMemory_slot {i : Nat} (inside : i < n) :
    crossedMemory base n s (base + 16 * i) = s.ring.memory (base + 16 * i) := by
  rw [crossedMemory]
  split
  · exact Function.update_of_ne (by omega) ..
  · rfl

private theorem ends_crossed (ends : EndsWithLink base n s.ring.memory) :
    EndsWithLink base n (crossedMemory base n s) := by
  rw [crossedMemory]
  split
  · refine ⟨?_, ?_, ?_⟩
    · rw [Function.update_self, RawXhciTrb.trbType_setBit _ (by decide) (Or.inl (by decide))]
      exact ends.type
    · rw [Function.update_self]
      exact ends.pointer
    · rw [Function.update_self, RawXhciTrb.isSet_setBit_other _ (by decide) (by decide)]
      exact ends.toggles
  · exact ends

theorem cycle_crossed (produces : Produces base n s) (laps : n < s.handed.length + 1) :
    (crossedMemory base n s (base + 16 * n)).cycle = lapBit n (s.handed.length - n) := by
  have positive := produces.positive
  rw [lapBit_sub positive (Nat.le_of_lt_succ laps)]
  obtain ⟨k, length⟩ := Nat.exists_eq_succ_of_ne_zero (show s.handed.length ≠ 0 by omega)
  rw [length] at laps ⊢
  rw [crossedMemory, length, Nat.succ_eq_add_one, Nat.add_sub_cancel]
  rcases next_position positive with ⟨inside, slot, lap⟩ | ⟨_, slot, lap⟩
  · -- a whole lap of requests would have ended at the Link block
    have whole : n ≤ k := by
      by_contra short
      rw [show k + 1 = n by omega, Nat.mod_self] at slot
      cases slot
    have old := produces.crossed (by omega)
    rw [length, Nat.succ_eq_add_one, Nat.add_sub_cancel] at old
    rw [if_neg (fun both => Nat.succ_ne_zero _ (slot.symm.trans both.2)), lap, old,
      lapBit_sub positive whole]
  · rw [if_pos ⟨Nat.succ_pos k, slot⟩, Function.update_self, RawXhciTrb.cycle,
      RawXhciTrb.isSet_setBit _ (by decide), lap, Bool.not_not]

private theorem produces_request (produces : Produces base n s) (ran : s.serve .request = some s') :
    Produces base n s' ∧ s'.ring.memory = crossedMemory base n s ∧
      s'.handed.length = s.handed.length + 1 ∧ s'.contents = s.contents ∧
      s'.consumed = s.consumed ∧ s'.ring.running = s.ring.running ∧
      s'.ring.dequeuePointer = s.ring.dequeuePointer ∧ s'.ring.ccs = s.ring.ccs ∧
      (∀ k < s.handed.length, s'.handed[k]? = s.handed[k]?) := by
  have positive := produces.positive
  rw [serve, request_eq produces] at ran
  obtain rfl := Option.some.inj ran
  have length (trb : Nat × Bool) : (s.handed ++ [trb]).length = s.handed.length + 1 := by
    rw [List.length_append, List.length_singleton]
  refine ⟨⟨⟨?_, ends_crossed produces.ends, fun laps => ?_⟩, positive, ?_, ?_, fun i inside => ?_,
    fun k later => ?_⟩, rfl, length _, rfl, rfl, rfl, rfl, rfl, fun k before => ?_⟩
  · rw [length, List.range_succ, List.map_append, ← produces.inOrder]
    rfl
  · rw [length] at laps ⊢
    exact cycle_crossed produces laps
  · rw [length, if_neg (Nat.succ_ne_zero _), Nat.add_sub_cancel]
    rfl
  · rw [length, Nat.add_sub_cancel]
  · exact (congrArg RawXhciTrb.trbType (crossedMemory_slot inside)).trans_ne
      (produces.ordinary i inside)
  · rw [length] at later
    exact produces.later k (Nat.le_of_succ_le later)
  · exact List.getElem?_append_left before

/-! ### Blocks that are filled -/

private theorem handed_eq (produces : Produces base n s) {k : Nat} {a : Nat} {cycle : Bool}
    (handed : s.handed[k]? = some (a, cycle)) :
    k < s.handed.length ∧ a = base + 16 * (k % n) ∧ cycle = lapBit n k := by
  obtain ⟨before, _⟩ := List.getElem?_eq_some_iff.mp handed
  rw [produces.inOrder, List.getElem?_map, List.getElem?_range before, Option.map_some] at handed
  cases handed
  exact ⟨before, rfl, rfl⟩

/-- What a step does that fills a block. -/
structure Fills (base n k : Nat) (trb : RawXhciTrb) (s s' : TransferRing) : Prop where
  before : k < s.handed.length
  empty : s.contents k = none
  cycle : trb.cycle = lapBit n k
  ordinary : trb.trbType ≠ XhciTrbId.link.toU32
  eq : s' = { s with
    ring := (s.ring.write (base + 16 * (k % n)) trb).ringDoorbell
    contents := Function.update s.contents k (some trb) }

private theorem fills_of_fill (produces : Produces base n s) {k : Nat} {trb : RawXhciTrb}
    (ran : s.serve (.fill k trb) = some s') : Fills base n k trb s s' := by
  simp only [serve] at ran
  split at ran
  next a cycle handed =>
    obtain ⟨before, rfl, rfl⟩ := handed_eq produces handed
    split at ran
    next allowed =>
      obtain ⟨empty, cycle, ordinary⟩ := allowed
      exact ⟨before, empty, cycle, ordinary, (Option.some.inj ran).symm⟩
    next => cases ran
  next => cases ran

private theorem produces_fill {k : Nat} {trb : RawXhciTrb} (produces : Produces base n s)
    (fills : Fills base n k trb s s') : Produces base n s' := by
  obtain ⟨before, _, _, ordinary, rfl⟩ := fills
  have positive := produces.positive
  have inside := Nat.mod_lt k positive
  have atLink : (Function.update s.ring.memory (base + 16 * (k % n)) trb) (base + 16 * n) =
      s.ring.memory (base + 16 * n) := Function.update_of_ne (by omega) ..
  refine ⟨⟨produces.inOrder, ⟨?_, ?_, ?_⟩, fun laps => ?_⟩, positive, produces.enqueue,
    produces.pcs, fun i less => ?_, fun j later => ?_⟩
  · exact (congrArg RawXhciTrb.trbType atLink).trans produces.ends.type
  · exact (congrArg RawXhciTrb.ringSegmentPointer atLink).trans produces.ends.pointer
  · exact (congrArg (RawXhciTrb.isSet · 1) atLink).trans produces.ends.toggles
  · exact (congrArg RawXhciTrb.cycle atLink).trans (produces.crossed laps)
  · by_cases same : i = k % n
    · have here : (Function.update s.ring.memory (base + 16 * (k % n)) trb) (base + 16 * i) =
          trb := by
        rw [same]
        exact Function.update_self ..
      exact (congrArg RawXhciTrb.trbType here).trans_ne ordinary
    · have other : (Function.update s.ring.memory (base + 16 * (k % n)) trb) (base + 16 * i) =
          s.ring.memory (base + 16 * i) := Function.update_of_ne (by omega) ..
      exact (congrArg RawXhciTrb.trbType other).trans_ne (produces.ordinary i less)
  · have later' : s.handed.length ≤ j := later
    exact (Function.update_of_ne (by omega) ..).trans (produces.later j later')

/-! ### The controller -/

/-- Where the controller is: at the next block, or still at the Link block before it. -/
def ControllerAt (base n : Nat) (s : TransferRing) : Prop :=
  (s.ring.dequeuePointer = base + 16 * (s.consumed.length % n) ∧
    s.ring.ccs = lapBit n s.consumed.length) ∨
  (0 < s.consumed.length ∧ s.consumed.length % n = 0 ∧
    s.ring.dequeuePointer = base + 16 * n ∧ s.ring.ccs = lapBit n (s.consumed.length - 1))

/-- The invariant of both sides: the blocks of the lap from the controller on are filled as
the history says, or have the cycle state of the lap before. -/
structure Consumes (base n : Nat) (s : TransferRing) : Prop
    extends Produces base n s, ConsumesInOrder s where
  behind : s.consumed.length ≤ s.handed.length
  near : s.handed.length ≤ s.consumed.length + n
  place : ControllerAt base n s
  filled : ∀ k trb, s.consumed.length ≤ k → s.contents k = some trb →
    s.ring.memory (base + 16 * (k % n)) = trb ∧ trb.cycle = lapBit n k
  free : ∀ k, s.consumed.length ≤ k → k < s.consumed.length + n → s.contents k = none →
    (s.ring.memory (base + 16 * (k % n))).cycle = !lapBit n k

private theorem consumes_new (fresh : FreshRing base n memory) :
    Consumes base n (new base memory) where
  inOrder := rfl
  ends := fresh.ends
  crossed laps := absurd laps (Nat.not_lt_zero n)
  positive := fresh.positive
  enqueue := rfl
  pcs := lapBit_zero.symm
  ordinary := fresh.ordinary
  later _ _ := rfl
  toConsumesInOrder := ⟨fun k before => absurd before (Nat.not_lt_zero k), fun _ => rfl⟩
  behind := Nat.le_refl 0
  near := Nat.zero_le _
  place := Or.inl ⟨by
    show base = base + 16 * (0 % n)
    rw [Nat.zero_mod, Nat.mul_zero, Nat.add_zero], lapBit_zero.symm⟩
  filled _ _ _ filled := by cases filled
  free k _ inside _ := by
    have inside' : k < n := by
      rw [← Nat.zero_add n]
      exact inside
    have clear := fresh.clear k inside'
    rw [lapBit, Nat.div_eq_of_lt inside']
    show (memory (base + 16 * (k % n))).cycle = _
    rw [Nat.mod_eq_of_lt inside', clear]
    rfl

private theorem consumes_request (consumes : Consumes base n s)
    (room : s.handed.length < s.consumed.length + n) (ran : s.serve .request = some s') :
    Consumes base n s' := by
  obtain ⟨produces, memory, length, contents, consumed, running, pointer, ccs, handed⟩ :=
    produces_request consumes.toProduces ran
  have positive := consumes.positive
  have behind := consumes.behind
  have slots (k : Nat) :
      s'.ring.memory (base + 16 * (k % n)) = s.ring.memory (base + 16 * (k % n)) := by
    rw [memory, crossedMemory_slot (Nat.mod_lt k positive)]
  refine { produces with
    toConsumesInOrder := ⟨fun k before => ?_, fun stopped => ?_⟩
    behind := ?_
    near := ?_
    place := ?_
    filled := fun k trb after filled => ?_
    free := fun k after inside empty => ?_ }
  · rw [consumed] at before
    obtain ⟨a, cycle, trb, same, filled, taken⟩ := consumes.taken k before
    rw [contents, consumed, handed k (Nat.lt_of_lt_of_le before behind)]
    exact ⟨a, cycle, trb, same, filled, taken⟩
  · rw [contents, consumed]
    exact consumes.complete (running ▸ stopped)
  · rw [consumed, length]
    exact Nat.le_succ_of_le behind
  · rw [consumed, length]
    exact room
  · rw [ControllerAt, consumed, pointer, ccs]
    exact consumes.place
  · rw [consumed] at after
    rw [contents] at filled
    rw [slots]
    exact consumes.filled k trb after filled
  · rw [consumed] at after inside
    rw [contents] at empty
    rw [slots]
    exact consumes.free k after inside empty

private theorem consumes_fill {k : Nat} {trb : RawXhciTrb} (consumes : Consumes base n s)
    (ran : s.serve (.fill k trb) = some s') : Consumes base n s' := by
  have fills := fills_of_fill consumes.toProduces ran
  have produces := produces_fill consumes.toProduces fills
  obtain ⟨before, empty, cycle, _, rfl⟩ := fills
  have near := consumes.near
  -- what the controller took was filled before
  have after : s.consumed.length ≤ k := by
    by_contra taken
    obtain ⟨_, _, _, _, filled, _⟩ := consumes.taken k (by omega)
    cases filled.symm.trans empty
  have others {j : Nat} (afterJ : s.consumed.length ≤ j) (beforeJ : j < s.consumed.length + n)
      (different : j ≠ k) :
      (Function.update s.ring.memory (base + 16 * (k % n)) trb) (base + 16 * (j % n)) =
        s.ring.memory (base + 16 * (j % n)) := by
    have apart : j % n ≠ k % n := by
      rcases Nat.lt_or_gt_of_ne different with less | more
      · exact (slot_ne less (by omega)).symm
      · exact slot_ne more (by omega)
    exact Function.update_of_ne (by omega) ..
  refine { produces with
    toConsumesInOrder := ⟨fun j taken => ?_, fun stopped => by cases stopped⟩
    behind := consumes.behind
    near := near
    place := consumes.place
    filled := fun j trb' afterJ filled => ?_
    free := fun j afterJ beforeJ emptyJ => ?_ }
  · have taken' : j < s.consumed.length := taken
    obtain ⟨a, c, trb', same, filled, consumed⟩ := consumes.taken j taken'
    exact ⟨a, c, trb', same, (Function.update_of_ne (by omega) ..).trans filled, consumed⟩
  · have afterJ' : s.consumed.length ≤ j := afterJ
    by_cases same : j = k
    · subst same
      have filled' : Function.update s.contents j (some trb) j = some trb' := filled
      rw [Function.update_self] at filled'
      cases filled'
      exact ⟨Function.update_self .., cycle⟩
    · have filled' : Function.update s.contents k (some trb) j = some trb' := filled
      rw [Function.update_of_ne same] at filled'
      have handedJ : j < s.handed.length := by
        by_contra later
        cases (consumes.later j (by omega)).symm.trans filled'
      obtain ⟨here, cycleJ⟩ := consumes.filled j trb' afterJ' filled'
      exact ⟨(others afterJ' (by omega) same).trans here, cycleJ⟩
  · have emptyJ' : Function.update s.contents k (some trb) j = none := emptyJ
    have different : j ≠ k := by
      rintro rfl
      rw [Function.update_self] at emptyJ'
      cases emptyJ'
    rw [Function.update_of_ne different] at emptyJ'
    exact (congrArg RawXhciTrb.cycle (others afterJ beforeJ different)).trans
      (consumes.free j afterJ beforeJ emptyJ')

/-- A step of the controller leaves the driver's side alone. -/
theorem Produces.fetch (produces : Produces base n s) {ring : ProducerRing}
    (memory : ring.memory = s.ring.memory) (enqueue : ring.enqueuePointer = s.ring.enqueuePointer)
    (pcs : ring.pcs = s.ring.pcs) : Produces base n { s with ring } where
  inOrder := produces.inOrder
  ends := memory ▸ produces.ends
  crossed laps := memory ▸ produces.crossed laps
  positive := produces.positive
  enqueue := enqueue.trans produces.enqueue
  pcs := pcs.trans produces.pcs
  ordinary := memory ▸ produces.ordinary
  later := produces.later

/-- The controller stops only before a block that is not filled. -/
theorem stops (consumes : Consumes base n s)
    (differs : (s.ring.memory s.ring.dequeuePointer).cycle ≠ s.ring.ccs) :
    s.contents s.consumed.length = none := by
  have positive := consumes.positive
  cases filled : s.contents s.consumed.length with
  | none => rfl
  | some trb =>
    refine absurd ?_ differs
    rcases consumes.place with ⟨pointer, ccs⟩ | ⟨some, start, pointer, ccs⟩
    · obtain ⟨here, cycle⟩ := consumes.filled _ trb (Nat.le_refl _) filled
      rw [pointer, ccs, here, cycle]
    · -- a block behind the Link block was handed out, so the Link block was crossed
      have handed : s.consumed.length < s.handed.length := by
        by_contra later
        cases (consumes.later _ (Nat.le_of_not_lt later)).symm.trans filled
      have lap : n ≤ s.consumed.length := Nat.le_of_dvd some (Nat.dvd_of_mod_eq_zero start)
      have near := consumes.near
      have crossed := consumes.crossed (by omega)
      have same := lapBit_of_start positive start
        (show s.consumed.length ≤ s.handed.length - 1 by omega) (by omega)
      have before : lapBit n (s.consumed.length - 1) = !lapBit n s.consumed.length := by
        obtain ⟨m, length⟩ := Nat.exists_eq_succ_of_ne_zero (Nat.ne_of_gt some)
        rw [length, Nat.succ_eq_add_one] at start ⊢
        rw [Nat.add_sub_cancel]
        rcases next_position positive with ⟨_, slot, _⟩ | ⟨_, _, next⟩
        · exact absurd (slot.symm.trans start) (Nat.succ_ne_zero _)
        · rw [next, Bool.not_not]
      rw [pointer, ccs, crossed, lapBit_sub positive (by omega), same, before]

private theorem consumed_append {ring : ProducerRing} {e : Nat × RawXhciTrb}
    (executed : ring.executed = s.ring.executed ++ [e]) : { s with ring }.consumed =
      if e.2.trbType = XhciTrbId.link.toU32 then s.consumed else s.consumed ++ [e] := by
  rw [consumed, executed, List.filter_append]
  split
  next link => simp [consumed, link]
  next ordinary => simp [consumed, ordinary]

/-- The controller takes no block. -/
theorem Consumes.pass (consumes : Consumes base n s) {ring : ProducerRing}
    (memory : ring.memory = s.ring.memory) (enqueue : ring.enqueuePointer = s.ring.enqueuePointer)
    (pcs : ring.pcs = s.ring.pcs) (consumed : { s with ring }.consumed = s.consumed)
    (complete : ring.running = false → s.contents s.consumed.length = none)
    (place : ControllerAt base n { s with ring }) : Consumes base n { s with ring } := by
  refine { consumes.toProduces.fetch memory enqueue pcs with
    taken := ?_
    complete := ?_
    behind := ?_
    near := ?_
    place := place
    filled := ?_
    free := ?_ }
  all_goals rw [consumed]
  · exact consumes.taken
  · exact complete
  · exact consumes.behind
  · exact consumes.near
  · exact memory ▸ consumes.filled
  · exact memory ▸ consumes.free

/-- The controller takes the next block. -/
theorem Consumes.take (consumes : Consumes base n s) {ring : ProducerRing}
    (memory : ring.memory = s.ring.memory) (enqueue : ring.enqueuePointer = s.ring.enqueuePointer)
    (pcs : ring.pcs = s.ring.pcs) (running : ring.running = true) {trb : RawXhciTrb}
    (filled : s.contents s.consumed.length = some trb)
    (consumed : { s with ring }.consumed =
      s.consumed ++ [(base + 16 * (s.consumed.length % n), trb)])
    (place : ControllerAt base n { s with ring }) : Consumes base n { s with ring } := by
  have positive := consumes.positive
  have length : ({ s with ring }.consumed).length = s.consumed.length + 1 := by
    rw [consumed, List.length_append, List.length_singleton]
  have handed : s.consumed.length < s.handed.length := by
    by_contra later
    cases (consumes.later _ (Nat.le_of_not_lt later)).symm.trans filled
  have near := consumes.near
  refine { consumes.toProduces.fetch memory enqueue pcs with
    taken := fun k before => ?_
    complete := fun stopped => absurd (running.symm.trans stopped) (by decide)
    behind := ?_
    near := ?_
    place := place
    filled := ?_
    free := ?_ }
  · rw [length] at before
    rw [consumed]
    rcases Nat.lt_succ_iff_lt_or_eq.mp before with earlier | rfl
    · rw [List.getElem?_append_left earlier]
      exact consumes.taken k earlier
    · refine ⟨base + 16 * (s.consumed.length % n), lapBit n s.consumed.length, trb, ?_, filled, ?_⟩
      · show s.handed[s.consumed.length]? = _
        rw [consumes.inOrder, List.getElem?_map, List.getElem?_range handed, Option.map_some]
      · rw [List.getElem?_append_right (Nat.le_refl _), Nat.sub_self]
        rfl
  · rw [length]
    exact handed
  · rw [length]
    exact near.trans (by omega)
  · rw [length]
    intro k trb' after filled'
    rw [memory]
    exact consumes.filled k trb' (Nat.le_of_succ_le after) filled'
  · rw [length]
    intro k after before empty
    rw [memory]
    by_cases last : k = s.consumed.length + n
    · -- the slot of the block that was taken, a lap later
      obtain ⟨here, cycle⟩ := consumes.filled _ trb (Nat.le_refl _) filled
      rw [last, Nat.add_mod_right, here, cycle, lapBit_add positive, Bool.not_not]
    · exact consumes.free k (by omega) (by omega) empty

theorem controllerAt_next (positive : 0 < n) (k : Nat) :
    (base + 16 * (k % n) + 16 = base + 16 * ((k + 1) % n) ∧ lapBit n k = lapBit n (k + 1)) ∨
    (0 < k + 1 ∧ (k + 1) % n = 0 ∧ base + 16 * (k % n) + 16 = base + 16 * n ∧
      lapBit n k = lapBit n (k + 1 - 1)) := by
  rcases next_position positive with ⟨_, slot, lap⟩ | ⟨atEnd, slot, _⟩
  · refine Or.inl ⟨?_, lap.symm⟩
    rw [slot]
    omega
  · exact Or.inr ⟨Nat.succ_pos k, slot, by omega, rfl⟩

theorem fetch_outcome {r ring : ProducerRing} (fetched : r.fetch = some ring) :
    ((r.memory r.dequeuePointer).cycle ≠ r.ccs ∧ ring = { r with running := false }) ∨
    ((r.memory r.dequeuePointer).cycle = r.ccs ∧ ring.running = true ∧
      ring.executed = r.executed ++ [(r.dequeuePointer, r.memory r.dequeuePointer)] ∧
      (((r.memory r.dequeuePointer).trbType = XhciTrbId.link.toU32 ∧
          ring.dequeuePointer = (r.memory r.dequeuePointer).ringSegmentPointer ∧
          ring.ccs = if (r.memory r.dequeuePointer).isSet 1 then !r.ccs else r.ccs) ∨
        ((r.memory r.dequeuePointer).trbType ≠ XhciTrbId.link.toU32 ∧
          ring.dequeuePointer = r.dequeuePointer + 16 ∧ ring.ccs = r.ccs))) := by
  rw [ProducerRing.fetch] at fetched
  split at fetched
  next running =>
    split at fetched
    next same =>
      split at fetched
      next link =>
        obtain rfl := Option.some.inj fetched
        exact Or.inr ⟨same, running, rfl, Or.inl ⟨link, rfl, rfl⟩⟩
      next ordinary =>
        obtain rfl := Option.some.inj fetched
        exact Or.inr ⟨same, running, rfl, Or.inr ⟨ordinary, rfl, rfl⟩⟩
    next differs =>
      obtain rfl := Option.some.inj fetched
      exact Or.inl ⟨differs, rfl⟩
  next => cases fetched

private theorem consumes_fetch (consumes : Consumes base n s) (ran : s.serve .fetch = some s') :
    Consumes base n s' := by
  have positive := consumes.positive
  obtain ⟨ring, fetched, rfl⟩ := Option.map_eq_some_iff.mp ran
  obtain ⟨memory, enqueue, pcs, _, _⟩ := ProducerRing.fetch_kept fetched
  rcases fetch_outcome fetched with ⟨differs, rfl⟩ |
      ⟨same, running, executed, ⟨link, pointer', ccs'⟩ | ⟨ordinary, pointer', ccs'⟩⟩
  · have stopped := stops consumes differs
    exact consumes.pass rfl rfl rfl rfl (fun _ => stopped) consumes.place
  · rcases consumes.place with ⟨pointer, _⟩ | ⟨some, start, pointer, ccs⟩
    · rw [pointer] at link
      exact absurd link (consumes.ordinary _ (Nat.mod_lt _ positive))
    · -- the Link block is followed to the start of the next lap
      have consumed := (consumed_append executed).trans (if_pos link)
      apply consumes.pass memory enqueue pcs consumed
      · intro stopped
        rw [running] at stopped
        cases stopped
      · refine Or.inl ?_
        rw [pointer, consumes.ends.pointer] at pointer'
        rw [pointer, consumes.ends.toggles, if_pos rfl, ccs] at ccs'
        rw [consumed, start]
        refine ⟨pointer', ccs'.trans ?_⟩
        obtain ⟨k, length⟩ := Nat.exists_eq_succ_of_ne_zero (Nat.ne_of_gt some)
        rw [length, Nat.succ_eq_add_one] at start ⊢
        rw [Nat.add_sub_cancel]
        rcases next_position positive with ⟨_, slot, _⟩ | ⟨_, _, next⟩
        · exact absurd (slot.symm.trans start) (Nat.succ_ne_zero _)
        · exact next.symm
  · rcases consumes.place with ⟨pointer, ccs⟩ | ⟨_, _, pointer, _⟩
    · -- a block with the cycle state of the lap is filled
      cases filled : s.contents s.consumed.length with
      | none =>
        have old := consumes.free _ (Nat.le_refl _) (by omega) filled
        rw [← pointer, same, ccs] at old
        exact absurd old.symm (Bool.not_ne_self _)
      | some trb =>
        obtain ⟨here, _⟩ := consumes.filled _ trb (Nat.le_refl _) filled
        have consumed := (consumed_append executed).trans (if_neg ordinary)
        rw [pointer, here] at consumed
        apply consumes.take memory enqueue pcs running filled consumed
        have next := @controllerAt_next base n positive s.consumed.length
        rw [← pointer, ← ccs, ← pointer', ← ccs'] at next
        rw [ControllerAt, consumed, List.length_append, List.length_singleton]
        exact next
    · rw [pointer] at ordinary
      exact absurd consumes.ends.type ordinary

/-! ### Runs -/

/-- Any sequence of requests, blocks filled and steps of the controller. -/
abbrev TransferRun (base : Nat) (memory : Nat → RawXhciTrb) (s : TransferRing) : Prop :=
  Requests.Run serve (fun _ _ => True) (new base memory) s

/-- A sequence that leaves the blocks alone that the controller has not taken yet. -/
abbrev RoomyRun (base n : Nat) (memory : Nat → RawXhciTrb) (s : TransferRing) : Prop :=
  Requests.Run serve (RoomFirst n) (new base memory) s

private theorem produces_serve (produces : Produces base n s) (action : TransferAction)
    (ran : s.serve action = some s') : Produces base n s' := by
  cases action with
  | request => exact (produces_request produces ran).1
  | fill k trb => exact produces_fill produces (fills_of_fill produces ran)
  | fetch =>
    obtain ⟨ring, fetched, rfl⟩ := Option.map_eq_some_iff.mp ran
    obtain ⟨memory, enqueue, pcs, _, _⟩ := ProducerRing.fetch_kept fetched
    exact produces.fetch memory enqueue pcs

/-- However many laps the ring was used, the blocks come one after another with the cycle state
of their lap. As long as the ring is not full, the controller takes them in order. -/
theorem wraps (fresh : FreshRing base n memory) :
    (∀ s, TransferRun base memory s → HandsOut base n s) ∧
    (∀ s, RoomyRun base n memory s → ConsumesInOrder s) := by
  have start := consumes_new fresh
  constructor
  · intro s run
    have produces : Produces base n s := run.keeps start.toProduces
      fun _ action _ produces _ ran => produces_serve produces action ran
    exact produces.toHandsOut
  · intro s run
    have consumes : Consumes base n s := run.keeps start fun s action s' consumes room ran => by
      cases action with
      | request => exact consumes_request consumes room ran
      | fill k trb => exact consumes_fill consumes ran
      | fetch => exact consumes_fetch consumes ran
    exact consumes.toConsumesInOrder

/-- One block and a Link block behind it. -/
def oneBlock : Nat → RawXhciTrb := fun a =>
  if a = 0x1010 then ((RawXhciTrb.zero.setRingSegmentPointer 0x1000).setType .link).setBit 1 true
  else .zero

private theorem fresh_oneBlock : FreshRing 0x1000 1 oneBlock where
  positive := by decide
  ends := ⟨by decide, by decide, by decide⟩
  ordinary := by decide
  clear := by decide

/-- A Setup Stage block. -/
def aSetup (cycle : Bool) : RawXhciTrb := (RawXhciTrb.zero.setType .setup).setBit 0 cycle

/-- The second block is requested after the controller took the first one and crossed the Link
block. -/
theorem wraps_oneBlock : ∃ s, RoomyRun 0x1000 1 oneBlock s ∧ s.handed.length = 2 ∧
    s.consumed.length = 2 ∧ HandsOut 0x1000 1 s ∧ ConsumesInOrder s := by
  have ran : (Requests.serveAll serve (RoomFirst 1) (new 0x1000 oneBlock)
      [.request, .fill 0 (aSetup true), .fetch, .request, .fill 1 (aSetup false), .fetch,
        .fetch]).map (fun s => (s.handed.length, s.consumed.length)) = some (2, 2) := by
    decide +kernel
  obtain ⟨s, served, lengths⟩ := Option.map_eq_some_iff.mp ran
  have roomy : RoomyRun 0x1000 1 oneBlock s := Requests.serveAll_run served
  have any : TransferRun 0x1000 oneBlock s :=
    Requests.Run.mono roomy fun _ _ _ => trivial
  exact ⟨s, roomy, congrArg Prod.fst lengths, congrArg Prod.snd lengths,
    (wraps fresh_oneBlock).1 s any, (wraps fresh_oneBlock).2 s roomy⟩

/-- A full ring: the second block overwrites the first one, and the controller takes none. -/
theorem not_consumes_full : ∃ s, TransferRun 0x1000 oneBlock s ∧ ¬ConsumesInOrder s := by
  have ran : (Requests.serveAll serve (fun _ _ => True) (new 0x1000 oneBlock)
      [.request, .fill 0 (aSetup true), .request, .fill 1 (aSetup false), .fetch]).map
        (fun s => (s.ring.running, s.consumed.length, (s.contents 0).isSome)) =
          some (false, 0, true) := by decide +kernel
  obtain ⟨s, served, facts⟩ := Option.map_eq_some_iff.mp ran
  simp only [Prod.mk.injEq] at facts
  obtain ⟨stopped, none, filled⟩ := facts
  refine ⟨s, Requests.serveAll_run served, fun consumes => ?_⟩
  have empty := consumes.complete stopped
  rw [none] at empty
  rw [empty] at filled
  cases filled

end TransferRing

end EmkKernel
