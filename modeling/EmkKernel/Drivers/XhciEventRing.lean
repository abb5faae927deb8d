import EmkKernel.Drivers.XhciTrbs
import EmkKernel.Library.Requests

/-!
# The event ring

`XhciInterrupter` and the controller that posts events to its ring. A call of
`consume_events` takes many steps, and the controller posts between any two of them. The
lists at the end of the state are history.
-/

namespace EmkKernel

structure XhciInterrupter where
  /-- The address in the entry of the segment table. -/
  segment : Nat
  dequeuePointer : Nat
  endAddress : Nat
  css : Bool
  gotEvents : Bool
  deriving DecidableEq

namespace XhciInterrupter

/-- `new`, with a segment of 512 blocks. -/
def new (segment : Nat) : XhciInterrupter := ⟨segment, segment, segment + 16 * 512, true, false⟩

/-- An iteration of `consume_events` after the callback. -/
def advance (self : XhciInterrupter) : XhciInterrupter :=
  let next := self.dequeuePointer + 16
  if next = self.endAddress then
    { self with gotEvents := true, dequeuePointer := self.segment, css := !self.css }
  else { self with gotEvents := true, dequeuePointer := next }

end XhciInterrupter

/-- `set_event_ring_dequeue_pointer`; the flags in the low bits of the register stay. -/
def setEventRingDequeuePointer (register base : Nat) : Nat := base / 16 * 16 + register % 16

/-- Where a call of `consume_events` is. -/
inductive ConsumeCall where
  | returned
  | looping
  | consuming
  | stopping
  | panicked
  deriving DecidableEq

structure EventRing where
  memory : Nat → RawXhciTrb
  interrupter : XhciInterrupter
  erdp : Nat
  call : ConsumeCall
  -- The controller has a pointer and a cycle state of its own.
  enqueuePointer : Nat
  pcs : Bool
  produced : List RawXhciTrb
  consumed : List RawXhciTrb

inductive EventRingAction where
  | produce (event : RawXhciTrb)
  | consumeEvents
  | handlerStep

/-- The controller posts such events only. -/
def EventRingAction.Posts (events : Set RawXhciTrb) : EventRingAction → Prop
  | .produce event => event ∈ events
  | .consumeEvents | .handlerStep => True

theorem EventRingAction.Posts.mono {events events' : Set RawXhciTrb} {action : EventRingAction}
    (posts : action.Posts events) (subset : events ⊆ events') : action.Posts events' := by
  cases action with
  | produce event => exact subset posts
  | consumeEvents => trivial
  | handlerStep => trivial

instance (events : Set RawXhciTrb) [DecidablePred (· ∈ events)] (action : EventRingAction) :
    Decidable (action.Posts events) :=
  match action with
  | .produce event => inferInstanceAs (Decidable (event ∈ events))
  | .consumeEvents | .handlerStep => isTrue trivial

namespace EventRing

/-- `XhciInterrupter::new`: two pages that are zero, and the registers. -/
def new (page : Nat) (rest : Nat → RawXhciTrb) (register : Nat) : EventRing where
  memory := fun a => if 0x1000 * page ≤ a ∧ a < 0x1000 * (page + 2) then .zero else rest a
  interrupter := .new (0x1000 * page)
  erdp := setEventRingDequeuePointer register (0x1000 * page)
  call := .returned
  enqueuePointer := 0x1000 * page
  pcs := true
  produced := []
  consumed := []

variable (s : EventRing)

/-- The slot after the one that the controller writes to. -/
def nextEnqueue : Nat :=
  if s.enqueuePointer + 16 = s.interrupter.segment + 16 * 512 then s.interrupter.segment
  else s.enqueuePointer + 16

/-- The controller never fills the slot before the dequeue pointer that it was told. -/
def isFull : Bool := s.nextEnqueue == s.erdp / 16 * 16

def produce (event : RawXhciTrb) : EventRing :=
  let event := event.setBit 0 s.pcs
  { s with
    memory := Function.update s.memory s.enqueuePointer event
    enqueuePointer := s.nextEnqueue
    pcs := if s.enqueuePointer + 16 = s.interrupter.segment + 16 * 512 then !s.pcs else s.pcs
    produced := s.produced ++ [event] }

/-- The block that the dequeue pointer names. -/
def current : RawXhciTrb := s.memory s.interrupter.dequeuePointer

def handlerStep : Option EventRing :=
  match s.call with
  | .looping =>
    if s.current.cycle = s.interrupter.css then some { s with call := .consuming }
    else some { s with call := .stopping }
  | .consuming =>
    match XhciTrbId.fromU32 s.current.trbType with
    | none => some { s with call := .panicked }
    | some _ => some { s with
        call := .looping
        interrupter := s.interrupter.advance
        consumed := s.consumed ++ [s.current] }
  | .stopping => some { s with
      call := .returned
      erdp := setEventRingDequeuePointer s.erdp s.interrupter.dequeuePointer }
  | .returned | .panicked => none

def serve (s : EventRing) : EventRingAction → Option EventRing
  | .produce event => if s.isFull then none else some (s.produce event)
  | .consumeEvents =>
    match s.call with
    | .returned => some { s with call := .looping }
    | _ => none
  | .handlerStep => s.handlerStep

/-- The slot of a position in the segment. -/
def slot (page n : Nat) : Nat := 0x1000 * page + 16 * (n % 512)

/-- Events are consumed as they were produced, and pointer, cycle state and register say how
many. -/
structure InOrder (page : Nat) (s : EventRing) : Prop where
  order : s.consumed <+: s.produced
  dequeuePointer : s.interrupter.dequeuePointer = slot page s.consumed.length
  css : s.interrupter.css = CycleRing.lapBit 512 s.consumed.length
  goesOn : s.call = .looping →
    (s.current.cycle = s.interrupter.css ↔ s.consumed.length < s.produced.length)
  event : s.call = .consuming → s.produced[s.consumed.length]? = some s.current
  erdp : s.call = .returned → s.erdp / 16 * 16 = slot page s.consumed.length

/-- The steps that the handler takes without the controller. -/
abbrev HandlerRun : EventRing → EventRing → Prop :=
  Requests.Run serve fun _ action => action = .consumeEvents ∨ action = .handlerStep

/-- None of the events is left behind either: the handler alone goes on to consume them all. -/
structure ConsumesAll (page : Nat) (s : EventRing) : Prop extends InOrder page s where
  drains : ∃ s', HandlerRun s s' ∧ s'.call = .returned ∧ s'.consumed = s.produced

/-- The invariant: the filled slots are the ones that hold the events not consumed yet, and the
controller was told of a position that is not behind them. -/
structure InPhase (page : Nat) (s : EventRing) : Prop where
  segment : s.interrupter.segment = 0x1000 * page
  endAddress : s.interrupter.endAddress = 0x1000 * page + 16 * 512
  dequeuePointer : s.interrupter.dequeuePointer = slot page s.consumed.length
  css : s.interrupter.css = CycleRing.lapBit 512 s.consumed.length
  enqueuePointer : s.enqueuePointer = slot page s.produced.length
  pcs : s.pcs = CycleRing.lapBit 512 s.produced.length
  window : CycleRing.Window 512 (fun i => (s.memory (0x1000 * page + 16 * i)).cycle)
    s.consumed.length s.produced.length
  contents : ∀ n, s.consumed.length ≤ n → n < s.produced.length →
    s.produced[n]? = some (s.memory (slot page n))
  order : s.consumed <+: s.produced
  told : ∃ r ≤ s.consumed.length, s.produced.length < r + 512 ∧ s.erdp / 16 * 16 = slot page r ∧
    (s.call = .returned → r = s.consumed.length)
  consuming : s.call = .consuming → s.consumed.length < s.produced.length

/-- The handler knows the types of all events, and so does not panic. -/
structure Knows (s : EventRing) : Prop where
  types : ∀ event ∈ s.produced, (XhciTrbId.fromU32 event.trbType).isSome
  goesOn : s.call ≠ .panicked

variable {s : EventRing} {page : Nat}

private theorem slot_aligned (page n : Nat) : slot page n % 16 = 0 := by
  rw [slot]
  omega

private theorem told_setEventRingDequeuePointer (register page n : Nat) :
    setEventRingDequeuePointer register (slot page n) / 16 * 16 = slot page n := by
  have aligned := slot_aligned page n
  rw [setEventRingDequeuePointer]
  omega

theorem slot_succ (page n : Nat) :
    (slot page n + 16 = 0x1000 * page + 16 * 512 ∧ slot page (n + 1) = 0x1000 * page ∧
      CycleRing.lapBit 512 (n + 1) = !CycleRing.lapBit 512 n) ∨
    (slot page n + 16 ≠ 0x1000 * page + 16 * 512 ∧ slot page (n + 1) = slot page n + 16 ∧
      CycleRing.lapBit 512 (n + 1) = CycleRing.lapBit 512 n) := by
  rcases CycleRing.next_position (n := n) (show 0 < 512 by decide) with
    ⟨inside, next, same⟩ | ⟨ends, next, other⟩
  · refine Or.inr ⟨?_, ?_, same⟩
    · rw [slot]
      omega
    · rw [slot, slot, next]
      omega
  · refine Or.inl ⟨?_, ?_, other⟩
    · rw [slot]
      omega
    · rw [slot, next]
      rfl

private theorem inPhase_new (page : Nat) (rest : Nat → RawXhciTrb) (register : Nat) :
    InPhase page (new page rest register) where
  segment := rfl
  endAddress := rfl
  dequeuePointer := rfl
  css := CycleRing.lapBit_zero.symm
  enqueuePointer := rfl
  pcs := CycleRing.lapBit_zero.symm
  window := CycleRing.Window.empty fun i inside => by
    have zeroed : (new page rest register).memory (0x1000 * page + 16 * i) = .zero :=
      if_pos ⟨by omega, by omega⟩
    show ((new page rest register).memory (0x1000 * page + 16 * i)).cycle = false
    rw [zeroed]
    rfl
  contents n _ before := absurd before (Nat.not_lt_zero n)
  order := List.prefix_rfl
  told := ⟨0, Nat.le_refl 0, (by decide : 0 < 0 + 512),
    told_setEventRingDequeuePointer register page 0,
    fun _ => rfl⟩
  consuming waits := by cases waits

private theorem InPhase.nextEnqueue_eq (phase : InPhase page s) :
    s.nextEnqueue = slot page (s.produced.length + 1) := by
  rw [nextEnqueue, phase.enqueuePointer, phase.segment]
  rcases slot_succ page s.produced.length with ⟨ends, next, _⟩ | ⟨inside, next, _⟩
  · rw [if_pos ends, next]
  · rw [if_neg inside, next]

/-- The slot that the controller writes is free. -/
theorem InPhase.room (phase : InPhase page s) (space : ¬s.isFull) :
    ∃ r ≤ s.consumed.length, s.produced.length + 1 < r + 512 ∧ s.erdp / 16 * 16 = slot page r ∧
      (s.call = .returned → r = s.consumed.length) := by
  obtain ⟨r, behind, ahead, named, returned⟩ := phase.told
  refine ⟨r, behind, ?_, named, returned⟩
  by_contra last
  have whole : s.produced.length + 1 = r + 512 := by omega
  refine space (beq_iff_eq.mpr ?_)
  rw [phase.nextEnqueue_eq, named, whole, slot, slot, Nat.add_mod_right]

private theorem inPhase_produce (phase : InPhase page s) (space : ¬s.isFull) (event : RawXhciTrb) :
    InPhase page (s.produce event) := by
  obtain ⟨r, behind, ahead, named, returned⟩ := phase.room space
  have next := phase.nextEnqueue_eq
  have length : (s.produce event).produced.length = s.produced.length + 1 := by simp [produce]
  have written : ∀ a, (s.produce event).memory a =
      if a = slot page s.produced.length then event.setBit 0 s.pcs else s.memory a := by
    intro a
    rw [← phase.enqueuePointer]
    exact Function.update_apply _ _ _ _
  have bit : (s.produce event).pcs = CycleRing.lapBit 512 (s.produced.length + 1) := by
    show (if s.enqueuePointer + 16 = s.interrupter.segment + 16 * 512 then !s.pcs else s.pcs) = _
    rw [phase.enqueuePointer, phase.segment, phase.pcs]
    rcases slot_succ page s.produced.length with ⟨ends, _, other⟩ | ⟨inside, _, same⟩
    · rw [if_pos ends, other]
    · rw [if_neg inside, same]
  refine ⟨phase.segment, phase.endAddress, phase.dequeuePointer, phase.css, ?_, ?_, ?_, ?_, ?_, ?_,
    ?_⟩
  · rw [length]
    exact next
  · rw [length, bit]
  · rw [length]
    refine phase.window.put (by omega) ?_ fun i other => ?_
    · have here := written (slot page s.produced.length)
      rw [if_pos rfl] at here
      show ((s.produce event).memory (slot page s.produced.length)).cycle = _
      rw [here]
      exact (RawXhciTrb.isSet_setBit _ (by decide) _).trans phase.pcs
    · rw [written, if_neg]
      rw [slot]
      omega
  · intro n after before
    rw [length] at before
    rw [written]
    by_cases new : n = s.produced.length
    · rw [new, if_pos rfl]
      exact List.getElem?_concat_length
    · have old : n < s.produced.length := by omega
      have elsewhere : slot page n ≠ slot page s.produced.length := by
        have near : s.produced.length < n + 512 := by
          have : s.consumed.length ≤ n := after
          omega
        have different := CycleRing.slot_ne old near
        rw [slot, slot]
        omega
      rw [if_neg elsewhere, ← phase.contents n after old]
      exact List.getElem?_append_left old
  · exact phase.order.trans (List.prefix_append _ _)
  · exact ⟨r, behind, by rw [length]; omega, named, returned⟩
  · intro waits
    rw [length]
    exact Nat.lt_succ_of_lt (phase.consuming waits)

/-- The check of the loop tells whether an event is left. -/
theorem InPhase.goesOn (phase : InPhase page s) :
    s.current.cycle = s.interrupter.css ↔ s.consumed.length < s.produced.length := by
  rw [current, phase.dequeuePointer, phase.css]
  exact phase.window.filled_iff (by decide)

private theorem InPhase.current_eq (phase : InPhase page s)
    (left : s.consumed.length < s.produced.length) :
    s.produced[s.consumed.length]? = some s.current := by
  rw [current, phase.dequeuePointer]
  exact phase.contents _ (Nat.le_refl _) left

/-- Pointer and cycle state after an event. -/
theorem InPhase.advance (phase : InPhase page s) :
    s.interrupter.advance.segment = 0x1000 * page ∧
    s.interrupter.advance.endAddress = 0x1000 * page + 16 * 512 ∧
    s.interrupter.advance.dequeuePointer = slot page (s.consumed.length + 1) ∧
    s.interrupter.advance.css = CycleRing.lapBit 512 (s.consumed.length + 1) := by
  rw [XhciInterrupter.advance, phase.dequeuePointer, phase.endAddress]
  rcases slot_succ page s.consumed.length with ⟨ends, next, other⟩ | ⟨inside, next, same⟩
  · rw [if_pos ends, next, other]
    exact ⟨phase.segment, rfl, phase.segment, congrArg (!·) phase.css⟩
  · rw [if_neg inside, next, same]
    exact ⟨phase.segment, rfl, rfl, phase.css⟩

private theorem inPhase_consume (phase : InPhase page s) (waits : s.call = .consuming) :
    InPhase page { s with
      call := .looping
      interrupter := s.interrupter.advance
      consumed := s.consumed ++ [s.current] } := by
  have left := phase.consuming waits
  have event := phase.current_eq left
  have length : (s.consumed ++ [s.current]).length = s.consumed.length + 1 := by simp
  obtain ⟨r, behind, ahead, named, _⟩ := phase.told
  obtain ⟨segment, endAddress, dequeuePointer, css⟩ := phase.advance
  refine ⟨segment, endAddress, ?_, ?_, phase.enqueuePointer, phase.pcs, ?_, ?_, ?_, ?_, ?_⟩
  · rw [length]
    exact dequeuePointer
  · rw [length]
    exact css
  · rw [length]
    exact phase.window.take left
  · intro n after before
    rw [length] at after
    exact phase.contents n (by omega) before
  · exact CycleRing.consumed_concat phase.order event
  · exact ⟨r, by rw [length]; omega, ahead, named, fun ends => by cases ends⟩
  · intro waits
    cases waits

/-- What a step of the handler does. -/
private theorem handlerStep_cases {s' : EventRing} (ran : s.handlerStep = some s') :
    (s.call = .looping ∧ s.current.cycle = s.interrupter.css ∧
      s' = { s with call := .consuming }) ∨
    (s.call = .looping ∧ s' = { s with call := .stopping }) ∨
    (s.call = .consuming ∧ XhciTrbId.fromU32 s.current.trbType = none ∧
      s' = { s with call := .panicked }) ∨
    (s.call = .consuming ∧ s' = { s with
      call := .looping
      interrupter := s.interrupter.advance
      consumed := s.consumed ++ [s.current] }) ∨
    (s.call = .stopping ∧ s' = { s with
      call := .returned
      erdp := setEventRingDequeuePointer s.erdp s.interrupter.dequeuePointer }) := by
  unfold handlerStep at ran
  split at ran
  next call =>
    split at ran
    next filled => exact .inl ⟨call, filled, (Option.some.inj ran).symm⟩
    next => exact .inr (.inl ⟨call, (Option.some.inj ran).symm⟩)
  next call =>
    split at ran
    next unknown => exact .inr (.inr (.inl ⟨call, unknown, (Option.some.inj ran).symm⟩))
    next => exact .inr (.inr (.inr (.inl ⟨call, (Option.some.inj ran).symm⟩)))
  next call => exact .inr (.inr (.inr (.inr ⟨call, (Option.some.inj ran).symm⟩)))
  next => cases ran
  next => cases ran

/-- A call that goes on. -/
private theorem InPhase.setCall (phase : InPhase page s) {call : ConsumeCall}
    (goesOn : call ≠ .returned)
    (left : call = .consuming → s.consumed.length < s.produced.length) :
    InPhase page { s with call } := by
  obtain ⟨r, behind, ahead, named, _⟩ := phase.told
  exact { phase with
    told := ⟨r, behind, ahead, named, fun ends => absurd ends goesOn⟩
    consuming := left }

private theorem inPhase_handlerStep {s' : EventRing} (phase : InPhase page s)
    (ran : s.handlerStep = some s') : InPhase page s' := by
  rcases handlerStep_cases ran with ⟨_, filled, rfl⟩ | ⟨_, rfl⟩ | ⟨_, _, rfl⟩ | ⟨waits, rfl⟩ |
    ⟨_, rfl⟩
  · exact phase.setCall nofun fun _ => phase.goesOn.mp filled
  · exact phase.setCall nofun nofun
  · exact phase.setCall nofun nofun
  · exact inPhase_consume phase waits
  · obtain ⟨r, behind, ahead, _, _⟩ := phase.told
    refine { phase with
      told := ⟨s.consumed.length, Nat.le_refl _, Nat.lt_of_lt_of_le ahead (by omega), ?_,
        fun _ => rfl⟩
      consuming := fun waits => by cases waits }
    rw [phase.dequeuePointer]
    exact told_setEventRingDequeuePointer _ _ _

private theorem inPhase_serve {s' : EventRing} (phase : InPhase page s) (action : EventRingAction)
    (ran : serve s action = some s') : InPhase page s' := by
  cases action with
  | produce event =>
    simp only [serve] at ran
    split at ran
    next => cases ran
    next space =>
      obtain rfl := Option.some.inj ran
      exact inPhase_produce phase space event
  | consumeEvents =>
    simp only [serve] at ran
    split at ran
    next =>
      obtain rfl := Option.some.inj ran
      exact phase.setCall nofun nofun
    next => cases ran
  | handlerStep => exact inPhase_handlerStep phase ran

theorem InPhase.inOrder (phase : InPhase page s) : InOrder page s := by
  obtain ⟨r, _, _, named, returned⟩ := phase.told
  exact {
    order := phase.order
    dequeuePointer := phase.dequeuePointer
    css := phase.css
    goesOn := fun _ => phase.goesOn
    event := fun waits => phase.current_eq (phase.consuming waits)
    erdp := fun ends => returned ends ▸ named }

theorem serve_consuming (waits : s.call = .consuming)
    (known : (XhciTrbId.fromU32 s.current.trbType).isSome) :
    serve s .handlerStep = some { s with
      call := .looping
      interrupter := s.interrupter.advance
      consumed := s.consumed ++ [s.current] } := by
  obtain ⟨id, type⟩ := Option.isSome_iff_exists.mp known
  simp only [serve, handlerStep, waits, type]

private theorem knows_serve {s' : EventRing} (phase : InPhase page s) (knows : s.Knows)
    (action : EventRingAction) (posts : action.Posts {event |
      (XhciTrbId.fromU32 event.trbType).isSome}) (ran : serve s action = some s') : s'.Knows := by
  cases action with
  | produce event =>
    simp only [serve] at ran
    split at ran
    next => cases ran
    next =>
      obtain rfl := Option.some.inj ran
      refine ⟨fun event' member => ?_, knows.goesOn⟩
      rcases List.mem_append.mp member with old | new
      · exact knows.types event' old
      · rw [List.mem_singleton.mp new, RawXhciTrb.trbType_setBit _ (by decide) (by decide)]
        exact posts
  | consumeEvents =>
    simp only [serve] at ran
    split at ran
    next =>
      obtain rfl := Option.some.inj ran
      exact ⟨knows.types, nofun⟩
    next => cases ran
  | handlerStep =>
    rcases handlerStep_cases ran with ⟨_, _, rfl⟩ | ⟨_, rfl⟩ | ⟨waits, unknown, _⟩ | ⟨_, rfl⟩ |
      ⟨_, rfl⟩
    · exact ⟨knows.types, nofun⟩
    · exact ⟨knows.types, nofun⟩
    · have event := phase.current_eq (phase.consuming waits)
      have known := knows.types _ (List.mem_of_getElem? event)
      rw [unknown] at known
      cases known
    · exact ⟨knows.types, nofun⟩
    · exact ⟨knows.types, nofun⟩

theorem drain_looping (phase : InPhase page s) (loops : s.call = .looping) (knows : s.Knows) :
    ∃ s', HandlerRun s s' ∧ s'.call = .returned ∧ s'.consumed = s.produced := by
  induction left : s.produced.length - s.consumed.length generalizing s with
  | zero =>
    have all : s.consumed = s.produced := by
      refine phase.order.eq_of_length_le ?_
      omega
    have stops : ¬s.current.cycle = s.interrupter.css := fun filled => by
      have := phase.goesOn.mp filled
      omega
    let stopping : EventRing := { s with call := .stopping }
    have first : serve s .handlerStep = some stopping := by
      simp only [serve, handlerStep, loops, stops, if_false, stopping]
    have second : serve stopping .handlerStep = some { stopping with
        call := .returned
        erdp := setEventRingDequeuePointer s.erdp s.interrupter.dequeuePointer } := rfl
    exact ⟨_, .tail (.single ⟨_, .inr rfl, first⟩) ⟨_, .inr rfl, second⟩, rfl, all⟩
  | succ n ih =>
    have filled := phase.goesOn.mpr (by omega)
    let consuming : EventRing := { s with call := .consuming }
    have first : serve s .handlerStep = some consuming := by
      simp only [serve, handlerStep, loops, filled, if_true, consuming]
    have event := phase.current_eq (by omega)
    have second := serve_consuming (s := consuming) rfl
      (knows.types _ (List.mem_of_getElem? event))
    have kept := inPhase_handlerStep (inPhase_handlerStep phase first) second
    obtain ⟨s', later, returned, consumed⟩ := ih kept rfl ⟨knows.types, nofun⟩ (by
      show s.produced.length - (s.consumed ++ [s.current]).length = n
      rw [List.length_append, List.length_singleton]
      omega)
    refine ⟨s', ?_, returned, consumed⟩
    exact .head ⟨_, .inr rfl, first⟩ (.head ⟨_, .inr rfl, second⟩ later)

/-- So does one that is called, and one that is left inside its call. -/
theorem drain (phase : InPhase page s) (knows : s.Knows) :
    ∃ s', HandlerRun s s' ∧ s'.call = .returned ∧ s'.consumed = s.produced := by
  have called {s : EventRing} (phase : InPhase page s) (knows : s.Knows)
      (returned : s.call = .returned) :
      ∃ s', HandlerRun s s' ∧ s'.call = .returned ∧ s'.consumed = s.produced := by
    let looping : EventRing := { s with call := .looping }
    have first : serve s .consumeEvents = some looping := by
      simp only [serve, returned, looping]
    obtain ⟨s', later, ends⟩ :=
      drain_looping (inPhase_serve phase .consumeEvents first) rfl ⟨knows.types, nofun⟩
    exact ⟨s', .head ⟨_, .inl rfl, first⟩ later, ends⟩
  cases call : s.call with
  | returned => exact called phase knows call
  | looping => exact drain_looping phase call knows
  | consuming =>
    have event := phase.current_eq (phase.consuming call)
    have first := serve_consuming call (knows.types _ (List.mem_of_getElem? event))
    obtain ⟨s', later, ends⟩ :=
      drain_looping (inPhase_handlerStep phase first) rfl ⟨knows.types, nofun⟩
    exact ⟨s', .head ⟨_, .inr rfl, first⟩ later, ends⟩
  | stopping =>
    have first : serve s .handlerStep = some { s with
        call := .returned
        erdp := setEventRingDequeuePointer s.erdp s.interrupter.dequeuePointer } := by
      simp only [serve, handlerStep, call]
    obtain ⟨s', later, ends⟩ :=
      called (inPhase_handlerStep phase first) ⟨knows.types, nofun⟩ rfl
    exact ⟨s', .head ⟨_, .inr rfl, first⟩ later, ends⟩
  | panicked => exact absurd call knows.goesOn

/-- A handler that panicked does nothing more. -/
theorem not_returned_of_panicked {s' : EventRing} (panicked : s.call = .panicked)
    (run : HandlerRun s s') : s'.call ≠ .returned := by
  rcases Relation.ReflTransGen.cases_head run with rfl | ⟨middle, ⟨action, handler, ran⟩, _⟩
  · rw [panicked]
    nofun
  · rcases handler with rfl | rfl
    · simp only [serve, panicked] at ran
      cases ran
    · simp only [serve, handlerStep, panicked] at ran
      cases ran

/-- An event of a type that `from_u32` does not know ends in a panic. -/
theorem exists_panicked (page : Nat) (rest : Nat → RawXhciTrb) (register : Nat)
    {event : RawXhciTrb} (unknown : XhciTrbId.fromU32 event.trbType = none) :
    ∃ s, Requests.Run serve (fun _ => EventRingAction.Posts {event}) (new page rest register) s ∧
      s.call = .panicked ∧ s.consumed = [] ∧ s.produced = [event.setBit 0 true] := by
  have phase := inPhase_new page rest register
  have space : ¬(new page rest register).isFull := fun full => by
    have same := beq_iff_eq.mp full
    rw [phase.nextEnqueue_eq] at same
    have told := told_setEventRingDequeuePointer register page 0
    have next : slot page (0 + 1) = slot page 0 := same.trans told
    rw [slot, slot] at next
    omega
  let produced := (new page rest register).produce event
  let looping : EventRing := { produced with call := .looping }
  let consuming : EventRing := { produced with call := .consuming }
  have first : serve (new page rest register) (.produce event) = some produced := by
    rw [serve, if_neg space]
  have phase' := inPhase_produce phase space event
  have second : serve produced .consumeEvents = some looping := rfl
  have phase'' := inPhase_serve phase' .consumeEvents second
  have filled := phase''.goesOn.mpr Nat.one_pos
  have third : serve looping .handlerStep = some consuming := by
    simp only [serve, handlerStep, looping] at filled ⊢
    rw [if_pos filled]
  have current : consuming.current = event.setBit 0 true :=
    (Option.some.inj (phase''.current_eq Nat.one_pos)).symm
  have fourth : serve consuming .handlerStep = some { consuming with call := .panicked } := by
    have type : XhciTrbId.fromU32 consuming.current.trbType = none := by
      rw [current, RawXhciTrb.trbType_setBit _ (by decide) (by decide), unknown]
    simp only [serve, handlerStep, consuming] at type ⊢
    rw [type]
  refine ⟨{ consuming with call := .panicked }, ?_, rfl, rfl, rfl⟩
  exact .tail (.tail (.tail (.single ⟨.produce event, rfl, first⟩)
    ⟨.consumeEvents, trivial, second⟩) ⟨.handlerStep, trivial, third⟩)
    ⟨.handlerStep, trivial, fourth⟩

/-- In every run in which the controller posts such events, they are consumed in order and none
is left behind, exactly if `from_u32` knows the types of all of them. -/
theorem consumed_in_order_iff (events : Set RawXhciTrb) :
    (∀ page rest register s, Requests.Run serve (fun _ => EventRingAction.Posts events)
      (new page rest register) s → ConsumesAll page s) ↔
      ∀ event ∈ events, (XhciTrbId.fromU32 event.trbType).isSome := by
  refine ⟨fun consumes event member => ?_, fun known page rest register s run => ?_⟩
  · by_contra unknown
    obtain ⟨s, run, panicked, _⟩ := exists_panicked 1 (fun _ => .zero) 0
      (Option.not_isSome_iff_eq_none.mp unknown)
    have run := run.mono fun _ action posts => posts.mono (Set.singleton_subset_iff.mpr member)
    obtain ⟨s', later, returned, _⟩ := (consumes 1 _ 0 s run).drains
    exact not_returned_of_panicked panicked later returned
  · obtain ⟨phase, knows⟩ : InPhase page s ∧ s.Knows :=
      run.keeps (I := fun s => InPhase page s ∧ s.Knows)
        ⟨inPhase_new page rest register, nofun, nofun⟩
        fun _ action _ kept posts ran => ⟨inPhase_serve kept.1 action ran,
          knows_serve kept.1 kept.2 action (posts.mono known) ran⟩
    exact ⟨phase.inOrder, drain phase knows⟩

/-- The second event is posted while the first one is handled. -/
def twoEvents : List EventRingAction :=
  [.produce (RawXhciTrb.zero.setType .portStatusChangeEvent), .consumeEvents, .handlerStep,
    .produce (RawXhciTrb.zero.setType .transferEvent), .handlerStep, .handlerStep, .handlerStep,
    .handlerStep, .handlerStep]

theorem consumed_in_order_two : ∃ s, ConsumesAll 1 s ∧ s.call = .returned ∧
    s.consumed.map (XhciTrbId.fromU32 ·.trbType) =
      [some .portStatusChangeEvent, some .transferEvent] := by
  have ran : ((Requests.serveAll serve (fun _ action => action.Posts
      {event | (XhciTrbId.fromU32 event.trbType).isSome}) (new 1 (fun _ => .zero) 0) twoEvents).any
      fun s => decide (s.call = .returned ∧ s.consumed.map (XhciTrbId.fromU32 ·.trbType) =
        [some .portStatusChangeEvent, some .transferEvent])) = true := by
    decide +kernel
  obtain ⟨s, served, shown⟩ := (Option.any_eq_true _ _).1 ran
  have run := Requests.serveAll_run served
  have consumes := (consumed_in_order_iff {event | (XhciTrbId.fromU32 event.trbType).isSome}).mpr
    fun _ known => known
  exact ⟨s, consumes 1 _ 0 s run, of_decide_eq_true shown⟩

/-- A bandwidth request event. -/
def bandwidthRequest : RawXhciTrb := ⟨0, 0, 0, 35 <<< 10⟩

/-- A bandwidth request event is never consumed. -/
theorem not_consumed_bandwidthRequest : ∃ s,
    Requests.Run serve (fun _ => EventRingAction.Posts {bandwidthRequest})
      (new 1 (fun _ => .zero) 0) s ∧
    s.produced = [bandwidthRequest.setBit 0 true] ∧ s.consumed = [] ∧ s.call = .panicked ∧
    ¬ConsumesAll 1 s := by
  obtain ⟨s, run, panicked, none, posted⟩ :=
    exists_panicked 1 (fun _ => .zero) 0
      (show XhciTrbId.fromU32 bandwidthRequest.trbType = none by decide)
  refine ⟨s, run, posted, none, panicked, fun consumes => ?_⟩
  obtain ⟨s', later, returned, _⟩ := consumes.drains
  exact not_returned_of_panicked panicked later returned

end EventRing

end EmkKernel
