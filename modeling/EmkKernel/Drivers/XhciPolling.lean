import EmkKernel.Drivers.XhciTrbs
import EmkKernel.Library.Requests

/-!
# The ring of an interrupt endpoint

The seven Normal blocks and the Link block that `untraited_work2` sets up, a controller that
executes them, and the part of `xhci_interrupt0` that re-arms them. The controller looks at a
block whenever it likes, and posts an event some time after it executed one. The lists at the
end of the state are history.
-/

namespace EmkKernel

/-- Between two events, or where the handler is with one. -/
inductive RearmCall where
  | waiting
  | rearming
  | linking
  deriving DecidableEq

structure PollingRing where
  memory : Nat → RawXhciTrb
  -- The pointer of the endpoint, which only the handler moves.
  enqueuePointer : Nat
  handler : RearmCall
  -- The controller.
  dequeuePointer : Nat
  ccs : Bool
  posted : Nat
  executed : List Nat
  rearmed : List Nat

inductive PollingAction where
  | execute
  | post
  | handle
  deriving DecidableEq

namespace PollingRing

/-- A Normal block of a page that was zero. -/
def normalTrb (maxPacketSize : BitVec 16) : RawXhciTrb :=
  let trb := ((RawXhciTrb.zero.setType .normal).setBit 9 false).setBit 6 false
  let trb := (((trb.setBit 5 true).setBit 4 false).setBit 3 false).setBit 2 false
  { (trb.setBit 1 false).setBit 0 true with dword2 := maxPacketSize.setWidth 32 &&& 0x1FFFF }

/-- The Link block. Its bit 1 is Toggle Cycle. -/
def linkTrb (trbs : Nat) : RawXhciTrb :=
  let trb := (RawXhciTrb.zero.setRingSegmentPointer trbs).setType .link
  (((trb.setBit 0 true).setBit 4 false).setBit 5 false).setBit 1 true

/-- The array of eight blocks in a page. -/
def trbs (page : Fin (2 ^ 52)) (array : Fin 32) : Nat := 0x1000 * page + 16 * (8 * array)

/-- `untraited_work2`. The context of the endpoint holds the pointer, with Dequeue Cycle State. -/
def new (page : Fin (2 ^ 52)) (array : Fin 32) (maxPacketSize : BitVec 16)
    (rest : Nat → RawXhciTrb) : PollingRing where
  memory := fun a =>
    if trbs page array ≤ a ∧ a < trbs page array + 16 * 7 then normalTrb maxPacketSize
    else if a = trbs page array + 16 * 7 then linkTrb (trbs page array)
    else rest a
  enqueuePointer := trbs page array
  handler := .waiting
  dequeuePointer := trbs page array
  ccs := true
  posted := 0
  executed := []
  rearmed := []

variable (s : PollingRing)

/-- The block that the controller is at. -/
def current : RawXhciTrb := s.memory s.dequeuePointer

/-- The controller executes a Normal block and follows a Link block, if it may. -/
def execute : Option PollingRing :=
  if s.current.cycle = s.ccs then
    if s.current.trbType = XhciTrbId.normal.toU32 then
      some { s with
        dequeuePointer := s.dequeuePointer + 16
        executed := s.executed ++ [s.dequeuePointer] }
    else if s.current.trbType = XhciTrbId.link.toU32 then
      some { s with
        dequeuePointer := s.current.ringSegmentPointer
        ccs := if s.current.isSet 1 then !s.ccs else s.ccs }
    else none
  else none

/-- The cycle bit of a block the other way. -/
def toggle (memory : Nat → RawXhciTrb) (a : Nat) : Nat → RawXhciTrb :=
  Function.update memory a ((memory a).setBit 0 (!(memory a).isSet 0))

/-- The next step of the handler. An event does not say which block it is about. -/
def handle : Option PollingRing :=
  match s.handler with
  | .waiting =>
    if s.rearmed.length < s.posted then some { s with handler := .rearming } else none
  | .rearming =>
    let rearmed := s.rearmed ++ [s.enqueuePointer]
    let memory := toggle s.memory s.enqueuePointer
    if (s.memory (s.enqueuePointer + 16)).trbType = XhciTrbId.link.toU32 then
      some { s with memory, rearmed, handler := .linking }
    else
      some { s with
        memory, rearmed, handler := .waiting, enqueuePointer := s.enqueuePointer + 16 }
  | .linking =>
    let link := s.memory (s.enqueuePointer + 16)
    some { s with
      memory := toggle s.memory (s.enqueuePointer + 16)
      handler := .waiting
      enqueuePointer := link.ringSegmentPointer }

def serve (s : PollingRing) : PollingAction → Option PollingRing
  | .execute => s.execute
  | .post => if s.posted < s.executed.length then some { s with posted := s.posted + 1 } else none
  | .handle => s.handle

/-- The controller is about to follow a Link block. -/
def Crosses : Prop :=
  s.current.trbType = XhciTrbId.link.toU32 ∧ s.current.cycle = s.ccs

instance : Decidable s.Crosses := inferInstanceAs (Decidable (_ ∧ _))

/-- Events re-arm what was executed, the blocks are executed lap after lap, and the controller
can go on while blocks are armed. -/
structure GoesOn (page : Fin (2 ^ 52)) (array : Fin 32) (s : PollingRing) : Prop where
  rearmed : s.rearmed <+: s.executed
  armed : ∀ n, s.executed.length ≤ n → n < s.rearmed.length + 7 →
    (s.memory (trbs page array + 16 * (n % 7))).cycle = CycleRing.lapBit 7 n
  once : ∀ n < s.executed.length, s.executed[n]? = some (trbs page array + 16 * (n % 7))
  onward : s.executed.length < s.rearmed.length + 7 → s.current.cycle = s.ccs
  lap : s.current.trbType = XhciTrbId.normal.toU32 →
    s.dequeuePointer = trbs page array + 16 * (s.executed.length % 7) ∧
      s.ccs = CycleRing.lapBit 7 s.executed.length

/-- The invariant. The controller crossed the Link block `x` times and the handler toggled its
bit `t` times, at most once less. -/
structure InStep (ring : Nat) (s : PollingRing) : Prop where
  normal : ∀ i < 7, (s.memory (ring + 16 * i)).trbType = XhciTrbId.normal.toU32
  link : (s.memory (ring + 16 * 7)).trbType = XhciTrbId.link.toU32 ∧
    (s.memory (ring + 16 * 7)).ringSegmentPointer = ring ∧ (s.memory (ring + 16 * 7)).isSet 1 = true
  window : CycleRing.Window 7 (fun i => (s.memory (ring + 16 * i)).cycle)
    s.executed.length (s.rearmed.length + 7)
  events : s.rearmed.length ≤ s.posted ∧ s.posted ≤ s.executed.length ∧
    (s.handler = .rearming → s.rearmed.length < s.posted)
  executed : ∀ n < s.executed.length, s.executed[n]? = some (ring + 16 * (n % 7))
  rearmed : s.rearmed <+: s.executed
  enqueue : s.enqueuePointer = ring + 16 * (if s.handler = .linking then 6
    else s.rearmed.length % 7)
  crossing : ∃ x t, t ≤ x ∧ 7 * x ≤ s.executed.length ∧ s.executed.length ≤ 7 * x + 7 ∧
    s.dequeuePointer = ring + 16 * (s.executed.length - 7 * x) ∧ s.ccs = (x % 2 == 0) ∧
    (s.memory (ring + 16 * 7)).cycle = (t % 2 == 0) ∧ 7 * t ≤ s.rearmed.length ∧
    s.rearmed.length ≤ 7 * t + 7 ∧ (s.rearmed.length = 7 * t + 7 ↔ s.handler = .linking)

variable {s : PollingRing} {ring : Nat}

private theorem toggle_self (memory : Nat → RawXhciTrb) (a : Nat) :
    (toggle memory a a).cycle = !(memory a).cycle := by
  rw [toggle, Function.update_self]
  exact RawXhciTrb.isSet_setBit _ (by decide) _

private theorem toggle_other (memory : Nat → RawXhciTrb) {a b : Nat} (different : b ≠ a) :
    toggle memory a b = memory b := Function.update_of_ne different _ _

theorem toggle_kept (memory : Nat → RawXhciTrb) (a b : Nat) :
    (toggle memory a b).trbType = (memory b).trbType ∧
    (toggle memory a b).ringSegmentPointer = (memory b).ringSegmentPointer ∧
    (toggle memory a b).isSet 1 = (memory b).isSet 1 := by
  by_cases same : b = a
  · rw [toggle, same, Function.update_self]
    exact ⟨RawXhciTrb.trbType_setBit _ (by decide) (by decide) _, rfl,
      RawXhciTrb.isSet_setBit_other _ (by decide) (by decide) _⟩
  · rw [toggle_other memory same]
    exact ⟨rfl, rfl, rfl⟩

theorem link_ne_normal : XhciTrbId.link.toU32 ≠ XhciTrbId.normal.toU32 := by decide

private theorem lapBit_seven {n x : Nat} (after : 7 * x ≤ n) (before : n < 7 * x + 7) :
    CycleRing.lapBit 7 n = (x % 2 == 0) := by
  have lap : n / 7 = x := by omega
  rw [CycleRing.lapBit, lap]

/-- The controller is at a Normal block, or at the Link block after a whole lap. -/
theorem InStep.at (inv : InStep ring s) :
    (s.current.trbType = XhciTrbId.normal.toU32 ∧
      s.dequeuePointer = ring + 16 * (s.executed.length % 7) ∧
      s.ccs = CycleRing.lapBit 7 s.executed.length) ∨
    (s.current.trbType = XhciTrbId.link.toU32 ∧ s.dequeuePointer = ring + 16 * 7) := by
  obtain ⟨x, t, _, after, before, dequeue, ccs, _⟩ := inv.crossing
  by_cases whole : s.executed.length = 7 * x + 7
  · have here : s.dequeuePointer = ring + 16 * 7 := by omega
    refine Or.inr ⟨?_, here⟩
    rw [current, here]
    exact inv.link.1
  · have here : s.dequeuePointer = ring + 16 * (s.executed.length % 7) := by omega
    refine Or.inl ⟨?_, here, ?_⟩
    · rw [current, here]
      exact inv.normal _ (Nat.mod_lt _ (by decide))
    · rw [ccs, lapBit_seven after (by omega)]

/-- Blocks are armed: the controller may go on. -/
theorem InStep.onward (inv : InStep ring s) (armed : s.executed.length < s.rearmed.length + 7) :
    s.current.cycle = s.ccs := by
  rcases inv.at with ⟨_, here, bit⟩ | ⟨_, here⟩
  · rw [current, here, bit]
    exact (inv.window.filled_iff (by decide)).mpr armed
  · -- The handler toggled the bit for every lap but the one that the controller is in.
    obtain ⟨x, t, behind, after, before, dequeue, ccs, bit, below, above, _⟩ := inv.crossing
    have same : t = x := by omega
    rw [current, here, bit, ccs, same]

private theorem normalTrb_dword3 (maxPacketSize : BitVec 16) :
    (normalTrb maxPacketSize).dword3 = 0x421 := by
  simp [normalTrb, RawXhciTrb.setBit, RawXhciTrb.setType, RawXhciTrb.zero, XhciTrbId.toU32]

private theorem linkTrb_dword3 (trbs : Nat) : (linkTrb trbs).dword3 = 0x1803 := by
  simp [linkTrb, RawXhciTrb.setBit, RawXhciTrb.setType, RawXhciTrb.setRingSegmentPointer,
    RawXhciTrb.zero, XhciTrbId.toU32]

private theorem inStep_new (page : Fin (2 ^ 52)) (array : Fin 32) (maxPacketSize : BitVec 16)
    (rest : Nat → RawXhciTrb) :
    InStep (trbs page array) (new page array maxPacketSize rest) := by
  have normal : ∀ i < 7, (new page array maxPacketSize rest).memory (trbs page array + 16 * i) =
      normalTrb maxPacketSize := fun i inside => if_pos ⟨by omega, by omega⟩
  have link : (new page array maxPacketSize rest).memory (trbs page array + 16 * 7) =
      linkTrb (trbs page array) := by
    refine (if_neg ?_).trans (if_pos rfl)
    omega
  have pointer : (linkTrb (trbs page array)).ringSegmentPointer = trbs page array := by
    refine RawXhciTrb.ringSegmentPointer_setRingSegmentPointer .zero ?_ ?_
    · rw [trbs]
      omega
    · rw [trbs]
      omega
  refine ⟨fun i inside => ?_, ?_, ?_, ⟨Nat.le_refl 0, Nat.le_refl 0, fun call => by cases call⟩,
    fun n before => absurd before (Nat.not_lt_zero n), List.prefix_rfl, rfl, ?_⟩
  · rw [normal i inside, RawXhciTrb.trbType, normalTrb_dword3]
    decide
  · rw [link, RawXhciTrb.trbType, RawXhciTrb.isSet, linkTrb_dword3]
    exact ⟨by decide, pointer, by decide⟩
  · refine CycleRing.Window.full fun i inside => ?_
    show ((new page array maxPacketSize rest).memory (trbs page array + 16 * i)).isSet 0 = true
    rw [normal i inside, RawXhciTrb.isSet, normalTrb_dword3]
    decide
  · refine ⟨0, 0, Nat.le_refl 0, Nat.le_refl 0, Nat.zero_le _, rfl, rfl, ?_, Nat.le_refl 0,
      Nat.zero_le _, ?_, fun call => by cases call⟩
    · rw [link, RawXhciTrb.cycle, RawXhciTrb.isSet, linkTrb_dword3]
      decide
    · intro lap
      cases lap

private theorem inStep_execute {s' : PollingRing} (inv : InStep ring s)
    (ran : s.execute = some s') :
    InStep ring s' := by
  obtain ⟨x, t, behind, after, before, dequeue, ccs, bit, below, above, linking⟩ := inv.crossing
  simp only [execute] at ran
  split at ran
  next may =>
    rcases inv.at with ⟨type, here, lap⟩ | ⟨type, here⟩
    · rw [if_pos type] at ran
      obtain rfl := Option.some.inj ran
      have armed : s.executed.length < s.rearmed.length + 7 := by
        refine (inv.window.filled_iff (by decide)).mp ?_
        rw [← lap, ← may, current, here]
      have length : (s.executed ++ [s.dequeuePointer]).length = s.executed.length + 1 := by simp
      refine { inv with
        window := ?_
        events := ?_
        executed := fun n inside => ?_
        rearmed := inv.rearmed.trans (List.prefix_append _ _)
        crossing := ⟨x, t, behind, ?_, ?_, ?_, ccs, bit, below, above, linking⟩ }
      · rw [length]
        exact inv.window.take armed
      · rw [length]
        exact ⟨inv.events.1, Nat.le_succ_of_le inv.events.2.1, inv.events.2.2⟩
      · rw [length] at inside
        by_cases new : n = s.executed.length
        · rw [new, List.getElem?_concat_length, here]
        · rw [List.getElem?_append_left (by omega)]
          exact inv.executed n (by omega)
      · rw [length]
        exact Nat.le_succ_of_le after
      · rw [length]
        have notLast : s.dequeuePointer ≠ ring + 16 * 7 := by omega
        omega
      · rw [length]
        show s.dequeuePointer + 16 = _
        omega
    · -- Both sides agree on the bit, so the handler toggled it once for each lap before this one.
      rw [if_neg (by rw [type]; exact link_ne_normal), if_pos type] at ran
      obtain rfl := Option.some.inj ran
      have whole : s.executed.length = 7 * x + 7 := by omega
      rw [current, here, inv.link.2.1, inv.link.2.2, if_pos rfl]
      have crossed : 7 * (x + 1) ≤ s.executed.length := by omega
      have inside : s.executed.length ≤ 7 * (x + 1) + 7 := by omega
      have first : ring = ring + 16 * (s.executed.length - 7 * (x + 1)) := by omega
      have flipped : (!s.ccs) = ((x + 1) % 2 == 0) := by
        rw [ccs]
        rcases Nat.mod_two_eq_zero_or_one x with even | odd
        · simp [Nat.add_mod, even]
        · simp [Nat.add_mod, odd]
      exact { inv with
        crossing := ⟨x + 1, t, Nat.le_succ_of_le behind, crossed, inside, first,
          flipped, bit, below,
          above, linking⟩ }
  next => cases ran

/-- The blocks other than the one that is toggled, and the types of all of them. -/
theorem InStep.toggled (inv : InStep ring s) (a : Nat) :
    (∀ i < 7, (toggle s.memory a (ring + 16 * i)).trbType = XhciTrbId.normal.toU32) ∧
    (toggle s.memory a (ring + 16 * 7)).trbType = XhciTrbId.link.toU32 ∧
    (toggle s.memory a (ring + 16 * 7)).ringSegmentPointer = ring ∧
    (toggle s.memory a (ring + 16 * 7)).isSet 1 = true := by
  refine ⟨fun i inside => (toggle_kept _ _ _).1.trans (inv.normal i inside), ?_, ?_, ?_⟩
  · exact (toggle_kept _ _ _).1.trans inv.link.1
  · exact (toggle_kept _ _ _).2.1.trans inv.link.2.1
  · exact (toggle_kept _ _ _).2.2.trans inv.link.2.2

/-- The block that the handler re-arms is the one that was executed, and it was free. -/
theorem InStep.rearm (inv : InStep ring s) (call : s.handler = .rearming) :
    s.enqueuePointer = ring + 16 * (s.rearmed.length % 7) ∧
    s.rearmed ++ [s.enqueuePointer] <+: s.executed ∧
    CycleRing.Window 7 (fun i => (toggle s.memory s.enqueuePointer (ring + 16 * i)).cycle)
      s.executed.length (s.rearmed.length + 1 + 7) := by
  have here : s.enqueuePointer = ring + 16 * (s.rearmed.length % 7) := by
    rw [inv.enqueue, call]
    rfl
  obtain ⟨few, sent, left⟩ := inv.events
  have waits : s.rearmed.length < s.executed.length := Nat.lt_of_lt_of_le (left call) sent
  refine ⟨here, ?_, ?_⟩
  · refine CycleRing.consumed_concat inv.rearmed ?_
    rw [here]
    exact inv.executed _ waits
  · have free := inv.window.free (s.rearmed.length + 7) (Nat.le_refl _) (by omega)
    rw [show s.rearmed.length + 1 + 7 = s.rearmed.length + 7 + 1 by omega]
    refine inv.window.put (by omega) ?_ fun i other => ?_
    · rw [Nat.add_mod_right] at free ⊢
      rw [← here] at free ⊢
      rw [toggle_self]
      cases bit : (s.memory s.enqueuePointer).cycle with
      | false =>
        rw [bit] at free
        exact (Bool.eq_true_of_not_eq_false (Ne.symm free)).symm
      | true =>
        rw [bit] at free
        exact (Bool.eq_false_of_not_eq_true (Ne.symm free)).symm
    · rw [Nat.add_mod_right] at other
      rw [toggle_other _ (by omega)]

private theorem inStep_handle {s' : PollingRing} (inv : InStep ring s)
    (crossed : s.handler = .linking → ¬s.Crosses) (ran : s.handle = some s') : InStep ring s' := by
  obtain ⟨x, t, behind, after, before, dequeue, ccs, bit, below, above, linking⟩ := inv.crossing
  obtain ⟨few, sent, left⟩ := inv.events
  obtain ⟨normal, link⟩ := inv.toggled s.enqueuePointer
  cases call : s.handler with
  | waiting =>
    have between : s.rearmed.length ≠ 7 * t + 7 := fun lap => by
      have := linking.mp lap
      rw [call] at this
      cases this
    simp only [handle, call] at ran
    split at ran
    next some =>
      obtain rfl := Option.some.inj ran
      refine { inv with
        events := ⟨few, sent, fun _ => some⟩
        enqueue := ?_
        crossing := ⟨x, t, behind, after, before, dequeue, ccs, bit, below, above,
          fun lap => absurd lap between, fun ends => by cases ends⟩ }
      rw [inv.enqueue, call]
      rfl
    next => cases ran
  | rearming =>
    obtain ⟨here, order, window⟩ := inv.rearm call
    have between : s.rearmed.length ≠ 7 * t + 7 := fun lap => by
      have := linking.mp lap
      rw [call] at this
      cases this
    have length : (s.rearmed ++ [s.enqueuePointer]).length = s.rearmed.length + 1 := by simp
    have notLink : toggle s.memory s.enqueuePointer (ring + 16 * 7) = s.memory (ring + 16 * 7) :=
      toggle_other _ (by omega)
    have bit' := (congrArg RawXhciTrb.cycle notLink).trans bit
    simp only [handle, call] at ran
    by_cases last : s.rearmed.length % 7 = 6
    · have type : (s.memory (s.enqueuePointer + 16)).trbType = XhciTrbId.link.toU32 := by
        rw [here, last]
        exact inv.link.1
      rw [if_pos type] at ran
      obtain rfl := Option.some.inj ran
      refine ⟨normal, link, ?_, ?_, inv.executed, order, ?_, ?_⟩
      · rw [length]
        exact window
      · rw [length]
        exact ⟨left call, sent, fun ends => by cases ends⟩
      · rw [here, last]
        rfl
      · rw [length]
        exact ⟨x, t, behind, after, before, dequeue, ccs, bit', by omega, by omega,
          fun _ => rfl, fun _ => by omega⟩
    · have type : (s.memory (s.enqueuePointer + 16)).trbType ≠ XhciTrbId.link.toU32 := by
        have next := inv.normal (s.rearmed.length % 7 + 1) (by omega)
        rw [here, Nat.add_assoc, ← Nat.mul_succ, next]
        exact link_ne_normal.symm
      rw [if_neg type] at ran
      obtain rfl := Option.some.inj ran
      refine ⟨normal, link, ?_, ?_, inv.executed, order, ?_, ?_⟩
      · rw [length]
        exact window
      · rw [length]
        exact ⟨left call, sent, fun ends => by cases ends⟩
      · rw [length, here]
        have next : (s.rearmed.length + 1) % 7 = s.rearmed.length % 7 + 1 := by omega
        show ring + 16 * (s.rearmed.length % 7) + 16 = ring + 16 * ((s.rearmed.length + 1) % 7)
        omega
      · rw [length]
        exact ⟨x, t, behind, after, before, dequeue, ccs, bit', by omega, by omega,
          fun lap => by omega, fun ends => by cases ends⟩
  | linking =>
    have here : s.enqueuePointer + 16 = ring + 16 * 7 := by
      rw [inv.enqueue, call]
      rfl
    have lap := linking.mpr call
    simp only [handle, call] at ran
    obtain rfl := Option.some.inj ran
    obtain ⟨normal, link⟩ := inv.toggled (s.enqueuePointer + 16)
    -- The handler is behind: else the controller would be about to cross the Link block.
    have gone : t ≠ x := fun same => crossed call (by
      have whole : s.dequeuePointer = ring + 16 * 7 := by omega
      rw [Crosses, current, whole, bit, ccs, same]
      exact ⟨inv.link.1, rfl⟩)
    refine ⟨normal, link, ?_, ⟨few, sent, fun ends => by cases ends⟩, inv.executed, inv.rearmed,
      ?_, ?_⟩
    · have same : ∀ i < 7, toggle s.memory (s.enqueuePointer + 16) (ring + 16 * i) =
          s.memory (ring + 16 * i) := fun i inside => toggle_other _ (by omega)
      exact inv.window.congr (by decide) fun i inside => congrArg RawXhciTrb.cycle (same i inside)
    · rw [here, inv.link.2.1, lap]
      show ring = ring + 16 * ((7 * t + 7) % 7)
      omega
    · have inside : s.rearmed.length < 7 * (t + 1) + 7 := by omega
      refine ⟨x, t + 1, by omega, after, before, dequeue, ccs, ?_, Nat.le_of_eq lap.symm, inside.le,
        fun again => absurd again inside.ne, fun ends => by cases ends⟩
      rw [here, toggle_self, bit]
      rcases Nat.mod_two_eq_zero_or_one t with even | odd
      · simp [Nat.add_mod, even]
      · simp [Nat.add_mod, odd]

theorem InStep.goesOn {page : Fin (2 ^ 52)} {array : Fin 32} (inv : InStep (trbs page array) s) :
    GoesOn page array s where
  rearmed := inv.rearmed
  armed := inv.window.filled
  once := inv.executed
  onward := inv.onward
  lap type := by
    rcases inv.at with ⟨_, here, bit⟩ | ⟨type', _⟩
    · exact ⟨here, bit⟩
    · exact absurd (type'.symm.trans type) link_ne_normal

private theorem inStep_serve {s' : PollingRing} (inv : InStep ring s) (action : PollingAction)
    (crossed : action = .handle → s.handler = .linking → ¬s.Crosses)
    (ran : serve s action = some s') : InStep ring s' := by
  cases action with
  | execute => exact inStep_execute inv ran
  | post =>
    simp only [serve] at ran
    split at ran
    next some =>
      obtain rfl := Option.some.inj ran
      obtain ⟨few, _, left⟩ := inv.events
      exact { inv with
        events := ⟨Nat.le_succ_of_le few, some, fun call => Nat.lt_succ_of_lt (left call)⟩ }
    next => cases ran
  | handle => exact inStep_handle inv (crossed rfl) ran

/-- The handler toggles the bit of the Link block after the controller has crossed it. -/
def Behind (s : PollingRing) (action : PollingAction) : Prop :=
  action = .handle → s.handler = .linking → ¬s.Crosses

instance (s : PollingRing) (action : PollingAction) : Decidable (Behind s action) :=
  inferInstanceAs (Decidable (_ → _ → _))

/-- While the handler stays behind the controller, polling goes on. -/
theorem polling_goes_on (page : Fin (2 ^ 52)) (array : Fin 32) (maxPacketSize : BitVec 16)
    (rest : Nat → RawXhciTrb) (s : PollingRing)
    (run : Requests.Run serve Behind (new page array maxPacketSize rest) s) :
    GoesOn page array s := by
  have inv : InStep (trbs page array) s := run.keeps (inStep_new page array maxPacketSize rest)
    fun _ action _ kept behind ran => inStep_serve kept action behind ran
  exact inv.goesOn

/-- The controller crosses the Link block, and then the events of the lap are handled. -/
def crossingFirst : List PollingAction :=
  List.replicate 8 .execute ++ List.replicate 7 .post ++ List.replicate 15 .handle ++ [.execute]

theorem polling_goes_on_crossing : ∃ s, GoesOn 1 0 s ∧ s.executed.length = 8 ∧
    s.rearmed.length = 7 := by
  have ran : ((Requests.serveAll serve Behind (new 1 0 8 fun _ => .zero) crossingFirst).any
      fun s => decide (s.executed.length = 8 ∧ s.rearmed.length = 7)) = true := by
    decide +kernel
  obtain ⟨s, served, shown⟩ := (Option.any_eq_true _ _).1 ran
  exact ⟨s, polling_goes_on 1 0 8 _ s (Requests.serveAll_run served), of_decide_eq_true shown⟩

/-- The events of the first lap are handled before the controller has looked at the Link block. -/
def handledFirst : List PollingAction :=
  List.replicate 7 .execute ++ List.replicate 7 .post ++ List.replicate 15 .handle

theorem polling_not_goes_on : ∃ s,
    Requests.Run serve (fun _ _ => True) (new 1 0 8 fun _ => .zero) s ∧ ¬GoesOn 1 0 s := by
  have ran : ((Requests.serveAll serve (fun _ _ => True) (new 1 0 8 fun _ => .zero)
      handledFirst).any fun s => decide (s.executed.length < s.rearmed.length + 7 ∧
        ¬s.current.cycle = s.ccs)) = true := by
    decide +kernel
  obtain ⟨s, served, shown⟩ := (Option.any_eq_true _ _).1 ran
  obtain ⟨armed, stops⟩ := of_decide_eq_true shown
  exact ⟨s, Requests.serveAll_run served, fun goes => stops (goes.onward armed)⟩

/-- A handler that overtakes the controller ends the polling: all blocks are armed, and
neither side can do anything. -/
theorem polling_ends {page : Fin (2 ^ 52)} {array : Fin 32} {maxPacketSize : BitVec 16}
    {rest : Nat → RawXhciTrb} {s' : PollingRing}
    (run : Requests.Run serve Behind (new page array maxPacketSize rest) s)
    (call : s.handler = .linking) (overtakes : s.Crosses) (ran : serve s .handle = some s') :
    s'.rearmed = s'.executed ∧ ∀ action, serve s' action = none := by
  have inv : InStep (trbs page array) s := run.keeps (inStep_new page array maxPacketSize rest)
    fun _ action _ kept behind ran => inStep_serve kept action behind ran
  obtain ⟨x, t, behind, after, before, dequeue, ccs, bit, below, above, linking⟩ := inv.crossing
  obtain ⟨few, sent, _⟩ := inv.events
  have lap := linking.mpr call
  have atLink : s.dequeuePointer = trbs page array + 16 * 7 := by
    rcases inv.at with ⟨type, _⟩ | ⟨_, here⟩
    · exact absurd (overtakes.1.symm.trans type) link_ne_normal
    · exact here
  have same : (t % 2 == 0) = (x % 2 == 0) := by
    rw [← bit, ← ccs, ← overtakes.2, current, atLink]
  have even := Bool.eq_iff_iff.mp same
  rw [beq_iff_eq, beq_iff_eq] at even
  -- The ring has room for a lap, so the two sides are in the same one.
  have fits := inv.window.ordered
  have all : s.rearmed.length = s.executed.length := by omega
  have here : s.enqueuePointer + 16 = s.dequeuePointer := by
    rw [inv.enqueue, call, atLink]
    rfl
  simp only [serve, handle, call] at ran
  obtain rfl := Option.some.inj ran
  refine ⟨inv.rearmed.eq_of_length all, fun action => ?_⟩
  cases action with
  | execute =>
    have stops : (toggle s.memory (s.enqueuePointer + 16) s.dequeuePointer).cycle ≠ s.ccs := by
      rw [here, toggle_self, ← overtakes.2, current]
      exact Bool.not_ne_self _
    exact if_neg stops
  | post =>
    exact if_neg (show ¬s.posted < s.executed.length by omega)
  | handle =>
    exact if_neg (show ¬s.rearmed.length < s.posted by omega)

end PollingRing

end EmkKernel
