import Mathlib.Tactic.IntervalCases
import EmkKernel.Memory.Basic
import EmkKernel.Drivers.EhciQueueHeads

/-!
# Interrupt pollers in the periodic list

`EhciEndpoint::get_interval_in_ms`, the caller in `Keyboard::new_usb`, which narrows the
interval to eight bits, and what `install_interrupt_poller` does with the periodic list.
-/

namespace EmkKernel

open WordFields

/-- The elements of the list, and what was written to. -/
structure PeriodicFrameList where
  elements : Nat → BitVec 32
  written : List Nat

structure FrameListElementPointer where
  linkPointer : BitVec 32
  terminate : Bool
  type : BitVec 32

/-- `from_raw`; a type that is none of the four is a panic. -/
def FrameListElementPointer.fromRaw (val : BitVec 32) : Option FrameListElementPointer :=
  if (val >>> 1).toNat < 4 then some ⟨val >>> 5 <<< 5, val &&& 1 = 1, val >>> 1⟩ else none

namespace PeriodicFrameList

variable (list : PeriodicFrameList)

def getElement (pos : Nat) : Option FrameListElementPointer :=
  FrameListElementPointer.fromRaw (list.elements pos)

def setElement (frame qhAddress : Nat) (type : BitVec 32) : PeriodicFrameList where
  elements := Function.update list.elements frame (BitVec.ofNat 32 qhAddress ||| type <<< 1)
  written := list.written ++ [frame]

/-- The list that `new` writes, before the first poller. -/
structure Free (list : PeriodicFrameList) : Prop where
  elements : ∀ i < 1024, list.elements i = 1
  written : list.written = []

end PeriodicFrameList

/-- What `install_interrupt_poller` reads and writes for the placement. -/
structure EhciPollers where
  periodicList : PeriodicFrameList
  interruptPollersQhs : Nat

namespace EhciPollers

def microFrameToFrameConversionFactor : Nat := 8

/-- The difference is one of `u8` and the shift one of `u16`. -/
def getIntervalInMs (interval : Nat) : Except Stop Nat :=
  if interval = 0 ∨ 16 < interval then .error .panic
  else .ok (2 ^ (interval - 1) / microFrameToFrameConversionFactor)

/-- The placement loop for a number of rounds; nothing is returned if it goes on behind them. -/
def placeQh (frame qhAddress : Nat) : Nat → Nat → PeriodicFrameList → Option PeriodicFrameList
  | 0, _, _ => none
  | rounds + 1, val, list =>
    if val + frame ≤ 1024 then
      placeQh frame qhAddress rounds (val + frame)
        (list.setElement val qhAddress QueueHead.ehciLinkTypeQh)
    else some list

variable (s : EhciPollers)

/-- `install_interrupt_poller`, where `frame` is an `u8`. -/
def installInterruptPoller (rounds frame : Nat) : Option (Except Stop EhciPollers) :=
  match s.periodicList.getElement frame with
  | none => some (.error .panic)
  | some element =>
    if element.terminate = false then some (.error .panic)
    else
      let qhAddress := s.interruptPollersQhs
      (placeQh frame qhAddress rounds 0 s.periodicList).map fun periodicList =>
        .ok { periodicList, interruptPollersQhs := qhAddress + 64 }

/-- What `Keyboard::new_usb` does with the interval of the endpoint. -/
def newUsb (rounds bInterval : Nat) : Option (Except Stop EhciPollers) :=
  match getIntervalInMs bInterval with
  | .error stop => some (.error stop)
  | .ok intervalInMs => s.installInterruptPoller rounds (intervalInMs % 256)

/-- The controller comes from an element of the list to the queue head. -/
structure LeadsTo (element : BitVec 32) (qhAddress : Nat) : Prop where
  valid : element.getLsbD 0 = false
  type : element >>> 1 &&& 3 = QueueHead.ehciLinkTypeQh
  pointer : (element >>> 5 <<< 5).toNat = qhAddress

/-- The queue head is polled: no element outside the list is written, and within a period of
every frame there is one that leads to the queue head. A period is a power of two of
microframes, and at least a frame counts. -/
structure Polls (s s' : EhciPollers) (bInterval : Nat) : Prop where
  inside : ∀ i ∈ s'.periodicList.written, i < 1024
  linked : ∀ frame, ∃ next, frame ≤ next ∧ next < frame + max 1 (2 ^ (bInterval - 1) / 8) ∧
    LeadsTo (s'.periodicList.elements (next % 1024)) s.interruptPollersQhs

/-- The installation ends and the queue head is polled. -/
def Installs (s : EhciPollers) (bInterval : Nat) : Prop :=
  ∃ rounds s', s.newUsb rounds bInterval = some (.ok s') ∧ Polls s s' bInterval

variable {s} {frame qhAddress rounds val bInterval : Nat} {list list' : PeriodicFrameList}

/-! ### The placement loop -/

/-- Without a step the loop never ends. -/
theorem placeQh_zero (small : val ≤ 1024) : placeQh 0 qhAddress rounds val list = none := by
  induction rounds generalizing list with
  | zero => rfl
  | succ rounds ih =>
    rw [placeQh, Nat.add_zero, if_pos small]
    apply ih

/-- The elements at the steps from `val` on, up to the last one with room behind it. -/
structure Placed (frame qhAddress val : Nat) (list list' : PeriodicFrameList) : Prop where
  linked : ∀ k, val + frame * (k + 1) ≤ 1024 →
    list'.elements (val + frame * k) = BitVec.ofNat 32 qhAddress ||| QueueHead.ehciLinkTypeQh <<< 1
  before : ∀ i < val, list'.elements i = list.elements i
  written : ∀ i ∈ list'.written, i ∈ list.written ∨ i + frame ≤ 1024

private theorem placed_of_full (full : ¬val + frame ≤ 1024) :
    Placed frame qhAddress val list list := by
  refine ⟨fun k fits => ?_, fun _ _ => rfl, fun _ member => Or.inl member⟩
  rw [Nat.mul_add] at fits
  omega

private theorem placed_of_room (positive : 0 < frame) (room : val + frame ≤ 1024)
    (placed : Placed frame qhAddress (val + frame)
      (list.setElement val qhAddress QueueHead.ehciLinkTypeQh) list') :
    Placed frame qhAddress val list list' := by
  constructor
  · intro k fits
    cases k with
    | zero =>
      -- the later rounds are behind this element
      rw [Nat.mul_zero, Nat.add_zero, placed.before val (by omega)]
      exact Function.update_self ..
    | succ k =>
      have further : frame * (k + 1) = frame + frame * k := by
        rw [Nat.mul_add]
        omega
      have last : frame * (k + 1 + 1) = frame + frame * (k + 1) := by
        rw [Nat.mul_add]
        omega
      have next := placed.linked k (by omega)
      rwa [Nat.add_assoc, ← further] at next
  · intro i before
    rw [placed.before i (by omega)]
    apply Function.update_of_ne
    omega
  · intro i member
    rcases placed.written i member with old | inside
    · rcases List.mem_append.mp old with older | here
      · exact Or.inl older
      · rw [List.mem_singleton.mp here]
        exact Or.inr room
    · exact Or.inr inside

private theorem placeQh_placed (positive : 0 < frame) (enough : 1024 < val + frame * (rounds + 1)) :
    ∃ list', placeQh frame qhAddress (rounds + 1) val list = some list' ∧
      Placed frame qhAddress val list list' := by
  induction rounds generalizing val list with
  | zero =>
    have full : ¬val + frame ≤ 1024 := by omega
    rw [placeQh, if_neg full]
    exact ⟨list, rfl, placed_of_full full⟩
  | succ rounds ih =>
    rw [placeQh]
    by_cases room : val + frame ≤ 1024
    · have left : 1024 < val + frame + frame * (rounds + 1) := by
        rw [Nat.mul_add] at enough
        omega
      obtain ⟨list', ran, placed⟩ :=
        @ih _ (list.setElement val qhAddress QueueHead.ehciLinkTypeQh) left
      rw [if_pos room]
      exact ⟨list', ran, placed_of_room positive room placed⟩
    · rw [if_neg room]
      exact ⟨list, rfl, placed_of_full room⟩

/-! ### What the controller reads -/

private theorem element_bits (address : Nat) {i : Nat} (small : i < 32) :
    (BitVec.ofNat 32 address ||| QueueHead.ehciLinkTypeQh <<< 1).getLsbD i =
      (address.testBit i || decide (i = 1)) := by
  have one : ∀ n < 32, (QueueHead.ehciLinkTypeQh <<< 1).getLsbD n = decide (n = 1) := by decide
  rw [BitVec.getLsbD_or, one i small, BitVec.getLsbD_ofNat, decide_eq_true small, Bool.true_and]

private theorem leadsTo_element {address : Nat} (aligned : 2 ^ 5 ∣ address)
    (inside : address < 2 ^ 32) :
    LeadsTo (BitVec.ofNat 32 address ||| QueueHead.ehciLinkTypeQh <<< 1) address := by
  have low : ∀ i < 5, address.testBit i = false := by
    intro i below
    obtain ⟨k, rfl⟩ := aligned
    rw [Nat.testBit_two_pow_mul, decide_eq_false (by omega), Bool.false_and]
  have bit := fun i (small : i < 32) => element_bits address small
  generalize BitVec.ofNat 32 address ||| QueueHead.ehciLinkTypeQh <<< 1 = element at bit ⊢
  refine ⟨?_, ?_, ?_⟩
  · rw [bit 0 (by decide), low 0 (by decide)]
    decide
  · have first : element.getLsbD 1 = true := by
      rw [bit 1 (by decide)]
      simp
    have second : element.getLsbD 2 = false := by
      rw [bit 2 (by decide), low 2 (by decide)]
      decide
    exact @QueueHead.linkType_eq ⟨element, 0⟩ first second
  · rw [shift_pointer_eq aligned, Nat.mod_eq_of_lt inside]
    intro i small high
    rw [bit i small, BitVec.getLsbD_ofNat, decide_eq_true small, Bool.true_and,
      decide_eq_false (by omega), Bool.or_false]

/-! ### The intervals -/

private theorem getElement_free (free : s.periodicList.Free) {pos : Nat} (inside : pos < 1024) :
    s.periodicList.getElement pos = some ⟨0, true, 0⟩ := by
  rw [PeriodicFrameList.getElement, free.elements pos inside]
  rfl

/-- A multiple of a divisor of the length of the list comes within the divisor. -/
theorem exists_step (divides : frame ∣ 1024) (i : Nat) :
    ∃ next, i ≤ next ∧ next < i + frame ∧ ∃ k, next % 1024 = frame * k ∧
      frame * (k + 1) ≤ 1024 := by
  obtain ⟨steps, whole⟩ := divides
  have positive : 0 < frame := by
    apply Nat.pos_of_ne_zero
    rintro rfl
    omega
  have some_steps : 0 < steps := by
    apply Nat.pos_of_ne_zero
    rintro rfl
    omega
  refine ⟨frame * ((i + frame - 1) / frame), ?_, ?_, (i + frame - 1) / frame % steps, ?_, ?_⟩
  · have behind := Nat.lt_mul_div_succ (i + frame - 1) positive
    rw [Nat.mul_add] at behind
    omega
  · have before := Nat.mul_div_le (i + frame - 1) frame
    omega
  · rw [whole, Nat.mul_mod_mul_left]
  · have inside := Nat.mod_lt ((i + frame - 1) / frame) some_steps
    rw [whole]
    exact Nat.mul_le_mul_left frame inside

private theorem newUsb_eq (inside : 1 ≤ bInterval ∧ bInterval ≤ 16) (free : s.periodicList.Free) :
    s.newUsb rounds bInterval =
      (placeQh (2 ^ (bInterval - 1) / 8 % 256) s.interruptPollersQhs rounds 0
        s.periodicList).map fun periodicList =>
          .ok { periodicList, interruptPollersQhs := s.interruptPollersQhs + 64 } := by
  have valid : ¬(bInterval = 0 ∨ 16 < bInterval) := by omega
  have small : 2 ^ (bInterval - 1) / 8 % 256 < 1024 := by omega
  rw [newUsb, getIntervalInMs, if_neg valid]
  simp only [installInterruptPoller, microFrameToFrameConversionFactor,
    getElement_free free small]
  rfl

theorem frame_eq (inside : 1 ≤ bInterval ∧ bInterval ≤ 16) :
    (4 ≤ bInterval ∧ bInterval ≤ 11 ∧ 2 ^ (bInterval - 1) / 8 % 256 = 2 ^ (bInterval - 1) / 8 ∧
      2 ^ (bInterval - 1) / 8 ∣ 1024) ∨
    (¬(4 ≤ bInterval ∧ bInterval ≤ 11) ∧ 2 ^ (bInterval - 1) / 8 % 256 = 0) := by
  obtain ⟨low, high⟩ := inside
  interval_cases bInterval <;> decide

private theorem polls_of_placed {periodicList : PeriodicFrameList}
    (free : s.periodicList.Free) (aligned : 2 ^ 6 ∣ s.interruptPollersQhs)
    (below : s.interruptPollersQhs < 2 ^ 32) (divides : 2 ^ (bInterval - 1) / 8 ∣ 1024)
    (placed : Placed (2 ^ (bInterval - 1) / 8) s.interruptPollersQhs 0 s.periodicList
      periodicList) : Polls s ⟨periodicList, s.interruptPollersQhs + 64⟩ bInterval := by
  constructor
  · intro i member
    have positive := Nat.pos_of_dvd_of_pos divides (by decide)
    rcases placed.written i member with old | inside
    · rw [free.written] at old
      cases old
    · omega
  · intro frame
    obtain ⟨next, behind, within, k, here, fits⟩ := exists_step divides frame
    refine ⟨next, behind, by omega, ?_⟩
    have linked := placed.linked k (by omega)
    rw [Nat.zero_add] at linked
    rw [here, linked]
    apply leadsTo_element _ below
    exact Nat.dvd_trans (by decide) aligned

/-- The poller of an endpoint is installed exactly for the exponents from 4 to 11. The
shorter periods are rounded down to a step of no frames, and of the longer ones the eight bits
leave nothing; in both cases the loop does not end. -/
theorem installs_iff (inside : 1 ≤ bInterval ∧ bInterval ≤ 16) (free : s.periodicList.Free)
    (aligned : 2 ^ 6 ∣ s.interruptPollersQhs) (below : s.interruptPollersQhs < 2 ^ 32) :
    Installs s bInterval ↔ 4 ≤ bInterval ∧ bInterval ≤ 11 := by
  rcases frame_eq inside with ⟨low, high, same, divides⟩ | ⟨out, none_left⟩
  · refine ⟨fun _ => ⟨low, high⟩, fun _ => ?_⟩
    have positive := Nat.pos_of_dvd_of_pos divides (by decide)
    have enough : 1024 < 0 + 2 ^ (bInterval - 1) / 8 * (1024 + 1) := by omega
    obtain ⟨periodicList, ran, placed⟩ :=
      @placeQh_placed _ s.interruptPollersQhs _ _ s.periodicList positive enough
    refine ⟨1025, ⟨periodicList, s.interruptPollersQhs + 64⟩, ?_, ?_⟩
    · rw [newUsb_eq inside free, same, ran]
      rfl
    · exact polls_of_placed free aligned below divides placed
  · refine ⟨fun ⟨rounds, s', ran, _⟩ => ?_, fun good => absurd good out⟩
    rw [newUsb_eq inside free, none_left, placeQh_zero (by decide)] at ran
    cases ran

/-- The list and the queue heads of a controller that was just set up. -/
def fresh : EhciPollers where
  periodicList := { elements := fun _ => 1, written := [] }
  interruptPollersQhs := 0x1000

private theorem fresh_free : fresh.periodicList.Free where
  elements _ _ := rfl
  written := rfl

/-- A period of 1 ms and one of 256 ms. -/
theorem installs_iff_exponents : Installs fresh 4 ∧ ¬Installs fresh 12 :=
  ⟨(installs_iff (by decide) fresh_free (by decide) (by decide)).mpr (by decide),
    fun installed => absurd
      ((installs_iff (by decide) fresh_free (by decide) (by decide)).mp installed) (by decide)⟩

/-- An endpoint with a period of one microframe, where the loop writes the first element over and
over. -/
theorem not_installs_everyMicroframe : fresh.periodicList.Free ∧ ¬Installs fresh 1 := by
  refine ⟨fresh_free, fun ⟨rounds, s', ran, _⟩ => ?_⟩
  rw [newUsb_eq (by decide) fresh_free] at ran
  change Option.map _ (placeQh 0 _ rounds 0 _) = _ at ran
  rw [placeQh_zero (by decide)] at ran
  cases ran

end EhciPollers

end EmkKernel
