import EmkKernel.Memory.Basic
import Mathlib.Data.Nat.Find
import Mathlib.Logic.Function.Basic

/-!
# Capabilities of a PCI function

`PciBus::get_capability` follows the list in the configuration header while the function is
switched off in its command register.
-/

namespace EmkKernel

/-- The bytes of the header of 256 bytes. An offset is an `u8`. -/
abbrev ConfigurationHeader := BitVec 8 → BitVec 8

namespace ConfigurationHeader

variable (cfg : ConfigurationHeader)

def status : BitVec 16 := cfg 7 ++ cfg 6

def command : BitVec 16 := cfg 5 ++ cfg 4

def writeCommand (value : BitVec 16) : ConfigurationHeader :=
  Function.update (Function.update cfg 4 (value.setWidth 8)) 5 ((value >>> 8).setWidth 8)

def hasCapabilities : Bool := cfg.status.getLsbD 4

/-- The header while `get_capability` is in its loop. -/
def switchedOff : ConfigurationHeader := cfg.writeCommand (cfg.command &&& ~~~7)

end ConfigurationHeader

namespace PciBus

open ConfigurationHeader

/-- The loop of `get_capability`, for as many rounds as `safety` leaves. -/
def findCapability (cfg : ConfigurationHeader) (capability : BitVec 8) :
    Nat → BitVec 8 → Except Stop (Option (BitVec 8))
  | 0, _ => .ok none
  | n + 1, pos =>
    if pos = 0 then .ok none
    else
      let capId := cfg pos
      -- `pos + 1` is computed in `u8`
      if pos = 255 then .error .panic
      else
        let next := cfg (pos + 1)
        if capId = capability then .ok (some pos) else findCapability cfg capability n next

/-- `get_capability`, with the header that `pci_base` leads to. -/
def getCapability (pciBase : Option ConfigurationHeader) (capability : BitVec 8) :
    Except Stop (Option (BitVec 8) × Option ConfigurationHeader) :=
  match pciBase with
  | none => .ok (none, none)
  | some cfg =>
    if cfg.hasCapabilities = false then .ok (none, some cfg)
    else
      let oldCmd := cfg.command
      let cfg := cfg.switchedOff
      match findCapability cfg capability 64 (cfg 0x34) with
      | .ok (some pos) => .ok (some pos, some (cfg.writeCommand oldCmd))
      | .ok none => .ok (none, some cfg)
      | .error stop => .error stop

end PciBus

open PciBus

namespace ConfigurationHeader

variable {cfg : ConfigurationHeader} {capability p q : BitVec 8}

/-! ### The list -/

/-- Where the elements of the list lie; 0 ends it, and behind 255 there is no pointer. -/
def place (cfg : ConfigurationHeader) : Nat → BitVec 8
  | 0 => cfg 0x34
  | n + 1 =>
    if cfg.place n = 0 ∨ cfg.place n = 255 then 0 else cfg (cfg.place n + 1)

/-- The element at `n` is the first with the id. -/
structure FirstAt (cfg : ConfigurationHeader) (capability : BitVec 8) (n : Nat) (p : BitVec 8) :
    Prop where
  here : cfg.place n = p
  element : p ≠ 0
  has : cfg p = capability
  first : ∀ j < n, cfg (cfg.place j) ≠ capability

/-- The list has the id, and first at the offset. -/
def First (cfg : ConfigurationHeader) (capability p : BitVec 8) : Prop :=
  ∃ n, cfg.FirstAt capability n p

/-- No element of the list has the id. -/
def Lacks (cfg : ConfigurationHeader) (capability : BitVec 8) : Prop :=
  ∀ n, cfg.place n ≠ 0 → cfg (cfg.place n) ≠ capability

theorem First.unique (first : cfg.First capability p) (second : cfg.First capability q) :
    p = q := by
  obtain ⟨n, atP⟩ := first
  obtain ⟨k, atQ⟩ := second
  rcases Nat.lt_trichotomy n k with less | rfl | more
  · exact absurd (atP.here ▸ atP.has) (atQ.first n less)
  · exact atP.here.symm.trans atQ.here
  · exact absurd (atQ.here ▸ atQ.has) (atP.first k more)

private theorem First.not_lacks (first : cfg.First capability p) : ¬cfg.Lacks capability := by
  obtain ⟨n, found⟩ := first
  intro lacks
  apply lacks n
  · rw [found.here]
    exact found.element
  · rw [found.here]
    exact found.has

private theorem place_succ {n : Nat} (element : cfg.place n ≠ 0) (inside : cfg.place n ≠ 255) :
    cfg.place (n + 1) = cfg (cfg.place n + 1) := by
  rw [place, if_neg (not_or.mpr ⟨element, inside⟩)]

private theorem place_ended {n : Nat} (ended : cfg.place n = 0) {k : Nat} (behind : n ≤ k) :
    cfg.place k = 0 := by
  induction k, behind using Nat.le_induction with
  | base => exact ended
  | succ k _ ih => rw [place, if_pos (Or.inl ih)]

/-- A list that does not lack the id has it first somewhere. -/
theorem lacks_or_first (cfg : ConfigurationHeader) (capability : BitVec 8) :
    cfg.Lacks capability ∨ ∃ p, cfg.First capability p := by
  by_cases some : ∃ n, cfg.place n ≠ 0 ∧ cfg (cfg.place n) = capability
  · obtain ⟨element, has⟩ := Nat.find_spec some
    refine Or.inr ⟨_, Nat.find some, rfl, element, has, fun j before same => ?_⟩
    apply Nat.find_min some before
    exact ⟨fun ended => element (place_ended ended before.le), same⟩
  · exact Or.inl fun n element has => some ⟨n, element, has⟩

/-! ### The search -/

/-- How the loop may end when it starts at an element and nothing was found before. -/
inductive Searched (cfg : ConfigurationHeader) (capability : BitVec 8) (last : Nat) :
    Except Stop (Option (BitVec 8)) → Prop
  | found {n : Nat} {p : BitVec 8} (before : n < last) (inside : p ≠ 255)
      (first : cfg.FirstAt capability n p) : Searched cfg capability last (.ok (some p))
  | panics {n : Nat} (before : n < last) (outside : cfg.place n = 255)
      (earlier : ∀ j < n, cfg (cfg.place j) ≠ capability) :
      Searched cfg capability last (.error .panic)
  | absent (inside : ∀ n < last, cfg.place n ≠ 255)
      (lacks : ∀ n < last, cfg.place n ≠ 0 → cfg (cfg.place n) ≠ capability) :
      Searched cfg capability last (.ok none)

private theorem findCapability_searched (cfg : ConfigurationHeader) (capability : BitVec 8)
    (n k : Nat) (inside : ∀ j < k, cfg.place j ≠ 255)
    (earlier : ∀ j < k, cfg (cfg.place j) ≠ capability) :
    cfg.Searched capability (k + n) (findCapability cfg capability n (cfg.place k)) := by
  induction n generalizing k with
  | zero => exact .absent inside fun j before _ => earlier j before
  | succ n ih =>
    rw [findCapability]
    split
    next ended =>
      -- nothing lies behind the end of the list
      refine .absent (fun j _ => ?_) fun j _ element => ?_
      · rcases Nat.lt_or_ge j k with less | behind
        · exact inside j less
        · rw [place_ended ended behind]
          decide
      · rcases Nat.lt_or_ge j k with less | behind
        · exact earlier j less
        · exact absurd (place_ended ended behind) element
    next element =>
      split
      next outside => exact .panics (by omega) outside earlier
      next within =>
        simp only
        split
        next has => exact .found (by omega) within ⟨rfl, element, has, earlier⟩
        next other =>
          have next := place_succ element within
          rw [← next, show k + (n + 1) = k + 1 + n by omega]
          apply ih
          · intro j before
            rcases Nat.lt_succ_iff_lt_or_eq.mp before with less | rfl
            · exact inside j less
            · exact within
          · intro j before
            rcases Nat.lt_succ_iff_lt_or_eq.mp before with less | rfl
            · exact earlier j less
            · exact other

/-! ### The command register -/

@[simp] theorem command_writeCommand (value : BitVec 16) :
    (cfg.writeCommand value).command = value := by
  simp only [command, writeCommand]
  rw [Function.update_self, Function.update_of_ne (by decide), Function.update_self]
  apply BitVec.eq_of_getLsbD_eq
  intro i small
  rw [BitVec.getLsbD_append]
  split
  next low => simp [low]
  next high =>
    simp only [BitVec.getLsbD_setWidth, BitVec.getLsbD_ushiftRight]
    rw [show 8 + (i - 8) = i by omega, decide_eq_true (by omega : i - 8 < 8), Bool.true_and]

private theorem writeCommand_command : cfg.writeCommand cfg.command = cfg := by
  have low : (cfg.command).setWidth 8 = cfg 4 := by
    apply BitVec.eq_of_getLsbD_eq
    intro i small
    rw [BitVec.getLsbD_setWidth, command, BitVec.getLsbD_append, if_pos small,
      decide_eq_true small, Bool.true_and]
  have high : (cfg.command >>> 8).setWidth 8 = cfg 5 := by
    apply BitVec.eq_of_getLsbD_eq
    intro i small
    rw [BitVec.getLsbD_setWidth, BitVec.getLsbD_ushiftRight, command, BitVec.getLsbD_append,
      if_neg (by omega), Nat.add_sub_cancel_left, decide_eq_true small, Bool.true_and]
  rw [writeCommand, low, high, Function.update_eq_self, Function.update_eq_self]

private theorem switchedOff_of_off (off : cfg.command &&& 7 = 0) : cfg.switchedOff = cfg := by
  have same : cfg.command &&& ~~~7 = cfg.command := by
    apply BitVec.eq_of_getLsbD_eq
    intro i small
    have bit : (cfg.command.getLsbD i && (7 : BitVec 16).getLsbD i) = false := by
      rw [← BitVec.getLsbD_and, off]
      exact BitVec.getLsbD_zero
    rw [BitVec.getLsbD_and, BitVec.getLsbD_not, decide_eq_true small, Bool.true_and]
    cases here : cfg.command.getLsbD i with
    | false => rfl
    | true =>
      rw [here, Bool.true_and] at bit
      rw [bit]
      rfl
  rw [switchedOff, same, writeCommand_command]

private theorem off_of_command (same : cfg.switchedOff.command = cfg.command) :
    cfg.command &&& 7 = 0 := by
  rw [switchedOff, command_writeCommand] at same
  rw [← same, BitVec.and_assoc]
  exact BitVec.and_zero

/-! ### The whole search -/

/-- The search ends inside the header, says where the list has the id first if it has it, and
leaves the command register as it was. -/
def SearchesCapability (cfg : ConfigurationHeader) (capability : BitVec 8) : Prop :=
  ∃ result after, getCapability (some cfg) capability = .ok (result, some after) ∧
    (∀ p, result = some p ↔ cfg.hasCapabilities = true ∧ cfg.First capability p) ∧
    after.command = cfg.command

/-- With the function switched off the loop comes to the element that is the first in the
header, or the function was off before and the list is short or stays inside the header, and
it lacks the id. -/
def SearchedRight (cfg : ConfigurationHeader) (capability : BitVec 8) : Prop :=
  cfg.hasCapabilities = false ∨
  (∃ n < 64, ∃ p, p ≠ 255 ∧ cfg.switchedOff.FirstAt capability n p ∧ cfg.First capability p) ∨
  (cfg.command &&& 7 = 0 ∧ (∀ n < 64, cfg.place n ≠ 255) ∧ cfg.Lacks capability)

/-- For every header and every id. -/
theorem searchesCapability_iff (cfg : ConfigurationHeader) (capability : BitVec 8) :
    cfg.SearchesCapability capability ↔ cfg.SearchedRight capability := by
  have searched := findCapability_searched cfg.switchedOff capability 64 0
    (fun j less => absurd less (Nat.not_lt_zero j)) (fun j less => absurd less (Nat.not_lt_zero j))
  rw [Nat.zero_add, place] at searched
  cases list : cfg.hasCapabilities with
  | false =>
    refine ⟨fun _ => Or.inl list, fun _ => ⟨none, cfg, ?_, fun p => ?_, rfl⟩⟩
    · simp only [getCapability, list, if_pos]
    · constructor
      · intro none
        cases none
      · intro both
        rw [list] at both
        cases both.1
  | true =>
    generalize ran : findCapability cfg.switchedOff capability 64 (cfg.switchedOff 0x34) = outcome
      at searched
    cases searched with
    | found before inside first =>
      rename_i n p
      have returns : getCapability (some cfg) capability =
          .ok (some p, some (cfg.switchedOff.writeCommand cfg.command)) := by
        simp only [getCapability, list, Bool.true_eq_false, if_false, ran]
      constructor
      · rintro ⟨result, after, returned, right, _⟩
        cases returns.symm.trans returned
        exact Or.inr (Or.inl ⟨n, before, p, inside, first, ((right p).mp rfl).2⟩)
      · rintro (none | ⟨k, _, q, _, same, found⟩ | ⟨off, _, lacks⟩)
        · cases list.symm.trans none
        · obtain rfl : p = q := First.unique ⟨n, first⟩ ⟨k, same⟩
          refine ⟨_, _, returns, fun q => ⟨fun here => ?_, fun other => ?_⟩,
            command_writeCommand _⟩
          · cases here
            exact ⟨list, found⟩
          · rw [found.unique other.2]
        · rw [switchedOff_of_off off] at first
          exact absurd lacks (First.not_lacks ⟨n, first⟩)
    | panics before outside earlier =>
      rename_i n
      have returns : getCapability (some cfg) capability = .error .panic := by
        simp only [getCapability, list, Bool.true_eq_false, if_false, ran]
      constructor
      · rintro ⟨result, after, returned, _⟩
        cases returns.symm.trans returned
      · rintro (none | ⟨k, _, q, inside, same, _⟩ | ⟨off, inside, _⟩)
        · cases list.symm.trans none
        · -- the element that is found lies before, at or behind the one at 255
          rcases Nat.lt_trichotomy k n with less | rfl | more
          · exact absurd (same.here ▸ same.has) (earlier k less)
          · exact absurd (same.here.symm.trans outside) inside
          · have ended : cfg.switchedOff.place (n + 1) = 0 := by
              rw [place, if_pos (Or.inr outside)]
            exact absurd (same.here.symm.trans (place_ended ended more)) same.element
        · rw [switchedOff_of_off off] at outside
          exact absurd outside (inside n before)
    | absent inside lacks =>
      have returns : getCapability (some cfg) capability = .ok (none, some cfg.switchedOff) := by
        simp only [getCapability, list, Bool.true_eq_false, if_false, ran]
      constructor
      · rintro ⟨result, after, returned, right, restored⟩
        cases returns.symm.trans returned
        have off := off_of_command restored
        rw [switchedOff_of_off off] at inside
        refine Or.inr (Or.inr ⟨off, inside, ?_⟩)
        rcases cfg.lacks_or_first capability with lacks | ⟨p, first⟩
        · exact lacks
        · cases (right p).mpr ⟨list, first⟩
      · rintro (none | ⟨k, before, q, _, same, _⟩ | ⟨off, _, missing⟩)
        · cases list.symm.trans none
        · refine absurd ?_ (lacks k before ?_)
          · rw [same.here]
            exact same.has
          · rw [same.here]
            exact same.element
        · refine ⟨_, _, returns, fun p => ⟨fun here => ?_, fun other => ?_⟩, ?_⟩
          · cases here
          · exact absurd missing other.2.not_lacks
          · rw [switchedOff_of_off off]

/-- A list without elements, on a function that answers to its addresses. -/
def withoutCapabilities : ConfigurationHeader :=
  fun offset => if offset = 4 then 7 else if offset = 6 then 0x10 else 0

/-- The function stays switched off. -/
theorem not_searchesCapability : ¬withoutCapabilities.SearchesCapability 5 := by
  rintro ⟨result, after, returned, _, restored⟩
  have off : (getCapability (some withoutCapabilities) 5).toOption.bind
      (fun r => r.2.map command) = some 0 := by decide
  rw [returned] at off
  have zero : after.command = 0 := Option.some.inj off
  rw [zero] at restored
  exact absurd restored (by decide)

end ConfigurationHeader

end EmkKernel
