import EmkKernel.Library.Requests
import EmkKernel.Paging.SmallPages
import EmkKernel.Vfs.StringSlots
import Mathlib.Tactic.Ring

/-!
# The string heap gives back what was stored

A `StringHeap` is a string allocator together with the strings its callers hold.
While no string is longer than 32 bytes and every slot that is left flips a bit that
no held string needs, each string stays in a marked slot of its own.
-/

namespace EmkKernel

open EStateM Stretch

namespace GfsStringAllocator

variable {h : GfsStringAllocator} {c : Fin 3} {k i b : Nat} {text new : Text}
  {e : Nat × Text} {live stay : List (Nat × Text)} {before : Nat → Byte}

/-- A text stored in the slot of a clear bit, the rest of which is cleared. -/
def stored (h : GfsStringAllocator) (c : Fin 3) (i b : Nat) (text : Text) : GfsStringAllocator :=
  { h with
    bytes := fill (put h.bytes (slotAddress c (8 * i + b)) text)
      (slotAddress c (8 * i + b) + text.length) (maximumLength c - text.length) 0
    bitmaps := Function.update h.bitmaps c (mark (h.bitmaps c) i b) }

/-- A text written over the one in its slot. -/
def overwritten (h : GfsStringAllocator) (c : Fin 3) (k oldLength : Nat) (text : Text) :
    GfsStringAllocator :=
  { h with
    bytes := put (if oldLength > text.length then
        fill h.bytes (slotAddress c k + text.length) (oldLength - text.length) 0
      else h.bytes) (slotAddress c k) text }

/-- One bit of a bitmap flipped. -/
def flipped (h : GfsStringAllocator) (c : Fin 3) (k : Nat) : GfsStringAllocator :=
  { h with bitmaps := Function.update h.bitmaps c ((h.bitmaps c).toggled k) }

/-! ### What the operations return -/

theorem Laid.free_slot (laid : h.Laid) (found : findFree (h.bitmaps c) = some (i, b)) :
    8 * i + b < slotCount c := by
  obtain ⟨inside, below, _⟩ := ByteMap.findFree_some found
  have := laid.bitmaps c
  omega

theorem Laid.allocateSlot (laid : h.Laid) (found : findFree (h.bitmaps c) = some (i, b)) :
    h.allocateSlot c text = .ok (some (slotOffset c (8 * i + b)), h.stored c i b text) := by
  have below := laid.free_slot found
  have inside := slot_inside below
  have limit := region_end (c := c)
  have internal : b * maximumLength c + i * (8 * maximumLength c) =
      (8 * i + b) * maximumLength c := by ring
  have small : asU32 ((8 * i + b) * maximumLength c) = (8 * i + b) * maximumLength c :=
    Nat.mod_eq_of_lt (by omega)
  have offset : checkedAdd32 (regionStart c) ((8 * i + b) * maximumLength c) =
      .ok (slotOffset c (8 * i + b)) := if_pos (by omega)
  simp only [GfsStringAllocator.allocateSlot, found, bind, Except.bind, internal,
    laid.range (Nat.le_add_right ..) inside, laid.regionOffset, asU32_regionStart, small, offset]
  rw [copyFromSlice, if_pos rfl, Nat.add_assoc]
  rfl

theorem Laid.aligned (laid : h.Laid) (k : Nat) :
    slotOffset c k % maximumLength c = 0 ∧
      checkedSub (slotOffset c k) (h.regionOffset c.castSucc) = .ok (k * maximumLength c) := by
  constructor
  · have start : regionStart c % maximumLength c = 0 := by fin_cases c <;> rfl
    rw [slotOffset, Nat.add_mul_mod_self_right, start]
  · rw [laid.regionOffset, slotOffset, checkedSub, if_pos (Nat.le_add_right ..),
      Nat.add_sub_cancel_left]

theorem Laid.stays (laid : h.Laid) (holds : h.Holds c k e) (some : new ≠ [])
    (fits : smallClass new.length = Option.some c) :
    h.renameSlot c e.1 e.2.length new =
      .ok (Option.some e.1, h.overwritten c k e.2.length new) := by
  obtain ⟨multiple, internal⟩ := laid.aligned (c := c) k
  have positive := List.length_pos_iff.mpr some
  obtain ⟨short, long⟩ := (smallClass_iff positive).mp fits
  have kept : ¬(new.length > maximumLength c ∨ minimumSize c > new.length ∨ new.length = 0) := by
    omega
  have inside := slot_inside holds.below
  have old := holds.short
  have target := laid.range (c := c) (Nat.le_add_right (k * maximumLength c) new.length)
    (by omega)
  have rest (longer : e.2.length > new.length) :=
    laid.range (c := c) (show k * maximumLength c + new.length ≤ k * maximumLength c + e.2.length by
      omega) (by omega)
  have address : slotAddress c k = gfsStringsFixedVaddr + regionStart c + k * maximumLength c :=
    (Nat.add_assoc ..).symm
  simp only [renameSlot, holds.offset, multiple, internal, if_neg kept, bind, Except.bind, target,
    copyFromSlice, overwritten, address]
  by_cases longer : e.2.length > new.length
  · simp only [ne_eq, not_true_eq_false, if_false, if_pos longer, rest longer, if_true, pure,
      Except.pure, Nat.add_assoc]
  · simp only [ne_eq, not_true_eq_false, if_false, if_neg longer, if_true, pure, Except.pure]

theorem Laid.moves (laid : h.Laid) (holds : h.Holds c k e) (new : Text)
    (moves : smallClass new.length = some c → new = [])
    (inside : k * maximumLength c / 8 / 8 < (h.bitmaps c).length) :
    h.renameSlot c e.1 e.2.length new =
      if new.length ≠ 0 then (h.flipped c (k * maximumLength c / 8)).allocate new
      else .ok (some 0, h.flipped c (k * maximumLength c / 8)) := by
  obtain ⟨multiple, internal⟩ := laid.aligned (c := c) k
  have leaves : new.length > maximumLength c ∨ minimumSize c > new.length ∨ new.length = 0 := by
    by_contra stays
    have positive : 0 < new.length := by omega
    have none := moves ((smallClass_iff positive).mpr (by omega))
    rw [none] at positive
    exact absurd positive (Nat.lt_irrefl 0)
  simp only [renameSlot, holds.offset, multiple, internal, if_pos leaves, bind, Except.bind,
    ne_eq, not_true_eq_false, if_false, ByteMap.toggle_eq inside]
  rfl

/-- A string of more than 32 bytes that gets a place is copied over one byte more
than it has. -/
theorem allocate_long {offset : Nat} {a : NodeAllocator} (long : 32 < text.length)
    (granted : h.allocator.allocateAsOffset (text.length + 1) = .ok (some offset, a)) :
    h.allocate text = .error .panic := by
  have above : smallClass text.length = none := by
    unfold smallClass
    rw [if_neg (by omega), if_neg (by omega), if_neg (by omega)]
  rw [GfsStringAllocator.allocate, above]
  simp only [allocateAbove32, granted, bind, Except.bind]
  cases place : (h.lengths 3).range offset (offset + text.length + 1) with
  | error stop =>
    rw [ByteSlice.range] at place
    split at place <;> cases place
    rfl
  | ok dst =>
    have longer : text.length ≠ text.length + 1 := by omega
    simp only [copyFromSlice, if_neg longer]

/-! ### What the operations change -/

private theorem stored_inside (short : text.length ≤ maximumLength c) {j : Nat}
    (below : j < maximumLength c) :
    (h.stored c i b text).bytes (slotAddress c (8 * i + b) + j) = (text[j]?).getD 0 := by
  by_cases within : j < text.length
  · rw [List.getElem?_eq_getElem within, Option.getD_some]
    exact (fill_outside (Or.inl (by omega))).trans (put_inside within)
  · rw [List.getElem?_eq_none (Nat.le_of_not_lt within), Option.getD_none]
    exact fill_inside (by omega) (by omega)

private theorem stored_outside (short : text.length ≤ maximumLength c) {a : Nat}
    (outside : a < slotAddress c (8 * i + b) ∨
      slotAddress c (8 * i + b) + maximumLength c ≤ a) :
    (h.stored c i b text).bytes a = h.bytes a :=
  (fill_outside (by omega)).trans (put_outside (by omega))

private theorem overwritten_inside (holds : h.Holds c k e) {j : Nat} (below : j < maximumLength c) :
    (h.overwritten c k e.2.length text).bytes (slotAddress c k + j) = (text[j]?).getD 0 := by
  by_cases within : j < text.length
  · rw [List.getElem?_eq_getElem within, Option.getD_some]
    exact put_inside within
  · rw [List.getElem?_eq_none (Nat.le_of_not_lt within), Option.getD_none]
    refine (put_outside (Or.inr (by omega))).trans ?_
    have padding := holds.bytes j below
    split
    next longer =>
      by_cases cleared : j < e.2.length
      · exact fill_inside (by omega) (by omega)
      · rw [fill_outside (Or.inr (by omega)), padding,
          List.getElem?_eq_none (Nat.le_of_not_lt cleared), Option.getD_none]
    next =>
      rw [padding, List.getElem?_eq_none (by omega), Option.getD_none]

private theorem overwritten_outside (holds : h.Holds c k e) (short : text.length ≤ maximumLength c)
    {a : Nat}
    (outside : a < slotAddress c k ∨ slotAddress c k + maximumLength c ≤ a) :
    (h.overwritten c k e.2.length text).bytes a = h.bytes a := by
  have old := holds.short
  refine (put_outside (by omega)).trans ?_
  split
  next => exact fill_outside (by omega)
  next => rfl

/-- Every string held lies in a slot of its own, and the bytes around the regions
are what they were. -/
structure Books (before : Nat → Byte) (h : GfsStringAllocator) (live : List (Nat × Text)) :
    Prop where
  laid : h.Laid
  placed : ∀ e ∈ live, ∃ c k, h.Holds c k e
  distinct : live.Pairwise fun e f => e.1 ≠ f.1
  frame : ∀ a, a < gfsStringsFixedVaddr ∨ gfsStringsFixedVaddr + 81920 ≤ a →
    h.bytes a = before a

private theorem slotAddress_inside {a : Nat} (below : k < slotCount c)
    (outside : a < gfsStringsFixedVaddr ∨ gfsStringsFixedVaddr + 81920 ≤ a) :
    a < slotAddress c k ∨ slotAddress c k + maximumLength c ≤ a := by
  have inside := slot_inside below
  have limit := region_end (c := c)
  simp only [slotAddress, slotOffset]
  omega

/-- A text stored in a slot whose bit is clear. -/
theorem Books.store (books : Books before h live) (found : findFree (h.bitmaps c) = some (i, b))
    (some : text ≠ []) (noNul : 0 ∉ text) (fits : smallClass text.length = Option.some c) :
    Books before (h.stored c i b text) ((slotOffset c (8 * i + b), text) :: live) := by
  obtain ⟨laid, placed, distinct, frame⟩ := books
  obtain ⟨_, bit, clear⟩ := ByteMap.findFree_some found
  have below := laid.free_slot found
  have short := ((smallClass_iff (List.length_pos_iff.mpr some)).mp fits).1
  -- a marked slot is not the clear one
  have other {c' : Fin 3} {k : Nat} {e : Nat × Text} (holds : h.Holds c' k e) :
      ¬(c' = c ∧ k = 8 * i + b) := by
    rintro ⟨rfl, rfl⟩
    exact Bool.false_ne_true (clear.symm.trans holds.used)
  refine ⟨⟨laid.lengths, fun c' => ?_⟩, fun e member => ?_, ?_, fun a outside => ?_⟩
  · simp only [stored, Function.update_apply]
    split
    next here => exact here ▸ laid.bitmaps c
    next => exact laid.bitmaps c'
  · rcases List.mem_cons.mp member with rfl | old
    · refine ⟨c, 8 * i + b, below, rfl, ?_, fits, some, noNul, fun j inside => ?_⟩
      · simp only [stored, Function.update_self]
        rw [ByteMap.used_mark bit, decide_eq_true rfl, Bool.or_true]
      · exact stored_inside short inside
    · obtain ⟨c', k, holds⟩ := placed e old
      refine ⟨c', k, holds.frame ?_ fun j inside => ?_⟩
      · simp only [stored, Function.update_apply]
        split
        next here =>
          subst here
          rw [ByteMap.used_mark bit, decide_eq_false fun same => other holds ⟨rfl, same⟩,
            Bool.or_false]
        next => rfl
      · have apart := slots_apart holds.below below (other holds)
        refine stored_outside short ?_
        simp only [slotAddress]
        omega
  · refine List.pairwise_cons.mpr ⟨fun e member same => ?_, distinct⟩
    obtain ⟨c', k, holds⟩ := placed e member
    exact other holds (slotOffset_injective holds.below below (holds.offset.symm.trans same.symm))
  · rw [stored_outside short (slotAddress_inside below outside), frame a outside]

/-- A bit flipped that none of the remaining strings needs. -/
theorem Books.flip (books : Books before h live) (rest : stay.Sublist live)
    (spared : ∀ f ∈ stay, ∀ k', h.Holds c k' f → k' ≠ k) : Books before (h.flipped c k) stay := by
  obtain ⟨laid, placed, distinct, frame⟩ := books
  refine ⟨⟨laid.lengths, fun c' => ?_⟩, fun e member => ?_, distinct.sublist rest, frame⟩
  · simp only [flipped, Function.update_apply]
    split
    next here => exact here ▸ laid.bitmaps c
    next => exact laid.bitmaps c'
  · obtain ⟨c', k', holds⟩ := placed e (rest.subset member)
    refine ⟨c', k', holds.frame ?_ fun _ _ => rfl⟩
    simp only [flipped, Function.update_apply]
    split
    next here =>
      subst here
      exact ByteMap.used_toggled (spared e member k' holds)
    next => rfl

private theorem distinct_erase (distinct : live.Pairwise fun e f => e.1 ≠ f.1) (member : e ∈ live) :
    ∀ f ∈ live.erase e, e.1 ≠ f.1 := by
  have perm := List.perm_cons_erase member
  exact (List.pairwise_cons.mp ((perm.pairwise_iff Ne.symm).mp distinct)).1

theorem Books.overwrite (books : Books before h live) (member : e ∈ live) (holds : h.Holds c k e)
    (some : text ≠ []) (noNul : 0 ∉ text) (fits : smallClass text.length = Option.some c) :
    Books before (h.overwritten c k e.2.length text) ((e.1, text) :: live.erase e) := by
  obtain ⟨laid, placed, distinct, frame⟩ := books
  have short := ((smallClass_iff (List.length_pos_iff.mpr some)).mp fits).1
  refine ⟨⟨laid.lengths, laid.bitmaps⟩, fun f kept => ?_,
    List.pairwise_cons.mpr ⟨distinct_erase distinct member, distinct.sublist List.erase_sublist⟩,
    fun a outside => ?_⟩
  · rcases List.mem_cons.mp kept with rfl | old
    · exact ⟨c, k, holds.below, holds.offset, holds.used, fits, some, noNul, fun j inside =>
        overwritten_inside holds inside⟩
    · obtain ⟨c', k', holds'⟩ := placed f (List.mem_of_mem_erase old)
      refine ⟨c', k', holds'.frame rfl fun j inside => overwritten_outside holds short ?_⟩
      have apart := slots_apart holds'.below holds.below fun ⟨sameRegion, sameSlot⟩ => by
        refine distinct_erase distinct member f old ?_
        rw [holds.offset, holds'.offset, sameRegion, sameSlot]
      simp only [slotAddress]
      omega
  · rw [overwritten_outside holds short (slotAddress_inside holds.below outside), frame a outside]

/-- `allocate` of a short string: refused when its region is full. -/
theorem Books.allocate (books : Books before h live) (some : text ≠ []) (noNul : 0 ∉ text)
    (fits : smallClass text.length = Option.some c) :
    (findFree (h.bitmaps c) = none ∧ h.allocate text = .ok (none, h)) ∨
      (findFree (h.bitmaps c)).isSome ∧ ∃ offset h',
        h.allocate text = .ok (Option.some offset, h') ∧
        Books before h' ((offset, text) :: live) := by
  simp only [GfsStringAllocator.allocate, fits]
  cases found : findFree (h.bitmaps c) with
  | none => exact Or.inl ⟨rfl, by rw [GfsStringAllocator.allocateSlot, found]⟩
  | some slot =>
    exact Or.inr ⟨rfl, _, _, books.laid.allocateSlot found, books.store found some noNul fits⟩

end GfsStringAllocator

/-! ### Runs -/

/-- A string allocator and the strings handed out and not yet freed. -/
structure StringHeap where
  strings : GfsStringAllocator
  live : List (Nat × Text)

inductive StringRequest where
  | allocate (string : Text)
  | rename (e : Nat × Text) (newData : Text)
  | free (e : Nat × Text)
  deriving DecidableEq, Repr

namespace StringHeap

open GfsStringAllocator Requests

/-- Serve a request; a panic ends the run. A rename that is refused stores nothing. -/
def serve (s : StringHeap) : StringRequest → Option StringHeap
  | .allocate string =>
    match s.strings.allocate string with
    | .ok (some offset, h) => some ⟨h, (offset, string) :: s.live⟩
    | .ok (none, h) => some ⟨h, s.live⟩
    | .error _ => none
  | .rename e newData =>
    match s.strings.rename e.1 e.2.length newData with
    | .ok (some offset, h) => some ⟨h, (offset, newData) :: s.live.erase e⟩
    | .ok (none, h) => some ⟨h, s.live⟩
    | .error _ => none
  | .free e =>
    match s.strings.free e.1 e.2.length with
    | .ok h => some ⟨h, s.live.erase e⟩
    | .error _ => none

/-- A string that is not empty, has no zero in it and at most 255 bytes. -/
def Valid (string : Text) : Prop := string ≠ [] ∧ 0 ∉ string ∧ string.length ≤ 255

/-- Valid strings are stored, and only what is held is renamed and freed. -/
def Permits (s : StringHeap) : StringRequest → Prop
  | .allocate string => Valid string
  | .rename e newData => e ∈ s.live ∧ Valid newData
  | .free e => e ∈ s.live

/-- The bit that `rename` flips when a string leaves its slot. -/
def leftBit (h : GfsStringAllocator) (c : Fin 3) (offset : Nat) : Nat :=
  (offset - h.regionOffset c.castSucc) / 8

/-- The bit that marks the slot of an offset. -/
def slotBit (h : GfsStringAllocator) (c : Fin 3) (offset : Nat) : Nat :=
  (offset - h.regionOffset c.castSucc) / maximumLength c

/-- The bit flipped when the string leaves its slot is one of the bitmap, and marks
the slot of none of the strings that stay. -/
def Spares (h : GfsStringAllocator) (e : Nat × Text) (stay : List (Nat × Text)) : Prop :=
  ∃ c, slotClass (h.stringType e.1) = some c ∧ leftBit h c e.1 / 8 < (h.bitmaps c).length ∧
    ∀ f ∈ stay, slotClass (h.stringType f.1) = some c → slotBit h c f.1 ≠ leftBit h c e.1

/-- The region for the string has a free slot. -/
def HasRoom (h : GfsStringAllocator) (string : Text) : Prop :=
  ∃ c, smallClass string.length = some c ∧ (findFree (h.bitmaps c)).isSome

instance (string : Text) : Decidable (Valid string) := inferInstanceAs (Decidable (_ ∧ _))

instance (h : GfsStringAllocator) (string : Text) : Decidable (HasRoom h string) :=
  inferInstanceAs (Decidable (∃ _ : Fin 3, _))

instance (h : GfsStringAllocator) (e : Nat × Text) (stay : List (Nat × Text)) :
    Decidable (Spares h e stay) :=
  inferInstanceAs (Decidable (∃ _ : Fin 3, _))

/-- The condition on the state before a request: no string is longer than 32 bytes,
and one that leaves its region spares the slots of those that stay. -/
def Suits (s : StringHeap) : StringRequest → Prop
  | .allocate string => string.length ≤ 32
  | .rename e newData => newData.length ≤ 32 ∧
      (slotClass (s.strings.stringType e.1) = smallClass newData.length ∨
        Spares s.strings e (if HasRoom s.strings newData then s.live.erase e else s.live))
  | .free e => Spares s.strings e (s.live.erase e)

/-- A request of a caller that meets the condition. -/
def Meets (s : StringHeap) (r : StringRequest) : Prop := s.Permits r ∧ s.Suits r

instance (s : StringHeap) : (r : StringRequest) → Decidable (s.Permits r)
  | .allocate _ => inferInstanceAs (Decidable (Valid _))
  | .rename _ _ => inferInstanceAs (Decidable (_ ∧ _))
  | .free _ => inferInstanceAs (Decidable (_ ∈ _))

instance (s : StringHeap) : (r : StringRequest) → Decidable (s.Suits r)
  | .allocate _ => inferInstanceAs (Decidable (_ ≤ _))
  | .rename _ _ => inferInstanceAs (Decidable (_ ∧ _))
  | .free _ => inferInstanceAs (Decidable (Spares ..))

instance (s : StringHeap) (r : StringRequest) : Decidable (s.Meets r) :=
  inferInstanceAs (Decidable (_ ∧ _))

/-- The bytes that belong to a string. -/
def slotLength (h : GfsStringAllocator) (e : Nat × Text) : Nat :=
  match slotClass (h.stringType e.1) with
  | some c => maximumLength c
  | none => e.2.length + 1

/-- Every string held is read back, the slots are apart, and the bytes outside the
regions are what they were. -/
structure KeepsStrings (s : StringHeap) (before : Nat → Byte) : Prop where
  asString : ∀ e ∈ s.live, s.strings.asString e.1 = .ok e.2
  apart : s.live.Pairwise fun e f =>
    e.1 + slotLength s.strings e ≤ f.1 ∨ f.1 + slotLength s.strings f ≤ e.1
  frame : ∀ a, (∀ c, a < (s.strings.lengths c).base ∨
    (s.strings.lengths c).base + (s.strings.lengths c).length ≤ a) → s.strings.bytes a = before a

variable {s s' : StringHeap} {h : GfsStringAllocator} {c : Fin 3} {k : Nat} {e : Nat × Text}
  {stay : List (Nat × Text)} {new : Text} {before : Nat → Byte}

@[simp] theorem slotClass_slotType : slotClass (slotType c) = some c := by fin_cases c <;> rfl

private theorem type_of_holds (laid : h.Laid) (holds : h.Holds c k e) :
    h.stringType e.1 = slotType c := by
  rw [holds.offset, laid.stringType holds.below]

private theorem leftBit_eq (laid : h.Laid) (holds : h.Holds c k e) :
    leftBit h c e.1 = k * maximumLength c / 8 := by
  rw [leftBit, laid.regionOffset, holds.offset, slotOffset, Nat.add_sub_cancel_left]

private theorem slotBit_eq (laid : h.Laid) (holds : h.Holds c k e) : slotBit h c e.1 = k := by
  rw [slotBit, laid.regionOffset, holds.offset, slotOffset, Nat.add_sub_cancel_left,
    Nat.mul_div_cancel _ maximumLength_pos]

private theorem rename_eq (laid : h.Laid) (holds : h.Holds c k e) :
    h.rename e.1 e.2.length new = h.renameSlot c e.1 e.2.length new := by
  rw [GfsStringAllocator.rename, type_of_holds laid holds]
  fin_cases c <;> rfl

theorem smallClass_of_short {n : Nat} (short : n ≤ 32) : ∃ c, smallClass n = some c := by
  unfold smallClass
  split_ifs <;> exact ⟨_, rfl⟩

theorem left_behind (books : Books before h s.live) (holds : h.Holds c k e)
    (rest : stay.Sublist s.live) (spares : Spares h e stay) :
    k * maximumLength c / 8 / 8 < (h.bitmaps c).length ∧
      Books before (h.flipped c (k * maximumLength c / 8)) stay := by
  obtain ⟨c', region, inside, apart⟩ := spares
  rw [type_of_holds books.laid holds, slotClass_slotType] at region
  cases region
  rw [leftBit_eq books.laid holds] at inside apart
  refine ⟨inside, books.flip rest fun f member k' holds' => ?_⟩
  have other := apart f member (by rw [type_of_holds books.laid holds', slotClass_slotType])
  rwa [slotBit_eq books.laid holds'] at other

private theorem serves_rename (books : Books before s.strings s.live) (member : e ∈ s.live)
    (valid : Valid new) (suits : s.Suits (.rename e new)) :
    ∃ s', s.serve (.rename e new) = some s' ∧ Books before s'.strings s'.live := by
  obtain ⟨c, k, holds⟩ := books.placed e member
  obtain ⟨short, suits⟩ := suits
  obtain ⟨some, noNul, _⟩ := valid
  obtain ⟨c', fits⟩ := smallClass_of_short short
  rw [type_of_holds books.laid holds, slotClass_slotType, fits] at suits
  by_cases same : c = c'
  · subst same
    refine ⟨⟨s.strings.overwritten c k e.2.length new, (e.1, new) :: s.live.erase e⟩, ?_,
      books.overwrite member holds some noNul fits⟩
    rw [serve, rename_eq books.laid holds, books.laid.stays holds some fits]
  · have spares := suits.resolve_left fun equal => same (Option.some.inj equal)
    have rest : (if HasRoom s.strings new then s.live.erase e else s.live).Sublist s.live := by
      split
      · exact List.erase_sublist
      · exact List.Sublist.refl _
    obtain ⟨inside, books'⟩ := left_behind books holds rest spares
    have moved := books.laid.moves holds new
      (fun stays => absurd (Option.some.inj (stays.symm.trans fits)) same) inside
    rw [if_pos (List.length_pos_iff.mpr some).ne'] at moved
    -- the bitmap of the new region is not the one with the flipped bit
    have untouched : (s.strings.flipped c (k * maximumLength c / 8)).bitmaps c' =
        s.strings.bitmaps c' := Function.update_of_ne (Ne.symm same) ..
    have room : HasRoom s.strings new ↔ (findFree (s.strings.bitmaps c')).isSome := by
      refine ⟨fun ⟨d, class', free⟩ => ?_, fun free => ⟨c', fits, free⟩⟩
      cases fits.symm.trans class'
      exact free
    rcases books'.allocate some noNul fits with ⟨full, refused⟩ | ⟨free, offset, h', ran, kept⟩
    · rw [untouched] at full
      rw [if_neg (by rw [room, full]; exact Bool.false_ne_true)] at books'
      refine ⟨⟨s.strings.flipped c (k * maximumLength c / 8), s.live⟩, ?_, books'⟩
      rw [serve, rename_eq books.laid holds, moved, refused]
    · rw [untouched] at free
      rw [if_pos (room.mpr free)] at kept
      refine ⟨⟨h', (offset, new) :: s.live.erase e⟩, ?_, kept⟩
      rw [serve, rename_eq books.laid holds, moved, ran]

theorem serves (books : Books before s.strings s.live) {r : StringRequest} (meets : s.Meets r) :
    ∃ s', s.serve r = some s' ∧ Books before s'.strings s'.live := by
  obtain ⟨permits, suits⟩ := meets
  cases r with
  | allocate string =>
    obtain ⟨some, noNul, _⟩ := permits
    obtain ⟨c, fits⟩ := smallClass_of_short suits
    rcases books.allocate some noNul fits with ⟨_, refused⟩ | ⟨_, offset, h, ran, kept⟩
    · exact ⟨_, by rw [serve, refused], books⟩
    · exact ⟨_, by rw [serve, ran], kept⟩
  | rename e newData => exact serves_rename books permits.1 permits.2 suits
  | free e =>
    obtain ⟨c, k, holds⟩ := books.placed e permits
    obtain ⟨inside, books'⟩ := left_behind books holds List.erase_sublist suits
    have moved := books.laid.moves holds [] (fun _ => rfl) inside
    refine ⟨⟨s.strings.flipped c (k * maximumLength c / 8), s.live.erase e⟩, ?_, books'⟩
    rw [serve, GfsStringAllocator.free, rename_eq books.laid holds, moved]
    rfl

private theorem keepsStrings_of_books (books : Books before s.strings s.live) :
    s.KeepsStrings before := by
  have length {c : Fin 3} {k : Nat} {e : Nat × Text} (holds : s.strings.Holds c k e) :
      slotLength s.strings e = maximumLength c := by
    rw [slotLength, type_of_holds books.laid holds, slotClass_slotType]
  refine ⟨fun e member => ?_, books.distinct.imp_of_mem fun {e f} first second other => ?_,
    fun a outside => books.frame a ?_⟩
  · obtain ⟨c, k, holds⟩ := books.placed e member
    exact holds.asString books.laid
  · obtain ⟨c, k, holds⟩ := books.placed e first
    obtain ⟨c', k', holds'⟩ := books.placed f second
    rw [length holds, length holds', holds.offset, holds'.offset]
    refine slots_apart holds.below holds'.below fun ⟨sameRegion, sameSlot⟩ => other ?_
    rw [holds.offset, holds'.offset, sameRegion, sameSlot]
  · have regions (c : Fin 3) := books.laid.lengths c ▸ outside c.castSucc
    have first := regions 0
    have second := regions 1
    have third := regions 2
    simp only [regionStart, slotCount, maximumLength] at first second third
    generalize gfsStringsFixedVaddr = start at *
    omega

/-- What `new` lays out. -/
theorem new_layout {bytes : Nat → Byte} {m m' : Machine}
    (made : GfsStringAllocator.new bytes m = .ok h m') :
    h.Laid ∧ h.bytes = bytes ∧ (∀ c i, (h.bitmaps c).entries i = 0) ∧
      h.allocator.fake = true ∧
      h.allocator.dataMemory = ⟨gfsStringsFixedVaddr + 102400, 28672⟩ := by
  have outcome : Yields (GfsStringAllocator.new bytes) m
      (fun h _ => h.Laid ∧ h.bytes = bytes ∧ (∀ c i, (h.bitmaps c).entries i = 0) ∧
        h.allocator.fake = true ∧ h.allocator.dataMemory = ⟨gfsStringsFixedVaddr + 102400, 28672⟩)
          fun _ _ => True := by
    unfold GfsStringAllocator.new
    rw [yields_bind]
    refine (yields_any _ m).mono (fun _ m₁ _ => ?_) fun _ _ h => h
    rw [yields_bind]
    refine (yields_any _ m₁).mono (fun _ m₂ _ => ?_) fun _ _ h => h
    rw [yields_bind]
    refine (yields_any _ m₂).mono (fun _ m₃ _ => ?_) fun _ _ h => h
    rw [yields_bind]
    refine (newFake_yields 1 _ m₃).mono (fun a m₄ ⟨fake, memory⟩ => ?_) fun _ _ h => h
    rw [yields_pure]
    refine ⟨⟨fun c => ?_, fun c => ?_⟩, rfl, fun c i => ?_, fake, memory⟩
    · fin_cases c <;> rfl
    · fin_cases c <;> rfl
    · fin_cases c <;> rfl
  exact outcome.ok made

/-- A new string allocator holds no string. -/
theorem new_books {bytes : Nat → Byte} {m m' : Machine}
    (made : GfsStringAllocator.new bytes m = .ok h m') : Books bytes h [] := by
  obtain ⟨laid, same, _⟩ := new_layout made
  refine ⟨laid, fun e member => ?_, List.Pairwise.nil, fun a _ => by rw [same]⟩
  cases member

/-- In every run of steps that meet the condition, the strings held are read back
from slots of their own, no byte outside the regions changes, and the next request
that meets the condition is served. -/
theorem stringHeap_keepsStrings {bytes : Nat → Byte} {m m' : Machine}
    (made : GfsStringAllocator.new bytes m = .ok h m')
    (run : Run serve Meets ⟨h, []⟩ s) :
    s.KeepsStrings bytes ∧ ∀ r, s.Meets r → (s.serve r).isSome := by
  obtain ⟨kept, served⟩ := run.keeps_serving (I := fun s => Books bytes s.strings s.live)
    (new_books made) fun _ _ books meets => serves books meets
  exact ⟨keepsStrings_of_books kept, served⟩

section Samples

open Pager

/-- The requests served by a new allocator over a window of zeros. -/
def serveNew (meets : StringHeap → StringRequest → Prop) [∀ s r, Decidable (meets s r)]
    (rs : List StringRequest) : Option StringHeap :=
  match GfsStringAllocator.new (fun _ => 0) plainMachine with
  | .ok h _ => serveAll serve meets ⟨h, []⟩ rs
  | .error _ _ => none

theorem serveNew_run {meets : StringHeap → StringRequest → Prop} [∀ s r, Decidable (meets s r)]
    {rs : List StringRequest} (served : serveNew meets rs = some s) :
    ∃ h m, GfsStringAllocator.new (fun _ => 0) plainMachine = .ok h m ∧
      Run serve meets ⟨h, []⟩ s := by
  unfold serveNew at served
  split at served
  next h m made => exact ⟨h, m, made, serveAll_run served⟩
  next => cases served

/-- A byte repeated. -/
def repeated (n : Nat) (x : Byte) : Text := List.replicate n x

/-- Strings of three classes are stored, moved and written over. -/
theorem stringHeap_keepsStrings_plain : ∃ h m s,
    GfsStringAllocator.new (fun _ => 0) plainMachine = .ok h m ∧
      Run serve Meets ⟨h, []⟩ s ∧
      s.live = [(0, repeated 3 97), (32768, repeated 16 97), (32784, repeated 12 100)] ∧
      s.KeepsStrings fun _ => 0 := by
  have served : (serveNew Meets [.allocate (repeated 4 97), .allocate (repeated 9 98),
      .allocate (repeated 20 99), .rename (0, repeated 4 97) (repeated 12 100),
      .rename (32768, repeated 9 98) (repeated 16 97),
      .rename (65536, repeated 20 99) (repeated 3 97)]).map live =
      some [(0, repeated 3 97), (32768, repeated 16 97), (32784, repeated 12 100)] := by
    decide +kernel
  obtain ⟨s, served, live⟩ := Option.map_eq_some_iff.mp served
  obtain ⟨h, m, made, run⟩ := serveNew_run served
  exact ⟨h, m, s, made, run, live, (stringHeap_keepsStrings made run).1⟩

/-- Freeing the second of three strings clears the bit of the third one, whose slot
is given away; a string of 33 bytes is not stored at all. -/
theorem stringHeap_not_keepsStrings : ∃ h m s,
    GfsStringAllocator.new (fun _ => 0) plainMachine = .ok h m ∧
      Run serve Permits ⟨h, []⟩ s ∧ ¬s.KeepsStrings (fun _ => 0) ∧
      s.Permits (.allocate (repeated 33 97)) ∧ s.serve (.allocate (repeated 33 97)) = none := by
  have served : (serveNew Permits [.allocate (repeated 9 97), .allocate (repeated 9 98),
      .allocate (repeated 9 99), .free (32784, repeated 9 98), .allocate (repeated 9 100)]).map
      (fun s => (s.live, (s.serve (.allocate (repeated 33 97))).isNone)) =
      some ([(32800, repeated 9 100), (32800, repeated 9 99), (32768, repeated 9 97)], true) := by
    decide +kernel
  obtain ⟨s, served, outcome⟩ := Option.map_eq_some_iff.mp served
  obtain ⟨live, panics⟩ := Prod.mk.inj outcome
  obtain ⟨h, m, made, run⟩ := serveNew_run served
  refine ⟨h, m, s, made, run, fun keeps => ?_, (by decide : Valid (repeated 33 97)),
    Option.isNone_iff_eq_none.mp panics⟩
  -- two texts at one offset
  have fourth := keeps.asString (32800, repeated 9 100) (by simp [live])
  have third := keeps.asString (32800, repeated 9 99) (by simp [live])
  have same := fourth.symm.trans third
  revert same
  decide

end Samples

end StringHeap

end EmkKernel
