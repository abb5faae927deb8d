import EmkKernel.Vfs.StringAllocator
import Mathlib.Data.Fintype.Basic
import Mathlib.Tactic.FinCases

/-!
# Slots of the string allocator

A string of up to 32 bytes lies in a slot, padded with zeros. The offset of a slot
determines its region, and the bytes of two slots are apart.
-/

namespace EmkKernel

open Stretch

namespace ByteMap

/-- The bit of a slot. -/
def used (bitmap : ByteMap) (k : Nat) : Bool := (bitmap.entries (k / 8)).getLsbD (k % 8)

/-- The bitmap with one bit flipped. -/
def toggled (bitmap : ByteMap) (k : Nat) : ByteMap :=
  { bitmap with
    entries := Function.update bitmap.entries (k / 8)
      (bitmap.entries (k / 8) ^^^ (1#8 <<< (k % 8))) }

variable {bitmap : ByteMap} {i b k k' : Nat}

theorem getLsbD_one_shiftLeft (below : b < 8) : (1#8 <<< b).getLsbD k = decide (k = b) := by
  rw [← BitVec.twoPow_eq, BitVec.getLsbD_twoPow]
  simp [below, eq_comm]

theorem used_mark (below : b < 8) :
    (GfsStringAllocator.mark bitmap i b).used k = (bitmap.used k || decide (k = 8 * i + b)) := by
  simp only [used, GfsStringAllocator.mark, Function.update_apply]
  split
  next same =>
    rw [BitVec.getLsbD_or, getLsbD_one_shiftLeft below, same]
    exact congrArg _ (decide_eq_decide.mpr (by omega))
  next other =>
    have different : k ≠ 8 * i + b := by omega
    simp [different]

theorem used_toggled (other : k ≠ k') : (bitmap.toggled k').used k = bitmap.used k := by
  simp only [used, toggled, Function.update_apply]
  split
  next same =>
    have different : k % 8 ≠ k' % 8 := by omega
    rw [BitVec.getLsbD_xor, getLsbD_one_shiftLeft (Nat.mod_lt _ (by decide)), same]
    simp [different]
  next => rfl

theorem toggle_eq (inside : k / 8 < bitmap.length) :
    GfsStringAllocator.toggle bitmap k = .ok (bitmap.toggled k) := if_pos inside

/-- `findFree` finds a clear bit of the bitmap. -/
theorem findFree_some (found : GfsStringAllocator.findFree bitmap = some (i, b)) :
    i < bitmap.length ∧ b < 8 ∧ bitmap.used (8 * i + b) = false := by
  obtain ⟨entryIndex, member, here⟩ := List.exists_of_findSome?_eq_some found
  split at here
  next => cases here
  next =>
    obtain ⟨bit, first, same⟩ := Option.map_eq_some_iff.mp here
    cases same
    have below : b < 8 := List.mem_range.mp (List.mem_of_find?_eq_some first)
    have clear := List.find?_some first
    rw [decide_eq_true_eq] at clear
    refine ⟨List.mem_range.mp member, below, ?_⟩
    rw [used, show (8 * i + b) / 8 = i by omega, show (8 * i + b) % 8 = b by omega]
    -- a set bit would remain in the masked byte
    by_contra set
    have masked := congrArg (BitVec.getLsbD · b) clear
    rw [Bool.not_eq_false] at set
    simp only [BitVec.getLsbD_and, set, getLsbD_one_shiftLeft below, decide_true,
      Bool.and_self, BitVec.ofNat_eq_ofNat, BitVec.getLsbD_zero] at masked
    cases masked

end ByteMap

namespace GfsStringAllocator

/-- The offset of the first slot of a region. -/
def regionStart : Fin 3 → Nat
  | 0 => 0
  | 1 => 32768
  | 2 => 65536

def slotCount : Fin 3 → Nat
  | 0 => 4096
  | 1 => 2048
  | 2 => 512

def slotOffset (c : Fin 3) (k : Nat) : Nat := regionStart c + k * maximumLength c

def slotAddress (c : Fin 3) (k : Nat) : Nat := gfsStringsFixedVaddr + slotOffset c k

/-- The type of the strings in the slots of a region. -/
def slotType : Fin 3 → GfsStringType
  | 0 => .length8
  | 1 => .length16
  | 2 => .length32

/-- The regions with slots are where `new` puts them. -/
structure Laid (h : GfsStringAllocator) : Prop where
  lengths : ∀ c : Fin 3, h.lengths c.castSucc =
    ⟨gfsStringsFixedVaddr + regionStart c, slotCount c * maximumLength c⟩
  bitmaps : ∀ c, 8 * (h.bitmaps c).length = slotCount c

variable {h : GfsStringAllocator} {c c' : Fin 3} {k k' : Nat} {text : Text}

/-- Two slots are one or their bytes are apart. -/
theorem slots_apart (below : k < slotCount c) (below' : k' < slotCount c')
    (other : ¬(c = c' ∧ k = k')) :
    slotOffset c k + maximumLength c ≤ slotOffset c' k' ∨
      slotOffset c' k' + maximumLength c' ≤ slotOffset c k := by
  fin_cases c <;> fin_cases c' <;>
    simp only [slotCount, slotOffset, regionStart, maximumLength, Fin.zero_eta, Fin.mk_one,
      Fin.reduceFinMk, true_and] at * <;> omega

theorem maximumLength_pos : 0 < maximumLength c := by fin_cases c <;> decide

theorem slotOffset_injective (below : k < slotCount c) (below' : k' < slotCount c')
    (same : slotOffset c k = slotOffset c' k') : c = c' ∧ k = k' := by
  by_contra other
  have := slots_apart below below' other
  have := maximumLength_pos (c := c)
  have := maximumLength_pos (c := c')
  omega

theorem slot_inside (below : k < slotCount c) :
    k * maximumLength c + maximumLength c ≤ slotCount c * maximumLength c := by
  rw [← Nat.succ_mul]
  exact Nat.mul_le_mul_right _ below

theorem region_end : regionStart c + slotCount c * maximumLength c ≤ 81920 := by
  fin_cases c <;> decide

theorem Laid.regionOffset (laid : h.Laid) (c : Fin 3) :
    h.regionOffset c.castSucc = regionStart c := by
  have first := laid.lengths 0
  have second := laid.lengths 1
  fin_cases c
  · rfl
  · change (h.lengths 0).length = _
    rw [show h.lengths 0 = _ from first]
    rfl
  · change (h.lengths 0).length + (h.lengths 1).length = _
    rw [show h.lengths 0 = _ from first, show h.lengths 1 = _ from second]
    rfl

theorem Laid.regionOffset_above (laid : h.Laid) : h.regionOffset 3 = 81920 := by
  have two := laid.regionOffset 2
  change (h.lengths 0).length + (h.lengths 1).length = 65536 at two
  change (h.lengths 0).length + (h.lengths 1).length + (h.lengths 2).length = 81920
  rw [two, show h.lengths 2 = _ from laid.lengths 2]
  rfl

theorem asU32_regionStart : asU32 (regionStart c) = regionStart c := by fin_cases c <;> rfl

/-- The offset of a slot tells its region. -/
theorem Laid.stringType (laid : h.Laid) (below : k < slotCount c) :
    h.stringType (slotOffset c k) = slotType c := by
  have one : asU32 (h.regionOffset 1) = 32768 := congrArg asU32 (laid.regionOffset 1)
  have two : asU32 (h.regionOffset 2) = 65536 := congrArg asU32 (laid.regionOffset 2)
  have three : asU32 (h.regionOffset 3) = 81920 := congrArg asU32 laid.regionOffset_above
  have ends := slot_inside below
  simp only [GfsStringAllocator.stringType, one, two, three]
  fin_cases c
  · change k * 8 + 8 ≤ 32768 at ends
    have offset : slotOffset 0 k = k * 8 := Nat.zero_add _
    exact if_pos (show 32768 > slotOffset 0 k by omega)
  · change k * 16 + 16 ≤ 32768 at ends
    have offset : slotOffset 1 k = 32768 + k * 16 := rfl
    exact (if_neg (show ¬32768 > slotOffset 1 k by omega)).trans (if_pos (by
      change 65536 > slotOffset 1 k ∧ slotOffset 1 k ≥ 32768
      omega))
  · change k * 32 + 32 ≤ 16384 at ends
    have offset : slotOffset 2 k = 65536 + k * 32 := rfl
    exact (if_neg (show ¬32768 > slotOffset 2 k by omega)).trans ((if_neg (by
      change ¬(65536 > slotOffset 2 k ∧ slotOffset 2 k ≥ 32768)
      omega)).trans (if_pos (by
      change 81920 > slotOffset 2 k ∧ slotOffset 2 k ≥ 65536
      omega)))

@[simp] theorem regionIndex_slotType : regionIndex (slotType c) = c.castSucc := by
  fin_cases c <;> rfl

@[simp] theorem readLength_slotType : readLength (slotType c) = maximumLength c := by
  fin_cases c <;> rfl

theorem Laid.range (laid : h.Laid) {low high : Nat} (ordered : low ≤ high)
    (inside : high ≤ slotCount c * maximumLength c) :
    (h.lengths c.castSucc).range low high = .ok (gfsStringsFixedVaddr + regionStart c + low) := by
  rw [ByteSlice.range, laid.lengths, if_pos ⟨ordered, inside⟩]

/-! ### A text in its slot -/

/-- A string stays in its region if it has the length of the region's strings. -/
theorem smallClass_iff {n : Nat} (some : 0 < n) :
    smallClass n = Option.some c ↔ n ≤ maximumLength c ∧ minimumSize c ≤ n := by
  unfold smallClass
  fin_cases c <;> simp only [maximumLength, minimumSize] <;> split_ifs <;> simp <;> omega

theorem takeWhile_padded {memory : Nat → Byte} {base size : Nat} (short : text.length ≤ size)
    (noNul : 0 ∉ text) (padded : ∀ j < size, memory (base + j) = (text[j]?).getD 0) :
    (Stretch.read memory base size).takeWhile (· ≠ 0) = text := by
  have cells : Stretch.read memory base size = text ++ List.replicate (size - text.length) 0 := by
    have total : (Stretch.read memory base size).length =
        (text ++ List.replicate (size - text.length) 0).length := by
      rw [length_read, List.length_append, List.length_replicate]
      omega
    refine List.ext_getElem total fun j inside _ => ?_
    rw [length_read] at inside
    simp only [Stretch.read, List.getElem_map, List.getElem_range, padded j inside,
      List.getElem_append]
    split
    next within => rw [List.getElem?_eq_getElem within, Option.getD_some]
    next behind =>
      rw [List.getElem?_eq_none (Nat.le_of_not_lt behind), Option.getD_none,
        List.getElem_replicate]
  rw [cells, List.takeWhile_append_of_pos fun x member => ?_]
  · simp
  · have other : x ≠ 0 := fun zero => noNul (zero ▸ member)
    simpa using other

/-- The string lies in a slot that is marked as used. -/
structure Holds (h : GfsStringAllocator) (c : Fin 3) (k : Nat) (e : Nat × Text) : Prop where
  below : k < slotCount c
  offset : e.1 = slotOffset c k
  used : (h.bitmaps c).used k = true
  fits : smallClass e.2.length = some c
  nonempty : e.2 ≠ []
  noNul : 0 ∉ e.2
  bytes : ∀ j < maximumLength c, h.bytes (slotAddress c k + j) = (e.2[j]?).getD 0

theorem Holds.short {e : Nat × Text} (holds : h.Holds c k e) : e.2.length ≤ maximumLength c :=
  ((smallClass_iff (List.length_pos_iff.mpr holds.nonempty)).mp holds.fits).1

/-- What is read at a slot. -/
theorem Laid.asString (laid : h.Laid) (below : k < slotCount c) :
    h.asString (slotOffset c k) =
      .ok ((Stretch.read h.bytes (slotAddress c k) (maximumLength c)).takeWhile (· ≠ 0)) := by
  have inside := slot_inside below
  have internal : checkedSub (slotOffset c k) (asU32 (h.regionOffset c.castSucc)) =
      .ok (k * maximumLength c) := by
    rw [laid.regionOffset, asU32_regionStart, slotOffset, checkedSub, if_pos (Nat.le_add_right ..),
      Nat.add_sub_cancel_left]
  simp only [GfsStringAllocator.asString, laid.stringType below, regionIndex_slotType,
    readLength_slotType, bind, Except.bind, internal, laid.range (Nat.le_add_right ..) inside]
  rw [Nat.add_assoc]
  rfl

theorem Holds.asString {e : Nat × Text} (holds : h.Holds c k e) (laid : h.Laid) :
    h.asString e.1 = .ok e.2 := by
  rw [holds.offset, laid.asString holds.below]
  exact congrArg Except.ok (takeWhile_padded holds.short holds.noNul holds.bytes)

/-- Bits and bytes of the slot stay as they are. -/
theorem Holds.frame {h' : GfsStringAllocator} {e : Nat × Text} (holds : h.Holds c k e)
    (bit : (h'.bitmaps c).used k = (h.bitmaps c).used k)
    (bytes : ∀ j < maximumLength c, h'.bytes (slotAddress c k + j) = h.bytes
      (slotAddress c k + j)) :
    h'.Holds c k e :=
  { holds with
    used := bit.trans holds.used
    bytes := fun j below => (bytes j below).trans (holds.bytes j below) }

end GfsStringAllocator

end EmkKernel
