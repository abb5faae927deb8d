import EmkKernel.Drivers.Keyboard

/-!
# What a report changes

One equation for each path through `usb_report`, for the reports that a boot keyboard sends.
The pressed keys are read bit by bit.
-/

namespace EmkKernel

open BitArray

/-! ### Bits -/

theorem getLsbD_one_shiftLeft {s i : Nat} (small : i < 32) :
    ((1 : BitVec 32) <<< s).getLsbD i = decide (s = i) := by
  rw [BitVec.getLsbD_shiftLeft, Bool.eq_iff_iff]
  have one : ∀ n, (1 : BitVec 32).getLsbD n = decide (n = 0) := fun n => by simp
  rw [one]
  simp only [Bool.and_eq_true, decide_eq_true_eq, Bool.not_eq_true', decide_eq_false_iff_not]
  omega

/-- A word with a bit changed at `s`, read as bits. -/
theorem bit_update (words : Words) (k j : Nat) (word : BitVec 32)
    (other : ∀ i < 32, i ≠ k % 32 → word.getLsbD i = (words (k / 32)).getLsbD i) :
    bit (Function.update words (k / 32) word) j =
      if k = j then word.getLsbD (k % 32) else bit words j := by
  rw [bit, Function.update_apply]
  by_cases here : j / 32 = k / 32
  · rw [if_pos here]
    split
    next same => rw [same]
    next different =>
      rw [other _ (Nat.mod_lt _ (by decide)) (by omega), bit, here]
  · rw [if_neg here, if_neg (by rintro rfl; exact here rfl), bit]

private theorem bit_usbPressKey (words : Words) (key : BitVec 8) (j : Nat) :
    bit (usbPressKey words key) j = true ↔ bit words j = true ∨ key.toNat = j := by
  have small : key.toNat % 32 < 32 := Nat.mod_lt _ (by decide)
  rw [usbPressKey, bit_update]
  · rw [BitVec.getLsbD_or, getLsbD_one_shiftLeft small, decide_eq_true rfl, Bool.or_true]
    by_cases here : key.toNat = j
    · simp [here]
    · simp [here]
  · intro i inside apart
    rw [BitVec.getLsbD_or, getLsbD_one_shiftLeft inside, decide_eq_false (Ne.symm apart),
      Bool.or_false]

private theorem bit_usbUnpressKey (words : Words) (key : BitVec 8) (j : Nat) :
    bit (usbUnpressKey words key) j = true ↔ bit words j = true ∧ key.toNat ≠ j := by
  have small : key.toNat % 32 < 32 := Nat.mod_lt _ (by decide)
  rw [usbUnpressKey, bit_update]
  · rw [BitVec.getLsbD_and, BitVec.getLsbD_xor, getLsbD_one_shiftLeft small, decide_eq_true rfl,
      getLsbD_ones _ small, Bool.true_xor, Bool.not_true, Bool.and_false]
    by_cases here : key.toNat = j
    · simp [here]
    · simp [here]
  · intro i inside apart
    rw [BitVec.getLsbD_and, BitVec.getLsbD_xor, getLsbD_one_shiftLeft inside,
      decide_eq_false (Ne.symm apart), getLsbD_ones _ inside, Bool.xor_false, Bool.and_true]

private theorem bit_toggleCapsLock (words : Words) {j : Nat} (other : j ≠ 0x39) :
    bit (toggleCapsLock words) j = bit words j := by
  have apart : usageCapsLock.toNat ≠ j := Ne.symm other
  rw [toggleCapsLock, bit_update, if_neg apart]
  intro i inside apart
  rw [BitVec.getLsbD_xor, getLsbD_one_shiftLeft inside, decide_eq_false (Ne.symm apart),
    Bool.xor_false]

private theorem bit_foldl_usbUnpressKey (keys : List (BitVec 8)) (words : Words) (j : Nat) :
    bit (keys.foldl usbUnpressKey words) j = true ↔
      bit words j = true ∧ ∀ key ∈ keys, key.toNat ≠ j := by
  induction keys generalizing words with
  | nil => simp
  | cons key keys ih => rw [List.foldl_cons, ih, bit_usbUnpressKey, List.forall_mem_cons, and_assoc]

namespace Keyboard

variable (s : Keyboard)

theorem isKeyPressed_eq (beyond key : BitVec 8) :
    s.isKeyPressed beyond key = bit s.pressedKeys
      ((usUsbAsciiTranslationTable ++ [beyond])[key.toNat]?.getD beyond).toNat := by
  generalize read : ((usUsbAsciiTranslationTable ++ [beyond])[key.toNat]?.getD beyond).toNat = d
  have small : d % 32 < 32 := Nat.mod_lt _ (by decide)
  rw [isKeyPressed, read, bit, Bool.eq_iff_iff, decide_eq_true_iff]
  constructor
  · intro masked
    by_contra clear
    refine masked ((and_eq_zero_iff _ _).mpr fun i set => ?_)
    have inside := BitVec.lt_of_getLsbD set
    rw [getLsbD_one_shiftLeft inside, decide_eq_true_iff] at set
    rw [← set]
    exact Bool.eq_false_of_not_eq_true clear
  · intro set zero
    have clear := (and_eq_zero_iff _ _).mp zero (d % 32) (by
      rw [getLsbD_one_shiftLeft small, decide_eq_true rfl])
    rw [set] at clear
    cases clear

/-! ### The modifier byte -/

/-- Only the word of the modifier keys changes. -/
theorem bit_updateModifiers {modifiers : BitVec 8} {j : Nat}
    (free : j / 32 ≠ 7 ∨ modifiers = s.lastScan.modifiers) :
    bit (s.updateModifiers modifiers).pressedKeys j = bit s.pressedKeys j := by
  rw [updateModifiers]
  split
  next => rfl
  next changed =>
    have apart : j / 32 ≠ 7 := free.resolve_right changed
    exact congrArg (fun word => BitVec.getLsbD word (j % 32)) (Function.update_of_ne apart _ _)

@[simp] theorem updateModifiers_lastScan (modifiers : BitVec 8) :
    (s.updateModifiers modifiers).lastScan = { s.lastScan with modifiers } := by
  rw [updateModifiers]
  split
  next same => rw [same]
  next => rfl

@[simp] theorem updateModifiers_translatedKeys (modifiers : BitVec 8) :
    (s.updateModifiers modifiers).translatedKeys = s.translatedKeys := by
  rw [updateModifiers]
  split <;> rfl

@[simp] theorem updateModifiers_numKeysPressed (modifiers : BitVec 8) :
    (s.updateModifiers modifiers).numKeysPressed = s.numKeysPressed := by
  rw [updateModifiers]
  split <;> rfl

end Keyboard

/-! ### Translations -/

/-- The translation of a usage code, where it has one. -/
def keyTranslation (uppercase : Bool) (code : BitVec 8) : Option (BitVec 8) :=
  (if uppercase then usUsbKeyUppercaseTranslation else usUsbKeyTranslationTable)[code.toNat]?.filter
    (· ≠ 0xFF)

theorem forall_byte {p : BitVec 8 → Bool}
    (all : ((List.range 256).all fun n => p (BitVec.ofNat 8 n)) = true) (byte : BitVec 8) :
    p byte = true := by
  have here := List.all_eq_true.mp all byte.toNat (List.mem_range.mpr byte.isLt)
  rwa [BitVec.ofNat_toNat, BitVec.setWidth_eq] at here

def allBytes (p : BitVec 8 → Bool) : Bool := (List.range 256).all fun n => p (BitVec.ofNat 8 n)

theorem allBytes_iff {p : BitVec 8 → Bool} : allBytes p = true ↔ ∀ byte, p byte = true :=
  ⟨forall_byte, fun all => List.all_eq_true.mpr fun n _ => all (BitVec.ofNat 8 n)⟩

/-- One code too many passes the check of `usb_translate_key`, and is behind the second table. -/
theorem usbTranslateKey_eq (uppercase : Bool) (code : BitVec 8)
    (inside : code = 116 → uppercase = false) :
    usbTranslateKey uppercase code = some (keyTranslation uppercase code) := by
  have table : ∀ code, (uppercase && code == 116 ||
      usbTranslateKey uppercase code == some (keyTranslation uppercase code)) = true := by
    cases uppercase
    · exact forall_byte (by decide +kernel)
    · exact forall_byte (by decide +kernel)
  rcases Bool.or_eq_true_iff.mp (table code) with beyond | same
  · obtain ⟨upper, last⟩ := Bool.and_eq_true_iff.mp beyond
    rw [inside (eq_of_beq last)] at upper
    cases upper
  · exact eq_of_beq same

private theorem keyTranslation_capsLock (uppercase : Bool) :
    keyTranslation uppercase usageCapsLock = none := by
  cases uppercase <;> decide +kernel

namespace Keyboard

variable {s : Keyboard}

/-- Keys pressed one after another: each of them is pressed, and those with a translation are
translated, in this order. -/
theorem foldlM_pressAndTranslate (keys : List (BitVec 8))
    (inside : 116 ∈ keys → s.uppercase = false)
    (room : s.translatedKeys.length + keys.length ≤ 6) :
    ∃ pressedKeys, keys.foldlM pressAndTranslate s = some { s with
        pressedKeys
        translatedKeys := s.translatedKeys ++ keys.filterMap (keyTranslation s.uppercase) } ∧
      ∀ j, bit pressedKeys j = true ↔ bit s.pressedKeys j = true ∨ ∃ key ∈ keys, key.toNat = j := by
  induction keys generalizing s with
  | nil => exact ⟨s.pressedKeys, by simp, by simp⟩
  | cons key keys ih =>
    rw [List.length_cons] at room
    have translated := usbTranslateKey_eq s.uppercase key fun same =>
      inside (by rw [same]; exact List.mem_cons_self)
    -- The keys that are left.
    have later : ∀ (added : List (BitVec 8)), added.length ≤ 1 →
        ∃ pressedKeys, keys.foldlM pressAndTranslate { s with
            pressedKeys := usbPressKey s.pressedKeys key
            translatedKeys := s.translatedKeys ++ added } = some { s with
              pressedKeys
              translatedKeys := s.translatedKeys ++ added ++
                keys.filterMap (keyTranslation s.uppercase) } ∧
          ∀ j, bit pressedKeys j = true ↔
            bit (usbPressKey s.pressedKeys key) j = true ∨ ∃ key ∈ keys, key.toNat = j := by
      intro added short
      exact @ih { s with
        pressedKeys := usbPressKey s.pressedKeys key
        translatedKeys := s.translatedKeys ++ added }
        (fun found => inside (List.mem_cons_of_mem _ found))
        (by
          show (s.translatedKeys ++ added).length + _ ≤ 6
          rw [List.length_append]
          omega)
    have bits : ∀ j, (bit (usbPressKey s.pressedKeys key) j = true ∨
        ∃ key ∈ keys, key.toNat = j) ↔
        (bit s.pressedKeys j = true ∨ ∃ other ∈ key :: keys, other.toNat = j) := fun j => by
      simp only [bit_usbPressKey, or_assoc, List.mem_cons, exists_eq_or_imp]
    rw [List.foldlM_cons, pressAndTranslate, translated]
    cases has : keyTranslation s.uppercase key with
    | none =>
      obtain ⟨pressedKeys, ran, pressed⟩ := later [] (Nat.zero_le _)
      rw [List.append_nil] at ran
      refine ⟨pressedKeys, ?_, fun j => (pressed j).trans (bits j)⟩
      rw [List.filterMap_cons_none has]
      exact ran
    | some keyCode =>
      obtain ⟨pressedKeys, ran, pressed⟩ := later [keyCode] (Nat.le_refl _)
      refine ⟨pressedKeys, ?_, fun j => (pressed j).trans (bits j)⟩
      rw [List.filterMap_cons_some has, List.append_cons]
      have free : s.translatedKeys.length < 6 := by omega
      simp only [Option.bind_eq_bind, Option.bind_some, if_pos free]
      exact ran

theorem pressKeys_eq (keys : List (BitVec 8)) (inside : 116 ∈ keys → s.uppercase = false)
    (room : s.translatedKeys.length + keys.length ≤ 6) :
    ∃ pressedKeys, s.pressKeys keys = some { s with
        pressedKeys
        translatedKeys :=
          s.translatedKeys ++ (keys.filterMap (keyTranslation s.uppercase)).reverse } ∧
      ∀ j, bit pressedKeys j = true ↔ bit s.pressedKeys j = true ∨ ∃ key ∈ keys, key.toNat = j := by
  rw [← @List.length_reverse _ keys] at room
  obtain ⟨pressedKeys, ran, pressed⟩ := foldlM_pressAndTranslate keys.reverse
    (fun found => inside (List.mem_reverse.mp found)) room
  rw [List.filterMap_reverse] at ran
  simp only [List.mem_reverse] at pressed
  exact ⟨pressedKeys, ran, pressed⟩

end Keyboard

/-! ### Reports -/

namespace BootReport

/-- The codes are packed at the front, differ, and none of them is the one for too many keys. -/
structure Valid (report : BootReport) : Prop where
  reserved : report.reserved = 0
  packed : report.keys.toList = report.codes ++ List.replicate (6 - report.codes.length) 0
  distinct : report.codes.Nodup
  real : 1 ∉ report.codes

instance (report : BootReport) : Decidable report.Valid :=
  decidable_of_iff (report.reserved = 0 ∧
      report.keys.toList = report.codes ++ List.replicate (6 - report.codes.length) 0 ∧
      report.codes.Nodup ∧ 1 ∉ report.codes)
    ⟨fun h => ⟨h.1, h.2.1, h.2.2.1, h.2.2.2⟩, fun h => ⟨h.reserved, h.packed, h.distinct, h.real⟩⟩

/-- Too many keys are pressed. -/
def RollOver (report : BootReport) : Prop :=
  report.reserved = 0 ∧ report.keys = Vector.replicate 6 1

instance (report : BootReport) : Decidable report.RollOver := inferInstanceAs (Decidable (_ ∧ _))

/-- What `usb_report` presses: where Caps Lock is the last code, not the first one. -/
def pressedCodes (report : BootReport) : List (BitVec 8) :=
  if report.codes.getLast? = some usageCapsLock then report.codes.dropLast.tail else report.codes

/-- The code that is not pressed with Caps Lock behind it. -/
def skippedCode (report : BootReport) : Option (BitVec 8) :=
  if report.codes.getLast? = some usageCapsLock then report.codes.dropLast.head? else none

variable {report : BootReport} {code : BitVec 8}

theorem mem_codes_of_pressed (found : code ∈ report.pressedCodes) : code ∈ report.codes := by
  rw [pressedCodes] at found
  split at found
  · exact List.dropLast_subset _ (List.mem_of_mem_tail found)
  · exact found

/-- Every other code is pressed. -/
theorem pressed_of_mem_codes (found : code ∈ report.codes) (other : code ≠ usageCapsLock)
    (kept : code ∉ report.skippedCode) : code ∈ report.pressedCodes := by
  rw [pressedCodes]
  rw [skippedCode] at kept
  split
  next last =>
    rw [if_pos last] at kept
    obtain ⟨front, split⟩ := List.getLast?_eq_some_iff.mp last
    rw [split, List.dropLast_concat] at kept ⊢
    rw [split] at found
    have inFront : code ∈ front := (List.mem_append.mp found).resolve_right fun capsLock =>
      other (List.mem_singleton.mp capsLock)
    cases front with
    | nil => exact absurd inFront List.not_mem_nil
    | cons first rest =>
      rcases List.mem_cons.mp inFront with rfl | later
      · exact absurd rfl kept
      · exact later
  next => exact found

/-- The codes that are left out change nothing where they have no translation. -/
theorem filterMap_pressedCodes {uppercase : Bool}
    (untranslated : ∀ code ∈ report.skippedCode, keyTranslation uppercase code = none) :
    report.pressedCodes.filterMap (keyTranslation uppercase) =
      report.codes.filterMap (keyTranslation uppercase) := by
  rw [pressedCodes]
  rw [skippedCode] at untranslated
  split
  next last =>
    rw [if_pos last] at untranslated
    obtain ⟨front, split⟩ := List.getLast?_eq_some_iff.mp last
    rw [split, List.dropLast_concat] at untranslated ⊢
    rw [List.filterMap_append, List.filterMap_cons_none (keyTranslation_capsLock uppercase),
      List.filterMap_nil, List.append_nil]
    cases front with
    | nil => rfl
    | cons first rest => rw [List.tail_cons, List.filterMap_cons_none (untranslated first rfl)]
  next => rfl

private theorem countP_keys (report : BootReport) :
    report.keys.toList.countP (· ≠ 0) = report.codes.length := List.countP_eq_length_filter

private theorem length_codes_le (report : BootReport) : report.codes.length ≤ 6 :=
  (List.length_filter_le _ _).trans (Nat.le_of_eq report.keys.length_toList)

theorem Valid.take_keys (valid : report.Valid) {n : Nat} (few : n ≤ report.codes.length) :
    report.keys.toList.take n = report.codes.take n := by
  rw [valid.packed, List.take_append_of_le_length few]

private theorem Valid.last_key (valid : report.Valid) (some : report.codes ≠ []) :
    report.keys.toList[report.codes.length - 1]? = report.codes.getLast? := by
  have positive := List.length_pos_iff.mpr some
  rw [valid.packed, List.getElem?_append_left (by omega), List.getLast?_eq_getElem?]

theorem RollOver.codes_eq (rollOver : report.RollOver) :
    report.codes = List.replicate 6 1 := by
  rw [codes, rollOver.2]
  rfl

theorem Valid.keys_eq_of_nil (valid : report.Valid) (none : report.codes = []) :
    report.keys = Vector.replicate 6 0 := by
  have keys := valid.packed
  rw [none] at keys
  exact Vector.toList_inj.mp keys

end BootReport

namespace Keyboard

variable {s : Keyboard} {report : BootReport}

/-- The flag that a report is translated with. -/
def uppercaseAfter (s : Keyboard) (report : BootReport) : Bool :=
  (s.updateModifiers report.modifiers).uppercase ^^
    decide (report.codes.getLast? = some usageCapsLock)

theorem bit_unpressLast (s : Keyboard) (j : Nat) :
    bit s.unpressLast.pressedKeys j = true ↔ bit s.pressedKeys j = true ∧
      ∀ key ∈ s.lastScan.keys.toList.take s.numKeysPressed, key.toNat ≠ j :=
  bit_foldl_usbUnpressKey _ _ _

theorem usbReport_same (same : s.lastScan = report) : s.usbReport report = some s := if_pos same

theorem usbReport_rollOver (changed : s.lastScan ≠ report) (rollOver : report.RollOver) :
    s.usbReport report = some { s.updateModifiers report.modifiers with translatedKeys := [] } := by
  have six : report.keys.toList.countP (· ≠ 0) = 6 := by
    rw [report.countP_keys, rollOver.codes_eq]
    rfl
  have last : report.keys.toList[6 - 1]? = some 1 := by
    rw [rollOver.2]
    rfl
  rw [usbReport, if_neg changed]
  simp only [six, last]
  rfl

theorem usbReport_empty (changed : s.lastScan ≠ report) (none : report.codes = []) :
    s.usbReport report = some { (s.updateModifiers report.modifiers).unpressLast with
      numKeysPressed := 0
      lastScan.keys := Vector.replicate 6 0 } := by
  have zero : report.keys.toList.countP (· ≠ 0) = 0 := by
    rw [report.countP_keys, none]
    rfl
  rw [usbReport, if_neg changed]
  simp only [zero]
  rfl

/-- A report with keys replaces those of the last scan. -/
theorem usbReport_keys (changed : s.lastScan ≠ report) (valid : report.Valid)
    (some : report.codes ≠ [])
    (inside : 116 ∈ report.pressedCodes → s.uppercaseAfter report = false) :
    ∃ pressedKeys, s.usbReport report = Option.some {
        lastScan := { report with reserved := s.lastScan.reserved }
        pressedKeys
        translatedKeys :=
          (report.pressedCodes.filterMap (keyTranslation (s.uppercaseAfter report))).reverse
        numKeysPressed := report.codes.length
        uppercase := s.uppercaseAfter report } ∧
      ∀ j ≠ 0x39, bit pressedKeys j = true ↔
        bit (s.updateModifiers report.modifiers).pressedKeys j = true ∧
          (∀ key ∈ s.lastScan.keys.toList.take s.numKeysPressed, key.toNat ≠ j) ∨
        ∃ code ∈ report.pressedCodes, code.toNat = j := by
  have positive := List.length_pos_iff.mpr some
  have six := report.length_codes_le
  have front : report.keys.toList.take (report.codes.length - 1) = report.codes.dropLast := by
    rw [valid.take_keys (Nat.sub_le _ _), List.dropLast_eq_take]
  have all : report.keys.toList.take report.codes.length = report.codes := by
    rw [valid.take_keys (Nat.le_refl _), List.take_length]
  have real : report.codes.getLast? ≠ Option.some 1 := fun last =>
    valid.real (List.mem_of_getLast? last)
  rw [usbReport, if_neg changed]
  simp only [report.countP_keys, valid.last_key some, if_neg positive.ne', if_neg real, front, all,
    List.drop_one]
  rw [uppercaseAfter, BootReport.pressedCodes] at inside ⊢
  by_cases capsLock : report.codes.getLast? = Option.some usageCapsLock
  · rw [if_pos capsLock, decide_eq_true capsLock, Bool.xor_true] at inside ⊢
    rw [if_pos capsLock]
    obtain ⟨pressedKeys, ran, pressed⟩ := @pressKeys_eq
      { s.updateModifiers report.modifiers with
        translatedKeys := []
        uppercase := !(s.updateModifiers report.modifiers).uppercase
        pressedKeys := toggleCapsLock (s.updateModifiers report.modifiers).pressedKeys }.unpressLast
      report.codes.dropLast.tail inside (by
        show 0 + _ ≤ 6
        rw [List.length_tail, List.length_dropLast]
        omega)
    rw [ran]
    refine ⟨pressedKeys, ?_, fun j other => ?_⟩
    · simp [unpressLast]
    · rw [pressed, bit_unpressLast]
      simp only [bit_toggleCapsLock _ other, updateModifiers_lastScan,
        updateModifiers_numKeysPressed]
  · rw [if_neg capsLock, decide_eq_false capsLock, Bool.xor_false] at inside ⊢
    rw [if_neg capsLock]
    obtain ⟨pressedKeys, ran, pressed⟩ := @pressKeys_eq
      { s.updateModifiers report.modifiers with translatedKeys := [] }.unpressLast
      report.codes inside (by
        show 0 + _ ≤ 6
        omega)
    rw [ran]
    refine ⟨pressedKeys, ?_, fun j other => ?_⟩
    · simp [unpressLast]
    · rw [pressed, bit_unpressLast]
      simp only [updateModifiers_lastScan, updateModifiers_numKeysPressed]

end Keyboard

end EmkKernel
