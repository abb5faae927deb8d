import EmkKernel.Drivers.KeyboardReports
import EmkKernel.Library.Requests

/-!
# Runs of reports

After reports that meet a condition, `is_key_pressed` and the translated keys tell what is in the
last valid report. The condition names what goes wrong otherwise: Caps Lock behind other keys,
keys that need `UPPERCASE`, and reports without keys or with too many of them after keys with a
translation.
-/

namespace EmkKernel

open BitArray

/-- The usage code of an ASCII key, and whether `UPPERCASE` must be set for it. -/
def assignedUsage (key : BitVec 8) : Option (BitVec 8 × Bool) :=
  (usUsbAsciiTranslationTable[key.toNat]?.filter (· ≠ 2)).map fun entry =>
    (entry &&& 0x7F, entry.getLsbD 7)

/-- The last valid report is history. -/
structure KeyboardRun where
  keyboard : Keyboard
  lastValid : BootReport

namespace KeyboardRun

def new : KeyboardRun := ⟨Keyboard.new, Keyboard.new.lastScan⟩

def serve (s : KeyboardRun) (report : BootReport) : Option KeyboardRun :=
  (s.keyboard.usbReport report).map fun keyboard =>
    ⟨keyboard, if report.RollOver then s.lastValid else report⟩

/-- The keys that are pressed and those that are translated are the ones of the report. -/
structure Tracks (beyond : BitVec 8) (s : KeyboardRun) : Prop where
  pressed : ∀ key code shifted, assignedUsage key = some (code, shifted) → code ≠ usageCapsLock →
    (s.keyboard.isKeyPressed beyond key = true ↔
      code ∈ s.lastValid.codes ∧ (shifted = true → s.keyboard.uppercase = true))
  translated : s.keyboard.translatedKeys.Perm
    (s.lastValid.codes.filterMap (keyTranslation s.keyboard.uppercase))

/-- The same for the modifier keys. -/
def TracksModifiers (s : KeyboardRun) : Prop := ∀ i < 8,
  (bit s.keyboard.pressedKeys (0xE0 + i) = true ↔
    s.lastValid.modifiers.getLsbD i = true ∨ BitVec.ofNat 8 (0xE0 + i) ∈ s.lastValid.codes)

/-- The bits that `is_key_pressed` reads for a report are those that it should find. -/
structure Told (uppercase : Bool) (report : BootReport) : Prop where
  skipped : ∀ code ∈ report.skippedCode,
    (∀ key, assignedUsage key ≠ some (code, false)) ∧ keyTranslation uppercase code = none
  shifted : ∀ key code, assignedUsage key = some (code, true) →
    (code ||| 0x80 ∈ report.pressedCodes ↔ code ∈ report.codes ∧ uppercase = true)

/-- `Told` as a computation over the bytes. -/
def isTold (uppercase : Bool) (report : BootReport) : Bool :=
  (report.skippedCode.all fun code => allBytes (fun key =>
    assignedUsage key != some (code, false)) &&
    keyTranslation uppercase code == none) &&
  allBytes fun key => (assignedUsage key).all fun entry =>
    !entry.2 || report.pressedCodes.contains (entry.1 ||| 0x80) ==
      (report.codes.contains entry.1 && uppercase)

private theorem isTold_iff (uppercase : Bool) (report : BootReport) :
    isTold uppercase report = true ↔ Told uppercase report := by
  simp only [isTold, allBytes_iff, Option.all_eq_true, Bool.and_eq_true, Bool.or_eq_true,
    Bool.not_eq_true', bne_iff_ne, beq_iff_eq, Prod.forall]
  constructor
  · rintro ⟨skipped, shifted⟩
    refine ⟨fun code found => skipped code found, fun key code assigned => ?_⟩
    have same := (shifted key code true assigned).resolve_left (by simp)
    rw [Bool.eq_iff_iff] at same
    simpa using same
  · rintro ⟨skipped, shifted⟩
    refine ⟨fun code found => skipped code found, fun key code upper assigned => ?_⟩
    cases upper with
    | false => exact Or.inl rfl
    | true =>
      right
      rw [Bool.eq_iff_iff]
      simpa using shifted key code assigned

instance (uppercase : Bool) (report : BootReport) : Decidable (Told uppercase report) :=
  decidable_of_iff _ (isTold_iff uppercase report)

/-- The reports that the driver can follow. -/
inductive Meets (s : KeyboardRun) (report : BootReport) : Prop
  | unchanged (valid : report.Valid) (same : s.keyboard.lastScan = report)
  | rollOver (rollOver : report.RollOver)
    (told : Told (s.keyboard.uppercaseAfter report) s.lastValid)
    (untranslated : ∀ code ∈ s.lastValid.codes,
      keyTranslation (s.keyboard.uppercaseAfter report) code = none)
  | keys (valid : report.Valid) (told : Told (s.keyboard.uppercaseAfter report) report)
    (stale : report.codes = [] → s.keyboard.translatedKeys = [])
    (inside : 116 ∈ report.pressedCodes → s.keyboard.uppercaseAfter report = false)

/-- `Meets` as a computation. -/
def isMet (s : KeyboardRun) (report : BootReport) : Bool :=
  decide report.Valid && decide (s.keyboard.lastScan = report) ||
  decide report.RollOver && isTold (s.keyboard.uppercaseAfter report) s.lastValid &&
    (s.lastValid.codes.all fun code =>
      keyTranslation (s.keyboard.uppercaseAfter report) code == none) ||
  decide report.Valid && isTold (s.keyboard.uppercaseAfter report) report &&
    (!report.codes.isEmpty || s.keyboard.translatedKeys.isEmpty) &&
    !(report.pressedCodes.contains 116 && s.keyboard.uppercaseAfter report)

private theorem isMet_iff (s : KeyboardRun) (report : BootReport) : isMet s report = true ↔
    s.Meets report := by
  simp only [isMet, Bool.or_eq_true, Bool.and_eq_true, decide_eq_true_eq, isTold_iff,
    List.all_eq_true, beq_iff_eq, Bool.not_eq_true', List.isEmpty_iff, List.contains_iff_mem,
    Bool.and_eq_false_imp, and_assoc, or_assoc, List.isEmpty_eq_false_iff]
  constructor
  · rintro (⟨valid, same⟩ | ⟨rollOver, told, none⟩ | ⟨valid, told, stale, inside⟩)
    · exact .unchanged valid same
    · exact .rollOver rollOver told none
    · exact .keys valid told (fun empty => stale.resolve_left (not_not_intro empty)) inside
  · intro meets
    cases meets with
    | unchanged valid same => exact Or.inl ⟨valid, same⟩
    | rollOver rollOver told none => exact Or.inr (Or.inl ⟨rollOver, told, none⟩)
    | keys valid told stale inside =>
      exact Or.inr (Or.inr ⟨valid, told, by
        rw [← imp_iff_not_or]
        exact stale, inside⟩)

instance (s : KeyboardRun) (report : BootReport) : Decidable (s.Meets report) :=
  decidable_of_iff _ (isMet_iff s report)

/-- No modifier key is pressed or released. -/
structure MeetsModifiers (s : KeyboardRun) (report : BootReport) : Prop where
  meets : s.Meets report
  modifiers : report.modifiers = s.keyboard.lastScan.modifiers
  skipped : ∀ code ∈ report.skippedCode, code < 0xE0

/-- What the run keeps, with the bits that no Caps Lock and no modifier key changes. -/
structure Follows (watched : Nat → Prop) (s : KeyboardRun) : Prop where
  scan : s.keyboard.lastScan.keys = s.lastValid.keys
  reserved : s.keyboard.lastScan.reserved = 0
  valid : s.lastValid.Valid
  count : s.keyboard.numKeysPressed = s.lastValid.codes.length
  pressed : ∀ j, watched j →
    (bit s.keyboard.pressedKeys j = true ↔ ∃ code ∈ s.lastValid.pressedCodes, code.toNat = j)
  told : Told s.keyboard.uppercase s.lastValid
  translated : s.keyboard.translatedKeys.Perm
    (s.lastValid.codes.filterMap (keyTranslation s.keyboard.uppercase))

variable {watched : Nat → Prop} {s : KeyboardRun} {report : BootReport}

private theorem told_nil (uppercase : Bool) {report : BootReport} (none : report.codes = []) :
    Told uppercase report := by
  have keys : report.skippedCode = .none := by
    rw [BootReport.skippedCode, none]
    rfl
  have pressed : report.pressedCodes = [] := by
    rw [BootReport.pressedCodes, none]
    rfl
  constructor
  · rw [keys]
    intro code found
    cases found
  · intro key code _
    rw [pressed, none]
    simp

theorem follows_new : Follows watched new where
  scan := rfl
  reserved := rfl
  valid := by
    constructor
    · rfl
    · decide
    · decide
    · decide
  count := by decide
  pressed := fun j _ => by
    constructor
    · intro set
      simp [new, Keyboard.new, bit] at set
    · rintro ⟨code, found, _⟩
      have none : new.lastValid.pressedCodes = [] := by decide
      rw [none] at found
      cases found
  told := told_nil _ (by decide)
  translated := by decide

private theorem not_rollOver (valid : report.Valid) : ¬report.RollOver := fun rollOver =>
  valid.real (by rw [rollOver.codes_eq]; decide)

/-- Nothing is left of the report before. -/
theorem Follows.cleared (inv : Follows watched s) {j : Nat} (here : watched j) :
    ¬(bit s.keyboard.pressedKeys j = true ∧
      ∀ key ∈ s.keyboard.lastScan.keys.toList.take s.keyboard.numKeysPressed, key.toNat ≠ j) := by
  rintro ⟨set, left⟩
  obtain ⟨code, found, same⟩ := (inv.pressed j here).mp set
  rw [inv.scan, inv.count, inv.valid.take_keys (Nat.le_refl _), List.take_length] at left
  exact left code (BootReport.mem_codes_of_pressed found) same

private theorem serve_valid {keyboard : Keyboard} (valid : report.Valid)
    (ran : s.keyboard.usbReport report = some keyboard) :
    s.serve report = some ⟨keyboard, report⟩ := by
  rw [serve, ran, if_neg (not_rollOver valid)]
  rfl

theorem follows_same (inv : Follows watched s) (valid : report.Valid)
    (same : s.keyboard.lastScan = report) :
    ∃ s', s.serve report = some s' ∧ Follows watched s' ∧
      s'.keyboard.lastScan.modifiers = report.modifiers := by
  have keys : report.keys = s.lastValid.keys := by
    rw [← same]
    exact inv.scan
  have codes : report.codes = s.lastValid.codes := by
    rw [BootReport.codes, keys]
    rfl
  have pressedCodes : report.pressedCodes = s.lastValid.pressedCodes := by
    rw [BootReport.pressedCodes, codes]
    rfl
  have skippedCode : report.skippedCode = s.lastValid.skippedCode := by
    rw [BootReport.skippedCode, codes]
    rfl
  refine ⟨_, serve_valid valid (Keyboard.usbReport_same same), ?_, congrArg _ same⟩
  exact {
    scan := inv.scan.trans keys.symm
    reserved := inv.reserved
    valid
    count := by rw [codes]; exact inv.count
    pressed := by rw [pressedCodes]; exact inv.pressed
    told := by
      constructor
      · rw [skippedCode]
        exact inv.told.skipped
      · rw [pressedCodes, codes]
        exact inv.told.shifted
    translated := by rw [codes]; exact inv.translated }

private theorem follows_rollOver (inv : Follows watched s) (rollOver : report.RollOver)
    (told : Told (s.keyboard.uppercaseAfter report) s.lastValid)
    (untranslated : ∀ code ∈ s.lastValid.codes,
      keyTranslation (s.keyboard.uppercaseAfter report) code = none)
    (apart : ∀ j, watched j → j / 32 ≠ 7 ∨ report.modifiers = s.keyboard.lastScan.modifiers) :
    ∃ s', s.serve report = some s' ∧ Follows watched s' ∧
      s'.keyboard.lastScan.modifiers = report.modifiers := by
  have changed : s.keyboard.lastScan ≠ report := by
    rintro rfl
    have codes : s.lastValid.codes = s.keyboard.lastScan.codes := by
      rw [BootReport.codes, ← inv.scan]
      rfl
    exact inv.valid.real (by rw [codes, rollOver.codes_eq]; decide)
  have upper : s.keyboard.uppercaseAfter report =
      (s.keyboard.updateModifiers report.modifiers).uppercase := by
    rw [Keyboard.uppercaseAfter, rollOver.codes_eq]
    exact Bool.xor_false _
  rw [upper] at told untranslated
  refine ⟨⟨{ s.keyboard.updateModifiers report.modifiers with translatedKeys := [] },
    s.lastValid⟩, ?_, ?_, ?_⟩
  · rw [serve, Keyboard.usbReport_rollOver changed rollOver, if_pos rollOver]
    rfl
  · exact {
      scan := by
        simp only [Keyboard.updateModifiers_lastScan]
        exact inv.scan
      reserved := by
        simp only [Keyboard.updateModifiers_lastScan]
        exact inv.reserved
      valid := inv.valid
      count := by
        simp only [Keyboard.updateModifiers_numKeysPressed]
        exact inv.count
      pressed := fun j here => by
        simp only [Keyboard.bit_updateModifiers _ (apart j here)]
        exact inv.pressed j here
      told
      translated := by rw [List.filterMap_eq_nil_iff.mpr untranslated] }
  · simp only [Keyboard.updateModifiers_lastScan]

private theorem follows_empty (inv : Follows watched s) (valid : report.Valid)
    (changed : s.keyboard.lastScan ≠ report) (none : report.codes = [])
    (stale : s.keyboard.translatedKeys = [])
    (apart : ∀ j, watched j → j / 32 ≠ 7 ∨ report.modifiers = s.keyboard.lastScan.modifiers) :
    ∃ s', s.serve report = some s' ∧ Follows watched s' ∧
      s'.keyboard.lastScan.modifiers = report.modifiers := by
  have pressedCodes : report.pressedCodes = [] := by
    rw [BootReport.pressedCodes, none]
    rfl
  refine ⟨_, serve_valid valid (Keyboard.usbReport_empty changed none), ?_, by
    simp only [Keyboard.unpressLast, Keyboard.updateModifiers_lastScan]⟩
  exact {
    scan := (valid.keys_eq_of_nil none).symm
    reserved := by
      simp only [Keyboard.unpressLast, Keyboard.updateModifiers_lastScan]
      exact inv.reserved
    valid
    count := by rw [none]; rfl
    pressed := fun j here => by
      simp only [Keyboard.bit_unpressLast, Keyboard.bit_updateModifiers _ (apart j here),
        Keyboard.updateModifiers_lastScan, Keyboard.updateModifiers_numKeysPressed]
      constructor
      · exact fun left => absurd left (inv.cleared here)
      · rintro ⟨code, found, _⟩
        rw [pressedCodes] at found
        cases found
    told := told_nil _ none
    translated := by
      simp only [Keyboard.unpressLast, Keyboard.updateModifiers_translatedKeys, stale, none]
      exact List.Perm.refl _ }

private theorem follows_keys (inv : Follows watched s) (valid : report.Valid)
    (changed : s.keyboard.lastScan ≠ report) (some : report.codes ≠ [])
    (told : Told (s.keyboard.uppercaseAfter report) report)
    (inside : 116 ∈ report.pressedCodes → s.keyboard.uppercaseAfter report = false)
    (apart : ∀ j, watched j →
      j ≠ 0x39 ∧ (j / 32 ≠ 7 ∨ report.modifiers = s.keyboard.lastScan.modifiers)) :
    ∃ s', s.serve report = Option.some s' ∧ Follows watched s' ∧
      s'.keyboard.lastScan.modifiers = report.modifiers := by
  obtain ⟨pressedKeys, ran, pressed⟩ := Keyboard.usbReport_keys changed valid some inside
  refine ⟨_, serve_valid valid ran, ?_, rfl⟩
  exact {
    scan := rfl
    reserved := inv.reserved
    valid
    count := rfl
    pressed := fun j here => by
      rw [pressed j (apart j here).1, Keyboard.bit_updateModifiers _ (apart j here).2]
      exact ⟨fun set => set.resolve_left (inv.cleared here), Or.inr⟩
    told
    translated := by
      rw [BootReport.filterMap_pressedCodes fun code found => (told.skipped code found).2]
      exact List.reverse_perm _ }

/-- A report that meets the condition is served, and the run goes on as it should. -/
theorem follows_serve (inv : Follows watched s) (meets : s.Meets report)
    (apart : ∀ j, watched j →
      j ≠ 0x39 ∧ (j / 32 ≠ 7 ∨ report.modifiers = s.keyboard.lastScan.modifiers)) :
    ∃ s', s.serve report = some s' ∧ Follows watched s' ∧
      s'.keyboard.lastScan.modifiers = report.modifiers := by
  have words := fun j here => (apart j here).2
  rcases meets with ⟨valid, same⟩ | ⟨rollOver, told, untranslated⟩ | ⟨valid, told, stale, inside⟩
  · exact follows_same inv valid same
  · exact follows_rollOver inv rollOver told untranslated words
  · by_cases same : s.keyboard.lastScan = report
    · exact follows_same inv valid same
    by_cases none : report.codes = []
    · exact follows_empty inv valid same none (stale none) words
    · exact follows_keys inv valid same none told inside apart

/-! ### What the keyboard answers -/

/-- The code that `is_key_pressed` looks up for a key with a usage code. -/
def designatedCode (code : BitVec 8) (shifted : Bool) : BitVec 8 :=
  if shifted then code ||| 0x80 else code

private theorem designatedKey_eq (beyond key : BitVec 8) {code : BitVec 8} {shifted : Bool}
    (has : assignedUsage key = some (code, shifted)) :
    (usUsbAsciiTranslationTable ++ [beyond])[key.toNat]?.getD beyond =
      designatedCode code shifted ∧ designatedCode code shifted ≠ usageCapsLock ∧
      designatedCode code shifted < 0xE0 := by
  have table : (usUsbAsciiTranslationTable.all fun entry =>
      entry = designatedCode (entry &&& 0x7F) (entry.getLsbD 7) ∧
        entry ≠ usageCapsLock ∧ entry < 0xE0) = true := by decide +kernel
  obtain ⟨entry, found, split⟩ := Option.map_eq_some_iff.mp has
  obtain ⟨read, _⟩ := Option.filter_eq_some_iff.mp found
  obtain ⟨rfl, rfl⟩ := Prod.mk.inj split
  obtain ⟨same, capsLock, small⟩ := of_decide_eq_true
    (List.all_eq_true.mp table entry (List.mem_of_getElem? read))
  have inside := (List.getElem?_eq_some_iff.mp read).1
  rw [List.getElem?_append_left inside, read, ← same]
  exact ⟨rfl, capsLock, small⟩

theorem Follows.bit_eq (inv : Follows watched s) {code : BitVec 8} (here : watched code.toNat) :
    bit s.keyboard.pressedKeys code.toNat = true ↔ code ∈ s.lastValid.pressedCodes := by
  rw [inv.pressed _ here]
  constructor
  · rintro ⟨other, found, same⟩
    rwa [← BitVec.eq_of_toNat_eq same]
  · exact fun found => ⟨code, found, rfl⟩

theorem Follows.tracks (inv : Follows watched s) (beyond : BitVec 8)
    (all : ∀ j, j ≠ 0x39 → j / 32 ≠ 7 → watched j) : s.Tracks beyond := by
  constructor
  · intro key code shifted has other
    obtain ⟨designated, different, small⟩ := designatedKey_eq beyond key has
    have below : (designatedCode code shifted).toNat < 0xE0 := small
    have here : watched (designatedCode code shifted).toNat :=
      all _ (fun same => different (BitVec.eq_of_toNat_eq same)) (by omega)
    rw [Keyboard.isKeyPressed_eq, designated, inv.bit_eq here]
    cases shifted with
    | false =>
      simp only [Bool.false_eq_true, false_implies, and_true]
      constructor
      · exact BootReport.mem_codes_of_pressed
      · exact fun found => BootReport.pressed_of_mem_codes found other fun skipped =>
          (inv.told.skipped code skipped).1 key has
    | true =>
      simp only [forall_true_left]
      exact inv.told.shifted key code has
  · exact inv.translated

/-! ### Runs -/

open Requests

/-- The bits that neither Caps Lock nor the modifier byte changes. -/
def Watched (j : Nat) : Prop := j ≠ 0x39 ∧ j / 32 ≠ 7

private theorem follows_meets (inv : Follows Watched s) (meets : s.Meets report) :
    ∃ s', s.serve report = some s' ∧ Follows Watched s' := by
  obtain ⟨s', served, follows, _⟩ := follows_serve inv meets fun _ here => ⟨here.1, Or.inl here.2⟩
  exact ⟨s', served, follows⟩

/-- What a run without modifier keys keeps. -/
structure FollowsModifiers (s : KeyboardRun) : Prop where
  follows : Follows (· ≠ 0x39) s
  scanned : s.keyboard.lastScan.modifiers = 0
  modifiers : s.lastValid.modifiers = 0
  skipped : ∀ code ∈ s.lastValid.skippedCode, code < 0xE0

private theorem followsModifiers_serve (inv : FollowsModifiers s)
    (meets : s.MeetsModifiers report) :
    ∃ s', s.serve report = some s' ∧ FollowsModifiers s' := by
  obtain ⟨s', served, follows, scanned⟩ := follows_serve inv.follows meets.meets fun j here =>
    ⟨here, Or.inr meets.modifiers⟩
  have zero : report.modifiers = 0 := meets.modifiers.trans inv.scanned
  have kept : s'.lastValid.modifiers = 0 ∧ ∀ code ∈ s'.lastValid.skippedCode, code < 0xE0 := by
    obtain ⟨keyboard, _, rfl⟩ := Option.map_eq_some_iff.mp served
    by_cases rollOver : report.RollOver
    · simp only [if_pos rollOver]
      exact ⟨inv.modifiers, inv.skipped⟩
    · simp only [if_neg rollOver]
      exact ⟨zero, meets.skipped⟩
  exact ⟨s', served, follows, scanned.trans zero, kept.1, kept.2⟩

theorem FollowsModifiers.tracks (inv : FollowsModifiers s) : s.TracksModifiers := by
  intro i inside
  have whole : (BitVec.ofNat 8 (0xE0 + i)).toNat = 0xE0 + i := by
    rw [BitVec.toNat_ofNat, Nat.mod_eq_of_lt (by omega)]
  have other : BitVec.ofNat 8 (0xE0 + i) ≠ usageCapsLock := fun same => by
    have numbers := congrArg BitVec.toNat same
    rw [whole] at numbers
    change 0xE0 + i = 0x39 at numbers
    omega
  have here : (BitVec.ofNat 8 (0xE0 + i)).toNat ≠ 0x39 := by omega
  have pressed := inv.follows.bit_eq here
  rw [whole] at pressed
  rw [pressed, inv.modifiers]
  constructor
  · exact fun found => Or.inr (BootReport.mem_codes_of_pressed found)
  · rintro (set | found)
    · simp at set
    · refine BootReport.pressed_of_mem_codes found other fun skipped => ?_
      have below : (BitVec.ofNat 8 (0xE0 + i)).toNat < 0xE0 := inv.skipped _ skipped
      omega

/-- In every run of reports that meet the condition the keys are the ones of the last valid report,
no table is left, and the modifier keys are those of the report where none of them changes. -/
theorem reports_tracked (beyond : BitVec 8) :
    (∀ s, Run serve Meets new s →
      s.Tracks beyond ∧ ∀ report, s.Meets report → (s.serve report).isSome) ∧
    (∀ s, Run serve MeetsModifiers new s → s.Tracks beyond ∧ s.TracksModifiers) := by
  constructor
  · intro s run
    obtain ⟨inv, serves⟩ := run.keeps_serving follows_new fun _ _ => follows_meets
    exact ⟨inv.tracks beyond fun _ other apart => ⟨other, apart⟩, serves⟩
  · intro s run
    have inv := (run.keeps_serving ⟨follows_new, rfl, rfl, fun code found => by cases found⟩
      fun _ _ => followsModifiers_serve).1
    exact ⟨inv.follows.tracks beyond fun _ other _ => other, inv.tracks⟩

/-- A report with the given keys and no modifier key. -/
def keysReport (keys : Vector (BitVec 8) 6) : BootReport := ⟨0, 0, keys⟩

/-- The keys a and 1, after it was a alone. -/
theorem reports_tracked_two : ∃ s, Run serve Meets new s ∧
    s.lastValid = keysReport #v[0x04, 0x1E, 0, 0, 0, 0] ∧ s.Tracks 0 := by
  have served : ((serveAll serve Meets new [keysReport #v[0x04, 0, 0, 0, 0, 0],
      keysReport #v[0x04, 0x1E, 0, 0, 0, 0]]).any fun s =>
        s.lastValid = keysReport #v[0x04, 0x1E, 0, 0, 0, 0]) = true := by decide +kernel
  obtain ⟨s, ran, last⟩ := (Option.any_eq_true _ _).1 served
  have run := serveAll_run ran
  exact ⟨s, run, of_decide_eq_true last, ((reports_tracked 0).1 s run).1⟩

/-- After the key a and a report without keys, the keyboard still has a translated key. -/
theorem not_tracks_released : ∃ s,
    Run serve (fun _ report => report.Valid ∨ report.RollOver) new s ∧ ¬s.Tracks 0 := by
  have served : ((serveAll serve (fun _ report => report.Valid ∨ report.RollOver) new
      [keysReport #v[0x04, 0, 0, 0, 0, 0], keysReport #v[0, 0, 0, 0, 0, 0]]).any fun s =>
        s.lastValid.codes = [] ∧ s.keyboard.translatedKeys = [0x61]) = true := by decide +kernel
  obtain ⟨s, ran, stale⟩ := (Option.any_eq_true _ _).1 served
  obtain ⟨none, one⟩ := of_decide_eq_true stale
  refine ⟨s, serveAll_run ran, fun tracks => ?_⟩
  have same := tracks.translated.length_eq
  rw [none, one] at same
  cases same

end KeyboardRun

end EmkKernel
