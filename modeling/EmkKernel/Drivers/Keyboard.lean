import EmkKernel.Library.BitArray

/-!
# The keyboard

The tables of the keyboard, what `usb_report` does with a report of the boot protocol, and what
`is_key_pressed` answers after it.
-/

namespace EmkKernel

/-- Keys when `UPPERCASE` is set. -/
def usUsbKeyUppercaseTranslation : List (BitVec 8) := [
  0xFF, 0xFF, 0xFF, 0xFF, 0x41, 0x42, 0x43, 0x44, 0x45, 0x46, 0x47, 0x48, 0x49, 0x4A,
  0x4B, 0x4C, 0x4D, 0x4E, 0x4F, 0x50, 0x51, 0x52, 0x53, 0x54, 0x55, 0x56, 0x57, 0x58,
  0x59, 0x5A, 0x21, 0x40, 0x23, 0x24, 0x25, 0x5E, 0x26, 0x2A, 0x28, 0x29, 0x0D, 0xFF,
  0xFF, 0x09, 0x20, 0x5F, 0x2B, 0x7B, 0x7D, 0x7C, 0xFF, 0x3A, 0x22, 0x7E, 0x3C, 0x3D,
  0x3F, 0xFF, 0xFF, 0xFF, 0xFF, 0xFF, 0xFF, 0xFF, 0xFF, 0xFF, 0xFF, 0xFF, 0xFF, 0xFF,
  0xFF, 0xFF, 0xFF, 0xFF, 0xFF, 0xFF, 0xFF, 0xFF, 0xFF, 0xFF, 0xFF, 0xFF, 0xFF, 0xFF,
  0x2F, 0x2A, 0x2D, 0x2B, 0xFF, 0xFF, 0xFF, 0xFF, 0xFF, 0x35, 0xFF, 0xFF, 0xFF, 0xFF,
  0xFF, 0xFF, 0xFF, 0xFF, 0xFF, 0x3D, 0xFF, 0xFF, 0xFF, 0xFF, 0xFF, 0xFF, 0xFF, 0xFF,
  0xFF, 0xFF, 0xFF, 0xFF]

/-- Only when neither Shift nor Caps Lock is pressed. -/
def usUsbKeyTranslationTable : List (BitVec 8) := [
  0xFF, 0xFF, 0xFF, 0xFF, 0x61, 0x62, 0x63, 0x64, 0x65, 0x66, 0x67, 0x68, 0x69, 0x6A,
  0x6B, 0x6C, 0x6D, 0x6E, 0x6F, 0x70, 0x71, 0x72, 0x73, 0x74, 0x75, 0x76, 0x77, 0x78,
  0x79, 0x7A, 0x31, 0x32, 0x33, 0x34, 0x35, 0x36, 0x37, 0x38, 0x39, 0x30, 0x0D, 0xFF,
  0xFF, 0x09, 0x20, 0x2D, 0x3D, 0x5B, 0x5D, 0x5C, 0xFF, 0x3B, 0x27, 0x60, 0x2C, 0x2E,
  0x2F, 0xFF, 0xFF, 0xFF, 0xFF, 0xFF, 0xFF, 0xFF, 0xFF, 0xFF, 0xFF, 0xFF, 0xFF, 0xFF,
  0xFF, 0xFF, 0xFF, 0xFF, 0xFF, 0xFF, 0xFF, 0xFF, 0xFF, 0xFF, 0xFF, 0xFF, 0xFF, 0xFF,
  0x2F, 0x2A, 0x2D, 0x2B, 0xFF, 0x31, 0x32, 0x33, 0x34, 0x35, 0x36, 0x37, 0x38, 0x39,
  0x30, 0x2E, 0xFF, 0xFF, 0xFF, 0x3D, 0xFF, 0xFF, 0xFF, 0xFF, 0xFF, 0xFF, 0xFF, 0xFF,
  0xFF, 0xFF, 0xFF, 0xFF]

/-- Translates ASCII keys into key codes. A key with 2 is always unpressed; `0x80 | x` means
that `x` has to be checked and `UPPERCASE` must be true. -/
def usUsbAsciiTranslationTable : List (BitVec 8) := [
  0x02, 0x02, 0x02, 0x02, 0x02, 0x02, 0x02, 0x02, 0x02, 0x2B, 0x02, 0x02, 0x02, 0x02,
  0x02, 0x02, 0x02, 0x02, 0x02, 0x02, 0x02, 0x02, 0x02, 0x02, 0x02, 0x02, 0x02, 0x02,
  0x02, 0x02, 0x02, 0x02, 0x2C, 0x9E, 0xB3, 0xA0, 0xA1, 0xA2, 0xA4, 0x34, 0xA6, 0xA7,
  0xA5, 0xAE, 0x36, 0x2D, 0x37, 0x38, 0x27, 0x1E, 0x1F, 0x20, 0x21, 0x22, 0x23, 0x24,
  0x25, 0x26, 0xB3, 0x33, 0xB6, 0x2E, 0xB7, 0xB8, 0x9F, 0x84, 0x85, 0x86, 0x87, 0x88,
  0x89, 0x8A, 0x8B, 0x8C, 0x8D, 0x8E, 0x8F, 0x90, 0x91, 0x92, 0x93, 0x94, 0x95, 0x96,
  0x97, 0x98, 0x99, 0x9A, 0x9B, 0x9C, 0x9D, 0x2F, 0x31, 0x30, 0xA3, 0xAD, 0x35, 0x04,
  0x05, 0x06, 0x07, 0x08, 0x09, 0x0A, 0x0B, 0x0C, 0x0D, 0x0E, 0x0F, 0x10, 0x11, 0x12,
  0x13, 0x14, 0x15, 0x16, 0x17, 0x18, 0x19, 0x1A, 0x1B, 0x1C, 0x1D, 0xAF, 0xB1, 0xB0,
  0xB5] ++ List.replicate 128 0x02

def keyboardMaximumUsbKeyImplemented : BitVec 8 := 116

/-- What `choose_keyboard` copies to `USB_KEYBOARD_TRANSLATION_TABLE`. -/
def usbKeyboardTranslationTable : List (BitVec 8) :=
  usUsbKeyTranslationTable ++ usUsbKeyUppercaseTranslation

/-- `None` where the read is behind the table. -/
def usbTranslateKey (uppercase : Bool) (key : BitVec 8) : Option (Option (BitVec 8)) :=
  let translationBuffer := if uppercase then keyboardMaximumUsbKeyImplemented.toNat else 0
  if keyboardMaximumUsbKeyImplemented < key then some none
  else
    usbKeyboardTranslationTable[translationBuffer + key.toNat]?.map fun keyCode =>
      if keyCode = 0xFF then none else some keyCode

/-- The report of a boot keyboard, which is also the layout of `LAST_SCAN`. -/
structure BootReport where
  modifiers : BitVec 8
  reserved : BitVec 8
  keys : Vector (BitVec 8) 6
  deriving DecidableEq

/-- The usage codes in the report. -/
def BootReport.codes (report : BootReport) : List (BitVec 8) := report.keys.toList.filter (· ≠ 0)

structure Keyboard where
  lastScan : BootReport
  pressedKeys : BitArray.Words
  /-- The first `NUM_TRANSLATED_KEYS` entries of `TRANSLATED_KEYS`. -/
  translatedKeys : List (BitVec 8)
  numKeysPressed : Nat
  uppercase : Bool

def usbPressKey (pressedKeys : BitArray.Words) (key : BitVec 8) : BitArray.Words :=
  Function.update pressedKeys (key.toNat / 32)
    (pressedKeys (key.toNat / 32) ||| (1 : BitVec 32) <<< (key.toNat % 32))

def usbUnpressKey (pressedKeys : BitArray.Words) (key : BitVec 8) : BitArray.Words :=
  Function.update pressedKeys (key.toNat / 32)
    (pressedKeys (key.toNat / 32) &&&
      ((0xFFFFFFFF : BitVec 32) ^^^ (1 : BitVec 32) <<< (key.toNat % 32)))

def usageCapsLock : BitVec 8 := 0x39

/-- Caps Lock is pressed if it was not, and the other way around. -/
def toggleCapsLock (pressedKeys : BitArray.Words) : BitArray.Words :=
  Function.update pressedKeys (usageCapsLock.toNat / 32)
    (pressedKeys (usageCapsLock.toNat / 32) ^^^
      (1 : BitVec 32) <<< (usageCapsLock.toNat % 32))

namespace Keyboard

def new : Keyboard where
  lastScan := ⟨0, 0, Vector.replicate 6 0⟩
  pressedKeys := fun _ => 0
  translatedKeys := []
  numKeysPressed := 0
  uppercase := false

variable (s : Keyboard)

/-- `usb_update_modifier_keys` runs before `LAST_SCAN` has the new modifiers. -/
def usbUpdateModifierKeys : BitArray.Words :=
  Function.update s.pressedKeys (0xE0 / 32) (s.lastScan.modifiers.setWidth 32)

def controlCharacterLeftShift : Nat := 1

/-- The part of `usb_report` about the modifier byte. -/
def updateModifiers (modifiers : BitVec 8) : Keyboard :=
  if modifiers = s.lastScan.modifiers then s
  else
    { s with
      pressedKeys := s.usbUpdateModifierKeys
      uppercase := s.uppercase ^^ (modifiers.getLsbD controlCharacterLeftShift ^^
        s.lastScan.modifiers.getLsbD controlCharacterLeftShift)
      lastScan.modifiers := modifiers }

/-- The keys of the last scan are not pressed any more. -/
def unpressLast : Keyboard :=
  { s with
    pressedKeys :=
      (s.lastScan.keys.toList.take s.numKeysPressed).foldl usbUnpressKey s.pressedKeys }

/-- A key is pressed and, where it can be, translated. -/
def pressAndTranslate (key : BitVec 8) : Option Keyboard := do
  let translated ← usbTranslateKey s.uppercase key
  match translated with
  | none => some { s with pressedKeys := usbPressKey s.pressedKeys key }
  | some keyCode =>
    if s.translatedKeys.length < 6 then
      some { s with
        pressedKeys := usbPressKey s.pressedKeys key
        translatedKeys := s.translatedKeys ++ [keyCode] }
    else none

/-- The loops of `usb_report`, which go through the keys backwards. -/
def pressKeys (keys : List (BitVec 8)) : Option Keyboard :=
  keys.reverse.foldlM pressAndTranslate s

def usbReport (report : BootReport) : Option Keyboard :=
  if s.lastScan = report then some s
  else
    let s := s.updateModifiers report.modifiers
    let numKeysPressed := report.keys.toList.countP (· ≠ 0)
    if numKeysPressed = 0 then
      some { s.unpressLast with numKeysPressed := 0, lastScan.keys := Vector.replicate 6 0 }
    else
      let s := { s with translatedKeys := [] }
      let last := report.keys.toList[numKeysPressed - 1]?
      if last = some 1 then some s
      else
        let pressed :=
          if last = some usageCapsLock then
            let s := { s with
              uppercase := !s.uppercase
              pressedKeys := toggleCapsLock s.pressedKeys }
            -- Neither Caps Lock nor the first key.
            s.unpressLast.pressKeys ((report.keys.toList.take (numKeysPressed - 1)).drop 1)
          else s.unpressLast.pressKeys (report.keys.toList.take numKeysPressed)
        pressed.map fun s => { s with lastScan.keys := report.keys, numKeysPressed }

/-- `beyond` is the byte behind the table, which `choose_keyboard` copies with it. -/
def isKeyPressed (beyond : BitVec 8) (key : BitVec 8) : Bool :=
  let designatedKey := ((usUsbAsciiTranslationTable ++ [beyond])[key.toNat]?.getD beyond).toNat
  s.pressedKeys (designatedKey / 32) &&& (1 : BitVec 32) <<< (designatedKey % 32) ≠ 0

end Keyboard

end EmkKernel
