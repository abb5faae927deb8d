import EmkKernel.Aml.PathSystem
import EmkKernel.Utils.Reader

/-!
# Terms of AML

`aml::definitions` and the parsers of `aml::utils`. A parser is given by any reader; a
recursion or a loop of the source that a counter of the reader ends has fuel for as many
steps as the counter can take.
-/

namespace EmkKernel

open ReadM

inductive DataRefObject where
  | zero
  | one
  | ones
  | byte (b : Nat)
  | word (w : Nat)
  | dWord (dw : Nat)
  | qWord (qw : Nat)
  | revisionOp
  | string (ptr length : Nat)
  | buffer (ptr length : Nat)
  | package (ptr length numElements : Nat)
  deriving DecidableEq, Repr

/-- The variants that are parsed or evaluated. -/
inductive TermArgInt where
  | byte (b : Nat)
  | word (w : Nat)
  | dWord (dw : Nat)
  | qWord (qw : Nat)
  | zero
  | one
  | ones
  | logicalEquals (base : Nat)
  | nameString (name : NameString)

inductive SimpleName where
  | nameString (name : NameString)
  | arg (a : Nat)
  | local (l : Nat)

inductive Supername where
  | simpleName (name : SimpleName)
  | debugObj

inductive TermArg where
  | arg (a : Nat)
  | local (l : Nat)
  | byte (b : Nat)
  | word (w : Nat)
  | dWord (dw : Nat)
  | qWord (qw : Nat)
  | string (base len : Nat)
  | zero
  | one
  | ones
  | returnOp (address : Nat)
  | nameString (name : NameString)

def isNameStringCharacter (c : Byte) : Bool :=
  let digitChar := '0'.toNat ≤ c.toNat && c.toNat ≤ '9'.toNat
  let nameChar := 'A'.toNat ≤ c.toNat && c.toNat ≤ 'Z'.toNat
  digitChar || nameChar || c.toNat == '_'.toNat

def segment (c₀ c₁ c₂ c₃ : Byte) : Segment := fun i => [c₀, c₁, c₂, c₃].getD i 0

variable {ρ : Type} [Reader ρ]

/-- The part of `parse_name_string` behind the prefix. -/
def parseSegments (indicator : Byte) (absolute : Bool) : ReadM ρ NameString := do
  if indicator = 0x2F then
    let numSegments ← readByte
    let ptr ← pointer (← current)
    let _ ← skip (numSegments.toNat * 4)
    pure (.multiple ptr numSegments.toNat absolute)
  else if indicator = 0x2E then
    let ptr ← pointer (← current)
    let _ ← skip 8
    pure (.dual ptr absolute)
  else if (← peekU8 0) = 0 then
    let _ ← skip 1
    pure (.single (segment indicator 0 0 0) absolute)
  else
    let buf ← readBytes 3
    pure (.single (segment indicator (buf 0) (buf 1) (buf 2)) absolute)

/-- Both prefixes make the name absolute. -/
def parseNameString : ReadM ρ NameString := do
  let indicator ← readByte
  if indicator = 0x5C ∨ indicator = 0x5E then
    let indicator ← readByte
    if indicator = 0 then
      pure (.single (segment 0x5C 0 0 0) true)
    else if isNameStringCharacter (← peekU8 3) then
      parseSegments indicator true
    else
      let buf ← readBytes 3
      pure (.single (segment indicator (buf 0) (buf 1) (buf 2)) true)
  else
    parseSegments indicator false

/-- The bytes that follow the first one of a package length. -/
def parsePkglenBytes (ret : Nat) (i : Nat) : Nat → ReadM ρ Nat
  | 0 => pure ret
  | n + 1 => do
    let val ← readByte
    parsePkglenBytes (ret ||| val.toNat <<< (4 + 8 * i)) (i + 1) n

def parsePkglen : ReadM ρ Nat := do
  let fd ← readByte
  let followingBytes := fd.toNat / 2 ^ 6
  if followingBytes = 0 then pure (fd.toNat % 2 ^ 6)
  else parsePkglenBytes (fd.toNat % 2 ^ 4) 0 followingBytes

/-- The loop over the characters of a string, whose length is counted in `u16`. -/
def parseString : Nat → ReadM ρ Nat
  | 0 => do
    if (← peekU8 0) = 0 then
      let _ ← skip 1
      pure 0
    else failure
  | n + 1 => do
    if (← peekU8 0) = 0 then
      let _ ← skip 1
      pure 0
    else
      let _ ← skip 1
      let length ← parseString n
      pure (length + 1)

/-- The name that starts one byte back, if the byte can start a name. -/
def parseNameFrom (oc : Nat) : ReadM ρ NameString := do
  if oc = 0x2F ∨ oc = 0x2E ∨ oc = 0x5C ∨ isNameStringCharacter (.ofNat 8 oc) then
    let _ ← goBack 1
    parseNameString
  else failure

def parseTermarg : ReadM ρ TermArg := do
  let oc ← readUnsigned 1
  if oc = 0 then pure .zero
  else if oc = 1 then pure .one
  else if oc = 0xFF then pure .ones
  else if oc = 0x0A then .byte <$> readUnsigned 1
  else if oc = 0x0B then .word <$> readUnsigned 2
  else if oc = 0x0C then .dWord <$> readUnsigned 4
  else if oc = 0x0D then
    let begin' ← current
    let length ← parseString (2 ^ 16 - 1)
    pure (.string begin' length)
  else if oc = 0x0E then .qWord <$> readUnsigned 8
  else if 0x60 ≤ oc ∧ oc ≤ 0x66 then pure (.local (oc - 0x60))
  else if 0x68 ≤ oc ∧ oc ≤ 0x6E then pure (.arg (oc - 0x68))
  else if oc = 0xA4 then .returnOp <$> current
  else .nameString <$> parseNameFrom oc

def parseSupername : ReadM ρ Supername := do
  let oc ← readUnsigned 1
  if oc = 0x5B then
    let oc ← readUnsigned 1
    if oc = 0x31 then pure .debugObj else failure
  else if 0x60 ≤ oc ∧ oc ≤ 0x66 then pure (.simpleName (.local (oc - 0x60)))
  else if 0x68 ≤ oc ∧ oc ≤ 0x6E then pure (.simpleName (.arg (oc - 0x68)))
  else (fun name => .simpleName (.nameString name)) <$> parseNameFrom oc

/-- `parse_termarg_int` with fuel for the operands in operands. -/
def parseTermargIntLoop : Nat → ReadM ρ TermArgInt
  | 0 => failure
  | fuel + 1 => do
    let inst ← readUnsigned 1
    if inst = 0 then pure .zero
    else if inst = 1 then pure .one
    else if inst = 0x0A then .byte <$> readUnsigned 1
    else if inst = 0x0B then .word <$> readUnsigned 2
    else if inst = 0x0C then .dWord <$> readUnsigned 4
    else if inst = 0x0E then .qWord <$> readUnsigned 8
    else if inst = 0x93 then
      let c ← current
      let _ ← parseTermargIntLoop fuel
      let _ ← parseTermargIntLoop fuel
      pure (.logicalEquals c)
    else .nameString <$> parseNameFrom inst

/-- Every operand takes a byte, and a reader counts its bytes in 64 bits. -/
def parseTermargInt : ReadM ρ TermArgInt := parseTermargIntLoop (2 ^ 64)

end EmkKernel
