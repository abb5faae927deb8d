import EmkKernel.Aml.NameStrings

/-!
# Encoded integer terms

The constants, names and operations that stand for a number. Of the operators
`parse_termarg_int` knows only the comparison for equality.
-/

namespace EmkKernel

open ReadM BufferedReader

/-- The sizes of a buffer that are taken. -/
def TermArgInt.bufferSize : TermArgInt → Option Nat
  | .byte b => some b
  | .word w => some w
  | .dWord dw => some dw
  | _ => none

/-- The constants that follow a prefix. -/
inductive Constant where
  | byte (b : Nat)
  | word (w : Nat)
  | dWord (dw : Nat)
  | qWord (qw : Nat)

namespace Constant

def tag : Constant → Byte
  | .byte _ => 0x0A
  | .word _ => 0x0B
  | .dWord _ => 0x0C
  | .qWord _ => 0x0E

def width : Constant → Nat
  | .byte _ => 1
  | .word _ => 2
  | .dWord _ => 4
  | .qWord _ => 8

def value : Constant → Nat
  | .byte v | .word v | .dWord v | .qWord v => v

def bytes (c : Constant) : List Byte := c.tag :: leBytes c.value c.width

def Valid (c : Constant) : Prop := c.value < 2 ^ (8 * c.width)

def term : Constant → TermArgInt
  | .byte b => .byte b
  | .word w => .word w
  | .dWord dw => .dWord dw
  | .qWord qw => .qWord qw

def object : Constant → DataRefObject
  | .byte b => .byte b
  | .word w => .word w
  | .dWord dw => .dWord dw
  | .qWord qw => .qWord qw

end Constant

inductive LogicalOperator where
  | and
  | or
  | equal
  | greater
  | less

def LogicalOperator.opcode : LogicalOperator → Byte
  | .and => 0x90
  | .or => 0x91
  | .equal => 0x93
  | .greater => 0x94
  | .less => 0x95

inductive IntTerm where
  | zero
  | one
  | ones
  | const (c : Constant)
  | name (e : NameEncoding)
  | logical (operator : LogicalOperator) (left right : IntTerm)
  | logicalNot (operand : IntTerm)
  /-- A local, an argument or an operation on numbers, whatever its operands are. -/
  | operation (opcode : Byte) (operands : List Byte)

namespace IntTerm

def bytes : IntTerm → List Byte
  | .zero => [0]
  | .one => [1]
  | .ones => [0xFF]
  | .const c => c.bytes
  | .name e => e.bytes
  | .logical operator left right => operator.opcode :: (left.bytes ++ right.bytes)
  | .logicalNot operand => 0x92 :: operand.bytes
  | .operation opcode operands => opcode :: operands

/-- In a term, the null name alone would be a zero. -/
def Valid : IntTerm → Prop
  | .zero | .one | .ones => True
  | .const c => c.Valid
  | .name e => ¬(e.start = .relative ∧ e.path = .null)
  | .logical _ left right => left.Valid ∧ right.Valid
  | .logicalNot operand => operand.Valid
  | .operation opcode _ => 0x60 ≤ opcode.toNat ∧ opcode.toNat < 0x90

/-- Operators of which only the comparison for equality is one that is read. -/
def Supported : IntTerm → Prop
  | .zero | .one | .const _ => True
  | .name e => ∀ n, e.start ≠ .parents n
  | .logical .equal left right => left.Supported ∧ right.Supported
  | .ones | .logical .. | .logicalNot _ | .operation .. => False

/-- The value of a term that is a number. -/
def value? : IntTerm → Option Nat
  | .zero => some 0
  | .one => some 1
  | .ones => some (2 ^ 64 - 1)
  | .const c => some c.value
  | _ => none

/-- The value of a term that is taken for a size. -/
def size? : IntTerm → Option Nat
  | .const (.byte v) | .const (.word v) | .const (.dWord v) => some v
  | _ => none

end IntTerm

/-- A term is read up to its last byte. -/
def ReadsTerm (reader : BufferedReader) (term : IntTerm) : Prop :=
  ∃ value, parseTermargInt reader = some (value, reader.moved (reader.pos + term.bytes.length))

theorem ReadM.map_some {ρ α β : Type} {x : ReadM ρ α} {r r' : ρ} {a : α} (f : α → β)
    (ran : x r = some (a, r')) : (f <$> x) r = some (f a, r') := by
  change (x r).bind (fun p => some (f p.1, p.2)) = _
  rw [ran, Option.bind_some]

section Terms

variable {reader : BufferedReader}

private theorem character_range {c : Byte} (character : isNameStringCharacter c = true) :
    0x30 ≤ c.toNat ∧ c.toNat ≤ 0x39 ∨ 0x41 ≤ c.toNat ∧ c.toNat ≤ 0x5A ∨ c.toNat = 0x5F := by
  simpa [isNameStringCharacter, or_assoc] using character

/-- A byte that is no constant and no operator starts a name or is unknown. -/
theorem parseTermargIntLoop_other {fuel : Nat} {b : Byte} {rest : List Byte}
    (holds : reader.Holds (b :: rest)) (other : 0x10 ≤ b.toNat ∧ b.toNat ≠ 0x93) :
    parseTermargIntLoop (fuel + 1) reader =
      (TermArgInt.nameString <$> parseNameFrom b.toNat) (reader.moved (reader.pos + 1)) := by
  obtain ⟨large, notEqual⟩ := other
  rw [parseTermargIntLoop, ReadM.bind_some holds.readUnsigned, if_neg (by omega),
    if_neg (by omega), if_neg (by omega), if_neg (by omega), if_neg (by omega),
    if_neg (by omega), if_neg notEqual]

private theorem parseTermargIntLoop_unknown {fuel : Nat} {b : Byte} {rest : List Byte}
    (holds : reader.Holds (b :: rest))
    (unknown : b.toNat = 0x5E ∨ 0x60 ≤ b.toNat ∧ b.toNat ≠ 0x93) :
    parseTermargIntLoop (fuel + 1) reader = none := by
  have noName : ¬(b.toNat = 0x2F ∨ b.toNat = 0x2E ∨ b.toNat = 0x5C ∨
      isNameStringCharacter (.ofNat 8 b.toNat) = true) := by
    rw [BitVec.ofNat_toNat, BitVec.setWidth_eq]
    rintro (dual | multi | root | character)
    · omega
    · omega
    · omega
    · have := character_range character
      omega
  rw [parseTermargIntLoop_other holds (by omega), parseNameFrom, if_neg noName]
  rfl

theorem parseTermargIntLoop_const {fuel : Nat} {c : Constant} (valid : c.Valid)
    (holds : reader.Holds c.bytes) : parseTermargIntLoop (fuel + 1) reader =
      some (c.term, reader.moved (reader.pos + c.bytes.length)) := by
  have number := holds.tail
  rw [← List.append_nil (leBytes _ _)] at number
  have read := number.readNumber valid
  rw [parseTermargIntLoop, ReadM.bind_some holds.readUnsigned]
  cases c <;> exact ReadM.map_some _ read

/-- A name that does not start at a parent starts with a byte that only names start with. -/
theorem NameEncoding.starts {e : NameEncoding} (supported : e.Supported) :
    ∃ b rest, e.bytes = b :: rest ∧
      (b.toNat = 0x2F ∨ b.toNat = 0x2E ∨ b.toNat = 0x5C ∨ isNameStringCharacter b = true) := by
  obtain ⟨start, path, valid⟩ := e
  cases start with
  | parents n => exact absurd rfl (supported.1 n)
  | root => exact ⟨_, _, rfl, by decide⟩
  | relative =>
    cases path with
    | null => exact absurd ⟨rfl, rfl⟩ supported.2
    | seg name => exact ⟨_, _, rfl, Or.inr (Or.inr (Or.inr (valid.1 0)))⟩
    | dual _ _ => exact ⟨_, _, rfl, by decide⟩
    | multi _ => exact ⟨_, _, rfl, by decide⟩

theorem parseTermargIntLoop_name (fuel : Nat) {e : NameEncoding} (supported : e.Supported)
    (holds : reader.Holds e.bytes) : ∃ name, name.encode = e.bytes ∧
      parseTermargIntLoop (fuel + 1) reader =
        some (.nameString name, reader.moved (reader.pos + e.bytes.length)) := by
  obtain ⟨name, parsed, same⟩ := parsesName_of_supported holds supported
  obtain ⟨b, rest, bytes, isStart⟩ := NameEncoding.starts supported
  have first : reader.Holds (b :: rest) := bytes ▸ holds
  have other : 0x10 ≤ b.toNat ∧ b.toNat ≠ 0x93 := by
    obtain dual | multi | root | character := isStart
    · omega
    · omega
    · omega
    · have := character_range character
      omega
  have back : ReadM.goBack 1 (reader.moved (reader.pos + 1)) = some (true, reader) :=
    @goBack_eq (reader.moved (reader.pos + 1)) 1 (Nat.le_add_left ..)
  have named : parseNameFrom b.toNat (reader.moved (reader.pos + 1)) =
      some (name, reader.moved (reader.pos + e.bytes.length)) := by
    rw [parseNameFrom, BitVec.ofNat_toNat, BitVec.setWidth_eq, if_pos isStart,
      ReadM.bind_some back, parsed]
  refine ⟨name, same, ?_⟩
  rw [parseTermargIntLoop_other first other, ReadM.map_some _ named]

variable {term : IntTerm} {fuel : Nat}

theorem IntTerm.length_bytes_pos (term : IntTerm) : 0 < term.bytes.length := by
  cases term with
  | name e =>
    have some : 0 < e.path.bytes.length := by cases e.path <;> exact Nat.succ_pos _
    rw [bytes, NameEncoding.bytes, List.length_append]
    exact Nat.add_pos_right _ some
  | _ => exact Nat.succ_pos _

/-- Supported terms are read to their end, and only constants have a value that is a size. -/
theorem parseTermargIntLoop_supported (valid : term.Valid) (supported : term.Supported)
    (enough : term.bytes.length ≤ fuel) (holds : reader.Holds term.bytes) :
    ∃ value, parseTermargIntLoop fuel reader =
        some (value, reader.moved (reader.pos + term.bytes.length)) ∧
      value.bufferSize = term.size? := by
  induction term generalizing reader fuel with
  | zero =>
    obtain ⟨fuel, rfl⟩ := Nat.exists_eq_succ_of_ne_zero (Nat.ne_of_gt enough)
    exact ⟨.zero, by rw [parseTermargIntLoop, ReadM.bind_some holds.readUnsigned]; rfl, rfl⟩
  | one =>
    obtain ⟨fuel, rfl⟩ := Nat.exists_eq_succ_of_ne_zero (Nat.ne_of_gt enough)
    exact ⟨.one, by rw [parseTermargIntLoop, ReadM.bind_some holds.readUnsigned]; rfl, rfl⟩
  | ones => exact supported.elim
  | const c =>
    obtain ⟨fuel, rfl⟩ := Nat.exists_eq_succ_of_ne_zero
      (Nat.ne_of_gt (Nat.lt_of_lt_of_le (IntTerm.length_bytes_pos _) enough))
    exact ⟨c.term, parseTermargIntLoop_const valid holds, by cases c <;> rfl⟩
  | name e =>
    obtain ⟨fuel, rfl⟩ := Nat.exists_eq_succ_of_ne_zero
      (Nat.ne_of_gt (Nat.lt_of_lt_of_le (IntTerm.length_bytes_pos _) enough))
    obtain ⟨name, -, parsed⟩ := parseTermargIntLoop_name fuel ⟨supported, valid⟩ holds
    exact ⟨_, parsed, rfl⟩
  | logical operator left right ihLeft ihRight =>
    cases operator with
    | equal =>
      have length : (IntTerm.logical .equal left right).bytes.length =
          left.bytes.length + right.bytes.length + 1 := by
        rw [IntTerm.bytes, List.length_cons, List.length_append]
      rw [length] at enough
      obtain ⟨fuel, rfl⟩ := Nat.exists_eq_succ_of_ne_zero
        (Nat.ne_of_gt (Nat.lt_of_lt_of_le (Nat.succ_pos _) enough))
      obtain ⟨holdsLeft, holdsRight⟩ := holds_append.mp holds.tail
      obtain ⟨a, first, _⟩ := ihLeft valid.1 supported.1
        (show left.bytes.length ≤ fuel by omega) holdsLeft
      obtain ⟨b, second, _⟩ := ihRight valid.2 supported.2
        (show right.bytes.length ≤ fuel by omega) holdsRight
      refine ⟨.logicalEquals (reader.buf + (reader.pos + 1)), ?_, rfl⟩
      rw [parseTermargIntLoop, ReadM.bind_some holds.readUnsigned]
      refine (ReadM.bind_some (show ReadM.current _ = some (_, _) from rfl)).trans ?_
      have sum : reader.pos + (left.bytes.length + right.bytes.length + 1) =
          reader.pos + 1 + left.bytes.length + right.bytes.length := by omega
      rw [ReadM.bind_some first, ReadM.bind_some second, length, sum]
      rfl
    | and | or | greater | less => exact supported.elim
  | logicalNot _ _ => exact supported.elim
  | operation _ _ => exact supported.elim

theorem parseTermargIntLoop_unsupported (valid : term.Valid) (unsupported : ¬term.Supported)
    (enough : term.bytes.length ≤ fuel) (holds : reader.Holds term.bytes) :
    parseTermargIntLoop fuel reader = none := by
  obtain ⟨fuel, rfl⟩ := Nat.exists_eq_succ_of_ne_zero
    (Nat.ne_of_gt (Nat.lt_of_lt_of_le (IntTerm.length_bytes_pos _) enough))
  induction term generalizing reader fuel with
  | zero | one | const _ => exact absurd trivial unsupported
  | ones => exact parseTermargIntLoop_unknown holds (by decide)
  | name e =>
    obtain ⟨start, path, named⟩ := e
    cases start with
    | relative | root => exact absurd (fun _ => nofun) unsupported
    | parents n => exact parseTermargIntLoop_unknown holds (by decide)
  | logical operator left right ihLeft ihRight =>
    cases operator with
    | equal =>
      have length : (IntTerm.logical .equal left right).bytes.length =
          left.bytes.length + right.bytes.length + 1 := by
        rw [IntTerm.bytes, List.length_cons, List.length_append]
      rw [length] at enough
      obtain ⟨holdsLeft, holdsRight⟩ := holds_append.mp holds.tail
      have someLeft := left.length_bytes_pos
      obtain ⟨fuel, rfl⟩ := Nat.exists_eq_succ_of_ne_zero (n := fuel) (by omega)
      rw [parseTermargIntLoop, ReadM.bind_some holds.readUnsigned]
      refine (ReadM.bind_some (show ReadM.current _ = some (_, _) from rfl)).trans ?_
      by_cases supported : left.Supported
      · -- the second operand is the one that is not read
        obtain ⟨a, first, _⟩ := parseTermargIntLoop_supported valid.1 supported
          (show left.bytes.length ≤ fuel + 1 by omega) holdsLeft
        rw [ReadM.bind_some first]
        have second := ihRight valid.2 (fun both => unsupported ⟨supported, both⟩) holdsRight fuel
          (by omega)
        exact congrArg (fun o => Option.bind o _) second
      · have first := ihLeft valid.1 supported holdsLeft fuel (by omega)
        exact congrArg (fun o => Option.bind o _) first
    | and | or | greater | less => exact parseTermargIntLoop_unknown holds (by decide)
  | logicalNot _ _ => exact parseTermargIntLoop_unknown holds (by decide)
  | operation opcode _ =>
    obtain ⟨low, high⟩ := valid
    exact parseTermargIntLoop_unknown holds (Or.inr ⟨low, by omega⟩)

/-- The reader counts its bytes in 32 bits, so a term ends before the recursion does. -/
theorem Holds.enough (holds : reader.Holds term.bytes) : term.bytes.length ≤ 2 ^ 64 := by
  have inside := holds.inside
  have u32 := holds.u32
  omega

theorem readsTerm_iff (valid : term.Valid) (holds : reader.Holds term.bytes) :
    ReadsTerm reader term ↔ term.Supported := by
  constructor
  · rintro ⟨value, parsed⟩
    by_contra unsupported
    have none := parseTermargIntLoop_unsupported valid unsupported (Holds.enough holds) holds
    cases none.symm.trans parsed
  · intro supported
    obtain ⟨value, parsed, _⟩ := parseTermargIntLoop_supported valid supported
      (Holds.enough holds) holds
    exact ⟨value, parsed⟩

end Terms

end EmkKernel
