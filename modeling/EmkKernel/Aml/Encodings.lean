import EmkKernel.Aml.Terms
import EmkKernel.Memory.Bytes
import Mathlib.Data.List.GetD
import Mathlib.Tactic.Ring

/-!
# Bytes before a reader

What the calls of a buffered reader do to its position, and readers that stand before given
bytes.
-/

namespace EmkKernel

namespace BufferedReader

variable (reader : BufferedReader)

/-- The reader at another position. -/
def moved (position : Nat) : BufferedReader := { reader with pos := position }

def byteAt (position : Nat) : Nat := (reader.memory (reader.buf + position)).toNat

@[simp] theorem moved_pos (position : Nat) : (reader.moved position).pos = position := rfl

@[simp] theorem moved_len (position : Nat) : (reader.moved position).len = reader.len := rfl

@[simp] theorem moved_memory (position : Nat) : (reader.moved position).memory = reader.memory :=
    rfl

@[simp] theorem moved_buf (position : Nat) : (reader.moved position).buf = reader.buf := rfl

@[simp] theorem moved_moved (p q : Nat) : (reader.moved p).moved q = reader.moved q := rfl

@[simp] theorem moved_self : reader.moved reader.pos = reader := rfl

@[simp] theorem byteAt_moved (p q : Nat) : (reader.moved p).byteAt q = reader.byteAt q := rfl

@[simp] theorem current_moved (position : Nat) :
    Reader.current (reader.moved position) = reader.buf + position := rfl

variable {reader} {n : Nat}

private theorem readByte_eq (fits : reader.pos + 1 < 2 ^ 32) : ReadM.readByte reader =
    some (reader.memory (reader.buf + reader.pos), reader.moved (reader.pos + 1)) := by
  unfold ReadM.readByte
  rw [show Reader.take reader 1 = some (reader.moved (reader.pos + 1)) from if_pos fits]
  rfl

theorem readUnsigned_eq (fits : reader.pos + n < 2 ^ 32) : ReadM.readUnsigned n reader =
    some (littleEndian reader.memory (reader.buf + reader.pos) n,
    reader.moved (reader.pos + n)) := by
  unfold ReadM.readUnsigned
  rw [show Reader.take reader n = some (reader.moved (reader.pos + n)) from if_pos fits]
  rfl

theorem readUnsigned_one (fits : reader.pos + 1 < 2 ^ 32) :
    ReadM.readUnsigned 1 reader = some (reader.byteAt reader.pos, reader.moved (reader.pos + 1)) :=
  readUnsigned_eq fits

theorem skip_eq (inside : reader.pos + n ≤ reader.len) (u32 : reader.len < 2 ^ 32) :
    ReadM.skip n reader = some (true, reader.moved (reader.pos + n)) := by
  have fits : reader.pos + n < 2 ^ 32 := by omega
  have within : ¬reader.pos + n > reader.len := by omega
  change (if reader.pos + n < 2 ^ 32 then _ else none) = _
  rw [if_pos fits, if_neg within]
  rfl

theorem goBack_eq (some : n ≤ reader.pos) :
    ReadM.goBack n reader = .some (true, reader.moved (reader.pos - n)) := by
  change (if reader.pos < n then _ else _) = _
  rw [if_neg (Nat.not_lt.mpr some)]
  rfl

theorem readBytes_eq (inside : reader.pos + n ≤ reader.len) (u32 : reader.len < 2 ^ 32) :
    ReadM.readBytes n reader = some (fun i => reader.memory (reader.buf + reader.pos + i),
      reader.moved (reader.pos + n)) := by
  have here : ReadM.current reader = some (reader.buf + reader.pos, reader) := rfl
  have pointed : ReadM.pointer (reader.buf + reader.pos) reader =
      some (fun i => reader.memory (reader.buf + reader.pos + i), reader) := rfl
  rw [ReadM.readBytes, ReadM.bind_some here, ReadM.bind_some pointed,
    ReadM.bind_some (skip_eq inside u32)]
  rfl

/-- The bytes that follow the first one of a package length are its higher bits. -/
theorem parsePkglenBytes_eq {ret i : Nat} (low : ret < 2 ^ (4 + 8 * i))
    (fits : reader.pos + n < 2 ^ 32) : parsePkglenBytes ret i n reader =
      some (littleEndian reader.memory (reader.buf + reader.pos) n * 2 ^ (4 + 8 * i) + ret,
        reader.moved (reader.pos + n)) := by
  induction n generalizing reader ret i with
  | zero =>
    rw [littleEndian, Nat.zero_mul, Nat.zero_add]
    rfl
  | succ n ih =>
    have byte := (reader.memory (reader.buf + reader.pos)).isLt
    have sum : ret ||| (reader.memory (reader.buf + reader.pos)).toNat <<< (4 + 8 * i) =
        (reader.memory (reader.buf + reader.pos)).toNat * 2 ^ (4 + 8 * i) + ret := by
      rw [Nat.or_comm, ← Nat.shiftLeft_add_eq_or_of_lt low, Nat.shiftLeft_eq]
    have next : 2 ^ (4 + 8 * (i + 1)) = 2 ^ 8 * 2 ^ (4 + 8 * i) := by
      rw [← Nat.pow_add]
      congr 1
      omega
    have more : (reader.memory (reader.buf + reader.pos)).toNat * 2 ^ (4 + 8 * i) + ret <
        2 ^ (4 + 8 * (i + 1)) := by
      rw [next]
      have := Nat.mul_le_mul_right (2 ^ (4 + 8 * i)) (Nat.le_sub_one_of_lt byte)
      omega
    have later := @ih (reader.moved (reader.pos + 1)) _ (i + 1) more
      (by simp only [moved_pos]; omega)
    rw [parsePkglenBytes, ReadM.bind_some (readByte_eq (by omega)), sum, later, moved_moved,
      moved_pos, moved_memory, moved_buf, littleEndian, next, Nat.add_assoc reader.pos,
      Nat.add_comm 1, ← Nat.add_assoc reader.buf]
    congr 2
    ring

/-- How many bytes follow the first one of the package length at the position. -/
def following (reader : BufferedReader) : Nat := reader.byteAt reader.pos / 2 ^ 6

/-- The package length that stands at the position. -/
def packageLength (reader : BufferedReader) : Nat :=
  if reader.following = 0 then reader.byteAt reader.pos % 2 ^ 6
  else littleEndian reader.memory (reader.buf + (reader.pos + 1)) reader.following * 2 ^ 4 +
    reader.byteAt reader.pos % 2 ^ 4

theorem parsePkglen_eq (fits : reader.pos + reader.following + 1 < 2 ^ 32) :
    parsePkglen reader =
      some (reader.packageLength, reader.moved (reader.pos + reader.following + 1)) := by
  have first : parsePkglen reader = (if reader.following = 0 then
      pure (reader.byteAt reader.pos % 2 ^ 6)
      else parsePkglenBytes (reader.byteAt reader.pos % 2 ^ 4) 0 reader.following)
        (reader.moved (reader.pos + 1)) := by
    rw [parsePkglen, ReadM.bind_some (readByte_eq (by omega))]
    rfl
  rw [first, packageLength]
  by_cases one : reader.following = 0
  · rw [if_pos one, if_pos one, one]
    rfl
  · rw [if_neg one, if_neg one]
    have rest := @parsePkglenBytes_eq (reader.moved (reader.pos + 1)) reader.following
      (reader.byteAt reader.pos % 2 ^ 4) 0 (Nat.mod_lt _ (by decide))
      (by simp only [moved_pos]; omega)
    rw [moved_moved, moved_pos, Nat.add_right_comm] at rest
    exact rest

/-! ### Readers before bytes -/

/-- The reader stands before these bytes, and all of them are in its buffer. -/
structure Holds (reader : BufferedReader) (bytes : List Byte) : Prop where
  inside : reader.pos + bytes.length ≤ reader.len
  u32 : reader.len < 2 ^ 32
  content : ∀ i < bytes.length, reader.memory (reader.buf + reader.pos + i) = bytes.getD i 0

theorem holds_append {a b : List Byte} : reader.Holds (a ++ b) ↔
    reader.Holds a ∧ (reader.moved (reader.pos + a.length)).Holds b := by
  constructor
  · rintro ⟨inside, u32, content⟩
    rw [List.length_append] at inside content
    refine ⟨⟨by omega, u32, fun i less => ?_⟩, ⟨by simp only [moved_pos, moved_len]; omega, u32,
      fun i less => ?_⟩⟩
    · rw [content i (by omega), List.getD_append _ _ _ _ less]
    · have here := content (a.length + i) (by omega)
      rw [List.getD_append_right _ _ _ _ (Nat.le_add_right ..), Nat.add_sub_cancel_left] at here
      rw [← here]
      simp only [moved_memory, moved_buf, moved_pos, Nat.add_assoc]
  · rintro ⟨⟨_, u32, first⟩, ⟨inside, _, second⟩⟩
    simp only [moved_pos, moved_len] at inside
    refine ⟨by rw [List.length_append]; omega, u32, fun i less => ?_⟩
    by_cases before : i < a.length
    · rw [first i before, List.getD_append _ _ _ _ before]
    · obtain ⟨j, rfl⟩ := Nat.exists_eq_add_of_le (Nat.le_of_not_lt before)
      rw [List.length_append] at less
      have here := second j (by omega)
      rw [List.getD_append_right _ _ _ _ (Nat.le_add_right ..), Nat.add_sub_cancel_left, ← here]
      simp only [moved_memory, moved_buf, moved_pos, Nat.add_assoc]

section

variable {b : Byte} {rest : List Byte}

theorem Holds.byte (holds : reader.Holds (b :: rest)) :
    reader.memory (reader.buf + reader.pos) = b :=
  holds.content 0 (Nat.succ_pos _)

theorem Holds.tail (holds : reader.Holds (b :: rest)) :
    (reader.moved (reader.pos + 1)).Holds rest := by
  have parts : reader.Holds ([b] ++ rest) := holds
  exact (holds_append.mp parts).2

/-- The first byte is read. -/
theorem Holds.readByte (holds : reader.Holds (b :: rest)) :
    ReadM.readByte reader = some (b, reader.moved (reader.pos + 1)) := by
  have inside := holds.inside
  have u32 := holds.u32
  rw [List.length_cons] at inside
  rw [readByte_eq (by omega), holds.byte]

/-- The first byte is read as a number. -/
theorem Holds.readUnsigned (holds : reader.Holds (b :: rest)) :
    ReadM.readUnsigned 1 reader = some (b.toNat, reader.moved (reader.pos + 1)) := by
  have inside := holds.inside
  have u32 := holds.u32
  rw [List.length_cons] at inside
  rw [readUnsigned_one (by omega), byteAt, holds.byte]

end

/-- The bytes are passed over. -/
theorem Holds.skip {bytes : List Byte} (holds : reader.Holds bytes) :
    ReadM.skip bytes.length reader = some (true, reader.moved (reader.pos + bytes.length)) :=
  skip_eq holds.inside holds.u32

theorem Holds.holdsBytes {bytes : List Byte} (holds : reader.Holds bytes) :
    HoldsBytes reader.memory (reader.buf + reader.pos) bytes := by
  intro i below
  rw [holds.content i below, List.getD_eq_getElem _ _ below, List.getElem?_eq_getElem below]

theorem holds_of_holdsBytes {bytes : List Byte}
    (placed : HoldsBytes reader.memory (reader.buf + reader.pos) bytes)
    (inside : reader.pos + bytes.length ≤ reader.len) (u32 : reader.len < 2 ^ 32) :
    reader.Holds bytes := by
  refine ⟨inside, u32, fun i below => ?_⟩
  rw [List.getD_eq_getElem?_getD, placed i below, Option.getD_some]

/-- Where the bytes of a number lie, the number is read. -/
theorem Holds.littleEndian {v k : Nat} (holds : reader.Holds (leBytes v k)) :
    littleEndian reader.memory (reader.buf + reader.pos) k = v % 2 ^ (8 * k) :=
  littleEndian_leBytes holds.holdsBytes

/-- A number is read from its bytes. -/
theorem Holds.readNumber {v k : Nat} {rest : List Byte} (holds : reader.Holds (leBytes v k ++ rest))
    (narrow : v < 2 ^ (8 * k)) :
    ReadM.readUnsigned k reader = some (v, reader.moved (reader.pos + k)) := by
  obtain ⟨first, _⟩ := holds_append.mp holds
  have inside := first.inside
  have u32 := first.u32
  rw [length_leBytes] at inside
  rw [readUnsigned_eq (by omega), first.littleEndian, Nat.mod_eq_of_lt narrow]

end BufferedReader

end EmkKernel
