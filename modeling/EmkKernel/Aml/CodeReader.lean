import EmkKernel.Aml.DataObjects

/-!
# The reader of the code

`AmlCode` reads its own code: the pointer into the code and the bytes that remain go
together. What a buffered reader reads byte by byte, it reads too.
-/

namespace EmkKernel

/-- The fields of `AmlCode` that it reads with, and the memory that it reads. -/
structure CodeReader where
  memory : Nat → Byte
  currentCode : Nat
  bytesRem : Nat

namespace CodeReader

instance : Reader CodeReader where
  memory self := self.memory
  current self := self.currentCode
  take self n :=
    if n ≤ self.bytesRem then
      some { self with currentCode := self.currentCode + n, bytesRem := self.bytesRem - n }
    else none
  skip self len :=
    if len > self.bytesRem then some (false, self)
    else
      some (true, { self with
        currentCode := self.currentCode + len
        bytesRem := self.bytesRem - len })
  goBack self len :=
    if self.bytesRem + len < 2 ^ 64 then
      some (true, { self with
        currentCode := self.currentCode - len
        bytesRem := self.bytesRem + len })
    else none

/-- `AmlCode::advance`. -/
def advance (bytes : Nat) : ReadM CodeReader Unit := fun r =>
  (Reader.take r bytes).map fun r' => ((), r')

variable (reader : CodeReader)

/-- The reader so many bytes on. -/
def moved (n : Nat) : CodeReader :=
  { reader with currentCode := reader.currentCode + n, bytesRem := reader.bytesRem - n }

@[simp] theorem moved_memory (n : Nat) : (reader.moved n).memory = reader.memory := rfl

@[simp] theorem moved_currentCode (n : Nat) :
    (reader.moved n).currentCode = reader.currentCode + n := rfl

@[simp] theorem moved_bytesRem (n : Nat) : (reader.moved n).bytesRem = reader.bytesRem - n := rfl

@[simp] theorem moved_zero : reader.moved 0 = reader := rfl

@[simp] theorem moved_moved (m n : Nat) : (reader.moved m).moved n = reader.moved (m + n) := by
  simp only [moved, Nat.add_assoc, Nat.sub_sub]

/-- The reader stands before these bytes of its code. -/
structure Stands (bytes : List Byte) : Prop where
  inside : bytes.length ≤ reader.bytesRem
  content : ∀ i < bytes.length, reader.memory (reader.currentCode + i) = bytes.getD i 0

variable {reader} {b : Byte} {n : Nat} {rest : List Byte}

theorem stands_append {first later : List Byte} : reader.Stands (first ++ later) ↔
    reader.Stands first ∧ (reader.moved first.length).Stands later := by
  constructor
  · rintro ⟨inside, content⟩
    rw [List.length_append] at inside content
    refine ⟨⟨by omega, fun i less => ?_⟩, ⟨by rw [moved_bytesRem]; omega, fun i less => ?_⟩⟩
    · rw [content i (by omega), List.getD_append _ _ _ _ less]
    · have here := content (first.length + i) (by omega)
      rw [List.getD_append_right _ _ _ _ (Nat.le_add_right ..), Nat.add_sub_cancel_left] at here
      rw [← here, moved_memory, moved_currentCode, Nat.add_assoc]
  · rintro ⟨⟨inside₁, content₁⟩, ⟨inside₂, content₂⟩⟩
    rw [moved_bytesRem] at inside₂
    rw [moved_memory, moved_currentCode] at content₂
    refine ⟨by rw [List.length_append]; omega, fun i less => ?_⟩
    by_cases before : i < first.length
    · rw [content₁ i before, List.getD_append _ _ _ _ before]
    · obtain ⟨j, rfl⟩ := Nat.exists_eq_add_of_le (Nat.le_of_not_lt before)
      rw [List.length_append] at less
      rw [List.getD_append_right _ _ _ _ (Nat.le_add_right ..), Nat.add_sub_cancel_left,
        ← content₂ j (by omega), Nat.add_assoc]

theorem Stands.tail (stands : reader.Stands (b :: rest)) : (reader.moved 1).Stands rest := by
  have parts : reader.Stands ([b] ++ rest) := stands
  exact (stands_append.mp parts).2

theorem Stands.byte (stands : reader.Stands (b :: rest)) :
    reader.memory reader.currentCode = b :=
  stands.content 0 (Nat.succ_pos _)

private theorem take_eq (inside : n ≤ reader.bytesRem) :
    Reader.take reader n = some (reader.moved n) :=
  if_pos inside

theorem Stands.readByte (stands : reader.Stands (b :: rest)) :
    ReadM.readByte reader = some (b, reader.moved 1) := by
  have inside := stands.inside
  rw [List.length_cons] at inside
  unfold ReadM.readByte
  rw [take_eq (by omega), ← stands.byte]
  rfl

theorem Stands.readUnsigned (stands : reader.Stands (b :: rest)) :
    ReadM.readUnsigned 1 reader = some (b.toNat, reader.moved 1) := by
  have inside := stands.inside
  rw [List.length_cons] at inside
  unfold ReadM.readUnsigned
  rw [take_eq (by omega), ← stands.byte]
  rfl

theorem advance_eq (inside : n ≤ reader.bytesRem) :
    advance n reader = some ((), reader.moved n) := by
  rw [advance, take_eq inside]
  rfl

/-! ### Package lengths -/

/-- A buffered reader of the bytes ahead. -/
def window (reader : CodeReader) (n : Nat) : BufferedReader :=
  ⟨reader.memory, reader.currentCode, n, 0⟩

theorem Stands.window {bytes : List Byte} (stands : reader.Stands bytes)
    (u32 : bytes.length < 2 ^ 32) : (reader.window bytes.length).Holds bytes :=
  ⟨by simp only [CodeReader.window, Nat.zero_add, Nat.le_refl], u32, stands.content⟩

/-- The readers stand at the same byte. -/
def SamePlace (reader : CodeReader) (buffered : BufferedReader) : Prop :=
  buffered.memory = reader.memory ∧ buffered.buf + buffered.pos = reader.currentCode

theorem SamePlace.readByte {buffered buffered' : BufferedReader}
    (same : reader.SamePlace buffered) (inside : 1 ≤ reader.bytesRem)
    (read : ReadM.readByte buffered = some (b, buffered')) :
    ReadM.readByte reader = some (b, reader.moved 1) ∧ (reader.moved 1).SamePlace buffered' := by
  obtain ⟨memory, place⟩ := same
  obtain ⟨next, taken, result⟩ := Option.map_eq_some_iff.mp read
  obtain ⟨rfl, rfl⟩ := Prod.mk.inj result
  have moves : buffered.pos + 1 < 2 ^ 32 ∧ next = buffered.moved (buffered.pos + 1) := by
    change (if buffered.pos + 1 < 2 ^ 32 then some _ else none) = some next at taken
    split at taken
    next fits => exact ⟨fits, (Option.some.inj taken).symm⟩
    next => cases taken
  constructor
  · unfold ReadM.readByte
    rw [take_eq inside, Option.map_some]
    change some (reader.memory reader.currentCode, _) =
      some (buffered.memory (buffered.buf + buffered.pos), _)
    rw [memory, place]
  · rw [moves.2]
    exact ⟨memory, by rw [moved_currentCode, ← place]; rfl⟩

theorem SamePlace.parsePkglenBytes {buffered buffered' : BufferedReader} {ret i total : Nat}
    (same : reader.SamePlace buffered) (inside : n ≤ reader.bytesRem)
    (read : parsePkglenBytes ret i n buffered = some (total, buffered')) :
    EmkKernel.parsePkglenBytes ret i n reader = some (total, reader.moved n) := by
  induction n generalizing reader buffered ret i with
  | zero =>
    obtain ⟨rfl, -⟩ := Prod.mk.inj (Option.some.inj read)
    rfl
  | succ n ih =>
    obtain ⟨val, next, first, later⟩ := ReadM.of_bind_some read
    obtain ⟨ran, same'⟩ := same.readByte (by omega) first
    rw [EmkKernel.parsePkglenBytes, ReadM.bind_some ran,
      ih same' (by rw [moved_bytesRem]; omega) later, moved_moved, Nat.add_comm 1]

private theorem pkgLength_cons {following total : Nat} (fits : FitsPkgLength following total) :
    ∃ fd rest, pkgLength following total = fd :: rest ∧ fd.toNat / 2 ^ 6 = following := by
  obtain ⟨rfl, small⟩ | ⟨some, few, -⟩ := fits
  · refine ⟨_, _, rfl, ?_⟩
    rw [BitVec.toNat_ofNat]
    omega
  · obtain ⟨n, rfl⟩ := Nat.exists_eq_succ_of_ne_zero (Nat.ne_of_gt some)
    refine ⟨_, _, rfl, ?_⟩
    rw [BitVec.toNat_ofNat]
    omega

/-- A package length is read from its bytes. -/
theorem Stands.parsePkglen {following total : Nat} (fits : FitsPkgLength following total)
    (stands : reader.Stands (pkgLength following total)) :
    parsePkglen reader = some (total, reader.moved (following + 1)) := by
  have length := length_pkgLength following total
  have inside := stands.inside
  have few : following < 4 := by
    obtain ⟨rfl, -⟩ | ⟨-, few, -⟩ := fits
    · decide
    · omega
  have read := parsePkglen_pkgLength fits (stands.window (by omega))
  obtain ⟨fd, next, first, later⟩ := ReadM.of_bind_some read
  have same : reader.SamePlace (reader.window (pkgLength following total).length) := ⟨rfl, rfl⟩
  obtain ⟨ran, same'⟩ := same.readByte (by omega) first
  have count : fd.toNat / 2 ^ 6 = following := by
    obtain ⟨b, rest, bytes, top⟩ := pkgLength_cons fits
    rw [bytes] at stands
    obtain ⟨rfl, -⟩ := Prod.mk.inj (Option.some.inj (ran.symm.trans stands.readByte))
    exact top
  rw [EmkKernel.parsePkglen, ReadM.bind_some ran]
  dsimp only at later ⊢
  rw [count] at later ⊢
  split at later
  next none =>
    obtain ⟨rfl, -⟩ := Prod.mk.inj (Option.some.inj later)
    rw [if_pos none, none]
    rfl
  next some =>
    rw [if_neg some, same'.parsePkglenBytes (by rw [moved_bytesRem]; omega) later, moved_moved,
      Nat.add_comm 1]

end CodeReader

end EmkKernel
