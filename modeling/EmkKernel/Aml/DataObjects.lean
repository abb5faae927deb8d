import EmkKernel.Aml.IntTerms

/-!
# Encoded data

`aml::utils::parse_data_ref_object`, and the encodings of data objects. A buffer is skipped by
its size and not to the end of its initialiser.
-/

namespace EmkKernel

open ReadM BufferedReader

/-- What is read for a name is given by the objects that are in the tables. -/
def parseDataRefObject {ρ : Type} [Reader ρ]
    (getNameEntry : NameString → Option (Option DataRefObject)) : ReadM ρ DataRefObject := do
  let oc ← readUnsigned 1
  if oc = 0 then pure .zero
  else if oc = 1 then pure .one
  else if oc = 0x0A then .byte <$> readUnsigned 1
  else if oc = 0x0B then .word <$> readUnsigned 2
  else if oc = 0x0C then .dWord <$> readUnsigned 4
  else if oc = 0x0E then .qWord <$> readUnsigned 8
  else if oc = 0x0D then
    let begin' ← current
    let length ← parseString (2 ^ 16 - 1)
    pure (.string begin' length)
  else if oc = 0x11 then
    let _ ← parsePkglen
    let bufferSize ← parseTermargInt
    let bufferBase ← current
    let bufferSize ← bufferSize.bufferSize
    let _ ← skip bufferSize
    pure (.buffer bufferBase bufferSize)
  else if oc = 0x12 then
    let start ← current
    let packageLength ← parsePkglen
    let behind ← current
    -- both subtractions are of unsigned numbers
    if packageLength < 1 + (behind - start) then failure
    else
      let packageLength := packageLength - (1 + (behind - start))
      let numElements ← readUnsigned 1
      let ptr ← current
      let _ ← skip packageLength
      pure (.package ptr (packageLength % 2 ^ 16) numElements)
  else if isNameStringCharacter (.ofNat 8 oc) then
    let _ ← goBack 1
    let name ← parseNameString
    let entry ← getNameEntry name
    entry
  else failure

/-! ### Encodings -/

/-- The bytes of a package length of which some follow the first. -/
def pkgLength : Nat → Nat → List Byte
  | 0, total => [.ofNat 8 total]
  | following, total =>
    .ofNat 8 (following * 2 ^ 6 + total % 2 ^ 4) :: leBytes (total / 2 ^ 4) following

/-- A package length fits in its bytes. -/
def FitsPkgLength (following total : Nat) : Prop :=
  following = 0 ∧ total < 2 ^ 6 ∨
    0 < following ∧ following ≤ 3 ∧ total < 2 ^ (4 + 8 * following)

inductive DataObject where
  | zero
  | one
  | ones
  | const (c : Constant)
  | string (chars : List Byte)
  | buffer (following : Nat) (size : IntTerm) (initialiser : List Byte)
  /-- Whatever the elements are. -/
  | package (following : Nat) (numElements : Nat) (elements : List Byte)

namespace DataObject

/-- The length of a package counts its own bytes. -/
def total : DataObject → Nat
  | .buffer following size initialiser =>
    1 + following + size.bytes.length + initialiser.length
  | .package following _ elements => 1 + following + 1 + elements.length
  | _ => 0

/-- The bytes in front of the content of a buffer or package. -/
def header (o : DataObject) : List Byte :=
  match o with
  | .buffer following size _ => 0x11 :: (pkgLength following o.total ++ size.bytes)
  | .package following numElements _ =>
    0x12 :: (pkgLength following o.total ++ [.ofNat 8 numElements])
  | _ => []

def bytes (o : DataObject) : List Byte :=
  match o with
  | .zero => [0]
  | .one => [1]
  | .ones => [0xFF]
  | .const c => c.bytes
  | .string chars => 0x0D :: (chars ++ [0])
  | .buffer _ _ initialiser => o.header ++ initialiser
  | .package _ _ elements => o.header ++ elements

/-- An initialiser is not longer than its buffer. -/
def Valid (o : DataObject) : Prop :=
  match o with
  | .zero | .one | .ones => True
  | .const c => c.Valid
  | .string chars => 0 ∉ chars
  | .buffer following size initialiser => FitsPkgLength following o.total ∧ size.Valid ∧
    ∀ v ∈ size.value?, initialiser.length ≤ v
  | .package following numElements _ => FitsPkgLength following o.total ∧ numElements < 2 ^ 8

/-- An object is this one, of which the encoding is at an address. -/
def Describes (o : DataObject) (address : Nat) (object : DataRefObject) : Prop :=
  match o with
  | .zero => object = .zero
  | .one => object = .one
  | .ones => object = .ones
  | .const c => object = c.object
  | .string chars => object = .string (address + 1) chars.length
  | .buffer _ size _ => ∃ n, object = .buffer (address + o.header.length) n ∧
    ∀ v ∈ size.value?, n = v
  | .package _ numElements elements =>
    object = .package (address + o.header.length) elements.length numElements

/-- There is no `Ones`, lengths fit in 16 bits, and the size of a buffer is a constant of up to 32
bits that ends where the initialiser does. An empty initialiser is left where it is too if
the size goes beyond the end of the reader. -/
def Supported (o : DataObject) (reader : BufferedReader) : Prop :=
  match o with
  | .zero | .one | .const _ => True
  | .ones => False
  | .string chars => chars.length < 2 ^ 16
  | .buffer _ size initialiser => ∃ n ∈ size.size?, initialiser.length = n ∨
    initialiser = [] ∧ reader.len < reader.pos + o.header.length + n ∧
      reader.pos + o.header.length + n < 2 ^ 32
  | .package _ _ elements => elements.length < 2 ^ 16

end DataObject

/-- An object is read as what it describes, up to its last byte. -/
def ReadsObject (getNameEntry : NameString → Option (Option DataRefObject))
    (reader : BufferedReader) (o : DataObject) : Prop :=
  ∃ object, parseDataRefObject getNameEntry reader =
      some (object, reader.moved (reader.pos + o.bytes.length)) ∧
    o.Describes (reader.buf + reader.pos) object

section Reading

variable {reader : BufferedReader}

/-! ### Lengths -/

theorem length_pkgLength (following total : Nat) :
    (pkgLength following total).length = following + 1 := by
  cases following with
  | zero => rfl
  | succ n => rw [pkgLength, List.length_cons, length_leBytes]; exact nofun

theorem parsePkglenBytes_leBytes {ret i v n : Nat} (low : ret < 2 ^ (4 + 8 * i))
    (holds : reader.Holds (leBytes v n)) : parsePkglenBytes ret i n reader =
      some (v % 2 ^ (8 * n) * 2 ^ (4 + 8 * i) + ret, reader.moved (reader.pos + n)) := by
  have inside := holds.inside
  have u32 := holds.u32
  rw [length_leBytes] at inside
  rw [parsePkglenBytes_eq low (by omega), holds.littleEndian]

/-- A package length is read from its bytes. -/
theorem parsePkglen_pkgLength {following total : Nat} (fits : FitsPkgLength following total)
    (holds : reader.Holds (pkgLength following total)) : parsePkglen reader =
      some (total, reader.moved (reader.pos + (following + 1))) := by
  obtain ⟨rfl, small⟩ | ⟨some, few, small⟩ := fits
  · have byte : (BitVec.ofNat 8 total).toNat = total := by
      rw [BitVec.toNat_ofNat]
      omega
    rw [parsePkglen, ReadM.bind_some holds.readByte, byte, if_pos (by omega),
      Nat.mod_eq_of_lt small]
    rfl
  · obtain ⟨n, rfl⟩ := Nat.exists_eq_succ_of_ne_zero (Nat.ne_of_gt some)
    have byte : (BitVec.ofNat 8 ((n + 1) * 2 ^ 6 + total % 2 ^ 4)).toNat =
        (n + 1) * 2 ^ 6 + total % 2 ^ 4 := by
      rw [BitVec.toNat_ofNat]
      omega
    have following : ((n + 1) * 2 ^ 6 + total % 2 ^ 4) / 2 ^ 6 = n + 1 := by omega
    have low : ((n + 1) * 2 ^ 6 + total % 2 ^ 4) % 2 ^ 4 = total % 2 ^ 4 := by omega
    have high : total / 2 ^ 4 < 2 ^ (8 * (n + 1)) := by
      rw [Nat.pow_add] at small
      exact Nat.div_lt_of_lt_mul small
    rw [pkgLength] at holds
    have rest := parsePkglenBytes_leBytes
      (show total % 2 ^ 4 < 2 ^ (4 + 8 * 0) from Nat.mod_lt _ (by decide)) holds.tail
    rw [parsePkglen, ReadM.bind_some holds.readByte, byte, following, low,
      if_neg (Nat.succ_ne_zero n), rest, Nat.mod_eq_of_lt high]
    congr 2
    · have := Nat.div_add_mod' total (2 ^ 4)
      exact this
    · rw [moved_moved, moved_pos]
      congr 1
      omega
    · exact Nat.succ_ne_zero n

/-! ### Strings -/

private theorem parseString_chars {chars : List Byte} {fuel : Nat} (noZero : 0 ∉ chars)
    (holds : reader.Holds (chars ++ [0])) : parseString fuel reader =
      if chars.length ≤ fuel then
        some (chars.length, reader.moved (reader.pos + (chars.length + 1)))
      else none := by
  induction chars generalizing reader fuel with
  | nil =>
    refine Eq.trans ?_ (if_pos (Nat.zero_le fuel)).symm
    have last : ReadM.peekU8 0 reader = some (0, reader) :=
      congrArg (fun c => some (c, reader)) holds.byte
    have skips := holds.skip
    cases fuel with
    | zero => rw [parseString, ReadM.bind_some last, if_pos rfl]; exact ReadM.bind_some skips
    | succ fuel => rw [parseString, ReadM.bind_some last, if_pos rfl]; exact ReadM.bind_some skips
  | cons c rest ih =>
    rw [List.mem_cons, not_or] at noZero
    have first : ReadM.peekU8 0 reader = some (c, reader) :=
      congrArg (fun c => some (c, reader)) holds.byte
    cases fuel with
    | zero =>
      rw [parseString, ReadM.bind_some first, if_neg (Ne.symm noZero.1), if_neg (by simp)]
      rfl
    | succ fuel =>
      have inside := holds.inside
      rw [List.length_append, List.length_cons] at inside
      have skips := @skip_eq reader 1 (by omega) holds.u32
      rw [parseString, ReadM.bind_some first, if_neg (Ne.symm noZero.1), ReadM.bind_some skips]
      by_cases enough : rest.length ≤ fuel
      · have later : parseString fuel _ = _ := ih noZero.2 holds.tail
        rw [if_pos enough] at later
        rw [ReadM.bind_some later, List.length_cons, if_pos (Nat.succ_le_succ enough), moved_moved,
          moved_pos, Nat.add_assoc, Nat.add_comm 1 (_ + 1)]
        rfl
      · have later : parseString fuel _ = _ := ih noZero.2 holds.tail
        rw [if_neg enough] at later
        rw [if_neg (by simpa using enough)]
        exact congrArg (fun o => Option.bind o _) later

/-! ### Data objects -/

variable {getNameEntry : NameString → Option (Option DataRefObject)} {o : DataObject}

private theorem parse_const {c : Constant} (valid : c.Valid) (holds : reader.Holds c.bytes) :
    parseDataRefObject getNameEntry reader =
      some (c.object, reader.moved (reader.pos + c.bytes.length)) := by
  have number := holds.tail
  rw [← List.append_nil (leBytes _ _)] at number
  have read := number.readNumber valid
  rw [parseDataRefObject, ReadM.bind_some holds.readUnsigned]
  cases c <;> exact ReadM.map_some _ read

private theorem parse_ones (holds : reader.Holds [0xFF]) :
    parseDataRefObject getNameEntry reader = none := by
  rw [parseDataRefObject, ReadM.bind_some holds.readUnsigned]
  rfl

private theorem parse_string {chars : List Byte} (noZero : 0 ∉ chars)
    (holds : reader.Holds (DataObject.string chars).bytes) :
    parseDataRefObject getNameEntry reader =
      if chars.length < 2 ^ 16 then
        some (.string (reader.buf + (reader.pos + 1)) chars.length,
          reader.moved (reader.pos + (DataObject.string chars).bytes.length))
      else none := by
  have string : parseString (2 ^ 16 - 1) _ = _ := parseString_chars noZero holds.tail
  have start : parseDataRefObject getNameEntry reader =
      ((do
        let length ← parseString (2 ^ 16 - 1)
        pure (.string (reader.buf + (reader.pos + 1)) length) :
          ReadM BufferedReader DataRefObject) (reader.moved (reader.pos + 1))) := by
    rw [parseDataRefObject, ReadM.bind_some holds.readUnsigned]
    rfl
  have length : (DataObject.string chars).bytes.length = chars.length + 1 + 1 := by
    rw [DataObject.bytes, List.length_cons, List.length_append]
    rfl
  rw [start]
  by_cases short : chars.length < 2 ^ 16
  · rw [if_pos (Nat.le_sub_one_of_lt short)] at string
    rw [ReadM.bind_some string, if_pos short, length, moved_moved, moved_pos, Nat.add_assoc,
      Nat.add_comm 1]
    rfl
  · rw [if_neg (by omega)] at string
    rw [if_neg short]
    exact congrArg (fun o => Option.bind o _) string

theorem length_header_package (following numElements : Nat) (elements : List Byte) :
    (DataObject.package following numElements elements).header.length = following + 3 := by
  rw [DataObject.header, List.length_cons, List.length_append, length_pkgLength]
  rfl

theorem parse_package {following numElements : Nat} {elements : List Byte}
    (valid : (DataObject.package following numElements elements).Valid)
    (holds : reader.Holds (DataObject.package following numElements elements).bytes) :
    parseDataRefObject getNameEntry reader =
      some (.package (reader.buf + (reader.pos + (following + 3))) (elements.length % 2 ^ 16)
          numElements, reader.moved (reader.pos + (following + 3) + elements.length)) := by
  obtain ⟨fits, few⟩ := valid
  rw [DataObject.bytes, holds_append, length_header_package] at holds
  obtain ⟨front, content⟩ := holds
  obtain ⟨lengthBytes, count⟩ := holds_append.mp front.tail
  rw [length_pkgLength, moved_moved, moved_pos] at count
  have total := parsePkglen_pkgLength fits lengthBytes
  have number := count.readUnsigned
  have narrow : (BitVec.ofNat 8 numElements).toNat = numElements := by
    rw [BitVec.toNat_ofNat, Nat.mod_eq_of_lt few]
  rw [moved_moved, moved_pos, narrow, show reader.pos + 1 + (following + 1) + 1 =
    reader.pos + (following + 3) by omega] at number
  have skips := content.skip
  rw [moved_moved, moved_pos] at skips total
  have before : Reader.current (reader.moved (reader.pos + 1 + (following + 1))) -
      Reader.current (reader.moved (reader.pos + 1)) = following + 1 := by
    rw [current_moved, current_moved]
    omega
  have covers : ¬(DataObject.package following numElements elements).total <
      1 + (following + 1) := by
    rw [DataObject.total]
    omega
  have left : (DataObject.package following numElements elements).total - (1 + (following + 1)) =
      elements.length := by
    rw [DataObject.total]
    omega
  rw [parseDataRefObject, ReadM.bind_some front.readUnsigned]
  refine (ReadM.bind_some (show ReadM.current _ = some (_, _) from rfl)).trans ?_
  rw [ReadM.bind_some total, ReadM.bind_some (show ReadM.current _ = some (_, _) from rfl)]
  rw [before, if_neg covers]
  simp only [left]
  rw [ReadM.bind_some number, ReadM.bind_some (show ReadM.current _ = some (_, _) from rfl),
    ReadM.bind_some skips]
  rfl

variable {following n : Nat} {size : IntTerm} {initialiser : List Byte}

private theorem IntTerm.value_of_size (sized : size.size? = some n) :
    size.value? = some n ∧ size.Supported := by
  cases size with
  | const c => cases c <;> first | exact ⟨sized, trivial⟩ | cases sized
  | _ => cases sized

private theorem length_header_buffer (following : Nat) (size : IntTerm) (initialiser : List Byte) :
    (DataObject.buffer following size initialiser).header.length =
      following + 2 + size.bytes.length := by
  rw [DataObject.header, List.length_cons, List.length_append, length_pkgLength]
  omega

/-- The package length of a buffer is read and not used. -/
theorem parse_buffer (getNameEntry : NameString → Option (Option DataRefObject))
    (valid : (DataObject.buffer following size initialiser).Valid)
    (holds : reader.Holds (DataObject.buffer following size initialiser).bytes) :
    (reader.moved (reader.pos + (following + 2))).Holds size.bytes ∧
    parseDataRefObject getNameEntry reader = (do
      let bufferSize ← parseTermargInt
      let bufferBase ← current
      let bufferSize ← bufferSize.bufferSize
      let _ ← skip bufferSize
      pure (.buffer bufferBase bufferSize) : ReadM BufferedReader DataRefObject)
        (reader.moved (reader.pos + (following + 2))) := by
  rw [DataObject.bytes, holds_append] at holds
  obtain ⟨front, _⟩ := holds
  obtain ⟨lengthBytes, sizeBytes⟩ := holds_append.mp front.tail
  have total := parsePkglen_pkgLength valid.1 lengthBytes
  have sum : reader.pos + 1 + (following + 1) = reader.pos + (following + 2) := by omega
  rw [length_pkgLength, moved_moved, moved_pos, sum] at sizeBytes
  rw [moved_moved, moved_pos, sum] at total
  refine ⟨sizeBytes, ?_⟩
  rw [parseDataRefObject, ReadM.bind_some front.readUnsigned]
  exact ReadM.bind_some total

private theorem parse_buffer_unsized (valid : (DataObject.buffer following size initialiser).Valid)
    (holds : reader.Holds (DataObject.buffer following size initialiser).bytes)
    (unsized : size.size? = none) : parseDataRefObject getNameEntry reader = none := by
  obtain ⟨sizeBytes, parsed⟩ := parse_buffer getNameEntry valid holds
  rw [parsed]
  by_cases supported : size.Supported
  · obtain ⟨value, read, same⟩ := parseTermargIntLoop_supported valid.2.1 supported
      (Holds.enough sizeBytes) sizeBytes
    refine (ReadM.bind_some read).trans ?_
    rw [ReadM.bind_some (show ReadM.current _ = some (_, _) from rfl), same, unsized]
    rfl
  · have panics := parseTermargIntLoop_unsupported valid.2.1 supported (Holds.enough sizeBytes)
      sizeBytes
    exact congrArg (fun o => Option.bind o _) panics

theorem parse_buffer_sized (valid : (DataObject.buffer following size initialiser).Valid)
    (holds : reader.Holds (DataObject.buffer following size initialiser).bytes)
    (sized : size.size? = some n) {base : Nat}
    (start : base = reader.pos + (DataObject.buffer following size initialiser).header.length) :
    parseDataRefObject getNameEntry reader =
      if base + n < 2 ^ 32 then
        some (.buffer (reader.buf + base) n,
          reader.moved (if base + n > reader.len then base else base + n))
      else none := by
  obtain ⟨sizeBytes, parsed⟩ := parse_buffer getNameEntry valid holds
  obtain ⟨value, read, same⟩ := parseTermargIntLoop_supported valid.2.1
    (IntTerm.value_of_size sized).2 (Holds.enough sizeBytes) sizeBytes
  rw [length_header_buffer, ← Nat.add_assoc] at start
  rw [moved_moved, moved_pos, ← start] at read
  rw [parsed]
  refine (ReadM.bind_some read).trans ?_
  rw [ReadM.bind_some (show ReadM.current _ = some (_, _) from rfl), same, sized]
  have skips : ReadM.skip n (reader.moved base) = if base + n < 2 ^ 32 then
      (if base + n > reader.len then some (false, reader.moved base)
      else some (true, reader.moved (base + n))) else none := rfl
  refine (congrArg (fun o => Option.bind o _) skips).trans ?_
  split
  · split <;> rfl
  · rfl

private theorem readsObject_buffer (valid : (DataObject.buffer following size initialiser).Valid)
    (holds : reader.Holds (DataObject.buffer following size initialiser).bytes) :
    ReadsObject getNameEntry reader (.buffer following size initialiser) ↔
      (DataObject.buffer following size initialiser).Supported reader := by
  have length : (DataObject.buffer following size initialiser).bytes.length =
      (DataObject.buffer following size initialiser).header.length + initialiser.length := by
    rw [DataObject.bytes, List.length_append]
  have inside := holds.inside
  have u32 := holds.u32
  unfold ReadsObject DataObject.Supported DataObject.Describes
  rw [length] at inside ⊢
  constructor
  · rintro ⟨object, parsed, _⟩
    cases sized : size.size? with
    | none => cases (parse_buffer_unsized valid holds sized).symm.trans parsed
    | some n =>
      refine ⟨n, sized, ?_⟩
      rw [parse_buffer_sized valid holds sized rfl] at parsed
      split at parsed
      · have position := congrArg (fun p => p.2.pos) (Option.some.inj parsed)
        simp only [moved_pos] at position
        split at position
        · have none : initialiser = [] := List.eq_nil_of_length_eq_zero (by omega)
          exact Or.inr ⟨none, by assumption, by assumption⟩
        · exact Or.inl (by omega)
      · cases parsed
  · rintro ⟨n, sized, ends⟩
    have value := (IntTerm.value_of_size sized).1
    refine ⟨.buffer _ n, ?_, n, rfl, ?_⟩
    · rw [parse_buffer_sized valid holds sized rfl]
      obtain same | ⟨rfl, beyond, fits⟩ := ends
      · rw [if_pos (by omega), if_neg (by omega), same, Nat.add_assoc, Nat.add_assoc]
      · rw [if_pos fits, if_pos beyond, Nat.add_assoc]
        rfl
    · intro v same
      rw [value] at same
      exact Option.some.inj same

/-- A data object is read exactly if it is one of the supported, and so is a term. -/
theorem reads_iff {reader' : BufferedReader} {term : IntTerm} (valid : o.Valid)
    (holds : reader.Holds o.bytes) (termValid : term.Valid) (holds' : reader'.Holds term.bytes) :
    (ReadsObject getNameEntry reader o ↔ o.Supported reader) ∧
      (ReadsTerm reader' term ↔ term.Supported) := by
  refine ⟨?_, readsTerm_iff termValid holds'⟩
  cases o with
  | zero =>
    refine iff_of_true ⟨.zero, ?_, rfl⟩ trivial
    rw [parseDataRefObject, ReadM.bind_some holds.readUnsigned]
    rfl
  | one =>
    refine iff_of_true ⟨.one, ?_, rfl⟩ trivial
    rw [parseDataRefObject, ReadM.bind_some holds.readUnsigned]
    rfl
  | ones =>
    refine iff_of_false ?_ id
    rintro ⟨object, parsed, _⟩
    cases (parse_ones holds).symm.trans parsed
  | const c => exact iff_of_true ⟨c.object, parse_const valid holds, rfl⟩ trivial
  | string chars =>
    unfold ReadsObject
    rw [parse_string valid holds]
    constructor
    · rintro ⟨object, parsed, _⟩
      split at parsed
      · assumption
      · cases parsed
    · intro short
      exact ⟨_, if_pos short, rfl⟩
  | buffer following size initialiser => exact readsObject_buffer valid holds
  | package following numElements elements =>
    have bytes : (DataObject.package following numElements elements).bytes.length =
        following + 3 + elements.length := by
      rw [DataObject.bytes, List.length_append, length_header_package]
    unfold ReadsObject DataObject.Describes
    rw [parse_package valid holds, bytes, length_header_package]
    constructor
    · rintro ⟨object, parsed, rfl⟩
      have length := congrArg Prod.fst (Option.some.inj parsed)
      injection length with _ length
      rw [DataObject.Supported, ← length]
      exact Nat.mod_lt _ (Nat.two_pow_pos 16)
    · intro short
      refine ⟨_, ?_, rfl⟩
      rw [Nat.mod_eq_of_lt short, Nat.add_assoc reader.pos, Nat.add_assoc reader.buf]

end Reading

/-- A package of one element, and the comparison of one with five. -/
theorem reads_package :
    ReadsObject (fun _ => none) (.before [0x12, 0x04, 0x01, 0x0A, 0x05] [0x00])
        (.package 0 1 [0x0A, 0x05]) ∧
      ReadsTerm (.before [0x93, 0x01, 0x0A, 0x05] [0x00])
        (.logical .equal .one (.const (.byte 5))) := by
  have reads := @reads_iff _ (fun _ => none) (.package 0 1 [0x0A, 0x05]) _
    (.logical .equal .one (.const (.byte 5))) ⟨Or.inl ⟨rfl, by decide⟩, by decide⟩
    (@holds_before [0x12, 0x04, 0x01, 0x0A, 0x05] [0x00] (by decide))
    ⟨trivial, Nat.lt_of_sub_eq_succ rfl⟩
    (@holds_before [0x93, 0x01, 0x0A, 0x05] [0x00] (by decide))
  exact ⟨reads.1.mpr (Nat.lt_of_sub_eq_succ rfl), reads.2.mpr ⟨trivial, trivial⟩⟩

/-- A buffer of two bytes with an initialiser of one takes the byte behind it. -/
theorem not_readsObject_partial :
    ¬ReadsObject (fun _ => none) (.before [0x11, 0x04, 0x0A, 0x02, 0x07] [0x00, 0x00])
      (.buffer 0 (.const (.byte 2)) [0x07]) := by
  have valid : (DataObject.buffer 0 (.const (.byte 2)) [0x07]).Valid :=
    ⟨Or.inl ⟨rfl, by decide⟩, Nat.lt_of_sub_eq_succ rfl, by rintro _ ⟨⟩; decide⟩
  have holds : (BufferedReader.before [0x11, 0x04, 0x0A, 0x02, 0x07] [0x00, 0x00]).Holds
      (DataObject.buffer 0 (.const (.byte 2)) [0x07]).bytes := holds_before (by decide)
  rw [readsObject_buffer valid holds]
  rintro ⟨n, ⟨⟩, same | none⟩
  · cases same
  · cases none.1

end EmkKernel
