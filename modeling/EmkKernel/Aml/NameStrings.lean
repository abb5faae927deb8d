import EmkKernel.Aml.Encodings
import Mathlib.Tactic.FinCases

/-!
# Encoded names

The encodings of names: a prefix, and no segment, one, two or many of them. `parse_name_string`
takes both prefixes for the root, and a name without segments only behind a prefix.
-/

namespace EmkKernel

open BufferedReader

/-- The first character of a segment. -/
def segmentHead (name : Segment) : Byte := name ⟨0, Nat.zero_lt_succ 3⟩

/-- A character that can start a segment, and three more. -/
def IsNameSeg (name : Segment) : Prop :=
  (∀ i, isNameStringCharacter (name i) = true) ∧
    ¬((segmentHead name).toNat ≤ '9'.toNat)

def segmentBytes (name : Segment) : List Byte := List.ofFn name

inductive NamePrefix where
  | relative
  | root
  /-- One `^` more than the number. -/
  | parents (n : Nat)

def NamePrefix.bytes : NamePrefix → List Byte
  | .relative => []
  | .root => [0x5C]
  | .parents n => List.replicate (n + 1) 0x5E

inductive NamePath where
  | null
  | seg (name : Segment)
  | dual (first second : Segment)
  | multi (names : List Segment)

namespace NamePath

def bytes : NamePath → List Byte
  | .null => [0]
  | .seg name => segmentBytes name
  | .dual first second => 0x2E :: (segmentBytes first ++ segmentBytes second)
  | .multi names => 0x2F :: BitVec.ofNat 8 names.length :: names.flatMap segmentBytes

def Valid : NamePath → Prop
  | .null => True
  | .seg name => IsNameSeg name
  | .dual first second => IsNameSeg first ∧ IsNameSeg second
  | .multi names => 0 < names.length ∧ names.length < 2 ^ 8 ∧ ∀ name ∈ names, IsNameSeg name

end NamePath

/-- A valid encoding of a name. -/
structure NameEncoding where
  start : NamePrefix
  path : NamePath
  valid : path.Valid

def NameEncoding.bytes (e : NameEncoding) : List Byte := e.start.bytes ++ e.path.bytes

namespace NameString

def rootPrefix (absolute : Bool) : List Byte := if absolute then [0x5C] else []

/-- The bytes that a name was read from; the root itself is a segment of its own. -/
def encode : NameString → List Byte
  | .single name absolute =>
    if segmentHead name = 0x5C then [0x5C, 0] else rootPrefix absolute ++ segmentBytes name
  | .dual ptr absolute => rootPrefix absolute ++ 0x2E :: (List.range 8).map ptr
  | .multiple ptr segments absolute => rootPrefix absolute ++
      0x2F :: BitVec.ofNat 8 segments :: (List.range (segments * 4)).map ptr

private theorem head_encode {name : NameString} (absolute : name.isAbsolute = true) :
    name.encode.head? = some 0x5C := by
  cases name with
  | single name _ =>
    obtain rfl := absolute
    change (if name 0 = 0x5C then _ else _ : List Byte).head? = _
    split <;> rfl
  | dual ptr _ =>
    obtain rfl := absolute
    rfl
  | multiple ptr segments _ =>
    obtain rfl := absolute
    rfl

end NameString

theorem length_segments (names : List Segment) :
    (names.flatMap segmentBytes).length = names.length * 4 := by
  induction names with
  | nil => rfl
  | cons name rest ih =>
    rw [List.flatMap_cons, List.length_append, ih, List.length_cons, Nat.add_mul]
    exact Nat.add_comm ..

/-- The prefix and the name at the reader are read as what they stand for. -/
def ParsesName (reader : BufferedReader) (e : NameEncoding) : Prop :=
  ∃ name, parseNameString reader = some (name, reader.moved (reader.pos + e.bytes.length)) ∧
    name.encode = e.bytes

theorem ReadM.of_bind_some {ρ α β : Type} {x : ReadM ρ α} {f : α → ReadM ρ β} {r : ρ} {p : β × ρ}
    (ran : (x >>= f) r = some p) : ∃ a r', x r = some (a, r') ∧ f a r' = some p := by
  obtain ⟨⟨a, r'⟩, first, rest⟩ := Option.bind_eq_some_iff.mp ran
  exact ⟨a, r', first, rest⟩

section Parsing

variable {reader : BufferedReader} {absolute : Bool} {name : Segment}

theorem segment_eta (name : Segment) : segment (name 0) (name 1) (name 2) (name 3) = name := by
  funext i
  fin_cases i <;> rfl

theorem ordinary_character {c : Byte} (character : isNameStringCharacter c = true) :
    c ≠ 0 ∧ c ≠ 0x2E ∧ c ≠ 0x2F ∧ c ≠ 0x5C ∧ c ≠ 0x5E := by
  refine ⟨?_, ?_, ?_, ?_, ?_⟩ <;>
  · rintro rfl
    exact absurd character (by decide)

theorem BufferedReader.Holds.map_range {bytes : List Byte} (holds : reader.Holds bytes) :
    (List.range bytes.length).map (fun i => reader.memory (reader.buf + reader.pos + i)) =
    bytes := by
  apply List.ext_getElem
  · simp
  · intro i less less'
    rw [List.getElem_map, List.getElem_range, holds.content i less', List.getD_eq_getElem]

theorem readBytes_segment (holds : reader.Holds (segmentBytes name)) :
    ReadM.readBytes 3 (reader.moved (reader.pos + 1)) =
        some (fun i => reader.memory (reader.buf + (reader.pos + 1) + i),
          reader.moved (reader.pos + 4)) ∧
      segment (name 0) (reader.memory (reader.buf + (reader.pos + 1) + 0))
        (reader.memory (reader.buf + (reader.pos + 1) + 1))
        (reader.memory (reader.buf + (reader.pos + 1) + 2)) = name := by
  have inside := holds.inside
  have u32 := holds.u32
  have length : (segmentBytes name).length = 4 := rfl
  have content (i : Nat) (less : i < 3) : reader.memory (reader.buf + (reader.pos + 1) + i) =
      (segmentBytes name).getD (i + 1) 0 := by
    rw [← holds.content (i + 1) (by omega)]
    congr 1
    omega
  constructor
  · exact readBytes_eq (by simp only [moved_pos, moved_len]; omega) u32
  · rw [content 0 (by omega), content 1 (by omega), content 2 (by omega)]
    exact segment_eta name

private theorem parseSegments_seg (valid : IsNameSeg name)
    (holds : reader.Holds (segmentBytes name)) :
    parseSegments (name 0) absolute (reader.moved (reader.pos + 1)) =
      some (.single name absolute, reader.moved (reader.pos + 4)) := by
  obtain ⟨_, dual, multi, _, _⟩ := ordinary_character (valid.1 0)
  obtain ⟨read, same⟩ := readBytes_segment holds
  have next : ReadM.peekU8 0 (reader.moved (reader.pos + 1)) =
      some (name 1, reader.moved (reader.pos + 1)) := by
    have content := holds.content 1 (Nat.lt_of_sub_eq_succ rfl)
    rw [Nat.add_assoc] at content
    exact congrArg (fun c => some (c, _)) content
  rw [parseSegments, if_neg multi, if_neg dual, ReadM.bind_some next,
    if_neg (ordinary_character (valid.1 1)).1, ReadM.bind_some read, same]
  rfl

private theorem parseSegments_dual {first second : Segment}
    (holds : reader.Holds (NamePath.dual first second).bytes) :
    parseSegments 0x2E absolute (reader.moved (reader.pos + 1)) =
      some (.dual (fun i => reader.memory (reader.buf + (reader.pos + 1) + i)) absolute,
        reader.moved (reader.pos + 9)) := by
  have skips := holds.tail.skip
  rw [parseSegments, if_neg (by decide), if_pos rfl,
    ReadM.bind_some (show ReadM.current (reader.moved (reader.pos + 1)) = some (_, _) from rfl),
    ReadM.bind_some (show ReadM.pointer _ _ = some (_, _) from rfl)]
  exact ReadM.bind_some skips

private theorem parseSegments_multi {names : List Segment} (few : names.length < 2 ^ 8)
    (holds : reader.Holds (NamePath.multi names).bytes) :
    parseSegments 0x2F absolute (reader.moved (reader.pos + 1)) =
      some (.multiple (fun i => reader.memory (reader.buf + (reader.pos + 2) + i))
        names.length absolute, reader.moved (reader.pos + 2 + names.length * 4)) := by
  have count : (BitVec.ofNat 8 names.length).toNat = names.length := by
    rw [BitVec.toNat_ofNat, Nat.mod_eq_of_lt few]
  have skips := holds.tail.tail.skip
  rw [length_segments] at skips
  rw [parseSegments, if_pos rfl, ReadM.bind_some holds.tail.readByte, count,
    ReadM.bind_some (show ReadM.current _ = some (_, _) from rfl),
    ReadM.bind_some (show ReadM.pointer _ _ = some (_, _) from rfl)]
  exact ReadM.bind_some skips

theorem parseSegments_path (absolute : Bool) {path : NamePath} (valid : path.Valid)
    (some : path ≠ .null)
    (holds : reader.Holds path.bytes) :
    ∃ name, parseSegments (path.bytes.headD 0) absolute (reader.moved (reader.pos + 1)) =
        .some (name, reader.moved (reader.pos + path.bytes.length)) ∧
      name.encode = NameString.rootPrefix absolute ++ path.bytes := by
  cases path with
  | null => exact absurd rfl some
  | seg name =>
    refine ⟨_, parseSegments_seg valid holds, ?_⟩
    exact if_neg (ordinary_character (valid.1 0)).2.2.2.1
  | dual first second =>
    refine ⟨_, parseSegments_dual holds, ?_⟩
    have bytes := holds.tail.map_range
    exact congrArg (fun tail => NameString.rootPrefix absolute ++ 0x2E :: tail) bytes
  | multi names =>
    have length : (NamePath.multi names).bytes.length = 2 + names.length * 4 := by
      rw [NamePath.bytes, List.length_cons, List.length_cons, length_segments]
      omega
    refine ⟨.multiple (fun i => reader.memory (reader.buf + (reader.pos + 2) + i))
      names.length absolute, ?_, ?_⟩
    · rw [length, ← Nat.add_assoc reader.pos 2]
      exact parseSegments_multi valid.2.1 holds
    · have bytes := holds.tail.tail.map_range
      rw [length_segments] at bytes
      exact congrArg (fun tail => NameString.rootPrefix absolute ++
        0x2F :: BitVec.ofNat 8 names.length :: tail) bytes

/-! ### Whole names -/

/-- A name starts at its path, or at the root. -/
def NameEncoding.Supported (e : NameEncoding) : Prop :=
  (∀ n, e.start ≠ .parents n) ∧ ¬(e.start = .relative ∧ e.path = .null)

private theorem isAbsolute_parseSegments {indicator : Byte} {name : NameString}
    {reader' : BufferedReader}
    (ran : parseSegments indicator absolute reader = some (name, reader')) :
    name.isAbsolute = absolute := by
  unfold parseSegments at ran
  split at ran
  · obtain ⟨_, _, _, ran⟩ := ReadM.of_bind_some ran
    obtain ⟨_, _, _, ran⟩ := ReadM.of_bind_some ran
    obtain ⟨_, _, _, ran⟩ := ReadM.of_bind_some ran
    obtain ⟨_, _, _, ran⟩ := ReadM.of_bind_some ran
    cases ran
    rfl
  split at ran
  · obtain ⟨_, _, _, ran⟩ := ReadM.of_bind_some ran
    obtain ⟨_, _, _, ran⟩ := ReadM.of_bind_some ran
    obtain ⟨_, _, _, ran⟩ := ReadM.of_bind_some ran
    cases ran
    rfl
  obtain ⟨_, _, _, ran⟩ := ReadM.of_bind_some ran
  split at ran <;>
  · obtain ⟨_, _, _, ran⟩ := ReadM.of_bind_some ran
    cases ran
    rfl

theorem isAbsolute_parse {c : Byte} {rest : List Byte} {name : NameString}
    {reader' : BufferedReader} (holds : reader.Holds (c :: rest)) (isPrefix : c = 0x5C ∨ c = 0x5E)
    (ran : parseNameString reader = some (name, reader')) : name.isAbsolute = true := by
  rw [parseNameString, ReadM.bind_some holds.readByte, if_pos isPrefix] at ran
  obtain ⟨_, _, _, ran⟩ := ReadM.of_bind_some ran
  split at ran
  · cases ran
    rfl
  obtain ⟨_, _, _, ran⟩ := ReadM.of_bind_some ran
  split at ran
  · exact isAbsolute_parseSegments ran
  · obtain ⟨_, _, _, ran⟩ := ReadM.of_bind_some ran
    cases ran
    rfl

theorem parse_null {name : NameString} {reader' : BufferedReader} (holds : reader.Holds [0])
    (ran : parseNameString reader = some (name, reader')) : name.encode.length = 4 := by
  rw [parseNameString, ReadM.bind_some holds.readByte, if_neg (by decide), parseSegments,
    if_neg (by decide), if_neg (by decide)] at ran
  obtain ⟨_, _, _, ran⟩ := ReadM.of_bind_some ran
  split at ran <;>
  · obtain ⟨_, _, _, ran⟩ := ReadM.of_bind_some ran
    cases ran
    rfl

/-- What follows a segment decides the way in which the segment is read, but not the result. -/
theorem parse_root_seg {name : Segment} (valid : IsNameSeg name)
    (holds : reader.Holds (0x5C :: segmentBytes name)) :
    parseNameString reader = some (.single name true, reader.moved (reader.pos + 5)) := by
  have rest := holds.tail
  obtain ⟨read, same⟩ := readBytes_segment rest
  have first : ReadM.readByte (reader.moved (reader.pos + 1)) = some (name 0, _) := rest.readByte
  rw [parseNameString, ReadM.bind_some holds.readByte, if_pos (Or.inl rfl),
    ReadM.bind_some first, if_neg (ordinary_character (valid.1 0)).1,
    ReadM.bind_some (show ReadM.peekU8 3 _ = some (_, _) from rfl)]
  split
  · exact parseSegments_seg valid rest
  · rw [ReadM.bind_some read, same]
    rfl

private theorem parse_root {path : NamePath} (valid : path.Valid)
    (holds : reader.Holds (0x5C :: path.bytes)) :
    ∃ name, parseNameString reader =
        some (name, reader.moved (reader.pos + (path.bytes.length + 1))) ∧
      name.encode = 0x5C :: path.bytes := by
  have rest := holds.tail
  have ahead (i : Nat) (less : i < path.bytes.length) := rest.content i less
  cases path with
  | null =>
    refine ⟨.single (segment 0x5C 0 0 0) true, ?_, rfl⟩
    rw [parseNameString, ReadM.bind_some holds.readByte, if_pos (Or.inl rfl),
      ReadM.bind_some rest.readByte, if_pos rfl]
    rfl
  | seg name =>
    refine ⟨_, parse_root_seg valid holds, ?_⟩
    exact if_neg (ordinary_character (valid.1 0)).2.2.2.1
  | dual first second =>
    obtain ⟨name, parsed, same⟩ := parseSegments_path true valid (by simp) rest
    refine ⟨name, ?_, same⟩
    -- the last character of the first segment
    have character : reader.memory (reader.buf + (reader.pos + 1) + 1 + 3) = first 3 := by
      exact ahead 4 (Nat.lt_of_sub_eq_succ rfl)
    rw [parseNameString, ReadM.bind_some holds.readByte, if_pos (Or.inl rfl),
      ReadM.bind_some rest.readByte, if_neg (by decide),
      ReadM.bind_some (show ReadM.peekU8 3 _ = some (first 3, _) from
        congrArg (fun c => some (c, _)) character), if_pos (valid.1.1 3)]
    exact parsed
  | multi names =>
    obtain ⟨name, parsed, same⟩ := parseSegments_path true valid (by simp) rest
    refine ⟨name, ?_, same⟩
    -- the last character but one of the first segment
    obtain ⟨first, later, rfl⟩ := List.exists_cons_of_length_pos valid.1
    have character : reader.memory (reader.buf + (reader.pos + 1) + 1 + 3) = first 2 := by
      exact ahead 4 (Nat.lt_of_sub_eq_succ rfl)
    rw [parseNameString, ReadM.bind_some holds.readByte, if_pos (Or.inl rfl),
      ReadM.bind_some rest.readByte, if_neg (by decide),
      ReadM.bind_some (show ReadM.peekU8 3 _ = some (first 2, _) from
        congrArg (fun c => some (c, _)) character),
      if_pos ((valid.2.2 first List.mem_cons_self).1 2),
      Nat.add_comm (NamePath.bytes _).length 1, ← Nat.add_assoc reader.pos 1]
    exact parsed

private theorem parse_relative {path : NamePath} (valid : path.Valid) (some : path ≠ .null)
    (holds : reader.Holds path.bytes) :
    ∃ name, parseNameString reader = .some (name, reader.moved (reader.pos + path.bytes.length)) ∧
      name.encode = path.bytes := by
  obtain ⟨name, parsed, same⟩ := parseSegments_path false valid some holds
  refine ⟨name, ?_, same⟩
  have first : ReadM.readByte reader =
      .some (path.bytes.headD 0, reader.moved (reader.pos + 1)) := by
    cases path <;> exact holds.readByte
  have indicator : ¬(path.bytes.headD 0 = 0x5C ∨ path.bytes.headD 0 = 0x5E) := by
    cases path with
    | null => exact absurd rfl some
    | seg name => exact not_or.mpr (ordinary_character (valid.1 0)).2.2.2
    | dual _ _ => exact of_decide_eq_true rfl
    | multi _ => exact of_decide_eq_true rfl
  rw [parseNameString, ReadM.bind_some first, if_neg indicator]
  exact parsed

theorem parsesName_of_supported {e : NameEncoding} (holds : reader.Holds e.bytes)
    (supported : e.Supported) : ParsesName reader e := by
  obtain ⟨start, path, valid⟩ := e
  cases start with
  | relative => exact parse_relative valid (fun null => supported.2 ⟨rfl, null⟩) holds
  | root => exact parse_root valid holds
  | parents n => exact absurd rfl (supported.1 n)

theorem not_parsesName_parents {e : NameEncoding} {n : Nat} (start : e.start = .parents n)
    (holds : reader.Holds e.bytes) : ¬ParsesName reader e := by
  obtain ⟨_, path, valid⟩ := e
  obtain rfl := start
  rintro ⟨name, parsed, same⟩
  have head := NameString.head_encode (isAbsolute_parse holds (Or.inr rfl) parsed)
  rw [same] at head
  cases head

/-- A name is read exactly unless it starts at a parent or is the null name alone. -/
theorem parsesName_iff {e : NameEncoding} (holds : reader.Holds e.bytes) :
    ParsesName reader e ↔ e.Supported := by
  constructor
  · intro parses
    refine ⟨fun n start => not_parsesName_parents start holds parses, ?_⟩
    obtain ⟨_, _, valid⟩ := e
    obtain ⟨name, parsed, same⟩ := parses
    rintro ⟨rfl, rfl⟩
    have four := parse_null holds parsed
    rw [same] at four
    cases four
  · exact parsesName_of_supported holds

end Parsing

/-- `_SB_`. -/
def systemBus : Segment := segment 0x5F 0x53 0x42 0x5F

private theorem isNameSeg_systemBus : IsNameSeg systemBus := by
  unfold IsNameSeg systemBus
  decide

/-- A reader at given bytes and others behind them. -/
def BufferedReader.before (bytes others : List Byte) : BufferedReader :=
  .new (fun i => (bytes ++ others).getD i 0) 0 (bytes ++ others).length

theorem BufferedReader.holds_before {bytes others : List Byte}
    (u32 : (bytes ++ others).length < 2 ^ 32) : (before bytes others).Holds bytes := by
  constructor
  · rw [before, new, Nat.zero_add, List.length_append]
    exact Nat.le_add_right ..
  · exact u32
  · intro i less
    have first := List.getD_append bytes others 0 i less
    rw [← first, before, new, Nat.zero_add, Nat.zero_add]

theorem parsesName_systemBus :
    ParsesName (.before [0x5C, 0x5F, 0x53, 0x42, 0x5F] [0x0A, 0x01])
      ⟨.root, .seg systemBus, isNameSeg_systemBus⟩ :=
  (parsesName_iff (e := ⟨.root, .seg systemBus, isNameSeg_systemBus⟩)
    (holds_before (by decide))).mpr ⟨nofun, nofun⟩

/-- `^^_SB_` is not read as the name below the scope two levels up. -/
theorem not_parsesName_twoUp :
    ¬ParsesName (.before [0x5E, 0x5E, 0x5F, 0x53, 0x42, 0x5F] [0x0A, 0x01])
      ⟨.parents 1, .seg systemBus, isNameSeg_systemBus⟩ :=
  @not_parsesName_parents _ ⟨.parents 1, .seg systemBus, isNameSeg_systemBus⟩ 1 rfl
    (holds_before (by decide))

end EmkKernel
