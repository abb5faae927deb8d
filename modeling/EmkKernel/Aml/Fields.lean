import EmkKernel.Aml.CodeReader
import EmkKernel.Aml.FieldAdditions
import EmkKernel.Aml.Interning

/-!
# Fields

The `Field` term of AML: a package of elements for a named region. The elements of all terms
for one region go to one system. The path and the name that a term gives its field are
searched in the tables. A call that panics has no value.
-/

namespace EmkKernel

open ReadM

structure OperationRegion where
  masterPath : Nat
  describerPath : Nat
  describerName : Segment
  length : TermArgInt
  offset : TermArgInt
  region : Nat

structure Field where
  fs : Nat
  path : Nat
  name : Segment
  operationRegion : OperationRegion

namespace PathSystem

/-- `compare`. -/
def compare (self : PathSystem) (cmp0 cmp1 : Nat) : Option Bool := do
  let root0 ← self.root cmp0
  let root1 ← self.root cmp1
  if root0.length ≠ root1.length then some false
  else some (self.storage.compare root0.offset root1.offset (root0.length * 4))

/-- `insert` for an absolute name and `append` for another one. -/
def place (self : PathSystem) (constructed : NameString) : Option (Nat × PathSystem) :=
  if constructed.isAbsolute then self.insert constructed else self.append constructed

/-- `AmlCode::divide_path`: the id of all segments but the last, and the last. -/
def dividePath (self : PathSystem) : NameString → Option (Nat × Segment × PathSystem)
  | .single name absolute => some (if absolute then 1 else self.currentPath, name, self)
  | .dual ptr absolute => do
    let constructed := .single (segment (ptr 0) (ptr 1) (ptr 2) (ptr 3)) absolute
    let (path, self) ← self.place constructed
    some (path, segment (ptr 4) (ptr 5) (ptr 6) (ptr 7), self)
  | .multiple ptr segments absolute =>
    -- the number is a `u8`
    if segments = 0 then none
    else do
      let (path, self) ← self.place (.multiple ptr (segments - 1) absolute)
      let last := (segments - 1) * 4
      some (path, segment (ptr last) (ptr (last + 1)) (ptr (last + 2)) (ptr (last + 3)), self)

/-- The search of the tables of `AmlCode`: the first entry with a path and a name. -/
def firstNamed {T : Type} (self : PathSystem) (path : Nat) (name : Segment)
    (named : T → Nat × Segment) : List T → Option (Option T)
  | [] => some none
  | entry :: rest => do
    let (entryPath, entryName) := named entry
    if (← self.compare path entryPath) ∧ name = entryName then some (some entry)
    else firstNamed self path name named rest

end PathSystem

/-- The fields of `AmlCode` that the term uses. An operation region is pending with the place
of its term. -/
structure FieldTables where
  pathSystem : PathSystem
  fieldSystem : FieldSystem
  fields : PageAllocator Field
  pendingOperationRegions : Stack (OperationRegion × Nat)

/-- `parse_field_element`; a connection or an extended access panics. -/
def parseFieldElement : ReadM CodeReader FieldElement := do
  let ident ← readByte
  if ident = 0 then .reservedField <$> parsePkglen
  else if ident = 1 then
    let accessType ← readUnsigned 1
    let attrib ← readUnsigned 1
    pure (.accessField accessType attrib)
  else if ident = 2 ∨ ident = 3 then failure
  else
    let c₁ ← peekU8 0
    let c₂ ← peekU8 1
    let c₃ ← peekU8 2
    CodeReader.advance 3
    let packageLength ← parsePkglen
    pure (.namedField (segment ident c₁ c₂ c₃) packageLength)

/-- A call that reads nothing. -/
def ReadM.call {α : Type} (result : Option α) : ReadM CodeReader α := fun r =>
  result.map fun a => (a, r)

theorem ReadM.bind_map {α β : Type} {x : ReadM CodeReader α} {f : α → ReadM CodeReader β}
    {r r' : CodeReader} {result : Option α} (ran : x r = result.map fun a => (a, r')) :
    (x >>= f) r = result.bind fun a => f a r' := by
  change (x r).bind (fun p => f p.1 p.2) = _
  rw [ran, Option.bind_map]
  rfl

/-- The loop over the elements, which ends where the package does and not before. -/
def parseFields (fs packageEnd : Nat) : Nat → FieldSystem → ReadM CodeReader FieldSystem
  | 0, _ => failure
  | fuel + 1, fieldSystem => do
    if (← current) = packageEnd then pure fieldSystem
    else
      let fieldElement ← parseFieldElement
      let fieldSystem ← call (fieldSystem.add fs fieldElement)
      parseFields fs packageEnd fuel fieldSystem

namespace FieldTables

variable (self : FieldTables)

/-- The system of the field that has the path and the name. -/
def originalField (path : Nat) (name : Segment) : Option (Option Nat) :=
  (self.pathSystem.firstNamed path name (fun entry => (entry.path, entry.name))
    self.fields.values).map fun found => found.map Field.fs

/-- The region that the path and the name describe. -/
def operationRegion (path : Nat) (name : Segment) : Option (Option OperationRegion) :=
  (self.pathSystem.firstNamed path name
    (fun entry => (entry.1.describerPath, entry.1.describerName))
    self.pendingOperationRegions.values).map fun found => found.map Prod.fst

/-- The field of a new system. -/
def pushField (fs path : Nat) (name : Segment) : Option FieldTables := do
  let operationRegion ← self.operationRegion path name
  some { self with fields := (self.fields.pushBack ⟨fs, path, name, ← operationRegion⟩).2 }

/-- The `Field` term. Every element takes a byte, and the code is counted in 64 bits. -/
def field : ReadM CodeReader FieldTables := do
  let cur ← current
  let packageLength ← parsePkglen
  let name ← parseNameString
  let (path, name, pathSystem) ← call (self.pathSystem.dividePath name)
  let flags ← readUnsigned 1
  let self := { self with pathSystem := pathSystem }
  match ← call (self.originalField path name) with
  | some fs =>
    let fieldSystem ← parseFields fs (cur + packageLength) (2 ^ 64)
      (self.fieldSystem.setFlags flags)
    pure { self with fieldSystem := fieldSystem }
  | none =>
    let (fs, fieldSystem) := self.fieldSystem.newSystem flags
    let fieldSystem ← parseFields fs (cur + packageLength) (2 ^ 64) fieldSystem
    call ({ self with fieldSystem := fieldSystem }.pushField fs path name)

end FieldTables

/-! ### Encodings -/

/-- An element with the bytes of its package length that follow the first. -/
inductive FieldItem where
  | named (name : Segment) (following packageLength : Nat)
  | reserved (following packageLength : Nat)
  | access (accessType attrib : Byte)

namespace FieldItem

def element : FieldItem → FieldElement
  | .named name _ packageLength => .namedField name packageLength
  | .reserved _ packageLength => .reservedField packageLength
  | .access accessType attrib => .accessField accessType.toNat attrib.toNat

def bytes : FieldItem → List Byte
  | .named name following packageLength => segmentBytes name ++ pkgLength following packageLength
  | .reserved following packageLength => 0 :: pkgLength following packageLength
  | .access accessType attrib => [1, accessType, attrib]

/-- The first character of a name is none of the four tags. -/
def Valid : FieldItem → Prop
  | .named name following packageLength =>
    4 ≤ (segmentHead name).toNat ∧ FitsPkgLength following packageLength
  | .reserved following packageLength => FitsPkgLength following packageLength
  | .access _ _ => True

instance (following total : Nat) : Decidable (FitsPkgLength following total) :=
  inferInstanceAs (Decidable (_ ∨ _))

instance : (item : FieldItem) → Decidable item.Valid
  | .named _ _ _ => inferInstanceAs (Decidable (_ ∧ _))
  | .reserved _ _ => inferInstanceAs (Decidable (FitsPkgLength _ _))
  | .access _ _ => inferInstanceAs (Decidable True)

theorem length_bytes_pos (item : FieldItem) : 0 < item.bytes.length := by
  cases item with
  | named name following packageLength =>
    rw [bytes, List.length_append]
    exact Nat.lt_of_lt_of_le (by decide : 0 < 4) (Nat.le_add_right ..)
  | reserved following packageLength => exact Nat.succ_pos _
  | access accessType attrib => exact Nat.succ_pos _

end FieldItem

/-- A `Field` term behind its opcode: the length of the package and that of the name in it, the
flags, and the elements. -/
structure FieldTerm where
  following : Nat
  nameLength : Nat
  flags : Byte
  items : List FieldItem

namespace FieldTerm

variable (term : FieldTerm)

def body : List Byte := term.flags :: term.items.flatMap FieldItem.bytes

/-- The length of a package counts its own bytes. -/
def total : Nat := term.following + 1 + term.nameLength + term.body.length

def elements : List FieldElement := term.items.map FieldItem.element

/-- The reader stands before the term, in which it reads a name. -/
structure Encoded (reader : CodeReader) (name : NameString) : Prop where
  fits : FitsPkgLength term.following term.total
  valid : ∀ item ∈ term.items, item.Valid
  length : reader.Stands (pkgLength term.following term.total)
  name : parseNameString (reader.moved (term.following + 1)) =
    some (name, reader.moved (term.following + 1 + term.nameLength))
  body : (reader.moved (term.following + 1 + term.nameLength)).Stands term.body

end FieldTerm

section Reading

variable {reader : CodeReader}

theorem parseFieldElement_item {item : FieldItem} (valid : item.Valid)
    (stands : reader.Stands item.bytes) : parseFieldElement reader =
      some (item.element, reader.moved item.bytes.length) := by
  have inside := stands.inside
  cases item with
  | named name following packageLength =>
    obtain ⟨characters, lengthBytes⟩ := CodeReader.stands_append.mp stands
    obtain ⟨head, fits⟩ := valid
    have other : name 0 ≠ 0 ∧ name 0 ≠ 1 ∧ name 0 ≠ 2 ∧ name 0 ≠ 3 := by
      change 4 ≤ (name 0).toNat at head
      refine ⟨?_, ?_, ?_, ?_⟩ <;>
      · intro same
        rw [same] at head
        exact absurd head (by decide)
    have listed : reader.Stands (name 0 :: [name 1, name 2, name 3]) := characters
    have first := listed.readByte
    have ahead (i : Nat) (less : i + 1 < 4) : ReadM.peekU8 i (reader.moved 1) =
        some ((segmentBytes name).getD (i + 1) 0, reader.moved 1) := by
      have content := characters.content (i + 1) less
      rw [show reader.currentCode + (i + 1) = reader.currentCode + 1 + i by omega] at content
      exact congrArg (fun c => some (c, _)) content
    have four : (segmentBytes name).length = 4 := rfl
    rw [four] at lengthBytes
    have within : 3 ≤ (reader.moved 1).bytesRem := by
      have := characters.inside
      rw [CodeReader.moved_bytesRem]
      omega
    rw [parseFieldElement, ReadM.bind_some first, if_neg other.1,
      if_neg other.2.1, if_neg (not_or.mpr other.2.2),
      ReadM.bind_some (ahead 0 (by decide)), ReadM.bind_some (ahead 1 (by decide)),
      ReadM.bind_some (ahead 2 (by decide)), ReadM.bind_some (CodeReader.advance_eq within),
      CodeReader.moved_moved, ReadM.bind_some (lengthBytes.parsePkglen fits),
      CodeReader.moved_moved, FieldItem.bytes, List.length_append, four, length_pkgLength]
    exact congrArg (fun n => some (FieldElement.namedField n packageLength, _)) (segment_eta name)
  | reserved following packageLength =>
    have read := stands.tail.parsePkglen valid
    rw [parseFieldElement, ReadM.bind_some stands.readByte, if_pos rfl, ReadM.map_some _ read,
      CodeReader.moved_moved, FieldItem.bytes, List.length_cons, length_pkgLength, Nat.add_comm 1]
    rfl
  | access accessType attrib =>
    rw [parseFieldElement, ReadM.bind_some stands.readByte, if_neg (by decide), if_pos rfl,
      ReadM.bind_some stands.tail.readUnsigned, ReadM.bind_some stands.tail.tail.readUnsigned]
    rfl

private theorem parseFields_items {items : List FieldItem} {fuel : Nat} (fs : Nat)
    (fieldSystem : FieldSystem) (valid : ∀ item ∈ items, item.Valid)
    (stands : reader.Stands (items.flatMap FieldItem.bytes)) (enough : items.length < fuel) :
    parseFields fs (reader.currentCode + (items.flatMap FieldItem.bytes).length) fuel fieldSystem
        reader =
      (fieldSystem.addAll fs (items.map FieldItem.element)).map fun fieldSystem =>
        (fieldSystem, reader.moved (items.flatMap FieldItem.bytes).length) := by
  induction items generalizing reader fuel fieldSystem with
  | nil =>
    obtain ⟨fuel, rfl⟩ := Nat.exists_eq_succ_of_ne_zero (Nat.ne_of_gt enough)
    rw [parseFields, ReadM.bind_some (show ReadM.current reader = some (_, reader) from rfl)]
    rw [if_pos (show Reader.current reader = reader.currentCode + _ from rfl)]
    rfl
  | cons item rest ih =>
    obtain ⟨fuel, rfl⟩ := Nat.exists_eq_succ_of_ne_zero (Nat.ne_of_gt (Nat.zero_lt_of_lt enough))
    rw [List.flatMap_cons] at stands ⊢
    obtain ⟨here, later⟩ := CodeReader.stands_append.mp stands
    have positive := item.length_bytes_pos
    have more : ¬reader.currentCode =
        reader.currentCode + (item.bytes ++ rest.flatMap FieldItem.bytes).length := by
      rw [List.length_append]
      omega
    rw [parseFields, ReadM.bind_some (show ReadM.current reader = some (_, reader) from rfl),
      if_neg (show ¬Reader.current reader = _ from more),
      ReadM.bind_some (parseFieldElement_item (valid item List.mem_cons_self) here),
      FieldSystem.addAll, List.map_cons, List.foldlM_cons, Option.bind_eq_bind]
    cases fieldSystem.add fs item.element with
    | none => rfl
    | some fieldSystem =>
      have ended := ih fieldSystem
        (fun item member => valid item (List.mem_cons_of_mem _ member)) later
        (Nat.lt_of_succ_lt_succ enough)
      rw [CodeReader.moved_currentCode, Nat.add_assoc, ← List.length_append] at ended
      rw [ReadM.bind_some (show ReadM.call (some fieldSystem) (reader.moved _) = some (_, _) from
        rfl), ended, Option.bind_some, CodeReader.moved_moved, List.length_append]
      rfl

namespace FieldTables

variable (s : FieldTables)

/-- What the term does to the tables, given its name and what it lists. -/
def list (name : NameString) (flags : Nat) (elements : List FieldElement) :
    Option FieldTables := do
  let (path, name, pathSystem) ← s.pathSystem.dividePath name
  let s := { s with pathSystem := pathSystem }
  match ← s.originalField path name with
  | some fs =>
    let fieldSystem ← (s.fieldSystem.setFlags flags).addAll fs elements
    some { s with fieldSystem := fieldSystem }
  | none =>
    let (fs, fieldSystem) := s.fieldSystem.newSystem flags
    let fieldSystem ← fieldSystem.addAll fs elements
    { s with fieldSystem := fieldSystem }.pushField fs path name

variable {term : FieldTerm} {name : NameString}

omit s in
theorem few_items (fits : FitsPkgLength term.following term.total) :
    term.items.length < 2 ^ 64 := by
  have long : term.items.length ≤ (term.items.flatMap FieldItem.bytes).length := by
    generalize term.items = items
    induction items with
    | nil => exact Nat.le_refl _
    | cons item rest ih =>
      have positive := item.length_bytes_pos
      rw [List.flatMap_cons, List.length_append, List.length_cons]
      omega
  have inside : (term.items.flatMap FieldItem.bytes).length < term.total := by
    rw [FieldTerm.total, FieldTerm.body, List.length_cons]
    omega
  obtain ⟨-, small⟩ | ⟨-, few, small⟩ := fits
  · omega
  · have bound : 2 ^ (4 + 8 * term.following) ≤ 2 ^ 28 :=
      Nat.pow_le_pow_right (by decide) (by omega)
    omega

/-- The term is read exactly, and its elements go to the tables. -/
theorem field_encoded (encoded : term.Encoded reader name) : s.field reader =
    (s.list name term.flags.toNat term.elements).map fun s' =>
      (s', reader.moved term.total) := by
  obtain ⟨fits, valid, length, named, body⟩ := encoded
  have flags := body.readUnsigned
  have behind : term.following + 1 + term.nameLength + 1 +
      (term.items.flatMap FieldItem.bytes).length = term.total := by
    rw [FieldTerm.total, FieldTerm.body, List.length_cons]
    omega
  have items (fs : Nat) (fieldSystem : FieldSystem) : parseFields fs
      (reader.currentCode + term.total) (2 ^ 64) fieldSystem
      (reader.moved (term.following + 1 + term.nameLength + 1)) =
        (fieldSystem.addAll fs term.elements).map fun fieldSystem =>
          (fieldSystem, reader.moved term.total) := by
    have read := parseFields_items fs fieldSystem valid body.tail (few_items fits)
    simp only [CodeReader.moved_currentCode, CodeReader.moved_moved] at read
    rw [Nat.add_assoc reader.currentCode, behind] at read
    exact read
  rw [field, ReadM.bind_some (show ReadM.current reader = some (_, reader) from rfl),
    ReadM.bind_some (length.parsePkglen fits), ReadM.bind_some named,
    ReadM.bind_map rfl, list, Option.bind_eq_bind, Option.map_bind]
  refine congrArg _ (funext fun ⟨path, segment, pathSystem⟩ => ?_)
  dsimp only [Function.comp_apply]
  rw [ReadM.bind_some flags, ReadM.bind_map rfl, Option.bind_eq_bind, Option.map_bind]
  refine congrArg _ (funext fun original => ?_)
  rw [CodeReader.moved_moved]
  cases original with
  | some fs =>
    refine (ReadM.bind_map (items fs _)).trans ?_
    rw [Function.comp_apply, Option.bind_eq_bind, Option.map_bind]
    rfl
  | none =>
    refine (ReadM.bind_map (items _ _)).trans ?_
    rw [Function.comp_apply, Option.bind_eq_bind, Option.map_bind]
    rfl

end FieldTables

end Reading

/-! ### The path and the name of a field -/

namespace NameString

/-- Some segments are left in front of the last one, if it is not the only one that is written. -/
def Divides : NameString → Prop
  | .multiple _ segments _ => segments ≠ 1
  | _ => True

private theorem path_single (name : Segment) (absolute : Bool) :
    (single name absolute).path = [name] := by
  refine congrArg (fun segment => [segment]) (funext fun i => ?_)
  rw [ptr]
  exact congrArg name (Fin.ext (by simp only [Nat.zero_add, Nat.mul_zero]; omega))

end NameString

private theorem segmentsAt_succ (ptr : Nat → Byte) (n : Nat) : segmentsAt ptr 0 (n + 1) =
    segmentsAt ptr 0 n ++
      [segment (ptr (n * 4)) (ptr (n * 4 + 1)) (ptr (n * 4 + 2)) (ptr (n * 4 + 3))] := by
  rw [segmentsAt_add, Nat.zero_add, Nat.mul_comm 4]
  refine congrArg (fun segment => _ ++ [segment]) ?_
  exact (segment_eta _).symm

namespace PathSystem

variable {s s' : PathSystem} {a b id : Nat} {name : NameString} {buf : Segment}

/-- The path that a name is given in: a single name lies in the current one. -/
def fieldScope (s : PathSystem) : NameString → List Segment
  | .single _ absolute => s.path (if absolute then 1 else s.currentPath)
  | .dual _ absolute | .multiple _ _ absolute =>
    if absolute then [] else s.path s.activePaths.refTop

/-- What a name stands for: the path of all segments but the last, and the last. -/
def fieldKey (s : PathSystem) (name : NameString) : List Segment × Segment :=
  (s.fieldScope name ++ name.path.dropLast, name.path.getLastD (segment 0 0 0 0))

theorem Sound.compare (sound : s.Sound) (isA : a < s.allocated) (isB : b < s.allocated) :
    s.compare a b = some (decide (s.path a = s.path b)) := by
  have insideA := sound.inside a isA
  have insideB := sound.inside b isB
  rw [PathSystem.compare, root_of_lt isA, root_of_lt isB]
  simp only [Option.bind_eq_bind, Option.bind_some]
  by_cases same : (s.roots a).length = (s.roots b).length
  · rw [if_neg (not_not_intro same)]
    refine congrArg some (Bool.eq_iff_iff.mpr ?_)
    rw [KernelString.compare_iff insideA (by rw [same]; exact insideB), decide_eq_true_eq, path,
      path, ← same]
    exact segmentsAt_eq_iff.symm
  · rw [if_pos same]
    refine congrArg some (decide_eq_false fun equal => same ?_).symm
    simpa only [path, length_segmentsAt] using congrArg List.length equal

theorem Sound.place (sound : s.Sound) (some : name.segments ≠ 0)
    (placed : s.place name = .some (id, s')) : s'.Sound ∧ s.Extends s' ∧ id < s'.allocated ∧
      s'.path id = (if name.isAbsolute then [] else s.path s.activePaths.refTop) ++ name.path := by
  unfold PathSystem.place at placed
  split at placed
  next absolute =>
    rw [if_pos absolute]
    exact sound.insert some placed
  next relative =>
    rw [if_neg relative]
    exact sound.append some placed

theorem Sound.currentPath (sound : s.Sound) (root : 1 < s.allocated) :
    s.currentPath < s.allocated := by
  unfold PathSystem.currentPath Stack.refTop Stack.numOccupied
  split
  · exact sound.active _ (by omega)
  · exact root

/-- The id and the name are those that the name stands for. -/
theorem Sound.dividePath (sound : s.Sound) (root : 1 < s.allocated) (divides : name.Divides)
    (divided : s.dividePath name = some (id, buf, s')) :
    s'.Sound ∧ s.Extends s' ∧ id < s'.allocated ∧ (s'.path id, buf) = s.fieldKey name := by
  cases name with
  | single name absolute =>
    obtain ⟨rfl, rest⟩ := Prod.mk.inj (Option.some.inj divided)
    obtain ⟨rfl, rfl⟩ := Prod.mk.inj rest
    refine ⟨sound, extends_refl s, ?_, ?_⟩
    · split
      · exact root
      · exact sound.currentPath root
    · rw [fieldKey, NameString.path_single, List.dropLast_singleton, List.append_nil]
      rfl
  | dual ptr absolute =>
    obtain ⟨⟨path, placed⟩, place, rest⟩ := Option.bind_eq_some_iff.mp divided
    cases rest
    obtain ⟨sound', grown, isId, same⟩ := sound.place
      (show (NameString.single (segment _ _ _ _) absolute).segments ≠ 0 from Nat.one_ne_zero) place
    refine ⟨sound', grown, isId, ?_⟩
    rw [same, NameString.path_single, fieldKey, NameString.path, NameString.segments,
      segmentsAt_succ, segmentsAt_succ]
    rfl
  | multiple ptr segments absolute =>
    rw [PathSystem.dividePath] at divided
    split at divided
    next => cases divided
    next some =>
      obtain ⟨n, rfl⟩ := Nat.exists_eq_succ_of_ne_zero some
      obtain ⟨⟨path, placed⟩, place, rest⟩ := Option.bind_eq_some_iff.mp divided
      cases rest
      have front : n ≠ 0 := fun none => divides (congrArg Nat.succ none)
      obtain ⟨sound', grown, isId, same⟩ :=
        sound.place (show (NameString.multiple ptr n absolute).segments ≠ 0 from front) place
      refine ⟨sound', grown, isId, ?_⟩
      have whole : (NameString.multiple ptr (n + 1) absolute).path = _ := segmentsAt_succ ptr n
      rw [same, fieldKey, whole, List.dropLast_concat, List.getLastD_concat]
      rfl

/-- The first entry with the path and the name is found. -/
theorem Sound.firstNamed {T : Type} (sound : s.Sound) (isId : id < s.allocated) (name : Segment)
    (named : T → Nat × Segment) : ∀ {entries : List T},
    (∀ entry ∈ entries, (named entry).1 < s.allocated) →
    s.firstNamed id name named entries = some (entries.find? fun entry =>
      (s.path (named entry).1, (named entry).2) = (s.path id, name))
  | [], _ => rfl
  | entry :: rest, ids => by
    have later := sound.firstNamed isId name named fun entry member =>
      ids entry (List.mem_cons_of_mem _ member)
    rw [PathSystem.firstNamed, List.find?_cons]
    simp only [sound.compare isId (ids entry List.mem_cons_self), Option.bind_eq_bind,
      Option.bind_some, decide_eq_true_eq, Prod.mk.injEq]
    by_cases same : s.path (named entry).1 = s.path id ∧ (named entry).2 = name
    · rw [if_pos ⟨same.1.symm, same.2.symm⟩, decide_eq_true same]
    · rw [if_neg fun equal => same ⟨equal.1.symm, equal.2.symm⟩, decide_eq_false same, later]
      simp only [Prod.mk.injEq]

end PathSystem

end EmkKernel
