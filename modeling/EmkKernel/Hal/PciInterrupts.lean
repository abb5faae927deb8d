import EmkKernel.Hal.ResourceWalk

/-!
# Which interrupts are found

The entries of `_PRT` are read up to the first one that matches, and its resources are walked
through. When the walk finds nothing, the entries behind it are read as well.
-/

namespace EmkKernel

open Checked BufferedReader

/-- An entry, and the resources of the device that its source names. -/
structure PrtEntry where
  following : Nat
  address : Constant
  pin : IntTerm
  source : NameEncoding
  sourceIndex : IntTerm
  crs : ResourceTemplate

namespace PrtEntry

variable (e : PrtEntry)

def elements : List Byte :=
  e.address.bytes ++ (e.pin.bytes ++ (e.source.bytes ++ e.sourceIndex.bytes))

def object : DataObject := .package e.following 4 e.elements

/-- The address is a word or a double word, the pin a byte, and the source index a number of
up to 32 bits. -/
structure Valid : Prop where
  object : e.object.Valid
  address : e.address.Valid ∧ (e.address.width = 2 ∨ e.address.width = 4)
  pin : e.pin.Valid ∧ (e.pin = .zero ∨ e.pin = .one ∨ ∃ b, e.pin = .const (.byte b))
  source : ¬(e.source.start = .relative ∧ e.source.path = .null)
  sourceIndex : e.sourceIndex.Valid ∧
    (e.sourceIndex = .zero ∨ e.sourceIndex = .one ∨
      ∃ c : Constant, c.width ≤ 4 ∧ e.sourceIndex = .const c)

def index : Nat := e.sourceIndex.value?.getD 0

/-- The entry is for the pin, and for the function or for all functions of the device. -/
def Matches (device func pin : Byte) : Prop :=
  (e.address.value / 2 ^ 16 = device.toNat ∧
    (e.address.value % 2 ^ 16 = 0xFFFF ∨ e.address.value % 2 ^ 16 = func.toNat)) ∧
  e.pin.value? = some pin.toNat

instance (device func pin : Byte) : Decidable (e.Matches device func pin) :=
  inferInstanceAs (Decidable (_ ∧ _))

/-- The interrupt that the source index selects. -/
def selected : Option PciRoutingInterrupt := e.crs.selected e.index

end PrtEntry

section Entries

variable {reader : BufferedReader} {amlCode : NamedObjects} {memory : Nat → Byte} {fuel : Nat}
  {self : PciRoutingTable} {device func pin : Byte} {e : PrtEntry} {es : List PrtEntry}

/-! ### Terms -/

/-- What is read for a constant. -/
def IntTerm.plain? : IntTerm → Option TermArgInt
  | .zero => some .zero
  | .one => some .one
  | .const c => some c.term
  | _ => none

theorem parseTermargInt_plain {term : IntTerm} {value : TermArgInt}
    (plain : term.plain? = some value) (valid : term.Valid)
    (placed : HoldsBytes reader.memory (reader.buf + reader.pos) term.bytes)
    (fits : reader.pos + term.bytes.length < 2 ^ 32) :
    parseTermargInt reader = some (value, reader.moved (reader.pos + term.bytes.length)) := by
  obtain ⟨fuel, enough⟩ := Nat.exists_eq_succ_of_ne_zero (show 2 ^ 64 ≠ 0 by decide)
  have first {b : Byte} {rest : List Byte} (start : term.bytes = b :: rest) :
      ReadM.readUnsigned 1 reader = some (b.toNat, reader.moved (reader.pos + 1)) := by
    rw [start] at placed fits
    rw [List.length_cons] at fits
    rw [readUnsigned_one (by omega), byteAt, (holdsBytes_cons.1 placed).1]
  rw [parseTermargInt, enough, Nat.succ_eq_add_one, parseTermargIntLoop]
  cases term with
  | zero =>
    obtain rfl := Option.some.inj plain
    rw [ReadM.bind_some (first rfl)]
    rfl
  | one =>
    obtain rfl := Option.some.inj plain
    rw [ReadM.bind_some (first rfl)]
    rfl
  | const c =>
    obtain rfl := Option.some.inj plain
    have number := littleEndian_leBytes (holdsBytes_cons.1 placed).2
    rw [Nat.mod_eq_of_lt valid] at number
    have length : (IntTerm.const c).bytes.length = c.width + 1 := by
      rw [IntTerm.bytes, Constant.bytes, List.length_cons, length_leBytes]
    rw [length] at fits ⊢
    have second : ReadM.readUnsigned c.width (reader.moved (reader.pos + 1)) =
        some (c.value, reader.moved (reader.pos + (c.width + 1))) := by
      rw [readUnsigned_eq (by rw [moved_pos]; omega), moved_memory, moved_buf, moved_pos,
        ← Nat.add_assoc reader.buf, number, moved_moved, Nat.add_assoc, Nat.add_comm 1]
    rw [ReadM.bind_some (first rfl)]
    cases c <;> exact ReadM.map_some _ second
  | _ => cases plain

namespace PrtEntry

private theorem Valid.address_read (valid : e.Valid) : ∃ term,
    (IntTerm.const e.address).plain? = some term ∧ term.prtAddress = some e.address.value := by
  refine ⟨_, rfl, ?_⟩
  have width := valid.address.2
  cases address : e.address with
  | word => rfl
  | dWord => rfl
  | byte =>
    rw [address] at width
    rcases width with two | four
    · cases two
    · cases four
  | qWord =>
    rw [address] at width
    rcases width with two | four
    · cases two
    · cases four

private theorem Valid.pin_read (valid : e.Valid) : ∃ term value,
    e.pin.plain? = some term ∧ term.prtPin = some value ∧ e.pin.value? = some value := by
  obtain ⟨-, zero | one | ⟨b, byte⟩⟩ := valid.pin
  · rw [zero]
    exact ⟨_, _, rfl, rfl, rfl⟩
  · rw [one]
    exact ⟨_, _, rfl, rfl, rfl⟩
  · rw [byte]
    exact ⟨_, _, rfl, rfl, rfl⟩

private theorem Valid.sourceIndex_read (valid : e.Valid) : ∃ term,
    e.sourceIndex.plain? = some term ∧ term.prtSourceIndex = some e.index := by
  obtain ⟨-, zero | one | ⟨c, narrow, const⟩⟩ := valid.sourceIndex
  · rw [index, zero]
    exact ⟨_, rfl, rfl⟩
  · rw [index, one]
    exact ⟨_, rfl, rfl⟩
  · rw [index, const]
    refine ⟨_, rfl, ?_⟩
    cases c with
    | qWord => exact absurd narrow (by simp [Constant.width])
    | _ => rfl

end PrtEntry

private theorem matchesAddress_iff (addr : Nat) :
    PciRoutingTable.MatchesAddress device.toNat func.toNat addr ↔ addr / 2 ^ 16 = device.toNat ∧
      (addr % 2 ^ 16 = 0xFFFF ∨ addr % 2 ^ 16 = func.toNat) := by
  have narrow := func.isLt
  unfold PciRoutingTable.MatchesAddress
  omega

/-! ### Entries -/

private theorem orStop_bind {α β : Type} {o : Option α} {a : α} (some : o = some a)
    (f : α → Checked Unit β) : (orStop o >>= f) = f a := by
  rw [some]
  exact bind_quiet rfl rfl

/-- An entry that does not match is passed. -/
theorem routeEntry_eq (valid : e.Valid) {ptr len : Nat} (placed : HoldsBytes memory ptr e.elements)
    (fits : e.elements.length < 2 ^ 32) :
    self.routeEntry amlCode memory fuel device.toNat func.toNat pin.toNat
        (BufferedReader.new memory ptr len) =
      if e.Matches device func pin then
        self.routeSource amlCode memory fuel ((BufferedReader.new memory ptr len).moved
          (e.address.bytes.length + e.pin.bytes.length))
      else pure none := by
  obtain ⟨address, later⟩ := holdsBytes_append.1 placed
  obtain ⟨pinBytes, -⟩ := holdsBytes_append.1 later
  obtain ⟨term, plain, value⟩ := valid.address_read
  obtain ⟨term', pinValue, plain', value', same⟩ := valid.pin_read
  have lengths : e.address.bytes.length + e.pin.bytes.length ≤ e.elements.length := by
    simp only [PrtEntry.elements, List.length_append]
    omega
  have read := @parseTermargInt_plain (BufferedReader.new memory ptr len) _ _ plain valid.address.1
    address (by change 0 + e.address.bytes.length < _; omega)
  rw [PciRoutingTable.routeEntry, orStop_bind read]
  change (orStop term.prtAddress >>= _) = _
  rw [orStop_bind value]
  by_cases isAddress : PciRoutingTable.MatchesAddress device.toNat func.toNat e.address.value
  · have read' := @parseTermargInt_plain ((BufferedReader.new memory ptr len).moved
      (0 + e.address.bytes.length)) _ _ plain' valid.pin.1
      (by rw [Nat.zero_add]; exact pinBytes)
      (by change 0 + e.address.bytes.length + e.pin.bytes.length < _; omega)
    rw [if_pos isAddress]
    refine (orStop_bind read' _).trans ?_
    change (orStop term'.prtPin >>= _) = _
    rw [orStop_bind value']
    by_cases isPin : pinValue = pin.toNat
    · have matched : e.Matches device func pin := ⟨(matchesAddress_iff _).1 isAddress, same.trans
        (congrArg some isPin)⟩
      rw [if_neg (not_not.2 isPin), if_pos matched, moved_moved, moved_pos, Nat.zero_add]
    · have other : ¬e.Matches device func pin := fun matched =>
        isPin (Option.some.inj (same.symm.trans matched.2))
      rw [if_pos isPin, if_neg other]
  · have other : ¬e.Matches device func pin := fun matched =>
      isAddress ((matchesAddress_iff _).2 matched.1)
    rw [if_neg isAddress, if_neg other]

/-- Names without `^` are short. -/
theorem NameEncoding.Supported.short {name : NameEncoding} (supported : name.Supported) :
    name.bytes.length < 2 ^ 11 := by
  obtain ⟨start, path, valid⟩ := name
  have segments : path.bytes.length < 2 ^ 10 + 2 := by
    cases path with
    | null => exact Nat.lt_of_sub_eq_succ rfl
    | seg => exact Nat.lt_of_sub_eq_succ rfl
    | dual => exact Nat.lt_of_sub_eq_succ rfl
    | multi names =>
      have few := valid.2.1
      rw [NamePath.bytes, List.length_cons, List.length_cons, length_segments]
      omega
  have one : start.bytes.length ≤ 1 := by
    cases start with
    | relative => exact Nat.zero_le 1
    | root => exact Nat.le_refl 1
    | parents n => exact absurd rfl (supported.1 n)
  change (start.bytes ++ path.bytes).length < 2 ^ 11
  rw [List.length_append]
  omega

/-- The device that the source names has its resources in `_CRS`. -/
def PrtEntry.Links (amlCode : NamedObjects) (pathRoot : Nat) (e : PrtEntry) : Prop :=
  ∀ nameString : NameString, nameString.encode = e.source.bytes →
    amlCode.resourcesOf pathRoot nameString =
      some (some (.buffer e.crs.address e.crs.bytes.length))

theorem PrtEntry.Valid.lengths (valid : e.Valid) :
    e.address.bytes.length ≤ 5 ∧ e.pin.bytes.length ≤ 2 ∧ e.sourceIndex.bytes.length ≤ 5 := by
  have width := valid.address.2
  refine ⟨?_, ?_, ?_⟩
  · rw [Constant.bytes, List.length_cons, length_leBytes]
    omega
  · obtain ⟨-, zero | one | ⟨b, byte⟩⟩ := valid.pin
    · simp [zero, IntTerm.bytes]
    · simp [one, IntTerm.bytes]
    · simp [byte, IntTerm.bytes, Constant.bytes, Constant.width]
  · obtain ⟨-, zero | one | ⟨c, narrow, const⟩⟩ := valid.sourceIndex
    · simp [zero, IntTerm.bytes]
    · simp [one, IntTerm.bytes]
    · rw [const, IntTerm.bytes, Constant.bytes, List.length_cons, length_leBytes]
      omega

theorem routeSource_eq (valid : e.Valid) {ptr : Nat} (placed : HoldsBytes memory ptr e.elements)
    (supported : e.source.Supported) (links : e.Links amlCode self.pathRoot) :
    self.routeSource amlCode memory fuel
        ((BufferedReader.new memory ptr (e.elements.length % 2 ^ 16)).moved
          (e.address.bytes.length + e.pin.bytes.length)) =
      walkResources memory e.index fuel e.crs.bytes.length e.crs.address := by
  obtain ⟨-, later⟩ := holdsBytes_append.1 placed
  obtain ⟨-, later⟩ := holdsBytes_append.1 later
  obtain ⟨sourceBytes, indexBytes⟩ := holdsBytes_append.1 later
  obtain ⟨shortAddress, shortPin, shortIndex⟩ := valid.lengths
  have shortSource := supported.short
  have total : e.elements.length = e.address.bytes.length + e.pin.bytes.length +
      e.source.bytes.length + e.sourceIndex.bytes.length := by
    simp only [PrtEntry.elements, List.length_append]
    omega
  have few : e.elements.length % 2 ^ 16 = e.elements.length := Nat.mod_eq_of_lt (by omega)
  rw [few]
  have holds : ((BufferedReader.new memory ptr e.elements.length).moved
      (e.address.bytes.length + e.pin.bytes.length)).Holds e.source.bytes := by
    apply holds_of_holdsBytes
    · rw [Nat.add_assoc] at sourceBytes
      exact sourceBytes
    · change e.address.bytes.length + e.pin.bytes.length + _ ≤ e.elements.length
      omega
    · change e.elements.length < _
      omega
  obtain ⟨fuel', enough⟩ := Nat.exists_eq_succ_of_ne_zero (show 2 ^ 64 ≠ 0 by decide)
  obtain ⟨name, same, read⟩ := parseTermargIntLoop_name fuel' supported holds
  rw [← Nat.succ_eq_add_one, ← enough] at read
  obtain ⟨term, plain, value⟩ := valid.sourceIndex_read
  have read' := @parseTermargInt_plain ((BufferedReader.new memory ptr e.elements.length).moved
      (e.address.bytes.length + e.pin.bytes.length + e.source.bytes.length)) _ _ plain
      valid.sourceIndex.1
    (by rw [Nat.add_assoc, Nat.add_assoc] at indexBytes; rw [Nat.add_assoc] ; exact indexBytes)
    (by change e.address.bytes.length + e.pin.bytes.length + _ + _ < _; omega)
  rw [PciRoutingTable.routeSource]
  refine (orStop_bind read _).trans ?_
  refine (orStop_bind (links name same) _).trans ?_
  refine (orStop_bind read' _).trans ?_
  exact orStop_bind value _

/-- A name that starts at a parent is not read. -/
theorem parseTermargInt_parents {rest : List Byte}
    (placed : HoldsBytes reader.memory (reader.buf + reader.pos) (0x5E :: rest))
    (fits : reader.pos + 1 < 2 ^ 32) : parseTermargInt reader = none := by
  obtain ⟨fuel, enough⟩ := Nat.exists_eq_succ_of_ne_zero (show 2 ^ 64 ≠ 0 by decide)
  have first : ReadM.readUnsigned 1 reader = some (0x5E, reader.moved (reader.pos + 1)) := by
    rw [readUnsigned_one fits, byteAt, (holdsBytes_cons.1 placed).1]
    rfl
  rw [parseTermargInt, enough, Nat.succ_eq_add_one, parseTermargIntLoop, ReadM.bind_some first]
  rfl

private theorem routeSource_parents {ptr len n : Nat} (placed : HoldsBytes memory ptr e.elements)
    (fits : e.elements.length < 2 ^ 32) (parents : e.source.start = .parents n) :
    self.routeSource amlCode memory fuel ((BufferedReader.new memory ptr len).moved
      (e.address.bytes.length + e.pin.bytes.length)) = stop := by
  obtain ⟨-, later⟩ := holdsBytes_append.1 placed
  obtain ⟨-, later⟩ := holdsBytes_append.1 later
  obtain ⟨source, -⟩ := holdsBytes_append.1 later
  have bytes : e.source.bytes = 0x5E :: (List.replicate n 0x5E ++ e.source.path.bytes) := by
    rw [NameEncoding.bytes, parents]
    rfl
  have total : e.elements.length = e.address.bytes.length + e.pin.bytes.length +
      e.source.bytes.length + e.sourceIndex.bytes.length := by
    simp only [PrtEntry.elements, List.length_append]
    omega
  rw [bytes, Nat.add_assoc] at source
  rw [bytes, List.length_cons] at total
  have none := @parseTermargInt_parents ((BufferedReader.new memory ptr len).moved
    (e.address.bytes.length + e.pin.bytes.length)) _ source
    (by change e.address.bytes.length + e.pin.bytes.length + 1 < _; omega)
  rw [PciRoutingTable.routeSource, none]
  rfl

/-! ### The list of entries -/

theorem elements_placed {rest : List Byte} (holds : reader.Holds (e.object.bytes ++ rest)) :
    HoldsBytes reader.memory (reader.buf + (reader.pos + (e.following + 3))) e.elements ∧
      e.elements.length < 2 ^ 32 := by
  have package := (holds_append.1 holds).1
  have inside := package.inside
  have u32 := package.u32
  have elements := package.holdsBytes
  rw [PrtEntry.object, DataObject.bytes, holdsBytes_append, length_header_package,
    Nat.add_assoc] at elements
  rw [PrtEntry.object, DataObject.bytes, List.length_append] at inside
  exact ⟨elements.2, by omega⟩

/-- The next entry is routed, and where it does not match or has nothing, those behind it. -/
theorem findEntry_succ (valid : e.Valid) {rest : List Byte}
    (holds : reader.Holds (e.object.bytes ++ rest)) (n fuel : Nat) :
    self.findEntry amlCode reader.memory fuel device.toNat func.toNat pin.toNat (n + 1) reader =
      (self.routeEntry amlCode reader.memory fuel device.toNat func.toNat pin.toNat
          (BufferedReader.new reader.memory (reader.buf + (reader.pos + (e.following + 3)))
            (e.elements.length % 2 ^ 16)) >>=
        foundOr (self.findEntry amlCode reader.memory fuel device.toNat func.toNat pin.toNat n
          (reader.moved (reader.pos + e.object.bytes.length)))) := by
  have package := (holds_append.1 holds).1
  have length : e.object.bytes.length = e.following + 3 + e.elements.length := by
    rw [PrtEntry.object, DataObject.bytes, List.length_append, length_header_package]
  have place : reader.pos + (e.following + 3) + e.elements.length =
      reader.pos + e.object.bytes.length := by omega
  have parsed := @parse_package _ amlCode.getNameEntry _ _ _ valid.object package
  rw [place] at parsed
  rw [PciRoutingTable.findEntry]
  exact orStop_bind parsed _

private theorem pure_foundOr (next : Checked Unit (Option PciRoutingInterrupt)) :
    (pure none >>= foundOr next) = next :=
  (bind_quiet rfl rfl : (pure none >>= foundOr next) = foundOr next none)

/-- Entries that do not match are passed. -/
theorem findEntry_skip {before : List PrtEntry} {rest : List Byte} (n fuel : Nat)
    (others : ∀ b ∈ before, b.Valid ∧ ¬b.Matches device func pin)
    (holds : reader.Holds (before.flatMap (fun b => b.object.bytes) ++ rest)) :
    self.findEntry amlCode reader.memory fuel device.toNat func.toNat pin.toNat
        (before.length + n) reader =
      self.findEntry amlCode reader.memory fuel device.toNat func.toNat pin.toNat n
        (reader.moved (reader.pos + (before.flatMap fun b => b.object.bytes).length)) := by
  induction before generalizing reader with
  | nil => rw [List.length_nil, List.flatMap_nil, List.length_nil, Nat.zero_add, Nat.add_zero,
      moved_self]
  | cons b before ih =>
    rw [List.flatMap_cons, List.append_assoc] at holds
    obtain ⟨valid, other⟩ := others b (List.mem_cons_self ..)
    obtain ⟨placed, fits⟩ := elements_placed holds
    have later := ih (fun b' member => others b' (List.mem_cons_of_mem _ member))
      (holds_append.1 holds).2
    rw [List.length_cons, Nat.add_right_comm, findEntry_succ valid holds,
      routeEntry_eq valid placed fits, if_neg other, pure_foundOr, List.flatMap_cons,
      List.length_append, ← Nat.add_assoc reader.pos]
    exact later

/-- Where the entries and the resources of their devices are. -/
structure PciRoutingTable.Lists (amlCode : NamedObjects) (memory : Nat → Byte)
    (table : PciRoutingTable) (es : List PrtEntry) : Prop where
  placed : HoldsBytes memory table.base (es.flatMap fun e => e.object.bytes)
  fits : (es.flatMap fun e => e.object.bytes).length < 2 ^ 32
  count : table.numEntries = es.length
  valid : ∀ e ∈ es, e.Valid
  links : ∀ e ∈ es, e.Links amlCode table.pathRoot
  resources : ∀ e ∈ es, HoldsBytes memory e.crs.address e.crs.bytes

/-- The first entry that matches. -/
def firstMatch (es : List PrtEntry) (device func pin : Byte) : Option PrtEntry :=
  es.find? fun e => e.Matches device func pin

/-- The search ends, looks at the resources of the device only, and returns the interrupt that
is selected by the first entry that matches, and nothing exactly if no entry does. -/
def PciRoutingTable.RoutesInterrupt (amlCode : NamedObjects) (memory : Nat → Byte)
    (self : PciRoutingTable) (es : List PrtEntry) (device func pin : Byte) : Prop :=
  ∃ fuel, Safe (self.findPciInt amlCode memory fuel device.toNat func.toNat pin.toNat)
    (fun address n => ∃ e ∈ firstMatch es device func pin,
      Inside e.crs.address (e.crs.address + e.crs.bytes.length) address n)
    fun found => found = (firstMatch es device func pin).bind PrtEntry.selected ∧
      (found = none ↔ ∀ e ∈ es, ¬e.Matches device func pin)

/-- The first entry that matches has a source that does not start at a parent, and resources
that are read rightly. -/
def RightlyRouted (es : List PrtEntry) (device func pin : Byte) : Prop :=
  ∀ e ∈ firstMatch es device func pin,
    (∀ n, e.source.start ≠ .parents n) ∧ e.crs.RightlyRead e.index

theorem PciRoutingTable.Lists.holds (lists : self.Lists amlCode memory es) :
    (BufferedReader.new memory self.base 0xFFFFFFFF).Holds
      (es.flatMap fun e => e.object.bytes) := by
  have fits := lists.fits
  apply holds_of_holdsBytes lists.placed
  · change 0 + _ ≤ 0xFFFFFFFF
    omega
  · change 0xFFFFFFFF < 2 ^ 32
    decide

/-- Where no entry matches, nothing is found. -/
theorem findPciInt_none (lists : self.Lists amlCode memory es)
    (others : ∀ e ∈ es, ¬e.Matches device func pin) (fuel : Nat) :
    self.findPciInt amlCode memory fuel device.toNat func.toNat pin.toNat = pure none := by
  have holds := lists.holds
  rw [← List.append_nil (es.flatMap _)] at holds
  have skip := @findEntry_skip _ amlCode self device func pin es [] 0 fuel
    (fun e member => ⟨lists.valid e member, others e member⟩) holds
  rw [PciRoutingTable.findPciInt, lists.count]
  exact skip

theorem findPciInt_first (lists : self.Lists amlCode memory es)
    (first : firstMatch es device func pin = some e) :
    ∃ ptr n reader', HoldsBytes memory ptr e.elements ∧ e.elements.length < 2 ^ 32 ∧
      (∀ fuel, self.findPciInt amlCode memory fuel device.toNat func.toNat pin.toNat =
          (self.routeSource amlCode memory fuel
            ((BufferedReader.new memory ptr (e.elements.length % 2 ^ 16)).moved
              (e.address.bytes.length + e.pin.bytes.length)) >>=
            foundOr (self.findEntry amlCode memory fuel device.toNat func.toNat pin.toNat n
              reader'))) ∧
      ((es.filter fun e => e.Matches device func pin).length ≤ 1 →
        ∀ fuel, self.findEntry amlCode memory fuel device.toNat func.toNat pin.toNat n reader' =
          pure none) := by
  obtain ⟨matched, before, after, rfl, others⟩ := List.find?_eq_some_iff_append.1 first
  have matched : e.Matches device func pin := of_decide_eq_true matched
  have others (b : PrtEntry) (member : b ∈ before) : ¬b.Matches device func pin := by
    simpa using others b member
  have holds := lists.holds
  rw [List.flatMap_append, List.flatMap_cons] at holds
  have here := (holds_append.1 holds).2
  have valid : e.Valid := lists.valid e (List.mem_append_right _ (List.mem_cons_self ..))
  obtain ⟨placed, fits⟩ := elements_placed here
  refine ⟨_, after.length, (BufferedReader.new memory self.base 0xFFFFFFFF).moved
    (0 + (before.flatMap fun e => e.object.bytes).length + e.object.bytes.length), placed, fits,
    fun fuel => ?_, fun alone fuel => ?_⟩
  · have skip := @findEntry_skip _ amlCode self device func pin before _ (after.length + 1) fuel
      (fun b member => ⟨lists.valid b (List.mem_append_left _ member), others b member⟩) holds
    rw [PciRoutingTable.findPciInt, lists.count, List.length_append, List.length_cons]
    refine skip.trans ((findEntry_succ valid here after.length fuel).trans ?_)
    rw [routeEntry_eq valid placed fits, if_pos matched]
    rfl
  · have rest := (holds_append.1 here).2
    rw [← List.append_nil (after.flatMap _)] at rest
    have none (a : PrtEntry) (member : a ∈ after) : ¬a.Matches device func pin := by
      intro also
      rw [List.filter_append, List.filter_cons_of_pos (by simpa using matched), List.length_append,
        List.length_cons] at alone
      have some : 0 < (after.filter fun e => e.Matches device func pin).length :=
        List.length_pos_of_mem (List.mem_filter.2 ⟨member, by simpa using also⟩)
      omega
    exact @findEntry_skip _ amlCode self device func pin after [] 0 fuel
      (fun a member => ⟨lists.valid a (List.mem_append_right _ (List.mem_cons_of_mem _ member)),
        none a member⟩) rest

private theorem none_iff_first : firstMatch es device func pin = none ↔
    ∀ e ∈ es, ¬e.Matches device func pin := by
  rw [firstMatch, List.find?_eq_none]
  simp

/-- Only the resources of the first entry are looked at. -/
theorem looked_first (e : PrtEntry) :
    (fun address n => ∃ e' ∈ some e,
      Inside e'.crs.address (e'.crs.address + e'.crs.bytes.length) address n) =
      Inside e.crs.address (e.crs.address + e.crs.bytes.length) := by
  funext address n
  simp

/-- The search does what it should where the first entry that matches is rightly routed. -/
theorem routesInterrupt_of_rightlyRouted (lists : self.Lists amlCode memory es)
    (right : RightlyRouted es device func pin) :
    self.RoutesInterrupt amlCode memory es device func pin := by
  cases first : firstMatch es device func pin with
  | none =>
    -- all entries are read, and passed
    have others := none_iff_first.1 first
    refine ⟨0, ?_⟩
    rw [findPciInt_none lists others, safe_pure, first]
    exact ⟨rfl, fun _ => others, fun _ => rfl⟩
  | some e =>
    -- the walk through its resources decides, whatever entries follow
    have own : e ∈ es := List.mem_of_find?_eq_some first
    obtain ⟨noParent, read⟩ := right e first
    obtain ⟨ptr, n, reader', placed, fits, found, -⟩ := findPciInt_first lists first
    obtain ⟨i, selected⟩ : ∃ i, e.crs.selected e.index = some i := by
      obtain ⟨before, d, after, split, passed, decides⟩ := read
      cases d with
      | irq mask flags => exact ⟨_, decides.choose_spec.2⟩
      | interrupt flags number others source =>
        obtain ⟨zero, -⟩ := decides
        rw [zero] at passed ⊢
        exact ⟨_, selected_first split passed⟩
      | small => exact decides.elim
      | large => exact decides.elim
    obtain ⟨fuel, walk⟩ := walk_rightlyRead read (lists.resources e own) selected
    refine ⟨fuel, ?_⟩
    have source := @routeSource_eq amlCode memory fuel self e (lists.valid e own) ptr placed
      ⟨noParent, (lists.valid e own).source⟩ (lists.links e own)
    have matched : ¬∀ e ∈ es, ¬e.Matches device func pin := by
      rw [← none_iff_first, first]
      simp
    rw [found, source, safe_bind, first, looked_first, walk, foundOr, safe_pure, Option.bind_some]
    exact ⟨selected.symm, iff_of_false (by simp) matched⟩

/-- Where the search does what it should, and only one entry matches, the template of which has
no other large descriptors, the entry is rightly routed. -/
theorem rightlyRouted_of_routesInterrupt (lists : self.Lists amlCode memory es)
    (plain : ∀ e ∈ firstMatch es device func pin, ∀ type data,
      .large type data ∉ e.crs.descriptors)
    (alone : (es.filter fun e => e.Matches device func pin).length ≤ 1)
    (routes : self.RoutesInterrupt amlCode memory es device func pin) :
    RightlyRouted es device func pin := by
  intro e first
  have first : firstMatch es device func pin = some e := first
  have own : e ∈ es := List.mem_of_find?_eq_some first
  have matched : ¬∀ e ∈ es, ¬e.Matches device func pin := by
    rw [← none_iff_first, first]
    simp
  obtain ⟨fuel, safe⟩ := routes
  obtain ⟨ptr, n, reader', placed, fits, found, rest⟩ := findPciInt_first lists first
  rw [found, rest alone, first, looked_first, Option.bind_some] at safe
  have noParent (k : Nat) : e.source.start ≠ .parents k := by
    intro parents
    rw [routeSource_parents placed fits parents, safe_bind, safe_stop] at safe
    exact safe
  refine ⟨noParent, ?_⟩
  rw [routeSource_eq (lists.valid e own) placed ⟨noParent, (lists.valid e own).source⟩
    (lists.links e own), safe_bind] at safe
  -- no entry behind this one could return something instead
  refine rightlyRead_of_walk (plain e first) (lists.resources e own) safe ?_ ?_
  · rw [foundOr, safe_pure]
    exact fun nothing => matched (nothing.2.1 rfl)
  · intro i value
    rw [foundOr, safe_pure] at value
    exact value.1.symm

/-- The search does what it should where the first entry that matches is rightly routed, and
only there if one entry at most matches, and its template has no other large descriptors. -/
theorem routesInterrupt_when (lists : self.Lists amlCode memory es) :
    (RightlyRouted es device func pin →
      self.RoutesInterrupt amlCode memory es device func pin) ∧
    ((∀ e ∈ firstMatch es device func pin, ∀ type data, .large type data ∉ e.crs.descriptors) →
      (es.filter fun e => e.Matches device func pin).length ≤ 1 →
      self.RoutesInterrupt amlCode memory es device func pin →
        RightlyRouted es device func pin) :=
  ⟨routesInterrupt_of_rightlyRouted lists, rightlyRouted_of_routesInterrupt lists⟩

end Entries

/-! ## One link device -/

/-- An entry for all functions of device 1 and its first pin, with the device `_SB_PCI0`. -/
def linkEntry (crs : ResourceTemplate) (sourceIndex : IntTerm) : PrtEntry where
  following := 0
  address := .dWord 0x1FFFF
  pin := .zero
  source := ⟨.relative, .seg (segment 0x50 0x43 0x49 0x30), by decide, by decide⟩
  sourceIndex := sourceIndex
  crs := crs

def linkObjects (crs : ResourceTemplate) : NamedObjects where
  pathSystem := .new
  nameSystem :=
    { names := ⟨fun i => [0x5F, 0x43, 0x52, 0x53].getD i 0, 0x1000, 4⟩
      systems := ⟨fun _ => [1, 0, 0, 0], 1, 512⟩
      referenceBuckets := ⟨fun _ => ⟨0, 1⟩, 2, 1024⟩
      entries := ⟨fun _ => ⟨0, 0⟩, 1, 1024⟩
      memory := ⟨fun _ => .buffer crs.address crs.bytes.length, 1, 0x1000⟩ }
  scopes := ⟨fun _ => ⟨0, none⟩, 0, 256⟩
  devices := ⟨fun _ => ⟨3, some 0⟩, 1, 256⟩
  processors := ⟨fun _ => ⟨0, none⟩, 0, 256⟩
  standaloneNameSystem := 0
  nameSystemStores := .new none 8 256

def linkMemory (e : PrtEntry) : Nat → Byte := fun a =>
  if a < 0x3000 then memoryOf 0x2000 e.object.bytes a else memoryOf 0x3000 e.crs.bytes a

def linkTable : PciRoutingTable := ⟨0x2000, 1, 2⟩

theorem single_of_encode {nameString : NameString} {name : Segment}
    (letter : segmentHead name = 0x50) (same : nameString.encode = segmentBytes name) :
    nameString = .single name false := by
  have first : nameString.encode.head? = some 0x50 := by
    rw [same, ← letter]
    rfl
  have length : nameString.encode.length = 4 := by
    rw [same]
    rfl
  cases nameString with
  | single name' absolute =>
    rw [NameString.encode] at same length
    split at length
    · cases length
    next noRoot =>
      rw [if_neg noRoot] at same
      cases absolute with
      | true => cases length
      | false => rw [List.ofFn_injective same]
  | dual ptr absolute =>
    cases absolute with
    | true => cases first
    | false => cases first
  | multiple ptr segments absolute =>
    cases absolute with
    | true => cases first
    | false => cases first

private theorem link_valid (crs : ResourceTemplate) {sourceIndex : IntTerm}
    (index : sourceIndex = .zero ∨ sourceIndex = .one) : (linkEntry crs sourceIndex).Valid where
  object := by
    refine ⟨.inl ⟨rfl, ?_⟩, by decide⟩
    rcases index with rfl | rfl <;> exact Nat.lt_of_sub_eq_succ rfl
  address := by
    refine ⟨?_, .inr rfl⟩
    change 0x1FFFF < 2 ^ 32
    decide
  pin := ⟨trivial, .inl rfl⟩
  source := by
    rintro ⟨-, null⟩
    cases null
  sourceIndex := by
    rcases index with rfl | rfl
    · exact ⟨trivial, .inl rfl⟩
    · exact ⟨trivial, .inr (.inl rfl)⟩

private theorem linkTable_lists {crs : ResourceTemplate} {sourceIndex : IntTerm}
    (address : crs.address = 0x3000) (index : sourceIndex = .zero ∨ sourceIndex = .one) :
    linkTable.Lists (linkObjects crs) (linkMemory (linkEntry crs sourceIndex))
      [linkEntry crs sourceIndex] := by
  have length : (linkEntry crs sourceIndex).object.bytes.length = 14 := by
    rcases index with rfl | rfl <;> rfl
  have bytes : [linkEntry crs sourceIndex].flatMap (fun e => e.object.bytes) =
      (linkEntry crs sourceIndex).object.bytes := List.flatMap_singleton ..
  refine ⟨?_, ?_, rfl, ?_, ?_, ?_⟩
  · rw [bytes]
    intro k below
    rw [length] at below
    change (linkEntry crs sourceIndex).object.bytes[k]? =
      some (linkMemory (linkEntry crs sourceIndex) (0x2000 + k))
    rw [linkMemory, if_pos (by omega)]
    exact holdsBytes_memoryOf _ _ k (length ▸ below)
  · rw [bytes, length]
    decide
  · intro e member
    rw [List.mem_singleton.1 member]
    exact link_valid crs index
  · intro e member nameString same
    rw [List.mem_singleton.1 member] at same ⊢
    have name : nameString = .single (segment 0x50 0x43 0x49 0x30) false :=
      single_of_encode rfl same
    have path : PathSystem.new.find 2
        (NameString.single (segment 0x50 0x43 0x49 0x30) false).ptr 1 = some (some 3) := by
      decide +kernel
    have found : (linkObjects crs).nameSystem.get 0 crsName =
        some (some (.buffer crs.address crs.bytes.length)) := rfl
    rw [name, NamedObjects.resourcesOf]
    change Option.bind (PathSystem.new.find 2 _ 1) _ = _
    rw [path]
    exact found
  · intro e member
    rw [List.mem_singleton.1 member]
    intro k below
    change crs.bytes[k]? = some (linkMemory _ (crs.address + k))
    rw [linkMemory, address, if_neg (by omega)]
    exact holdsBytes_memoryOf _ _ k below

private theorem link_noParent (crs : ResourceTemplate) (sourceIndex : IntTerm) (n : Nat) :
    (linkEntry crs sourceIndex).source.start ≠ .parents n := by
  change NamePrefix.relative ≠ _
  simp

private theorem link_first (crs : ResourceTemplate) (sourceIndex : IntTerm) :
    firstMatch [linkEntry crs sourceIndex] 1 0 0 = some (linkEntry crs sourceIndex) := by
  have matched : (linkEntry crs sourceIndex).Matches 1 0 0 := by
    refine ⟨?_, rfl⟩
    change 0x1FFFF / 2 ^ 16 = 1 ∧ (0x1FFFF % 2 ^ 16 = 0xFFFF ∨ 0x1FFFF % 2 ^ 16 = 0)
    decide
  rw [firstMatch, List.find?_cons_of_pos (by simpa using matched)]

/-- Ports, and the IRQs 5, 10 and 11. -/
def threeIrqs : ResourceTemplate where
  address := 0x3000
  descriptors := [.small 8 [0x01, 0x00, 0x10, 0xFF, 0x10, 0x01, 0x10], .irq 0x0C20 (some 0x18)]
  checksum := 0
  valid := by
    intro d member
    rcases List.mem_cons.1 member with rfl | member
    · exact ⟨by decide, by decide, by decide, by decide⟩
    · rw [List.mem_singleton.1 member]
      trivial

/-- The second of three IRQs. -/
theorem routesInterrupt_second : linkTable.RoutesInterrupt (linkObjects threeIrqs)
    (linkMemory (linkEntry threeIrqs .one)) [linkEntry threeIrqs .one] 1 0 0 := by
  refine (routesInterrupt_when (linkTable_lists rfl (.inr rfl))).1 ?_
  intro e first
  obtain rfl := Option.some.inj ((link_first threeIrqs .one).symm.trans first)
  refine ⟨link_noParent _ _, [.small 8 [0x01, 0x00, 0x10, 0xFF, 0x10, 0x01, 0x10]],
    .irq 0x0C20 (some 0x18), [], rfl, ?_, ?_⟩
  · intro b member
    rw [List.mem_singleton.1 member]
    exact .inl ⟨by decide, by decide, by decide⟩
  · exact ⟨10, by decide, by decide⟩

/-- A large descriptor without data, and the IRQ 5. -/
def emptyLarge : ResourceTemplate where
  address := 0x3000
  descriptors := [.large 4 [], .irq 0x0020 (some 0x18)]
  checksum := 0
  valid := by
    intro d member
    rcases List.mem_cons.1 member with rfl | member
    · exact ⟨by decide, by decide, by decide⟩
    · rw [List.mem_singleton.1 member]
      trivial

theorem walk_stays {memory : Nat → Byte} {type fuel r cptr low high : Nat}
    {Q : Option PciRoutingInterrupt → Prop} (valid : (ResourceDescriptor.large type []).Valid)
    (placed : HoldsBytes memory cptr (ResourceDescriptor.large type []).bytes)
    (inside : low ≤ cptr ∧ cptr + 3 ≤ high) :
    ¬Safe (walkResources memory 0 fuel (3 + r) cptr) (Inside low high) Q := by
  induction fuel with
  | zero =>
    rw [walkResources, safe_stop]
    exact id
  | succ fuel ih =>
    intro safe
    exact ih ((walk_large valid placed inside).1 safe)

theorem not_routesInterrupt_large : ¬linkTable.RoutesInterrupt (linkObjects emptyLarge)
    (linkMemory (linkEntry emptyLarge .zero)) [linkEntry emptyLarge .zero] 1 0 0 := by
  rintro ⟨fuel, safe⟩
  have lists := @linkTable_lists emptyLarge .zero rfl (.inl rfl)
  have first := link_first emptyLarge .zero
  obtain ⟨ptr, n, reader', placed, -, found, -⟩ := findPciInt_first lists first
  have source := @routeSource_eq (linkObjects emptyLarge) _ fuel linkTable _
    (link_valid emptyLarge (.inl rfl)) ptr placed
    ⟨link_noParent _ _, (link_valid emptyLarge (.inl rfl)).source⟩
    (lists.links _ (List.mem_singleton_self _))
  rw [found, source, first, looked_first, safe_bind] at safe
  have resources := lists.resources _ (List.mem_singleton_self _)
  have start : HoldsBytes (linkMemory (linkEntry emptyLarge .zero)) 0x3000
      (ResourceDescriptor.large 4 []).bytes :=
    (holdsBytes_append.1 (holdsBytes_append.1 resources).1).1
  -- behind the three bytes of the descriptor stand the four of the IRQ and the end tag
  exact @walk_stays _ 4 fuel 6 0x3000 0x3000 0x3009 _
    (emptyLarge.valid _ (List.mem_cons_self ..)) start ⟨by decide, by decide⟩ safe

end EmkKernel
