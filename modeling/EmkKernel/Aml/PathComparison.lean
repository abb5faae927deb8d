import EmkKernel.Aml.Owners

/-!
# Comparison of paths

`compare_extern` and `AmlCode::get_name_entry`. A path is meant to be compared with another
one and a name behind it. The comparison takes the length of the first path for that of the
second, so it goes by what is stored behind both of them.
-/

namespace EmkKernel

namespace PathSystem

/-- `compare_extern`. -/
def compareExtern (self : PathSystem) (cmp0 cmp1 : Nat) (append : Nat → Byte)
    (appendLength : Nat) : Option Bool := do
  let root0 ← self.root cmp0
  let root1 ← self.root cmp1
  let length ← toU16 (root1.length * 4 + appendLength)
  if root0.length * 4 ≠ length then some false
  -- both lengths are that of the first path
  else if !self.storage.compare root0.offset root1.offset (root0.length * 4) then some false
  else some (self.storage.compareExtern (root0.offset + root0.length * 4) append appendLength)

variable {s : PathSystem} {a b : Nat} {name : NameString}

/-- The paths with other bytes in the storage. -/
def withBytes (s : PathSystem) (bytes : Nat → Byte) : PathSystem :=
  { s with storage := ⟨bytes, s.storage.capacity, s.storage.length⟩ }

/-- The segments that are stored directly behind a path, if so many are. -/
def Behind (s : PathSystem) (id : Nat) (names : List Segment) : Prop :=
  (s.roots id).offset + ((s.roots id).length + names.length) * 4 ≤ s.storage.length ∧
    segmentsAt s.storage.bytes ((s.roots id).offset + 4 * (s.roots id).length) names.length = names

/-- The comparison tells whether a path is another one with a name behind it, and the bytes that
are not stored do not matter. -/
structure Compares (s : PathSystem) (a b : Nat) (name : NameString) : Prop where
  exact : ∃ answer, s.compareExtern a b name.ptr (name.segments * 4) = some answer ∧
    (answer = true ↔ s.path a = s.path b ++ name.path)
  inside : ∀ bytes, (∀ i, i < s.storage.length → bytes i = s.storage.bytes i) →
    (s.withBytes bytes).compareExtern a b name.ptr (name.segments * 4) =
      s.compareExtern a b name.ptr (name.segments * 4)

/-- As many segments behind a path as the name has are the name if they are stored behind the
path and the name is stored behind both, and only then. -/
def Continues (s : PathSystem) (a b : Nat) (name : NameString) : Prop :=
  ∀ rest : List Segment, rest.length = name.segments → s.path a = s.path b ++ rest →
    (rest = name.path ↔ s.Behind b rest ∧ s.Behind a name.path)

@[simp] theorem length_path (id : Nat) : (s.path id).length = (s.roots id).length :=
  length_segmentsAt ..

@[simp] theorem length_name_path (name : NameString) : name.path.length = name.segments :=
  length_segmentsAt ..

theorem compare_starts (lengths : (s.roots a).length = (s.roots b).length + name.segments)
    (insideA : (s.roots a).offset + (s.roots a).length * 4 ≤ s.storage.length) :
    s.storage.compare (s.roots a).offset (s.roots b).offset ((s.roots a).length * 4) = true ↔
      ∃ rest : List Segment, rest.length = name.segments ∧ s.path a = s.path b ++ rest ∧
        s.Behind b rest := by
  by_cases insideB : (s.roots b).offset + (s.roots a).length * 4 ≤ s.storage.length
  · have whole : segmentsAt s.storage.bytes (s.roots b).offset (s.roots a).length = s.path b ++
        segmentsAt s.storage.bytes ((s.roots b).offset + 4 * (s.roots b).length) name.segments := by
      rw [lengths]
      exact segmentsAt_add ..
    rw [KernelString.compare_iff insideA insideB, ← segmentsAt_eq_iff, whole]
    constructor
    · intro same
      refine ⟨_, length_segmentsAt .., same, ?_⟩
      rw [Behind, length_segmentsAt, ← lengths]
      exact ⟨insideB, rfl⟩
    · rintro ⟨rest, length, same, _, behind⟩
      rw [← length, behind]
      exact same
  · have refused : s.storage.compare (s.roots a).offset (s.roots b).offset
        ((s.roots a).length * 4) = false := if_pos (Or.inr (by omega))
    rw [refused]
    refine iff_of_false nofun ?_
    rintro ⟨rest, length, _, inside, _⟩
    rw [length, ← lengths] at inside
    exact insideB inside

theorem compareExtern_behind : s.storage.compareExtern
    ((s.roots a).offset + (s.roots a).length * 4) name.ptr (name.segments * 4) = true ↔
      s.Behind a name.path := by
  by_cases inside : (s.roots a).offset + (s.roots a).length * 4 + name.segments * 4 ≤
      s.storage.length
  · rw [KernelString.compareExtern_iff inside, Behind, length_name_path, NameString.path,
      segmentsAt_eq_iff, and_iff_right (by omega)]
    simp only [Nat.zero_add, Nat.mul_comm 4]
  · have refused : s.storage.compareExtern ((s.roots a).offset + (s.roots a).length * 4) name.ptr
        (name.segments * 4) = false := if_pos (Nat.lt_of_not_le inside)
    rw [refused, Behind, length_name_path]
    refine iff_of_false nofun fun behind => inside ?_
    have within := behind.1
    omega

theorem Owned.compareExtern (owned : s.Owned) (isA : a < s.allocated) (isB : b < s.allocated)
    (few : name.segments < 2 ^ 8) :
    ∃ answer, s.compareExtern a b name.ptr (name.segments * 4) = some answer ∧
      (answer = true ↔ ∃ rest : List Segment, rest.length = name.segments ∧
        s.path a = s.path b ++ rest ∧ s.Behind b rest ∧ s.Behind a name.path) := by
  have insideA := owned.inside a isA
  have insideB := owned.inside b isB
  have room := owned.room
  have u16 : toU16 ((s.roots b).length * 4 + name.segments * 4) =
      some ((s.roots b).length * 4 + name.segments * 4) := if_pos (by omega)
  rw [PathSystem.compareExtern, root_of_lt isA, root_of_lt isB]
  simp only [Option.bind_eq_bind, Option.bind_some, u16]
  by_cases lengths : (s.roots a).length = (s.roots b).length + name.segments
  · rw [if_neg (by omega)]
    have starts := compare_starts lengths insideA
    cases same : s.storage.compare (s.roots a).offset (s.roots b).offset
        ((s.roots a).length * 4) with
    | false =>
      rw [same] at starts
      refine ⟨false, rfl, iff_of_false nofun ?_⟩
      rintro ⟨rest, length, split, behind, _⟩
      exact absurd (starts.mpr ⟨rest, length, split, behind⟩) nofun
    | true =>
      rw [same] at starts
      refine ⟨_, rfl, ?_⟩
      rw [compareExtern_behind]
      obtain ⟨rest, length, split, behind⟩ := starts.mp rfl
      constructor
      · intro behindA
        exact ⟨rest, length, split, behind, behindA⟩
      · rintro ⟨_, _, _, _, behindA⟩
        exact behindA
  · rw [if_pos (by omega)]
    refine ⟨false, rfl, iff_of_false nofun ?_⟩
    rintro ⟨rest, length, split, _⟩
    have sum := congrArg List.length split
    rw [List.length_append, length_path, length_path, length] at sum
    exact lengths sum

/-- The comparison with a name of some bytes is true of the path with as many segments behind it
as the bytes make, if these are stored behind that path and the name behind this one. -/
def Accepts (s : PathSystem) (a b : Nat) (ptr : Nat → Byte) (length : Nat) : Prop :=
  length % 4 = 0 ∧ ∃ rest : List Segment, rest.length = length / 4 ∧
    s.path a = s.path b ++ rest ∧ s.Behind b rest ∧ s.Behind a (segmentsAt ptr 0 (length / 4))

theorem Owned.accepts_iff (owned : s.Owned) (isA : a < s.allocated) (isB : b < s.allocated)
    (ptr : Nat → Byte) {length : Nat} (few : length < 2 ^ 8) :
    ∃ answer, s.compareExtern a b ptr length = some answer ∧
      (answer = true ↔ s.Accepts a b ptr length) := by
  by_cases whole : length % 4 = 0
  · obtain ⟨answer, returned, accepts⟩ := @Owned.compareExtern s a b
      (.multiple ptr (length / 4) false) owned isA isB
      (show length / 4 < 2 ^ 8 by omega)
    have bytes : (NameString.multiple ptr (length / 4) false).segments * 4 = length :=
      Nat.div_mul_cancel (Nat.dvd_of_mod_eq_zero whole)
    rw [bytes] at returned
    exact ⟨answer, returned, accepts.trans (and_iff_right whole).symm⟩
  · have inside := owned.inside b isB
    have room := owned.room
    have u16 : toU16 ((s.roots b).length * 4 + length) = some ((s.roots b).length * 4 + length) :=
      if_pos (by omega)
    refine ⟨false, ?_, iff_of_false nofun fun accepts => whole accepts.1⟩
    rw [PathSystem.compareExtern, root_of_lt isA, root_of_lt isB]
    simp only [Option.bind_eq_bind, Option.bind_some, u16]
    exact if_pos (by omega)

/-- Bytes that are not stored are not read. -/
theorem compareExtern_withBytes {bytes : Nat → Byte}
    (same : ∀ i, i < s.storage.length → bytes i = s.storage.bytes i) {ptr : Nat → Byte}
    {length : Nat} : (s.withBytes bytes).compareExtern a b ptr length =
      s.compareExtern a b ptr length := by
  have compare (x y n : Nat) : (s.withBytes bytes).storage.compare x y n =
      s.storage.compare x y n := by
    by_cases inside : x + n ≤ s.storage.length ∧ y + n ≤ s.storage.length
    · rw [Bool.eq_iff_iff, KernelString.compare_iff inside.1 inside.2]
      refine (KernelString.compare_iff (s := (s.withBytes bytes).storage) inside.1
        inside.2).trans ?_
      apply forall₂_congr
      intro i less
      rw [← same (x + i) (by omega), ← same (y + i) (by omega)]
      rfl
    · have refused : x + n > s.storage.length ∨ y + n > s.storage.length := by omega
      exact (if_pos refused).trans (if_pos refused).symm
  have compareExtern (x n : Nat) : (s.withBytes bytes).storage.compareExtern x ptr n =
      s.storage.compareExtern x ptr n := by
    by_cases inside : x + n ≤ s.storage.length
    · rw [Bool.eq_iff_iff, KernelString.compareExtern_iff inside]
      refine (KernelString.compareExtern_iff (s := (s.withBytes bytes).storage) inside).trans ?_
      apply forall₂_congr
      intro i less
      rw [← same (x + i) (by omega)]
      rfl
    · have refused : x + n > s.storage.length := by omega
      exact (if_pos refused).trans (if_pos refused).symm
  unfold PathSystem.compareExtern
  simp only [compare, compareExtern]
  rfl

private theorem Owned.compares_iff (owned : s.Owned) (isA : a < s.allocated) (isB : b < s.allocated)
    (few : name.segments < 2 ^ 8) : s.Compares a b name ↔ s.Continues a b name := by
  obtain ⟨answer, returned, accepts⟩ := owned.compareExtern isA isB few
  constructor
  · rintro ⟨⟨answer', returned', exact⟩, _⟩ rest length split
    cases returned.symm.trans returned'
    rw [split, List.append_cancel_left_eq] at exact
    rw [← exact, accepts]
    constructor
    · rintro ⟨rest', _, split', behind⟩
      rw [split, List.append_cancel_left_eq] at split'
      exact split' ▸ behind
    · intro behind
      exact ⟨rest, length, split, behind⟩
  · intro continues
    refine ⟨⟨answer, returned, ?_⟩, fun bytes same => compareExtern_withBytes same⟩
    rw [accepts]
    constructor
    · rintro ⟨rest, length, split, behind⟩
      rw [split, (continues rest length split).mpr behind]
    · intro split
      exact ⟨name.path, length_name_path name, split,
        (continues name.path (length_name_path name) split).mp rfl⟩

end PathSystem

/-! ### Named objects -/

/-- The fields of `AmlCode` that `get_name_entry` reads. A processor has a path and the name
system it uses. -/
structure NamedObjects where
  pathSystem : PathSystem
  nameSystem : NameSystem
  scopes : PageAllocator Scope
  devices : PageAllocator Device
  processors : PageAllocator Scope
  standaloneNameSystem : Nat
  nameSystemStores : Stack (Option Nat)

namespace NamedObjects

section

variable (objects : NamedObjects)

/-- The loop over a table, which ends at the first entry with the path. -/
def findIn (base : Nat) (rootPtr : Nat → Byte) (rootLength : Nat) (name : Segment) :
    List Scope → Option (Option DataRefObject)
  | [] => some none
  | cmp :: rest => do
    if ← objects.pathSystem.compareExtern cmp.path base rootPtr rootLength then
      match cmp.nameSystem with
      | some nameSystem => objects.nameSystem.get nameSystem name
      | none => some none
    else findIn base rootPtr rootLength name rest

/-- The path where a partial path starts. -/
def basePath (absolute : Bool) : Nat := if absolute then 0 else objects.pathSystem.currentPath

/-- The part of `get_name_entry` for names with a path in front. -/
def findBehind (rootPtr : Nat → Byte) (rootLength : Nat) (absolute : Bool) :
    Option (Option DataRefObject) := do
  let name : Segment := fun i => rootPtr (rootLength + i)
  let find := objects.findIn (objects.basePath absolute) rootPtr rootLength name
  match ← find objects.scopes.values with
  | some dro => some (some dro)
  | none =>
    match ← find objects.devices.values with
    | some dro => some (some dro)
    | none => find objects.processors.values

def getNameEntry : NameString → Option (Option DataRefObject)
  | .single name true => objects.nameSystem.get objects.standaloneNameSystem name
  | .single name false => do objects.nameSystem.get (← objects.nameSystemStores.refTop) name
  | .dual ptr absolute => objects.findBehind ptr 4 absolute
  -- `segments - 1 * 4`, in `u8`
  | .multiple ptr segments absolute =>
    if segments < 4 then none else objects.findBehind ptr (segments - 4) absolute

/-- The segments of a scope, or none for a name from the root. -/
def baseScope (absolute : Bool) : List Segment :=
  if absolute then [] else objects.pathSystem.scope

/-- The name system of the scope, where a `Name` is added. -/
def currentSystem (absolute : Bool) : Option Nat :=
  if absolute ∨ objects.nameSystemStores.numOccupied = 0 then some objects.standaloneNameSystem
  else objects.nameSystemStores.refTop

/-- An entry of a table holds an object under a path and a name. -/
def Holds (entry : Scope) (path : List Segment) (name : Segment) (object : DataRefObject) : Prop :=
  objects.pathSystem.path entry.path = path ∧
    ∃ nameSystem, entry.nameSystem = some nameSystem ∧
      objects.nameSystem.get nameSystem name = some (some object)

def tables : List (List Scope) :=
  [objects.scopes.values, objects.devices.values, objects.processors.values]

/-- An object is at the path of a name. -/
def IsAt (object : DataRefObject) : NameString → Prop
  | .single name absolute => ∃ nameSystem, objects.currentSystem absolute = some nameSystem ∧
      objects.nameSystem.get nameSystem name = some (some object)
  | name => ∃ table ∈ objects.tables, ∃ entry ∈ table, ∃ last ∈ name.path.getLast?,
      objects.Holds entry (objects.baseScope name.isAbsolute ++ name.path.dropLast) last object

/-- What is found is at the path, and something is found if anything is there. -/
def FindsExactly (name : NameString) : Prop :=
  ∃ found, objects.getNameEntry name = some found ∧
    (∀ object ∈ found, objects.IsAt object name) ∧
    ((∃ object, objects.IsAt object name) → found.isSome)

/-- The ids of the tables are ids, and every name system there is answers. -/
structure WellFormed : Prop where
  ids : ∀ table ∈ objects.tables, ∀ entry ∈ table, entry.path < objects.pathSystem.allocated
  systems : ∀ table ∈ objects.tables, ∀ entry ∈ table, ∀ nameSystem ∈ entry.nameSystem,
    ∀ name, (objects.nameSystem.get nameSystem name).isSome
  standalone : ∀ name, (objects.nameSystem.get objects.standaloneNameSystem name).isSome
  current : ∀ nameSystem ∈ objects.nameSystemStores.refTop,
    ∀ name, (objects.nameSystem.get nameSystem name).isSome

/-- The first element with a property. -/
def First {α : Type} (p : α → Prop) (xs : List α) (x : α) : Prop :=
  ∃ before after, xs = before ++ x :: after ∧ p x ∧ ∀ y ∈ before, ¬p y

section Behind

variable (ptr : Nat → Byte) (length : Nat) (absolute : Bool)

/-- The comparison takes an entry for the scope that a name of this many bytes leads to. -/
def Takes (entry : Scope) : Prop :=
  objects.pathSystem.Accepts entry.path (objects.basePath absolute) ptr length

/-- The first entry of a table that is taken holds an object under the name behind the bytes. -/
def HitIn (table : List Scope) (object : DataRefObject) : Prop :=
  ∃ entry, First (objects.Takes ptr length absolute) table entry ∧
    ∃ nameSystem ∈ entry.nameSystem,
      objects.nameSystem.get nameSystem (fun i => ptr (length + i)) = some (some object)

/-- The first table with an object has this one. -/
def Hit (object : DataRefObject) : Prop :=
  ∃ table, First (fun table => ∃ object, objects.HitIn ptr length absolute table object)
    objects.tables table ∧ objects.HitIn ptr length absolute table object

/-- The bytes lead to an object at the path of the name, and to one if anything is there. -/
def LeadsTo (name : NameString) : Prop :=
  (∀ object, objects.Hit ptr length absolute object → objects.IsAt object name) ∧
    ((∃ object, objects.IsAt object name) → ∃ object, objects.Hit ptr length absolute object)

end Behind

/-- A name in the current scope needs a name system there, which is looked for on a stack that is
empty in the root. Of two segments the first is compared, and of more as many bytes as there are
segments besides four. -/
def Leads : NameString → Prop
  | .single _ true => True
  | .single name false => ∃ nameSystem, objects.nameSystemStores.refTop = some nameSystem ∧
      (objects.nameSystemStores.numOccupied = 0 → objects.nameSystem.get nameSystem name =
        objects.nameSystem.get objects.standaloneNameSystem name)
  | .dual ptr absolute => objects.LeadsTo ptr 4 absolute (.dual ptr absolute)
  | .multiple ptr segments absolute => 4 ≤ segments ∧
      objects.LeadsTo ptr (segments - 4) absolute (.multiple ptr segments absolute)

end

variable {objects : NamedObjects} {ptr : Nat → Byte} {length : Nat} {absolute : Bool}

private theorem first_cons {α : Type} {p : α → Prop} {x y : α} {xs : List α} :
    First p (x :: xs) y ↔ p x ∧ x = y ∨ ¬p x ∧ First p xs y := by
  constructor
  · rintro ⟨before, after, split, holds, none⟩
    cases before with
    | nil =>
      obtain ⟨rfl, _⟩ := List.cons.inj split
      exact Or.inl ⟨holds, rfl⟩
    | cons z before =>
      obtain ⟨rfl, rest⟩ := List.cons.inj split
      exact Or.inr ⟨none _ List.mem_cons_self, before, after, rest, holds,
        fun y member => none y (List.mem_cons_of_mem _ member)⟩
  · rintro (⟨holds, rfl⟩ | ⟨fails, before, after, rfl, holds, none⟩)
    · exact ⟨[], xs, rfl, holds, fun _ member => absurd member List.not_mem_nil⟩
    · refine ⟨x :: before, after, rfl, holds, fun z member => ?_⟩
      rcases List.mem_cons.mp member with rfl | later
      · exact fails
      · exact none z later

private theorem not_first_nil {α : Type} {p : α → Prop} {y : α} : ¬First p [] y := by
  rintro ⟨before, after, split, _⟩
  cases (List.append_eq_nil_iff.mp split.symm).2

private theorem exists_first_cons {α : Type} {p q : α → Prop} {x : α} {xs : List α} :
    (∃ y, First p (x :: xs) y ∧ q y) ↔ p x ∧ q x ∨ ¬p x ∧ ∃ y, First p xs y ∧ q y := by
  simp only [first_cons, or_and_right, exists_or, and_assoc, exists_and_left, exists_eq_left']

private theorem basePath_lt (owned : objects.pathSystem.Owned) :
    objects.basePath absolute < objects.pathSystem.allocated := by
  unfold basePath PathSystem.currentPath
  split
  · exact owned.zero_lt
  · split
    · exact owned.refTop
    · exact owned.first.1

theorem findIn_exact (owned : objects.pathSystem.Owned) (ptr : Nat → Byte)
    (few : length < 2 ^ 8) (absolute : Bool) {table : List Scope}
    (ids : ∀ entry ∈ table, entry.path < objects.pathSystem.allocated)
    (systems : ∀ entry ∈ table, ∀ nameSystem ∈ entry.nameSystem, ∀ name,
      (objects.nameSystem.get nameSystem name).isSome) :
    ∃ found, objects.findIn (objects.basePath absolute) ptr length (fun i => ptr (length + i))
        table = some found ∧
      ∀ object, found = some object ↔ objects.HitIn ptr length absolute table object := by
  induction table with
  | nil => exact ⟨none, rfl, fun object => iff_of_false nofun fun ⟨_, first, _⟩ =>
      not_first_nil first⟩
  | cons first rest ih =>
    obtain ⟨answer, compared, accepts⟩ := owned.accepts_iff
      (ids first List.mem_cons_self) (basePath_lt owned) ptr few
    rw [findIn, compared, Option.bind_eq_bind, Option.bind_some]
    simp only [HitIn, exists_first_cons]
    by_cases takes : objects.Takes ptr length absolute first
    · rw [if_pos (accepts.mpr takes)]
      simp only [takes, true_and, not_true_eq_false, false_and, or_false]
      cases system : first.nameSystem with
      | none =>
        refine ⟨none, rfl, fun object => iff_of_false nofun ?_⟩
        rintro ⟨nameSystem, none, _⟩
        cases none
      | some nameSystem =>
        obtain ⟨found, got⟩ := Option.isSome_iff_exists.mp
          (systems first List.mem_cons_self nameSystem system fun i => ptr (length + i))
        refine ⟨found, got, fun object => ⟨?_, ?_⟩⟩
        · rintro rfl
          exact ⟨nameSystem, rfl, got⟩
        · rintro ⟨nameSystem', same, got'⟩
          cases same
          exact Option.some.inj (got.symm.trans got')
    · rw [if_neg fun accepted => takes (accepts.mp accepted)]
      simp only [takes, false_and, not_false_eq_true, true_and, false_or]
      exact ih (fun entry member => ids entry (List.mem_cons_of_mem _ member))
        (fun entry member => systems entry (List.mem_cons_of_mem _ member))

theorem findBehind_exact (owned : objects.pathSystem.Owned) (wellFormed : objects.WellFormed)
    (ptr : Nat → Byte) (few : length < 2 ^ 8) (absolute : Bool) :
    ∃ found, objects.findBehind ptr length absolute = some found ∧
      ∀ object, found = some object ↔ objects.Hit ptr length absolute object := by
  have search (table) (isTable : table ∈ objects.tables) :=
    findIn_exact owned ptr few absolute (wellFormed.ids table isTable)
      (wellFormed.systems table isTable)
  obtain ⟨inScopes, ranScopes, scopes⟩ := search _ List.mem_cons_self
  obtain ⟨inDevices, ranDevices, devices⟩ :=
    search _ (List.mem_cons_of_mem _ List.mem_cons_self)
  obtain ⟨inProcessors, ranProcessors, processors⟩ :=
    search _ (List.mem_cons_of_mem _ (List.mem_cons_of_mem _ List.mem_cons_self))
  rw [findBehind]
  simp only [ranScopes, ranDevices, ranProcessors, Option.bind_eq_bind, Option.bind_some]
  simp only [Hit, tables, exists_first_cons, not_first_nil, ← scopes, ← devices, ← processors]
  cases inScopes with
  | some object => exact ⟨_, rfl, by simp⟩
  | none =>
    cases inDevices with
    | some object => exact ⟨_, rfl, by simp⟩
    | none => exact ⟨_, rfl, by simpa using fun object found => ⟨object, found⟩⟩

theorem findsExactly_iff_leadsTo (owned : objects.pathSystem.Owned)
    (wellFormed : objects.WellFormed) (few : length < 2 ^ 8) {name : NameString}
    (behind : objects.getNameEntry name = objects.findBehind ptr length absolute) :
    objects.FindsExactly name ↔ objects.LeadsTo ptr length absolute name := by
  obtain ⟨found, ran, hits⟩ := findBehind_exact owned wellFormed ptr few absolute
  rw [← behind] at ran
  constructor
  · rintro ⟨found', ran', right, finds⟩
    cases ran.symm.trans ran'
    refine ⟨fun object hit => right object ((hits object).mpr hit), fun there => ?_⟩
    obtain ⟨object, isFound⟩ := Option.isSome_iff_exists.mp (finds there)
    exact ⟨object, (hits object).mp isFound⟩
  · rintro ⟨right, leads⟩
    refine ⟨found, ran, fun object isFound => right object ((hits object).mp isFound),
      fun there => ?_⟩
    obtain ⟨object, hit⟩ := leads there
    exact Option.isSome_of_eq_some ((hits object).mpr hit)

/-- A name in the current scope is found in the system on top of the stack, which is that of the
scope except in the root. -/
theorem findsExactly_single (wellFormed : objects.WellFormed) (name : Segment) :
    objects.FindsExactly (.single name false) ↔ objects.Leads (.single name false) := by
  obtain ⟨there, standalone⟩ := Option.isSome_iff_exists.mp (wellFormed.standalone name)
  cases top : objects.nameSystemStores.refTop with
  | none =>
    refine iff_of_false ?_ ?_
    · rintro ⟨found, ran, _⟩
      rw [getNameEntry, top] at ran
      cases ran
    · rintro ⟨nameSystem, isTop, _⟩
      cases top.symm.trans isTop
  | some nameSystem =>
    obtain ⟨found, got⟩ := Option.isSome_iff_exists.mp (wellFormed.current nameSystem top name)
    have ran : objects.getNameEntry (.single name false) = some found := by
      rw [getNameEntry, top]
      exact got
    by_cases root : objects.nameSystemStores.numOccupied = 0
    · have isAt (object : DataRefObject) : objects.IsAt object (.single name false) ↔
          there = some object := by
        simp [IsAt, currentSystem, root, standalone]
      have leads : objects.Leads (.single name false) ↔ found = there := by
        simp [Leads, top, root, got, standalone]
      rw [leads]
      simp only [FindsExactly, ran, isAt]
      constructor
      · rintro ⟨_, ⟨⟩, right, finds⟩
        cases there with
        | some object =>
          obtain ⟨object', isFound⟩ := Option.isSome_iff_exists.mp (finds ⟨object, rfl⟩)
          rw [isFound, right object' isFound]
        | none =>
          cases found with
          | some object => exact (right object rfl).symm
          | none => rfl
      · rintro rfl
        exact ⟨found, rfl, fun _ isFound => isFound, Option.isSome_iff_exists.mpr⟩
    · have isAt (object : DataRefObject) : objects.IsAt object (.single name false) ↔
          found = some object := by
        simp [IsAt, currentSystem, root, top, got]
      refine iff_of_true ⟨found, ran, fun object isFound => (isAt object).mpr isFound, ?_⟩
        ⟨nameSystem, top, fun empty => absurd empty root⟩
      rintro ⟨object, there⟩
      exact Option.isSome_of_eq_some ((isAt object).mp there)

theorem findsExactly_iff (owned : objects.pathSystem.Owned) (wellFormed : objects.WellFormed)
    {name : NameString} (few : name.segments < 2 ^ 8) :
    objects.FindsExactly name ↔ objects.Leads name := by
  cases name with
  | single name absolute =>
    cases absolute with
    | false => exact findsExactly_single wellFormed name
    | true =>
      obtain ⟨found, got⟩ := Option.isSome_iff_exists.mp (wellFormed.standalone name)
      have isAt (object : DataRefObject) : objects.IsAt object (.single name true) ↔
          found = some object := by
        simp [IsAt, currentSystem, got]
      refine iff_of_true ⟨found, got, fun object isFound => (isAt object).mpr isFound, ?_⟩ trivial
      rintro ⟨object, there⟩
      exact Option.isSome_of_eq_some ((isAt object).mp there)
  | dual ptr absolute => exact findsExactly_iff_leadsTo owned wellFormed (by decide) rfl
  | multiple ptr segments absolute =>
    by_cases enough : segments < 4
    · refine iff_of_false ?_ fun leads => Nat.not_le_of_lt enough leads.1
      rintro ⟨found, ran, _⟩
      rw [getNameEntry, if_pos enough] at ran
      cases ran
    · refine Iff.trans ?_ (and_iff_right (Nat.le_of_not_lt enough)).symm
      refine findsExactly_iff_leadsTo owned wellFormed (Nat.lt_of_le_of_lt (Nat.sub_le _ _) few) ?_
      exact if_neg enough

/-- `ABCD` in the scope of `ABCD`, and once more in the scope of both. -/
def echo : List PathRequest :=
  [.pushFrame, .insert (.single (segment 0x41 0x42 0x43 0x44) true), .pushAsInserted 4,
    .append (.single (segment 0x41 0x42 0x43 0x44) false), .pushFrame, .pushAsAppended 5,
    .append (.single (segment 0x41 0x42 0x43 0x44) false), .popFrame]

def echoes : PathLog := (Requests.serveAll PathLog.serve PathLog.Calls .new echo).getD .new

private theorem echoes_run : Requests.Run PathLog.serve PathLog.Calls .new echoes := by
  have served : (Requests.serveAll PathLog.serve PathLog.Calls .new echo).isSome = true := by
    decide +kernel
  obtain ⟨s, ran⟩ := Option.isSome_iff_exists.mp served
  have same : echoes = s := by rw [echoes, ran, Option.getD_some]
  exact same ▸ Requests.serveAll_run ran

/-- `ABCDNAM_`. -/
def abcdName (i : Nat) : Byte := [0x41, 0x42, 0x43, 0x44, 0x4E, 0x41, 0x4D, 0x5F].getD i 0

/-- `ABCD` is stored behind both paths. -/
theorem echoes_continues :
    echoes.system.Continues 5 4 (.multiple abcdName 1 false) := by
  have split : echoes.system.path 5 =
      echoes.system.path 4 ++ (NameString.multiple abcdName 1 false).path := by decide +kernel
  intro rest length split'
  rw [split, List.append_cancel_left_eq] at split'
  rw [← split']
  refine iff_of_true rfl ⟨⟨?_, ?_⟩, ?_, ?_⟩ <;> decide +kernel

/-- `NAM_` in the scope of the second `ABCD`. -/
def echoObjects : NamedObjects where
  pathSystem := echoes.system
  nameSystem := (AmlCode.oneMethod []).nameSystem
  scopes := ⟨fun _ => ⟨5, some 0⟩, 1, 256⟩
  devices := ⟨fun _ => ⟨0, none⟩, 0, 256⟩
  processors := ⟨fun _ => ⟨0, none⟩, 0, 256⟩
  standaloneNameSystem := 0
  nameSystemStores := .new none 8 256

theorem echo_answers (name : Segment) : (echoObjects.nameSystem.get 0 name).isSome := by
  have searched : ∃ found, echoObjects.nameSystem.findEntry 0 name 0 1 = some found := by
    by_cases same : echoObjects.nameSystem.names.compareExtern 0
        (NameString.single name false).ptr 4
    · exact ⟨_, if_pos same⟩
    · exact ⟨_, if_neg same⟩
  obtain ⟨found, ran⟩ := searched
  have got : echoObjects.nameSystem.getMut 0 name =
      echoObjects.nameSystem.findFragment name [1, 0, 0, 0] := rfl
  have bucket : echoObjects.nameSystem.referenceBuckets.asRef 1 = some ⟨0, 1⟩ := rfl
  rw [NameSystem.get, got, NameSystem.findFragment, if_neg (by decide), bucket]
  simp only [Option.bind_eq_bind, Option.bind_some, ran]
  cases found <;> rfl

private theorem echo_only {table : List Scope} (isTable : table ∈ echoObjects.tables)
    {entry : Scope} (member : entry ∈ table) : entry = ⟨5, some 0⟩ := by
  have tables : echoObjects.tables = [[⟨5, some 0⟩], [], []] := rfl
  rw [tables] at isTable
  simp only [List.mem_cons, List.not_mem_nil, or_false, or_self] at isTable
  rcases isTable with rfl | rfl
  · exact List.mem_singleton.mp member
  · cases member

private theorem echo_wellFormed : echoObjects.WellFormed where
  ids table isTable entry member := by
    rw [echo_only isTable member]
    decide +kernel
  systems table isTable entry member nameSystem isSystem := by
    rw [echo_only isTable member] at isSystem
    cases isSystem
    exact echo_answers
  standalone := echo_answers
  current nameSystem isTop := by cases isTop

/-- The object that is found is the one in the second `ABCD`. -/
theorem echo_leads : echoObjects.Leads (.dual abcdName false) := by
  have got : echoObjects.nameSystem.get 0 (fun i => abcdName (4 + i)) = some (some .one) := by
    decide +kernel
  have path : echoObjects.pathSystem.path 5 =
      echoObjects.baseScope false ++ (NameString.dual abcdName false).path.dropLast := by
    decide +kernel
  refine ⟨fun object hit => ?_, fun _ => ⟨.one, ?_⟩⟩
  · obtain ⟨table, ⟨before, after, split, _⟩, entry, ⟨front, back, whole, _⟩, nameSystem,
      isSystem, found⟩ := hit
    have isTable : table ∈ echoObjects.tables := split ▸ List.mem_append_cons_self
    have member : entry ∈ table := whole ▸ List.mem_append_cons_self
    obtain rfl := echo_only isTable member
    exact ⟨table, isTable, _, member, _, rfl, path, nameSystem, isSystem, found⟩
  · have takes : echoObjects.Takes abcdName 4 false ⟨5, some 0⟩ :=
      ⟨rfl, segmentsAt abcdName 0 1, rfl, by decide +kernel,
        ⟨by decide +kernel, by decide +kernel⟩, by decide +kernel, by decide +kernel⟩
    have hit : echoObjects.HitIn abcdName 4 false [⟨5, some 0⟩] .one :=
      ⟨⟨5, some 0⟩, ⟨[], [], rfl, takes, nofun⟩, 0, rfl, got⟩
    exact ⟨[⟨5, some 0⟩], ⟨[], [[], []], rfl, ⟨.one, hit⟩, nofun⟩, hit⟩

end NamedObjects

end EmkKernel
