import EmkKernel.Aml.Fields

/-!
# Runs of fields

`Field` terms in any order, between calls of the path system and changes of the pending
regions. What the terms for a name listed is what the system of its field holds.
-/

namespace EmkKernel

/-- What the terms listed for each name, if there was one: the elements, each with the flags
of its term. -/
abbrev FieldTable := List Segment × Segment → Option (List (FieldElement × Nat))

def FieldTable.list (t : FieldTable) (key : List Segment × Segment)
    (entries : List (FieldElement × Nat)) : FieldTable :=
  Function.update t key (some ((t key).getD [] ++ entries))

namespace FieldTables

/-- The tables of a new `AmlCode`, given the pages of the fields and the size of one. -/
def new (memory : FieldMemory) (fields : Nat → Field) (sizeOfField : Nat)
    (region : OperationRegion × Nat) (sizeOfRegion : Nat) : FieldTables where
  pathSystem := .new
  fieldSystem := .new memory
  fields := ⟨fields, 0, pageCapacity sizeOfField 256⟩
  pendingOperationRegions := .new region sizeOfRegion 256

variable {s s' : FieldTables} {t : FieldTable} {name : NameString} {flags n id : Nat}
  {buf : Segment} {elements : List FieldElement}

def key (s : FieldTables) (field : Field) : List Segment × Segment :=
  (s.pathSystem.path field.path, field.name)

def regionKey (s : FieldTables) (region : OperationRegion × Nat) : List Segment × Segment :=
  (s.pathSystem.path region.1.describerPath, region.1.describerName)

/-- There is room for a term with so many elements. -/
structure HasRoom (s : FieldTables) (n : Nat) : Prop where
  entries : s.fieldSystem.entries.allocated + n ≤ s.fieldSystem.entries.capacity
  systems : s.fieldSystem.systems.allocated < s.fieldSystem.systems.capacity
  buckets : s.fieldSystem.referenceBuckets.allocated < s.fieldSystem.referenceBuckets.capacity
  fields : s.fields.allocated < s.fields.capacity

/-- A term with so many elements does not panic: the field that has the name takes them, or there
is none and a region for a new one, which can count them. -/
def Lists (s : FieldTables) (t : FieldTable) (name : NameString) (n : Nat) : Prop :=
  (∃ field ∈ s.fields.values, s.key field = s.pathSystem.fieldKey name ∧
    s.fieldSystem.Takes field.fs n) ∨
  (t (s.pathSystem.fieldKey name) = none ∧ n < 2 ^ 8 ∧
    ∃ region ∈ s.pendingOperationRegions.values, s.regionKey region = s.pathSystem.fieldKey name)

/-- Each field has a system and a name of its own, and the system holds what was listed for the
name. -/
structure Kept (s : FieldTables) (t : FieldTable) : Prop where
  paths : s.pathSystem.Sound
  root : 1 < s.pathSystem.allocated
  system : s.fieldSystem.Sound
  regions : ∀ region ∈ s.pendingOperationRegions.values,
    region.1.describerPath < s.pathSystem.allocated
  numbered : s.fields.values.map Field.fs = List.range s.fieldSystem.systems.allocated
  ids : ∀ field ∈ s.fields.values, field.path < s.pathSystem.allocated
  distinct : (s.fields.values.map s.key).Nodup
  listed : ∀ field ∈ s.fields.values, t (s.key field) = some (s.fieldSystem.elements field.fs)
  absent : ∀ key, key ∉ s.fields.values.map s.key → t key = none

theorem Kept.made (kept : Kept s t) {field : Field} (member : field ∈ s.fields.values) :
    field.fs < s.fieldSystem.systems.allocated := by
  have number := List.mem_map_of_mem (f := Field.fs) member
  rw [kept.numbered] at number
  exact List.mem_range.mp number

theorem Kept.same_key (kept : Kept s t) {field field' : Field} (member : field ∈ s.fields.values)
    (member' : field' ∈ s.fields.values) : s.key field = s.key field' ↔ field.fs = field'.fs := by
  have numbers : (s.fields.values.map Field.fs).Nodup := by
    rw [kept.numbered]
    exact List.nodup_range
  constructor
  · intro same
    exact congrArg Field.fs (List.inj_on_of_nodup_map kept.distinct member member' same)
  · intro same
    exact congrArg s.key (List.inj_on_of_nodup_map numbers member member' same)

/-- The paths may grow. -/
theorem Kept.extend (kept : Kept s t) {pathSystem : PathSystem} (sound : pathSystem.Sound)
    (grown : s.pathSystem.Extends pathSystem) : Kept { s with pathSystem := pathSystem } t ∧
      (∀ field ∈ s.fields.values, key { s with pathSystem := pathSystem } field = s.key field) ∧
      ∀ region ∈ s.pendingOperationRegions.values,
        regionKey { s with pathSystem := pathSystem } region = s.regionKey region := by
  obtain ⟨more, same⟩ := grown
  have keys : ∀ field ∈ s.fields.values,
      key { s with pathSystem := pathSystem } field = s.key field := fun field member =>
    Prod.ext (same field.path (kept.ids field member)) rfl
  have all : s.fields.values.map (key { s with pathSystem := pathSystem }) =
      s.fields.values.map s.key := List.map_congr_left keys
  refine ⟨⟨sound, by simp only; exact Nat.lt_of_lt_of_le kept.root more, kept.system,
    fun region member => Nat.lt_of_lt_of_le (kept.regions region member) more, kept.numbered,
    fun field member => Nat.lt_of_lt_of_le (kept.ids field member) more, ?_, ?_, ?_⟩, keys,
    fun region member =>
      Prod.ext (same region.1.describerPath (kept.regions region member)) rfl⟩
  · simp only [all]
    exact kept.distinct
  · intro field member
    rw [keys field member]
    exact kept.listed field member
  · intro key absent
    simp only [all] at absent
    exact kept.absent key absent

/-- The search finds the field that has the name, and its system holds what was listed. -/
theorem Kept.originalField (kept : Kept s t) (isId : id < s.pathSystem.allocated)
    (name : Segment) :
    (∃ field ∈ s.fields.values, s.key field = (s.pathSystem.path id, name) ∧
      s.originalField id name = some (some field.fs)) ∨
    (t (s.pathSystem.path id, name) = none ∧ s.originalField id name = some none) := by
  have search := kept.paths.firstNamed isId name (fun entry : Field => (entry.path, entry.name))
    kept.ids
  rw [FieldTables.originalField, search]
  cases found : s.fields.values.find? fun entry =>
      (s.pathSystem.path entry.path, entry.name) = (s.pathSystem.path id, name) with
  | some field =>
    have passed := List.find?_some found
    exact Or.inl ⟨field, List.mem_of_find?_eq_some found, of_decide_eq_true passed, rfl⟩
  | none =>
    refine Or.inr ⟨kept.absent _ fun member => ?_, rfl⟩
    obtain ⟨field, isField, same⟩ := List.mem_map.mp member
    exact List.find?_eq_none.mp found field isField (decide_eq_true same)

theorem Kept.operationRegion (kept : Kept s t) (isId : id < s.pathSystem.allocated)
    (name : Segment) : ∃ found, s.operationRegion id name = some found ∧
      (found.isSome ↔ ∃ region ∈ s.pendingOperationRegions.values,
        s.regionKey region = (s.pathSystem.path id, name)) := by
  have search := kept.paths.firstNamed isId name
    (fun entry : OperationRegion × Nat => (entry.1.describerPath, entry.1.describerName))
    kept.regions
  refine ⟨_, by rw [FieldTables.operationRegion, search]; rfl, ?_⟩
  rw [Option.isSome_map, List.find?_isSome]
  simp only [decide_eq_true_eq, regionKey]

private theorem FieldTable.list_self (t : FieldTable) (key : List Segment × Segment)
    (entries : List (FieldElement × Nat)) : t.list key entries key =
      some ((t key).getD [] ++ entries) := Function.update_self ..

private theorem FieldTable.list_other (t : FieldTable) {key key' : List Segment × Segment}
    (entries : List (FieldElement × Nat)) (other : key' ≠ key) :
    t.list key entries key' = t key' := Function.update_of_ne other _ _

theorem Kept.listKnown (kept : Kept s t) {field : Field} (member : field ∈ s.fields.values)
    {fieldSystem : FieldSystem}
    (adds : (s.fieldSystem.setFlags flags).Adds field.fs elements fieldSystem) :
    Kept { s with fieldSystem := fieldSystem }
      (t.list (s.key field) (elements.map (·, flags))) := by
  refine ⟨kept.paths, kept.root, adds.sound, kept.regions, ?_, kept.ids, kept.distinct, ?_, ?_⟩
  · exact kept.numbered.trans (congrArg List.range adds.systems.1.symm)
  · intro field' member'
    have after : fieldSystem.elements field'.fs = s.fieldSystem.elements field'.fs ++
        if field'.fs = field.fs then elements.map (·, flags) else [] :=
      adds.elements field'.fs (kept.made member')
    change t.list _ _ (s.key field') = some (fieldSystem.elements field'.fs)
    rw [after]
    by_cases same : field'.fs = field.fs
    · rw [(kept.same_key member' member).mpr same, FieldTable.list_self,
        kept.listed field member, if_pos same, same]
      rfl
    · rw [FieldTable.list_other t _ fun equal => same ((kept.same_key member' member).mp equal),
        if_neg same, List.append_nil]
      exact kept.listed field' member'
  · intro key absent
    have other : key ≠ s.key field := by
      rintro rfl
      exact absent (List.mem_map_of_mem member)
    rw [FieldTable.list_other t _ other]
    exact kept.absent key absent

/-- A field that was not there gets a system of its own. -/
theorem Kept.listNew (kept : Kept s t) (isId : id < s.pathSystem.allocated)
    (new : t (s.pathSystem.path id, buf) = none) (room : s.fields.allocated < s.fields.capacity)
    {made fieldSystem : FieldSystem} (makes : s.fieldSystem.Makes flags made)
    (adds : made.Adds s.fieldSystem.systems.allocated elements fieldSystem)
    (operationRegion : OperationRegion) :
    Kept { s with
        fieldSystem := fieldSystem
        fields := (s.fields.pushBack
          ⟨s.fieldSystem.systems.allocated, id, buf, operationRegion⟩).2 }
      (t.list (s.pathSystem.path id, buf) (elements.map (·, flags))) := by
  have values := PageAllocator.values_pushBack
    (⟨s.fieldSystem.systems.allocated, id, buf, operationRegion⟩ : Field) room
  have others : ∀ field ∈ s.fields.values, s.key field ≠ (s.pathSystem.path id, buf) := by
    intro field member same
    have listed := kept.listed field member
    rw [same, new] at listed
    cases listed
  refine ⟨kept.paths, kept.root, adds.sound, kept.regions, ?_, ?_, ?_, ?_, ?_⟩
  · simp only [values, List.map_append, kept.numbered, List.map_cons, List.map_nil,
      adds.systems.1, makes.systems.1, List.range_succ]
  · intro field member
    simp only [values, List.mem_append, List.mem_singleton] at member
    obtain old | rfl := member
    · exact kept.ids field old
    · exact isId
  · simp only [values, List.map_append, List.map_cons, List.map_nil]
    refine kept.distinct.append (List.nodup_singleton _) fun key old last => ?_
    obtain ⟨field, member, rfl⟩ := List.mem_map.mp old
    exact others field member (List.mem_singleton.mp last)
  · intro field member
    simp only [values, List.mem_append, List.mem_singleton] at member
    obtain old | rfl := member
    · have below := kept.made old
      change t.list _ _ (s.key field) = some (fieldSystem.elements field.fs)
      rw [FieldTable.list_other t _ (others field old), kept.listed field old,
        adds.elements _ (by rw [makes.systems.1]; omega), makes.elements _ below,
        if_neg (Nat.ne_of_lt below), List.append_nil]
    · change t.list _ _ (s.pathSystem.path id, buf) =
        some (fieldSystem.elements s.fieldSystem.systems.allocated)
      rw [FieldTable.list_self, new, adds.elements _ (by rw [makes.systems.1]; omega),
        makes.empty, if_pos rfl, makes.flags]
      rfl
  · intro key absent
    simp only [values, List.map_append, List.map_cons, List.map_nil, List.mem_append,
      List.mem_singleton, not_or] at absent
    have other : key ≠ (s.pathSystem.path id, buf) := absent.2
    rw [FieldTable.list_other t _ other]
    exact kept.absent key absent.1

private theorem Kept.lists_known (kept : Kept s t) {field : Field}
    (member : field ∈ s.fields.values) (named : s.key field = s.pathSystem.fieldKey name) :
    s.Lists t name n ↔ s.fieldSystem.Takes field.fs n := by
  constructor
  · rintro (⟨field', member', named', takes⟩ | ⟨none, -⟩)
    · rwa [← (kept.same_key member' member).mp (named'.trans named.symm)]
    · rw [← named, kept.listed field member] at none
      cases none
  · exact fun takes => Or.inl ⟨field, member, named, takes⟩

private theorem Kept.lists_new (kept : Kept s t) (new : t (s.pathSystem.fieldKey name) = none) :
    s.Lists t name n ↔ n < 2 ^ 8 ∧ ∃ region ∈ s.pendingOperationRegions.values,
      s.regionKey region = s.pathSystem.fieldKey name := by
  constructor
  · rintro (⟨field, member, named, -⟩ | ⟨-, lists⟩)
    · have listed := kept.listed field member
      rw [named, new] at listed
      cases listed
    · exact lists
  · exact fun lists => Or.inr ⟨new, lists⟩

/-- A term lists its elements for its name, or the code panics. -/
theorem Kept.list_cases (kept : Kept s t) (divides : name.Divides)
    (room : s.HasRoom elements.length) (flags : Nat) :
    (((s.pathSystem.dividePath name).isSome ∧ s.Lists t name elements.length) ∧
      ∃ s', s.list name flags elements = some s' ∧
        Kept s' (t.list (s.pathSystem.fieldKey name) (elements.map (·, flags)))) ∨
    (¬((s.pathSystem.dividePath name).isSome ∧ s.Lists t name elements.length) ∧
      s.list name flags elements = none) := by
  rw [FieldTables.list]
  cases divided : s.pathSystem.dividePath name with
  | none => exact Or.inr ⟨fun lists => absurd lists.1 (by decide), rfl⟩
  | some result =>
    obtain ⟨id, buf, pathSystem⟩ := result
    obtain ⟨sound, grown, isId, same⟩ := kept.paths.dividePath kept.root divides divided
    obtain ⟨kept₁, keys, regionKeys⟩ := kept.extend sound grown
    simp only [Option.isSome_some, true_and, Option.bind_eq_bind, Option.bind_some]
    obtain ⟨field, member, named, found⟩ | ⟨new, missing⟩ := kept₁.originalField isId buf
    · have here := (keys field member).symm.trans (named.trans same)
      have rooms : (s.fieldSystem.setFlags flags).HasRoom field.fs elements.length :=
        ⟨room.entries, fun _ _ => room.buckets⟩
      rw [kept.lists_known member here, found, Option.bind_some]
      obtain ⟨takes, fieldSystem, added, adds⟩ | ⟨refused, none⟩ :=
        FieldSystem.addAll_cases (kept.system.setFlags flags) (kept.made member) rooms
      · have listed := kept₁.listKnown member adds
        rw [named, show (_, buf) = _ from same] at listed
        exact Or.inl ⟨takes, _, congrArg (Option.bind · _) added, listed⟩
      · exact Or.inr ⟨refused, congrArg (Option.bind · _) none⟩
    · rw [show (_, buf) = _ from same] at new
      obtain ⟨number, makes⟩ :=
        FieldSystem.newSystem_room kept.system room.systems room.buckets flags
      have rooms : (s.fieldSystem.newSystem flags).2.HasRoom s.fieldSystem.systems.allocated
          elements.length := by
        refine ⟨?_, fun stopped => absurd makes.continues stopped⟩
        rw [makes.entries]
        exact room.entries
      obtain ⟨region, searched, isRegion⟩ := kept₁.operationRegion isId buf
      have regions : region.isSome ↔ ∃ region ∈ s.pendingOperationRegions.values,
          s.regionKey region = s.pathSystem.fieldKey name := by
        rw [isRegion, ← same]
        refine exists_congr fun entry => and_congr_right fun member => ?_
        rw [regionKeys entry member]
      have below : s.fieldSystem.systems.allocated <
          (s.fieldSystem.newSystem flags).2.systems.allocated := by
        rw [makes.systems.1]
        exact Nat.lt_succ_self _
      rw [kept.lists_new new, ← regions, missing, Option.bind_some, number]
      obtain ⟨takes, fieldSystem, added, adds⟩ | ⟨refused, none⟩ :=
        FieldSystem.addAll_cases makes.sound below rooms
      · have pushes : pushField { s with pathSystem := pathSystem, fieldSystem := fieldSystem }
            s.fieldSystem.systems.allocated id buf = region.map fun operationRegion =>
              { s with
                pathSystem := pathSystem
                fieldSystem := fieldSystem
                fields := (s.fields.pushBack
                  ⟨s.fieldSystem.systems.allocated, id, buf, operationRegion⟩).2 } := by
          refine (congrArg (Option.bind · _) searched).trans ?_
          cases region <;> rfl
        cases region with
        | none =>
          exact Or.inr ⟨fun lists => absurd lists.2 (by decide),
            (congrArg (Option.bind · _) added).trans pushes⟩
        | some region =>
          have listed := kept₁.listNew isId (show t (_, buf) = none by rwa [same]) room.fields
            makes adds region
          rw [show (_, buf) = _ from same] at listed
          exact Or.inl ⟨⟨(makes.takes _).mp takes, rfl⟩, _,
            (congrArg (Option.bind · _) added).trans pushes, listed⟩
      · exact Or.inr ⟨fun lists => refused ((makes.takes _).mpr lists.1),
          congrArg (Option.bind · _) none⟩

/-! ### Runs -/

/-- A term at a reader, a call of the path system, or other pending regions. -/
inductive FieldRequest where
  | term (reader : CodeReader) (name : NameString) (term : FieldTerm)
  | paths (request : PathRequest)
  | regions (regions : Stack (OperationRegion × Nat))

/-- A request, and what a term listed. -/
def serve : FieldTables × FieldTable → FieldRequest → Option (FieldTables × FieldTable)
  | (s, t), .term reader name term => (s.field reader).map fun (s', _) =>
    (s', t.list (s.pathSystem.fieldKey name) (term.elements.map (·, term.flags.toNat)))
  | (s, t), .paths request => (PathLog.serve ⟨s.pathSystem, []⟩ request).map fun log =>
    ({ s with pathSystem := log.system }, t)
  | (s, t), .regions regions => some ({ s with pendingOperationRegions := regions }, t)

/-- A name with segments. -/
def Named : PathRequest → Prop
  | .append name | .insert name => name.segments ≠ 0
  | _ => True

/-- A term is encoded where the reader stands and there is room for it; paths are pushed and
regions described by ids. -/
def Meets : FieldTables × FieldTable → FieldRequest → Prop
  | (s, _), .term reader name term =>
    term.Encoded reader name ∧ name.Divides ∧ s.HasRoom term.items.length
  | (s, _), .paths request => PathLog.Calls ⟨s.pathSystem, []⟩ request ∧ Named request
  | (s, _), .regions regions => ∀ region ∈ regions.values,
    region.1.describerPath < s.pathSystem.allocated

/-- The field of every name has what the terms for it listed, and a term is read to its end; it
panics only if it does not list. -/
structure Listed (s : FieldTables) (t : FieldTable) : Prop where
  found : ∀ id < s.pathSystem.allocated, ∀ name, ∃ found, s.originalField id name = some found ∧
    found.map s.fieldSystem.elements = t (s.pathSystem.path id, name)
  returns : ∀ reader name term, FieldTerm.Encoded term reader name → name.Divides →
    s.HasRoom term.items.length → ((s.field reader).isSome ↔
      (s.pathSystem.dividePath name).isSome ∧ s.Lists t name term.items.length)
  ends : ∀ reader name term s' reader', FieldTerm.Encoded term reader name →
    s.field reader = some (s', reader') → reader' = reader.moved term.total

private theorem length_elements (term : FieldTerm) : term.elements.length = term.items.length :=
  List.length_map ..

private theorem new_kept (memory : FieldMemory) (fields : Nat → Field) (sizeOfField : Nat)
    (region : OperationRegion × Nat) (sizeOfRegion : Nat) :
    Kept (new memory fields sizeOfField region sizeOfRegion) fun _ => none := by
  refine ⟨PathSystem.new_sound, show 1 < 4 by decide, FieldSystem.new_sound memory, ?_, rfl, ?_,
    List.nodup_nil, ?_, fun _ _ => rfl⟩
  · exact fun region member => absurd member List.not_mem_nil
  · exact fun field member => absurd member List.not_mem_nil
  · exact fun field member => absurd member List.not_mem_nil

private theorem paths_extend {p : PathSystem} {log : PathLog} {request : PathRequest}
    (sound : p.Sound) (calls : PathLog.Calls ⟨p, []⟩ request) (named : Named request)
    (served : PathLog.serve ⟨p, []⟩ request = some log) :
    log.system.Sound ∧ p.Extends log.system := by
  cases request <;> obtain ⟨result, returned, rfl⟩ := Option.map_eq_some_iff.mp served
  case pushFrame => exact sound.pushFrame returned
  case popFrame => exact sound.popFrame returned
  case pushAsAppended path => exact sound.pushPath calls returned
  case pushAsInserted path => exact sound.pushPath calls returned
  case append name =>
    obtain ⟨sound', grown, -⟩ := sound.append named returned
    exact ⟨sound', grown⟩
  case insert name =>
    obtain ⟨sound', grown, -⟩ := sound.insert named returned
    exact ⟨sound', grown⟩

theorem Kept.serve {st st' : FieldTables × FieldTable} {request : FieldRequest}
    (kept : Kept st.1 st.2) (meets : Meets st request)
    (served : FieldTables.serve st request = some st') : Kept st'.1 st'.2 := by
  obtain ⟨s, t⟩ := st
  cases request with
  | term reader name term =>
    obtain ⟨encoded, divides, room⟩ := meets
    rw [← length_elements] at room
    rw [FieldTables.serve, s.field_encoded encoded] at served
    obtain ⟨-, s', listed, kept'⟩ | ⟨-, none⟩ := kept.list_cases divides room term.flags.toNat
    · rw [listed] at served
      cases served
      exact kept'
    · rw [none] at served
      cases served
  | paths request =>
    obtain ⟨log, returned, rfl⟩ := Option.map_eq_some_iff.mp served
    obtain ⟨sound, grown⟩ := paths_extend kept.paths meets.1 meets.2 returned
    exact (kept.extend sound grown).1
  | regions regions =>
    cases served
    exact ⟨kept.paths, kept.root, kept.system, meets, kept.numbered, kept.ids, kept.distinct,
      kept.listed, kept.absent⟩

/-- In every run from new tables the field of each name has what was listed for it. -/
theorem fields_listed {memory : FieldMemory} {fields : Nat → Field} {sizeOfField : Nat}
    {region : OperationRegion × Nat} {sizeOfRegion : Nat}
    (run : Requests.Run serve Meets
      (new memory fields sizeOfField region sizeOfRegion, fun _ => none) (s, t)) :
    s.Listed t := by
  have kept : Kept s t := run.keeps
    (I := fun st => Kept st.1 st.2) (new_kept memory fields sizeOfField region sizeOfRegion)
    fun _ _ _ kept meets served => kept.serve meets served
  refine ⟨?_, ?_, ?_⟩
  · intro id isId name
    obtain ⟨field, member, named, found⟩ | ⟨new, missing⟩ := kept.originalField isId name
    · exact ⟨_, found, by rw [← named, kept.listed field member]; rfl⟩
    · exact ⟨_, missing, by rw [new]; rfl⟩
  · intro reader name term encoded divides room
    rw [← length_elements] at room ⊢
    rw [s.field_encoded encoded, Option.isSome_map]
    obtain ⟨lists, s', listed, -⟩ | ⟨refused, none⟩ :=
      kept.list_cases divides room term.flags.toNat
    · rw [listed]
      exact iff_of_true rfl lists
    · rw [none]
      exact iff_of_false (by decide) refused
  · intro reader name term s' reader' encoded ran
    rw [s.field_encoded encoded] at ran
    obtain ⟨_, -, result⟩ := Option.map_eq_some_iff.mp ran
    exact (Prod.mk.inj result).2.symm

/-! ### Two terms for one region -/

def zeroFields : FieldMemory where
  systems _ := [0, 0]
  referenceBuckets _ := ⟨0, 0⟩
  entries _ := (.default, 0)
  sizeOfEntry := 16
  positive := by decide

/-- `REG0` at the root. -/
def rootRegion : OperationRegion :=
  ⟨1, 1, segment 0x52 0x45 0x47 0x30, .byte 4, .zero, 0⟩

def regionName : NameString := .single (segment 0x52 0x45 0x47 0x30) false

/-- An element of each kind. -/
def firstTerm : FieldTerm :=
  ⟨0, 4, 0x01, [.named (segment 0x46 0x4C 0x44 0x30) 0 8, .reserved 0 4, .access 5 0]⟩

def secondTerm : FieldTerm := ⟨0, 4, 0x11, [.named (segment 0x46 0x4C 0x44 0x31) 1 16]⟩

/-- Both terms one after another. -/
def twoTerms : List Byte :=
  pkgLength 0 firstTerm.total ++ [0x52, 0x45, 0x47, 0x30] ++ firstTerm.body ++
    (pkgLength 0 secondTerm.total ++ [0x52, 0x45, 0x47, 0x30] ++ secondTerm.body)

def atFirst : CodeReader := ⟨fun i => twoTerms.getD i 0, 0, 28⟩

def atSecond : CodeReader := atFirst.moved firstTerm.total

private theorem firstTerm_encoded : firstTerm.Encoded atFirst regionName := by
  exact ⟨by decide, by decide, ⟨by decide, by decide⟩, rfl, ⟨by decide, by decide⟩⟩

private theorem secondTerm_encoded : secondTerm.Encoded atSecond regionName := by
  exact ⟨by decide, by decide, ⟨by decide, by decide⟩, rfl, ⟨by decide, by decide⟩⟩

def zeroTables : FieldTables :=
  new zeroFields (fun _ => ⟨0, 0, segment 0 0 0 0, rootRegion⟩) 64 (rootRegion, 0) 64

def oneRegion : Stack (OperationRegion × Nat) := ⟨fun _ => (rootRegion, 0), 64, 1⟩

def withRegion : FieldTables := { zeroTables with pendingOperationRegions := oneRegion }

def afterFirst : FieldTables :=
  (withRegion.list regionName 0x01 firstTerm.elements).getD withRegion

def afterSecond : FieldTables :=
  (afterFirst.list regionName 0x11 secondTerm.elements).getD afterFirst

private theorem lists_first :
    withRegion.list regionName 0x01 firstTerm.elements = some afterFirst := by
  have listed : (withRegion.list regionName 0x01 firstTerm.elements).isSome = true := by
    decide +kernel
  obtain ⟨s, same⟩ := Option.isSome_iff_exists.mp listed
  rw [afterFirst, same, Option.getD_some]

private theorem lists_second :
    afterFirst.list regionName 0x11 secondTerm.elements = some afterSecond := by
  have listed : (afterFirst.list regionName 0x11 secondTerm.elements).isSome = true := by
    decide +kernel
  obtain ⟨s, same⟩ := Option.isSome_iff_exists.mp listed
  rw [afterSecond, same, Option.getD_some]

theorem fields_listed_two : ∃ (s : FieldTables) (t : FieldTable), s.Listed t ∧
    t ([segment 0x5C 0 0 0], segment 0x52 0x45 0x47 0x30) = some
      [(.namedField (segment 0x46 0x4C 0x44 0x30) 8, 0x01), (.reservedField 4, 0x01),
        (.accessField 5 0, 0x01), (.namedField (segment 0x46 0x4C 0x44 0x31) 16, 0x11)] := by
  have key : withRegion.pathSystem.fieldKey regionName =
      ([segment 0x5C 0 0 0], segment 0x52 0x45 0x47 0x30) := by decide +kernel
  have key' : afterFirst.pathSystem.fieldKey regionName =
      ([segment 0x5C 0 0 0], segment 0x52 0x45 0x47 0x30) := by decide +kernel
  let none : FieldTable := fun _ => .none
  let first := none.list (withRegion.pathSystem.fieldKey regionName)
    (firstTerm.elements.map (·, 0x01))
  let second := first.list (afterFirst.pathSystem.fieldKey regionName)
    (secondTerm.elements.map (·, 0x11))
  have region : Requests.Step serve Meets (zeroTables, none) (withRegion, none) := by
    refine ⟨.regions oneRegion, fun region member => ?_, rfl⟩
    obtain rfl := List.mem_singleton.mp member
    exact show 1 < 4 by decide
  have listed : Requests.Step serve Meets (withRegion, none) (afterFirst, first) := by
    refine ⟨.term atFirst regionName firstTerm, ⟨firstTerm_encoded, trivial, ?_⟩, ?_⟩
    · exact ⟨by decide +kernel, by decide +kernel, by decide +kernel, by decide +kernel⟩
    · rw [serve, withRegion.field_encoded firstTerm_encoded]
      exact congrArg (fun result => (Option.map _ result).map _) lists_first
  have listed' : Requests.Step serve Meets (afterFirst, first) (afterSecond, second) := by
    refine ⟨.term atSecond regionName secondTerm, ⟨secondTerm_encoded, trivial, ?_⟩, ?_⟩
    · exact ⟨by decide +kernel, by decide +kernel, by decide +kernel, by decide +kernel⟩
    · rw [serve, afterFirst.field_encoded secondTerm_encoded]
      exact congrArg (fun result => (Option.map _ result).map _) lists_second
  refine ⟨afterSecond, second, fields_listed (.tail (.tail (.single region) listed) listed'), ?_⟩
  simp only [second, first, key, key', FieldTable.list_self]
  rfl

end FieldTables

end EmkKernel
