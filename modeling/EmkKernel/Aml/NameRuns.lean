import EmkKernel.Aml.NameTables

/-!
# Runs of a name system

Namespaces are made, names added and looked up in any order. The maps stay right until an
array is full whose `push_back` nobody looks at, or a fragment has 255 entries.
-/

namespace EmkKernel

inductive NameRequest where
  | newSystem
  | add (ns : Nat) (name : NameString) (value : DataRefObject)
  | get (ns : Nat) (name : Segment)

namespace NameSystem

variable {s s' : NameSystem} {t t' : NameTable} {ns : Nat} {name : Segment} {memory : NameMemory}

/-- A request, and what was added by it. -/
def serve : NameSystem × NameTable → NameRequest → Option (NameSystem × NameTable)
  | (s, t), .newSystem => some (s.newSystem.2, { t with systems := t.systems + 1 })
  | (s, t), .add ns (.single name absolute) value =>
    match s.add ns (.single name absolute) value with
    | .ok s' => some (s', t.add ns name value)
    | .error _ => none
  | _, .add _ _ _ => none
  | st, .get _ _ => some st

/-- There is a place for one more system and its bucket. -/
def HasSystemRoom (s : NameSystem) : Prop :=
  s.systems.allocated < s.systems.capacity ∧
    s.referenceBuckets.allocated < s.referenceBuckets.capacity

/-- The requests for which there is room, or for which a panic says that there is none. -/
def Meets : NameSystem × NameTable → NameRequest → Prop
  | (s, _), .newSystem => s.HasSystemRoom
  | (s, _), .add ns name _ => s.Reported ns name ∨ s.HasRoom ns
  | (s, _), .get ns _ => ns = s.systems.allocated → ns < s.systems.capacity

/-- Every namespace is a map from names to the first values added, and nothing was written
behind the arrays. -/
structure IsMap (memory : NameMemory) (s : NameSystem) (t : NameTable) : Prop where
  get : ∀ ns name, (ns = s.systems.allocated → ns < s.systems.capacity) →
    s.get ns name = some (t.first ns name)
  newSystem : s.HasSystemRoom → s.newSystem.1 = t.systems
  add : ∀ ns name value, s.Reported ns name ∨ s.HasRoom ns →
    (∃ s', s.add ns name value = .ok s') ∨ ∃ e, s.add ns name value = .error e ∧ e.IsReport
  outside : KeepsOutside (NameSystem.new memory) s

theorem new_sound (memory : NameMemory) : (NameSystem.new memory).Sound := by
  refine ⟨⟨rfl, rfl, rfl, rfl, rfl⟩, ?_, ?_, ?_, ?_, ?_⟩
  · exact ⟨Nat.zero_le _, show 1 ≤ 1024 by decide, Nat.zero_le _, rfl⟩
  · exact ⟨show 24 % 4 = 0 by decide, show 24 ≤ 0x1000 by decide⟩
  · intro j below
    exact absurd below (Nat.not_lt_zero j)
  · refine ⟨Nat.one_pos, ?_, ?_, ?_, ?_, ?_, ?_⟩ <;>
    exact fun ns made => absurd made (Nat.not_lt_zero ns)
  · exact fun ns _ below => memory.zeroed ns below

private theorem new_holds (memory : NameMemory) : (NameSystem.new memory).Holds .empty :=
  ⟨rfl, fun ns made => absurd made (Nat.not_lt_zero ns), fun _ _ => rfl⟩

/-- What `new_system` does when there is room. -/
theorem newSystem_room (sound : s.Sound) (room : s.HasSystemRoom) :
    s.newSystem.1 = s.systems.allocated ∧ s.newSystem.2.Sound ∧
      (∀ t, s.Holds t → s.newSystem.2.Holds { t with systems := t.systems + 1 }) ∧
      KeepsOutside s s.newSystem.2 := by
  have capacities := sound.capacities
  have few := sound.room
  obtain ⟨systems, buckets⟩ := room
  have number : s.newSystem.1 = s.systems.allocated := Nat.mod_eq_of_lt (by
    rw [PageAllocator.size]
    omega)
  let s' : NameSystem := { s with
    systems := s.systems.pushed [s.referenceBuckets.allocated, 0, 0, 0]
    referenceBuckets := s.referenceBuckets.pushed ⟨s.entries.allocated, 0⟩ }
  have made : s.newSystem.2 = s' := by
    simp only [newSystem, PageAllocator.size]
    rw [PageAllocator.pushBack_eq (by omega), PageAllocator.pushBack_eq (by omega),
      Nat.mod_eq_of_lt (by omega), Nat.mod_eq_of_lt (by omega)]
  obtain ⟨fragments, -, owned⟩ := sound.fragments.opens
  rw [made]
  refine ⟨number, ?_, ?_, ?_⟩
  · refine ⟨capacities, ?_, sound.names, sound.entry, fragments, ?_⟩
    · exact ⟨Nat.succ_le_of_lt (by omega), Nat.succ_le_of_lt (by omega), few.2.2⟩
    · intro ns unmade below
      have other : ns ≠ s.systems.allocated := (Nat.lt_of_succ_le unmade).ne'
      exact (Function.update_of_ne other _ _).trans
        (sound.fresh ns (Nat.le_of_succ_le unmade) below)
  · intro t holds
    refine ⟨congrArg (· + 1) holds.systems, ?_, fun ns above => ?_⟩
    · intro ns below
      have entries : s'.owned ns = if ns = s.systems.allocated then [] else s.owned ns :=
        owned ns (Nat.le_of_lt_succ below)
      rw [entries]
      split
      next new =>
        rw [new]
        exact (holds.none _ (Nat.le_refl _)).symm
      next old =>
        exact holds.added ns (Nat.lt_of_le_of_ne (Nat.le_of_lt_succ below) old)
    · exact holds.none ns (Nat.le_of_succ_le above)
  · exact ⟨fun _ _ => rfl, fun i above => Function.update_of_ne (by omega) _ _,
      fun i above => Function.update_of_ne (by omega) _ _, fun _ _ => rfl, fun _ _ => rfl⟩

theorem Adds.holds {value : DataRefObject} (adds : s.Adds ns name value s') (sound : s.Sound)
    (made : ns < s.systems.allocated) (holds : s.Holds t) : s'.Holds (t.add ns name value) := by
  refine ⟨adds.systems.trans holds.systems, ?_, ?_⟩
  · intro ns' below
    rw [adds.systems] at below
    have olds : (s.owned ns').map s'.content = (s.owned ns').map s.content :=
      List.map_congr_left fun j member => adds.old j (sound.fragments.owned_lt below member)
    rw [adds.owned ns' below, List.map_append, olds, holds.added ns' below, NameTable.add]
    by_cases same : ns' = ns
    · subst same
      simp only [if_true, List.map_cons, List.map_nil, adds.new, Function.update_self]
    · simp only [if_neg same, List.map_nil, List.append_nil, Function.update_of_ne same]
  · intro ns' above
    rw [adds.systems] at above
    rw [NameTable.add]
    simp only
    rw [Function.update_of_ne (by omega)]
    exact holds.none ns' above

/-- An addition for which there is room is made, or a panic reports it. -/
theorem add_cases (sound : s.Sound) (name : NameString) (value : DataRefObject)
    (meets : s.Reported ns name ∨ s.HasRoom ns) :
    (∃ name' absolute s', name = .single name' absolute ∧ ns < s.systems.allocated ∧
      s.add ns name value = .ok s' ∧ s.Adds ns name' value s') ∨
    ∃ e, s.add ns name value = .error e ∧ e.IsReport := by
  by_cases reported : s.Reported ns name
  · exact Or.inr (add_report sound reported)
  · have room := meets.resolve_left reported
    cases name with
    | single name' absolute =>
      have named : s.Known name' ∨ s.names.length + 4 ≤ s.names.capacity := by
        by_cases known : s.Known name'
        · exact Or.inl known
        · refine Or.inr (Nat.le_of_not_lt fun less => reported ?_)
          exact Or.inr (Or.inl ⟨known, less⟩)
      have free : s.Continues ns ∨ (s.fragments ns).length < 4 := by
        by_cases continues : s.Continues ns
        · exact Or.inl continues
        · obtain ⟨k, -, four⟩ := sound.fragments.shape ns room.made
          have few : (s.fragments ns).length ≤ 4 := by
            unfold fragments
            omega
          refine Or.inr (Nat.lt_of_le_of_ne few fun full => reported ?_)
          exact Or.inr (Or.inr ⟨room.made, continues, full⟩)
      obtain ⟨s', added, adds⟩ := add_room sound room absolute value named free
      exact Or.inl ⟨name', absolute, s', rfl, room.made, added, adds⟩
    | dual ptr absolute => exact absurd trivial reported
    | multiple ptr segments absolute => exact absurd trivial reported

/-- The invariant of a run. -/
structure Kept (memory : NameMemory) (st : NameSystem × NameTable) : Prop where
  sound : st.1.Sound
  holds : st.1.Holds st.2
  outside : KeepsOutside (NameSystem.new memory) st.1

theorem Kept.serve {st st' : NameSystem × NameTable} {request : NameRequest}
    (kept : Kept memory st) (meets : Meets st request)
    (served : NameSystem.serve st request = some st') : Kept memory st' := by
  obtain ⟨s, t⟩ := st
  obtain ⟨sound, holds, outside⟩ := kept
  cases request with
  | newSystem =>
    cases served
    obtain ⟨-, sound', holds', outside'⟩ := newSystem_room sound meets
    exact ⟨sound', holds' t holds, outside.trans outside'⟩
  | add ns name value =>
    rcases add_cases sound name value meets with
      ⟨name', absolute, s', rfl, made, added, adds⟩ | ⟨e, refused, -⟩
    · simp only [NameSystem.serve, added] at served
      cases served
      exact ⟨adds.sound, adds.holds sound made holds, outside.trans adds.outside⟩
    · cases name <;> simp [NameSystem.serve, refused] at served
  | get ns name =>
    cases served
    exact ⟨sound, holds, outside⟩

/-- In a run of requests for which there is room the namespaces are maps. -/
theorem names_are_maps
    (run : Requests.Run serve Meets (NameSystem.new memory, NameTable.empty) (s, t)) :
    IsMap memory s t := by
  have kept : Kept memory (s, t) := run.keeps
    ⟨new_sound memory, new_holds memory, fun _ _ => rfl, fun _ _ => rfl, fun _ _ => rfl,
      fun _ _ => rfl, fun _ _ => rfl⟩
    fun _ _ _ kept meets served => kept.serve meets served
  obtain ⟨sound, holds, outside⟩ := kept
  refine ⟨?_, ?_, ?_, outside⟩
  · exact fun ns name inside => holds.get sound inside
  · intro room
    rw [(newSystem_room sound room).1]
    exact holds.systems
  · intro ns name value meets
    rcases add_cases sound name value meets with ⟨-, -, s', -, -, added, -⟩ | report
    · exact Or.inl ⟨s', added⟩
    · exact Or.inr report

/-! ## Runs on zeroed memory -/

def zeroMemory : NameMemory where
  names _ := 0
  systems _ := [0, 0, 0, 0]
  referenceBuckets _ := ⟨0, 0⟩
  entries _ := ⟨0, 0⟩
  memory _ := .zero
  zeroed _ _ := rfl

def hid : Segment := segment 0x5F 0x48 0x49 0x44

/-- Two namespaces grow in turn, and the first has a name twice. -/
def alternating : List NameRequest :=
  [.newSystem, .newSystem, .add 0 (.single hid false) .one, .add 1 (.single hid false) .ones,
    .add 0 (.single hid false) (.byte 7)]

instance (s : NameSystem) (ns : Nat) : Decidable (s.Continues ns) :=
  decidable_of_iff (∃ b ∈ (s.fragments ns).getLast?,
    (s.referenceBuckets.slots b).behind = s.entries.allocated) Iff.rfl

instance (s : NameSystem) (ns : Nat) : Decidable (s.HasRoom ns) :=
  decidable_of_iff
    (ns < s.systems.allocated ∧ s.entries.allocated < s.entries.capacity ∧
      (∀ b ∈ (s.fragments ns).getLast?,
        (s.referenceBuckets.slots b).behind = s.entries.allocated →
          (s.referenceBuckets.slots b).count + 1 < 2 ^ 8) ∧
      (¬s.Continues ns → s.referenceBuckets.allocated < s.referenceBuckets.capacity))
    ⟨fun ⟨a, b, c, d⟩ => ⟨a, b, c, d⟩, fun ⟨a, b, c, d⟩ => ⟨a, b, c, d⟩⟩

/-- The requests for which there is room. -/
def RoomFor (st : NameSystem × NameTable) : NameRequest → Prop
  | .newSystem => st.1.HasSystemRoom
  | .add ns _ _ => st.1.HasRoom ns
  | .get ns _ => ns < st.1.systems.allocated

instance (st : NameSystem × NameTable) (request : NameRequest) : Decidable (RoomFor st request) :=
  match request with
  | .newSystem => inferInstanceAs (Decidable (_ ∧ _))
  | .add ns _ _ => inferInstanceAs (Decidable (st.1.HasRoom ns))
  | .get _ _ => inferInstanceAs (Decidable (_ < _))

theorem RoomFor.meets {st : NameSystem × NameTable} : ∀ {request : NameRequest},
    RoomFor st request → Meets st request
  | .newSystem, room => room
  | .add _ _ _, room => Or.inr room
  | .get _ _, made => fun next => absurd made (next ▸ Nat.lt_irrefl _)

theorem names_are_maps_alternating : ∃ s t, IsMap zeroMemory s t ∧ t.systems = 2 ∧
    s.get 0 hid = some (some .one) ∧ s.get 1 hid = some (some .ones) := by
  have ran : ((Requests.serveAll serve RoomFor (NameSystem.new zeroMemory, .empty)
      alternating).any fun st => decide (st.2.systems = 2 ∧
        st.1.get 0 hid = some (some .one) ∧ st.1.get 1 hid = some (some .ones))) = true := by
    decide +kernel
  obtain ⟨⟨s, t⟩, served, made, first, second⟩ := by
    simpa only [Option.any_eq_true, decide_eq_true_eq] using ran
  have run : Requests.Run serve Meets (NameSystem.new zeroMemory, .empty) (s, t) :=
    Relation.ReflTransGen.mono (fun _ _ taken => by
      obtain ⟨request, room, step⟩ := taken
      exact ⟨request, room.meets, step⟩) _ _ (Requests.serveAll_run served)
  exact ⟨s, t, names_are_maps run, made, first, second⟩

/-- The 1024th system gets the number of a bucket that does not exist; adding a name to it
writes behind the array. -/
theorem bucket_written_outside : ∃ s t,
    Requests.Run serve (fun _ _ => True) (NameSystem.new zeroMemory, .empty) (s, t) ∧
      ¬IsMap zeroMemory s t := by
  have ran : ((Requests.serveAll serve (fun _ _ => True) (NameSystem.new zeroMemory, .empty)
      (List.replicate 1024 .newSystem ++ [.add 1023 (.single hid false) .one])).any fun st =>
        decide ((st.1.referenceBuckets.slots 1024).count = 1)) = true := by
    set_option maxRecDepth 100000 in decide +kernel
  obtain ⟨⟨s, t⟩, served, written⟩ := (Option.any_eq_true _ _).1 ran
  refine ⟨s, t, Requests.serveAll_run served, fun isMap => ?_⟩
  have kept := isMap.outside.referenceBuckets 1024 (Nat.le_refl _)
  have count := of_decide_eq_true written
  rw [kept] at count
  exact absurd count (by decide)

end NameSystem

end EmkKernel
