import EmkKernel.Aml.Interning
import EmkKernel.Aml.NameFragments
import EmkKernel.Library.Requests

/-!
# A map for each namespace

What `get` finds in a namespace is the first value that was added there under the name, as
long as the arrays have room and no fragment has more entries than its counter can count.
-/

namespace EmkKernel

/-- What was added to each namespace, in order. -/
structure NameTable where
  systems : Nat
  added : Nat → List (Segment × DataRefObject)

namespace NameTable

def empty : NameTable := ⟨0, fun _ => []⟩

/-- The first value that was added for a name. -/
def first (t : NameTable) (ns : Nat) (name : Segment) : Option DataRefObject :=
  ((t.added ns).find? fun entry => entry.1 = name).map Prod.snd

def add (t : NameTable) (ns : Nat) (name : Segment) (value : DataRefObject) : NameTable :=
  { t with added := Function.update t.added ns (t.added ns ++ [(name, value)]) }

end NameTable

namespace NameSystem

variable {s s' : NameSystem} {t : NameTable} {ns n : Nat} {name : Segment}

/-- The name with a number. -/
def nameAt (s : NameSystem) (n : Nat) : Segment := fun i => s.names.bytes (n * 4 + i)

def content (s : NameSystem) (j : Nat) : Segment × DataRefObject :=
  (s.nameAt (s.entries.slots j).name, s.object (s.entries.slots j).offset)

def fragments (s : NameSystem) (ns : Nat) : List Nat := usedFragments (s.systems.slots ns)

def owned (s : NameSystem) (ns : Nat) : List Nat := ownedEntries s.systems s.referenceBuckets ns

/-- The arrays are as `new` makes them, every entry has a name and an object, and the
fragments are in order. -/
structure Sound (s : NameSystem) : Prop where
  capacities : s.systems.capacity = 1024 ∧ s.referenceBuckets.capacity = 1024 ∧
    s.entries.capacity = 1024 ∧ s.memory.capacity = 0x1000 ∧ s.names.capacity = 0x1000
  room : s.systems.allocated ≤ 1024 ∧ s.referenceBuckets.allocated ≤ 1024 ∧
    s.entries.allocated ≤ 1024 ∧ s.memory.allocated = s.entries.allocated
  names : s.names.length % 4 = 0 ∧ s.names.length ≤ 0x1000
  entry : ∀ j < s.entries.allocated, (s.entries.slots j).name * 4 + 4 ≤ s.names.length ∧
    (s.entries.slots j).offset < s.entries.allocated
  fragments : Fragments s.systems s.referenceBuckets s.entries.allocated
  fresh : ∀ ns, s.systems.allocated ≤ ns → ns < 1024 → s.systems.slots ns = [0, 0, 0, 0]

/-- The system holds what was added. -/
structure Holds (s : NameSystem) (t : NameTable) : Prop where
  systems : s.systems.allocated = t.systems
  added : ∀ ns < s.systems.allocated, (s.owned ns).map s.content = t.added ns
  none : ∀ ns, s.systems.allocated ≤ ns → t.added ns = []

/-! ## Finding -/

private theorem toU16_some (small : n < 2 ^ 16) : toU16 n = some n := if_pos small

private theorem compareName (inside : n * 4 + 4 ≤ s.names.length) {absolute : Bool} :
    s.names.compareExtern (n * 4) (NameString.single name absolute).ptr 4 =
      decide (s.nameAt n = name) := by
  rw [Bool.eq_iff_iff, KernelString.compareExtern_iff inside, decide_eq_true_eq]
  constructor
  · intro same
    funext i
    have byte := same i i.isLt
    rw [nameAt, byte, NameString.ptr]
    exact congrArg name (Fin.ext (Nat.mod_eq_of_lt i.isLt))
  · rintro rfl i below
    simp only [NameString.ptr, nameAt, Nat.mod_eq_of_lt below]

private theorem findEntry_eq (sound : s.Sound) (name : Segment) (start : Nat) :
    ∀ (n e : Nat), start + e + n ≤ s.entries.allocated → s.findEntry start name e n =
      some (((List.range' (start + e) n).find? fun j => (s.content j).1 = name).map
        s.entries.slots)
  | 0, e, _ => rfl
  | n + 1, e, inside => by
    have few := sound.room.2.2.1
    have names := sound.names.2
    obtain ⟨named, -⟩ := sound.entry (start + e) (by omega)
    have rest := findEntry_eq sound name start n (e + 1) (by omega)
    have slot : s.entries.asRef (start + e) = some (s.entries.slots (start + e)) :=
      if_neg (by omega)
    rw [findEntry, toU16_some (by omega)]
    simp only [Option.bind_eq_bind, Option.bind_some, slot]
    rw [toU16_some (by omega)]
    simp only [Option.bind_some, compareName named]
    rw [List.range'_succ]
    by_cases same : s.nameAt (s.entries.slots (start + e)).name = name
    · rw [if_pos (decide_eq_true same), List.find?_cons_of_pos (by exact decide_eq_true same)]
      rfl
    · rw [if_neg fun equal => same (of_decide_eq_true equal), rest,
        List.find?_cons_of_neg (by exact fun equal => same (of_decide_eq_true equal))]
      rfl

/-- The fragments are looked through in order, up to the first that is not in use. -/
theorem findFragment_eq (sound : s.Sound) (name : Segment) (k : Nat) : ∀ l : List Nat,
    (∀ b ∈ l, b ≠ 0 ∧ b < s.referenceBuckets.allocated ∧
      (s.referenceBuckets.slots b).behind ≤ s.entries.allocated) →
    s.findFragment name (l ++ List.replicate k 0) =
      some (((l.flatMap fun b => (s.referenceBuckets.slots b).range).find?
        fun j => (s.content j).1 = name).map fun j => (s.entries.slots j).offset)
  | [], _ => by
    cases k with
    | zero => rfl
    | succ k => rfl
  | b :: rest, used => by
    obtain ⟨nonzero, below, behind⟩ := used b List.mem_cons_self
    have later := findFragment_eq sound name k rest fun b' member =>
      used b' (List.mem_cons_of_mem _ member)
    have slot : s.referenceBuckets.asRef b = some (s.referenceBuckets.slots b) :=
      if_neg (by omega)
    have run := findEntry_eq sound name (s.referenceBuckets.slots b).start
      (s.referenceBuckets.slots b).count 0 behind
    rw [List.cons_append, findFragment, if_neg nonzero, List.flatMap_cons, List.find?_append]
    simp only [slot, Option.bind_eq_bind, Option.bind_some, run, Nat.add_zero]
    cases found : (s.referenceBuckets.slots b).range.find? fun j => (s.content j).1 = name with
    | none =>
      rw [ReferenceBucket.range] at found
      rw [found]
      exact later
    | some j =>
      have member := List.mem_of_find?_eq_some found
      have within := (List.mem_range'_1.1 member).2
      unfold ReferenceBucket.behind at behind
      obtain ⟨-, object⟩ := sound.entry j (by omega)
      have stored := sound.room.2.2.2
      rw [ReferenceBucket.range] at found
      rw [found]
      simp only [Option.map_some, Option.some_or]
      rw [if_neg (by omega)]

/-- `get` in a namespace. -/
theorem get_eq (sound : s.Sound) (made : ns < s.systems.allocated) :
    s.get ns name =
      some ((((s.owned ns).map s.content).find? fun entry => entry.1 = name).map Prod.snd) := by
  have few := sound.room.1
  have slot : s.systems.asRef ns = some (s.systems.slots ns) := if_neg (by omega)
  obtain ⟨k, shape, -⟩ := sound.fragments.shape ns made
  have found := findFragment_eq sound name k (s.fragments ns) fun b member =>
    ⟨usedFragments_ne_zero member, (sound.fragments.inside ns made b member).1,
      (sound.fragments.inside ns made b member).2.1⟩
  rw [fragments, ← shape] at found
  rw [get, getMut, if_neg (by rw [PageAllocator.size, Nat.mod_eq_of_lt (by omega)]; omega)]
  simp only [slot, Option.bind_eq_bind, Option.bind_some, found]
  rw [List.find?_map, owned, ownedEntries]
  simp only [Option.map_some, Option.map_map]
  rfl

/-- `get` in a namespace that does not exist. -/
theorem get_none (sound : s.Sound) (unmade : s.systems.allocated ≤ ns)
    (inside : ns = s.systems.allocated → ns < s.systems.capacity) : s.get ns name = some none := by
  have few := sound.room.1
  rw [get, getMut, PageAllocator.size, Nat.mod_eq_of_lt (by omega)]
  by_cases next : ns = s.systems.allocated
  · have capacity := sound.capacities.1
    have slot : s.systems.asRef ns = some [0, 0, 0, 0] := by
      rw [PageAllocator.asRef, if_neg (by omega),
        sound.fresh ns unmade (by have := inside next; omega)]
    rw [if_neg (by omega)]
    simp only [slot, Option.bind_eq_bind, Option.bind_some]
    rfl
  · rw [if_pos (by omega)]
    rfl

/-- What is held is found. -/
theorem Holds.get (holds : s.Holds t) (sound : s.Sound)
    (inside : ns = s.systems.allocated → ns < s.systems.capacity) :
    s.get ns name = some (t.first ns name) := by
  by_cases made : ns < s.systems.allocated
  · rw [get_eq sound made, holds.added ns made]
    rfl
  · rw [get_none sound (Nat.le_of_not_lt made) inside, NameTable.first,
      holds.none ns (Nat.le_of_not_lt made)]
    rfl

/-! ## Names -/

/-- The name is in the table of names. -/
def Known (s : NameSystem) (name : Segment) : Prop :=
  ∃ i, i * 4 + 4 ≤ s.names.length ∧ s.nameAt i = name

/-- From `s` to `s'` the name got the number `i`, if it had none. -/
structure Named (s : NameSystem) (name : Segment) (i : Nat) (s' : NameSystem) : Prop where
  same : ∃ names, s' = { s with names := names }
  capacity : s'.names.capacity = s.names.capacity
  length : s.names.length ≤ s'.names.length ∧ s'.names.length % 4 = 0 ∧ s'.names.length ≤ 0x1000
  inside : i * 4 + 4 ≤ s'.names.length
  here : s'.nameAt i = name
  kept : ∀ n, n * 4 + 4 ≤ s.names.length → s'.nameAt n = s.nameAt n
  outside : ∀ i, 0x1000 ≤ i → s'.names.bytes i = s.names.bytes i

variable {absolute : Bool}

private theorem insertName_find (sound : s.Sound) (name : Segment) (absolute : Bool) :
    (∃ i, i * 4 + 4 ≤ s.names.length ∧ s.nameAt i = name ∧
      s.insertName (NameString.single name absolute).ptr = .ok (i, s)) ∨
    ¬s.Known name ∧ s.insertName (NameString.single name absolute).ptr =
      (unwrapOr .capacityOverflow
        (s.names.pushBackRaw (NameString.single name absolute).ptr 4)).bind fun names =>
          .ok (s.names.length / 4, { s with names := names }) := by
  have whole := sound.names.1
  cases found : (List.range (s.names.length / 4)).find? fun i =>
      s.names.compareExtern (i * 4) (NameString.single name absolute).ptr 4 with
  | some i =>
    have below := List.mem_range.1 (List.mem_of_find?_eq_some found)
    have compared := List.find?_some found
    have inside : i * 4 + 4 ≤ s.names.length := by omega
    rw [compareName inside] at compared
    refine Or.inl ⟨i, inside, of_decide_eq_true compared, ?_⟩
    rw [insertName, found]
  | none =>
    refine Or.inr ⟨?_, by rw [insertName, found]; rfl⟩
    rintro ⟨i, inside, same⟩
    have different := List.find?_eq_none.1 found i (List.mem_range.2 (by omega))
    rw [compareName inside] at different
    exact different (decide_eq_true same)

private theorem insertName_full (sound : s.Sound) (unknown : ¬s.Known name)
    (full : s.names.capacity < s.names.length + 4) :
    s.insertName (NameString.single name absolute).ptr = .error .capacityOverflow := by
  rcases insertName_find sound name absolute with ⟨i, inside, same, -⟩ | ⟨-, inserted⟩
  · exact absurd ⟨i, inside, same⟩ unknown
  · rw [inserted, KernelString.pushBackRaw, if_pos full]
    rfl

private theorem insertName_named (sound : s.Sound) (absolute : Bool)
    (room : s.Known name ∨ s.names.length + 4 ≤ s.names.capacity) :
    ∃ i s', s.insertName (NameString.single name absolute).ptr = .ok (i, s') ∧
      s.Named name i s' := by
  have capacity := sound.capacities.2.2.2.2
  rcases insertName_find sound name absolute with
    ⟨i, inside, same, inserted⟩ | ⟨unknown, inserted⟩
  · exact ⟨i, s, inserted, ⟨s.names, rfl⟩, rfl, ⟨Nat.le_refl _, sound.names⟩, inside, same,
      fun _ _ => rfl, fun _ _ => rfl⟩
  · have fits := room.resolve_left unknown
    rw [KernelString.pushBackRaw, if_neg (by omega)] at inserted
    have whole := sound.names.1
    refine ⟨_, _, inserted, ⟨_, rfl⟩, rfl, ⟨?_, ?_, ?_⟩, ?_, ?_, ?_, ?_⟩
    · exact Nat.le_add_right _ _
    · simp only
      omega
    · simp only
      omega
    · simp only
      omega
    · funext i
      have below := i.isLt
      simp only [nameAt]
      rw [if_pos (by omega), NameString.ptr]
      exact congrArg name (Fin.ext (by simp only; omega))
    · intro n inside
      funext i
      have below := i.isLt
      exact if_neg (by omega)
    · intro i above
      exact if_neg (by omega)

/-! ## Entries -/

/-- The last fragment of a namespace ends where the entries do. -/
def Continues (s : NameSystem) (ns : Nat) : Prop :=
  ∃ b, (s.fragments ns).getLast? = some b ∧ (s.referenceBuckets.slots b).behind =
    s.entries.allocated

private theorem continuable_skip (sound : s.Sound) (rest : List Nat) : ∀ l : List Nat,
    (∀ b ∈ l, b ≠ 0 ∧ b < s.referenceBuckets.allocated ∧
      (s.referenceBuckets.slots b).behind < s.entries.allocated) →
    s.continuable (l ++ rest) = s.continuable rest
  | [], _ => rfl
  | b :: l, used => by
    obtain ⟨nonzero, below, behind⟩ := used b List.mem_cons_self
    have few := sound.room.2.2.1
    unfold ReferenceBucket.behind at behind
    have slot : s.referenceBuckets.asRef b = some (s.referenceBuckets.slots b) :=
      if_neg (by omega)
    have later := continuable_skip sound rest l fun b' member =>
      used b' (List.mem_cons_of_mem _ member)
    rw [List.cons_append, continuable, if_neg nonzero, slot]
    simp only [unwrapOr, toU16_some (show (s.referenceBuckets.slots b).start +
      (s.referenceBuckets.slots b).count < 2 ^ 16 by omega), bind, Except.bind]
    rw [if_neg (by rw [PageAllocator.size, Nat.mod_eq_of_lt (by omega)]; omega)]
    exact later

private theorem continuable_zeros (s : NameSystem) :
    ∀ k, s.continuable (List.replicate k 0) = .ok none
  | 0 => rfl
  | k + 1 => by
    rw [List.replicate_succ, continuable, if_pos rfl]
    exact continuable_zeros s k

/-- `can_continue` only finds the last fragment. -/
theorem canContinue_eq (sound : s.Sound) (made : ns < s.systems.allocated) :
    ∃ b, (s.fragments ns).getLast? = some b ∧ b < s.referenceBuckets.allocated ∧
      s.canContinue ns = .ok
        (if (s.referenceBuckets.slots b).behind = s.entries.allocated then some b else none) := by
  obtain ⟨k, shape, -⟩ := sound.fragments.shape ns made
  obtain ⟨b, last⟩ := Option.isSome_iff_exists.1
    (List.getLast?_isSome.2 (sound.fragments.nonempty ns made))
  obtain ⟨before, split⟩ := List.getLast?_eq_some_iff.1 last
  have member : b ∈ usedFragments (s.systems.slots ns) := by rw [split]; simp
  obtain ⟨below, behind, -⟩ := sound.fragments.inside ns made b member
  have few := sound.room
  have slot : s.systems.asRef ns = some (s.systems.slots ns) := if_neg (by omega)
  have skipped := continuable_skip sound (b :: List.replicate k 0) before fun b' earlier => by
    have member' : b' ∈ usedFragments (s.systems.slots ns) := by rw [split]; simp [earlier]
    refine ⟨usedFragments_ne_zero member', (sound.fragments.inside ns made b' member').1, ?_⟩
    exact sound.fragments.ended ns made b' (by rw [split, List.dropLast_concat]; exact earlier)
  refine ⟨b, last, below, ?_⟩
  have bucket : s.referenceBuckets.asRef b = some (s.referenceBuckets.slots b) :=
    if_neg (by omega)
  rw [canContinue, slot]
  simp only [unwrapOr, bind, Except.bind]
  rw [shape, split, List.append_assoc, List.singleton_append, skipped, continuable,
    if_neg (usedFragments_ne_zero member), bucket]
  unfold ReferenceBucket.behind at behind ⊢
  simp only [unwrapOr, toU16_some (show (s.referenceBuckets.slots b).start +
    (s.referenceBuckets.slots b).count < 2 ^ 16 by omega), bind, Except.bind]
  rw [PageAllocator.size, Nat.mod_eq_of_lt (by omega)]
  split
  · rfl
  · exact continuable_zeros s k

/-- From `s` to `s'` a namespace owns one more entry, the first that is not allocated. -/
structure Extends (s : NameSystem) (ns : Nat) (s' : NameSystem) : Prop where
  same : ∃ systems buckets, s' = { s with systems := systems, referenceBuckets := buckets }
  systems : s'.systems.allocated = s.systems.allocated ∧ s'.systems.capacity = s.systems.capacity
  buckets : s'.referenceBuckets.allocated ≤ 1024 ∧
    s'.referenceBuckets.capacity = s.referenceBuckets.capacity
  fragments : Fragments s'.systems s'.referenceBuckets (s.entries.allocated + 1)
  owned : ∀ ns' < s.systems.allocated, s'.owned ns' =
    s.owned ns' ++ if ns' = ns then [s.entries.allocated] else []
  fresh : ∀ ns', s.systems.allocated ≤ ns' → s'.systems.slots ns' = s.systems.slots ns'
  outside : ∀ i, 1024 ≤ i → s'.referenceBuckets.slots i = s.referenceBuckets.slots i

theorem growFragment_continues (sound : s.Sound) (made : ns < s.systems.allocated) {b : Nat}
    (last : (s.fragments ns).getLast? = some b)
    (ends : (s.referenceBuckets.slots b).behind = s.entries.allocated)
    (few : (s.referenceBuckets.slots b).count + 1 < 2 ^ 8) :
    ∃ s', s.growFragment ns = .ok s' ∧ s.Extends ns s' := by
  obtain ⟨b', last', below, continued⟩ := canContinue_eq sound made
  obtain rfl := Option.some.inj (last.symm.trans last')
  obtain ⟨fragments, owned⟩ := sound.fragments.extend made last ends few
  have room := sound.room.2.1
  refine ⟨s.setCount b ((s.referenceBuckets.slots b).count + 1), ?_, ⟨s.systems, _, rfl⟩,
    ⟨rfl, rfl⟩, ⟨room, rfl⟩, fragments, owned, fun _ _ => rfl, ?_⟩
  · rw [growFragment, continued, if_pos ends]
    simp only [bind, Except.bind]
    exact if_pos few
  · intro i above
    exact Function.update_of_ne (by omega) _ _

private theorem attachReferenceBucket_full (sound : s.Sound) (made : ns < s.systems.allocated)
    (full : (s.fragments ns).length = 4) :
    s.attachReferenceBucket ns = .error .fragmentation := by
  obtain ⟨k, shape, four⟩ := sound.fragments.shape ns made
  have none : k = 0 := by
    unfold fragments at full
    omega
  subst none
  rw [List.replicate_zero, List.append_nil] at shape
  have slot : s.systems.asRef ns = some (s.systems.slots ns) := if_neg (by omega)
  have search : (s.systems.slots ns).findIdx? (· = 0) = none := by
    rw [shape]
    exact findIdx?_zero_none fun b member => usedFragments_ne_zero member
  rw [attachReferenceBucket, slot]
  simp only [unwrapOr, bind, Except.bind, search]

theorem attachReferenceBucket_free (sound : s.Sound) (made : ns < s.systems.allocated)
    (free : (s.fragments ns).length < 4)
    (room : s.referenceBuckets.allocated < s.referenceBuckets.capacity) :
    ∃ k, (s.fragments ns).length + 1 + k = 4 ∧
      s.attachReferenceBucket ns = .ok (s.referenceBuckets.allocated, { s with
        systems := s.systems.set ns
          ((s.fragments ns ++ [s.referenceBuckets.allocated]) ++ List.replicate k 0)
        referenceBuckets := s.referenceBuckets.pushed ⟨s.entries.allocated, 0⟩ }) := by
  have capacity := sound.capacities
  have few := sound.room
  obtain ⟨k, shape, four⟩ := sound.fragments.shape ns made
  change s.systems.slots ns = s.fragments ns ++ List.replicate k 0 at shape
  change (s.fragments ns).length + k = 4 at four
  obtain ⟨k, rfl⟩ : ∃ j, k = j + 1 := ⟨k - 1, by omega⟩
  refine ⟨k, by omega, ?_⟩
  have slot : s.systems.asRef ns = some (s.fragments ns ++ List.replicate (k + 1) 0) := by
    rw [← shape]
    exact if_neg (by omega)
  have search := findIdx?_zero (l := s.fragments ns) (fun b => usedFragments_ne_zero) k
  have small : s.referenceBuckets.allocated % 2 ^ 16 = s.referenceBuckets.allocated :=
    Nat.mod_eq_of_lt (by omega)
  have small' : s.entries.allocated % 2 ^ 16 = s.entries.allocated := Nat.mod_eq_of_lt (by omega)
  rw [attachReferenceBucket, slot]
  simp only [unwrapOr, bind, Except.bind, search, PageAllocator.size, small, small', set_zero,
    PageAllocator.pushBack_eq room, PageAllocator.asRef_pushed]

theorem growFragment_attaches (sound : s.Sound) (made : ns < s.systems.allocated)
    (stopped : ¬s.Continues ns) (free : (s.fragments ns).length < 4)
    (room : s.referenceBuckets.allocated < s.referenceBuckets.capacity) :
    ∃ s', s.growFragment ns = .ok s' ∧ s.Extends ns s' := by
  obtain ⟨b, last, -, continued⟩ := canContinue_eq sound made
  rw [if_neg fun ends => stopped ⟨b, last, ends⟩] at continued
  obtain ⟨k, four, attached⟩ := attachReferenceBucket_free sound made free room
  obtain ⟨fragments, owned⟩ := sound.fragments.begins made four
  have capacity := sound.capacities.2.1
  refine ⟨{ s with
    systems := s.systems.set ns
      ((s.fragments ns ++ [s.referenceBuckets.allocated]) ++ List.replicate k 0)
    referenceBuckets := s.referenceBuckets.pushed ⟨s.entries.allocated, 1⟩ }, ?_, ⟨_, _, rfl⟩,
    ⟨rfl, rfl⟩, ⟨?_, rfl⟩, fragments, owned, ?_, ?_⟩
  · rw [growFragment, continued]
    simp only [bind, Except.bind, attached, setCount, PageAllocator.slots_pushed,
      PageAllocator.set_pushed]
  · exact capacity ▸ room
  · intro ns' unmade
    exact Function.update_of_ne (by omega) _ _
  · intro i above
    exact Function.update_of_ne (by omega) _ _

/-! ## Adding -/

/-- Nothing behind the arrays was written. -/
structure KeepsOutside (s s' : NameSystem) : Prop where
  names : ∀ i, 0x1000 ≤ i → s'.names.bytes i = s.names.bytes i
  systems : ∀ i, 1024 ≤ i → s'.systems.slots i = s.systems.slots i
  referenceBuckets : ∀ i, 1024 ≤ i → s'.referenceBuckets.slots i = s.referenceBuckets.slots i
  entries : ∀ i, 1024 ≤ i → s'.entries.slots i = s.entries.slots i
  memory : ∀ i, 0x1000 ≤ i → s'.memory.slots i = s.memory.slots i

theorem KeepsOutside.trans {s'' : NameSystem} (first : KeepsOutside s s')
    (second : KeepsOutside s' s'') : KeepsOutside s s'' :=
  ⟨fun i above => (second.names i above).trans (first.names i above),
    fun i above => (second.systems i above).trans (first.systems i above),
    fun i above => (second.referenceBuckets i above).trans (first.referenceBuckets i above),
    fun i above => (second.entries i above).trans (first.entries i above),
    fun i above => (second.memory i above).trans (first.memory i above)⟩

theorem Named.sound {i : Nat} (named : s.Named name i s') (sound : s.Sound) : s'.Sound := by
  obtain ⟨names, rfl⟩ := named.same
  obtain ⟨longer, whole, bound⟩ := named.length
  refine ⟨?_, sound.room, ⟨whole, bound⟩, ?_, sound.fragments, sound.fresh⟩
  · rw [named.capacity]
    exact sound.capacities
  · intro j below
    obtain ⟨inside, object⟩ := sound.entry j below
    exact ⟨Nat.le_trans inside longer, object⟩

/-- The panics of `add` that are meant to be. -/
def Reported (s : NameSystem) (ns : Nat) : NameString → Prop
  | .single name _ => s.systems.allocated < ns ∨
      ¬s.Known name ∧ s.names.capacity < s.names.length + 4 ∨
      ns < s.systems.allocated ∧ ¬s.Continues ns ∧ (s.fragments ns).length = 4
  | _ => True

/-- There is a place for one more entry, and the fragment that gets it can count it. -/
structure HasRoom (s : NameSystem) (ns : Nat) : Prop where
  made : ns < s.systems.allocated
  entry : s.entries.allocated < s.entries.capacity
  count : ∀ b, (s.fragments ns).getLast? = some b →
    (s.referenceBuckets.slots b).behind = s.entries.allocated →
      (s.referenceBuckets.slots b).count + 1 < 2 ^ 8
  bucket : ¬s.Continues ns → s.referenceBuckets.allocated < s.referenceBuckets.capacity

private theorem add_invalid (sound : s.Sound) (unmade : s.systems.allocated < ns)
    (name : NameString)
    (value : DataRefObject) : s.add ns name value = .error .invalidNameSystem := by
  have few := sound.room.1
  unfold add
  rw [PageAllocator.size, Nat.mod_eq_of_lt (by omega), if_pos unmade]

theorem add_report {name : NameString} {value : DataRefObject} (sound : s.Sound)
    (reported : s.Reported ns name) : ∃ e, s.add ns name value = .error e ∧ e.IsReport := by
  by_cases unmade : s.systems.allocated < ns
  · exact ⟨_, add_invalid sound unmade name value, trivial⟩
  · have few := sound.room.1
    have valid : ¬ns > s.systems.size % 2 ^ 16 := by
      rw [PageAllocator.size, Nat.mod_eq_of_lt (by omega)]
      exact unmade
    cases name with
    | single name absolute =>
      rw [add, if_neg valid]
      by_cases full : ¬s.Known name ∧ s.names.capacity < s.names.length + 4
      · refine ⟨.capacityOverflow, ?_, trivial⟩
        simp only [insertName_full sound full.1 full.2, bind, Except.bind]
      · obtain ⟨made, stopped, four⟩ :=
          (reported.resolve_left unmade).resolve_left full
        have room : s.Known name ∨ s.names.length + 4 ≤ s.names.capacity := by
          by_cases known : s.Known name
          · exact Or.inl known
          · exact Or.inr (Nat.le_of_not_lt fun less => full ⟨known, less⟩)
        obtain ⟨i, s₁, inserted, named⟩ := insertName_named sound absolute room
        have sound₁ := named.sound sound
        obtain ⟨names, rfl⟩ := named.same
        refine ⟨.fragmentation, ?_, trivial⟩
        obtain ⟨b, last, -, continued⟩ := canContinue_eq sound₁ made
        rw [if_neg fun ends => stopped ⟨b, last, ends⟩] at continued
        simp only [inserted, bind, Except.bind, allocateNewEntry, growFragment, continued,
          attachReferenceBucket_full sound₁ made four]
    | dual ptr absolute => exact ⟨.notSingle, if_neg valid, trivial⟩
    | multiple ptr segments absolute => exact ⟨.notSingle, if_neg valid, trivial⟩

/-- What `add` does when it does not panic. -/
structure Adds (s : NameSystem) (ns : Nat) (name : Segment) (value : DataRefObject)
    (s' : NameSystem) : Prop where
  sound : s'.Sound
  systems : s'.systems.allocated = s.systems.allocated
  owned : ∀ ns' < s.systems.allocated, s'.owned ns' =
    s.owned ns' ++ if ns' = ns then [s.entries.allocated] else []
  old : ∀ j < s.entries.allocated, s'.content j = s.content j
  new : s'.content s.entries.allocated = (name, value)
  outside : KeepsOutside s s'

theorem add_room (sound : s.Sound) (room : s.HasRoom ns) (absolute : Bool)
    (value : DataRefObject) (named : s.Known name ∨ s.names.length + 4 ≤ s.names.capacity)
    (free : s.Continues ns ∨ (s.fragments ns).length < 4) :
    ∃ s', s.add ns (.single name absolute) value = .ok s' ∧ s.Adds ns name value s' := by
  have made := room.made
  have few := sound.room
  have capacities := sound.capacities
  obtain ⟨i, s₁, inserted, named⟩ := insertName_named sound absolute named
  have sound₁ := named.sound sound
  obtain ⟨names, rfl⟩ := named.same
  have extended : ∃ s₂, growFragment { s with names := names } ns = .ok s₂ ∧
      Extends { s with names := names } ns s₂ := by
    by_cases continues : s.Continues ns
    · obtain ⟨b, last, ends⟩ := continues
      exact growFragment_continues sound₁ made last ends (room.count b last ends)
    · exact growFragment_attaches sound₁ made continues (free.resolve_left continues)
        (room.bucket continues)
  obtain ⟨s₂, grown, extends'⟩ := extended
  obtain ⟨systems, buckets, rfl⟩ := extends'.same
  have entry := room.entry
  have small : s.memory.allocated % 2 ^ 16 = s.memory.allocated := Nat.mod_eq_of_lt (by omega)
  have allocated : allocateNewEntry { s with names := names } ns = .ok (s.entries.allocated,
      { s with
        names := names
        systems := systems
        referenceBuckets := buckets
        entries := { s.entries with
          slots := Function.update s.entries.slots s.entries.allocated ⟨0, 0⟩
          allocated := s.entries.allocated + 1 } }) := by
    rw [allocateNewEntry, grown]
    simp only [bind, Except.bind, PageAllocator.pushBack, PageAllocator.size]
    rw [if_neg (by omega), PageAllocator.asRef, if_neg (by simp only; omega)]
    rfl
  have pushed : s.memory.pushBack value = (true, { s.memory with
      slots := Function.update s.memory.slots s.memory.allocated value
      allocated := s.memory.allocated + 1 }) := if_neg (by omega)
  have valid : ¬ns > s.systems.size % 2 ^ 16 := by
    rw [PageAllocator.size, Nat.mod_eq_of_lt (by omega)]
    omega
  refine ⟨{ s with
    names := names
    systems := systems
    referenceBuckets := buckets
    entries := { s.entries with
      slots := Function.update s.entries.slots s.entries.allocated ⟨i, s.memory.allocated⟩
      allocated := s.entries.allocated + 1 }
    memory := { s.memory with
      slots := Function.update s.memory.slots s.memory.allocated value
      allocated := s.memory.allocated + 1 } }, ?_, ?_⟩
  · rw [add, if_neg valid]
    simp only [inserted, bind, Except.bind, allocated, PageAllocator.size, small, pushed,
      PageAllocator.set, Function.update_idem]
  · obtain ⟨longer, whole, bound⟩ := named.length
    have slot : ∀ j < s.entries.allocated, Function.update s.entries.slots s.entries.allocated
        ⟨i, s.memory.allocated⟩ j = s.entries.slots j :=
      fun j below => Function.update_of_ne (Nat.ne_of_lt below) _ _
    constructor
    · refine ⟨?_, ?_, ⟨whole, bound⟩, ?_, extends'.fragments, ?_⟩
      · exact ⟨extends'.systems.2.trans capacities.1, extends'.buckets.2.trans capacities.2.1,
          capacities.2.2.1, capacities.2.2.2.1, named.capacity.trans capacities.2.2.2.2⟩
      · refine ⟨Nat.le_trans (Nat.le_of_eq extends'.systems.1) few.1, extends'.buckets.1, ?_, ?_⟩
        · simp only
          omega
        · simp only
          omega
      · intro j below
        by_cases last : j = s.entries.allocated
        · subst last
          simp only [Function.update_self]
          exact ⟨named.inside, by omega⟩
        · simp only at below
          obtain ⟨inside, object⟩ := sound.entry j (by omega)
          simp only [slot j (by omega)]
          exact ⟨Nat.le_trans inside longer, by omega⟩
      · intro ns' unmade below
        have kept := extends'.systems.1
        simp only at unmade kept ⊢
        rw [kept] at unmade
        exact (extends'.fresh ns' unmade).trans (sound.fresh ns' unmade below)
    · exact extends'.systems.1
    · exact extends'.owned
    · intro j below
      obtain ⟨inside, object⟩ := sound.entry j below
      simp only [content, NameSystem.object, slot j below]
      rw [Function.update_of_ne (by omega)]
      exact Prod.ext (named.kept _ inside) rfl
    · simp only [content, NameSystem.object, Function.update_self]
      exact Prod.ext named.here rfl
    · refine ⟨named.outside, fun ns' above => ?_, extends'.outside, fun j above => ?_,
        fun j above => ?_⟩
      · exact extends'.fresh ns' (Nat.le_trans few.1 above)
      · exact Function.update_of_ne (by omega) _ _
      · exact Function.update_of_ne (by omega) _ _

end NameSystem

end EmkKernel
