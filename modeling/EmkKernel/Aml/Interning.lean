import EmkKernel.Aml.PathSystem

/-!
# Ids and paths

The paths of a path system lie behind each other in the storage, and no two ids have
the same one. Every call keeps this as long as no empty name is appended or inserted;
the ids returned are then the ids of the paths they are asked for.
-/

namespace EmkKernel

/-! ### Runs of segments -/

variable {bytes bytes' : Nat → Byte} {offset offset' n k : Nat}

@[simp] theorem length_segmentsAt (bytes : Nat → Byte) (offset n : Nat) :
    (segmentsAt bytes offset n).length = n := by
  simp [segmentsAt]

theorem segmentsAt_add (bytes : Nat → Byte) (offset n k : Nat) :
    segmentsAt bytes offset (n + k) =
      segmentsAt bytes offset n ++ segmentsAt bytes (offset + 4 * n) k := by
  simp only [segmentsAt, List.range_add, List.map_append, List.map_map]
  refine congrArg _ (List.map_congr_left fun s _ => ?_)
  funext i
  simp only [Function.comp_apply]
  congr 1
  omega

/-- Runs of segments are equal if their bytes are. -/
theorem segmentsAt_eq_iff : segmentsAt bytes offset n = segmentsAt bytes' offset' n ↔
    ∀ i, i < n * 4 → bytes (offset + i) = bytes' (offset' + i) := by
  constructor
  · intro same i inside
    have segment := congrArg (fun l => l[i / 4]?) same
    have index : i / 4 < n := by omega
    simp only [segmentsAt, List.getElem?_map, List.getElem?_range index, Option.map_some,
      Option.some.injEq] at segment
    have byte := congrFun segment ⟨i % 4, Nat.mod_lt i (by decide)⟩
    simp only at byte
    have place : 4 * (i / 4) + i % 4 = i := Nat.div_add_mod i 4
    rwa [Nat.add_assoc, Nat.add_assoc, place] at byte
  · intro same
    refine List.map_congr_left fun s member => ?_
    have inside := List.mem_range.mp member
    funext i
    have bound := i.isLt
    have byte := same (4 * s + i) (by omega)
    rwa [← Nat.add_assoc, ← Nat.add_assoc] at byte

theorem segmentsAt_congr (same : ∀ i, i < n * 4 → bytes (offset + i) = bytes' (offset + i)) :
    segmentsAt bytes offset n = segmentsAt bytes' offset n :=
  segmentsAt_eq_iff.mpr same

namespace KernelString

variable {s s' : KernelString} {ptr : Nat → Byte} {length : Nat}

theorem compare_iff (first : offset + length ≤ s.length) (second : offset' + length ≤ s.length) :
    s.compare offset offset' length = true ↔
      ∀ i, i < length → s.bytes (offset + i) = s.bytes (offset' + i) := by
  rw [compare, if_neg (by omega)]
  simp

theorem compareExtern_iff (inside : offset + length ≤ s.length) :
    s.compareExtern offset ptr length = true ↔
      ∀ i, i < length → s.bytes (offset + i) = ptr i := by
  rw [compareExtern, if_neg (by omega)]
  simp

theorem pushBackRaw_some (pushed : s.pushBackRaw ptr length = some s') :
    s'.length = s.length + length ∧ s'.length ≤ s.capacity ∧ s'.capacity = s.capacity ∧
      (∀ i, i < s.length → s'.bytes i = s.bytes i) ∧
      ∀ i, i < length → s'.bytes (s.length + i) = ptr i := by
  unfold pushBackRaw at pushed
  split at pushed
  next => cases pushed
  next room =>
    cases pushed
    refine ⟨rfl, Nat.le_of_not_lt room, rfl, fun i inside => ?_, fun i inside => ?_⟩
    · exact if_neg (by omega)
    · refine (if_pos (by omega)).trans ?_
      rw [Nat.add_sub_cancel_left]

/-- A copy of bytes to the end of the string. -/
theorem copy_some {srce : Nat} (copied : s.copy s.length srce length = some s') :
    s'.length = s.length + length ∧ s'.length ≤ s.capacity ∧ s'.capacity = s.capacity ∧
      (∀ i, i < s.length → s'.bytes i = s.bytes i) ∧
      ∀ i, i < length → s'.bytes (s.length + i) = s.bytes (srce + i) := by
  unfold copy at copied
  split at copied
  next => cases copied
  next room =>
    cases copied
    refine ⟨by simp, by simp only; omega, rfl, fun i before => ?_, fun i within => ?_⟩
    · exact if_neg (by omega)
    · refine (if_pos (by omega)).trans ?_
      rw [Nat.add_sub_cancel_left]

end KernelString

namespace PathSystem

variable {s s' : PathSystem} {id base : Nat} {name : NameString}

/-- The ids have distinct paths inside the storage, and the stack of active paths holds
ids, with zeros behind its top. -/
structure Sound (s : PathSystem) : Prop where
  capacity : s.storage.capacity = 0x4000 ∧ s.capacity = 0x1000
  room : 4 * s.allocated ≤ s.storage.length ∧ s.storage.length ≤ 0x4000
  first : 0 < s.allocated ∧ (s.roots 0).length = 0
  inside : ∀ id, id < s.allocated →
    (s.roots id).offset + (s.roots id).length * 4 ≤ s.storage.length
  distinct : ∀ a b, a < s.allocated → b < s.allocated → s.path a = s.path b → a = b
  active : ∀ j, j < s.activePaths.inserted → s.activePaths.slots j < s.allocated
  idle : ∀ j, s.activePaths.inserted ≤ j → s.activePaths.slots j = 0

theorem Sound.path_zero (sound : s.Sound) : s.path 0 = [] := by
  rw [path, sound.first.2]
  rfl

theorem Sound.refTop (sound : s.Sound) : s.activePaths.refTop < s.allocated := by
  unfold Stack.refTop
  by_cases empty : s.activePaths.inserted = 0
  · rw [sound.idle _ (by omega)]
    exact sound.first.1
  · exact sound.active _ (by omega)

/-- The current scope, unless the root is on the stack. -/
theorem Sound.scope (sound : s.Sound) (other : s.activePaths.refTop ≠ 1) :
    s.scope = s.path s.activePaths.refTop := by
  unfold PathSystem.scope currentPath Stack.numOccupied
  by_cases empty : s.activePaths.inserted = 0
  · rw [if_neg (not_not_intro empty), if_pos rfl, Stack.refTop, sound.idle _ (by omega),
      sound.path_zero]
  · rw [if_pos empty, if_neg other]

theorem root_of_lt (inside : id < s.allocated) : s.root id = some (s.roots id) := by
  rw [PathSystem.root, if_neg (by omega)]

/-- An id has the path of `base` with the name behind it, as far as `find` can tell. -/
theorem matches_iff {ptr : Nat → Byte} {segments : Nat}
    (baseWithin : (s.roots base).offset + (s.roots base).length * 4 ≤ s.storage.length)
    (within : (s.roots id).offset + (s.roots id).length * 4 ≤ s.storage.length) :
    (decide (id ≠ base) && decide ((s.roots base).length + segments = (s.roots id).length) &&
        s.storage.compare (s.roots id).offset (s.roots base).offset ((s.roots base).length * 4) &&
        s.storage.compareExtern ((s.roots id).offset + (s.roots base).length * 4) ptr
          (segments * 4)) = true ↔
      id ≠ base ∧ s.path id = s.path base ++ segmentsAt ptr 0 segments := by
  simp only [Bool.and_eq_true, decide_eq_true_eq, and_assoc]
  refine and_congr_right' ⟨?_, ?_⟩
  · rintro ⟨length, first, second⟩
    rw [KernelString.compare_iff (by omega) baseWithin] at first
    rw [KernelString.compareExtern_iff (by omega)] at second
    rw [path, ← length, segmentsAt_add]
    refine congrArg₂ _ (segmentsAt_eq_iff.mpr first) (segmentsAt_eq_iff.mpr fun i within => ?_)
    rw [Nat.zero_add, Nat.mul_comm 4]
    exact second i within
  · intro same
    have length : (s.roots base).length + segments = (s.roots id).length := by
      simpa [path] using (congrArg List.length same).symm
    rw [path, ← length, segmentsAt_add] at same
    obtain ⟨first, second⟩ := List.append_inj same (by simp [path])
    refine ⟨length, ?_, ?_⟩
    · rw [KernelString.compare_iff (by omega) baseWithin]
      exact segmentsAt_eq_iff.mp first
    · rw [KernelString.compareExtern_iff (by omega)]
      intro i within
      have byte := segmentsAt_eq_iff.mp second i within
      rwa [Nat.zero_add, Nat.mul_comm 4] at byte

/-- An id that `find` returns has the path that was looked for. -/
theorem find_some (within : ∀ id, id < s.allocated →
      (s.roots id).offset + (s.roots id).length * 4 ≤ s.storage.length)
    (isBase : base < s.allocated) {ptr : Nat → Byte} {segments : Nat}
    (returned : s.find base ptr segments = some (some id)) :
    id < s.allocated ∧ s.path id = s.path base ++ segmentsAt ptr 0 segments := by
  rw [PathSystem.find, root_of_lt isBase, Option.bind_eq_bind, Option.bind_some] at returned
  split at returned
  next =>
    have found := Option.some.inj returned
    have inside := List.mem_range.mp (List.mem_of_find?_eq_some found)
    have passed := List.find?_some found
    exact ⟨inside, ((matches_iff (within base isBase) (within id inside)).mp passed).2⟩
  next => cases returned

/-- `find` returns the id of the path, or there is none. -/
theorem Sound.find (sound : s.Sound) (isBase : base < s.allocated) {ptr : Nat → Byte}
    {segments : Nat} (some : segments ≠ 0) {found : Option Nat}
    (returned : s.find base ptr segments = .some found) :
    (∀ id, found = .some id →
      id < s.allocated ∧ s.path id = s.path base ++ segmentsAt ptr 0 segments) ∧
    (found = none → ∀ id, id < s.allocated →
      s.path id ≠ s.path base ++ segmentsAt ptr 0 segments) := by
  constructor
  · rintro id rfl
    exact find_some sound.inside isBase returned
  rw [PathSystem.find, root_of_lt isBase, Option.bind_eq_bind, Option.bind_some] at returned
  split at returned
  next =>
    cases returned
    intro missing id inside same
    have unmatched := List.find?_eq_none.mp missing id (List.mem_range.mpr inside)
    refine unmatched ((matches_iff (sound.inside base isBase) (sound.inside id inside)).mpr
      ⟨?_, same⟩)
    rintro rfl
    -- the path of the base is shorter
    have length := congrArg List.length same
    rw [List.length_append, length_segmentsAt] at length
    omega
  next => cases returned

/-! ### Calls -/

/-- The ids that were there keep their paths. -/
def Extends (s s' : PathSystem) : Prop :=
  s.allocated ≤ s'.allocated ∧ ∀ id, id < s.allocated → s'.path id = s.path id

/-- A new path at the end of the storage gets the next id. -/
theorem Sound.push (sound : s.Sound) {storage : KernelString} {length owner : Nat}
    {p : List Segment} (some : length ≠ 0)
    (longer : storage.length = s.storage.length + length * 4) (fits : storage.length ≤ 0x4000)
    (capacity : storage.capacity = s.storage.capacity)
    (same : ∀ i, i < s.storage.length → storage.bytes i = s.storage.bytes i)
    (written : segmentsAt storage.bytes s.storage.length length = p)
    (new : ∀ id, id < s.allocated → s.path id ≠ p)
    (result : { s with storage }.pushRoot ⟨s.storage.length, length, owner⟩ = s') :
    s'.Sound ∧ s.Extends s' ∧ s.allocated < s'.allocated ∧ s'.path s.allocated = p := by
  have room := sound.room
  rw [pushRoot, if_neg (by simp only [sound.capacity.2]; omega)] at result
  subst result
  have old {id : Nat} (inside : id < s.allocated) :
      Function.update s.roots s.allocated ⟨s.storage.length, length, owner⟩ id = s.roots id :=
    Function.update_of_ne (Nat.ne_of_lt inside) _ _
  have paths (id : Nat) (inside : id < s.allocated) : segmentsAt storage.bytes
      (Function.update s.roots s.allocated ⟨s.storage.length, length, owner⟩ id).offset
      (Function.update s.roots s.allocated ⟨s.storage.length, length, owner⟩ id).length =
      s.path id := by
    have within := sound.inside id inside
    rw [old inside]
    exact segmentsAt_congr fun i bound => same _ (by omega)
  have last : segmentsAt storage.bytes
      (Function.update s.roots s.allocated ⟨s.storage.length, length, owner⟩ s.allocated).offset
      (Function.update s.roots s.allocated ⟨s.storage.length, length, owner⟩ s.allocated).length =
      p := by
    rw [Function.update_self]
    exact written
  refine ⟨⟨⟨capacity.trans sound.capacity.1, sound.capacity.2⟩, ⟨?_, fits⟩, ⟨?_, ?_⟩,
    fun id inside => ?_, fun a b insideA insideB equal => ?_, fun j used => ?_, sound.idle⟩,
    ⟨Nat.le_succ _, paths⟩, Nat.lt_succ_self _, last⟩
  · simp only [longer]
    omega
  · exact Nat.succ_pos _
  · simp only [old sound.first.1]
    exact sound.first.2
  · simp only at inside ⊢
    rcases Nat.lt_succ_iff_lt_or_eq.mp inside with before | rfl
    · rw [old before]
      have within := sound.inside id before
      omega
    · rw [Function.update_self]
      exact longer.ge
  · simp only at insideA insideB
    simp only [path] at equal
    rcases Nat.lt_succ_iff_lt_or_eq.mp insideA with beforeA | rfl <;>
      rcases Nat.lt_succ_iff_lt_or_eq.mp insideB with beforeB | rfl
    · rw [paths a beforeA, paths b beforeB] at equal
      exact sound.distinct a b beforeA beforeB equal
    · rw [paths a beforeA, last] at equal
      exact absurd equal (new a beforeA)
    · rw [paths b beforeB, last] at equal
      exact absurd equal.symm (new b beforeB)
    · rfl
  · exact Nat.lt_succ_of_lt (sound.active j used)

theorem extends_refl (s : PathSystem) : s.Extends s := ⟨Nat.le_refl _, fun _ _ => rfl⟩

/-- `append` returns the id of the path below the one on the stack. -/
theorem Sound.append (sound : s.Sound) (some : name.segments ≠ 0)
    (returned : s.append name = .some (id, s')) :
    s'.Sound ∧ s.Extends s' ∧ id < s'.allocated ∧
      s'.path id = s.path s.activePaths.refTop ++ name.path := by
  have top := sound.refTop
  unfold PathSystem.append at returned
  rw [Option.bind_eq_bind, Option.bind_eq_some_iff] at returned
  obtain ⟨found, searched, returned⟩ := returned
  obtain ⟨present, absent⟩ := sound.find top some searched
  cases found with
  | some found =>
    cases returned
    obtain ⟨inside, same⟩ := present _ rfl
    exact ⟨sound, extends_refl s, inside, same⟩
  | none =>
    simp only [root_of_lt top, Option.bind_eq_bind, Option.bind_some] at returned
    obtain ⟨copied, copy, returned⟩ := Option.bind_eq_some_iff.mp returned
    obtain ⟨storage, pushed, returned⟩ := Option.bind_eq_some_iff.mp returned
    obtain ⟨rfl, result⟩ := Prod.mk.inj (Option.some.inj returned)
    obtain ⟨length₁, fits₁, capacity₁, before₁, bytes₁⟩ := KernelString.copy_some copy
    obtain ⟨length₂, fits₂, capacity₂, before₂, bytes₂⟩ := KernelString.pushBackRaw_some pushed
    have limit := sound.capacity.1
    refine sound.push (by omega) (by omega) (by omega) (capacity₂.trans capacity₁)
      (fun i inside => ?_) ?_ (absent rfl) result
    · rw [before₂ i (by omega), before₁ i inside]
    · rw [Nat.add_comm, segmentsAt_add]
      refine congrArg₂ _ (segmentsAt_eq_iff.mpr fun i inside => ?_)
        (segmentsAt_eq_iff.mpr fun i inside => ?_)
      · rw [before₂ _ (by omega), bytes₁ i inside]
      · rw [Nat.mul_comm 4, ← length₁, bytes₂ i inside, Nat.zero_add]

/-- `insert` returns the id of the absolute path. -/
theorem Sound.insert (sound : s.Sound) (some : name.segments ≠ 0)
    (returned : s.insert name = .some (id, s')) :
    s'.Sound ∧ s.Extends s' ∧ id < s'.allocated ∧ s'.path id = name.path := by
  unfold PathSystem.insert at returned
  rw [Option.bind_eq_bind, Option.bind_eq_some_iff] at returned
  obtain ⟨found, searched, returned⟩ := returned
  obtain ⟨present, absent⟩ := sound.find sound.first.1 some searched
  rw [sound.path_zero, List.nil_append] at present absent
  cases found with
  | some found =>
    cases returned
    obtain ⟨inside, same⟩ := present _ rfl
    exact ⟨sound, extends_refl s, inside, same⟩
  | none =>
    obtain ⟨storage, pushed, returned⟩ := Option.bind_eq_some_iff.mp returned
    obtain ⟨owner, _, returned⟩ := Option.bind_eq_some_iff.mp returned
    obtain ⟨rfl, result⟩ := Prod.mk.inj (Option.some.inj returned)
    obtain ⟨length, fits, capacity, before, bytes⟩ := KernelString.pushBackRaw_some pushed
    have limit := sound.capacity.1
    refine sound.push some length (by omega) capacity before ?_ (absent rfl) result
    refine segmentsAt_eq_iff.mpr fun i inside => ?_
    rw [bytes i inside, Nat.zero_add]

/-- A stack holds the ids that it held and the one that is pushed. -/
theorem push_active {t t' : Stack Nat} {path : Nat} (idle : ∀ j, t.inserted ≤ j → t.slots j = 0)
    (pushed : t.push path = some t') :
    (∀ j, j < t'.inserted → t'.slots j = path ∨ j < t.inserted ∧ t'.slots j = t.slots j) ∧
      ∀ j, t'.inserted ≤ j → t'.slots j = 0 := by
  unfold Stack.push at pushed
  split at pushed
  · cases pushed
  cases pushed
  refine ⟨fun j used => ?_, fun j unused => ?_⟩
  · simp only at used ⊢
    by_cases top : j = t.inserted
    · rw [top, Function.update_self]
      exact Or.inl rfl
    · rw [Function.update_of_ne top]
      exact Or.inr ⟨by omega, rfl⟩
  · simp only at unused ⊢
    rw [Function.update_of_ne (by omega)]
    exact idle j (by omega)

/-- A path that is popped leaves a zero behind. -/
theorem popActive_some {frame : PathFrame} {t : Stack Nat}
    (idle : ∀ j, s.activePaths.inserted ≤ j → s.activePaths.slots j = 0)
    (popped : s.popActive frame = some t) :
    (∀ j, j < t.inserted → j < s.activePaths.inserted ∧ t.slots j = s.activePaths.slots j) ∧
      ∀ j, t.inserted ≤ j → t.slots j = 0 := by
  unfold popActive at popped
  split at popped
  · obtain ⟨⟨top, rest⟩, popped, rfl⟩ := Option.map_eq_some_iff.mp popped
    unfold Stack.pop at popped
    split at popped
    next => cases popped
    next some =>
      cases popped
      simp only [Stack.setTop] at some ⊢
      refine ⟨fun j used => ⟨by omega, Function.update_of_ne (by omega) _ _⟩, fun j unused => ?_⟩
      by_cases top : j = s.activePaths.inserted - 1
      · rw [top, Function.update_self]
      · rw [Function.update_of_ne top]
        exact idle j (by omega)
  · cases popped
    exact ⟨fun j used => ⟨used, rfl⟩, idle⟩

/-- A push of an id. -/
theorem Sound.pushPath (sound : s.Sound) {path : Nat} (isId : path < s.allocated)
    {appended : Bool} (returned : s.pushPath path appended = some s') :
    s'.Sound ∧ s.Extends s' := by
  unfold PathSystem.pushPath at returned
  rw [Option.bind_eq_bind, Option.bind_eq_some_iff] at returned
  obtain ⟨activePaths, pushed, returned⟩ := returned
  cases returned
  obtain ⟨active, idle⟩ := push_active sound.idle pushed
  refine ⟨⟨sound.capacity, sound.room, sound.first, sound.inside, sound.distinct,
    fun j used => ?_, idle⟩, extends_refl s⟩
  rcases active j used with same | ⟨before, same⟩
  · exact same ▸ isId
  · exact same ▸ sound.active j before

theorem Sound.popFrame (sound : s.Sound) (returned : s.popFrame = some s') :
    s'.Sound ∧ s.Extends s' := by
  unfold PathSystem.popFrame at returned
  rw [Option.bind_eq_bind, Option.bind_eq_some_iff] at returned
  obtain ⟨⟨frame, frameStack⟩, _, returned⟩ := returned
  obtain ⟨activePaths, popped, returned⟩ := Option.bind_eq_some_iff.mp returned
  cases returned
  obtain ⟨active, idle⟩ := popActive_some sound.idle popped
  refine ⟨⟨sound.capacity, sound.room, sound.first, sound.inside, sound.distinct,
    fun j used => ?_, idle⟩, extends_refl s⟩
  obtain ⟨before, same⟩ := active j used
  exact same ▸ sound.active j before

theorem Sound.pushFrame (sound : s.Sound) (returned : s.pushFrame = some s') :
    s'.Sound ∧ s.Extends s' := by
  unfold PathSystem.pushFrame at returned
  rw [Option.bind_eq_bind, Option.bind_eq_some_iff] at returned
  obtain ⟨frameStack, _, returned⟩ := returned
  cases returned
  exact ⟨⟨sound.capacity, sound.room, sound.first, sound.inside, sound.distinct,
    sound.active, sound.idle⟩, extends_refl s⟩

theorem new_sound : PathSystem.new.Sound where
  capacity := ⟨rfl, rfl⟩
  room := ⟨by decide, by decide⟩
  first := ⟨by decide, rfl⟩
  inside := by decide
  distinct := by
    intro a b insideA insideB
    have four : ∀ a b : Fin 4, new.path a = new.path b → a = b := by decide
    exact fun same => congrArg Fin.val (four ⟨a, insideA⟩ ⟨b, insideB⟩ same)
  active := fun j used => absurd used (Nat.not_lt_zero j)
  idle := fun _ _ => rfl

end PathSystem

/-! ### Runs -/

inductive PathRequest where
  | pushFrame
  | popFrame
  | pushAsAppended (path : Nat)
  | pushAsInserted (path : Nat)
  | append (name : NameString)
  | insert (name : NameString)

/-- A path system and what was asked of it: each id returned with the path that was to
get it. -/
structure PathLog where
  system : PathSystem
  log : List (Nat × List Segment)

namespace PathLog

/-- A new path system, with the ids that are there from the start. -/
def new : PathLog := ⟨.new, [1, 2, 3].map fun id => (id, PathSystem.new.path id)⟩

def serve (s : PathLog) : PathRequest → Option PathLog
  | .pushFrame => s.system.pushFrame.map fun system => ⟨system, s.log⟩
  | .popFrame => s.system.popFrame.map fun system => ⟨system, s.log⟩
  | .pushAsAppended path => (s.system.pushAsAppended path).map fun system => ⟨system, s.log⟩
  | .pushAsInserted path => (s.system.pushAsInserted path).map fun system => ⟨system, s.log⟩
  | .append name => (s.system.append name).map fun (id, system) =>
    ⟨system, (id, s.system.scope ++ name.path) :: s.log⟩
  | .insert name => (s.system.insert name).map fun (id, system) =>
    ⟨system, (id, name.path) :: s.log⟩

/-- What is pushed is an id. -/
def Calls (s : PathLog) : PathRequest → Prop
  | .pushAsAppended path | .pushAsInserted path => path < s.system.allocated
  | _ => True

/-- No name is empty, and nothing is appended while the root is on the stack. -/
def Nests (s : PathLog) : PathRequest → Prop
  | .append name => name.segments ≠ 0 ∧ s.system.activePaths.refTop ≠ 1
  | .insert name => name.segments ≠ 0
  | _ => True

instance (s : PathLog) (r : PathRequest) : Decidable (s.Calls r) :=
  match r with
  | .pushAsAppended path | .pushAsInserted path =>
    inferInstanceAs (Decidable (path < s.system.allocated))
  | .pushFrame | .popFrame | .append _ | .insert _ => inferInstanceAs (Decidable True)

instance (s : PathLog) (r : PathRequest) : Decidable (s.Nests r) :=
  match r with
  | .append name =>
    inferInstanceAs (Decidable (name.segments ≠ 0 ∧ s.system.activePaths.refTop ≠ 1))
  | .insert name => inferInstanceAs (Decidable (name.segments ≠ 0))
  | .pushFrame | .popFrame | .pushAsAppended _ | .pushAsInserted _ =>
    inferInstanceAs (Decidable True)

/-- Each id stands for the path that was asked for, and two ids are equal if their paths
are. -/
structure Interns (s : PathLog) : Prop where
  stands : ∀ entry ∈ s.log, s.system.path entry.1 = entry.2
  equal_iff : ∀ first ∈ s.log, ∀ second ∈ s.log, first.1 = second.1 ↔ first.2 = second.2

variable {s s' : PathLog}

/-- The ids of the log are ids of their paths. -/
structure Sound (s : PathLog) : Prop where
  system : s.system.Sound
  ids : ∀ entry ∈ s.log, entry.1 < s.system.allocated ∧ s.system.path entry.1 = entry.2

theorem new_sound : new.Sound := by
  refine ⟨PathSystem.new_sound, fun entry logged => ?_⟩
  obtain ⟨id, member, rfl⟩ := List.mem_map.mp logged
  have inside : ∀ id ∈ [1, 2, 3], id < PathSystem.new.allocated := by decide
  exact ⟨inside id member, rfl⟩

theorem Sound.extend (sound : s.Sound) {system : PathSystem} (sound' : system.Sound)
    (longer : s.system.Extends system) : Sound ⟨system, s.log⟩ := by
  refine ⟨sound', fun entry logged => ?_⟩
  obtain ⟨inside, same⟩ := sound.ids entry logged
  exact ⟨Nat.lt_of_lt_of_le inside longer.1, (longer.2 _ inside).trans same⟩

theorem Sound.returned (sound : s.Sound) {system : PathSystem} {id : Nat} {p : List Segment}
    (after : system.Sound ∧ s.system.Extends system ∧ id < system.allocated ∧
      system.path id = p) : Sound ⟨system, (id, p) :: s.log⟩ := by
  obtain ⟨sound', longer, inside, same⟩ := after
  refine ⟨sound', fun entry logged => ?_⟩
  rcases List.mem_cons.mp logged with rfl | before
  · exact ⟨inside, same⟩
  · exact (sound.extend sound' longer).ids entry before

theorem Sound.serve (sound : s.Sound) {r : PathRequest} (calls : s.Calls r) (nests : s.Nests r)
    (served : s.serve r = some s') : s'.Sound := by
  cases r <;> obtain ⟨result, returned, rfl⟩ := Option.map_eq_some_iff.mp served
  case pushFrame =>
    obtain ⟨sound', longer⟩ := sound.system.pushFrame returned
    exact sound.extend sound' longer
  case popFrame =>
    obtain ⟨sound', longer⟩ := sound.system.popFrame returned
    exact sound.extend sound' longer
  case pushAsAppended path =>
    obtain ⟨sound', longer⟩ := sound.system.pushPath calls returned
    exact sound.extend sound' longer
  case pushAsInserted path =>
    obtain ⟨sound', longer⟩ := sound.system.pushPath calls returned
    exact sound.extend sound' longer
  case append name =>
    rw [sound.system.scope nests.2]
    exact sound.returned (sound.system.append nests.1 returned)
  case insert name => exact sound.returned (sound.system.insert nests returned)

private theorem Sound.interns (sound : s.Sound) : s.Interns := by
  refine ⟨fun entry logged => (sound.ids entry logged).2, fun first left second right => ?_⟩
  obtain ⟨insideFirst, pathFirst⟩ := sound.ids first left
  obtain ⟨insideSecond, pathSecond⟩ := sound.ids second right
  constructor
  · intro same
    rw [← pathFirst, ← pathSecond, same]
  · intro same
    refine sound.system.distinct _ _ insideFirst insideSecond ?_
    rw [pathFirst, pathSecond, same]

/-- In every run in which no empty name is used and nothing is appended to the root on
the stack, the ids returned are ids of the paths asked for. -/
theorem paths_interned (run : Requests.Run serve (fun s r => s.Calls r ∧ s.Nests r) new s) :
    s.Interns :=
  Sound.interns (run.keeps new_sound fun _ _ _ sound meets served =>
    sound.serve meets.1 meets.2 served)

/-! ### The root on the stack -/

/-- The four bytes of a segment. -/
def segment (a b c d : Byte) : Segment := fun i => [a, b, c, d].getD i 0

/-- The scope of the root with a name inside, and the same name as an absolute path. -/
def rootScope : List PathRequest :=
  [.pushFrame, .insert (.single (segment 0x5C 0 0 0) true), .pushAsInserted 1,
    .append (.single (segment 0x41 0x42 0x43 0x44) false),
    .insert (.single (segment 0x41 0x42 0x43 0x44) true)]

/-- A name below a scope. -/
def plainScope : List PathRequest :=
  [.pushFrame, .insert (.single (segment 0x5F 0x53 0x42 0x5F) true), .pushAsInserted 2,
    .append (.single (segment 0x50 0x43 0x49 0x30) false), .popFrame]

/-- `_SB_` has the id 2, and `PCI0` below it is `_SB_PCI0` with the id 3. -/
theorem paths_interned_plain : ∃ s,
    Requests.Run serve (fun s r => s.Calls r ∧ s.Nests r) new s ∧
      s.log.map Prod.fst = [3, 2, 1, 2, 3] ∧ s.Interns := by
  have served : ((Requests.serveAll serve (fun s r => s.Calls r ∧ s.Nests r) new plainScope).map
      fun s => s.log.map Prod.fst) = some [3, 2, 1, 2, 3] := by decide +kernel
  obtain ⟨s, ran, ids⟩ := Option.map_eq_some_iff.mp served
  have run := Requests.serveAll_run ran
  exact ⟨s, run, ids, paths_interned run⟩

/-- A name appended in the scope of the root does not get the id of the absolute name. -/
theorem paths_not_interned : ∃ s, Requests.Run serve Calls new s ∧ ¬s.Interns := by
  have served : ((Requests.serveAll serve Calls new rootScope).map fun s => s.log.take 2) =
      some [(5, [segment 0x41 0x42 0x43 0x44]), (4, [segment 0x41 0x42 0x43 0x44])] := by
    decide +kernel
  obtain ⟨s, ran, last⟩ := Option.map_eq_some_iff.mp served
  refine ⟨s, Requests.serveAll_run ran, fun interns => ?_⟩
  have logged (entry : Nat × List Segment) (member : entry ∈ s.log.take 2) : entry ∈ s.log :=
    List.mem_of_mem_take member
  rw [last] at logged
  have same := (interns.equal_iff _ (logged _ (List.mem_cons_self ..)) _
    (logged _ (List.mem_cons_of_mem _ (List.mem_cons_self ..)))).mpr rfl
  cases same

end PathLog

end EmkKernel
