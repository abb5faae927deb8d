import EmkKernel.Aml.Calls
import EmkKernel.Aml.Interning
import EmkKernel.Library.Iteration

/-!
# Owners of paths

The owner of a path is the path it was created in. An id is always larger than that of its
owner, so the search of a name from the current scope upwards comes to an end.
-/

namespace EmkKernel

open Iteration

namespace PathSystem

variable {s s' : PathSystem} {id : Nat} {name : NameString}

/-- The segments of the scope with an id, which are none in the root. -/
def scopeOf (s : PathSystem) (id : Nat) : List Segment := if id = 1 then [] else s.path id

private theorem scopeOf_prefix {p : List Segment} (isPrefix : s.path id <+: p) :
    s.scopeOf id <+: p := by
  unfold scopeOf
  split
  · exact List.nil_prefix
  · exact isPrefix

/-- The ids lie in the storage, the stack of active paths holds ids with zeros behind its top,
and each id but the first has a smaller one whose scope it lies in. -/
structure Owned (s : PathSystem) : Prop where
  capacity : s.storage.capacity = 0x4000
  room : s.storage.length ≤ 0x4000
  table : s.allocated ≤ s.capacity ∧ s.capacity = 0x1000
  first : 1 < s.allocated ∧ (s.roots 0).length = 0
  inside : ∀ id, id < s.allocated →
    (s.roots id).offset + (s.roots id).length * 4 ≤ s.storage.length
  active : ∀ j, j < s.activePaths.inserted → s.activePaths.slots j < s.allocated
  idle : ∀ j, s.activePaths.inserted ≤ j → s.activePaths.slots j = 0
  owner : ∀ id, id < s.allocated → 0 < id →
    (s.roots id).owner < id ∧ s.scopeOf (s.roots id).owner <+: s.path id

theorem Owned.zero_lt (owned : s.Owned) : 0 < s.allocated := Nat.lt_of_succ_lt owned.first.1

theorem Owned.refTop (owned : s.Owned) : s.activePaths.refTop < s.allocated := by
  unfold Stack.refTop
  by_cases empty : s.activePaths.inserted = 0
  · rw [owned.idle _ (by omega)]
    exact owned.zero_lt
  · exact owned.active _ (by omega)

theorem Owned.path_zero (owned : s.Owned) : s.path 0 = [] := by
  rw [path, owned.first.2]
  rfl

/-- What is written behind the paths changes none of them. -/
theorem Owned.store (owned : s.Owned) {storage : KernelString}
    (capacity : storage.capacity = s.storage.capacity) (fits : storage.length ≤ 0x4000)
    (longer : s.storage.length ≤ storage.length)
    (same : ∀ i, i < s.storage.length → storage.bytes i = s.storage.bytes i) :
    Owned { s with storage } ∧
      ∀ id, id < s.allocated → PathSystem.path { s with storage } id = s.path id := by
  have paths (id : Nat) (isId : id < s.allocated) :
      PathSystem.path { s with storage } id = s.path id := by
    have within := owned.inside id isId
    refine segmentsAt_congr fun i bound => same _ ?_
    simp only at bound ⊢
    omega
  refine ⟨⟨capacity.trans owned.capacity, fits, owned.table, owned.first, fun id isId => ?_,
    owned.active,
    owned.idle, fun id isId later => ?_⟩, paths⟩
  · exact Nat.le_trans (owned.inside id isId) longer
  · obtain ⟨smaller, isPrefix⟩ := owned.owner id isId later
    have scopes : PathSystem.scopeOf { s with storage } (s.roots id).owner =
        s.scopeOf (s.roots id).owner :=
      if_congr Iff.rfl rfl (paths _ (Nat.lt_trans smaller isId))
    refine ⟨smaller, ?_⟩
    rw [scopes, paths id isId]
    exact isPrefix

/-- A new id lies in the scope of its owner. -/
theorem Owned.pushRoot (owned : s.Owned) {r : PathRoot}
    (within : r.offset + r.length * 4 ≤ s.storage.length) (isId : r.owner < s.allocated)
    (isPrefix : s.path r.owner <+: segmentsAt s.storage.bytes r.offset r.length) :
    (s.pushRoot r).Owned := by
  unfold PathSystem.pushRoot
  split
  · exact owned
  have table := owned.table
  have old {id : Nat} (isId : id < s.allocated) :
      Function.update s.roots s.allocated r id = s.roots id :=
    Function.update_of_ne (Nat.ne_of_lt isId) _ _
  have paths {id : Nat} (isId : id < s.allocated) : PathSystem.path { s with
      roots := Function.update s.roots s.allocated r, allocated := s.allocated + 1 } id =
      s.path id := by
    simp only [path, old isId]
  refine ⟨owned.capacity, owned.room, ⟨by simp only; omega, table.2⟩,
    ⟨Nat.lt_succ_of_lt owned.first.1, ?_⟩,
    fun id isId => ?_, fun j used => ?_,
    owned.idle, fun id isNew later => ?_⟩
  · simp only [old owned.zero_lt]
    exact owned.first.2
  · simp only
    rcases Nat.lt_succ_iff_lt_or_eq.mp isId with before | rfl
    · rw [old before]
      exact owned.inside id before
    · rw [Function.update_self]
      exact within
  · exact Nat.lt_succ_of_lt (owned.active j used)
  · simp only
    rcases Nat.lt_succ_iff_lt_or_eq.mp isNew with before | rfl
    · obtain ⟨smaller, isPrefix⟩ := owned.owner id before later
      rw [old before, paths before]
      refine ⟨smaller, ?_⟩
      unfold scopeOf at isPrefix ⊢
      rw [paths (Nat.lt_trans smaller before)]
      exact isPrefix
    · rw [Function.update_self]
      refine ⟨isId, scopeOf_prefix ?_⟩
      rw [paths isId]
      simp only [path, Function.update_self]
      exact isPrefix

theorem Owned.append (owned : s.Owned) (returned : s.append name = some (id, s')) :
    s'.Owned := by
  have top := owned.refTop
  unfold PathSystem.append at returned
  rw [Option.bind_eq_bind, Option.bind_eq_some_iff] at returned
  obtain ⟨found, _, returned⟩ := returned
  cases found with
  | some found =>
    cases returned
    exact owned
  | none =>
    simp only [root_of_lt top, Option.bind_eq_bind, Option.bind_some] at returned
    obtain ⟨copied, copy, returned⟩ := Option.bind_eq_some_iff.mp returned
    obtain ⟨storage, pushed, returned⟩ := Option.bind_eq_some_iff.mp returned
    obtain ⟨rfl, rfl⟩ := Prod.mk.inj (Option.some.inj returned)
    obtain ⟨length₁, fits₁, capacity₁, before₁, bytes₁⟩ := KernelString.copy_some copy
    obtain ⟨length₂, fits₂, capacity₂, before₂, _⟩ := KernelString.pushBackRaw_some pushed
    have limit := owned.capacity
    obtain ⟨stored, paths⟩ := owned.store (capacity₂.trans capacity₁)
      (by omega) (by omega) fun i inside => by rw [before₂ i (by omega), before₁ i inside]
    refine stored.pushRoot (r := ⟨_, _, _⟩) ?_ top ?_
    · simp only
      rw [Nat.add_mul]
      omega
    -- the path of the scope is copied in front of the name
    · rw [paths _ top, Nat.add_comm name.segments, segmentsAt_add]
      have copies : s.path s.activePaths.refTop = segmentsAt storage.bytes s.storage.length
          (s.roots s.activePaths.refTop).length := by
        refine segmentsAt_eq_iff.mpr fun i inside => ?_
        rw [before₂ _ (by omega), bytes₁ i inside]
      rw [copies]
      exact List.prefix_append _ _

theorem Owned.insert (owned : s.Owned) (returned : s.insert name = some (id, s')) :
    s'.Owned := by
  unfold PathSystem.insert at returned
  rw [Option.bind_eq_bind, Option.bind_eq_some_iff] at returned
  obtain ⟨found, _, returned⟩ := returned
  cases found with
  | some found =>
    cases returned
    exact owned
  | none =>
    obtain ⟨storage, pushed, returned⟩ := Option.bind_eq_some_iff.mp returned
    obtain ⟨owner, owns, returned⟩ := Option.bind_eq_some_iff.mp returned
    obtain ⟨rfl, rfl⟩ := Prod.mk.inj (Option.some.inj returned)
    obtain ⟨length, fits, capacity, before, _⟩ := KernelString.pushBackRaw_some pushed
    have limit := owned.capacity
    obtain ⟨stored, paths⟩ := owned.store capacity (by omega) (by omega) before
    have none : PathSystem.path { s with storage } 0 = [] := stored.path_zero
    have isOwner : owner < s.allocated ∧ PathSystem.path { s with storage } owner <+:
        segmentsAt storage.bytes s.storage.length name.segments := by
      unfold ownerOf at owns
      split at owns
      · cases owns
        rw [none]
        exact ⟨owned.zero_lt, List.nil_prefix⟩
      split at owns
      · cases owns
      obtain ⟨found, searched, result⟩ := Option.bind_eq_some_iff.mp owns
      cases found with
      | none =>
        cases result
        rw [Option.getD_none, none]
        exact ⟨owned.zero_lt, List.nil_prefix⟩
      | some found =>
        cases result
        -- all segments but the last
        obtain ⟨isId, same⟩ := find_some stored.inside stored.zero_lt searched
        have whole : segmentsAt storage.bytes s.storage.length name.segments =
            segmentsAt storage.bytes s.storage.length (name.segments - 1) ++
              segmentsAt storage.bytes (s.storage.length + 4 * (name.segments - 1)) 1 := by
          rw [← segmentsAt_add, Nat.sub_add_cancel (by omega)]
        have start : storage.length - name.segments * 4 = s.storage.length := by omega
        have front : segmentsAt (storage.currentSub (name.segments * 4)) 0 (name.segments - 1) =
            segmentsAt storage.bytes s.storage.length (name.segments - 1) := by
          refine segmentsAt_eq_iff.mpr fun i _ => ?_
          rw [KernelString.currentSub, start, Nat.zero_add]
        rw [Option.getD_some, same, none, List.nil_append, whole]
        exact ⟨isId, front ▸ List.prefix_append _ _⟩
    exact stored.pushRoot (r := ⟨_, _, _⟩) length.ge isOwner.1 isOwner.2

theorem Owned.pushPath (owned : s.Owned) {path : Nat} (isId : path < s.allocated)
    {appended : Bool} (returned : s.pushPath path appended = some s') : s'.Owned := by
  unfold PathSystem.pushPath at returned
  rw [Option.bind_eq_bind, Option.bind_eq_some_iff] at returned
  obtain ⟨activePaths, pushed, returned⟩ := returned
  cases returned
  obtain ⟨active, idle⟩ := push_active owned.idle pushed
  refine ⟨owned.capacity, owned.room, owned.table, owned.first, owned.inside, fun j used => ?_,
    idle, owned.owner⟩
  rcases active j used with same | ⟨before, same⟩
  · exact same ▸ isId
  · exact same ▸ owned.active j before

theorem Owned.popFrame (owned : s.Owned) (returned : s.popFrame = some s') : s'.Owned := by
  unfold PathSystem.popFrame at returned
  rw [Option.bind_eq_bind, Option.bind_eq_some_iff] at returned
  obtain ⟨⟨frame, frameStack⟩, _, returned⟩ := returned
  obtain ⟨activePaths, popped, returned⟩ := Option.bind_eq_some_iff.mp returned
  cases returned
  obtain ⟨active, idle⟩ := popActive_some owned.idle popped
  refine ⟨owned.capacity, owned.room, owned.table, owned.first, owned.inside, fun j used => ?_,
    idle, owned.owner⟩
  obtain ⟨before, same⟩ := active j used
  exact same ▸ owned.active j before

theorem Owned.pushFrame (owned : s.Owned) (returned : s.pushFrame = some s') : s'.Owned := by
  unfold PathSystem.pushFrame at returned
  rw [Option.bind_eq_bind, Option.bind_eq_some_iff] at returned
  obtain ⟨frameStack, _, returned⟩ := returned
  cases returned
  exact ⟨owned.capacity, owned.room, owned.table, owned.first, owned.inside, owned.active,
    owned.idle, owned.owner⟩

private theorem new_owned : PathSystem.new.Owned where
  capacity := rfl
  room := by decide
  table := ⟨by decide, rfl⟩
  first := ⟨by decide, rfl⟩
  inside := new_sound.inside
  active := new_sound.active
  idle := new_sound.idle
  owner := by
    have four : ∀ id : Fin 4, 0 < id.val → (new.roots id).owner < id.val ∧
        new.scopeOf (new.roots id).owner <+: new.path id := by decide
    exact fun id isId => four ⟨id, isId⟩

end PathSystem

namespace PathLog

variable {s s' : PathLog}

private theorem owned_serve (owned : s.system.Owned) {r : PathRequest} (calls : s.Calls r)
    (served : s.serve r = some s') : s'.system.Owned := by
  cases r <;> obtain ⟨result, returned, rfl⟩ := Option.map_eq_some_iff.mp served
  case pushFrame => exact owned.pushFrame returned
  case popFrame => exact owned.popFrame returned
  case pushAsAppended path => exact owned.pushPath calls returned
  case pushAsInserted path => exact owned.pushPath calls returned
  case append name => exact owned.append returned
  case insert name => exact owned.insert returned

theorem owned_run (run : Requests.Run serve Calls new s) : s.system.Owned :=
  run.keeps PathSystem.new_owned fun _ _ _ owned calls served => owned_serve owned calls served

end PathLog

/-! ### The search -/

namespace AmlCode

variable {code : AmlCode} {scopes : PageAllocator Scope} {buf : Segment} {current : Nat}

/-- A round of the search that does not end it: the path that is searched next. -/
def searchRound (code : AmlCode) (scopes : PageAllocator Scope) (buf : Segment)
    (searchPath : Nat) : Option Nat :=
  if searchPath = 0 then none
  else do
    let s ← scopes.values.find? fun s => s.path = searchPath
    let dro ← match s.nameSystem with
      | some ns => code.nameSystem.getMut ns buf
      | none => some none
    match dro with
    | some _ => none
    | none => code.pathSystem.getOwnerOf s.path

/-- The search is made of rounds, ends with the fuel it has, and goes from a scope to one that
holds it. -/
structure Climbs (code : AmlCode) (scopes : PageAllocator Scope) (buf : Segment)
    (current : Nat) : Prop where
  rounds : ∀ fuel searchPath, code.searchOwners scopes buf (fuel + 1) searchPath =
    (code.searchRound scopes buf searchPath).elim
      (code.searchOwners scopes buf 1 searchPath) (code.searchOwners scopes buf fuel)
  ends : Iteration.Ends (code.searchRound scopes buf) current
  enough : ∀ fuel, 2 ^ 16 ≤ fuel → code.searchOwners scopes buf fuel current =
    code.searchOwners scopes buf (2 ^ 16) current
  upward : ∀ n p q, stepsTo (code.searchRound scopes buf) n current = some p →
    code.searchRound scopes buf p = some q →
      q < p ∧ code.pathSystem.scopeOf q <+: code.pathSystem.path p
  once : ∀ m n p, stepsTo (code.searchRound scopes buf) m current = some p →
    stepsTo (code.searchRound scopes buf) n current = some p → m = n

/-- A round hands on to the next, or its result needs no more fuel. -/
theorem searchOwners_succ (fuel searchPath : Nat) :
    code.searchOwners scopes buf (fuel + 1) searchPath =
      (code.searchRound scopes buf searchPath).elim
        (code.searchOwners scopes buf 1 searchPath) (code.searchOwners scopes buf fuel) := by
  by_cases root : searchPath = 0
  · simp [searchOwners, searchRound, root]
  simp only [searchOwners, searchRound, if_neg root, Option.bind_eq_bind]
  cases scopes.values.find? fun s => s.path = searchPath with
  | none => rfl
  | some s =>
    simp only [Option.bind_some]
    cases s.nameSystem with
    | none => cases code.pathSystem.getOwnerOf s.path <;> rfl
    | some ns =>
      simp only
      cases code.nameSystem.getMut ns buf with
      | none => rfl
      | some dro =>
        cases dro with
        | some dro => rfl
        | none => cases code.pathSystem.getOwnerOf s.path <;> rfl

theorem searchRound_some {p q : Nat} (next : code.searchRound scopes buf p = some q) :
    p ≠ 0 ∧ code.pathSystem.getOwnerOf p = some q := by
  unfold searchRound at next
  split at next
  · cases next
  next other =>
    refine ⟨other, ?_⟩
    obtain ⟨s, found, next⟩ := Option.bind_eq_some_iff.mp next
    have same : s.path = p := by simpa using List.find?_some found
    cases system : s.nameSystem with
    | none =>
      rw [system] at next
      exact same ▸ next
    | some ns =>
      rw [system] at next
      obtain ⟨dro, _, next⟩ := Option.bind_eq_some_iff.mp next
      cases dro with
      | some dro => cases next
      | none => exact same ▸ next

private theorem searchRound_lt (owned : code.pathSystem.Owned) {p q : Nat}
    (isId : p < code.pathSystem.allocated) (next : code.searchRound scopes buf p = some q) :
    q < p ∧ code.pathSystem.scopeOf q <+: code.pathSystem.path p := by
  obtain ⟨other, isOwner⟩ := searchRound_some next
  rw [PathSystem.getOwnerOf, PathSystem.root_of_lt isId] at isOwner
  cases isOwner
  exact owned.owner p isId (Nat.pos_of_ne_zero other)

theorem searchRound_steps (owned : code.pathSystem.Owned) {n p q : Nat}
    (isId : p < code.pathSystem.allocated)
    (reached : stepsTo (code.searchRound scopes buf) n p = some q) : q + n ≤ p := by
  induction n generalizing q with
  | zero =>
    cases reached
    exact Nat.le_refl _
  | succ n ih =>
    obtain ⟨r, before, next⟩ := Option.bind_eq_some_iff.mp reached
    have above := ih before
    have smaller := (searchRound_lt owned (by omega) next).1
    omega

private theorem searchOwners_enough (owned : code.pathSystem.Owned) {fuel fuel' p : Nat}
    (isId : p < code.pathSystem.allocated) (enough : p < fuel) (enough' : p < fuel') :
    code.searchOwners scopes buf fuel p = code.searchOwners scopes buf fuel' p := by
  induction fuel generalizing fuel' p with
  | zero => exact absurd enough (Nat.not_lt_zero p)
  | succ fuel ih =>
    obtain ⟨fuel', rfl⟩ := Nat.exists_eq_succ_of_ne_zero (Nat.ne_of_gt (Nat.zero_lt_of_lt enough'))
    rw [Nat.succ_eq_add_one, searchOwners_succ, searchOwners_succ fuel']
    cases next : code.searchRound scopes buf p with
    | none => rfl
    | some q =>
      have smaller := (searchRound_lt owned isId next).1
      exact ih (by omega) (by omega) (by omega)

private theorem climbs_of_owned (owned : code.pathSystem.Owned)
    (isId : current < code.pathSystem.allocated) : code.Climbs scopes buf current where
  rounds := searchOwners_succ
  ends := by
    refine ⟨current + 1, ?_⟩
    cases reached : stepsTo (code.searchRound scopes buf) (current + 1) current with
    | none => rfl
    | some q =>
      have below := searchRound_steps owned isId reached
      omega
  enough := by
    intro fuel enough
    have table := owned.table
    exact searchOwners_enough owned isId (by omega) (by omega)
  upward := by
    intro n p q reached next
    have below := searchRound_steps owned isId reached
    exact searchRound_lt owned (by omega) next
  once := by
    intro m n p first second
    -- the path that is reached later would be smaller
    have later {m n : Nat} (first : stepsTo (code.searchRound scopes buf) m current = some p)
        (second : stepsTo (code.searchRound scopes buf) n current = some p) : n ≤ m := by
      by_contra more
      obtain ⟨q, before, after⟩ := reached_before second (Nat.le_of_not_le more)
      cases first.symm.trans before
      have above := searchRound_steps owned isId first
      have below := searchRound_steps owned (by omega) after
      omega
    exact Nat.le_antisymm (later second first) (later first second)

/-- In every run, the ids behind the first four have smaller owners, and a name is searched from
the current scope up to the root. -/
theorem search_climbs {s : PathLog} (run : Requests.Run PathLog.serve PathLog.Calls .new s)
    (code : AmlCode) (system : code.pathSystem = s.system)
    (isId : code.currentExecutingPath < s.system.allocated) :
    (∀ id, 4 ≤ id → id < s.system.allocated →
      ∃ owner, s.system.getOwnerOf id = some owner ∧ owner < id) ∧
    ∀ buf, code.Climbs code.scopes buf code.currentExecutingPath ∧
      code.Climbs code.devices buf code.currentExecutingPath := by
  have owned := PathLog.owned_run run
  refine ⟨fun id later isId => ⟨(s.system.roots id).owner, ?_, ?_⟩, fun buf => ?_⟩
  · rw [PathSystem.getOwnerOf, PathSystem.root_of_lt isId]
    rfl
  · exact (owned.owner id isId (by omega)).1
  · rw [← system] at owned isId
    exact ⟨climbs_of_owned owned isId, climbs_of_owned owned isId⟩

/-- A name in the scope of another. -/
def nestedScope : List PathRequest :=
  [.pushFrame, .insert (.single (segment 0x41 0x42 0x43 0x44) true), .pushAsInserted 4,
    .append (.single (segment 0x45 0x46 0x47 0x48) false)]

theorem search_climbs_nested : ∃ s,
    Requests.Run PathLog.serve PathLog.Calls .new s ∧ s.system.getOwnerOf 5 = some 4 ∧
      ∀ buf, AmlCode.Climbs
        { oneMethod [] with pathSystem := s.system, currentExecutingPath := 5 }
        (oneMethod []).scopes buf 5 := by
  have served : ((Requests.serveAll PathLog.serve PathLog.Calls .new nestedScope).map fun s =>
      (s.system.allocated, s.system.getOwnerOf 5)) = some (6, some 4) := by decide +kernel
  obtain ⟨s, ran, result⟩ := Option.map_eq_some_iff.mp served
  obtain ⟨six, owner⟩ := Prod.mk.inj result
  have run := Requests.serveAll_run ran
  have climbs := search_climbs run
    { oneMethod [] with pathSystem := s.system, currentExecutingPath := 5 } rfl
    (by simp only [six]; decide)
  exact ⟨s, run, owner, fun buf => (climbs.2 buf).1⟩

end AmlCode

end EmkKernel
