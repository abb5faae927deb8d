import EmkKernel.Aml.FieldSystem

/-!
# Adding elements

A system grows by its last fragment or gets a second one, and its elements are those that were
added to it, in order.
-/

namespace EmkKernel

namespace FieldSystem

variable {s s' : FieldSystem} {fs n b : Nat}

/-- From `s` to `s'` a system owns one more entry, the first that is not allocated. -/
structure Grows (s : FieldSystem) (fs count : Nat) (s' : FieldSystem) : Prop where
  same : ∃ systems buckets, s' = { s with systems := systems, referenceBuckets := buckets }
  systems : s'.systems.allocated = s.systems.allocated ∧ s'.systems.capacity = s.systems.capacity
  buckets : s'.referenceBuckets.allocated ≤ s.referenceBuckets.capacity ∧
    s'.referenceBuckets.capacity = s.referenceBuckets.capacity
  pairs : ∀ fs' < s.systems.allocated, (s'.systems.slots fs').length = 2
  fragments : Fragments (wide s'.systems) s'.referenceBuckets (s.entries.allocated + 1)
  owned : ∀ fs' < s.systems.allocated, s'.owned fs' =
    s.owned fs' ++ if fs' = fs then [s.entries.allocated] else []
  last : ∃ b, (s'.fragments fs).getLast? = some b ∧
    (s'.referenceBuckets.slots b).behind = s.entries.allocated + 1 ∧
    (s'.referenceBuckets.slots b).count = count

theorem growFragment_continues (sound : s.Sound) (made : fs < s.systems.allocated)
    (last : (s.fragments fs).getLast? = some b)
    (ends : (s.referenceBuckets.slots b).behind = s.entries.allocated)
    (few : (s.referenceBuckets.slots b).count + 1 < 2 ^ 8) :
    ∃ s', s.growFragment fs = some s' ∧ s.Grows fs ((s.referenceBuckets.slots b).count + 1) s' := by
  obtain ⟨b', last', -, continued⟩ := sound.canContinue made
  obtain rfl := Option.some.inj (last.symm.trans last')
  obtain ⟨fragments, owned⟩ := sound.fragments.extend made last ends few
  refine ⟨s.setCount b ((s.referenceBuckets.slots b).count + 1), ?_, ⟨s.systems, _, rfl⟩,
    ⟨rfl, rfl⟩, ⟨sound.within.2.1, rfl⟩, sound.pairs, fragments, owned, b, last, ?_, ?_⟩
  · rw [growFragment, continued, if_pos ends]
    exact if_pos few
  · simp only [setCount, PageAllocator.set, Function.update_self, ← ends]
    rfl
  · simp only [setCount, PageAllocator.set, Function.update_self]

private theorem growFragment_full (sound : s.Sound) (made : fs < s.systems.allocated)
    (last : (s.fragments fs).getLast? = some b)
    (ends : (s.referenceBuckets.slots b).behind = s.entries.allocated)
    (full : ¬(s.referenceBuckets.slots b).count + 1 < 2 ^ 8) : s.growFragment fs = none := by
  obtain ⟨b', last', -, continued⟩ := sound.canContinue made
  obtain rfl := Option.some.inj (last.symm.trans last')
  rw [growFragment, continued, if_pos ends]
  exact if_neg full

private theorem growFragment_fragmented (sound : s.Sound) (made : fs < s.systems.allocated)
    (stopped : ¬s.Continues fs) (both : ¬(s.fragments fs).length < 2) :
    s.growFragment fs = none := by
  obtain ⟨b, last, -, continued⟩ := sound.canContinue made
  obtain ⟨short, split⟩ := sound.split made
  rw [if_neg fun ends => stopped ⟨b, last, ends⟩] at continued
  have slot : s.systems.asRef fs = some (s.systems.slots fs) := if_neg (by omega)
  have search : (s.systems.slots fs).findIdx? (· = 0) = none := by
    rw [split, show 2 - (s.fragments fs).length = 0 by omega, List.replicate_zero,
      List.append_nil]
    exact findIdx?_zero_none fun b member => usedFragments_ne_zero member
  rw [growFragment, continued]
  simp only [Option.bind_eq_bind, Option.bind_some, attachReferenceBucket, slot, search,
    Option.bind_none]

theorem attachReferenceBucket_free (sound : s.Sound) (made : fs < s.systems.allocated)
    (free : (s.fragments fs).length < 2)
    (room : s.referenceBuckets.allocated < s.referenceBuckets.capacity) :
    ∃ k, (s.fragments fs).length + 1 + k = 2 ∧
      s.attachReferenceBucket fs = some (s.referenceBuckets.allocated, { s with
        systems := s.systems.set fs
          ((s.fragments fs ++ [s.referenceBuckets.allocated]) ++ List.replicate k 0)
        referenceBuckets := s.referenceBuckets.pushed ⟨s.entries.allocated, 0⟩ }) := by
  have small := sound.capacities
  have within := sound.within
  obtain ⟨-, split⟩ := sound.split made
  obtain ⟨k, rest⟩ : ∃ k, 2 - (s.fragments fs).length = k + 1 :=
    ⟨1 - (s.fragments fs).length, by omega⟩
  refine ⟨k, by omega, ?_⟩
  rw [rest] at split
  have slot : s.systems.asRef fs = some (s.fragments fs ++ List.replicate (k + 1) 0) := by
    rw [← split]
    exact if_neg (by omega)
  have search := findIdx?_zero (l := s.fragments fs) (fun b => usedFragments_ne_zero) k
  have buckets : s.referenceBuckets.allocated % 2 ^ 16 = s.referenceBuckets.allocated :=
    Nat.mod_eq_of_lt (by omega)
  have entries : s.entries.allocated % 2 ^ 16 = s.entries.allocated :=
    Nat.mod_eq_of_lt (by omega)
  rw [attachReferenceBucket, slot]
  simp only [Option.bind_eq_bind, Option.bind_some, search, PageAllocator.size, buckets, entries,
    set_zero, PageAllocator.pushBack_eq room, PageAllocator.asRef_pushed]

theorem growFragment_attaches (sound : s.Sound) (made : fs < s.systems.allocated)
    (stopped : ¬s.Continues fs) (free : (s.fragments fs).length < 2)
    (room : s.referenceBuckets.allocated < s.referenceBuckets.capacity) :
    ∃ s', s.growFragment fs = some s' ∧ s.Grows fs 1 s' := by
  obtain ⟨b, last, -, continued⟩ := sound.canContinue made
  rw [if_neg fun ends => stopped ⟨b, last, ends⟩] at continued
  obtain ⟨k, two, attached⟩ := attachReferenceBucket_free sound made free room
  have zeros : List.replicate (k + 2) 0 = List.replicate k 0 ++ [0, 0] := List.replicate_add ..
  have wider : wide (s.systems.set fs
      ((s.fragments fs ++ [s.referenceBuckets.allocated]) ++ List.replicate k 0)) =
      (wide s.systems).set fs
        ((s.fragments fs ++ [s.referenceBuckets.allocated]) ++ List.replicate (k + 2) 0) := by
    rw [wide_set, zeros, ← List.append_assoc]
  have four : (s.fragments fs).length + 1 + (k + 2) = 4 := by omega
  obtain ⟨fragments, owned⟩ := sound.fragments.begins made four
  refine ⟨{ s with
    systems := s.systems.set fs
      ((s.fragments fs ++ [s.referenceBuckets.allocated]) ++ List.replicate k 0)
    referenceBuckets := s.referenceBuckets.pushed ⟨s.entries.allocated, 1⟩ }, ?_, ⟨_, _, rfl⟩,
    ⟨rfl, rfl⟩, ⟨room, rfl⟩, ?_, wider ▸ fragments, ?_, s.referenceBuckets.allocated, ?_, ?_, ?_⟩
  · rw [growFragment, continued]
    simp only [Option.bind_eq_bind, Option.bind_some, attached, setCount,
      PageAllocator.slots_pushed, PageAllocator.set_pushed]
  · intro fs' made'
    by_cases same : fs' = fs
    · subst same
      simp only [PageAllocator.set, Function.update_self, List.length_append,
        List.length_replicate, List.length_singleton]
      exact two
    · simp only [PageAllocator.set, Function.update_of_ne same]
      exact sound.pairs fs' made'
  · intro fs' made'
    rw [FieldSystem.owned, wider]
    exact owned fs' made'
  · have nonzero : ∀ b ∈ s.fragments fs ++ [s.referenceBuckets.allocated], b ≠ 0 := by
      intro b member
      rcases List.mem_append.1 member with earlier | new
      · exact usedFragments_ne_zero earlier
      · rw [List.mem_singleton.1 new]
        exact sound.fragments.first.ne'
    have slot : ((wide s.systems).set fs ((s.fragments fs ++ [s.referenceBuckets.allocated]) ++
        List.replicate (k + 2) 0)).slots fs = _ := Function.update_self ..
    rw [FieldSystem.fragments, wider, slot, usedFragments_append nonzero, List.getLast?_concat]
  · rw [PageAllocator.slots_pushed]
    rfl
  · rw [PageAllocator.slots_pushed]

/-- What the additions of a list do. -/
structure Adds (s : FieldSystem) (fs : Nat) (added : List FieldElement) (s' : FieldSystem) :
    Prop where
  sound : s'.Sound
  systems : s'.systems.allocated = s.systems.allocated ∧
    s'.systems.capacity = s.systems.capacity
  buckets : s'.referenceBuckets.capacity = s.referenceBuckets.capacity
  entries : s'.entries.allocated = s.entries.allocated + added.length ∧
    s'.entries.capacity = s.entries.capacity
  flags : s'.currentFlags = s.currentFlags
  elements : ∀ fs' < s.systems.allocated, s'.elements fs' =
    s.elements fs' ++ if fs' = fs then added.map (·, s.currentFlags) else []

/-- There is room for so many elements of a system. -/
structure HasRoom (s : FieldSystem) (fs n : Nat) : Prop where
  entries : s.entries.allocated + n ≤ s.entries.capacity
  bucket : ¬s.Continues fs → 0 < n → s.referenceBuckets.allocated < s.referenceBuckets.capacity

private theorem lastCount_eq (last : (s.fragments fs).getLast? = some b) :
    s.lastCount fs = (s.referenceBuckets.slots b).count := by
  rw [lastCount, last]
  rfl

/-- `add` with a fragment that has grown. -/
theorem add_grown {count : Nat} (sound : s.Sound) (made : fs < s.systems.allocated)
    (room : s.entries.allocated < s.entries.capacity) {grown : FieldSystem}
    (grew : s.growFragment fs = some grown) (grows : s.Grows fs count grown)
    (element : FieldElement) : ∃ s', s.add fs element = some s' ∧ s.Adds fs [element] s' ∧
      s'.Continues fs ∧ s'.lastCount fs = count := by
  have small := sound.capacities
  have within := sound.within
  obtain ⟨systems, buckets, rfl⟩ := grows.same
  have allocated : s.allocateNewEntry fs = some (s.entries.allocated, { s with
      systems := systems
      referenceBuckets := buckets
      entries := { s.entries with
        slots := Function.update s.entries.slots s.entries.allocated (.default, 0)
        allocated := s.entries.allocated + 1 } }) := by
    rw [allocateNewEntry, grew]
    simp only [Option.bind_eq_bind, Option.bind_some, PageAllocator.pushBack, PageAllocator.size]
    rw [if_neg (by omega), PageAllocator.asRef, if_neg (by simp only; omega)]
    rfl
  have valid : ¬fs > s.systems.size % 2 ^ 16 := by
    rw [PageAllocator.size, Nat.mod_eq_of_lt (by omega)]
    omega
  let s' : FieldSystem := { s with
    systems := systems
    referenceBuckets := buckets
    entries := { s.entries with
      slots := Function.update s.entries.slots s.entries.allocated (element, s.currentFlags)
      allocated := s.entries.allocated + 1 } }
  have added : s.add fs element = some s' := by
    rw [add, if_neg valid]
    simp only [allocated, Option.bind_eq_bind, Option.bind_some, PageAllocator.set,
      Function.update_idem]
    rfl
  have slot : ∀ j < s.entries.allocated, s'.entries.slots j = s.entries.slots j :=
    fun j below => Function.update_of_ne (Nat.ne_of_lt below) _ _
  have new : s'.entries.slots s.entries.allocated = (element, s.currentFlags) :=
    Function.update_self ..
  refine ⟨s', added, ⟨⟨?_, ?_, ?_, grows.fragments⟩, grows.systems, grows.buckets.2, ⟨rfl, rfl⟩,
    rfl, ?_⟩, ?_, ?_⟩
  · rw [grows.systems.2, grows.buckets.2]
    exact small
  · rw [grows.systems.1, grows.systems.2, grows.buckets.2]
    exact ⟨within.1, grows.buckets.1, room⟩
  · intro fs' below
    exact grows.pairs fs' (by rwa [grows.systems.1] at below)
  · intro fs' below
    have olds : (s.owned fs').map s'.entries.slots = s.elements fs' :=
      List.map_congr_left fun j member => slot j (sound.fragments.owned_lt below member)
    rw [elements, show s'.owned fs' = _ from grows.owned fs' below, List.map_append, olds]
    by_cases same : fs' = fs
    · rw [if_pos same, if_pos same]
      simp only [List.map_cons, List.map_nil, new]
    · rw [if_neg same, if_neg same, List.map_nil]
  · obtain ⟨b, last, ends, -⟩ := grows.last
    exact ⟨b, last, ends⟩
  · obtain ⟨b, last, -, counted⟩ := grows.last
    exact (lastCount_eq last).trans counted

private theorem add_takes (sound : s.Sound) (made : fs < s.systems.allocated)
    (room : s.HasRoom fs 1) (takes : s.Takes fs 1) (element : FieldElement) :
    ∃ s', s.add fs element = some s' ∧ s.Adds fs [element] s' ∧ s'.Continues fs ∧
      ∀ n, s'.Takes fs n ↔ s.Takes fs (n + 1) := by
  obtain ⟨continues, few⟩ | ⟨stopped, free, -⟩ := takes.resolve_left Nat.one_ne_zero
  · obtain ⟨b, last, ends⟩ := continues
    rw [lastCount_eq last] at few
    obtain ⟨grown, grew, grows⟩ := growFragment_continues sound made last ends few
    obtain ⟨s', added, adds, continues', counted⟩ :=
      add_grown sound made room.entries grew grows element
    refine ⟨s', added, adds, continues', fun n => ?_⟩
    have continues : s.Continues fs := ⟨b, last, ends⟩
    simp only [Takes, continues', continues, counted, lastCount_eq last, not_true_eq_false,
      true_and, false_and, or_false]
    omega
  · obtain ⟨grown, grew, grows⟩ :=
      growFragment_attaches sound made stopped free (room.bucket stopped Nat.one_pos)
    obtain ⟨s', added, adds, continues', counted⟩ :=
      add_grown sound made room.entries grew grows element
    refine ⟨s', added, adds, continues', fun n => ?_⟩
    simp only [Takes, continues', stopped, free, counted, not_true_eq_false, not_false_eq_true,
      true_and, false_and, or_false, false_or]
    omega

private theorem add_refused (sound : s.Sound) (made : fs < s.systems.allocated)
    (refused : ¬s.Takes fs 1) (element : FieldElement) : s.add fs element = none := by
  have none : s.growFragment fs = none := by
    by_cases continues : s.Continues fs
    · obtain ⟨b, last, ends⟩ := continues
      refine growFragment_full sound made last ends fun few => refused (Or.inr (Or.inl ?_))
      rw [lastCount_eq last]
      exact ⟨⟨b, last, ends⟩, few⟩
    · refine growFragment_fragmented sound made continues fun free => refused ?_
      exact Or.inr (Or.inr ⟨continues, free, by decide⟩)
  rw [add]
  split
  · rfl
  · simp only [allocateNewEntry, none, Option.bind_eq_bind, Option.bind_none]

theorem Takes.mono {m : Nat} (takes : s.Takes fs n) (less : m ≤ n) : s.Takes fs m := by
  obtain none | ⟨continues, few⟩ | ⟨stopped, free, few⟩ := takes
  · exact Or.inl (by omega)
  · exact Or.inr (Or.inl ⟨continues, by omega⟩)
  · exact Or.inr (Or.inr ⟨stopped, free, by omega⟩)

theorem Adds.refl (sound : s.Sound) (fs : Nat) : s.Adds fs [] s :=
  ⟨sound, ⟨rfl, rfl⟩, rfl, ⟨rfl, rfl⟩, rfl, fun fs' _ => by
    rw [List.map_nil, ite_self, List.append_nil]⟩

theorem Adds.trans {s'' : FieldSystem} {first later : List FieldElement}
    (adds : s.Adds fs first s') (adds' : s'.Adds fs later s'') :
    s.Adds fs (first ++ later) s'' := by
  refine ⟨adds'.sound, ⟨adds'.systems.1.trans adds.systems.1,
    adds'.systems.2.trans adds.systems.2⟩, adds'.buckets.trans adds.buckets,
    ⟨?_, adds'.entries.2.trans adds.entries.2⟩, adds'.flags.trans adds.flags, ?_⟩
  · rw [adds'.entries.1, adds.entries.1, List.length_append, Nat.add_assoc]
  · intro fs' below
    rw [adds'.elements fs' (by rwa [adds.systems.1]), adds.elements fs' below, adds.flags,
      List.append_assoc]
    split
    · rw [List.map_append]
    · rfl

/-- Elements for which there is room are added behind the others if the fragments of the system
take them, else the code panics. -/
theorem addAll_cases (sound : s.Sound) (made : fs < s.systems.allocated)
    {added : List FieldElement} (room : s.HasRoom fs added.length) :
    (s.Takes fs added.length ∧ ∃ s', s.addAll fs added = some s' ∧ s.Adds fs added s') ∨
      (¬s.Takes fs added.length ∧ s.addAll fs added = none) := by
  induction added generalizing s with
  | nil => exact Or.inl ⟨Or.inl rfl, s, rfl, .refl sound fs⟩
  | cons element rest ih =>
    obtain ⟨entries, bucket⟩ := room
    rw [List.length_cons] at entries bucket ⊢
    rw [addAll, List.foldlM_cons, Option.bind_eq_bind]
    by_cases takes : s.Takes fs 1
    · obtain ⟨s', added, adds, continues, takes_iff⟩ :=
        add_takes sound made ⟨by omega, fun stopped _ => bucket stopped (by omega)⟩ takes element
      have rooms : s'.HasRoom fs rest.length := by
        refine ⟨?_, fun stopped => absurd continues stopped⟩
        rw [adds.entries.1, adds.entries.2, List.length_singleton]
        omega
      have made' : fs < s'.systems.allocated := by rwa [adds.systems.1]
      rw [added, Option.bind_some, ← takes_iff]
      obtain ⟨takes', s'', later, adds'⟩ | ⟨refused, none⟩ := ih adds.sound made' rooms
      · exact Or.inl ⟨takes', s'', later, adds.trans adds'⟩
      · exact Or.inr ⟨refused, none⟩
    · refine Or.inr ⟨fun all => takes (all.mono (by omega)), ?_⟩
      rw [add_refused sound made takes, Option.bind_none]

theorem Sound.setFlags (sound : s.Sound) (flags : Nat) : (s.setFlags flags).Sound :=
  ⟨sound.capacities, sound.within, sound.pairs, sound.fragments⟩

/-! ### New systems -/

/-- A new system has no elements, and the others keep theirs. -/
structure Makes (s : FieldSystem) (flags : Nat) (s' : FieldSystem) : Prop where
  sound : s'.Sound
  systems : s'.systems.allocated = s.systems.allocated + 1 ∧
    s'.systems.capacity = s.systems.capacity
  buckets : s'.referenceBuckets.capacity = s.referenceBuckets.capacity
  entries : s'.entries = s.entries
  flags : s'.currentFlags = flags
  elements : ∀ fs < s.systems.allocated, s'.elements fs = s.elements fs
  empty : s'.elements s.systems.allocated = []
  continues : s'.Continues s.systems.allocated
  takes : ∀ n, s'.Takes s.systems.allocated n ↔ n < 2 ^ 8

theorem newSystem_room (sound : s.Sound) (room : s.systems.allocated < s.systems.capacity)
    (bucket : s.referenceBuckets.allocated < s.referenceBuckets.capacity) (flags : Nat) :
    (s.newSystem flags).1 = s.systems.allocated ∧ s.Makes flags (s.newSystem flags).2 := by
  have small := sound.capacities
  have within := sound.within
  have number : (s.newSystem flags).1 = s.systems.allocated := Nat.mod_eq_of_lt (by
    rw [PageAllocator.size]
    omega)
  let s' : FieldSystem := { s with
    systems := s.systems.pushed [s.referenceBuckets.allocated, 0]
    referenceBuckets := s.referenceBuckets.pushed ⟨s.entries.allocated, 0⟩
    currentFlags := flags }
  have made : (s.newSystem flags).2 = s' := by
    simp only [newSystem, PageAllocator.size]
    rw [PageAllocator.pushBack_eq bucket, PageAllocator.pushBack_eq room,
      Nat.mod_eq_of_lt (by omega), Nat.mod_eq_of_lt (by omega)]
  have wider : wide s'.systems = (wide s.systems).pushed [s.referenceBuckets.allocated, 0, 0, 0] :=
    wide_pushed ..
  obtain ⟨fragments, used, owned⟩ := sound.fragments.opens
  rw [← wider] at fragments used
  have last : (s'.fragments s.systems.allocated).getLast? = some s.referenceBuckets.allocated :=
    congrArg List.getLast? used
  have entries (fs : Nat) (below : fs ≤ s.systems.allocated) :
      s'.owned fs = if fs = s.systems.allocated then [] else s.owned fs := by
    rw [FieldSystem.owned, wider]
    exact owned fs below
  have bucket' : s'.referenceBuckets.slots s.referenceBuckets.allocated =
      ⟨s.entries.allocated, 0⟩ := PageAllocator.slots_pushed _
  have continues : s'.Continues s.systems.allocated := by
    refine ⟨_, last, ?_⟩
    rw [bucket']
    rfl
  rw [made]
  refine ⟨number, ⟨small, ⟨room, bucket, within.2.2⟩, ?_, fragments⟩, ⟨rfl, rfl⟩, rfl, rfl, rfl,
    ?_, ?_, continues, ?_⟩
  · intro fs below
    by_cases new : fs = s.systems.allocated
    · rw [new, show s'.systems.slots _ = _ from PageAllocator.slots_pushed _]
      rfl
    · rw [show s'.systems.slots fs = s.systems.slots fs from Function.update_of_ne new _ _]
      exact sound.pairs fs (Nat.lt_of_le_of_ne (Nat.le_of_lt_succ below) new)
  · intro fs below
    rw [elements, entries fs (Nat.le_of_lt below), if_neg (Nat.ne_of_lt below)]
    rfl
  · rw [elements, entries _ (Nat.le_refl _), if_pos rfl, List.map_nil]
  · intro n
    have none : s'.lastCount s.systems.allocated = 0 := by rw [lastCount_eq last, bucket']
    simp only [Takes, continues, none, not_true_eq_false, true_and, false_and, or_false]
    omega

end FieldSystem

end EmkKernel
