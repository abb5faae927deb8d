import EmkKernel.Aml.NameFragments

/-!
# The elements of fields

`aml::field_system::FieldSystem`: a system gets the elements of one field, through at most
two fragments of one table of entries. A call that panics has no value.
-/

namespace EmkKernel

inductive FieldElement where
  | default
  | namedField (name : Segment) (packageLength : Nat)
  | reservedField (packageLength : Nat)
  | accessField (accessType attrib : Nat)
  deriving DecidableEq

structure FieldSystem where
  systems : PageAllocator (List Nat)
  referenceBuckets : PageAllocator ReferenceBucket
  entries : PageAllocator (FieldElement × Nat)
  currentFlags : Nat

/-- The capacity of an array for which `PageAllocator::new` takes pages. -/
def pageCapacity (sizeOfEntry capacity : Nat) : Nat :=
  (capacity * sizeOfEntry + 0xFFF) / 0x1000 * 0x1000 / sizeOfEntry

/-- The pages of the arrays before `FieldSystem::new`, and the size of an entry, which the
compiler chooses. -/
structure FieldMemory where
  systems : Nat → List Nat
  referenceBuckets : Nat → ReferenceBucket
  entries : Nat → FieldElement × Nat
  sizeOfEntry : Nat
  positive : 0 < sizeOfEntry

namespace FieldSystem

/-- `FieldSystem::new`; the 0th bucket is invalid. -/
def new (memory : FieldMemory) : FieldSystem where
  systems := ⟨memory.systems, 0, pageCapacity 4 256⟩
  referenceBuckets :=
    (PageAllocator.pushBack ⟨memory.referenceBuckets, 0, pageCapacity 4 256⟩ ⟨0, 0⟩).2
  entries := ⟨memory.entries, 0, pageCapacity memory.sizeOfEntry 256⟩
  currentFlags := 0

variable (self : FieldSystem)

/-- The loop of `can_continue`: the bucket that ends where the entries do. -/
def continuable : List Nat → Option (Option Nat)
  | [] => some none
  | fragment :: rest =>
    if fragment = 0 then continuable rest
    else do
      let bucket ← self.referenceBuckets.asRef fragment
      let behind ← toU16 (bucket.start + bucket.count)
      if behind = self.entries.size % 2 ^ 16 then some (some fragment) else continuable rest

def canContinue (nameSystem : Nat) : Option (Option Nat) := do
  self.continuable (← self.systems.asRef nameSystem)

/-- `attach_reference_bucket`: also the index of the bucket. Both fragments in use are a
fragmentation error. -/
def attachReferenceBucket (nameSystem : Nat) : Option (Nat × FieldSystem) := do
  let fragments ← self.systems.asRef nameSystem
  let i ← fragments.findIdx? (· = 0)
  let fragment := self.referenceBuckets.size % 2 ^ 16
  let attached := { self with
    systems := self.systems.set nameSystem (fragments.set i fragment)
    referenceBuckets :=
      (self.referenceBuckets.pushBack ⟨self.entries.size % 2 ^ 16, 0⟩).2 }
  let _ ← attached.referenceBuckets.asRef fragment
  some (fragment, attached)

/-- `*count = count` for a bucket. -/
def setCount (fragment count : Nat) : FieldSystem :=
  let bucket := self.referenceBuckets.slots fragment
  { self with referenceBuckets := self.referenceBuckets.set fragment ⟨bucket.start, count⟩ }

/-- The count of a bucket is a `u8`. -/
def growFragment (nameSystem : Nat) : Option FieldSystem := do
  match ← self.canContinue nameSystem with
  | some fragment =>
    let count := (self.referenceBuckets.slots fragment).count
    if count + 1 < 2 ^ 8 then some (self.setCount fragment (count + 1)) else none
  | none =>
    let (fragment, attached) ← self.attachReferenceBucket nameSystem
    some (attached.setCount fragment 1)

/-- `allocate_new_entry`: also the index of the entry. Whether there was room is not looked at. -/
def allocateNewEntry (nameSystem : Nat) : Option (Nat × FieldSystem) := do
  let grown ← self.growFragment nameSystem
  let index := grown.entries.size
  let allocated := { grown with entries := (grown.entries.pushBack (.default, 0)).2 }
  let _ ← allocated.entries.asRef index
  some (index, allocated)

def newSystem (flags : Nat) : Nat × FieldSystem :=
  let referenceBucketIndex := self.referenceBuckets.size % 2 ^ 16
  (self.systems.size % 2 ^ 16, { self with
    referenceBuckets := (self.referenceBuckets.pushBack ⟨self.entries.size % 2 ^ 16, 0⟩).2
    systems := (self.systems.pushBack [referenceBucketIndex, 0]).2
    currentFlags := flags })

def add (fs : Nat) (fieldElement : FieldElement) : Option FieldSystem :=
  if fs > self.systems.size % 2 ^ 16 then none
  else do
    let (index, allocated) ← self.allocateNewEntry fs
    some { allocated with
      entries := allocated.entries.set index (fieldElement, self.currentFlags) }

def setFlags (flags : Nat) : FieldSystem := { self with currentFlags := flags }

/-- Several elements, one after another. -/
def addAll (fs : Nat) (fieldElements : List FieldElement) : Option FieldSystem :=
  fieldElements.foldlM (fun system fieldElement => system.add fs fieldElement) self

/-! ### Fragments -/

/-- The systems with room for as many fragments as a name system has. -/
def wide (systems : PageAllocator (List Nat)) : PageAllocator (List Nat) :=
  { systems with slots := fun fs => systems.slots fs ++ [0, 0] }

theorem wide_set (systems : PageAllocator (List Nat)) (fs : Nat) (l : List Nat) :
    wide (systems.set fs l) = (wide systems).set fs (l ++ [0, 0]) := by
  have slots : (fun fs' => Function.update systems.slots fs l fs' ++ [0, 0]) =
      Function.update (fun fs' => systems.slots fs' ++ [0, 0]) fs (l ++ [0, 0]) :=
    funext fun fs' => Function.apply_update (fun _ l => l ++ [0, 0]) systems.slots fs l fs'
  rw [PageAllocator.set, PageAllocator.set, wide, wide, slots]

theorem wide_pushed (systems : PageAllocator (List Nat)) (l : List Nat) :
    wide (systems.pushed l) = (wide systems).pushed (l ++ [0, 0]) :=
  congrArg (fun slots => (⟨slots, systems.allocated + 1, systems.capacity⟩ :
    PageAllocator (List Nat))) (congrArg PageAllocator.slots (wide_set systems _ l))

def fragments (fs : Nat) : List Nat := usedFragments ((wide self.systems).slots fs)

/-- The entries of a system. -/
def owned (fs : Nat) : List Nat := ownedEntries (wide self.systems) self.referenceBuckets fs

/-- The elements of a system and the flags that they were added with. -/
def elements (fs : Nat) : List (FieldElement × Nat) := (self.owned fs).map self.entries.slots

/-- The last fragment ends where the entries do. -/
def Continues (fs : Nat) : Prop := ∃ b, (self.fragments fs).getLast? = some b ∧
  (self.referenceBuckets.slots b).behind = self.entries.allocated

/-- The entries of the last fragment. -/
def lastCount (fs : Nat) : Nat :=
  (((self.fragments fs).getLast?.map self.referenceBuckets.slots).map ReferenceBucket.count).getD 0

/-- So many elements are added: the last fragment can count them, or a second fragment is
there for them. -/
def Takes (fs n : Nat) : Prop :=
  n = 0 ∨ (self.Continues fs ∧ self.lastCount fs + n < 2 ^ 8) ∨
    (¬self.Continues fs ∧ (self.fragments fs).length < 2 ∧ n < 2 ^ 8)

/-- The arrays are not overfull, and the fragments of each system are in order. -/
structure Sound (s : FieldSystem) : Prop where
  capacities : s.systems.capacity < 2 ^ 16 ∧ s.referenceBuckets.capacity < 2 ^ 16 ∧
    s.entries.capacity < 2 ^ 16
  within : s.systems.allocated ≤ s.systems.capacity ∧
    s.referenceBuckets.allocated ≤ s.referenceBuckets.capacity ∧
    s.entries.allocated ≤ s.entries.capacity
  pairs : ∀ fs < s.systems.allocated, (s.systems.slots fs).length = 2
  fragments : Fragments (wide s.systems) s.referenceBuckets s.entries.allocated

private theorem pageCapacity_le {size capacity : Nat} (positive : 0 < size) :
    pageCapacity size capacity ≤ capacity + 0xFFF := by
  have pages : (capacity * size + 0xFFF) / 0x1000 * 0x1000 ≤ (capacity + 0xFFF) * size := by
    have below := Nat.div_mul_le_self (capacity * size + 0xFFF) 0x1000
    have more := Nat.le_mul_of_pos_right 0xFFF positive
    rw [Nat.add_mul]
    omega
  exact Nat.div_le_of_le_mul (by rwa [Nat.mul_comm size])

theorem new_sound (memory : FieldMemory) : (new memory).Sound := by
  have entries := @pageCapacity_le memory.sizeOfEntry 256 memory.positive
  have words : pageCapacity 4 256 = 1024 := rfl
  refine ⟨⟨?_, ?_, ?_⟩, ⟨Nat.zero_le _, ?_, Nat.zero_le _⟩, ?_, ?_⟩
  · exact show pageCapacity 4 256 < 2 ^ 16 by omega
  · exact show pageCapacity 4 256 < 2 ^ 16 by omega
  · exact show pageCapacity memory.sizeOfEntry 256 < 2 ^ 16 by omega
  · exact show 1 ≤ pageCapacity 4 256 by omega
  · exact fun fs made => absurd made (Nat.not_lt_zero fs)
  · refine ⟨Nat.one_pos, ?_, ?_, ?_, ?_, ?_, ?_⟩ <;>
    exact fun fs made => absurd made (Nat.not_lt_zero fs)

variable {s s' : FieldSystem} {fs n b : Nat}

/-- A system has one or two fragments, and zeros behind them. -/
theorem Sound.split (sound : s.Sound) (made : fs < s.systems.allocated) :
    (s.fragments fs).length ≤ 2 ∧ s.systems.slots fs =
      s.fragments fs ++ List.replicate (2 - (s.fragments fs).length) 0 := by
  have pair := sound.pairs fs made
  obtain ⟨k, shape, four⟩ := sound.fragments.shape fs made
  have used : s.fragments fs = usedFragments (s.systems.slots fs) := by
    unfold FieldSystem.fragments usedFragments wide
    rw [List.takeWhile_append]
    split
    next whole =>
      exact (List.append_nil _).trans ((List.takeWhile_sublist _).eq_of_length whole).symm
    next => rfl
  have short : (s.fragments fs).length ≤ 2 := by
    rw [used, ← pair]
    exact (List.takeWhile_sublist _).length_le
  refine ⟨short, ?_⟩
  change s.systems.slots fs ++ [0, 0] = s.fragments fs ++ List.replicate k 0 at shape
  change (s.fragments fs).length + k = 4 at four
  have zeros : List.replicate k 0 =
      List.replicate (2 - (s.fragments fs).length) 0 ++ [0, 0] := by
    rw [show k = 2 - (s.fragments fs).length + 2 by omega, List.replicate_add]
    rfl
  rw [zeros, ← List.append_assoc] at shape
  exact List.append_cancel_right shape

theorem Sound.continuable (sound : s.Sound) (k : Nat) : ∀ l : List Nat,
    (∀ b ∈ l, b ≠ 0 ∧ b < s.referenceBuckets.allocated ∧
      (s.referenceBuckets.slots b).behind ≤ s.entries.allocated) →
    s.continuable (l ++ List.replicate k 0) = some (l.find? fun b =>
      (s.referenceBuckets.slots b).behind = s.entries.allocated)
  | [], _ => by
    induction k with
    | zero => rfl
    | succ k ih => exact ih
  | b :: rest, used => by
    have := sound.capacities
    have := sound.within
    obtain ⟨nonzero, below, behind⟩ := used b List.mem_cons_self
    have later := sound.continuable k rest fun b' member =>
      used b' (List.mem_cons_of_mem _ member)
    have slot : s.referenceBuckets.asRef b = some (s.referenceBuckets.slots b) :=
      if_neg (by omega)
    have small : toU16 ((s.referenceBuckets.slots b).start + (s.referenceBuckets.slots b).count) =
        some (s.referenceBuckets.slots b).behind :=
      if_pos (show (s.referenceBuckets.slots b).behind < 2 ^ 16 by omega)
    rw [List.cons_append, FieldSystem.continuable, if_neg nonzero]
    have size : s.entries.size % 2 ^ 16 = s.entries.allocated :=
      Nat.mod_eq_of_lt (show s.entries.allocated < 2 ^ 16 by omega)
    simp only [slot, small, size, Option.bind_eq_bind, Option.bind_some, List.find?_cons]
    by_cases ends : (s.referenceBuckets.slots b).behind = s.entries.allocated
    · rw [if_pos ends, decide_eq_true ends]
    · rw [if_neg ends, decide_eq_false ends, later]

/-- The last fragment is continued if it ends where the entries do. -/
theorem Sound.canContinue (sound : s.Sound) (made : fs < s.systems.allocated) :
    ∃ b, (s.fragments fs).getLast? = some b ∧ b < s.referenceBuckets.allocated ∧
      s.canContinue fs = some (if (s.referenceBuckets.slots b).behind = s.entries.allocated
        then some b else none) := by
  have split := (sound.split made).2
  have some := sound.fragments.nonempty fs made
  obtain ⟨before, b, last⟩ := (List.eq_nil_or_concat (s.fragments fs)).resolve_left some
  rw [List.concat_eq_append] at last
  have inside : ∀ b ∈ s.fragments fs, b ≠ 0 ∧ b < s.referenceBuckets.allocated ∧
      (s.referenceBuckets.slots b).behind ≤ s.entries.allocated := fun b member =>
    ⟨usedFragments_ne_zero member, (sound.fragments.inside fs made b member).1,
      (sound.fragments.inside fs made b member).2.1⟩
  have slot : s.systems.asRef fs = .some (s.systems.slots fs) := if_neg (by omega)
  refine ⟨b, by rw [last, List.getLast?_concat], (inside b (by simp [last])).2.1, ?_⟩
  rw [FieldSystem.canContinue, slot]
  simp only [Option.bind_eq_bind, Option.bind_some]
  rw [split, sound.continuable _ _ inside, last, List.find?_append]
  -- the others end before it
  have earlier : before.find? (fun b => (s.referenceBuckets.slots b).behind =
      s.entries.allocated) = none := by
    rw [List.find?_eq_none]
    intro b' member
    have ended := sound.fragments.ended fs made b' (by
      change b' ∈ (s.fragments fs).dropLast
      rwa [last, List.dropLast_concat])
    simp only [decide_eq_true_eq]
    exact Nat.ne_of_lt ended
  rw [earlier, Option.none_or, List.find?_singleton]
  simp only [decide_eq_true_eq]

end FieldSystem

end EmkKernel
