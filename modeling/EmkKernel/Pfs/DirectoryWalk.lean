import EmkKernel.Library.Iteration
import EmkKernel.Pfs.BlockGroups
import EmkKernel.Pfs.DirectoryEntries

/-!
# Walks through the entries of a directory

Nothing but the records themselves keeps a walk inside its buffer. It ends inside exactly
if every record it comes to lies in the buffer and no record of length 0 is visited for
ever; a block that is well formed is walked through record by record.
-/

namespace EmkKernel

open EStateM Iteration

attribute [local irreducible] littleEndian

variable {α β γ : Type} {m m' : IoMachine} {disk : Disk}

/-! ### The states of a walk -/

/-- The state, `current_ptr` and `size_rem`. -/
structure WalkCursor (γ : Type) where
  state : IoMachine × γ
  currentPtr : Nat
  sizeRem : Nat

/-- Behind an entry. -/
def WalkCursor.past (c : WalkCursor γ) (state : IoMachine × γ) (totalSize : Nat) :
    Option (WalkCursor γ) :=
  if c.currentPtr + totalSize < 2 ^ 64 ∧ (c.currentPtr + totalSize) % 4 = 0 ∧
    totalSize ≤ c.sizeRem then
    some ⟨state, c.currentPtr + totalSize, c.sizeRem - totalSize⟩
  else none

/-- One pass of the loop that goes on, with the entry read from some bytes. -/
def passOver (visit : PhysicalExt2DirectoryEntry → WalkM γ (Option β)) (bytes : Nat → Byte)
    (c : WalkCursor γ) : Option (WalkCursor γ) :=
  if c.sizeRem = 0 then none
  else
    match visit (PhysicalExt2DirectoryEntry.at bytes c.currentPtr) c.state with
    | .ok none s => c.past s (PhysicalExt2DirectoryEntry.at bytes c.currentPtr).totalSize
    | _ => none

/-- One pass of the loop. -/
def pass (visit : PhysicalExt2DirectoryEntry → WalkM γ (Option β)) (c : WalkCursor γ) :
    Option (WalkCursor γ) := passOver visit c.state.1.memory c

variable {visit : PhysicalExt2DirectoryEntry → WalkM γ (Option β)} {s s' : IoMachine × γ}
  {ptr rem fuel : Nat} {bytes : Nat → Byte} {c c' : WalkCursor γ}

theorem passOver_cases (passed : passOver visit bytes c = some c') :
    c.sizeRem ≠ 0 ∧ ∃ s, visit (PhysicalExt2DirectoryEntry.at bytes c.currentPtr) c.state =
    .ok none s ∧
      c.past s (PhysicalExt2DirectoryEntry.at bytes c.currentPtr).totalSize = some c' := by
  unfold passOver at passed
  split at passed
  · cases passed
  next more =>
    refine ⟨more, ?_⟩
    split at passed
    next s visited => exact ⟨s, visited, passed⟩
    next => cases passed

private theorem past_eq {c : WalkCursor γ} {totalSize : Nat}
    (passed : c.past s totalSize = some c') :
    c' = ⟨s, c.currentPtr + totalSize, c.sizeRem - totalSize⟩ ∧ totalSize ≤ c.sizeRem := by
  unfold WalkCursor.past at passed
  split at passed
  next fits => exact ⟨(Option.some.inj passed).symm, fits.2.2⟩
  next => cases passed

private theorem bind_ok_run {x : WalkM γ α} {f : α → WalkM γ β} {a : α} (ran : x s = .ok a s') :
    (x >>= f) s = f a s' := by
  simp only [bind, EStateM.bind, ran]

private theorem bind_error_run {x : WalkM γ α} {f : α → WalkM γ β} {e : IoStop}
    (ran : x s = .error e s') :
    (x >>= f) s = .error e s' := by
  simp only [bind, EStateM.bind, ran]

@[simp] theorem onMachine_some (a : α) : (onMachine (orPanic (some a)) : WalkM γ α) = pure a := rfl

@[simp] theorem onMachine_none : (onMachine (orPanic none) : WalkM γ α) = throw .panic := rfl

theorem walkEntries_past (more : rem ≠ 0)
    (visited : visit (PhysicalExt2DirectoryEntry.at s.1.memory ptr) s = .ok none s') :
    walkEntries visit (fuel + 1) ptr rem s =
      match (WalkCursor.mk s ptr rem).past s'
        (PhysicalExt2DirectoryEntry.at s.1.memory ptr).totalSize with
      | some c => walkEntries visit fuel c.currentPtr c.sizeRem c.state
      | none => .error .panic s' := by
  generalize size : (PhysicalExt2DirectoryEntry.at s.1.memory ptr).totalSize = t
  rw [walkEntries, if_neg more, get_bind_run, bind_ok_run visited, size]
  unfold WalkCursor.past sumU64 subUnsigned
  dsimp only
  by_cases u64 : ptr + t < 2 ^ 64
  · rw [if_pos u64, onMachine_some, pure_bind]
    by_cases aligned : (ptr + t) % 4 = 0
    · rw [if_pos aligned]
      by_cases less : rem < t
      · rw [if_pos less, if_neg (by omega)]
        rfl
      · rw [if_neg less, if_pos ⟨u64, aligned, by omega⟩]
        rfl
    · have short : ¬(ptr + t < 2 ^ 64 ∧ (ptr + t) % 4 = 0 ∧ t ≤ rem) := fun fits => aligned fits.2.1
      rw [if_neg aligned, if_neg short]
      rfl
  · have high : ¬(ptr + t < 2 ^ 64 ∧ (ptr + t) % 4 = 0 ∧ t ≤ rem) := fun fits => u64 fits.1
    rw [if_neg u64, if_neg high]
    rfl

/-- The loop goes on where a pass does, and else its result needs no more fuel. -/
theorem walkEntries_succ (fuel : Nat) (c : WalkCursor γ) :
    walkEntries visit (fuel + 1) c.currentPtr c.sizeRem c.state =
      (pass visit c).elim (walkEntries visit 1 c.currentPtr c.sizeRem c.state)
        fun c' => walkEntries visit fuel c'.currentPtr c'.sizeRem c'.state := by
  by_cases more : c.sizeRem = 0
  · have last : pass visit c = none := if_pos more
    rw [last, walkEntries, if_pos more, Option.elim_none, walkEntries, if_pos more]
  · cases visited : visit (PhysicalExt2DirectoryEntry.at c.state.1.memory c.currentPtr) c.state with
    | error e s' =>
      have last : pass visit c = none := by
        simp only [pass, passOver, if_neg more, visited]
      rw [last, Option.elim_none, walkEntries, if_neg more, get_bind_run, bind_error_run visited,
        walkEntries, if_neg more, get_bind_run, bind_error_run visited]
    | ok r s' =>
      cases r with
      | some b =>
        have last : pass visit c = none := by
          simp only [pass, passOver, if_neg more, visited]
        rw [last, Option.elim_none, walkEntries, if_neg more, get_bind_run, bind_ok_run visited,
          walkEntries, if_neg more, get_bind_run, bind_ok_run visited]
      | none =>
        have next : pass visit c = c.past s'
            (PhysicalExt2DirectoryEntry.at c.state.1.memory c.currentPtr).totalSize := by
          simp only [pass, passOver, if_neg more, visited]
        rw [next, walkEntries_past more visited, walkEntries_past more visited]
        cases c.past s' (PhysicalExt2DirectoryEntry.at c.state.1.memory c.currentPtr).totalSize with
        | none => rfl
        | some c' => rfl

theorem walkEntries_none : (∃ s', walkEntries visit fuel ptr rem s = .ok none s') ↔
    ∃ c, stepsTo (pass visit) fuel ⟨s, ptr, rem⟩ = some c := by
  induction fuel generalizing ptr rem s with
  | zero => exact iff_of_true ⟨s, rfl⟩ ⟨_, rfl⟩
  | succ fuel ih =>
    rw [stepsTo_succ]
    by_cases more : rem = 0
    · have last : pass visit ⟨s, ptr, rem⟩ = none := if_pos more
      rw [last, walkEntries, if_pos more]
      simp [pure, EStateM.pure]
    · cases visited : visit (PhysicalExt2DirectoryEntry.at s.1.memory ptr) s with
      | error e s' =>
        have last : pass visit ⟨s, ptr, rem⟩ = none := by
          simp only [pass, passOver, if_neg more, visited]
        rw [last, walkEntries, if_neg more, get_bind_run, bind_error_run visited]
        simp
      | ok r s' =>
        cases r with
        | some b =>
          have last : pass visit ⟨s, ptr, rem⟩ = none := by
            simp only [pass, passOver, if_neg more, visited]
          rw [last, walkEntries, if_neg more, get_bind_run, bind_ok_run visited]
          simp [pure, EStateM.pure]
        | none =>
          have next : pass visit ⟨s, ptr, rem⟩ = (WalkCursor.mk s ptr rem).past s'
              (PhysicalExt2DirectoryEntry.at s.1.memory ptr).totalSize := by
            simp only [pass, passOver, if_neg more, visited]
          rw [next, walkEntries_past more visited]
          cases (WalkCursor.mk s ptr rem).past s'
              (PhysicalExt2DirectoryEntry.at s.1.memory ptr).totalSize with
          | none => simp
          | some c => exact ih

/-! ### Memory that visits keep -/

/-- A visit leaves the bytes that are in use as they are. -/
def Keeps (visit : PhysicalExt2DirectoryEntry → WalkM γ (Option β)) : Prop :=
  ∀ entry s, Yields (visit entry) s (fun _ s' => Preserves s.1 s'.1) fun _ _ => True

private theorem preserves_passOver (keeps : Keeps visit)
    (passed : passOver visit bytes c = some c') :
    Preserves c.state.1 c'.state.1 := by
  obtain ⟨_, s, visited, past⟩ := passOver_cases passed
  obtain ⟨rfl, _⟩ := past_eq past
  exact (keeps _ _).ok visited

/-- The bytes in use stay as they are over any number of passes, whatever bytes the entries
are read from. -/
theorem preserves_stepsTo {step : WalkCursor γ → Option (WalkCursor γ)} {n : Nat}
    (each : ∀ c c', step c = some c' → Preserves c.state.1 c'.state.1)
    (reached : stepsTo step n c = some c') : Preserves c.state.1 c'.state.1 := by
  induction n generalizing c' with
  | zero =>
    cases reached
    exact Preserves.refl _
  | succ n ih =>
    obtain ⟨b, before, last⟩ := Option.bind_eq_some_iff.mp reached
    exact (ih before).trans (each b c' last)

/-- A buffer in memory that is in use. -/
structure Buffer.InMemory (buffer : Buffer) (m : IoMachine) : Prop where
  inUse : ∀ i < buffer.originalSize, m.allocator.InUse (buffer.ptr + i)
  aligned : buffer.ptr % 4 = 0
  u64 : buffer.ptr + buffer.originalSize < 2 ^ 64

/-- The header and the name of an entry lie in a buffer. -/
def Buffer.HoldsEntry (buffer : Buffer) (memory : Nat → Byte) (currentPtr : Nat) : Prop :=
  buffer.ptr ≤ currentPtr ∧
    currentPtr + 8 + (memory (currentPtr + 6)).toNat ≤ buffer.ptr + buffer.originalSize

instance (buffer : Buffer) (memory : Nat → Byte) (currentPtr : Nat) :
    Decidable (buffer.HoldsEntry memory currentPtr) := inferInstanceAs (Decidable (_ ∧ _))

variable {buffer : Buffer}

theorem Buffer.InMemory.same (inMemory : buffer.InMemory m) (kept : Preserves m m') {a : Nat}
    (above : buffer.ptr ≤ a) (below : a < buffer.ptr + buffer.originalSize) :
    m'.memory a = m.memory a := by
  obtain ⟨i, rfl⟩ := Nat.exists_eq_add_of_le above
  exact kept.bytes _ (inMemory.inUse i (by omega))

private theorem bytesAt_same {memory memory' : Nat → Byte} {address n : Nat}
    (same : ∀ i < n, memory (address + i) = memory' (address + i)) :
    bytesAt memory address n = bytesAt memory' address n := by
  apply List.map_congr_left
  intro i member
  exact same i (List.mem_range.mp member)

/-- An entry in the buffer is read the same before and after. -/
theorem Buffer.InMemory.entry (inMemory : buffer.InMemory m) (kept : Preserves m m')
    (holds : buffer.HoldsEntry m.memory ptr) :
    PhysicalExt2DirectoryEntry.at m'.memory ptr = PhysicalExt2DirectoryEntry.at m.memory ptr := by
  obtain ⟨above, below⟩ := holds
  have same (i : Nat) (less : i < 8 + (m.memory (ptr + 6)).toNat) :
      m'.memory (ptr + i) = m.memory (ptr + i) := inMemory.same kept (by omega) (by omega)
  have field (offset n : Nat) (inside : offset + n ≤ 8) :
      littleEndian m'.memory (ptr + offset) n = littleEndian m.memory (ptr + offset) n := by
    apply littleEndian_congr
    intro i less
    rw [Nat.add_assoc]
    exact same _ (by omega)
  have inode := field 0 4 (by omega)
  have string : bytesAt m'.memory (ptr + 8) (m.memory (ptr + 6)).toNat =
      bytesAt m.memory (ptr + 8) (m.memory (ptr + 6)).toNat := by
    apply bytesAt_same
    intro i less
    rw [Nat.add_assoc]
    exact same _ (by omega)
  rw [Nat.add_zero] at inode
  unfold PhysicalExt2DirectoryEntry.at
  rw [same 6 (by omega), same 7 (by omega), inode, field 4 2 (by omega), string]

private theorem Buffer.InMemory.holds_iff (inMemory : buffer.InMemory m) (kept : Preserves m m') :
    buffer.HoldsEntry m'.memory ptr ↔ buffer.HoldsEntry m.memory ptr := by
  unfold Buffer.HoldsEntry
  by_cases inside : buffer.ptr ≤ ptr ∧ ptr + 8 ≤ buffer.ptr + buffer.originalSize
  · rw [inMemory.same kept (by omega) (by omega)]
  · constructor
    · intro holds
      omega
    · intro holds
      omega

/-! ### Blocks that are well formed -/

/-- The entries at some addresses, each behind the one before it, take all the bytes. -/
def Tiles (bytes : Nat → Byte) (currentPtr sizeRem : Nat) : List Nat → Prop
  | [] => sizeRem = 0
  | p :: rest =>
    let entry := PhysicalExt2DirectoryEntry.at bytes p
    p = currentPtr ∧ 8 + entry.nameLength ≤ entry.totalSize ∧ entry.totalSize % 4 = 0 ∧
      entry.totalSize ≤ sizeRem ∧
      Tiles bytes (currentPtr + entry.totalSize) (sizeRem - entry.totalSize) rest

/-- The visits to a list of entries, one after the other. -/
def visitAll (visit : PhysicalExt2DirectoryEntry → WalkM γ (Option β)) :
    List PhysicalExt2DirectoryEntry → WalkM γ (Option β)
  | [] => pure none
  | entry :: rest => do
    match ← visit entry with
    | some returned => pure (some returned)
    | none => visitAll visit rest

/-- The end of a walk that was not cut short. -/
def finished (x : WalkM γ (Option β)) : WalkM γ (Option (Option β)) := do
  let r ← x
  pure (some r)

theorem walkEntries_tiles {entries : List Nat} {s₀ : IoMachine × γ} (keeps : Keeps visit)
    (inMemory : buffer.InMemory s₀.1) (kept : Preserves s₀.1 s.1)
    (tiles : Tiles s₀.1.memory ptr rem entries) (aligned : ptr % 4 = 0) (above : buffer.ptr ≤ ptr)
    (below : ptr + rem ≤ buffer.ptr + buffer.originalSize) :
    walkEntries visit (entries.length + 1) ptr rem s =
      finished (visitAll visit (entries.map (PhysicalExt2DirectoryEntry.at s₀.1.memory))) s := by
  induction entries generalizing ptr rem s with
  | nil =>
    obtain rfl : rem = 0 := tiles
    rfl
  | cons p rest ih =>
    obtain ⟨rfl, long, multiple, fits, later⟩ := tiles
    have name : (PhysicalExt2DirectoryEntry.at s₀.1.memory p).nameLength =
        (s₀.1.memory (p + 6)).toNat := rfl
    have holds : buffer.HoldsEntry s₀.1.memory p := ⟨above, by omega⟩
    have entry := inMemory.entry kept holds
    have u64 := inMemory.u64
    generalize size : (PhysicalExt2DirectoryEntry.at s₀.1.memory p).totalSize =
      t at long multiple fits later
    have more : rem ≠ 0 := by omega
    rw [List.map_cons, visitAll, finished, List.length_cons]
    cases visited : visit (PhysicalExt2DirectoryEntry.at s₀.1.memory p) s with
    | error e s' =>
      rw [walkEntries, if_neg more, get_bind_run, bind_error_run (entry.symm ▸ visited),
        bind_assoc, bind_error_run visited]
    | ok r s' =>
      rw [bind_assoc, bind_ok_run visited]
      cases r with
      | some returned =>
        rw [walkEntries, if_neg more, get_bind_run, bind_ok_run (entry.symm ▸ visited)]
        rfl
      | none =>
        have past : (WalkCursor.mk s p rem).past s' t = some ⟨s', p + t, rem - t⟩ :=
          if_pos ⟨by dsimp only; omega, by dsimp only; omega, fits⟩
        rw [walkEntries_past more (entry.symm ▸ visited), entry, size, past]
        have onward : (p + t) % 4 = 0 ∧ buffer.ptr ≤ p + t ∧
            p + t + (rem - t) ≤ buffer.ptr + buffer.originalSize := by omega
        exact ih (kept.trans ((keeps _ _).ok visited)) later onward.1 onward.2.1 onward.2.2

/-! ### Walks that stay inside -/

/-- The walk is made of passes and ends, every entry it comes to lies in the buffer, and a block
that is well formed is walked through entry by entry. -/
structure WalksBlock (visit : PhysicalExt2DirectoryEntry → WalkM γ (Option β)) (s : IoMachine × γ)
    (buffer : Buffer) (size : Nat) : Prop where
  passes : ∀ fuel (c : WalkCursor γ), walkEntries visit (fuel + 1) c.currentPtr c.sizeRem c.state =
    (pass visit c).elim (walkEntries visit 1 c.currentPtr c.sizeRem c.state)
      fun c' => walkEntries visit fuel c'.currentPtr c'.sizeRem c'.state
  ends : ∃ fuel, ∀ s', walkEntries visit fuel buffer.ptr size s ≠ .ok none s'
  inside : ∀ n c, stepsTo (pass visit) n ⟨s, buffer.ptr, size⟩ = some c → c.sizeRem ≠ 0 →
    buffer.HoldsEntry c.state.1.memory c.currentPtr
  inOrder : size ≤ buffer.originalSize → ∀ entries, Tiles s.1.memory buffer.ptr size entries →
    ∃ fuel, walkEntries visit fuel buffer.ptr size s =
      finished (visitAll visit (entries.map (PhysicalExt2DirectoryEntry.at s.1.memory))) s

/-- Every record of the block that the visits lead to lies in the buffer, and one of length 0
is left because of its visits. -/
def SoundBlock (visit : PhysicalExt2DirectoryEntry → WalkM γ (Option β)) (s : IoMachine × γ)
    (buffer : Buffer) (size : Nat) : Prop :=
  ∀ n c, stepsTo (passOver visit s.1.memory) n ⟨s, buffer.ptr, size⟩ = some c → c.sizeRem ≠ 0 →
    buffer.HoldsEntry s.1.memory c.currentPtr ∧
      ((PhysicalExt2DirectoryEntry.at s.1.memory c.currentPtr).totalSize = 0 →
        Iteration.Ends (passOver visit s.1.memory) c)

variable {size : Nat}

private theorem ends_iff : (∃ fuel, ∀ s', walkEntries visit fuel ptr size s ≠ .ok none s') ↔
    Iteration.Ends (pass visit) ⟨s, ptr, size⟩ := by
  apply exists_congr
  intro fuel
  rw [← not_exists, walkEntries_none, Option.eq_none_iff_forall_ne_some]
  exact not_exists

/-- A pass over an entry that lies in the buffer is one over the bytes as they were read. -/
theorem pass_eq (inMemory : buffer.InMemory s.1) (kept : Preserves s.1 c.state.1)
    (holds : c.sizeRem ≠ 0 → buffer.HoldsEntry s.1.memory c.currentPtr) :
    pass visit c = passOver visit s.1.memory c := by
  by_cases more : c.sizeRem = 0
  · unfold pass passOver
    rw [if_pos more, if_pos more]
  · unfold pass passOver
    rw [inMemory.entry kept (holds more)]

theorem WalksBlock.sound (walks : WalksBlock visit s buffer size) (keeps : Keeps visit)
    (inMemory : buffer.InMemory s.1) : SoundBlock visit s buffer size := by
  have kept {n : Nat} {c : WalkCursor γ}
      (reached : stepsTo (pass visit) n ⟨s, buffer.ptr, size⟩ = some c) :
      Preserves s.1 c.state.1 :=
    preserves_stepsTo (c := ⟨s, buffer.ptr, size⟩) (fun _ _ => preserves_passOver keeps) reached
  have same (n : Nat) : stepsTo (passOver visit s.1.memory) n ⟨s, buffer.ptr, size⟩ =
      stepsTo (pass visit) n ⟨s, buffer.ptr, size⟩ := by
    apply stepsTo_congr
    intro m _ c reached
    refine (pass_eq inMemory (kept reached) fun more => ?_).symm
    exact (inMemory.holds_iff (kept reached)).mp (walks.inside m c reached more)
  intro n c reached more
  constructor
  · rw [same] at reached
    exact (inMemory.holds_iff (kept reached)).mp (walks.inside n c reached more)
  · intro _
    obtain ⟨k, ended⟩ := ends_iff.mp walks.ends
    apply (ends_iff_of_reached reached).mp
    refine ⟨k, ?_⟩
    rw [same]
    exact ended

theorem SoundBlock.walks (sound : SoundBlock visit s buffer size) (keeps : Keeps visit)
    (inMemory : buffer.InMemory s.1) : WalksBlock visit s buffer size := by
  have kept {n : Nat} {c : WalkCursor γ}
      (reached : stepsTo (passOver visit s.1.memory) n ⟨s, buffer.ptr, size⟩ = some c) :
      Preserves s.1 c.state.1 :=
    preserves_stepsTo (c := ⟨s, buffer.ptr, size⟩) (fun _ _ => preserves_passOver keeps) reached
  have same (n : Nat) : stepsTo (pass visit) n ⟨s, buffer.ptr, size⟩ =
      stepsTo (passOver visit s.1.memory) n ⟨s, buffer.ptr, size⟩ := by
    apply stepsTo_congr
    intro m _ c reached
    exact pass_eq inMemory (kept reached) fun more => (sound m c reached more).1
  have ends : Iteration.Ends (passOver visit s.1.memory) ⟨s, buffer.ptr, size⟩ := by
    -- a record that has a length takes it from the bytes that are left
    apply ends_of_measure WalkCursor.sizeRem
    intro n c reached
    by_cases more : c.sizeRem = 0
    · exact Or.inl (ends_of_none (if_pos more))
    · by_cases zero : (PhysicalExt2DirectoryEntry.at s.1.memory c.currentPtr).totalSize = 0
      · exact Or.inl ((sound n c reached more).2 zero)
      · right
        intro c' passed
        obtain ⟨_, s', _, past⟩ := passOver_cases passed
        obtain ⟨rfl, _⟩ := past_eq past
        dsimp only
        omega
  refine ⟨walkEntries_succ, ?_, ?_, ?_⟩
  · obtain ⟨k, ended⟩ := ends
    refine ends_iff.mpr ⟨k, ?_⟩
    rw [same]
    exact ended
  · intro n c reached more
    rw [same] at reached
    exact (inMemory.holds_iff (kept reached)).mpr (sound n c reached more).1
  · intro fits entries tiles
    refine ⟨entries.length + 1, ?_⟩
    exact walkEntries_tiles keeps inMemory (Preserves.refl _) tiles inMemory.aligned (Nat.le_refl _)
      (by omega)

theorem walksBlock_iff (keeps : Keeps visit) (inMemory : buffer.InMemory s.1) :
    WalksBlock visit s buffer size ↔ SoundBlock visit s buffer size := by
  constructor
  · intro walks
    exact walks.sound keeps inMemory
  · intro sound
    exact sound.walks keeps inMemory

/-! ### The visits of the four walks -/

private theorem yields_onMachine {x : IoM α}
    (yields : Yields x s.1 (fun _ m' => Preserves s.1 m') fun _ _ => True) :
    Yields (onMachine x) s (fun _ s' => Preserves s.1 s'.1) fun _ _ => True := by
  unfold Yields onMachine at *
  cases ran : x s.1 with
  | ok a m' =>
    rw [ran] at yields
    exact yields
  | error e m' => trivial

private theorem yields_onTables (x : γ → Option (α × γ)) :
    Yields (onTables x) s (fun _ s' => Preserves s.1 s'.1) fun _ _ => True := by
  unfold Yields onTables
  cases x s.2 with
  | some r => exact Preserves.refl _
  | none => trivial

theorem keeps_bind {x : WalkM γ α} {f : α → WalkM γ β}
    (first : Yields x s (fun _ s' => Preserves s.1 s'.1) fun _ _ => True)
    (rest : ∀ a s', Yields (f a) s' (fun _ s₂ => Preserves s'.1 s₂.1) fun _ _ => True) :
    Yields (x >>= f) s (fun _ s' => Preserves s.1 s'.1) fun _ _ => True := by
  rw [yields_bind]
  refine first.mono ?_ fun _ _ _ => trivial
  intro a s' kept
  exact (rest a s').mono (fun _ _ later => kept.trans later) fun _ _ failed => failed

private theorem keeps_pure (a : α) :
    Yields (pure a : WalkM γ α) s (fun _ s' => Preserves s.1 s'.1) fun _ _ => True :=
  Preserves.refl _

private theorem keeps_get :
    Yields (get : WalkM γ (IoMachine × γ)) s (fun _ s' => Preserves s.1 s'.1)
    fun _ _ => True := Preserves.refl _

private theorem known_of_locateInode {fs : MountedExt2} {memory : Nat → Byte}
    {inode sectorSize : Nat}
    {place : Nat × Nat} (found : fs.locateInode memory inode sectorSize = some place) :
    0 < fs.inodesPerBlockGroup ∧ 1 ≤ inode := by
  by_contra unknown
  have lost : fs.blockGroupOfInode inode = none := by
    unfold MountedExt2.blockGroupOfInode subUnsigned divUnsigned
    by_cases zero : inode < 1
    · rw [if_pos zero]
      rfl
    · rw [if_neg zero]
      exact if_pos (by omega)
  unfold MountedExt2.locateInode at found
  rw [lost] at found
  cases found

/-- An inode that is not found stops the read, another one is read into less than 2^16
pages. -/
theorem readInode_keeps {fs : MountedExt2} (drive : disk.Drive) (small : fs.blockSize < 18)
    (inode : Nat) :
    Yields (fs.readInode inode disk) m (fun _ m' => Preserves m m') fun _ _ => True := by
  cases found : fs.locateInode m.memory inode disk.sectorSize with
  | none =>
    unfold MountedExt2.readInode
    rw [yields_bind, yields_get, found]
    trivial
  | some place =>
    have known := known_of_locateInode found
    obtain ⟨_, _, offset⟩ := MountedExt2.locateInode_inv known.1 known.2 found
    refine MountedExt2.readInode_yields drive found ?_
    have power : 2 ^ fs.blockSize ≤ 2 ^ 17 := Nat.pow_le_pow_right (by decide) (by omega)
    have positive := Nat.two_pow_pos fs.blockSize
    have inBlock : fs.offsetOf inode < 8 * 2 ^ fs.blockSize := by
      have less := Nat.mod_lt (fs.indexOf inode) (y := 8 * 2 ^ fs.blockSize) (by omega)
      unfold MountedExt2.offsetOf
      rwa [MountedExt2.blockBytes_eq, Nat.mul_div_cancel_left _ (by decide)]
    have rounded := Buffer.pages_le ((place.2 + 1) * 128)
    omega

variable {fs : MountedExt2} {gfs : GfsTables γ} {fsIndex : Nat}

private theorem loadInodeIntoFile_keeps (drive : disk.Drive) (small : fs.blockSize < 18)
    (file inode : Nat) :
    Yields (fs.loadInodeIntoFile gfs file disk fsIndex inode) s (fun _ s' => Preserves s.1 s'.1)
      fun _ _ => True := by
  apply keeps_bind (yields_onMachine (readInode_keeps drive small inode))
  intro content s₁
  exact yields_onTables _

private theorem newDirectory_keeps (drive : disk.Drive) (small : fs.blockSize < 18)
    (directory inode : Nat) :
    Yields (fs.newDirectory gfs directory disk fsIndex inode) s (fun _ s' => Preserves s.1 s'.1)
      fun _ _ => True := by
  apply keeps_bind (yields_onMachine (readInode_keeps drive small inode))
  intro content s₁
  apply keeps_bind (yields_onTables _)
  intro entries s₂
  exact yields_onTables _

private theorem keeps_compare (toCheck : List Byte) :
    Keeps (γ := γ) (PhysicalExt2Directory.compare toCheck) := by
  intro entry s
  unfold PhysicalExt2Directory.compare
  split
  · exact keeps_pure _
  · exact keeps_pure _

private theorem keeps_callback {func : PhysicalExt2DirectoryEntry → WalkM γ Unit}
    (keeps : ∀ entry s, Yields (func entry) s (fun _ s' => Preserves s.1 s'.1) fun _ _ => True) :
    Keeps (PhysicalExt2Directory.callback func) := by
  intro entry s
  apply keeps_bind (keeps entry s)
  intro _ s₁
  exact keeps_pure _

private theorem keeps_loadRootEntry (drive : disk.Drive) (small : fs.blockSize < 18) :
    Keeps (fs.loadRootEntry gfs disk fsIndex) := by
  intro entry s
  unfold MountedExt2.loadRootEntry
  split
  · apply keeps_bind (yields_onTables _)
    intro index s₁
    apply keeps_bind (loadInodeIntoFile_keeps drive small index entry.inode)
    intro _ s₂
    apply keeps_bind (yields_onTables _)
    intro _ s₃
    exact keeps_pure _
  · split
    · apply keeps_bind (yields_onTables _)
      intro index s₁
      split
      · apply keeps_bind keeps_get
        intro _ s₂
        apply keeps_bind (yields_onTables _)
        intro _ s₃
        apply keeps_bind keeps_get
        intro _ s₄
        apply keeps_bind (yields_onTables _)
        intro _ s₅
        exact keeps_pure _
      · apply keeps_bind (newDirectory_keeps drive small index entry.inode)
        intro _ s₂
        apply keeps_bind (yields_onTables _)
        intro _ s₃
        exact keeps_pure _
    · trivial

private theorem keeps_discoverEntry (drive : disk.Drive) (small : fs.blockSize < 18) :
    Keeps (fs.discoverEntry gfs disk fsIndex) := by
  intro entry s
  apply keeps_bind (yields_onTables _)
  intro present s₁
  split
  · exact keeps_pure _
  · split
    · apply keeps_bind (yields_onTables _)
      intro index s₂
      apply keeps_bind (loadInodeIntoFile_keeps drive small index entry.inode)
      intro _ s₃
      apply keeps_bind (yields_onTables _)
      intro _ s₄
      exact keeps_pure _
    · split
      · apply keeps_bind (yields_onTables _)
        intro index s₂
        apply keeps_bind (newDirectory_keeps drive small index entry.inode)
        intro _ s₃
        apply keeps_bind (yields_onTables _)
        intro _ s₄
        exact keeps_pure _
      · trivial

/-! ### The buffers of the four walks -/

/-- The buffer of a block is in memory that was free, and larger blocks have no buffer. -/
theorem loadBlock_yields {dir : PhysicalExt2Directory} {blockSize startingLba : Nat} :
    Yields (dir.loadBlock disk blockSize startingLba) m
      (fun buffer m' => blockSize < 18 ∧ ∀ i < buffer.originalSize,
        m'.allocator.InUse (buffer.ptr + i))
      fun _ _ => True := by
  unfold PhysicalExt2Directory.loadBlock
  rw [yields_bind]
  refine (orPanic_yields _).mono ?_ fun _ _ _ => trivial
  rintro limit m₁ ⟨rfl, shifted⟩
  have bits : blockSize < 32 := by
    unfold shlU32 at shifted
    split at shifted
    next less => exact less
    next => cases shifted
  rw [yields_ite]
  split
  · trivial
  · rw [shlU64_block (bits.trans (by decide)), orPanic_some, pure_bind, yields_bind]
    refine (Buffer.new_yields false _).mono ?_ fun _ _ _ => trivial
    rintro b m₂ ⟨_, k, positive, _, took, rfl⟩
    have small : blockSize < 18 := by
      by_contra large
      obtain ⟨e, rfl⟩ := Nat.exists_eq_add_of_le (Nat.le_of_not_lt large)
      have bytes : 1024 * 2 ^ (18 + e) = 2 ^ 16 * 2 ^ e * 0x1000 := by
        rw [Nat.pow_add]
        omega
      have covered := Buffer.le_pages (1024 * 2 ^ (18 + e))
      have rounded := Buffer.pages_le (1024 * 2 ^ (18 + e))
      have whole : Buffer.pages (1024 * 2 ^ (18 + e)) = 2 ^ 16 * 2 ^ e := by omega
      rw [whole, Nat.mul_mod_right] at positive
      exact absurd positive (Nat.lt_irrefl 0)
    have power : 2 ^ blockSize ≤ 2 ^ 17 := Nat.pow_le_pow_right (by decide) (by omega)
    have rounded := Buffer.pages_le (1024 * 2 ^ blockSize)
    have sets := took.sets
    rw [Nat.mod_eq_of_lt (by omega)] at sets
    rw [yields_bind]
    refine (orPanic_yields _).mono ?_ fun _ _ _ => trivial
    rintro dirData m₃ ⟨rfl, _⟩
    rw [yields_bind]
    refine (orPanic_yields _).mono ?_ fun _ _ _ => trivial
    rintro product m₄ ⟨rfl, _⟩
    rw [yields_bind]
    refine (orPanic_yields _).mono ?_ fun _ _ _ => trivial
    rintro sectors m₅ ⟨rfl, _⟩
    rw [yields_bind]
    refine (orPanic_yields _).mono ?_ fun _ _ _ => trivial
    rintro lba m₆ ⟨rfl, _⟩
    rw [yields_bind]
    refine (readIntoBuffer_yields lba _).mono ?_ fun _ _ _ => trivial
    intro _ m₇ same
    refine ⟨small, fun i less => ?_⟩
    rw [same]
    exact inUse_of_sets sets took.addend less

theorem small_of_directoryContent {fs : MountedExt2} {inode scheduler : Nat} {buffer : Buffer}
    (ran : fs.directoryContent disk inode scheduler m = .ok buffer m') : fs.blockSize < 18 := by
  unfold MountedExt2.directoryContent at ran
  obtain ⟨content, m₁, read, ran⟩ := of_bind_ok ran
  have bits : fs.blockSize < 22 := by
    unfold MountedExt2.readInode at read
    rw [get_bind_run] at read
    obtain ⟨place, _, located, _⟩ := of_bind_ok read
    have found := ((orPanic_yields _).ok located).2
    obtain ⟨inodes, positive⟩ := known_of_locateInode found
    exact (MountedExt2.locateInode_inv inodes positive found).2.1.block
  obtain ⟨b, m₂, _, ran⟩ := of_bind_ok ran
  obtain ⟨_, m₃, _, ran⟩ := of_bind_ok ran
  rw [shlU32_block bits, orPanic_some, pure_bind] at ran
  obtain ⟨direct, m₄, _, ran⟩ := of_bind_ok ran
  obtain ⟨_, m₅, _, ran⟩ := of_bind_ok ran
  obtain ⟨singly, m₆, product, _⟩ := of_bind_ok ran
  obtain ⟨below, _⟩ := some_of_mulU32 ((orPanic_yields _).ok product).2
  by_contra large
  have power : 2 ^ 18 ≤ 2 ^ fs.blockSize := Nat.pow_le_pow_right (by decide) (by omega)
  have high : 2 ^ 26 * 2 ^ 28 ≤ 1024 * 2 ^ fs.blockSize / 4 * (1024 * 2 ^ fs.blockSize) :=
    Nat.mul_le_mul (by omega) (by omega)
  omega

/-! ### The four walks -/

theorem soundBlock_of_tiles {entries : List Nat} (fits : size ≤ buffer.originalSize)
    (tiles : Tiles s.1.memory buffer.ptr size entries) : SoundBlock visit s buffer size := by
  have left (n : Nat) (c : WalkCursor γ)
      (reached : stepsTo (passOver visit s.1.memory) n ⟨s, buffer.ptr, size⟩ = some c) :
      ∃ rest, Tiles s.1.memory c.currentPtr c.sizeRem rest ∧ buffer.ptr ≤ c.currentPtr ∧
        c.currentPtr + c.sizeRem ≤ buffer.ptr + buffer.originalSize := by
    induction n generalizing c with
    | zero =>
      cases reached
      exact ⟨entries, tiles, Nat.le_refl _, by dsimp only; omega⟩
    | succ n ih =>
      obtain ⟨b, before, passed⟩ := Option.bind_eq_some_iff.mp reached
      obtain ⟨rest, tiled, above, below⟩ := ih b before
      obtain ⟨more, s', _, past⟩ := passOver_cases passed
      obtain ⟨rfl, less⟩ := past_eq past
      cases rest with
      | nil => exact absurd tiled more
      | cons p rest =>
        obtain ⟨rfl, _, _, _, later⟩ := tiled
        exact ⟨rest, later, by dsimp only; omega, by dsimp only; omega⟩
  intro n c reached more
  obtain ⟨rest, tiled, above, below⟩ := left n c reached
  cases rest with
  | nil => exact absurd tiled more
  | cons p rest =>
    obtain ⟨rfl, long, _, inside, _⟩ := tiled
    have name : (PhysicalExt2DirectoryEntry.at s.1.memory c.currentPtr).nameLength =
        (s.1.memory (c.currentPtr + 6)).toNat := rfl
    refine ⟨⟨above, by omega⟩, fun zero => ?_⟩
    omega

/-- The four functions. The callback of `foreach_entry` leaves memory that is in use as it
is. -/
inductive IsWalk (disk : Disk) : (β : Type) → DirectoryWalk γ β → Prop where
  | foreachEntry (dir : PhysicalExt2Directory) (blockSize startingLba : Nat)
      (func : PhysicalExt2DirectoryEntry → WalkM γ Unit)
      (keeps : ∀ entry s, Yields (func entry) s (fun _ s' => Preserves s.1 s'.1) fun _ _ => True) :
      IsWalk disk Unit (dir.foreachEntry disk blockSize startingLba func)
  | contains (dir : PhysicalExt2Directory) (blockSize startingLba : Nat) (toCheck : List Byte) :
      IsWalk disk (Nat × Nat) (dir.contains disk blockSize startingLba toCheck)
  | loadRoot (fs : MountedExt2) (gfs : GfsTables γ) (fsIndex : Nat) :
      IsWalk disk Unit (fs.loadRoot gfs disk fsIndex)
  | discoverDirectory (fs : MountedExt2) (gfs : GfsTables γ) (fsIndex inodeIndex scheduler : Nat) :
      IsWalk disk Unit (fs.discoverDirectory gfs disk fsIndex inodeIndex scheduler)

theorem IsWalk.keeps {walk : DirectoryWalk γ β} (isWalk : IsWalk disk β walk) (drive : disk.Drive)
    (ran : walk.directoryData m = .ok buffer m') : Keeps walk.visit := by
  cases isWalk with
  | foreachEntry dir blockSize startingLba func keeps => exact keeps_callback keeps
  | contains dir blockSize startingLba toCheck => exact keeps_compare toCheck
  | loadRoot fs gfs fsIndex =>
    exact keeps_loadRootEntry drive (loadBlock_yields.ok ran).1
  | discoverDirectory fs gfs fsIndex inodeIndex scheduler =>
    exact keeps_discoverEntry drive (small_of_directoryContent ran)

/-- Each of the four walks ends inside its buffer, and goes through a well-formed block entry by
entry, exactly if its block is sound. -/
theorem walks_iff {walk : DirectoryWalk γ β} {g : γ} (drive : disk.Drive)
    (isWalk : IsWalk disk β walk) (ran : walk.directoryData m = .ok buffer m')
    (inMemory : buffer.InMemory m') :
    WalksBlock walk.visit (m', g) buffer walk.size ↔
      SoundBlock walk.visit (m', g) buffer walk.size :=
  walksBlock_iff (isWalk.keeps drive ran) inMemory

/-- A directory of one block, at block 5. -/
def oneBlock : PhysicalExt2Directory := ⟨[5], [], 0, 2, 1024⟩

/-- A disk whose block 5 starts with some bytes. -/
def blockDisk (bytes : List Byte) : Disk := ⟨0, fun a => bytes.getD (a - 5120) 0, 512, 256, 2⟩

/-- One record of all the 1024 bytes, with the name `.`. -/
def dotBlock : List Byte := [2, 0, 0, 0, 0, 4, 1, 2, 0x2E]

/-- The buffer a block is read into, and the first entry in it. -/
def firstEntry (bytes : List Byte) : Option (Buffer × PhysicalExt2DirectoryEntry) :=
  match oneBlock.loadBlock (blockDisk bytes) 0 0 Ext2Superblock.loadMachine with
  | .ok buffer m => some (buffer, PhysicalExt2DirectoryEntry.at m.memory buffer.ptr)
  | .error _ _ => none

private theorem loads_of_firstEntry {bytes : List Byte} {r : Buffer × PhysicalExt2DirectoryEntry}
    (first : firstEntry bytes = some r) :
    ∃ m, oneBlock.loadBlock (blockDisk bytes) 0 0 Ext2Superblock.loadMachine = .ok r.1 m ∧
      PhysicalExt2DirectoryEntry.at m.memory r.1.ptr = r.2 := by
  unfold firstEntry at first
  split at first
  next buffer m ran =>
    cases first
    exact ⟨m, ran, rfl⟩
  next => cases first

private theorem drive_blockDisk (bytes : List Byte) : (blockDisk bytes).Drive := by
  have sector : 0 < 512 ∧ 512 ∣ 0x1000 := by decide
  have sectors : 256 < 2 ^ 64 := by decide
  exact ⟨sector, sectors, Nat.le_refl 1⟩

/-- A directory of one record is searched. -/
theorem walks_dot : ∃ buffer m, oneBlock.loadBlock (blockDisk dotBlock)
    0 0 Ext2Superblock.loadMachine =
    .ok buffer m ∧ WalksBlock (PhysicalExt2Directory.compare [0x61]) (m, ()) buffer 1024 := by
  have first : firstEntry dotBlock = some (⟨0x10000, 0x1000, 1024, false⟩,
      ⟨2, 1024, 1, 2, [0x2E]⟩) := by
    decide +kernel
  obtain ⟨m, ran, entry⟩ := loads_of_firstEntry first
  have used := (loadBlock_yields.ok ran).2
  dsimp only at entry
  have tiles : Tiles m.memory 0x10000 1024 [0x10000] := by
    simp [Tiles, entry]
  have isWalk : IsWalk (blockDisk dotBlock) (Nat × Nat)
      (oneBlock.contains (γ := Unit) (blockDisk dotBlock) 0 0 [0x61]) :=
        IsWalk.contains oneBlock 0 0 [0x61]
  refine ⟨_, m, ran, (walks_iff (drive_blockDisk dotBlock) isWalk ran
    ⟨used, by decide, by decide⟩).mpr ?_⟩
  exact soundBlock_of_tiles (Nat.le_refl 1024) tiles

/-- A block of zeros starts with a record of length 0, which is visited for ever. -/
theorem not_walks_zeros : ∃ buffer m, oneBlock.loadBlock (blockDisk [])
    0 0 Ext2Superblock.loadMachine =
    .ok buffer m ∧ ¬WalksBlock (PhysicalExt2Directory.callback fun _ => pure ()) (m, ())
      buffer 1024 := by
  have first : firstEntry [] = some (⟨0x10000, 0x1000, 1024, false⟩, ⟨0, 0, 0, 0, []⟩) := by
    decide +kernel
  obtain ⟨m, ran, entry⟩ := loads_of_firstEntry first
  dsimp only at entry
  have visited : PhysicalExt2Directory.callback (fun _ => (pure () : WalkM Unit Unit))
      ⟨0, 0, 0, 0, []⟩ (m, ()) = .ok none (m, ()) := rfl
  -- the pass over the first entry is back where it started
  have fixed : pass (PhysicalExt2Directory.callback fun _ => pure ()) ⟨(m, ()), 0x10000, 1024⟩ =
      some ⟨(m, ()), 0x10000, 1024⟩ := by
    have more : (1024 : Nat) ≠ 0 := by decide
    simp only [pass, passOver, if_neg more, entry, visited]
    simp [WalkCursor.past]
  refine ⟨_, m, ran, fun walks => ?_⟩
  exact not_ends_of_fixed fixed (ends_iff.mp walks.ends)

end EmkKernel
