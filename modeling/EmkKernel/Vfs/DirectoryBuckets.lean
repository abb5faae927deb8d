import EmkKernel.Library.Buckets
import EmkKernel.Utils.Pool
import EmkKernel.Vfs.DirectoryHashmap

/-!
# Buckets of the directory hash map

A bucket files its names in a range of the entry pool. Searching the used entries
of a bucket is searching the list it files; a name is appended behind the others, and
a full bucket moves to a range of twice the length.
-/

namespace EmkKernel

/-- Names are read back from the string allocator: it keeps a list of the names that
lie at its offsets, to which every name it takes is added. -/
structure StringStore.ReadsBack {σ : Type} (store : StringStore σ) (Name : Text → Prop)
    (Reads : σ → List (Nat × Text) → Prop) : Prop where
  new : ∀ m s m', store.new m = .ok s m' → Reads s []
  asString : ∀ s live, Reads s live → ∀ e ∈ live, store.asString s e.1 = .ok e.2
  allocate : ∀ s live name, Reads s live → Name name →
    (∃ s', store.allocate s name = .ok (none, s') ∧ Reads s' live) ∨
      ∃ offset s', store.allocate s name = .ok (some offset, s') ∧
        Reads s' ((offset, name) :: live)

/-- What a bucket files: names and their links. -/
abbrev Content := List (Text × GfsLink)

section Loops

variable {σ : Type} {store : StringStore σ} {strings : σ} {memory : EntryMemory}
  {entries : PoolSlice} {content : Content} {name : Text} {i : Nat}

theorem containsLoop_eq (fits : i + content.length ≤ entries.length)
    (names : ∀ j (inside : j < content.length),
      store.asString strings (memory (entries.entry (i + j))).stringOffset = .ok content[j].1) :
    DirectoryHashmapBucket.containsLoop store strings memory entries name i content.length =
      .ok (content.any fun e => e.1 = name) := by
  induction content generalizing i with
  | nil => rfl
  | cons e rest ih =>
    have first : store.asString strings (memory (entries.entry i)).stringOffset = .ok e.1 :=
      names 0 (Nat.succ_pos _)
    rw [List.length_cons] at fits
    rw [List.length_cons, DirectoryHashmapBucket.containsLoop, readEntry, if_pos (by omega)]
    simp only [bind, Except.bind, first]
    rw [List.any_cons]
    split
    next same => simp [same, pure, Except.pure]
    next other =>
      rw [decide_eq_false other, Bool.false_or]
      refine ih (by omega) fun j inside => ?_
      rw [Nat.add_right_comm]
      exact names (j + 1) (Nat.succ_lt_succ inside)

private theorem lookupLoop_eq (fits : i + content.length ≤ entries.length)
    (names : ∀ j (inside : j < content.length),
      store.asString strings (memory (entries.entry (i + j))).stringOffset = .ok content[j].1)
    (links : ∀ j (inside : j < content.length),
      (memory (entries.entry (i + j))).link = content[j].2) :
    GfsDirectoryHashmap.lookupLoop store strings memory entries name i content.length =
      .ok ((content.find? fun e => e.1 = name).map Prod.snd) := by
  induction content generalizing i with
  | nil => rfl
  | cons e rest ih =>
    have first : store.asString strings (memory (entries.entry i)).stringOffset = .ok e.1 :=
      names 0 (Nat.succ_pos _)
    have link : (memory (entries.entry i)).link = e.2 := links 0 (Nat.succ_pos _)
    rw [List.length_cons] at fits
    rw [List.length_cons, GfsDirectoryHashmap.lookupLoop, readEntry, if_pos (by omega)]
    simp only [bind, Except.bind, first]
    rw [List.find?_cons]
    split
    next same => simp [same, link, pure, Except.pure]
    next other =>
      rw [decide_eq_false other]
      refine ih (by omega) (fun j inside => ?_) fun j inside => ?_
      · rw [Nat.add_right_comm]
        exact names (j + 1) (Nat.succ_lt_succ inside)
      · rw [Nat.add_right_comm]
        exact links (j + 1) (Nat.succ_lt_succ inside)

end Loops

theorem entry_injective {slice : PoolSlice} {x y : Nat} (same : slice.entry x = slice.entry y) :
    x = y := by
  simp only [PoolSlice.entry, directoryHashmapEntrySize] at same
  omega

theorem bucket_injective {slice : PoolSlice} {g g' : Nat}
    (same : slice.bucket g = slice.bucket g') :
    g = g' := by
  simp only [PoolSlice.bucket, directoryHashmapBucketSize] at same
  omega

namespace GfsDirectoryHashmapManager

variable {σ : Type} {manager manager' : GfsDirectoryHashmapManager σ}
    {live live' : List (Nat × Text)}
  {slot : Extent} {g : Nat} {content : Content} {name : Text} {link : GfsLink}

/-- The bucket with this index. -/
def bucketAt (manager : GfsDirectoryHashmapManager σ) (g : Nat) : DirectoryHashmapBucket :=
  manager.bucketMemory (manager.buckets.bucket g)

/-- A bucket files a list of names in its range of the entry pool. -/
structure Files (manager : GfsDirectoryHashmapManager σ) (live : List (Nat × Text)) (slot : Extent)
    (g : Nat) (content : Content) : Prop where
  entries : (manager.bucketAt g).entries = ⟨manager.entries.entry slot.offset, slot.size⟩
  used : (manager.bucketAt g).used = content.length
  size : slot.size = 4 ∨ slot.size = 8 ∨ slot.size = 16
  fits : content.length ≤ slot.size
  names : ∀ j (inside : j < content.length),
    ((manager.entryMemory (manager.entries.entry (slot.offset + j))).stringOffset,
      content[j].1) ∈ live
  links : ∀ j (inside : j < content.length),
    (manager.entryMemory (manager.entries.entry (slot.offset + j))).link = content[j].2

/-- A bucket and its range of entries stay as they are. -/
theorem Files.frame (files : manager.Files live slot g content)
    (bucket : manager'.bucketAt g = manager.bucketAt g)
    (entries : manager'.entries = manager.entries)
    (memory : ∀ x ∈ slot.elements,
      manager'.entryMemory (manager.entries.entry x) =
        manager.entryMemory (manager.entries.entry x))
    (grown : live ⊆ live') : manager'.Files live' slot g content where
  entries := by rw [bucket, entries, files.entries]
  used := by rw [bucket, files.used]
  size := files.size
  fits := files.fits
  names := fun j inside => by
    have := files.fits
    rw [entries, memory _ ⟨Nat.le_add_right .., by omega⟩]
    exact grown (files.names j inside)
  links := fun j inside => by
    have := files.fits
    rw [entries, memory _ ⟨Nat.le_add_right .., by omega⟩]
    exact files.links j inside

/-- The entry with index `j` of a range of the pool. -/
theorem entry_slot (slice : PoolSlice) (offset size j : Nat) :
    (PoolSlice.mk (slice.entry offset) size).entry j = slice.entry (offset + j) := by
  simp only [PoolSlice.entry, Nat.mul_add, Nat.add_assoc]

section Reading

variable {store : StringStore σ} {Name : Text → Prop} {Reads : σ → List (Nat × Text) → Prop}
  (readsBack : store.ReadsBack Name Reads) (reads : Reads manager.stringAllocator live)
include readsBack reads

theorem Files.asString (files : manager.Files live slot g content) (j : Nat)
    (inside : j < content.length) : store.asString manager.stringAllocator
      (manager.entryMemory ((manager.bucketAt g).entries.entry (0 + j))).stringOffset =
        .ok content[j].1 := by
  rw [files.entries, entry_slot, Nat.zero_add]
  exact readsBack.asString _ _ reads _ (files.names j inside)

theorem Files.contains (files : manager.Files live slot g content) :
    DirectoryHashmapBucket.containsLoop store manager.stringAllocator manager.entryMemory
        (manager.bucketAt g).entries name 0 (manager.bucketAt g).used =
      .ok (content.any fun e => e.1 = name) := by
  rw [files.used]
  refine containsLoop_eq ?_ fun j inside => files.asString readsBack reads j inside
  rw [files.entries, Nat.zero_add]
  exact files.fits

theorem Files.lookup (files : manager.Files live slot g content) :
    GfsDirectoryHashmap.lookupLoop store manager.stringAllocator manager.entryMemory
        (manager.bucketAt g).entries name 0 (manager.bucketAt g).used =
      .ok ((content.find? fun e => e.1 = name).map Prod.snd) := by
  rw [files.used]
  refine lookupLoop_eq ?_ (fun j inside => files.asString readsBack reads j inside) fun j inside =>
    ?_
  · rw [files.entries, Nat.zero_add]
    exact files.fits
  · rw [files.entries, entry_slot, Nat.zero_add]
    exact files.links j inside

end Reading

theorem Files.isFull_iff (files : manager.Files live slot g content) :
    (manager.bucketAt g).isFull = true ↔ content.length = slot.size := by
  rw [DirectoryHashmapBucket.isFull, files.used, files.entries, decide_eq_true_iff]
  have sizes := files.size
  change content.length = slot.size % 2 ^ 8 ↔ _
  omega

/-! ### An entry behind the others -/

/-- The manager after an entry was appended to a bucket. -/
def appended (manager : GfsDirectoryHashmapManager σ) (slot : Extent) (g used : Nat)
    (entry : DirectoryHashmapEntry) : GfsDirectoryHashmapManager σ :=
  { manager with
    entryMemory := Function.update manager.entryMemory
      (manager.entries.entry (slot.offset + used)) entry }.setBucket g
    { manager.bucketAt g with used := used + 1 }

theorem Files.append (files : manager.Files live slot g content) (room : content.length < slot.size)
    (offset : Nat) (link : GfsLink) :
    (manager.bucketAt g).append manager.entryMemory offset link =
      .ok (Function.update manager.entryMemory
          (manager.entries.entry (slot.offset + content.length)) ⟨link, offset⟩,
        { manager.bucketAt g with used := content.length + 1 }) := by
  have sizes := files.size
  have fits : (manager.bucketAt g).used < (manager.bucketAt g).entries.length ∧
      (manager.bucketAt g).used + 1 < 2 ^ 8 := by
    rw [files.used, files.entries]
    exact ⟨room, by omega⟩
  have address : (manager.bucketAt g).entries.entry (manager.bucketAt g).used =
      manager.entries.entry (slot.offset + content.length) := by
    rw [files.used, files.entries, entry_slot]
  rw [DirectoryHashmapBucket.append, if_pos fits, address, files.used]

private theorem bucketAt_setBucket (bucket : DirectoryHashmapBucket) (g' : Nat) :
    (manager.setBucket g bucket).bucketAt g' = if g' = g then bucket else manager.bucketAt g' := by
  simp only [bucketAt, setBucket, Function.update_apply]
  split
  next same => rw [if_pos (bucket_injective same)]
  next other => rw [if_neg fun same : g' = g => other (congrArg _ same)]

theorem Files.appended (files : manager.Files live slot g content)
    (room : content.length < slot.size)
    (offset : Nat) : (manager.appended slot g content.length ⟨link, offset⟩).Files
      ((offset, name) :: live) slot g (content ++ [(name, link)]) := by
  have bucket : (manager.appended slot g content.length ⟨link, offset⟩).bucketAt g =
      { manager.bucketAt g with used := content.length + 1 } :=
    (bucketAt_setBucket ..).trans (if_pos rfl)
  have old {j : Nat} (inside : j < content.length) :
      (manager.appended slot g content.length ⟨link, offset⟩).entryMemory
        (manager.entries.entry (slot.offset + j)) =
          manager.entryMemory (manager.entries.entry (slot.offset + j)) :=
    Function.update_of_ne (fun same => by have := entry_injective same; omega) ..
  have new : (manager.appended slot g content.length ⟨link, offset⟩).entryMemory
      (manager.entries.entry (slot.offset + content.length)) = ⟨link, offset⟩ :=
    Function.update_self ..
  refine ⟨by rw [bucket]; exact files.entries, by rw [bucket, List.length_append]; rfl, files.size,
    by rw [List.length_append]; exact room, fun j inside => ?_, fun j inside => ?_⟩
  · rw [List.length_append, List.length_singleton] at inside
    rcases Nat.lt_succ_iff_lt_or_eq.mp inside with before | rfl
    · rw [List.getElem_append_left before]
      refine List.mem_cons_of_mem _ ?_
      have kept := files.names j before
      rwa [← old before] at kept
    · rw [List.getElem_append_right (le_refl _)]
      refine List.mem_cons.mpr (Or.inl ?_)
      rw [show (manager.appended slot g content.length ⟨link, offset⟩).entries = manager.entries
        from rfl, new]
      simp
  · rw [List.length_append, List.length_singleton] at inside
    rcases Nat.lt_succ_iff_lt_or_eq.mp inside with before | rfl
    · rw [List.getElem_append_left before]
      have kept := files.links j before
      rwa [← old before] at kept
    · rw [List.getElem_append_right (le_refl _)]
      rw [show (manager.appended slot g content.length ⟨link, offset⟩).entries = manager.entries
        from rfl, new]
      simp

theorem appended_bucketAt (slot : Extent) (used : Nat) (entry : DirectoryHashmapEntry) {g' : Nat}
    (other : g' ≠ g) :
    (manager.appended slot g used entry).bucketAt g' = manager.bucketAt g' :=
  (bucketAt_setBucket ..).trans (if_neg other)

/-- The entries of another range stay as they are. -/
theorem appended_entryMemory {x : Nat} (g : Nat) (entry : DirectoryHashmapEntry) {used : Nat}
    (inside : used < slot.size) (outside : x ∉ slot.elements) :
    (manager.appended slot g used entry).entryMemory (manager.entries.entry x) =
      manager.entryMemory (manager.entries.entry x) := by
  refine Function.update_of_ne (fun same => outside ?_) ..
  rw [entry_injective same]
  exact ⟨Nat.le_add_right .., Nat.add_lt_add_left inside _⟩

/-! ### A full bucket moves -/

/-- The slice of entries is the whole pool. -/
def PoolLaid (manager : GfsDirectoryHashmapManager σ) : Prop :=
  manager.entries = ⟨manager.entryAllocator.dataMemory.base, initEntryCount⟩

/-- The pool operations of the growth of a bucket are ones that the node list is fit
for: a range of twice the length is taken, then the old one is given back. -/
def SuitsGrowth (pool : NodeAllocator) (slot : Extent) : Prop :=
  pool.SuitsSize (slot.size * 2) ∧
    ((pool.afterRequest (slot.size * 2)).SuitsRange slot ∨
      (pool.afterRequest (slot.size * 2)).Unheld slot)

instance (pool : NodeAllocator) (slot : Extent) : Decidable (SuitsGrowth pool slot) :=
  inferInstanceAs (Decidable (_ ∧ _))

/-- The memory after the entries of a range were copied to the start of another one. -/
def copied (memory : EntryMemory) (entries : PoolSlice) (slot slot' : Extent) : EntryMemory :=
  fun address =>
    if entries.entry slot'.offset ≤ address ∧ address < entries.entry (slot'.offset + slot.size)
      then
      memory (entries.entry slot.offset + (address - entries.entry slot'.offset))
    else memory address

private theorem copied_inside {memory : EntryMemory} {entries : PoolSlice} {slot slot' : Extent}
    {j : Nat}
    (inside : j < slot.size) : copied memory entries slot slot' (entries.entry (slot'.offset + j)) =
      memory (entries.entry (slot.offset + j)) := by
  have within : entries.entry slot'.offset ≤ entries.entry (slot'.offset + j) ∧
      entries.entry (slot'.offset + j) < entries.entry (slot'.offset + slot.size) := by
    simp only [PoolSlice.entry, directoryHashmapEntrySize]
    omega
  rw [copied, if_pos within]
  refine congrArg memory ?_
  simp only [PoolSlice.entry, directoryHashmapEntrySize]
  omega

theorem copied_outside {memory : EntryMemory} {entries : PoolSlice} {slot slot' : Extent} {x : Nat}
    (shorter : slot.size ≤ slot'.size) (outside : x ∉ slot'.elements) :
    copied memory entries slot slot' (entries.entry x) = memory (entries.entry x) := by
  have apart : ¬(slot'.offset ≤ x ∧ x < slot'.offset + slot'.size) := outside
  refine if_neg ?_
  simp only [PoolSlice.entry, directoryHashmapEntrySize]
  omega

/-- The manager after a bucket moved to another range. -/
def moved (manager : GfsDirectoryHashmapManager σ) (slot slot' : Extent) (g : Nat)
    (pool : NodeAllocator) : GfsDirectoryHashmapManager σ :=
  { manager with
    entryMemory := copied manager.entryMemory manager.entries slot slot'
    entryAllocator := pool }.setBucket g
    { manager.bucketAt g with entries := ⟨manager.entries.entry slot'.offset, slot'.size⟩ }

theorem moved_bucketAt_self {slot' : Extent} (pool : NodeAllocator) :
    (manager.moved slot slot' g pool).bucketAt g =
      { manager.bucketAt g with entries := ⟨manager.entries.entry slot'.offset, slot'.size⟩ } :=
  (bucketAt_setBucket ..).trans (if_pos rfl)

theorem moved_bucketAt {slot' : Extent} {g' : Nat} (pool : NodeAllocator) (other : g' ≠ g) :
    (manager.moved slot slot' g pool).bucketAt g' = manager.bucketAt g' :=
  (bucketAt_setBucket ..).trans (if_neg other)

theorem Files.moved (files : manager.Files live slot g content) {slot' : Extent}
    (double : slot'.size = slot.size * 2) (growable : slot.size ≠ 16) (pool : NodeAllocator) :
    (manager.moved slot slot' g pool).Files live slot' g content := by
  have bucket : (manager.moved slot slot' g pool).bucketAt g = _ := moved_bucketAt_self pool
  have sizes := files.size
  have fits := files.fits
  have cell {j : Nat} (inside : j < content.length) :
      (manager.moved slot slot' g pool).entryMemory (manager.entries.entry (slot'.offset + j)) =
        manager.entryMemory (manager.entries.entry (slot.offset + j)) :=
    copied_inside (by omega)
  refine ⟨by rw [bucket]; rfl, by rw [bucket]; exact files.used, by omega, by omega,
    fun j inside => ?_, fun j inside => ?_⟩
  · have name := files.names j inside
    rwa [← cell inside] at name
  · have link := files.links j inside
    rwa [← cell inside] at link

/-- A pool without a node that is long enough leaves the bucket as it is. -/
theorem Files.grow_refused {lent : List Extent} (files : manager.Files live slot g content)
    (pool : manager.entryAllocator.Lends initEntryCount lent)
    (none : manager.entryAllocator.chosen (slot.size * 2) = none) :
    (manager.bucketAt g).grow manager.entryMemory manager.entryAllocator manager.entries 2 =
      .ok ⟨false, manager.entryMemory, manager.bucketAt g, manager.entryAllocator⟩ := by
  have sizes := files.size
  have small : asU32 (slot.size * 2) = slot.size * 2 := Nat.mod_eq_of_lt (by omega)
  have length : (manager.bucketAt g).entries.length = slot.size := by rw [files.entries]
  have suits : manager.entryAllocator.SuitsSize (slot.size * 2) := by
    intro c found
    rw [none] at found
    cases found
  rcases pool.allocate (by omega) suits with ⟨_, refused⟩ | ⟨c, a, chosen, _⟩
  · simp only [DirectoryHashmapBucket.grow, length, small, bind, Except.bind, refused]
    rfl
  · rw [none] at chosen
    cases chosen

/-- `grow` is refused, or the bucket gets a range that nobody holds and gives back its
old one. -/
theorem Files.grow {lent : List Extent} (files : manager.Files live slot g content)
    (laid : manager.PoolLaid) (pool : manager.entryAllocator.Lends initEntryCount lent)
    (member : slot ∈ lent) (suits : SuitsGrowth manager.entryAllocator slot) :
    (manager.entryAllocator.chosen (slot.size * 2) = none ∧
      (manager.bucketAt g).grow manager.entryMemory manager.entryAllocator manager.entries 2 =
        .ok ⟨false, manager.entryMemory, manager.bucketAt g, manager.entryAllocator⟩) ∨
    ∃ slot' pool' lent',
      (manager.bucketAt g).grow manager.entryMemory manager.entryAllocator manager.entries 2 =
        .ok ⟨true, copied manager.entryMemory manager.entries slot slot',
          { manager.bucketAt g with entries := ⟨manager.entries.entry slot'.offset, slot'.size⟩ },
          pool'⟩ ∧
      slot'.size = slot.size * 2 ∧ manager.entryAllocator.SameMemory pool' ∧
      pool'.Lends initEntryCount lent' ∧ slot' ∈ lent' ∧
      ∀ f ∈ lent, slot'.Disjoint f ∧ (f ≠ slot → f ∈ lent') := by
  have sizes := files.size
  obtain ⟨suitsSize, suitsFree⟩ := suits
  have small : asU32 (slot.size * 2) = slot.size * 2 := Nat.mod_eq_of_lt (by omega)
  have length : (manager.bucketAt g).entries.length = slot.size := by rw [files.entries]
  rcases pool.allocate (by omega) suitsSize with ⟨none, _⟩ | ⟨c, a, chosen, granted, same, lends⟩
  · exact Or.inl ⟨none, files.grow_refused pool none⟩
  · -- the old range is given back after the new one was taken
    rw [NodeAllocator.afterRequest, granted] at suitsFree
    have inside := lends.inside (List.mem_cons_of_mem _ member)
    have room := lends.inside (List.mem_cons_self ..)
    obtain ⟨freed, b, gave, same', lent', lends', kept⟩ :=
      lends.free (List.mem_cons_of_mem _ member) suitsFree
    have apart : ∀ f ∈ lent, (Extent.mk (manager.entryAllocator.startOf c)
        (slot.size * 2)).Disjoint f :=
      (List.pairwise_cons.mp lends.pairwise).1
    have base : manager.entries.base = a.dataMemory.base := by rw [laid, same.data]
    have back : (manager.bucketAt g).freeContents a = .ok b := by
      have distance : checkedSub (manager.bucketAt g).entries.base a.dataMemory.base =
          .ok (directoryHashmapEntrySize * slot.offset) := by
        rw [files.entries, PoolSlice.entry, base, checkedSub_ok (Nat.le_add_right ..),
          Nat.add_sub_cancel_left]
      have offset : asU32 (directoryHashmapEntrySize * slot.offset / directoryHashmapEntrySize) =
          slot.offset := by
        rw [Nat.mul_div_cancel_left _ (by decide)]
        exact Nat.mod_eq_of_lt (lt_of_le_of_lt (Nat.le_add_right ..) (inside.trans_lt (by decide)))
      have size : asU32 slot.size = slot.size := Nat.mod_eq_of_lt (by omega)
      simp only [DirectoryHashmapBucket.freeContents, distance, bind, Except.bind, offset, length,
        size, gave]
      rfl
    have copy : (manager.bucketAt g).copyContentsTo manager.entryMemory manager.entries
        (manager.entryAllocator.startOf c) = .ok (copied manager.entryMemory manager.entries slot
          ⟨manager.entryAllocator.startOf c, slot.size * 2⟩) := by
      have fits : manager.entryAllocator.startOf c + slot.size ≤ manager.entries.length := by
        rw [laid]
        simp only [] at room ⊢
        omega
      rw [DirectoryHashmapBucket.copyContentsTo, length, if_pos fits, files.entries]
      rfl
    have address : b.dataMemory.base + manager.entryAllocator.startOf c *
        directoryHashmapEntrySize =
        manager.entries.entry (manager.entryAllocator.startOf c) := by
      rw [same'.data, ← base, Nat.mul_comm]
      rfl
    refine Or.inr ⟨⟨manager.entryAllocator.startOf c, slot.size * 2⟩, b, lent', ?_, rfl,
      ⟨same'.data.trans same.data, same'.element.trans same.element⟩, lends',
      kept _ (List.mem_cons_self ..) fun same => ?_, fun f old =>
        ⟨apart f old, kept f (List.mem_cons_of_mem _ old)⟩⟩
    · simp only [DirectoryHashmapBucket.grow, length, small, bind, Except.bind, granted, copy, back,
        DirectoryHashmapBucket.assign, address]
      rfl
    · have double := congrArg Extent.size same
      simp only [] at double
      omega

end GfsDirectoryHashmapManager

end EmkKernel
