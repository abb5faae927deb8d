import EmkKernel.Vfs.Directories

/-!
# Refused insertions

What an insertion that returns an error leaves behind. As long as no map has to be rehashed
nothing is lost and the insertion can be repeated; a rehash that a pool refuses halves the
count of entries, which was not doubled before.
-/

namespace EmkKernel

open NodeAllocator GfsDirectoryHashmap GfsDirectoryHashmapManager

/-- Every result but a success. -/
def GfsDirectoryHashmapInsertion.IsRefusal : GfsDirectoryHashmapInsertion → Prop
  | .success _ => False
  | _ => True

namespace Directories

variable {σ : Type}

/-! ### Insertions by what they do -/

section Equations

variable {map : GfsDirectoryHashmap} {manager : GfsDirectoryHashmapManager σ} {name : Text}
  {h index : Nat} {b : DirectoryHashmapBucket}

private theorem insert_of_room (store : StringStore σ) (link : GfsLink)
    (hash : map.hashStr name = .ok h)
    (sum : checkedAdd32 map.bucketOffset h = .ok index) (bucket : manager.bucket index = .ok b)
    (room : b.isFull = false) :
    map.insert store manager name link = insertInto store map manager name link h false := by
  simp [GfsDirectoryHashmap.insert, hash, sum, bucket, room, bind, Except.bind]

theorem insert_of_growable (store : StringStore σ) (link : GfsLink)
    (hash : map.hashStr name = .ok h)
    (sum : checkedAdd32 map.bucketOffset h = .ok index) (bucket : manager.bucket index = .ok b)
    (full : b.isFull = true) (growable : b.canGrow = true) :
    map.insert store manager name link =
      insertGrown store map manager name link h b.entries.length false := by
  simp [GfsDirectoryHashmap.insert, hash, sum, bucket, full, growable, bind, Except.bind]

variable {store : StringStore σ} {link : GfsLink}

private theorem insertGrown_refused {length : Nat} {rehashed : Bool}
    (sum : checkedAdd32 map.bucketOffset h = .ok index) (bucket : manager.bucket index = .ok b)
    (refused : b.grow manager.entryMemory manager.entryAllocator manager.entries 2 =
      .ok ⟨false, manager.entryMemory, b, manager.entryAllocator⟩) :
    insertGrown store map manager name link h length rehashed =
      .ok (.entryReallocationRequired, map, manager) := by
  simp only [insertGrown, sum, bucket, refused, bind, Except.bind]
  rfl

private theorem insertGrown_grown {length count : Nat} {rehashed : Bool} {memory : EntryMemory}
    {b' : DirectoryHashmapBucket} {pool : NodeAllocator}
    (sum : checkedAdd32 map.bucketOffset h = .ok index) (bucket : manager.bucket index = .ok b)
    (grew : b.grow manager.entryMemory manager.entryAllocator manager.entries 2 =
      .ok ⟨true, memory, b', pool⟩)
    (counted : checkedAdd32 map.numEntriesUsed (asU32 length) = .ok count) :
    insertGrown store map manager name link h length rehashed =
      insertInto store { map with numEntriesUsed := count }
        ({ manager with entryMemory := memory, entryAllocator := pool }.setBucket index b')
        name link h rehashed := by
  simp only [insertGrown, sum, bucket, grew, counted, bind, Except.bind, if_true]

/-- A refused end of an insertion changes nothing if refused strings change nothing. -/
theorem insertInto_refused {rehashed : Bool} {outcome : Outcome σ}
    (unchanged : ∀ strings, store.allocate manager.stringAllocator name = .ok (none, strings) →
      strings = manager.stringAllocator)
    (ran : insertInto store map manager name link h rehashed = .ok outcome)
    (refused : outcome.1.IsRefusal) : outcome = (.allreadyPresent, map, manager) ∨
      outcome = (.stringReallocationRequired, map, manager) := by
  unfold insertInto at ran
  obtain ⟨index, sum, ran⟩ := bind_ok ran
  obtain ⟨b, bucket, ran⟩ := bind_ok ran
  obtain ⟨found, searched, ran⟩ := bind_ok ran
  split at ran
  · cases ran
    exact Or.inl rfl
  · obtain ⟨⟨offset, strings⟩, allocated, ran⟩ := bind_ok ran
    cases offset with
    | none =>
      cases ran
      obtain rfl := unchanged strings allocated
      exact Or.inr rfl
    | some offset =>
      obtain ⟨⟨memory, b'⟩, appended, ran⟩ := bind_ok ran
      cases ran
      exact refused.elim

end Equations

/-! ### What a refusal keeps -/

/-- The pool that a result names was made larger: only the strings have changed, or anything
but the strings. -/
def Enlarges (enlarge : GfsDirectoryHashmapManager σ → GfsDirectoryHashmapManager σ) :
    GfsDirectoryHashmapInsertion → Prop
  | .stringReallocationRequired => ∃ larger : σ → σ, ∀ manager,
      enlarge manager = { manager with stringAllocator := larger manager.stringAllocator }
  | .entryReallocationRequired => ∀ manager,
      (enlarge manager).stringAllocator = manager.stringAllocator
  | .bucketReallocationRequired => ∀ manager,
      (enlarge manager).stringAllocator = manager.stringAllocator
  | .allreadyPresent => False
  | .success _ => False

/-- Nothing is lost: all lookups find what they found, the counters are right, and the same
insertion on a larger pool does what it would have done there at once. -/
structure Retains (store : StringStore σ) (s : Directories σ) (i : Nat) (d : Directory)
    (name : Text)
    (link : GfsLink) (outcome : Outcome σ) : Prop where
  lookup : ∀ other, outcome.2.1.lookup store outcome.2.2 other = d.map.lookup store s.manager other
  elsewhere : ∀ k e, k ≠ i → s.maps[k]? = some e → ∀ other,
    e.map.lookup store outcome.2.2 other = e.map.lookup store s.manager other
  buckets : outcome.2.1.bucketOffset = d.map.bucketOffset ∧
    outcome.2.1.numBuckets = d.map.numBuckets
  used : ∀ j < d.map.numBuckets, (outcome.2.2.bucketAt (d.map.bucketOffset + j)).used =
    (s.manager.bucketAt (d.map.bucketOffset + j)).used
  counted : outcome.2.1.numEntriesUsed = ∑ j ∈ Finset.range outcome.2.1.numBuckets,
    (outcome.2.2.bucketAt (outcome.2.1.bucketOffset + j)).entries.length
  retry : ∀ enlarge, Enlarges enlarge outcome.1 →
    outcome.2.1.insert store (enlarge outcome.2.2) name link =
      d.map.insert store (enlarge s.manager) name link

/-- The insertion returns, and an error loses nothing. -/
def LosesNothing (store : StringStore σ) (s : Directories σ) (i : Nat) (d : Directory) (name : Text)
    (link : GfsLink) : Prop :=
  ∃ outcome, d.map.insert store s.manager name link = .ok outcome ∧
    (outcome.1.IsRefusal → s.Retains store i d name link outcome)

/-- A name that there is no room for leaves the strings as they are. -/
def KeepsRefused (store : StringStore σ) (Reads : σ → List (Nat × Text) → Prop) : Prop :=
  ∀ strings live name strings', Reads strings live →
    store.allocate strings name = .ok (none, strings') → strings' = strings

/-- No rehash is needed: the bucket of the name has room, or it can grow, and the entry pool
has no node that is long enough or is fit for the growth. -/
def Clear (manager : GfsDirectoryHashmapManager σ) (d : Directory) (name : Text) : Prop :=
  (manager.bucketAt (d.index name)).isFull = true →
    (manager.bucketAt (d.index name)).canGrow = true ∧
    (manager.entryAllocator.chosen ((manager.bucketAt (d.index name)).entries.length * 2) = none ∨
      SuitsGrowth manager.entryAllocator (extentOf manager (manager.bucketAt (d.index name))))

/-- A pool is fit for a request that is given back at once. -/
def LendsBack (pool : NodeAllocator) (size : Nat) : Prop :=
  pool.SuitsSize size ∧ ∀ c ∈ pool.chosen size,
    (pool.afterRequest size).SuitsRange ⟨pool.startOf c, size⟩ ∨
      (pool.afterRequest size).Unheld ⟨pool.startOf c, size⟩

/-- A rehash is needed that one of the pools refuses. -/
def Refuses (manager : GfsDirectoryHashmapManager σ) (d : Directory) (name : Text) : Prop :=
  (manager.bucketAt (d.index name)).isFull = true ∧
    (manager.bucketAt (d.index name)).canGrow = false ∧
    (manager.bucketAllocator.chosen (d.map.numBuckets * 2) = none ∨
      manager.entryAllocator.chosen (d.map.numEntriesUsed * 2) = none) ∧
    LendsBack manager.bucketAllocator (d.map.numBuckets * 2) ∧
    LendsBack manager.entryAllocator (d.map.numEntriesUsed * 2)

instance (manager : GfsDirectoryHashmapManager σ) (d : Directory) (name : Text) :
    Decidable (Clear manager d name) := inferInstanceAs (Decidable (_ → _))

instance (pool : NodeAllocator) (size : Nat) : Decidable (LendsBack pool size) :=
  inferInstanceAs (Decidable (_ ∧ _))

instance (manager : GfsDirectoryHashmapManager σ) (d : Directory) (name : Text) :
    Decidable (Refuses manager d name) := inferInstanceAs (Decidable (_ ∧ _))

section Steps

variable {store : StringStore σ} {Name : Text → Prop} {Reads : σ → List (Nat × Text) → Prop}
  {s : Directories σ} {slot : Nat → Extent} {lent : List Extent} {live : List (Nat × Text)}
  {i : Nat} {d : Directory} {name : Text} {link : GfsLink}

theorem Books.counted_lengths (books : s.Books Reads slot lent live) (member : d ∈ s.maps) :
    d.map.numEntriesUsed = ∑ j ∈ Finset.range d.map.numBuckets,
      (s.manager.bucketAt (d.map.bucketOffset + j)).entries.length := by
  rw [books.counted d member]
  apply Finset.sum_congr rfl
  intro j below
  have held : s.Owned (d.map.bucketOffset + j) :=
    ⟨d, member, Nat.le_add_right .., Nat.add_lt_add_left (Finset.mem_range.mp below) _⟩
  rw [books.entries held]

theorem Books.retains_unchanged (books : s.Books Reads slot lent live) (member : d ∈ s.maps)
    (result : GfsDirectoryHashmapInsertion) :
    s.Retains store i d name link (result, d.map, s.manager) where
  lookup := fun _ => rfl
  elsewhere := fun _ _ _ _ _ => rfl
  buckets := ⟨rfl, rfl⟩
  used := fun _ _ => rfl
  counted := books.counted_lengths member
  retry := fun _ _ => rfl

/-- A bucket that has grown files the same names, and is not grown again. -/
theorem Books.retains_grown (books : s.Books Reads slot lent live)
    (readsBack : store.ReadsBack Name Reads) (here : s.maps[i]? = some d)
    (full : (s.manager.bucketAt (d.index name)).isFull = true)
    (growable : (s.manager.bucketAt (d.index name)).canGrow = true)
    {slot' : Extent} {pool' : NodeAllocator} {lent' : List Extent} {count : Nat}
    (grew : (s.manager.bucketAt (d.index name)).grow s.manager.entryMemory s.manager.entryAllocator
        s.manager.entries 2 =
      .ok ⟨true, copied s.manager.entryMemory s.manager.entries (slot (d.index name)) slot',
        { s.manager.bucketAt (d.index name) with
          entries := ⟨s.manager.entries.entry slot'.offset, slot'.size⟩ }, pool'⟩)
    (counted : checkedAdd32 d.map.numEntriesUsed
      (asU32 (s.manager.bucketAt (d.index name)).entries.length) = .ok count)
    (room : ((s.manager.moved (slot (d.index name)) slot' (d.index name) pool').bucketAt
      (d.index name)).isFull = false)
    (books' : ({ s with
        manager := s.manager.moved (slot (d.index name)) slot' (d.index name) pool'
        maps := s.maps.set i { d with map := { d.map with numEntriesUsed := count } } }
          : Directories σ).Books Reads (Function.update slot (d.index name) slot') lent' live)
    {result : GfsDirectoryHashmapInsertion}
    (ends : result = .allreadyPresent ∨ result = .stringReallocationRequired) :
    s.Retains store i d name link (result, { d.map with numEntriesUsed := count },
      s.manager.moved (slot (d.index name)) slot' (d.index name) pool') := by
  have member : d ∈ s.maps := List.mem_of_getElem? here
  have below := (List.getElem?_eq_some_iff.mp here).1
  have member' := List.mem_of_getElem? (List.getElem?_set_self (l := s.maps) below
    (a := { d with map := { d.map with numEntriesUsed := count } }))
  obtain ⟨index, bucket⟩ := books.bucket member name
  refine ⟨fun other => ?_, fun k e apart there other => ?_, ⟨rfl, rfl⟩, fun j less => ?_,
    books'.counted_lengths member', fun enlarge larger => ?_⟩
  · exact (books'.lookup readsBack member' other).trans (books.lookup readsBack member other).symm
  · have there' : (s.maps.set i { d with map := { d.map with numEntriesUsed := count } })[k]? =
        some e := by rw [List.getElem?_set_ne apart.symm, there]
    exact (books'.lookup readsBack (List.mem_of_getElem? there') other).trans
      (books.lookup readsBack (List.mem_of_getElem? there) other).symm
  · by_cases own : d.map.bucketOffset + j = d.index name
    · dsimp only
      rw [own, moved_bucketAt_self]
    · exact congrArg DirectoryHashmapBucket.used (moved_bucketAt pool' own)
  · rcases ends with rfl | rfl
    · exact larger.elim
    · -- at once the bucket grows on the larger pool as it did on the other one
      obtain ⟨f, changes⟩ := larger
      rw [changes, changes]
      have hash := books.hashStr member name
      have later := @insert_of_room σ { d.map with numEntriesUsed := count }
        { s.manager.moved (slot (d.index name)) slot' (d.index name) pool' with
          stringAllocator := f s.manager.stringAllocator }
        name _ _ _ store link hash index (books'.bucket member' name).2 room
      have once := (@insert_of_growable σ d.map
        { s.manager with stringAllocator := f s.manager.stringAllocator } name _ _ _ store link
        hash index bucket full growable).trans (insertGrown_grown index bucket grew counted)
      exact later.trans once.symm

/-- Without a rehash nothing is lost. -/
theorem Books.losesNothing (books : s.Books Reads slot lent live)
    (readsBack : store.ReadsBack Name Reads) (keeps : KeepsRefused store Reads)
    (here : s.maps[i]? = some d) (valid : Name name) (clear : Clear s.manager d name)
    (link : GfsLink) : s.LosesNothing store i d name link := by
  have member : d ∈ s.maps := List.mem_of_getElem? here
  obtain ⟨index, bucket⟩ := books.bucket member name
  have hash := books.hashStr member name
  cases full : (s.manager.bucketAt (d.index name)).isFull with
  | false =>
    obtain ⟨outcome, ran, _⟩ := books.insertInto readsBack here valid full link
    refine ⟨outcome, (insert_of_room store link hash index bucket full).trans ran,
      fun refused => ?_⟩
    rcases insertInto_refused (fun strings => keeps _ _ _ strings books.reads) ran refused with
      rfl | rfl
    · exact books.retains_unchanged member _
    · exact books.retains_unchanged member _
  | true =>
    obtain ⟨growable, serves⟩ := clear full
    obtain ⟨b, _, _, mine⟩ := books.files member name
    have length : (s.manager.bucketAt (d.index name)).entries.length =
        (slot (d.index name)).size := by rw [mine.entries]
    have grows := insert_of_growable store link hash index bucket full growable
    cases chosen : s.manager.entryAllocator.chosen
        ((s.manager.bucketAt (d.index name)).entries.length * 2) with
    | none =>
      have refused := mine.grow_refused books.pool (length ▸ chosen)
      refine ⟨_, grows.trans (insertGrown_refused index bucket refused), fun _ => ?_⟩
      exact books.retains_unchanged member _
    | some c =>
      have suits : SuitsInsert s.manager d name := by
        intro _
        refine ⟨growable, serves.resolve_left ?_, fun none => ?_⟩
        · rw [chosen]
          exact Option.some_ne_none c
        · rw [chosen] at none
          cases none
      rcases books.grow here full suits with ⟨_, refused⟩ |
        ⟨slot', pool', lent', count, grew, counted, room, books'⟩
      · refine ⟨_, grows.trans (insertGrown_refused index bucket refused), fun _ => ?_⟩
        exact books.retains_unchanged member _
      · have below := (List.getElem?_eq_some_iff.mp here).1
        obtain ⟨outcome, ran, _⟩ := books'.insertInto
          (d := { d with map := { d.map with numEntriesUsed := count } }) readsBack
          (List.getElem?_set_self below) valid room link
        refine ⟨outcome, (grows.trans (insertGrown_grown index bucket grew counted)).trans ran,
          fun refused => ?_⟩
        rcases insertInto_refused (fun strings => keeps _ _ _ strings books'.reads) ran refused with
          rfl | rfl
        · exact books.retains_grown readsBack here full growable grew counted room books'
            (Or.inl rfl)
        · exact books.retains_grown readsBack here full growable grew counted room books'
            (Or.inr rfl)

/-! ### A rehash that is refused -/

theorem lendsBack_cases {pool : NodeAllocator} {capacity size : Nat}
    (lends : pool.Lends capacity lent)
    (positive : 0 < size) (back : LendsBack pool size) :
    (pool.chosen size = none ∧ pool.allocateAsOffset size = .ok (none, pool)) ∨
      ∃ c pool' freed pool'', pool.chosen size = some c ∧
        pool.allocateAsOffset size = .ok (some (pool.startOf c), pool') ∧
        pool'.freeOffset (pool.startOf c) size = .ok (freed, pool'') := by
  obtain ⟨suits, returns⟩ := back
  rcases lends.allocate positive suits with refused | ⟨c, pool', chosen, granted, _, lends'⟩
  · exact Or.inl refused
  · have fit := returns c chosen
    rw [NodeAllocator.afterRequest, granted] at fit
    obtain ⟨freed, pool'', gave, _⟩ := lends'.free (List.mem_cons_self ..) fit
    exact Or.inr ⟨c, pool', freed, pool'', chosen, granted, gave⟩

private theorem Books.entries_positive (books : s.Books Reads slot lent live)
    (member : d ∈ s.maps) :
    0 < d.map.numEntriesUsed ∧ d.map.numEntriesUsed ≤ d.map.numBuckets * 16 := by
  obtain ⟨b, _, files⟩ := books.filed d member
  have size (j : Nat) (below : j ∈ Finset.range d.map.numBuckets) :=
    (files j (Finset.mem_range.mp below)).size
  rw [books.counted d member]
  constructor
  · apply Finset.sum_pos
    · intro j below
      have := size j below
      omega
    · exact ⟨0, Finset.mem_range.mpr (books.positive member)⟩
  · have each := Finset.sum_le_card_nsmul (Finset.range d.map.numBuckets)
      (fun j => (slot (d.map.bucketOffset + j)).size) 16 fun j below => by
        have := size j below
        omega
    simpa using each

theorem Books.rehash_refused (books : s.Books Reads slot lent live) (store : StringStore σ)
    (member : d ∈ s.maps) (refuses : Refuses s.manager d name) : ∃ result manager,
      d.map.rehash store s.manager = .ok (result, d.map, manager) ∧
        (result = .bucketReallocationRequired ∨ result = .entryReallocationRequired) ∧
        ∀ g, manager.bucketAt g = s.manager.bucketAt g := by
  obtain ⟨_, _, short, bucketsBack, entriesBack⟩ := refuses
  have positive := books.positive member
  have inside := books.short d member
  obtain ⟨some, bound⟩ := books.entries_positive member
  simp only [initBucketCount] at inside
  have numBuckets : checkedMul32 d.map.numBuckets 2 = .ok (d.map.numBuckets * 2) :=
      if_pos (by omega)
  have numEntries : checkedMul32 d.map.numEntriesUsed 2 = .ok (d.map.numEntriesUsed * 2) :=
    if_pos (by omega)
  rcases lendsBack_cases books.ranges (by omega) bucketsBack with
    ⟨_, refused⟩ | ⟨c, pool', freed, pool'', chosen, granted, gave⟩
  · rcases lendsBack_cases books.pool (by omega) entriesBack with
      ⟨_, refused'⟩ | ⟨c', pool', freed, pool'', _, granted', gave'⟩
    · refine ⟨_, { s.manager with
        bucketAllocator := s.manager.bucketAllocator
        entryAllocator := s.manager.entryAllocator }, ?_, Or.inl rfl, fun _ => rfl⟩
      simp only [GfsDirectoryHashmap.rehash, numBuckets, numEntries, refused, refused', bind,
        Except.bind]
      rfl
    · refine ⟨_, { s.manager with entryAllocator := pool'' }, ?_, Or.inl rfl, fun _ => rfl⟩
      simp only [GfsDirectoryHashmap.rehash, numBuckets, numEntries, refused, granted', gave', bind,
        Except.bind]
      rfl
  · rcases lendsBack_cases books.pool (by omega) entriesBack with
      ⟨_, refused'⟩ | ⟨c', _, _, _, chosen', _⟩
    · refine ⟨_, { s.manager with bucketAllocator := pool'' }, ?_, Or.inr rfl, fun _ => rfl⟩
      simp only [GfsDirectoryHashmap.rehash, numBuckets, numEntries, granted, refused', gave, bind,
        Except.bind]
      rfl
    · rw [chosen, chosen'] at short
      simp at short

/-- A refused rehash halves the count of entries, which are as many as before. -/
theorem Books.loses (books : s.Books Reads slot lent live) (here : s.maps[i]? = some d)
    (refuses : Refuses s.manager d name) : ¬s.LosesNothing store i d name link := by
  have member : d ∈ s.maps := List.mem_of_getElem? here
  obtain ⟨index, bucket⟩ := books.bucket member name
  have hash := books.hashStr member name
  obtain ⟨result, manager, rehashed, ends, same⟩ := books.rehash_refused store member refuses
  obtain ⟨full, grown, _⟩ := refuses
  have inserted : d.map.insert store s.manager name link =
      .ok (result, { d.map with numEntriesUsed := d.map.numEntriesUsed / 2 }, manager) := by
    simp only [GfsDirectoryHashmap.insert, hash, index, bucket, full, grown, rehashed, bind,
      Except.bind, if_true, Bool.false_eq_true, if_false]
    rcases ends with rfl | rfl
    · rfl
    · rfl
  rintro ⟨outcome, ran, retains⟩
  cases inserted.symm.trans ran
  have refused : result.IsRefusal := by
    rcases ends with rfl | rfl
    · trivial
    · trivial
  have counted := (retains refused).counted
  simp only [same] at counted
  rw [← books.counted_lengths member] at counted
  have positive := (books.entries_positive member).1
  omega

end Steps

/-! ### Insertions after runs -/

section Runs

open Pager

variable {store : StringStore σ} {Name : Text → Prop} {Reads : σ → List (Nat × Text) → Prop}
  {s : Directories σ} {i : Nat} {d : Directory} {name : Text}
    {manager : GfsDirectoryHashmapManager σ}
  {pager : Pager} {m m' : Machine}

/-- After every run whose steps meet the condition, an insertion that needs no rehash loses
nothing; one that needs a rehash that a pool refuses does. -/
theorem insert_losesNothing (readsBack : store.ReadsBack Name Reads)
    (keeps : KeepsRefused store Reads)
    (made : GfsDirectoryHashmapManager.new store m = .ok manager m')
    (run : Requests.Run (serve store pager) (Meets Name) ⟨m', manager, []⟩ s)
    (here : s.maps[i]? = some d) (valid : Name name) (link : GfsLink) :
    (Clear s.manager d name → s.LosesNothing store i d name link) ∧
      (Refuses s.manager d name → ¬s.LosesNothing store i d name link) := by
  obtain ⟨⟨_, _, _, books⟩, _⟩ := books_of_run readsBack made run
  constructor
  · intro clear
    exact books.losesNothing readsBack keeps here valid clear link
  · intro refuses
    exact books.loses here refuses

/-- The string allocator of the kernel changes nothing when it refuses a name. -/
theorem gfsStrings_keepsRefused (bytes : Nat → Byte) :
    KeepsRefused (gfsStrings bytes) (GfsStringAllocator.Books bytes) := by
  intro strings live name strings' _ refused
  change strings.allocate name = _ at refused
  unfold GfsStringAllocator.allocate at refused
  split at refused
  next c _ =>
    unfold GfsStringAllocator.allocateSlot at refused
    split at refused
    · cases refused
      rfl
    · obtain ⟨dst, _, refused⟩ := bind_ok refused
      obtain ⟨copy, _, refused⟩ := bind_ok refused
      obtain ⟨offset, _, refused⟩ := bind_ok refused
      cases refused
  next =>
    unfold GfsStringAllocator.allocateAbove32 at refused
    obtain ⟨⟨offset, allocator⟩, _, refused⟩ := bind_ok refused
    cases offset with
    | none =>
      cases refused
      rfl
    | some offset =>
      obtain ⟨dst, _, refused⟩ := bind_ok refused
      obtain ⟨copy, _, refused⟩ := bind_ok refused
      obtain ⟨result, _, refused⟩ := bind_ok refused
      cases refused

/-- Four names fill a bucket of the second map. -/
def fillingRun : List DirectoryRequest :=
  [.allocate 4, .allocate 3] ++ [3, 7, 11, 15].map (insertByte 1)

/-- Names of two bytes for the bucket 160 of 321. -/
def crowdingNames : List Text :=
  (List.range 11).map (fun k => [BitVec.ofNat 8 (19 + k), BitVec.ofNat 8 (123 - 11 * k)]) ++
    (List.range 5).map fun k => [BitVec.ofNat 8 (49 + k), BitVec.ofNat 8 (114 - 11 * k)]

/-- A bucket gets 16 entries, and the pool has no room for twice the 321 buckets. -/
def crowdingRun : List DirectoryRequest :=
  [.allocate 321] ++ (crowdingNames.take 5).map (.insert 0 · ⟨0⟩) ++ [.allocate 170] ++
    (crowdingNames.drop 5).map (.insert 1 · ⟨0⟩)

/-- A name that is there already makes its bucket grow, and nothing is lost. -/
theorem insert_losesNothing_present : ∃ manager m s d,
    GfsDirectoryHashmapManager.new (gfsStrings fun _ => 0) plainMachine = .ok manager m ∧
      Requests.Run (serve (gfsStrings fun _ => 0) plainPager) (Meets ShortName)
        ⟨m, manager, []⟩ s ∧
      s.maps[1]? = some d ∧ (s.manager.bucketAt (d.index [3])).isFull = true ∧
      d.contents [3] = some ⟨3⟩ ∧ s.LosesNothing (gfsStrings fun _ => 0) 1 d [3] ⟨4⟩ := by
  have served : (serveNew (Meets ShortName) fillingRun).map (fun s => s.maps[1]?.map fun d =>
      ((s.manager.bucketAt (d.index [3])).isFull, d.contents [3],
        decide (Clear s.manager d [3]))) = some (some (true, some ⟨3⟩, true)) := by decide +kernel
  obtain ⟨s, served, outcome⟩ := Option.map_eq_some_iff.mp served
  obtain ⟨d, here, outcome⟩ := Option.map_eq_some_iff.mp outcome
  obtain ⟨full, outcome⟩ := Prod.mk.inj outcome
  obtain ⟨contents, clear⟩ := Prod.mk.inj outcome
  obtain ⟨manager, m, made, run⟩ := serveNew_run served
  have valid : ShortName [3] := by decide
  exact ⟨manager, m, s, d, made, run, here, full, contents,
    (insert_losesNothing (gfsStrings_readsBack fun _ => 0) (gfsStrings_keepsRefused fun _ => 0)
      made run here valid ⟨4⟩).1 (of_decide_eq_true clear)⟩

/-- The seventeenth name of a bucket is refused, and the count of entries is halved. -/
theorem insert_losesEntries : ∃ manager m s d,
    GfsDirectoryHashmapManager.new (gfsStrings fun _ => 0) plainMachine = .ok manager m ∧
      Requests.Run (serve (gfsStrings fun _ => 0) plainPager) (Meets ShortName)
        ⟨m, manager, []⟩ s ∧
      s.maps[1]? = some d ∧ ¬s.LosesNothing (gfsStrings fun _ => 0) 1 d [58, 15] ⟨1⟩ := by
  have served : (serveNew (Meets ShortName) crowdingRun).map (fun s => s.maps[1]?.map fun d =>
      decide (Refuses s.manager d [58, 15])) = some (some true) := by decide +kernel
  obtain ⟨s, served, outcome⟩ := Option.map_eq_some_iff.mp served
  obtain ⟨d, here, refuses⟩ := Option.map_eq_some_iff.mp outcome
  obtain ⟨manager, m, made, run⟩ := serveNew_run served
  obtain ⟨⟨_, _, _, books⟩, _⟩ := books_of_run (gfsStrings_readsBack fun _ => 0) made run
  exact ⟨manager, m, s, d, made, run, here, books.loses here (of_decide_eq_true refuses)⟩

end Runs

end Directories

end EmkKernel
