import EmkKernel.Library.Requests
import EmkKernel.Vfs.DirectoryBuckets
import EmkKernel.Vfs.StringHeap
import Mathlib.Algebra.BigOperators.Group.Finset.Piecewise
import Mathlib.Algebra.Order.BigOperators.Group.Finset

/-!
# Directories are maps and share their pools

`Directories` are the hash maps that one manager has handed out, with the links that
each of them should find. As long as no map is rehashed and the pools serve what their
node lists are fit for, every bucket files its names in a range of its own.
-/

namespace EmkKernel

open EStateM NodeAllocator GfsDirectoryHashmap GfsDirectoryHashmapManager

/-- A map and the link that was inserted first under each name. -/
structure Directory where
  map : GfsDirectoryHashmap
  contents : Text → Option GfsLink

/-- The range of buckets of a map. -/
def Directory.range (d : Directory) : Extent := ⟨d.map.bucketOffset, d.map.numBuckets⟩

/-- The bucket in which a map files a name. -/
def Directory.index (d : Directory) (name : Text) : Nat :=
  d.map.bucketOffset + hashOf d.map.numBuckets name

structure Directories (σ : Type) where
  machine : Machine
  manager : GfsDirectoryHashmapManager σ
  maps : List Directory

inductive DirectoryRequest where
  | allocate (numEntries : Nat)
  | insert (i : Nat) (name : Text) (link : GfsLink)
  deriving DecidableEq, Repr

namespace Directories

variable {σ : Type}

/-- What an insertion leaves of a map: the first link under a name counts. -/
def recorded (d : Directory) (name : Text) (link : GfsLink) : Outcome σ → Directory
  | (.success _, map, _) =>
    ⟨map, Function.update d.contents name (some ((d.contents name).getD link))⟩
  | (_, map, _) => { d with map }

/-- The maps after an insertion into one of them. -/
def after (s : Directories σ) (i : Nat) (d : Directory) (name : Text) (link : GfsLink)
    (outcome : Outcome σ) : Directories σ :=
  { s with
    manager := outcome.2.2
    maps := s.maps.set i (recorded d name link outcome) }

/-- Serve a request; a panic ends the run. -/
def serve (store : StringStore σ) (pager : Pager) (s : Directories σ) :
    DirectoryRequest → Option (Directories σ)
  | .allocate numEntries =>
    match s.manager.allocateHashmap pager numEntries s.machine with
    | .ok (map, manager) machine => some ⟨machine, manager, ⟨map, fun _ => none⟩ :: s.maps⟩
    | .error _ _ => none
  | .insert i name link =>
    match s.maps[i]? with
    | none => none
    | some d =>
      match d.map.insert store s.manager name link with
      | .ok outcome => some (s.after i d name link outcome)
      | .error _ => none

/-- A name that can be read back goes into a map that was handed out. -/
def Permits (Name : Text → Prop) (s : Directories σ) : DirectoryRequest → Prop
  | .allocate numEntries => numEntries < 2 ^ 32
  | .insert i name _ => i < s.maps.length ∧ Name name

/-- The range of entries of a bucket. -/
def extentOf (manager : GfsDirectoryHashmapManager σ) (bucket : DirectoryHashmapBucket) : Extent :=
  ⟨(bucket.entries.base - manager.entries.base) / directoryHashmapEntrySize, bucket.entries.length⟩

/-- The bucket of the name has room; or it can grow, the entry pool is fit for the
growth, and the name is not there already if the pool refuses. -/
def SuitsInsert (manager : GfsDirectoryHashmapManager σ) (d : Directory) (name : Text) : Prop :=
  (manager.bucketAt (d.index name)).isFull = true →
    (manager.bucketAt (d.index name)).canGrow = true ∧
    SuitsGrowth manager.entryAllocator (extentOf manager (manager.bucketAt (d.index name))) ∧
    (manager.entryAllocator.chosen ((manager.bucketAt (d.index name)).entries.length * 2) = none →
      d.contents name = none)

/-- The condition on the state before a request. A new map has at least one bucket and
needs no larger pools, its range lies in the slice of buckets, and both pools are fit
for it. -/
def Suits (s : Directories σ) : DirectoryRequest → Prop
  | .allocate n =>
    0 < n ∧ n ≤ initBucketCount ∧ s.manager.bucketAllocator.SuitsSize n ∧
      (s.manager.bucketAllocator.chosen n).any
        (fun c => s.manager.bucketAllocator.startOf c + n ≤ s.manager.buckets.length) = true ∧
      s.manager.entryAllocator.SuitsSize (n * 4) ∧
      (s.manager.entryAllocator.chosen (n * 4)).isSome = true
  | .insert i name _ => ∀ d ∈ s.maps[i]?, SuitsInsert s.manager d name

/-- A request of a caller that meets the condition. -/
def Meets (Name : Text → Prop) (s : Directories σ) (r : DirectoryRequest) : Prop :=
  s.Permits Name r ∧ s.Suits r

instance (manager : GfsDirectoryHashmapManager σ) (d : Directory) (name : Text) :
    Decidable (SuitsInsert manager d name) :=
  inferInstanceAs (Decidable (_ → _))

instance (s : Directories σ) : (r : DirectoryRequest) → Decidable (s.Suits r)
  | .allocate _ => inferInstanceAs (Decidable (_ ∧ _))
  | .insert i name _ =>
    inferInstanceAs (Decidable (∀ d ∈ s.maps[i]?, SuitsInsert s.manager d name))

instance (Name : Text → Prop) [DecidablePred Name] (s : Directories σ) :
    (r : DirectoryRequest) → Decidable (s.Permits Name r)
  | .allocate _ => inferInstanceAs (Decidable (_ < _))
  | .insert _ _ _ => inferInstanceAs (Decidable (_ ∧ _))

instance (Name : Text → Prop) [DecidablePred Name] (s : Directories σ) (r : DirectoryRequest) :
    Decidable (s.Meets Name r) :=
  inferInstanceAs (Decidable (_ ∧ _))

/-- The bucket belongs to a map. -/
def Owned (s : Directories σ) (g : Nat) : Prop := ∃ d ∈ s.maps, g ∈ d.range.elements

/-- Every bucket of every map files its names in a lent range of the entry pool. -/
structure Books (Reads : σ → List (Nat × Text) → Prop) (s : Directories σ) (slot : Nat → Extent)
    (lent : List Extent) (live : List (Nat × Text)) : Prop where
  laid : s.manager.PoolLaid
  buckets : s.manager.buckets = ⟨s.manager.bucketAllocator.dataMemory.base, initBucketCount⟩
  counters : s.manager.allocatedBuckets = 0 ∧ s.manager.allocatedEntries = 0
  ranges : s.manager.bucketAllocator.Lends s.manager.bucketAllocator.asMutSlice.length
    (s.maps.map Directory.range)
  capacity : s.manager.entryAllocator.asMutSlice.length = initEntryCount
  pool : s.manager.entryAllocator.Lends initEntryCount lent
  reads : Reads s.manager.stringAllocator live
  short : ∀ d ∈ s.maps, d.map.bucketOffset + d.map.numBuckets ≤ initBucketCount
  slots : ∀ g, s.Owned g → slot g ∈ lent
  distinct : ∀ g g', s.Owned g → s.Owned g' → slot g = slot g' → g = g'
  counted : ∀ d ∈ s.maps, d.map.numEntriesUsed =
    ∑ j ∈ Finset.range d.map.numBuckets, (slot (d.map.bucketOffset + j)).size
  filed : ∀ d ∈ s.maps, ∃ b : Buckets GfsLink (hashOf d.map.numBuckets),
    (∀ name, d.contents name = b.lookup name) ∧ ∀ j < d.map.numBuckets,
      s.manager.Files live (slot (d.map.bucketOffset + j)) (d.map.bucketOffset + j) (b.entries j)

section Facts

variable {Reads : σ → List (Nat × Text) → Prop} {s : Directories σ} {slot : Nat → Extent}
  {lent : List Extent} {live : List (Nat × Text)} {i k : Nat} {d e : Directory}

private theorem hashOf_lt {n : Nat} (positive : 0 < n) (name : Text) : hashOf n name < n := by
  have bound : ∀ start < n, name.foldl
      (fun hash b => (hash + b.toNat * 577) % 2 ^ 64 * 11 % 2 ^ 64 % n) start < n := by
    induction name with
    | nil => exact fun start below => below
    | cons b rest ih => exact fun start _ => ih _ (Nat.mod_lt _ positive)
  exact bound 0 positive

theorem Books.positive (books : s.Books Reads slot lent live) (member : d ∈ s.maps) :
    0 < d.map.numBuckets :=
  books.ranges.positive (List.mem_map_of_mem member)

theorem Books.index_mem (books : s.Books Reads slot lent live) (member : d ∈ s.maps) (name : Text) :
    d.index name ∈ d.range.elements :=
  ⟨Nat.le_add_right .., Nat.add_lt_add_left (hashOf_lt (books.positive member) name) _⟩

theorem Books.ranges_apart (books : s.Books Reads slot lent live) (first : s.maps[i]? = some d)
    (second : s.maps[k]? = some e) (other : i ≠ k) : d.range.Disjoint e.range := by
  obtain ⟨below, rfl⟩ := List.getElem?_eq_some_iff.mp first
  obtain ⟨below', rfl⟩ := List.getElem?_eq_some_iff.mp second
  have pairwise := List.pairwise_map.mp books.ranges.pairwise
  rcases Nat.lt_or_gt_of_ne other with less | greater
  · exact List.pairwise_iff_getElem.mp pairwise i k below below' less
  · intro x here there
    exact List.pairwise_iff_getElem.mp pairwise k i below' below greater x there here

/-- The ranges of entries of two buckets are apart. -/
theorem Books.slots_apart (books : s.Books Reads slot lent live) {g g' : Nat} (first : s.Owned g)
    (second : s.Owned g') (other : g ≠ g') : (slot g).Disjoint (slot g') :=
  books.pool.apart (books.slots g first) (books.slots g' second) fun same =>
    other (books.distinct g g' first second same)

theorem Books.bucket (books : s.Books Reads slot lent live) (member : d ∈ s.maps) (name : Text) :
    checkedAdd32 d.map.bucketOffset (hashOf d.map.numBuckets name) = .ok (d.index name) ∧
      s.manager.bucket (d.index name) = .ok (s.manager.bucketAt (d.index name)) := by
  have below := hashOf_lt (books.positive member) name
  have short := books.short d member
  simp only [initBucketCount] at short
  constructor
  · exact checkedAdd32_ok (by omega)
  · refine if_pos ?_
    rw [books.buckets]
    simp only [initBucketCount, Directory.index]
    omega

theorem Books.hashStr (books : s.Books Reads slot lent live) (member : d ∈ s.maps) (name : Text) :
    d.map.hashStr name = .ok (hashOf d.map.numBuckets name) :=
  if_neg (books.positive member).ne'

/-- The bucket of a name with the list it files. -/
theorem Books.files (books : s.Books Reads slot lent live) (member : d ∈ s.maps) (name : Text) :
    ∃ b : Buckets GfsLink (hashOf d.map.numBuckets), (∀ name, d.contents name = b.lookup name) ∧
      (∀ j < d.map.numBuckets, s.manager.Files live (slot (d.map.bucketOffset + j))
        (d.map.bucketOffset + j) (b.entries j)) ∧
      s.manager.Files live (slot (d.index name)) (d.index name)
        (b.entries (hashOf d.map.numBuckets name)) := by
  obtain ⟨b, same, files⟩ := books.filed d member
  exact ⟨b, same, files, files _ (hashOf_lt (books.positive member) name)⟩

end Facts

section Steps

variable {store : StringStore σ} {Name : Text → Prop} {Reads : σ → List (Nat × Text) → Prop}
  {s : Directories σ} {slot : Nat → Extent} {lent : List Extent} {live : List (Nat × Text)}
  {i : Nat} {d : Directory} {name : Text} {link : GfsLink}

theorem Books.lookup (books : s.Books Reads slot lent live) (readsBack : store.ReadsBack Name Reads)
    (member : d ∈ s.maps) (name : Text) :
    d.map.lookup store s.manager name = .ok (d.contents name) := by
  obtain ⟨b, same, _, files⟩ := books.files member name
  rw [GfsDirectoryHashmap.lookup, books.hashStr member name]
  change (do
    let bucket ← s.manager.bucket (d.index name)
    lookupLoop store s.manager.stringAllocator s.manager.entryMemory bucket.entries name 0
      bucket.used) = _
  rw [(books.bucket member name).2]
  refine (files.lookup readsBack books.reads).trans ?_
  rw [same, Buckets.lookup]

/-- What a change of one bucket leaves of a manager. -/
structure SameTables (manager manager' : GfsDirectoryHashmapManager σ) : Prop where
  buckets : manager'.buckets = manager.buckets
  entries : manager'.entries = manager.entries
  bucketAllocator : manager'.bucketAllocator = manager.bucketAllocator
  entryAllocator : manager.entryAllocator.SameMemory manager'.entryAllocator
  counters : manager'.allocatedBuckets = manager.allocatedBuckets ∧
    manager'.allocatedEntries = manager.allocatedEntries

private theorem map_range_set {maps : List Directory} {d' : Directory} (here : maps[i]? = some d)
    (range : d'.range = d.range) :
    (maps.set i d').map Directory.range = maps.map Directory.range := by
  obtain ⟨below, rfl⟩ := List.getElem?_eq_some_iff.mp here
  rw [List.map_set, range, ← List.getElem_map Directory.range (h := by simpa using below),
    List.set_getElem_self]

private theorem owned_iff_of_ranges {s' : Directories σ}
    (ranges : s'.maps.map Directory.range = s.maps.map Directory.range) (g : Nat) :
    s'.Owned g ↔ s.Owned g := by
  have members (maps : List Directory) : (∃ e ∈ maps, g ∈ e.range.elements) ↔
      ∃ r ∈ maps.map Directory.range, g ∈ r.elements := by simp
  rw [Owned, Owned, members, ranges, members]

private theorem owned_of_mem {e : Directory} (member : e ∈ s.maps) {j : Nat}
    (below : j < e.map.numBuckets) :
    s.Owned (e.map.bucketOffset + j) ∧ e.map.bucketOffset + j ∈ e.range.elements := by
  have inside : e.map.bucketOffset + j ∈ e.range.elements :=
    ⟨Nat.le_add_right .., Nat.add_lt_add_left below _⟩
  exact ⟨⟨e, member, inside⟩, inside⟩

/-- An old map at another place does not own the bucket of the name. -/
theorem Books.mem_set (books : s.Books Reads slot lent live) (here : s.maps[i]? = some d)
    (name : Text) {d' e : Directory} (kept : e ∈ s.maps.set i d') :
    e = d' ∨ e ∈ s.maps ∧ d.index name ∉ e.range.elements := by
  obtain ⟨k, found⟩ := List.mem_iff_getElem?.mp kept
  by_cases place : i = k
  · subst place
    rw [List.getElem?_set_self (List.getElem?_eq_some_iff.mp here).1] at found
    exact Or.inl (Option.some.inj found).symm
  · rw [List.getElem?_set_ne place] at found
    exact Or.inr ⟨List.mem_of_getElem? found, books.ranges_apart here found place _
      (books.index_mem (List.mem_of_getElem? here) name)⟩

/-- Ranges stay distinct when only one bucket gets a new one. -/
theorem Books.distinct_of_others (books : s.Books Reads slot lent live) {slot' : Nat → Extent}
    {x g g' : Nat}
    (others : ∀ g, s.Owned g → g ≠ x → slot' g = slot g ∧ slot' x ≠ slot g)
    (held : s.Owned g) (held' : s.Owned g') (equal : slot' g = slot' g') : g = g' := by
  by_cases place : g = x
  · by_cases place' : g' = x
    · rw [place, place']
    · have kept := others g' held' place'
      rw [place, kept.1] at equal
      exact absurd equal kept.2
  · have kept := others g held place
    by_cases place' : g' = x
    · rw [place', kept.1] at equal
      exact absurd equal.symm kept.2
    · rw [kept.1, (others g' held' place').1] at equal
      exact books.distinct g g' held held' equal

/-- The bucket of a name changes, and with it the range it has and the list it files;
all other buckets are framed. -/
theorem Books.replace {manager' : GfsDirectoryHashmapManager σ} {slot' : Nat → Extent}
    {lent' : List Extent} {live' : List (Nat × Text)} {d' : Directory}
    (books : s.Books Reads slot lent live) (name : Text) (here : s.maps[i]? = some d)
    (range : d'.range = d.range) (same : SameTables s.manager manager')
    (pool : manager'.entryAllocator.Lends initEntryCount lent')
    (reads : Reads manager'.stringAllocator live') (grown : live ⊆ live')
    (others : ∀ g, s.Owned g → g ≠ d.index name → slot' g = slot g ∧ slot g ∈ lent' ∧
      slot' (d.index name) ≠ slot g ∧ manager'.bucketAt g = s.manager.bucketAt g ∧
      ∀ x ∈ (slot g).elements, manager'.entryMemory (s.manager.entries.entry x) =
        s.manager.entryMemory (s.manager.entries.entry x))
    (own : slot' (d.index name) ∈ lent')
    (counted : d'.map.numEntriesUsed =
      ∑ j ∈ Finset.range d.map.numBuckets, (slot' (d.map.bucketOffset + j)).size)
    {b c : Buckets GfsLink (hashOf d.map.numBuckets)}
    (files : ∀ j < d.map.numBuckets, s.manager.Files live (slot (d.map.bucketOffset + j))
      (d.map.bucketOffset + j) (b.entries j))
    (rest : ∀ j ≠ hashOf d.map.numBuckets name, c.entries j = b.entries j)
    (contents : ∀ name, d'.contents name = c.lookup name)
    (new : manager'.Files live' (slot' (d.index name)) (d.index name)
      (c.entries (hashOf d.map.numBuckets name))) :
    ({ s with manager := manager', maps := s.maps.set i d' } : Directories σ).Books
      Reads slot' lent'
      live' := by
  have member : d ∈ s.maps := List.mem_of_getElem? here
  have buckets : d'.map.bucketOffset = d.map.bucketOffset := congrArg Extent.offset range
  have count : d'.map.numBuckets = d.map.numBuckets := congrArg Extent.size range
  have ranges := map_range_set here range
  have owned (g : Nat) :
      ({ s with manager := manager', maps := s.maps.set i d' } : Directories σ).Owned g ↔
        s.Owned g := owned_iff_of_ranges ranges g
  have others' (g : Nat) (held : s.Owned g) (place : g ≠ d.index name) :
      slot' g = slot g ∧ slot' (d.index name) ≠ slot g :=
    ⟨(others g held place).1, (others g held place).2.2.1⟩
  refine ⟨?_, ?_, ?_, ?_, ?_, pool, reads, fun e kept => ?_, fun g held => ?_,
    fun g g' held held' equal => ?_, fun e kept => ?_, fun e kept => ?_⟩
  · rw [PoolLaid, same.entries, same.entryAllocator.data]
    exact books.laid
  · rw [same.buckets, same.bucketAllocator]
    exact books.buckets
  · rw [same.counters.1, same.counters.2]
    exact books.counters
  · simp only [ranges, same.bucketAllocator]
    exact books.ranges
  · rw [asMutSlice, same.entryAllocator.data, same.entryAllocator.element]
    exact books.capacity
  · rcases books.mem_set here name kept with rfl | ⟨old, _⟩
    · rw [buckets, count]
      exact books.short d member
    · exact books.short e old
  · by_cases place : g = d.index name
    · exact place ▸ own
    · have kept := others g ((owned g).mp held) place
      rw [kept.1]
      exact kept.2.1
  · exact books.distinct_of_others others' ((owned g).mp held) ((owned g').mp held') equal
  · rcases books.mem_set here name kept with rfl | ⟨old, outside⟩
    · rw [buckets, count]
      exact counted
    · rw [books.counted e old]
      refine Finset.sum_congr rfl fun j below => ?_
      obtain ⟨held, inside⟩ := owned_of_mem old (Finset.mem_range.mp below)
      rw [(others _ held fun equal => outside (equal ▸ inside)).1]
  · rcases books.mem_set here name kept with rfl | ⟨old, outside⟩
    · rw [buckets, count]
      refine ⟨c, contents, fun j below => ?_⟩
      obtain ⟨held, _⟩ := owned_of_mem member below
      by_cases place : j = hashOf d.map.numBuckets name
      · rw [place]
        exact new
      · have kept := others _ held fun equal => place (Nat.add_left_cancel equal)
        rw [rest j place, kept.1]
        exact (files j below).frame kept.2.2.2.1 same.entries kept.2.2.2.2 grown
    · obtain ⟨c, sameContents, filed⟩ := books.filed e old
      refine ⟨c, sameContents, fun j below => ?_⟩
      obtain ⟨held, inside⟩ := owned_of_mem old below
      have kept := others _ held fun equal => outside (equal ▸ inside)
      rw [kept.1]
      exact (filed j below).frame kept.2.2.2.1 same.entries kept.2.2.2.2 grown

private theorem set_self {α : Type} {l : List α} {i : Nat} {a : α} (here : l[i]? = some a) :
    l.set i a = l := by
  obtain ⟨below, rfl⟩ := List.getElem?_eq_some_iff.mp here
  exact List.set_getElem_self _

/-- The end of `insert` on a bucket with room. -/
theorem Books.insertInto (books : s.Books Reads slot lent live)
    (readsBack : store.ReadsBack Name Reads) (here : s.maps[i]? = some d) (valid : Name name)
    (room : (s.manager.bucketAt (d.index name)).isFull = false) (link : GfsLink) :
    ∃ outcome, GfsDirectoryHashmap.insertInto store d.map s.manager name link
        (hashOf d.map.numBuckets name) false = .ok outcome ∧
      (outcome.1 = .allreadyPresent ↔ (d.contents name).isSome = true) ∧
      ∃ live', (s.after i d name link outcome).Books Reads slot lent live' := by
  have member : d ∈ s.maps := List.mem_of_getElem? here
  obtain ⟨b, same, files, mine⟩ := books.files member name
  obtain ⟨index, bucket⟩ := books.bucket member name
  have held : s.Owned (d.index name) := ⟨d, member, books.index_mem member name⟩
  have present : (b.entries (hashOf d.map.numBuckets name)).any (fun e => e.1 = name) =
      (d.contents name).isSome := by
    rw [same, Buckets.lookup, Option.isSome_map, List.isSome_find?]
  simp only [GfsDirectoryHashmap.insertInto, index, bucket, bind, Except.bind,
    mine.contains readsBack books.reads, present]
  cases known : d.contents name with
  | some old =>
    refine ⟨(.allreadyPresent, d.map, s.manager), rfl, by simp, live, ?_⟩
    have unchanged : s.after i d name link (.allreadyPresent, d.map, s.manager) = s := by
      simp only [after, recorded]
      rw [set_self here]
    rw [unchanged]
    exact books
  | none =>
    have fresh : b.lookup name = none := by rw [← same, known]
    rcases readsBack.allocate _ _ _ books.reads valid with
      ⟨strings, refused, reads⟩ | ⟨offset, strings, granted, reads⟩
    · refine ⟨(.stringReallocationRequired, d.map, { s.manager with stringAllocator := strings }),
        by simp only [Option.isSome_none, Bool.false_eq_true, if_false, refused]; rfl, by simp,
          live, ?_⟩
      refine books.replace name here rfl ⟨rfl, rfl, rfl, ⟨rfl, rfl⟩, rfl, rfl⟩ books.pool
        reads (List.Subset.refl _) (fun g other apart => ⟨rfl, books.slots g other, fun equal => ?_,
          rfl, fun _ _ => rfl⟩) (books.slots _ held) (books.counted d member) files
        (fun _ _ => rfl) same (mine.frame rfl rfl (fun _ _ => rfl) (List.Subset.refl _))
      exact apart (books.distinct _ _ held other equal).symm
    · have space : (b.entries (hashOf d.map.numBuckets name)).length <
          (slot (d.index name)).size := by
        refine lt_of_le_of_ne mine.fits fun full => ?_
        rw [mine.isFull_iff.mpr full] at room
        cases room
      refine ⟨(.success false, d.map, { s.manager.appended (slot (d.index name)) (d.index name)
          (b.entries (hashOf d.map.numBuckets name)).length ⟨link, offset⟩ with
        stringAllocator := strings }), ?_, by simp, (offset, name) :: live, ?_⟩
      · simp only [Option.isSome_none, Bool.false_eq_true, if_false, granted,
          mine.append space offset link]
        rfl
      · refine books.replace name (c := b.insert name link fresh) here rfl
          ⟨rfl, rfl, rfl, ⟨rfl, rfl⟩, rfl, rfl⟩ books.pool reads (List.subset_cons_self _ _)
          (fun g other apart => ⟨rfl, books.slots g other, fun equal => ?_, ?_, fun x inside => ?_⟩)
          (books.slots _ held) (books.counted d member) files (fun j other => ?_)
            (fun name' => ?_) ?_
        · exact apart (books.distinct _ _ held other equal).symm
        · exact appended_bucketAt (slot (d.index name)) _ ⟨link, offset⟩ apart
        · exact appended_entryMemory (d.index name) ⟨link, offset⟩ space fun mine =>
            books.slots_apart other held apart x inside mine
        · exact Function.update_of_ne other ..
        · rw [Buckets.lookup_insert]
          simp only [recorded, known, Option.getD_none, Function.update_apply, same]
        · rw [Buckets.entries_insert_self]
          exact (mine.appended space offset).frame rfl rfl (fun _ _ => rfl) (List.Subset.refl _)

theorem sum_update (slot : Nat → Extent) (slot' : Extent) (offset : Nat) {k n : Nat}
    (below : k < n) :
    ∑ j ∈ Finset.range n, (Function.update slot (offset + k) slot' (offset + j)).size +
        (slot (offset + k)).size =
      ∑ j ∈ Finset.range n, (slot (offset + j)).size + slot'.size := by
  have member := Finset.mem_range.mpr below
  have rest : ∑ j ∈ (Finset.range n).erase k,
      (Function.update slot (offset + k) slot' (offset + j)).size =
        ∑ j ∈ (Finset.range n).erase k, (slot (offset + j)).size := by
    refine Finset.sum_congr rfl fun j kept => ?_
    rw [Function.update_of_ne fun equal => (Finset.mem_erase.mp kept).1 (Nat.add_left_cancel equal)]
  rw [← Finset.add_sum_erase _ _ member, ← Finset.add_sum_erase _ (fun j =>
    (slot (offset + j)).size)
    member, rest, Function.update_self]
  omega

/-- A full bucket moves to a range of its own, and the maps find what they found. -/
theorem Books.grow (books : s.Books Reads slot lent live) (here : s.maps[i]? = some d)
    (full : (s.manager.bucketAt (d.index name)).isFull = true)
    (suits : SuitsInsert s.manager d name) :
    (d.contents name = none ∧ (s.manager.bucketAt (d.index name)).grow s.manager.entryMemory
        s.manager.entryAllocator s.manager.entries 2 =
          .ok ⟨false, s.manager.entryMemory, s.manager.bucketAt (d.index name),
            s.manager.entryAllocator⟩) ∨
    ∃ slot' pool' lent' count,
      (s.manager.bucketAt (d.index name)).grow s.manager.entryMemory s.manager.entryAllocator
          s.manager.entries 2 =
        .ok ⟨true, copied s.manager.entryMemory s.manager.entries (slot (d.index name)) slot',
          { s.manager.bucketAt (d.index name) with
            entries := ⟨s.manager.entries.entry slot'.offset, slot'.size⟩ }, pool'⟩ ∧
      checkedAdd32 d.map.numEntriesUsed
        (asU32 (s.manager.bucketAt (d.index name)).entries.length) = .ok count ∧
      ((s.manager.moved (slot (d.index name)) slot' (d.index name) pool').bucketAt
        (d.index name)).isFull = false ∧
      ({ s with
        manager := s.manager.moved (slot (d.index name)) slot' (d.index name) pool'
        maps := s.maps.set i { d with map := { d.map with numEntriesUsed := count } } }
          : Directories σ).Books Reads (Function.update slot (d.index name) slot') lent' live := by
  have member : d ∈ s.maps := List.mem_of_getElem? here
  obtain ⟨b, same, files, mine⟩ := books.files member name
  have held : s.Owned (d.index name) := ⟨d, member, books.index_mem member name⟩
  have sizes := mine.size
  have length : (s.manager.bucketAt (d.index name)).entries.length =
      (slot (d.index name)).size := by
    rw [mine.entries]
  have extent : extentOf s.manager (s.manager.bucketAt (d.index name)) = slot (d.index name) := by
    rw [extentOf, mine.entries, PoolSlice.entry, Nat.add_sub_cancel_left,
      Nat.mul_div_cancel_left _ (by decide)]
  obtain ⟨growable, suitsGrowth, absent⟩ := suits full
  rw [extent] at suitsGrowth
  rw [length] at absent
  have small : (slot (d.index name)).size ≠ 16 := by
    rw [DirectoryHashmapBucket.canGrow, length] at growable
    exact of_decide_eq_true growable
  rcases mine.grow books.laid books.pool (books.slots _ held) suitsGrowth with
    ⟨none, refused⟩ | ⟨slot', pool', lent', grew, double, sameMemory, lends, fresh, kept⟩
  · exact Or.inl ⟨absent none, refused⟩
  · have below := hashOf_lt (books.positive member) name
    -- at most 16 entries for each of at most 640 buckets
    have bound : ∑ j ∈ Finset.range d.map.numBuckets, (slot (d.map.bucketOffset + j)).size ≤
        d.map.numBuckets * 16 := by
      have each := Finset.sum_le_card_nsmul (Finset.range d.map.numBuckets)
        (fun j => (slot (d.map.bucketOffset + j)).size) 16 fun j inside => by
          have := (files j (Finset.mem_range.mp inside)).size
          omega
      simpa using each
    have short := books.short d member
    simp only [initBucketCount] at short
    have count : checkedAdd32 d.map.numEntriesUsed
        (asU32 (s.manager.bucketAt (d.index name)).entries.length) =
          .ok (d.map.numEntriesUsed + (slot (d.index name)).size) := by
      have narrow : asU32 (slot (d.index name)).size = (slot (d.index name)).size :=
        Nat.mod_eq_of_lt (by omega)
      rw [length, narrow]
      refine checkedAdd32_ok ?_
      rw [books.counted d member]
      omega
    have moved := mine.moved double small pool'
    refine Or.inr ⟨slot', pool', lent', _, grew, count, ?_, ?_⟩
    · rw [Bool.eq_false_iff, ne_eq, moved.isFull_iff]
      have := mine.fits
      omega
    · have own : Function.update slot (d.index name) slot' (d.index name) = slot' :=
        Function.update_self ..
      refine books.replace name here rfl ⟨rfl, rfl, rfl, sameMemory, rfl, rfl⟩ lends
        books.reads (List.Subset.refl _) (fun g other apart => ?_) (by rw [own]; exact fresh) ?_
        files (fun _ _ => rfl) same (by rw [own]; exact moved)
      · obtain ⟨disjoint, stays⟩ := kept _ (books.slots g other)
        refine ⟨Function.update_of_ne apart .., stays fun equal => apart
          (books.distinct _ _ other held equal), ?_, moved_bucketAt _ apart, fun x inside =>
            copied_outside (by omega) fun mine => disjoint x mine inside⟩
        rw [own]
        intro equal
        -- a range is not empty
        have first : slot'.offset ∈ slot'.elements := ⟨le_rfl, by omega⟩
        exact disjoint _ first (equal ▸ first)
      · have sum := sum_update slot slot' d.map.bucketOffset below
        rw [← books.counted d member] at sum
        change d.map.numEntriesUsed + (slot (d.index name)).size = _
        change _ + (slot (d.index name)).size = _ at sum
        simp only [Directory.index] at sum double ⊢
        omega

private theorem recorded_same {outcome : Outcome σ} {map : GfsDirectoryHashmap} :
    recorded { d with map } name link outcome = recorded d name link outcome := by
  obtain ⟨result, _, _⟩ := outcome
  cases result <;> rfl

/-- `insert` into a map whose bucket has room or can grow. -/
theorem Books.insert (books : s.Books Reads slot lent live) (readsBack : store.ReadsBack Name Reads)
    (here : s.maps[i]? = some d) (valid : Name name) (suits : SuitsInsert s.manager d name)
    (link : GfsLink) :
    ∃ outcome, d.map.insert store s.manager name link = .ok outcome ∧
      (outcome.1 = .allreadyPresent ↔ (d.contents name).isSome = true) ∧
      ∃ slot' lent' live', (s.after i d name link outcome).Books Reads slot' lent' live' := by
  have member : d ∈ s.maps := List.mem_of_getElem? here
  obtain ⟨index, bucket⟩ := books.bucket member name
  rw [GfsDirectoryHashmap.insert, books.hashStr member name]
  simp only [bind, Except.bind, index, bucket]
  cases full : (s.manager.bucketAt (d.index name)).isFull with
  | false =>
    obtain ⟨outcome, ran, reports, live', books'⟩ := books.insertInto readsBack here valid full link
    exact ⟨outcome, by simpa only [Bool.false_eq_true, if_false] using ran, reports, slot,
      lent, live',
      books'⟩
  | true =>
    simp only [(suits full).1, if_true, insertGrown, bind, Except.bind, index, bucket]
    rcases books.grow here full suits with ⟨absent, refused⟩ |
      ⟨slot', pool', lent', count, grew, counted, room, books'⟩
    · refine ⟨(.entryReallocationRequired, d.map, s.manager), by simp only [refused]; rfl,
        by simp [absent], slot, lent, live, ?_⟩
      have unchanged : s.after i d name link (.entryReallocationRequired, d.map, s.manager) =
          s := by
        simp only [after, recorded]
        rw [set_self here]
      rw [unchanged]
      exact books
    · simp only [grew, counted, if_true]
      have below := (List.getElem?_eq_some_iff.mp here).1
      obtain ⟨outcome, ran, reports, live', books''⟩ := books'.insertInto
        (d := { d with map := { d.map with numEntriesUsed := count } }) readsBack
        (List.getElem?_set_self below) valid room link
      refine ⟨outcome, ran, reports, Function.update slot (d.index name) slot', lent', live', ?_⟩
      have merged : after { s with
          manager := s.manager.moved (slot (d.index name)) slot' (d.index name) pool'
          maps := s.maps.set i { d with map := { d.map with numEntriesUsed := count } } } i
          { d with map := { d.map with numEntriesUsed := count } } name link outcome =
            s.after i d name link outcome := by
        simp only [after, List.set_set, recorded_same]
      rw [← merged]
      exact books''

end Steps

/-! ### A new map -/

section Allocation

variable {store : StringStore σ} {Name : Text → Prop} {Reads : σ → List (Nat × Text) → Prop}
  {s : Directories σ} {slot : Nat → Extent} {lent : List Extent} {live : List (Nat × Text)}

/-- Every bucket of the range gets four entries and is empty; no other one changes. -/
theorem allotBuckets_eq (manager : GfsDirectoryHashmapManager σ) {bo eo i n : Nat}
    (inside : bo + i + n ≤ manager.bucketAllocator.asMutSlice.length)
    (room : eo + (i + n) * 4 ≤ manager.entryAllocator.asMutSlice.length) :
    ∃ memory, manager.allotBuckets bo eo i n = .ok { manager with bucketMemory := memory } ∧
      ∀ g, memory (manager.bucketAllocator.asMutSlice.bucket g) =
        if bo + i ≤ g ∧ g < bo + i + n then
          ⟨⟨manager.entryAllocator.asMutSlice.entry (eo + (g - bo) * 4), 4⟩, 0⟩
        else manager.bucketMemory (manager.bucketAllocator.asMutSlice.bucket g) := by
  induction n generalizing manager i with
  | zero =>
    refine ⟨manager.bucketMemory, rfl, fun g => ?_⟩
    rw [if_neg (by omega)]
  | succ n ih =>
    rw [allotBuckets, if_pos (by omega)]
    obtain ⟨memory, ran, cells⟩ := ih { manager with
      bucketMemory := Function.update manager.bucketMemory
        (manager.bucketAllocator.asMutSlice.bucket (bo + i))
        ⟨⟨manager.entryAllocator.asMutSlice.entry (eo + i * 4), 4⟩, 0⟩ } (i := i + 1)
      (by simp only []; omega) (by simp only []; omega)
    refine ⟨memory, ran, fun g => (cells g).trans ?_⟩
    by_cases here : g = bo + i
    · subst here
      rw [if_neg (by omega), if_pos (by omega), Nat.add_sub_cancel_left]
      exact Function.update_self ..
    · by_cases later : bo + (i + 1) ≤ g ∧ g < bo + (i + 1) + n
      · rw [if_pos later, if_pos (by omega)]
      · rw [if_neg later, if_neg (by omega)]
        exact Function.update_of_ne (fun equal => here (bucket_injective equal)) ..

/-- The checks of `allocate_hashmap` pass and the pools stay as large as they are. -/
theorem Books.allocateHashmap (books : s.Books Reads slot lent live) (pager : Pager) {n : Nat}
    (small : n ≤ initBucketCount) (m : Machine) :
    s.manager.allocateHashmap pager n m = liftExcept (s.manager.allotHashmap n) m := by
  obtain ⟨buckets, entries⟩ := books.counters
  have bucketLength : s.manager.buckets.length = 640 := by rw [books.buckets]; rfl
  have entryLength : s.manager.entries.length = 2560 := by rw [books.laid]; rfl
  simp only [initBucketCount] at small
  have needed : checkedAdd32 0 n = .ok n := by rw [checkedAdd32_ok (by omega), Nat.zero_add]
  have product : checkedMul32 n 4 = .ok (n * 4) := if_pos (by omega)
  have neededEntries : checkedAdd32 0 (n * 4) = .ok (n * 4) := by
    rw [checkedAdd32_ok (by omega), Nat.zero_add]
  have enough : ¬n > asU32 640 := by
    rw [show asU32 640 = 640 from rfl]
    omega
  have enoughEntries : ¬n * 4 > asU32 2560 := by
    rw [show asU32 2560 = 2560 from rfl]
    omega
  have first : s.manager.reserveBuckets pager n m = .ok s.manager m := by
    rw [reserveBuckets, buckets, needed, bucketLength]
    simp only [liftExcept, pure_bind, if_neg enough]
    rfl
  have second : s.manager.reserveEntries pager n m = .ok s.manager m := by
    rw [reserveEntries, entries, product, entryLength]
    simp only [liftExcept, pure_bind, neededEntries, if_neg enoughEntries]
    rfl
  simp only [GfsDirectoryHashmapManager.allocateHashmap, bind, EStateM.bind, first, second]

/-- The directories with a map more. -/
def opened (s : Directories σ) (memory : Nat → DirectoryHashmapBucket)
    (bucketAllocator entryAllocator : NodeAllocator) (bo n : Nat) : Directories σ :=
  ⟨s.machine, { s.manager with bucketMemory := memory, bucketAllocator, entryAllocator },
    ⟨⟨bo, n, n * 4⟩, fun _ => none⟩ :: s.maps⟩

/-- A range of buckets and one of entries are lent, and each of the buckets is empty and has
four of the entries. -/
structure Allots (s : Directories σ) (lent : List Extent)
    (memory : Nat → DirectoryHashmapBucket) (bucketAllocator entryAllocator : NodeAllocator)
    (bo eo n : Nat) : Prop where
  inside : bo + n ≤ initBucketCount
  sameBuckets : s.manager.bucketAllocator.SameMemory bucketAllocator
  sameEntries : s.manager.entryAllocator.SameMemory entryAllocator
  ranges : bucketAllocator.Lends s.manager.bucketAllocator.asMutSlice.length
    (⟨bo, n⟩ :: s.maps.map Directory.range)
  pool : entryAllocator.Lends initEntryCount (⟨eo, n * 4⟩ :: lent)
  cells : ∀ g, memory (s.manager.buckets.bucket g) =
    if bo ≤ g ∧ g < bo + n then ⟨⟨s.manager.entries.entry (eo + (g - bo) * 4), 4⟩, 0⟩
    else s.manager.bucketMemory (s.manager.buckets.bucket g)

private theorem asMutSlice_same {a b : NodeAllocator} (same : a.SameMemory b) :
    b.asMutSlice = a.asMutSlice := by
  rw [asMutSlice, same.data, same.element, asMutSlice]

/-- A new map is served from both pools. -/
theorem Books.allots (books : s.Books Reads slot lent live) (pager : Pager) {n : Nat}
    (suits : s.Suits (.allocate n)) :
    ∃ memory bucketAllocator entryAllocator bo eo,
      s.serve store pager (.allocate n) =
        some (s.opened memory bucketAllocator entryAllocator bo n) ∧
      s.Allots lent memory bucketAllocator entryAllocator bo eo n := by
  obtain ⟨positive, small, suitsBuckets, inSlice, suitsEntries, someEntries⟩ := suits
  rcases books.ranges.allocate positive suitsBuckets with ⟨none, _⟩ |
    ⟨c, bucketAllocator, chosen, granted, same, ranges⟩
  · rw [none] at inSlice
    cases inSlice
  rcases books.pool.allocate (by omega) suitsEntries with ⟨none, _⟩ |
    ⟨c', entryAllocator, _, granted', same', pool⟩
  · rw [none] at someEntries
    cases someEntries
  rw [chosen, books.buckets] at inSlice
  have inSlice : s.manager.bucketAllocator.startOf c + n ≤ initBucketCount :=
      of_decide_eq_true inSlice
  generalize s.manager.bucketAllocator.startOf c = bo at *
  generalize s.manager.entryAllocator.startOf c' = eo at *
  have bucketRoom := ranges.inside (List.mem_cons_self ..)
  have entryRoom := pool.inside (List.mem_cons_self ..)
  have product : checkedMul32 n 4 = .ok (n * 4) :=
    if_pos (by simp only [initBucketCount] at small; omega)
  obtain ⟨memory, ran, cells⟩ := allotBuckets_eq { s.manager with bucketAllocator, entryAllocator }
    (i := 0) (n := n)
    (by rw [asMutSlice_same same]; exact bucketRoom)
    (by rw [asMutSlice_same same', books.capacity]; simpa using entryRoom)
  simp only [asMutSlice_same same, asMutSlice_same same', Nat.add_zero] at cells
  have base : s.manager.bucketAllocator.asMutSlice.bucket = s.manager.buckets.bucket := by
    funext g
    rw [books.buckets]
    rfl
  have entryBase : s.manager.entryAllocator.asMutSlice.entry = s.manager.entries.entry := by
    funext x
    rw [books.laid]
    rfl
  rw [base, entryBase] at cells
  refine ⟨memory, bucketAllocator, entryAllocator, bo, eo, ?_,
    ⟨inSlice, same, same', ranges, pool, cells⟩⟩
  rw [serve, books.allocateHashmap pager small]
  simp only [allotHashmap, granted, product, granted', bind, Except.bind, ran]
  rfl

/-- The ranges of entries with those of the new buckets. -/
def slotWith (slot : Nat → Extent) (bo eo n : Nat) (g : Nat) : Extent :=
  if bo ≤ g ∧ g < bo + n then ⟨eo + (g - bo) * 4, 4⟩ else slot g

section Opened

variable {memory : Nat → DirectoryHashmapBucket} {bucketAllocator entryAllocator : NodeAllocator}
  {bo eo n : Nat} (allots : s.Allots lent memory bucketAllocator entryAllocator bo eo n)
  (books : s.Books Reads slot lent live)

include allots

/-- What belonged to a map before lies outside the new range. -/
theorem Allots.outside {e : Directory} (member : e ∈ s.maps) {g : Nat}
    (held : g ∈ e.range.elements) : ¬(bo ≤ g ∧ g < bo + n) := fun inside =>
  (List.pairwise_cons.mp allots.ranges.pairwise).1 _ (List.mem_map_of_mem member) g inside held

theorem Allots.owned {g : Nat}
    (held : (s.opened memory bucketAllocator entryAllocator bo n).Owned g) :
    (bo ≤ g ∧ g < bo + n) ∨ ¬(bo ≤ g ∧ g < bo + n) ∧ s.Owned g := by
  obtain ⟨e, member, inside⟩ := held
  rcases List.mem_cons.mp member with rfl | old
  · exact Or.inl inside
  · exact Or.inr ⟨allots.outside old inside, e, old, inside⟩

include books

theorem Allots.apart {g g' : Nat} (inside : bo ≤ g ∧ g < bo + n) (held : s.Owned g') :
    (⟨eo + (g - bo) * 4, 4⟩ : Extent) ≠ slot g' := by
  intro equal
  have first : eo + (g - bo) * 4 ∈ (slot g').elements := by
    rw [← equal]
    exact ⟨le_rfl, Nat.lt_add_of_pos_right (show 0 < 4 by decide)⟩
  refine (List.pairwise_cons.mp allots.pool.pairwise).1 _ (books.slots g' held) _
    ⟨Nat.le_add_right .., ?_⟩ first
  simp only []
  omega

theorem Allots.slots {g : Nat}
    (held : (s.opened memory bucketAllocator entryAllocator bo n).Owned g) :
    slotWith slot bo eo n g ∈ pieces eo 4 n ++ lent := by
  unfold slotWith
  rcases allots.owned held with inside | ⟨out, old⟩
  · have piece : (⟨eo + (g - bo) * 4, 4⟩ : Extent) ∈ pieces eo 4 n := by
      refine List.mem_map.mpr ⟨g - bo, List.mem_range.mpr (by omega), ?_⟩
      rw [Nat.mul_comm]
    rw [if_pos inside]
    exact List.mem_append_left _ piece
  · rw [if_neg out]
    exact List.mem_append_right _ (books.slots g old)

theorem Allots.distinct {g g' : Nat}
    (held : (s.opened memory bucketAllocator entryAllocator bo n).Owned g)
    (held' : (s.opened memory bucketAllocator entryAllocator bo n).Owned g')
    (equal : slotWith slot bo eo n g = slotWith slot bo eo n g') : g = g' := by
  unfold slotWith at equal
  rcases allots.owned held with inside | ⟨out, old⟩ <;>
    rcases allots.owned held' with inside' | ⟨out', old'⟩
  · rw [if_pos inside, if_pos inside', Extent.mk.injEq] at equal
    omega
  · rw [if_pos inside, if_neg out'] at equal
    exact absurd equal (allots.apart books inside old')
  · rw [if_neg out, if_pos inside'] at equal
    exact absurd equal.symm (allots.apart books inside' old)
  · rw [if_neg out, if_neg out'] at equal
    exact books.distinct g g' old old' equal

theorem Allots.counted {e : Directory}
    (member : e ∈ (s.opened memory bucketAllocator entryAllocator bo n).maps) :
    e.map.numEntriesUsed = ∑ j ∈ Finset.range e.map.numBuckets,
      (slotWith slot bo eo n (e.map.bucketOffset + j)).size := by
  rcases List.mem_cons.mp member with rfl | old
  · have each : ∀ j ∈ Finset.range n, (slotWith slot bo eo n (bo + j)).size = 4 := by
      intro j below
      have := Finset.mem_range.mp below
      rw [slotWith, if_pos (by omega)]
    rw [Finset.sum_const_nat each, Finset.card_range]
  · rw [books.counted e old]
    refine Finset.sum_congr rfl fun j below => ?_
    have out := allots.outside old (owned_of_mem old (Finset.mem_range.mp below)).2
    rw [slotWith, if_neg out]

/-- The new buckets file no name, and the old ones what they filed before. -/
theorem Allots.filed {e : Directory}
    (member : e ∈ (s.opened memory bucketAllocator entryAllocator bo n).maps) :
    ∃ b : Buckets GfsLink (hashOf e.map.numBuckets), (∀ name, e.contents name = b.lookup name) ∧
      ∀ j < e.map.numBuckets, (s.opened memory bucketAllocator entryAllocator bo n).manager.Files
        live (slotWith slot bo eo n (e.map.bucketOffset + j)) (e.map.bucketOffset + j)
        (b.entries j) := by
  rcases List.mem_cons.mp member with rfl | old
  · refine ⟨Buckets.empty _ _, fun name => (Buckets.lookup_empty name).symm, fun j below => ?_⟩
    have inside : bo ≤ bo + j ∧ bo + j < bo + n :=
      ⟨Nat.le_add_right .., Nat.add_lt_add_left below _⟩
    have bucket := (allots.cells (bo + j)).trans (if_pos inside)
    rw [slotWith, if_pos inside]
    exact ⟨congrArg DirectoryHashmapBucket.entries bucket,
      congrArg DirectoryHashmapBucket.used bucket,
      Or.inl rfl, Nat.zero_le _, fun _ none => absurd none (Nat.not_lt_zero _),
      fun _ none => absurd none (Nat.not_lt_zero _)⟩
  · obtain ⟨b, contents, files⟩ := books.filed e old
    refine ⟨b, contents, fun j below => ?_⟩
    have out := allots.outside old (owned_of_mem old below).2
    rw [slotWith, if_neg out]
    exact (files j below).frame ((allots.cells _).trans (if_neg out)) rfl (fun _ _ => rfl)
      (List.Subset.refl _)

/-- The directories with the new map keep their books. -/
theorem Allots.keeps : (s.opened memory bucketAllocator entryAllocator bo n).Books Reads
    (slotWith slot bo eo n) (pieces eo 4 n ++ lent) live where
  laid := by
    show s.manager.entries = ⟨entryAllocator.dataMemory.base, initEntryCount⟩
    rw [allots.sameEntries.data]
    exact books.laid
  buckets := by
    show s.manager.buckets = ⟨bucketAllocator.dataMemory.base, initBucketCount⟩
    rw [allots.sameBuckets.data]
    exact books.buckets
  counters := books.counters
  ranges := by
    show bucketAllocator.Lends bucketAllocator.asMutSlice.length _
    rw [asMutSlice_same allots.sameBuckets]
    exact allots.ranges
  capacity := by
    show entryAllocator.asMutSlice.length = _
    rw [asMutSlice_same allots.sameEntries]
    exact books.capacity
  pool := by
    have pool := allots.pool
    rw [Nat.mul_comm n 4] at pool
    exact pool.split (by decide)
  reads := books.reads
  short e member := by
    rcases List.mem_cons.mp member with rfl | old
    · exact allots.inside
    · exact books.short e old
  slots _ held := allots.slots books held
  distinct _ _ held held' equal := allots.distinct books held held' equal
  counted _ member := allots.counted books member
  filed _ member := allots.filed books member

end Opened

/-- A new map has buckets of its own, each with entries of its own. -/
theorem Books.allocate (books : s.Books Reads slot lent live) (pager : Pager) {n : Nat}
    (suits : s.Suits (.allocate n)) :
    ∃ s', s.serve store pager (.allocate n) = some s' ∧
      ∃ slot' lent', s'.Books Reads slot' lent' live := by
  obtain ⟨memory, bucketAllocator, entryAllocator, bo, eo, served, allots⟩ :=
    books.allots pager suits
  exact ⟨_, served, _, _, allots.keeps books⟩

end Allocation

/-! ### Runs -/

section Runs

variable {store : StringStore σ} {Name : Text → Prop} {Reads : σ → List (Nat × Text) → Prop}
  {s : Directories σ} {slot : Nat → Extent} {lent : List Extent} {live : List (Nat × Text)}
  {manager : GfsDirectoryHashmapManager σ} {pager : Pager} {m m' : Machine}

/-- A pool as `new` makes it. -/
theorem newPool_yields (elementSize numEntries : Nat) (m : Machine) :
    Yields (liftTraced fun allocator => NodeAllocator.new allocator elementSize numEntries) m
      (fun a _ => Heap.Built a ∧ a.elementSize = elementSize ∧ a.dataMemory.length =
        (elementSize * numEntries / 0x1000 +
          if elementSize * numEntries % 0x1000 ≠ 0 then 1 else 0) % 2 ^ 16 * 0x1000)
      fun _ _ => True := by
  unfold liftTraced
  rw [yields_bind, yields_get]
  split
  next a rest ran =>
    rw [yields_bind, yields_set, yields_pure]
    refine ⟨⟨m.allocator, rest, elementSize, Or.inl ⟨numEntries, ran⟩⟩, ?_⟩
    simp only [NodeAllocator.new, Traced.value_bind] at ran
    split at ran
    next => cases ran
    next =>
      simp only [Traced.value_bind] at ran
      split at ran
      next => cases ran
      next data left taken =>
        simp only [Traced.value_pure, NodeAllocator.ofMemory] at ran
        split at ran <;> cases ran
        refine ⟨rfl, ?_⟩
        -- the length of the block that the allocator returned
        simp only [allocZeroUnwrap, Traced.value_bind] at taken
        split at taken
        next mb a' returned =>
          cases taken
          obtain ⟨_, k, _, _, rfl, _⟩ := Allocator.alloc_ok _ returned
          rfl
        next => cases taken
  next => trivial

/-- A new manager has handed out no map. -/
theorem new_books (readsBack : store.ReadsBack Name Reads)
    (made : GfsDirectoryHashmapManager.new store m = .ok manager m') :
    (Directories.mk m' manager []).Books Reads (fun _ => ⟨0, 0⟩) [] [] := by
  have outcome : Yields (GfsDirectoryHashmapManager.new store) m (fun manager m' =>
      (Directories.mk m' manager []).Books Reads (fun _ => ⟨0, 0⟩) [] []) fun _ _ => True := by
    unfold GfsDirectoryHashmapManager.new
    rw [yields_bind]
    refine (newPool_yields _ _ m).mono (fun buckets m₁ ⟨built, _, _⟩ => ?_) fun _ _ h => h
    rw [yields_bind]
    refine (newPool_yields _ _ m₁).mono (fun entries m₂ ⟨built', element, length⟩ => ?_)
      fun _ _ h => h
    rw [yields_bind]
    have strings : Yields store.new m₂ (fun strings _ => Reads strings []) fun _ _ => True := by
      unfold Yields
      split
      next strings m₃ ran => exact readsBack.new _ _ _ ran
      next => trivial
    refine strings.mono (fun strings m₃ reads => ?_) fun _ _ h => h
    rw [yields_pure]
    have capacity : entries.asMutSlice.length = initEntryCount := by
      rw [asMutSlice, element, length]
      rfl
    refine ⟨rfl, rfl, ⟨rfl, rfl⟩, lends_of_built built, capacity, ?_, reads, ?_, ?_, ?_, ?_, ?_⟩
    · have pool := lends_of_built built'
      rwa [show entries.capacity = initEntryCount from capacity] at pool
    all_goals simp [Owned]
  exact outcome.ok made

theorem Books.serves (books : s.Books Reads slot lent live) (readsBack : store.ReadsBack Name Reads)
    (pager : Pager) {r : DirectoryRequest} (meets : s.Meets Name r) :
    ∃ s', s.serve store pager r = some s' ∧ ∃ slot lent live, s'.Books Reads slot lent live := by
  obtain ⟨permits, suits⟩ := meets
  cases r with
  | allocate n =>
    obtain ⟨s', served, slot, lent, books'⟩ := books.allocate pager suits
    exact ⟨s', served, slot, lent, live, books'⟩
  | insert i name link =>
    obtain ⟨inside, valid⟩ := permits
    have here : s.maps[i]? = some s.maps[i] := List.getElem?_eq_getElem inside
    obtain ⟨outcome, ran, _, books'⟩ := books.insert readsBack here valid (suits _ here) link
    exact ⟨_, by rw [serve, here]; simp only [ran], books'⟩

theorem books_of_run (readsBack : store.ReadsBack Name Reads)
    (made : GfsDirectoryHashmapManager.new store m = .ok manager m')
    (run : Requests.Run (serve store pager) (Meets Name) ⟨m', manager, []⟩ s) :
    (∃ slot lent live, s.Books Reads slot lent live) ∧
      ∀ r, s.Meets Name r → (s.serve store pager r).isSome :=
  run.keeps_serving (I := fun s => ∃ slot lent live, s.Books Reads slot lent live)
    ⟨_, _, _, new_books readsBack made⟩
    fun _ _ ⟨_, _, _, books⟩ meets => books.serves readsBack pager meets

/-- What an insertion into a map reports, and what is found afterwards. -/
structure InsertsLink (store : StringStore σ) (d : Directory) (name : Text) (link : GfsLink)
    (outcome : Outcome σ) : Prop where
  present : outcome.1 = .allreadyPresent ↔ (d.contents name).isSome = true
  stored : ∀ rehashed, outcome.1 = .success rehashed →
    outcome.2.1.lookup store outcome.2.2 name = .ok (some link)
  others : ∀ other ≠ name, outcome.2.1.lookup store outcome.2.2 other = .ok (d.contents other)

/-- Every map is a map: a lookup finds the link that was inserted first, and whatever
insertion comes next and meets the condition reports what is there and leaves the rest. -/
structure FindsLinks (store : StringStore σ) (Name : Text → Prop) (s : Directories σ) : Prop where
  lookup : ∀ d ∈ s.maps, ∀ name, d.map.lookup store s.manager name = .ok (d.contents name)
  insert : ∀ i name link, s.Meets Name (.insert i name link) → ∀ d ∈ s.maps[i]?,
    ∃ outcome, d.map.insert store s.manager name link = .ok outcome ∧
      InsertsLink store d name link outcome

theorem Books.findsLinks (books : s.Books Reads slot lent live)
    (readsBack : store.ReadsBack Name Reads) : s.FindsLinks store Name := by
  refine ⟨fun d member name => books.lookup readsBack member name,
    fun i name link ⟨⟨_, valid⟩, suits⟩ d here => ?_⟩
  obtain ⟨outcome, ran, present, _, _, _, books'⟩ :=
    books.insert readsBack here valid (suits d here) link
  refine ⟨outcome, ran, present, fun rehashed success => ?_, fun other apart => ?_⟩
  all_goals
    have below := (List.getElem?_eq_some_iff.mp here).1
    have member : recorded d name link outcome ∈ (s.after i d name link outcome).maps :=
      List.mem_of_getElem? (List.getElem?_set_self below)
    have found := books'.lookup readsBack member
    obtain ⟨result, map, manager⟩ := outcome
  · -- a link is stored only under a name that was not there
    cases success
    have absent : d.contents name = none := by
      rw [Option.eq_none_iff_forall_not_mem]
      intro old known
      have reported := present.mpr (by rw [show d.contents name = some old from known]; rfl)
      cases reported
    refine (found name).trans (congrArg Except.ok ?_)
    simp only [recorded, absent, Option.getD_none, Function.update_self]
  · have kept : (recorded d name link (result, map, manager)).contents other =
        d.contents other := by
      cases result
      case success => exact Function.update_of_ne apart ..
      all_goals rfl
    have same : (recorded d name link (result, map, manager)).map = map := by cases result <;> rfl
    rw [← kept]
    refine Eq.trans ?_ (found other)
    rw [same]
    rfl

/-- In every run of steps that meet the condition, every map finds for each name the
link that was inserted first; the next insertion that meets the condition reports
whether the name is present and changes no other name. -/
theorem directories_findLinks (readsBack : store.ReadsBack Name Reads)
    (made : GfsDirectoryHashmapManager.new store m = .ok manager m')
    (run : Requests.Run (serve store pager) (Meets Name) ⟨m', manager, []⟩ s) :
    s.FindsLinks store Name := by
  obtain ⟨⟨_, _, _, books⟩, _⟩ := books_of_run readsBack made run
  exact books.findsLinks readsBack

/-- The ranges of the maps in the pool of buckets and those of the buckets in the pool
of entries are apart and inside, and every map finds its links. -/
structure SharesPools (store : StringStore σ) (s : Directories σ) : Prop where
  buckets : s.maps.Pairwise fun d e => d.range.Disjoint e.range
  bucketsInside : ∀ d ∈ s.maps,
    d.map.bucketOffset + d.map.numBuckets ≤ s.manager.bucketAllocator.capacity
  entries : ∀ g g', s.Owned g → s.Owned g' → g ≠ g' →
    ∀ j < (s.manager.bucketAt g).entries.length, ∀ j' < (s.manager.bucketAt g').entries.length,
      (s.manager.bucketAt g).entries.entry j ≠ (s.manager.bucketAt g').entries.entry j'
  entriesInside : ∀ g, s.Owned g → ∀ j < (s.manager.bucketAt g).entries.length,
    ∃ x < s.manager.entryAllocator.capacity,
      (s.manager.bucketAt g).entries.entry j = s.manager.entryAllocator.asMutSlice.entry x
  lookup : ∀ d ∈ s.maps, ∀ name, d.map.lookup store s.manager name = .ok (d.contents name)

theorem Books.entries (books : s.Books Reads slot lent live) {g : Nat} (held : s.Owned g) :
    (s.manager.bucketAt g).entries = ⟨s.manager.entries.entry (slot g).offset, (slot g).size⟩ := by
  obtain ⟨d, member, low, high⟩ := held
  obtain ⟨b, _, files⟩ := books.filed d member
  have low : d.map.bucketOffset ≤ g := low
  have filed := (files (g - d.map.bucketOffset) (Nat.sub_lt_left_of_lt_add low high)).entries
  rwa [Nat.add_sub_cancel' low] at filed

private theorem Books.sharesPools (books : s.Books Reads slot lent live)
    (readsBack : store.ReadsBack Name Reads) : s.SharesPools store := by
  refine ⟨List.pairwise_map.mp books.ranges.pairwise, fun d member =>
    books.ranges.inside (List.mem_map_of_mem member),
      fun g g' held held' other j inside j' inside' => ?_,
    fun g held j inside => ?_, fun d member name => books.lookup readsBack member name⟩
  · rw [books.entries held] at inside ⊢
    rw [books.entries held'] at inside' ⊢
    rw [entry_slot, entry_slot]
    intro equal
    have same := entry_injective equal
    refine books.slots_apart held held' other ((slot g).offset + j)
      ⟨Nat.le_add_right .., Nat.add_lt_add_left inside _⟩ ?_
    rw [same]
    exact ⟨Nat.le_add_right .., Nat.add_lt_add_left inside' _⟩
  · rw [books.entries held] at inside ⊢
    have bound := books.pool.inside (books.slots g held)
    have below : j < (slot g).size := inside
    refine ⟨(slot g).offset + j, ?_, ?_⟩
    · rw [show s.manager.entryAllocator.capacity = initEntryCount from books.capacity]
      omega
    · rw [entry_slot, books.laid]
      rfl

/-- In every run of steps that meet the condition, the maps share the pools without
overlap and find what was inserted, whatever was allocated after it. -/
theorem directories_sharePools (readsBack : store.ReadsBack Name Reads)
    (made : GfsDirectoryHashmapManager.new store m = .ok manager m')
    (run : Requests.Run (serve store pager) (Meets Name) ⟨m', manager, []⟩ s) :
    s.SharesPools store := by
  obtain ⟨⟨_, _, _, books⟩, _⟩ := books_of_run readsBack made run
  exact books.sharesPools readsBack

end Runs

section Samples

open Pager

/-- The string allocator of the kernel. -/
def gfsStrings (bytes : Nat → Byte) : StringStore GfsStringAllocator where
  new := GfsStringAllocator.new bytes
  asString := GfsStringAllocator.asString
  allocate := GfsStringAllocator.allocate

/-- A name that the string allocator of the kernel reads back. -/
def ShortName (name : Text) : Prop := StringHeap.Valid name ∧ name.length ≤ 32

instance : DecidablePred ShortName := fun _ => inferInstanceAs (Decidable (_ ∧ _))

theorem gfsStrings_readsBack (bytes : Nat → Byte) :
    (gfsStrings bytes).ReadsBack ShortName (GfsStringAllocator.Books bytes) where
  new := fun _ _ _ made => StringHeap.new_books made
  asString := fun _ _ books e member => by
    obtain ⟨c, k, holds⟩ := books.placed e member
    exact holds.asString books.laid
  allocate := fun h live name books ⟨⟨nonempty, noNul, _⟩, short⟩ => by
    obtain ⟨c, fits⟩ := StringHeap.smallClass_of_short short
    rcases books.allocate nonempty noNul fits with ⟨_, refused⟩ | ⟨_, offset, h', ran, kept⟩
    · exact Or.inl ⟨h, refused, books⟩
    · exact Or.inr ⟨offset, h', ran, kept⟩

/-- The requests served by a new manager over a window of zeros. -/
def serveNew (meets : Directories GfsStringAllocator → DirectoryRequest → Prop)
    [∀ s r, Decidable (meets s r)] (rs : List DirectoryRequest) :
    Option (Directories GfsStringAllocator) :=
  match GfsDirectoryHashmapManager.new (gfsStrings fun _ => 0) plainMachine with
  | .ok manager m =>
    Requests.serveAll (serve (gfsStrings fun _ => 0) plainPager) meets ⟨m, manager, []⟩ rs
  | .error _ _ => none

theorem serveNew_run {meets : Directories GfsStringAllocator → DirectoryRequest → Prop}
    [∀ s r, Decidable (meets s r)] {rs : List DirectoryRequest} {s : Directories GfsStringAllocator}
    (served : serveNew meets rs = some s) :
    ∃ manager m, GfsDirectoryHashmapManager.new (gfsStrings fun _ => 0) plainMachine =
        .ok manager m ∧
      Requests.Run (serve (gfsStrings fun _ => 0) plainPager) meets ⟨m, manager, []⟩ s := by
  unfold serveNew at served
  split at served
  next manager m made => exact ⟨manager, m, made, Requests.serveAll_run served⟩
  next => cases served

/-- The insertion of a name of one byte. -/
def insertByte (i : Nat) (name : Byte) : DirectoryRequest := .insert i [name] ⟨name.setWidth 64⟩

/-- Two maps, and so many names in one bucket of the first that it grows. -/
def growingRun : List DirectoryRequest :=
  [.allocate 4, .allocate 3] ++ [3, 7, 11, 15, 19, 19].map (insertByte 1) ++ [insertByte 0 5]

/-- One name in the last bucket of a map, then five in each of the two before it. -/
def overlappingRun : List DirectoryRequest :=
  [.allocate 4] ++ [1, 3, 7, 11, 15, 19, 2, 6, 10, 14, 18].map (insertByte 0)

/-- A fifth name makes the bucket grow and is found, one inserted twice keeps its link. -/
theorem directories_findLinks_grown : ∃ manager m s,
    GfsDirectoryHashmapManager.new (gfsStrings fun _ => 0) plainMachine = .ok manager m ∧
      Requests.Run (serve (gfsStrings fun _ => 0) plainPager) (Meets ShortName)
        ⟨m, manager, []⟩ s ∧
      (s.maps.map fun d => d.contents [19]) = [none, some ⟨19⟩] ∧
      s.FindsLinks (gfsStrings fun _ => 0) ShortName := by
  have served : (serveNew (Meets ShortName) growingRun).map
      (fun s => s.maps.map fun d => d.contents [19]) = some [none, some ⟨19⟩] := by decide +kernel
  obtain ⟨s, served, contents⟩ := Option.map_eq_some_iff.mp served
  obtain ⟨manager, m, made, run⟩ := serveNew_run served
  exact ⟨manager, m, s, made, run, contents,
    directories_findLinks (gfsStrings_readsBack fun _ => 0) made run⟩

/-- After the pool lent elements that were lent already, the only name of a bucket is
no longer found. -/
theorem directories_not_findLinks : ∃ manager m s,
    GfsDirectoryHashmapManager.new (gfsStrings fun _ => 0) plainMachine = .ok manager m ∧
      Requests.Run (serve (gfsStrings fun _ => 0) plainPager) (Permits ShortName)
        ⟨m, manager, []⟩ s ∧
      ¬s.FindsLinks (gfsStrings fun _ => 0) ShortName := by
  have served : (serveNew (Permits ShortName) overlappingRun).map
      (fun s => s.maps.map fun d => (d.contents [1],
        (d.map.lookup (gfsStrings fun _ => 0) s.manager [1]).toOption)) =
      some [(some ⟨1⟩, some none)] := by decide +kernel
  obtain ⟨s, served, lookups⟩ := Option.map_eq_some_iff.mp served
  obtain ⟨manager, m, made, run⟩ := serveNew_run served
  refine ⟨manager, m, s, made, run, fun finds => ?_⟩
  obtain ⟨d, rest, maps⟩ := List.exists_cons_of_length_pos (l := s.maps) (by
    have length := congrArg List.length lookups
    rw [List.length_map] at length
    exact length ▸ Nat.succ_pos 0)
  rw [maps, List.map_cons] at lookups
  have first := (List.cons.inj lookups).1
  rw [finds.lookup d (maps ▸ List.mem_cons_self ..) [1]] at first
  obtain ⟨known, missing⟩ := Prod.mk.inj first
  rw [known] at missing
  cases missing

/-- The two maps and their buckets keep apart after a bucket has moved. -/
theorem directories_sharePools_grown : ∃ manager m s,
    GfsDirectoryHashmapManager.new (gfsStrings fun _ => 0) plainMachine = .ok manager m ∧
      Requests.Run (serve (gfsStrings fun _ => 0) plainPager) (Meets ShortName)
        ⟨m, manager, []⟩ s ∧
      (s.maps.map fun d => d.range) = [⟨4, 3⟩, ⟨0, 4⟩] ∧
      s.SharesPools (gfsStrings fun _ => 0) := by
  have served : (serveNew (Meets ShortName) growingRun).map
      (fun s => s.maps.map fun d => d.range) = some [⟨4, 3⟩, ⟨0, 4⟩] := by decide +kernel
  obtain ⟨s, served, ranges⟩ := Option.map_eq_some_iff.mp served
  obtain ⟨manager, m, made, run⟩ := serveNew_run served
  exact ⟨manager, m, s, made, run, ranges,
    directories_sharePools (gfsStrings_readsBack fun _ => 0) made run⟩

/-- Two buckets of a map have an entry in common. -/
theorem directories_not_sharePools : ∃ manager m s,
    GfsDirectoryHashmapManager.new (gfsStrings fun _ => 0) plainMachine = .ok manager m ∧
      Requests.Run (serve (gfsStrings fun _ => 0) plainPager) (Permits ShortName)
        ⟨m, manager, []⟩ s ∧
      ¬s.SharesPools (gfsStrings fun _ => 0) := by
  have served : (serveNew (Permits ShortName) overlappingRun).map
      (fun s => (s.maps.map fun d => d.range, (s.manager.bucketAt 2).entries.length,
        (s.manager.bucketAt 3).entries.length,
        decide ((s.manager.bucketAt 2).entries.entry 4 = (s.manager.bucketAt 3).entries.entry 0))) =
      some ([⟨0, 4⟩], 8, 4, true) := by decide +kernel
  obtain ⟨s, served, outcome⟩ := Option.map_eq_some_iff.mp served
  obtain ⟨manager, m, made, run⟩ := serveNew_run served
  obtain ⟨ranges, rest⟩ := Prod.mk.inj outcome
  obtain ⟨long, rest⟩ := Prod.mk.inj rest
  obtain ⟨short, common⟩ := Prod.mk.inj rest
  have owned (g : Nat) (below : g < 4) : s.Owned g := by
    obtain ⟨d, member, range⟩ := List.mem_map.mp (ranges ▸ List.mem_singleton_self (Extent.mk 0 4))
    refine ⟨d, member, ?_⟩
    rw [range]
    exact ⟨Nat.zero_le _, by simpa using below⟩
  exact ⟨manager, m, s, made, run, fun shares => shares.entries 2 3 (owned 2 (by decide))
    (owned 3 (by decide)) (by decide) 4 (by rw [long]; decide) 0 (by rw [short]; decide)
    (of_decide_eq_true common)⟩

end Samples

end Directories

end EmkKernel
