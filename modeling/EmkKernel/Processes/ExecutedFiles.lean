import EmkKernel.Processes.ApplicationRuns
import EmkKernel.Processes.Counters
import EmkKernel.Utils.Freed

/-!
# Executed files

Every application is summoned from a file that the mark table has. The table has one bucket
for all keys it can have at all, and that bucket does not grow, so there are never more than
two files.
-/

namespace EmkKernel

open EStateM PagedArray

namespace MarkTable

variable {t t' : MarkTable} {b : Buckets Nat bucketOf} {fi : Key}

theorem bucketOf_cases (key : Key) : bucketOf key = 0 ∨ bucketOf key = 1024 := by
  have one : (1024 : BitVec 32).setWidth 64 = BitVec.twoPow 64 10 := by decide
  rw [bucketOf, hash]
  simp only [one, BitVec.and_twoPow]
  split
  · exact Or.inr (by decide)
  · exact Or.inl (by decide)

theorem allotBuckets_allotted {a a' : NodeAllocator} {pairs : PairSlice}
    {buckets buckets' : Nat → MarkTableBucket} {k n : Nat} (allotted : Allotted a k)
    (room : k + n ≤ 1024) (ran : allotBuckets a pairs buckets k n = .ok (a', buckets')) :
    Allotted a' (k + n) := by
  induction n generalizing a buckets k with
  | zero =>
    cases ran
    exact allotted
  | succ n ih =>
    obtain ⟨a₁, taken, allotted₁⟩ := allotted.step (by omega)
    rw [allotBuckets, taken] at ran
    have later := ih allotted₁ (by omega) ran
    rwa [Nat.add_assoc, Nat.add_comm 1] at later

/-- The pairs of a table are allotted, and the first ones are those of the first bucket. -/
structure Allots (t : MarkTable) : Prop where
  pairs : t.pairs.base = processesMarkTablePairFixedVaddr
  allotted : Allotted t.pairAllocator 1024

private theorem new_allots {pager : Pager} {m m' : Machine} (made : new pager m = .ok t m') :
    t.Allots := by
  have outcome : Yields (new pager) m (fun t _ => t.Allots) fun _ _ => True := by
    unfold new
    rw [yields_bind]
    refine (mapWindows_yields pager m).mono (fun mb m₁ length => ?_) fun _ _ h => h
    rw [yields_bind]
    have initial : Yields (liftTraced fun allocator => NodeAllocator.newFake allocator 8
        ⟨processesMarkTablePairFixedVaddr, mb.length⟩) m₁ (fun a _ => Allotted a 0)
        fun _ _ => True := by
      unfold liftTraced
      rw [yields_bind, yields_get]
      split
      next a rest ran =>
        rw [yields_bind, yields_set, yields_pure]
        simp only [NodeAllocator.newFake, Traced.value_bind] at ran
        split at ran
        next => cases ran
        next nodeList left taken =>
          simp only [length, NodeAllocator.ofMemory, Traced.value_pure, OfNat.ofNat_ne_zero,
            if_false] at ran
          cases ran
          exact allotted_initial nodeList
      next => trivial
    refine initial.mono (fun a m₂ allotted => ?_) fun _ _ h => h
    rw [yields_bind]
    cases ran : allotBuckets a ⟨processesMarkTablePairFixedVaddr, 1024⟩
        (fun _ => ⟨⟨0, 0⟩, 0⟩) 0 1024 with
    | error e => trivial
    | ok result => exact ⟨rfl, allotBuckets_allotted allotted (by decide) ran⟩
  exact outcome.ok made

/-- The pairs of the first bucket are at offset zero, where nothing is freed. -/
theorem Allots.growBucket (allots : t.Allots) (files : t.Files b) :
    t.growBucket 0 = .error .panic := by
  obtain ⟨steady, used, current⟩ := allots.allotted
  have slot := files.slots 0 (by decide)
  have last : 1 < t.pairAllocator.numUsedNodes := by omega
  have length : (t.pairAllocator.nodes 1).length = 2048 := by
    rw [steady.length_eq last]
    rfl
  have found : t.pairAllocator.chosen 4 = some 1 := by
    rw [NodeAllocator.chosen, current, if_pos (by omega)]
  have shorter : 4 < (t.pairAllocator.nodes 1).length := by omega
  have ran := steady.allocateAsOffset found shorter
  have free : (t.pairAllocator.nodes 1).isFreeing := (steady.isFreeing_iff last).mpr (by decide)
  have steady' := (steady.select found free).shifted last shorter.le (by decide)
  have refused : (({ t.pairAllocator with currentNode := 1 } : NodeAllocator).shifted 0
      4).freeOffset 0 2 = .error .panic := by
    refine NodeAllocator.freeOffset_first steady' ?_ ?_ ?_
    · exact Nat.zero_lt_of_lt last
    · exact Cuts.move_of_ne (by decide)
    · rw [Cuts.move_self]
      decide
  rw [MarkTable.growBucket, slot]
  simp only [ran, allots.pairs, bind, Except.bind, checkedSub_ok (Nat.le_refl _), Nat.mul_zero,
    Nat.add_zero, Nat.sub_self, Nat.zero_div, Nat.zero_mod, refused]

theorem Allots.appended (allots : t.Allots) (i : Nat) (entry : Key × Nat) :
    (t.appended i entry).Allots := ⟨allots.pairs, allots.allotted⟩

/-- A file that is marked is in the table. -/
theorem Files.mark (files : t.Files b) (allots : t.Allots) (marked : t.mark fi = .ok t') :
    bucketOf fi < 1024 ∧ t'.Allots ∧ ∃ b' : Buckets Nat bucketOf, t'.Files b' ∧
      ∀ key, b'.lookup key = if key = fi then b.lookup fi <|> some 1 else b.lookup key := by
  have inside : bucketOf fi < 1024 := by
    by_contra outside
    have missing : t.contains fi = .error .panic := by
      rw [MarkTable.contains, files.bucketIndex, bucket, if_neg (files.count ▸ outside)]
      rfl
    rw [MarkTable.mark, missing] at marked
    cases marked
  refine ⟨inside, ?_⟩
  rw [MarkTable.mark, files.contains inside] at marked
  change (if (b.lookup fi).isSome = true then _ else _) = _ at marked
  split at marked
  next found =>
    -- a count that is raised is raised in a copy
    have same : t' = t := by
      rw [MarkTable.increase] at marked
      cases index : t.bucket (t.bucketIndex fi) with
      | error e =>
        rw [index] at marked
        cases marked
      | ok bucket =>
        rw [index] at marked
        simp only [bind, Except.bind] at marked
        split at marked
        next => cases marked
        next returned =>
          split at returned
          next => cases returned
          next =>
            cases returned
            cases marked
            rfl
    subst same
    refine ⟨allots, b, files, fun key => ?_⟩
    split
    next here =>
      obtain ⟨v, stored⟩ := Option.isSome_iff_exists.mp found
      rw [here, stored]
      rfl
    next => rfl
  next missing =>
    have fresh : b.lookup fi = none := by simpa using missing
    have first : bucketOf fi = 0 := (bucketOf_cases fi).resolve_right inside.ne
    cases full : (t.buckets (bucketOf fi)).isFull with
    | false =>
      obtain ⟨ran, files'⟩ := files.insert inside full fresh
      rw [ran] at marked
      cases marked
      refine ⟨allots.appended _ _, _, files', fun key => ?_⟩
      rw [Buckets.lookup_insert, fresh]
      rfl
    | true =>
      have slot := files.slots _ inside
      have grows : (t.buckets (bucketOf fi)).canGrow = true := by
        rw [MarkTableBucket.canGrow, slot]
        rfl
      rw [MarkTable.insert, files.bucketIndex, bucket, if_pos (files.count ▸ inside)] at marked
      rw [first] at full grows marked
      simp only [bind, Except.bind, full, grows, if_true, allots.growBucket files] at marked
      cases marked

end MarkTable

namespace ApplicationRun

/-- The file of an application that was summoned. -/
def Executes (s : ApplicationRun) (fi : Key) : Prop :=
  ∃ i < s.complex.applicationsPresent, (s.app i).executionFi = fi

instance (s : ApplicationRun) (fi : Key) : Decidable (s.Executes fi) :=
  inferInstanceAs (Decidable (∃ i < s.complex.applicationsPresent, _))

/-- The files that are executed. -/
def files (s : ApplicationRun) : Finset Key :=
  (Finset.range s.complex.applicationsPresent).image fun i => (s.app i).executionFi

/-- The mark table has the files of all applications and no others, each counted once, and they
are two at most. -/
structure KeepsMarks (s : ApplicationRun) : Prop where
  contains : ∀ fi, s.Executes fi → s.complex.markTable.contains fi = .ok true
  denies : ∀ fi, ¬s.Executes fi → s.complex.markTable.contains fi ≠ .ok true
  counted : ∀ fi, s.Executes fi → s.complex.markTable.stored fi = some 1
  two : s.files.card ≤ 2

/-- The table files a count of one for the executed files. -/
structure Marked (s : ApplicationRun) (b : Buckets Nat MarkTable.bucketOf) : Prop where
  files : s.complex.markTable.Files b
  allots : s.complex.markTable.Allots
  inside : ∀ fi, s.Executes fi → MarkTable.bucketOf fi < 1024
  lookup : ∀ fi, b.lookup fi = if s.Executes fi then some 1 else none

variable {s s' : ApplicationRun} {m m' : IoMachine} {b : Buckets Nat MarkTable.bucketOf}

/-- The files are those of the entries of the first bucket. -/
theorem Marked.two (marked : s.Marked b) : s.files.card ≤ 2 := by
  have subset : s.files ⊆ ((b.entries 0).map Prod.fst).toFinset := by
    intro fi member
    obtain ⟨i, below, same⟩ := Finset.mem_image.mp member
    have executes : s.Executes fi := ⟨i, Finset.mem_range.mp below, same⟩
    have found : b.lookup fi = some 1 := by rw [marked.lookup, if_pos executes]
    have first := (MarkTable.bucketOf_cases fi).resolve_right (marked.inside fi executes).ne
    rw [Buckets.lookup_eq_some, first] at found
    exact List.mem_toFinset.mpr (List.mem_map.mpr ⟨_, found, rfl⟩)
  have used := marked.files.used 0 (by decide)
  have length : (b.entries 0).length = (s.complex.markTable.buckets 0).used := by
    rw [← marked.files.entries 0 (by decide), MarkTable.entriesOf, List.length_map,
      List.length_range]
  calc s.files.card ≤ ((b.entries 0).map Prod.fst).toFinset.card := Finset.card_le_card subset
    _ ≤ ((b.entries 0).map Prod.fst).length := List.toFinset_card_le _
    _ ≤ 2 := by rw [List.length_map, length]; exact used

private theorem Marked.keepsMarks (marked : s.Marked b) : s.KeepsMarks where
  contains fi executes := by
    rw [marked.files.contains (marked.inside fi executes), marked.lookup, if_pos executes]
    rfl
  denies fi other := by
    by_cases inside : MarkTable.bucketOf fi < 1024
    · rw [marked.files.contains inside, marked.lookup, if_neg other]
      intro same
      cases same
    · rw [MarkTable.contains, marked.files.bucketIndex, MarkTable.bucket,
        if_neg (marked.files.count ▸ inside)]
      intro same
      cases same
  counted fi executes := by
    rw [marked.files.stored (marked.inside fi executes), marked.lookup, if_pos executes]
  two := marked.two

/-- A state with the same applications of the same files. -/
theorem Marked.same (marked : s.Marked b) (table : s'.complex.markTable = s.complex.markTable)
    (executes : ∀ fi, s'.Executes fi ↔ s.Executes fi) : s'.Marked b := by
  refine ⟨table ▸ marked.files, table ▸ marked.allots,
    fun fi again => marked.inside fi ((executes fi).mp again), fun fi => ?_⟩
  rw [marked.lookup]
  exact if_congr (executes fi).symm rfl rfl

/-- A call on the handles of an application does not change its file. -/
theorem executes_after {i : Nat} {app : Application} (machine : IoMachine)
    (same : app.executionFi = (s.app i).executionFi) (fi : Key) :
    (s.after i app machine).Executes fi ↔ s.Executes fi := by
  refine exists_congr fun j => and_congr_right fun _ => ?_
  by_cases here : j = i
  · subst here
    rw [app_after_self, same]
  · rw [app_after_of_ne s app machine here]

private theorem allocateHandle_file (app : Application) (ftabIndex : BitVec 32) (m : IoMachine) :
    Yields (app.allocateHandle ftabIndex) m (fun r _ => r.2.executionFi = app.executionFi)
      fun _ _ => True := by
  rw [Application.allocateHandle, yields_bind]
  refine (orPanic_yields _).mono (fun next _ _ => ?_) fun _ _ _ => trivial
  split
  · rfl
  split
  · rfl
  · trivial

private theorem reallocateHandles_file (app : Application) (m : IoMachine) :
    Yields app.reallocateHandles m (fun app' _ => app'.executionFi = app.executionFi)
      fun _ _ => True := by
  rw [Application.reallocateHandles, yields_bind]
  refine (orPanic_yields _).mono (fun pages _ _ => ?_) fun _ _ _ => trivial
  rw [yields_bind]
  refine (yields_any _ _).mono (fun r m₁ _ => ?_) fun _ _ _ => trivial
  cases r with
  | error e => trivial
  | ok mb =>
    simp only [yields_bind, yields_modify]
    refine (yields_any _ _).mono (fun r m₂ _ => ?_) fun _ _ _ => trivial
    cases r with
    | error e => trivial
    | ok => rfl

private theorem release_file (app : Application) (m : IoMachine) :
    Yields app.release m (fun r _ => r.2.executionFi = app.executionFi) fun _ _ => True := by
  rw [Application.release, yields_bind]
  refine (yields_any _ _).mono (fun r m₁ _ => ?_) fun _ _ _ => trivial
  cases r <;> rfl

theorem Marked.summon (marked : s.Marked b) {file : ExecutableFile}
    (served : s.serve (.summon file) = some s') : ∃ b', s'.Marked b' := by
  rw [serve] at served
  split at served
  next result complex machine ran =>
    cases served
    rcases (summonApplication_yields s.complex file s.machine).ok ran with ⟨⟨e, same⟩, rfl⟩ |
      ⟨mb, k, markTable, same, room, filed, _⟩
    · cases same
      exact ⟨b, marked⟩
    cases same
    obtain ⟨inside, allots, b', files, lookup⟩ := marked.files.mark marked.allots filed
    -- the applications that were there, and the new one
    have executes (fi : Key) : Executes { s with
          machine
          complex := { s.complex.setApplication s.complex.applicationsPresent
              ((s.complex.applications s.complex.applicationsPresent).spawned file.fi mb) with
            markTable
            applicationsPresent := s.complex.applicationsPresent + 1 } } fi ↔
        s.Executes fi ∨ file.fi = fi := by
      refine Nat.exists_lt_succ_right.trans (or_congr (exists_congr fun j => ?_) ?_)
      · refine and_congr_right fun below => ?_
        simp only [app, ApplicationComplex.setApplication, Function.update_of_ne below.ne]
      · simp only [app, ApplicationComplex.setApplication, Function.update_self,
          Application.spawned]
    refine ⟨b', files, allots, fun fi again => ?_, fun fi => ?_⟩
    · rcases (executes fi).mp again with before | rfl
      · exact marked.inside fi before
      · exact inside
    · rw [lookup, marked.lookup, marked.lookup, if_congr (executes fi) rfl rfl]
      by_cases here : fi = file.fi
      · rw [if_pos here, if_pos (Or.inr here.symm)]
        split <;> rfl
      · rw [if_neg here]
        exact if_congr (or_iff_left (Ne.symm here)).symm rfl rfl
  next => cases served

theorem Marked.serve (marked : s.Marked b) {r : ApplicationRequest} (served : s.serve r = some s') :
    ∃ b', s'.Marked b' := by
  cases r with
  | summon file => exact marked.summon served
  | allocateHandle i ftabIndex =>
    rw [ApplicationRun.serve] at served
    split at served
    next handle app machine ran =>
      cases served
      exact ⟨b, marked.same rfl (executes_after machine ((allocateHandle_file _ _ _).ok ran))⟩
    next app machine ran =>
      cases served
      exact ⟨b, marked.same rfl (executes_after machine ((allocateHandle_file _ _ _).ok ran))⟩
    next => cases served
  | reallocateHandles i =>
    rw [ApplicationRun.serve] at served
    split at served
    next app machine ran =>
      cases served
      exact ⟨b, marked.same rfl (executes_after machine ((reallocateHandles_file _ _).ok ran))⟩
    next => cases served
  | release i =>
    rw [ApplicationRun.serve] at served
    split at served
    next result app machine ran =>
      cases served
      exact ⟨b, marked.same rfl (executes_after machine ((release_file _ _).ok ran))⟩
    next => cases served
  | elsewhere machine =>
    cases served
    exact ⟨b, marked.same rfl fun _ => Iff.rfl⟩

/-- A new pool executes nothing, and a new table marks nothing. -/
theorem marked_start {pager : Pager} {pm pm' : Machine} {markTable : MarkTable}
    (table : MarkTable.new pager pm = .ok markTable pm') {complex : ApplicationComplex}
    (made : ApplicationComplex.allocate markTable m = .ok complex m') :
    (start complex m').Marked (Buckets.empty Nat MarkTable.bucketOf) := by
  obtain rfl := (allocate_yields markTable m).ok made
  have none (fi : Key) : ¬(start ⟨fun _ => .default, 0, markTable⟩ m').Executes fi :=
    fun ⟨i, below, _⟩ => Nat.not_lt_zero i below
  refine ⟨MarkTable.files_of_new table, MarkTable.new_allots table,
    fun fi executes => absurd executes (none fi), fun fi => ?_⟩
  rw [Buckets.lookup_empty, if_neg (none fi)]

/-- From a new pool and a new mark table on, whatever is served: the table has the files of the
applications and no others, and there are never more than two. -/
theorem run_keepsMarks {pager : Pager} {pm pm' : Machine} {markTable : MarkTable}
    (table : MarkTable.new pager pm = .ok markTable pm') {complex : ApplicationComplex}
    (made : ApplicationComplex.allocate markTable m = .ok complex m')
    (run : Requests.Run serve Permits (start complex m') s) : s.KeepsMarks := by
  obtain ⟨b, marked⟩ := run.keeps (I := fun s => ∃ b, s.Marked b) ⟨_, marked_start table made⟩
    fun _ _ _ ⟨_, marked⟩ _ served => marked.serve served
  exact marked.keepsMarks

section Samples

open Pager

/-- Two files are executed by three applications. -/
theorem run_keepsMarks_two : ∃ markTable pm' complex m' s,
    MarkTable.new plainPager plainMachine = .ok markTable pm' ∧
      ApplicationComplex.allocate markTable plainMemory = .ok complex m' ∧
      Requests.Run serve Permits (start complex m') s ∧ s.files = {0, 1} ∧ s.KeepsMarks := by
  have served : (match MarkTable.new plainPager plainMachine with
      | .ok markTable _ => (match ApplicationComplex.allocate markTable plainMemory with
        | .ok complex m' => (Requests.serveAll serve Permits (start complex m')
          [.summon ⟨0, 0, 8⟩, .summon ⟨1, 0, 8⟩, .summon ⟨0, 0, 8⟩]).map files
        | .error _ _ => none)
      | .error _ _ => none) = some {0, 1} := by decide +kernel
  cases table : MarkTable.new plainPager plainMachine with
  | error e pm' =>
    rw [table] at served
    cases served
  | ok markTable pm' =>
    simp only [table] at served
    cases made : ApplicationComplex.allocate markTable plainMemory with
    | error e m' =>
      simp only [made] at served
      cases served
    | ok complex m' =>
      simp only [made] at served
      obtain ⟨s, served, same⟩ := Option.map_eq_some_iff.mp served
      have run := Requests.serveAll_run served
      exact ⟨markTable, pm', complex, m', s, rfl, made, run, same, run_keepsMarks table made run⟩

end Samples

end ApplicationRun

end EmkKernel
