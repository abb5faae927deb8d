import EmkKernel.Library.Buckets
import EmkKernel.Library.Requests
import EmkKernel.Memory.Alloc
import EmkKernel.Paging.SmallPages
import EmkKernel.Processes.MarkTable
import EmkKernel.Utils.Partition

/-!
# The mark table as a map of counters

As long as a bucket has room and no count is raised, the table is a chained hash
table: what a key's bucket holds is filed in an abstract `Buckets` table. The mask
of `hash` leaves only the first bucket, its growth frees the range at offset zero
and panics, and a raised count is lost.
-/

namespace EmkKernel

open EStateM

namespace MarkTable

variable {t : MarkTable} {memory : Nat → Key × Nat} {key fi : Key}

/-- The pairs a bucket holds. -/
def entriesOf (t : MarkTable) (i : Nat) : List (Key × Nat) :=
  (List.range (t.buckets i).used).map fun j => t.memory ((t.buckets i).pairs.address j)

/-- The count stored for a key. -/
def stored (t : MarkTable) (key : Key) : Option Nat :=
  ((t.entriesOf (t.bucketIndex key)).find? fun e => e.1 = key).map Prod.snd

theorem containsLoop_eq {pairs : PairSlice} {i n : Nat} (fits : i + n ≤ pairs.length) :
    containsLoop memory pairs key i n =
      .ok (((List.range' i n).map fun j => memory (pairs.address j)).any fun e => e.1 = key) := by
  induction n generalizing i with
  | zero => rfl
  | succ n ih =>
    rw [containsLoop, pair, if_pos (by omega), List.range'_succ, List.map_cons, List.any_cons]
    change (if (memory (pairs.address i)).1 = key then _ else _) = _
    split
    next same => simp [same, pure, Except.pure]
    next other => rw [ih (by omega), decide_eq_false other, Bool.false_or]

/-- The bucket of a key in a table of the first size. -/
def bucketOf (key : Key) : Nat := (hash key 1024).toNat

/-- The table files its pairs like `b`: every bucket has two slots of its own. -/
structure Files (t : MarkTable) (b : Buckets Nat bucketOf) : Prop where
  count : t.numBuckets = 1024
  slots : ∀ i < 1024, (t.buckets i).pairs = ⟨processesMarkTablePairFixedVaddr + 16 * i, 2⟩
  used : ∀ i < 1024, (t.buckets i).used ≤ 2
  entries : ∀ i < 1024, t.entriesOf i = b.entries i

variable {b : Buckets Nat bucketOf}

theorem Files.bucketIndex (files : t.Files b) (key : Key) : t.bucketIndex key = bucketOf key := by
  rw [MarkTable.bucketIndex, files.count]
  rfl

theorem Files.stored (files : t.Files b) (inside : bucketOf key < 1024) :
    t.stored key = b.lookup key := by
  rw [MarkTable.stored, files.bucketIndex, files.entries _ inside, Buckets.lookup]

theorem Files.contains (files : t.Files b) (inside : bucketOf key < 1024) :
    t.contains key = .ok (b.lookup key).isSome := by
  have fits : 0 + (t.buckets (bucketOf key)).used ≤ (t.buckets (bucketOf key)).pairs.length := by
    rw [files.slots _ inside, Nat.zero_add]
    exact files.used _ inside
  rw [MarkTable.contains, files.bucketIndex, bucket, if_pos (files.count ▸ inside)]
  change containsLoop t.memory (t.buckets (bucketOf key)).pairs key 0 _ = _
  rw [containsLoop_eq fits, ← List.range_eq_range']
  change Except.ok ((t.entriesOf (bucketOf key)).any _) = _
  rw [files.entries _ inside, Buckets.lookup, Option.isSome_map, List.isSome_find?]

/-- The table after a pair was appended to a bucket with room. -/
def appended (t : MarkTable) (i : Nat) (entry : Key × Nat) : MarkTable :=
  { t with
    memory := Function.update t.memory ((t.buckets i).pairs.address (t.buckets i).used) entry
    buckets := Function.update t.buckets i
      { t.buckets i with used := (t.buckets i).used + 1 } }

private theorem entriesOf_appended_self {i : Nat} (entry : Key × Nat) :
    (t.appended i entry).entriesOf i = t.entriesOf i ++ [entry] := by
  simp only [entriesOf, appended, Function.update_self, List.range_succ, List.map_append,
    List.map_cons, List.map_nil]
  refine congrArg (· ++ [entry]) (List.map_congr_left fun j member => ?_)
  -- the pair written lies behind all used ones
  have below := List.mem_range.mp member
  exact Function.update_of_ne (by simp only [PairSlice.address]; omega) ..

private theorem entriesOf_appended_of_ne {i j : Nat} (entry : Key × Nat) (other : j ≠ i)
    (apart : ∀ k < (t.buckets j).used, (t.buckets j).pairs.address k ≠
      (t.buckets i).pairs.address (t.buckets i).used) :
    (t.appended i entry).entriesOf j = t.entriesOf j := by
  simp only [entriesOf, appended, Function.update_of_ne other]
  refine List.map_congr_left fun k member => ?_
  exact Function.update_of_ne (apart k (List.mem_range.mp member)) ..

/-- `insert` of a new key into a bucket with room. -/
theorem Files.insert (files : t.Files b) (inside : bucketOf fi < 1024)
    (room : (t.buckets (bucketOf fi)).isFull = false) (fresh : b.lookup fi = none) :
    t.insert fi = .ok (.success, t.appended (bucketOf fi) (fi, 1)) ∧
      (t.appended (bucketOf fi) (fi, 1)).Files (b.insert fi 1 fresh) := by
  have slot := files.slots _ inside
  have used := files.used _ inside
  have less : (t.buckets (bucketOf fi)).used < 2 := by
    rw [MarkTableBucket.isFull, slot] at room
    have different : (t.buckets (bucketOf fi)).used ≠ 2 := of_decide_eq_false room
    omega
  have fits : (t.buckets (bucketOf fi)).used < (t.buckets (bucketOf fi)).pairs.length := by
    rwa [slot]
  constructor
  · rw [MarkTable.insert, files.bucketIndex, bucket, if_pos (files.count ▸ inside)]
    change (if (t.buckets (bucketOf fi)).isFull = true then _ else _) = _
    rw [room, if_neg Bool.false_ne_true, append, appendPair, if_pos fits]
    rfl
  · refine ⟨files.count, fun i below => ?_, fun i below => ?_, fun i below => ?_⟩
    · by_cases here : i = bucketOf fi
      · subst here
        simpa only [appended, Function.update_self] using slot
      · simpa only [appended, Function.update_of_ne here] using files.slots i below
    · by_cases here : i = bucketOf fi
      · subst here
        simp only [appended, Function.update_self]
        exact less
      · simpa only [appended, Function.update_of_ne here] using files.used i below
    · by_cases here : i = bucketOf fi
      · subst here
        rw [entriesOf_appended_self, files.entries _ inside]
        simp only [Buckets.insert, Function.update_self]
      · rw [entriesOf_appended_of_ne _ here fun k usedK => ?_, files.entries i below]
        · simp only [Buckets.insert, Function.update_of_ne here]
        · rw [files.slots i below, slot]
          have := files.used i below
          simp only [PairSlice.address]
          omega

/-- The loop of `increase` comes to its end if no count is at its limit. -/
theorem increaseLoop_returns {pairs : PairSlice} {ret : MarkTableResult} {i n : Nat}
    (fits : i + n ≤ pairs.length)
    (small : ∀ j, i ≤ j → j < i + n → (memory (pairs.address j)).2 + 1 < 2 ^ 32) :
    ∃ ret', increaseLoop memory pairs fi ret i n = .ok ret' := by
  induction n generalizing i ret with
  | zero => exact ⟨ret, rfl⟩
  | succ n ih =>
    have rest (ret : MarkTableResult) :
        ∃ ret', increaseLoop memory pairs fi ret (i + 1) n = .ok ret' :=
      ih (by omega) fun j low high => small j (by omega) (by omega)
    rw [increaseLoop, pair, if_pos (by omega)]
    simp only [bind, Except.bind]
    split
    next =>
      rw [checkedAdd32, if_pos (small i le_rfl (by omega))]
      exact rest .success
    next => exact rest ret

/-- `increase` leaves the table as it was. -/
theorem Files.increase (files : t.Files b) (inside : bucketOf fi < 1024)
    (small : ∀ e ∈ b.entries (bucketOf fi), e.2 + 1 < 2 ^ 32) :
    ∃ ret, t.increase fi = .ok (ret, t) := by
  have slot := files.slots _ inside
  have used := files.used _ inside
  have fits : 0 + (t.buckets (bucketOf fi)).used ≤ (t.buckets (bucketOf fi)).pairs.length := by
    rw [slot, Nat.zero_add]
    exact used
  have member (j : Nat) (_ : 0 ≤ j) (below : j < 0 + (t.buckets (bucketOf fi)).used) :
      (t.memory ((t.buckets (bucketOf fi)).pairs.address j)).2 + 1 < 2 ^ 32 := by
    refine small _ ?_
    rw [← files.entries _ inside]
    exact List.mem_map.mpr ⟨j, List.mem_range.mpr (by omega), rfl⟩
  obtain ⟨ret, ran⟩ : ∃ ret, increaseLoop t.memory (t.buckets (bucketOf fi)).pairs fi .notFound 0
      (t.buckets (bucketOf fi)).used = .ok ret := increaseLoop_returns fits member
  refine ⟨ret, ?_⟩
  rw [MarkTable.increase, files.bucketIndex, bucket, if_pos (files.count ▸ inside)]
  simp only [bind, Except.bind, ran]
  rfl

/-! ### The table that `new` returns -/

/-- The cut points of the pair allocator after `k` buckets got their pairs. -/
def allottedCut (k i : Nat) : Nat := if i = 0 then 0 else if i = 1 then 2 * k else 4096

/-- The pair allocator after `k` buckets got their pairs. -/
structure Allotted (a : NodeAllocator) (k : Nat) : Prop where
  steady : a.Steady 4096 (allottedCut k)
  used : a.numUsedNodes = 2
  current : a.currentNode = 1

theorem Allotted.step {a : NodeAllocator} {k : Nat} (allotted : Allotted a k) (room : k < 1024) :
    ∃ a', a.allocateAsOffset 2 = .ok (some (2 * k), a') ∧ Allotted a' (k + 1) := by
  obtain ⟨steady, used, current⟩ := allotted
  have last : 1 < a.numUsedNodes := by omega
  have length : (a.nodes 1).length = 4096 - 2 * k := by
    rw [steady.length_eq last]
    rfl
  have found : a.chosen 2 = some 1 := by
    rw [NodeAllocator.chosen, current, if_pos (by omega)]
  have shorter : 2 < (a.nodes 1).length := by omega
  have narrow : allottedCut k 1 + 2 < 2 ^ 32 := by
    simp only [allottedCut, Nat.one_ne_zero, if_false, if_true]
    omega
  have ran := steady.allocateAsOffset found shorter
  have free : (a.nodes 1).isFreeing := (steady.isFreeing_iff last).mpr (by decide)
  have steady' := (steady.select found free).shifted last shorter.le narrow
  refine ⟨_, ran, ⟨?_, used, rfl⟩⟩
  have cuts : Cuts.move (allottedCut k) 1 (allottedCut k 1 + 2) = allottedCut (k + 1) := by
    funext i
    by_cases one : i = 1
    · subst one
      exact Cuts.move_self ..
    · rw [Cuts.move_of_ne one]
      simp only [allottedCut, one, if_false]
  exact cuts ▸ steady'

theorem allotBuckets_eq {a : NodeAllocator} (pairs : PairSlice) (buckets : Nat → MarkTableBucket)
    {k n : Nat} (allotted : Allotted a k) (room : k + n ≤ 1024) :
    ∃ a', allotBuckets a pairs buckets k n = .ok (a', fun i =>
      if k ≤ i ∧ i < k + n then ⟨⟨pairs.base + 16 * i, 2⟩, 0⟩ else buckets i) := by
  induction n generalizing a buckets k with
  | zero =>
    refine ⟨a, ?_⟩
    rw [allotBuckets]
    refine congrArg (fun f => Except.ok (a, f)) (funext fun i => ?_)
    rw [if_neg (by omega)]
  | succ n ih =>
    obtain ⟨a₁, ran, allotted₁⟩ := allotted.step (by omega)
    obtain ⟨a', rest⟩ := ih (Function.update buckets k ⟨⟨pairs.address (2 * k), 2⟩, 0⟩) allotted₁
      (by omega)
    refine ⟨a', ?_⟩
    rw [allotBuckets, ran]
    refine rest.trans (congrArg (fun f => Except.ok (a', f)) (funext fun i => ?_))
    by_cases here : i = k
    · subst here
      rw [if_neg (by omega), if_pos (by omega), Function.update_self, PairSlice.address]
      congr 2
      omega
    · rw [Function.update_of_ne here]
      by_cases later : k + 1 ≤ i ∧ i < k + 1 + n
      · rw [if_pos later, if_pos (by omega)]
      · rw [if_neg later, if_neg (by omega)]

theorem mapWindows_yields (pager : Pager) (m : Machine) :
    Yields (mapWindows pager) m (fun mb _ => mb.length = 8 * 0x1000) fun _ _ => True := by
  unfold mapWindows
  rw [yields_bind]
  refine (yields_unwrapResult (allocZero_yields _ m)).mono (fun mb m₁ length => ?_) fun _ _ h => h
  rw [yields_bind]
  refine (yields_unwrapResult (yields_any _ m₁)).mono (fun _ m₂ _ => ?_) fun _ _ h => h
  rw [yields_bind]
  refine (yields_unwrapResult (yields_any _ m₂)).mono (fun _ m₃ _ => ?_) fun _ _ h => h
  rw [yields_bind]
  refine (yields_unwrapResult (yields_any _ m₃)).mono (fun _ m₄ _ => ?_) fun _ _ h => h
  rw [yields_pure]
  exact length

/-- A pair allocator over the window as `new_fake` makes it. -/
theorem allotted_initial (nodeList : MemoryBlock) :
    Allotted (NodeAllocator.initial 8 nodeList ⟨processesMarkTablePairFixedVaddr, 8 * 0x1000⟩ true)
      0 := by
  have steady := NodeAllocator.steady_initial (show 0 < 8 by decide) nodeList
    ⟨processesMarkTablePairFixedVaddr, 8 * 0x1000⟩ true
  refine ⟨?_, rfl, rfl⟩
  have cuts : NodeAllocator.initialCut (8 * 0x1000 / 8) = allottedCut 0 := by
    funext i
    simp only [NodeAllocator.initialCut, allottedCut]
    split_ifs <;> omega
  exact cuts ▸ steady

/-- `new` returns a table that files nothing, once its memory is there. -/
theorem new_yields (pager : Pager) (m : Machine) {R : Stop → Machine → Prop}
    (failed : ∀ e m', mapWindows pager m = .error e m' → R e m')
    (refused : ∀ mb m₁ e, mapWindows pager m = .ok mb m₁ →
      (NodeAllocator.allocZeroUnwrap m₁.allocator 1).value = .error e → R e m₁) :
    Yields (new pager) m (fun t _ => t.Files (Buckets.empty Nat bucketOf)) R := by
  unfold new
  rw [yields_bind]
  have windows := mapWindows_yields pager m
  unfold Yields at windows ⊢
  cases mapped : mapWindows pager m with
  | error e m' => exact failed e m' mapped
  | ok mb m₁ =>
    have length : mb.length = 8 * 0x1000 := by simpa only [mapped] using windows
    have taken := refused mb m₁
    change Yields _ m₁ _ _
    rw [yields_bind, liftTraced, yields_bind, yields_get]
    simp only [NodeAllocator.newFake, Traced.value_bind]
    cases page : (NodeAllocator.allocZeroUnwrap m₁.allocator 1).value with
    | error e =>
      simp only [Traced.value_pure, yields_throw]
      exact taken e mapped page
    | ok taken =>
      obtain ⟨nodeList, allocator⟩ := taken
      obtain ⟨a, ran⟩ := allotBuckets_eq ⟨processesMarkTablePairFixedVaddr, 1024⟩
        (fun _ => ⟨⟨0, 0⟩, 0⟩) (allotted_initial nodeList) (show 0 + 1024 ≤ 1024 by decide)
      simp only [length, NodeAllocator.ofMemory, Traced.value_pure, Except.map, yields_bind,
        yields_set, yields_pure, OfNat.ofNat_ne_zero, if_false]
      rw [ran]
      simp only [liftExcept, yields_pure]
      refine ⟨rfl, fun i below => ?_, fun i below => ?_, fun i below => ?_⟩ <;>
        simp [below, entriesOf, Buckets.empty]

/-- A new table files nothing. -/
theorem files_of_new {pager : Pager} {m m' : Machine} (made : new pager m = .ok t m') :
    t.Files (Buckets.empty Nat bucketOf) :=
  (new_yields pager m (R := fun _ _ => True) (fun _ _ _ => trivial)
    fun _ _ _ _ _ => trivial).ok made

private theorem new_returns {pager : Pager} {m m₁ : Machine} {mb : MemoryBlock}
    {taken : MemoryBlock × Allocator} (mapped : mapWindows pager m = .ok mb m₁)
    (page : (NodeAllocator.allocZeroUnwrap m₁.allocator 1).value = .ok taken) :
    ∃ t m', new pager m = .ok t m' := by
  have outcome := new_yields pager m (R := fun _ _ => False)
    (fun e m' failed => by cases mapped.symm.trans failed)
    fun mb' m₁' e mapped' refused => by
      cases mapped.symm.trans mapped'
      cases page.symm.trans refused
  cases made : new pager m with
  | ok t m' => exact ⟨t, m', rfl⟩
  | error e m' => exact (outcome.error made).elim

end MarkTable

/-! ### Runs -/

/-- A mark table, the machine it takes memory from, and the counts it should hold. -/
structure Marks where
  machine : Machine
  table : MarkTable
  counts : Key → Option Nat

inductive MarkRequest where
  | insert (key : Key)
  | increase (key : Key)
  | rehash
  deriving DecidableEq, Repr

namespace Marks

/-- Serve a request; a panic ends the run. -/
def serve (pager : Pager) (s : Marks) : MarkRequest → Option Marks
  | .insert key =>
    match s.table.insert key with
    | .ok (.success, t) =>
      some { s with table := t, counts := Function.update s.counts key (some 1) }
    | .ok (_, t) => some { s with table := t }
    | .error _ => none
  | .increase key =>
    match s.table.increase key with
    | .ok (_, t) =>
      some
        { s with table := t, counts := Function.update s.counts key ((s.counts key).map (· + 1)) }
    | .error _ => none
  | .rehash =>
    match s.table.rehash pager s.machine with
    | .ok (_, t) m => some { s with machine := m, table := t }
    | .error _ _ => none

/-- Only keys that are denied are inserted and only keys that are affirmed are
increased; a rehash follows an insert that asks for it. -/
def Permits (s : Marks) : MarkRequest → Prop
  | .insert key => s.table.contains key = .ok false
  | .increase key => s.table.contains key = .ok true
  | .rehash => ∃ key t, s.table.contains key = .ok false ∧
      s.table.insert key = .ok (.rehashRequired, t)

/-- The bucket computed for a key lies in the table. -/
def Inside (t : MarkTable) (key : Key) : Prop := t.bucketIndex key < t.numBuckets

instance (t : MarkTable) (key : Key) : Decidable (Inside t key) :=
  inferInstanceAs (Decidable (_ < _))

/-- The bucket of the key lies in the table and has room; no count is raised and
the table is not rehashed. -/
def Suits (s : Marks) : MarkRequest → Prop
  | .insert key =>
    Inside s.table key ∧ (s.table.buckets (s.table.bucketIndex key)).isFull = false
  | .increase _ => False
  | .rehash => False

def Meets (s : Marks) (r : MarkRequest) : Prop := s.Permits r ∧ s.Suits r

/-- A step by a request with a property. -/
def Step (pager : Pager) (meets : Marks → MarkRequest → Prop) (s s' : Marks) : Prop :=
  ∃ r, meets s r ∧ s.serve pager r = some s'

/-- For the keys asked about the table tells what was inserted and how often it was
counted; no two buckets share a pair. -/
structure KeepsCounts (s : Marks) (asked : Key → Prop) : Prop where
  contains : ∀ key, asked key → s.table.contains key = .ok (s.counts key).isSome
  stored : ∀ key, asked key → s.table.stored key = s.counts key
  apart : ∀ i < s.table.numBuckets, ∀ j < s.table.numBuckets, i ≠ j →
    ∀ k < (s.table.buckets i).pairs.length, ∀ l < (s.table.buckets j).pairs.length,
      (s.table.buckets i).pairs.address k ≠ (s.table.buckets j).pairs.address l

/-- The table files what is counted. -/
structure KeepsBooks (s : Marks) (b : Buckets Nat MarkTable.bucketOf) : Prop where
  files : s.table.Files b
  counts : ∀ key, s.counts key = b.lookup key

variable {s s' : Marks} {pager : Pager} {b : Buckets Nat MarkTable.bucketOf}

private theorem KeepsBooks.inside_iff (books : s.KeepsBooks b) (key : Key) :
    Inside s.table key ↔ MarkTable.bucketOf key < 1024 := by
  rw [Inside, books.files.bucketIndex, books.files.count]

theorem KeepsBooks.serves (books : s.KeepsBooks b) {r : MarkRequest} (meets : s.Meets r) :
    ∃ s', s.serve pager r = some s' ∧ ∃ b', s'.KeepsBooks b' := by
  obtain ⟨permits, suits⟩ := meets
  cases r with
  | insert key =>
    have inside := (books.inside_iff key).mp suits.1
    have fresh : b.lookup key = none := by
      have denied := (books.files.contains inside).symm.trans permits
      simpa using denied
    obtain ⟨ran, files⟩ := books.files.insert inside
      (books.files.bucketIndex key ▸ suits.2) fresh
    refine ⟨_, by rw [serve, ran], _, files, fun key' => ?_⟩
    rw [Buckets.lookup_insert, ← books.counts]
    exact Function.update_apply ..
  | increase key => exact suits.elim
  | rehash => exact suits.elim

/-- From a new table on, in every run whose steps meet the condition, the table is a
map of counters on the keys whose bucket lies inside it, and the next request that
meets the condition is served. -/
theorem markTable_keepsCounts {m m' : Machine} {t : MarkTable}
    (made : MarkTable.new pager m = .ok t m')
    (run : Relation.ReflTransGen (Step pager Meets) ⟨m', t, fun _ => none⟩ s) :
    s.KeepsCounts (Inside s.table) ∧ ∀ r, s.Meets r → (s.serve pager r).isSome := by
  have start : (Marks.mk m' t fun _ => none).KeepsBooks (Buckets.empty Nat MarkTable.bucketOf) :=
    ⟨MarkTable.files_of_new made, fun key => (Buckets.lookup_empty key).symm⟩
  obtain ⟨⟨b, books⟩, served⟩ := Requests.Run.keeps_serving
    (show Requests.Run (serve pager) Meets _ _ from run) (I :=
      fun s => ∃ b, s.KeepsBooks b) ⟨_, start⟩
    fun _ _ ⟨_, books⟩ meets => books.serves meets
  refine ⟨⟨fun key inside => ?_, fun key inside => ?_,
    fun i belowI j belowJ other k inI l inJ => ?_⟩,
    served⟩
  · rw [books.files.contains ((books.inside_iff key).mp inside), books.counts]
  · rw [books.files.stored ((books.inside_iff key).mp inside), books.counts]
  · rw [books.files.count] at belowI belowJ
    rw [books.files.slots i belowI] at inI ⊢
    rw [books.files.slots j belowJ] at inJ ⊢
    simp only [PairSlice.address] at *
    omega

section Samples

open Pager

private theorem plainTable : ∃ t m', MarkTable.new plainPager plainMachine = .ok t m' := by
  have ran : (match MarkTable.mapWindows plainPager plainMachine with
    | .ok _ m => (match (NodeAllocator.allocZeroUnwrap m.allocator 1).value with
      | .ok _ => true
      | .error _ => false)
    | .error _ _ => false) = true := by decide +kernel
  cases mapped : MarkTable.mapWindows plainPager plainMachine with
  | error e m' =>
    rw [mapped] at ran
    cases ran
  | ok mb m₁ =>
    rw [mapped] at ran
    cases page : (NodeAllocator.allocZeroUnwrap m₁.allocator 1).value with
    | error e =>
      simp only [page] at ran
      cases ran
    | ok taken => exact MarkTable.new_returns mapped page

/-- The keys 0, 1 and 6 have the first bucket, the key 2 the one behind the last. -/
example : MarkTable.bucketOf 0 = 0 ∧ MarkTable.bucketOf 1 = 0 ∧ MarkTable.bucketOf 6 = 0 ∧
    MarkTable.bucketOf 2 = 1024 := by decide

theorem insert_first {m : Machine} {t : MarkTable} (files : t.Files
    (Buckets.empty Nat MarkTable.bucketOf)) :
    Meets ⟨m, t, fun _ => none⟩ (.insert 0) := by
  have inside : MarkTable.bucketOf 0 < 1024 := by decide
  have index := files.bucketIndex 0
  refine ⟨files.contains inside, ?_, ?_⟩
  · rw [Inside, index, files.count]
    exact inside
  · -- an empty bucket is not full
    have none : (t.buckets (MarkTable.bucketOf 0)).used = 0 := by
      have empty := congrArg List.length (files.entries _ inside)
      simpa [MarkTable.entriesOf, Buckets.empty] using empty
    rw [index, MarkTableBucket.isFull, none, files.slots _ inside]
    rfl

/-- One key is inserted. -/
theorem markTable_keepsCounts_plain : ∃ t m' s,
    MarkTable.new plainPager plainMachine = .ok t m' ∧
      Relation.ReflTransGen (Step plainPager Meets) ⟨m', t, fun _ => none⟩ s ∧
      s.counts 0 = some 1 ∧ s.KeepsCounts (Inside s.table) := by
  obtain ⟨t, m', made⟩ := plainTable
  have meets := insert_first (m := m') (MarkTable.files_of_new made)
  obtain ⟨s, served⟩ := Option.isSome_iff_exists.mp
    ((markTable_keepsCounts made .refl).2 _ meets)
  have run : Relation.ReflTransGen (Step plainPager Meets) ⟨m', t, fun _ => none⟩ s :=
    .single ⟨_, meets, served⟩
  refine ⟨t, m', s, made, run, ?_, (markTable_keepsCounts made run).1⟩
  have room := meets.2.2
  rw [(MarkTable.files_of_new made).bucketIndex] at room
  obtain ⟨ran, _⟩ := (MarkTable.files_of_new made).insert (by decide) room
    (Buckets.lookup_empty (0 : Key))
  rw [serve, ran] at served
  cases served
  change Function.update (fun _ : Key => (none : Option Nat)) 0 (some 1) 0 = some 1
  rw [Function.update_self]

/-- A count that is raised stays one, and the bucket of the key 2 lies behind the table. -/
theorem markTable_not_keepsCounts : ∃ t m' s,
    MarkTable.new plainPager plainMachine = .ok t m' ∧
      Relation.ReflTransGen (Step plainPager Permits) ⟨m', t, fun _ => none⟩ s ∧
      ¬s.KeepsCounts (Inside s.table) ∧ s.table.contains 2 = .error .panic := by
  obtain ⟨t, m', made⟩ := plainTable
  have files := MarkTable.files_of_new made
  have inside : MarkTable.bucketOf 0 < 1024 := by decide
  have meets := insert_first (m := m') files
  have room := meets.2.2
  rw [files.bucketIndex] at room
  have fresh : (Buckets.empty Nat MarkTable.bucketOf).lookup 0 = none := Buckets.lookup_empty 0
  obtain ⟨ran, files'⟩ := files.insert inside room fresh
  have filed : ((Buckets.empty Nat MarkTable.bucketOf).insert 0 1 fresh).lookup 0 = some 1 := by
    rw [Buckets.lookup_insert, if_pos rfl]
  obtain ⟨ret, raised⟩ := files'.increase inside (by
    intro e member
    simp only [Buckets.insert, Buckets.empty, Function.update_self, List.nil_append,
      List.mem_singleton] at member
    rw [member]
    decide)
  have affirmed := files'.contains inside
  rw [filed] at affirmed
  have first : Step plainPager Permits ⟨m', t, fun _ => none⟩
      ⟨m', t.appended (MarkTable.bucketOf 0) (0, 1), Function.update (fun _ => none) 0 (some 1)⟩ :=
    ⟨.insert 0, meets.1, by rw [serve, ran]⟩
  have second : Step plainPager Permits
      ⟨m', t.appended (MarkTable.bucketOf 0) (0, 1), Function.update (fun _ => none) 0 (some 1)⟩
      ⟨m', t.appended (MarkTable.bucketOf 0) (0, 1), Function.update
        (Function.update (fun _ => none) 0 (some 1)) 0 (some 2)⟩ :=
    ⟨.increase 0, affirmed, by
      rw [serve, raised]
      simp only [Function.update_self, Option.map_some]⟩
  refine ⟨t, m', _, made, .tail (.single first) second, fun books => ?_, ?_⟩
  · have stored := books.stored 0
      (by rw [Inside, files'.bucketIndex, files'.count]; exact inside)
    rw [files'.stored inside, filed] at stored
    simp at stored
  · rw [MarkTable.contains, files'.bucketIndex, MarkTable.bucket, if_neg]
    · rfl
    · rw [files'.count]
      decide

end Samples

end Marks

end EmkKernel
