import EmkKernel.Drivers.NvmePrp
import EmkKernel.Memory.Alloc

/-!
# The pages that the controller is given

Up to 512 pages behind the first fit on one list page. Longer transfers get tables of 511
pages each; what is left over goes to one entry of a page that was not allocated, so the
chain is only right when nothing is left over.
-/

namespace EmkKernel

/-- The words of memory after some stores. -/
def storeAll (words : Nat → Nat) (stores : List (Nat × Nat)) : Nat → Nat :=
  stores.foldl (fun words store => Function.update words store.1 store.2) words

theorem storeAll_eq {words : Nat → Nat} {stores : List (Nat × Nat)} {a v : Nat}
    (same : ∀ v', (a, v') ∈ stores → v' = v) (stored : (a, v) ∈ stores ∨ words a = v) :
    storeAll words stores a = v := by
  induction stores generalizing words with
  | nil => exact stored.resolve_left List.not_mem_nil
  | cons store rest ih =>
    obtain ⟨b, w⟩ := store
    refine @ih (Function.update words b w)
      (fun v' member => same v' (List.mem_cons_of_mem _ member)) ?_
    by_cases here : a = b
    · right
      rw [← here, Function.update_self]
      exact same w (by rw [here]; exact List.mem_cons_self ..)
    · rw [Function.update_of_ne here]
      refine stored.imp_left fun member => ?_
      exact (List.mem_cons.1 member).resolve_left fun first => here (Prod.mk.inj first).1

/-- The controller reads a list that starts a page: when it is too long for one page, the last
entry points to the next one. -/
def readList (words : Nat → Nat) (list n : Nat) : List Nat :=
  if n ≤ 512 then (List.range n).map fun j => words (list + 8 * j)
  else ((List.range 511).map fun j => words (list + 8 * j)) ++
    readList words (words (list + 8 * 511)) (n - 511)
  termination_by n

/-- The pages behind the first that a transfer touches. -/
def pagesBehind (bytes address : Nat) : Nat :=
  (address % 0x1000 + bytes - 1) / 0x1000

namespace Prps

variable (r : Prps)

/-- The pages that the controller uses for a transfer: the rest of the first page, and then the
second pointer as a page or as a list. -/
def read (words : Nat → Nat) (bytes : Nat) : List Nat :=
  let n := pagesBehind bytes r.prp1
  r.prp1 :: if n = 0 then [] else if n = 1 then [r.prp2] else readList words r.prp2 n

/-- The pointers are right for a transfer, wherever the memory started. -/
structure Denotes (words : Nat → Nat) (bytes address : Nat) : Prop where
  pages : r.read (storeAll words r.stores) bytes = address ::
    (List.range (pagesBehind bytes address)).map fun k =>
      address / 0x1000 * 0x1000 + (k + 1) * 0x1000
  inside : ∀ store ∈ r.stores, ∃ mb, r.list = some mb ∧
    mb.base ≤ store.1 ∧ store.1 + 8 ≤ mb.endAddress
  starts : ∀ mb, r.list = some mb → r.prp2 = mb.base ∧ mb.base % 0x1000 = 0
  chained : ∀ mb, r.list = some mb → ∀ i, 511 * i + 512 < pagesBehind bytes address →
    storeAll words r.stores (mb.base + i * 0x1000 + 8 * 511) = mb.base + (i + 1) * 0x1000

end Prps

/-! ## The loops -/

private theorem sumU64_some {a b c : Nat} (sum : sumU64 a b = some c) : c = a + b := by
  unfold sumU64 at sum
  split at sum
  · exact (Option.some.inj sum).symm
  · cases sum

namespace NVMeController

private theorem writeEntries_spec {array alignedAddress j n : Nat} {w : List (Nat × Nat) × Nat}
    (ran : writeEntries array alignedAddress j n = some w) :
    (∀ a v, (a, v) ∈ w.1 ↔ ∃ k < n, a = array + 8 * (j + k) ∧ v = alignedAddress + k * 0x1000) ∧
      w.2 = alignedAddress + n * 0x1000 := by
  induction n generalizing alignedAddress j w with
  | zero =>
    cases ran
    simp
  | succ n ih =>
    simp only [writeEntries, Option.bind_eq_bind, Option.bind_eq_some_iff, Option.some.injEq] at ran
    obtain ⟨next, sum, rest, later, rfl⟩ := ran
    obtain ⟨stores, behind⟩ := ih later
    have next_eq := sumU64_some sum
    refine ⟨fun a v => ?_, by rw [behind, next_eq]; omega⟩
    rw [List.mem_cons, Prod.mk.injEq, stores]
    constructor
    · rintro (⟨rfl, rfl⟩ | ⟨k, below, rfl, rfl⟩)
      · exact ⟨0, Nat.succ_pos n, by omega, by omega⟩
      · exact ⟨k + 1, by omega, by omega, by omega⟩
    · rintro ⟨k, below, rfl, rfl⟩
      cases k with
      | zero => exact Or.inl ⟨by omega, by omega⟩
      | succ k => exact Or.inr ⟨k, by omega, by omega, by omega⟩

/-- The stores to the tables: 511 pages, and a pointer to what lies behind the table. -/
def TableStore (baseAddress alignedAddress depth a v : Nat) : Prop :=
  ∃ i < depth, (∃ k < 511, a = baseAddress + i * 0x1000 + 8 * k ∧
      v = alignedAddress + (511 * i + k) * 0x1000) ∨
    (a = baseAddress + i * 0x1000 + 8 * 511 ∧ v = baseAddress + (i + 1) * 0x1000)

private theorem tableStore_succ {baseAddress alignedAddress depth a v : Nat} :
    TableStore baseAddress alignedAddress (depth + 1) a v ↔
      (∃ k < 511, a = baseAddress + 8 * k ∧ v = alignedAddress + k * 0x1000) ∨
      (a = baseAddress + 8 * 511 ∧ v = baseAddress + 0x1000) ∨
      TableStore (baseAddress + 0x1000) (alignedAddress + 511 * 0x1000) depth a v := by
  constructor
  · rintro ⟨i, below, place⟩
    cases i with
    | zero =>
      rcases place with ⟨k, small, rfl, rfl⟩ | ⟨rfl, rfl⟩
      · exact Or.inl ⟨k, small, by omega, by omega⟩
      · exact Or.inr (Or.inl ⟨by omega, by omega⟩)
    | succ i =>
      refine Or.inr (Or.inr ⟨i, by omega, ?_⟩)
      rcases place with ⟨k, small, rfl, rfl⟩ | ⟨rfl, rfl⟩
      · exact Or.inl ⟨k, small, by omega, by omega⟩
      · exact Or.inr ⟨by omega, by omega⟩
  · rintro (⟨k, small, rfl, rfl⟩ | ⟨rfl, rfl⟩ | ⟨i, below, place⟩)
    · exact ⟨0, Nat.succ_pos depth, Or.inl ⟨k, small, by omega, by omega⟩⟩
    · exact ⟨0, Nat.succ_pos depth, Or.inr ⟨by omega, by omega⟩⟩
    · refine ⟨i + 1, by omega, ?_⟩
      rcases place with ⟨k, small, rfl, rfl⟩ | ⟨rfl, rfl⟩
      · exact Or.inl ⟨k, small, by omega, by omega⟩
      · exact Or.inr ⟨by omega, by omega⟩

private theorem writeTables_spec {baseAddress alignedAddress depth : Nat}
    {w : List (Nat × Nat) × Nat × Nat}
    (ran : writeTables baseAddress alignedAddress depth = some w) :
    (∀ a v, (a, v) ∈ w.1 ↔ TableStore baseAddress alignedAddress depth a v) ∧
      w.2.1 = baseAddress + depth * 0x1000 ∧
      w.2.2 = alignedAddress + 511 * depth * 0x1000 := by
  induction depth generalizing baseAddress alignedAddress w with
  | zero =>
    cases ran
    simp [TableStore]
  | succ depth ih =>
    simp only [writeTables, Option.bind_eq_bind, Option.bind_eq_some_iff, Option.some.injEq] at ran
    obtain ⟨entries, first, next, sum, rest, later, rfl⟩ := ran
    obtain ⟨stores, behind⟩ := writeEntries_spec first
    have next_eq := sumU64_some sum
    rw [behind, next_eq] at later
    obtain ⟨tables, table, page⟩ := ih later
    refine ⟨fun a v => ?_, by rw [table]; omega, by rw [page]; omega⟩
    rw [List.mem_append, List.mem_cons, Prod.mk.injEq, stores, tables, tableStore_succ, next_eq]
    simp only [Nat.zero_add]

private theorem writeLast_first {array n alignedAddress count : Nat} {stores : List (Nat × Nat)}
    (ran : writeLast array n alignedAddress (count + 1) = some stores) :
    (array + 8 * n, alignedAddress) ∈ stores := by
  simp only [writeLast, Option.bind_eq_bind, Option.bind_eq_some_iff, Option.some.injEq] at ran
  obtain ⟨next, _, rest, _, rfl⟩ := ran
  exact List.mem_cons_self ..

/-- The test for a last table with 512 entries never succeeds. -/
theorem tablesFor_eq {p : Nat} (long : 512 < p) : tablesFor p = (p / 511, p % 511) := by
  have rounded : 511 * (p - 511) / 511 = p - 511 := Nat.mul_div_cancel_left _ (by decide)
  have parts := Nat.div_add_mod p 511
  unfold tablesFor
  rw [rounded, if_neg (by omega)]
  refine Prod.ext rfl ?_
  simp only
  omega

/-- No word of the tables gets two values. -/
theorem tableStore_functional {baseAddress alignedAddress depth a v v' : Nat}
    (first : TableStore baseAddress alignedAddress depth a v)
    (second : TableStore baseAddress alignedAddress depth a v') : v' = v := by
  obtain ⟨i, _, place⟩ := first
  obtain ⟨i', _, place'⟩ := second
  rcases place with ⟨k, small, rfl, rfl⟩ | ⟨rfl, rfl⟩
  · rcases place' with ⟨k', small', address, rfl⟩ | ⟨address, rfl⟩
    · have same : i' = i := by omega
      subst same
      omega
    · omega
  · rcases place' with ⟨k', small', address, rfl⟩ | ⟨address, rfl⟩
    · omega
    · omega

end NVMeController

/-! ## What the controller reads -/

private theorem readList_short {words : Nat → Nat} {list n aligned : Nat} (short : n ≤ 512)
    (entries : ∀ k < n, words (list + 8 * k) = aligned + k * 0x1000) :
    readList words list n = (List.range n).map fun k => aligned + k * 0x1000 := by
  rw [readList, if_pos short]
  exact List.map_congr_left fun k member => entries k (List.mem_range.1 member)

/-- Tables of 511 pages are read one after another; the pointer of the last one is not used. -/
theorem readList_tables {words : Nat → Nat} {list aligned depth : Nat}
    (entries : ∀ i ≤ depth, ∀ k < 511,
      words (list + i * 0x1000 + 8 * k) = aligned + (511 * i + k) * 0x1000)
    (pointers : ∀ i < depth, words (list + i * 0x1000 + 8 * 511) = list + (i + 1) * 0x1000) :
    readList words list (511 * (depth + 1)) =
      (List.range (511 * (depth + 1))).map fun k => aligned + k * 0x1000 := by
  induction depth generalizing list aligned with
  | zero =>
    refine readList_short (by decide) fun k below => ?_
    have entry := entries 0 (Nat.le_refl 0) k (by omega)
    simpa using entry
  | succ depth ih =>
    have next := pointers 0 (Nat.succ_pos depth)
    simp only [Nat.zero_mul, Nat.add_zero, Nat.zero_add, Nat.one_mul] at next
    rw [readList, if_neg (by omega), next,
      show 511 * (depth + 1 + 1) - 511 = 511 * (depth + 1) by omega]
    rw [@ih (list + 0x1000) (aligned + 511 * 0x1000)]
    · rw [show 511 * (depth + 1 + 1) = 511 + 511 * (depth + 1) by omega, List.range_add,
        List.map_append, List.map_map]
      refine congrArg₂ (· ++ ·) ?_ ?_
      · refine List.map_congr_left fun k member => ?_
        have entry := entries 0 (Nat.zero_le _) k (List.mem_range.1 member)
        simpa using entry
      · refine List.map_congr_left fun k _ => ?_
        simp only [Function.comp_apply]
        omega
    · intro i below k small
      have entry := entries (i + 1) (by omega) k small
      rw [show list + 0x1000 + i * 0x1000 = list + (i + 1) * 0x1000 by omega, entry]
      omega
    · intro i below
      have pointer := pointers (i + 1) (by omega)
      rw [show list + 0x1000 + i * 0x1000 = list + (i + 1) * 0x1000 by omega, pointer]
      omega

/-! ## The encodings -/

namespace NVMeController

variable {allocator allocator' : Allocator} {bytes address : Nat} {r : Prps}

/-- The block of a list page or of the tables. -/
structure Granted (pages : Nat) (mb : MemoryBlock) : Prop where
  aligned : mb.base % 0x1000 = 0
  length : mb.length = pages * 0x1000

private theorem granted_of_alloc {pages : Nat} {mb : MemoryBlock}
    (aligned : allocator.addend % 0x1000 = 0)
    (returned : (allocator.alloc pages).value = (.ok mb, allocator')) : Granted pages mb := by
  obtain ⟨_, k, _, _, rfl, _⟩ := allocator.alloc_ok returned
  refine ⟨?_, rfl⟩
  simp only
  omega

/-- How many pages lie behind the first decides the encoding. -/
inductive Encoded (bytes address : Nat) (r : Prps) : Prop where
  | one : pagesBehind bytes address = 0 → r = ⟨address, 0, none, []⟩ → Encoded bytes address r
  | two : pagesBehind bytes address = 1 →
      r = ⟨address, address / 0x1000 * 0x1000 + 0x1000, none, []⟩ → Encoded bytes address r
  | list {table : MemoryBlock} {written : List (Nat × Nat) × Nat} :
      2 ≤ pagesBehind bytes address → pagesBehind bytes address ≤ 512 → Granted 1 table →
      writeEntries table.base (address / 0x1000 * 0x1000 + 0x1000) 0 (pagesBehind bytes address) =
        some written →
      r = ⟨address, table.base, some table, written.1⟩ → Encoded bytes address r
  | tables {tables : MemoryBlock} {written : List (Nat × Nat) × Nat × Nat}
      {last : List (Nat × Nat)} :
      512 < pagesBehind bytes address →
      Granted (pagesBehind bytes address / 511 % 2 ^ 16) tables →
      writeTables tables.base (address / 0x1000 * 0x1000 + 0x1000)
        (pagesBehind bytes address / 511) = some written →
      writeLast written.2.1 (pagesBehind bytes address % 511) written.2.2
        (pagesBehind bytes address % 511) = some last →
      r = ⟨address, tables.base, some tables, written.1 ++ last⟩ → Encoded bytes address r

private theorem constructPrp_encoded (aligned : allocator.addend % 0x1000 = 0)
    (some_bytes : 0 < bytes) (ran : constructPrp allocator bytes address = some (r, allocator')) :
    Encoded bytes address r := by
  have small := Nat.mod_lt address (show 0 < 0x1000 by decide)
  unfold constructPrp at ran
  simp only [gt_iff_lt, ge_iff_le] at ran
  split at ran
  · rename_i more
    split at ran
    · rename_i second
      simp only [Option.bind_eq_bind, Option.bind_eq_some_iff, Option.some.injEq,
        Prod.mk.injEq] at ran
      obtain ⟨prp2, sum, rfl, _⟩ := ran
      refine .two ?_ (by rw [sumU64_some sum])
      unfold pagesBehind
      omega
    · rename_i third
      -- the pages of the list are all the pages behind the first
      have count : (bytes - (0x1000 - address % 0x1000)) / 0x1000 +
          (if (bytes - (0x1000 - address % 0x1000)) % 0x1000 ≠ 0 then 1 else 0) =
          pagesBehind bytes address := by
        unfold pagesBehind
        split <;> omega
      have several : 2 ≤ pagesBehind bytes address := by
        unfold pagesBehind
        omega
      rw [count, Option.bind_eq_bind, Option.bind_eq_some_iff] at ran
      obtain ⟨next, sum, ran⟩ := ran
      rw [sumU64_some sum] at ran
      split at ran
      · rename_i long
        rw [tablesFor_eq long] at ran
        split at ran
        · cases ran
        · rename_i tables _ returned
          simp only [Option.bind_eq_bind, Option.bind_eq_some_iff, Option.some.injEq,
            Prod.mk.injEq] at ran
          obtain ⟨written, first, last, behind, rfl, _⟩ := ran
          exact .tables long (granted_of_alloc aligned returned) first behind rfl
      · rename_i short
        split at ran
        · cases ran
        · rename_i table _ returned
          simp only [Option.bind_eq_bind, Option.bind_eq_some_iff, Option.some.injEq,
            Prod.mk.injEq] at ran
          obtain ⟨written, first, rfl, _⟩ := ran
          exact .list several (Nat.le_of_not_lt short) (granted_of_alloc aligned returned) first rfl
  · rename_i fits
    simp only [Option.some.injEq, Prod.mk.injEq] at ran
    refine .one ?_ ran.1.symm
    unfold pagesBehind
    omega

/-- One page needs no second pointer, and two pages need no list. -/
theorem denotes_one (words : Nat → Nat) (none_behind : pagesBehind bytes address = 0) :
    Prps.Denotes ⟨address, 0, none, []⟩ words bytes address := by
  refine ⟨?_, fun store member => absurd member List.not_mem_nil, fun _ absent => ?_,
    fun _ absent => ?_⟩
  · simp [Prps.read, none_behind]
  · cases absent
  · cases absent

private theorem denotes_two (words : Nat → Nat) (one_behind : pagesBehind bytes address = 1) :
    Prps.Denotes ⟨address, address / 0x1000 * 0x1000 + 0x1000, none, []⟩ words bytes address := by
  refine ⟨?_, fun store member => absurd member List.not_mem_nil, fun _ absent => ?_,
    fun _ absent => ?_⟩
  · simp [Prps.read, one_behind]
  · cases absent
  · cases absent

private theorem denotes_list {table : MemoryBlock} {written : List (Nat × Nat) × Nat}
    (words : Nat → Nat)
    (several : 2 ≤ pagesBehind bytes address) (short : pagesBehind bytes address ≤ 512)
    (granted : Granted 1 table)
    (ran : writeEntries table.base (address / 0x1000 * 0x1000 + 0x1000) 0
      (pagesBehind bytes address) = some written) :
    Prps.Denotes ⟨address, table.base, some table, written.1⟩ words bytes address := by
  have stores := (writeEntries_spec ran).1
  refine ⟨?_, ?_, ?_, ?_⟩
  · simp only [Prps.read]
    rw [if_neg (by omega), if_neg (by omega),
      @readList_short _ _ _ (address / 0x1000 * 0x1000 + 0x1000) short]
    · refine congrArg _ (List.map_congr_left fun k _ => ?_)
      omega
    · intro k below
      refine storeAll_eq (fun v' member => ?_) (Or.inl ((stores _ _).2 ⟨k, below, by omega, rfl⟩))
      obtain ⟨k', _, place, value⟩ := (stores _ _).1 member
      have same : k' = k := by omega
      rw [value, same]
  · intro store member
    obtain ⟨k, below, place, _⟩ := (stores store.1 store.2).1 member
    have length := granted.length
    refine ⟨table, rfl, by omega, ?_⟩
    simp only [MemoryBlock.endAddress]
    omega
  · intro mb same
    obtain rfl := Option.some.inj same
    exact ⟨rfl, granted.aligned⟩
  · intro mb _ i full
    omega

private theorem denotes_tables {tables : MemoryBlock} {written : List (Nat × Nat) × Nat × Nat}
    (words : Nat → Nat) (whole : pagesBehind bytes address % 511 = 0)
    (long : 512 < pagesBehind bytes address) (few : pagesBehind bytes address / 511 < 2 ^ 16)
    (granted : Granted (pagesBehind bytes address / 511 % 2 ^ 16) tables)
    (ran : writeTables tables.base (address / 0x1000 * 0x1000 + 0x1000)
      (pagesBehind bytes address / 511) = some written) :
    Prps.Denotes ⟨address, tables.base, some tables, written.1⟩ words bytes address := by
  have stores := (writeTables_spec ran).1
  have parts := Nat.div_add_mod (pagesBehind bytes address) 511
  have length := granted.length
  rw [Nat.mod_eq_of_lt few] at length
  -- a store determines the word at its address
  have stored : ∀ a v, TableStore tables.base (address / 0x1000 * 0x1000 + 0x1000)
      (pagesBehind bytes address / 511) a v → storeAll words written.1 a = v := by
    intro a v store
    refine storeAll_eq (fun v' member => ?_) (Or.inl ((stores a v).2 store))
    exact tableStore_functional store ((stores a v').1 member)
  refine ⟨?_, ?_, ?_, ?_⟩
  · obtain ⟨depth, count⟩ : ∃ depth, pagesBehind bytes address = 511 * (depth + 1) :=
      ⟨pagesBehind bytes address / 511 - 1, by omega⟩
    have tables_count : pagesBehind bytes address / 511 = depth + 1 := by omega
    simp only [Prps.read]
    rw [if_neg (by omega), if_neg (by omega), count,
      @readList_tables _ _ (address / 0x1000 * 0x1000 + 0x1000)]
    · refine congrArg _ (List.map_congr_left fun k _ => ?_)
      omega
    · intro i below k small
      exact stored _ _ ⟨i, by omega, Or.inl ⟨k, small, rfl, rfl⟩⟩
    · intro i below
      exact stored _ _ ⟨i, by omega, Or.inr ⟨rfl, rfl⟩⟩
  · intro store member
    obtain ⟨i, below, place⟩ := (stores store.1 store.2).1 member
    refine ⟨tables, rfl, ?_⟩
    simp only [MemoryBlock.endAddress]
    rcases place with ⟨k, small, place, _⟩ | ⟨place, _⟩
    · omega
    · omega
  · intro mb same
    obtain rfl := Option.some.inj same
    exact ⟨rfl, granted.aligned⟩
  · intro mb same i full
    obtain rfl := Option.some.inj same
    exact stored _ _ ⟨i, by omega, Or.inr ⟨rfl, rfl⟩⟩

/-- A rest behind the tables is stored behind the block, and so is a table that the cast of
their number to `u16` left out. -/
theorem inside_tables {tables : MemoryBlock} {written : List (Nat × Nat) × Nat × Nat}
    {last : List (Nat × Nat)}
    (granted : Granted (pagesBehind bytes address / 511 % 2 ^ 16) tables)
    (first : writeTables tables.base (address / 0x1000 * 0x1000 + 0x1000)
      (pagesBehind bytes address / 511) = some written)
    (behind : writeLast written.2.1 (pagesBehind bytes address % 511) written.2.2
      (pagesBehind bytes address % 511) = some last)
    (inside : ∀ store ∈ written.1 ++ last, tables.base ≤ store.1 ∧
      store.1 + 8 ≤ tables.endAddress) :
    pagesBehind bytes address % 511 = 0 ∧ pagesBehind bytes address / 511 < 2 ^ 16 := by
  obtain ⟨stores, table, _⟩ := writeTables_spec first
  have length := granted.length
  have cast_le := Nat.mod_le (pagesBehind bytes address / 511) (2 ^ 16)
  simp only [MemoryBlock.endAddress, length] at inside
  constructor
  · cases rest : pagesBehind bytes address % 511 with
    | zero => rfl
    | succ n =>
      rw [rest] at behind
      have outside := inside _ (List.mem_append_right _ (writeLast_first behind))
      rw [table] at outside
      simp only at outside
      omega
  · by_contra many
    have cast_lt := Nat.mod_lt (pagesBehind bytes address / 511) (show 0 < 2 ^ 16 by decide)
    have store := (stores _ _).2 ⟨pagesBehind bytes address / 511 % 2 ^ 16, by omega,
      Or.inl ⟨0, by decide, rfl, rfl⟩⟩
    have outside := inside _ (List.mem_append_left _ store)
    simp only at outside
    omega

/-- The pointers are right for transfers with at most 512 pages behind the first, and for those
that fill all their tables. -/
theorem constructPrp_denotes_iff (words : Nat → Nat) (aligned : allocator.addend % 0x1000 = 0)
    (some_bytes : 0 < bytes) (ran : constructPrp allocator bytes address = some (r, allocator')) :
    r.Denotes words bytes address ↔ pagesBehind bytes address ≤ 512 ∨
      pagesBehind bytes address % 511 = 0 ∧ pagesBehind bytes address / 511 < 2 ^ 16 := by
  cases constructPrp_encoded aligned some_bytes ran with
  | one none_behind same =>
    rw [same]
    exact iff_of_true (denotes_one words none_behind) (Or.inl (by omega))
  | two one_behind same =>
    rw [same]
    exact iff_of_true (denotes_two words one_behind) (Or.inl (by omega))
  | list several short granted stored same =>
    rw [same]
    exact iff_of_true (denotes_list words several short granted stored) (Or.inl short)
  | @tables mb written last long granted first behind same =>
    constructor
    · intro denotes
      refine Or.inr (inside_tables granted first behind fun store member => ?_)
      rw [same] at denotes
      obtain ⟨_, listed, place⟩ := denotes.inside store member
      obtain rfl := Option.some.inj listed
      exact place
    · rintro (short | ⟨whole, few⟩)
      · omega
      · rw [whole] at behind
        cases behind
        rw [same, List.append_nil]
        exact denotes_tables words whole long few granted first

/-- Some pages for lists. -/
def listAllocator : Allocator := ⟨fun _ => 0, 1, 0, 0x100000, 0⟩

/-- Six pages, from the middle of the first one on. -/
theorem constructPrp_denotes_six : ∃ r a, constructPrp listAllocator 0x5000 0x10200 = some (r, a) ∧
    r.Denotes (fun _ => 0) 0x5000 0x10200 := by
  have returns : (constructPrp listAllocator 0x5000 0x10200).isSome = true := by decide +kernel
  obtain ⟨⟨r, a⟩, ran⟩ := Option.isSome_iff_exists.1 returns
  exact ⟨r, a, ran, (constructPrp_denotes_iff (fun _ => 0) rfl (by decide) ran).2
    (Or.inl (by decide))⟩

/-- 514 pages need two list pages: one is allocated, and a store goes behind it. -/
theorem constructPrp_outside : ∃ r a,
    constructPrp listAllocator (514 * 0x1000) 0x400000 = some (r, a) ∧
      ¬r.Denotes (fun _ => 0) (514 * 0x1000) 0x400000 := by
  have seen : (constructPrp listAllocator (514 * 0x1000) 0x400000).any (fun result =>
      result.1.list = some ⟨0x100000, 0x1000⟩ &&
        result.1.stores.contains (0x101010, 0x400000 + 512 * 0x1000)) = true := by
    decide +kernel
  obtain ⟨⟨r, a⟩, ran, found⟩ := (Option.any_eq_true _ _).1 seen
  simp only [Bool.and_eq_true, decide_eq_true_eq, List.contains_iff_mem] at found
  refine ⟨r, a, ran, fun denotes => ?_⟩
  obtain ⟨mb, listed, _, below⟩ := denotes.inside _ found.2
  rw [found.1, Option.some.injEq] at listed
  rw [← listed] at below
  simp [MemoryBlock.endAddress] at below

end NVMeController

end EmkKernel
