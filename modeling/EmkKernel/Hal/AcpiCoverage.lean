import EmkKernel.Hal.AcpiTables

/-!
# Which ACPI tables are covered

Pages are counted from the start of the page that a table starts in by its length alone, so
a table that crosses one more page is not covered; RSDP, RSDT and DSDT get one page each.
The room for the records is counted without the DSDT, and a record is found by its
identifier only when it is the first one with it.
-/

namespace EmkKernel

open EStateM Pager

namespace AcpiTables

variable {σ : Type} {calls : PagingCalls σ} {memory : Nat → Byte} {rsdp : Nat}

/-! ## The tables and the pages that are mapped for them -/

section Plan

variable (memory)

def tableAt (dt : Nat) : AcpiTable :=
  ⟨.ofSignature (littleEndian memory dt 4), dt, littleEndian memory (dt + 4) 4⟩

def dsdtOf (fadt : Nat) : AcpiTable :=
  ⟨.dsdt, littleEndian memory (fadt + 40) 4,
    littleEndian memory (littleEndian memory (fadt + 40) 4 + 4) 4⟩

def IsFadt (dt : Nat) : Prop := littleEndian memory dt 4 = facpSignature

instance (dt : Nat) : Decidable (IsFadt memory dt) := inferInstanceAs (Decidable (_ = _))

/-- A table and, before an FADT, its DSDT. -/
def recordsOf (dt : Nat) : List AcpiTable :=
  (if IsFadt memory dt then [dsdtOf memory dt] else []) ++ [tableAt memory dt]

/-- The pages from the one on that a table starts in, one at least; and one of the DSDT. -/
def pagesOf (dt : Nat) : List Nat :=
  pageAlign dt :: ((List.range' 1 (pagesFor (tableAt memory dt).length - 1)).map
    fun i => pageAlign dt + i * 0x1000) ++
    if IsFadt memory dt then [pageAlign (dsdtOf memory dt).ptr] else []

def rsdtOf (rsdp : Nat) : Nat := littleEndian memory (rsdp + 16) 4

def numTables (rsdp : Nat) : Nat :=
  (littleEndian memory (rsdtOf memory rsdp + 4) 4 - sizeOfRsdt) / 4

/-- The address in an entry of the RSDT. -/
def entryOf (rsdp i : Nat) : Nat := littleEndian memory (entryAddress (rsdtOf memory rsdp) i) 4

/-- The records of the first tables. -/
def recordsBefore (rsdp k : Nat) : List AcpiTable :=
  (List.range k).flatMap fun i => recordsOf memory (entryOf memory rsdp i)

/-- The pages that are mapped before an entry of the RSDT is read. -/
def pagesBefore (rsdp k : Nat) : List Nat :=
  [pageAlign rsdp, pageAlign (rsdtOf memory rsdp)] ++
    (List.range k).flatMap fun i => pagesOf memory (entryOf memory rsdp i)

end Plan

/-- All that is in the RSDT, and the DSDT. -/
def allRecords (memory : Nat → Byte) (rsdp : Nat) : List AcpiTable :=
  recordsBefore memory rsdp (numTables memory rsdp)

/-- Those of them that there is room for: the room is that of a record for each entry of the
RSDT, in whole pages. -/
def firstRecords (memory : Nat → Byte) (rsdp : Nat) : List AcpiTable :=
  (allRecords memory rsdp).take (recordRoom (numTables memory rsdp))

/-- Every byte of the records lies in a page that is mapped at its own address, the entries of
the RSDT lay in such pages when they were read, and every table is recorded once and found
under its identifier. -/
structure Covers (Identity : σ → Nat → Prop) (memory : Nat → Byte) (rsdp : Nat)
    (m : AcpiMachine σ) : Prop where
  tables : ∀ t ∈ m.tables.values, ∀ a, t.ptr ≤ a → a < t.ptr + t.length →
    Identity m.paging (pageAlign a)
  entries : ∀ read ∈ m.entryReads, ∀ a, read.1 ≤ a → a < read.1 + 4 →
    Identity read.2 (pageAlign a)
  found : ∀ t ∈ allRecords memory rsdp, m.tables.values.count t = 1 ∧
    getTable m.tables t.table = some t

/-- The end of the pages that the length of a table alone asks for. -/
def countedEnd (t : AcpiTable) : Nat :=
  pageAlign t.ptr + (if t.table = .dsdt then 1 else max 1 (pagesFor t.length)) * 0x1000

/-- What lies behind the pages counted for a table lies in pages of other tables or in pages
that were mapped before, and what lies behind the first page of the RSDT in those of the
entries before; there is room for all records, and no two have the same identifier. -/
structure Coverable (Mapped : Nat → Prop) (memory : Nat → Byte) (rsdp : Nat) : Prop where
  tables : ∀ t ∈ allRecords memory rsdp, ∀ a, countedEnd t ≤ a → a < t.ptr + t.length →
    pageAlign a ∈ pagesBefore memory rsdp (numTables memory rsdp) ∨ Mapped (pageAlign a)
  entries : ∀ i < numTables memory rsdp, ∀ a, pageAlign (rsdtOf memory rsdp) + 0x1000 ≤ a →
    entryAddress (rsdtOf memory rsdp) i ≤ a → a < entryAddress (rsdtOf memory rsdp) i + 4 →
    pageAlign a ∈ pagesBefore memory rsdp i ∨ Mapped (pageAlign a)
  room : ∀ t ∈ allRecords memory rsdp, t ∈ firstRecords memory rsdp
  distinct : ((firstRecords memory rsdp).map AcpiTable.table).Nodup

/-! ## Paging at the own address -/

/-- The addresses that can be mapped to themselves. -/
def Mappable (p : Nat) : Prop := p < 2 ^ 47 ∧ p % 0x1000 = 0

/-- Exactly these pages are mapped in addition. -/
def Paged (Identity : σ → Nat → Prop) (pages : List Nat) (s s' : σ) : Prop :=
  ∀ q, Mappable q → (Identity s' q ↔ q ∈ pages ∨ Identity s q)

/-- A page that is paged at its own address is mapped there, and all others are as before. -/
structure MapsItself (calls : PagingCalls σ) (Good : σ → Prop) (Identity : σ → Nat → Prop) :
    Prop where
  good : ∀ {s s' p}, Good s → Mappable p →
    calls.page4K p p pagerPresent s = some s' → Good s'
  paged : ∀ {s s' p}, Good s → Mappable p → calls.page4K p p pagerPresent s = some s' →
    Paged Identity [p] s s'

private theorem mappable_pageAlign {a : Nat} (low : a < 2 ^ 47) : Mappable (pageAlign a) := by
  simp only [Mappable, pageAlign]
  omega

variable {Good : σ → Prop} {Identity : σ → Nat → Prop} {s s' s'' : σ}
  {pages pages' : List Nat}

theorem Paged.refl (s : σ) : Paged Identity [] s s := fun q _ => by simp

theorem Paged.trans (first : Paged Identity pages s s') (second : Paged Identity pages' s' s'') :
    Paged Identity (pages ++ pages') s s'' := by
  intro q mappable
  rw [second q mappable, first q mappable, List.mem_append, or_left_comm, or_assoc]

/-- A step of the pager alone, to good states. -/
def Pages (Good : σ → Prop) (Identity : σ → Nat → Prop) (pages : List Nat)
    (m m' : AcpiMachine σ) : Prop :=
  m' = { m with paging := m'.paging } ∧ Good m'.paging ∧ Paged Identity pages m.paging m'.paging

private theorem page4K_pages (law : MapsItself calls Good Identity) {m : AcpiMachine σ}
    (good : Good m.paging) {p : Nat} (mappable : Mappable p) :
    Yields (page4K calls p) m (fun _ m' => Pages Good Identity [p] m m') fun _ _ => True := by
  rw [page4K, yields_bind, yields_get]
  cases ran : calls.page4K p p pagerPresent m.paging with
  | none => trivial
  | some paging => exact ⟨rfl, law.good good mappable ran, law.paged good mappable ran⟩

theorem Pages.trans {m m' m'' : AcpiMachine σ} (first : Pages Good Identity pages m m')
    (second : Pages Good Identity pages' m' m'') :
    Pages Good Identity (pages ++ pages') m m'' := by
  obtain ⟨same, _, paged⟩ := first
  obtain ⟨same', good, paged'⟩ := second
  refine ⟨?_, good, paged.trans paged'⟩
  rw [same', same]

private theorem forM_pages (law : MapsItself calls Good Identity) (address : Nat → Nat)
    {items : List Nat}
    (mappable : ∀ i ∈ items, Mappable (address i)) {m : AcpiMachine σ} (good : Good m.paging) :
    Yields (items.forM fun i => page4K calls (address i)) m
      (fun _ m' => Pages Good Identity (items.map address) m m') fun _ _ => True := by
  induction items generalizing m with
  | nil => exact ⟨rfl, good, Paged.refl _⟩
  | cons i rest ih =>
    change Yields (page4K calls (address i) >>= fun _ => rest.forM _) m _ _
    rw [yields_bind]
    refine (page4K_pages law good (mappable i (List.mem_cons_self ..))).mono ?_ fun _ _ _ => trivial
    intro _ m₁ first
    refine (ih (fun j member => mappable j (List.mem_cons_of_mem _ member)) first.2.1).mono ?_
      fun _ _ _ => trivial
    intro _ m₂ later
    exact first.trans later

/-! ## The loop over the RSDT -/

private theorem entryOf_lt (i : Nat) : entryOf memory rsdp i < 2 ^ 32 := littleEndian_lt memory _ 4

private theorem length_lt (dt : Nat) :
    (tableAt memory dt).length < 2 ^ 32 := littleEndian_lt memory _ 4

theorem mappable_page {dt i : Nat} (low : dt < 2 ^ 32)
    (inside : i ∈ List.range' 1 (pagesFor (tableAt memory dt).length - 1)) :
    Mappable (pageAlign dt + i * 0x1000) := by
  have short := @length_lt memory dt
  have bound := (List.mem_range'_1.1 inside).2
  have pages : pagesFor (tableAt memory dt).length ≤ 1 + (tableAt memory dt).length / 0x1000 := by
    rw [pagesFor]
    split <;> omega
  simp only [Mappable, pageAlign]
  omega

/-- What a step does to the machine besides reading: pages, and records behind the others. -/
structure Records (Good : σ → Prop) (Identity : σ → Nat → Prop) (pages : List Nat)
    (new : List AcpiTable) (m m' : AcpiMachine σ) : Prop where
  good : Good m'.paging
  paged : Paged Identity pages m.paging m'.paging
  reads : m'.entryReads = m.entryReads
  capacity : m'.tables.capacity = m.tables.capacity
  tracks : ∀ ts, m.tables.Tracks ts → m'.tables.Tracks (ts ++ new)

theorem Pages.records {m m' : AcpiMachine σ} (step : Pages Good Identity pages m m') :
    Records Good Identity pages [] m m' := by
  obtain ⟨same, good, paged⟩ := step
  refine ⟨good, paged, by rw [same], by rw [same], fun ts tracks => ?_⟩
  rw [same, List.append_nil]
  exact tracks

theorem Records.trans {new new' : List AcpiTable} {m m' m'' : AcpiMachine σ}
    (first : Records Good Identity pages new m m')
    (second : Records Good Identity pages' new' m' m'') :
    Records Good Identity (pages ++ pages') (new ++ new') m m'' where
  good := second.good
  paged := first.paged.trans second.paged
  reads := second.reads.trans first.reads
  capacity := second.capacity.trans first.capacity
  tracks ts tracks := by
    rw [← List.append_assoc]
    exact second.tracks _ (first.tracks ts tracks)

private theorem pushBack_records {m : AcpiMachine σ} (good : Good m.paging) (t : AcpiTable) :
    Yields (pushBack t) m (fun _ m' => Records Good Identity [] [t] m m') fun _ _ => True := by
  rw [pushBack, yields_modify]
  exact ⟨good, Paged.refl _, rfl, PageAllocator.capacity_pushBack t, fun ts tracks =>
    tracks.pushBack t⟩

private theorem recordDsdt_records (law : MapsItself calls Good Identity) {m : AcpiMachine σ}
    (good : Good m.paging) (fadt : Nat) :
    Yields (recordDsdt calls memory fadt) m
      (fun _ m' => Records Good Identity [pageAlign (dsdtOf memory fadt).ptr]
        [dsdtOf memory fadt] m m')
      fun _ _ => True := by
  have low : littleEndian memory (fadt + 40) 4 < 2 ^ 32 := littleEndian_lt memory _ 4
  rw [recordDsdt, yields_ite]
  split
  · trivial
  · rw [yields_bind]
    refine (page4K_pages law good (mappable_pageAlign (by omega))).mono ?_ fun _ _ _ => trivial
    intro _ m₁ paged
    refine (@pushBack_records _ _ Identity _ paged.2.1 _).mono ?_ fun _ _ _ => trivial
    intro _ m₂ pushed
    exact paged.records.trans pushed

/-- One entry of the RSDT: its table is paged and recorded, after the DSDT if it is an FADT. -/
theorem recordTable_records (law : MapsItself calls Good Identity) {m : AcpiMachine σ}
    (good : Good m.paging) (i : Nat) :
    Yields (recordTable calls memory (rsdtOf memory rsdp) i) m
      (fun _ m' => Records Good Identity (pagesOf memory (entryOf memory rsdp i))
        (recordsOf memory (entryOf memory rsdp i))
        { m with entryReads :=
            m.entryReads ++ [(entryAddress (rsdtOf memory rsdp) i, m.paging)] } m')
      fun _ _ => True := by
  have low := @entryOf_lt memory rsdp i
  rw [recordTable, yields_ite]
  split
  · trivial
  rw [yields_bind, yields_modify, yields_bind]
  have own : Mappable (pageAlign (entryOf memory rsdp i)) := mappable_pageAlign (by omega)
  have start : Good ({ m with entryReads := m.entryReads ++
    [(entryAddress (rsdtOf memory rsdp) i, m.paging)] } : AcpiMachine σ).paging := good
  refine (page4K_pages law start own).mono ?_ fun _ _ _ => trivial
  intro _ m₁ first
  rw [yields_bind]
  refine (forM_pages law _ (fun k inside => mappable_page low inside) first.2.1).mono ?_
    fun _ _ _ => trivial
  intro _ m₂ more
  have paged := first.trans more
  rw [yields_ite]
  split
  · trivial
  -- an FADT is recorded behind its DSDT
  by_cases fadt : IsFadt memory (entryOf memory rsdp i)
  · change Yields (if IsFadt memory (entryOf memory rsdp i) then _ else _) _ _ _
    rw [if_pos fadt, yields_bind]
    refine (recordDsdt_records law paged.2.1 _).mono ?_ fun _ _ _ => trivial
    intro _ m₃ dsdt
    refine (@pushBack_records _ _ Identity _ dsdt.good _).mono ?_ fun _ _ _ => trivial
    intro _ m₄ pushed
    have all := (paged.records.trans dsdt).trans pushed
    simp only [pagesOf, recordsOf, if_pos fadt]
    rw [List.append_nil, List.nil_append] at all
    exact all
  · change Yields (if IsFadt memory (entryOf memory rsdp i) then _ else _) _ _ _
    rw [if_neg fadt]
    refine (@pushBack_records _ _ Identity _ paged.2.1 _).mono ?_ fun _ _ _ => trivial
    intro _ m₃ pushed
    have all := paged.records.trans pushed
    simp only [pagesOf, recordsOf, if_neg fadt]
    exact all

/-- What the loop has done before it comes to an entry. -/
structure Recorded (Good : σ → Prop) (Identity : σ → Nat → Prop) (memory : Nat → Byte)
    (rsdp : Nat) (s₀ : σ) (k : Nat) (m : AcpiMachine σ) : Prop where
  good : Good m.paging
  paged : Paged Identity (pagesBefore memory rsdp k) s₀ m.paging
  capacity : m.tables.capacity = recordRoom (numTables memory rsdp)
  tracks : m.tables.Tracks (recordsBefore memory rsdp k)
  reads : ∃ states : Nat → σ,
    m.entryReads = (List.range k).map (fun i => (entryAddress (rsdtOf memory rsdp) i, states i)) ∧
      ∀ i < k, Paged Identity (pagesBefore memory rsdp i) s₀ (states i)

private theorem pagesBefore_succ (k : Nat) : pagesBefore memory rsdp (k + 1) =
    pagesBefore memory rsdp k ++ pagesOf memory (entryOf memory rsdp k) := by
  simp only [pagesBefore, List.range_succ, List.flatMap_append, List.flatMap_singleton,
    List.append_assoc]

private theorem recordsBefore_succ (k : Nat) : recordsBefore memory rsdp (k + 1) =
    recordsBefore memory rsdp k ++ recordsOf memory (entryOf memory rsdp k) := by
  simp only [recordsBefore, List.range_succ, List.flatMap_append, List.flatMap_singleton]

theorem Recorded.step (law : MapsItself calls Good Identity) {s₀ : σ} {k : Nat}
    {m : AcpiMachine σ} (recorded : Recorded Good Identity memory rsdp s₀ k m) :
    Yields (recordTable calls memory (rsdtOf memory rsdp) k) m
      (fun _ m' => Recorded Good Identity memory rsdp s₀ (k + 1) m') fun _ _ => True := by
  refine (recordTable_records law recorded.good k).mono ?_ fun _ _ _ => trivial
  intro _ m' records
  obtain ⟨states, reads, each⟩ := recorded.reads
  refine ⟨records.good, ?_, records.capacity.trans recorded.capacity, ?_,
    Function.update states k m.paging, ?_, ?_⟩
  · rw [pagesBefore_succ]
    exact recorded.paged.trans records.paged
  · rw [recordsBefore_succ]
    exact records.tracks _ recorded.tracks
  · have same : (List.range k).map (fun i => (entryAddress (rsdtOf memory rsdp) i, states i)) =
        (List.range k).map fun i =>
          (entryAddress (rsdtOf memory rsdp) i, Function.update states k m.paging i) := by
      refine List.map_congr_left fun i member => ?_
      rw [Function.update_of_ne (Nat.ne_of_lt (List.mem_range.1 member))]
    rw [records.reads, reads, same, List.range_succ, List.map_append, List.map_singleton,
      Function.update_self]
  · intro i less
    rcases Nat.lt_succ_iff_lt_or_eq.1 less with before | rfl
    · rw [Function.update_of_ne (Nat.ne_of_lt before)]
      exact each i before
    · rw [Function.update_self]
      exact recorded.paged

/-- The loop over the RSDT. -/
theorem Recorded.run (law : MapsItself calls Good Identity) {s₀ : σ} {n k : Nat}
    {m : AcpiMachine σ} (recorded : Recorded Good Identity memory rsdp s₀ k m) :
    Yields ((List.range' k n).forM fun i => recordTable calls memory (rsdtOf memory rsdp) i) m
      (fun _ m' => Recorded Good Identity memory rsdp s₀ (k + n) m') fun _ _ => True := by
  induction n generalizing k m with
  | zero => exact recorded
  | succ n ih =>
    change Yields (recordTable calls memory (rsdtOf memory rsdp) k >>= fun _ =>
      (List.range' (k + 1) n).forM _) m _ _
    rw [yields_bind]
    refine (recorded.step law).mono ?_ fun _ _ _ => trivial
    intro _ m₁ next
    rw [show k + (n + 1) = k + 1 + n by omega]
    exact ih next

private theorem initializeTables_yields {m : AcpiMachine σ} (capacity : Nat) :
    Yields (initializeTables capacity) m (fun _ m' => m'.paging = m.paging ∧
      m'.entryReads = m.entryReads ∧ m'.tables.Tracks [] ∧
      m'.tables.capacity = recordRoom capacity) fun _ _ => True := by
  rw [initializeTables, yields_ite]
  split
  · trivial
  rw [yields_ite]
  split
  · trivial
  rw [yields_bind, yields_get]
  split
  · exact ⟨rfl, rfl, ⟨by simp [PageAllocator.values, noTables], by simp [noTables]⟩, rfl⟩
  · trivial

theorem new_recorded (law : MapsItself calls Good Identity) {s₀ : σ} (good : Good s₀)
    (low : rsdp < 2 ^ 47) {virtualAllocator : Allocator} {m : AcpiMachine σ}
    (returned : new calls memory rsdp s₀ virtualAllocator = .ok () m) :
    Recorded Good Identity memory rsdp s₀ (numTables memory rsdp) m := by
  have rsdtLow : rsdtOf memory rsdp < 2 ^ 32 := littleEndian_lt memory _ 4
  have yields : Yields (initializeAcpi calls memory rsdp)
      ⟨s₀, virtualAllocator, ⟨0, 0⟩, noTables, []⟩
      (fun _ m' => Recorded Good Identity memory rsdp s₀ (numTables memory rsdp) m')
      fun _ _ => True := by
    rw [initializeAcpi, yields_bind, freeTables, yields_modify, if_pos rfl, yields_bind]
    refine (page4K_pages law good (mappable_pageAlign low)).mono ?_ fun _ _ _ => trivial
    intro _ m₁ first
    rw [yields_bind]
    refine (page4K_pages law first.2.1 (mappable_pageAlign (Nat.lt_trans rsdtLow (by decide)))).mono
      ?_ fun _ _ _ => trivial
    intro _ m₂ second
    have paged := first.trans second
    rw [yields_ite]
    split
    · trivial
    rw [yields_bind]
    refine (initializeTables_yields _).mono ?_ fun _ _ _ => trivial
    rintro _ m₃ ⟨paging, reads, tracks, capacity⟩
    have start : Recorded Good Identity memory rsdp s₀ 0 m₃ := by
      refine ⟨paging ▸ paged.2.1, ?_, capacity, tracks, fun _ => s₀, ?_, fun i less => ?_⟩
      · rw [paging]
        exact paged.2.2
      · rw [reads, paged.1]
        rfl
      · cases less
    have loop := @Recorded.run _ _ _ _ _ _ law _ (numTables memory rsdp) 0 _ start
    rw [Nat.zero_add] at loop
    rw [List.range_eq_range']
    exact loop
  exact yields.ok returned

/-! ## Coverage -/

private theorem find_identifier {ts : List AcpiTable} (distinct : (ts.map AcpiTable.table).Nodup)
    {t : AcpiTable} (member : t ∈ ts) : (ts.find? fun u => u.table = t.table) = some t := by
  obtain ⟨u, found⟩ : ∃ u, (ts.find? fun u => u.table = t.table) = some u := by
    apply Option.isSome_iff_exists.1
    rw [List.find?_isSome]
    exact ⟨t, member, by simp⟩
  have same : u.table = t.table := by simpa using List.find?_some found
  rw [found, List.inj_on_of_nodup_map distinct (List.mem_of_find?_eq_some found) member same]

/-- Records that occur once and are the first with their identifiers have different ones. -/
theorem distinct_of_found {ts : List AcpiTable} (found : ∀ t ∈ ts, ts.count t = 1 ∧
    (ts.find? fun u => u.table = t.table) = some t) : (ts.map AcpiTable.table).Nodup := by
  refine (List.nodup_map_iff_inj_on ?_).2 ?_
  · exact List.nodup_iff_count_le_one.2 fun t => by
      by_cases member : t ∈ ts
      · exact Nat.le_of_eq (found t member).1
      · rw [List.count_eq_zero_of_not_mem member]
        exact Nat.zero_le 1
  · intro t member u member' same
    have first := (found t member).2
    rw [same] at first
    exact Option.some.inj (first.symm.trans (found u member').2)

theorem record_cases {t : AcpiTable} (member : t ∈ allRecords memory rsdp) :
    ∃ i < numTables memory rsdp,
      IsFadt memory (entryOf memory rsdp i) ∧ t = dsdtOf memory (entryOf memory rsdp i) ∨
      t = tableAt memory (entryOf memory rsdp i) := by
  obtain ⟨i, inside, own⟩ := List.mem_flatMap.1 member
  refine ⟨i, List.mem_range.1 inside, ?_⟩
  rw [recordsOf, List.mem_append, List.mem_singleton] at own
  apply own.imp_left
  intro dsdt
  split at dsdt
  next fadt => exact ⟨fadt, List.mem_singleton.1 dsdt⟩
  next => cases dsdt

private theorem mappable_byte {t : AcpiTable} (member : t ∈ allRecords memory rsdp) {a : Nat}
    (below : a < t.ptr + t.length) : Mappable (pageAlign a) := by
  apply mappable_pageAlign
  have low : t.ptr < 2 ^ 32 ∧ t.length < 2 ^ 32 := by
    obtain ⟨i, -, ⟨-, rfl⟩ | rfl⟩ := record_cases member
    · exact ⟨littleEndian_lt memory _ 4, littleEndian_lt memory _ 4⟩
    · exact ⟨entryOf_lt i, length_lt _⟩
  omega

private theorem mem_pagesBefore {i k : Nat} (less : i < k) {q : Nat}
    (member : q ∈ pagesOf memory (entryOf memory rsdp i)) : q ∈ pagesBefore memory rsdp k :=
  List.mem_append_right _ (List.mem_flatMap.2 ⟨i, List.mem_range.2 less, member⟩)

/-- The pages that follow the first one, up to the counted end. -/
theorem mem_pagesOf {dt a : Nat} (above : dt ≤ a)
    (below : a < pageAlign dt + max 1 (pagesFor (tableAt memory dt).length) * 0x1000) :
    pageAlign a ∈ pagesOf memory dt := by
  obtain ⟨k, page, less⟩ : ∃ k, pageAlign a = pageAlign dt + k * 0x1000 ∧
      k < max 1 (pagesFor (tableAt memory dt).length) := by
    refine ⟨a / 0x1000 - dt / 0x1000, ?_, ?_⟩
    all_goals simp only [pageAlign] at *; omega
  rw [pagesOf, page, List.mem_append, List.mem_cons, List.mem_map]
  rcases Nat.eq_zero_or_pos k with rfl | pos
  · exact .inl (.inl (by rw [Nat.zero_mul, Nat.add_zero]))
  · exact .inl (.inr ⟨k, List.mem_range'_1.2 ⟨pos, by omega⟩, rfl⟩)

private theorem ofSignature_ne_dsdt (sig : Nat) : AcpiTableId.ofSignature sig ≠ .dsdt := by
  rw [AcpiTableId.ofSignature]
  repeat' split
  all_goals simp

private theorem counted_mem {t : AcpiTable} (member : t ∈ allRecords memory rsdp) {a : Nat}
    (above : t.ptr ≤ a) (below : a < countedEnd t) :
    pageAlign a ∈ pagesBefore memory rsdp (numTables memory rsdp) := by
  obtain ⟨i, less, ⟨fadt, rfl⟩ | rfl⟩ := record_cases member
  · apply mem_pagesBefore less
    have own : pageAlign a = pageAlign (dsdtOf memory (entryOf memory rsdp i)).ptr := by
      have end_eq : countedEnd (dsdtOf memory (entryOf memory rsdp i)) =
        pageAlign (dsdtOf memory (entryOf memory rsdp i)).ptr + 1 * 0x1000 := rfl
      rw [end_eq] at below
      simp only [pageAlign] at *
      omega
    rw [own, pagesOf, if_pos fadt]
    exact List.mem_append_right _ (List.mem_singleton_self _)
  · apply mem_pagesBefore less
    have other : (tableAt memory (entryOf memory rsdp i)).table ≠ .dsdt := ofSignature_ne_dsdt _
    rw [countedEnd, if_neg other] at below
    exact mem_pagesOf above below

theorem rsdt_mem (k : Nat) {a : Nat} (above : rsdtOf memory rsdp ≤ a)
    (below : a < pageAlign (rsdtOf memory rsdp) + 0x1000) :
    pageAlign a ∈ pagesBefore memory rsdp k := by
  have own : pageAlign a = pageAlign (rsdtOf memory rsdp) := by
    simp only [pageAlign] at *
    omega
  rw [own]
  exact List.mem_append_left _ (List.mem_cons_of_mem _ (List.mem_singleton_self _))

theorem covers_iff_coverable (law : MapsItself calls Good Identity) {s₀ : σ} (good : Good s₀)
    (low : rsdp < 2 ^ 47) {virtualAllocator : Allocator} {m : AcpiMachine σ}
    (returned : new calls memory rsdp s₀ virtualAllocator = .ok () m) :
    Covers Identity memory rsdp m ↔ Coverable (Identity s₀) memory rsdp := by
  have recorded := new_recorded law good low returned
  obtain ⟨states, reads, each⟩ := recorded.reads
  have values : m.tables.values = firstRecords memory rsdp := by
    rw [recorded.tracks.values, recorded.capacity]
    rfl
  have entryLow (i : Nat) (less : i < numTables memory rsdp) (a : Nat)
      (below : a < entryAddress (rsdtOf memory rsdp) i + 4) : Mappable (pageAlign a) := by
    apply mappable_pageAlign
    have rsdtLow : rsdtOf memory rsdp < 2 ^ 32 := littleEndian_lt memory _ 4
    have length : littleEndian memory (rsdtOf memory rsdp + 4) 4 < 2 ^ 32 :=
      littleEndian_lt memory _ 4
    simp only [entryAddress, numTables, sizeOfRsdt] at *
    omega
  constructor
  · intro covers
    have room : ∀ t ∈ allRecords memory rsdp, t ∈ firstRecords memory rsdp := by
      intro t member
      have once := (covers.found t member).1
      rw [values] at once
      exact List.count_pos_iff.1 (by omega)
    refine ⟨?_, ?_, room, ?_⟩
    · intro t member a behind below
      have above : t.ptr ≤ a := by
        simp only [countedEnd, pageAlign] at behind
        split at behind <;> omega
      have mapped := covers.tables t (values ▸ room t member) a above below
      exact (recorded.paged _ (mappable_byte member below)).1 mapped
    · intro i less a _ above below
      have read : (entryAddress (rsdtOf memory rsdp) i, states i) ∈ m.entryReads := by
        rw [reads]
        exact List.mem_map_of_mem (List.mem_range.2 less)
      exact (each i less _ (entryLow i less a below)).1 (covers.entries _ read a above below)
    · refine distinct_of_found fun t member => ?_
      have found := covers.found t (List.mem_of_mem_take member)
      rwa [getTable, values] at found
  · rintro ⟨tables, entries, room, distinct⟩
    refine ⟨?_, ?_, ?_⟩
    · intro t member a above below
      have own : t ∈ allRecords memory rsdp := List.mem_of_mem_take (values ▸ member)
      apply (recorded.paged _ (mappable_byte own below)).2
      rcases Nat.lt_or_ge a (countedEnd t) with inside | behind
      · exact .inl (counted_mem own above inside)
      · exact tables t own a behind below
    · intro read member a above below
      rw [reads] at member
      obtain ⟨i, inside, rfl⟩ := List.mem_map.1 member
      have less := List.mem_range.1 inside
      apply (each i less _ (entryLow i less a below)).2
      rcases Nat.lt_or_ge a (pageAlign (rsdtOf memory rsdp) + 0x1000) with inside | behind
      · have start : rsdtOf memory rsdp ≤ a := by
          simp only [entryAddress] at above
          omega
        exact .inl (rsdt_mem i start inside)
      · exact entries i less a behind above below
    · intro t member
      rw [getTable, values]
      exact ⟨List.count_eq_one_of_mem (List.Nodup.of_map _ distinct) (room t member),
        find_identifier distinct (room t member)⟩

/-! ## With the pager of the processor -/

section Pager

variable {pager : Pager} {kept : BitVec 64 → Prop}

/-- The processor translates the page to itself. -/
def MappedToItself (pager : Pager) (m : Machine) (q : Nat) : Prop :=
  (pager.walk m.memory q).map Translation.physical = some q

private theorem pager_law : MapsItself (SystemTable.pagingCalls pager)
    (fun m => pager.Ready kept m ∧ pager.WellFormed m.memory) (MappedToItself pager) := by
  have step {m m' : Machine} {p : Nat} (good : pager.Ready kept m ∧ pager.WellFormed m.memory)
      (mappable : Mappable p)
      (paged : (SystemTable.pagingCalls pager).page4K p p pagerPresent m = some m') :
      (pager.Ready kept m' ∧ pager.WellFormed m'.memory) ∧
        Paged (MappedToItself pager) [p] m m' := by
    obtain ⟨ready, wellFormed⟩ := good
    have value : (BitVec.ofNat 64 p).toNat = p := by
      rw [BitVec.toNat_ofNat]
      exact Nat.mod_eq_of_lt (Nat.lt_trans mappable.1 (by decide))
    obtain ⟨page, returned⟩ : ∃ page,
        pager.page4Kb p (BitVec.ofNat 64 p) pagerPresent m = .ok page m' := by
      simp only [SystemTable.pagingCalls] at paged
      split at paged
      next page m₁ ran =>
        obtain rfl := Option.some.inj paged
        exact ⟨page, ran⟩
      next => cases paged
    obtain ⟨_, takes, ready', m₁, reached, stored⟩ :=
      (Pager.page4Kb_yields ready p (BitVec.ofNat 64 p) pagerPresent).ok returned
    have canonical {q : Nat} (mappable : Mappable q) : Canonical q := .inl mappable.1
    have wellFormed' := stored.wellFormed ready'.tree rfl
      (reached.wellFormed wellFormed (by decide))
    refine ⟨⟨ready', wellFormed'⟩, fun q other => ?_⟩
    rw [List.mem_singleton, MappedToItself, MappedToItself, Pager.walk_eq ready'.tree,
      Pager.walk_eq wellFormed.tree]
    by_cases same : q = p
    · -- the leaf that was written
      subst same
      rw [Pager.translation_mapped reached stored takes (by rw [value]; have := mappable.1; omega)
        wellFormed.toIntact, if_pos (by decide), Option.map_some, value]
      simp
    · -- all other pages
      have apart : (Pager.translate q).fourth ≠ (Pager.translate p).fourth := fun equal => by
        have frames := page_eq_of_fourth (canonical other) (canonical mappable) equal
        have := other.2
        have := mappable.2
        omega
      rw [stored.translation_other apart, reached.translation (wellFormed.third _)]
      simp only [same, false_or]
  exact ⟨fun good mappable paged => (step good mappable paged).1,
    fun good mappable paged => (step good mappable paged).2⟩

/-- The tables are covered exactly when what lies behind the counted pages is mapped for some
other reason, every record has room and no two have the same identifier. -/
theorem covers_iff {machine : Machine} (wellFormed : pager.WellFormed machine.memory)
    (supplies : machine.allocator.Supplies (pager.IsTable machine.memory)) (low : rsdp < 2 ^ 47)
    {virtualAllocator : Allocator} {m : AcpiMachine Machine}
    (returned : new (SystemTable.pagingCalls pager) memory rsdp machine virtualAllocator =
      .ok () m) :
    Covers (MappedToItself pager) memory rsdp m ↔
      Coverable (MappedToItself pager machine) memory rsdp :=
  covers_iff_coverable pager_law ⟨wellFormed.tree.ready supplies, wellFormed⟩ low returned

end Pager

/-- An RSDP, an RSDT with one entry and an HPET. -/
def hpetMemory (dt length : Nat) : Nat → Byte := fun a =>
  if a < 0x3000 then memoryOf 0x2010 (leBytes 0x3000 4) a
  else if a < 0x3024 then memoryOf 0x3004 (leBytes 40 4) a
  else if a < 0x4000 then memoryOf 0x3024 (leBytes dt 4) a
  else memoryOf dt (leBytes hpetSignature 4 ++ leBytes length 4) a

/-- A table in one page. -/
theorem covers_inside : ∃ m,
    new (SystemTable.pagingCalls plainPager) (hpetMemory 0x4000 0x20) 0x2000 plainMachine
      plainAllocator = .ok () m ∧
    Covers (MappedToItself plainPager) (hpetMemory 0x4000 0x20) 0x2000 m := by
  have ran : ((initializeAcpi (SystemTable.pagingCalls plainPager) (hpetMemory 0x4000 0x20)
      0x2000).state? ⟨plainMachine, plainAllocator, ⟨0, 0⟩, noTables, []⟩).isSome := by
    decide +kernel
  obtain ⟨m, ended⟩ := Option.isSome_iff_exists.1 ran
  obtain ⟨_, returned⟩ := ok_of_state? ended
  refine ⟨m, returned, (covers_iff plainFresh.wellFormed plainAllocator_supplies (by decide)
    returned).2 ?_⟩
  have all : allRecords (hpetMemory 0x4000 0x20) 0x2000 = [⟨.hpet, 0x4000, 0x20⟩] := by
    decide +kernel
  have first : firstRecords (hpetMemory 0x4000 0x20) 0x2000 = [⟨.hpet, 0x4000, 0x20⟩] := by
    decide +kernel
  have entry : entryAddress (rsdtOf (hpetMemory 0x4000 0x20) 0x2000) 0 = 0x3024 := by
    decide +kernel
  have count : numTables (hpetMemory 0x4000 0x20) 0x2000 = 1 := by decide +kernel
  have rsdt : rsdtOf (hpetMemory 0x4000 0x20) 0x2000 = 0x3000 := by decide +kernel
  constructor
  · intro t member a behind below
    rw [all, List.mem_singleton] at member
    subst member
    have counted : countedEnd ⟨.hpet, 0x4000, 0x20⟩ = 0x5000 := by decide
    rw [counted] at behind
    have short : a < 0x4000 + 0x20 := below
    omega
  · intro i less a behind _ below
    rw [count] at less
    obtain rfl : i = 0 := by omega
    rw [rsdt, pageAlign] at behind
    rw [entry] at below
    omega
  · intro t member
    rwa [first, ← all]
  · rw [first]
    simp

/-- A table of 32 bytes that begins 16 bytes before the end of a page: its second page is
not mapped. -/
theorem not_covers_crossing : ∃ m,
    new (SystemTable.pagingCalls plainPager) (hpetMemory 0x4FF0 0x20) 0x2000 plainMachine
      plainAllocator = .ok () m ∧
    ¬Covers (MappedToItself plainPager) (hpetMemory 0x4FF0 0x20) 0x2000 m := by
  have ran : ((initializeAcpi (SystemTable.pagingCalls plainPager) (hpetMemory 0x4FF0 0x20)
      0x2000).state? ⟨plainMachine, plainAllocator, ⟨0, 0⟩, noTables, []⟩).any (fun m =>
        m.tables.values = [⟨.hpet, 0x4FF0, 0x20⟩] ∧
          plainPager.walk m.paging.memory 0x5000 = none) = true := by
    decide +kernel
  obtain ⟨m, ended, recorded⟩ := (Option.any_eq_true _ _).1 ran
  obtain ⟨_, returned⟩ := ok_of_state? ended
  refine ⟨m, returned, fun covers => ?_⟩
  obtain ⟨values, unmapped⟩ := of_decide_eq_true recorded
  have member : ⟨.hpet, 0x4FF0, 0x20⟩ ∈ m.tables.values := by
    rw [values]
    exact List.mem_singleton_self _
  have mapped := covers.tables _ member 0x5000 (by decide) (by decide)
  rw [MappedToItself, pageAlign, unmapped] at mapped
  cases mapped

end AcpiTables

end EmkKernel
