import EmkKernel.Processes.PeSections
import EmkKernel.Utils.Copies
import EmkKernel.Paging.Holdings

/-!
# Sections of PE files in an address space

`page_sections` of `processes::pe`: a section gets pages of its own, which are recorded, mapped and
filled with what the file has of it. The blocks recorded are compressed: one that ends where a new
one starts takes it in.
-/

namespace EmkKernel

open EStateM

def imageScnCntCode : BitVec 32 := 0x20
def imageScnCntInitializedData : BitVec 32 := 0x40
def imageScnCntUninitializedData : BitVec 32 := 0x80
def imageScnMemDiscardable : BitVec 32 := 0x02000000
def imageScnMemNotCached : BitVec 32 := 0x04000000
def imageScnMemNotPaged : BitVec 32 := 0x08000000
def imageScnMemRead : BitVec 32 := 0x40000000
def imageScnMemWrite : BitVec 32 := 0x80000000

/-- `IMAGE_SCN_TYPE_NO_PAD`, the alignments from 1 to 8192 bytes, `IMAGE_SCN_LNK_REMOVE` and
`IMAGE_SCN_LNK_COMDAT`. -/
def imageScnRefused : BitVec 32 :=
  0x8 ||| 0x00100000 ||| 0x00200000 ||| 0x00300000 ||| 0x00400000 ||| 0x00500000 ||| 0x00600000 |||
    0x00700000 ||| 0x00800000 ||| 0x00900000 ||| 0x00A00000 ||| 0x00B00000 ||| 0x00C00000 |||
    0x00D00000 ||| 0x00F00000 ||| 0x800 ||| 0x1000

def pagerPcd : Flags := 1 <<< 4

/-- An `ImageSectionHeader` with the fields that paging uses besides those of the lookup. -/
structure PagedSectionHeader extends ImageSectionHeader where
  sizeOfRawData : Nat
  characteristics : BitVec 32
  deriving DecidableEq

/-- `section.characteristics & mask != 0`. -/
def PagedSectionHeader.has (self : PagedSectionHeader) (mask : BitVec 32) : Bool :=
  self.characteristics &&& mask ≠ 0

/-- `allocator.alloc(pages)`; the pages are passed as `u16`. -/
def allocBlock (pages : Nat) : PagerM MemoryBlock := do
  let m ← get
  match (m.allocator.alloc (pages % 2 ^ 16)).value with
  | (.ok mb, a) =>
    set { m with allocator := a }
    pure mb
  | (.error stop, a) =>
    set { m with allocator := a }
    throw stop

/-- A `match` on a result: an error is a value, a panic is not. -/
def attempt {α : Type} (x : PagerM α) : PagerM (Option α) := fun m =>
  match x m with
  | .ok a m => .ok (some a) m
  | .error (.err _) m => .ok none m
  | .error .panic m => .error .panic m

/-! ### Records of blocks -/

/-- What a call has written to a slice of blocks. It starts at `base`, and does not look at the
blocks in front of it. -/
structure BlockRecord where
  capacity : Nat
  base : Nat
  blocks : List MemoryBlock

namespace BlockRecord

variable (self : BlockRecord)

/-- Where `**curr` stands. -/
def current : Nat := self.base + self.blocks.length

/-- The first block that ends where the new one starts takes it in. -/
def joinTo (mb : MemoryBlock) : List MemoryBlock → PagerM (Option (List MemoryBlock))
  | [] => pure none
  | block :: rest => do
    let blockEnd ← addU64 block.base block.length
    if blockEnd = mb.base then do
      let length ← addU64 block.length mb.length
      pure (some (⟨block.base, length⟩ :: rest))
    else do
      let joined ← joinTo mb rest
      pure (joined.map (block :: ·))

def insert (mb : MemoryBlock) : PagerM BlockRecord := do
  if self.current > self.capacity then
    throw .panic
  else
    match ← joinTo mb self.blocks with
    | some blocks => pure { self with blocks }
    | none =>
      if self.current < self.capacity then pure { self with blocks := self.blocks ++ [mb] }
      else throw .panic

/-- The address lies in a block that was recorded. -/
def Covers (x : Nat) : Prop := ∃ block ∈ self.blocks, block.Contains x

end BlockRecord

/-- What is recorded of the physical and of the virtual memory, if it is. -/
structure SectionRecords where
  physical : Option BlockRecord
  virtual : Option BlockRecord

/-- The block is inserted in a record that there is. -/
def recordBlock (mb : MemoryBlock) : Option BlockRecord → PagerM (Option BlockRecord)
  | none => pure none
  | some record => some <$> record.insert mb

/-! ### Sections -/

namespace PagedSectionHeader

variable (self : PagedSectionHeader)

def pagerFlags : Flags :=
  let flags := pagerUs ||| pagerPresent
  let flags := if self.has imageScnMemWrite then flags ||| pagerRw else flags
  if self.has imageScnMemNotCached then flags ||| pagerPcd else flags

def pages4K : Nat := self.virtualSize / 0x1000 + if self.virtualSize % 0x1000 ≠ 0 then 1 else 0

/-- `map_efficient` is for sections of more than 2 MiB. -/
def map (pager : Pager) (mb : MemoryBlock) (va : Nat) : PagerM Unit :=
  if self.virtualSize > pager2Mib then pager.mapEfficient mb va self.pagerFlags
  else pager.map mb va self.pagerFlags

/-- The raw data is copied, and the rest of the section filled with zeros. -/
def fill (buffer : Nat) (mb : MemoryBlock) : PagerM Unit := do
  let sizeToCopy := if self.virtualSize > self.sizeOfRawData then self.sizeOfRawData
    else self.virtualSize
  let source ← addU64 buffer self.pointerToRawData
  modify fun m => { m with memory := memcpy m.memory mb.base source sizeToCopy }
  if self.virtualSize > self.sizeOfRawData then do
    let rest ← addU64 mb.base sizeToCopy
    modify fun m => { m with
      memory := memset m.memory rest 0 (self.virtualSize - self.sizeOfRawData) }
  else pure ()

/-- The closure of `page_sections`. -/
def page (pager : Pager) (buffer va : Nat) (records : SectionRecords) :
    PagerM (Option ExecutableLoadError × SectionRecords) :=
  if self.has (imageScnCntUninitializedData ||| imageScnCntCode ||| imageScnCntInitializedData) then
    do
    match ← attempt (allocBlock self.pages4K) with
    | none => pure (some .memoryError, records)
    | some mb => do
      let physical ← recordBlock mb records.physical
      let virtual ← recordBlock ⟨va, mb.length⟩ records.virtual
      match ← attempt (self.map pager mb va) with
      | none => do
        let _ ← attempt (freeBlock mb)
        pure (some .memoryError, ⟨physical, virtual⟩)
      | some _ => do
        if self.has (imageScnCntInitializedData ||| imageScnCntCode) then self.fill buffer mb
        pure (none, ⟨physical, virtual⟩)
  else pure (none, records)

end PagedSectionHeader

/-- A section in the loop of `iterate_image_sections_for_paging`. -/
def iterateSection (pager : Pager) (buffer : Nat) (optionalHeader : UnifiedOptionalHeader)
    (header : PagedSectionHeader) (records : SectionRecords) :
    PagerM (Option ExecutableLoadError × SectionRecords) :=
  if header.has imageScnRefused then pure (some .malformedSection, records)
  else if optionalHeader.sectionAlignment = 0 then throw .panic
  else if header.virtualAddress % optionalHeader.sectionAlignment ≠ 0 then
    pure (some .invalidAlignment, records)
  else if header.has (imageScnMemDiscardable ||| imageScnMemNotPaged) ∨
      header.has imageScnMemRead = false then pure (none, records)
  else do
    let va ← addU64 optionalHeader.imageBase header.virtualAddress
    header.page pager buffer va records

def pageSections (pager : Pager) (buffer : Nat) (optionalHeader : UnifiedOptionalHeader) :
    List PagedSectionHeader → SectionRecords → PagerM (Option ExecutableLoadError × SectionRecords)
  | [], records => pure (none, records)
  | header :: rest, records => do
    match ← iterateSection pager buffer optionalHeader header records with
    | (some e, records) => pure (some e, records)
    | (none, records) => pageSections pager buffer optionalHeader rest records

/-! ### What is recorded -/

namespace BlockRecord

variable {m : Machine} {record : BlockRecord} {mb : MemoryBlock}

private theorem joinTo_yields (mb : MemoryBlock) (blocks : List MemoryBlock) :
    Yields (joinTo mb blocks) m (fun r m' => m' = m ∧ ∀ joined, r = some joined → ∀ x,
      (∃ block ∈ joined, block.Contains x) ↔ (∃ block ∈ blocks, block.Contains x) ∨ mb.Contains x)
      fun _ _ => True := by
  induction blocks with
  | nil => exact ⟨rfl, fun _ none => nomatch none⟩
  | cons block rest ih =>
    rw [joinTo, yields_bind]
    refine Pager.addU64_yields (fun _ => ?_) trivial
    rw [yields_ite]
    split
    next behind =>
      rw [yields_bind]
      refine Pager.addU64_yields (fun _ => ?_) trivial
      refine ⟨rfl, fun joined same x => ?_⟩
      obtain rfl := Option.some.inj same
      have grown : (⟨block.base, block.length + mb.length⟩ : MemoryBlock).Contains x ↔
          block.Contains x ∨ mb.Contains x := by
        simp only [MemoryBlock.Contains, MemoryBlock.endAddress]
        omega
      simp only [List.mem_cons, exists_eq_or_imp, grown]
      exact or_right_comm
    next apart =>
      rw [yields_bind]
      refine ih.mono ?_ fun _ _ _ => trivial
      rintro found m' ⟨rfl, covers⟩
      refine ⟨rfl, fun joined same x => ?_⟩
      obtain ⟨joined', rfl, rfl⟩ := Option.map_eq_some_iff.mp same
      simp only [List.mem_cons, exists_eq_or_imp, covers joined' rfl x, or_assoc]

private theorem insert_yields (record : BlockRecord) (mb : MemoryBlock) :
    Yields (record.insert mb) m (fun r m' => m' = m ∧ ∀ x,
      r.Covers x ↔ record.Covers x ∨ mb.Contains x) fun _ _ => True := by
  unfold insert
  rw [yields_ite]
  split
  next => trivial
  next =>
    rw [yields_bind]
    refine (joinTo_yields mb record.blocks).mono ?_ fun _ _ _ => trivial
    rintro found m' ⟨rfl, covers⟩
    cases found with
    | some blocks => exact ⟨rfl, covers blocks rfl⟩
    | none =>
      simp only [yields_ite]
      split
      next =>
        refine ⟨rfl, fun x => ?_⟩
        simp only [Covers, List.mem_append, List.mem_singleton, or_and_right, exists_or,
          exists_eq_left]
      next => trivial

/-- A record, if there is one, covers a set of addresses besides. -/
def Extends (before after : Option BlockRecord) (added : Nat → Prop) : Prop :=
  before = none ∧ after = none ∨ ∃ old new, before = some old ∧ after = some new ∧
    ∀ x, new.Covers x ↔ old.Covers x ∨ added x

theorem recordBlock_yields (mb : MemoryBlock) (record : Option BlockRecord) :
    Yields (recordBlock mb record) m (fun r m' => m' = m ∧ Extends record r mb.Contains)
      fun _ _ => True := by
  cases record with
  | none => exact ⟨rfl, Or.inl ⟨rfl, rfl⟩⟩
  | some record =>
    rw [recordBlock, yields_map]
    refine (insert_yields record mb).mono ?_ fun _ _ _ => trivial
    rintro new m' ⟨rfl, covers⟩
    exact ⟨rfl, Or.inr ⟨record, new, rfl, rfl, covers⟩⟩

end BlockRecord

/-! ### Single sections -/

variable {m m' : Machine} {mb : MemoryBlock}

theorem allocBlock_yields (pages : Nat) :
    Yields (allocBlock pages) m (fun mb m' => m'.memory = m.memory ∧
      (m.allocator.alloc (pages % 2 ^ 16)).value = (.ok mb, m'.allocator)) fun _ _ => True := by
  unfold allocBlock
  rw [yields_bind, yields_get]
  split
  next mb a returned =>
    simp only [yields_bind, yields_set, yields_pure]
    exact ⟨trivial, returned⟩
  next => simp only [yields_bind, yields_set, yields_throw]

theorem attempt_yields {α : Type} {x : PagerM α} {Q : α → Machine → Prop}
    (yields : Yields x m Q fun _ _ => True) :
    Yields (attempt x) m (fun r m' => ∀ a, r = some a → Q a m') fun _ _ => True := by
  unfold Yields attempt at *
  cases ran : x m with
  | ok a m' =>
    rw [ran] at yields
    exact fun b same => Option.some.inj same ▸ yields
  | error s m' =>
    cases s with
    | err e => exact fun _ none => nomatch none
    | panic => trivial

theorem MemoryBlock.hasFrame_locate (aligned : mb.base % 0x1000 = 0)
    (whole : mb.length % 0x1000 = 0) {i : Nat} (inside : i < mb.length) :
    mb.HasFrame (locate (mb.base + i)).table := by
  have page : (mb.base + i) / 0x1000 * 0x1000 = mb.base + i / 0x1000 * 0x1000 := by omega
  refine ⟨i / 0x1000, by omega, ?_⟩
  rw [locate, page]

namespace PagedSectionHeader

variable {self : PagedSectionHeader} {buffer va : Nat}

/-- What the section holds of a file. -/
def contentAt (self : PagedSectionHeader) (file : Nat → Byte) (i : Nat) : Byte :=
  if i < self.sizeOfRawData then file (self.pointerToRawData + i) else 0

/-- The bytes of the file that are copied. -/
def Copies (self : PagedSectionHeader) (i : Nat) : Prop :=
  i < self.sizeOfRawData ∧ i < self.virtualSize

theorem fill_yields (aligned : mb.base % 0x1000 = 0) (whole : mb.length % 0x1000 = 0)
    (bound : mb.base + mb.length ≤ 2 ^ 52) (fits : self.virtualSize ≤ mb.length)
    (apart : ∀ i, self.Copies i →
      ¬mb.HasFrame (locate (buffer + (self.pointerToRawData + i))).table) :
    Yields (self.fill buffer mb) m (fun _ m' => m'.allocator = m.allocator ∧
      (∀ f, ¬mb.HasFrame f → m'.memory f = m.memory f) ∧
      ∀ i < self.virtualSize, physicalByte m'.memory (mb.base + i) =
        self.contentAt (fun o => physicalByte m.memory (buffer + o)) i) fun _ _ => True := by
  have inside {i : Nat} (below : i < self.virtualSize) :=
    MemoryBlock.hasFrame_locate aligned whole (below.trans_le fits)
  have other {f : BitVec 64} (outside : ¬mb.HasFrame f) {i : Nat} (below : i < self.virtualSize) :
      f ≠ (locate (mb.base + i)).table := fun same => outside (same ▸ inside below)
  -- the bytes that are copied
  have copied {n : Nat} (raw : n ≤ self.sizeOfRawData) (size : n ≤ self.virtualSize) {i : Nat}
      (below : i < n) :
      physicalByte (memcpy m.memory mb.base (buffer + self.pointerToRawData) n) (mb.base + i) =
        physicalByte m.memory (buffer + (self.pointerToRawData + i)) := by
    rw [physicalByte_memcpy (by omega) (fun j belowJ k belowK same => ?_) below, Nat.add_assoc]
    have here : mb.HasFrame (locate (mb.base + k)).table := inside (by omega)
    rw [← same, Nat.add_assoc] at here
    exact apart j ⟨by omega, by omega⟩ here
  unfold fill
  by_cases long : self.virtualSize > self.sizeOfRawData
  · rw [if_pos long, yields_bind]
    refine Pager.addU64_yields (fun _ => ?_) trivial
    rw [yields_bind, yields_modify, if_pos long, yields_bind]
    refine Pager.addU64_yields (fun _ => ?_) trivial
    refine ⟨rfl, fun f outside => ?_, fun i below => ?_⟩
    · refine (memset_of_other fun i below => ?_).trans (memcpy_of_other fun i below => ?_)
      · rw [Nat.add_assoc]
        exact other outside (by omega)
      · exact other outside (by omega)
    · rw [contentAt]
      split
      next raw =>
        rw [← copied le_rfl (by omega) raw]
        exact physicalByte_memset_of_outside (by omega) (by omega) (Or.inl (by omega))
      next behind =>
        have place : mb.base + i = mb.base + self.sizeOfRawData + (i - self.sizeOfRawData) := by
          omega
        rw [place]
        exact physicalByte_memset (by omega) (by omega)
  · rw [if_neg long, yields_bind]
    refine Pager.addU64_yields (fun _ => ?_) trivial
    rw [yields_bind, yields_modify, if_neg long]
    refine ⟨rfl, fun f outside => memcpy_of_other fun i below => other outside below,
      fun i below => ?_⟩
    rw [contentAt, if_pos (by omega)]
    exact copied (by omega) le_rfl below

end PagedSectionHeader

end EmkKernel
