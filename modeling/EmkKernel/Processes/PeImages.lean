import EmkKernel.Paging.Binding
import EmkKernel.Processes.PeLoading

/-!
# Images of PE files

When `page_sections` returns no error, the processor sees the image of the file: every section that
is loaded lies at its address, with its rights, in pages of its own, and holds what the file has of
it, then zeros. The records cover just these pages.
-/

namespace EmkKernel

open EStateM BlockRecord

namespace PagedSectionHeader

variable {self : PagedSectionHeader}

/-- The section passes the checks that end the loop. -/
def Accepted (self : PagedSectionHeader) (optionalHeader : UnifiedOptionalHeader) : Prop :=
  self.has imageScnRefused = false ∧ self.virtualAddress % optionalHeader.sectionAlignment = 0

/-- The section gets pages. -/
def Loads (self : PagedSectionHeader) : Prop :=
  self.has (imageScnMemDiscardable ||| imageScnMemNotPaged) = false ∧
    self.has imageScnMemRead = true ∧
    self.has (imageScnCntUninitializedData ||| imageScnCntCode |||
      imageScnCntInitializedData) = true

instance (self : PagedSectionHeader) : Decidable self.Loads :=
  inferInstanceAs (Decidable (_ ∧ _ ∧ _))

/-- The pages of the section are filled. -/
def IsFilled (self : PagedSectionHeader) : Prop :=
  self.has (imageScnCntInitializedData ||| imageScnCntCode) = true

/-- The address is in the pages of the section. -/
def InPages (self : PagedSectionHeader) (imageBase u : Nat) : Prop :=
  imageBase + self.virtualAddress ≤ u ∧
    u < imageBase + self.virtualAddress + self.pages4K * 0x1000

private theorem virtualSize_le (self : PagedSectionHeader) :
    self.virtualSize ≤ self.pages4K * 0x1000 := by
  unfold pages4K
  split <;> omega

private theorem pagerFlags_bits (self : PagedSectionHeader) :
    Pager.leafFlags self.pagerFlags = self.pagerFlags ∧
      self.pagerFlags.any pagerPresent = true ∧
      self.pagerFlags &&& ~~~pagerStabAllocated = self.pagerFlags := by
  unfold pagerFlags
  cases self.has imageScnMemWrite <;> cases self.has imageScnMemNotCached <;> decide

private theorem map_mapsWith (self : PagedSectionHeader) (pager : Pager) (mb : MemoryBlock)
    (va : Nat) :
    pager.MapsWith mb va self.pagerFlags (self.map pager mb va) := by
  unfold map
  split
  · exact Or.inr rfl
  · exact Or.inl rfl

/-- What a section that was loaded at an address leaves: it has a block that nobody used, which
is mapped, recorded and filled. -/
structure Placed (header : PagedSectionHeader) (pager : Pager) (kept : BitVec 64 → Prop)
    (space : Space) (buffer va : Nat) (records : SectionRecords) (m : Machine) (mb : MemoryBlock)
    (records' : SectionRecords) (m' : Machine) : Prop where
  presents : pager.Presents (fun f => kept f ∨ mb.HasFrame f) m'
    (space.write va mb.base mb.length header.pagerFlags)
  walled : m'.allocator.Walled
  memory : ∀ f, kept f → m'.memory f = m.memory f
  keepsLent : ∀ f, kept f → m.allocator.Lent f → m'.allocator.Lent f
  lent : ∀ f, mb.HasFrame f → m'.allocator.Lent f ∧ ¬kept f
  splits : pager.SplitsOutside m.memory m'.memory va mb.length
  length : mb.length = header.pages4K * 0x1000
  aligned : mb.base % 0x1000 = 0
  bound : mb.base + mb.length ≤ 0x800000000
  content : header.IsFilled → ∀ i < header.virtualSize, physicalByte m'.memory (mb.base + i) =
    header.contentAt (fun o => physicalByte m.memory (buffer + o)) i
  physical : Extends records.physical records'.physical mb.Contains
  virtual : Extends records.virtual records'.virtual (⟨va, mb.length⟩ : MemoryBlock).Contains

section Page

variable {pager : Pager} {kept : BitVec 64 → Prop} {m : Machine} {space : Space} {buffer va : Nat}
  {records : SectionRecords}

private theorem page_yields (presents : pager.Presents kept m space) (walled : m.allocator.Walled)
    (kind : self.has (imageScnCntUninitializedData ||| imageScnCntCode |||
      imageScnCntInitializedData) = true)
    (few : self.pages4K < 2 ^ 16)
    (canonical : ∀ i < self.pages4K, Canonical (va + i * 0x1000))
    (small : ∀ i < self.pages4K,
      (pager.seen m.memory (Pager.translate (va + i * 0x1000)).third).pageSize = false)
    (straight : ∀ mb a, (m.allocator.alloc (self.pages4K % 2 ^ 16)).value = (.ok mb, a) →
      Pager.Straight mb va)
    (file : self.IsFilled → ∀ i, self.Copies i →
      kept (locate (buffer + (self.pointerToRawData + i))).table) :
    Yields (self.page pager buffer va records) m
      (fun r m' => r.1 = none → ∃ mb, self.Placed pager kept space buffer va records m mb r.2 m')
      fun _ _ => True := by
  unfold page
  rw [if_pos kind, yields_bind]
  refine (attempt_yields (allocBlock_yields self.pages4K)).mono ?_ fun _ _ _ => trivial
  rintro block m₁ allocated
  cases block with
  | none => exact fun none => nomatch none
  | some mb =>
    obtain ⟨memory, returned⟩ := allocated mb rfl
    have straight := straight mb _ returned
    rw [Nat.mod_eq_of_lt few] at returned
    have out := presents.keeps.stocked.handsOut walled returned
    have held := presents.hold out
    rw [← memory] at held
    have length := out.length
    have bound := out.bound
    have pages : mb.length / 0x1000 = self.pages4K := by omega
    obtain ⟨leaf, present, _⟩ := self.pagerFlags_bits
    have lent (f : BitVec 64) := out.lends f
    rw [← memory] at small
    rw [← pages] at canonical small
    dsimp only
    rw [yields_bind]
    refine (recordBlock_yields mb records.physical).mono ?_ fun _ _ _ => trivial
    rintro physical _ ⟨rfl, physicalCovers⟩
    rw [yields_bind]
    refine (recordBlock_yields ⟨va, mb.length⟩ records.virtual).mono ?_ fun _ _ _ => trivial
    rintro virtual _ ⟨rfl, virtualCovers⟩
    rw [yields_bind]
    refine (attempt_yields (Pager.mapsWith_writes (self.map_mapsWith pager mb va) held out.aligned
      (by omega) straight canonical (by omega) present small)).mono ?_ fun _ _ _ => trivial
    rintro mapped m₂ written
    cases mapped with
    | none =>
      dsimp only
      rw [yields_bind]
      exact (yields_any _ _).mono (fun _ _ _ none => nomatch none) fun _ _ _ => trivial
    | some _ =>
      obtain ⟨presents₂, respects, splits⟩ := written () rfl
      rw [leaf] at presents₂
      have old (f : BitVec 64) (others : kept f) : m₂.memory f = m.memory f :=
        (respects.memory f (Or.inl others)).trans (by rw [memory])
      have apart (f : BitVec 64) (here : mb.HasFrame f) : ¬kept f := fun others =>
        out.unused f here (Or.inl others)
      have placed {m₃ : Machine} (allocator : m₃.allocator = m₂.allocator)
          (beside : ∀ f, ¬mb.HasFrame f → m₃.memory f = m₂.memory f)
          (content : self.IsFilled → ∀ i < self.virtualSize,
            physicalByte m₃.memory (mb.base + i) =
              self.contentAt (fun o => physicalByte m₂.memory (buffer + o)) i) :
          self.Placed pager kept space buffer va records m mb ⟨physical, virtual⟩ m₃ := by
        have tables (f : BitVec 64) (isTable : pager.IsTable m₂.memory f) :
            m₃.memory f = m₂.memory f :=
          beside f fun here => presents₂.keeps.apart f (Or.inr here) isTable
        have filled := presents₂.fill tables
        rw [← allocator] at filled
        refine ⟨filled, ?_, fun f others => ?_, fun f others before => ?_, fun f here => ⟨?_,
          apart f here⟩, fun u canonicalU outside before => ?_, length, out.aligned, bound,
          fun fills i below => ?_, physicalCovers, virtualCovers⟩
        · rw [allocator]
          exact respects.walled out.walled
        · exact (beside f fun here => apart f here others).trans (old f others)
        · rw [allocator]
          exact respects.lent f (Or.inl others) (lent f (Or.inl before))
        · rw [allocator]
          exact respects.lent f (Or.inr here) (lent f (Or.inr here))
        · have seen : pager.seen m₃.memory = pager.seen m₂.memory := by
            funext p
            rw [Pager.seen, Pager.view_congr tables, Pager.seen]
          rw [seen]
          rw [← memory] at before
          exact splits u canonicalU outside before
        · rw [content fills i below, contentAt, contentAt]
          split
          next raw => exact physicalByte_congr (old _ (file fills i ⟨raw, below⟩))
          next => rfl
      dsimp only
      split
      next fills =>
        rw [yields_bind]
        refine (fill_yields out.aligned (by omega) (by omega)
          (self.virtualSize_le.trans_eq length.symm) fun i copies here =>
            apart _ here (file fills i copies)).mono ?_ fun _ _ _ => trivial
        rintro _ m₃ ⟨allocator, beside, content⟩
        exact fun _ => ⟨mb, placed allocator beside fun _ => content⟩
      next empty =>
        exact fun _ => ⟨mb, placed rfl (fun _ _ => rfl) fun fills => absurd fills empty⟩

end Page

end PagedSectionHeader

/-! ### The loop -/

/-- A section and the block it got. -/
abbrev PlacedSection := PagedSectionHeader × MemoryBlock

/-- The sections that were loaded, in a space. -/
def imageSpace (imageBase : Nat) (space : Space) (done : List PlacedSection) : Space :=
  done.foldl (fun space p =>
    space.write (imageBase + p.1.virtualAddress) p.2.base p.2.length p.1.pagerFlags) space

/-- What is kept from the pager: the frames of others, and those of the sections. -/
def Held (kept : BitVec 64 → Prop) (done : List PlacedSection) (f : BitVec 64) : Prop :=
  kept f ∨ ∃ p ∈ done, p.2.HasFrame f

/-- The sections up to one are loaded. -/
structure Paged (pager : Pager) (kept : BitVec 64 → Prop) (imageBase buffer : Nat)
    (records₀ : SectionRecords) (m₀ : Machine) (done : List PlacedSection)
    (records : SectionRecords) (m : Machine) : Prop where
  presents : pager.Presents (Held kept done) m
    (imageSpace imageBase (pager.spaceOf m₀.memory) done)
  walled : m.allocator.Walled
  memory : ∀ f, kept f → m.memory f = m₀.memory f
  splits : ∀ u, Canonical u → (∀ p ∈ done, ¬p.1.InPages imageBase u) →
    (pager.seen m₀.memory (Pager.translate u).third).pageSize = false →
      (pager.seen m.memory (Pager.translate u).third).pageSize = false
  blocks : ∀ p ∈ done, p.2.length = p.1.pages4K * 0x1000 ∧ p.2.base % 0x1000 = 0 ∧
    p.2.base + p.2.length ≤ 0x800000000
  lent : ∀ p ∈ done, ∀ f, p.2.HasFrame f → m.allocator.Lent f ∧ ¬kept f
  apart : done.Pairwise fun p q => ∀ f, p.2.HasFrame f → ¬q.2.HasFrame f
  content : ∀ p ∈ done, p.1.IsFilled → ∀ i < p.1.virtualSize,
    physicalByte m.memory (p.2.base + i) =
      p.1.contentAt (fun o => physicalByte m₀.memory (buffer + o)) i
  physical : Extends records₀.physical records.physical fun x => ∃ p ∈ done, p.2.Contains x
  virtual : Extends records₀.virtual records.virtual fun x =>
    ∃ p ∈ done, p.1.InPages imageBase x

theorem BlockRecord.Extends.refl (record : Option BlockRecord) {added : Nat → Prop}
    (none : ∀ x, ¬added x) : Extends record record added := by
  cases record with
  | none => exact Or.inl ⟨rfl, rfl⟩
  | some record => exact Or.inr ⟨record, record, rfl, rfl, fun x => (or_iff_left (none x)).symm⟩

theorem BlockRecord.Extends.trans {first second third : Option BlockRecord}
    {added added' both : Nat → Prop} (before : Extends first second added)
    (after : Extends second third added') (union : ∀ x, both x ↔ added x ∨ added' x) :
    Extends first third both := by
  rcases before with ⟨rfl, rfl⟩ | ⟨old, new, rfl, rfl, covers⟩
  · rcases after with ⟨_, rfl⟩ | ⟨_, _, impossible, _⟩
    · exact Or.inl ⟨rfl, rfl⟩
    · cases impossible
  · rcases after with ⟨impossible, _⟩ | ⟨_, last, same, rfl, covers'⟩
    · cases impossible
    · obtain rfl := Option.some.inj same
      refine Or.inr ⟨old, last, rfl, rfl, fun x => ?_⟩
      rw [covers', covers, union, or_assoc]

section Loop

variable {pager : Pager} {kept : BitVec 64 → Prop} {imageBase buffer : Nat}
  {records₀ records records' : SectionRecords} {m₀ m m' : Machine} {done : List PlacedSection}
  {header : PagedSectionHeader} {mb : MemoryBlock}

private theorem held_concat : Held kept (done ++ [(header, mb)]) =
    fun f => Held kept done f ∨ mb.HasFrame f := by
  funext f
  simp only [Held, List.mem_append, List.mem_singleton, or_and_right, exists_or, exists_eq_left,
    or_assoc]

private theorem imageSpace_concat (space : Space) :
    imageSpace imageBase space (done ++ [(header, mb)]) =
      (imageSpace imageBase space done).write (imageBase + header.virtualAddress) mb.base mb.length
        header.pagerFlags := by
  rw [imageSpace, List.foldl_append]
  rfl

private theorem exists_concat {P : PlacedSection → Prop} :
    (∃ p ∈ done ++ [(header, mb)], P p) ↔ (∃ p ∈ done, P p) ∨ P (header, mb) := by
  simp only [List.mem_append, List.mem_singleton, or_and_right, exists_or, exists_eq_left]

private theorem forall_concat {P : PlacedSection → Prop} (before : ∀ p ∈ done, P p)
    (last : P (header, mb)) : ∀ p ∈ done ++ [(header, mb)], P p := by
  intro p member
  rcases List.mem_append.mp member with earlier | here
  · exact before p earlier
  · exact List.mem_singleton.mp here ▸ last

/-- A section more. -/
theorem Paged.place (paged : Paged pager kept imageBase buffer records₀ m₀ done records m)
    (placed : header.Placed pager (Held kept done) (imageSpace imageBase (pager.spaceOf m₀.memory)
      done) buffer (imageBase + header.virtualAddress) records m mb records' m')
    (file : header.IsFilled → ∀ i, header.Copies i →
      kept (locate (buffer + (header.pointerToRawData + i))).table) :
    Paged pager kept imageBase buffer records₀ m₀ (done ++ [(header, mb)]) records' m' := by
  have old (f : BitVec 64) (others : Held kept done f) := placed.memory f others
  have range (u : Nat) : header.InPages imageBase u ↔ imageBase + header.virtualAddress ≤ u ∧
      u < imageBase + header.virtualAddress + mb.length := by
    rw [placed.length, PagedSectionHeader.InPages]
  constructor
  case presents =>
    rw [held_concat, imageSpace_concat]
    exact placed.presents
  case walled => exact placed.walled
  case memory => exact fun f others => (old f (Or.inl others)).trans (paged.memory f others)
  case splits =>
    intro u canonical outside small
    have before := paged.splits u canonical (fun p member => outside p (List.mem_append_left _
      member)) small
    refine placed.splits u canonical (fun inside => ?_) before
    exact outside (header, mb) (List.mem_append_right _ (List.mem_singleton_self _))
      ((range u).mpr inside)
  case blocks =>
    exact forall_concat paged.blocks ⟨placed.length, placed.aligned, placed.bound⟩
  case lent =>
    refine forall_concat (fun p member f here => ?_) fun f here => ⟨(placed.lent f here).1,
      fun others => (placed.lent f here).2 (Or.inl others)⟩
    obtain ⟨lent, unkept⟩ := paged.lent p member f here
    exact ⟨placed.keepsLent f (Or.inr ⟨p, member, here⟩) lent, unkept⟩
  case apart =>
    refine List.pairwise_append.mpr ⟨paged.apart, List.pairwise_singleton .., ?_⟩
    intro p member q last f here there
    rw [List.mem_singleton.mp last] at there
    exact (placed.lent f there).2 (Or.inr ⟨p, member, here⟩)
  case content =>
    refine forall_concat (fun p member fills i below => ?_) fun fills i below => ?_
    · obtain ⟨length, aligned, _⟩ := paged.blocks p member
      have size := p.1.virtualSize_le
      have frame : p.2.HasFrame (locate (p.2.base + i)).table :=
        MemoryBlock.hasFrame_locate aligned (by omega) (by omega)
      exact (physicalByte_congr (old _ (Or.inr ⟨p, member, frame⟩))).trans
        (paged.content p member fills i below)
    · rw [placed.content fills i below, PagedSectionHeader.contentAt,
        PagedSectionHeader.contentAt]
      split
      next raw => exact physicalByte_congr (paged.memory _ (file fills i ⟨raw, below⟩))
      next => rfl
  case physical =>
    exact paged.physical.trans placed.physical fun x => exists_concat
  case virtual =>
    refine paged.virtual.trans placed.virtual fun x => exists_concat.trans (or_congr_right ?_)
    rw [range]
    rfl

/-- What the headers have to say: sections of less than 256 MiB at canonical addresses where no
page of 2 MiB is mapped, apart from each other, and raw data in a file that is kept. -/
structure Loadable (pager : Pager) (kept : BitVec 64 → Prop) (imageBase buffer : Nat) (m₀ : Machine)
    (sections : List PagedSectionHeader) : Prop where
  few : ∀ header ∈ sections, header.Loads → header.pages4K < 2 ^ 16
  canonical : ∀ header ∈ sections, header.Loads → ∀ u, header.InPages imageBase u → Canonical u
  small : ∀ header ∈ sections, header.Loads → ∀ u, header.InPages imageBase u →
    (pager.seen m₀.memory (Pager.translate u).third).pageSize = false
  file : ∀ header ∈ sections, header.Loads → header.IsFilled → ∀ i, header.Copies i →
    kept (locate (buffer + (header.pointerToRawData + i))).table
  apart : sections.Pairwise fun s t => s.Loads → t.Loads → ∀ u, s.InPages imageBase u →
    ¬t.InPages imageBase u

theorem Loadable.tail {rest : List PagedSectionHeader}
    (loadable : Loadable pager kept imageBase buffer m₀ (header :: rest)) :
    Loadable pager kept imageBase buffer m₀ rest where
  few s member := loadable.few s (List.mem_cons_of_mem _ member)
  canonical s member := loadable.canonical s (List.mem_cons_of_mem _ member)
  small s member := loadable.small s (List.mem_cons_of_mem _ member)
  file s member := loadable.file s (List.mem_cons_of_mem _ member)
  apart := (List.pairwise_cons.mp loadable.apart).2

/-- In this run no section of more than 2 MiB gets a block that lies at its address but for an
odd number of MiB, which `page_2_mb` would take for aligned. -/
def RunsStraight (pager : Pager) (buffer : Nat) (optionalHeader : UnifiedOptionalHeader) :
    List PagedSectionHeader → SectionRecords → Machine → Prop
  | [], _, _ => True
  | header :: rest, records, m =>
    (header.Loads → ∀ mb a, (m.allocator.alloc (header.pages4K % 2 ^ 16)).value = (.ok mb, a) →
      Pager.Straight mb (optionalHeader.imageBase + header.virtualAddress)) ∧
    ∀ records' m', iterateSection pager buffer optionalHeader header records m =
      .ok (none, records') m' → RunsStraight pager buffer optionalHeader rest records' m'

variable {optionalHeader : UnifiedOptionalHeader}

theorem iterateSection_yields
    (paged : Paged pager kept optionalHeader.imageBase buffer records₀ m₀ done records m)
    {rest : List PagedSectionHeader}
    (loadable : Loadable pager kept optionalHeader.imageBase buffer m₀ (header :: rest))
    (beside : ∀ p ∈ done, header.Loads → ∀ u, p.1.InPages optionalHeader.imageBase u →
      ¬header.InPages optionalHeader.imageBase u)
    (straight : header.Loads → ∀ mb a,
      (m.allocator.alloc (header.pages4K % 2 ^ 16)).value = (.ok mb, a) →
        Pager.Straight mb (optionalHeader.imageBase + header.virtualAddress)) :
    Yields (iterateSection pager buffer optionalHeader header records) m
      (fun r m' => r.1 = none → header.Accepted optionalHeader ∧
        (¬header.Loads ∧
          Paged pager kept optionalHeader.imageBase buffer records₀ m₀ done r.2 m' ∨
        header.Loads ∧ ∃ mb, Paged pager kept optionalHeader.imageBase buffer records₀ m₀
          (done ++ [(header, mb)]) r.2 m'))
      fun _ _ => True := by
  have member : header ∈ header :: rest := List.mem_cons_self
  unfold iterateSection
  rw [yields_ite]
  split
  next => exact fun none => nomatch none
  next whole =>
  rw [yields_ite]
  split
  next => trivial
  next =>
  rw [yields_ite]
  split
  next => exact fun none => nomatch none
  next divides =>
  rw [not_not] at divides
  have accepted : header.Accepted optionalHeader := ⟨Bool.eq_false_iff.mpr whole, divides⟩
  rw [yields_ite]
  split
  next passed =>
    refine fun _ => ⟨accepted, Or.inl ⟨fun loads => ?_, paged⟩⟩
    rcases passed with unpaged | unread
    · exact Bool.false_ne_true (loads.1.symm.trans unpaged)
    · exact Bool.false_ne_true (unread.symm.trans loads.2.1)
  next loads =>
  rw [not_or, Bool.not_eq_true, Bool.not_eq_false] at loads
  rw [yields_bind]
  refine Pager.addU64_yields (fun _ => ?_) trivial
  by_cases kind : header.has (imageScnCntUninitializedData ||| imageScnCntCode |||
      imageScnCntInitializedData) = true
  · have loads : header.Loads := ⟨loads.1, loads.2, kind⟩
    have inPages {i : Nat} (below : i < header.pages4K) : header.InPages optionalHeader.imageBase
        (optionalHeader.imageBase + header.virtualAddress + i * 0x1000) := by
      unfold PagedSectionHeader.InPages
      omega
    have canonical {i : Nat} (below : i < header.pages4K) :=
      loadable.canonical header member loads _ (inPages below)
    have file (fills : header.IsFilled) := loadable.file header member loads fills
    refine (PagedSectionHeader.page_yields paged.presents paged.walled kind
      (loadable.few header member loads) (fun i => canonical) (fun i below => ?_) (straight loads)
        fun fills i copies => Or.inl (file fills i copies)).mono ?_ fun _ _ _ => trivial
    · have other (p : PlacedSection) (earlier : p ∈ done) :=
        fun inside => beside p earlier loads _ inside (inPages below)
      have small := loadable.small header member loads _ (inPages below)
      exact paged.splits _ (canonical below) other small
    · rintro r m' placed none
      obtain ⟨mb, placed⟩ := placed none
      exact ⟨accepted, Or.inr ⟨loads, mb, paged.place placed file⟩⟩
  · unfold PagedSectionHeader.page
    rw [if_neg kind]
    exact fun _ => ⟨accepted, Or.inl ⟨fun loads => kind loads.2.2, paged⟩⟩

theorem pageSections_yields {sections : List PagedSectionHeader}
    (paged : Paged pager kept optionalHeader.imageBase buffer records₀ m₀ done records m)
    (loadable : Loadable pager kept optionalHeader.imageBase buffer m₀ sections)
    (beside : ∀ p ∈ done, ∀ s ∈ sections, s.Loads → ∀ u,
      p.1.InPages optionalHeader.imageBase u → ¬s.InPages optionalHeader.imageBase u)
    (straight : RunsStraight pager buffer optionalHeader sections records m) :
    Yields (pageSections pager buffer optionalHeader sections records) m
      (fun r m' => r.1 = none → (∀ s ∈ sections, s.Accepted optionalHeader) ∧
        ∃ more : List PlacedSection,
          more.map Prod.fst = sections.filter (fun s => decide s.Loads) ∧
          Paged pager kept optionalHeader.imageBase buffer records₀ m₀ (done ++ more) r.2 m')
      fun _ _ => True := by
  induction sections generalizing done records m with
  | nil =>
    refine fun _ => ⟨fun s member => absurd member List.not_mem_nil, [], rfl, ?_⟩
    rwa [List.append_nil]
  | cons header rest ih =>
    obtain ⟨straight, later⟩ := straight
    rw [pageSections, yields_bind]
    have outcome := iterateSection_yields paged loadable
      (fun p member => beside p member header List.mem_cons_self) straight
    unfold Yields at outcome ⊢
    cases ran : iterateSection pager buffer optionalHeader header records m with
    | error => trivial
    | ok r m₁ =>
      rw [ran] at outcome
      obtain ⟨e, records₁⟩ := r
      cases e with
      | some e => exact fun none => nomatch none
      | none =>
        obtain ⟨accepted, step⟩ := outcome rfl
        have straight := later records₁ m₁ ran
        have both {P : PagedSectionHeader → Prop} (first : P header) (others : ∀ s ∈ rest, P s) :
            ∀ s ∈ header :: rest, P s := by
          rintro s (_ | ⟨_, member⟩)
          · exact first
          · exact others s member
        rcases step with ⟨passed, paged₁⟩ | ⟨loads, mb, paged₁⟩
        · refine (ih paged₁ loadable.tail (fun p earlier s member =>
            beside p earlier s (List.mem_cons_of_mem _ member)) straight).mono ?_
              fun _ _ _ => trivial
          rintro r m' after none
          obtain ⟨all, more, same, paged'⟩ := after none
          refine ⟨both accepted all, more, ?_, paged'⟩
          rw [List.filter_cons_of_neg (by simpa using passed), same]
        · have apart := (List.pairwise_cons.mp loadable.apart).1
          refine (ih paged₁ loadable.tail (forall_concat (fun p earlier s member =>
            beside p earlier s (List.mem_cons_of_mem _ member))
              fun s member loadsS => apart s member loads loadsS) straight).mono ?_
                fun _ _ _ => trivial
          rintro r m' after none
          obtain ⟨all, more, same, paged'⟩ := after none
          refine ⟨both accepted all, (header, mb) :: more, ?_, ?_⟩
          · rw [List.filter_cons_of_pos (by simpa using loads), List.map_cons, same]
          · rwa [List.append_assoc] at paged'

/-! ### Images -/

private theorem imageSpace_other {space : Space} {u : Nat}
    (blocks : ∀ p ∈ done, p.2.length = p.1.pages4K * 0x1000)
    (outside : ∀ p ∈ done, ¬p.1.InPages imageBase u) :
    imageSpace imageBase space done u = space u := by
  induction done generalizing space with
  | nil => rfl
  | cons p rest ih =>
    obtain ⟨first, others⟩ := List.forall_mem_cons.mp outside
    obtain ⟨length, lengths⟩ := List.forall_mem_cons.mp blocks
    refine (ih lengths others).trans (if_neg ?_)
    rwa [length]

/-- A section is where it was loaded, when no other one covers it. -/
theorem imageSpace_of_mem {space : Space} {u : Nat} {p : PlacedSection}
    (blocks : ∀ p ∈ done, p.2.length = p.1.pages4K * 0x1000)
    (apart : done.Pairwise fun p q => ∀ u, p.1.InPages imageBase u → ¬q.1.InPages imageBase u)
    (member : p ∈ done) (inside : p.1.InPages imageBase u) :
    imageSpace imageBase space done u =
      some ⟨p.2.base + (u - (imageBase + p.1.virtualAddress)), p.1.pagerFlags⟩ := by
  induction done generalizing space with
  | nil => exact absurd member List.not_mem_nil
  | cons q rest ih =>
    obtain ⟨first, others⟩ := List.pairwise_cons.mp apart
    obtain ⟨length, lengths⟩ := List.forall_mem_cons.mp blocks
    rcases List.mem_cons.mp member with rfl | later
    · refine (imageSpace_other lengths fun r member => first r member u inside).trans ?_
      obtain ⟨_, _, visible⟩ := p.1.pagerFlags_bits
      refine (if_pos (by rwa [length])).trans ?_
      rw [Translation.visible, visible]
    · exact ih lengths others later

/-- The image of a file: what the processor sees, what it consists of, and what is as before. -/
structure Image (pager : Pager) (kept : BitVec 64 → Prop) (imageBase buffer : Nat)
    (records : SectionRecords) (m : Machine) (sections : List PagedSectionHeader)
    (done : List PlacedSection) (records' : SectionRecords) (m' : Machine) : Prop where
  sections : done.map Prod.fst = sections.filter (fun s => decide s.Loads)
  mapped : ∀ p ∈ done, ∀ i < p.1.pages4K * 0x1000,
    pager.spaceOf m'.memory (imageBase + p.1.virtualAddress + i) =
      some ⟨p.2.base + i, p.1.pagerFlags⟩
  content : ∀ p ∈ done, p.1.IsFilled → ∀ i < p.1.virtualSize,
    physicalByte m'.memory (p.2.base + i) =
      p.1.contentAt (fun o => physicalByte m.memory (buffer + o)) i
  elsewhere : ∀ u, Canonical u → (∀ p ∈ done, ¬p.1.InPages imageBase u) →
    pager.spaceOf m'.memory u = pager.spaceOf m.memory u
  owned : ∀ p ∈ done, p.2.length = p.1.pages4K * 0x1000 ∧
    ∀ f, p.2.HasFrame f → m'.allocator.Lent f ∧ ¬kept f ∧ ¬pager.IsTable m'.memory f
  apart : done.Pairwise fun p q => ∀ f, p.2.HasFrame f → ¬q.2.HasFrame f
  memory : ∀ f, kept f → m'.memory f = m.memory f
  physical : Extends records.physical records'.physical fun x => ∃ p ∈ done, p.2.Contains x
  virtual : Extends records.virtual records'.virtual fun x => ∃ p ∈ done, p.1.InPages imageBase x

theorem Paged.image {sections : List PagedSectionHeader}
    (paged : Paged pager kept imageBase buffer records m done records' m')
    (loadable : Loadable pager kept imageBase buffer m sections)
    (loaded : done.map Prod.fst = sections.filter (fun s => decide s.Loads)) :
    Image pager kept imageBase buffer records m sections done records' m' := by
  have lengths (p : PlacedSection) (member : p ∈ done) := (paged.blocks p member).1
  have loads {p : PlacedSection} (member : p ∈ done) : p.1 ∈ sections ∧ p.1.Loads := by
    have member' : p.1 ∈ sections.filter (fun s => decide s.Loads) :=
      loaded ▸ List.mem_map_of_mem member
    exact ⟨(List.mem_filter.mp member').1, of_decide_eq_true (List.mem_filter.mp member').2⟩
  have apart : done.Pairwise fun p q => ∀ u, p.1.InPages imageBase u →
      ¬q.1.InPages imageBase u := by
    have filtered := loadable.apart.filter fun s => decide s.Loads
    rw [← loaded, List.pairwise_map] at filtered
    exact filtered.imp_of_mem fun memberP memberQ beside =>
      beside (loads memberP).2 (loads memberQ).2
  have space (u : Nat) (canonical : Canonical u) : pager.spaceOf m'.memory u =
      imageSpace imageBase (pager.spaceOf m.memory) done u := paged.presents.walk u canonical
  constructor
  case sections => exact loaded
  case mapped =>
    intro p member i below
    have inside : p.1.InPages imageBase (imageBase + p.1.virtualAddress + i) :=
      ⟨Nat.le_add_right _ _, Nat.add_lt_add_left below _⟩
    have canonical := loadable.canonical p.1 (loads member).1 (loads member).2 _ inside
    rw [space _ canonical, imageSpace_of_mem lengths apart member inside, Nat.add_sub_cancel_left]
  case content => exact paged.content
  case elsewhere =>
    intro u canonical outside
    rw [space u canonical, imageSpace_other lengths outside]
  case owned =>
    refine fun p member => ⟨lengths p member, fun f here => ?_⟩
    obtain ⟨lent, unkept⟩ := paged.lent p member f here
    exact ⟨lent, unkept, paged.presents.keeps.apart f (Or.inr ⟨p, member, here⟩)⟩
  case apart => exact paged.apart
  case memory => exact paged.memory
  case physical => exact paged.physical
  case virtual => exact paged.virtual

/-! ### Errors -/

/-- The error is that of the first section that does not pass the checks. -/
def Refuses (optionalHeader : UnifiedOptionalHeader) (e : ExecutableLoadError)
    (sections : List PagedSectionHeader) : Prop :=
  ∃ before header after, sections = before ++ header :: after ∧
    (∀ s ∈ before, s.Accepted optionalHeader) ∧
    (header.has imageScnRefused = true ∧ e = .malformedSection ∨
      header.has imageScnRefused = false ∧
        header.virtualAddress % optionalHeader.sectionAlignment ≠ 0 ∧ e = .invalidAlignment)

private theorem page_error {va : Nat} :
    Yields (header.page pager buffer va records) m
      (fun r _ => ∀ e, r.1 = some e → e = .memoryError) fun _ _ => True := by
  have memory (e : ExecutableLoadError) (same : some .memoryError = some e) : e = .memoryError :=
    (Option.some.inj same).symm
  have none (e : ExecutableLoadError) (same : none = some e) : e = .memoryError := nomatch same
  unfold PagedSectionHeader.page
  rw [yields_ite]
  split
  next =>
    rw [yields_bind]
    refine (yields_any _ _).mono (fun block _ _ => ?_) fun _ _ _ => trivial
    cases block with
    | none => exact memory
    | some mb =>
      dsimp only
      rw [yields_bind]
      refine (yields_any _ _).mono (fun physical _ _ => ?_) fun _ _ _ => trivial
      rw [yields_bind]
      refine (yields_any _ _).mono (fun virtual _ _ => ?_) fun _ _ _ => trivial
      rw [yields_bind]
      refine (yields_any _ _).mono (fun mapped _ _ => ?_) fun _ _ _ => trivial
      cases mapped with
      | none =>
        dsimp only
        rw [yields_bind]
        exact (yields_any _ _).mono (fun _ _ _ => memory) fun _ _ _ => trivial
      | some _ =>
        dsimp only
        split
        · rw [yields_bind]
          exact (yields_any _ _).mono (fun _ _ _ => none) fun _ _ _ => trivial
        · exact none
  next => exact none

private theorem iterateSection_error :
    Yields (iterateSection pager buffer optionalHeader header records) m
      (fun r _ => (r.1 = none → header.Accepted optionalHeader) ∧
        ∀ e, r.1 = some e → e = .memoryError ∨ Refuses optionalHeader e [header])
      fun _ _ => True := by
  have first {e : ExecutableLoadError}
      (checks : header.has imageScnRefused = true ∧ e = .malformedSection ∨
        header.has imageScnRefused = false ∧
          header.virtualAddress % optionalHeader.sectionAlignment ≠ 0 ∧ e = .invalidAlignment) :
      Refuses optionalHeader e [header] :=
    ⟨[], header, [], rfl, fun s member => absurd member List.not_mem_nil, checks⟩
  unfold iterateSection
  rw [yields_ite]
  split
  next refused =>
    refine ⟨fun none => (nomatch none), fun e same => Or.inr (first (Or.inl ⟨refused, ?_⟩))⟩
    exact (Option.some.inj same).symm
  next whole =>
  rw [yields_ite]
  split
  next => trivial
  next =>
  rw [yields_ite]
  split
  next odd =>
    refine ⟨fun none => (nomatch none), fun e same => Or.inr (first (Or.inr ⟨?_, odd, ?_⟩))⟩
    · exact Bool.eq_false_iff.mpr whole
    · exact (Option.some.inj same).symm
  next divides =>
  have accepted : header.Accepted optionalHeader :=
    ⟨Bool.eq_false_iff.mpr whole, not_not.mp divides⟩
  rw [yields_ite]
  split
  next => exact ⟨fun _ => accepted, fun e none => nomatch none⟩
  next =>
    rw [yields_bind]
    refine Pager.addU64_yields (fun _ => ?_) trivial
    exact page_error.mono (fun r _ error => ⟨fun _ => accepted, fun e same =>
      Or.inl (error e same)⟩) fun _ _ _ => trivial

private theorem pageSections_error {sections : List PagedSectionHeader} :
    Yields (pageSections pager buffer optionalHeader sections records) m
      (fun r _ => ∀ e, r.1 = some e → e = .memoryError ∨ Refuses optionalHeader e sections)
      fun _ _ => True := by
  induction sections generalizing records m with
  | nil => exact fun e none => nomatch none
  | cons header rest ih =>
    rw [pageSections, yields_bind]
    refine iterateSection_error.mono ?_ fun _ _ _ => trivial
    rintro ⟨e, records₁⟩ m₁ ⟨accepted, errors⟩
    cases e with
    | some e =>
      intro e' same
      refine (errors e' same).imp_right ?_
      rintro ⟨before, s, after, split, checked, refused⟩
      refine ⟨before, s, after ++ rest, ?_, checked, refused⟩
      rw [← List.cons_append, ← List.append_assoc, ← split]
      rfl
    | none =>
      refine ih.mono (fun r m' later e same => (later e same).imp_right ?_) fun _ _ _ => trivial
      rintro ⟨before, s, after, rfl, checked, refused⟩
      exact ⟨header :: before, s, after, rfl,
        List.forall_mem_cons.mpr ⟨accepted rfl, checked⟩, refused⟩

/-! ### The whole call -/

/-- Sections of at most 2 MiB need no page of 2 MiB. -/
theorem runsStraight_of_small {sections : List PagedSectionHeader}
    (small : ∀ s ∈ sections, s.virtualSize ≤ pager2Mib) :
    RunsStraight pager buffer optionalHeader sections records m := by
  induction sections generalizing records m with
  | nil => trivial
  | cons header rest ih =>
    obtain ⟨first, others⟩ := List.forall_mem_cons.mp small
    refine ⟨fun _ mb a returned => Pager.straight_of_small ?_, fun _ _ _ => ih others⟩
    obtain ⟨_, k, _, _, rfl, _⟩ := m.allocator.alloc_ok returned
    have fewer := Nat.mod_le header.pages4K (2 ^ 16)
    have pages : header.pages4K ≤ 512 := by
      unfold PagedSectionHeader.pages4K
      unfold pager2Mib at first
      split <;> omega
    change header.pages4K % 2 ^ 16 * 0x1000 ≤ 0x200000
    omega

end Loop

section Samples

open Pager

/-- Code, data that is half zeros, pages without data, and a section that is discarded. -/
def sampleSections : List PagedSectionHeader :=
  [⟨⟨1, 0x1000, 0x20⟩, 0x200, 0x60000020⟩, ⟨⟨2, 0x2000, 0x220⟩, 1, 0xC0000040⟩,
    ⟨⟨0x1800, 0x3000, 0⟩, 0, 0xC0000080⟩, ⟨⟨0x100, 0x5000, 0x420⟩, 0x100, 0x42000040⟩]

def sampleOptionalHeader : UnifiedOptionalHeader := ⟨0x1000, 0x400000, 0x1000, 0x200, 0, 0, ⟨0, 0⟩⟩

/-- The machine with a file in the page that holds data. -/
def fileMachine : Machine :=
  ⟨fun f i => if f = 0x100000 then BitVec.ofNat 64 (0x0807060504030201 * (i + 1)) else 0,
    lentAllocator⟩

private theorem fileMachine_other {f : BitVec 64} {i : Index} (other : f ≠ 0x100000) :
    fileMachine.memory f i = 0 :=
  if_neg other

private theorem fileFresh : lentPager.Fresh fileMachine.memory :=
  ⟨by decide, fun _ => fileMachine_other (by decide)⟩

theorem fileMachine_stocked :
    fileMachine.allocator.Stocked fun f => f = 0x100000 ∨ f = lentPager.cr3 := by
  have stocked := lentAllocator_stocked
  refine ⟨stocked.current, stocked.freeable, fun k below clear used => ?_⟩
  rcases used with file | root
  · have first : lentAllocator.Freeable 1 0 := by decide
    have same := (stocked.freeable k below clear).frameOf_inj first (file.trans (by decide))
    rw [same] at clear
    exact absurd clear (by decide)
  · exact stocked.unused k below clear root

private theorem fileMachine_loadable :
    Loadable lentPager (· = 0x100000) 0x400000 0x100000 fileMachine sampleSections := by
  have bounds : ∀ s ∈ sampleSections, s.virtualAddress ≤ 0x5000 ∧ s.pages4K ≤ 2 ∧
      s.pointerToRawData + s.virtualSize ≤ 0x1800 ∧
        (s.sizeOfRawData = 0 ∨ s.pointerToRawData + s.virtualSize ≤ 0x1000) := by decide
  have order : sampleSections.Pairwise fun s t =>
      s.virtualAddress + s.pages4K * 0x1000 ≤ t.virtualAddress := by decide
  refine ⟨fun s member _ => ?_, fun s member _ u inside => Or.inl ?_, fun s _ _ u _ => ?_,
    fun s member _ _ i copies => ?_, order.imp fun behind _ _ u first second => ?_⟩
  · obtain ⟨_, pages, _⟩ := bounds s member
    omega
  · obtain ⟨start, pages, _⟩ := bounds s member
    have below := inside.2
    omega
  · have zero : lentPager.seen fileMachine.memory (translate u).third = 0 := by
      rw [seen]
      cases found : lentPager.view fileMachine.memory (translate u).third with
      | none => rfl
      | some e => exact fileFresh.view found
    rw [zero]
    rfl
  · obtain ⟨_, _, _, raw⟩ := bounds s member
    obtain ⟨below, inside⟩ := copies
    have page : (0x100000 + (s.pointerToRawData + i)) / 0x1000 * 0x1000 = 0x100000 := by omega
    rw [locate, page]
    rfl
  · have before := first.2
    have after := second.1
    omega

def sampleRecords : SectionRecords := ⟨some ⟨256, 0, []⟩, some ⟨256, 0, []⟩⟩

end Samples

end EmkKernel
