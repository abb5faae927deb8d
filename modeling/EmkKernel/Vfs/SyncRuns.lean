import EmkKernel.Vfs.Propagation

/-!
# Growing and telling

A call of `sync` tells the pages that were gained since the last one as long as the regions
grow together with the file region, and the hash maps do not end inside of a page that the
directories are credited with.
-/

namespace EmkKernel

open EStateM

namespace GfsSync

variable {answers : SyncIpi → Bool} {region : GfsRegion} {s s' s₀ : GfsSync} {apicId : Nat}
  {upTo last : GfsRegion → Nat} {todo : List GfsRegion}

/-- The pages that a region had when `sync` returned last. -/
def oldPages (s : GfsSync) (region : GfsRegion) : Nat := pagesOf (s.syncedBytes region)

def Gains (s : GfsSync) (region : GfsRegion) : Prop := s.oldPages region < s.pages region

/-- Every region with new pages has as many pages as the file region, and none of them was
counted one off because of how the hash maps end. -/
structure SyncsRight (s : GfsSync) : Prop where
  strings : s.Gains .strings → s.pages .strings = s.pages .files
  directories : s.Gains .directories → s.pages .directories = s.pages .files ∧
    s.syncedBytes .hashmaps % 0x1000 = 0
  hashmaps : s.Gains .hashmaps → s.pages .hashmaps = s.pages .files ∧
    s.syncedBytes .hashmaps % 0x1000 = 0 ∧
      (s.bytes .hashmaps % 0x1000 = 0 ∨ s.oldPages .hashmaps + 1 < s.pages .hashmaps)
  counted : ¬s.Gains .directories →
    (s.bytes .hashmaps % 0x1000 = 0 ↔ s.syncedBytes .hashmaps % 0x1000 = 0) ∨
      s.syncedBytes .hashmaps % 0x1000 = 0 ∧ s.pages .files ≤ s.pages .directories ∧
        s.pages .directories % 512 ≠ 0

instance (s : GfsSync) (region : GfsRegion) : Decidable (s.Gains region) :=
  inferInstanceAs (Decidable (_ < _))

instance (s : GfsSync) : Decidable s.SyncsRight :=
  decidable_of_iff
    ((s.Gains .strings → s.pages .strings = s.pages .files) ∧
      (s.Gains .directories → s.pages .directories = s.pages .files ∧
        s.syncedBytes .hashmaps % 0x1000 = 0) ∧
      (s.Gains .hashmaps → s.pages .hashmaps = s.pages .files ∧
        s.syncedBytes .hashmaps % 0x1000 = 0 ∧
          (s.bytes .hashmaps % 0x1000 = 0 ∨ s.oldPages .hashmaps + 1 < s.pages .hashmaps)) ∧
      (¬s.Gains .directories →
        (s.bytes .hashmaps % 0x1000 = 0 ↔ s.syncedBytes .hashmaps % 0x1000 = 0) ∨
          s.syncedBytes .hashmaps % 0x1000 = 0 ∧ s.pages .files ≤ s.pages .directories ∧
            s.pages .directories % 512 ≠ 0))
    ⟨fun ⟨a, b, c, d⟩ => ⟨a, b, c, d⟩, fun ⟨a, b, c, d⟩ => ⟨a, b, c, d⟩⟩

/-- The invariant between the calls. -/
structure Synced (s : GfsSync) : Prop where
  keys : ∀ vaddr, vaddr ∈ s.mapped.map Prod.fst ↔
    ∃ region i, i < s.pages region ∧ vaddr = region.address i
  bounded : ∀ region, s.syncedBytes region ≤ s.bytes region ∧ s.bytes region ≤ 0x80000000
  files : s.lastPageSynchronised .files = s.oldPages .files
  directories : s.lastPageSynchronised .directories = s.oldPages .directories +
    if s.syncedBytes .hashmaps % 0x1000 ≠ 0 then 1 else 0
  hashmaps : s.lastPageSynchronised .hashmaps = s.syncedBytes .hashmaps / 0x1000
  strings : s.lastPageSynchronised .strings = s.oldPages .strings
  told : ∀ apicId, s.Other apicId → s.Told s.oldPages apicId
  calls : ∀ ipi ∈ s.sent, ipi.call < s.calls

private theorem pagesOf_mono {b b' : Nat} (less : b ≤ b') : pagesOf b ≤ pagesOf b' := by
  unfold pagesOf
  omega

theorem Synced.inside (synced : s.Synced) (region : GfsRegion) :
    s.oldPages region ≤ s.pages region ∧ s.pages region ≤ 0x80000 := by
  obtain ⟨grown, bound⟩ := synced.bounded region
  exact ⟨pagesOf_mono grown, pagesOf_mono bound⟩

/-! ## One call -/

/-- A call has told of some regions and has others left to do. -/
structure During (s₀ : GfsSync) (upTo last : GfsRegion → Nat) (todo : List GfsRegion)
    (s : GfsSync) : Prop where
  same : ∃ sent, s = { s₀ with sent := sent, lastPageSynchronised := last }
  left : ∀ region ∈ todo, last region = s₀.lastPageSynchronised region
  bound : ∀ region, upTo region ≤ s₀.pages region ∧ s₀.pages region ≤ 0x80000
  told : ∀ apicId, s₀.Other apicId → s.Told upTo apicId
  new : ∀ ipi ∈ s.sent, ipi.call < s₀.calls ∨ ipi.call = s₀.calls ∧ ipi.region ∉ todo

theorem VisitsNew.congr {u counted stop : Nat} (visits : s₀.VisitsNew region u counted stop)
    {sent : List SyncIpi} (left : last region = s₀.lastPageSynchronised region) :
    VisitsNew { s₀ with sent := sent, lastPageSynchronised := last } region u counted stop := by
  cases visits with
  | none same old => exact .none (by simpa only [left] using same) old
  | all more start new whole =>
    exact .all (by simpa only [left] using more) (by simpa only [left] using start) new whole
  | empty more before old mapped =>
    exact .empty (by simpa only [left] using more) (by simpa only [left] using before) old
      (by simp only [left]; exact mapped)

/-- The turn of one region. -/
theorem During.turn {counted stop : Nat} (during : During s₀ upTo last (region :: todo) s)
    (once : region ∉ todo) (visits : s₀.VisitsNew region (upTo region) counted stop)
    (mapped : ∀ i < s₀.pages region, s₀.Mapped (region.address i)) :
    Yields (syncRegion answers stop region counted (counted - s₀.lastPageSynchronised region)) s
      (fun _ => During s₀ (Function.update upTo region (s₀.pages region))
        (Function.update last region counted) todo) (Stuck answers) := by
  obtain ⟨sent, rfl⟩ := during.same
  have left := during.left region List.mem_cons_self
  have yields : Yields (syncRegion answers stop region counted (counted - last region))
      { s₀ with sent := sent, lastPageSynchronised := last } _ (Stuck answers) :=
    syncRegion_yields (visits.congr left) mapped
  rw [left] at yields
  refine yields.mono ?_ fun _ _ stuck => stuck
  intro _ s' propagates
  have others : ∀ r ∈ todo, r ≠ region := fun r member same => once (same ▸ member)
  obtain ⟨sent', same⟩ := propagates.same
  constructor
  · exact ⟨sent', same⟩
  · intro r member
    rw [Function.update_of_ne (others r member)]
    exact during.left r (List.mem_cons_of_mem _ member)
  · intro r
    by_cases here : r = region
    · subst here
      rw [Function.update_self]
      exact ⟨Nat.le_refl _, (during.bound r).2⟩
    · rw [Function.update_of_ne here]
      exact during.bound r
  · intro apicId other
    refine (during.told apicId other).extend other propagates ?_ during.bound
    intro ipi member current here
    rcases during.new ipi member with before | ⟨_, done⟩
    · exact absurd current (Nat.ne_of_lt before)
    · exact done (here ▸ List.mem_cons_self)
  · obtain ⟨batch, base, sends, -⟩ := propagates.sends
    intro ipi member
    rcases sends.sent ipi member with old | ⟨here, current⟩
    · rcases during.new ipi old with before | ⟨current, done⟩
      · exact Or.inl before
      · exact Or.inr ⟨current, fun inTodo => done (List.mem_cons_of_mem _ inTodo)⟩
    · exact Or.inr ⟨current, here ▸ once⟩

private theorem subPages_yields {pages last : Nat} (le : last ≤ pages)
    {R : SyncPanic → GfsSync → Prop} :
    Yields (subPages pages last) s (fun new s' => new = pages - last ∧ s = s') R := by
  unfold subPages
  rw [if_neg (by omega)]
  exact ⟨rfl, rfl⟩

private theorem pageCount {bytes : Nat} (bound : bytes ≤ 0x80000000) :
    (bytes % 2 ^ 32 / 0x1000 + if bytes % 2 ^ 32 % 0x1000 ≠ 0 then 1 else 0) = pagesOf bytes := by
  rw [Nat.mod_eq_of_lt (by omega)]
  unfold pagesOf
  split <;> omega

/-- The tables hold the pages of the regions. -/
theorem Synced.mapped (synced : s.Synced) {i : Nat} (below : i < s.pages region) :
    s.Mapped (region.address i) := by
  refine ⟨region.address_low i, ?_⟩
  obtain ⟨page, member, same⟩ :=
    List.mem_map.1 ((synced.keys (region.address i)).2 ⟨region, i, below, rfl⟩)
  exact List.any_eq_true.2 ⟨page, member, by rw [same]; exact beq_self_eq_true _⟩

/-- Behind the last page there is an entry, unless the page fills its table. -/
theorem Synced.mapped_behind (synced : s.Synced) (inTable : s.pages region % 512 ≠ 0) :
    s.Mapped (region.address (s.pages region)) := by
  refine ⟨region.address_low _, ?_⟩
  have page : s.Mapped (region.address (s.pages region - 1)) := synced.mapped (by omega)
  obtain ⟨_, there⟩ := page
  have table : region.address (s.pages region - 1) / 0x200000 =
      region.address (s.pages region) / 0x200000 := by
    cases region <;>
    simp only [GfsRegion.address, GfsRegion.fixedVaddr, gfsFilesFixedVaddr, gfsDirectoryFixedVaddr,
      gfsHashmapFixedVaddr, gfsStringsFixedVaddr] at inTable ⊢ <;>
    omega
  rw [hasTable, table] at there
  exact there

/-! ## What the loops visit -/

private theorem Synced.visits_files (synced : s.Synced) :
    s.VisitsNew .files (s.oldPages .files) (s.pages .files) (s.pages .files) := by
  have last := synced.files
  by_cases gains : s.Gains .files
  · exact .all (by rw [last]; exact gains) last gains rfl
  · have := (synced.inside .files).1
    have old : s.pages .files = s.oldPages .files := by
      unfold Gains at gains
      omega
    exact .none (old.trans last.symm) old

private theorem Synced.visits_strings (synced : s.Synced) (right : s.SyncsRight) :
    s.VisitsNew .strings (s.oldPages .strings) (s.pages .strings) (s.pages .files) := by
  have last := synced.strings
  by_cases gains : s.Gains .strings
  · have same := right.strings gains
    exact .all (by rw [last]; exact gains) last (by rw [← same]; exact gains) same.symm
  · have := (synced.inside .strings).1
    have old : s.pages .strings = s.oldPages .strings := by
      unfold Gains at gains
      omega
    exact .none (old.trans last.symm) old

private theorem Synced.visits_directories (synced : s.Synced) (right : s.SyncsRight) :
    s.VisitsNew .directories (s.oldPages .directories)
      (s.pages .directories + if s.bytes .hashmaps % 0x1000 ≠ 0 then 1 else 0)
      (s.pages .files) := by
  have last := synced.directories
  by_cases gains : s.Gains .directories
  · obtain ⟨same, whole⟩ := right.directories gains
    rw [if_neg (not_not.2 whole), Nat.add_zero] at last
    exact .all (by rw [last]; exact Nat.lt_add_right _ gains) last
      (by rw [← same]; exact gains) same.symm
  · have := (synced.inside .directories).1
    have old : s.pages .directories = s.oldPages .directories := by
      unfold Gains at gains
      omega
    rcases right.counted gains with same | ⟨whole, before, inTable⟩
    · refine .none ?_ old
      rw [last, old]
      simp only [ne_eq, same]
    · -- the directories are credited with the page in which the hash maps end
      rw [if_neg (not_not.2 whole), Nat.add_zero] at last
      by_cases now : s.bytes .hashmaps % 0x1000 = 0
      · refine .none ?_ old
        rw [last, old, if_neg (not_not.2 now), Nat.add_zero]
      · rw [if_pos now]
        refine .empty (by omega) (by omega) old ?_
        rw [last, ← old]
        exact synced.mapped_behind inTable

private theorem Synced.visits_hashmaps (synced : s.Synced) (right : s.SyncsRight) :
    s.VisitsNew .hashmaps (s.oldPages .hashmaps) (s.bytes .hashmaps / 0x1000) (s.pages .files) := by
  have last := synced.hashmaps
  have grown := (synced.bounded .hashmaps).1
  have few := (synced.inside .hashmaps).1
  by_cases gains : s.Gains .hashmaps
  · obtain ⟨same, whole, ends⟩ := right.hashmaps gains
    have start : s.syncedBytes .hashmaps / 0x1000 = s.oldPages .hashmaps := by
      unfold oldPages pagesOf
      omega
    refine .all ?_ (last.trans start) (by rw [← same]; exact gains) same.symm
    rw [last, start]
    unfold Gains at gains
    unfold oldPages pages pagesOf at *
    omega
  · have old : s.pages .hashmaps = s.oldPages .hashmaps := by
      unfold Gains at gains
      omega
    have even : s.bytes .hashmaps % 0x1000 = 0 → s.syncedBytes .hashmaps % 0x1000 = 0 := by
      intro now
      by_cases directories : s.Gains .directories
      · exact (right.directories directories).2
      · rcases right.counted directories with same | ⟨whole, -⟩
        · exact same.1 now
        · exact whole
    refine .none ?_ old
    rw [last]
    unfold oldPages pages pagesOf at old
    omega

/-! ## The call -/

theorem VisitsNew.counts {u counted stop : Nat} (visits : s.VisitsNew region u counted stop) :
    s.lastPageSynchronised region ≤ counted := by
  cases visits with
  | none same _ => exact Nat.le_of_eq same.symm
  | all more _ _ _ => exact Nat.le_of_lt more
  | empty more _ _ _ => exact Nat.le_of_lt more

/-- The counters after a call. -/
def counters (s : GfsSync) : GfsRegion → Nat
  | .files => s.pages .files
  | .directories => s.pages .directories + if s.bytes .hashmaps % 0x1000 ≠ 0 then 1 else 0
  | .hashmaps => s.bytes .hashmaps / 0x1000
  | .strings => s.pages .strings

/-- When no region is left, every other processor knows all pages. -/
theorem During.done (during : During s s.pages s.counters [] s') (synced : s.Synced) :
    ({ s' with calls := s'.calls + 1, syncedBytes := s'.bytes } : GfsSync).Synced ∧
      ({ s' with calls := s'.calls + 1, syncedBytes := s'.bytes } : GfsSync).ToldEveryPage := by
  obtain ⟨sent, rfl⟩ := during.same
  have told : ToldEveryPage { s with
      sent := sent
      lastPageSynchronised := s.counters
      calls := s.calls + 1
      syncedBytes := s.bytes } :=
    fun apicId other => (during.told apicId other).congr rfl fun _ _ _ => rfl
  refine ⟨?_, told⟩
  constructor
  · exact synced.keys
  · exact fun region => ⟨Nat.le_refl _, (synced.bounded region).2⟩
  · rfl
  · rfl
  · rfl
  · rfl
  · exact told
  · intro ipi member
    rcases during.new ipi member with before | ⟨current, -⟩
    · exact Nat.lt_succ_of_lt before
    · exact current ▸ Nat.lt_succ_self _

private theorem sync_yields (synced : s.Synced) (right : s.SyncsRight) :
    Yields (sync answers) s (fun _ s' => s'.Synced ∧ s'.ToldEveryPage) (Stuck answers) := by
  have bound := fun region => (synced.bounded region).2
  have files := synced.visits_files
  have directories := synced.visits_directories right
  have hashmaps := synced.visits_hashmaps right
  have strings := synced.visits_strings right
  have small : s.bytes .hashmaps % 2 ^ 32 = s.bytes .hashmaps :=
    Nat.mod_eq_of_lt (by have := bound .hashmaps; omega)
  have start : During s s.oldPages s.lastPageSynchronised
      [.files, .directories, .hashmaps, .strings] s :=
    ⟨⟨s.sent, rfl⟩, fun _ _ => rfl, synced.inside, synced.told,
      fun ipi member => Or.inl (synced.calls ipi member)⟩
  unfold sync
  simp only [yields_bind, yields_get, yields_modify, pageCount (bound _), small]
  refine (subPages_yields files.counts).mono ?_ fun _ _ stuck => stuck
  rintro _ _ ⟨rfl, rfl⟩
  refine (subPages_yields directories.counts).mono ?_ fun _ _ stuck => stuck
  rintro _ _ ⟨rfl, rfl⟩
  refine (subPages_yields hashmaps.counts).mono ?_ fun _ _ stuck => stuck
  rintro _ _ ⟨rfl, rfl⟩
  refine (subPages_yields strings.counts).mono ?_ fun _ _ stuck => stuck
  rintro _ _ ⟨rfl, rfl⟩
  have mapped := fun region i (below : i < s.pages region) => synced.mapped below
  refine (start.turn (by decide) files (mapped _)).mono ?_ fun _ _ stuck => stuck
  intro _ s₁ during₁
  refine (during₁.turn (by decide) directories (mapped _)).mono ?_ fun _ _ stuck => stuck
  intro _ s₂ during₂
  refine (during₂.turn (by decide) hashmaps (mapped _)).mono ?_ fun _ _ stuck => stuck
  intro _ s₃ during₃
  refine (during₃.turn (by decide) strings (mapped _)).mono ?_ fun _ _ stuck => stuck
  intro _ s₄ during₄
  refine During.done ?_ synced
  convert during₄ using 1
  · funext region
    cases region <;> rfl
  · funext region
    cases region <;> rfl

/-! ## Runs -/

theorem grow_frame {frames : List Nat} {bytes : Nat} (grown : s.grow region frames bytes = some s')
    {vaddr : Nat} (there : vaddr ∈ s.mapped.map Prod.fst) : s'.frame vaddr = s.frame vaddr := by
  unfold grow at grown
  split at grown
  · cases grown
    obtain ⟨page, member, rfl⟩ := List.mem_map.1 there
    simp only [frame, List.lookup_append]
    cases found : s.mapped.lookup page.1 with
    | some f => rfl
    | none =>
      have absent := List.lookup_eq_none_iff.1 found page member
      simp at absent
  · cases grown

theorem Synced.grow {frames : List Nat} {bytes : Nat} (synced : s.Synced)
    (grown : s.grow region frames bytes = some s') : s'.Synced := by
  have kept : ∀ vaddr ∈ s.mapped.map Prod.fst, s'.frame vaddr = s.frame vaddr :=
    fun _ there => grow_frame grown there
  unfold GfsSync.grow at grown
  split at grown
  next room =>
    obtain ⟨more, bound, count⟩ := room
    cases grown
    have pages : ∀ r, pagesOf (Function.update s.bytes region bytes r) =
        s.pages r + if r = region then frames.length else 0 := by
      intro r
      by_cases here : r = region
      · subst here
        rw [Function.update_self, if_pos rfl]
        exact count.symm
      · rw [Function.update_of_ne here, if_neg here]
        rfl
    constructor
    · intro vaddr
      change vaddr ∈ (s.mapped ++ _).map Prod.fst ↔ ∃ r i,
        i < pagesOf (Function.update s.bytes region bytes r) ∧ vaddr = r.address i
      simp only [pages, List.map_append, List.mem_append, synced.keys]
      constructor
      · rintro (⟨r, i, below, rfl⟩ | new)
        · exact ⟨r, i, Nat.lt_add_right _ below, rfl⟩
        · obtain ⟨page, member, rfl⟩ := List.mem_map.1 new
          obtain ⟨i, below, rfl⟩ := List.mem_mapIdx.1 member
          exact ⟨region, s.pages region + i, by rw [if_pos rfl]; omega, rfl⟩
      · rintro ⟨r, i, below, rfl⟩
        by_cases old : i < s.pages r
        · exact Or.inl ⟨r, i, old, rfl⟩
        · -- a page behind the old ones is of the region that grew
          split at below
          next here =>
            subst here
            have inside : i - s.pages r < frames.length := by omega
            refine Or.inr (List.mem_map.2 ⟨_, List.mem_mapIdx.2 ⟨i - s.pages r, inside, rfl⟩, ?_⟩)
            rw [Nat.add_sub_cancel' (Nat.le_of_not_lt old)]
          next => exact absurd below old
    · intro r
      obtain ⟨grown, below⟩ := synced.bounded r
      by_cases here : r = region
      · subst here
        simp only [Function.update_self]
        exact ⟨Nat.le_trans grown more, bound⟩
      · simp only [Function.update_of_ne here]
        exact ⟨grown, below⟩
    · exact synced.files
    · exact synced.directories
    · exact synced.hashmaps
    · exact synced.strings
    · intro apicId other
      refine (synced.told apicId other).congr rfl ?_
      intro r i below
      exact kept _ ((synced.keys _).2 ⟨r, i, Nat.lt_of_lt_of_le below (synced.inside r).1, rfl⟩)
    · exact synced.calls
  next => cases grown

/-- The calls that meet the condition; a region may grow at any time. -/
def Meets (s : GfsSync) : GfsRequest → Prop
  | .grow _ _ _ => True
  | .sync _ => s.SyncsRight

instance (s : GfsSync) (request : GfsRequest) : Decidable (s.Meets request) :=
  match request with
  | .grow _ _ _ => .isTrue trivial
  | .sync _ => inferInstanceAs (Decidable s.SyncsRight)

private theorem serve_sync : s.serve (.sync answers) = some s' ↔ sync answers s = .ok () s' := by
  cases ran : sync answers s with
  | ok _ _ => simp [GfsSync.serve, ran]
  | error _ _ => simp [GfsSync.serve, ran]

theorem Synced.serve {request : GfsRequest} (synced : s.Synced) (meets : s.Meets request)
    (served : s.serve request = some s') : s'.Synced := by
  cases request with
  | grow region frames bytes => exact synced.grow served
  | sync answers =>
    exact ((sync_yields synced meets).ok (serve_sync.1 served)).1

end GfsSync

namespace GfsMemory

variable {memory : GfsMemory} {s : GfsSync}

theorem pages_new (region : GfsRegion) : memory.new.pages region = 32 := by
  have positive := memory.positive region
  have small := memory.small region
  have whole := Nat.div_add_mod 0x20000 (memory.structureSize region)
  have rest := Nat.mod_lt 0x20000 positive
  rw [Nat.mul_comm] at whole
  simp only [GfsSync.pages, new, GfsSync.pagesOf]
  omega

private theorem oldPages_new (region : GfsRegion) : memory.new.oldPages region = 0 := by
  simp [GfsSync.oldPages, new, GfsSync.pagesOf]

/-- Nothing was told after `GeneralFileSystem::new`, which maps the pages. -/
theorem new_synced : memory.new.Synced := by
  constructor
  · intro vaddr
    simp only [pages_new]
    simp only [new, mapVirtual, List.mem_map, List.mem_flatMap, List.mem_range]
    constructor
    · rintro ⟨page, ⟨i, below, region, -, rfl⟩, rfl⟩
      exact ⟨region, i, below, by simp only [GfsRegion.address, Nat.mul_comm]⟩
    · rintro ⟨region, i, below, rfl⟩
      refine ⟨_, ⟨i, below, region, by cases region <;> simp, rfl⟩, ?_⟩
      simp only [GfsRegion.address, Nat.mul_comm]
  · intro region
    have whole := Nat.div_mul_le_self 0x20000 (memory.structureSize region)
    exact ⟨Nat.zero_le _, by simp only [new]; omega⟩
  · exact (oldPages_new _).symm
  · rw [oldPages_new]
    rfl
  · exact (Nat.zero_div _).symm
  · exact (oldPages_new _).symm
  · intro apicId _
    refine ⟨?_, List.nodup_nil, .nil⟩
    intro page
    constructor
    · intro member
      cases member
    · rintro ⟨region, i, below, -⟩
      rw [oldPages_new] at below
      exact absurd below (Nat.not_lt_zero i)
  · intro ipi member
    cases member

/-- In a run whose calls of `sync` all meet the condition, every call tells every other processor
to map every page at its address to its frame, each page once over all calls, or panics because a
processor does not answer. -/
theorem told_every_page (run : Requests.Run GfsSync.serve GfsSync.Meets memory.new s)
    (right : s.SyncsRight) (answers : SyncIpi → Bool) :
    Yields (GfsSync.sync answers) s (fun _ s' => s'.ToldEveryPage) (GfsSync.Stuck answers) := by
  have synced : s.Synced := run.keeps new_synced fun _ _ _ synced meets served =>
    synced.serve meets served
  exact (GfsSync.sync_yields synced right).mono (fun _ _ told => told.2) fun _ _ stuck => stuck

/-- Structures that fill their pages, and three processors. -/
def even : GfsMemory where
  structureSize
    | .strings => 1
    | _ => 64
  positive region := by cases region <;> decide
  small region := by cases region <;> decide
  strings := rfl
  block
    | .files => ⟨0x100000, 0x20000⟩
    | .directories => ⟨0x120000, 0x20000⟩
    | .hashmaps => ⟨0x200000, 0x20000⟩
    | .strings => ⟨0x300000, 0x20000⟩
  processors := ⟨[0, 1, 2], 0, by decide⟩

/-- The regions of files and of strings grow by a page between two calls. -/
def grownTogether : List GfsSync.GfsRequest :=
  [.sync fun _ => true, .grow .files [0x500000] 0x21000, .grow .strings [0x700000] 0x21000]

theorem told_every_page_even : ∃ s, (Requests.serveAll GfsSync.serve GfsSync.Meets even.new
    grownTogether) = some s ∧ Yields (GfsSync.sync fun _ => true) s
      (fun _ s' => s'.ToldEveryPage) (GfsSync.Stuck fun _ => true) := by
  have ran : ((Requests.serveAll GfsSync.serve GfsSync.Meets even.new grownTogether).any
      fun s => decide s.SyncsRight) = true := by
    decide +kernel
  obtain ⟨s, served, right⟩ := (Option.any_eq_true _ _).1 ran
  exact ⟨s, served, told_every_page (Requests.serveAll_run served) (of_decide_eq_true right) _⟩

/-- The page that only the strings have gained is told to nobody. -/
theorem page_not_told : ∃ s s', Requests.Run GfsSync.serve (fun _ _ => True) even.new s ∧
    GfsSync.sync (fun _ => true) s = .ok () s' ∧ ¬s'.ToldEveryPage := by
  have ran : ((Requests.serveAll GfsSync.serve (fun _ _ => True) even.new
      [.sync fun _ => true, .grow .strings [0x700000] 0x21000]).any fun s =>
        (s.serve (.sync fun _ => true)).any fun s' =>
          decide (1 ∈ s'.processors.localApics ∧ 1 ≠ s'.processors.own ∧
            32 < s'.pages .strings ∧ (GfsRegion.strings.address 32,
              s'.frame (GfsRegion.strings.address 32)) ∉ s'.toldPages 1)) = true := by
    decide +kernel
  obtain ⟨s, served, ends⟩ := (Option.any_eq_true _ _).1 ran
  obtain ⟨s', returned, missing⟩ := (Option.any_eq_true _ _).1 ends
  obtain ⟨member, other, page, absent⟩ := of_decide_eq_true missing
  refine ⟨s, s', Requests.serveAll_run served, GfsSync.serve_sync.1 returned, ?_⟩
  intro told
  exact absent (((told 1 ⟨member, other⟩).pages _).2 ⟨.strings, 32, page, rfl⟩)

end GfsMemory

end EmkKernel
