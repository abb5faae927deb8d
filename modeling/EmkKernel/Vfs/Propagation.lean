import EmkKernel.Vfs.Sync
import Mathlib.Data.List.Chain

/-!
# What the other processors are told

The loop of a region cuts the pages it visits into blocks, so a processor learns of exactly
these pages. What a call of `sync` tells of a region is right when the loop visits the pages
that the region has gained since the last call.
-/

namespace EmkKernel

open EStateM

/-- The pages that a request maps, in the order in which its handler does. -/
def blockPages (block : MemoryBlock × Nat) : List (Nat × Nat) :=
  (List.range (block.1.length / 0x1000)).map fun i =>
    (block.2 + i * 0x1000, block.1.base + i * 0x1000)

private theorem blockPages_one (physical vaddr : Nat) :
    blockPages (⟨physical, 0x1000⟩, vaddr) = [(vaddr, physical)] := by
  simp [blockPages]

private theorem blockPages_add {base length vaddr : Nat} (whole : length % 0x1000 = 0) :
    blockPages (⟨base, length + 0x1000⟩, vaddr) =
      blockPages (⟨base, length⟩, vaddr) ++ [(vaddr + length, base + length)] := by
  have more : (length + 0x1000) / 0x1000 = length / 0x1000 + 1 := by omega
  have last : length / 0x1000 * 0x1000 = length := by omega
  simp only [blockPages, more, List.range_succ, List.map_append, List.map_cons, List.map_nil, last]

private theorem GfsRegion.address_add (region : GfsRegion) (i j : Nat) :
    region.address i + j * 0x1000 = region.address (i + j) := by
  simp only [address, Nat.add_mul]
  omega

theorem GfsRegion.address_low (region : GfsRegion) (i : Nat) : region.address i % 0x1000 = 0 := by
  cases region <;>
  simp only [address, fixedVaddr, gfsFilesFixedVaddr, gfsDirectoryFixedVaddr, gfsHashmapFixedVaddr,
    gfsStringsFixedVaddr] <;>
  omega

/-- The regions do not overlap. -/
theorem GfsRegion.address_injective {region region' : GfsRegion} {i j : Nat}
    (inside : i < 0x80000) (inside' : j < 0x80000)
    (same : region.address i = region'.address j) : region = region' ∧ i = j := by
  cases region <;> cases region' <;>
  simp only [address, fixedVaddr, gfsFilesFixedVaddr, gfsDirectoryFixedVaddr, gfsHashmapFixedVaddr,
    gfsStringsFixedVaddr, reduceCtorEq, false_and, true_and] at same ⊢ <;>
  omega

namespace GfsSync

variable {answers : SyncIpi → Bool} {region : GfsRegion} {s s' s'' : GfsSync}
  {batch batch' : List (MemoryBlock × Nat)} {apicId : Nat}

def Other (s : GfsSync) (apicId : Nat) : Prop :=
  apicId ∈ s.processors.localApics ∧ apicId ≠ s.processors.own

/-- The requests to a processor. -/
def ipis (s : GfsSync) (apicId : Nat) : List SyncIpi :=
  s.sent.filter fun ipi => ipi.apicId = apicId

def toldPages (s : GfsSync) (apicId : Nat) : List (Nat × Nat) :=
  (s.ipis apicId).flatMap fun ipi => blockPages (ipi.paddr, ipi.vaddr)

/-- Two requests about a region from one call that were not to be one request. -/
def Apart (a b : SyncIpi) : Prop :=
  a.region = b.region → a.call = b.call → b.paddr.base ≠ a.paddr.base + a.paddr.length

/-- A processor was told to map the first pages of each region, every page once. -/
structure Told (s : GfsSync) (upTo : GfsRegion → Nat) (apicId : Nat) : Prop where
  pages : ∀ page, page ∈ s.toldPages apicId ↔ ∃ region i, i < upTo region ∧
    page = (region.address i, s.frame (region.address i))
  once : ((s.toldPages apicId).map Prod.fst).Nodup
  coalesced : (s.ipis apicId).IsChain Apart

/-- Every other processor was told to map all pages. -/
def ToldEveryPage (s : GfsSync) : Prop := ∀ apicId, s.Other apicId → s.Told s.pages apicId

/-! ## Requests -/

def message (s : GfsSync) (region : GfsRegion) (apicId : Nat) (block : MemoryBlock × Nat) :
    SyncIpi := ⟨apicId, block.1, block.2, region, s.calls⟩

/-- From `s` to `s'` every other processor was sent the blocks of a batch. -/
structure Sends (s : GfsSync) (region : GfsRegion) (batch : List (MemoryBlock × Nat))
    (s' : GfsSync) : Prop where
  same : ∃ sent, s' = { s with sent := sent }
  ipis : ∀ apicId, s.Other apicId →
    s'.ipis apicId = s.ipis apicId ++ batch.map (s.message region apicId)
  sent : ∀ ipi ∈ s'.sent, ipi ∈ s.sent ∨ ipi.region = region ∧ ipi.call = s.calls

theorem Sends.refl (s : GfsSync) (region : GfsRegion) : Sends s region [] s :=
  ⟨⟨s.sent, rfl⟩, fun _ _ => (List.append_nil _).symm, fun _ member => Or.inl member⟩

theorem Sends.trans (first : Sends s region batch s') (second : Sends s' region batch' s'') :
    Sends s region (batch ++ batch') s'' := by
  obtain ⟨sent, rfl⟩ := first.same
  obtain ⟨sent', rfl⟩ := second.same
  refine ⟨⟨sent', rfl⟩, ?_, ?_⟩
  · intro apicId other
    rw [second.ipis apicId other, first.ipis apicId other, List.map_append, List.append_assoc]
    rfl
  · intro ipi member
    rcases second.sent ipi member with old | new
    · exact first.sent ipi old
    · exact Or.inr new

/-- The end of a call that a processor leaves without an answer. -/
def Stuck (answers : SyncIpi → Bool) (e : SyncPanic) (_ : GfsSync) : Prop :=
  e = .gotStuck ∧ ∃ ipi, answers ipi = false

private theorem filter_turns {ids : List Nat} {own : Nat} {send : Nat → SyncIpi}
    (distinct : ids.Nodup)
    (receiver : ∀ id, (send id).apicId = id) (member : apicId ∈ ids) (other : apicId ≠ own) :
    ((ids.filter (· ≠ own)).map send).filter (fun ipi => ipi.apicId = apicId) = [send apicId] := by
  have turn : (ids.filter (· ≠ own)).filter (· = apicId) = [apicId] := by
    rw [List.filter_eq, List.count_eq_one_of_mem (distinct.filter _)]
    · rfl
    · simpa using ⟨member, other⟩
  rw [List.filter_map, show (fun ipi : SyncIpi => decide (ipi.apicId = apicId)) ∘ send =
    fun id => decide (id = apicId) from funext fun id => by simp [receiver], turn]
  rfl

private theorem sendSyncIpi_yields (memoryBlock : MemoryBlock) (vaddr : Nat) :
    Yields (sendSyncIpi answers region memoryBlock vaddr) s
      (fun _ => Sends s region [(memoryBlock, vaddr)]) (Stuck answers) := by
  let send := fun id => s.message region id (memoryBlock, vaddr)
  have turns : Yields (s.processors.localApics.forM fun lapic =>
      sendTo answers s.processors.own (send lapic)) s
      (fun _ s' => s' = { s with
        sent := s.sent ++ (s.processors.localApics.filter (· ≠ s.processors.own)).map send })
      (Stuck answers) := by
    -- the loop keeps: the processors before the current one were sent the request
    let Inv := fun (rest : List Nat) (s' : GfsSync) => ∃ before,
      before ++ rest = s.processors.localApics ∧ s' = { s with
        sent := s.sent ++ (before.filter (· ≠ s.processors.own)).map send }
    have begins : Inv s.processors.localApics s := ⟨[], rfl, by simp⟩
    refine (yields_forM _ Inv ?_ begins).mono ?_ fun _ _ stuck => stuck
    rotate_left
    · rintro _ s' ⟨before, all, rfl⟩
      rw [List.append_nil] at all
      rw [all]
    · rintro lapic rest _ ⟨before, all, rfl⟩
      have all' : (before ++ [lapic]) ++ rest = s.processors.localApics := by
        rw [← all, List.append_assoc]
        rfl
      unfold sendTo
      have receiver : (send lapic).apicId = lapic := rfl
      rw [receiver]
      split
      next other =>
        simp only [yields_bind, yields_modify, yields_ite, yields_pure, yields_throw]
        split
        · refine ⟨before ++ [lapic], all', ?_⟩
          simp [other]
        next silent => exact ⟨rfl, send lapic, by simpa using silent⟩
      next own =>
        refine ⟨before ++ [lapic], all', ?_⟩
        simp only [ne_eq, Decidable.not_not] at own
        simp [own]
  unfold sendSyncIpi
  simp only [yields_bind, yields_get]
  refine turns.mono ?_ fun _ _ stuck => stuck
  rintro _ s' rfl
  refine ⟨⟨_, rfl⟩, ?_, ?_⟩
  · intro apicId other
    simp only [GfsSync.ipis, List.filter_append]
    rw [filter_turns s.processors.distinct (fun _ => rfl) other.1 other.2]
    rfl
  · intro ipi member
    rcases List.mem_append.1 member with old | new
    · exact Or.inl old
    · obtain ⟨id, -, rfl⟩ := List.mem_map.1 new
      exact Or.inr ⟨rfl, rfl⟩

/-! ## The loop of a region -/

/-- The pages from an address on, with their frames. -/
def framed (s : GfsSync) (vaddr n : Nat) : List (Nat × Nat) :=
  (List.range n).map fun j => (vaddr + j * 0x1000, s.frame (vaddr + j * 0x1000))

private theorem framed_succ (s : GfsSync) (vaddr n : Nat) :
    s.framed vaddr (n + 1) = (vaddr, s.frame vaddr) :: s.framed (vaddr + 0x1000) n := by
  simp only [framed, List.range_succ_eq_map, List.map_cons, List.map_map, Nat.zero_mul,
    Nat.add_zero, List.cons.injEq, true_and]
  apply List.map_congr_left
  intro j _
  have step : vaddr + (j + 1) * 0x1000 = vaddr + 0x1000 + j * 0x1000 := by omega
  simp only [Function.comp_apply, Nat.succ_eq_add_one, step]

/-- Two blocks in a row that are not one run of memory. -/
def Broken (a b : MemoryBlock × Nat) : Prop := b.1.base ≠ a.1.base + a.1.length

/-- The blocks hold the pages, no two in a row are one run, and the first of them goes on with
a run from `base`. -/
structure Cuts (blocks : List (MemoryBlock × Nat)) (base : Nat) (pages : List (Nat × Nat)) :
    Prop where
  pages : blocks.flatMap blockPages = pages
  broken : blocks.IsChain Broken
  first : ∀ b ∈ blocks.head?, b.1.base = base

def Cursor.rest (c : Cursor) : MemoryBlock × Nat := (c.memoryBlock, c.vaddrAtIpi)

def Mapped (s : GfsSync) (vaddr : Nat) : Prop := vaddr % 0x1000 = 0 ∧ s.hasTable vaddr = true

private theorem getPhysical_yields {vaddr : Nat} {R : SyncPanic → GfsSync → Prop}
    (mapped : s.Mapped vaddr) :
    Yields (getPhysical vaddr) s (fun physical s' => physical = s.frame vaddr ∧ s = s') R := by
  unfold getPhysical
  simp only [yields_bind, yields_get, yields_ite, yields_pure, true_and]
  exact if_pos mapped ▸ trivial

private theorem syncLoop_yields {n : Nat} {c : Cursor} (whole : c.memoryBlock.length % 0x1000 = 0)
    (reached : c.vaddrAtIpi + c.memoryBlock.length = c.vaddr)
    (mapped : ∀ j < n, s.Mapped (c.vaddr + j * 0x1000)) :
    Yields (syncLoop answers region n c) s
      (fun c' s' => ∃ batch, Sends s region batch s' ∧ Cuts (batch ++ [c'.rest]) c.memoryBlock.base
        (blockPages c.rest ++ s.framed c.vaddr n)) (Stuck answers) := by
  induction n generalizing c s with
  | zero =>
    simp only [syncLoop, yields_pure]
    refine ⟨[], Sends.refl s region, ?_, List.isChain_singleton _, ?_⟩
    · simp [framed]
    · rintro b here
      cases here
      rfl
  | succ n ih =>
    have later : ∀ j < n, s.Mapped (c.vaddr + 0x1000 + j * 0x1000) := by
      intro j below
      have at_j := mapped (j + 1) (by omega)
      rwa [show c.vaddr + (j + 1) * 0x1000 = c.vaddr + 0x1000 + j * 0x1000 by omega] at at_j
    have first := mapped 0 (by omega)
    rw [Nat.zero_mul, Nat.add_zero] at first
    rw [syncLoop, yields_bind]
    refine (getPhysical_yields first).mono ?_ fun _ _ stuck => stuck
    rintro physical _ ⟨rfl, rfl⟩
    rw [framed_succ]
    simp only [yields_ite]
    split
    next jump =>
      -- the block ends before this page, which begins another one
      rw [yields_bind]
      refine (sendSyncIpi_yields _ _).mono ?_ fun _ _ stuck => stuck
      intro _ s₁ sends
      have same := sends.same
      obtain ⟨sent, rfl⟩ := same
      refine (ih (by simp) (by simp) later).mono ?_ fun _ _ stuck => stuck
      rintro c' s' ⟨batch, sends', cuts⟩
      refine ⟨_, sends.trans sends', ?_, ?_, ?_⟩
      · rw [List.append_assoc, List.flatMap_append, cuts.pages, Cursor.rest, blockPages_one]
        simp [Cursor.rest, framed, frame]
      · rw [List.append_assoc]
        refine List.isChain_cons.2 ⟨?_, cuts.broken⟩
        intro b here
        rw [Broken, cuts.first b here]
        exact jump
      · rintro b here
        cases here
        rfl
    next follows =>
      have follows := not_not.1 follows
      refine (ih (by simp only; omega) (by simp only; omega) later).mono ?_ fun _ _ stuck => stuck
      rintro c' s' ⟨batch, sends, cuts⟩
      refine ⟨batch, sends, ?_, cuts.broken, cuts.first⟩
      rw [cuts.pages, Cursor.rest, blockPages_add whole, reached, ← follows]
      simp [Cursor.rest]

/-- What a loop leaves to send is sent unless it is empty. -/
theorem sendRest_yields {c : Cursor} {pages : List (Nat × Nat)} {base : Nat} {s₀ : GfsSync}
    (sends : Sends s₀ region batch s) (cuts : Cuts (batch ++ [c.rest]) base pages) :
    Yields (sendRest answers region c) s (fun _ s' => ∃ batch', Sends s₀ region batch' s' ∧
      Cuts batch' base pages) (Stuck answers) := by
  unfold sendRest
  rw [yields_ite]
  split
  · refine (sendSyncIpi_yields _ _).mono ?_ fun _ _ stuck => stuck
    intro _ s' sends'
    exact ⟨_, sends.trans sends', cuts⟩
  next empty =>
    have nothing : blockPages c.rest = [] := by
      simp [blockPages, Cursor.rest, not_not.1 empty]
    refine ⟨batch, sends, ?_, cuts.broken.left_of_append, ?_⟩
    · rw [← cuts.pages, List.flatMap_append, List.flatMap_singleton, nothing, List.append_nil]
    · intro b here
      cases batch with
      | nil => cases here
      | cons _ _ => exact cuts.first b here

/-- The loop of a region visits the pages from `upTo` on, which the region has gained. -/
inductive VisitsNew (s : GfsSync) (region : GfsRegion) (upTo counted stop : Nat) : Prop where
  | none (same : counted = s.lastPageSynchronised region) (old : s.pages region = upTo)
  | all (more : s.lastPageSynchronised region < counted)
      (start : s.lastPageSynchronised region = upTo) (new : upTo < stop)
      (whole : stop = s.pages region)
  | empty (more : s.lastPageSynchronised region < counted)
      (before : stop ≤ s.lastPageSynchronised region) (old : s.pages region = upTo)
      (mapped : s.Mapped (region.address (s.lastPageSynchronised region)))

/-- From `s` to `s'` every other processor was sent the pages of a region from `upTo` on. -/
structure Propagates (s : GfsSync) (region : GfsRegion) (upTo counted : Nat) (s' : GfsSync) :
    Prop where
  same : ∃ sent, s' = { s with
    sent := sent
    lastPageSynchronised := Function.update s.lastPageSynchronised region counted }
  sends : ∃ batch base, Sends s region batch { s with sent := s'.sent } ∧
    Cuts batch base (s.framed (region.address upTo) (s.pages region - upTo))

theorem syncRegion_yields {upTo counted stop : Nat} (visits : s.VisitsNew region upTo counted stop)
    (mapped : ∀ i < s.pages region, s.Mapped (region.address i)) :
    Yields (syncRegion answers stop region counted (counted - s.lastPageSynchronised region)) s
      (fun _ s' => s.Propagates region upTo counted s') (Stuck answers) := by
  have nothing : ∀ base, Cuts [] base (s.framed (region.address upTo) 0) :=
    fun base => ⟨rfl, .nil, fun b here => nomatch here⟩
  unfold syncRegion
  cases visits with
  | none same old =>
    rw [if_neg (by omega), yields_pure]
    refine ⟨⟨s.sent, ?_⟩, [], 0, Sends.refl s region, ?_⟩
    · rw [same, Function.update_eq_self]
    · rw [old, Nat.sub_self]
      exact nothing 0
  | all more start new whole =>
    rw [if_pos (by omega)]
    simp only [yields_bind, yields_get, yields_modify, start]
    have first := mapped upTo (by omega)
    have each : ∀ j < stop - upTo, s.Mapped (region.address upTo + j * 0x1000) := by
      intro j below
      rw [region.address_add]
      exact mapped _ (by omega)
    refine (getPhysical_yields first).mono ?_ fun _ _ stuck => stuck
    rintro physical _ ⟨rfl, rfl⟩
    refine (syncLoop_yields rfl rfl each).mono ?_ fun _ _ stuck => stuck
    rintro c s₁ ⟨batch, sends, cuts⟩
    refine (sendRest_yields sends cuts).mono ?_ fun _ _ stuck => stuck
    rintro _ s₂ ⟨batch', sends', cuts'⟩
    obtain ⟨sent, rfl⟩ := sends'.same
    refine ⟨⟨sent, rfl⟩, batch', s.frame (region.address upTo), sends', ?_⟩
    rw [← whole]
    simpa [Cursor.rest, blockPages, GfsRegion.address] using cuts'
  | empty more before old there =>
    rw [if_pos (by omega)]
    simp only [yields_bind, yields_get, yields_modify, Nat.sub_eq_zero_of_le before]
    refine (getPhysical_yields there).mono ?_ fun _ _ stuck => stuck
    rintro physical _ ⟨rfl, rfl⟩
    simp only [syncLoop, yields_pure, sendRest, ne_eq, not_true_eq_false, if_false]
    refine ⟨⟨s.sent, rfl⟩, [], 0, Sends.refl s region, ?_⟩
    rw [old, Nat.sub_self]
    exact nothing 0

/-! ## What a processor knows -/

theorem Told.congr {upTo : GfsRegion → Nat} (told : s.Told upTo apicId)
    (sent : s'.ipis apicId = s.ipis apicId)
    (frames : ∀ region i, i < upTo region →
      s'.frame (region.address i) = s.frame (region.address i)) : s'.Told upTo apicId := by
  have same : s'.toldPages apicId = s.toldPages apicId := by rw [toldPages, sent, toldPages]
  refine ⟨?_, by rw [same]; exact told.once, by rw [sent]; exact told.coalesced⟩
  intro page
  rw [same, told.pages]
  constructor
  · rintro ⟨region, i, below, rfl⟩
    exact ⟨region, i, below, by rw [frames region i below]⟩
  · rintro ⟨region, i, below, rfl⟩
    exact ⟨region, i, below, by rw [frames region i below]⟩

private theorem mem_framed {upTo n : Nat} {page : Nat × Nat} :
    page ∈ s.framed (region.address upTo) n ↔
      ∃ i, upTo ≤ i ∧ i < upTo + n ∧ page = (region.address i, s.frame (region.address i)) := by
  simp only [framed, List.mem_map, List.mem_range, region.address_add]
  constructor
  · rintro ⟨j, below, rfl⟩
    exact ⟨upTo + j, by omega, by omega, rfl⟩
  · rintro ⟨i, above, below, rfl⟩
    exact ⟨i - upTo, by omega, by rw [Nat.add_sub_cancel' above]⟩

private theorem framed_once {upTo n : Nat} (inside : upTo + n ≤ 0x80000) :
    ((s.framed (region.address upTo) n).map Prod.fst).Nodup := by
  have addresses : (s.framed (region.address upTo) n).map Prod.fst =
      (List.range n).map fun j => region.address (upTo + j) := by
    simp only [framed, List.map_map, region.address_add, Function.comp_def]
  rw [addresses]
  refine List.nodup_range.map_on ?_
  intro i below j below' same
  rw [List.mem_range] at below below'
  have := (GfsRegion.address_injective (by omega) (by omega) same).2
  omega

private theorem toldPages_sends (sends : Sends s region batch s') (other : s.Other apicId) :
    s'.toldPages apicId = s.toldPages apicId ++ batch.flatMap blockPages := by
  rw [toldPages, sends.ipis apicId other, List.flatMap_append, List.flatMap_map, toldPages]
  rfl

/-- A processor that is sent the next pages of a region knows a region that is so much larger. -/
theorem Told.extend {upTo : GfsRegion → Nat} {counted : Nat} (told : s.Told upTo apicId)
    (other : s.Other apicId) (propagates : s.Propagates region (upTo region) counted s')
    (new : ∀ ipi ∈ s.sent, ipi.call = s.calls → ipi.region ≠ region)
    (inside : ∀ r, upTo r ≤ s.pages r ∧ s.pages r ≤ 0x80000) :
    s'.Told (Function.update upTo region (s.pages region)) apicId := by
  obtain ⟨sent, rfl⟩ := propagates.same
  obtain ⟨batch, base, sends, cuts⟩ := propagates.sends
  have grown := toldPages_sends sends other
  rw [cuts.pages] at grown
  have sentOnly : ({ s with sent := sent } : GfsSync).Told
      (Function.update upTo region (s.pages region)) apicId := by
    constructor
    · intro page
      rw [grown, List.mem_append, told.pages, mem_framed]
      constructor
      · rintro (⟨r, i, below, rfl⟩ | ⟨i, -, below, rfl⟩)
        · refine ⟨r, i, ?_, rfl⟩
          by_cases here : r = region
          · subst here
            rw [Function.update_self]
            exact Nat.lt_of_lt_of_le below (inside r).1
          · rwa [Function.update_of_ne here]
        · have := (inside region).1
          exact ⟨region, i, by rw [Function.update_self]; omega, rfl⟩
      · rintro ⟨r, i, below, rfl⟩
        by_cases here : r = region
        · subst here
          rw [Function.update_self] at below
          by_cases old : i < upTo r
          · exact Or.inl ⟨r, i, old, rfl⟩
          · exact Or.inr ⟨i, by omega, by omega, rfl⟩
        · rw [Function.update_of_ne here] at below
          exact Or.inl ⟨r, i, below, rfl⟩
    · rw [grown, List.map_append]
      have := inside region
      refine told.once.append (framed_once (by omega)) ?_
      -- a page of this batch was not told before
      intro vaddr old fresh
      obtain ⟨⟨_, _⟩, member, rfl⟩ := List.mem_map.1 old
      obtain ⟨⟨_, _⟩, member', same⟩ := List.mem_map.1 fresh
      obtain ⟨r, i, below, eq⟩ := (told.pages _).1 member
      obtain ⟨j, above, below', eq'⟩ := mem_framed.1 member'
      cases eq
      cases eq'
      have := inside r
      obtain ⟨rfl, rfl⟩ := GfsRegion.address_injective (by omega) (by omega) same
      omega
    · rw [sends.ipis apicId other]
      refine told.coalesced.append ?_ ?_
      · rw [List.isChain_map]
        exact cuts.broken.imp fun _ _ broken _ _ => broken
      · intro last here first there sameRegion sameCall
        have member := List.mem_of_mem_filter (List.mem_of_mem_getLast? here)
        obtain ⟨b, -, rfl⟩ := List.mem_map.1 (List.mem_of_mem_head? there)
        exact absurd sameRegion (new last member sameCall)
  exact sentOnly.congr rfl fun _ _ _ => rfl

end GfsSync

end EmkKernel
