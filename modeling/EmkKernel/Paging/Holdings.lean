import EmkKernel.Paging.Spared

/-!
# Blocks that are held beside a pager

A block of pages that was taken from the allocator belongs to whoever asked for it. A pager over the
same allocator keeps its tables apart from it, and mapping a block touches neither this one nor
those that others hold.
-/

namespace EmkKernel

open EStateM BitArray

/-- A frame of the block. -/
def MemoryBlock.HasFrame (mb : MemoryBlock) (f : BitVec 64) : Prop :=
  ∃ i < mb.length / 0x1000, f = BitVec.ofNat 64 (mb.base + i * 0x1000)

namespace Allocator

variable {a a' : Allocator} {used : BitVec 64 → Prop} {mb : MemoryBlock} {pages k : Nat}

/-- The page behind the words that the search tests is taken. -/
def Walled (a : Allocator) : Prop := bit a.bitmap a.reach = true

instance (a : Allocator) : Decidable a.Walled := inferInstanceAs (Decidable (_ = _))

theorem Walled.alloc (walled : a.Walled) (returned : (a.alloc pages).value = (.ok mb, a')) :
    a'.Walled := by
  obtain ⟨_, k, _, took, _⟩ := a.alloc_ok returned
  have same : a'.reach = a.reach := by rw [reach, reach, took.bitmapEntries]
  rw [Walled, same]
  exact (took.sets _).mpr (Or.inl walled)

theorem Regains.walled (regains : a.Regains a' k) (walled : a.Walled) : a'.Walled := by
  rw [Walled, regains.reach]
  exact (regains.bit _).mpr ⟨walled, regains.reached.ne'⟩

/-- A run of pages starts in front of the wall, so it ends there. -/
theorem Walled.picks (walled : a.Walled) (current : a.currentEntry ≤ a.bitmapEntries)
    (positive : 0 < pages) (picks : a.Picks pages k) : k + pages ≤ a.reach := by
  have start : k < a.reach := by
    unfold reach
    unfold Picks at picks
    split at picks
    · rcases picks with ⟨b, fit, rfl⟩ | ⟨_, i, b, tested, fit, _, rfl⟩
      · have room := fit.1.1
        omega
      · have room := fit.1.1
        omega
    · obtain ⟨i, tested, runs, _, rfl⟩ := picks
      have available := runs.1
      omega
  by_contra outside
  have clear := picks.clear a.reach (by unfold InRun; omega)
  exact Bool.false_ne_true (clear.symm.trans walled)

/-- A block of free pages was taken. -/
structure HandsOut (used : BitVec 64 → Prop) (a : Allocator) (pages : Nat) (mb : MemoryBlock)
    (a' : Allocator) : Prop where
  length : mb.length = pages * 0x1000
  positive : 0 < pages
  aligned : mb.base % 0x1000 = 0
  bound : mb.base + mb.length ≤ 0x800000000
  unused : ∀ f, mb.HasFrame f → ¬used f
  stocked : a'.Stocked fun f => used f ∨ mb.HasFrame f
  lends : ∀ f, a.Lent f ∨ mb.HasFrame f → a'.Lent f
  walled : a'.Walled

theorem Stocked.handsOut (stocked : a.Stocked used) (walled : a.Walled)
    (returned : (a.alloc pages).value = (.ok mb, a')) : HandsOut used a pages mb a' := by
  obtain ⟨positive, k, picks, took, rfl, _⟩ := a.alloc_ok returned
  have inside := walled.picks stocked.current positive picks
  have reach' : a'.reach = a.reach := by rw [reach, reach, took.bitmapEntries]
  have frameOf' (j : Nat) : a'.frameOf j = a.frameOf j := by rw [frameOf, frameOf, took.addend]
  have freeable' (j : Nat) : a'.Freeable 1 j ↔ a.Freeable 1 j := by
    simp only [Freeable, blockAt, took.addend]
  have free {j : Nat} (run : InRun k pages j) : a.Freeable 1 j ∧ ¬used (a.frameOf j) := by
    have below : j < a.reach := by
      unfold InRun at run
      omega
    exact ⟨stocked.freeable j below (picks.clear j run), stocked.unused j below (picks.clear j run)⟩
  have frame (f : BitVec 64) :
      (⟨a.addend + k * 0x1000, pages * 0x1000⟩ : MemoryBlock).HasFrame f ↔
        ∃ j, InRun k pages j ∧ f = a.frameOf j := by
    unfold MemoryBlock.HasFrame InRun frameOf
    rw [Nat.mul_div_cancel _ (by decide)]
    constructor
    · rintro ⟨i, below, rfl⟩
      exact ⟨k + i, by omega, by rw [Nat.add_mul, Nat.add_assoc]⟩
    · rintro ⟨j, run, rfl⟩
      refine ⟨j - k, by omega, ?_⟩
      rw [Nat.add_assoc, ← Nat.add_mul, Nat.add_sub_cancel' run.1]
  have first : a.Freeable 1 k := (free (by unfold InRun; omega)).1
  have last : a.addend + (k + (pages - 1)) * 0x1000 + 1 * 0x1000 ≤ 0x800000000 :=
    (free (by unfold InRun; omega)).1.bound
  have clear {j : Nat} (clear : bit a'.bitmap j = false) :
      bit a.bitmap j = false ∧ ¬InRun k pages j := by
    have unset : ¬(bit a.bitmap j = true ∨ InRun k pages j) := fun set =>
      Bool.false_ne_true (clear.symm.trans ((took.sets j).mpr set))
    exact ⟨Bool.eq_false_iff.mpr fun set => unset (Or.inl set), fun run => unset (Or.inr run)⟩
  refine ⟨rfl, positive, ?_, ?_, ?_, ⟨?_, ?_, ?_⟩, ?_, walled.alloc returned⟩
  · have aligned := first.1
    change (a.addend + k * 0x1000) % 0x1000 = 0
    omega
  · have sum : a.addend + k * 0x1000 + pages * 0x1000 =
        a.addend + (k + (pages - 1)) * 0x1000 + 1 * 0x1000 := by omega
    exact sum.le.trans last
  · intro f here
    obtain ⟨j, run, rfl⟩ := (frame f).mp here
    exact (free run).2
  · have current := stocked.current
    rw [took.currentEntry, took.bitmapEntries]
    unfold reach at inside
    split <;> omega
  · intro j below unset
    rw [freeable']
    exact stocked.freeable j (reach' ▸ below) (clear unset).1
  · intro j below unset
    rw [frameOf']
    obtain ⟨unset, apart⟩ := clear unset
    rw [reach'] at below
    rintro (old | here)
    · exact stocked.unused j below unset old
    · obtain ⟨i, run, same⟩ := (frame _).mp here
      exact apart ((stocked.freeable j below unset).frameOf_inj (free run).1 same ▸ run)
  · rintro f (old | here)
    · obtain ⟨j, below, freeable, rfl, taken⟩ := old
      exact ⟨j, reach'.symm ▸ below, (freeable' j).mpr freeable, (frameOf' j).symm,
        (took.sets j).mpr (Or.inl taken)⟩
    · obtain ⟨j, run, rfl⟩ := (frame f).mp here
      refine ⟨j, ?_, (freeable' j).mpr (free run).1, (frameOf' j).symm,
        (took.sets j).mpr (Or.inr run)⟩
      unfold InRun at run
      omega

end Allocator

namespace Pager

variable {pager : Pager} {kept : BitVec 64 → Prop} {m m' m'' : Machine} {space : Space}
  {address : Address} {flags : Flags} {q : Path} {mb : MemoryBlock} {a : Allocator}

/-! ### Blocks that are taken and filled -/

private theorem isTable_congr {memory memory' : Memory}
    (same : ∀ f, pager.IsTable memory f → memory' f = memory f) (f : BitVec 64) :
    pager.IsTable memory' f ↔ pager.IsTable memory f := by
  rw [IsTable, IsTable, tableAt_congr same]

/-- What is written beside the tables does not matter to a pager. -/
theorem Keeps.congr {memory : Memory} (keeps : pager.Keeps kept m)
    (same : ∀ f, pager.IsTable m.memory f → memory f = m.memory f) :
    pager.Keeps kept ⟨memory, m.allocator⟩ := by
  have tables := isTable_congr same
  refine ⟨keeps.tree.congr same,
    fun f others isTable => keeps.apart f others ((tables f).mp isTable),
    keeps.stocked.mono fun f used => used.imp_right (tables f).mp, fun i p e shallow found => ?_⟩
  change pager.view memory (i :: p) = some e at found
  rw [view_congr same] at found
  exact keeps.lends i p e shallow found

theorem Presents.fill {memory : Memory} (presents : pager.Presents kept m space)
    (same : ∀ f, pager.IsTable m.memory f → memory f = m.memory f) :
    pager.Presents kept ⟨memory, m.allocator⟩ space := by
  refine presents.same (presents.keeps.congr same) (presents.wellFormed.congr same) fun u => ?_
  have seen : pager.seen memory = pager.seen m.memory := by
    funext p
    rw [Pager.seen, view_congr same, Pager.seen]
  rw [seen]

/-- A block that was taken is kept from the pager. -/
theorem Presents.hold {pages : Nat} (presents : pager.Presents kept m space)
    (handsOut : Allocator.HandsOut (fun f => kept f ∨ pager.IsTable m.memory f) m.allocator pages mb
      a) :
    pager.Presents (fun f => kept f ∨ mb.HasFrame f) ⟨m.memory, a⟩ space := by
  have keeps := presents.keeps
  refine ⟨⟨keeps.tree, ?_, ?_, fun i p e shallow found small marked => ?_⟩, presents.wellFormed,
    presents.walk⟩
  · rintro f (others | here) isTable
    · exact keeps.apart f others isTable
    · exact handsOut.unused f here (Or.inr isTable)
  · refine handsOut.stocked.mono fun f used => ?_
    rcases used with (others | here) | isTable
    · exact Or.inl (Or.inl others)
    · exact Or.inr here
    · exact Or.inl (Or.inr isTable)
  · exact handsOut.lends _ (Or.inl (keeps.lends i p e shallow found small marked))

/-! ### What mapping respects -/

/-- The frames that are kept for others are as they were, and so is the wall. -/
structure Respects (kept : BitVec 64 → Prop) (m m' : Machine) : Prop where
  memory : ∀ f, kept f → m'.memory f = m.memory f
  walled : m.allocator.Walled → m'.allocator.Walled
  lent : ∀ f, kept f → m.allocator.Lent f → m'.allocator.Lent f

theorem Respects.refl (kept : BitVec 64 → Prop) (m : Machine) : Respects kept m m :=
  ⟨fun _ _ => rfl, id, fun _ _ => id⟩

theorem Respects.trans (first : Respects kept m m') (second : Respects kept m' m'') :
    Respects kept m m'' :=
  ⟨fun f others => (second.memory f others).trans (first.memory f others),
    fun walled => second.walled (first.walled walled),
    fun f others lent => second.lent f others (first.lent f others lent)⟩

/-- A page out of the stock does not touch what is lent. -/
theorem respects_alloc (keeps : pager.Keeps kept m)
    (returned : (m.allocator.alloc 1).value = (.ok mb, m'.allocator))
    (memory : ∀ f, kept f → m'.memory f = m.memory f) : Respects kept m m' := by
  obtain ⟨k, grants, _⟩ := keeps.stocked.grants returned
  exact ⟨memory, fun walled => walled.alloc returned, fun f _ lent => grants.lent lent⟩

theorem Opened.respects {rw : Bool} (opened : pager.Opened rw flags q m m')
    (keeps : pager.Keeps kept m) : Respects kept m m' := by
  have spares {f : BitVec 64} (others : kept f) := opened.spares keeps others
  cases opened with
  | kept _ _ _ _ _ allocator _ =>
    exact ⟨fun f => spares, fun walled => allocator.symm ▸ walled,
      fun f _ lent => allocator.symm ▸ lent⟩
  | linked mb _ returned _ _ _ => exact respects_alloc keeps returned fun f => spares

theorem Opens.respects (opens : pager.Opens kept address flags m m') (keeps : pager.Keeps kept m) :
    Respects kept m m' := by
  obtain ⟨m₁, ready₁, first, second⟩ := opens.opened
  exact (first.respects keeps).trans (second.respects (first.keeps ready₁.tree keeps))

theorem Reached.respects (reached : pager.Reached kept address flags m m')
    (keeps : pager.Keeps kept m) : Respects kept m m' := by
  have spares {f : BitVec 64} (others : kept f) := reached.spares keeps others
  obtain ⟨m₁, opens, small⟩ := reached.steps
  have before := opens.respects keeps
  cases small with
  | opened _ _ _ opened => exact before.trans (opened.respects (opens.keeps keeps))
  | unfolded e unfolded =>
    obtain ⟨mb, returned, _, _, untouched⟩ := unfolded.opened
    refine before.trans (respects_alloc (opens.keeps keeps) returned fun f others => ?_)
    exact (spares others).trans (before.memory f others).symm

private theorem page4Kb_respects {virt : Nat} {physical : BitVec 64} (keeps : pager.Keeps kept m) :
    Yields (pager.page4Kb virt physical flags) m
      (fun _ m' => pager.Keeps kept m' ∧ Respects kept m m') fun _ _ => True := by
  refine (page4Kb_yields keeps.ready virt physical flags).mono ?_ fun _ _ _ => trivial
  rintro page m' ⟨_, _, ready', m₁, reached, stored⟩
  have keeps₁ := reached.keeps keeps
  refine ⟨stored.keeps ready'.tree rfl keeps₁, (reached.respects keeps).trans ⟨fun f others => ?_,
    fun walled => stored.allocator.symm ▸ walled, fun f _ lent => stored.allocator.symm ▸ lent⟩⟩
  exact stored.untouched f (keeps₁.apart f others) id

private theorem page2Mb_respects {virt : Nat} {physical : BitVec 64} (keeps : pager.Keeps kept m)
    (small : (pager.seen m.memory (translate virt).third).pageSize = false) :
    Yields (pager.page2Mb virt physical flags) m
      (fun _ m' => pager.Keeps kept m' ∧ Respects kept m m') fun _ _ => True := by
  refine (page2Mb_yields keeps.ready virt physical flags).mono ?_ fun _ _ _ => trivial
  rintro page m' ⟨_, _, overwritten⟩
  refine ⟨overwritten.keeps keeps small, ?_⟩
  obtain ⟨m₁, n, e, opens, here, rfl, memory, gives⟩ := overwritten.steps
  have keeps₁ := opens.keeps keeps
  refine (opens.respects keeps).trans ?_
  have untouched (f : BitVec 64) (others : kept f) : m'.memory f = m₁.memory f := by
    rw [memory]
    exact untouched_write ⟨_, here⟩ _ _ f (keeps₁.apart f others) id
  have third := view_cons here (translate virt).pt
  rw [GivesBack] at gives
  split at gives
  next marked =>
    -- the table of small pages is a table, and not kept for others
    have shallow : (translate virt).second.length < 3 := Nat.lt_succ_self 2
    have lent := keeps₁.lends _ _ _ shallow third marked.1 marked.2
    obtain ⟨k, a', frame, regains, freed⟩ := lent.regains
    cases freed.symm.trans gives
    refine ⟨untouched, regains.walled, fun f others lent => regains.lent lent ?_⟩
    rw [← frame]
    rintro rfl
    exact keeps₁.apart _ others
      ⟨_, tableAt_of_view third shallow (Entry.ne_zero_of_bit marked.2) marked.1⟩
  next => exact ⟨untouched, fun walled => gives.symm ▸ walled, fun f _ lent => gives.symm ▸ lent⟩

/-! ### Blocks that are mapped -/

/-- No slot gets a large page, other than for a canonical address of the range. -/
def SplitsOutside (pager : Pager) (m m' : Memory) (vaddr length : Nat) : Prop :=
  ∀ u, Canonical u → ¬(vaddr ≤ u ∧ u < vaddr + length) →
    (pager.seen m (translate u).third).pageSize = false →
      (pager.seen m' (translate u).third).pageSize = false

private theorem mapPages_respects {vaddr base start pages : Nat} (keeps : pager.Keeps kept m) :
    Yields (pager.mapPages vaddr base start flags pages) m
      (fun _ m' => pager.Keeps kept m' ∧ Respects kept m m' ∧ pager.Splits m.memory m'.memory)
      fun _ _ => True := by
  unfold mapPages
  refine yields_range _ (fun _ m' => pager.Keeps kept m' ∧ Respects kept m m' ∧
    pager.Splits m.memory m'.memory) pages ?_ ⟨keeps, .refl kept m, fun u small => small⟩
  rintro i _ m₁ ⟨keeps₁, respects, splits⟩
  rw [yields_bind]
  refine addU64_yields (fun _ => ?_) trivial
  rw [yields_bind]
  refine addU64_yields (fun _ => ?_) trivial
  rw [yields_bind]
  refine ((page4Kb_respects keeps₁).and (page4Kb_splits keeps₁.ready)).mono ?_ fun _ _ _ => trivial
  rintro _ m₂ ⟨⟨keeps₂, respects'⟩, splits'⟩
  exact ⟨keeps₂, respects.trans respects', fun u small => splits' u (splits u small)⟩

private theorem mapLarge_respects {vaddr base start pages : Nat} (keeps : pager.Keeps kept m)
    (canonical : ∀ i < pages, Canonical (vaddr + (start + i * pager2Mib)))
    (virt2Mb : 0 < pages → (vaddr + start) % pager2Mib = 0)
    (vacant : pager.Vacant m.memory (vaddr + start) pages) :
    Yields (pager.mapLarge vaddr base start flags pages) m
      (fun _ m' => pager.Keeps kept m' ∧ Respects kept m m' ∧
        pager.SplitsOutside m.memory m'.memory (vaddr + start) (pages * pager2Mib))
      fun _ _ => True := by
  unfold mapLarge
  refine yields_range _ (fun n m' => pager.Keeps kept m' ∧ Respects kept m m' ∧
    pager.SplitsOutside m.memory m'.memory (vaddr + start) (n * pager2Mib)) pages ?_
    ⟨keeps, .refl kept m, fun u _ _ small => small⟩
  rintro i below m₁ ⟨keeps₁, respects, splits⟩
  rw [yields_bind]
  refine addU64_yields (fun _ => ?_) trivial
  rw [yields_bind]
  refine addU64_yields (fun _ => ?_) trivial
  have boundary : (vaddr + (start + i * pager2Mib)) % pager2Mib = 0 := by
    rw [← Nat.add_assoc, Nat.add_mul_mod_self_right, virt2Mb (by omega)]
  have here := canonical i below
  have empty := vacant i below
  rw [Nat.add_assoc] at empty
  have small := splits _ here (by omega) empty
  rw [yields_bind]
  refine ((page2Mb_respects keeps₁ small).and (page2Mb_splits keeps₁.ready small)).mono ?_
    fun _ _ _ => trivial
  rintro _ m₂ ⟨⟨keeps₂, respects'⟩, others⟩
  refine ⟨keeps₂, respects.trans respects', fun u canonicalU outside smallU => ?_⟩
  rw [Nat.succ_mul] at outside
  rw [others]
  · exact splits u canonicalU (by omega) smallU
  · intro same
    have block := block_eq_of_third canonicalU here same
    unfold pager2Mib at *
    omega

/-- Pages of 2 MiB start on a boundary for both addresses, unless the first one is refused. -/
def Straight (mb : MemoryBlock) (vaddr : Nat) : Prop :=
  0 < largePages mb → vaddr % 0x100000 = mb.base % 0x100000 →
    vaddr % pager2Mib = mb.base % pager2Mib

instance (mb : MemoryBlock) (vaddr : Nat) : Decidable (Straight mb vaddr) :=
  inferInstanceAs (Decidable (_ → _ → _))

theorem straight_of_small {vaddr : Nat} (small : mb.length ≤ pager2Mib) : Straight mb vaddr := by
  intro large
  unfold largePages pagesOf pagesBefore pager2Mib at *
  split at large <;> omega

theorem mapEfficient_askew {vaddr : Nat} (aligned : mb.base % 0x1000 = 0)
    (large : 0 < largePages mb) (askew : vaddr % 0x100000 ≠ mb.base % 0x100000) :
    Yields (pager.mapEfficient mb vaddr flags) m (fun _ _ => False) fun _ _ => True := by
  have long : ¬pagesBefore mb > pagesOf mb := by
    unfold largePages at large
    omega
  rw [mapEfficient_eq, if_neg long, yields_bind]
  refine (yields_any _ _).mono (fun _ m₁ _ => ?_) fun _ _ _ => trivial
  obtain ⟨n, count⟩ := Nat.exists_eq_succ_of_ne_zero large.ne'
  rw [yields_bind, count]
  unfold mapLarge
  rw [List.range_succ_eq_map]
  refine (yields_bind ..).mpr ?_
  rw [yields_bind]
  refine addU64_yields (fun _ => ?_) trivial
  rw [yields_bind]
  refine addU64_yields (fun _ => ?_) trivial
  rw [yields_bind]
  unfold Yields
  rw [page2Mb_misaligned]
  · trivial
  · refine Or.inl ?_
    unfold pagesBefore pager2Mib
    omega

/-- `map_efficient` writes a block into the space, and minds what others hold. -/
theorem mapEfficient_respects {vaddr : Nat} (keeps : pager.Keeps kept m)
    (aligned : mb.base % 0x1000 = 0)
    (congruent : 0 < largePages mb → vaddr % pager2Mib = mb.base % pager2Mib)
    (canonical : ∀ i < pagesOf mb, Canonical (vaddr + i * 0x1000))
    (vacant : pager.Vacant m.memory (vaddr + pagesBefore mb * 0x1000) (largePages mb)) :
    Yields (pager.mapEfficient mb vaddr flags) m
      (fun _ m' => Respects kept m m' ∧
        pager.SplitsOutside m.memory m'.memory vaddr (pagesOf mb * 0x1000))
      fun _ _ => True := by
  rw [mapEfficient_eq, yields_ite]
  split
  next short =>
    exact (mapPages_respects keeps).mono (fun _ m' after => ⟨after.2.1, fun u _ _ => after.2.2 u⟩)
      fun _ _ _ => trivial
  next long =>
    have count : pagesBefore mb + largePages mb * 512 ≤ pagesOf mb := by
      unfold largePages
      omega
    have size (n : Nat) : n * pager2Mib = n * 512 * 0x1000 := by
      rw [Nat.mul_assoc]
      rfl
    have boundary (large : 0 < largePages mb) :
        (vaddr + pagesBefore mb * 0x1000) % pager2Mib = 0 := by
      have same := congruent large
      unfold pagesBefore pager2Mib at *
      omega
    rw [yields_bind]
    refine (mapPages_respects keeps).mono ?_ fun _ _ _ => trivial
    rintro _ m₁ ⟨keeps₁, respects₁, splits₁⟩
    rw [yields_bind]
    refine (mapLarge_respects keeps₁ (fun i below => ?_) boundary
      fun i below => splits₁ _ (vacant i below)).mono ?_ fun _ _ _ => trivial
    · rw [size, ← Nat.add_mul]
      exact canonical _ (by omega)
    · rintro _ m₂ ⟨keeps₂, respects₂, splits₂⟩
      refine (mapPages_respects keeps₂).mono ?_ fun _ _ _ => trivial
      rintro _ m₃ ⟨_, respects₃, splits₃⟩
      refine ⟨(respects₁.trans respects₂).trans respects₃, fun u canonicalU outside small => ?_⟩
      refine splits₃ u (splits₂ u canonicalU ?_ (splits₁ u small))
      rw [size]
      omega

/-- The ways to map a block of whole pages: the space has the block afterwards, and what others
hold is as before. -/
theorem mapsWith_writes {vaddr : Nat} {way : PagerM Unit} (maps : pager.MapsWith mb vaddr flags way)
    (presents : pager.Presents kept m space) (aligned : mb.base % 0x1000 = 0)
    (whole : mb.length % 0x1000 = 0)
    (straight : Straight mb vaddr)
    (canonical : ∀ i < mb.length / 0x1000, Canonical (vaddr + i * 0x1000))
    (inMemory : mb.base + mb.length ≤ 2 ^ 52) (present : flags.any pagerPresent = true)
    (small : ∀ i < mb.length / 0x1000,
      (pager.seen m.memory (translate (vaddr + i * 0x1000)).third).pageSize = false) :
    Yields way m
      (fun _ m' => pager.Presents kept m' (space.write vaddr mb.base mb.length (leafFlags flags)) ∧
        Respects kept m m' ∧ pager.SplitsOutside m.memory m'.memory vaddr mb.length)
      fun _ _ => True := by
  have pages : pagesOf mb = mb.length / 0x1000 := by
    rw [pagesOf, if_neg (not_not_intro whole), Nat.add_zero]
  have length : mb.length / 0x1000 * 0x1000 = mb.length := by omega
  have length' : pagesOf mb * 0x1000 = mb.length := by rw [pages, length]
  rcases maps with rfl | rfl
  · have respects : Yields (pager.map mb vaddr flags) m (fun _ m' => pager.Keeps kept m' ∧
        Respects kept m m' ∧ pager.Splits m.memory m'.memory) fun _ _ => True := by
      unfold map
      exact mapPages_respects presents.keeps
    refine ((map_presents presents canonical inMemory present).and respects).mono ?_
      fun _ _ _ => trivial
    rintro _ m' ⟨mapped, _, respects, splits⟩
    rw [length] at mapped
    exact ⟨mapped, respects, fun u _ _ => splits u⟩
  · by_cases askew : 0 < largePages mb ∧ vaddr % 0x100000 ≠ mb.base % 0x100000
    · exact (mapEfficient_askew aligned askew.1 askew.2).mono (fun _ _ none => none.elim)
        fun _ _ _ => trivial
    · have congruent (large : 0 < largePages mb) : vaddr % pager2Mib = mb.base % pager2Mib := by
        refine straight large ?_
        by_contra other
        exact askew ⟨large, other⟩
      have vacant : pager.Vacant m.memory (vaddr + pagesBefore mb * 0x1000) (largePages mb) := by
        intro i below
        have inside : pagesBefore mb + i * 512 < mb.length / 0x1000 := by
          rw [← pages]
          unfold largePages at below
          omega
        have place : vaddr + pagesBefore mb * 0x1000 + i * pager2Mib =
            vaddr + (pagesBefore mb + i * 512) * 0x1000 := by
          unfold pager2Mib
          omega
        rw [place]
        exact small _ inside
      rw [← pages] at canonical
      refine ((mapEfficient_presents presents aligned congruent canonical (by rw [length']; exact
        inMemory) present vacant).and (mapEfficient_respects presents.keeps aligned congruent
          canonical vacant)).mono ?_ fun _ _ _ => trivial
      rintro _ m' ⟨mapped, respects, splits⟩
      rw [length'] at mapped splits
      exact ⟨mapped, respects, splits⟩

end Pager

end EmkKernel
