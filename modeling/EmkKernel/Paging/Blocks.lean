import EmkKernel.Paging.AddressSpaces
import EmkKernel.Paging.Permissions

/-!
# Blocks of memory

`map` writes a block into an address space page by page, and `map_efficient` takes pages of
2 MiB for the middle of it. An error leaves the pages that came before it.
-/

namespace EmkKernel

open EStateM

namespace Pager

variable {pager : Pager} {kept : BitVec 64 → Prop} {m m' : Machine} {space : Space}
  {address : Address} {flags : Flags} {virt : Nat} {physical : BitVec 64}

/-! ### Slots of large pages -/

/-- No slot gets a large page. -/
def Splits (pager : Pager) (m m' : Memory) : Prop :=
  ∀ u, (pager.seen m (translate u).third).pageSize = false →
    (pager.seen m' (translate u).third).pageSize = false

private theorem Opens.seen_third (opens : pager.Opens kept address flags m m') (u : Nat) :
    pager.seen m'.memory (translate u).third = pager.seen m.memory (translate u).third := by
  obtain ⟨m₁, _, first, second⟩ := opens.opened
  rw [second.seen_other (by simp [Address.third]), first.seen_other (by simp [Address.third])]

theorem page4Kb_splits (ready : pager.Ready kept m) :
    Yields (pager.page4Kb virt physical flags) m
      (fun _ m' => pager.Splits m.memory m'.memory) fun _ _ => True := by
  refine (page4Kb_yields ready virt physical flags).mono ?_ fun _ _ _ => trivial
  rintro page m' ⟨_, _, ready', m₁, reached, stored⟩ u small
  obtain ⟨m₂, opens, opened⟩ := reached.steps
  rw [stored.sets.seen, if_neg (by simp [Address.third, Address.fourth])]
  by_cases here : (translate u).third = (translate virt).third
  · rw [here]
    exact (opened.third reached.ready.tree).2
  · rw [opened.seen_other here (by simp [Address.third]), opens.seen_third]
    exact small

theorem page2Mb_splits (ready : pager.Ready kept m)
    (small : (pager.seen m.memory (translate virt).third).pageSize = false) :
    Yields (pager.page2Mb virt physical flags) m
      (fun _ m' => ∀ u, (translate u).third ≠ (translate virt).third →
        pager.seen m'.memory (translate u).third = pager.seen m.memory (translate u).third)
      fun _ _ => True := by
  refine (page2Mb_yields ready virt physical flags).mono ?_ fun _ _ _ => trivial
  rintro page m' ⟨_, _, overwritten⟩ u other
  obtain ⟨m₁, e, opens, here, _, replaced⟩ := overwritten.replaced
  obtain rfl := Option.some.inj (here.symm.trans (opens.third ready.tree))
  rw [replaced.seen_other small other (by simp [Address.third]), opens.seen_third]

/-! ### Small pages -/

/-- The pages that are mapped when an error comes. -/
def Partly (pager : Pager) (kept : BitVec 64 → Prop) (space : Space) (vaddr base : Nat)
    (flags : Flags) (pages : Nat) (s : Stop) (m' : Machine) : Prop :=
  s = .panic ∨ ∃ n < pages, pager.Presents kept m' (space.write vaddr base (n * 0x1000) flags)

theorem addU64_yields {a b : Nat} {Q : Nat → Machine → Prop} {R : Stop → Machine → Prop}
    (sum : a + b < 2 ^ 64 → Q (a + b) m) (overflow : R .panic m) : Yields (addU64 a b) m Q R := by
  unfold addU64
  rw [yields_ite]
  split
  next fits => exact sum fits
  next => exact overflow

private theorem mapPages_presents {vaddr base start pages : Nat}
    (presents : pager.Presents kept m space)
    (canonical : ∀ i < pages, Canonical (vaddr + (start + i * 0x1000)))
    (inMemory : base + (start + pages * 0x1000) ≤ 2 ^ 52)
    (present : flags.any pagerPresent = true) :
    Yields (pager.mapPages vaddr base start flags pages) m
      (fun _ m' => pager.Splits m.memory m'.memory ∧ pager.Presents kept m'
        (space.write (vaddr + start) (base + start) (pages * 0x1000) (leafFlags flags)))
      (pager.Partly kept space (vaddr + start) (base + start) (leafFlags flags) pages) := by
  unfold mapPages
  apply yields_range _ fun n m' => pager.Splits m.memory m'.memory ∧ pager.Presents kept m'
    (space.write (vaddr + start) (base + start) (n * 0x1000) (leafFlags flags))
  · rintro i below m₁ ⟨splits, before⟩
    rw [yields_bind]
    refine addU64_yields (fun _ => ?_) (Or.inl rfl)
    rw [yields_bind]
    refine addU64_yields (fun _ => ?_) (Or.inl rfl)
    have page : (BitVec.ofNat 64 (base + (start + i * 0x1000))).toNat =
        base + (start + i * 0x1000) := by
      rw [BitVec.toNat_ofNat, Nat.mod_eq_of_lt (by omega)]
    rw [yields_bind]
    refine ((page4Kb_presents before (canonical i below) (by omega) present).and
      (page4Kb_splits before.keeps.ready)).mono ?_ ?_
    · rintro _ m₂ ⟨⟨_, after⟩, splits'⟩
      refine ⟨fun u small => splits' u (splits u small), ?_⟩
      rw [page, ← Nat.add_assoc, ← Nat.add_assoc, Space.write_write] at after
      rwa [Nat.succ_mul]
    · rintro s m₂ ⟨panic | same, _⟩
      · exact Or.inl panic
      · exact Or.inr ⟨i, below, same⟩
  · refine ⟨fun u small => small, ?_⟩
    rwa [Nat.zero_mul, Space.write_zero]

/-- `map` writes the pages of a block into the space, or a part of them before an error. -/
theorem map_presents {mb : MemoryBlock} {vaddr : Nat} (presents : pager.Presents kept m space)
    (canonical : ∀ i < mb.length / 0x1000, Canonical (vaddr + i * 0x1000))
    (inMemory : mb.base + mb.length ≤ 2 ^ 52) (present : flags.any pagerPresent = true) :
    Yields (pager.map mb vaddr flags) m
      (fun _ m' => pager.Presents kept m'
        (space.write vaddr mb.base (mb.length / 0x1000 * 0x1000) (leafFlags flags)))
      (pager.Partly kept space vaddr mb.base (leafFlags flags) (mb.length / 0x1000)) := by
  unfold map
  refine (mapPages_presents presents (fun i below => ?_) (by omega) present).mono
    (fun _ m' mapped => mapped.2) fun _ _ failed => failed
  rw [Nat.zero_add]
  exact canonical i below

/-! ### Pages of 2 MiB -/

private theorem leafFlags_of_accepted (accepted : flags.Accepted) : leafFlags flags = flags := by
  have none := accepted.bit (k := 12) (Or.inr (Or.inr (by decide)))
  rw [leafFlags, if_neg]
  rw [Flags.any_pat, none]
  exact Bool.false_ne_true

/-- The slots that `map_efficient` takes for pages of 2 MiB have none. -/
def Vacant (pager : Pager) (m : Memory) (virt pages : Nat) : Prop :=
  ∀ i < pages, (pager.seen m (translate (virt + i * pager2Mib)).third).pageSize = false

/-- The loop of `map_efficient` over pages of 2 MiB. -/
def mapLarge (pager : Pager) (vaddr paddr start : Nat) (flags : Flags) (pages : Nat) :
    PagerM Unit :=
  (List.range pages).forM fun i => do
    let vaddr ← addU64 vaddr (start + i * pager2Mib)
    let paddr ← addU64 paddr (start + i * pager2Mib)
    let _ ← pager.page2Mb vaddr (BitVec.ofNat 64 paddr) flags
    pure ()

private theorem mapLarge_presents {vaddr base start pages : Nat}
    (presents : pager.Presents kept m space)
    (canonical : ∀ i < pages, Canonical (vaddr + (start + i * pager2Mib)))
    (inMemory : base + (start + pages * pager2Mib) ≤ 2 ^ 52)
    (virt2Mb : 0 < pages → (vaddr + start) % pager2Mib = 0)
    (physical2Mb : (base + start) % pager2Mib = 0)
    (present : flags.any pagerPresent = true)
    (vacant : pager.Vacant m.memory (vaddr + start) pages) :
    Yields (pager.mapLarge vaddr base start flags pages) m
      (fun _ m' => (0 < pages → flags.Accepted) ∧ pager.Presents kept m'
        (space.write (vaddr + start) (base + start) (pages * pager2Mib) flags))
      fun s m' => s = .panic ∨ ∃ n < pages, (0 < n → flags.Accepted) ∧
        pager.Presents kept m'
          (space.write (vaddr + start) (base + start) (n * pager2Mib) flags) := by
  unfold mapLarge
  refine (yields_range _ (fun n m' => (0 < n → flags.Accepted) ∧ pager.Presents kept m'
      (space.write (vaddr + start) (base + start) (n * pager2Mib) flags) ∧
    ∀ i < pages, n ≤ i →
      (pager.seen m'.memory (translate (vaddr + start + i * pager2Mib)).third).pageSize = false)
    pages ?_ ?_).mono (fun _ m' inv => ⟨inv.1, inv.2.1⟩) fun _ _ failed => failed
  · rintro i below m₁ ⟨accepted, before, vacant⟩
    rw [yields_bind]
    refine addU64_yields (fun _ => ?_) (Or.inl rfl)
    rw [yields_bind]
    refine addU64_yields (fun _ => ?_) (Or.inl rfl)
    have last : base + (start + i * pager2Mib) < 2 ^ 52 := by
      have inside := Nat.mul_lt_mul_of_pos_right below (show 0 < pager2Mib by decide)
      omega
    have page : (BitVec.ofNat 64 (base + (start + i * pager2Mib))).toNat =
        base + (start + i * pager2Mib) := by
      rw [BitVec.toNat_ofNat, Nat.mod_eq_of_lt (by omega)]
    have here := vacant i below le_rfl
    rw [Nat.add_assoc] at here
    have virt : (vaddr + (start + i * pager2Mib)) % pager2Mib = 0 := by
      rw [← Nat.add_assoc, Nat.add_mul_mod_self_right, virt2Mb (by omega)]
    have physical : (base + (start + i * pager2Mib)) % pager2Mib = 0 := by
      rw [← Nat.add_assoc, Nat.add_mul_mod_self_right, physical2Mb]
    rw [yields_bind]
    refine ((page2Mb_presents before (canonical i below) virt (by rwa [page]) (by rwa [page])
      present here).and (page2Mb_splits before.keeps.ready here)).mono ?_ ?_
    · rintro _ m₂ ⟨⟨takes, after⟩, others⟩
      refine ⟨fun _ => takes.2.2, ?_, fun j inside later => ?_⟩
      · rw [page, ← Nat.add_assoc, ← Nat.add_assoc, Space.write_write] at after
        rwa [Nat.succ_mul]
      · rw [others]
        · exact vacant j inside (by omega)
        · intro same
          have block := block_eq_of_third (Nat.add_assoc vaddr start _ ▸ canonical j inside)
            (canonical i below) same
          unfold pager2Mib at *
          omega
    · rintro s m₂ ⟨panic | same, _⟩
      · exact Or.inl panic
      · exact Or.inr ⟨i, below, accepted, same⟩
  · refine ⟨fun positive => absurd positive (Nat.lt_irrefl 0), ?_, fun i below _ => vacant i below⟩
    rwa [Nat.zero_mul, Space.write_zero]

/-- The pages of 4 KiB that hold a block. -/
def pagesOf (mb : MemoryBlock) : Nat := mb.length / 0x1000 + if mb.length % 0x1000 ≠ 0 then 1 else 0

/-- The small pages of `map_efficient` before the first large one. -/
def pagesBefore (mb : MemoryBlock) : Nat := 512 - mb.base % pager2Mib / 0x1000

def largePages (mb : MemoryBlock) : Nat := (pagesOf mb - pagesBefore mb) / 512

theorem mapEfficient_eq (mb : MemoryBlock) (vaddr : Nat) (flags : Flags) :
    pager.mapEfficient mb vaddr flags =
      if pagesBefore mb > pagesOf mb then pager.mapPages vaddr mb.base 0 flags (pagesOf mb)
      else (do
        pager.mapPages vaddr mb.base 0 flags (pagesBefore mb)
        pager.mapLarge vaddr mb.base (pagesBefore mb * 0x1000) flags (largePages mb)
        pager.mapPages vaddr mb.base (pagesBefore mb * 0x1000 + largePages mb * pager2Mib) flags
          (pagesOf mb - (pagesBefore mb + largePages mb * 512))) := rfl

/-- `map_efficient` writes the block into the space that `map` writes into it, or a part of it
before an error. -/
theorem mapEfficient_presents {mb : MemoryBlock} {vaddr : Nat}
    (presents : pager.Presents kept m space) (aligned : mb.base % 0x1000 = 0)
    (congruent : 0 < largePages mb → vaddr % pager2Mib = mb.base % pager2Mib)
    (canonical : ∀ i < pagesOf mb, Canonical (vaddr + i * 0x1000))
    (inMemory : mb.base + pagesOf mb * 0x1000 ≤ 2 ^ 52) (present : flags.any pagerPresent = true)
    (vacant : pager.Vacant m.memory (vaddr + pagesBefore mb * 0x1000) (largePages mb)) :
    Yields (pager.mapEfficient mb vaddr flags) m
      (fun _ m' => pager.Presents kept m'
        (space.write vaddr mb.base (pagesOf mb * 0x1000) (leafFlags flags)))
      (pager.Partly kept space vaddr mb.base (leafFlags flags) (pagesOf mb)) := by
  rw [mapEfficient_eq, yields_ite]
  split
  next short =>
    refine (mapPages_presents presents (fun i below => ?_) (by omega) present).mono
      (fun _ m' mapped => mapped.2) fun _ _ failed => failed
    rw [Nat.zero_add]
    exact canonical i below
  next long =>
    have count : pagesBefore mb + largePages mb * 512 ≤ pagesOf mb := by
      unfold largePages
      omega
    have inside : mb.base + (pagesBefore mb + largePages mb * 512) * 0x1000 ≤ 2 ^ 52 := by
      have most := Nat.mul_le_mul_right 0x1000 count
      exact (Nat.add_le_add_left most _).trans inMemory
    have boundary : (mb.base + pagesBefore mb * 0x1000) % pager2Mib = 0 := by
      unfold pagesBefore pager2Mib at *
      omega
    have virtBoundary (large : 0 < largePages mb) :
        (vaddr + pagesBefore mb * 0x1000) % pager2Mib = 0 := by
      have same := congruent large
      unfold pagesBefore pager2Mib at *
      omega
    have size (n : Nat) : n * pager2Mib = n * 512 * 0x1000 := by
      rw [Nat.mul_assoc]
      rfl
    -- the large pages follow the small ones
    have joined (n : Nat) (accepted : 0 < n → flags.Accepted) :
        (space.write (vaddr + 0) (mb.base + 0) (pagesBefore mb * 0x1000) (leafFlags flags)).write
          (vaddr + pagesBefore mb * 0x1000) (mb.base + pagesBefore mb * 0x1000) (n * pager2Mib)
          flags =
        space.write vaddr mb.base ((pagesBefore mb + n * 512) * 0x1000) (leafFlags flags) := by
      rw [Nat.add_zero, Nat.add_zero]
      rcases Nat.eq_zero_or_pos n with rfl | positive
      · rw [Nat.zero_mul, Space.write_zero, Nat.zero_mul, Nat.add_zero]
      · rw [leafFlags_of_accepted (accepted positive), Space.write_write, size, ← Nat.add_mul]
    rw [yields_bind]
    refine (mapPages_presents presents (fun i below => ?_) (by omega) present).mono ?_ ?_
    · rw [Nat.zero_add]
      exact canonical i (by omega)
    · rintro _ m₁ ⟨splits, first⟩
      rw [yields_bind]
      refine (mapLarge_presents first (fun i below => ?_) ?_ virtBoundary boundary present
        fun i below => splits _ (vacant i below)).mono ?_ ?_
      · rw [size, ← Nat.add_mul]
        exact canonical _ (by omega)
      · rw [size, ← Nat.add_mul]
        exact inside
      · rintro _ m₂ ⟨accepted, second⟩
        rw [joined _ accepted] at second
        have start : pagesBefore mb * 0x1000 + largePages mb * pager2Mib =
            (pagesBefore mb + largePages mb * 512) * 0x1000 := by
          rw [size, Nat.add_mul]
        rw [start]
        refine (mapPages_presents second (fun i below => ?_) ?_ present).mono ?_ ?_
        · rw [← Nat.add_mul]
          exact canonical _ (by omega)
        · rw [← Nat.add_mul, Nat.add_sub_cancel' count]
          exact inMemory
        · rintro _ m₃ ⟨_, third⟩
          rwa [Space.write_write, ← Nat.add_mul, Nat.add_sub_cancel' count] at third
        · rintro s m₃ (panic | ⟨n, below, partly⟩)
          · exact Or.inl panic
          · rw [Space.write_write, ← Nat.add_mul] at partly
            exact Or.inr ⟨_, by omega, partly⟩
      · rintro s m₂ (panic | ⟨n, below, accepted, partly⟩)
        · exact Or.inl panic
        · rw [joined _ accepted] at partly
          exact Or.inr ⟨_, by omega, partly⟩
    · rintro s m₁ (panic | ⟨n, below, partly⟩)
      · exact Or.inl panic
      · exact Or.inr ⟨n, by omega, partly⟩

/-- What the processor sees of the tables. -/
def spaceOf (pager : Pager) (m : Memory) : Space := fun u =>
  (pager.walk m u).map Translation.visible

/-- `map` and `map_efficient` are the two ways to map a block. -/
def MapsWith (pager : Pager) (mb : MemoryBlock) (vaddr : Nat) (flags : Flags) (way : PagerM Unit) :
    Prop :=
  way = pager.map mb vaddr flags ∨ way = pager.mapEfficient mb vaddr flags

end Pager

end EmkKernel
