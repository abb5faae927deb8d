import EmkKernel.Paging.PageRuns
import EmkKernel.Paging.Unpage

/-!
# Address spaces

What the pages of a pager mean together: a partial function from the addresses to bytes of
physical memory and the rights on them. Mapping and unmapping a page are updates of this
function, and the tables of a pager stand for it.
-/

namespace EmkKernel

open EStateM

/-- The mark of an allocated table means nothing to the processor. -/
def Translation.visible (t : Translation) : Translation :=
  { t with flags := t.flags &&& ~~~pagerStabAllocated }

abbrev Space := Nat → Option Translation

namespace Space

/-- The bytes from `virt` on are those of the physical memory from `physical` on. -/
def write (space : Space) (virt physical length : Nat) (flags : Flags) : Space := fun u =>
  if virt ≤ u ∧ u < virt + length then
    some (Translation.visible ⟨physical + (u - virt), flags⟩)
  else space u

def erase (space : Space) (virt length : Nat) : Space := fun u =>
  if virt ≤ u ∧ u < virt + length then none else space u

variable {space : Space} {virt physical length u : Nat} {flags : Flags}

@[simp] theorem write_zero : space.write virt physical 0 flags = space := by
  funext u
  rw [write, if_neg]
  omega

/-- Two blocks that follow each other on both sides are one block. -/
theorem write_write (more : Nat) :
    (space.write virt physical length flags).write (virt + length) (physical + length) more flags =
      space.write virt physical (length + more) flags := by
  funext u
  simp only [write]
  by_cases second : virt + length ≤ u ∧ u < virt + length + more
  · rw [if_pos second, if_pos (by omega), Option.some.injEq]
    congr 2
    omega
  · rw [if_neg second]
    by_cases first : virt ≤ u ∧ u < virt + length
    · rw [if_pos first, if_pos (by omega)]
    · rw [if_neg first, if_neg (by omega)]

end Space

private theorem Translation.visible_congr {physical : Nat} {flags flags' : Flags}
    (same : flags' ||| pagerStabAllocated = flags ||| pagerStabAllocated) :
    Translation.visible ⟨physical, flags'⟩ = Translation.visible ⟨physical, flags⟩ := by
  simp only [visible, mk.injEq, true_and]
  apply BitVec.eq_of_getLsbD_eq
  intro k _
  rw [BitVec.getLsbD_and, BitVec.getLsbD_and, BitVec.getLsbD_not, getLsbD_stab]
  by_cases mark : k = 8
  · simp [mark]
  · rw [getLsbD_of_or_stab same mark]

namespace Pager

variable {pager : Pager} {kept : BitVec 64 → Prop} {m m' : Machine} {space : Space}
  {address : Address} {flags : Flags} {virt : Nat} {physical : BitVec 64}

/-! ### What an error leaves behind -/

theorem Opens.wellFormed (opens : pager.Opens kept address flags m m')
    (wellFormed : pager.WellFormed m.memory) (present : flags.getLsbD 0 = true) :
    pager.WellFormed m'.memory := by
  obtain ⟨m₁, ready₁, first, second⟩ := opens.opened
  exact second.wellFormed opens.ready.tree (first.wellFormed ready₁.tree wellFormed present) present

theorem Begun.wellFormed (begun : pager.Begun kept address flags m m')
    (wellFormed : pager.WellFormed m.memory) (present : flags.getLsbD 0 = true) :
    pager.WellFormed m'.memory := by
  cases begun with
  | nothing ready missing => exact wellFormed
  | first _ ready opened missing => exact opened.wellFormed ready.tree wellFormed present

theorem Prepared.wellFormed (prepared : pager.Prepared kept address flags m m')
    (wellFormed : pager.WellFormed m.memory) (present : flags.getLsbD 0 = true) :
    pager.WellFormed m'.memory := by
  cases prepared with
  | begun begun => exact begun.wellFormed wellFormed present
  | both opens => exact opens.wellFormed wellFormed present

/-! ### The tables stand for a space -/

/-- The tables are in order, and the processor translates the addresses as in the space. -/
structure Presents (pager : Pager) (kept : BitVec 64 → Prop) (m : Machine) (space : Space) :
    Prop where
  keeps : pager.Keeps kept m
  wellFormed : pager.WellFormed m.memory
  walk : ∀ u, Canonical u → (pager.walk m.memory u).map Translation.visible = space u

/-- What keeps the tables in order and changes no translation keeps the space. -/
theorem Presents.same (presents : pager.Presents kept m space)
    (keeps : pager.Keeps kept m') (wellFormed : pager.WellFormed m'.memory)
    (same : ∀ u, translation (pager.seen m'.memory) u = translation (pager.seen m.memory) u) :
    pager.Presents kept m' space := by
  refine ⟨keeps, wellFormed, fun u canonical => ?_⟩
  rw [walk_eq wellFormed.tree, same, ← walk_eq presents.wellFormed.tree]
  exact presents.walk u canonical

private theorem inPage_iff {size u : Nat} (positive : 0 < size) (aligned : virt % size = 0) :
    u / size = virt / size ↔ virt ≤ u ∧ u < virt + size := by
  obtain ⟨n, rfl⟩ := Nat.dvd_of_mod_eq_zero aligned
  rw [Nat.mul_div_cancel_left n positive, Nat.div_eq_iff positive]
  constructor
  · rintro ⟨low, high⟩
    rw [Nat.mul_comm] at low
    rw [Nat.add_sub_assoc positive, Nat.mul_comm] at high
    omega
  · rintro ⟨low, high⟩
    rw [Nat.mul_comm n, Nat.add_sub_assoc positive]
    omega

/-- A call of `page_4_kb` writes its page into the space, or leaves the space as it was. -/
theorem page4Kb_presents (presents : pager.Presents kept m space) (canonical : Canonical virt)
    (inMemory : physical.toNat < 2 ^ 52) (present : flags.any pagerPresent = true) :
    Yields (pager.page4Kb virt physical flags) m
      (fun _ m' => Takes4Kb virt physical flags ∧
        pager.Presents kept m' (space.write virt physical.toNat 0x1000 (leafFlags flags)))
      (fun s m' => s = .panic ∨ pager.Presents kept m' space) := by
  have wellFormed := presents.wellFormed
  have bit : (tableFlags flags).getLsbD 0 = true := by
    rwa [getLsbD_tableFlags flags (by decide), ← Flags.any_present]
  refine (page4Kb_yields presents.keeps.ready virt physical flags).mono ?_ ?_
  · rintro page m' ⟨_, takes, ready', m₁, reached, stored⟩
    have after := reached.wellFormed wellFormed bit
    refine ⟨takes, stored.keeps ready'.tree rfl (reached.keeps presents.keeps),
      stored.wellFormed ready'.tree rfl after, fun u canonicalU => ?_⟩
    have inPage := inPage_iff (u := u) (by decide) takes.1
    by_cases here : u / 0x1000 = virt / 0x1000
    · have first := translation_mapped reached stored takes inMemory wellFormed.toIntact
      rw [if_pos present] at first
      obtain ⟨m₂, _, small⟩ := reached.steps
      have third : (pager.seen m'.memory (translate virt).third).pageSize = false := by
        rw [stored.sets.seen, if_neg (by simp [Address.third, Address.fourth])]
        exact (small.third reached.ready.tree).2
      have same : translate u = translate virt := by simp only [translate, here]
      have offset : u % 0x1000 = u - virt := by
        have aligned := takes.1
        omega
      rw [walk_eq ready'.tree, translation_inPage same third takes.1 first, Option.map_some, offset,
        Space.write, if_pos (inPage.mp here)]
    · rw [walk_mapped_other reached stored wellFormed.tree (wellFormed.third _) ready'.tree
        canonical canonicalU here, Space.write, if_neg fun inside => here (inPage.mpr inside)]
      exact presents.walk u canonicalU
  · rintro s m' (⟨_, rfl⟩ | fails)
    · exact Or.inr presents
    · refine fails.after.imp_right fun prepared => ?_
      exact presents.same (prepared.keeps presents.keeps) (prepared.wellFormed wellFormed bit)
        prepared.translation

theorem visible_writtenFlags {m : Memory} (physical : Nat) :
    Translation.visible ⟨physical, pager.writtenFlags m address flags⟩ =
      Translation.visible ⟨physical, flags⟩ := by
  apply Translation.visible_congr
  refine Eq.trans ?_ (@carried_or_stab pager m address flags)
  apply BitVec.eq_of_getLsbD_eq
  intro k _
  rw [writtenFlags, BitVec.getLsbD_or, BitVec.getLsbD_or, getLsbD_pageFlags, getLsbD_stab]
  by_cases mark : k = 8
  · simp [mark]
  · simp [mark]

/-- A call of `page_2_mb` over no large page writes its page into the space, or leaves the
space as it was. -/
theorem page2Mb_presents (presents : pager.Presents kept m space) (canonical : Canonical virt)
    (virt2Mb : virt % pager2Mib = 0) (physical2Mb : physical.toNat % pager2Mib = 0)
    (inMemory : physical.toNat < 2 ^ 52) (present : flags.any pagerPresent = true)
    (small : (pager.seen m.memory (translate virt).third).pageSize = false) :
    Yields (pager.page2Mb virt physical flags) m
      (fun _ m' => Takes2Mb virt physical flags ∧
        pager.Presents kept m' (space.write virt physical.toNat pager2Mib flags))
      (fun s m' => s = .panic ∨ pager.Presents kept m' space) := by
  have wellFormed := presents.wellFormed
  have bit : flags.getLsbD 0 = true := by rwa [← Flags.any_present]
  refine (page2Mb_yields presents.keeps.ready virt physical flags).mono ?_ ?_
  · rintro page m' ⟨_, takes, overwritten⟩
    have mapped := overwritten.translation wellFormed takes.2.2.plain inMemory physical2Mb small
    refine ⟨takes, overwritten.keeps presents.keeps small,
      overwritten.wellFormed wellFormed takes.2.2 bit physical2Mb small, fun u canonicalU => ?_⟩
    have inPage := inPage_iff (u := u) (by decide) virt2Mb
    rw [walk_eq (mapped u).1, (mapped u).2]
    by_cases here : (translate u).third = (translate virt).third
    · have block := block_eq_of_third canonicalU canonical here
      have offset : u % pager2Mib = u - virt := by
        have inside := inPage.mp block
        unfold pager2Mib at *
        omega
      rw [if_pos here, if_pos bit, Option.map_some, visible_writtenFlags, offset, Space.write,
        if_pos (inPage.mp block)]
    · rw [if_neg here, ← walk_eq wellFormed.tree, Space.write, if_neg]
      · exact presents.walk u canonicalU
      · rintro ⟨low, high⟩
        refine here ?_
        rw [← third_add virt2Mb (show u - virt < pager2Mib by omega)]
        congr 2
        omega
  · rintro s m' (⟨_, rfl⟩ | ⟨takes, fails | ⟨opens, _⟩⟩)
    · exact Or.inr presents
    · refine fails.after.imp_right fun begun => ?_
      exact presents.same (begun.keeps presents.keeps) (begun.wellFormed wellFormed bit)
        begun.translation
    · exact Or.inr (presents.same (opens.keeps presents.keeps) (opens.wellFormed wellFormed bit)
        opens.translation)

/-- A call of `unpage_4k` that overwrites nothing in frame 0 erases its page from the space,
or leaves the space as it was. -/
theorem unpage4K_presents (presents : pager.Presents kept m space) (canonical : Canonical virt)
    (spares : pager.view m.memory (translate virt).third = some 0 →
      m.memory 0 (translate virt).page = 0) :
    Yields (pager.unpage4K virt) m
      (fun _ m' => virt % 0x1000 = 0 ∧ pager.Presents kept m' (space.erase virt 0x1000))
      (fun _ m' => pager.Presents kept m' space) := by
  by_cases aligned : virt % 0x1000 = 0
  · have tree := presents.wellFormed.tree
    refine (unpage4K_yields tree aligned).mono ?_ fun s m' failed => failed.1 ▸ presents
    rintro _ m' ⟨_, e, here, small, rfl⟩
    refine ⟨aligned, ?_⟩
    have inPage (u : Nat) := inPage_iff (u := u) (by decide) aligned
    by_cases zero : e = 0
    · -- nothing was mapped there, and nothing changes
      subst zero
      have same : RadixTree.write m.memory (Entry.address 0) (translate virt).page 0 =
          m.memory := by
        have same := RadixTree.write_self m.memory 0 (translate virt).page
        rwa [spares here] at same
      rw [same]
      refine ⟨presents.keeps, presents.wellFormed, fun u canonicalU => ?_⟩
      rw [presents.walk u canonicalU, Space.erase]
      split
      next inside =>
        have page := (inPage u).mpr inside
        have third : (translate u).third = (translate virt).third := by
          simp only [translate, page, Address.third]
        rw [← presents.walk u canonicalU, walk_of_third_zero tree (third ▸ here)]
        rfl
      next => rfl
    · have table := tableAt_of_view here (by simp) zero small
      have lowest (e : Entry) : child (translate virt).third.length e = none :=
        child_lowest (by rfl) e
      have stored : Yields (store ⟨e.address, (translate virt).page⟩ 0) m _ fun _ _ => False :=
        store_yields presents.keeps.ready table ((lowest _).trans (lowest _).symm)
          fun above => absurd above (by simp)
      refine ⟨stored.2.keeps stored.1.tree rfl presents.keeps,
        stored.2.wellFormed stored.1.tree rfl presents.wellFormed, fun u canonicalU => ?_⟩
      have cut := walk_cut (i := (translate virt).page) tree table u
      rw [cut, Space.erase]
      by_cases here : u / 0x1000 = virt / 0x1000
      · have same : translate u = translate virt := by simp only [translate, here]
        rw [if_pos ((inPage u).mp here), if_pos (by rw [same]; exact List.suffix_refl _)]
        rfl
      · rw [if_neg fun inside => here ((inPage u).mpr inside), if_neg]
        · exact presents.walk u canonicalU
        · intro through
          exact here (page_eq_of_fourth canonicalU canonical (through.eq_of_length rfl).symm)
  · unfold Yields
    rw [unpage4K_rejects aligned]
    exact presents

/-- A pager whose only table is its root stands for the empty space. -/
theorem Fresh.presents (fresh : pager.Fresh m.memory)
    (stocked : m.allocator.Stocked (· = pager.cr3)) :
    pager.Presents (fun _ => False) m fun _ => none := by
  refine ⟨⟨fresh.tree, fun _ other => other.elim, stocked.mono fun f used => ?_,
    fun i p e _ found _ marked => ?_⟩, fresh.wellFormed, fun u _ => ?_⟩
  · exact fresh.isTable_iff.mp (used.resolve_left id)
  · rw [fresh.view found] at marked
    cases marked
  · rw [fresh.walk]
    rfl

end Pager

/-! ### Runs -/

/-- The calls that map and unmap single pages. -/
inductive MappingRequest where
  | page4Kb (virt : Nat) (physical : BitVec 64) (flags : Flags)
  | page2Mb (virt : Nat) (physical : BitVec 64) (flags : Flags)
  | unpage4K (virt : Nat)

namespace MappingRequest

def call (pager : Pager) : MappingRequest → PagerM Unit
  | .page4Kb virt physical flags => pager.call (.page4Kb virt physical flags)
  | .page2Mb virt physical flags => pager.call (.page2Mb virt physical flags)
  | .unpage4K virt => pager.call (.unpage4K virt)

/-- What a request means for the space. -/
def update : MappingRequest → Space → Space
  | .page4Kb virt physical flags, space =>
    space.write virt physical.toNat 0x1000 (Pager.leafFlags flags)
  | .page2Mb virt physical flags, space => space.write virt physical.toNat pager2Mib flags
  | .unpage4K virt, space => space.erase virt 0x1000

end MappingRequest

namespace Pager

/-- A call and, unless it returns an error, the update it stands for. -/
def serveSpace (pager : Pager) (s : Machine × Space) (r : MappingRequest) :
    Option (Machine × Space) :=
  match r.call pager s.1 with
  | .ok _ m' => some (m', r.update s.2)
  | .error (.err _) m' => some (m', s.2)
  | .error .panic _ => none

/-- The requests that the tables can follow: present pages of physical memory, pages of 2 MiB
on their boundaries and over no other one, and no write to frame 0 in place of a table. -/
def Follows (pager : Pager) (s : Machine × Space) : MappingRequest → Prop
  | .page4Kb virt physical flags =>
    Canonical virt ∧ physical.toNat < 2 ^ 52 ∧ flags.any pagerPresent = true
  | .page2Mb virt physical flags =>
    Canonical virt ∧ virt % pager2Mib = 0 ∧ physical.toNat % pager2Mib = 0 ∧
      physical.toNat < 2 ^ 52 ∧ flags.any pagerPresent = true ∧
      (pager.seen s.1.memory (translate virt).third).pageSize = false
  | .unpage4K virt =>
    Canonical virt ∧ (pager.view s.1.memory (translate virt).third = some 0 →
      s.1.memory 0 (translate virt).page = 0)

instance (pager : Pager) (s : Machine × Space) :
    (r : MappingRequest) → Decidable (pager.Follows s r)
  | .page4Kb .. => inferInstanceAs (Decidable (_ ∧ _ ∧ _))
  | .page2Mb .. => inferInstanceAs (Decidable (_ ∧ _ ∧ _ ∧ _ ∧ _ ∧ _))
  | .unpage4K .. => inferInstanceAs (Decidable (_ ∧ (_ → _)))

variable {pager : Pager} {m m' : Machine} {space space' : Space}

theorem call_presents (presents : pager.Presents (fun _ => False) m space) {r : MappingRequest}
    (follows : pager.Follows (m, space) r) :
    Yields (r.call pager) m (fun _ m' => pager.Presents (fun _ => False) m' (r.update space))
      (fun s m' => s = .panic ∨ pager.Presents (fun _ => False) m' space) := by
  cases r with
  | page4Kb virt physical flags =>
    obtain ⟨canonical, inMemory, present⟩ := follows
    unfold MappingRequest.call call
    rw [yields_bind]
    exact (page4Kb_presents presents canonical inMemory present).mono
      (fun _ m' kept => kept.2) fun _ _ failed => failed
  | page2Mb virt physical flags =>
    obtain ⟨canonical, virt2Mb, physical2Mb, inMemory, present, small⟩ := follows
    unfold MappingRequest.call call
    rw [yields_bind]
    exact (page2Mb_presents presents canonical virt2Mb physical2Mb inMemory present small).mono
      (fun _ m' kept => kept.2) fun _ _ failed => failed
  | unpage4K virt =>
    obtain ⟨canonical, spares⟩ := follows
    unfold MappingRequest.call call
    exact (unpage4K_presents presents canonical spares).mono
      (fun _ m' kept => kept.2) fun _ _ same => Or.inr same

private theorem serveSpace_presents {s s' : Machine × Space} {r : MappingRequest}
    (presents : pager.Presents (fun _ => False) s.1 s.2) (follows : pager.Follows s r)
    (served : pager.serveSpace s r = some s') : pager.Presents (fun _ => False) s'.1
      s'.2 := by
  have outcome := call_presents presents follows
  unfold serveSpace at served
  split at served
  next ran =>
    cases served
    exact outcome.ok ran
  next ran =>
    cases served
    exact (outcome.error ran).resolve_left (by simp)
  next => cases served

end Pager

end EmkKernel
