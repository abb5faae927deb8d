import EmkKernel.Paging.SmallPages

/-!
# `page_2_mb` and the translation

`page_2_mb` does what it should for a slot that holds neither a large page nor a
table of the pager, when the tables above it exist already. Otherwise it loses `PS`,
or the mark of an allocated table reaches the entry of the page.
-/

namespace EmkKernel

open EStateM

namespace Allocator

/-- The allocator returns this many single pages, one after the other. -/
def Provides : Nat → Allocator → Prop
  | 0, _ => True
  | n + 1, a => ∃ mb a', (a.alloc 1).value = (.ok mb, a') ∧ Provides n a'

/-- The frame is a page of this allocator and taken. -/
def Lends (a : Allocator) (f : BitVec 64) : Prop :=
  ∃ k, a.Freeable 1 k ∧ f.toNat = a.addend + k * 0x1000 ∧ BitArray.bit a.bitmap k = true

variable {a a' : Allocator}

theorem Provides.refused {n : Nat} {s : Stop} (provides : a.Provides (n + 1))
    (refused : (a.alloc 1).value = (.error s, a')) : False := by
  obtain ⟨mb, b, returned, _⟩ := provides
  cases returned.symm.trans refused

theorem Provides.after {n : Nat} {mb : MemoryBlock} (provides : a.Provides (n + 1))
    (returned : (a.alloc 1).value = (.ok mb, a')) : a'.Provides n := by
  obtain ⟨mb', b, returned', rest⟩ := provides
  cases returned'.symm.trans returned
  exact rest

/-- No allocation complains about an address. -/
theorem alloc_error {pages : Nat} {e : MemoryResult}
    (refused : (a.alloc pages).value = (.error (.err e), a')) : e ≠ .invalidAddress := by
  rcases a.alloc_cases pages with ⟨_, value⟩ | ⟨_, _, value⟩ | ⟨_, k, b, _, _, value⟩
  · cases value.symm.trans refused
    decide
  · cases value.symm.trans refused
    decide
  · have handed := (Prod.mk.inj (value.symm.trans refused)).1
    unfold handOut at handed
    split at handed <;> cases handed

/-- The page lent comes back. -/
theorem Lends.free {f : BitVec 64} (lends : a.Lends f) :
    ∃ a', (a.free ⟨f.toNat, 0x1000⟩).value = (.ok (), a') := by
  obtain ⟨k, freeable, address, taken⟩ := lends
  have block : (⟨f.toNat, 0x1000⟩ : MemoryBlock) = a.blockAt 1 k := by
    rw [address, blockAt, Nat.one_mul]
  obtain ⟨a', freed, _⟩ := a.free_granted freeable fun j run => by
    unfold BitArray.InRun at run
    rwa [show j = k by omega]
  exact ⟨a', block ▸ freed⟩

end Allocator

namespace Pager

variable {pager : Pager} {kept : BitVec 64 → Prop} {m m' : Machine} {address : Address}
  {flags : Flags}

/-- The tables that are missing above the third level. -/
def missing (pager : Pager) (m : Memory) (address : Address) : Nat :=
  match pager.view m address.second with
  | none => 2
  | some e => if e = 0 then 1 else 0

private theorem carried_some {m : Memory} {e : Entry}
    (before : pager.view m address.third = some e) :
    pager.carried m address flags = flags := by
  obtain ⟨e₂, here₂, nonzero₂⟩ := view_above before
  simp only [carried, here₂, stamped, nonzero₂, if_false]

theorem Opened.linked_of_zero {rw : Bool} {q : Path} (opened : pager.Opened rw flags q m m')
    (zero : pager.view m.memory q = some 0) :
    (∃ mb, (m.allocator.alloc 1).value = (.ok mb, m'.allocator)) ∧
      ∀ j, pager.view m'.memory (j :: q) = some 0 := by
  cases opened with
  | kept e before nonzero _ _ _ _ =>
    exact absurd (Option.some.inj (before.symm.trans zero)) nonzero
  | linked mb _ returned adds _ _ => exact ⟨⟨mb, returned⟩, adds.below⟩

theorem zero_above {m : Memory} (tree : pager.Tree m)
    (absent : pager.view m address.third = none) :
    pager.view m address.second = some 0 ∧ (∃ e, pager.view m address.first = some e ∧ e ≠ 0) ∨
      pager.view m address.second = none ∧ pager.view m address.first = some 0 := by
  cases second : pager.view m address.second with
  | some e =>
    obtain rfl : e = 0 := by
      by_contra nonzero
      have table := tableAt_of_view second (by simp) nonzero (tree.upper _ _ _ (by simp) second)
      cases (view_cons table address.pt).symm.trans absent
    exact Or.inl ⟨rfl, view_above second⟩
  | none =>
    refine Or.inr ⟨rfl, ?_⟩
    have first : pager.view m address.first = some (m pager.cr3 address.pdp) := view_cons rfl _
    by_contra nonzero
    rw [first, Option.some.injEq] at nonzero
    have table := tableAt_of_view first (by simp) nonzero (tree.upper _ _ _ (by simp) first)
    cases (view_cons table address.pd).symm.trans second

theorem carried_none {m : Memory} (tree : pager.Tree m)
    (absent : pager.view m address.third = none) :
    pager.carried m address flags = flags ||| pagerStabAllocated := by
  unfold carried
  rcases zero_above tree absent with ⟨zero, _⟩ | ⟨none, _⟩
  · rw [Address.second] at zero
    simp only [zero, stamped, if_true]
  · rw [Address.second] at none
    simp only [none]

/-- The missing tables are allocated. -/
theorem Opens.third_none (opens : pager.Opens kept address flags m m')
    (tree : pager.Tree m.memory) (absent : pager.view m.memory address.third = none) :
    pager.view m'.memory address.third = some 0 ∧
      m.allocator.Provides (pager.missing m.memory address) := by
  obtain ⟨m₁, _, first, second⟩ := opens.opened
  rcases zero_above tree absent with ⟨zero, e₁, here₁, nonzero₁⟩ | ⟨none, zero⟩
  · obtain ⟨⟨mb, returned⟩, below⟩ := second.linked_of_zero (first.other (by simp) zero)
    refine ⟨below _, ?_⟩
    rw [missing, zero]
    exact ⟨mb, _, first.kept_of_nonzero here₁ nonzero₁ ▸ returned, trivial⟩
  · obtain ⟨⟨mb₁, returned₁⟩, below₁⟩ := first.linked_of_zero zero
    obtain ⟨⟨mb₂, returned₂⟩, below₂⟩ := second.linked_of_zero (below₁ _)
    refine ⟨below₂ _, ?_⟩
    rw [missing, none]
    exact ⟨mb₁, _, returned₁, mb₂, _, returned₂, trivial⟩

/-- With all tables in place no table is missing. -/
theorem Begun.absent (begun : pager.Begun kept address flags m m') :
    pager.view m.memory address.third = none := by
  cases present : pager.view m.memory address.third with
  | none => rfl
  | some e =>
    obtain ⟨e₂, here₂, nonzero₂⟩ := view_above present
    obtain ⟨e₁, here₁, nonzero₁⟩ := view_above here₂
    cases begun with
    | nothing ready missing =>
      exact absurd (Option.some.inj (here₁.symm.trans missing)) nonzero₁
    | first _ ready opened missing =>
      exact absurd (Option.some.inj ((opened.other (by simp) here₂).symm.trans missing)) nonzero₂

/-- An allocator that has the pages for the missing tables refuses none of them. -/
theorem Begun.provided (begun : pager.Begun kept address flags m m') (tree : pager.Tree m.memory)
    {s : Stop} {a : Allocator} (refused : (m'.allocator.alloc 1).value = (.error s, a)) :
    ¬m.allocator.Provides (pager.missing m.memory address) := by
  intro provides
  rcases zero_above tree begun.absent with ⟨zero, e₁, here₁, nonzero₁⟩ | ⟨none, zero⟩
  · rw [missing, zero] at provides
    cases begun with
    | nothing ready missing =>
      exact nonzero₁ (Option.some.inj (here₁.symm.trans missing))
    | first _ ready opened missing =>
      rw [opened.kept_of_nonzero here₁ nonzero₁] at refused
      exact provides.refused refused
  · rw [missing, none] at provides
    cases begun with
    | nothing ready missing => exact provides.refused refused
    | first _ ready opened missing =>
      obtain ⟨⟨mb, returned⟩, _⟩ := opened.linked_of_zero zero
      exact (provides.after returned).refused refused

/-! ### The entry of the page -/

/-- What `page_2_mb` leaves of the tree when it overwrites `e`. -/
structure Replaced (pager : Pager) (address : Address) (e leaf : Entry) (m m' : Memory) : Prop where
  here : pager.view m' address.third = some leaf
  tree : e.pageSize = false → pager.Tree m'
  other : e.pageSize = false → ∀ r, r ≠ address.third → (∀ j, r ≠ j :: address.third) →
    pager.view m' r = pager.view m r

theorem getLsbD_largeFlags {e : Entry} (flags : Flags) (small : e.pageSize = false) (k : Nat) :
    (largeFlags e flags).getLsbD k =
      (xor (flags.getLsbD k) (e.stabAllocated && decide (k = 8)) || decide (k = 7)) := by
  rw [largeFlags, small, if_neg Bool.false_ne_true]
  cases e.stabAllocated with
  | false => simp
  | true => simp

/-- Unless a large page was there already, `page_2_mb` writes one. -/
theorem pageSize_largeFlags {e : Entry} (physical : BitVec 64) (flags : Flags)
    (small : e.pageSize = false) : (Entry.pack physical (largeFlags e flags)).pageSize = true := by
  rw [Entry.pageSize, Entry.getLsbD_pack, getLsbD_largeFlags flags small]
  simp

theorem Overwritten.replaced {physical : BitVec 64}
    (overwritten : pager.Overwritten kept address flags physical m m') :
    ∃ m₁ e, pager.Opens kept address flags m m₁ ∧ pager.view m₁.memory address.third = some e ∧
      GivesBack e m₁.allocator m'.allocator ∧
      pager.Replaced address e
        (Entry.pack physical (largeFlags e (pager.carried m.memory address flags)))
        m₁.memory m'.memory := by
  obtain ⟨m₁, n, e, opens, here, rfl, memory, gives⟩ := overwritten.steps
  have tree := opens.ready.tree
  have edit (small : (m₁.memory n address.pt).pageSize = false) : pager.Tree m'.memory ∧
      ∀ r, r ≠ address.third → (∀ j, r ≠ j :: address.third) →
        pager.view m'.memory r = pager.view m₁.memory r := by
    have bare := child_large address.second.length (pageSize_largeFlags physical
      (pager.carried m.memory address flags) small)
    have lowest : address.second.length = 2 := rfl
    rw [memory]
    cases had : child address.second.length (m₁.memory n address.pt) with
    | none =>
      obtain ⟨tree', sets, _⟩ := tree.set here (bare.trans had.symm) fun above => by omega
      exact ⟨tree', fun r other _ => sets.other r other⟩
    | some f =>
      obtain ⟨tree', drops, _⟩ := tree.drop here had lowest bare
      exact ⟨tree', drops.other⟩
  refine ⟨m₁, _, opens, view_cons here _, gives, ?_, fun small => (edit small).1,
    fun small => (edit small).2⟩
  rw [memory]
  exact RadixTree.entry_write_self _ tree.distinct here

section Replaced

variable {m m' : Memory} {e leaf : Entry} {u : Nat}

theorem Replaced.seen_other (replaced : pager.Replaced address e leaf m m')
    (small : e.pageSize = false) {r : Path} (other : r ≠ address.third)
    (below : ∀ j, r ≠ j :: address.third) : pager.seen m' r = pager.seen m r := by
  rw [seen, replaced.other small r other below, seen]

theorem Replaced.translation_other (replaced : pager.Replaced address e leaf m m')
    (small : e.pageSize = false) (other : (translate u).third ≠ address.third) :
    translation (pager.seen m') u = translation (pager.seen m) u := by
  refine (agree_of_eq (replaced.seen_other small ?_ ?_) (replaced.seen_other small ?_ ?_)
    (replaced.seen_other small other ?_) (replaced.seen_other small ?_ fun j same =>
      ?_)).translation
  · simp [Address.first, Address.third]
  · simp [Address.first, Address.third]
  · simp [Address.second, Address.third]
  · simp [Address.second, Address.third]
  · simp [Address.third]
  · simp [Address.fourth, Address.third]
  · exact other (List.cons.inj same).2

theorem Replaced.translation_self (replaced : pager.Replaced address e leaf m m')
    (small : e.pageSize = false) (large : leaf.pageSize = true)
    (way : leaf.present = true → (pager.seen m address.first).present = true ∧
      (pager.seen m address.second).present = true)
    (same : (translate u).third = address.third) :
    translation (pager.seen m') u = if leaf.present then some (largePage leaf u) else none := by
  have above : (translate u).first = address.first ∧ (translate u).second = address.second := by
    simp only [Address.third, List.cons.injEq, and_true] at same
    simp only [Address.first, Address.second, same, and_self]
  have first := replaced.seen_other small (r := address.first)
    (by simp [Address.first, Address.third]) (by simp [Address.first, Address.third])
  have second := replaced.seen_other small (r := address.second)
    (by simp [Address.second, Address.third]) (by simp [Address.second, Address.third])
  have third := seen_of_view replaced.here
  simp only [translation, everyLevel, above, same, first, second, third, large, Bool.true_or,
    Bool.and_true, if_true]
  cases present : leaf.present with
  | false => simp only [Bool.and_false, Bool.false_eq_true, if_false]
  | true =>
    obtain ⟨p₁, p₂⟩ := way present
    simp only [p₁, p₂, Bool.and_self, if_true]

end Replaced

/-! ### The flags of the page -/

/-- The flags of the handle, with the mark changed when a table was given back. -/
def pageFlags (e : Entry) (flags : Flags) : Flags :=
  if e.stabAllocated then flags ^^^ pagerStabAllocated else flags

theorem getLsbD_pageFlags (e : Entry) (flags : Flags) (k : Nat) :
    (pageFlags e flags).getLsbD k =
      xor (flags.getLsbD k) (e.stabAllocated && decide (k = 8)) := by
  unfold pageFlags
  cases e.stabAllocated with
  | false => simp
  | true => simp

section Leaf

variable {e : Entry} {physical : BitVec 64} (small : e.pageSize = false)
  (aligned : physical.toNat % pager2Mib = 0) (plain : flags.Plain)

include small aligned plain

private theorem largePage_leaf (inMemory : physical.toNat < 2 ^ 52) (u : Nat) :
    largePage (Entry.pack physical (largeFlags e flags)) u =
      ⟨physical.toNat + u % pager2Mib, pageFlags e flags⟩ := by
  have page : physical.toNat % 0x1000 = 0 := by
    unfold pager2Mib at aligned
    omega
  have high (k : Nat) (above : 12 ≤ k) : (largeFlags e flags).getLsbD k = false := by
    rw [getLsbD_largeFlags flags small, plain.high k above]
    simp
    omega
  have flags' : (Entry.pack physical (largeFlags e flags)).smallFlags = pageFlags e flags := by
    apply BitVec.eq_of_getLsbD_eq
    intro k _
    rw [Entry.getLsbD_smallFlags, Entry.getLsbD_pack, getLsbD_largeFlags flags small,
      getLsbD_pageFlags]
    by_cases low : k < 12
    · rw [low_of_aligned page low]
      by_cases ps : k = 7
      · subst ps
        rw [plain.small]
        simp
      · simp [low, ps]
    · rw [plain.high k (by omega)]
      simp [low]
      omega
  rw [largePage, flags', Entry.frame_pack high, Entry.toNat_frame]
  simp only [Translation.mk.injEq, and_true]
  unfold pager2Mib at *
  omega

omit plain aligned in
theorem present_leaf2Mb (page : physical.toNat % 0x1000 = 0) (flags : Flags) :
    (Entry.pack physical (largeFlags e flags)).present = flags.getLsbD 0 := by
  rw [Entry.present, Entry.getLsbD_pack, low_of_aligned page (by decide),
    getLsbD_largeFlags flags small]
  simp

end Leaf

theorem page2Mb_misaligned {virt : Nat} {physical : BitVec 64}
    (misaligned : virt % 0x100000 ≠ 0 ∨ physical &&& 0xFFFFF ≠ 0) :
    pager.page2Mb virt physical flags m = .error (.err .invalidAddress) m := by
  rw [page2Mb, if_pos misaligned]
  rfl

theorem masked_iff {physical : BitVec 64} :
    physical &&& 0xFFFFF = 0 ↔ physical.toNat % 0x100000 = 0 := by
  have masked : (physical &&& 0xFFFFF).toNat = physical.toNat % 0x100000 :=
    (BitVec.toNat_and ..).trans (Nat.and_two_pow_sub_one_eq_mod physical.toNat 20)
  rw [← masked]
  exact ⟨fun zero => by rw [zero]; rfl, fun zero => BitVec.eq_of_toNat_eq zero⟩

/-! ### The whole call -/

/-- The flags of the page that `page_2_mb` writes, without `PS`. -/
def writtenFlags (pager : Pager) (m : Memory) (address : Address) (flags : Flags) : Flags :=
  pageFlags (pager.seen m address.third) (pager.carried m address flags)

theorem Opens.third (opens : pager.Opens kept address flags m m') (tree : pager.Tree m.memory) :
    pager.view m'.memory address.third = some (pager.seen m.memory address.third) := by
  cases before : pager.view m.memory address.third with
  | some e => rw [(opens.third_some before).1, seen_of_view before]
  | none =>
    rw [(opens.third_none tree before).1, seen, before]
    rfl

/-- On a well formed pager without a large page in the slot, `page_2_mb` maps the page
and changes no other translation. -/
theorem Overwritten.translation {physical : BitVec 64} (wellFormed : pager.WellFormed m.memory)
    (plain : flags.Plain) (inMemory : physical.toNat < 2 ^ 52)
    (aligned : physical.toNat % pager2Mib = 0)
    (small : (pager.seen m.memory address.third).pageSize = false)
    (overwritten : pager.Overwritten kept address flags physical m m') (u : Nat) :
    pager.Tree m'.memory ∧ translation (pager.seen m'.memory) u =
      if (translate u).third = address.third then
        if flags.getLsbD 0 then
          some ⟨physical.toNat + u % pager2Mib, pager.writtenFlags m.memory address flags⟩
        else none
      else translation (pager.seen m.memory) u := by
  obtain ⟨m₁, e, opens, here, _, replaced⟩ := overwritten.replaced
  obtain rfl := Option.some.inj (here.symm.trans (opens.third wellFormed.tree))
  have plain' : (pager.carried m.memory address flags).Plain :=
    plain.of_or_stab (carried_or_stab _ _ _)
  have bit : (pager.carried m.memory address flags).getLsbD 0 = flags.getLsbD 0 :=
    getLsbD_of_or_stab (carried_or_stab _ _ _) (by decide)
  have page : physical.toNat % 0x1000 = 0 := by
    unfold pager2Mib at aligned
    omega
  refine ⟨replaced.tree small, ?_⟩
  split
  next same =>
    rw [replaced.translation_self small (pageSize_largeFlags _ _ small) (fun present => ?_) same,
      present_leaf2Mb small page, bit, largePage_leaf small aligned plain' inMemory,
        writtenFlags]
    rw [present_leaf2Mb small page, bit] at present
    obtain ⟨m₀, ready₀, first, second⟩ := opens.opened
    have before := first.wellFormed ready₀.tree wellFormed present
    have after := second.wellFormed opens.ready.tree before present
    obtain ⟨e₂, here₂, nonzero₂⟩ := view_above here
    obtain ⟨e₁, here₁, nonzero₁⟩ := view_above here₂
    refine ⟨?_, ?_⟩
    · rw [Address.first, seen_of_view here₁]
      exact after.present _ _ e₁ (by simp) here₁ nonzero₁
    · rw [Address.second, seen_of_view here₂]
      exact after.present _ _ e₂ (by simp) here₂ nonzero₂
  next other => rw [replaced.translation_other small other, opens.translation]

theorem writtenFlags_some {m : Memory} {e : Entry} (before : pager.view m address.third = some e) :
    pager.writtenFlags m address flags = flags ↔ e.stabAllocated = false := by
  rw [writtenFlags, seen_of_view before, carried_some before]
  constructor
  · intro same
    have bit : (pageFlags e flags).getLsbD 8 = flags.getLsbD 8 := by rw [same]
    rw [getLsbD_pageFlags] at bit
    cases marked : e.stabAllocated with
    | false => rfl
    | true => simp [marked] at bit
  · intro unmarked
    rw [pageFlags, unmarked, if_neg Bool.false_ne_true]

private theorem writtenFlags_none {m : Memory} (tree : pager.Tree m)
    (absent : pager.view m address.third = none) :
    pager.writtenFlags m address flags = flags ↔ flags.any pagerStabAllocated = true := by
  have zero : pager.seen m address.third = 0 := by
    rw [seen, absent]
    rfl
  rw [writtenFlags, zero, carried_none tree absent, Flags.any_stab]
  have same : pageFlags 0 (flags ||| pagerStabAllocated) = flags ||| pagerStabAllocated := rfl
  rw [same]
  constructor
  · intro same
    have bit := congrArg (fun v => BitVec.getLsbD v 8) same
    simpa using bit.symm
  · intro marked
    apply BitVec.eq_of_getLsbD_eq
    intro k _
    rw [BitVec.getLsbD_or, getLsbD_stab]
    by_cases here : k = 8
    · rw [here, marked]
      rfl
    · simp [here]

/-- `page_2_mb` does what it should: it accepts only multiples of its page size, maps
the page, changes no other translation, and leaves a large page a large page. -/
structure Maps2Mb (pager : Pager) (m : Machine) (virt : Nat) (physical : BitVec 64)
    (flags : Flags) : Prop where
  misaligned : virt % pager2Mib ≠ 0 ∨ physical.toNat % pager2Mib ≠ 0 →
    ∃ m', pager.page2Mb virt physical flags m = .error (.err .invalidAddress) m'
  returned : ∀ page m', pager.page2Mb virt physical flags m = .ok page m' →
    (∀ o, o < pager2Mib → pager.walk m'.memory (virt + o) =
      if flags.any pagerPresent then some ⟨physical.toNat + o, flags⟩ else none) ∧
    ∀ u, Canonical u → u < virt ∨ virt + pager2Mib ≤ u →
      pager.walk m'.memory u = pager.walk m.memory u
  failed : ∀ e m', pager.page2Mb virt physical flags m = .error (.err e) m' →
    ∀ u, pager.walk m'.memory u = pager.walk m.memory u
  large : ∀ page m', pager.page2Mb virt physical flags m = .ok page m' →
    (pager.seen m.memory (translate virt).third).pageSize = true →
    (pager.seen m'.memory (translate virt).third).pageSize = true

/-- The slot leaves the flags of the page as they are given: its table is not one of
the pager's, and when a table above is missing, then the flags carry the mark of an
allocated table already or there is no page for the table. -/
def KeepsFlags (pager : Pager) (m : Machine) (address : Address) (flags : Flags) : Prop :=
  match pager.view m.memory address.third with
  | some e => e.stabAllocated = false
  | none => flags.any pagerStabAllocated = true ∨
      ¬m.allocator.Provides (pager.missing m.memory address)

/-- The arguments and slots for which `page_2_mb` works. -/
def Suits2Mb (pager : Pager) (m : Machine) (virt : Nat) (physical : BitVec 64)
    (flags : Flags) : Prop :=
  (virt % 0x100000 ≠ 0 ∨ physical.toNat % 0x100000 ≠ 0) ∨
  (virt % pager2Mib = 0 ∧ physical.toNat % pager2Mib = 0 ∧
    (pager.seen m.memory (translate virt).third).pageSize = false ∧
    (flags.any pagerPresent = true → pager.KeepsFlags m (translate virt) flags))

section Calls

variable {virt : Nat} {physical : BitVec 64} (ready : pager.Ready kept m)
  (takes : Takes2Mb virt physical flags)
  (lends : ∀ e, pager.view m.memory address.third = some e → e.pageSize = false →
    e.stabAllocated = true → m.allocator.Lends e.address)

include ready lends

/-- The allocator takes back the table in the slot. -/
theorem Opens.frees (opens : pager.Opens kept address flags m m') {e : Entry} {s : Stop}
    {a : Allocator} (here : pager.view m'.memory address.third = some e)
    (small : e.pageSize = false) (marked : e.stabAllocated = true)
    (refused : (m'.allocator.free ⟨e.address.toNat, 0x1000⟩).value = (.error s, a)) : False := by
  cases before : pager.view m.memory address.third with
  | none =>
    rw [(opens.third_none ready.tree before).1] at here
    obtain rfl := Option.some.inj here
    cases marked
  | some e₁ =>
    obtain ⟨after, allocator⟩ := opens.third_some before
    obtain rfl := Option.some.inj (here.symm.trans after)
    obtain ⟨a', freed⟩ := (lends _ before small marked).free
    rw [allocator, freed] at refused
    cases refused

end Calls

section Calls

variable {virt : Nat} {physical : BitVec 64} (ready : pager.Ready kept m)
  (takes : Takes2Mb virt physical flags)
  (lends : ∀ e, pager.view m.memory (translate virt).third = some e → e.pageSize = false →
    e.stabAllocated = true → m.allocator.Lends e.address)

include ready takes lends

/-- `page_2_mb` returns if there are pages for the missing tables. -/
theorem page2Mb_returns
    (provides : pager.view m.memory (translate virt).third = none →
      m.allocator.Provides (pager.missing m.memory (translate virt))) :
    ∃ page m', pager.page2Mb virt physical flags m = .ok page m' := by
  cases ran : pager.page2Mb virt physical flags m with
  | ok page m' => exact ⟨page, m', rfl⟩
  | error s m' =>
    rcases (page2Mb_yields ready virt physical flags).error ran with
      ⟨rejected, _⟩ | ⟨_, fails | ⟨opens, e, here, small, marked, refused⟩⟩
    · exact absurd takes rejected
    · cases fails with
      | refused m₁ s a begun refused =>
        exact absurd (provides begun.absent) (begun.provided ready.tree refused)
      | overflow none => cases none
    · exact (opens.frees ready lends here small marked refused).elim

/-- Behind its checks `page_2_mb` never complains about an address. -/
theorem page2Mb_error {e : MemoryResult}
    (failed : pager.page2Mb virt physical flags m = .error (.err e) m') : e ≠ .invalidAddress := by
  rcases (page2Mb_yields ready virt physical flags).error failed with
    ⟨rejected, _⟩ | ⟨_, fails | ⟨opens, e, here, small, marked, refused⟩⟩
  · exact absurd takes rejected
  · exact Allocator.alloc_error fails.err.2
  · exact (opens.frees ready lends here small marked refused).elim

end Calls

/-- Where a large page was, the entry written has no `PS`. -/
theorem Overwritten.loses {physical : BitVec 64} (accepted : flags.Accepted)
    (aligned : physical.toNat % pager2Mib = 0) (tree : pager.Tree m.memory)
    (large : (pager.seen m.memory address.third).pageSize = true)
    (overwritten : pager.Overwritten kept address flags physical m m') :
    (pager.seen m'.memory address.third).pageSize = false := by
  obtain ⟨m₁, e, opens, here, _, replaced⟩ := overwritten.replaced
  obtain rfl := Option.some.inj (here.symm.trans (opens.third tree))
  have plain : (pager.carried m.memory address flags).Plain :=
    accepted.plain.of_or_stab (carried_or_stab _ _ _)
  have page : physical.toNat % 0x1000 = 0 := by
    unfold pager2Mib at aligned
    omega
  rw [seen_of_view replaced.here, Entry.pageSize, Entry.getLsbD_pack, largeFlags, if_pos large,
    low_of_aligned page (by decide), plain.small]
  rfl

/-- The upper entries but the one of the page are those that were opened. -/
theorem Replaced.old {m m' : Memory} {e e' leaf : Entry} {i : Index} {p : Path}
    (replaced : pager.Replaced address e leaf m m') (small : e.pageSize = false)
    (shallow : p.length < 3) (apart : i :: p ≠ address.third)
    (found : pager.view m' (i :: p) = some e') : pager.view m (i :: p) = some e' := by
  refine (replaced.other small _ apart fun j same => ?_).symm.trans found
  rw [(List.cons.inj same).2] at shallow
  simp [Address.third] at shallow

/-- A page of 2 MiB with `PRESENT` leaves the entries present. -/
theorem Overwritten.intact {physical : BitVec 64} (intact : pager.Intact m.memory)
    (present : flags.getLsbD 0 = true) (page : physical.toNat % 0x1000 = 0)
    (small : (pager.seen m.memory address.third).pageSize = false)
    (overwritten : pager.Overwritten kept address flags physical m m') :
    pager.Intact m'.memory := by
  obtain ⟨m₁, e, opens, here, _, replaced⟩ := overwritten.replaced
  obtain rfl := Option.some.inj (here.symm.trans (opens.third intact.tree))
  obtain ⟨m₀, ready₀, first, second⟩ := opens.opened
  have after := second.intact opens.ready.tree (first.intact ready₀.tree intact present) present
  have bit : (pager.carried m.memory address flags).getLsbD 0 = true :=
    (getLsbD_of_or_stab (carried_or_stab _ _ _) (by decide)).trans present
  refine ⟨replaced.tree small, fun i p e shallow found nonzero => ?_⟩
  by_cases same : i :: p = address.third
  · rw [same, replaced.here] at found
    rw [← Option.some.inj found, present_leaf2Mb small page, bit]
  · exact after.present i p e shallow (replaced.old small shallow same found) nonzero

/-- A page of 2 MiB with `PRESENT` leaves the pager well formed. -/
theorem Overwritten.wellFormed {physical : BitVec 64} (wellFormed : pager.WellFormed m.memory)
    (accepted : flags.Accepted) (present : flags.getLsbD 0 = true)
    (aligned : physical.toNat % pager2Mib = 0)
    (small : (pager.seen m.memory address.third).pageSize = false)
    (overwritten : pager.Overwritten kept address flags physical m m') :
    pager.WellFormed m'.memory := by
  have page : physical.toNat % 0x1000 = 0 := by
    unfold pager2Mib at aligned
    omega
  refine ⟨overwritten.intact wellFormed.toIntact present page small,
    fun i p e lowest found large => ?_⟩
  obtain ⟨m₁, e', opens, here, _, replaced⟩ := overwritten.replaced
  obtain rfl := Option.some.inj (here.symm.trans (opens.third wellFormed.tree))
  obtain ⟨m₀, ready₀, first, second⟩ := opens.opened
  have before := first.wellFormed ready₀.tree wellFormed present
  have after := second.wellFormed opens.ready.tree before present
  have plain : (pager.carried m.memory address flags).Plain :=
    accepted.plain.of_or_stab (carried_or_stab _ _ _)
  by_cases same : i :: p = address.third
  · rw [same, replaced.here] at found
    rw [← Option.some.inj found, LargeAligned, Entry.address_pack
      (fun _ low => low_of_aligned page low), aligned]
    intro k high
    rw [getLsbD_largeFlags _ small, plain.high k high]
    simp
    omega
  · exact after.aligned i p e lowest (replaced.old small (by omega) same found) large

section Iff

variable {m : Machine} (wellFormed : pager.WellFormed m.memory)
  (supplies : m.allocator.Supplies (pager.IsTable m.memory)) {virt : Nat} {physical : BitVec 64}
  (inMemory : physical.toNat < 2 ^ 52) {flags : Flags} (takes : Takes2Mb virt physical flags)
  (lends : ∀ e, pager.view m.memory (translate virt).third = some e → e.pageSize = false →
    e.stabAllocated = true → m.allocator.Lends e.address)

include wellFormed supplies inMemory takes

include lends in
/-- Where `page_2_mb` works, its arguments and the slot suit it. -/
theorem suits_of_maps (maps : pager.Maps2Mb m virt physical flags) :
    pager.Suits2Mb m virt physical flags := by
  have ready := wellFormed.tree.ready supplies
  have outcome := page2Mb_yields ready virt physical flags
  have tree := wellFormed.tree
  have accepted := takes.2.2
  have aligned2Mb : virt % pager2Mib = 0 ∧ physical.toNat % pager2Mib = 0 := by
    by_contra odd
    obtain ⟨m', failed⟩ := maps.misaligned (by omega)
    exact page2Mb_error ready takes lends failed rfl
  have small : (pager.seen m.memory (translate virt).third).pageSize = false := by
    by_contra large
    have large := Bool.eq_true_of_not_eq_false large
    obtain ⟨page, m', returned⟩ := page2Mb_returns ready takes lends fun absent => by
      rw [seen, absent] at large
      cases large
    have lost := (outcome.ok returned).2.2.loses accepted aligned2Mb.2 tree large
    exact Bool.false_ne_true (lost.symm.trans (maps.large page m' returned large))
  refine Or.inr ⟨aligned2Mb.1, aligned2Mb.2, small, fun present => ?_⟩
  -- whenever the page is mapped, its flags are those written
  have same (provides : pager.view m.memory (translate virt).third = none →
      m.allocator.Provides (pager.missing m.memory (translate virt))) :
      pager.writtenFlags m.memory (translate virt) flags = flags := by
    obtain ⟨page, m', returned⟩ := page2Mb_returns ready takes lends provides
    obtain ⟨tree', mapped⟩ := (outcome.ok returned).2.2.translation wellFormed accepted.plain
      inMemory aligned2Mb.2 small virt
    have expected := (maps.returned page m' returned).1 0 (by decide)
    rw [Nat.add_zero, walk_eq tree', mapped, if_pos rfl, ← Flags.any_present, present] at expected
    simpa using congrArg Translation.flags (Option.some.inj expected)
  unfold KeepsFlags
  split
  next e before =>
    refine (writtenFlags_some before).mp (same fun absent => ?_)
    cases before.symm.trans absent
  next absent =>
    by_cases provides : m.allocator.Provides (pager.missing m.memory (translate virt))
    · exact Or.inl ((writtenFlags_none tree absent).mp (same fun _ => provides))
    · exact Or.inr provides

/-- Given multiples of 2 MiB and a slot that keeps the flags, `page_2_mb` works. -/
theorem maps_of_suits (canonical : Canonical virt) (virt2Mb : virt % pager2Mib = 0)
    (physical2Mb : physical.toNat % pager2Mib = 0)
    (small : (pager.seen m.memory (translate virt).third).pageSize = false)
    (keeps : flags.any pagerPresent = true → pager.KeepsFlags m (translate virt) flags) :
    pager.Maps2Mb m virt physical flags := by
  have outcome := page2Mb_yields (wellFormed.tree.ready supplies) virt physical flags
  have tree := wellFormed.tree
  have accepted := takes.2.2
  refine ⟨fun odd => by omega, fun page m' returned => ?_, fun e m' failed u => ?_,
    fun page m' _ large => ?_⟩
  · have overwritten := (outcome.ok returned).2.2
    have mapped := overwritten.translation wellFormed accepted.plain inMemory physical2Mb small
    refine ⟨fun o inside => ?_, fun u canonicalU outside => ?_⟩
    · rw [walk_eq (mapped 0).1, (mapped (virt + o)).2, if_pos (third_add virt2Mb inside),
        ← Flags.any_present]
      split
      next present =>
        have offset : (virt + o) % pager2Mib = o := by
          unfold pager2Mib at *
          omega
        have same : pager.writtenFlags m.memory (translate virt) flags = flags := by
          have keeps := keeps present
          unfold KeepsFlags at keeps
          split at keeps
          next e before => exact (writtenFlags_some before).mpr keeps
          next absent =>
            obtain ⟨m₁, e, opens, _⟩ := overwritten.replaced
            exact (writtenFlags_none tree absent).mpr
              (keeps.resolve_right (not_not_intro (opens.third_none tree absent).2))
        rw [offset, same]
      next => rfl
    · rw [walk_eq (mapped 0).1, walk_eq tree, (mapped u).2, if_neg]
      intro same
      have block := block_eq_of_third canonicalU canonical same
      unfold pager2Mib at *
      omega
  · rcases outcome.error failed with ⟨_, rfl⟩ | ⟨_, fails | ⟨opens, _⟩⟩
    · rfl
    · obtain ⟨begun, _⟩ := fails.err
      rw [walk_eq begun.ready.tree, walk_eq tree, begun.translation]
    · rw [walk_eq opens.ready.tree, walk_eq tree, opens.translation]
  · exact absurd (small.symm.trans large) Bool.false_ne_true

end Iff

/-- `page_2_mb` works exactly for the arguments and slots that suit it. -/
theorem page2Mb_maps_iff {m : Machine} (wellFormed : pager.WellFormed m.memory)
    (supplies : m.allocator.Supplies (pager.IsTable m.memory)) {virt : Nat}
    (canonical : Canonical virt) {physical : BitVec 64} (inMemory : physical.toNat < 2 ^ 52)
    {flags : Flags} (accepted : flags.Accepted)
    (lends : ∀ e, pager.view m.memory (translate virt).third = some e → e.pageSize = false →
      e.stabAllocated = true → m.allocator.Lends e.address) :
    pager.Maps2Mb m virt physical flags ↔ pager.Suits2Mb m virt physical flags := by
  by_cases misaligned : virt % 0x100000 ≠ 0 ∨ physical.toNat % 0x100000 ≠ 0
  · have ran : pager.page2Mb virt physical flags m = .error (.err .invalidAddress) m :=
      page2Mb_misaligned (misaligned.imp id fun nonzero zero => nonzero (masked_iff.mp zero))
    refine ⟨fun _ => Or.inl misaligned, fun _ => ⟨fun _ => ⟨m, ran⟩, ?_, ?_, ?_⟩⟩
    · intro page m' returned
      cases ran.symm.trans returned
    · intro e m' failed u
      cases ran.symm.trans failed
      rfl
    · intro page m' returned
      cases ran.symm.trans returned
  · obtain ⟨virt1Mb, physical1Mb⟩ := not_or.mp misaligned
    have takes : Takes2Mb virt physical flags :=
      ⟨by omega, masked_iff.mpr (by omega), accepted⟩
    constructor
    · exact suits_of_maps wellFormed supplies inMemory takes lends
    · rintro (odd | ⟨virt2Mb, physical2Mb, small, keeps⟩)
      · exact absurd odd misaligned
      · exact maps_of_suits wellFormed supplies inMemory takes canonical virt2Mb physical2Mb small
          keeps

private theorem plain_lends (virt : Nat) : ∀ e,
    plainPager.view plainMachine.memory (translate virt).third = some e → e.pageSize = false →
      e.stabAllocated = true → plainMachine.allocator.Lends e.address := by
  intro e here _ marked
  rw [plainFresh.view here] at marked
  cases marked

/-- With the mark among the flags a page of 2 MiB is mapped as it should be. -/
theorem page2Mb_maps_iff_plain : ∃ page m',
    plainPager.page2Mb 0x400000 0x600000 0x103 plainMachine = .ok page m' ∧
      plainPager.walk m'.memory 0x423456 = some ⟨0x623456, 0x103⟩ := by
  have maps := (@page2Mb_maps_iff plainPager plainMachine plainFresh.wellFormed
    plainAllocator_supplies 0x400000 (by decide) 0x600000 (by decide) 0x103 (by decide)
    (plain_lends _)).mpr (Or.inr ⟨by decide, by decide, by decide, fun _ => Or.inl (by decide)⟩)
  have ran : (match plainPager.page2Mb 0x400000 0x600000 0x103 plainMachine with
    | .ok _ _ => true
    | .error _ _ => false) = true := by decide +kernel
  cases returned : plainPager.page2Mb 0x400000 0x600000 0x103 plainMachine with
  | ok page m' => exact ⟨page, m', rfl, (maps.returned page m' returned).1 0x23456 (by decide)⟩
  | error s m' =>
    rw [returned] at ran
    cases ran

/-- A multiple of 1 MiB is accepted, and a large page that is mapped again is no large
page any more. -/
theorem page2Mb_not_maps :
    (plainPager.WellFormed plainMachine.memory ∧
      ¬plainPager.Maps2Mb plainMachine 0x100000 0x100000 3) ∧
    ∃ m, plainPager.WellFormed m.memory ∧ ¬plainPager.Maps2Mb m 0x400000 0x800000 3 := by
  refine ⟨⟨plainFresh.wellFormed, fun maps => ?_⟩, ?_⟩
  · obtain ⟨m', failed⟩ := maps.misaligned (Or.inl (by decide))
    have ran : (match plainPager.page2Mb 0x100000 0x100000 3 plainMachine with
      | .ok _ _ => true
      | .error _ _ => false) = true := by decide +kernel
    rw [failed] at ran
    cases ran
  · have ran : (match plainPager.page2Mb 0x400000 0x600000 3 plainMachine with
      | .ok _ m =>
        (plainPager.seen m.memory (translate 0x400000).third).pageSize &&
          match plainPager.page2Mb 0x400000 0x800000 3 m with
          | .ok _ m' => !(plainPager.seen m'.memory (translate 0x400000).third).pageSize
          | .error _ _ => false
      | .error _ _ => false) = true := by decide +kernel
    cases first : plainPager.page2Mb 0x400000 0x600000 3 plainMachine with
    | error s m =>
      rw [first] at ran
      cases ran
    | ok page m =>
      have ready := plainFresh.tree.ready plainAllocator_supplies
      have overwritten := ((page2Mb_yields ready 0x400000 0x600000 3).ok first).2.2
      refine ⟨m, overwritten.wellFormed plainFresh.wellFormed (by decide) (by decide) (by decide)
        (by decide), fun maps => ?_⟩
      simp only [first, Bool.and_eq_true] at ran
      obtain ⟨large, again⟩ := ran
      cases second : plainPager.page2Mb 0x400000 0x800000 3 m with
      | error s m' =>
        rw [second] at again
        cases again
      | ok page' m' =>
        rw [second] at again
        simp only [maps.large page' m' second large] at again
        cases again

end Pager

end EmkKernel
