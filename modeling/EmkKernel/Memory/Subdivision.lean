import EmkKernel.Memory.Create
import EmkKernel.Memory.Ledger
import EmkKernel.Memory.FreeRuns

/-!
# Sub-allocators

A parent allocator and the allocators it was subdivided into, each with its
callers. The parent's ledger holds the blocks of the sub-allocators next to
those of its own callers, so the pages of a sub-allocator are its own as long as
it stays within its block. Its bitmap is rounded up to whole words, which keeps it
there only if the block is made of whole words.
-/

namespace EmkKernel

open BitArray

/-- A sub-allocator of `pages` pages with its callers. -/
structure SubAllocator where
  session : Session
  pages : Nat

/-- The pages that `subdivide` reserved in the parent. -/
def SubAllocator.block (sub : SubAllocator) : MemoryBlock :=
  ⟨sub.session.allocator.addend, sub.pages * 0x1000⟩

/-- An allocator and its sub-allocators. -/
structure System where
  parent : Session
  subs : List SubAllocator

inductive Operation where
  | parent (r : Request)
  | subdivide (numPages : Nat) (behind : Words)
  | sub (i : Nat) (r : Request)

namespace System

def serve (sys : System) : Operation → Option System
  | .parent r => (sys.parent.serve r).map fun s => { sys with parent := s }
  | .subdivide numPages behind =>
    match (sys.parent.allocator.subdivide numPages behind).value with
    | (.ok a, parent) => some
        { parent := ⟨parent, sys.parent.outstanding⟩
          subs := ⟨⟨a, []⟩, numPages⟩ :: sys.subs }
    | (.error _, _) => none
  | .sub i r =>
    match sys.subs[i]? with
    | some sub => (sub.session.serve r).map fun s =>
        { sys with subs := sys.subs.set i { sub with session := s } }
    | none => none

/-- No word outside a bitmap is touched. -/
def Respects (sys : System) : Operation → Prop
  | .parent r => sys.parent.StaysInside r
  | .subdivide numPages behind =>
    (sys.parent.allocator.subdivide numPages behind).Within sys.parent.allocator.bitmapEntries
  | .sub i r => ∀ sub ∈ sys.subs[i]?, sub.session.StaysInside r

end System

/-- Sub-allocators are made of these sizes only. -/
def Operation.Cuts (sizes : Set Nat) : Operation → Prop
  | .subdivide numPages _ => numPages ∈ sizes
  | .parent _ | .sub .. => True

namespace System

def Step (sizes : Set Nat) (sys sys' : System) : Prop :=
  ∃ op : Operation, sys.Respects op ∧ op.Cuts sizes ∧ sys.serve op = some sys'

/-- What a sub-allocator hands out lies in the block reserved for it, and no page is outstanding
twice among all allocators. -/
structure Apart (sys : System) : Prop where
  within : ∀ sub ∈ sys.subs, ∀ mb ∈ sub.session.outstanding, mb.Within sub.block
  once : (sys.parent.outstanding ++ sys.subs.flatMap fun sub =>
    sub.session.outstanding).Pairwise MemoryBlock.Disjoint

/-! ### The invariant -/

/-- The blocks that the parent holds for its sub-allocators. -/
def blocks (sys : System) : List MemoryBlock := sys.subs.map SubAllocator.block

/-- The parent's ledger is that of its callers, of the bitmaps and of the blocks
of its sub-allocators, each of which is made of whole bitmap words and keeps a ledger
of its own within its block. -/
structure Owned (addend : Nat) (sys : System) : Prop where
  parent : ∃ (L : Ledger (pagesOf addend)) (bitmaps : List MemoryBlock),
    Session.KeepsBooks addend
      ⟨sys.parent.allocator, sys.parent.outstanding ++ (sys.blocks ++ bitmaps)⟩ L
  whole : ∀ sub ∈ sys.subs, 32 * sub.session.allocator.bitmapEntries = sub.pages
  subs : ∀ sub ∈ sys.subs, (∃ L : Ledger (pagesOf sub.session.allocator.addend),
      sub.session.KeepsBooks sub.session.allocator.addend L) ∧
    ∀ mb ∈ sub.session.outstanding, mb.Within sub.block

end System

namespace Session

/-- Blocks that a request does not free take no part in it. -/
theorem serve_frame {s s' : Session} {r : Request} (held : List MemoryBlock)
    (served : s.serve r = some s') :
    (Session.mk s.allocator (s.outstanding ++ held)).serve r =
      some ⟨s'.allocator, s'.outstanding ++ held⟩ := by
  cases r with
  | alloc pages =>
    simp only [serve] at served ⊢
    split at served <;> cases served <;> rfl
  | free mb =>
    simp only [serve] at served ⊢
    split at served
    next member =>
      rw [if_pos (List.mem_append_left _ member)]
      split at served <;> cases served
      · rw [List.erase_append_left _ member]
      · rfl
    next => cases served

theorem KeepsBooks.reorder {s : Session} {addend : Nat} {L : Ledger (pagesOf addend)}
    (books : s.KeepsBooks addend L) {items : List MemoryBlock}
    (perm : s.outstanding.Perm items) :
    ∃ L' : Ledger (pagesOf addend), KeepsBooks addend ⟨s.allocator, items⟩ L' := by
  have perm' : L.outstanding.Perm items := books.outstanding ▸ perm
  refine ⟨L.reorder items perm', books.addend_eq, rfl, fun k => ?_, fun mb member => ?_⟩
  · rw [L.taken_reorder items perm']
    exact books.bits k
  · exact books.runs mb (perm.mem_iff.mpr member)

/-- A request that stays inside the bitmap leaves every outstanding block inside its pages. -/
theorem within_of_wholeWords {s s' : Session} {pages : Nat} {r : Request}
    (whole : 32 * s.allocator.bitmapEntries = pages) (inside : s.StaysInside r)
    (served : s.serve r = some s')
    (within : ∀ mb ∈ s.outstanding, mb.Within ⟨s.allocator.addend, pages * 0x1000⟩) :
    ∀ mb ∈ s'.outstanding, mb.Within ⟨s.allocator.addend, pages * 0x1000⟩ := by
  cases r with
  | alloc n =>
    simp only [serve] at served
    split at served
    next mb a returned =>
      cases served
      obtain ⟨positive, k, picks, _, rfl, _⟩ := s.allocator.alloc_ok returned
      have bound := picks.inside positive ((s.allocator.alloc_within_iff n).mp inside)
      intro mb member
      rcases List.mem_cons.mp member with rfl | old
      · simp only [MemoryBlock.Within, MemoryBlock.endAddress]
        omega
      · exact within mb old
    next => cases served; exact within
    next => cases served
  | free mb =>
    simp only [serve] at served
    split at served
    next =>
      split at served
      next => cases served; exact fun mb' member => within mb' (List.mem_of_mem_erase member)
      next => cases served; exact within
      next => cases served
    next => cases served

end Session

namespace System

variable {sys sys' : System} {addend : Nat}

theorem Owned.parentServe (owned : sys.Owned addend) {r : Request} {s : Session}
    (served : sys.parent.serve r = some s) : Owned addend { sys with parent := s } := by
  obtain ⟨⟨L, bitmaps, books⟩, whole, subs⟩ := owned
  obtain ⟨L', _, books'⟩ := books.serve (Session.serve_frame _ served)
  exact ⟨⟨L', bitmaps, books'⟩, whole, subs⟩

private theorem perm_held {α : Type} (callers blocks bitmaps : List α) (mb bitmap : α) :
    (mb :: bitmap :: (callers ++ (blocks ++ bitmaps))).Perm
      (callers ++ ((mb :: blocks) ++ (bitmap :: bitmaps))) := by
  refine (List.perm_middle.trans (List.Perm.cons mb ?_)).symm
  have middle : (callers ++ blocks ++ bitmap :: bitmaps).Perm _ := List.perm_middle
  rwa [List.append_assoc, List.append_assoc] at middle

/-- The two blocks that `subdivide` allocates stay with the parent. -/
theorem Owned.subdivide (owned : sys.Owned addend) {numPages : Nat} {behind : Words}
    {a parent : Allocator} (words : numPages % 32 = 0)
    (made : (sys.parent.allocator.subdivide numPages behind).value = (.ok a, parent)) :
    Owned addend ⟨⟨parent, sys.parent.outstanding⟩, ⟨⟨a, []⟩, numPages⟩ :: sys.subs⟩ := by
  obtain ⟨⟨L, bitmaps, books⟩, whole, subs⟩ := owned
  obtain ⟨bitmap, mb, middle, first, second, rfl⟩ := Allocator.subdivide_ok made
  obtain ⟨free, books₁⟩ := books.alloc first
  obtain ⟨free', books₂⟩ := books₁.alloc second
  obtain ⟨_, k, _, _, rfl, _⟩ := middle.alloc_ok second
  refine ⟨?_, fun sub member => ?_, fun sub member => ?_⟩
  · obtain ⟨L', books'⟩ := books₂.reorder (perm_held sys.parent.outstanding sys.blocks bitmaps _ _)
    exact ⟨L', bitmap :: bitmaps, books'⟩
  · rcases List.mem_cons.mp member with rfl | old
    · simp only [Allocator.numEntriesNeeded, words, ne_eq, not_true_eq_false, if_false]
      omega
    · exact whole sub old
  · rcases List.mem_cons.mp member with rfl | old
    · exact ⟨⟨_, Session.keepsBooks_opened _⟩, fun mb none => by cases none⟩
    · exact subs sub old

/-- A request to a sub-allocator changes nothing for the others. -/
theorem Owned.subServe (owned : sys.Owned addend) {i : Nat} {r : Request} {sub : SubAllocator}
    {s : Session} (found : sys.subs[i]? = some sub) (inside : sub.session.StaysInside r)
    (served : sub.session.serve r = some s) :
    Owned addend { sys with subs := sys.subs.set i { sub with session := s } } := by
  obtain ⟨parent, whole, subs⟩ := owned
  obtain ⟨same, entries⟩ := Session.serve_keeps served
  have block : SubAllocator.block { sub with session := s } = sub.block := by
    simp only [SubAllocator.block, same]
  refine ⟨?_, fun other member => ?_, fun other member => ?_⟩
  · have blocks : blocks { sys with subs := sys.subs.set i { sub with session := s } } =
        sys.blocks := by
      obtain ⟨bound, rfl⟩ := List.getElem?_eq_some_iff.mp found
      simp only [System.blocks, List.map_set, block]
      rw [← List.getElem_map SubAllocator.block (h := by simpa using bound),
        List.set_getElem_self]
    rwa [blocks]
  · rcases List.mem_or_eq_of_mem_set member with old | rfl
    · exact whole other old
    · exact entries ▸ whole sub (List.mem_of_getElem? found)
  · rcases List.mem_or_eq_of_mem_set member with old | rfl
    · exact subs other old
    · obtain ⟨⟨L, books⟩, within⟩ := subs sub (List.mem_of_getElem? found)
      obtain ⟨L', _, books'⟩ := books.serve served
      refine ⟨?_, ?_⟩
      · rw [same]
        exact ⟨L', books'⟩
      · rw [block]
        exact Session.within_of_wholeWords (whole sub (List.mem_of_getElem? found)) inside served
          within

section Runs

variable {sizes : Set Nat} (words : ∀ n ∈ sizes, n % 32 = 0)

include words

theorem Owned.step (owned : sys.Owned addend) (step : Step sizes sys sys') :
    sys'.Owned addend := by
  obtain ⟨op, respects, cuts, served⟩ := step
  cases op with
  | parent r =>
    obtain ⟨s, answered, rfl⟩ := Option.map_eq_some_iff.mp served
    exact owned.parentServe answered
  | subdivide numPages behind =>
    simp only [serve] at served
    split at served
    next a parent made =>
      cases served
      exact owned.subdivide (words numPages cuts) made
    next => cases served
  | sub i r =>
    simp only [serve] at served
    split at served
    next sub found =>
      obtain ⟨s, answered, rfl⟩ := Option.map_eq_some_iff.mp served
      exact owned.subServe found (respects sub found) answered
    next => cases served

private theorem run_owned {a : Allocator}
    (run : Relation.ReflTransGen (Step sizes) ⟨⟨a, []⟩, []⟩ sys) :
    sys.Owned a.addend := by
  induction run with
  | refl =>
    exact ⟨⟨_, [], Session.keepsBooks_opened a⟩, fun sub none => absurd none List.not_mem_nil,
      fun sub none => absurd none List.not_mem_nil⟩
  | tail _ step ih => exact Owned.step words ih step

end Runs

theorem Owned.apart (owned : sys.Owned addend) : sys.Apart := by
  obtain ⟨⟨L, bitmaps, books⟩, _, subs⟩ := owned
  have within := fun sub member => (subs sub member).2
  refine ⟨within, ?_⟩
  have apart := books.disjoint
  obtain ⟨parent, held, across⟩ := List.pairwise_append.mp apart
  obtain ⟨blocks, _, _⟩ := List.pairwise_append.mp held
  refine List.pairwise_append.mpr ⟨parent, ?_, fun mb outer mb' inner => ?_⟩
  · refine List.pairwise_flatMap.mpr ⟨fun sub member => ?_, ?_⟩
    · obtain ⟨⟨L', books'⟩, _⟩ := subs sub member
      exact books'.disjoint
    · refine (List.pairwise_map.mp blocks).imp_of_mem fun first second apart mb one mb' two => ?_
      exact apart.mono (within _ first mb one) (within _ second mb' two)
  · obtain ⟨sub, member, inside⟩ := List.mem_flatMap.mp inner
    have block : sub.block ∈ sys.blocks ++ bitmaps :=
      List.mem_append_left _ (List.mem_map_of_mem member)
    exact (across mb outer _ block).mono ⟨Nat.le_refl _, Nat.le_refl _⟩
      (within sub member mb' inside)

/-! ### Blocks that are not made of whole words -/

section Failing

variable {a : Allocator} {n : Nat}

/-- A search ends inside the bitmap if enough zero bits follow each other from some word on. -/
private theorem searchEndsInside_of_clear {i : Nat} (current : a.currentEntry < a.bitmapEntries)
    (room : i + n / 32 < a.bitmapEntries) (clear : Clear a.bitmap (32 * i) n) :
    a.SearchEndsInside n := by
  by_cases small : n ≤ 32
  · exact Or.inr (Or.inl ⟨small, current, i, by omega, 0, by omega, clear⟩)
  · have word : a.bitmap i = 0 := by
      apply BitVec.eq_of_getLsbD_eq
      intro b inside
      have unset := clear (32 * i + b) (by unfold InRun; omega)
      rw [bit, show (32 * i + b) / 32 = i by omega, show (32 * i + b) % 32 = b by omega] at unset
      exact unset.trans BitVec.getLsbD_zero.symm
    refine Or.inr (Or.inr ⟨by omega, 32 * i / 32, ?_,
      Allocator.runsFrom_of_clear (by omega) clear⟩)
    rw [show 32 * i / 32 = i by omega, Allocator.lastWord, word,
      show Allocator.bitsAvail 0 = 32 by decide]
    omega

theorem serve_alloc (positive : 0 < n) (ends : a.SearchEndsInside n)
    (low : a.addend + 32 * a.bitmapEntries * 0x1000 ≤ 2 ^ 64) (held : List MemoryBlock) :
    ∃ k a', (Session.mk a held).serve (.alloc n) = some ⟨a', a.blockAt n k :: held⟩ ∧
      a.Took a' n k ∧ Clear a.bitmap k n ∧ k + n ≤ 32 * a.bitmapEntries := by
  obtain ⟨k, a', returned, rest⟩ := ends.returns positive low
  refine ⟨k, a', ?_, rest⟩
  simp only [Session.serve, returned]

theorem exists_outside (words : n % 32 ≠ 0) (entries : a.bitmapEntries = n / 32 + 1)
    (current : a.currentEntry = 0) (low : a.addend + 32 * a.bitmapEntries * 0x1000 ≤ 2 ^ 64)
    (clear : ∀ k < 32 * a.bitmapEntries, bit a.bitmap k = false) :
    ∃ s s', (Session.mk a []).StaysInside (.alloc n) ∧
      (Session.mk a []).serve (.alloc n) = some s ∧ s.StaysInside (.alloc 1) ∧
      s.serve (.alloc 1) = some s' ∧
      ¬∀ mb ∈ s'.outstanding, mb.Within ⟨a.addend, n * 0x1000⟩ := by
  have positive : 0 < n := by omega
  have first : a.SearchEndsInside n :=
    searchEndsInside_of_clear (by omega) (i := 0) (by omega) fun j run =>
      clear j (by unfold InRun at run; omega)
  obtain ⟨k, a', served, took, _, inside⟩ := serve_alloc positive first low []
  have same := took.bitmapEntries
  -- a page that is left: the one behind the block, or the first one
  obtain ⟨p, below, free⟩ : ∃ p < 32 * a'.bitmapEntries, bit a'.bitmap p = false := by
    refine ⟨if k = 0 then n else 0, ?_, Bool.eq_false_iff.mpr fun set => ?_⟩
    · split <;> omega
    · rcases (took.sets _).mp set with old | new
      · rw [clear _ (by split <;> omega)] at old
        cases old
      · unfold InRun at new
        split at new <;> omega
  have second : a'.SearchEndsInside 1 := by
    refine Or.inr (Or.inl ⟨by decide, ?_, p / 32, by omega, p % 32, by omega, fun j run => ?_⟩)
    · rw [took.currentEntry]
      split <;> omega
    · unfold InRun at run
      rwa [show j = p by omega]
  obtain ⟨k', a'', served', _, clear', _⟩ := serve_alloc Nat.one_pos second
    (by rw [took.addend, same]; exact low) [a.blockAt n k]
  refine ⟨_, _, (a.alloc_within_iff n).mpr first, served, (a'.alloc_within_iff 1).mpr second,
    served', fun within => ?_⟩
  obtain ⟨_, upper⟩ := within _ (List.mem_cons_of_mem _ List.mem_cons_self)
  obtain ⟨_, upper'⟩ := within _ List.mem_cons_self
  simp only [MemoryBlock.endAddress, Allocator.blockAt, took.addend] at upper upper'
  -- both blocks lie among the first pages, where the first one left no page
  have taken := (took.sets k').mpr (Or.inr (by unfold InRun; omega))
  cases (clear' k' (by unfold InRun; omega)).symm.trans taken

end Failing

/-- A parent whose pages are all free, with room for any block. -/
def freeParent : Allocator := ⟨fun _ => 0, 8192, 0, 0x100000, 0⟩

private theorem subdivide_freeParent {n : Nat} (words : n % 32 ≠ 0) (u16 : n < 2 ^ 16) :
    ∃ (bitmap : MemoryBlock) (middle : Allocator) (k : Nat) (parent : Allocator),
      (freeParent.alloc (Allocator.bitmapPagesNeeded (Allocator.numEntriesNeeded n))).value =
        (.ok bitmap, middle) ∧
      (freeParent.subdivide n fun _ => 0).value = (.ok ⟨Allocator.zeroedBlock bitmap fun _ => 0,
        n / 32 + 1, 0, 0x100000 + k * 0x1000, 0⟩, parent) ∧
      k + n ≤ 32 * 8192 ∧ (freeParent.subdivide n fun _ => 0).Within 8192 := by
  have entries : Allocator.numEntriesNeeded n = n / 32 + 1 := by
    rw [Allocator.numEntriesNeeded, if_pos words]
  have pages : 0 < Allocator.bitmapPagesNeeded (Allocator.numEntriesNeeded n) ∧
      Allocator.bitmapPagesNeeded (Allocator.numEntriesNeeded n) ≤ 2 := by
    rw [entries, Allocator.bitmapPagesNeeded]
    split <;> omega
  have first : freeParent.SearchEndsInside
      (Allocator.bitmapPagesNeeded (Allocator.numEntriesNeeded n)) :=
    searchEndsInside_of_clear (by decide) (i := 0) (by simp only [freeParent]; omega)
      fun _ _ => BitVec.getLsbD_zero
  obtain ⟨k₁, middle, returned, took, _, inside⟩ := first.returns pages.1 (by decide)
  -- a stretch of words that the bitmap does not lie in
  obtain ⟨i, low, clear⟩ : ∃ i ≤ 3000, Clear middle.bitmap (32 * i) n := by
    have unset (i : Nat) (apart : 32 * i + n ≤ k₁ ∨ k₁ + 2 ≤ 32 * i) :
        Clear middle.bitmap (32 * i) n := by
      intro j run
      unfold InRun at run
      refine Bool.eq_false_iff.mpr fun set => ?_
      rcases (took.sets j).mp set with old | new
      · cases BitVec.getLsbD_zero.symm.trans old
      · unfold InRun at new
        omega
    by_cases front : k₁ + 2 ≤ 32 * 3000
    · exact ⟨3000, Nat.le_refl _, unset _ (Or.inr front)⟩
    · exact ⟨0, Nat.zero_le _, unset 0 (Or.inl (by omega))⟩
  have same : middle.bitmapEntries = 8192 := took.bitmapEntries
  have addend : middle.addend = 0x100000 := took.addend
  have current : middle.currentEntry < 8192 := by
    have bound : k₁ + _ ≤ 32 * 8192 := inside
    rw [took.currentEntry]
    split <;> omega
  have second : middle.SearchEndsInside n :=
    searchEndsInside_of_clear (by omega) (i := i) (by omega) clear
  obtain ⟨k, parent, returned', _, _, inside'⟩ :=
    second.returns (by omega) (by omega)
  refine ⟨_, middle, k, parent, returned, ?_, by omega, ?_⟩
  · rw [entries] at returned
    simp only [Allocator.subdivide, Traced.value_bind, returned, returned', Traced.value_pure,
      entries, Allocator.blockAt, addend]
  · have within := (freeParent.alloc_within_iff _).mpr first
    have within' := (middle.alloc_within_iff n).mpr second
    rw [same] at within'
    simp only [Allocator.subdivide, Traced.within_bind, returned, returned', Traced.within_pure,
      and_true]
    exact ⟨within, within'⟩

/-- An empty parent of 64 pages. -/
def emptyParent : System := ⟨⟨⟨fun _ => 0, 2, 0, 0x100000, 0⟩, []⟩, []⟩

/-- The parent after a sub-allocator of one whole word was cut off. -/
def wordCut : System :=
  (emptyParent.serve (.subdivide 32 fun _ => 0)).get (by decide +kernel)

end System

end EmkKernel
