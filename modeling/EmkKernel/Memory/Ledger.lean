import EmkKernel.Library.Ledger
import EmkKernel.Memory.Alloc
import Mathlib.Logic.Relation

/-!
# The allocator keeps a ledger of its pages

A `Session` is an allocator together with the blocks its callers hold. Serving
a request refines a step of the abstract `Ledger` over page indices: a page's
bit is set exactly when the page is taken in the ledger.
-/

namespace EmkKernel

open BitArray

/-- The address of page `k` of an allocator with this addend. -/
def pageAddress (addend k : Nat) : Nat := addend + k * 0x1000

/-- The pages of an allocator with this addend that a block contains. -/
def pagesOf (addend : Nat) (mb : MemoryBlock) : Set Nat :=
  {k | mb.Contains (pageAddress addend k)}

theorem mem_pagesOf {addend k : Nat} {mb : MemoryBlock} :
    k ∈ pagesOf addend mb ↔ mb.Contains (pageAddress addend k) := Iff.rfl

private theorem mem_pagesOf_blockAt (a : Allocator) (pages k j : Nat) :
    j ∈ pagesOf a.addend (a.blockAt pages k) ↔ InRun k pages j := by
  simp only [mem_pagesOf, MemoryBlock.Contains, MemoryBlock.endAddress,
    Allocator.blockAt, pageAddress, InRun]
  omega

/-- An allocator and the blocks handed out and not yet freed. -/
structure Session where
  allocator : Allocator
  outstanding : List MemoryBlock

inductive Request where
  | alloc (pages : Nat)
  | free (mb : MemoryBlock)
  deriving DecidableEq, Repr

namespace Session

/-- Serve a request. A block may be freed only by who holds it; a panic ends the run. -/
def serve (s : Session) : Request → Option Session
  | .alloc pages =>
    match (s.allocator.alloc pages).value with
    | (.ok mb, a) => some ⟨a, mb :: s.outstanding⟩
    | (.error (.err _), a) => some ⟨a, s.outstanding⟩
    | (.error .panic, _) => none
  | .free mb =>
    if mb ∈ s.outstanding then
      match (s.allocator.free mb).value with
      | (.ok _, a) => some ⟨a, s.outstanding.erase mb⟩
      | (.error (.err _), a) => some ⟨a, s.outstanding⟩
      | (.error .panic, _) => none
    else
      none

/-- Every bitmap word the request touches lies inside the bitmap. -/
def StaysInside (s : Session) : Request → Prop
  | .alloc pages => (s.allocator.alloc pages).Within s.allocator.bitmapEntries
  | .free mb => (s.allocator.free mb).Within s.allocator.bitmapEntries

instance (s : Session) : (r : Request) → Decidable (s.StaysInside r)
  | .alloc pages => inferInstanceAs (Decidable ((s.allocator.alloc pages).Within _))
  | .free mb => inferInstanceAs (Decidable ((s.allocator.free mb).Within _))

/-- One request served without leaving the bitmap. -/
def Step (s s' : Session) : Prop := ∃ r, s.StaysInside r ∧ s.serve r = some s'

/-- The session's bitmap and blocks are those of the ledger. -/
structure KeepsBooks (addend : Nat) (s : Session) (L : Ledger (pagesOf addend)) : Prop where
  addend_eq : s.allocator.addend = addend
  outstanding : L.outstanding = s.outstanding
  bits : ∀ k, bit s.allocator.bitmap k = true ↔ k ∈ L.taken
  runs : ∀ mb ∈ s.outstanding, ∃ pages k, 0 < pages ∧ mb = s.allocator.blockAt pages k

variable {s s' : Session} {addend : Nat} {L : Ledger (pagesOf addend)}

/-- A successful `alloc` is a grant. -/
theorem KeepsBooks.alloc (books : s.KeepsBooks addend L) {pages : Nat} {mb : MemoryBlock}
    {a : Allocator} (returned : (s.allocator.alloc pages).value = (.ok mb, a)) :
    ∃ free : Disjoint (pagesOf addend mb) L.taken,
      KeepsBooks addend ⟨a, mb :: s.outstanding⟩ (L.grant mb free) := by
  obtain ⟨rfl, outstanding, bits, runs⟩ := books
  obtain ⟨positive, k, picks, took, rfl, _⟩ := s.allocator.alloc_ok returned
  have pages_eq (j : Nat) := mem_pagesOf_blockAt s.allocator pages k j
  have free : Disjoint (pagesOf s.allocator.addend (s.allocator.blockAt pages k)) L.taken := by
    rw [Set.disjoint_left]
    intro j inside held
    have clear := picks.clear j ((pages_eq j).mp inside)
    rw [(bits j).mpr held] at clear
    cases clear
  refine ⟨free, took.addend, ?_, fun j => ?_, ?_⟩
  · simp only [Ledger.grant, outstanding]
  · rw [took.sets j, bits j, ← pages_eq j]
    exact (L.mem_taken_grant _ free j).symm
  · intro mb member
    rcases List.mem_cons.mp member with rfl | old
    · exact ⟨pages, k, positive, by rw [Allocator.blockAt, took.addend]⟩
    · obtain ⟨n, l, some_pages, rfl⟩ := runs mb old
      exact ⟨n, l, some_pages, by rw [Allocator.blockAt, Allocator.blockAt, took.addend]⟩

/-- Freeing a held block succeeds and takes the item back, or changes nothing. -/
theorem KeepsBooks.free (books : s.KeepsBooks addend L) {mb : MemoryBlock}
    (held : mb ∈ s.outstanding) :
    (∃ a, (s.allocator.free mb).value = (.ok (), a) ∧
      KeepsBooks addend ⟨a, s.outstanding.erase mb⟩ (L.giveBack mb)) ∨
    (∃ stop, (s.allocator.free mb).value = (.error stop, s.allocator)) := by
  obtain ⟨rfl, outstanding, bits, runs⟩ := books
  obtain ⟨pages, k, positive, rfl⟩ := runs mb held
  by_cases freeable : s.allocator.Freeable pages k
  · left
    have taken : ∀ j, InRun k pages j → bit s.allocator.bitmap j = true := by
      intro j run
      refine (bits j).mpr (Or.inr ⟨_, outstanding ▸ held, ?_⟩)
      exact (mem_pagesOf_blockAt s.allocator pages k j).mpr run
    obtain ⟨a, returned, gave⟩ := s.allocator.free_granted freeable taken
    refine ⟨a, returned, gave.addend, ?_, fun j => ?_, ?_⟩
    · simp only [Ledger.giveBack, outstanding]
    · rw [gave.clears j, bits j, ← mem_pagesOf_blockAt s.allocator pages k j]
      exact (L.mem_taken_giveBack (outstanding ▸ held) j).symm
    · intro mb member
      obtain ⟨n, l, some_pages, rfl⟩ := runs mb (List.mem_of_mem_erase member)
      exact ⟨n, l, some_pages, by rw [Allocator.blockAt, Allocator.blockAt, gave.addend]⟩
  · right
    exact s.allocator.free_refused freeable

/-- Serving a request refines the ledger. -/
theorem KeepsBooks.serve (books : s.KeepsBooks addend L) {r : Request}
    (served : s.serve r = some s') :
    ∃ L', L'.reserved = L.reserved ∧ s'.KeepsBooks addend L' := by
  cases r with
  | alloc pages =>
    simp only [Session.serve] at served
    split at served
    next mb a returned =>
      obtain ⟨free, kept⟩ := books.alloc returned
      cases served
      exact ⟨L.grant mb free, rfl, kept⟩
    next e a returned =>
      cases served
      have same := s.allocator.alloc_err returned
      exact ⟨L, rfl, by rwa [same]⟩
    next => cases served
  | free mb =>
    simp only [Session.serve] at served
    split at served
    next held =>
      rcases books.free held with ⟨a, returned, kept⟩ | ⟨stop, returned⟩
      · simp only [returned, Option.some.injEq] at served
        subst served
        exact ⟨L.giveBack mb, rfl, kept⟩
      · cases stop with
        | err e =>
          simp only [returned, Option.some.injEq] at served
          subst served
          exact ⟨L, rfl, books⟩
        | panic => simp [returned] at served
    next => cases served

/-- No request moves the managed range. -/
theorem serve_keeps {r : Request} (served : s.serve r = some s') :
    s'.allocator.addend = s.allocator.addend ∧
      s'.allocator.bitmapEntries = s.allocator.bitmapEntries := by
  cases r with
  | alloc pages =>
    simp only [serve] at served
    split at served
    next mb a returned =>
      cases served
      exact s.allocator.alloc_keeps returned
    next e a returned =>
      cases served
      exact s.allocator.alloc_keeps returned
    next => cases served
  | free mb =>
    simp only [serve] at served
    split at served
    next held =>
      split at served
      next a returned =>
        cases served
        exact s.allocator.free_keeps returned
      next e a returned =>
        cases served
        exact s.allocator.free_keeps returned
      next => cases served
    next => cases served

theorem run_keeps (run : Relation.ReflTransGen Step s s') :
    s'.allocator.addend = s.allocator.addend ∧
      s'.allocator.bitmapEntries = s.allocator.bitmapEntries := by
  induction run with
  | refl => exact ⟨rfl, rfl⟩
  | tail _ step ih =>
    obtain ⟨r, _, served⟩ := step
    obtain ⟨addend, entries⟩ := serve_keeps served
    exact ⟨addend.trans ih.1, entries.trans ih.2⟩

/-- Opening a session reserves the pages whose bits are set. -/
theorem keepsBooks_opened (a : Allocator) :
    KeepsBooks a.addend ⟨a, []⟩ (Ledger.opened {k | bit a.bitmap k = true}) :=
  ⟨rfl, rfl, fun k => by simp, by simp⟩

/-- Whatever is served, the session keeps the books it opened with. -/
theorem run_keepsBooks {a : Allocator} (run : Relation.ReflTransGen Step ⟨a, []⟩ s) :
    ∃ L : Ledger (pagesOf a.addend),
      L.reserved = {k | bit a.bitmap k = true} ∧ s.KeepsBooks a.addend L := by
  induction run with
  | refl => exact ⟨_, rfl, keepsBooks_opened a⟩
  | tail _ step ih =>
    obtain ⟨L, reserved, books⟩ := ih
    obtain ⟨r, _, served⟩ := step
    obtain ⟨L', same, books'⟩ := books.serve served
    exact ⟨L', same.trans reserved, books'⟩

/-- Blocks made of whole pages share an address only if they share a page. -/
private theorem blocks_disjoint {a b : Allocator} (same : b.addend = a.addend) {n k m l : Nat}
    (apart : Disjoint (pagesOf a.addend (b.blockAt n k)) (pagesOf a.addend (b.blockAt m l))) :
    (b.blockAt n k).Disjoint (b.blockAt m l) := by
  intro address first second
  rw [Set.disjoint_left, ← same] at apart
  refine apart ((mem_pagesOf_blockAt b n k ((address - b.addend) / 0x1000)).mpr ?_)
    ((mem_pagesOf_blockAt b m l ((address - b.addend) / 0x1000)).mpr ?_)
  · simp only [MemoryBlock.Contains, MemoryBlock.endAddress, Allocator.blockAt] at first
    unfold InRun
    omega
  · simp only [MemoryBlock.Contains, MemoryBlock.endAddress, Allocator.blockAt] at second
    unfold InRun
    omega

theorem KeepsBooks.disjoint (books : s.KeepsBooks addend L) :
    s.outstanding.Pairwise MemoryBlock.Disjoint := by
  obtain ⟨rfl, outstanding, bits, runs⟩ := books
  rw [← outstanding]
  refine L.disjoint.imp_of_mem fun {mb mb'} first second apart => ?_
  obtain ⟨n, k, _, rfl⟩ := runs mb (outstanding ▸ first)
  obtain ⟨m, l, _, rfl⟩ := runs mb' (outstanding ▸ second)
  exact blocks_disjoint rfl apart

/-- Whatever an allocator's bitmap holds at the start: in every run that stays
inside the bitmap, the blocks outstanding are disjoint, none of them contains a
page that was reserved at the start, and a page's bit is set exactly when the
page is reserved or belongs to one outstanding block. -/
theorem allocator_ledger {a : Allocator} (run : Relation.ReflTransGen Step ⟨a, []⟩ s) :
    s.outstanding.Pairwise MemoryBlock.Disjoint ∧
    (∀ mb ∈ s.outstanding, ∀ k, bit a.bitmap k = true →
      ¬mb.Contains (pageAddress a.addend k)) ∧
    ∀ k, bit s.allocator.bitmap k = true ↔ bit a.bitmap k = true ∨
      ∃! mb, mb ∈ s.outstanding ∧ mb.Contains (pageAddress a.addend k) := by
  obtain ⟨L, reserved, books⟩ := run_keepsBooks run
  have member (k : Nat) : k ∈ L.reserved ↔ bit a.bitmap k = true := by rw [reserved]; rfl
  refine ⟨books.disjoint, fun mb held k set contains => ?_, fun k => ?_⟩
  · exact Set.disjoint_left.mp (L.fresh mb (books.outstanding ▸ held)) contains
      ((member k).mpr set)
  · rw [books.bits k, L.mem_taken_iff_unique k, member k, books.outstanding]
    rfl

/-- An allocator whose first word has four free pages left. -/
def crowded : Allocator := ⟨fun i => if i = 0 then 0xFFFFFFF0 else 0, 4, 0, 0x100000, 0⟩

/-- Serve the requests one after another. -/
def serveAll (s : Session) : List Request → Option Session
  | [] => some s
  | r :: rest => if s.StaysInside r then (s.serve r).bind (·.serveAll rest) else none

theorem serveAll_run {s s' : Session} {rs : List Request} (served : s.serveAll rs = some s') :
    Relation.ReflTransGen Step s s' := by
  induction rs generalizing s with
  | nil =>
    cases served
    exact .refl
  | cons r rest ih =>
    simp only [serveAll] at served
    split at served
    next inside =>
      obtain ⟨middle, first, later⟩ := Option.bind_eq_some_iff.mp served
      exact (ih later).head ⟨r, inside, first⟩
    next => cases served

/-- Both paths of `alloc` and a `free` on one bitmap. -/
theorem allocator_ledger_crowded : ∃ s, Relation.ReflTransGen Step ⟨crowded, []⟩ s ∧
    s.outstanding = [⟨0x120000, 0x28000⟩] ∧ s.outstanding.Pairwise MemoryBlock.Disjoint := by
  have served : ((serveAll ⟨crowded, []⟩ [.alloc 4, .alloc 40, .free ⟨0x100000, 0x4000⟩]).map
      Session.outstanding) = some [⟨0x120000, 0x28000⟩] := by decide +kernel
  obtain ⟨s, served, outstanding⟩ := Option.map_eq_some_iff.mp served
  have run := serveAll_run served
  exact ⟨s, run, outstanding, (allocator_ledger run).1⟩

end Session

end EmkKernel
