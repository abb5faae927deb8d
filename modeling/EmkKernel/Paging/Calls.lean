import EmkKernel.Library.Requests
import EmkKernel.Paging.Books

/-!
# Calls that keep the books

Every call that maps, removes or edits pages keeps the books of a pager, unless it
writes the mark into an entry that points to no table or removes it from one that
does. The calls that do so are told apart by the state they start in.
-/

namespace EmkKernel

open EStateM BitArray

/-- The state after a call, unless the call panicked. -/
theorem Fails.after {P : Machine → Prop} {overflow : Prop} {s : Stop} {m : Machine}
    (fails : Fails P overflow s m) : s = .panic ∨ P m := by
  cases s with
  | panic => exact Or.inl rfl
  | err e => exact Or.inr fails.err.1

/-- The mark is one of the flags. -/
theorem Entry.any_stab_flags (e : Entry) : e.flags.any pagerStabAllocated = e.stabAllocated := by
  rw [Flags.any_stab, getLsbD_flags]
  rfl

namespace Pager

variable {pager : Pager} {start : Allocator} {m m' : Machine} {flags : Flags} {address : Address}
  {kept : BitVec 64 → Prop}

/-! ### Mapping functions -/

private theorem page4Kb_books (books : pager.Books start m) (virt : Nat) (physical : BitVec 64)
    (flags : Flags) :
    Yields (pager.page4Kb virt physical flags) m (fun _ => pager.Books start)
      (fun s m' => s = .panic ∨ pager.Books start m') := by
  refine (page4Kb_yields books.keeps.ready virt physical flags).mono ?_ ?_
  · rintro page m' ⟨_, _, ready', m₁, reached, stored⟩
    exact stored.books ready'.tree rfl (reached.books books)
  · rintro s m' (⟨_, rfl⟩ | fails)
    · exact Or.inr books
    · exact fails.after.imp_right fun prepared => prepared.books books

/-- The page is rejected, or it keeps the marks on the tables, or there is no page for
the tables above it. -/
def Leaves2Mb (pager : Pager) (m : Machine) (virt : Nat) (physical : BitVec 64) (flags : Flags) :
    Prop :=
  ¬Takes2Mb virt physical flags ∨
  (pager.seen m.memory (translate virt).third).pageSize = false ∧
    (pager.writtenFlags m.memory (translate virt) flags).getLsbD 8 = false ∨
  pager.view m.memory (translate virt).third = none ∧
    ¬m.allocator.Provides (pager.missing m.memory (translate virt))

private theorem page2Mb_books (books : pager.Books start m) {virt : Nat} {physical : BitVec 64}
    (leaves : pager.Leaves2Mb m virt physical flags) :
    Yields (pager.page2Mb virt physical flags) m (fun _ => pager.Books start)
      (fun s m' => s = .panic ∨ pager.Books start m') := by
  have tree := books.keeps.tree
  refine (page2Mb_yields books.keeps.ready virt physical flags).mono ?_ ?_
  · rintro page m' ⟨_, takes, overwritten⟩
    have aligned : physical.toNat % 0x1000 = 0 := by
      have megabyte := masked_iff.mp takes.2.1
      omega
    rcases leaves with rejected | ⟨small, unmarked⟩ | ⟨absent, short⟩
    · exact absurd takes rejected
    · exact overwritten.books books aligned small unmarked
    · obtain ⟨m₁, e, opens, _⟩ := overwritten.replaced
      exact absurd (opens.third_none tree absent).2 short
  · rintro s m' (⟨_, rfl⟩ | ⟨_, fails | ⟨opens, _⟩⟩)
    · exact Or.inr books
    · exact fails.after.imp_right fun begun => begun.books books
    · exact Or.inr (opens.books books)

/-! ### Edits of single pages -/

/-- `get_pd_unallocated` finds the second entry, or there is no third one. -/
theorem getPdUnallocated_yields (tree : pager.Tree m.memory) (address : Address) (flags : Flags) :
    Yields (pager.getPdUnallocated address flags) m
      (fun pd m' => m' = m ∧ pager.Handle m.memory pd address.pd [address.pdp] ∧
        pd.flags = flags ∧ ∃ e, pager.view m.memory address.second = some e ∧ e ≠ 0)
      (fun s m' => m' = m ∧ s ≠ .panic ∧ pager.view m.memory address.third = none) := by
  unfold getPdUnallocated
  rw [yields_bind]
  refine (new_yields _ _).mono ?_ fun _ _ failed => failed
  rintro pdpt m ⟨rfl, handle₁, flags₁⟩
  have entry₁ := handle₁.view
  simp only [PointerTable.isPresent, PointerTable.pageSizeActive, yields_bind, yields_load,
    yields_pure, yields_ite, yields_throw, handle₁.index, decide_eq_true_eq]
  split
  next nonzero₁ =>
    have small₁ := tree.upper _ _ _ (by simp) entry₁
    refine (instantiate_yields handle₁ (by simp) entry₁ nonzero₁ small₁ address.pd).mono ?_
      fun _ _ failed => failed
    rintro _ m ⟨rfl, pd, rfl, handle₂, flags₂⟩
    have entry₂ := handle₂.view
    have small₂ := tree.upper _ _ _ (by simp) entry₂
    simp only [yields_bind, yields_load, yields_pure, yields_ite, yields_throw, handle₂.index,
      decide_eq_true_eq, Entry.any_pageSize, small₂, Bool.false_eq_true, if_false]
    split
    next nonzero₂ => exact ⟨trivial, handle₂, flags₂.trans flags₁, _, entry₂, nonzero₂⟩
    next zero₂ =>
      rw [not_not.mp zero₂] at entry₂
      exact ⟨trivial, by simp, view_below_zero entry₂ _⟩
  next zero₁ =>
    rw [not_not.mp zero₁] at entry₁
    have none : pager.view m.memory address.second = none := view_below_zero entry₁ _
    refine ⟨trivial, by simp, ?_⟩
    cases third : pager.view m.memory address.third with
    | none => rfl
    | some e =>
      obtain ⟨e₂, here₂, _⟩ := view_above third
      cases none.symm.trans here₂

/-- The calls about single pages go down to the third entry of the address. -/
theorem third_yields {α : Type} (tree : pager.Tree m.memory) {next : PointerTable → PagerM α}
    {P : α → Machine → Prop} {R : Stop → Machine → Prop}
    (reached : ∀ pt, pager.Handle m.memory pt address.pt address.second → pt.flags = flags →
      Yields (next pt) m P R)
    (missing : pager.view m.memory address.third = none → ∀ s, s ≠ .panic → R s m) :
    Yields (do
      let pd ← pager.getPdUnallocated address flags
      match ← pd.instantiate address.pt with
      | none => throw (.err .pagingError)
      | some pt => next pt) m P R := by
  rw [yields_bind]
  refine (getPdUnallocated_yields tree _ _).mono ?_ ?_
  · rintro pd m ⟨rfl, handle₂, flags₂, e₂, entry₂, nonzero₂⟩
    rw [yields_bind]
    refine (instantiate_yields handle₂ (by simp) entry₂ nonzero₂
      (tree.upper _ _ _ (by simp) entry₂) _).mono ?_ fun _ _ failed => failed
    rintro _ m ⟨rfl, pt, rfl, handle₃, flags₃⟩
    exact reached pt handle₃ (flags₃.trans flags₂)
  · rintro s m' ⟨rfl, failed, none⟩
    exact missing none s failed

/-- A write into a frame that is no table of the pager. -/
theorem Books.beside {n : BitVec 64} (books : pager.Books start m)
    (beside : ¬pager.IsTable m.memory n) (i : Index) (e : Entry) :
    pager.Books start { m with memory := RadixTree.write m.memory n i e } := by
  have beside' (r : Path) : pager.tableAt m.memory r ≠ some n := fun same => beside ⟨r, same⟩
  have tables : pager.tableAt (RadixTree.write m.memory n i e) = pager.tableAt m.memory :=
    funext (RadixTree.table_write_beside e beside')
  have view : pager.view (RadixTree.write m.memory n i e) = pager.view m.memory :=
    funext (RadixTree.entry_write_beside e beside')
  obtain ⟨⟨⟨distinct, frames, upper⟩, apart, stocked, lends⟩, marked, accounts, root⟩ := books
  have isTable : pager.IsTable (RadixTree.write m.memory n i e) = pager.IsTable m.memory := by
    funext f
    simp only [IsTable, tables]
  have page (k : Nat) : pager.IsLowerPage { m with memory := RadixTree.write m.memory n i e } k ↔
      pager.IsLowerPage m k := by
    simp only [IsLowerPage, IsLower, tables]
  refine ⟨⟨⟨?_, ?_, ?_⟩, ?_, ?_, ?_⟩, ?_, ⟨accounts.addend, fun k => ?_, fun k => ?_⟩, root⟩
  · change ∀ p q f, pager.tableAt _ p = _ → pager.tableAt _ q = _ → _
    rw [tables]
    exact distinct
  · rw [tables]
    exact frames
  · rw [view]
    exact upper
  · rw [isTable]
    exact apart
  · rw [isTable]
    exact stocked
  · rw [view]
    exact lends
  · rw [Marked, view]
    exact marked
  · rw [page]
    exact accounts.bits k
  · rw [page]
    exact accounts.fresh k

/-- An entry of the table that the third entry points to, or of frame 0 where it points
to none. -/
theorem Books.storePage (books : pager.Books start m) {e : Entry}
    (here : pager.view m.memory address.third = some e) (small : e.pageSize = false)
    (aside : e ≠ 0 ∨ ¬pager.IsTable m.memory 0) (entry : Entry) :
    pager.Books start
      { m with memory := RadixTree.write m.memory e.address address.page entry } := by
  by_cases zero : e = 0
  · subst zero
    exact books.beside (aside.resolve_left (not_not_intro rfl)) _ _
  · have table := tableAt_of_view here (by simp) zero small
    have lowest (e : Entry) : child address.third.length e = none := child_lowest (by rfl) e
    have stored : Yields (store ⟨e.address, address.page⟩ entry) m _ fun _ _ => False :=
      store_yields books.keeps.ready table ((lowest _).trans (lowest _).symm)
        fun above => absurd above (by simp)
    exact stored.2.books stored.1.tree rfl books

/-- The slot of the address has no large page, and a write through an empty slot, which
goes to frame 0, hits no table of the pager. -/
def Aside (pager : Pager) (m : Machine) (virt : Nat) : Prop :=
  ∀ e, pager.view m.memory (translate virt).third = some e →
    e.pageSize = false ∧ (e ≠ 0 ∨ ¬pager.IsTable m.memory 0)

private theorem editPage_books (books : pager.Books start m) {virt : Nat}
    (aside : virt % 0x1000 = 0 → pager.Aside m virt)
    (editFlags : Flags → Flags) (editEntry : Entry → Entry) :
    Yields (pager.editPage virt editFlags editEntry) m (fun _ => pager.Books start)
      (fun s m' => s = .panic ∨ pager.Books start m') := by
  unfold editPage
  rw [yields_ite]
  split
  next => exact Or.inr books
  next aligned =>
  have aside := aside (not_not.mp aligned)
  rw [yields_bind, yields_load]
  apply third_yields books.keeps.tree
  · intro pt handle _
    obtain ⟨small, beside⟩ := aside _ handle.view
    simp only [PointerTable.pageSizeActive, yields_bind, yields_load, yields_pure, yields_ite,
      yields_store, handle.index, Entry.any_pageSize, small, Bool.false_eq_true, if_false]
    rw [handle.address]
    exact books.storePage handle.view small beside _
  · intro _ s _
    exact Or.inr books

private theorem unpage4K_books (books : pager.Books start m) {virt : Nat}
    (aside : virt % 0x1000 = 0 → pager.view m.memory (translate virt).third = some 0 →
      ¬pager.IsTable m.memory 0) :
    Yields (pager.unpage4K virt) m (fun _ => pager.Books start)
      (fun s m' => s = .panic ∨ pager.Books start m') := by
  unfold unpage4K
  rw [yields_ite]
  split
  next => exact Or.inr books
  next aligned =>
  have aside := aside (not_not.mp aligned)
  apply third_yields books.keeps.tree
  · intro pt handle _
    have entry := handle.view
    simp only [PointerTable.pageSizeActive, yields_bind, yields_load, yields_pure, yields_ite,
      yields_store, yields_throw, handle.index, Entry.any_pageSize]
    split
    next => exact Or.inr books
    next small =>
      split
      next => exact Or.inl trivial
      rw [handle.address]
      refine books.storePage entry (Bool.eq_false_iff.mpr small) ?_ _
      rw [or_iff_not_imp_left]
      intro zero
      exact aside (entry.trans (congrArg some (not_not.mp zero)))
  · intro _ s _
    exact Or.inr books

/-! ### Binding another pager -/

section Maintains

variable {I : Machine → Prop}

private theorem maintains_addU64 (a b : Nat) : Maintains I (· = .panic) (addU64 a b) := by
  intro m inv
  unfold addU64
  rw [yields_ite]
  split
  next => exact inv
  next => exact Or.inl rfl

private theorem maintains_unwrap {α : Type} (o : Option α) :
    Maintains I (· = .panic) (unwrap o) := by
  intro m inv
  cases o with
  | some a => exact inv
  | none => exact Or.inl rfl

private theorem maintains_load (location : Location) : Maintains I (· = .panic) (load location) :=
  fun _ inv => inv

private theorem maintains_instantiate (pt : PointerTable) (index : Index) :
    Maintains I (· = .panic) (pt.instantiate index) := by
  intro m inv
  simp only [PointerTable.instantiate, yields_bind, yields_load, yields_pure, yields_ite]
  split
  next => exact inv
  next => split <;> exact inv

/-- A page of 2 MiB with flags that are not accepted is not mapped. -/
theorem maintains_page2Mb (virt : Nat) (physical : BitVec 64) (rejected : ¬flags.Accepted) :
    Maintains I (· = .panic) (pager.page2Mb virt physical flags) := by
  have reserved : flags.any 0xF0A0 = true := by simpa [Flags.Accepted] using rejected
  intro m inv
  unfold page2Mb
  rw [yields_ite, reserved]
  split
  next => exact Or.inr inv
  next => exact Or.inr inv

/-- The flags of a large page are not accepted. -/
theorem flags_rejected {e : Entry} (large : e.pageSize = true) : ¬e.flags.Accepted := by
  intro accepted
  have bit := accepted.bit (k := 7) (Or.inr (Or.inl rfl))
  rw [Entry.getLsbD_flags] at bit
  exact Bool.false_ne_true (bit.symm.trans large)

variable (small : ∀ virt physical flags, Maintains I (· = .panic)
    (pager.page4Kb virt physical flags))

include small

private theorem maintains_mapPages (vaddr paddr start : Nat) (flags : Flags) (pages : Nat) :
    Maintains I (· = .panic) (pager.mapPages vaddr paddr start flags pages) := by
  unfold mapPages
  apply maintains_forM
  intro i _
  refine maintains_bind (maintains_addU64 _ _) fun vaddr => ?_
  refine maintains_bind (maintains_addU64 _ _) fun paddr => ?_
  exact maintains_bind (small _ _ _) fun _ => maintains_pure _

private theorem maintains_mapEfficient (mb : MemoryBlock) (vaddr : Nat)
    (rejected : ¬flags.Accepted) :
    Maintains I (· = .panic) (pager.mapEfficient mb vaddr flags) := by
  have pages (vaddr paddr start pages : Nat) := maintains_mapPages small vaddr paddr
      start flags pages
  intro m inv
  unfold mapEfficient
  extract_lets offset required pages4K two rem
  rw [yields_ite]
  split
  next => exact pages _ _ _ _ m inv
  next =>
    refine maintains_bind (pages _ _ _ _) (fun _ => ?_) m inv
    refine maintains_bind (maintains_forM fun i _ => ?_) fun _ => pages _ _ _ _
    refine maintains_bind (maintains_addU64 _ _) fun vaddr => ?_
    refine maintains_bind (maintains_addU64 _ _) fun paddr => ?_
    exact maintains_bind (maintains_page2Mb _ _ rejected) fun _ => maintains_pure _

/-- What mapping single pages maintains, `bind_other` maintains. -/
theorem maintains_bindOther (base : Nat) (other : Pager) :
    Maintains I (· = .panic) (pager.bindOther base other) := by
  unfold bindOther
  generalize List.finRange 512 = indices
  apply maintains_forM
  intro pdpi _
  refine maintains_bind (maintains_load _) fun top => ?_
  refine maintains_bind (fun m inv => inv) fun pdpt => ?_
  split
  · exact maintains_pure _
  apply maintains_forM
  intro pdi _
  refine maintains_bind (maintains_instantiate _ _) fun o => ?_
  refine maintains_bind (maintains_unwrap o) fun pdt => ?_
  refine maintains_bind (fun m inv => inv) fun flags => ?_
  split
  · exact maintains_pure _
  apply maintains_forM
  intro pti _
  refine maintains_bind (maintains_instantiate _ _) fun o => ?_
  refine maintains_bind (maintains_unwrap o) fun pt => ?_
  intro m inv
  simp only [PointerTable.readFlags, PointerTable.pageSizeActive, yields_bind, yields_load,
    yields_pure, yields_ite, Entry.any_pageSize]
  split
  next => exact inv
  next =>
    split
    next large =>
      -- the flags of a large page carry `PS`
      have rejected := flags_rejected large
      refine (maintains_addU64 _ _ m inv).mono (fun vaddr m' inv' => ?_) fun _ _ failed => failed
      split
      next =>
        exact (maintains_page2Mb _ _ rejected m' inv').mono (fun _ _ kept => kept)
          fun _ _ failed => failed
      next => exact maintains_mapEfficient small _ _ rejected m' inv'
    next =>
      refine maintains_forM (fun pi _ => ?_) m inv
      refine maintains_bind (maintains_load _) fun raw => ?_
      split
      · exact maintains_pure _
      · refine maintains_bind (maintains_addU64 _ _) fun vaddr => ?_
        exact maintains_bind (small _ _ _) fun _ => maintains_pure _

end Maintains

/-! ### Requests -/

end Pager

/-- The calls that change the pages of a pager. -/
inductive PagerRequest where
  | page4Kb (virt : Nat) (physical : BitVec 64) (flags : Flags)
  | page2Mb (virt : Nat) (physical : BitVec 64) (flags : Flags)
  | unpage4K (virt : Nat)
  | activate (virt : Nat)
  | deactivate (virt : Nat)
  | switchPermission (virt : Nat)
  | bindOther (base : Nat) (other : Pager)

namespace Pager

variable (pager : Pager)

def call : PagerRequest → PagerM Unit
  | .page4Kb virt physical flags => do
    let _ ← pager.page4Kb virt physical flags
    pure ()
  | .page2Mb virt physical flags => do
    let _ ← pager.page2Mb virt physical flags
    pure ()
  | .unpage4K virt => pager.unpage4K virt
  | .activate virt => pager.activate virt
  | .deactivate virt => pager.deactivate virt
  | .switchPermission virt => pager.switchPermission virt
  | .bindOther base other => pager.bindOther base other

/-- The state after a call, which may have returned an error. -/
def serve (m : Machine) (r : PagerRequest) : Option Machine :=
  match pager.call r m with
  | .ok _ m' => some m'
  | .error (.err _) m' => some m'
  | .error .panic _ => none

/-- The call leaves the marks on the tables. -/
def Leaves (m : Machine) : PagerRequest → Prop
  | .page4Kb .. | .bindOther .. => True
  | .page2Mb virt physical flags => pager.Leaves2Mb m virt physical flags
  | .unpage4K virt =>
    virt % 0x1000 = 0 → pager.view m.memory (translate virt).third = some 0 →
      ¬pager.IsTable m.memory 0
  | .activate virt | .deactivate virt | .switchPermission virt =>
    virt % 0x1000 = 0 → pager.Aside m virt

variable {pager}

private theorem call_books (books : pager.Books start m) {r : PagerRequest}
    (leaves : pager.Leaves m r) :
    Yields (pager.call r) m (fun _ => pager.Books start)
      (fun s m' => s = .panic ∨ pager.Books start m') := by
  have small (virt : Nat) (physical : BitVec 64) (flags : Flags) :
      Maintains (pager.Books start) (· = .panic) (pager.page4Kb virt physical flags) :=
    fun _ books => page4Kb_books books virt physical flags
  cases r with
  | page4Kb virt physical flags =>
    exact maintains_bind (small virt physical flags) (fun _ => maintains_pure _) m books
  | page2Mb virt physical flags =>
    unfold call
    rw [yields_bind]
    exact page2Mb_books books leaves
  | unpage4K virt => exact unpage4K_books books leaves
  | activate virt =>
    unfold call activate
    exact editPage_books books leaves _ _
  | deactivate virt =>
    unfold call deactivate
    exact editPage_books books leaves _ _
  | switchPermission virt =>
    unfold call switchPermission
    exact editPage_books books leaves _ _
  | bindOther base other =>
    unfold call
    exact maintains_bindOther small base other m books

theorem serve_books (books : pager.Books start m) {r : PagerRequest} (leaves : pager.Leaves m r)
    (served : pager.serve m r = some m') : pager.Books start m' := by
  have kept := call_books books leaves
  unfold serve at served
  split at served
  next ran =>
    cases served
    exact kept.ok ran
  next ran =>
    cases served
    exact (kept.error ran).resolve_left (by simp)
  next => cases served

/-- A pager whose only table is its root, in an empty state of the books. -/
theorem Fresh.books (fresh : pager.Fresh m.memory)
    (stocked : m.allocator.Stocked (· = pager.cr3)) (root : m.allocator.Lent pager.cr3) :
    pager.Books m.allocator m := by
  have lower (f : BitVec 64) : ¬pager.IsLower m.memory f := by
    rintro ⟨i, p, reached⟩
    cases (fresh.tableAt i p).symm.trans reached
  refine ⟨⟨fresh.tree, fun _ other => other.elim, stocked.mono fun f used => ?_,
    fun i p e _ found small marked => ?_⟩, fun i p e _ found => ?_, ⟨rfl, fun k => ?_,
    fun k isLower => ?_⟩, root⟩
  · exact fresh.isTable_iff.mp (used.resolve_left id)
  · rw [fresh.view found] at marked
    cases marked
  · rw [fresh.view found]
    simp [Entry.stabAllocated]
  · refine ⟨Or.inl, fun taken => taken.resolve_right ?_⟩
    rintro ⟨f, isLower, _⟩
    exact lower f isLower
  · obtain ⟨f, isLower, _⟩ := isLower
    exact absurd isLower (lower f)

end Pager

end EmkKernel
