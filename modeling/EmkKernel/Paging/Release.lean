import EmkKernel.Library.Requests
import EmkKernel.Paging.Calls
import Mathlib.Data.List.Nodup

/-!
# `release`

`release` goes down the marked entries and gives back the table behind each of them
after the tables below it. Where the marks are on the tables, these are the pages the
pager took, and no others.
-/

namespace EmkKernel

open EStateM BitArray

namespace Pager

variable {pager : Pager} {start : Allocator} {m₀ m m' : Machine} {pt : PointerTable} {i : Index}
  {p : Path} {C D : Path → Prop} {e : Entry}

/-! ### Subtrees -/

private theorem tableAt_below {m : Memory} {q : Path} (bare : pager.tableAt m p = none)
    (below : p <:+ q) :
    pager.tableAt m q = none := by
  obtain ⟨r, rfl⟩ := below
  induction r with
  | nil => exact bare
  | cons j r ih =>
    cases reached : pager.tableAt m (j :: r ++ p) with
    | none => rfl
    | some f =>
      obtain ⟨n, above, _⟩ := RadixTree.table_of_cons reached
      cases ih.symm.trans above

/-- Two paths of one length that end a third are equal. -/
theorem suffix_eq {p p' q : Path} (first : p <:+ q) (second : p' <:+ q)
    (length : p.length = p'.length) : p = p' := by
  rw [List.suffix_iff_eq_drop] at first second
  rw [first, second, length]

theorem suffix_iff {p q : Path} : p <:+ q ↔ q = p ∨ ∃ j, j :: p <:+ q := by
  constructor
  · rintro ⟨r, rfl⟩
    rcases List.eq_nil_or_concat r with rfl | ⟨r, j, rfl⟩
    · exact Or.inl rfl
    · exact Or.inr ⟨j, r, by simp⟩
  · rintro (rfl | ⟨j, below⟩)
    · exact List.suffix_refl _
    · exact (List.suffix_cons j p).trans below

/-- The subtrees below `p` at the indices that are not left. -/
def Swept (rest : List Index) (p : Path) (q : Path) : Prop := ∃ j, j ∉ rest ∧ j :: p <:+ q

theorem swept_cons {rest : List Index} (new : i ∉ rest) {q : Path} :
    Swept rest p q ↔ Swept (i :: rest) p q ∨ i :: p <:+ q := by
  constructor
  · rintro ⟨j, done, below⟩
    by_cases same : j = i
    · exact Or.inr (same ▸ below)
    · exact Or.inl ⟨j, by simp [same, done], below⟩
  · rintro (⟨j, done, below⟩ | below)
    · exact ⟨j, fun left => done (List.mem_cons_of_mem i left), below⟩
    · exact ⟨i, new, below⟩

private theorem not_swept {rest : List Index} (left : i ∈ rest) {q : Path} (below : i :: p <:+ q) :
    ¬Swept rest p q := by
  rintro ⟨j, done, other⟩
  have same := suffix_eq other below (by simp)
  exact done ((List.cons.inj same).1 ▸ left)

/-! ### The state in the loops -/

/-- The tables in `C` are given back; elsewhere the entries are as they were, and the
tables are still lent. -/
structure Released (pager : Pager) (m₀ : Machine) (C : Path → Prop) (m : Machine) : Prop where
  entries : ∀ p n i, pager.tableAt m₀.memory p = some n → ¬C (i :: p) →
    m.memory n i = m₀.memory n i
  addend : m.allocator.addend = m₀.allocator.addend
  bits : ∀ k, bit m.allocator.bitmap k = true ↔ bit m₀.allocator.bitmap k = true ∧
    ¬∃ p f, C p ∧ pager.tableAt m₀.memory p = some f ∧ f.toNat = m₀.allocator.addend + k * 0x1000
  lent : ∀ p f, pager.tableAt m₀.memory p = some f → ¬C p → m.allocator.Lent f

theorem Books.released (books : pager.Books start m) : pager.Released m (fun _ => False) m := by
  refine ⟨fun _ _ _ _ _ => rfl, rfl, fun k => ?_, fun p f reached _ => ?_⟩
  · simp
  · cases p with
    | nil =>
      cases reached
      exact books.root
    | cons i p => exact books.lower ⟨i, p, reached⟩

/-- Paths without a table make no difference. -/
theorem Released.grow (released : pager.Released m₀ C m) (more : ∀ q, C q → D q)
    (bare : ∀ q, D q → ¬C q → pager.tableAt m₀.memory q = none) : pager.Released m₀ D m := by
  have older {q : Path} {f : BitVec 64} (reached : pager.tableAt m₀.memory q = some f)
      (inside : D q) : C q := by
    by_contra outside
    cases (bare q inside outside).symm.trans reached
  refine ⟨fun p n i reached outside => released.entries p n i reached fun inside =>
    outside (more _ inside), released.addend, fun k => ?_, fun p f reached outside =>
    released.lent p f reached fun inside => outside (more _ inside)⟩
  rw [released.bits]
  refine and_congr_right' (not_congr ⟨?_, ?_⟩)
  · rintro ⟨p, f, inside, reached, place⟩
    exact ⟨p, f, more p inside, reached, place⟩
  · rintro ⟨p, f, inside, reached, place⟩
    exact ⟨p, f, older reached inside, reached, place⟩

/-! ### Handles -/

/-- An entry that is still there, through a handle from before. -/
theorem Released.load (released : pager.Released m₀ C m) (handle : pager.Handle m₀.memory pt i p)
    (entry : pager.view m₀.memory (i :: p) = some e) (outside : ¬C (i :: p)) :
    m.memory pt.location.table pt.location.index = e := by
  rw [handle.index, released.entries p _ i handle.table outside, ← handle.index]
  exact handle.load entry

/-- `instantiate` on an entry that is still there. -/
theorem Released.instantiate (released : pager.Released m₀ C m)
    (handle : pager.Handle m₀.memory pt i p) (above : p.length < 2)
    (entry : pager.view m₀.memory (i :: p) = some e) (nonzero : e ≠ 0) (small : e.pageSize = false)
    (outside : ¬C (i :: p)) (j : Index) (below : ¬C (j :: i :: p)) {R : Stop → Machine → Prop} :
    Yields (pt.instantiate j) m
      (fun o m' => m' = m ∧ ∃ pt', o = some pt' ∧ pager.Handle m₀.memory pt' j (i :: p)) R := by
  have loaded := released.load handle entry outside
  have table : pager.tableAt m₀.memory (i :: p) = some pt.address := by
    rw [handle.address, ← handle.index, handle.load entry, handle.index]
    exact tableAt_of_view entry (by omega) nonzero small
  have same := released.entries (i :: p) pt.address j table below
  simp only [PointerTable.instantiate, yields_bind, yields_load, loaded, yields_ite,
    Entry.any_pageSize, small, handle.next above, yields_pure, same, Bool.false_eq_true, if_false]
  exact ⟨trivial, _, rfl, ⟨table, rfl, rfl, rfl⟩⟩

/-- `deallocate` on a marked entry gives back one page, the table of the entry. -/
theorem Released.deallocate (books : pager.Books start m₀) (released : pager.Released m₀ C m)
    (handle : pager.Handle m₀.memory pt i p) (shallow : p.length < 3)
    (entry : pager.view m₀.memory (i :: p) = some e) (marked : e.stabAllocated = true)
    (outside : ¬C (i :: p)) {R : Stop → Machine → Prop} :
    Yields pt.deallocate m
      (fun _ => pager.Released m₀ fun q => C q ∨ q = i :: p) R := by
  have tree := books.keeps.tree
  obtain ⟨nonzero, small⟩ := (books.marked i p e shallow entry).mp marked
  have table : pager.tableAt m₀.memory (i :: p) = some pt.address := by
    rw [handle.address, ← handle.index, handle.load entry, handle.index]
    exact tableAt_of_view entry shallow nonzero small
  obtain ⟨k, a, frame, regains, freed⟩ := (released.lent _ _ table outside).regains
  have place : pt.address.toNat = m₀.allocator.addend + k * 0x1000 := by
    rw [frame, regains.freeable.toNat_frameOf, released.addend]
  unfold PointerTable.deallocate freeBlock
  simp only [yields_bind, yields_get, freed, yields_set, yields_load, yields_store, yields_pure]
  refine ⟨fun q n j reached other => ?_, ?_, fun k' => ?_, fun q f reached other => ?_⟩
  · simp only [RadixTree.write_apply]
    rw [if_neg]
    · exact released.entries q n j reached fun inside => other (Or.inl inside)
    · rintro ⟨rfl, rfl⟩
      have above := tree.distinct q p _ reached handle.table
      exact other (Or.inr (by rw [above, handle.index]))
  · exact regains.gave.addend.trans released.addend
  · rw [regains.bit, released.bits, and_assoc]
    refine and_congr_right' ⟨?_, ?_⟩
    · rintro ⟨kept, apart⟩ ⟨q, f, inside | rfl, reached, placed⟩
      · exact kept ⟨q, f, inside, reached, placed⟩
      · obtain rfl := Option.some.inj (table.symm.trans reached)
        omega
    · intro kept
      constructor
      · rintro ⟨q, f, inside, reached, placed⟩
        exact kept ⟨q, f, Or.inl inside, reached, placed⟩
      · rintro rfl
        exact kept ⟨i :: p, _, Or.inr rfl, table, place⟩
  · refine regains.lent (released.lent q f reached fun inside => other (Or.inl inside)) ?_
    rintro rfl
    exact other (Or.inr (tree.distinct _ _ _ reached (frame ▸ table)))

/-! ### The loops -/

/-- The innermost loop of `release`. -/
@[irreducible] def releaseThird (pdt : PointerTable) (indices : List Index) : PagerM Unit :=
  indices.forM fun pti => do
    let pt ← unwrap (← pdt.instantiate pti)
    let allocated ← pt.isAllocated
    if allocated then
      let _ ← pt.deallocate
      pure ()
    else
      pure ()

@[irreducible] def releaseSecond (pdpt : PointerTable) (indices : List Index) : PagerM Unit :=
  indices.forM fun pdi => do
    let pdt ← unwrap (← pdpt.instantiate pdi)
    let readFlags ← pdt.readFlags
    if readFlags.any pagerStabAllocated = false then
      pure ()
    else
      releaseThird pdt (List.finRange 512)
      let _ ← pdt.deallocate
      pure ()

@[irreducible] def releaseFirst (pager : Pager) (indices : List Index) : PagerM Unit :=
  indices.forM fun pdpi => do
    let top ← load ⟨pager.cr3, pdpi⟩
    let pdpt ← PointerTable.new .pdpt pager.cr3 pdpi top.flags
    if pdpt.flags.any pagerStabAllocated = false then
      pure ()
    else
      releaseSecond pdpt (List.finRange 512)
      let _ ← pdpt.deallocate
      pure ()

private theorem release_eq (pager : Pager) :
    pager.release = (pager.releaseFirst (List.finRange 512) >>= fun _ =>
      freeBlock ⟨pager.cr3.toNat, 0x1000⟩) := by
  unfold release releaseFirst releaseSecond releaseThird
  rfl

theorem sweep_yields {body : Index → PagerM Unit} {indices : List Index}
    {R : Stop → Machine → Prop} (nodup : indices.Nodup) (all : ∀ j, j ∈ indices)
    (released : pager.Released m₀ C m) (clear : ∀ q, p <:+ q → ¬C q)
    (step : ∀ j D m, pager.Released m₀ D m → ¬D p → (∀ q, j :: p <:+ q → ¬D q) →
      Yields (body j) m (fun _ => pager.Released m₀ fun q => D q ∨ j :: p <:+ q) R) :
    Yields (indices.forM body) m (fun _ => pager.Released m₀ fun q => C q ∨ Swept [] p q) R := by
  let Inv (rest : List Index) (m : Machine) : Prop :=
    rest.Nodup ∧ pager.Released m₀ (fun q => C q ∨ Swept rest p q) m
  have start : Inv indices m := by
    refine ⟨nodup, released.grow (fun _ => Or.inl) ?_⟩
    rintro q (inside | ⟨j, done, _⟩) outside
    · exact absurd inside outside
    · exact absurd (all j) done
  refine (yields_forM body Inv ?_ start).mono (fun _ _ inv => inv.2) fun _ _ failed => failed
  rintro j rest m ⟨nodup, released⟩
  obtain ⟨new, nodup⟩ := List.nodup_cons.mp nodup
  have left : j ∈ j :: rest := List.mem_cons_self ..
  refine (step j _ m released ?_ fun q below => ?_).mono ?_ fun _ _ failed => failed
  · rintro (inside | ⟨j, _, below⟩)
    · exact clear p (List.suffix_refl p) inside
    · have length := below.length_le
      rw [List.length_cons] at length
      omega
  · rintro (inside | swept)
    · exact clear q ((List.suffix_cons j p).trans below) inside
    · exact not_swept left below swept
  · rintro _ m' released'
    refine ⟨nodup, released'.grow ?_ ?_⟩
    · rintro q ((inside | swept) | below)
      · exact Or.inl inside
      · exact Or.inr ((swept_cons new).mpr (Or.inl swept))
      · exact Or.inr ((swept_cons new).mpr (Or.inr below))
    · rintro q (inside | swept) outside
      · exact absurd (Or.inl (Or.inl inside)) outside
      · rcases (swept_cons new).mp swept with older | below
        · exact absurd (Or.inl (Or.inr older)) outside
        · exact absurd (Or.inr below) outside

/-- An entry without the mark has no tables below. -/
theorem Released.skip (books : pager.Books start m₀) (released : pager.Released m₀ C m)
    (entry : pager.view m₀.memory (i :: p) = some e)
    (unmarked : e.stabAllocated = false) :
    pager.Released m₀ (fun q => C q ∨ i :: p <:+ q) m := by
  refine released.grow (fun _ => Or.inl) ?_
  rintro q (inside | below) outside
  · exact absurd inside outside
  · refine tableAt_below ?_ below
    cases reached : pager.tableAt m₀.memory (i :: p) with
    | none => rfl
    | some f =>
      obtain ⟨e', here, _, _, marked, _⟩ := books.marked.table reached
      obtain rfl := Option.some.inj (entry.symm.trans here)
      cases unmarked.symm.trans marked

theorem close_yields (books : pager.Books start m₀) (handle : pager.Handle m₀.memory pt i p)
    (shallow : p.length < 3)
    (entry : pager.view m₀.memory (i :: p) = some e) (marked : e.stabAllocated = true)
    (clear : ∀ q, i :: p <:+ q → ¬C q) {inner : PagerM Unit} {R : Stop → Machine → Prop}
    (below : Yields inner m
      (fun _ => pager.Released m₀ fun q => C q ∨ Swept [] (i :: p) q) R) :
    Yields (do inner; let _ ← pt.deallocate; pure ()) m
      (fun _ => pager.Released m₀ fun q => C q ∨ i :: p <:+ q) R := by
  rw [yields_bind]
  refine below.mono ?_ fun _ _ failed => failed
  rintro _ m₁ released₁
  rw [yields_bind]
  refine (released₁.deallocate books handle shallow entry marked ?_).mono ?_ fun _ _ failed =>
    failed
  · rintro (inside | ⟨j, _, longer⟩)
    · exact clear _ (List.suffix_refl _) inside
    · have length := longer.length_le
      rw [List.length_cons] at length
      omega
  · rintro _ m₂ released₂
    rw [yields_pure]
    refine released₂.grow ?_ ?_
    · rintro q ((inside | ⟨j, _, longer⟩) | rfl)
      · exact Or.inl inside
      · exact Or.inr ((List.suffix_cons j _).trans longer)
      · exact Or.inr (List.suffix_refl _)
    · rintro q (inside | within) outside
      · exact absurd (Or.inl (Or.inl inside)) outside
      · rcases suffix_iff.mp within with same | ⟨j, longer⟩
        · exact absurd (Or.inr same) outside
        · exact absurd (Or.inl (Or.inr ⟨j, List.not_mem_nil, longer⟩)) outside

private theorem releaseThird_yields (books : pager.Books start m₀) {indices : List Index}
    (nodup : indices.Nodup) (all : ∀ j, j ∈ indices) (released : pager.Released m₀ C m)
    (handle : pager.Handle m₀.memory pt i p) (second : p.length = 1)
    (entry : pager.view m₀.memory (i :: p) = some e) (marked : e.stabAllocated = true)
    (clear : ∀ q, i :: p <:+ q → ¬C q) {R : Stop → Machine → Prop} :
    Yields (releaseThird pt indices) m
      (fun _ => pager.Released m₀ fun q => C q ∨ Swept [] (i :: p) q) R := by
  obtain ⟨nonzero, small⟩ := (books.marked i p e (by omega) entry).mp marked
  unfold releaseThird
  refine sweep_yields nodup all released clear fun j D m released outside below => ?_
  rw [yields_bind]
  refine (released.instantiate handle (by omega) entry nonzero small outside j
    (below _ (List.suffix_refl _))).mono ?_ fun _ _ failed => failed
  rintro _ m ⟨rfl, pt, rfl, handle⟩
  have entry := handle.view
  have loaded := released.load handle entry (below _ (List.suffix_refl _))
  simp only [unwrap, PointerTable.isAllocated, yields_bind, yields_pure, yields_load, yields_ite,
    loaded, Entry.any_stab]
  split
  next marked =>
    have shallow : (i :: p).length < 3 := by simp [second]
    refine (released.deallocate books handle shallow entry marked
      (below _ (List.suffix_refl _))).mono ?_ fun _ _ failed => failed
    rintro _ m' released'
    refine released'.grow ?_ ?_
    · rintro q (inside | rfl)
      · exact Or.inl inside
      · exact Or.inr (List.suffix_refl _)
    · rintro q (inside | within) other
      · exact absurd (Or.inl inside) other
      · rcases suffix_iff.mp within with same | ⟨k, longer⟩
        · exact absurd (Or.inr same) other
        · -- the tables of the fourth level have no tables below
          refine tableAt_below ?_ longer
          rw [tableAt_cons]
          cases pager.view m₀.memory (k :: j :: i :: p) with
          | none => rfl
          | some e => exact child_lowest (by simp [second]) e
  next unmarked => exact released.skip books entry (Bool.eq_false_iff.mpr unmarked)

private theorem releaseSecond_yields (books : pager.Books start m₀) {indices : List Index}
    (nodup : indices.Nodup) (all : ∀ j, j ∈ indices) (released : pager.Released m₀ C m)
    (handle : pager.Handle m₀.memory pt i []) 
    (entry : pager.view m₀.memory [i] = some e) (marked : e.stabAllocated = true)
    (clear : ∀ q, [i] <:+ q → ¬C q) {R : Stop → Machine → Prop} :
    Yields (releaseSecond pt indices) m
      (fun _ => pager.Released m₀ fun q => C q ∨ Swept [] [i] q) R := by
  obtain ⟨nonzero, small⟩ := (books.marked i [] e (by simp) entry).mp marked
  unfold releaseSecond
  refine sweep_yields nodup all released clear fun j D m released outside below => ?_
  rw [yields_bind]
  refine (released.instantiate handle (by simp) entry nonzero small outside j
    (below _ (List.suffix_refl _))).mono ?_ fun _ _ failed => failed
  rintro _ m ⟨rfl, pdt, rfl, handle⟩
  have entry := handle.view
  have loaded := released.load handle entry (below _ (List.suffix_refl _))
  simp only [unwrap, PointerTable.readFlags, pure_bind, bind_assoc]
  rw [yields_bind, yields_load, loaded, yields_ite, Entry.any_stab_flags]
  split
  next unmarked => exact released.skip books entry unmarked
  next marked =>
    have marked := Bool.eq_true_of_not_eq_false marked
    refine close_yields books handle (by simp) entry marked below ?_
    refine releaseThird_yields books ?_ ?_ released handle rfl entry marked below
    · exact List.nodup_finRange 512
    · exact List.mem_finRange

private theorem releaseFirst_yields (books : pager.Books start m) {indices : List Index}
    (nodup : indices.Nodup) (all : ∀ j, j ∈ indices) {R : Stop → Machine → Prop} :
    Yields (pager.releaseFirst indices) m
      (fun _ => pager.Released m fun q => False ∨ Swept [] [] q) R := by
  unfold releaseFirst
  refine sweep_yields nodup all books.released (fun _ _ => id) fun j D m' released outside below =>
    ?_
  have root : pager.tableAt m.memory [] = some pager.cr3 := rfl
  have loaded : m'.memory pager.cr3 j = m.memory pager.cr3 j :=
    released.entries [] _ j root (below _ (List.suffix_refl _))
  have handle (pt : PointerTable) (location : pt.location = ⟨pager.cr3, j⟩)
      (address : pt.address = (m.memory pager.cr3 j).address)
        (increment : pt.addressIncrement = 0) :
      pager.Handle m.memory pt j [] := by
    refine ⟨?_, ?_, ?_, increment⟩
    · rw [location]
      rfl
    · rw [location]
    · rw [location, address]
  have entry := view_cons root j
  rw [yields_bind, yields_load, loaded]
  simp only [PointerTable.new, yields_bind, yields_load, yields_pure, loaded]
  rw [yields_ite, Entry.any_stab_flags]
  split
  next unmarked => exact released.skip books entry unmarked
  next marked =>
    have marked := Bool.eq_true_of_not_eq_false marked
    refine close_yields books (handle _ rfl rfl rfl) (by simp) entry marked below ?_
    refine releaseSecond_yields books ?_ ?_ released (handle _ rfl rfl rfl) entry marked below
    · exact List.nodup_finRange 512
    · exact List.mem_finRange

/-- `release` gives back the tables of the pager, and no other page. -/
theorem release_yields (books : pager.Books start m) :
    Yields pager.release m
      (fun _ m' => ∀ k, bit m'.allocator.bitmap k = true ↔ bit m.allocator.bitmap k = true ∧
        ¬∃ f, pager.IsTable m.memory f ∧ f.toNat = m.allocator.addend + k * 0x1000)
      (fun _ _ => False) := by
  rw [release_eq, yields_bind]
  refine (releaseFirst_yields books (List.nodup_finRange 512) List.mem_finRange).mono ?_
    fun _ _ failed => failed
  rintro _ m₁ released
  have root : pager.tableAt m.memory [] = some pager.cr3 := rfl
  have lent : m₁.allocator.Lent pager.cr3 := by
    refine released.lent [] _ root ?_
    rintro (none | ⟨j, _, longer⟩)
    · exact none
    · simp at longer
  obtain ⟨k, a, frame, regains, freed⟩ := lent.regains
  have place : pager.cr3.toNat = m.allocator.addend + k * 0x1000 := by
    rw [frame, regains.freeable.toNat_frameOf, released.addend]
  unfold freeBlock
  simp only [yields_bind, yields_get, freed, yields_set]
  intro k'
  rw [regains.bit, released.bits, and_assoc]
  refine and_congr_right' ⟨?_, ?_⟩
  · rintro ⟨kept, apart⟩ ⟨f, ⟨q, reached⟩, placed⟩
    rcases List.eq_nil_or_concat q with rfl | ⟨r, j, rfl⟩
    · cases reached
      omega
    · rw [List.concat_eq_append] at reached
      exact kept ⟨_, f, Or.inr ⟨j, List.not_mem_nil, r, rfl⟩, reached, placed⟩
  · intro kept
    constructor
    · rintro ⟨q, f, _, reached, placed⟩
      exact kept ⟨f, ⟨q, reached⟩, placed⟩
    · rintro rfl
      exact kept ⟨_, ⟨[], root⟩, place⟩

/-- `release` gives back the tables of the pager, each of them a page taken since the
start or the root, and leaves every other page as it is. -/
def Releases (pager : Pager) (start : Allocator) (m : Machine) : Prop :=
  ∃ m', pager.release m = .ok () m' ∧ ∀ k,
    (bit m'.allocator.bitmap k = true ↔ bit m.allocator.bitmap k = true ∧
      ¬∃ f, pager.IsTable m.memory f ∧ f.toNat = m.allocator.addend + k * 0x1000) ∧
    (bit m'.allocator.bitmap k = true ↔ bit start.bitmap k = true ∧
      pager.cr3.toNat ≠ start.addend + k * 0x1000)

private theorem Books.releases (books : pager.Books start m) : pager.Releases start m := by
  have yields := release_yields books
  cases returned : pager.release m with
  | error s m' => exact (yields.error returned).elim
  | ok _ m' =>
    refine ⟨m', returned, fun k => ⟨yields.ok returned k, ?_⟩⟩
    have accounts := books.accounts
    rw [yields.ok returned k, accounts.bits, accounts.addend]
    constructor
    · rintro ⟨taken, spared⟩
      refine ⟨taken.resolve_right ?_, fun root => ?_⟩
      · rintro ⟨f, ⟨i, p, reached⟩, place⟩
        exact spared ⟨f, ⟨i :: p, reached⟩, accounts.addend ▸ place⟩
      · exact spared ⟨_, ⟨[], rfl⟩, root⟩
    · rintro ⟨taken, apart⟩
      refine ⟨Or.inl taken, ?_⟩
      rintro ⟨f, ⟨_ | ⟨i, p⟩, reached⟩, place⟩
      · exact apart ((Option.some.inj reached).symm ▸ place)
      · -- a lower table was free at the start
        have free := accounts.fresh k ⟨f, ⟨i, p, reached⟩, accounts.addend.symm ▸ place⟩
        cases free.symm.trans taken

/-- After any calls that leave the marks on the tables, a pager that began with its root
alone releases what it took. -/
theorem release_after_run (fresh : pager.Fresh m.memory)
    (stocked : m.allocator.Stocked (· = pager.cr3)) (root : m.allocator.Lent pager.cr3)
    (run : Requests.Run pager.serve pager.Leaves m m') : pager.Releases m.allocator m' :=
  Books.releases (run.keeps (fresh.books stocked root)
    fun _ _ _ books leaves served => serve_books books leaves served)

/-! ### A large page in a region without tables -/

/-- 32 pages from 1 MiB on, of which the first holds data and the second is the root. -/
def lentAllocator : Allocator :=
  { plainAllocator with bitmap := fun w => if w = 0 then 3 else 0xFFFFFFFF }

def lentPager : Pager := ⟨0x101000⟩

def lentMachine : Machine := ⟨fun _ _ => 0, lentAllocator⟩

theorem lentFresh : lentPager.Fresh lentMachine.memory := ⟨by decide, fun _ => rfl⟩

theorem lentAllocator_stocked : lentAllocator.Stocked (· = lentPager.cr3) := by
  have inside {k : Nat} (clear : bit lentAllocator.bitmap k = false) : 1 < k ∧ k < 32 := by
    have low : ∀ k : Fin 64, bit lentAllocator.bitmap k = false → 1 < k.val ∧ k.val < 32 := by
      decide
    by_cases small : k < 64
    · exact low ⟨k, small⟩ clear
    · simp only [bit, lentAllocator, show ¬k / 32 = 0 by omega, if_false] at clear
      have ones : ∀ b : Fin 32, (0xFFFFFFFF#32).getLsbD b = true := by decide
      exact absurd (clear.symm.trans (ones ⟨k % 32, Nat.mod_lt _ (by decide)⟩)) (by decide)
  refine ⟨Nat.zero_le _, fun k _ clear => ?_, fun k _ clear root => ?_⟩
  · have range : ∀ k : Fin 32, lentAllocator.Freeable 1 k := by decide
    exact range ⟨k, (inside clear).2⟩
  · have bounds := inside clear
    have value : (0x100000 + k * 0x1000) % 2 ^ 64 = 0x101000 := congrArg BitVec.toNat root
    omega

private theorem lentAllocator_root : lentAllocator.Lent lentPager.cr3 :=
  ⟨1, by decide, by decide, by decide, by decide⟩

/-- A page of 4 KiB, and the page given back. -/
theorem release_after_run_lent : ∃ m',
    lentPager.serve lentMachine (.page4Kb 0x400000 0x7000 3) = some m' ∧
      lentPager.Releases lentAllocator m' := by
  have served : (lentPager.serve lentMachine (.page4Kb 0x400000 0x7000 3)).isSome = true := by
    decide +kernel
  obtain ⟨m', step⟩ := Option.isSome_iff_exists.mp served
  exact ⟨m', step, release_after_run (m := lentMachine) lentFresh lentAllocator_stocked
    lentAllocator_root (.single ⟨.page4Kb 0x400000 0x7000 3, trivial, step⟩)⟩

/-- The leaf of a page of 2 MiB can carry the mark, and then `release` frees its data. -/
theorem release_not_after_run : ∃ m',
    Requests.Run lentPager.serve (fun _ _ => True) lentMachine m' ∧
      lentPager.Fresh lentMachine.memory ∧ lentAllocator.Stocked (· = lentPager.cr3) ∧
      lentAllocator.Lent lentPager.cr3 ∧ ¬lentPager.Releases lentAllocator m' := by
  have ran : (match lentPager.serve lentMachine (.page2Mb 0x400000 0x100000 3) with
    | some m =>
      (match lentPager.release m with
      | .ok _ m' => !bit m'.allocator.bitmap 0
      | .error _ _ => false)
    | none => false) = true := by decide +kernel
  split at ran
  next m' step =>
    refine ⟨m', .single ⟨_, trivial, step⟩, lentFresh, lentAllocator_stocked,
      lentAllocator_root, ?_⟩
    rintro ⟨m'', released, exact⟩
    rw [released] at ran
    have kept := (exact 0).2.mpr ⟨by decide, by decide⟩
    simp [kept] at ran
  next => cases ran

end Pager

end EmkKernel
