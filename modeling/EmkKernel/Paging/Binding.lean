import EmkKernel.Paging.Occupation
import EmkKernel.Paging.Release
import EmkKernel.Paging.Spared

/-!
# Binding an address space into another

`bind_other` goes down the present entries of another pager and maps the pages behind them, a
fixed distance further on. A page of 2 MiB has `PS` among its flags, which no call accepts, so
a bound address space consists of small pages.
-/

namespace EmkKernel

open EStateM

/-- The addresses of a space from `base` on are those of another space, as far as it has any. -/
def Space.overlay (space other : Space) (base : Nat) : Space := fun v =>
  if base ≤ v ∧ v < base + 2 ^ 48 then (other (v - base)).or (space v) else space v

namespace Pager

variable {pager other : Pager} {kept : BitVec 64 → Prop} {m₀ m m' : Machine} {address : Address}
  {flags : Flags} {q : Path} {base : Nat} {C D : Path → Prop}

/-! ### What is bound so far -/

open Classical in
/-- The addresses whose entries are in `C` are those of the other space. -/
noncomputable def overlayOn (space other : Space) (base : Nat) (C : Path → Prop) : Space := fun v =>
  if base ≤ v ∧ v < base + 2 ^ 48 ∧ C (translate (v - base)).fourth then
    (other (v - base)).or (space v)
  else space v

/-- The pages behind the entries in `C` are bound. -/
structure Bound (pager other : Pager) (base : Nat) (m₀ : Machine) (C : Path → Prop) (m : Machine) :
    Prop where
  presents : pager.Presents (other.IsTable m₀.memory) m
    (overlayOn (pager.spaceOf m₀.memory) (other.spaceOf m₀.memory) base C)
  others : ∀ f, other.IsTable m₀.memory f → m.memory f = m₀.memory f
  small : ∀ u < 2 ^ 48, other.spaceOf m₀.memory u ≠ none → C (translate u).fourth →
    (other.seen m₀.memory (translate u).third).pageSize = false

private theorem overlayOn_congr {space space' : Space}
    (same : ∀ u, u < 2 ^ 48 → space' u ≠ none → (C (translate u).fourth ↔ D (translate u).fourth)) :
    overlayOn space space' base C = overlayOn space space' base D := by
  funext v
  simp only [overlayOn]
  by_cases inside : base ≤ v ∧ v < base + 2 ^ 48
  · cases there : space' (v - base) with
    | none => simp only [Option.none_or, ite_self]
    | some t =>
      have same := same (v - base) (by omega) (by simp [there])
      split
      next marked => rw [if_pos ⟨marked.1, marked.2.1, same.mp marked.2.2⟩]
      next unmarked => rw [if_neg fun all => unmarked ⟨all.1, all.2.1, same.mpr all.2.2⟩]
  · rw [if_neg fun all => inside ⟨all.1, all.2.1⟩, if_neg fun all => inside ⟨all.1, all.2.1⟩]

theorem Bound.grow (bound : pager.Bound other base m₀ C m)
    (same : ∀ u, u < 2 ^ 48 → other.spaceOf m₀.memory u ≠ none →
      (C (translate u).fourth ↔ D (translate u).fourth)) :
    pager.Bound other base m₀ D m := by
  obtain ⟨presents, others, small⟩ := bound
  rw [overlayOn_congr same] at presents
  exact ⟨presents, others, fun u below found inside =>
    small u below found ((same u below found).mpr inside)⟩

/-- What an error leaves: some of the pages are bound. -/
def Halfway (pager other : Pager) (base : Nat) (m₀ : Machine) (s : Stop) (m : Machine) : Prop :=
  s = .panic ∨ ∃ C, pager.Bound other base m₀ C m

theorem bindAll_yields {body : Index → PagerM Unit} {p : Path} {indices : List Index}
    (nodup : indices.Nodup) (all : ∀ j, j ∈ indices) (bound : pager.Bound other base m₀ C m)
    (step : ∀ j D m, pager.Bound other base m₀ D m → Yields (body j) m
      (fun _ => pager.Bound other base m₀ fun q => D q ∨ j :: p <:+ q)
      (pager.Halfway other base m₀)) :
    Yields (indices.forM body) m
      (fun _ => pager.Bound other base m₀ fun q => C q ∨ Swept [] p q)
      (pager.Halfway other base m₀) := by
  let Inv (rest : List Index) (m : Machine) : Prop :=
    rest.Nodup ∧ pager.Bound other base m₀ (fun q => C q ∨ Swept rest p q) m
  have start : Inv indices m := by
    refine ⟨nodup, bound.grow fun u _ _ => ?_⟩
    refine ⟨Or.inl, fun within => within.resolve_right ?_⟩
    rintro ⟨j, done, _⟩
    exact done (all j)
  refine (yields_forM body Inv ?_ start).mono (fun _ _ inv => inv.2) fun _ _ failed => failed
  rintro j rest m ⟨nodup, bound⟩
  obtain ⟨new, nodup⟩ := List.nodup_cons.mp nodup
  refine (step j _ m bound).mono (fun _ m' bound' => ⟨nodup, bound'.grow fun u _ _ => ?_⟩)
    fun _ _ failed => failed
  rw [swept_cons new, or_assoc]

/-! ### Addresses and indices -/

private theorem intoAddress_lt (a : Address) :
    intoAddress a.pdp a.pd a.pt a.page + 0xFFF < 2 ^ 48 := by
  have bounds := And.intro a.pdp.isLt (And.intro a.pd.isLt (And.intro a.pt.isLt a.page.isLt))
  unfold intoAddress pager2Mib pager1Gib pager512Gib
  omega

private theorem intoAddress_aligned (a : Address) :
    intoAddress a.pdp a.pd a.pt a.page % 0x1000 = 0 := by
  unfold intoAddress pager2Mib pager1Gib pager512Gib
  omega

private theorem translate_page (a : Address) {o : Nat} (inside : o < 0x1000) :
    translate (intoAddress a.pdp a.pd a.pt a.page + o) = a :=
  (translate_inPage (intoAddress_aligned a) inside).trans (translate_intoAddress ..)

private theorem intoAddress_translate {u : Nat} (below : u < 2 ^ 48) :
    intoAddress (translate u).pdp (translate u).pd (translate u).pt (translate u).page +
      u % 0x1000 = u := by
  simp only [translate, intoAddress, pager2Mib, pager1Gib, pager512Gib, Fin.ofNat]
  omega

private theorem eq_of_fourth {a b : Address} (same : a.fourth = b.fourth) : a = b := by
  obtain ⟨_, _, _, _⟩ := a
  obtain ⟨_, _, _, _⟩ := b
  simp only [Address.fourth, List.cons.injEq, and_true] at same
  simp only [same]

/-! ### The other pager -/

/-- The other pager is in order, its pages lie in physical memory, and there are addresses for
them from `base` on. -/
structure Bindable (other : Pager) (base : Nat) (m : Memory) : Prop where
  wellFormed : other.WellFormed m
  inMemory : other.InMemory m
  canonical : ∀ u < 2 ^ 48, other.walk m u ≠ none → Canonical (base + u)

/-- The entries of an address down to the third one are present, and it has small pages. -/
structure Way (other : Pager) (m : Memory) (a : Address) : Prop where
  first : (other.seen m a.first).present = true
  second : (other.seen m a.second).present = true
  third : (other.seen m a.third).present = true
  small : (other.seen m a.third).pageSize = false

/-- What the other space has behind a leaf. -/
theorem Way.spaceOf {m : Memory} {u : Nat} (way : other.Way m (translate u)) (tree : other.Tree m)
    {raw : Entry} (entry : other.view m (translate u).fourth = some raw) :
    other.spaceOf m u = if raw.present then
      some (Translation.visible ⟨raw.frame.toNat + u % 0x1000, raw.flags⟩) else none := by
  have fourth := seen_of_view entry
  simp only [Pager.spaceOf, walk_eq tree, translation, everyLevel, way.first, way.second,
    way.third, way.small, fourth, Bool.and_self, Bool.false_or, Bool.true_and, Bool.false_eq_true,
    if_false]
  cases raw.present with
  | false => rfl
  | true => rfl

theorem leafFlags_flags (e : Entry) :
    tableFlags e.flags = e.flags ∧ leafFlags e.flags = e.flags := by
  have none : e.flags.any pagerPat = false := by
    rw [Flags.any_pat, Entry.getLsbD_flags]
    rfl
  unfold tableFlags leafFlags
  rw [none]
  exact ⟨rfl, rfl⟩

theorem overlayOn_write {m : Memory} (bindable : other.Bindable base m) (a : Address)
    (way : other.Way m a) {raw : Entry} (entry : other.view m a.fourth = some raw)
    (present : raw.present = true) (space : Space) :
    (overlayOn space (other.spaceOf m) base C).write
        (base + intoAddress a.pdp a.pd a.pt a.page) raw.address.toNat 0x1000 (leafFlags raw.flags) =
      overlayOn space (other.spaceOf m) base fun q => C q ∨ a.fourth <:+ q := by
  have frame : raw.frame.toNat = raw.address.toNat := by
    have bound := address_lt_of_high (bindable.inMemory _ raw entry)
    rw [Entry.toNat_address] at bound
    rw [Entry.toNat_frame, Entry.toNat_address]
    omega
  have last := intoAddress_lt a
  funext v
  simp only [Space.write]
  by_cases inside : base + intoAddress a.pdp a.pd a.pt a.page ≤ v ∧
      v < base + intoAddress a.pdp a.pd a.pt a.page + 0x1000
  · obtain ⟨o, below, rfl⟩ : ∃ o < 0x1000, v = base + (intoAddress a.pdp a.pd a.pt a.page + o) :=
      ⟨v - (base + intoAddress a.pdp a.pd a.pt a.page), by omega, by omega⟩
    have same := translate_page a below
    have offset : (intoAddress a.pdp a.pd a.pt a.page + o) % 0x1000 = o := by
      have aligned := intoAddress_aligned a
      omega
    rw [← same] at way entry
    have found := way.spaceOf bindable.wellFormed.tree entry
    rw [if_pos present, frame, offset] at found
    rw [if_pos inside, overlayOn, Nat.add_sub_cancel_left, if_pos, found, Option.some_or,
      (leafFlags_flags raw).2]
    · congr 3
      omega
    · exact ⟨by omega, by omega, Or.inr (by rw [same])⟩
  · rw [if_neg inside]
    simp only [overlayOn]
    have outside : base ≤ v ∧ v < base + 2 ^ 48 → ¬a.fourth <:+ (translate (v - base)).fourth := by
      rintro ⟨low, high⟩ below
      have same := eq_of_fourth (below.eq_of_length rfl)
      have back := intoAddress_translate (u := v - base) (by omega)
      rw [← same] at back
      omega
    split
    next marked => rw [if_pos ⟨marked.1, marked.2.1, Or.inl marked.2.2⟩]
    next unmarked =>
      rw [if_neg]
      rintro ⟨low, high, within⟩
      exact within.elim (fun marked => unmarked ⟨low, high, marked⟩) (outside ⟨low, high⟩)

/-! ### The loops -/

/-- The innermost loop of `bind_other`. -/
@[irreducible] def bindFourth (pager : Pager) (base : Nat) (pdpi pdi pti : Index)
    (pt : PointerTable) (indices : List Index) : PagerM Unit :=
  indices.forM fun pi => do
    let raw ← load ⟨pt.address, pi⟩
    if raw.any pagerPresent = false then
      pure ()
    else
      let vaddr ← addU64 base (intoAddress pdpi pdi pti pi)
      let _ ← pager.page4Kb vaddr raw.address raw.flags
      pure ()

private theorem zero_lt_indices : 0 < 512 := by decide

@[irreducible] def bindThird (pager : Pager) (base : Nat) (pdpi pdi : Index) (pdt : PointerTable)
    (indices : List Index) : PagerM Unit :=
  indices.forM fun pti => do
    let pt ← unwrap (← pdt.instantiate pti)
    let readFlags ← pt.readFlags
    if readFlags.any pagerPresent = false then
      pure ()
    else
      let active ← pt.pageSizeActive
      if active then
        let vaddr ← addU64 base (intoAddress pdpi pdi pti ⟨0, zero_lt_indices⟩)
        if vaddr % pager2Mib = 0 then
          let _ ← pager.page2Mb vaddr pt.address readFlags
          pure ()
        else
          pager.mapEfficient ⟨pt.address.toNat, pager2Mib⟩ vaddr readFlags
      else
        pager.bindFourth base pdpi pdi pti pt (List.finRange 512)

@[irreducible] def bindSecond (pager : Pager) (base : Nat) (pdpi : Index) (pdpt : PointerTable)
    (indices : List Index) : PagerM Unit :=
  indices.forM fun pdi => do
    let pdt ← unwrap (← pdpt.instantiate pdi)
    let readFlags ← pdt.readFlags
    if readFlags.any pagerPresent = false then
      pure ()
    else
      pager.bindThird base pdpi pdi pdt (List.finRange 512)

@[irreducible] def bindFirst (pager : Pager) (base : Nat) (other : Pager) (indices : List Index) :
    PagerM Unit :=
  indices.forM fun pdpi => do
    let top ← load ⟨other.cr3, pdpi⟩
    let pdpt ← PointerTable.new .pdpt other.cr3 pdpi top.flags
    if pdpt.flags.any pagerPresent = false then
      pure ()
    else
      pager.bindSecond base pdpi pdpt (List.finRange 512)

private theorem bindOther_eq (base : Nat) (other : Pager) :
    pager.bindOther base other = pager.bindFirst base other (List.finRange 512) := by
  unfold bindOther bindFirst bindSecond bindThird bindFourth
  rfl

theorem Handle.congr {pt : PointerTable} {i : Index} {p : Path} {m m' : Memory}
    (handle : other.Handle m pt i p) (same : ∀ f, other.IsTable m f → m' f = m f) :
    other.Handle m' pt i p := by
  refine ⟨?_, handle.index, ?_, handle.increment⟩
  · rw [tableAt_congr same]
    exact handle.table
  · rw [same _ ⟨p, handle.table⟩]
    exact handle.address

/-- When all entries of a table are through, the entry that points to it is. -/
theorem Bound.close {p : Path} (shallow : p.length < 4)
    (bound : pager.Bound other base m₀ (fun q => C q ∨ Swept [] p q) m) :
    pager.Bound other base m₀ (fun q => C q ∨ p <:+ q) m := by
  refine bound.grow fun u _ _ => or_congr_right ⟨?_, fun within => ?_⟩
  · rintro ⟨j, _, through⟩
    exact (List.suffix_cons j p).trans through
  · rcases suffix_iff.mp within with same | ⟨j, through⟩
    · rw [← same] at shallow
      exact absurd shallow (Nat.lt_irrefl 4)
    · exact ⟨j, List.not_mem_nil, through⟩

/-- Nothing is bound below an entry behind which the other space is empty. -/
theorem Bound.skip (bound : pager.Bound other base m₀ C m) {q : Path}
    (empty : ∀ u < 2 ^ 48, q <:+ (translate u).fourth → other.spaceOf m₀.memory u = none) :
    pager.Bound other base m₀ (fun r => C r ∨ q <:+ r) m := by
  refine bound.grow fun u below found => ⟨Or.inl, fun within => within.resolve_right ?_⟩
  exact fun through => found (empty u below through)

/-- Nothing is translated through an entry above the leaves that is not present. -/
theorem spaceOf_absent {m : Memory} {i : Index} {p : Path} (tree : other.Tree m)
    (absent : (other.seen m (i :: p)).present = false) (shallow : p.length < 3) {u : Nat}
    (through : i :: p <:+ (translate u).fourth) : other.spaceOf m u = none := by
  rw [spaceOf, walk_eq tree, translation_none, Option.map_none]
  obtain zero | one | two : p.length = 0 ∨ p.length = 1 ∨ p.length = 2 := by omega
  · have same : i :: p = (translate u).first := suffix_eq through
      (by simp [Address.first, Address.fourth, List.suffix_cons_iff])
      (by simp [zero, Address.first])
    exact Or.inl (same ▸ absent)
  · have same : i :: p = (translate u).second := suffix_eq through
      (by simp [Address.second, Address.fourth, List.suffix_cons_iff])
      (by simp [one, Address.second])
    exact Or.inr (Or.inl (same ▸ absent))
  · have same : i :: p = (translate u).third := suffix_eq through (List.suffix_cons _ _)
      (by simp [two, Address.third])
    exact Or.inr (Or.inr (same ▸ absent))

theorem Bound.load (bound : pager.Bound other base m₀ C m) {pt : PointerTable} {i : Index}
    {p : Path} (handle : other.Handle m₀.memory pt i p) :
    m.memory pt.location.table pt.location.index = other.seen m₀.memory (i :: p) := by
  rw [bound.others _ ⟨_, handle.table⟩, handle.index, seen_of_view handle.view]

/-- `instantiate` on an entry of the other pager. -/
theorem Bound.instantiate (bound : pager.Bound other base m₀ C m) {pt : PointerTable} {i : Index}
    {p : Path} (handle : other.Handle m₀.memory pt i p) (above : p.length < 2)
    (tree : other.Tree m₀.memory) (present : (other.seen m₀.memory (i :: p)).present = true)
    (j : Index) {R : Stop → Machine → Prop} :
    Yields (pt.instantiate j) m
      (fun o m' => m' = m ∧ ∃ pt', o = some pt' ∧ other.Handle m₀.memory pt' j (i :: p)) R := by
  have view := congrFun (view_congr bound.others) (i :: p)
  have entry := handle.view
  have nonzero := seen_ne_zero_of_present present
  rw [seen_of_view entry] at nonzero
  refine (instantiate_yields (handle.congr bound.others) above (view.trans entry) nonzero
    (tree.upper i p _ above entry) j).mono ?_ fun _ _ failed => failed
  rintro o m' ⟨rfl, pt', rfl, handle', _⟩
  refine ⟨rfl, pt', rfl, handle'.congr fun f isTable => (bound.others f ?_).symm⟩
  obtain ⟨r, reached⟩ := isTable
  exact ⟨r, (congrFun (tableAt_congr bound.others) r).symm.trans reached⟩

section Loops

variable {pt : PointerTable} (bindable : other.Bindable base m₀.memory)

include bindable

private theorem bindFourth_yields (a : Address) (way : other.Way m₀.memory a)
    (handle : other.Handle m₀.memory pt a.pt a.second) (bound : pager.Bound other base m₀ C m)
    {indices : List Index} (nodup : indices.Nodup) (all : ∀ j, j ∈ indices) :
    Yields (pager.bindFourth base a.pdp a.pd a.pt pt indices) m
      (fun _ => pager.Bound other base m₀ fun q => C q ∨ Swept [] a.third q)
      (pager.Halfway other base m₀) := by
  have tree := bindable.wellFormed.tree
  have table : other.tableAt m₀.memory a.third = some pt.address := by
    rw [handle.address]
    have nonzero := seen_ne_zero_of_present way.third
    have here := handle.view
    have small := way.small
    change other.view m₀.memory a.third = _ at here
    rw [seen_of_view here] at nonzero small
    exact tableAt_of_view here (by simp) nonzero small
  unfold bindFourth
  refine bindAll_yields nodup all bound fun j D m bound => ?_
  let b : Address := ⟨a.pdp, a.pd, a.pt, j⟩
  have entry : other.view m₀.memory b.fourth = some (m₀.memory pt.address j) := view_cons table j
  have loaded : m.memory pt.address j = m₀.memory pt.address j := by
    rw [bound.others _ ⟨_, table⟩]
  simp only [yields_bind, yields_load, yields_ite, yields_pure, loaded, Entry.any_present]
  have through {u : Nat} (below : u < 2 ^ 48) (within : j :: a.third <:+ (translate u).fourth) :
      translate u = b := 
    (eq_of_fourth (show b.fourth = _ from within.eq_of_length rfl)).symm
  have way' : other.Way m₀.memory b := ⟨way.first, way.second, way.third, way.small⟩
  split
  next absent =>
    refine bound.skip fun u below within => ?_
    have same := through below within
    rw [← same] at way' entry
    rw [way'.spaceOf tree entry, absent, if_neg Bool.false_ne_true]
  next there =>
    have present := Bool.eq_true_of_not_eq_false there
    refine addU64_yields (fun _ => ?_) (Or.inl rfl)
    have physical := address_lt_of_high (bindable.inMemory _ _ entry)
    have canonical : Canonical (base + intoAddress a.pdp a.pd a.pt j) := by
      have last := intoAddress_lt b
      have same := translate_page b (show 0 < 0x1000 by decide)
      rw [← same] at way' entry
      have found := way'.spaceOf tree entry
      rw [if_pos present] at found
      refine bindable.canonical (intoAddress b.pdp b.pd b.pt b.page) (by omega) fun none => ?_
      rw [spaceOf, Nat.add_zero, none] at found
      cases found
    have any : (m₀.memory pt.address j).flags.any pagerPresent = true := by
      rw [Flags.any_present, Entry.getLsbD_flags]
      exact present
    refine ((page4Kb_presents bound.presents canonical physical any).and
      (page4Kb_spares bound.presents.keeps ..)).mono ?_ ?_
    · rintro _ m' ⟨⟨_, presents⟩, spares⟩
      refine ⟨?_, fun f others => (spares f others).trans (bound.others f others),
        fun u below found inside => ?_⟩
      · rwa [overlayOn_write bindable b way' entry present] at presents
      · rcases inside with earlier | within
        · exact bound.small u below found earlier
        · rw [through below within]
          exact way'.small
    · rintro s m' ⟨panic | presents, spares⟩
      · exact Or.inl panic
      · refine spares.imp_right fun spares => ⟨D, presents, fun f others => ?_, bound.small⟩
        exact (spares f others).trans (bound.others f others)

private theorem bindThird_yields {i j : Index}
    (first : (other.seen m₀.memory [i]).present = true)
    (second : (other.seen m₀.memory [j, i]).present = true)
    (handle : other.Handle m₀.memory pt j [i]) (bound : pager.Bound other base m₀ C m)
    {indices : List Index} (nodup : indices.Nodup) (all : ∀ j, j ∈ indices) :
    Yields (pager.bindThird base i j pt indices) m
      (fun _ => pager.Bound other base m₀ fun q => C q ∨ Swept [] [j, i] q)
      (pager.Halfway other base m₀) := by
  have tree := bindable.wellFormed.tree
  unfold bindThird
  refine bindAll_yields nodup all bound fun k D m bound => ?_
  rw [yields_bind]
  refine (bound.instantiate handle (by simp) tree second k).mono ?_ fun _ _ failed => failed
  rintro _ m ⟨rfl, pt, rfl, handle⟩
  have loaded := bound.load handle
  simp only [unwrap, PointerTable.readFlags, PointerTable.pageSizeActive, yields_bind, yields_pure,
    yields_load, yields_ite, loaded, Flags.any_present, Entry.getLsbD_flags, Entry.any_pageSize]
  split
  next absent =>
    exact bound.skip fun u _ => spaceOf_absent tree absent (by simp)
  next there =>
    have present := Bool.eq_true_of_not_eq_false there
    split
    next large =>
      -- the flags of a large page have `PS` among them
      have rejected := flags_rejected large
      have rejected' : ¬(tableFlags (other.seen m₀.memory [k, j, i]).flags).Accepted := by
        rwa [(leafFlags_flags _).1]
      refine addU64_yields (fun _ => ?_) (Or.inl rfl)
      split
      next =>
        refine (page2Mb_rejected rejected).mono (fun _ _ none => none.elim) ?_
        rintro s m' rfl
        exact Or.inr ⟨D, bound⟩
      next =>
        refine (mapEfficient_rejected rejected' (show 0 < pager2Mib by decide)).mono
          (fun _ _ none => none.elim) ?_
        rintro s m' (panic | rfl)
        · exact Or.inl panic
        · exact Or.inr ⟨D, bound⟩
    next small =>
      have way : other.Way m₀.memory ⟨i, j, k, 0⟩ :=
        ⟨first, second, present, Bool.eq_false_iff.mpr small⟩
      exact (bindFourth_yields bindable ⟨i, j, k, 0⟩ way handle bound (List.nodup_finRange 512)
        fun l => List.mem_finRange l).mono (fun _ m' bound => bound.close (show 3 < 4 by decide))
          fun _ _ failed => failed

private theorem bindSecond_yields {i : Index} (first : (other.seen m₀.memory [i]).present = true)
    (handle : other.Handle m₀.memory pt i []) (bound : pager.Bound other base m₀ C m)
    {indices : List Index} (nodup : indices.Nodup) (all : ∀ j, j ∈ indices) :
    Yields (pager.bindSecond base i pt indices) m
      (fun _ => pager.Bound other base m₀ fun q => C q ∨ Swept [] [i] q)
      (pager.Halfway other base m₀) := by
  have tree := bindable.wellFormed.tree
  unfold bindSecond
  refine bindAll_yields nodup all bound fun j D m bound => ?_
  rw [yields_bind]
  refine (bound.instantiate handle (by simp) tree first j).mono ?_ fun _ _ failed => failed
  rintro _ m ⟨rfl, pt, rfl, handle⟩
  have loaded := bound.load handle
  simp only [unwrap, PointerTable.readFlags, yields_bind, yields_pure, yields_load, yields_ite,
    loaded, Flags.any_present, Entry.getLsbD_flags]
  split
  next absent => exact bound.skip fun u _ => spaceOf_absent tree absent (by simp)
  next there =>
    exact (bindThird_yields bindable first (Bool.eq_true_of_not_eq_false there) handle bound
      (List.nodup_finRange 512) fun k => List.mem_finRange k).mono
        (fun _ m' bound => bound.close (show 2 < 4 by decide)) fun _ _ failed => failed

private theorem bindFirst_yields (bound : pager.Bound other base m₀ C m) {indices : List Index}
    (nodup : indices.Nodup) (all : ∀ j, j ∈ indices) :
    Yields (pager.bindFirst base other indices) m
      (fun _ => pager.Bound other base m₀ fun q => C q ∨ Swept [] [] q)
      (pager.Halfway other base m₀) := by
  have tree := bindable.wellFormed.tree
  unfold bindFirst
  refine bindAll_yields nodup all bound fun i D m bound => ?_
  rw [yields_bind, yields_load, yields_bind]
  refine (new_yields _ _).mono ?_ fun _ _ failed => failed
  rintro pt m ⟨rfl, handle, flags⟩
  have root : other.IsTable m₀.memory other.cr3 := ⟨[], rfl⟩
  have before : other.Handle m₀.memory pt i [] := by
    refine handle.congr fun f isTable => (bound.others f ?_).symm
    obtain ⟨r, reached⟩ := isTable
    exact ⟨r, (congrFun (tableAt_congr bound.others) r).symm.trans reached⟩
  have loaded : m.memory other.cr3 i = other.seen m₀.memory [i] := by
    rw [bound.others _ root]
    exact (seen_of_view (view_cons rfl i)).symm
  rw [flags, loaded, yields_ite]
  simp only [yields_pure, Flags.any_present, Entry.getLsbD_flags]
  split
  next absent => exact bound.skip fun u _ => spaceOf_absent tree absent (by simp)
  next there =>
    exact (bindSecond_yields bindable (Bool.eq_true_of_not_eq_false there) before bound
      (List.nodup_finRange 512) fun k => List.mem_finRange k).mono
        (fun _ m' bound => bound.close (show 1 < 4 by decide)) fun _ _ failed => failed

end Loops

private theorem overlayOn_all (space space' : Space) (all : ∀ u, C (translate u).fourth) :
    overlayOn space space' base C = space.overlay space' base := by
  funext v
  rw [overlayOn, Space.overlay]
  by_cases inside : base ≤ v ∧ v < base + 2 ^ 48
  · rw [if_pos inside, if_pos ⟨inside.1, inside.2, all _⟩]
  · rw [if_neg inside, if_neg fun within => inside ⟨within.1, within.2.1⟩]

private theorem bindOther_bound (bindable : other.Bindable base m.memory)
    (keeps : pager.Keeps (other.IsTable m.memory) m) (wellFormed : pager.WellFormed m.memory) :
    Yields (pager.bindOther base other) m (fun _ => pager.Bound other base m fun _ => True)
      (pager.Halfway other base m) := by
  have nothing : overlayOn (pager.spaceOf m.memory) (other.spaceOf m.memory) base
      (fun _ => False) = pager.spaceOf m.memory := by
    funext v
    exact if_neg fun all => all.2.2
  have start : pager.Bound other base m (fun _ => False) m := by
    refine ⟨⟨keeps, wellFormed, fun u _ => ?_⟩, fun _ _ => rfl, fun _ _ _ none => none.elim⟩
    rw [nothing]
    rfl
  rw [bindOther_eq]
  refine (bindFirst_yields bindable start (List.nodup_finRange 512) fun k =>
    List.mem_finRange k).mono (fun _ m' bound => bound.grow fun u _ _ => ?_)
      fun _ _ failed => failed
  refine iff_of_true (Or.inr ⟨(translate u).pdp, List.not_mem_nil, ?_⟩) trivial
  simp [Address.fourth, List.suffix_cons_iff]

/-- After `bind_other` the processor finds the other address space from `base` on, over what was
there, and the other one had no page of 2 MiB. After an error it finds some addresses as they
were and the others bound. The space that was bound is as before. -/
theorem bindOther_overlays (bindable : other.Bindable base m.memory)
    (keeps : pager.Keeps (other.IsTable m.memory) m) (wellFormed : pager.WellFormed m.memory) :
    (∀ m', pager.bindOther base other m = .ok () m' →
      (∀ u, Canonical u → pager.spaceOf m'.memory u =
        (pager.spaceOf m.memory).overlay (other.spaceOf m.memory) base u) ∧
      (∀ u < 2 ^ 48, other.walk m.memory u ≠ none →
        (other.seen m.memory (translate u).third).pageSize = false) ∧
      other.walk m'.memory = other.walk m.memory) ∧
    ∀ e m', pager.bindOther base other m = .error (.err e) m' →
      (∀ u, Canonical u → pager.spaceOf m'.memory u = pager.spaceOf m.memory u ∨
        pager.spaceOf m'.memory u =
          (pager.spaceOf m.memory).overlay (other.spaceOf m.memory) base u) ∧
      other.walk m'.memory = other.walk m.memory := by
  have outcome := bindOther_bound bindable keeps wellFormed
  have tree := bindable.wellFormed.tree
  have still {C : Path → Prop} {m' : Machine} (bound : pager.Bound other base m C m') :
      other.walk m'.memory = other.walk m.memory := by
    have seen : other.seen m'.memory = other.seen m.memory := by
      funext r
      rw [seen, seen, view_congr bound.others]
    funext u
    rw [walk_eq (tree.congr bound.others), walk_eq tree, seen]
  constructor
  · intro m' returned
    have bound := outcome.ok returned
    refine ⟨fun u canonical => ?_, fun u below mapped => ?_, still bound⟩
    · rw [← overlayOn_all (C := fun _ => True) _ _ fun _ => trivial]
      exact bound.presents.walk u canonical
    · refine bound.small u below (fun none => mapped ?_) trivial
      exact Option.map_eq_none_iff.mp none
  · intro e m' failed
    obtain ⟨C, bound⟩ := (outcome.error failed).resolve_left (by simp)
    refine ⟨fun u canonical => ?_, still bound⟩
    have walk := bound.presents.walk u canonical
    rw [spaceOf, walk, overlayOn, Space.overlay]
    split
    next marked => exact Or.inr (by rw [if_pos ⟨marked.1, marked.2.1⟩])
    next unmarked => exact Or.inl rfl

/-! ### A page behind a base -/

/-- A second pager beside `lentPager`, and an allocator that lends both roots. -/
def boundPager : Pager := ⟨0x102000⟩

def pairAllocator : Allocator :=
  { plainAllocator with bitmap := fun w => if w = 0 then 7 else 0xFFFFFFFF }

def pairMachine : Machine := ⟨fun _ _ => 0, pairAllocator⟩

private theorem pairFresh : boundPager.Fresh pairMachine.memory := ⟨by decide, fun _ => rfl⟩

private theorem pairAllocator_stocked :
    pairAllocator.Stocked fun f => f = lentPager.cr3 ∨ f = boundPager.cr3 := by
  have inside {k : Nat} (clear : BitArray.bit pairAllocator.bitmap k = false) : 2 < k ∧ k < 32 := by
    have low : ∀ k : Fin 64, BitArray.bit pairAllocator.bitmap k = false →
        2 < k.val ∧ k.val < 32 := by decide
    by_cases small : k < 64
    · exact low ⟨k, small⟩ clear
    · simp only [BitArray.bit, pairAllocator, show ¬k / 32 = 0 by omega, if_false] at clear
      have ones : ∀ b : Fin 32, (0xFFFFFFFF#32).getLsbD b = true := by decide
      exact absurd (clear.symm.trans (ones ⟨k % 32, Nat.mod_lt _ (by decide)⟩)) (by decide)
  refine ⟨Nat.zero_le _, fun k _ clear => ?_, fun k _ clear root => ?_⟩
  · have range : ∀ k : Fin 32, pairAllocator.Freeable 1 k := by decide
    exact range ⟨k, (inside clear).2⟩
  · have bounds := inside clear
    rcases root with root | root
    · have value : (0x100000 + k * 0x1000) % 2 ^ 64 = 0x101000 := congrArg BitVec.toNat root
      omega
    · have value : (0x100000 + k * 0x1000) % 2 ^ 64 = 0x102000 := congrArg BitVec.toNat root
      omega

/-- A pager whose only table is its root keeps it apart from the tables of another one. -/
theorem Fresh.keeps (fresh : pager.Fresh m.memory) (apart : ¬kept pager.cr3)
    (stocked : m.allocator.Stocked fun f => kept f ∨ f = pager.cr3) : pager.Keeps kept m := by
  refine ⟨fresh.tree, fun f others isTable => apart (fresh.isTable_iff.mp isTable ▸ others),
    stocked.mono fun f used => used.imp_right fresh.isTable_iff.mp,
    fun i p e _ found _ marked => ?_⟩
  rw [fresh.view found] at marked
  cases marked

theorem walk_eq_none_congr {m : Memory} {u v : Nat} (same : translate u = translate v)
    (unmapped : pager.walk m v = none) : pager.walk m u = none := by
  simp only [walk, translation, same] at *
  split at unmapped
  next => cases unmapped
  next absent => rw [if_neg absent]

/-- A page of one pager, found behind a base in the other. -/
theorem bindOther_overlays_pair : ∃ page m m',
    boundPager.page4Kb 0x5000 0x7000 3 pairMachine = .ok page m ∧
      lentPager.bindOther 0x100000 boundPager m = .ok () m' ∧
      lentPager.spaceOf m'.memory 0x105123 = some ⟨0x7123, 3⟩ ∧
      lentPager.spaceOf m'.memory 0x106000 = none := by
  have ran : ((boundPager.page4Kb 0x5000 0x7000 3).state? pairMachine).any (fun m =>
      ((lentPager.bindOther 0x100000 boundPager).state? m).isSome) = true := by decide +kernel
  obtain ⟨m, ended, more⟩ := (Option.any_eq_true _ _).1 ran
  obtain ⟨page, returned⟩ := ok_of_state? ended
  obtain ⟨m', ended'⟩ := Option.isSome_iff_exists.mp more
  obtain ⟨_, bound⟩ := ok_of_state? ended'
  have keeps : boundPager.Keeps (· = lentPager.cr3) pairMachine :=
    pairFresh.keeps (by decide) pairAllocator_stocked
  have start : boundPager.Presents (· = lentPager.cr3) pairMachine fun _ => none :=
    ⟨keeps, pairFresh.wellFormed, fun u _ => by rw [pairFresh.walk]; rfl⟩
  have presents := ((page4Kb_presents start (by decide) (by decide) (by decide)).ok returned).2
  have spares := (page4Kb_spares keeps ..).ok returned
  have fresh : lentPager.Fresh m.memory :=
    ⟨by decide, fun i => by rw [spares lentPager.cr3 rfl]; rfl⟩
  have apart := fresh.keeps (presents.keeps.apart _ rfl)
    (presents.keeps.stocked.mono fun _ used => used.symm)
  have bindable : boundPager.Bindable 0x100000 m.memory := by
    refine ⟨presents.wellFormed, (page4Kb_inMemory keeps.ready pairFresh.wellFormed (by decide)
      fun q e found k _ => ?_).ok returned, fun u below mapped => ?_⟩
    · rw [pairFresh.view found]
      exact BitVec.getLsbD_zero
    · -- the page is the only one, so an address that is mapped lies in it
      by_contra odd
      refine mapped ?_
      obtain ⟨v, canonical, same⟩ : ∃ v, Canonical v ∧
          (v = u ∧ u < 2 ^ 47 ∨ v = u + (2 ^ 64 - 2 ^ 48) ∧ 2 ^ 47 ≤ u) := by
        by_cases low : u < 2 ^ 47
        · exact ⟨u, Or.inl low, Or.inl ⟨rfl, low⟩⟩
        · exact ⟨_, Or.inr ⟨by omega, by omega⟩, Or.inr ⟨rfl, by omega⟩⟩
      have walk := presents.walk v canonical
      rw [Space.write, if_neg (by unfold Canonical at odd; omega)] at walk
      refine walk_eq_none_congr ?_ (Option.map_eq_none_iff.mp walk)
      simp only [translate, Fin.ofNat, Address.mk.injEq, Fin.mk.injEq]
      omega
  have overlays := ((bindOther_overlays bindable apart fresh.wellFormed).1 m' bound).1
  have mapped (u : Nat) (canonical : Canonical u) : boundPager.spaceOf m.memory u = _ :=
    presents.walk u canonical
  refine ⟨page, m, m', returned, bound, (overlays _ (by decide)).trans ?_,
    (overlays _ (by decide)).trans ?_⟩
  · rw [Space.overlay, if_pos (by decide), mapped _ (by decide)]
    rfl
  · rw [Space.overlay, if_pos (by decide), mapped _ (by decide), spaceOf, fresh.walk]
    rfl

end Pager

end EmkKernel
