import EmkKernel.Paging.Walk

/-!
# `page_4_kb` and the translation

Opening entries and unfolding a large page change no translation, so that only the
leaf written at the end does.
-/

namespace EmkKernel

open EStateM

section Edits

variable {pager : Pager} {m m' : Memory} {q : Path} {e : Entry} {content : Index → Entry}

/-- A new table elsewhere is not read. -/
theorem Adds.agree (adds : Adds (pager.view m) (pager.view m') q e content) {a : Address}
    (root : q ≠ []) (first : q ≠ a.first) (second : q ≠ a.second) (third : q ≠ a.third)
    (fourth : q ≠ a.fourth) : Agree (pager.seen m) (pager.seen m') a := by
  refine agree_of_eq (adds.seen_other first.symm fun j same => ?_)
    (adds.seen_other second.symm fun j same => ?_) (adds.seen_other third.symm fun j same => ?_)
    (adds.seen_other fourth.symm fun j same => ?_)
  · exact root (List.cons.inj same).2.symm
  · exact first (List.cons.inj same).2.symm
  · exact second (List.cons.inj same).2.symm
  · exact third (List.cons.inj same).2.symm

end Edits

namespace Pager

variable {pager : Pager} {kept : BitVec 64 → Prop} {m m' : Machine} {q : Path} {rw : Bool}
  {flags : Flags}

private theorem view_ne_nil {m : Memory} {e : Entry} (here : pager.view m q = some e) : q ≠ [] := by
  rintro rfl
  cases here

/-- Opening an entry changes no translation. -/
theorem Opened.translation (opened : pager.Opened rw flags q m m')
    (shallow : q.length < 3 ∨ q.length = 3 ∧ rw = false) (virt : Nat) :
    translation (pager.seen m'.memory) virt = translation (pager.seen m.memory) virt := by
  cases opened with
  | kept e before nonzero sets tables allocator untouched =>
    have here := seen_of_view before
    have present (r : Path) :
        (pager.seen m'.memory r).present = (pager.seen m.memory r).present := by
      rw [sets.seen]
      split
      next same => rw [same, here, Entry.present_granted]
      next => rfl
    have other {r : Path} (lower : 3 ≤ r.length) :
        pager.seen m'.memory r = pager.seen m.memory r := by
      rw [sets.seen]
      split
      next same =>
        -- the third level is opened without granting anything
        subst same
        rcases shallow with above | ⟨_, rfl⟩
        · omega
        · exact here.symm
      next => rfl
    exact translation_congr (present _) (present _) (other (by simp [Address.third]))
      (other (by simp [Address.fourth]))
  | linked mb before returned adds tables untouched =>
    have zero := seen_of_view before
    have below (j : Index) := adds.seen_below j
    by_cases first : q = (translate virt).first
    · subst first
      rw [translation_none (Or.inr (Or.inl (congrArg Entry.present (below (translate virt).pd)))),
        translation_none (Or.inl (congrArg Entry.present zero))]
    by_cases second : q = (translate virt).second
    · subst second
      rw [translation_none
          (Or.inr (Or.inr (congrArg Entry.present (below (translate virt).pt)))),
        translation_none (Or.inr (Or.inl (congrArg Entry.present zero)))]
    by_cases third : q = (translate virt).third
    · subst third
      have reached := (tables (translate virt).third).trans (if_pos rfl)
      obtain ⟨e, here, _, _, small, _⟩ := tableAt_of_cons reached
      rw [translation_none_small ((congrArg Entry.pageSize (seen_of_view here)).trans small)
          (congrArg Entry.present (below (translate virt).page)),
        translation_none (Or.inr (Or.inr (congrArg Entry.present zero)))]
    · refine (adds.agree (view_ne_nil before) first second third fun fourth => ?_).translation
      have length := congrArg List.length fourth
      simp only [Address.fourth, List.length_cons, List.length_nil] at length
      omega

theorem Opens.translation {address : Address} (opens : pager.Opens kept address flags m m')
    (virt : Nat) :
    translation (pager.seen m'.memory) virt = translation (pager.seen m.memory) virt := by
  obtain ⟨m₁, _, first, second⟩ := opens.opened
  exact (second.translation (Or.inl (by simp)) virt).trans
    (first.translation (Or.inl (by simp)) virt)

theorem Begun.translation {address : Address} (begun : pager.Begun kept address flags m m')
    (virt : Nat) :
    translation (pager.seen m'.memory) virt = translation (pager.seen m.memory) virt := by
  cases begun with
  | nothing ready missing => rfl
  | first _ ready opened missing => exact opened.translation (Or.inl (by simp)) virt

theorem Begun.ready {address : Address} (begun : pager.Begun kept address flags m m') :
    pager.Ready kept m' := by
  cases begun with
  | nothing ready missing => exact ready
  | first _ ready opened missing => exact ready

/-- What an error leaves behind changes no translation. -/
theorem Prepared.translation {address : Address} (prepared : pager.Prepared kept address flags m m')
    (virt : Nat) :
    translation (pager.seen m'.memory) virt = translation (pager.seen m.memory) virt := by
  cases prepared with
  | begun begun => exact begun.translation virt
  | both opens => exact opens.translation virt

theorem Prepared.ready {address : Address} (prepared : pager.Prepared kept address flags m m') :
    pager.Ready kept m' := by
  cases prepared with
  | begun begun => exact begun.ready
  | both opens => exact opens.ready

/-- The page of 2 MiB in an entry starts at a multiple of its size. -/
def LargeAligned (e : Entry) : Prop := e.address.toNat % pager2Mib = 0

instance (e : Entry) : Decidable (LargeAligned e) := inferInstanceAs (Decidable (_ = _))

theorem low_of_aligned {v : BitVec 64} (aligned : v.toNat % 0x1000 = 0) {k : Nat} (low : k < 12) :
    v.getLsbD k = false := by
  have pages : v.toNat = 2 ^ 12 * (v.toNat / 2 ^ 12) := by omega
  rw [BitVec.getLsbD, pages, Nat.testBit_two_pow_mul]
  simp [Nat.not_le_of_lt low]

private theorem unfolded_low (e : Entry) (i : Index) {k : Nat} (low : k < 12) :
    (e.address + BitVec.ofNat 64 (i.val * 0x1000)).getLsbD k = false := by
  refine low_of_aligned ?_ low
  rw [BitVec.toNat_add, BitVec.toNat_ofNat, e.toNat_address]
  omega

theorem present_unfolded (e : Entry) (i : Index) :
    (PointerTable.unfolded e.address e.smallFlags i).present = e.present := by
  rw [Entry.present, PointerTable.unfolded, Entry.getLsbD_pack, unfolded_low e i (by decide),
    Entry.getLsbD_smallFlags]
  rfl

theorem smallPage_unfolded {e : Entry} (aligned : LargeAligned e) (virt : Nat) :
    smallPage (PointerTable.unfolded e.address e.smallFlags (translate virt).page) virt =
      largePage e virt := by
  have inU64 := e.isLt
  have address := e.toNat_address
  have sum : (e.address + BitVec.ofNat 64 ((translate virt).page.val * 0x1000)).toNat =
      e.address.toNat + virt / 0x1000 % 512 * 0x1000 := by
    rw [BitVec.toNat_add, BitVec.toNat_ofNat]
    simp only [translate, Fin.ofNat]
    unfold LargeAligned pager2Mib at aligned
    omega
  simp only [smallPage, largePage, PointerTable.unfolded, Translation.mk.injEq]
  rw [Entry.flags_pack (fun k => unfolded_low e _) e.smallFlags_plain.high,
    Entry.frame_pack e.smallFlags_plain.high]
  refine ⟨?_, rfl⟩
  rw [Entry.toNat_frame, Entry.toNat_frame, sum, address]
  unfold LargeAligned pager2Mib at aligned
  unfold pager2Mib
  omega

/-- The tables of a pager are a tree, and entries above the lowest level are zero or present. -/
structure Intact (pager : Pager) (m : Memory) : Prop where
  tree : pager.Tree m
  present : ∀ i p e, p.length < 3 → pager.view m (i :: p) = some e → e ≠ 0 → e.present = true

/-- Besides, the pages of 2 MiB are aligned. -/
structure WellFormed (pager : Pager) (m : Memory) : Prop extends pager.Intact m where
  aligned : ∀ i p e, p.length = 2 → pager.view m (i :: p) = some e → e.pageSize = true →
    LargeAligned e

theorem Intact.congr {m m' : Memory} (intact : pager.Intact m)
    (same : ∀ f, pager.IsTable m f → m' f = m f) : pager.Intact m' := by
  refine ⟨intact.tree.congr same, ?_⟩
  rw [view_congr same]
  exact intact.present

theorem WellFormed.congr {m m' : Memory} (wellFormed : pager.WellFormed m)
    (same : ∀ f, pager.IsTable m f → m' f = m f) : pager.WellFormed m' := by
  refine ⟨wellFormed.toIntact.congr same, ?_⟩
  rw [view_congr same]
  exact wellFormed.aligned

theorem WellFormed.third {m : Memory} (wellFormed : pager.WellFormed m) (address : Address) :
    ∀ e, pager.view m address.third = some e → e.pageSize = true → LargeAligned e :=
  fun e => wellFormed.aligned _ _ e rfl

/-- The entry that points to the table of an unfolded page is as present as the page was. -/
theorem Unfolded.third {e : Entry} (unfolded : pager.Unfolded q e m m')
    (tree : pager.Tree m'.memory) :
    (pager.seen m'.memory q).present = e.present ∧ (pager.seen m'.memory q).pageSize = false := by
  obtain ⟨mb, _, adds, tables, _⟩ := unfolded.opened
  have isFrame := tree.frames q _ ((tables q).trans (if_pos rfl))
  rw [adds.seen_here]
  constructor
  · rw [Entry.present, Entry.getLsbD_pack, isFrame.low (by decide), BitVec.getLsbD_or,
      Entry.getLsbD_smallFlags, getLsbD_stab]
    simp [Entry.present]
  · rw [Entry.pageSize, Entry.getLsbD_pack, isFrame.low (by decide),
      e.smallFlags_plain.stab.small]
    rfl

/-- The translation of an address in a page that was unfolded. -/
theorem Unfolded.translation_here {e : Entry} {virt : Nat}
    (unfolded : pager.Unfolded (translate virt).third e m m') (tree : pager.Tree m'.memory) :
    translation (pager.seen m'.memory) virt = (translation (pager.seen m.memory) virt).map
      fun _ => smallPage (PointerTable.unfolded e.address e.smallFlags (translate virt).page)
        virt := by
  obtain ⟨present, small⟩ := unfolded.third tree
  obtain ⟨mb, _, adds, _, _⟩ := unfolded.opened
  have here := seen_of_view unfolded.before
  have first : pager.seen m'.memory (translate virt).first =
      pager.seen m.memory (translate virt).first :=
    adds.seen_other (by simp [Address.first, Address.third])
      fun j => by simp [Address.first, Address.third]
  have second : pager.seen m'.memory (translate virt).second =
      pager.seen m.memory (translate virt).second :=
    adds.seen_other (by simp [Address.second, Address.third])
      fun j => by simp [Address.second, Address.third]
  have fourth := adds.seen_below (translate virt).page
  change pager.seen m'.memory (translate virt).fourth = _ at fourth
  have all : everyLevel (pager.seen m'.memory) (translate virt) Entry.present =
      everyLevel (pager.seen m.memory) (translate virt) Entry.present := by
    simp only [everyLevel, first, second, present, small, fourth, here, unfolded.large,
      present_unfolded, Bool.false_or, Bool.true_or, Bool.and_true, Bool.and_assoc, Bool.and_self]
  simp only [EmkKernel.translation, all, small, fourth, Bool.false_eq_true, if_false]
  split <;> rfl

/-- Unfolding an aligned large page changes no translation. -/
theorem Unfolded.translation {e : Entry} (unfolded : pager.Unfolded q e m m')
    (tree : pager.Tree m'.memory) (lowest : q.length = 3) (aligned : LargeAligned e) (virt : Nat) :
    translation (pager.seen m'.memory) virt = translation (pager.seen m.memory) virt := by
  have apart {r : Path} (length : r.length ≠ 3) : q ≠ r := fun same => length (same ▸ lowest)
  by_cases third : q = (translate virt).third
  · subst third
    have here := seen_of_view unfolded.before
    rw [unfolded.translation_here tree, smallPage_unfolded aligned, EmkKernel.translation]
    split
    next => rw [Option.map_some, here, unfolded.large, if_pos rfl]
    next => rfl
  · obtain ⟨mb, _, adds, _, _⟩ := unfolded.opened
    exact (adds.agree (view_ne_nil unfolded.before) (apart (by simp [Address.first]))
      (apart (by simp [Address.second])) third (apart (by simp [Address.fourth]))).translation

/-! ### Entries that point to tables stay present -/

private theorem Intact.seen_present {m : Memory} {i : Index} {p : Path}
    (intact : pager.Intact m) (shallow : p.length < 3)
    (nonzero : pager.seen m (i :: p) ≠ 0) : (pager.seen m (i :: p)).present = true := by
  cases here : pager.view m (i :: p) with
  | none =>
    rw [seen, here] at nonzero
    exact absurd rfl nonzero
  | some e =>
    rw [seen_of_view here] at nonzero ⊢
    exact intact.present i p e shallow here nonzero

theorem Opened.intact (opened : pager.Opened rw flags q m m') (tree : pager.Tree m'.memory)
    (intact : pager.Intact m.memory) (present : flags.getLsbD 0 = true) :
    pager.Intact m'.memory := by
  refine ⟨tree, fun i p e' shallow found nonzero' => ?_⟩
  cases opened with
  | kept e before nonzero sets tables allocator untouched =>
    by_cases here : i :: p = q
    · subst here
      obtain rfl := Option.some.inj (sets.here.symm.trans found)
      rw [Entry.present_granted]
      exact intact.present i p e shallow before nonzero
    · exact intact.present i p e' shallow ((sets.other _ here).symm.trans found) nonzero'
  | linked mb before returned adds tables untouched =>
    by_cases here : i :: p = q
    · rw [here, adds.here] at found
      rw [← Option.some.inj found, Entry.present, Entry.getLsbD_pack, BitVec.getLsbD_or, present]
      simp
    by_cases below : ∃ j, i :: p = j :: q
    · obtain ⟨j, same⟩ := below
      rw [same, adds.below] at found
      exact absurd (Option.some.inj found).symm nonzero'
    · exact intact.present i p e' shallow
        ((adds.other _ here fun j same => below ⟨j, same⟩).symm.trans found) nonzero'

theorem Opened.wellFormed (opened : pager.Opened rw flags q m m') (tree : pager.Tree m'.memory)
    (wellFormed : pager.WellFormed m.memory) (present : flags.getLsbD 0 = true) :
    pager.WellFormed m'.memory := by
  refine ⟨opened.intact tree wellFormed.toIntact present, fun i p e' lowest found large => ?_⟩
  cases opened with
  | kept e before nonzero sets tables allocator untouched =>
    by_cases here : i :: p = q
    · subst here
      obtain rfl := Option.some.inj (sets.here.symm.trans found)
      rw [Entry.pageSize_granted] at large
      rw [LargeAligned, Entry.address_granted]
      exact wellFormed.aligned i p e lowest before large
    · exact wellFormed.aligned i p e' lowest ((sets.other _ here).symm.trans found) large
  | linked mb before returned adds tables untouched =>
    by_cases here : i :: p = q
    · obtain ⟨e, entry, _, _, small, _⟩ :=
        tableAt_of_cons (here ▸ (tables q).trans (if_pos rfl))
      rw [entry] at found
      rw [← Option.some.inj found, small] at large
      cases large
    by_cases below : ∃ j, i :: p = j :: q
    · obtain ⟨j, same⟩ := below
      rw [same, adds.below] at found
      rw [← Option.some.inj found] at large
      cases large
    · exact wellFormed.aligned i p e' lowest
        ((adds.other _ here fun j same => below ⟨j, same⟩).symm.trans found) large

/-- Unfolding changes no entry of the upper levels but the one that is unfolded. -/
theorem Unfolded.old {e e' : Entry} {i : Index} {p : Path} (unfolded : pager.Unfolded q e m m')
    (lowest : q.length = 3) (shallow : p.length < 3) (apart : i :: p ≠ q)
    (found : pager.view m'.memory (i :: p) = some e') :
    pager.view m.memory (i :: p) = some e' := by
  obtain ⟨mb, _, adds, _, _⟩ := unfolded.opened
  refine (adds.other _ apart fun j same => ?_).symm.trans found
  rw [(List.cons.inj same).2] at shallow
  omega

theorem Unfolded.intact {e : Entry} (unfolded : pager.Unfolded q e m m')
    (tree : pager.Tree m'.memory) (lowest : q.length = 3)
    (intact : pager.Intact m.memory) : pager.Intact m'.memory := by
  refine ⟨tree, fun i p e' shallow found nonzero => ?_⟩
  by_cases here : i :: p = q
  · rw [← seen_of_view found, here, (unfolded.third tree).1]
    have before := unfolded.before
    rw [← here] at before
    exact intact.present i p e shallow before (Entry.ne_zero_of_bit unfolded.large)
  · exact intact.present i p e' shallow (unfolded.old lowest shallow here found) nonzero

theorem Unfolded.wellFormed {e : Entry} (unfolded : pager.Unfolded q e m m')
    (tree : pager.Tree m'.memory) (lowest : q.length = 3)
    (wellFormed : pager.WellFormed m.memory) : pager.WellFormed m'.memory := by
  refine ⟨unfolded.intact tree lowest wellFormed.toIntact, fun i p e' length found large => ?_⟩
  by_cases here : i :: p = q
  · rw [← seen_of_view found, here, (unfolded.third tree).2] at large
    cases large
  · exact wellFormed.aligned i p e' length (unfolded.old lowest (by omega) here found) large

theorem Stored.old {e e' : Entry} {i : Index} {p : Path} (stored : pager.Stored q e m m')
    (lowest : q.length = 4) (shallow : p.length < 3)
    (found : pager.view m'.memory (i :: p) = some e') :
    pager.view m.memory (i :: p) = some e' := by
  refine (stored.sets.other _ fun same => ?_).symm.trans found
  rw [← same, List.length_cons] at lowest
  omega

theorem Stored.wellFormed {e : Entry} (stored : pager.Stored q e m m')
    (tree : pager.Tree m'.memory) (lowest : q.length = 4)
    (wellFormed : pager.WellFormed m.memory) : pager.WellFormed m'.memory :=
  ⟨⟨tree, fun i p e' shallow found =>
      wellFormed.present i p e' shallow (stored.old lowest shallow found)⟩,
    fun i p e' length found =>
      wellFormed.aligned i p e' length (stored.old lowest (by omega) found)⟩

/-! ### The leaf -/

theorem getLsbD_tableFlags (flags : Flags) {k : Nat} (other : k ≠ 12) :
    (tableFlags flags).getLsbD k = flags.getLsbD k := by
  unfold tableFlags
  split
  · rw [BitVec.getLsbD_xor, getLsbD_pat]
    simp [other]
  · rfl

theorem getLsbD_leafFlags (flags : Flags) {k : Nat} (other : k ≠ 7) :
    (leafFlags flags).getLsbD k = (tableFlags flags).getLsbD k := by
  unfold leafFlags tableFlags
  split
  · rw [BitVec.getLsbD_xor, getLsbD_pat2]
    simp [other]
  · rfl

theorem leafFlags_high {flags : Flags} (accepted : (tableFlags flags).Accepted) (k : Nat)
    (high : 12 ≤ k) : (leafFlags flags).getLsbD k = false := by
  rw [getLsbD_leafFlags flags (by omega)]
  exact accepted.bit (Or.inr (Or.inr high))

theorem Small.third (small : pager.Small q flags m m') (tree : pager.Tree m'.memory) :
    pager.seen m'.memory q ≠ 0 ∧ (pager.seen m'.memory q).pageSize = false := by
  cases small with
  | opened e before small opened =>
    obtain ⟨e', here, nonzero⟩ := opened.nonzero
    rw [seen_of_view here]
    refine ⟨nonzero, ?_⟩
    cases opened with
    | kept e₁ before' _ sets tables allocator untouched =>
      obtain rfl := Option.some.inj (before.symm.trans before')
      obtain rfl := Option.some.inj (sets.here.symm.trans here)
      rwa [Entry.pageSize_granted]
    | linked mb before' returned adds tables untouched =>
      cases q with
      | nil => cases here
      | cons i p =>
        obtain ⟨e₂, here₂, _, _, small₂, _⟩ := tableAt_of_cons
          ((tables (i :: p)).trans (if_pos rfl))
        obtain rfl := Option.some.inj (here₂.symm.trans here)
        exact small₂
  | unfolded e unfolded =>
    refine ⟨?_, (unfolded.third tree).2⟩
    obtain ⟨mb, _, adds, _, _⟩ := unfolded.opened
    rw [adds.seen_here]
    exact Entry.ne_zero_of_bit (k := 8) (by simp)

theorem Small.translation (small : pager.Small q flags m m') (tree : pager.Tree m'.memory)
    (lowest : q.length = 3)
    (aligned : ∀ e, pager.view m.memory q = some e → e.pageSize = true → LargeAligned e)
    (virt : Nat) :
    translation (pager.seen m'.memory) virt = translation (pager.seen m.memory) virt := by
  cases small with
  | opened e before small opened => exact opened.translation (Or.inr ⟨lowest, rfl⟩) virt
  | unfolded e unfolded =>
    exact unfolded.translation tree lowest (aligned e unfolded.before unfolded.large) virt

/-- Before the leaf is written no translation changed, if a large page on the way is aligned. -/
theorem Reached.translation {address : Address} (reached : pager.Reached kept address flags m m')
    (aligned : ∀ e, pager.view m.memory address.third = some e → e.pageSize = true →
      LargeAligned e) (virt : Nat) :
    translation (pager.seen m'.memory) virt = translation (pager.seen m.memory) virt := by
  obtain ⟨m₁, opens, small⟩ := reached.steps
  refine (small.translation reached.ready.tree rfl (fun e before large => ?_) virt).trans
    (opens.translation virt)
  obtain ⟨m₀, _, first, second⟩ := opens.opened
  have nonzero : e ≠ 0 := Entry.ne_zero_of_bit large
  exact aligned e (first.old (by simp [Address.third])
    (second.old (by simp [Address.third]) before nonzero) nonzero) large

theorem Reached.intact {address : Address} (reached : pager.Reached kept address flags m m')
    (intact : pager.Intact m.memory) (present : flags.getLsbD 0 = true) :
    pager.Intact m'.memory := by
  obtain ⟨m₁, opens, small⟩ := reached.steps
  obtain ⟨m₀, ready₀, first, second⟩ := opens.opened
  have before := second.intact opens.ready.tree (first.intact ready₀.tree intact present) present
  cases small with
  | opened e _ _ opened => exact opened.intact reached.ready.tree before present
  | unfolded e unfolded => exact unfolded.intact reached.ready.tree rfl before

theorem Reached.wellFormed {address : Address} (reached : pager.Reached kept address flags m m')
    (wellFormed : pager.WellFormed m.memory) (present : flags.getLsbD 0 = true) :
    pager.WellFormed m'.memory := by
  obtain ⟨m₁, opens, small⟩ := reached.steps
  obtain ⟨m₀, ready₀, first, second⟩ := opens.opened
  have before := second.wellFormed opens.ready.tree
    (first.wellFormed ready₀.tree wellFormed present) present
  cases small with
  | opened e _ _ opened => exact opened.wellFormed reached.ready.tree before present
  | unfolded e unfolded => exact unfolded.wellFormed reached.ready.tree rfl before

/-- A large page has no table, so no entries below. -/
theorem view_below_large {m : Memory} {e : Entry} (before : pager.view m q = some e)
    (large : e.pageSize = true) (j : Index) : pager.view m (j :: q) = none := by
  cases q with
  | nil => cases before
  | cons k q =>
    refine RadixTree.entry_eq_none j ?_
    change pager.tableAt m (k :: q) = none
    rw [tableAt_cons, before, Option.bind_some, child_large _ large]

theorem Small.other (small : pager.Small q flags m m') {r : Path} (apart : r ≠ q) {e : Entry}
    (before : pager.view m.memory r = some e) : pager.view m'.memory r = some e := by
  cases small with
  | opened _ _ _ opened => exact opened.other apart before
  | unfolded e' unfolded =>
    obtain ⟨mb, _, adds, _, _⟩ := unfolded.opened
    refine (adds.other r apart fun j below => ?_).trans before
    rw [below, view_below_large unfolded.before unfolded.large] at before
    cases before

/-- The entries that point to tables on the way of an address. -/
theorem Reached.nonzero {address : Address} (reached : pager.Reached kept address flags m m') :
    pager.seen m'.memory address.first ≠ 0 ∧ pager.seen m'.memory address.second ≠ 0 ∧
      pager.seen m'.memory address.third ≠ 0 := by
  obtain ⟨m₁, opens, small⟩ := reached.steps
  obtain ⟨m₀, _, first, second⟩ := opens.opened
  obtain ⟨e₁, here₁, nonzero₁⟩ := first.nonzero
  obtain ⟨e₂, here₂, nonzero₂⟩ := second.nonzero
  refine ⟨?_, ?_, (small.third reached.ready.tree).1⟩
  · have kept₁ := small.other (by simp [Address.third]) (second.other (by simp) here₁)
    rwa [Address.first, seen_of_view kept₁]
  · have kept₂ := small.other (by simp [Address.third]) here₂
    rwa [Address.second, seen_of_view kept₂]

/-- A leaf is read for the addresses of its page only. -/
theorem Stored.translation_other {leaf : Entry} {virt u : Nat}
    (stored : pager.Stored (translate virt).fourth leaf m m')
    (other : (translate u).fourth ≠ (translate virt).fourth) :
    translation (pager.seen m'.memory) u = translation (pager.seen m.memory) u := by
  have seen (r : Path) (apart : r ≠ (translate virt).fourth) :
      pager.seen m'.memory r = pager.seen m.memory r := by
    rw [stored.sets.seen, if_neg apart]
  exact (agree_of_eq (seen _ (by simp [Address.first, Address.fourth]))
    (seen _ (by simp [Address.second, Address.fourth]))
    (seen _ (by simp [Address.third, Address.fourth])) (seen _ other)).translation

/-- The leaf is the translation of its page, if the way to it is present. -/
theorem Stored.translation_self {leaf : Entry} {virt : Nat}
    (stored : pager.Stored (translate virt).fourth leaf m m')
    (small : (pager.seen m.memory (translate virt).third).pageSize = false)
    (way : leaf.present = true → (pager.seen m.memory (translate virt).first).present = true ∧
      (pager.seen m.memory (translate virt).second).present = true ∧
      (pager.seen m.memory (translate virt).third).present = true) :
    translation (pager.seen m'.memory) virt =
      if leaf.present then some (smallPage leaf virt) else none := by
  have seen (r : Path) (apart : r ≠ (translate virt).fourth) :
      pager.seen m'.memory r = pager.seen m.memory r := by
    rw [stored.sets.seen, if_neg apart]
  have first := seen (translate virt).first (by simp [Address.first, Address.fourth])
  have second := seen (translate virt).second (by simp [Address.second, Address.fourth])
  have third := seen (translate virt).third (by simp [Address.third, Address.fourth])
  have fourth := (stored.sets.seen (translate virt).fourth).trans (if_pos rfl)
  simp only [translation, everyLevel, first, second, third, fourth, small, Bool.false_or,
    Bool.false_eq_true, if_false]
  cases present : leaf.present with
  | false => simp only [Bool.and_false, Bool.false_eq_true, if_false]
  | true =>
    obtain ⟨p₁, p₂, p₃⟩ := way present
    simp only [p₁, p₂, p₃, Bool.and_self, if_true]

theorem toNat_of_masked {physical : BitVec 64} (aligned : physical &&& 0xFFF = 0) :
    physical.toNat % 0x1000 = 0 := by
  have masked := congrArg BitVec.toNat aligned
  rw [BitVec.toNat_and] at masked
  exact (Nat.and_two_pow_sub_one_eq_mod physical.toNat 12).symm.trans masked

/-- The leaf that `page_4_kb` writes. -/
theorem smallPage_leaf {virt : Nat} {physical : BitVec 64} {flags : Flags}
    (takes : Takes4Kb virt physical flags) (inMemory : physical.toNat < 2 ^ 52) :
    smallPage (Entry.pack physical (leafFlags flags)) virt =
      ⟨physical.toNat, leafFlags flags⟩ := by
  have aligned := toNat_of_masked takes.2.1
  have high := leafFlags_high takes.2.2
  rw [smallPage, Entry.flags_pack (fun _ low => low_of_aligned aligned low) high,
    Entry.frame_pack high, Entry.toNat_frame, takes.1]
  simp only [Translation.mk.injEq, and_true]
  omega

private theorem present_leaf {virt : Nat} {physical : BitVec 64} {flags : Flags}
    (takes : Takes4Kb virt physical flags) :
    (Entry.pack physical (leafFlags flags)).present = flags.any pagerPresent := by
  have aligned := toNat_of_masked takes.2.1
  rw [Entry.present, Entry.getLsbD_pack, low_of_aligned aligned (by decide), Bool.false_or,
    getLsbD_leafFlags flags (by decide), getLsbD_tableFlags flags (by decide), Flags.any_present]

/-- What `page_4_kb` does to the translation when it returns. -/
theorem translation_mapped {m m₁ m' : Machine} {virt : Nat} {physical : BitVec 64} {flags : Flags}
    (reached : pager.Reached kept (translate virt) (tableFlags flags) m m₁)
    (stored : pager.Stored (translate virt).fourth (Entry.pack physical (leafFlags flags)) m₁ m')
    (takes : Takes4Kb virt physical flags) (inMemory : physical.toNat < 2 ^ 52)
    (intact : pager.Intact m.memory) :
    translation (pager.seen m'.memory) virt =
      if flags.any pagerPresent then some ⟨physical.toNat, leafFlags flags⟩ else none := by
  obtain ⟨m₂, _, small⟩ := reached.steps
  rw [stored.translation_self (small.third reached.ready.tree).2 fun present => ?_,
    present_leaf takes, smallPage_leaf takes inMemory]
  rw [present_leaf takes, Flags.any_present, ← getLsbD_tableFlags flags (by decide)] at present
  have after := reached.intact intact present
  obtain ⟨first, second, third⟩ := reached.nonzero
  exact ⟨after.seen_present (by simp) first, after.seen_present (by simp) second,
    after.seen_present (by simp) third⟩

/-- A mapped page changes no translation but its own. -/
theorem walk_mapped_other {m m₁ m' : Machine} {virt : Nat} {leaf : Entry} {flags : Flags}
    (reached : pager.Reached kept (translate virt) (tableFlags flags) m m₁)
    (stored : pager.Stored (translate virt).fourth leaf m₁ m')
    (before : pager.Tree m.memory) (aligned : ∀ e, pager.view m.memory (translate virt).third =
      some e → e.pageSize = true → LargeAligned e) (tree : pager.Tree m'.memory)
    (canonical : Canonical virt) {u : Nat} (canonicalU : Canonical u)
    (other : u / 0x1000 ≠ virt / 0x1000) : pager.walk m'.memory u = pager.walk m.memory u := by
  rw [walk_eq tree, walk_eq before, stored.translation_other fun same =>
    other (page_eq_of_fourth canonicalU canonical same), reached.translation aligned]

theorem Fresh.wellFormed {m : Memory} (fresh : pager.Fresh m) : pager.WellFormed m := by
  refine ⟨⟨fresh.tree, fun i p e _ found nonzero => ?_⟩, fun i p e _ found large => ?_⟩
  · exact absurd (fresh.view found) nonzero
  · rw [fresh.view found] at large
    cases large

/-- 32 pages from 1 MiB on. -/
def plainAllocator : Allocator where
  bitmap := fun w => if w = 0 then 0 else 0xFFFFFFFF
  bitmapEntries := 1
  currentEntry := 0
  addend := 0x100000
  fakedPages := 0

def plainPager : Pager := ⟨0x1000⟩

def plainMachine : Machine := ⟨fun _ _ => 0, plainAllocator⟩

theorem plainFresh : plainPager.Fresh plainMachine.memory := ⟨by decide, fun _ => rfl⟩

theorem plainAllocator_clear {k : Nat} (clear : BitArray.bit plainAllocator.bitmap k = false) :
    k < 32 := by
  by_contra outside
  simp only [BitArray.bit, plainAllocator, show ¬k / 32 = 0 by omega, if_false] at clear
  have ones : ∀ b : Fin 32, (0xFFFFFFFF#32).getLsbD b = true := by decide
  exact Bool.false_ne_true (clear.symm.trans (ones ⟨k % 32, Nat.mod_lt _ (by decide)⟩))

theorem plainAllocator_fenced : plainAllocator.Fenced := by
  refine ⟨Nat.zero_le _, fun p behind => ?_⟩
  by_contra clear
  have inside := plainAllocator_clear (Bool.eq_false_iff.mpr clear)
  have start := behind.1
  simp only [plainAllocator] at start
  omega

theorem plainAllocator_supplies :
    plainAllocator.Supplies (plainPager.IsTable plainMachine.memory) := by
  refine Allocator.supplies_of_fenced plainAllocator_fenced rfl (by decide) fun k clear used => ?_
  have inside := plainAllocator_clear clear
  rw [plainFresh.isTable_iff] at used
  have value : (0x100000 + k * 0x1000) % 2 ^ 64 = 0x1000 := congrArg BitVec.toNat used
  omega

end Pager

end EmkKernel
