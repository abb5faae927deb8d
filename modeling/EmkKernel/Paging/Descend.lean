import EmkKernel.Paging.Tree

/-!
# Going down the tables

What one level of `get_pd_allocated` does: the entry gets a table if it has none,
and is made writable if the mapping asks for it. `Opened` is this edit of the
view; a mapping function is a chain of such edits, and an error leaves a prefix
of the chain behind.
-/

namespace EmkKernel

open EStateM

/-- An entry after `*location |= RW` was asked for. -/
def Entry.granted (rw : Bool) (e : Entry) : Entry := if rw then Entry.pack e pagerRw else e

private theorem Entry.granted_of_writable {e : Entry} (writable : e.getLsbD 1 = true) :
    Entry.pack e pagerRw = e := by
  apply BitVec.eq_of_getLsbD_eq
  intro k _
  rw [getLsbD_pack, getLsbD_rw]
  by_cases bit : k = 1
  · simp [bit, writable]
  · simp [bit]

theorem Entry.getLsbD_granted (rw : Bool) (e : Entry) (k : Nat) :
    (granted rw e).getLsbD k = (e.getLsbD k || (rw && decide (k = 1))) := by
  cases rw
  · simp [granted]
  · simp [granted]

theorem Entry.address_granted (rw : Bool) (e : Entry) : (granted rw e).address = e.address := by
  cases rw
  · rfl
  · refine address_pack_entry e fun k high => ?_
    rw [getLsbD_rw, decide_eq_false_iff_not]
    omega

theorem Entry.granted_ne_zero (rw : Bool) {e : Entry} (nonzero : e ≠ 0) : granted rw e ≠ 0 := by
  cases rw with
  | false => exact nonzero
  | true => exact ne_zero_of_bit (k := 1) (by rw [getLsbD_granted]; simp)

theorem Entry.pageSize_granted (rw : Bool) (e : Entry) : (granted rw e).pageSize = e.pageSize := by
  rw [pageSize, getLsbD_granted, pageSize]
  simp

theorem Entry.stabAllocated_granted (rw : Bool) (e : Entry) :
    (granted rw e).stabAllocated = e.stabAllocated := by
  rw [stabAllocated, getLsbD_granted, stabAllocated]
  simp

theorem Entry.present_granted (rw : Bool) (e : Entry) : (granted rw e).present = e.present := by
  rw [present, getLsbD_granted, present]
  simp

/-- Granting a permission changes no table. -/
theorem child_granted (depth : Nat) (rw : Bool) {e : Entry} (nonzero : e ≠ 0) :
    child depth (Entry.granted rw e) = child depth e := by
  simp only [child, Entry.pageSize_granted, Entry.address_granted, nonzero, ne_eq,
    Entry.granted_ne_zero rw nonzero]

/-- Flags that neither reach into the address nor say that a page is large. -/
structure Flags.Plain (flags : Flags) : Prop where
  small : flags.getLsbD 7 = false
  high : ∀ k, 12 ≤ k → flags.getLsbD k = false

theorem Flags.Accepted.plain {flags : Flags} (accepted : flags.Accepted) : flags.Plain :=
  ⟨accepted.bit (Or.inr (Or.inl rfl)), fun _ high => accepted.bit (Or.inr (Or.inr high))⟩

theorem Flags.Plain.stab {flags : Flags} (plain : flags.Plain) :
    (flags ||| pagerStabAllocated).Plain := by
  refine ⟨?_, fun k high => ?_⟩
  · rw [BitVec.getLsbD_or, plain.small, getLsbD_stab]
    rfl
  · rw [BitVec.getLsbD_or, plain.high k high, getLsbD_stab, Bool.false_or, decide_eq_false_iff_not]
    omega

theorem getLsbD_of_or_stab {flags flags' : Flags}
    (same : flags' ||| pagerStabAllocated = flags ||| pagerStabAllocated) {k : Nat}
    (other : k ≠ 8) :
    flags'.getLsbD k = flags.getLsbD k := by
  have bit := congrArg (fun v => BitVec.getLsbD v k) same
  simpa [other] using bit

theorem Flags.Plain.of_or_stab {flags flags' : Flags} (plain : flags.Plain)
    (same : flags' ||| pagerStabAllocated = flags ||| pagerStabAllocated) : flags'.Plain := by
  refine ⟨?_, fun k high => ?_⟩
  · rw [getLsbD_of_or_stab same (by decide), plain.small]
  · rw [getLsbD_of_or_stab same (by omega), plain.high k high]

/-- The entry that links a fresh table. -/
theorem child_link {f : BitVec 64} {flags : Flags} (isFrame : IsFrame f) (plain : flags.Plain)
    {depth : Nat} (shallow : depth < 3) :
    child depth (Entry.pack f (flags ||| pagerStabAllocated)) = some f := by
  have stab : (Entry.pack f (flags ||| pagerStabAllocated)).getLsbD 8 = true := by simp
  rw [child_pointer shallow (Entry.ne_zero_of_bit stab)]
  · rw [Entry.address_pack (fun k low => isFrame.low low) plain.stab.high]
  · rw [Entry.pageSize, Entry.getLsbD_pack, isFrame.low (by decide), plain.stab.small]
    rfl

namespace Pager

variable (pager : Pager)

/-- The address increment of a handle on an entry at this depth. -/
def level : Nat → Nat
  | 0 => 0
  | 1 => pager1Gib
  | _ => pager2Mib

/-- A handle on the entry at `i :: p`. -/
structure Handle (m : Memory) (pt : PointerTable) (i : Index) (p : Path) : Prop where
  table : pager.tableAt m p = some pt.location.table
  index : pt.location.index = i
  address : pt.address = (m pt.location.table i).address
  increment : pt.addressIncrement = level p.length

/-- The memory outside the tables, a new one aside, is as before. -/
def Untouched (m m' : Memory) (new : BitVec 64 → Prop) : Prop :=
  ∀ g, ¬pager.IsTable m g → ¬new g → m' g = m g

/-- The entry at `q` has a table: it pointed to one and was made writable if asked
for, or it was zero and points to a fresh one. -/
inductive Opened (rw : Bool) (flags : Flags) (q : Path) (m m' : Machine) : Prop where
  | kept (e : Entry) (before : pager.view m.memory q = some e) (nonzero : e ≠ 0)
      (sets : Sets (pager.view m.memory) (pager.view m'.memory) q (Entry.granted rw e))
      (tables : ∀ r, pager.tableAt m'.memory r = pager.tableAt m.memory r)
      (allocator : m'.allocator = m.allocator)
      (untouched : pager.Untouched m.memory m'.memory fun _ => False)
  | linked (mb : MemoryBlock) (before : pager.view m.memory q = some 0)
      (returned : (m.allocator.alloc 1).value = (.ok mb, m'.allocator))
      (adds : Adds (pager.view m.memory) (pager.view m'.memory) q
        (Entry.pack (BitVec.ofNat 64 mb.base) (flags ||| pagerStabAllocated)) fun _ => 0)
      (tables : ∀ r, pager.tableAt m'.memory r =
        if r = q then some (BitVec.ofNat 64 mb.base) else pager.tableAt m.memory r)
      (untouched : pager.Untouched m.memory m'.memory fun g => g = BitVec.ofNat 64 mb.base)

variable {pager} {kept : BitVec 64 → Prop} {m m' : Machine} {pt : PointerTable} {i : Index}
  {p : Path} {flags : Flags}

theorem Handle.view (handle : pager.Handle m.memory pt i p) :
    pager.view m.memory (i :: p) = some (m.memory pt.location.table i) :=
  view_cons handle.table i

theorem Handle.load (handle : pager.Handle m.memory pt i p) {e : Entry}
    (entry : pager.view m.memory (i :: p) = some e) :
    m.memory pt.location.table pt.location.index = e := by
  rw [handle.index]
  exact Option.some.inj (handle.view.symm.trans entry)

theorem untouched_write {m : Memory} {n : BitVec 64} (isTable : pager.IsTable m n) (i : Index)
    (e : Entry) : pager.Untouched m (RadixTree.write m n i e) fun _ => False := by
  intro g outside _
  have other : g ≠ n := fun same => outside (same ▸ isTable)
  funext j
  rw [RadixTree.write_apply, if_neg fun slot => other slot.1]

theorem untouched_graft {m : Memory} {n f : BitVec 64} (isTable : pager.IsTable m n) (i : Index)
    (e : Entry) (content : Index → Entry) :
    pager.Untouched m (RadixTree.write (RadixTree.fill m f content) n i e) fun g => g = f := by
  intro g outside new
  have other : g ≠ n := fun same => outside (same ▸ isTable)
  funext j
  rw [RadixTree.write_apply, if_neg fun slot => other slot.1, RadixTree.fill_apply, if_neg new]

/-- A frame just returned is fresh for the tree, and the rest stays supplied. -/
theorem Ready.grant (ready : pager.Ready kept m) {mb : MemoryBlock} {a : Allocator}
    (returned : (m.allocator.alloc 1).value = (.ok mb, a)) {m' : Memory}
    (tree : pager.Tree m') {q : Path}
    (tables : ∀ r, pager.tableAt m' r =
      if r = q then some (BitVec.ofNat 64 mb.base) else pager.tableAt m.memory r) :
    pager.Ready kept ⟨m', a⟩ := by
  refine ⟨tree, (ready.supplies.grant returned).mono fun f used => ?_⟩
  rcases used with old | ⟨r, reached⟩
  · exact Or.inl (Or.inl old)
  · rw [tables] at reached
    split at reached
    next => exact Or.inr (Option.some.inj reached).symm
    next => exact Or.inl (Or.inr ⟨r, reached⟩)

theorem Ready.same (ready : pager.Ready kept m) {m' : Memory} (tree : pager.Tree m')
    (tables : ∀ r, pager.tableAt m' r = pager.tableAt m.memory r) :
    pager.Ready kept ⟨m', m.allocator⟩ := by
  refine ⟨tree, ready.supplies.mono fun f used => ?_⟩
  rcases used with old | ⟨r, reached⟩
  · exact Or.inl old
  · exact Or.inr ⟨r, (tables r).symm.trans reached⟩

/-- The flags of a handle after its entry was opened: they carry the mark of the
allocation from then on. -/
def stamped (e : Entry) (flags : Flags) : Flags :=
  if e = 0 then flags ||| pagerStabAllocated else flags

private theorem stamped_or_stab (e : Entry) (flags : Flags) :
    stamped e flags ||| pagerStabAllocated = flags ||| pagerStabAllocated := by
  unfold stamped
  split
  · rw [BitVec.or_assoc, BitVec.or_self]
  · rfl

/-- What follows an attempt to open the entry `e` at `i :: p`. -/
structure OpenedTo (pager : Pager) (kept : BitVec 64 → Prop) (rw : Bool) (m : Machine)
    (pt : PointerTable)
    (i : Index) (p : Path) (e : Entry) (pt' : PointerTable) (m' : Machine) : Prop where
  ready : pager.Ready kept m'
  opened : pager.Opened rw pt.flags (i :: p) m m'
  handle : pager.Handle m'.memory pt' i p
  flags : pt'.flags = stamped e pt.flags

/-- `allocate_if_necessary` on a handle. -/
theorem allocateIfNecessary_yields (ready : pager.Ready kept m)
    (handle : pager.Handle m.memory pt i p) (shallow : p.length < 3) (plain : pt.flags.Plain)
    {e : Entry} (entry : pager.view m.memory (i :: p) = some e) :
    Yields pt.allocateIfNecessary m (fun r m' => pager.OpenedTo kept false m pt i p e r.2 m')
      (Fails (fun m' => m' = m ∧ e = 0) False) := by
  have loaded := handle.load entry
  unfold PointerTable.allocateIfNecessary
  rw [yields_bind, yields_load, loaded, yields_ite]
  by_cases zero : e = 0
  · subst zero
    have mask : pt.flags.any pagerPageSize = false := by rw [Flags.any_pageSize, plain.small]
    rw [if_pos ⟨rfl, mask⟩, yields_bind]
    refine (allocZeroPage_yields m).mono ?_ (Fails.mono (fun _ same => ⟨same, rfl⟩) id)
    rintro f _ ⟨mb, a, returned, rfl, rfl⟩
    rw [yields_bind, yields_store, yields_pure]
    have isFrame := ready.supplies.isFrame returned
    have fresh := fun isTable => ready.supplies.unused returned (Or.inr isTable)
    have bare : child p.length (m.memory pt.location.table pt.location.index) = none := by
      rw [loaded, child_zero]
    have link := child_link isFrame plain shallow
    obtain ⟨tree, adds, tables⟩ := ready.tree.add handle.table bare fresh isFrame link
      (fun _ => child_zero _) (fun _ _ => by rfl)
    rw [handle.index] at tree adds tables ⊢
    refine ⟨ready.grant returned tree tables,
      .linked mb entry returned adds tables (untouched_graft ⟨p, handle.table⟩ i _ _),
      ⟨?_, handle.index, ?_, handle.increment⟩, ?_⟩
    · rw [tables, if_neg (List.cons_ne_self i p).symm]
      exact handle.table
    · simp only [RadixTree.write_apply, and_self, if_true]
      rw [Entry.address_pack (fun k low => isFrame.low low) plain.stab.high]
    · exact (if_pos rfl).symm
  · rw [if_neg fun both => zero both.1, yields_pure]
    refine ⟨ready, .kept e entry zero ⟨entry, fun _ _ => rfl⟩ (fun _ => rfl) rfl
      (fun _ _ _ => rfl), handle, ?_⟩
    rw [stamped, if_neg zero]

/-- One level of `get_pd_allocated`. -/
theorem makeWritable_yields (ready : pager.Ready kept m) (handle : pager.Handle m.memory pt i p)
    (shallow : p.length < 3) (plain : pt.flags.Plain)
    (same : ∀ k, k ≠ 8 → pt.flags.getLsbD k = flags.getLsbD k) {e : Entry}
    (entry : pager.view m.memory (i :: p) = some e) :
    Yields (makeWritable pt flags) m
      (fun pt' m' => pager.OpenedTo kept (flags.getLsbD 1) m pt i p e pt' m')
      (Fails (fun m' => m' = m ∧ e = 0) False) := by
  unfold makeWritable
  rw [yields_bind]
  refine (allocateIfNecessary_yields ready handle shallow plain entry).mono ?_
    fun _ _ failed => failed
  rintro ⟨_, pt'⟩ m₁ ⟨ready₁, opened, handle₁, flags₁⟩
  simp only [PointerTable.readFlags, yields_bind, yields_load, yields_pure, yields_ite,
    yields_store]
  cases opened with
  | kept e' before nonzero sets tables allocator untouched =>
    obtain rfl : e = e' := Option.some.inj (entry.symm.trans before)
    have loaded := handle₁.load sets.here
    have unchanged (r : Path) : pager.view m₁.memory r = pager.view m.memory r := by
      by_cases here : r = i :: p
      · rw [here, sets.here, before]
        rfl
      · exact sets.other r here
    rw [loaded, Flags.any_rw, Flags.any_rw, Entry.getLsbD_flags]
    change if flags.getLsbD 1 = true ∧ (decide (1 < 12) && e.getLsbD 1) = false then _ else _
    split
    next denied =>
      have grant : Entry.granted (flags.getLsbD 1) e = Entry.pack e pagerRw := by
        rw [denied.1]
        rfl
      rw [handle₁.index] at loaded ⊢
      have pointer : child p.length (Entry.granted (flags.getLsbD 1) e) =
          child p.length (m₁.memory pt'.location.table i) := by
        rw [loaded, child_granted _ _ nonzero]
        rfl
      have upper : p.length < 2 → (Entry.granted (flags.getLsbD 1) e).pageSize = false :=
        fun above => by
          rw [Entry.pageSize_granted]
          exact ready₁.tree.upper i p e above ((unchanged _).trans before)
      obtain ⟨tree, sets', tables'⟩ := ready₁.tree.set handle₁.table pointer upper
      rw [grant] at tree sets' tables'
      refine ⟨ready₁.same tree tables', .kept e before nonzero ⟨?_, fun r other => ?_⟩
        (fun r => (tables' r).trans (tables r)) allocator fun g outside _ => ?_,
        ⟨?_, handle₁.index, ?_, handle₁.increment⟩, flags₁⟩
      · rw [grant]
        exact sets'.here
      · exact (sets'.other r other).trans (unchanged r)
      · have isTable : pager.IsTable m₁.memory pt'.location.table := ⟨p, handle₁.table⟩
        refine (untouched_write isTable i _ g ?_ id).trans (untouched g outside id)
        rintro ⟨r, reached⟩
        exact outside ⟨r, (tables r).symm.trans reached⟩
      · exact (tables' p).trans handle₁.table
      · simp only [RadixTree.write_apply, and_self, if_true]
        rw [handle₁.address, loaded]
        exact (Entry.address_granted true e).symm
    next granted =>
      have same : Entry.granted (flags.getLsbD 1) e = e := by
        cases asked : flags.getLsbD 1 with
        | false => rfl
        | true =>
          have writable : e.getLsbD 1 = true := by simpa [asked] using granted
          exact Entry.granted_of_writable writable
      refine ⟨ready₁, .kept e before nonzero ?_ tables allocator untouched, handle₁, flags₁⟩
      rwa [same]
  | linked mb before returned adds tables untouched =>
    have loaded := handle₁.load adds.here
    rw [if_neg]
    · exact ⟨ready₁, .linked mb before returned adds tables untouched, handle₁, flags₁⟩
    · rintro ⟨asked, denied⟩
      rw [loaded, Flags.any_rw, Entry.getLsbD_flags, Entry.getLsbD_pack, BitVec.getLsbD_or,
        same 1 (by decide)] at denied
      rw [Flags.any_rw] at asked
      simp only [asked, Bool.true_or, Bool.or_true] at denied
      cases denied

/-! ### From one handle to the next -/

/-- The handle on an entry of the root. -/
theorem new_yields {m : Machine} (i : Index) (flags : Flags) {R : Stop → Machine → Prop} :
    Yields (PointerTable.new .pdpt pager.cr3 i flags) m
      (fun pt m' => m' = m ∧ pager.Handle m.memory pt i [] ∧ pt.flags = flags) R := by
  simp only [PointerTable.new, yields_bind, yields_load, yields_pure]
  exact ⟨trivial, ⟨rfl, rfl, rfl, rfl⟩, trivial⟩

/-- The increment of a handle that `instantiate` makes. -/
theorem Handle.next {m : Memory} (handle : pager.Handle m pt i p) (above : p.length < 2) :
    (if pt.addressIncrement = 0 then some pager1Gib
      else if pt.addressIncrement = pager1Gib then some pager2Mib else none) =
      some (level (i :: p).length) := by
  rw [handle.increment, List.length_cons]
  obtain root | second : p.length = 0 ∨ p.length = 1 := by omega
  · rw [root]
    rfl
  · rw [second]
    rfl

/-- `instantiate` on an entry that points to a table. -/
theorem instantiate_yields {m : Machine} (handle : pager.Handle m.memory pt i p)
    (above : p.length < 2) {e : Entry} (entry : pager.view m.memory (i :: p) = some e)
    (nonzero : e ≠ 0) (small : e.pageSize = false) (j : Index) {R : Stop → Machine → Prop} :
    Yields (pt.instantiate j) m
      (fun r m' => m' = m ∧
        ∃ pt', r = some pt' ∧ pager.Handle m.memory pt' j (i :: p) ∧ pt'.flags = pt.flags) R := by
  have loaded := handle.load entry
  have table : pager.tableAt m.memory (i :: p) = some pt.address := by
    rw [handle.address, ← handle.index, loaded, handle.index]
    exact tableAt_of_view entry (by omega) nonzero small
  simp only [PointerTable.instantiate, yields_bind, yields_load, loaded, yields_ite,
    Entry.any_pageSize, small, handle.next above, yields_pure, Bool.false_eq_true, if_false]
  exact ⟨trivial, _, rfl, ⟨table, rfl, rfl, rfl⟩, rfl⟩

/-- An entry that was opened is not zero. -/
theorem Opened.nonzero {rw : Bool} {q : Path} (opened : pager.Opened rw flags q m m') :
    ∃ e, pager.view m'.memory q = some e ∧ e ≠ 0 := by
  cases opened with
  | kept e before nonzero sets tables allocator untouched =>
    exact ⟨_, sets.here, Entry.granted_ne_zero rw nonzero⟩
  | linked mb before returned adds tables untouched =>
    exact ⟨_, adds.here, Entry.ne_zero_of_bit (k := 8) (by simp)⟩

/-- A zero entry has no table, so no entries below. -/
theorem view_below_zero {q : Path} (zero : pager.view m.memory q = some 0) (j : Index) :
    pager.view m.memory (j :: q) = none := by
  cases q with
  | nil => cases zero
  | cons k q =>
    refine RadixTree.entry_eq_none j ?_
    change pager.tableAt m.memory (k :: q) = none
    rw [tableAt_cons, zero, Option.bind_some, child_zero]

/-- Opening an entry changes no other entry. -/
theorem Opened.other {rw : Bool} {q r : Path} (opened : pager.Opened rw flags q m m')
    (apart : r ≠ q) {e : Entry} (before : pager.view m.memory r = some e) :
    pager.view m'.memory r = some e := by
  cases opened with
  | kept e' _ nonzero sets tables allocator untouched => exact (sets.other r apart).trans before
  | linked mb zero returned adds tables untouched =>
    refine (adds.other r apart fun j below => ?_).trans before
    rw [below, view_below_zero zero] at before
    cases before

/-- The entries of a fresh table are zero. -/
theorem Opened.old {rw : Bool} {q r : Path} (opened : pager.Opened rw flags q m m')
    (apart : r ≠ q) {e : Entry} (after : pager.view m'.memory r = some e) (nonzero : e ≠ 0) :
    pager.view m.memory r = some e := by
  cases opened with
  | kept e' _ nonzero' sets tables allocator untouched =>
    exact (sets.other r apart).symm.trans after
  | linked mb zero returned adds tables untouched =>
    by_cases below : ∃ j, r = j :: q
    · obtain ⟨j, rfl⟩ := below
      rw [adds.below] at after
      exact absurd (Option.some.inj after).symm nonzero
    · exact (adds.other r apart fun j same => below ⟨j, same⟩).symm.trans after

/-- An opened entry was zero only if a page was taken. -/
theorem Opened.kept_of_nonzero {rw : Bool} {q : Path} {e : Entry}
    (opened : pager.Opened rw flags q m m') (before : pager.view m.memory q = some e)
    (nonzero : e ≠ 0) : m'.allocator = m.allocator := by
  cases opened with
  | kept _ _ _ _ _ allocator _ => exact allocator
  | linked mb zero _ _ _ _ => exact absurd (Option.some.inj (before.symm.trans zero)) nonzero

/-- The entries `get_pd_allocated` opened before it returned. -/
structure Opens (pager : Pager) (kept : BitVec 64 → Prop) (address : Address) (flags : Flags)
    (m m' : Machine) : Prop where
  ready : pager.Ready kept m'
  opened : ∃ m₁, pager.Ready kept m₁ ∧
    pager.Opened (flags.getLsbD 1) flags [address.pdp] m m₁ ∧
    pager.Opened (flags.getLsbD 1) flags [address.pd, address.pdp] m₁ m'

/-- What `get_pd_allocated` leaves behind when there is no page for a missing table. -/
inductive Begun (pager : Pager) (kept : BitVec 64 → Prop) (address : Address) (flags : Flags)
    (m : Machine) : Machine → Prop where
  | nothing (ready : pager.Ready kept m) (missing : pager.view m.memory [address.pdp] = some 0) :
      Begun pager kept address flags m m
  | first (m₁ : Machine) (ready : pager.Ready kept m₁)
      (opened : pager.Opened (flags.getLsbD 1) flags [address.pdp] m m₁)
      (missing : pager.view m₁.memory [address.pd, address.pdp] = some 0) :
      Begun pager kept address flags m m₁

/-- The flags that reach the entry of the third level: they are marked as soon as a
table was allocated on the way. -/
def carried (pager : Pager) (m : Memory) (address : Address) (flags : Flags) : Flags :=
  match pager.view m [address.pd, address.pdp] with
  | some e => stamped e flags
  | none => flags ||| pagerStabAllocated

theorem carried_or_stab (m : Memory) (address : Address) (flags : Flags) :
    pager.carried m address flags ||| pagerStabAllocated = flags ||| pagerStabAllocated := by
  unfold carried
  split
  · exact stamped_or_stab _ flags
  · rw [BitVec.or_assoc, BitVec.or_self]

theorem Opened.of_or_stab {rw : Bool} {q : Path} {flags' : Flags}
    (same : flags' ||| pagerStabAllocated = flags ||| pagerStabAllocated)
    (opened : pager.Opened rw flags' q m m') : pager.Opened rw flags q m m' := by
  cases opened with
  | kept e before nonzero sets tables allocator untouched =>
    exact .kept e before nonzero sets tables allocator untouched
  | linked mb before returned adds tables untouched =>
    exact .linked mb before returned (same ▸ adds) tables untouched

theorem stamped_stamped {rw : Bool} {address : Address}
    (opened : pager.Opened rw flags [address.pdp] m m') {e₁ e₂ : Entry}
    (first : pager.view m.memory [address.pdp] = some e₁)
    (second : pager.view m'.memory [address.pd, address.pdp] = some e₂) :
    stamped e₂ (stamped e₁ flags) = pager.carried m.memory address flags := by
  cases opened with
  | kept e before nonzero sets tables allocator untouched =>
    obtain rfl := Option.some.inj (first.symm.trans before)
    rw [sets.other _ (by simp)] at second
    simp only [carried, second, stamped, nonzero, if_false]
  | linked mb before returned adds tables untouched =>
    obtain rfl := Option.some.inj (first.symm.trans before)
    rw [adds.below] at second
    obtain rfl := Option.some.inj second
    have bare : pager.tableAt m.memory [address.pdp] = none := by
      rw [tableAt_cons, before, Option.bind_some, child_zero]
    have none : pager.view m.memory [address.pd, address.pdp] = none :=
      RadixTree.entry_eq_none _ bare
    simp only [carried, none, stamped, if_true]
    rw [BitVec.or_assoc, BitVec.or_self]

/-- `get_pd_allocated` opens the first two entries on the way, one after the other. -/
theorem getPdAllocated_yields (ready : pager.Ready kept m) (address : Address)
    (plain : flags.Plain) :
    Yields (pager.getPdAllocated address flags) m
      (fun pt m' => pager.Opens kept address flags m m' ∧
        pager.Handle m'.memory pt address.pd [address.pdp] ∧
        pt.flags = pager.carried m.memory address flags)
      (Fails (pager.Begun kept address flags m) False) := by
  unfold getPdAllocated
  rw [yields_bind]
  refine (new_yields address.pdp flags).mono ?_ fun _ _ failed => failed
  rintro pdpt _ ⟨rfl, handle, flags₀⟩
  rw [yields_bind]
  have first := handle.view
  refine (makeWritable_yields ready handle (by decide) (flags₀ ▸ plain)
    (fun _ _ => by rw [flags₀]) first).mono ?_ fun s m' => ?_
  · rintro pdpt₁ m₁ opened₁
    obtain ⟨ready₁, first₁, handle₁, flags₁⟩ := opened₁
    rw [flags₀] at first₁ flags₁
    obtain ⟨e₁, entry₁, nonzero₁⟩ := first₁.nonzero
    have small₁ := ready₁.tree.upper _ _ _ (by decide) entry₁
    rw [yields_bind]
    refine (instantiate_yields handle₁ (by decide) entry₁ nonzero₁ small₁ address.pd).mono ?_
      fun _ _ failed => failed
    rintro _ m₁ ⟨rfl, pd, rfl, handle₂, flags₂⟩
    have second := handle₂.view
    have small₂ := ready₁.tree.upper _ _ _ (by simp) second
    simp only [PointerTable.pageSizeActive, yields_bind, yields_load, yields_pure,
      Entry.any_pageSize, handle₂.index, small₂, Bool.false_eq_true, if_false]
    have same : pd.flags ||| pagerStabAllocated = flags ||| pagerStabAllocated := by
      rw [flags₂, flags₁, stamped_or_stab]
    refine (makeWritable_yields ready₁ handle₂ (by simp) (plain.of_or_stab same)
      (fun _ other => getLsbD_of_or_stab same other) second).mono ?_ fun s m' => ?_
    · rintro pt m₂ opened₂
      refine ⟨⟨opened₂.ready, m₁, ready₁, first₁, opened₂.opened.of_or_stab same⟩,
        opened₂.handle, ?_⟩
      rw [opened₂.flags, flags₂, flags₁]
      exact stamped_stamped first₁ first second
    · refine Fails.mono (fun _ same => ?_) id s m'
      rw [same.1]
      exact .first m₁ ready₁ first₁ (same.2 ▸ second)
  · refine Fails.mono (fun _ same => ?_) id s m'
    rw [same.1]
    exact .nothing ready (same.2 ▸ first)

end Pager

end EmkKernel
