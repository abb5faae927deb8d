import EmkKernel.Paging.LargePages

/-!
# Permissions of a mapping

The processor grants a page what every entry on the way to it grants. A table that
exists already keeps its flags, but for `RW` on the first two levels, so a page may
get less than it was mapped with.
-/

namespace EmkKernel

open EStateM

/-- A call ended in a state, with a value or an error. A panic stops the kernel. -/
def Ends {α : Type} (x : PagerM α) (m m' : Machine) : Prop :=
  (∃ a, x m = .ok a m') ∨ ∃ e, x m = .error (.err e) m'

/-- The entry grants what is asked for. -/
def Entry.suits (write : Bool) (mode : ExecutionMode) (e : Entry) : Bool :=
  e.present && (!write || e.writable) && (mode = .kernel || e.user)

namespace Pager

variable (pager : Pager)

/-- What the processor grants: every entry on the way grants it. -/
def permits (m : Memory) (virt : Nat) (write : Bool) (mode : ExecutionMode) : Bool :=
  everyLevel (entryAt m pager.cr3) (translate virt) (Entry.suits write mode)

/-- The tables that calls of `page_4_kb` and `page_2_mb` build from a fresh root, with
any allocator that supplies frames. No call maps a large page again. -/
inductive Built : Memory → Prop where
  | fresh (m : Memory) (fresh : pager.Fresh m) : Built m
  | small (m m' : Machine) (virt : Nat) (physical : BitVec 64) (flags : Flags)
      (built : Built m.memory) (supplies : m.allocator.Supplies (pager.IsTable m.memory))
      (ends : Ends (pager.page4Kb virt physical flags) m m') : Built m'.memory
  | large (m m' : Machine) (virt : Nat) (physical : BitVec 64) (flags : Flags)
      (built : Built m.memory) (supplies : m.allocator.Supplies (pager.IsTable m.memory))
      (slot : (pager.seen m.memory (translate virt).third).pageSize = false)
      (ends : Ends (pager.page2Mb virt physical flags) m m') : Built m'.memory

variable {pager} {kept : BitVec 64 → Prop} {m m' : Machine} {flags : Flags}

theorem page4Kb_tree {virt : Nat} {physical : BitVec 64} (ready : pager.Ready kept m)
    (ends : Ends (pager.page4Kb virt physical flags) m m') : pager.Tree m'.memory := by
  have outcome := page4Kb_yields ready virt physical flags
  rcases ends with ⟨page, returned⟩ | ⟨e, failed⟩
  · exact (outcome.ok returned).2.2.1.tree
  · rcases outcome.error failed with ⟨_, rfl⟩ | fails
    · exact ready.tree
    · exact fails.err.1.ready.tree

theorem page2Mb_tree {virt : Nat} {physical : BitVec 64} (ready : pager.Ready kept m)
    (slot : (pager.seen m.memory (translate virt).third).pageSize = false)
    (ends : Ends (pager.page2Mb virt physical flags) m m') : pager.Tree m'.memory := by
  have outcome := page2Mb_yields ready virt physical flags
  rcases ends with ⟨page, returned⟩ | ⟨e, failed⟩
  · obtain ⟨m₁, e, opens, here, _, replaced⟩ := (outcome.ok returned).2.2.replaced
    obtain rfl := Option.some.inj (here.symm.trans (opens.third ready.tree))
    exact replaced.tree slot
  · rcases outcome.error failed with ⟨_, rfl⟩ | ⟨_, fails | ⟨opens, _⟩⟩
    · exact ready.tree
    · exact fails.err.1.ready.tree
    · exact opens.ready.tree

theorem Built.tree {m : Memory} (built : pager.Built m) : pager.Tree m := by
  induction built with
  | fresh m fresh => exact fresh.tree
  | small m m' virt physical flags _ supplies ends tree =>
    exact page4Kb_tree (tree.ready supplies) ends
  | large m m' virt physical flags _ supplies slot ends tree =>
    exact page2Mb_tree (tree.ready supplies) slot ends

/-! ### The bits of the entries on the way -/

section Bits

variable {rw : Bool} {q r : Path} {k : Nat}

theorem Opened.seen_other (opened : pager.Opened rw flags q m m') (other : r ≠ q) :
    pager.seen m'.memory r = pager.seen m.memory r := by
  cases opened with
  | kept e before nonzero sets _ _ _ => rw [sets.seen, if_neg other]
  | linked mb zero returned adds _ _ =>
    by_cases below : ∃ j, r = j :: q
    · obtain ⟨j, rfl⟩ := below
      rw [adds.seen_below, seen, view_below_zero zero]
      rfl
    · exact adds.seen_other other fun j same => below ⟨j, same⟩

/-- An entry that is opened keeps its flags, but for `RW`, or gets those of the mapping. -/
theorem Opened.bit (opened : pager.Opened rw flags q m m') (tree : pager.Tree m'.memory)
    (low : k < 12) (mark : k ≠ 8) : (pager.seen m'.memory q).getLsbD k =
      if pager.seen m.memory q = 0 then flags.getLsbD k
      else (pager.seen m.memory q).getLsbD k || (rw && decide (k = 1)) := by
  cases opened with
  | kept e before nonzero sets _ _ _ =>
    rw [sets.seen, if_pos rfl, Entry.getLsbD_granted, seen_of_view before, if_neg nonzero]
  | linked mb zero returned adds tables _ =>
    have isFrame := tree.frames q _ ((tables q).trans (if_pos rfl))
    rw [adds.seen_here, seen_of_view zero, if_pos rfl, Entry.getLsbD_pack, isFrame.low low,
      BitVec.getLsbD_or, getLsbD_stab]
    simp [mark]

theorem Small.seen_other (small : pager.Small q flags m m') (other : r ≠ q)
    (below : ∀ j, r ≠ j :: q) : pager.seen m'.memory r = pager.seen m.memory r := by
  cases small with
  | opened _ _ _ opened => exact opened.seen_other other
  | unfolded e unfolded =>
    obtain ⟨mb, _, adds, _, _⟩ := unfolded.opened
    exact adds.seen_other other below

/-- An unfolded page passes its flags on. -/
theorem Small.bit (small : pager.Small q flags m m') (tree : pager.Tree m'.memory)
    (permission : k < 3) : (pager.seen m'.memory q).getLsbD k =
      if pager.seen m.memory q = 0 then flags.getLsbD k
      else (pager.seen m.memory q).getLsbD k := by
  cases small with
  | opened _ _ _ opened =>
    rw [opened.bit tree (by omega) (by omega), Bool.false_and, Bool.or_false]
  | unfolded e unfolded =>
    have before := unfolded.before
    have nonzero : e ≠ 0 := Entry.ne_zero_of_bit unfolded.large
    obtain ⟨mb, _, adds, tables, _⟩ := unfolded.opened
    have isFrame := tree.frames q _ ((tables q).trans (if_pos rfl))
    rw [adds.seen_here, seen_of_view before, if_neg nonzero, Entry.getLsbD_pack,
      isFrame.low (by omega), BitVec.getLsbD_or, Entry.getLsbD_smallFlags, getLsbD_stab]
    have apart : k < 12 ∧ k ≠ 7 ∧ k ≠ 8 := by omega
    simp [apart]

/-- The permissions of the tables on the way when the leaf is written. -/
theorem Reached.bits {address : Address} (reached : pager.Reached kept address flags m m')
    (permission : k < 3) :
    ((pager.seen m'.memory address.first).getLsbD k =
      if pager.seen m.memory address.first = 0 then flags.getLsbD k
      else (pager.seen m.memory address.first).getLsbD k ||
        (flags.getLsbD 1 && decide (k = 1))) ∧
    ((pager.seen m'.memory address.second).getLsbD k =
      if pager.seen m.memory address.second = 0 then flags.getLsbD k
      else (pager.seen m.memory address.second).getLsbD k ||
        (flags.getLsbD 1 && decide (k = 1))) ∧
    ((pager.seen m'.memory address.third).getLsbD k =
      if pager.seen m.memory address.third = 0 then flags.getLsbD k
      else (pager.seen m.memory address.third).getLsbD k) := by
  obtain ⟨m₁, opens, small⟩ := reached.steps
  obtain ⟨m₀, ready₀, first, second⟩ := opens.opened
  have tree₁ := opens.ready.tree
  refine ⟨?_, ?_, ?_⟩
  · rw [small.seen_other (by simp [Address.first, Address.third])
      (by simp [Address.first, Address.third]), second.seen_other (by simp [Address.first])]
    exact first.bit ready₀.tree (by omega) (by omega)
  · rw [small.seen_other (by simp [Address.second, Address.third])
      (by simp [Address.second, Address.third])]
    have bit := second.bit tree₁ (k := k) (by omega) (by omega)
    rwa [first.seen_other (by simp)] at bit
  · have bit := small.bit reached.ready.tree permission
    rwa [second.seen_other (by simp [Address.third]),
      first.seen_other (by simp [Address.third])] at bit

end Bits

/-! ### `is_suited_for` -/

private theorem getLsbD_suitedFlags (write : Bool) (mode : ExecutionMode) (k : Nat) :
    (suitedFlags write mode).getLsbD k = (decide (k = 0) || (write && decide (k = 1)) ||
      (decide (mode = .process) && decide (k = 2))) := by
  have one : (1 : Flags).getLsbD k = decide (k = 0) := getLsbD_present k
  cases write <;> cases mode <;>
    simp only [suitedFlags, if_true, if_false, Bool.false_eq_true, BitVec.getLsbD_or, one,
      getLsbD_rw, getLsbD_us, reduceCtorEq, decide_false, decide_true, Bool.false_and,
      Bool.true_and, Bool.or_false]

private theorem masked_suits {flags : Flags} {e : Entry}
    (same : ∀ k, k < 3 → flags.getLsbD k = e.getLsbD k) (write : Bool) (mode : ExecutionMode) :
    flags &&& suitedFlags write mode = suitedFlags write mode ↔ e.suits write mode = true := by
  have bits : (∀ k, (suitedFlags write mode).getLsbD k = true → flags.getLsbD k = true) ↔
      e.present = true ∧ (write = true → e.writable = true) ∧
        (mode = .process → e.user = true) := by
    simp only [getLsbD_suitedFlags, Entry.present, Entry.writable, Entry.user]
    rw [← same 0 (by decide), ← same 1 (by decide), ← same 2 (by decide)]
    constructor
    · intro sets
      exact ⟨sets 0 (by simp), fun asked => sets 1 (by simp [asked]),
        fun asked => sets 2 (by simp [asked])⟩
    · rintro ⟨present, writable, user⟩ k asked
      simp only [Bool.or_eq_true, Bool.and_eq_true, decide_eq_true_eq] at asked
      rcases asked with (rfl | ⟨write, rfl⟩) | ⟨process, rfl⟩
      · exact present
      · exact writable write
      · exact user process
  rw [masked_iff_bits, bits]
  simp only [Entry.suits, Bool.and_eq_true, Bool.or_eq_true, Bool.not_eq_true', decide_eq_true_eq,
    and_assoc]
  cases write <;> cases mode <;> simp

private theorem flags_suits (e : Entry) (write : Bool) (mode : ExecutionMode) :
    e.flags &&& suitedFlags write mode = suitedFlags write mode ↔ e.suits write mode = true :=
  masked_suits (fun k low => by simp [show k < 12 by omega]) write mode

theorem present_of_suits {e : Entry} {write : Bool} {mode : ExecutionMode}
    (suits : e.suits write mode = true) : e.present = true := by
  simp only [Entry.suits, Bool.and_eq_true] at suits
  exact suits.1.1

private theorem suited_yields (tree : pager.Tree m.memory) {virt : Nat}
    (aligned : virt % 0x1000 = 0) (write : Bool) (mode : ExecutionMode)
    (small : (pager.seen m.memory (translate virt).third).pageSize = false) :
    Yields (pager.isSuitedFor virt write mode) m
      (fun answer m' => m' = m ∧ answer =
        everyLevel (pager.seen m.memory) (translate virt) (Entry.suits write mode))
      (fun _ _ => False) := by
  unfold isSuitedFor
  rw [yields_ite, if_neg (not_not_intro aligned), yields_bind]
  refine (new_yields _ _).mono ?_ fun _ _ failed => failed
  rintro pdpt m ⟨rfl, handle₁, _⟩
  have first : pager.seen m.memory (translate virt).first = _ := seen_of_view handle₁.view
  simp only [PointerTable.readFlags, PointerTable.pageSizeActive, yields_bind, yields_load,
    yields_pure, yields_ite, handle₁.index, ne_eq, flags_suits]
  rw [← first]
  -- at each level either a flag is missing, and the answer is no, or the walk goes on
  split
  next missing => exact ⟨trivial, by simp [everyLevel, missing]⟩
  next suits₁ =>
  have suits₁ := not_not.mp suits₁
  have nonzero₁ := seen_ne_zero_of_present (present_of_suits suits₁)
  have entry₁ := handle₁.view
  rw [← first] at entry₁
  refine (instantiate_yields handle₁ (by decide) entry₁ nonzero₁ (tree.small (by decide)) _).mono ?_
    fun _ _ failed => failed
  rintro _ m ⟨rfl, pdt, rfl, handle₂, _⟩
  have second : pager.seen m.memory (translate virt).second = _ := seen_of_view handle₂.view
  simp only [yields_bind, yields_load, yields_pure, yields_ite, handle₂.index, flags_suits,
    Entry.any_pageSize]
  rw [← second]
  split
  next missing => exact ⟨trivial, by simp [everyLevel, missing]⟩
  next suits₂ =>
  have suits₂ := not_not.mp suits₂
  have nonzero₂ := seen_ne_zero_of_present (present_of_suits suits₂)
  have small₂ : (pager.seen m.memory (translate virt).second).pageSize = false :=
    tree.small (by simp)
  have entry₂ := handle₂.view
  rw [← second] at entry₂
  rw [small₂, if_neg Bool.false_ne_true]
  refine (instantiate_yields handle₂ (by simp) entry₂ nonzero₂ small₂ _).mono ?_
    fun _ _ failed => failed
  rintro _ m ⟨rfl, pt, rfl, handle₃, _⟩
  have third : pager.seen m.memory (translate virt).third = _ := seen_of_view handle₃.view
  simp only [yields_bind, yields_load, yields_pure, yields_ite, handle₃.index, flags_suits]
  rw [← third]
  split
  next missing => exact ⟨trivial, by simp [everyLevel, missing]⟩
  next suits₃ =>
  have suits₃ := not_not.mp suits₃
  have entry₃ := handle₃.view
  rw [← third] at entry₃
  have table := tableAt_of_view entry₃ (by simp)
    (seen_ne_zero_of_present (present_of_suits suits₃)) small
  have address : pt.address = (pager.seen m.memory (translate virt).third).address := by
    rw [handle₃.address, ← third]
  have fourth : pager.seen m.memory (translate virt).fourth = _ :=
    seen_of_view (view_cons table (translate virt).page)
  refine ⟨trivial, ?_⟩
  rw [address, ← fourth]
  simp only [everyLevel, suits₁, suits₂, suits₃, small, Bool.true_and, Bool.false_or]
  rw [Bool.eq_iff_iff, decide_eq_true_eq]
  exact masked_suits (fun k low => by simp [show k < 16 by omega]) write mode

/-- `is_suited_for` answers what the processor would do, unless a large page is in the way. -/
theorem isSuitedFor_eq {m : Machine} (tree : pager.Tree m.memory) {virt : Nat}
    (aligned : virt % 0x1000 = 0) (write : Bool) (mode : ExecutionMode)
    (small : (pager.seen m.memory (translate virt).third).pageSize = false) :
    pager.isSuitedFor virt write mode m = .ok (pager.permits m.memory virt write mode) m := by
  have outcome := suited_yields tree aligned write mode small
  cases ran : pager.isSuitedFor virt write mode m with
  | ok answer m' =>
    obtain ⟨rfl, rfl⟩ := outcome.ok ran
    rw [permits, (agree_seen tree (translate virt)).everyLevel fun _ => present_of_suits]
  | error s m' => exact (outcome.error ran).elim

/-! ### The permissions after `page_4_kb` -/

/-- The page is writable and accessible to the user exactly if the flags say so, and
`is_suited_for` answers what the processor would do. -/
structure Grants (pager : Pager) (m : Machine) (virt : Nat) (flags : Flags) : Prop where
  writable : pager.permits m.memory virt true .kernel = flags.any pagerRw
  user : pager.permits m.memory virt false .process = flags.any pagerUs
  reported : ∀ write mode, pager.isSuitedFor virt write mode m =
    .ok (pager.permits m.memory virt write mode) m

/-- The entry is still missing, or it is present and has the flag. -/
def Entry.passes (flag : Entry → Bool) (e : Entry) : Prop := e = 0 ∨ e.present = true ∧
    flag e = true

/-- The tables that exist already pass on what the mapping asks for. -/
structure TablesPass (pager : Pager) (m : Memory) (address : Address) (flags : Flags) : Prop where
  writable : flags.any pagerRw = true →
    Entry.passes Entry.present (pager.seen m address.first) ∧
    Entry.passes Entry.present (pager.seen m address.second) ∧
    Entry.passes Entry.writable (pager.seen m address.third)
  user : flags.any pagerUs = true →
    Entry.passes Entry.user (pager.seen m address.first) ∧
    Entry.passes Entry.user (pager.seen m address.second) ∧
    Entry.passes Entry.user (pager.seen m address.third)

private theorem suits_kernel (e : Entry) :
    e.suits true .kernel = (e.getLsbD 0 && e.getLsbD 1) := by
  simp only [Entry.suits, Bool.not_true, Bool.false_or, decide_true, Bool.true_or, Bool.and_true]
  rfl

theorem suits_process (e : Entry) :
    e.suits false .process = (e.getLsbD 0 && e.getLsbD 2) := by
  simp only [Entry.suits, Bool.not_false, Bool.true_or, reduceCtorEq, decide_false, Bool.false_or,
    Bool.and_true]
  rfl

section Levels

variable {n o : Entry} {rw : Bool} (present : flags.getLsbD 0 = true)
  (bits : ∀ k, k < 3 → n.getLsbD k =
    if o = 0 then flags.getLsbD k else o.getLsbD k || (rw && decide (k = 1)))

include present bits

/-- Where `RW` is granted on the way, the entry only has to be present. -/
theorem suits_granted (asked : flags.getLsbD 1 = true) (granted : rw = true) :
    n.suits true .kernel = true ↔ Entry.passes Entry.present o := by
  rw [suits_kernel, bits 0 (by decide), bits 1 (by decide), present, asked, granted]
  by_cases zero : o = 0
  · simp only [Entry.passes, zero, if_true, Bool.and_self, true_or]
  · simp only [Entry.passes, zero, if_false, Bool.true_and, decide_true, Bool.or_true,
      Nat.zero_ne_one, decide_false, Bool.or_false, Bool.and_true, false_or,
        Entry.present, and_self]

private theorem suits_writable (asked : flags.getLsbD 1 = true) (kept : rw = false) :
    n.suits true .kernel = true ↔ Entry.passes Entry.writable o := by
  rw [suits_kernel, bits 0 (by decide), bits 1 (by decide), present, asked, kept]
  by_cases zero : o = 0
  · simp only [Entry.passes, zero, if_true, Bool.and_self, true_or]
  · simp only [Entry.passes, zero, if_false, Bool.false_and, Bool.or_false, Bool.and_eq_true,
      false_or, Entry.present, Entry.writable]

private theorem suits_user (asked : flags.getLsbD 2 = true) :
    n.suits false .process = true ↔ Entry.passes Entry.user o := by
  rw [suits_process, bits 0 (by decide), bits 2 (by decide), present, asked]
  by_cases zero : o = 0
  · simp only [Entry.passes, zero, if_true, Bool.and_self, true_or]
  · simp only [Entry.passes, zero, if_false, Nat.zero_ne_one, OfNat.ofNat_ne_one, decide_false,
      Bool.and_false, Bool.or_false, Bool.and_eq_true, false_or, Entry.present, Entry.user]

end Levels

/-- Behind `page_4_kb` the page has the permissions of its flags exactly when the tables
that existed before pass them on. -/
theorem page4Kb_grants_iff {m m' : Machine} (built : pager.Built m.memory)
    (supplies : m.allocator.Supplies (pager.IsTable m.memory)) {virt : Nat} {physical : BitVec 64}
    {flags : Flags} (present : flags.any pagerPresent = true) {page : Page}
    (returned : pager.page4Kb virt physical flags m = .ok page m') :
    pager.Grants m' virt flags ↔ pager.TablesPass m.memory (translate virt) flags := by
  obtain ⟨_, takes, ready', m₁, reached, stored⟩ :=
    (page4Kb_yields (built.tree.ready supplies) virt physical flags).ok returned
  have same (k : Nat) (permission : k < 3) :
      (tableFlags flags).getLsbD k = flags.getLsbD k := getLsbD_tableFlags flags (by omega)
  have seen (r : Path) (apart : r ≠ (translate virt).fourth) :
      pager.seen m'.memory r = pager.seen m₁.memory r := by
    rw [stored.sets.seen, if_neg apart]
  have first := seen (translate virt).first (by simp [Address.first, Address.fourth])
  have second := seen (translate virt).second (by simp [Address.second, Address.fourth])
  have third := seen (translate virt).third (by simp [Address.third, Address.fourth])
  have fourth := (stored.sets.seen (translate virt).fourth).trans (if_pos rfl)
  obtain ⟨m₂, _, small⟩ := reached.steps
  have small := (small.third reached.ready.tree).2
  have leaf (k : Nat) (permission : k < 3) :
      (Entry.pack physical (leafFlags flags)).getLsbD k = flags.getLsbD k := by
    rw [Entry.getLsbD_pack, low_of_aligned (toNat_of_masked takes.2.1) (by omega), Bool.false_or,
      getLsbD_leafFlags flags (by omega), same k permission]
  have permits (write : Bool) (mode : ExecutionMode) : pager.permits m'.memory virt write mode =
      ((pager.seen m₁.memory (translate virt).first).suits write mode &&
        (pager.seen m₁.memory (translate virt).second).suits write mode &&
        (pager.seen m₁.memory (translate virt).third).suits write mode &&
        (Entry.pack physical (leafFlags flags)).suits write mode) := by
    rw [Pager.permits, ← (agree_seen ready'.tree (translate virt)).everyLevel
      fun _ => present_of_suits]
    simp only [everyLevel, first, second, third, fourth, small, Bool.false_or]
  have reported (write : Bool) (mode : ExecutionMode) :=
    isSuitedFor_eq ready'.tree takes.1 write mode ((congrArg Entry.pageSize third).trans small)
  have present : (tableFlags flags).getLsbD 0 = true := by
    rw [same 0 (by decide), ← Flags.any_present, present]
  have bits₁ (k : Nat) (permission : k < 3) := (reached.bits permission).1
  have bits₂ (k : Nat) (permission : k < 3) := (reached.bits permission).2.1
  have bits₃ (k : Nat) (permission : k < 3) :
      (pager.seen m₁.memory (translate virt).third).getLsbD k =
        if pager.seen m.memory (translate virt).third = 0 then (tableFlags flags).getLsbD k
        else (pager.seen m.memory (translate virt).third).getLsbD k ||
          (false && decide (k = 1)) := by
    rw [(reached.bits permission).2.2, Bool.false_and, Bool.or_false]
  have kernel : pager.permits m'.memory virt true .kernel = flags.any pagerRw ↔
      (flags.any pagerRw = true →
        Entry.passes Entry.present (pager.seen m.memory (translate virt).first) ∧
        Entry.passes Entry.present (pager.seen m.memory (translate virt).second) ∧
        Entry.passes Entry.writable (pager.seen m.memory (translate virt).third)) := by
    rw [permits, Flags.any_rw, suits_kernel (Entry.pack _ _), leaf 0 (by decide),
      leaf 1 (by decide), ← same 0 (by decide), ← same 1 (by decide), present, Bool.true_and]
    cases asked : (tableFlags flags).getLsbD 1 with
    | false => simp only [Bool.and_false, Bool.false_eq_true, false_implies]
    | true =>
      rw [Bool.and_true, Bool.and_eq_true, Bool.and_eq_true, and_assoc,
        suits_granted present bits₁ asked asked, suits_granted present bits₂ asked asked,
        suits_writable present bits₃ asked rfl]
      exact ⟨fun pass _ => pass, fun pass => pass rfl⟩
  have process : pager.permits m'.memory virt false .process = flags.any pagerUs ↔
      (flags.any pagerUs = true →
        Entry.passes Entry.user (pager.seen m.memory (translate virt).first) ∧
        Entry.passes Entry.user (pager.seen m.memory (translate virt).second) ∧
        Entry.passes Entry.user (pager.seen m.memory (translate virt).third)) := by
    rw [permits, Flags.any_us, suits_process (Entry.pack _ _), leaf 0 (by decide),
      leaf 2 (by decide), ← same 0 (by decide), ← same 2 (by decide), present, Bool.true_and]
    cases asked : (tableFlags flags).getLsbD 2 with
    | false => simp only [Bool.and_false, Bool.false_eq_true, false_implies]
    | true =>
      rw [Bool.and_true, Bool.and_eq_true, Bool.and_eq_true, and_assoc,
        suits_user present bits₁ asked, suits_user present bits₂ asked,
        suits_user present bits₃ asked]
      exact ⟨fun pass _ => pass, fun pass => pass rfl⟩
  exact ⟨fun grants => ⟨kernel.mp grants.writable, process.mp grants.user⟩,
    fun pass => ⟨kernel.mpr pass.writable, process.mpr pass.user, reported⟩⟩

/-- On a fresh pager every page has the permissions of its flags. -/
theorem page4Kb_grants_iff_plain : ∃ page m',
    plainPager.page4Kb 0x400000 0x7000 7 plainMachine = .ok page m' ∧
      plainPager.Grants m' 0x400000 7 := by
  have ran : (match plainPager.page4Kb 0x400000 0x7000 7 plainMachine with
    | .ok _ _ => true
    | .error _ _ => false) = true := by decide +kernel
  cases returned : plainPager.page4Kb 0x400000 0x7000 7 plainMachine with
  | error s m' =>
    rw [returned] at ran
    cases ran
  | ok page m' =>
    have missing (p : Path) (flag : Entry → Bool) :
        Entry.passes flag (plainPager.seen plainMachine.memory p) := by
      refine Or.inl ?_
      cases found : plainPager.view plainMachine.memory p with
      | none => rw [seen, found, Option.getD_none]
      | some e => rw [seen_of_view found, plainFresh.view found]
    exact ⟨page, m', rfl, (page4Kb_grants_iff (.fresh _ plainFresh) plainAllocator_supplies
      (by decide) returned).mpr ⟨fun _ => ⟨missing _ _, missing _ _, missing _ _⟩,
        fun _ => ⟨missing _ _, missing _ _, missing _ _⟩⟩⟩

/-- A page for the user is not accessible to the user next to a page of the kernel. -/
theorem page4Kb_not_grants : ∃ m m' page, plainPager.Built m.memory ∧
    m.allocator.Supplies (plainPager.IsTable m.memory) ∧
    plainPager.page4Kb 0x401000 0x8000 5 m = .ok page m' ∧ ¬plainPager.Grants m' 0x401000 5 := by
  have ran : (match plainPager.page4Kb 0x400000 0x7000 3 plainMachine with
    | .ok _ m =>
      (match plainPager.page4Kb 0x401000 0x8000 5 m with
      | .ok _ m' => !plainPager.permits m'.memory 0x401000 false .process
      | .error _ _ => false)
    | .error _ _ => false) = true := by decide +kernel
  cases first : plainPager.page4Kb 0x400000 0x7000 3 plainMachine with
  | error s m =>
    rw [first] at ran
    cases ran
  | ok page m =>
    have ready := (page4Kb_yields (plainFresh.tree.ready plainAllocator_supplies) _ _ _).ok first
    simp only [first] at ran
    cases second : plainPager.page4Kb 0x401000 0x8000 5 m with
    | error s m' =>
      rw [second] at ran
      cases ran
    | ok page' m' =>
      rw [second] at ran
      refine ⟨m, m', page', .small plainMachine m _ _ _ (.fresh _ plainFresh)
        plainAllocator_supplies (Or.inl ⟨page, first⟩),
        ready.2.2.1.supplies.mono fun _ used => Or.inr used, second, fun grants => ?_⟩
      have denied := (Bool.not_eq_true' _).mp ran
      rw [grants.user] at denied
      cases denied

end Pager

end EmkKernel
