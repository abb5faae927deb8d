import EmkKernel.Vfs.StringHeap

/-!
# Growth of the string allocator

What `reallocate` does to a heap. The region of the longer strings grows
at its end and nothing moves; the other regions are copied bitmap first, into one of
another length, and panic. `assign_new_offset` fails for most offsets all the same.
-/

namespace EmkKernel

open EStateM Stretch

namespace GfsStringAllocator

variable {h h' : GfsStringAllocator} {c : Fin 3} {k x : Nat} {text : Text} {r : Option Nat}

/-- The copy of a bitmap does not fit its new memory, whichever region grows. -/
theorem Laid.reallocateSlots (laid : h.Laid) (pager : Pager) (c : Fin 3) (m : Machine) :
    Yields (reallocateSlots pager h c) m (fun _ _ => False) fun _ _ => True := by
  unfold GfsStringAllocator.reallocateSlots
  rw [yields_bind]
  refine (yields_any _ m).mono (fun bytes m₁ _ => ?_) fun _ _ h => h
  rw [yields_bind, laid.lengths]
  have bits := laid.bitmaps c
  have room : slotCount c * maximumLength c / 0x1000 * growthFactor c * 0x1000 /
      maximumLength c > (h.bitmaps c).length * 8 := by
    rw [Nat.mul_comm (h.bitmaps c).length, bits]
    fin_cases c <;> decide
  have pages : (h.bitmaps c).length * growthFactor c / 0x1000 +
      (if (h.bitmaps c).length * growthFactor c % 0x1000 ≠ 0 then 1 else 0) = 1 := by
    have length : (h.bitmaps c).length = slotCount c / 8 := by omega
    rw [length]
    fin_cases c <;> decide
  unfold reallocateExpandBitmap
  simp only [room, if_true, yields_bind, pages]
  refine (yields_unwrapResult (allocZero_yields 1 m₁)).mono (fun mb m₂ length => ?_) fun _ _ h => h
  -- the bitmap has a bit for each slot, the new memory far too little room
  have short : (h.bitmaps c).length ≠ mb.length / maximumLength c / 8 := by
    rw [length]
    have : 8 * (1 % 2 ^ 16 * 0x1000 / maximumLength c / 8) ≠ slotCount c := by
      fin_cases c <;> decide
    omega
  rw [if_neg short, yields_throw]
  trivial

/-- The layout is not touched. -/
structure SameLayout (h h' : GfsStringAllocator) : Prop where
  lengths : h'.lengths = h.lengths
  bitmaps : ∀ c, (h'.bitmaps c).length = (h.bitmaps c).length
  allocator : h'.allocator = h.allocator

theorem SameLayout.laid (same : SameLayout h h') (laid : h.Laid) : h'.Laid :=
  ⟨fun c => same.lengths ▸ laid.lengths c, fun c => same.bitmaps c ▸ laid.bitmaps c⟩

theorem SameLayout.refl (h : GfsStringAllocator) : SameLayout h h := ⟨rfl, fun _ => rfl, rfl⟩

theorem SameLayout.trans {h₁ h₂ : GfsStringAllocator} (first : SameLayout h h₁)
    (second : SameLayout h₁ h₂) : SameLayout h h₂ :=
  ⟨second.lengths.trans first.lengths, fun c => (second.bitmaps c).trans (first.bitmaps c),
    second.allocator.trans first.allocator⟩

/-- The offset of a slot. -/
def IsSlot (x : Nat) : Prop := ∃ c k, k < slotCount c ∧ x = slotOffset c k

theorem IsSlot.inside (slot : IsSlot x) : x < 81920 := by
  obtain ⟨c, k, below, rfl⟩ := slot
  have inside := slot_inside below
  have limit := region_end (c := c)
  have positive := maximumLength_pos (c := c)
  rw [slotOffset]
  omega

private theorem Laid.allocate_same (laid : h.Laid) (ran : h.allocate text = .ok (r, h')) :
    SameLayout h h' ∧ ∀ offset, r = some offset → IsSlot offset := by
  cases fits : smallClass text.length with
  | some c =>
    rw [GfsStringAllocator.allocate, fits] at ran
    change h.allocateSlot c text = _ at ran
    cases found : findFree (h.bitmaps c) with
    | none =>
      rw [GfsStringAllocator.allocateSlot, found] at ran
      cases ran
      exact ⟨.refl h, fun _ none => by cases none⟩
    | some slot =>
      rw [laid.allocateSlot found] at ran
      cases ran
      refine ⟨⟨rfl, fun c' => ?_, rfl⟩, fun offset same => ?_⟩
      · simp only [stored, Function.update_apply]
        split
        next here => exact here ▸ rfl
        next => rfl
      · cases same
        exact ⟨c, _, laid.free_slot found, rfl⟩
  | none =>
    have long : 32 < text.length := by
      by_contra short
      obtain ⟨c, fits'⟩ := StringHeap.smallClass_of_short (Nat.le_of_not_lt short)
      cases fits.symm.trans fits'
    cases granted : h.allocator.allocateAsOffset (text.length + 1) with
    | error stop =>
      rw [GfsStringAllocator.allocate, fits] at ran
      simp only [allocateAbove32, granted, bind, Except.bind] at ran
      cases ran
    | ok result =>
      obtain ⟨offset, a⟩ := result
      cases offset with
      | some offset =>
        rw [allocate_long long granted] at ran
        cases ran
      | none =>
        rw [GfsStringAllocator.allocate, fits] at ran
        simp only [allocateAbove32, granted, bind, Except.bind] at ran
        cases ran
        exact ⟨.refl h, fun _ none => by cases none⟩

private theorem Laid.rename_same (laid : h.Laid) (slot : IsSlot x) {old : Nat}
    (ran : h.rename x old text = .ok (r, h')) :
    SameLayout h h' ∧ ∀ offset, r = some offset → IsSlot offset := by
  obtain ⟨c, k, below, rfl⟩ := slot
  obtain ⟨multiple, internal⟩ := laid.aligned (c := c) k
  have ran : h.renameSlot c (slotOffset c k) old text = .ok (r, h') := by
    rw [GfsStringAllocator.rename, laid.stringType below] at ran
    fin_cases c <;> exact ran
  simp only [renameSlot, multiple, internal, bind, Except.bind, ne_eq, not_true_eq_false,
    if_false] at ran
  split at ran
  · -- the string leaves its slot
    cases flipped : toggle (h.bitmaps c) (k * maximumLength c / 8) with
    | error stop => simp only [flipped] at ran; cases ran
    | ok bitmap =>
      simp only [flipped] at ran
      have same : SameLayout h { h with bitmaps := Function.update h.bitmaps c bitmap } := by
        refine ⟨rfl, fun c' => ?_, rfl⟩
        have length : bitmap.length = (h.bitmaps c).length := by
          rw [toggle] at flipped
          split at flipped <;> cases flipped
          rfl
        simp only [Function.update_apply]
        split
        next here => rw [length, here]
        next => rfl
      split at ran
      next =>
        obtain ⟨later, slots⟩ := (same.laid laid).allocate_same ran
        exact ⟨same.trans later, slots⟩
      next =>
        cases ran
        refine ⟨same, fun offset zero => ?_⟩
        cases zero
        exact ⟨0, 0, by decide, rfl⟩
  · -- only bytes change
    split at ran
    next => cases ran
    next bytes written =>
      split at ran
      next => cases ran
      next dst target =>
        split at ran
        next => cases ran
        next bytes' copied =>
          cases ran
          refine ⟨⟨rfl, fun _ => rfl, rfl⟩, fun offset same => ?_⟩
          cases same
          exact ⟨c, k, below, rfl⟩

/-! ### The region of the longer strings -/

private theorem rebaseNodes_same {a b : NodeAllocator} {oldBase newBase i n : Nat}
    (ran : a.rebaseNodes oldBase newBase i n = .ok b) : b.fake = a.fake := by
  induction n generalizing a i with
  | zero =>
    cases ran
    rfl
  | succ n ih =>
    simp only [NodeAllocator.rebaseNodes, bind, Except.bind] at ran
    split at ran
    next => cases ran
    next =>
      have same := ih ran
      exact same

private theorem extend_same {a b : NodeAllocator} {data : MemoryBlock}
    (ran : a.extend data = .ok b) :
    b.fake = a.fake ∧ b.dataMemory = data := by
  simp only [NodeAllocator.extend, bind, Except.bind] at ran
  split at ran
  next => cases ran
  next rebased moved =>
    split at ran
    next => cases ran
    next =>
      split at ran
      next => cases ran
      next =>
        cases ran
        have same := rebaseNodes_same moved
        exact ⟨same, rfl⟩

theorem reallocate_window (pager : Pager) {a : NodeAllocator} (fake : a.fake = true) (growth : Nat)
    (m : Machine) : Yields (NodeAllocator.reallocate pager a growth) m
      (fun b _ => b.fake = true ∧ b.dataMemory.base = a.dataMemory.base) fun _ _ => True := by
  have memory : Yields (NodeAllocator.growMemory pager a growth) m
      (fun data _ => data.base = a.dataMemory.base) fun _ _ => True := by
    unfold NodeAllocator.growMemory
    rw [yields_bind]
    refine (yields_any _ m).mono (fun _ m₁ _ => ?_) fun _ _ h => h
    rw [yields_bind]
    refine (yields_any _ m₁).mono (fun _ m₂ _ => ?_) fun _ _ h => h
    rw [if_pos fake, yields_bind]
    refine (yields_any _ m₂).mono (fun _ m₃ _ => ?_) fun _ _ h => h
    rw [yields_pure]
  unfold NodeAllocator.reallocate
  rw [yields_bind]
  refine memory.mono (fun data m₁ base => ?_) fun _ _ h => h
  rw [yields_bind]
  cases ran : a.extend data with
  | error stop => trivial
  | ok b =>
    obtain ⟨same, there⟩ := extend_same ran
    simp only [liftExcept, yields_pure, fake, if_true]
    exact ⟨same.trans fake, by rw [there, base]⟩

/-- The regions are in place and the window of the longer strings lies behind them. -/
structure Anchored (h : GfsStringAllocator) : Prop where
  laid : h.Laid
  fake : h.allocator.fake = true
  behind : gfsStringsFixedVaddr + 81920 ≤ h.allocator.dataMemory.base

/-- What a growth that returns leaves as it was. -/
structure Grown (h h' : GfsStringAllocator) : Prop where
  anchored : h'.Anchored
  bitmaps : h'.bitmaps = h.bitmaps
  bytes : ∀ a < gfsStringsFixedVaddr + 81920, h'.bytes a = h.bytes a

theorem Anchored.windowGrown (anchored : h.Anchored) {a : Nat}
    (inside : a < gfsStringsFixedVaddr + 81920) :
    GfsStringAllocator.windowGrown h.allocator 2 h.bytes a = h.bytes a := by
  have behind := anchored.behind
  rcases pages : h.allocator.grownPages 2 with stop | n
  · simp only [GfsStringAllocator.windowGrown, pages]
  · cases n with
    | zero => simp only [GfsStringAllocator.windowGrown, pages]
    | succ n =>
      simp only [GfsStringAllocator.windowGrown, pages, anchored.fake, if_true]
      exact fill_outside (Or.inl (by omega))

theorem Anchored.grown (anchored : h.Anchored) {pager : Pager} {string : Text} {m m' : Machine}
    {info : GfsStringAllocatorReallocationInfo}
    (ran : reallocate pager h string m = .ok (info, h') m') :
    info = reallocationInfo h h ∧ Grown h h' := by
  have outcome : Yields (reallocate pager h string) m
      (fun result _ => result.1 = reallocationInfo h h ∧ Grown h result.2) fun _ _ => True := by
    unfold reallocate
    split
    next c fits =>
      exact (anchored.laid.reallocateSlots pager c m).mono (fun _ _ none => none.elim)
        fun _ _ h => h
    next =>
      rw [yields_bind]
      refine (reallocate_window pager anchored.fake 2 m).mono (fun b m₁ ⟨fake, base⟩ => ?_)
        fun _ _ h => h
      rw [yields_pure]
      refine ⟨rfl, ⟨⟨fun c => ?_, anchored.laid.bitmaps⟩, fake, ?_⟩, rfl, fun a inside => ?_⟩
      · have other : c.castSucc ≠ 3 := by fin_cases c <;> decide
        exact (Function.update_of_ne other ..).trans (anchored.laid.lengths c)
      · exact anchored.behind.trans_eq base.symm
      · exact anchored.windowGrown inside
  exact outcome.ok ran

/-- Below the region of the longer strings an offset is kept or the translation panics. -/
theorem Laid.assignNewOffset (laid : h.Laid) (inside : x < 81920) :
    (reallocationInfo h h).assignNewOffset x =
      if h.Translated x then .ok x else .error .panic := by
  have one : h.regionOffset 1 = 32768 := laid.regionOffset 1
  have two : h.regionOffset 2 = 65536 := laid.regionOffset 2
  simp only [GfsStringAllocatorReallocationInfo.assignNewOffset, reallocationInfo, Translated, one,
    two, laid.regionOffset_above, asU32, Nat.reducePow, Nat.reduceMod, bind, Except.bind,
    checkedSub, checkedAdd32]
  rcases Nat.lt_trichotomy x 32768 with low | rfl | high
  · rw [if_pos low, if_pos (by omega)]
  · rfl
  · rw [if_neg (by omega), if_neg (by omega)]
    rcases Nat.lt_trichotomy x 65536 with below | rfl | above
    · rw [if_pos (by omega), if_neg (by omega), if_neg (by omega)]
    · rfl
    · rw [if_neg (by omega), if_neg (by omega), if_neg (by omega)]

end GfsStringAllocator

/-! ### Runs with growth -/

/-- A string heap and the machine it takes memory from. -/
structure GrowingHeap where
  machine : Machine
  heap : StringHeap

inductive GrowthRequest where
  | use (r : StringRequest)
  | grow (string : Text)
  deriving DecidableEq, Repr

namespace GrowingHeap

open GfsStringAllocator Requests

/-- The strings at their new offsets. -/
def translate (info : GfsStringAllocatorReallocationInfo) (live : List (Nat × Text)) :
    Option (List (Nat × Text)) :=
  live.mapM fun e => (info.assignNewOffset e.1).toOption.map (·, e.2)

/-- Serve a request; a panic ends the run. After a growth the callers translate the
offsets of their strings. -/
def serve (pager : Pager) (s : GrowingHeap) : GrowthRequest → Option GrowingHeap
  | .use r => (s.heap.serve r).map fun heap => { s with heap }
  | .grow string =>
    match reallocate pager s.heap.strings string s.machine with
    | .ok (info, h) m => (translate info s.heap.live).map fun live => ⟨m, h, live⟩
    | .error _ _ => none

def Permits (s : GrowingHeap) : GrowthRequest → Prop
  | .use r => s.heap.Permits r
  | .grow _ => True

instance (s : GrowingHeap) : (r : GrowthRequest) → Decidable (s.Permits r)
  | .use r => inferInstanceAs (Decidable (s.heap.Permits r))
  | .grow _ => inferInstanceAs (Decidable True)

/-- A slot with this offset is reported used. -/
def Marked (h : GfsStringAllocator) (x : Nat) : Prop :=
  ∃ c k, k < 8 * (h.bitmaps c).length ∧ (h.bitmaps c).used k = true ∧
    x = h.regionOffset c.castSucc + k * maximumLength c

/-- At its new offset every string is read as it was at its old one, no two strings
have one new offset, and the slots reported used are the old ones at their new place. -/
structure PreservesStrings (s : StringHeap) (info : GfsStringAllocatorReallocationInfo)
    (h : GfsStringAllocator) : Prop where
  texts : ∀ e ∈ s.live, ∃ x, info.assignNewOffset e.1 = .ok x ∧
    h.asString x = s.strings.asString e.1
  injective : ∀ e ∈ s.live, ∀ f ∈ s.live, ∀ x, info.assignNewOffset e.1 = .ok x →
    info.assignNewOffset f.1 = .ok x → e.1 = f.1
  marked : ∀ x, Marked h x ↔ ∃ old, Marked s.strings old ∧ info.assignNewOffset old = .ok x

/-- The allocator is where `new` put it and the strings held lie in slots. -/
structure Reached (s : StringHeap) : Prop where
  anchored : s.strings.Anchored
  slots : ∀ e ∈ s.live, IsSlot e.1

variable {s s' : GrowingHeap} {heap heap' : StringHeap} {h h' : GfsStringAllocator} {pager : Pager}
  {info : GfsStringAllocatorReallocationInfo} {string : Text}

private theorem SameLayout.anchored (same : SameLayout h h') (anchored : h.Anchored) :
    h'.Anchored :=
  ⟨same.laid anchored.laid, same.allocator ▸ anchored.fake, same.allocator ▸ anchored.behind⟩

theorem Reached.use (reached : Reached heap) {r : StringRequest} (permits : heap.Permits r)
    (served : heap.serve r = some heap') : Reached heap' := by
  obtain ⟨anchored, slots⟩ := reached
  have erased (e : Nat × Text) : ∀ f ∈ heap.live.erase e, IsSlot f.1 :=
    fun f member => slots f (List.mem_of_mem_erase member)
  cases r with
  | allocate string =>
    simp only [StringHeap.serve] at served
    split at served <;> cases served
    next offset strings ran =>
      obtain ⟨same, slot⟩ := anchored.laid.allocate_same ran
      exact ⟨SameLayout.anchored same anchored, List.forall_mem_cons.mpr ⟨slot offset rfl, slots⟩⟩
    next strings ran =>
      exact ⟨SameLayout.anchored (anchored.laid.allocate_same ran).1 anchored, slots⟩
  | rename e newData =>
    simp only [StringHeap.serve] at served
    split at served <;> cases served
    next offset strings ran =>
      obtain ⟨same, slot⟩ := anchored.laid.rename_same (slots e permits.1) ran
      exact ⟨SameLayout.anchored same anchored,
        List.forall_mem_cons.mpr ⟨slot offset rfl, erased e⟩⟩
    next strings ran =>
      exact ⟨SameLayout.anchored (anchored.laid.rename_same (slots e permits.1) ran).1 anchored,
        slots⟩
  | free e =>
    simp only [StringHeap.serve, GfsStringAllocator.free, bind, Except.bind] at served
    split at served <;> cases served
    next strings ran =>
      split at ran <;> cases ran
      next result ran =>
        exact ⟨SameLayout.anchored (anchored.laid.rename_same (slots e permits) ran).1 anchored,
          erased e⟩

theorem translate_eq (laid : h.Laid) {live live' : List (Nat × Text)}
    (slots : ∀ e ∈ live, IsSlot e.1)
    (translated : translate (reallocationInfo h h) live = some live') : live' = live := by
  induction live generalizing live' with
  | nil =>
    cases translated
    rfl
  | cons e rest ih =>
    obtain ⟨slot, slots⟩ := List.forall_mem_cons.mp slots
    rw [translate, List.mapM_cons, laid.assignNewOffset slot.inside] at translated
    obtain ⟨f, first, translated⟩ := Option.bind_eq_some_iff.mp translated
    obtain ⟨rest', later, same⟩ := Option.bind_eq_some_iff.mp translated
    cases same
    rw [ih slots later]
    split at first <;> cases first
    rfl

theorem Reached.serve (reached : Reached s.heap) {r : GrowthRequest} (permits : s.Permits r)
    (served : s.serve pager r = some s') : Reached s'.heap := by
  cases r with
  | use r =>
    obtain ⟨heap, used, same⟩ := Option.map_eq_some_iff.mp served
    cases same
    exact reached.use permits used
  | grow string =>
    simp only [GrowingHeap.serve] at served
    split at served
    next info strings m ran =>
      obtain ⟨live, translated, same⟩ := Option.map_eq_some_iff.mp served
      cases same
      obtain ⟨rfl, grown⟩ := reached.anchored.grown ran
      exact ⟨grown.anchored, translate_eq reached.anchored.laid reached.slots translated ▸
        reached.slots⟩
    next => cases served

private theorem reached_of_new {bytes : Nat → Byte} {m m' : Machine}
    (made : GfsStringAllocator.new bytes m = .ok h m') : Reached ⟨h, []⟩ := by
  obtain ⟨laid, _, _, fake, memory⟩ := StringHeap.new_layout made
  refine ⟨⟨laid, fake, ?_⟩, fun e member => ?_⟩
  · rw [memory]
    exact Nat.add_le_add_left (by decide) _
  · cases member

private theorem marked_inside (laid : h.Laid) {x : Nat} (marked : Marked h x) : x < 81920 := by
  obtain ⟨c, k, below, _, rfl⟩ := marked
  rw [laid.bitmaps] at below
  rw [laid.regionOffset]
  exact IsSlot.inside ⟨c, k, below, rfl⟩

private theorem marked_grown (laid : h.Laid) (grown : Grown h h') (x : Nat) :
    Marked h' x ↔ Marked h x := by
  simp only [Marked, grown.bitmaps, grown.anchored.laid.regionOffset, laid.regionOffset]

private theorem asString_grown (laid : h.Laid) (grown : Grown h h') {x : Nat} (slot : IsSlot x) :
    h'.asString x = h.asString x := by
  obtain ⟨c, k, below, rfl⟩ := slot
  have limit := region_end (c := c)
  have inside := slot_inside below
  rw [laid.asString below, grown.anchored.laid.asString below]
  refine congrArg (fun cells => Except.ok (List.takeWhile _ cells)) (read_congr fun j within => ?_)
  refine grown.bytes _ ?_
  simp only [slotAddress, slotOffset]
  omega

/-- After a growth in a state that any run reaches, the strings and the marked slots
are found at their new offsets exactly when each of these offsets is one that
`assign_new_offset` translates. -/
theorem stringGrowth_preserves_iff {bytes : Nat → Byte} {m m' m'' : Machine}
    (made : GfsStringAllocator.new bytes m = .ok h m')
    (run : Run (serve pager) Permits ⟨m', h, []⟩ s)
    (grown : reallocate pager s.heap.strings string s.machine = .ok (info, h') m'') :
    PreservesStrings s.heap info h' ↔
      ∀ x, (x ∈ s.heap.live.map Prod.fst ∨ Marked s.heap.strings x) →
        s.heap.strings.Translated x := by
  have reached : Reached s.heap := run.keeps (I := fun s => Reached s.heap) (reached_of_new made)
    fun _ _ _ reached permits served => reached.serve permits served
  have laid := reached.anchored.laid
  obtain ⟨rfl, kept⟩ := reached.anchored.grown grown
  have translated {x y : Nat} (inside : x < 81920)
      (assigned : (reallocationInfo s.heap.strings s.heap.strings).assignNewOffset x = .ok y) :
      s.heap.strings.Translated x ∧ x = y := by
    rw [laid.assignNewOffset inside] at assigned
    split at assigned <;> cases assigned
    exact ⟨by assumption, rfl⟩
  constructor
  · intro preserves x held
    rcases held with live | marked
    · obtain ⟨e, member, rfl⟩ := List.mem_map.mp live
      obtain ⟨y, assigned, _⟩ := preserves.texts e member
      exact (translated (reached.slots e member).inside assigned).1
    · -- a marked slot is the new place of a marked slot
      obtain ⟨old, before, assigned⟩ :=
        (preserves.marked x).mp ((marked_grown laid kept x).mpr marked)
      obtain ⟨holds, rfl⟩ := translated (marked_inside laid before) assigned
      exact holds
  · intro holds
    have assigned {x : Nat} (inside : x < 81920) (fits : s.heap.strings.Translated x) :
        (reallocationInfo s.heap.strings s.heap.strings).assignNewOffset x = .ok x := by
      rw [laid.assignNewOffset inside, if_pos fits]
    refine ⟨fun e member => ⟨e.1, assigned (reached.slots e member).inside
      (holds _ (.inl (List.mem_map_of_mem member))), asString_grown laid kept
        (reached.slots e member)⟩, fun e first f second x newE newF => ?_, fun x => ?_⟩
    · obtain ⟨_, rfl⟩ := translated (reached.slots e first).inside newE
      obtain ⟨_, same⟩ := translated (reached.slots f second).inside newF
      exact same.symm
    · rw [marked_grown laid kept]
      refine ⟨fun marked => ⟨x, marked, assigned (marked_inside laid marked)
        (holds x (.inr marked))⟩, fun ⟨old, marked, new⟩ => ?_⟩
      obtain ⟨_, rfl⟩ := translated (marked_inside laid marked) new
      exact marked

section Samples

open Pager StringHeap

/-- The requests served by a new allocator over a window of zeros, and a growth for
a longer string after them. -/
def growNew (rs : List GrowthRequest) :
    Option (GrowingHeap × GfsStringAllocatorReallocationInfo × GfsStringAllocator) :=
  match GfsStringAllocator.new (fun _ => 0) plainMachine with
  | .ok h m =>
    (serveAll (serve plainPager) Permits ⟨m, h, []⟩ rs).bind fun s =>
      match reallocate plainPager s.heap.strings (repeated 33 97) s.machine with
      | .ok (info, h) _ => some (s, info, h)
      | .error _ _ => none
  | .error _ _ => none

private theorem growNew_run {rs : List GrowthRequest} (ran : growNew rs = some (s, info, h')) :
    ∃ h m m', GfsStringAllocator.new (fun _ => 0) plainMachine = .ok h m ∧
      serveAll (serve plainPager) Permits ⟨m, h, []⟩ rs = some s ∧
      reallocate plainPager s.heap.strings (repeated 33 97) s.machine = .ok (info, h') m' := by
  unfold growNew at ran
  split at ran
  next h m made =>
    obtain ⟨s₁, served, ran⟩ := Option.bind_eq_some_iff.mp ran
    split at ran
    next info' h₁ m₁ grown =>
      cases ran
      exact ⟨h, m, m₁, made, served, grown⟩
    next => cases ran
  next => cases ran

theorem findFree_clear {bitmap : ByteMap} (clear : ∀ i, bitmap.entries i = 0)
    (some : 0 < bitmap.length) : findFree bitmap = Option.some (0, 0) := by
  obtain ⟨n, length⟩ := Nat.exists_eq_succ_of_ne_zero some.ne'
  have cells : List.range n.succ = 0 :: (List.range n).map Nat.succ := List.range_succ_eq_map
  rw [findFree, length, cells, List.findSome?_cons, clear]
  rfl

/-- One string of four bytes is stored before the growth. -/
theorem stringGrowth_preserves_plain : ∃ h m m' s info h',
    GfsStringAllocator.new (fun _ => 0) plainMachine = .ok h m ∧
      Run (serve plainPager) Permits ⟨m, h, []⟩ s ∧
      reallocate plainPager s.heap.strings (repeated 33 97) s.machine = .ok (info, h') m' ∧
      s.heap.live = [(0, repeated 4 97)] ∧ PreservesStrings s.heap info h' := by
  have ran : (growNew [.use (.allocate (repeated 4 97))]).map (fun r => r.1.heap.live) =
      some [(0, repeated 4 97)] := by decide +kernel
  obtain ⟨⟨s, info, h'⟩, ran, live⟩ := Option.map_eq_some_iff.mp ran
  obtain ⟨h, m, m', made, served, grown⟩ := growNew_run ran
  have run := serveAll_run served
  refine ⟨h, m, m', s, info, h', made, run, grown, live,
    (stringGrowth_preserves_iff made run grown).mpr fun x held => ?_⟩
  obtain ⟨laid, _, clear, _⟩ := new_layout made
  have bits := laid.bitmaps 0
  -- the first slot is the one that is marked
  have found := findFree_clear (clear 0) (by simp only [slotCount] at bits; omega)
  have stored : s = ⟨m, h.stored 0 0 0 (repeated 4 97), [(0, repeated 4 97)]⟩ := by
    have valid : Valid (repeated 4 97) := by decide
    have first : h.allocate (repeated 4 97) = .ok (some 0, h.stored 0 0 0 (repeated 4 97)) :=
      laid.allocateSlot found
    simp only [serveAll, Permits, StringHeap.Permits, valid, if_true, serve,
      StringHeap.serve, first,
      Option.map_some, Option.bind_some, Option.some.injEq] at served
    exact served.symm
  have zero : x = 0 := by
    rcases held with member | ⟨c, k, below, used, rfl⟩
    · rw [show s.heap.live = _ from live] at member
      exact List.mem_singleton.mp member
    · rw [stored] at used
      simp only [GfsStringAllocator.stored, Function.update_apply] at used
      split at used
      next here =>
        subst here
        rw [ByteMap.used_mark (by decide), ByteMap.used, clear, Bool.or_eq_true] at used
        have first : k = 0 := by simpa using used
        subst first
        rfl
      next =>
        rw [ByteMap.used, clear] at used
        simp at used
  exact Or.inl (zero ▸ Nat.zero_le _)

/-- The offset of the second string of its region cannot be translated. -/
theorem stringGrowth_not_preserves : ∃ h m m' s info h',
    GfsStringAllocator.new (fun _ => 0) plainMachine = .ok h m ∧
      Run (serve plainPager) Permits ⟨m, h, []⟩ s ∧
      reallocate plainPager s.heap.strings (repeated 33 97) s.machine = .ok (info, h') m' ∧
      ¬PreservesStrings s.heap info h' := by
  have ran : (growNew [.use (.allocate (repeated 9 97)), .use (.allocate (repeated 9 98))]).map
      (fun r => (r.1.heap.live, (r.2.1.assignNewOffset 32784).toOption)) =
      some ([(32784, repeated 9 98), (32768, repeated 9 97)], none) := by decide +kernel
  obtain ⟨⟨s, info, h'⟩, ran, outcome⟩ := Option.map_eq_some_iff.mp ran
  obtain ⟨live, panics⟩ := Prod.mk.inj outcome
  obtain ⟨h, m, m', made, served, grown⟩ := growNew_run ran
  refine ⟨h, m, m', s, info, h', made, serveAll_run served, grown, fun preserves => ?_⟩
  obtain ⟨x, assigned, _⟩ := preserves.texts (32784, repeated 9 98) (live ▸ List.mem_cons_self ..)
  rw [assigned] at panics
  cases panics

end Samples

end GrowingHeap

end EmkKernel
