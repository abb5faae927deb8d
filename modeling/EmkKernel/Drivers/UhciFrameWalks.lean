import EmkKernel.Drivers.UhciFrameList
import EmkKernel.Library.Trails
import Mathlib.Data.List.Perm.Subperm

/-!
# The lists of the frames

A queue head is linked from many frames but has one link. It is put behind a place of one
frame; the lists of the other frames that pass it go on as the new list does.
-/

namespace EmkKernel

open Trails WordFields

namespace UhciFrameList

variable {list : UhciFrameList} {qh value link : BitVec 32} {place p : FramePlace}
  {frame g : Nat} {l l' tail : List FramePlace}

/-- An aligned address that is not null. -/
structure IsHead (qh : BitVec 32) : Prop where
  aligned : ∀ i < 4, qh.getLsbD i = false
  nonzero : qh ≠ 0

/-- The queue head that a pointer of the controller points at. -/
def target (value : BitVec 32) : Option FramePlace :=
  if terminates value then none else some (.head (pointer value))

/-- The link of a place. -/
def next (list : UhciFrameList) (place : FramePlace) : Option FramePlace := target (list.read place)

/-- From the root of a frame the links lead through the places to the end. -/
def Trail (list : UhciFrameList) (frame : Nat) (l : List FramePlace) : Prop :=
  Leads list.next (some (.root frame)) l none

/-- The controller comes to the queue head from a frame. -/
def Passes (list : UhciFrameList) (frame : Nat) (place : FramePlace) : Prop :=
  ∃ l, list.Trail frame l ∧ place ∈ l

/-! ### Words -/

private theorem getLsbD_pointer (value : BitVec 32) {i : Nat} (inside : i < 32) :
    (pointer value).getLsbD i = (decide (4 ≤ i) && value.getLsbD i) :=
  getLsbD_and_not_low value inside

private theorem getLsbD_setQueueHeadLink (link value : BitVec 32) {i : Nat} (inside : i < 32) :
    (setQueueHeadLink link value).getLsbD i =
      if i = 0 ∨ i = 1 ∨ 4 ≤ i then value.getLsbD i else link.getLsbD i := by
  have low : ∀ i < 32, (0xF#32).getLsbD i = decide (i < 4) := by decide
  rw [setQueueHeadLink, getLsbD_setBit _ _ inside, getLsbD_setBit _ _ inside, BitVec.getLsbD_or,
    getLsbD_pointer _ inside, getLsbD_pointer _ inside, BitVec.getLsbD_and, low i inside]
  by_cases zero : i = 0
  · simp [zero, terminates]
  · by_cases one : i = 1
    · simp [one]
    · by_cases high : 4 ≤ i
      · have above : ¬i < 4 := Nat.not_lt.mpr high
        simp [zero, one, high, above]
      · have below : i < 4 := Nat.lt_of_not_le high
        simp [zero, one, high, below]

@[simp] theorem terminates_setQueueHeadLink :
    terminates (setQueueHeadLink link value) = terminates value := by
  rw [terminates, getLsbD_setQueueHeadLink _ _ (by decide)]
  rfl

@[simp] theorem pointer_setQueueHeadLink :
    pointer (setQueueHeadLink link value) = pointer value := by
  apply BitVec.eq_of_getLsbD_eq
  intro i inside
  rw [getLsbD_pointer _ inside, getLsbD_pointer _ inside, getLsbD_setQueueHeadLink _ _ inside]
  by_cases high : 4 ≤ i
  · rw [if_pos (Or.inr (Or.inr high))]
  · rw [decide_eq_false high, Bool.false_and, Bool.false_and]

private theorem target_setQueueHeadLink : target (setQueueHeadLink link value) = target value := by
  rw [target, target, terminates_setQueueHeadLink, pointer_setQueueHeadLink]

private theorem target_link (head : IsHead qh) : target (qh ||| 2#32) = some (.head qh) := by
  have two : ∀ i < 32, (2#32).getLsbD i = decide (i = 1) := by decide
  have zero : terminates (qh ||| 2#32) = false := by
    rw [terminates, BitVec.getLsbD_or, head.aligned 0 (by decide), two 0 (by decide)]
    rfl
  have same : pointer (qh ||| 2#32) = qh := by
    apply BitVec.eq_of_getLsbD_eq
    intro i inside
    rw [getLsbD_pointer _ inside, BitVec.getLsbD_or, two i inside]
    by_cases high : 4 ≤ i
    · rw [decide_eq_true high, decide_eq_false (by omega), Bool.or_false, Bool.true_and]
    · rw [decide_eq_false high, Bool.false_and]
      exact (head.aligned i (Nat.lt_of_not_le high)).symm
  rw [target, zero, same]
  rfl

/-! ### Insertion -/

@[simp] theorem read_write_self : (list.write value p).read p = value := by
  cases p <;> exact Function.update_self ..

private theorem read_write_of_ne {q : FramePlace} (other : q ≠ p) :
    (list.write value p).read q = list.read q := by
  cases p <;> cases q
  · exact Function.update_of_ne (fun same => other (congrArg FramePlace.root same)) ..
  · rfl
  · rfl
  · exact Function.update_of_ne (fun same => other (congrArg FramePlace.head same)) ..

private theorem read_insert (q : FramePlace) : (list.insert qh place).read q =
    if q = place then qh ||| 2#32
    else if q = .head qh then setQueueHeadLink (list.links qh) (list.read place)
    else list.read q := by
  rw [insert]
  by_cases here : q = place
  · rw [if_pos here, here, read_write_self]
  · rw [if_neg here, read_write_of_ne here]
    by_cases own : q = .head qh
    · rw [if_pos own, own, read_write_self]
    · rw [if_neg own, read_write_of_ne own]

/-- The links after `append_qh`. -/
theorem next_insert (head : IsHead qh) :
    (list.insert qh place).next = insertAfter list.next place (.head qh) := by
  funext q
  rw [next, read_insert, insertAfter]
  by_cases here : q = place
  · rw [if_pos here, target_link head, here, Function.update_self]
  · rw [if_neg here, Function.update_of_ne here]
    by_cases own : q = .head qh
    · rw [if_pos own, target_setQueueHeadLink, own, Function.update_self]
      rfl
    · rw [if_neg own, Function.update_of_ne own]
      rfl

/-- What a list passes after the insertion: nothing is lost but what was behind the queue head
and is not behind the place. -/
theorem Trail.insert (trail : list.Trail g l) (head : IsHead qh) (different : place ≠ .head qh)
    (behind : Leads list.next (list.next place) tail none) (absent : .head qh ∉ tail) :
    ∃ l', (list.insert qh place).Trail g l' ∧ (.head qh ∈ l' ↔ place ∈ l ∨ .head qh ∈ l) ∧
      (∀ q ∈ l', q ∈ l ∨ q = .head qh ∨ q ∈ tail) ∧
      ∀ q ∈ l, q ∈ l' ↔ ∀ front back, l = front ++ .head qh :: back → q ∈ back → q ∈ tail := by
  simp only [Trail, next_insert head]
  by_cases linked : .head qh ∈ l
  · obtain ⟨front, back, rfl⟩ := List.append_of_mem linked
    have nodup := trail.nodup
    refine ⟨_, trail.relink different behind absent, ?_, fun q member => ?_, fun q member => ?_⟩
    · exact iff_of_true (List.mem_append_right front List.mem_cons_self) (Or.inr linked)
    · rcases List.mem_append.mp member with before | rest
      · exact Or.inl (List.mem_append_left _ before)
      · exact Or.inr (List.mem_cons.mp rest)
    · -- a list has one end behind the queue head
      have same (front' back') (split : front ++ .head qh :: back = front' ++ .head qh :: back') :
          back = back' := by
        have trail' := trail
        rw [split] at trail'
        exact Leads.unique trail.behind trail'.behind
      constructor
      · intro kept front' back' split inside
        rw [← same front' back' split] at inside
        rcases List.mem_append.mp kept with before | rest
        · exact absurd (List.mem_cons_of_mem _ inside)
            (List.disjoint_of_nodup_append nodup before)
        · refine (List.mem_cons.mp rest).resolve_left fun own => ?_
          exact (List.nodup_cons.mp (List.nodup_append.mp nodup).2.1).1 (own ▸ inside)
      · intro kept
        rcases List.mem_append.mp member with before | rest
        · exact List.mem_append_left _ before
        · refine List.mem_append_right _ (List.mem_cons.mpr ?_)
          exact (List.mem_cons.mp rest).imp id (kept front back rfl)
  · have all (q) (_ : q ∈ l) :
        ∀ front back, l = front ++ .head qh :: back → q ∈ back → q ∈ tail := by
      rintro front back rfl
      exact absurd (List.mem_append_right front List.mem_cons_self) linked
    by_cases here : place ∈ l
    · refine ⟨_, Leads.insert trail linked different, ?_, fun q member => ?_, fun q member => ?_⟩
      · exact iff_of_true (mem_splice.mpr (Or.inr ⟨rfl, here⟩)) (Or.inl here)
      · exact (mem_splice.mp member).imp id fun new => Or.inl new.1
      · exact iff_of_true (mem_splice.mpr (Or.inl member)) (all q member)
    · refine ⟨l, trail.congr fun q member => ?_, ?_, fun q => Or.inl, fun q member => ?_⟩
      · have other : q ≠ place := ne_of_mem_of_not_mem member here
        have own : q ≠ .head qh := ne_of_mem_of_not_mem member linked
        rw [insertAfter, Function.update_of_ne other, Function.update_of_ne own]
      · exact iff_of_false linked (not_or.mpr ⟨here, linked⟩)
      · exact iff_of_true member (all q member)

/-! ### The walk -/

/-- What the walk needs of a place: where a list ends, the pointer is null. -/
structure Fine (list : UhciFrameList) (p : FramePlace) : Prop where
  isHead : ∀ h, p = .head h → IsHead h
  clean : terminates (list.read p) = true → pointer (list.read p) = 0

theorem findPrevious_spec (transferType : UsbTransferType) {rest : List FramePlace} {n : Nat}
    {previous current : BitVec 32} (head : IsHead qh)
    (leads : Leads list.next (target current) rest none)
    (clean : terminates current = true → pointer current = 0) (fine : ∀ p ∈ rest, list.Fine p)
    (enough : rest.length < n)
    (before : pointer previous = pointer current ∨ pointer previous ≠ qh) :
    ∃ r, list.findPrevious qh transferType n previous current = some r ∧
      (r = none → .head qh ∈ rest) ∧
      ∀ x, r = some x → x ≠ qh ∧ (x = pointer previous ∨ .head x ∈ rest) := by
  induction rest generalizing n previous current with
  | nil =>
    -- at the end the pointer is null, so it is not taken for the queue head
    obtain ⟨n, rfl⟩ := Nat.exists_eq_succ_of_ne_zero (Nat.ne_of_gt enough)
    have ends : terminates current = true := by
      by_contra goes
      rw [leads_nil, target, if_neg goes] at leads
      cases leads
    have null : pointer current ≠ qh := fun same => head.nonzero (same.symm.trans (clean ends))
    have stop : list.stops transferType current = true := by
      unfold stops
      rw [ends, Bool.true_or]
    rw [findPrevious, if_neg null, if_pos stop]
    refine ⟨_, rfl, nofun, fun x same => ?_⟩
    cases same
    exact ⟨before.elim (fun equal => equal ▸ null) id, Or.inl rfl⟩
  | cons q rest ih =>
    obtain ⟨n, rfl⟩ := Nat.exists_eq_succ_of_ne_zero (Nat.ne_of_gt (Nat.zero_lt_of_lt enough))
    obtain ⟨here, behind⟩ := leads
    have goes : terminates current = false := by
      by_contra ends
      rw [target, if_pos (Bool.eq_true_of_not_eq_false ends)] at here
      cases here
    obtain rfl : FramePlace.head (pointer current) = q := by
      rw [target, goes] at here
      exact Option.some.inj here
    rw [findPrevious]
    by_cases found : pointer current = qh
    · rw [if_pos found]
      exact ⟨_, rfl, fun _ => found ▸ List.mem_cons_self, nofun⟩
    · rw [if_neg found]
      by_cases stop : list.stops transferType current = true
      · rw [if_pos stop]
        refine ⟨_, rfl, nofun, fun x same => ?_⟩
        cases same
        exact ⟨before.elim (fun equal => equal ▸ found) id, Or.inl rfl⟩
      · rw [if_neg stop]
        have first := fine _ List.mem_cons_self
        have before' : pointer current = pointer (list.links (pointer current)) ∨
          pointer current ≠ qh := Or.inr found
        obtain ⟨r, ran, none, some⟩ := ih behind first.clean
          (fun p member => fine p (List.mem_cons_of_mem _ member))
          (Nat.lt_of_succ_lt_succ enough) before'
        refine ⟨r, ran, fun same => List.mem_cons_of_mem _ (none same), fun x same => ?_⟩
        obtain ⟨other, place⟩ := some x same
        refine ⟨other, Or.inr ?_⟩
        rcases place with rfl | later
        · exact List.mem_cons_self
        · exact List.mem_cons_of_mem _ later

theorem length_heads {hs : List (BitVec 32)} (nodup : hs.Nodup) (heads : ∀ h ∈ hs, IsHead h)
    {N : Nat} (positive : 0 < N) (bound : ∀ h ∈ hs, h.toNat / 16 < N) : hs.length < N := by
  have aligned (h) (member : h ∈ hs) : h.toNat % 16 = 0 := by
    have low : ∀ i < 4, h.getLsbD i = false := (heads h member).aligned
    apply Nat.eq_of_testBit_eq
    intro i
    rw [show (16 : Nat) = 2 ^ 4 from rfl, Nat.testBit_mod_two_pow, Nat.zero_testBit]
    by_cases small : i < 4
    · rw [decide_eq_true small, Bool.true_and]
      exact low i small
    · rw [decide_eq_false small, Bool.false_and]
  have indices : (hs.map fun h => h.toNat / 16).Nodup := by
    refine nodup.map_on fun h member h' member' same => ?_
    have first := aligned h member
    have second := aligned h' member'
    exact BitVec.eq_of_toNat_eq (by omega)
  have null : 0 ∉ hs.map fun h => h.toNat / 16 := fun member => by
    obtain ⟨h, here, zero⟩ := List.mem_map.mp member
    have low := aligned h here
    have same : h.toNat = 0 := by omega
    exact (heads h here).nonzero (BitVec.eq_of_toNat_eq same)
  have inside : (0 :: hs.map fun h => h.toNat / 16) ⊆ List.range N := by
    intro k member
    rcases List.mem_cons.mp member with rfl | member
    · exact List.mem_range.mpr positive
    · obtain ⟨h, here, rfl⟩ := List.mem_map.mp member
      exact List.mem_range.mpr (bound h here)
  have count := (List.Nodup.subperm (List.nodup_cons.mpr ⟨null, indices⟩) inside).length_le
  rw [List.length_range, List.length_cons, List.length_map] at count
  exact count

theorem head_of_mem_target (found : p ∈ target value) : ∃ h, p = .head h := by
  rw [target] at found
  split at found
  · cases found
  · exact ⟨_, (Option.mem_some.mp found).symm⟩

theorem exists_heads {a : Option FramePlace} {rest : List FramePlace}
    (leads : Leads list.next a rest none) (start : ∀ p ∈ a, ∃ h, p = .head h) :
    ∃ hs : List (BitVec 32), rest = hs.map .head := by
  induction rest generalizing a with
  | nil => exact ⟨[], rfl⟩
  | cons p rest ih =>
    obtain ⟨rfl, behind⟩ := leads
    obtain ⟨h, rfl⟩ := start p rfl
    obtain ⟨hs, rfl⟩ := ih behind fun q found => head_of_mem_target found
    exact ⟨h :: hs, rfl⟩

private theorem length_rest {value : BitVec 32} {rest : List FramePlace}
    (leads : Leads list.next (target value) rest none) (fine : ∀ p ∈ rest, list.Fine p) :
    rest.length < 2 ^ 28 := by
  obtain ⟨hs, rfl⟩ := exists_heads leads fun q found => head_of_mem_target found
  rw [List.length_map]
  refine length_heads leads.nodup.of_map (fun h member => ?_) (by decide) fun h _ => ?_
  · exact (fine _ (List.mem_map_of_mem member)).isHead h rfl
  · have small := h.isLt
    omega

/-- `append_qh` finds the queue head on the list of the frame, or another place of that list. -/
theorem appendTo_spec (transferType : UsbTransferType) (head : IsHead qh)
    (trail : list.Trail frame l) (fine : ∀ p ∈ l, list.Fine p) :
    ∃ r, list.appendTo frame qh transferType = some r ∧ (r = none → .head qh ∈ l) ∧
      ∀ p, r = some p → p ∈ l ∧ p ≠ .head qh := by
  obtain ⟨rest, rfl⟩ : ∃ rest, l = .root frame :: rest := by
    cases l with
    | nil => cases trail
    | cons q rest => exact ⟨rest, by rw [Option.some.inj trail.1]⟩
  have behind : Leads list.next (target (list.employ frame)) rest none := trail.2
  have first := fine _ List.mem_cons_self
  rw [appendTo]
  by_cases ends : terminates (list.employ frame) = true
  · rw [if_pos ends]
    refine ⟨_, rfl, nofun, fun p same => ?_⟩
    cases same
    exact ⟨List.mem_cons_self, nofun⟩
  · have fine' (p) (member : p ∈ rest) := fine p (List.mem_cons_of_mem _ member)
    obtain ⟨r, ran, none, some⟩ := findPrevious_spec transferType head behind
      first.clean fine' (length_rest behind fine') (Or.inl rfl)
    rw [if_neg ends, ran]
    refine ⟨_, rfl, fun same => ?_, fun p same => ?_⟩
    · exact List.mem_cons_of_mem _ (none (Option.map_eq_none_iff.mp same))
    · obtain ⟨x, found, rfl⟩ := Option.map_eq_some_iff.mp same
      obtain ⟨other, place⟩ := some x found
      refine ⟨List.mem_cons_of_mem _ ?_, fun equal => other (FramePlace.head.inj equal)⟩
      rcases place with rfl | later
      · -- the walk stopped at the first queue head, which is the previous one too
        cases rest with
        | nil =>
          rw [leads_nil, target, if_neg ends] at behind
          cases behind
        | cons q rest =>
          have here := behind.1
          rw [target, if_neg ends] at here
          exact Option.some.inj here ▸ List.mem_cons_self
      · exact later

/-! ### Runs of insertions -/

/-- The list of every frame ends, and all its places are fine. -/
def Sound (list : UhciFrameList) : Prop :=
  ∀ frame < 1024, ∃ l, list.Trail frame l ∧ ∀ p ∈ l, list.Fine p

theorem sound_markInvalid : list.markInvalid.Sound := by
  intro frame _
  have ends : list.markInvalid.next (.root frame) = none := by
    rw [next, target, if_pos]
    exact (by decide : terminates 1 = true)
  refine ⟨[.root frame], ⟨rfl, ends⟩, fun p member => ?_⟩
  cases List.mem_singleton.mp member
  exact ⟨nofun, fun _ => (by decide : pointer 1 = 0)⟩

theorem Sound.insert (sound : list.Sound) (head : IsHead qh) (small : frame < 1024)
    (trail : list.Trail frame l) (member : place ∈ l) (different : place ≠ .head qh)
    (behind : Leads list.next (list.next place) tail none) (absent : .head qh ∉ tail) :
    (list.insert qh place).Sound := by
  obtain ⟨l₀, trail₀, fine⟩ := sound frame small
  obtain rfl := Leads.unique trail trail₀
  have rest (p) (later : p ∈ tail) : p ∈ l := by
    obtain ⟨front, back, rfl⟩ := List.append_of_mem member
    have same : back = tail := Leads.unique trail.behind behind
    exact List.mem_append_right _ (List.mem_cons_of_mem _ (same ▸ later))
  have kept (p) (old : list.Fine p ∨ p = .head qh) : (list.insert qh place).Fine p := by
    refine ⟨fun h same => ?_, fun ends => ?_⟩
    · rcases old with old | own
      · exact old.isHead h same
      · exact FramePlace.head.inj (same.symm.trans own) ▸ head
    · rw [read_insert] at ends ⊢
      by_cases here : p = place
      · rw [if_pos here] at ends
        have goes := target_link head
        rw [target, if_pos ends] at goes
        cases goes
      · rw [if_neg here] at ends ⊢
        by_cases own : p = .head qh
        · rw [if_pos own] at ends ⊢
          rw [terminates_setQueueHeadLink] at ends
          rw [pointer_setQueueHeadLink]
          exact (fine place member).clean ends
        · rw [if_neg own] at ends ⊢
          exact (old.resolve_right own).clean ends
  -- every other list goes on with places of its own or of the list of the place
  intro g less
  obtain ⟨m, trailG, fineG⟩ := sound g less
  obtain ⟨m', trail', _, among, _⟩ := trailG.insert head different behind absent
  refine ⟨m', trail', fun p here => kept p ?_⟩
  rcases among p here with old | own | later
  · exact Or.inl (fineG p old)
  · exact Or.inr own
  · exact Or.inl (fine p (rest p later))

end UhciFrameList

end EmkKernel
