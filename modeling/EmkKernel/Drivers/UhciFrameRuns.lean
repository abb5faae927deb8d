import EmkKernel.Drivers.UhciFrameWalks
import EmkKernel.Library.Requests

/-!
# Queue heads in the frame list

Any calls of `append_qh` and `place_qh` on an initialised frame list, with the frames that the
queue heads were put on.
-/

namespace EmkKernel

open Trails UhciFrameList

/-- The calls. -/
inductive FrameRequest where
  | append (frame : Nat) (qh : BitVec 32) (transferType : UsbTransferType)
  | place (qh : BitVec 32) (interval : Nat) (transferType : UsbTransferType)

/-- A frame list, with every queue head and the frame it was put on. -/
structure FrameRun where
  list : UhciFrameList
  placed : List (Nat × BitVec 32)

namespace FrameRun

/-- `append_qh` puts the queue head on the frame, `place_qh` on every interval-th one. -/
def serve (s : FrameRun) : FrameRequest → Option FrameRun
  | .append frame qh transferType =>
    (s.list.appendQh frame qh transferType).map fun list => ⟨list, s.placed ++ [(frame, qh)]⟩
  | .place qh interval transferType =>
    (s.list.placeQh qh interval transferType).map fun list =>
      ⟨list, s.placed ++ (List.range (1024 / interval)).map fun i => (i * interval, qh)⟩

/-- Every list ends, and the queue heads are on the frames they were put on. -/
structure Good (s : FrameRun) : Prop where
  ends : ∀ frame < 1024, ∃ l, s.list.Trail frame l
  passes : ∀ r ∈ s.placed, s.list.Passes r.1 (.head r.2)

/-- A queue head that is put behind a place is not behind it already, and what is behind the
queue head on a frame where it was put is behind the place too. -/
def Harmless (s : FrameRun) (qh : BitVec 32) (place : FramePlace) : Prop :=
  ∀ tail, Leads s.list.next (s.list.next place) tail none → .head qh ∉ tail ∧
    ∀ r ∈ s.placed, ∀ front back, s.list.Trail r.1 (front ++ .head qh :: back) →
      .head r.2 ∈ back → .head r.2 ∈ tail

/-- The queue head is found on the list of the frame, or comes to a place without harm. -/
def Accepts (s : FrameRun) (frame : Nat) (qh : BitVec 32) (transferType : UsbTransferType) : Prop :=
  ∀ place, s.list.appendTo frame qh transferType = some (some place) → s.Harmless qh place

/-- All calls of `append_qh` by `place_qh` are accepted. -/
def AcceptsAll (qh : BitVec 32) (transferType : UsbTransferType) : FrameRun → List Nat → Prop
  | _, [] => True
  | s, frame :: rest => s.Accepts frame qh transferType ∧
    ∀ s', s.serve (.append frame qh transferType) = some s' →
      AcceptsAll qh transferType s' rest

/-- One of these calls puts the queue head behind a place on the list of frame 0. -/
def SharesZero (qh : BitVec 32) (transferType : UsbTransferType) : FrameRun → List Nat → Prop
  | _, [] => False
  | s, frame :: rest =>
    (∃ place, s.list.appendTo frame qh transferType = some (some place) ∧ s.list.Passes 0 place) ∨
      ∀ s', s.serve (.append frame qh transferType) = some s' →
        SharesZero qh transferType s' rest

/-- What the calls are made with. -/
def Proper : FrameRequest → Prop
  | .append frame qh transferType => frame < 1024 ∧ IsHead qh ∧ transferType ≠ .isochronous
  | .place qh interval transferType => 0 < interval ∧ IsHead qh ∧ transferType ≠ .isochronous

/-- The condition. `place_qh` leaves out frame 0. -/
def Meets (s : FrameRun) (r : FrameRequest) : Prop :=
  Proper r ∧ match r with
    | .append frame qh transferType => s.Accepts frame qh transferType
    | .place qh interval transferType =>
      s.AcceptsAll qh transferType (placedFrames interval) ∧ (1024 < interval ∨
        s.list.Passes 0 (.head qh) ∨ s.SharesZero qh transferType (placedFrames interval))

/-- The schedules survive, and exactly the calls outside the condition break them. -/
structure Right (s : FrameRun) : Prop where
  good : s.Good
  returns : ∀ frame qh transferType, Proper (.append frame qh transferType) →
    (s.serve (.append frame qh transferType)).isSome
  exact : ∀ frame qh transferType s', Proper (.append frame qh transferType) →
    s.serve (.append frame qh transferType) = some s' →
      (s'.Good ↔ s.Accepts frame qh transferType)
  zero : ∀ qh interval transferType s', Proper (.place qh interval transferType) →
    s.AcceptsAll qh transferType (placedFrames interval) →
      s.serve (.place qh interval transferType) = some s' →
        (s'.Good ↔ s.Meets (.place qh interval transferType))

/-- The invariant. -/
structure Keeps (s : FrameRun) : Prop where
  sound : s.list.Sound
  frames : ∀ r ∈ s.placed, r.1 < 1024
  passes : ∀ r ∈ s.placed, s.list.Passes r.1 (.head r.2)

variable {s s' : FrameRun} {list : UhciFrameList} {frame : Nat} {qh : BitVec 32}
  {transferType : UsbTransferType} {place : FramePlace} {l tail : List FramePlace}

theorem Keeps.good (keeps : Keeps s) : s.Good where
  ends frame less := by
    obtain ⟨l, trail, _⟩ := keeps.sound frame less
    exact ⟨l, trail⟩
  passes := keeps.passes

instance (list : UhciFrameList) (frame : Nat) (l : List FramePlace) :
    Decidable (list.Trail frame l) :=
  inferInstanceAs (Decidable (Leads _ _ _ _))

private theorem passes_iff (trail : list.Trail frame l) {p : FramePlace} :
    list.Passes frame p ↔ p ∈ l := by
  constructor
  · rintro ⟨l', trail', member⟩
    exact Leads.unique trail' trail ▸ member
  · exact fun member => ⟨l, trail, member⟩

/-- What is put where it does no harm keeps the invariant. -/
theorem Keeps.insert (keeps : Keeps s) (head : IsHead qh) (small : frame < 1024)
    (trail : s.list.Trail frame l) (member : place ∈ l) (different : place ≠ .head qh)
    (harmless : s.Harmless qh place) :
    Keeps ⟨s.list.insert qh place, s.placed ++ [(frame, qh)]⟩ ∧
      ((s.list.insert qh place).Passes 0 (.head qh) ↔
        s.list.Passes 0 (.head qh) ∨ s.list.Passes 0 place) := by
  obtain ⟨front, tail, rfl⟩ := List.append_of_mem member
  have behind : Leads s.list.next (s.list.next place) tail none := trail.behind
  obtain ⟨absent, kept⟩ := harmless tail behind
  refine ⟨⟨keeps.sound.insert head small trail member different behind absent, ?_, ?_⟩, ?_⟩
  · exact List.forall_mem_append.mpr ⟨keeps.frames, List.forall_mem_singleton.mpr small⟩
  · refine List.forall_mem_append.mpr ⟨fun r old => ?_, List.forall_mem_singleton.mpr ?_⟩
    · -- a queue head that was there is lost only behind the one that is put in
      obtain ⟨m, trailR, inside⟩ := keeps.passes r old
      obtain ⟨m', trail', _, _, survives⟩ := trailR.insert head different behind absent
      refine ⟨m', trail', (survives _ inside).mpr fun front back split later => ?_⟩
      exact kept r old front back (split ▸ trailR) later
    · obtain ⟨m', trail', own, _⟩ := trail.insert head different behind absent
      exact ⟨m', trail', own.mpr (Or.inl member)⟩
  · obtain ⟨m, trail₀, _⟩ := keeps.sound 0 (by decide)
    obtain ⟨m', trail', own, _⟩ := trail₀.insert head different behind absent
    rw [passes_iff trail', passes_iff trail₀, passes_iff trail₀, own, or_comm]

/-- What is put where it does harm does harm: a circle, or a queue head is lost. -/
theorem harmless_of_good (head : IsHead qh) (different : place ≠ .head qh)
    (good : Good ⟨s.list.insert qh place, s.placed ++ [(frame, qh)]⟩) : s.Harmless qh place := by
  intro tail behind
  -- if the queue head were behind the place, the list of its frame would not end
  have absent : .head qh ∉ tail := fun circle => by
    obtain ⟨front, back, rfl⟩ := List.append_of_mem circle
    obtain ⟨m, trail', inside⟩ := good.passes (frame, qh)
      (List.mem_append_right _ List.mem_cons_self)
    obtain ⟨first, rest, rfl⟩ := List.append_of_mem inside
    have onward : Leads (s.list.insert qh place).next (some (.head qh)) (.head qh :: rest) none :=
      ⟨rfl, trail'.behind⟩
    rw [next_insert head] at onward
    exact (behind.circle different).endless onward
  refine ⟨absent, fun r old front back trailR later => ?_⟩
  obtain ⟨m', trail', _, _, survives⟩ := trailR.insert head different behind absent
  have still := (passes_iff trail').mp (good.passes r (List.mem_append_left _ old))
  have inside : .head r.2 ∈ front ++ .head qh :: back :=
    List.mem_append_right _ (List.mem_cons_of_mem _ later)
  exact (survives _ inside).mp still front back rfl later

/-- `append_qh` returns, and keeps the schedules exactly where it is accepted. -/
theorem Keeps.append (keeps : Keeps s) (proper : Proper (.append frame qh transferType)) :
    ∃ s', s.serve (.append frame qh transferType) = some s' ∧
      s'.placed = s.placed ++ [(frame, qh)] ∧
      s.list.appendQh frame qh transferType = some s'.list ∧
      (s'.Good → s.Accepts frame qh transferType) ∧
      (s.Accepts frame qh transferType → Keeps s' ∧
        (s'.list.Passes 0 (.head qh) ↔ s.list.Passes 0 (.head qh) ∨
          ∃ place, s.list.appendTo frame qh transferType = some (some place) ∧
            s.list.Passes 0 place)) := by
  obtain ⟨small, head, kind⟩ := proper
  obtain ⟨l, trail, fine⟩ := keeps.sound frame small
  obtain ⟨r, found, none, some⟩ := appendTo_spec transferType head trail fine
  cases r with
  | none =>
    have appended : s.list.appendQh frame qh transferType = Option.some s.list := by
      rw [appendQh, if_neg kind, found]
      rfl
    refine ⟨⟨s.list, s.placed ++ [(frame, qh)]⟩, ?_, rfl, appended, fun _ => ?_, fun _ => ?_⟩
    · rw [serve, appended]
      rfl
    · intro place same
      cases found.symm.trans same
    · refine ⟨⟨keeps.sound, ?_, ?_⟩, ?_⟩
      · exact List.forall_mem_append.mpr ⟨keeps.frames, List.forall_mem_singleton.mpr small⟩
      · exact List.forall_mem_append.mpr
          ⟨keeps.passes, List.forall_mem_singleton.mpr ⟨l, trail, none rfl⟩⟩
      · refine ⟨Or.inl, fun reached => reached.elim id ?_⟩
        rintro ⟨place, same, _⟩
        cases found.symm.trans same
  | some place =>
    obtain ⟨member, different⟩ := some place rfl
    have appended : s.list.appendQh frame qh transferType =
        Option.some (s.list.insert qh place) := by
      rw [appendQh, if_neg kind, found]
      rfl
    refine ⟨⟨s.list.insert qh place, s.placed ++ [(frame, qh)]⟩, ?_, rfl, appended,
      fun good => ?_, fun accepts => ?_⟩
    · rw [serve, appended]
      rfl
    · intro place' same
      cases found.symm.trans same
      exact harmless_of_good head different good
    · obtain ⟨kept, zero⟩ := keeps.insert head small trail member different (accepts place found)
      refine ⟨kept, zero.trans (or_congr Iff.rfl ?_)⟩
      constructor
      · exact fun passes => ⟨place, found, passes⟩
      · rintro ⟨place', same, passes⟩
        cases found.symm.trans same
        exact passes

/-- The loop of `place_qh`. -/
theorem Keeps.appendAll (head : IsHead qh) (kind : transferType ≠ .isochronous)
    {frames : List Nat} (small : ∀ frame ∈ frames, frame < 1024) {s : FrameRun} (keeps : Keeps s)
    (accepts : s.AcceptsAll qh transferType frames) :
    ∃ list, frames.foldlM (fun list frame => list.appendQh frame qh transferType) s.list =
        some list ∧ Keeps ⟨list, s.placed ++ frames.map (·, qh)⟩ ∧
      (list.Passes 0 (.head qh) ↔
        s.list.Passes 0 (.head qh) ∨ s.SharesZero qh transferType frames) := by
  induction frames generalizing s with
  | nil =>
    refine ⟨s.list, rfl, ?_, ?_⟩
    · rw [List.map_nil, List.append_nil]
      exact keeps
    · rw [SharesZero, or_false]
  | cons frame rest ih =>
    obtain ⟨here, later⟩ := accepts
    have proper : Proper (.append frame qh transferType) :=
      ⟨small frame List.mem_cons_self, head, kind⟩
    obtain ⟨s₁, served, placed, appended, _, kept⟩ := keeps.append proper
    obtain ⟨keeps₁, zero₁⟩ := kept here
    obtain ⟨list, ran, keeps', zero⟩ := ih
      (fun f member => small f (List.mem_cons_of_mem _ member)) keeps₁ (later s₁ served)
    refine ⟨list, ?_, ?_, ?_⟩
    · rw [List.foldlM_cons, appended]
      exact ran
    · rw [placed, List.append_assoc] at keeps'
      exact keeps'
    · have next : s.SharesZero qh transferType (frame :: rest) ↔
          (∃ place, s.list.appendTo frame qh transferType = some (some place) ∧
            s.list.Passes 0 place) ∨ s₁.SharesZero qh transferType rest := by
        rw [SharesZero]
        refine or_congr Iff.rfl ⟨fun every => every s₁ served, fun shares s' same => ?_⟩
        cases served.symm.trans same
        exact shares
      rw [zero, zero₁, next, or_assoc]

private theorem placedFrames_lt {interval : Nat} :
    ∀ frame ∈ placedFrames interval, frame < 1024 := by
  intro frame member
  obtain ⟨i, inside, rfl⟩ := List.mem_map.mp member
  obtain ⟨_, below⟩ := List.mem_range'_1.mp inside
  have less : i < 1024 / interval := by omega
  exact Nat.lt_of_lt_of_le (Nat.mul_lt_mul_of_pos_right less (Nat.pos_of_ne_zero fun zero => by
    rw [zero, Nat.div_zero] at less
    exact Nat.not_lt_zero _ less)) (Nat.div_mul_le_self 1024 interval)

/-- The frames of `place_qh` are those of the interval without frame 0. -/
theorem mem_frames {interval : Nat} {r : Nat × BitVec 32} :
    r ∈ (List.range (1024 / interval)).map (fun i => (i * interval, qh)) ↔
      0 < 1024 / interval ∧ r = (0, qh) ∨ r ∈ (placedFrames interval).map (·, qh) := by
  simp only [placedFrames, List.map_map, List.mem_map, List.mem_range, List.mem_range'_1,
    Function.comp_apply]
  constructor
  · rintro ⟨i, less, rfl⟩
    rcases Nat.eq_zero_or_pos i with rfl | above
    · exact Or.inl ⟨less, by rw [Nat.zero_mul]⟩
    · exact Or.inr ⟨i, ⟨above, by omega⟩, rfl⟩
  · rintro (⟨less, rfl⟩ | ⟨i, ⟨above, below⟩, rfl⟩)
    · exact ⟨0, less, by rw [Nat.zero_mul]⟩
    · exact ⟨i, by omega, rfl⟩

/-- `place_qh` whose calls are accepted keeps the schedules exactly where frame 0 is reached. -/
theorem Keeps.placeQh {interval : Nat} (keeps : Keeps s)
    (proper : Proper (.place qh interval transferType))
    (accepts : s.AcceptsAll qh transferType (placedFrames interval)) :
    ∃ s', s.serve (.place qh interval transferType) = some s' ∧
      (s'.Good ↔ s.Meets (.place qh interval transferType)) ∧ (s'.Good → Keeps s') := by
  obtain ⟨positive, head, kind⟩ := id proper
  obtain ⟨list, ran, kept, zero⟩ := keeps.appendAll head kind placedFrames_lt accepts
  have returned : s.list.placeQh qh interval transferType = some list := by
    rw [UhciFrameList.placeQh, if_neg (Nat.ne_of_gt positive)]
    exact ran
  have some : 0 < 1024 / interval ↔ interval ≤ 1024 := by
    rw [Nat.div_pos_iff]
    exact and_iff_right positive
  let placed := s.placed ++ (List.range (1024 / interval)).map fun i => (i * interval, qh)
  refine ⟨⟨list, placed⟩, ?_, ⟨fun good => ⟨proper, accepts, ?_⟩, ?_⟩, fun good => ?_⟩
  · rw [serve, returned]
    rfl
  · rcases Nat.lt_or_ge 1024 interval with wide | narrow
    · exact Or.inl wide
    · refine Or.inr (zero.mp (good.passes (0, qh) (List.mem_append_right _ ?_)))
      exact mem_frames.mpr (Or.inl ⟨some.mpr narrow, rfl⟩)
  · rintro ⟨_, _, reached⟩
    refine ⟨kept.good.ends, List.forall_mem_append.mpr ⟨fun r old => ?_, fun r new => ?_⟩⟩
    · exact kept.passes r (List.mem_append_left _ old)
    · rcases mem_frames.mp new with ⟨less, rfl⟩ | frame
      · -- frame 0 is left out, but it is reached
        exact zero.mpr (reached.resolve_left (Nat.not_lt.mpr (some.mp less)))
      · exact kept.passes r (List.mem_append_right _ frame)
  · refine ⟨kept.sound, List.forall_mem_append.mpr ⟨keeps.frames, fun r new => ?_⟩, good.passes⟩
    rcases mem_frames.mp new with ⟨_, rfl⟩ | frame
    · exact (by decide : 0 < 1024)
    · exact kept.frames r (List.mem_append_right _ frame)

theorem Keeps.right (keeps : Keeps s) : Right s where
  good := keeps.good
  returns frame qh transferType proper := by
    obtain ⟨s', served, _⟩ := keeps.append proper
    exact Option.isSome_of_eq_some served
  exact frame qh transferType s' proper served := by
    obtain ⟨s₁, served₁, _, _, accepts, kept⟩ := keeps.append proper
    cases served.symm.trans served₁
    exact ⟨accepts, fun harmless => (kept harmless).1.good⟩
  zero qh interval transferType s' proper accepts served := by
    obtain ⟨s₁, served₁, good, _⟩ := keeps.placeQh proper accepts
    cases served.symm.trans served₁
    exact good

/-- Every call that meets the condition keeps the invariant. -/
theorem Keeps.serve {r : FrameRequest} (keeps : Keeps s) (meets : s.Meets r)
    (served : s.serve r = some s') : Keeps s' := by
  cases r with
  | append frame qh transferType =>
    obtain ⟨proper, accepts⟩ := meets
    obtain ⟨s₁, served₁, _, _, _, kept⟩ := keeps.append proper
    cases served.symm.trans served₁
    exact (kept accepts).1
  | place qh interval transferType =>
    obtain ⟨proper, accepts, reached⟩ := id meets
    obtain ⟨s₁, served₁, good, kept⟩ := keeps.placeQh proper accepts
    cases served.symm.trans served₁
    exact kept (good.mpr meets)

/-- In every run of calls that meet the condition the queue heads stay on their frames, and no
list has a circle. -/
theorem frames_right (run : Requests.Run serve Meets ⟨list.markInvalid, []⟩ s) : Right s := by
  have keeps : Keeps s := run.keeps ⟨sound_markInvalid, nofun, nofun⟩
    fun _ _ _ keeps meets served => keeps.serve meets served
  exact keeps.right

section Samples

instance (qh : BitVec 32) : Decidable (IsHead qh) :=
  decidable_of_iff ((∀ i < 4, qh.getLsbD i = false) ∧ qh ≠ 0)
    ⟨fun parts => ⟨parts.1, parts.2⟩, fun head => ⟨head.aligned, head.nonzero⟩⟩

instance (r : FrameRequest) : Decidable (Proper r) :=
  match r with
  | .append _ _ _ => inferInstanceAs (Decidable (_ ∧ _))
  | .place _ _ _ => inferInstanceAs (Decidable (_ ∧ _))

/-- The interrupt queue heads are at `0x1000`, the others at `0x2000`. -/
def invalidList : UhciFrameList :=
  markInvalid ⟨fun _ => 0, fun _ => 0, ⟨0x1000, 0x10A0⟩, ⟨0x2000, 0x2E90⟩⟩

/-- A list that ends at the place has nothing to lose. -/
theorem harmless_of_ends (ends : s.list.next place = none)
    (alone : ∀ r ∈ s.placed, r.2 = qh) : s.Harmless qh place := by
  intro tail behind
  rw [ends] at behind
  obtain rfl : tail = [] := by
    cases tail with
    | nil => rfl
    | cons q rest => cases behind.1
  refine ⟨List.not_mem_nil, fun r member front back trail later => ?_⟩
  rw [alone r member] at later
  exact absurd later (List.nodup_cons.mp (List.nodup_append.mp trail.nodup).2.1).1

/-- A queue head is put on frame 0 and then on every 512th frame. -/
theorem frames_right_two : ∃ s, Requests.Run serve Meets ⟨invalidList, []⟩ s ∧
    s.placed.length = 3 ∧ Right s := by
  let s₁ : FrameRun := ⟨invalidList.insert 0x1000 (.root 0), [(0, 0x1000)]⟩
  have first : Meets ⟨invalidList, []⟩ (.append 0 0x1000 .interrupt) := by
    refine ⟨by decide, fun place found => ?_⟩
    obtain rfl : FramePlace.root 0 = place := Option.some.inj (Option.some.inj found)
    exact harmless_of_ends (by decide) nofun
  have second : Meets s₁ (.place 0x1000 512 .interrupt) := by
    refine ⟨by decide, ⟨fun place found => ?_, fun _ _ => trivial⟩, Or.inr (Or.inl ?_)⟩
    · have root : (invalidList.insert 0x1000 (.root 0)).appendTo 512 0x1000 .interrupt =
          some (some (.root 512)) := by decide
      obtain rfl := Option.some.inj (Option.some.inj (root.symm.trans found))
      refine harmless_of_ends (by decide) fun r member => ?_
      rw [List.mem_singleton.mp member]
    · exact ⟨[.root 0, .head 0x1000], by decide, by decide⟩
  have shown : ((serve s₁ (.place 0x1000 512 .interrupt)).any fun s =>
      decide (s.placed.length = 3)) = true := by decide +kernel
  obtain ⟨s, served, three⟩ := (Option.any_eq_true _ _).mp shown
  have begun : serve ⟨invalidList, []⟩ (.append 0 0x1000 .interrupt) = some s₁ := rfl
  have run : Requests.Run serve Meets ⟨invalidList, []⟩ s :=
    (Relation.ReflTransGen.refl.tail ⟨_, first, begun⟩).tail ⟨_, second, served⟩
  exact ⟨s, run, of_decide_eq_true three, frames_right run⟩

/-- Frame 0 is left out, and a queue head whose link is written again loses another one. -/
theorem not_good : (∃ s, Proper (.place 0x2000 16 .control) ∧
      serve ⟨invalidList, []⟩ (.place 0x2000 16 .control) = some s ∧ ¬s.Good) ∧
    ∃ s, Requests.Run serve (fun _ r => Proper r) ⟨invalidList, []⟩ s ∧ ¬s.Good := by
  constructor
  · have shown : ((serve ⟨invalidList, []⟩ (.place 0x2000 16 .control)).any fun s =>
        decide (s.list.Trail 0 [.root 0] ∧ (0, 0x2000) ∈ s.placed)) = true := by decide +kernel
    obtain ⟨s, served, facts⟩ := (Option.any_eq_true _ _).mp shown
    obtain ⟨trail, placed⟩ := of_decide_eq_true facts
    refine ⟨s, by decide, served, fun good => ?_⟩
    have lost := (passes_iff trail).mp (good.passes _ placed)
    exact absurd lost (by decide)
  · have shown : ((Requests.serveAll serve (fun _ r => Proper r) ⟨invalidList, []⟩
        [.append 16 0x1000 .interrupt, .append 16 0x1010 .interrupt, .append 32 0x1020 .interrupt,
          .append 16 0x2000 .control, .append 32 0x2000 .control]).any fun s =>
        decide (s.list.Trail 16 [.root 16, .head 0x1000, .head 0x2000] ∧
          (16, 0x1010) ∈ s.placed)) = true := by decide +kernel
    obtain ⟨s, served, facts⟩ := (Option.any_eq_true _ _).mp shown
    obtain ⟨trail, placed⟩ := of_decide_eq_true facts
    refine ⟨s, Requests.serveAll_run served, fun good => ?_⟩
    have lost := (passes_iff trail).mp (good.passes _ placed)
    exact absurd lost (by decide)

end Samples

end FrameRun

end EmkKernel
