import EmkKernel.Drivers.OhciPeriodic
import EmkKernel.Library.Requests

/-!
# Installs of periodic endpoints

Any number of installs into an initialised list, with the endpoints that were installed. The
property is about the addresses that the controller follows.
-/

namespace EmkKernel

open Trails OhciHccaInterruptList

namespace OhciHccaInterruptList

variable {list : OhciHccaInterruptList} {v : Nat → EdView} {f : Nat} {ds ds' : List Nat}

/-- The link of the descriptor at an address. -/
def linkOf (list : OhciHccaInterruptList) (address : Nat) : Option Nat :=
  if (list.memory address).nextEd = 0 then none else some (list.memory address).nextEd

/-- What a list passes to its end, by the indices of the descriptors. -/
def Passes (list : OhciHccaInterruptList) (f : Nat) (ds : List Nat) : Prop :=
  Leads list.linkOf (some (list.hccaEp f)) (ds.map list.ep) none

theorem Passes.unique (first : list.Passes f ds) (second : list.Passes f ds') : ds = ds' :=
  List.map_injective_iff.mpr (fun _ _ same => ep_inj.mp same) (Leads.unique first second)

theorem Views.leads (views : Views list v) {a b : Option Nat} (small : ∀ d ∈ ds, d < 256)
    (leads : Leads (nextOf v) a ds b) :
    Leads list.linkOf (a.map list.ep) (ds.map list.ep) (b.map list.ep) := by
  induction ds generalizing a with
  | nil => exact congrArg (Option.map list.ep) leads
  | cons d rest ih =>
    obtain ⟨rfl, behind⟩ := leads
    have less := small d List.mem_cons_self
    refine ⟨rfl, ?_⟩
    have link : list.linkOf (list.ep d) = (nextOf v d).map list.ep := by
      rw [linkOf, views.nextEd d less, nextOf]
      cases next : (v d).next with
      | none => rfl
      | some e => exact if_neg (Nat.ne_of_gt (views.ep_lt (views.inside d less e next)).1)
    rw [link]
    exact ih (fun e member => small e (List.mem_cons_of_mem d member)) behind

private theorem Tree.passesList {block : Nat → List Nat} (tree : Tree list v block)
    (less : f < 32) :
    list.Passes f ((chain f).flatMap block) := by
  rw [Passes, tree.hcca f less]
  refine tree.views.leads (fun d member => ?_) (tree.passes less)
  obtain ⟨h, passed, inside⟩ := List.mem_flatMap.mp member
  exact Nat.lt_trans (tree.below (chain_lt f less h passed) inside) tree.small

end OhciHccaInterruptList

/-- An endpoint, with the index that `install` returned. -/
structure InstalledEndpoint where
  index : Nat
  interval : Nat
  descriptor : RawOhciEndpointDescriptor

/-- The list that the endpoint starts from: its own place, or the first one. -/
def InstalledEndpoint.slot (e : InstalledEndpoint) : Nat := if e.index < 37 then e.index - 5 else 0

/-- The head of its block. -/
def InstalledEndpoint.head (e : InstalledEndpoint) : Nat :=
  if e.index < 37 then e.index else if e.interval = 32 then 5 else e.interval.log2

structure OhciInstalls where
  list : OhciHccaInterruptList
  installed : List InstalledEndpoint

namespace OhciInstalls

def serve (s : OhciInstalls) (r : Nat × RawOhciEndpointDescriptor) : Option OhciInstalls :=
  match s.list.install r.1 r.2 with
  | .ok (index, list) => some ⟨list, s.installed ++ [⟨index, r.1, r.2⟩]⟩
  | .error _ => none

/-- An interval of the tree and a descriptor without the bits of connectors and places. -/
structure Proper (r : Nat × RawOhciEndpointDescriptor) : Prop where
  interval : r.1 ∈ [1, 2, 4, 8, 16, 32]
  noCon : r.2.isSet .con = false
  noDum : r.2.isSet .dum = false

/-- There is a free place, or the counter is not at its last value. -/
def Room (s : OhciInstalls) (r : Nat × RawOhciEndpointDescriptor) : Prop :=
  (r.1 = 32 ∧ ∃ i < 32, (s.list.memory (s.list.hccaEp i)).isSet .dum = true) ∨
    s.list.endpointsAllocated < 255

def Meets (s : OhciInstalls) (r : Nat × RawOhciEndpointDescriptor) : Prop := Proper r ∧ s.Room r

/-- The lists end, have their end in common, and pass the endpoints of their frame. -/
structure Right (s : OhciInstalls) : Prop where
  lists : ∀ f < 32, ∃ ds, s.list.Passes f ds ∧ ds.Nodup
  common : ∃ tail, ∀ f < 32, ∀ ds, s.list.Passes f ds → ∃ front, ds = front ++ 0 :: tail
  polled : ∀ e ∈ s.installed, ∀ f < 32, ∀ ds, s.list.Passes f ds →
    (e.index ∈ ds ↔ f % e.interval = e.slot % e.interval)
  ordinary : ∀ f < 32, ∀ ds, s.list.Passes f ds → ∀ d ∈ ds,
    (s.list.memory (s.list.ep d)).isSet .con = false →
      (s.list.memory (s.list.ep d)).isSet .dum = false → ∃ e ∈ s.installed, e.index = d
  contents : ∀ e ∈ s.installed, s.list.bare e.index = e.descriptor.writeNextEd 0
  distinct : (s.installed.map (·.index)).Nodup
  kept : ∀ r s', Proper r → s.serve r = some s' → ∀ f < 32, ∀ ds ds', s.list.Passes f ds →
    s'.list.Passes f ds' → ds.Sublist ds'
  served : ∀ r, Proper r → ((s.serve r).isSome ↔ s.Room r)

/-- The invariant. -/
structure Keeps (s : OhciInstalls) (v : Nat → EdView) (block : Nat → List Nat) : Prop where
  tree : Tree s.list v block
  member : ∀ e ∈ s.installed, e.index ∈ block e.head
  interval : ∀ e ∈ s.installed, e.interval ∈ [1, 2, 4, 8, 16, 32]
  places : ∀ e ∈ s.installed, e.index < 37 → e.interval = 32 ∧ 5 ≤ e.index
  contents : ∀ e ∈ s.installed, s.list.bare e.index = e.descriptor.writeNextEd 0
  distinct : (s.installed.map (·.index)).Nodup
  dum : ∀ i < 32, (v (5 + i)).dum = true ↔ ∀ e ∈ s.installed, e.index ≠ 5 + i
  covers : ∀ d, 37 ≤ d → d < s.list.endpointsAllocated → ∃ e ∈ s.installed, e.index = d

variable {s s' : OhciInstalls} {v v' : Nat → EdView} {block block' : Nat → List Nat}
  {r : Nat × RawOhciEndpointDescriptor} {list : OhciHccaInterruptList} {e : InstalledEndpoint}

/-- One more endpoint, behind a head or as one. -/
theorem Keeps.add (keeps : Keeps s v block) (tree : Tree list v' block')
    (grows : ∀ h, (block h).Sublist (block' h)) (member : e.index ∈ block' e.head)
    (interval : e.interval ∈ [1, 2, 4, 8, 16, 32])
    (places : e.index < 37 → e.interval = 32 ∧ 5 ≤ e.index)
    (new : ∀ e' ∈ s.installed, e'.index ≠ e.index)
    (bare : ∀ d, list.bare d =
      if d = e.index then e.descriptor.writeNextEd 0 else s.list.bare d)
    (dum : ∀ i < 32, (v' (5 + i)).dum = true ↔ (v (5 + i)).dum = true ∧ e.index ≠ 5 + i)
    (covers : ∀ d, 37 ≤ d → d < list.endpointsAllocated →
      d < s.list.endpointsAllocated ∨ e.index = d) :
    Keeps ⟨list, s.installed ++ [e]⟩ v' block' := by
  have all {P : InstalledEndpoint → Prop} (old : ∀ e' ∈ s.installed, P e') (last : P e) :
      ∀ e' ∈ s.installed ++ [e], P e' :=
    List.forall_mem_append.mpr ⟨old, List.forall_mem_singleton.mpr last⟩
  refine ⟨tree, ?_, ?_, ?_, ?_, ?_, fun i less => ?_, fun d above below => ?_⟩
  · exact all (fun e' earlier => (grows _).subset (keeps.member e' earlier)) member
  · exact all keeps.interval interval
  · exact all keeps.places places
  · refine all (fun e' earlier => ?_) ((bare e.index).trans (if_pos rfl))
    rw [bare, if_neg (new e' earlier)]
    exact keeps.contents e' earlier
  · rw [List.map_append, List.map_singleton]
    refine List.nodup_append.mpr ⟨keeps.distinct, List.nodup_singleton _, ?_⟩
    intro d earlier d' last
    obtain ⟨e', here, rfl⟩ := List.mem_map.mp earlier
    rw [List.mem_singleton.mp last]
    exact new e' here
  · rw [dum i less, keeps.dum i less]
    refine ⟨fun ⟨old, last⟩ => all old last, fun every => ⟨fun e' earlier => ?_, ?_⟩⟩
    · exact every e' (List.mem_append_left _ earlier)
    · exact every e (List.mem_append_right _ List.mem_cons_self)
  · rcases covers d above below with old | last
    · obtain ⟨e', earlier, same⟩ := keeps.covers d above old
      exact ⟨e', List.mem_append_left _ earlier, same⟩
    · exact ⟨e, List.mem_append_right _ List.mem_cons_self, last⟩

private theorem head_lt (interval : e.interval ∈ [1, 2, 4, 8, 16, 32]) : e.head < 37 := by
  rw [InstalledEndpoint.head]
  split
  next first => exact first
  next =>
    have small : ∀ k ∈ [1, 2, 4, 8, 16, 32], (if k = 32 then 5 else k.log2) < 37 := by decide
    exact small _ interval

/-- An endpoint that takes a new descriptor of the page. -/
theorem Keeps.installBehind (keeps : Keeps s v block) {h : Nat} (less : h < 37) (proper : Proper r)
    (place : (if r.1 = 32 then 5 else r.1.log2) = h) (room : s.list.endpointsAllocated < 255) :
    ∃ index list v' block', s.list.installBehind (s.list.ep h) r.2 = .ok (index, list) ∧
      list.endpointsAllocated = s.list.endpointsAllocated + 1 ∧
      Keeps ⟨list, s.installed ++ [⟨index, r.1, r.2⟩]⟩ v' block' ∧
      ∀ h, (block h).Sublist (block' h) := by
  obtain ⟨x, list, member, ok, allocated, tree, bare⟩ :=
    keeps.tree.installBehind less proper.noCon proper.noDum room
  have low := keeps.tree.allocated
  have earlier : x < s.list.endpointsAllocated := keeps.tree.below less member
  -- the new index is behind the tree, so the block is that of the interval
  have head : (InstalledEndpoint.mk s.list.endpointsAllocated r.1 r.2).head = h := by
    rw [InstalledEndpoint.head, if_neg (Nat.not_lt.mpr low)]
    exact place
  have grows (h') : (block h').Sublist (splice x s.list.endpointsAllocated (block h')) :=
    sublist_splice
  refine ⟨_, list, insertView v x s.list.endpointsAllocated, _, ok, allocated, ?_, grows⟩
  refine keeps.add tree grows ?_ proper.interval ?_ ?_ bare ?_ ?_
  · rw [head]
    exact mem_splice.mpr (Or.inr ⟨rfl, member⟩)
  · exact fun first => absurd first (Nat.not_lt.mpr low)
  · intro e here
    exact Nat.ne_of_lt (keeps.tree.below (head_lt (keeps.interval e here)) (keeps.member e here))
  · -- a free place stays free: of the descriptors before only the link of one changes
    intro i small
    have other : s.list.endpointsAllocated ≠ 5 + i := by omega
    refine Iff.trans (Eq.to_iff (congrArg (· = true) ?_)) (iff_self_and.mpr fun _ => other)
    rw [insertView]
    by_cases front : 5 + i = x
    · rw [front, Function.update_self]
    · rw [Function.update_of_ne front, Function.update_of_ne (Ne.symm other)]
  · intro d above below
    rw [allocated] at below
    rcases Nat.lt_succ_iff_lt_or_eq.mp below with old | last
    · exact Or.inl old
    · exact Or.inr last.symm

/-- An endpoint that takes a free place. -/
theorem Keeps.place (keeps : Keeps s v block) {i : Nat} (less : i < 32) (proper : Proper r)
    (slow : r.1 = 32) (free : (v (5 + i)).dum = true) :
    ∃ v', Keeps ⟨s.list.modify (s.list.hccaEp i) fun ed => r.2.writeNextEd ed.nextEd,
      s.installed ++ [⟨i + 5, r.1, r.2⟩]⟩ v' block := by
  have tree := keeps.tree.place less proper.noCon proper.noDum
  have first : i + 5 < 37 := by omega
  refine ⟨_, keeps.add tree (fun _ => List.Sublist.refl _) ?_ proper.interval ?_ ?_ ?_ ?_ ?_⟩
  · rw [InstalledEndpoint.head, if_pos first]
    obtain ⟨rest, same, _⟩ := keeps.tree.head (i + 5) first
    exact same ▸ List.mem_cons_self
  · exact fun _ => ⟨slow, Nat.le_add_left ..⟩
  · intro e here
    rw [Nat.add_comm]
    exact (keeps.dum i less).mp free e here
  · intro d
    rw [bare, ep_modify, keeps.tree.hcca i less, memory_modify, Nat.add_comm]
    split <;> rfl
  · intro j small
    by_cases same : j = i
    · subst same
      rw [Function.update_self]
      refine iff_of_false Bool.false_ne_true fun both => both.2 (Nat.add_comm ..)
    · rw [Function.update_of_ne (by omega)]
      refine iff_self_and.mpr fun _ => ?_
      change i + 5 ≠ 5 + j
      omega
  · exact fun d _ below => Or.inl below

theorem install_eq (proper : Proper r) (list : OhciHccaInterruptList) :
    (∃ i < 32, r.1 = 32 ∧ (list.memory (list.hccaEp i)).isSet .dum = true ∧
      list.install r.1 r.2 = .ok (i + 5,
        list.modify (list.hccaEp i) fun ed => r.2.writeNextEd ed.nextEd)) ∨
    (r.1 = 32 ∧ (∀ i < 32, (list.memory (list.hccaEp i)).isSet .dum = false) ∧
      list.install r.1 r.2 = list.installBehind (list.hccaEp 0) r.2) ∨
    (r.1 ≠ 32 ∧ r.1.log2 < 5 ∧
      list.install r.1 r.2 = list.installBehind (list.ep r.1.log2) r.2) := by
  have interval := proper.interval
  rw [install]
  by_cases slow : r.1 = 32
  · rw [if_pos slow]
    cases found : (List.range 32).find? fun i =>
        (list.memory (list.hccaEp i)).isSet .dum with
    | some i =>
      have free := List.find?_some found
      exact Or.inl ⟨i, List.mem_range.mp (List.mem_of_find?_eq_some found), slow, free, rfl⟩
    | none =>
      refine Or.inr (Or.inl ⟨slow, fun i less => ?_, rfl⟩)
      have taken := List.find?_eq_none.mp found i (List.mem_range.mpr less)
      exact Bool.eq_false_of_not_eq_true taken
  · rw [if_neg slow]
    have powers : ∀ k ∈ [1, 2, 4, 8, 16, 32], k ≠ 32 →
        k.log2 < 5 ∧ 0 < k ∧ 2 ^ k.log2 = k := by decide
    obtain ⟨level, power⟩ := powers r.1 interval slow
    exact Or.inr (Or.inr ⟨slow, level, if_pos power⟩)

/-- An install with room keeps the invariant, and no block loses a descriptor. -/
theorem Keeps.serve (keeps : Keeps s v block) (proper : Proper r) (room : s.Room r) :
    ∃ s' v' block', s.serve r = some s' ∧ Keeps s' v' block' ∧
      ∀ h, (block h).Sublist (block' h) := by
  rw [OhciInstalls.serve]
  rcases install_eq proper s.list with ⟨i, less, slow, free, same⟩ | ⟨slow, taken, same⟩ |
    ⟨fast, level, same⟩
  · rw [same]
    have free' : (v (5 + i)).dum = true := by
      rw [← keeps.tree.views.dum (5 + i) (by omega), ← keeps.tree.hcca i less]
      exact free
    obtain ⟨v', kept⟩ := keeps.place less proper slow free'
    exact ⟨_, v', block, rfl, kept, fun _ => List.Sublist.refl _⟩
  · have few : s.list.endpointsAllocated < 255 := by
      refine room.resolve_left fun ⟨_, i, less, free⟩ => ?_
      rw [taken i less] at free
      cases free
    rw [same, keeps.tree.hcca 0 (by decide)]
    obtain ⟨index, list, v', block', ok, _, kept, grows⟩ :=
      keeps.installBehind (h := 5) (by decide) proper (if_pos slow) few
    rw [ok]
    exact ⟨_, v', block', rfl, kept, grows⟩
  · have few : s.list.endpointsAllocated < 255 := room.resolve_left fun both => fast both.1
    rw [same]
    obtain ⟨index, list, v', block', ok, _, kept, grows⟩ :=
      keeps.installBehind (Nat.lt_trans level (by decide)) proper (if_neg fast) few
    rw [ok]
    exact ⟨_, v', block', rfl, kept, grows⟩

theorem Keeps.serve_none (proper : Proper r) (full : ¬s.Room r) : s.serve r = none := by
  obtain ⟨places, counter⟩ := not_or.mp full
  have stops (start : Nat) : ∃ stop, s.list.installBehind start r.2 = .error stop := by
    rw [OhciHccaInterruptList.installBehind]
    split
    · refine ⟨_, if_neg ?_⟩
      exact fun small => counter (Nat.lt_of_succ_lt_succ small)
    · exact ⟨_, rfl⟩
  rw [OhciInstalls.serve]
  rcases install_eq proper s.list with ⟨i, less, slow, free, _⟩ | ⟨_, _, same⟩ | ⟨_, _, same⟩
  · exact absurd ⟨slow, i, less, free⟩ places
  · obtain ⟨stop, error⟩ := stops (s.list.hccaEp 0)
    rw [same, error]
  · obtain ⟨stop, error⟩ := stops (s.list.ep r.1.log2)
    rw [same, error]

private theorem keeps_initial {mb : MemoryBlock} (positive : 0 < mb.base)
    (ends : mb.base + 0x1000 ≤ 2 ^ 32) :
    Keeps ⟨list.initializeTree mb, []⟩ initialView fun h => [h] := by
  have tree : Tree (list.initializeTree mb) initialView fun h => [h] :=
    initializeTree_tree positive ends
  have none {P : InstalledEndpoint → Prop} : ∀ e ∈ ([] : List InstalledEndpoint), P e :=
    fun e here => absurd here List.not_mem_nil
  refine ⟨tree, none, none, none, none, List.nodup_nil, fun i less => ?_, fun d above below => ?_⟩
  · exact iff_of_true (decide_eq_true ⟨Nat.le_add_right .., by omega⟩) none
  · have sees : Sees (list.initializeTree mb) builtView 32 := initializeTree_sees positive ends
    have allocated := sees.allocated
    change d < (list.initializeTree mb).endpointsAllocated at below
    omega

/-! ### What the lists pass -/

theorem head_mem_chain {f : Nat} (less : f < 32) (interval : e.interval ∈ [1, 2, 4, 8, 16, 32])
    (places : e.index < 37 → e.interval = 32 ∧ 5 ≤ e.index) :
    e.head ∈ chain f ↔ f % e.interval = e.slot % e.interval := by
  rw [mem_chain f less _ (head_lt interval), InstalledEndpoint.head, InstalledEndpoint.slot]
  by_cases first : e.index < 37
  · obtain ⟨slow, above⟩ := places first
    rw [if_pos first, if_pos first, if_neg (Nat.not_lt.mpr above), slow]
    omega
  · have level : ∀ f < 32, ∀ k ∈ [1, 2, 4, 8, 16, 32],
        (if (if k = 32 then 5 else k.log2) < 5 then
          f % 2 ^ (if k = 32 then 5 else k.log2) = 0
          else f = (if k = 32 then 5 else k.log2) - 5) ↔ f % k = 0 % k := by decide
    rw [if_neg first, if_neg first]
    exact level f less _ interval

theorem Keeps.mem_iff (keeps : Keeps s v block) (here : e ∈ s.installed) {f : Nat} (less : f < 32) :
    e.index ∈ (chain f).flatMap block ↔ f % e.interval = e.slot % e.interval := by
  have interval := keeps.interval e here
  have member := keeps.member e here
  rw [← head_mem_chain less interval (keeps.places e here), List.mem_flatMap]
  constructor
  · -- blocks are apart, so the block that is passed is the one of the endpoint
    rintro ⟨h, passed, inside⟩
    have same := keeps.tree.apart h (chain_lt f less h passed) e.head (head_lt interval) _ inside
      member
    exact same ▸ passed
  · exact fun passed => ⟨e.head, passed, member⟩

theorem chain_append (f : Nat) : ∃ front, chain f = front ++ [0] := by
  refine ⟨(5 + f) :: ((List.range (connectorOf f)).map (· + 1)).reverse, ?_⟩
  rw [chain, List.range_succ_eq_map, List.reverse_cons]
  rfl

private theorem flatMap_sublist {hs : List Nat} (grows : ∀ h, (block h).Sublist (block' h)) :
    (hs.flatMap block).Sublist (hs.flatMap block') := by
  induction hs with
  | nil => exact List.Sublist.refl _
  | cons h rest ih =>
    rw [List.flatMap_cons, List.flatMap_cons]
    exact (grows h).append ih

/-- The descriptors that are neither connectors nor free places were installed. -/
theorem Keeps.ordinary (keeps : Keeps s v block) {d : Nat}
    (below : d < s.list.endpointsAllocated) (noCon : (v d).con = false)
    (noDum : (v d).dum = false) :
    ∃ e ∈ s.installed, e.index = d := by
  have small := keeps.tree.small
  rw [keeps.tree.con d (by omega)] at noCon
  have above : 5 ≤ d := Nat.not_lt.mp (of_decide_eq_false noCon)
  rcases Nat.lt_or_ge d 37 with first | later
  · -- a place of the tree that no endpoint has is still a free one
    have place : 5 + (d - 5) = d := Nat.add_sub_cancel' above
    by_contra missing
    have free := (keeps.dum (d - 5) (by omega)).mpr fun e here same =>
      missing ⟨e, here, same.trans place⟩
    rw [place, noDum] at free
    cases free
  · exact keeps.covers d later below

theorem Keeps.right (keeps : Keeps s v block) : Right s := by
  have passes {f : Nat} (less : f < 32) := keeps.tree.passesList less
  refine ⟨fun f less => ⟨_, passes less, (keeps.tree.passes less).nodup⟩, ?_, ?_, ?_,
    keeps.contents, keeps.distinct, ?_, ?_⟩
  · obtain ⟨tail, same, _⟩ := keeps.tree.head 0 (by decide)
    refine ⟨tail, fun f less ds there => ?_⟩
    obtain ⟨front, split⟩ := chain_append f
    obtain rfl := there.unique (passes less)
    refine ⟨front.flatMap block, ?_⟩
    rw [split, List.flatMap_append, List.flatMap_singleton, same]
  · intro e here f less ds there
    obtain rfl := there.unique (passes less)
    exact keeps.mem_iff here less
  · intro f less ds there d member noCon noDum
    obtain rfl := there.unique (passes less)
    obtain ⟨h, passed, inside⟩ := List.mem_flatMap.mp member
    have below := keeps.tree.below (chain_lt f less h passed) inside
    have small := Nat.lt_trans below keeps.tree.small
    rw [keeps.tree.views.con d small] at noCon
    rw [keeps.tree.views.dum d small] at noDum
    exact keeps.ordinary below noCon noDum
  · -- what was served found room, and a step with room only makes blocks longer
    intro r s' proper served f less ds ds' before after
    have room : s.Room r := by
      by_contra full
      rw [serve_none proper full] at served
      cases served
    obtain ⟨s'', v', block', served', keeps', grows⟩ := keeps.serve proper room
    obtain rfl := Option.some.inj (served'.symm.trans served)
    obtain rfl := before.unique (passes less)
    obtain rfl := after.unique (keeps'.tree.passesList less)
    exact flatMap_sublist grows
  · intro r proper
    constructor
    · intro served
      by_contra full
      rw [serve_none proper full] at served
      cases served
    · intro room
      obtain ⟨s', _, _, served, _⟩ := keeps.serve proper room
      exact Option.isSome_of_eq_some served

/-- A run from an initialised list keeps the invariant. -/
theorem run_keeps {mb : MemoryBlock} (above : 0 < mb.base) (below : mb.base + 0x1000 ≤ 2 ^ 32)
    (run : Requests.Run serve Meets ⟨list.initializeTree mb, []⟩ s) :
    ∃ v block, Keeps s v block := by
  refine run.keeps (I := fun s => ∃ v block, Keeps s v block) ⟨_, _, keeps_initial above below⟩ ?_
  rintro s r s' ⟨v, block, keeps⟩ meets served
  obtain ⟨s'', v', block', served', keeps', _⟩ := keeps.serve meets.1 meets.2
  obtain rfl := Option.some.inj (served'.symm.trans served)
  exact ⟨v', block', keeps'⟩

/-- In every run of installs that find room, each list ends behind the common one, and passes an
endpoint exactly once in the frames of its interval. -/
theorem periodic_right {mb : MemoryBlock} (above : 0 < mb.base)
    (below : mb.base + 0x1000 ≤ 2 ^ 32)
    (run : Requests.Run serve Meets ⟨list.initializeTree mb, []⟩ s) : Right s := by
  obtain ⟨v, block, keeps⟩ := run_keeps above below run
  exact keeps.right

section Samples

instance (r : Nat × RawOhciEndpointDescriptor) : Decidable (Proper r) :=
  decidable_of_iff (r.1 ∈ [1, 2, 4, 8, 16, 32] ∧ r.2.isSet .con = false ∧ r.2.isSet .dum = false)
    ⟨fun ⟨interval, noCon, noDum⟩ => ⟨interval, noCon, noDum⟩,
      fun proper => ⟨proper.interval, proper.noCon, proper.noDum⟩⟩

instance (s : OhciInstalls) (r : Nat × RawOhciEndpointDescriptor) : Decidable (s.Room r) :=
  inferInstanceAs (Decidable (_ ∨ _))

instance (s : OhciInstalls) (r : Nat × RawOhciEndpointDescriptor) : Decidable (s.Meets r) :=
  inferInstanceAs (Decidable (_ ∧ _))

def pageBlock : MemoryBlock := ⟨0x1000, 0x1000⟩

def builtList : OhciHccaInterruptList :=
  initializeTree ⟨fun _ => 0, 0, fun _ => .zero, 0⟩ pageBlock

/-- Endpoints of 8 ms and of 32 ms. -/
theorem periodic_right_three : ∃ s, Requests.Run serve Meets ⟨builtList, []⟩ s ∧
    s.installed.length = 3 ∧ Right s := by
  have shown : ((Requests.serveAll serve Meets ⟨builtList, []⟩
      [(8, .zero), (32, .zero), (32, .zero)]).any fun s => decide (s.installed.length = 3)) =
        true := by decide +kernel
  obtain ⟨s, served, three⟩ := (Option.any_eq_true _ _).mp shown
  have run := Requests.serveAll_run served
  exact ⟨s, run, of_decide_eq_true three, periodic_right (by decide) (by decide) run⟩

/-- Every descriptor but the last can be handed out. -/
theorem fills : ∀ n ≤ 218, ∃ s, Requests.Run serve Meets ⟨builtList, []⟩ s ∧
    s.list.endpointsAllocated = 37 + n
  | 0, _ => by
    have sees : Sees builtList builtView 32 := initializeTree_sees (by decide) (by decide)
    exact ⟨_, .refl, sees.allocated⟩
  | n + 1, few => by
    obtain ⟨s, run, allocated⟩ := fills n (Nat.le_of_succ_le few)
    have positive : 0 < pageBlock.base := by decide
    obtain ⟨v, block, keeps⟩ := run_keeps positive (by decide) run
    have proper : Proper (1, .zero) := by decide
    have room : s.list.endpointsAllocated < 255 := by omega
    obtain ⟨index, list, _, _, ok, more, _, _⟩ :=
      keeps.installBehind (h := 0) (by decide) proper rfl room
    have installed : s.list.install 1 .zero = .ok (index, list) := ok
    have served : s.serve (1, .zero) = some ⟨list, s.installed ++ [⟨index, 1, .zero⟩]⟩ := by
      rw [OhciInstalls.serve, installed]
    refine ⟨_, run.tail ⟨_, ⟨proper, Or.inr room⟩, served⟩, more.trans ?_⟩
    rw [allocated, Nat.add_assoc]

/-- With one descriptor left the counter is at its last value. -/
theorem not_served_last : ∃ s r, Requests.Run serve Meets ⟨builtList, []⟩ s ∧
    s.list.endpointsAllocated < 256 ∧ Proper r ∧ s.serve r = none := by
  obtain ⟨s, run, allocated⟩ := fills 218 (Nat.le_refl _)
  have proper : Proper (1, .zero) := by decide
  refine ⟨s, _, run, ?_, proper, Keeps.serve_none proper ?_⟩
  · rw [allocated]
    decide
  · rintro (⟨slow, _⟩ | counter)
    · cases slow
    · rw [allocated] at counter
      exact Nat.lt_irrefl _ counter

end Samples

end OhciInstalls

end EmkKernel
