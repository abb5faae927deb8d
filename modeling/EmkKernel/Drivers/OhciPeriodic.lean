import EmkKernel.Drivers.OhciInterruptList
import Mathlib.Data.List.Perm.Subperm

/-!
# The lists of an OHCI controller after installs

Each of the 37 descriptors that `initialize` sets up is the head of a block, to which
`install` adds. A list passes the blocks of its own place and of the connectors above it.
-/

namespace EmkKernel

open Trails RawOhciEndpointDescriptor EndpointDescriptorBitPart

/-- What of a descriptor the lists depend on, with the index of the next one. -/
structure EdView where
  con : Bool
  dum : Bool
  next : Option Nat
  deriving DecidableEq

namespace OhciHccaInterruptList

variable {list list' : OhciHccaInterruptList} {v : Nat → EdView} {d e i x y : Nat}

/-- The descriptors of the page are seen as described. -/
structure Views (list : OhciHccaInterruptList) (v : Nat → EdView) : Prop where
  above : 0 < list.endpoints
  below : list.endpoints + 0x1000 ≤ 2 ^ 32
  con : ∀ d < 256, (list.memory (list.ep d)).isSet con = (v d).con
  dum : ∀ d < 256, (list.memory (list.ep d)).isSet dum = (v d).dum
  nextEd : ∀ d < 256, (list.memory (list.ep d)).nextEd = (v d).next.elim 0 list.ep
  inside : ∀ d < 256, ∀ e ∈ (v d).next, e < 256

def nextOf (v : Nat → EdView) (d : Nat) : Option Nat := (v d).next

/-- An ordinary descriptor behind another one. -/
def insertView (v : Nat → EdView) (x y : Nat) : Nat → EdView :=
  Function.update (Function.update v y ⟨false, false, (v x).next⟩) x { v x with next := some y }

private theorem nextOf_insertView : nextOf (insertView v x y) = insertAfter (nextOf v) x y := by
  funext d
  rw [nextOf, insertView, insertAfter]
  by_cases front : d = x
  · rw [front, Function.update_self, Function.update_self]
  · rw [Function.update_of_ne front, Function.update_of_ne front]
    by_cases new : d = y
    · rw [new, Function.update_self, Function.update_self]
      rfl
    · rw [Function.update_of_ne new, Function.update_of_ne new]
      rfl

/-- A descriptor without its link. -/
def bare (list : OhciHccaInterruptList) (d : Nat) : RawOhciEndpointDescriptor :=
  (list.memory (list.ep d)).writeNextEd 0

theorem ep_inj : list.ep d = list.ep e ↔ d = e := by
  simp only [ep]
  omega

@[simp] theorem ep_modify (address : Nat)
    (g : RawOhciEndpointDescriptor → RawOhciEndpointDescriptor) :
    (list.modify address g).ep d = list.ep d := rfl

theorem memory_modify (g : RawOhciEndpointDescriptor → RawOhciEndpointDescriptor) :
    (list.modify (list.ep i) g).memory (list.ep d) =
      if d = i then g (list.memory (list.ep d)) else list.memory (list.ep d) := by
  rw [modify]
  by_cases same : d = i
  · rw [if_pos same, same]
    exact Function.update_self ..
  · rw [if_neg same]
    exact Function.update_of_ne (fun equal => same (ep_inj.1 equal)) ..

/-- A descriptor that is changed is seen as it is then. -/
theorem Views.modify (views : Views list v)
    {g : RawOhciEndpointDescriptor → RawOhciEndpointDescriptor} {w : EdView}
    (isCon : (g (list.memory (list.ep i))).isSet .con = w.con)
    (isDum : (g (list.memory (list.ep i))).isSet .dum = w.dum)
    (isNext : (g (list.memory (list.ep i))).nextEd = w.next.elim 0 list.ep)
    (inside : ∀ e ∈ w.next, e < 256) :
    Views (list.modify (list.ep i) g) (Function.update v i w) := by
  refine ⟨views.above, views.below, ?_, ?_, ?_, ?_⟩
  all_goals
    intro d less
    by_cases same : d = i
  · rw [ep_modify, memory_modify, if_pos same, same, Function.update_self, isCon]
  · rw [ep_modify, memory_modify, if_neg same, Function.update_of_ne same]
    exact views.con d less
  · rw [ep_modify, memory_modify, if_pos same, same, Function.update_self, isDum]
  · rw [ep_modify, memory_modify, if_neg same, Function.update_of_ne same]
    exact views.dum d less
  · rw [ep_modify, memory_modify, if_pos same, same, Function.update_self, isNext]
    rfl
  · rw [ep_modify, memory_modify, if_neg same, Function.update_of_ne same]
    exact views.nextEd d less
  · rw [same, Function.update_self]
    exact inside
  · rw [Function.update_of_ne same]
    exact views.inside d less

theorem Views.ep_lt (views : Views list v) (less : d < 256) :
    0 < list.ep d ∧ list.ep d < 2 ^ 32 := by
  have above := views.above
  have below := views.below
  rw [ep]
  omega

/-! ### Installing -/

theorem findAppendEd_block (views : Views list v) {rest : List Nat} {b : Option Nat}
    {n : Nat} (comesFirst : Bool) (leads : Leads (nextOf v) (some d) (d :: rest) b)
    (less : d < 256) (ordinary : ∀ e ∈ rest, (v e).con = false) (stops : ∀ e ∈ b, (v e).con = true)
    (enough : rest.length < n) :
    ∃ x ∈ d :: rest, list.findAppendEd comesFirst n (list.ep d) = some (list.ep x) := by
  induction rest generalizing d n with
  | nil =>
    obtain ⟨n, rfl⟩ := Nat.exists_eq_succ_of_ne_zero (Nat.ne_of_gt enough)
    refine ⟨d, List.mem_cons_self .., ?_⟩
    have ends : (v d).next = b := leads.2
    have link := views.nextEd d less
    rw [findAppendEd, if_neg]
    rw [link, ends]
    cases b with
    | none => simp
    | some e =>
      have below := views.inside d less e ends
      rw [Option.elim_some, views.con e below, stops e rfl]
      simp
  | cons e rest ih =>
    obtain ⟨n, rfl⟩ := Nat.exists_eq_succ_of_ne_zero (Nat.ne_of_gt (Nat.zero_lt_of_lt enough))
    have next : (v d).next = some e := leads.2.1
    have below := views.inside d less e next
    have link : (list.memory (list.ep d)).nextEd = list.ep e := by
      rw [views.nextEd d less, next, Option.elim_some]
    have goes : list.ep e ≠ 0 ∧ (list.memory (list.ep e)).isSet con = false :=
      ⟨Nat.ne_of_gt (views.ep_lt below).1,
        (views.con e below).trans (ordinary e (List.mem_cons_self ..))⟩
    rw [findAppendEd, link, if_pos goes]
    split
    · -- an isochronous descriptor comes behind all others
      exact ⟨d, List.mem_cons_self .., rfl⟩
    · have behind : Leads (nextOf v) (some e) (e :: rest) b := ⟨rfl, leads.2.2⟩
      have enough' : rest.length < n := Nat.lt_of_succ_lt_succ enough
      obtain ⟨x, member, found⟩ := ih behind below
        (fun e' member => ordinary e' (List.mem_cons_of_mem _ member)) enough'
      exact ⟨x, List.mem_cons_of_mem _ member, found⟩

theorem modify_modify (address : Nat)
    (g g' : RawOhciEndpointDescriptor → RawOhciEndpointDescriptor) :
    (list.modify address g).modify address g' = list.modify address fun ed => g' (g ed) := by
  simp [modify]

theorem appendAt_views (views : Views list v) {epd : RawOhciEndpointDescriptor}
    (noCon : epd.isSet con = false) (noDum : epd.isSet dum = false)
    (earlier : x < list.endpointsAllocated) (room : list.endpointsAllocated < 255) :
    ∃ list', list.appendAt (list.ep x) epd = .ok (list.endpointsAllocated, list') ∧
      list'.endpoints = list.endpoints ∧ list'.hcca = list.hcca ∧
      list'.endpointsAllocated = list.endpointsAllocated + 1 ∧
      Views list' (insertView v x list.endpointsAllocated) ∧
      ∀ d, list'.bare d =
        if d = list.endpointsAllocated then epd.writeNextEd 0 else list.bare d := by
  have less : x < 256 := by omega
  have new : list.endpointsAllocated < 256 := by omega
  have apart : list.ep x ≠ list.ep list.endpointsAllocated :=
    fun same => Nat.ne_of_lt earlier (ep_inj.1 same)
  have later := views.ep_lt new
  have link := views.nextEd x less
  have linkInside : (list.memory (list.ep x)).nextEd < 2 ^ 32 := BitVec.isLt _
  -- the descriptor is written twice before the other one is linked to it
  let middle := list.modify (list.ep list.endpointsAllocated) fun _ =>
    epd.writeNextEd (list.memory (list.ep x)).nextEd
  have first : Views middle
      (Function.update v list.endpointsAllocated ⟨false, false, (v x).next⟩) := by
    apply views.modify
    · exact noCon
    · exact noDum
    · exact (nextEd_writeNextEd _ linkInside).trans link
    · exact views.inside x less
  have same : middle.memory (list.ep x) = list.memory (list.ep x) :=
    Function.update_of_ne apart ..
  have second : Views (middle.modify (middle.ep x) fun ed =>
      ed.writeNextEd (list.ep list.endpointsAllocated))
      (insertView v x list.endpointsAllocated) := by
    apply first.modify
    · exact (congrArg (·.isSet con) same).trans (views.con x less)
    · exact (congrArg (·.isSet dum) same).trans (views.dum x less)
    · exact nextEd_writeNextEd _ later.2
    · intro e here
      cases here
      exact new
  refine ⟨{ middle.modify (middle.ep x) fun ed =>
    ed.writeNextEd (list.ep list.endpointsAllocated) with
      endpointsAllocated := list.endpointsAllocated + 1 }, ?_, rfl, rfl, rfl, ?_, fun d => ?_⟩
  · have unread : (list.modify (list.ep list.endpointsAllocated) fun _ => epd).memory
        (list.ep x) = list.memory (list.ep x) := Function.update_of_ne apart ..
    have small : list.endpointsAllocated + 1 < 256 := by omega
    simp only [appendAt, modify_modify, unread]
    rw [if_pos]
    · rfl
    · exact small
  · exact ⟨second.above, second.below, second.con, second.dum, second.nextEd, second.inside⟩
  · -- the descriptor in front differs in its link only
    have written : middle.bare d =
        if d = list.endpointsAllocated then epd.writeNextEd 0 else list.bare d := by
      change ((list.modify (list.ep list.endpointsAllocated) _).memory
        (list.ep d)).writeNextEd 0 = _
      rw [memory_modify]
      split <;> rfl
    have linked : (middle.modify (middle.ep x) fun ed =>
        ed.writeNextEd (list.ep list.endpointsAllocated)).bare d = middle.bare d := by
      change ((middle.modify (middle.ep x) _).memory (middle.ep d)).writeNextEd 0 = _
      rw [memory_modify]
      split <;> rfl
    exact linked.trans written

/-! ### The tree -/

/-- The connector that a place leads to. -/
def connectorOf (i : Nat) : Nat :=
  if i % 16 = 0 then 4 else if i % 8 = 0 then 3 else if i % 4 = 0 then 2
  else if i % 2 = 0 then 1 else 0

/-- The head of the block behind that of a head. -/
def parentOf (h : Nat) : Option Nat :=
  if h = 0 then none else if h < 5 then some (h - 1) else some (connectorOf (h - 5))

/-- The heads that a list passes. -/
def chain (f : Nat) : List Nat := (5 + f) :: (List.range (connectorOf f + 1)).reverse

private theorem leads_chain : ∀ f < 32, Leads parentOf (some (5 + f)) (chain f) none := by decide

theorem mem_chain : ∀ f < 32, ∀ h < 37, h ∈ chain f ↔ if h < 5 then f % 2 ^ h = 0 else f = h - 5 :=
  by decide +kernel

theorem chain_lt : ∀ f < 32, ∀ h ∈ chain f, h < 37 := by decide

private theorem parentOf_lt : ∀ h < 37, ∀ e ∈ parentOf h, e < 5 := by decide

/-- The descriptors of each block, from its head on, lead to the next head. -/
structure Tree (list : OhciHccaInterruptList) (v : Nat → EdView) (block : Nat → List Nat) :
    Prop where
  views : Views list v
  hcca : ∀ i < 32, list.hccaEp i = list.ep (5 + i)
  allocated : 37 ≤ list.endpointsAllocated
  small : list.endpointsAllocated < 256
  con : ∀ d < 256, (v d).con = decide (d < 5)
  leads : ∀ h < 37, Leads (nextOf v) (some h) (block h) (parentOf h)
  head : ∀ h < 37, ∃ rest, block h = h :: rest ∧
    ∀ d ∈ rest, 37 ≤ d ∧ d < list.endpointsAllocated
  apart : ∀ h < 37, ∀ h' < 37, ∀ d, d ∈ block h → d ∈ block h' → h = h'

variable {block : Nat → List Nat} {h f : Nat} {epd : RawOhciEndpointDescriptor}

/-- A list passes its place and the connectors above it, each with its block. -/
theorem Tree.passes (tree : Tree list v block) (less : f < 32) :
    Leads (nextOf v) (some (5 + f)) ((chain f).flatMap block) none := by
  refine (leads_chain f less).refine id fun h member => ?_
  rw [Option.map_id]
  exact tree.leads h (chain_lt f less h member)

theorem Tree.below (tree : Tree list v block) (less : h < 37) (member : d ∈ block h) :
    d < list.endpointsAllocated := by
  obtain ⟨rest, same, added⟩ := tree.head h less
  rw [same] at member
  rcases List.mem_cons.mp member with rfl | later
  · exact Nat.lt_of_lt_of_le less tree.allocated
  · exact (added d later).2

/-- A block is no longer than the page. -/
theorem Tree.length_le (tree : Tree list v block) (less : h < 37) : (block h).length ≤ 256 := by
  have place : h - 5 < 32 := by omega
  have member : h ∈ chain (h - 5) := by
    rw [mem_chain _ place h less]
    split
    next connector => rw [Nat.sub_eq_zero_of_le (Nat.le_of_lt connector), Nat.zero_mod]
    next => rfl
  have nodup := ((List.nodup_flatMap).mp (tree.passes place).nodup).1 h member
  have inside : block h ⊆ List.range 256 := fun d here =>
    List.mem_range.mpr (Nat.lt_trans (tree.below less here) tree.small)
  have count := (List.Nodup.subperm nodup inside).length_le
  rwa [List.length_range] at count

/-- A descriptor is put behind one of a block. -/
theorem Tree.insert (tree : Tree list v block) {x : Nat} (less : h < 37) (member : x ∈ block h)
    (room : list.endpointsAllocated < 255) (endpoints : list'.endpoints = list.endpoints)
    (hcca : list'.hcca = list.hcca)
    (allocated : list'.endpointsAllocated = list.endpointsAllocated + 1)
    (views : Views list' (insertView v x list.endpointsAllocated)) :
    Tree list' (insertView v x list.endpointsAllocated)
      fun h' => splice x list.endpointsAllocated (block h') := by
  have low := tree.allocated
  have earlier : x < list.endpointsAllocated := tree.below less member
  have fresh (h') (less' : h' < 37) : list.endpointsAllocated ∉ block h' := fun here =>
    Nat.lt_irrefl _ (tree.below less' here)
  refine ⟨views, fun i small => ?_, ?_, ?_, fun d small => ?_, fun h' less' => ?_,
    fun h' less' => ?_, fun h₁ less₁ h₂ less₂ d here there => ?_⟩
  · rw [hccaEp, hcca, ep, endpoints]
    exact tree.hcca i small
  · omega
  · omega
  · rw [insertView]
    by_cases front : d = x
    · rw [front, Function.update_self]
      exact tree.con x (front ▸ small)
    · rw [Function.update_of_ne front]
      by_cases new : d = list.endpointsAllocated
      · rw [new, Function.update_self]
        exact (decide_eq_false (by omega)).symm
      · rw [Function.update_of_ne new]
        exact tree.con d small
  · rw [nextOf_insertView]
    exact (tree.leads h' less').insert (fresh h' less') (Nat.ne_of_lt earlier)
  · obtain ⟨rest, same, added⟩ := tree.head h' less'
    rw [same, splice_cons, allocated]
    have later (d) (here : d ∈ splice x list.endpointsAllocated rest) :
        37 ≤ d ∧ d < list.endpointsAllocated + 1 := by
      rcases mem_splice.mp here with old | ⟨rfl, _⟩
      · exact ⟨(added d old).1, Nat.lt_succ_of_lt (added d old).2⟩
      · exact ⟨low, Nat.lt_succ_self _⟩
    split
    next front =>
      subst front
      refine ⟨_, rfl, fun d here => ?_⟩
      rcases List.mem_cons.mp here with rfl | old
      · exact ⟨low, Nat.lt_succ_self _⟩
      · exact later d old
    next => exact ⟨_, rfl, later⟩
  · rcases mem_splice.mp here with old | ⟨rfl, front⟩
    · rcases mem_splice.mp there with old' | ⟨rfl, _⟩
      · exact tree.apart h₁ less₁ h₂ less₂ d old old'
      · exact absurd old (fresh h₁ less₁)
    · rcases mem_splice.mp there with old' | ⟨_, front'⟩
      · exact absurd old' (fresh h₂ less₂)
      · exact tree.apart h₁ less₁ h₂ less₂ x front front'

/-- The walk from a head ends in its block, and the new descriptor comes behind. -/
theorem Tree.installBehind (tree : Tree list v block) (less : h < 37)
    (noCon : epd.isSet .con = false) (noDum : epd.isSet .dum = false)
    (room : list.endpointsAllocated < 255) :
    ∃ x list', x ∈ block h ∧
      list.installBehind (list.ep h) epd = .ok (list.endpointsAllocated, list') ∧
      list'.endpointsAllocated = list.endpointsAllocated + 1 ∧
      Tree list' (insertView v x list.endpointsAllocated)
        (fun h' => splice x list.endpointsAllocated (block h')) ∧
      ∀ d, list'.bare d =
        if d = list.endpointsAllocated then epd.writeNextEd 0 else list.bare d := by
  obtain ⟨rest, same, added⟩ := tree.head h less
  have leads := tree.leads h less
  have length := tree.length_le less
  have small := tree.small
  rw [same] at leads length
  obtain ⟨x, member, found⟩ := findAppendEd_block tree.views (!epd.isSet .f) leads
    (by omega)
    (fun e here => by
      obtain ⟨above, below⟩ := added e here
      rw [tree.con e (by omega)]
      exact decide_eq_false (by omega))
    (fun e here => by
      have low := parentOf_lt h less e here
      rw [tree.con e (by omega)]
      exact decide_eq_true low)
    (Nat.lt_of_succ_le length)
  have here : x ∈ block h := same ▸ member
  obtain ⟨list', ok, endpoints, hcca, allocated, views, contents⟩ :=
    appendAt_views tree.views noCon noDum (tree.below less here) room
  refine ⟨x, list', here, ?_, allocated,
    tree.insert less here room endpoints hcca allocated views, contents⟩
  rw [OhciHccaInterruptList.installBehind, found]
  exact ok

/-- A place is taken: no link changes. -/
theorem Tree.place (tree : Tree list v block) (less : i < 32) (noCon : epd.isSet .con = false)
    (noDum : epd.isSet .dum = false) :
    Tree (list.modify (list.hccaEp i) fun ed => epd.writeNextEd ed.nextEd)
      (Function.update v (5 + i) ⟨false, false, (v (5 + i)).next⟩) block := by
  have inside : 5 + i < 256 := by omega
  have links : nextOf (Function.update v (5 + i) ⟨false, false, (v (5 + i)).next⟩) = nextOf v := by
    funext d
    rw [nextOf]
    by_cases here : d = 5 + i
    · rw [here, Function.update_self]
      rfl
    · rw [Function.update_of_ne here]
      rfl
  rw [tree.hcca i less]
  refine ⟨?_, tree.hcca, tree.allocated, tree.small, fun d small => ?_, ?_, tree.head, tree.apart⟩
  · apply tree.views.modify
    · exact noCon
    · exact noDum
    · exact (nextEd_writeNextEd _ (BitVec.isLt _)).trans (tree.views.nextEd _ inside)
    · exact tree.views.inside _ inside
  · by_cases here : d = 5 + i
    · rw [here, Function.update_self]
      exact (decide_eq_false (by omega)).symm
    · rw [Function.update_of_ne here]
      exact tree.con d small
  · rw [links]
    exact tree.leads

/-! ### Initialisation -/

def initialView (d : Nat) : EdView :=
  ⟨decide (d < 5), decide (5 ≤ d ∧ d < 37), if d < 37 then parentOf d else none⟩

def setCon (v : Nat → EdView) (i : Nat) : Nat → EdView :=
  Function.update v i { v i with con := true }

def setDum (v : Nat → EdView) (i : Nat) : Nat → EdView :=
  Function.update v i { v i with dum := true }

def setNext (v : Nat → EdView) (i e : Nat) : Nat → EdView :=
  Function.update v i { v i with next := some e }

/-- Every write of `initialize`, as it is seen. -/
def builtView : Nat → EdView :=
  let v := [0, 1, 2, 3, 4].foldl setCon fun _ => ⟨false, false, none⟩
  let v := [(4, 3), (3, 2), (2, 1), (1, 0)].foldl (fun v p => setNext v p.1 p.2) v
  let v := (List.range 32).foldl (fun v i => setDum v (5 + i)) v
  let v := evenLinks.foldl (fun v p => setNext v (5 + p.1) p.2) v
  (List.range 32).foldl (fun v i => if i % 2 = 1 then setNext v (5 + i) 0 else v) v

private theorem builtView_eq : ∀ d < 256, builtView d = initialView d := by decide +kernel

/-- The view, with the places there are. -/
structure Sees (list : OhciHccaInterruptList) (v : Nat → EdView) (n : Nat) : Prop where
  views : Views list v
  hcca : ∀ i < n, list.hccaEp i = list.ep (5 + i)
  allocated : list.endpointsAllocated = 5 + n

variable {n : Nat}

theorem Sees.connect (sees : Sees list v n) (less : i < 256) :
    Sees (list.connect i) (setCon v i) n := by
  refine ⟨?_, sees.hcca, sees.allocated⟩
  apply sees.views.modify
  · rw [isSet_set, if_pos rfl]
  · rw [isSet_set, if_neg (by decide), isSet_set, if_neg (by decide)]
    exact sees.views.dum i less
  · exact sees.views.nextEd i less
  · exact sees.views.inside i less

theorem Sees.link (sees : Sees list v n) (less : i < 256) (target : e < 256) :
    Sees (list.link (list.ep i) e) (setNext v i e) n := by
  refine ⟨?_, sees.hcca, sees.allocated⟩
  apply sees.views.modify
  · exact sees.views.con i less
  · exact sees.views.dum i less
  · exact nextEd_writeNextEd _ (sees.views.ep_lt target).2
  · rintro _ ⟨⟩
    exact target

theorem Sees.createPlace (sees : Sees list v n) (less : n < 32) :
    Sees (list.createPlace n) (setDum v (5 + n)) (n + 1) := by
  have inside : 5 + n < 256 := by omega
  have created : Views (list.modify (list.ep (5 + n)) fun ed => (ed.set .k true).set .dum true)
      (setDum v (5 + n)) := by
    apply sees.views.modify
    · rw [isSet_set, if_neg (by decide), isSet_set, if_neg (by decide)]
      exact sees.views.con _ inside
    · rw [isSet_set, if_pos rfl]
    · exact sees.views.nextEd _ inside
    · exact sees.views.inside _ inside
  rw [OhciHccaInterruptList.createPlace, sees.allocated]
  refine ⟨⟨created.above, created.below, ?_, ?_, ?_, created.inside⟩, fun i small => ?_, rfl⟩
  · exact created.con
  · exact created.dum
  · exact created.nextEd
  · change (Function.update list.hcca n (BitVec.ofNat 32 (list.ep (5 + n))) i).toNat =
      list.ep (5 + i)
    by_cases last : i = n
    · rw [last, Function.update_self, BitVec.toNat_ofNat]
      exact Nat.mod_eq_of_lt (sees.views.ep_lt inside).2
    · rw [Function.update_of_ne last]
      exact sees.hcca i (by omega)

private theorem Sees.createPlaces (sees : Sees list v 0) : ∀ n ≤ 32,
    Sees ((List.range n).foldl OhciHccaInterruptList.createPlace list)
      ((List.range n).foldl (fun v i => setDum v (5 + i)) v) n
  | 0, _ => sees
  | n + 1, few => by
    rw [List.range_succ, List.foldl_append, List.foldl_append]
    exact (sees.createPlaces n (Nat.le_of_succ_le few)).createPlace few

/-- The list of an aligned page below 4 GiB after `initialize`. -/
theorem initializeTree_sees {mb : MemoryBlock} (above : 0 < mb.base)
    (below : mb.base + 0x1000 ≤ 2 ^ 32) : Sees (list.initializeTree mb) builtView 32 := by
  have zeroed : Sees { list with
      endpoints := mb.base
      memory := fun address =>
        if mb.base ≤ address ∧ address < mb.base + 0x1000 then zero else list.memory address
      endpointsAllocated := 5 } (fun _ => ⟨false, false, none⟩) 0 := by
    have inside (d : Nat) (less : d < 256) :
        (if mb.base ≤ mb.base + 16 * d ∧ mb.base + 16 * d < mb.base + 0x1000 then zero
          else list.memory (mb.base + 16 * d)) = zero := if_pos (by omega)
    refine ⟨⟨above, below, fun d less => ?_, fun d less => ?_, fun d less => ?_, ?_⟩, ?_, rfl⟩
    · exact congrArg (·.isSet .con) (inside d less)
    · exact congrArg (·.isSet .dum) (inside d less)
    · exact congrArg (·.nextEd) (inside d less)
    · intro d _ e none
      cases none
    · intro i less
      exact absurd less (Nat.not_lt_zero i)
  have connected := List.foldl_rel (l := [0, 1, 2, 3, 4]) (r := fun l v => Sees l v 0) zeroed
    fun i member l v sees => sees.connect (i := i) (by
      have : ∀ i ∈ [0, 1, 2, 3, 4], i < 256 := by decide
      exact this i member)
  have linked := List.foldl_rel (l := [(4, 3), (3, 2), (2, 1), (1, 0)])
    (r := fun l v => Sees l v 0) connected (f := fun l p => l.link (l.ep p.1) p.2)
    (g := fun v p => setNext v p.1 p.2) fun p member l v sees => by
      have small : ∀ p ∈ [(4, 3), (3, 2), (2, 1), (1, 0)], p.1 < 256 ∧ p.2 < 256 := by decide
      exact sees.link (small p member).1 (small p member).2
  have placed := linked.createPlaces 32 (Nat.le_refl _)
  have even := List.foldl_rel (l := evenLinks) (r := fun l v => Sees l v 32) placed
    (f := fun l p => l.link (l.hccaEp p.1) p.2) (g := fun v p => setNext v (5 + p.1) p.2)
    fun p member l v sees => by
      have small : ∀ p ∈ evenLinks, p.1 < 32 ∧ p.2 < 256 := by decide
      obtain ⟨place, target⟩ := small p member
      rw [sees.hcca p.1 place]
      exact sees.link (by omega) target
  exact List.foldl_rel (l := List.range 32) (r := fun l v => Sees l v 32) even
    (f := fun l i => if i % 2 = 1 then l.link (l.hccaEp i) 0 else l)
    (g := fun v i => if i % 2 = 1 then setNext v (5 + i) 0 else v)
    fun i member l v sees => by
      have place := List.mem_range.mp member
      split
      next =>
        rw [sees.hcca i place]
        exact sees.link (by omega) (by decide)
      next => exact sees

theorem Views.congr {v' : Nat → EdView} (views : Views list v) (same : ∀ d < 256, v' d = v d) :
    Views list v' :=
  ⟨views.above, views.below, fun d less => same d less ▸ views.con d less,
    fun d less => same d less ▸ views.dum d less,
    fun d less => same d less ▸ views.nextEd d less,
    fun d less => same d less ▸ views.inside d less⟩

/-- Every block is its head at first. -/
theorem initializeTree_tree {mb : MemoryBlock} (above : 0 < mb.base)
    (below : mb.base + 0x1000 ≤ 2 ^ 32) :
    Tree (list.initializeTree mb) initialView fun h => [h] := by
  have sees : Sees (list.initializeTree mb) builtView 32 := initializeTree_sees above below
  have allocated := sees.allocated
  refine ⟨sees.views.congr fun d less => (builtView_eq d less).symm, sees.hcca, ?_, ?_,
    fun _ _ => rfl, fun h less => ⟨rfl, if_pos less⟩, fun h _ => ⟨[], rfl, ?_⟩,
    fun h _ h' _ d here there => ?_⟩
  · exact Nat.le_of_eq allocated.symm
  · omega
  · intro d none
    exact absurd none List.not_mem_nil
  · exact (List.mem_singleton.mp here).symm.trans (List.mem_singleton.mp there)

end OhciHccaInterruptList

end EmkKernel
