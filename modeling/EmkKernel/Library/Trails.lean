import Mathlib.Algebra.Ring.Nat
import Mathlib.Data.List.Basic
import Mathlib.Data.List.Nodup
import Mathlib.Data.Set.Lattice
import Mathlib.Order.CompletePartialOrder
import Mathlib.Tactic.Common

/-!
# Trails of links

Every element points at another one or at nothing. A trail is what is passed on the way from
one place to another; several trails may share their ends. An element put behind one that
lies on a trail appears on all trails through that one, and on no other.
-/

namespace Trails

variable {α β : Type*} {next next' : α → Option α} {a b c : Option α} {l l' : List α}

/-- From `a` the links lead through the elements of the list to `b`. -/
def Leads (next : α → Option α) : Option α → List α → Option α → Prop
  | a, [], b => a = b
  | a, x :: rest, b => a = some x ∧ Leads next (next x) rest b

instance Leads.decidable [DecidableEq α] (next : α → Option α) (b : Option α) :
    (l : List α) → (a : Option α) → Decidable (Leads next a l b)
  | [], a => inferInstanceAs (Decidable (a = b))
  | x :: rest, a =>
    have := Leads.decidable next b rest (next x)
    inferInstanceAs (Decidable (a = some x ∧ Leads next (next x) rest b))

@[simp] theorem leads_nil : Leads next a [] b ↔ a = b := Iff.rfl

@[simp] theorem leads_cons {x : α} :
    Leads next a (x :: l) b ↔ a = some x ∧ Leads next (next x) l b := Iff.rfl

theorem leads_append : Leads next a (l ++ l') c ↔ ∃ b, Leads next a l b ∧ Leads next b l' c := by
  induction l generalizing a with
  | nil => simp
  | cons x rest ih => simp [ih, and_assoc]

/-- Only the links of the elements passed matter. -/
theorem Leads.congr (leads : Leads next a l b) (same : ∀ x ∈ l, next' x = next x) :
    Leads next' a l b := by
  induction l generalizing a with
  | nil => exact leads
  | cons x rest ih =>
    obtain ⟨here, behind⟩ := leads
    refine ⟨here, ?_⟩
    rw [same x List.mem_cons_self]
    exact ih behind fun y member => same y (List.mem_cons_of_mem x member)

/-- There is one trail to the end. -/
theorem Leads.unique (first : Leads next a l none) (second : Leads next a l' none) : l = l' := by
  induction l generalizing a l' with
  | nil =>
    cases l' with
    | nil => rfl
    | cons y rest => cases first.symm.trans second.1
  | cons x rest ih =>
    cases l' with
    | nil => cases second.symm.trans first.1
    | cons y rest' =>
      obtain rfl : x = y := Option.some.inj (first.1.symm.trans second.1)
      rw [ih first.2 second.2]

/-- A trail to the end passes no element twice. -/
theorem Leads.nodup (leads : Leads next a l none) : l.Nodup := by
  induction l generalizing a with
  | nil => exact List.nodup_nil
  | cons x rest ih =>
    obtain ⟨here, behind⟩ := leads
    refine List.nodup_cons.mpr ⟨fun again => ?_, ih behind⟩
    obtain ⟨front, back, rfl⟩ := List.append_of_mem again
    -- the trail goes on from both occurrences in the same way, but one way is shorter
    obtain ⟨b, _, later⟩ := leads_append.mp behind
    have later' : Leads next (some x) (x :: back) none := ⟨rfl, later.2⟩
    have same := later'.unique (leads_cons.mpr ⟨rfl, behind⟩)
    have lengths := congrArg List.length same
    simp at lengths
    omega

/-- Behind an element of a trail to the end the trail goes on to the end. -/
theorem Leads.behind {x : α} {front back : List α}
    (leads : Leads next a (front ++ x :: back) none) :
    Leads next (next x) back none := by
  obtain ⟨b, _, later⟩ := leads_append.mp leads
  exact later.2

/-- Who comes back to an element never gets to the end. -/
theorem Leads.endless {y : α} {round : List α} (back : Leads next (some y) (y :: round) (some y)) :
    ¬Leads next (some y) l none := by
  intro leads
  obtain ⟨rest, rfl⟩ : ∃ rest, l = y :: rest := by
    cases l with
    | nil => cases leads
    | cons z rest => exact ⟨rest, by rw [Option.some.inj leads.1]⟩
  -- the round may be passed once more
  have again : Leads next (some y) ((y :: round) ++ (y :: rest)) none :=
    leads_append.mpr ⟨some y, back, leads⟩
  have lengths := congrArg List.length (again.unique leads)
  rw [List.length_append, List.length_cons] at lengths
  omega

/-- Each element of a coarse trail stands for a trail to the next one. -/
theorem Leads.refine {parent : β → Option β} {block : β → List α} {a b : Option β} {hs : List β}
    (coarse : Leads parent a hs b) (place : β → α)
    (blocks : ∀ h ∈ hs, Leads next (some (place h)) (block h) ((parent h).map place)) :
    Leads next (a.map place) (hs.flatMap block) (b.map place) := by
  induction hs generalizing a with
  | nil => exact congrArg (Option.map place) coarse
  | cons h rest ih =>
    obtain ⟨here, behind⟩ := coarse
    rw [List.flatMap_cons, leads_append, here]
    refine ⟨(parent h).map place, blocks h List.mem_cons_self, ?_⟩
    exact ih behind fun k member => blocks k (List.mem_cons_of_mem h member)

section Insert

variable [DecidableEq α] {x y z : α} {front back tail : List α}

/-- The links after `y` was put behind `x`. -/
def insertAfter (next : α → Option α) (x y : α) : α → Option α :=
  Function.update (Function.update next y (next x)) x (some y)

/-- What a trail passes after `y` was put behind `x`. -/
def splice (x y : α) (l : List α) : List α := l.flatMap fun z => if z = x then [x, y] else [z]

@[simp] theorem splice_nil : splice x y [] = [] := rfl

theorem splice_cons : splice x y (z :: l) =
    if z = x then x :: y :: splice x y l else z :: splice x y l := by
  rw [splice, List.flatMap_cons]
  split <;> rfl

theorem mem_splice : z ∈ splice x y l ↔ z ∈ l ∨ z = y ∧ x ∈ l := by
  induction l with
  | nil => simp
  | cons w rest ih =>
    rw [splice_cons]
    split
    next here =>
      subst here
      simp only [List.mem_cons, ih, true_or, and_true]
      tauto
    next other =>
      simp only [List.mem_cons, ih, Ne.symm other, false_or, or_assoc]

theorem sublist_splice : l.Sublist (splice x y l) := by
  induction l with
  | nil => exact List.Sublist.refl _
  | cons w rest ih =>
    rw [splice_cons]
    split
    next here =>
      subst here
      exact (ih.cons y).cons_cons w
    next => exact ih.cons_cons w

/-- A new element is passed right behind the one it was put behind. -/
theorem Leads.insert (leads : Leads next a l b) (fresh : y ∉ l) (different : x ≠ y) :
    Leads (insertAfter next x y) a (splice x y l) b := by
  induction l generalizing a with
  | nil => exact leads
  | cons z rest ih =>
    obtain ⟨here, behind⟩ := leads
    have later := ih behind fun member => fresh (List.mem_cons_of_mem z member)
    rw [splice_cons]
    split
    next same =>
      subst same
      refine ⟨here, ?_⟩
      rw [insertAfter, Function.update_self, leads_cons]
      refine ⟨rfl, ?_⟩
      rw [Function.update_of_ne different.symm, Function.update_self]
      exact later
    next other =>
      refine ⟨here, ?_⟩
      have old : z ≠ y := fun same => fresh (same ▸ List.mem_cons_self)
      rw [insertAfter, Function.update_of_ne other, Function.update_of_ne old]
      exact later

/-- An element is put behind another one and leaves what was behind it. -/
theorem Leads.relink (leads : Leads next a (front ++ y :: back) none) (different : x ≠ y)
    (behind : Leads next (next x) tail none) (absent : y ∉ tail) :
    Leads (insertAfter next x y) a (front ++ y :: tail) none := by
  have nodup := leads.nodup
  have other : x ∉ front := fun member => by
    obtain ⟨first, rest, rfl⟩ := List.append_of_mem member
    rw [List.append_assoc] at leads
    have same : rest ++ y :: back = tail := Leads.unique leads.behind behind
    exact absent (same ▸ List.mem_append_right rest List.mem_cons_self)
  have own : y ∉ front := fun member =>
    List.disjoint_of_nodup_append nodup member List.mem_cons_self
  have later : x ∉ tail := (List.nodup_cons.mp
    (Leads.nodup (leads_cons.mpr ⟨rfl, behind⟩ : Leads next (some x) (x :: tail) none))).1
  have links (z : α) (notX : z ≠ x) (notY : z ≠ y) : insertAfter next x y z = next z := by
    rw [insertAfter, Function.update_of_ne notX, Function.update_of_ne notY]
  obtain ⟨b, before, here, _⟩ := leads_append.mp leads
  refine leads_append.mpr ⟨b, before.congr fun z member => ?_, here, ?_⟩
  · exact links z (ne_of_mem_of_not_mem member other) (ne_of_mem_of_not_mem member own)
  · rw [insertAfter, Function.update_of_ne different.symm, Function.update_self]
    refine behind.congr fun z member => ?_
    exact links z (ne_of_mem_of_not_mem member later) (ne_of_mem_of_not_mem member absent)

/-- An element that is put in front of itself closes a circle. -/
theorem Leads.circle (behind : Leads next (next x) (front ++ y :: back) none) (different : x ≠ y) :
    Leads (insertAfter next x y) (some y) (y :: front) (some y) := by
  have nodup : (x :: (front ++ y :: back)).Nodup :=
    Leads.nodup (leads_cons.mpr ⟨rfl, behind⟩ : Leads next (some x) (x :: _) none)
  obtain ⟨other, inner⟩ := List.nodup_cons.mp nodup
  obtain ⟨b, before, here, _⟩ := leads_append.mp behind
  refine ⟨rfl, ?_⟩
  rw [insertAfter, Function.update_of_ne different.symm, Function.update_self, ← here]
  refine before.congr fun z member => ?_
  have notX : z ≠ x := fun same => other (same ▸ List.mem_append_left _ member)
  have notY : z ≠ y := fun same =>
    List.disjoint_of_nodup_append inner member (same ▸ List.mem_cons_self)
  rw [Function.update_of_ne notX, Function.update_of_ne notY]

end Insert

end Trails
