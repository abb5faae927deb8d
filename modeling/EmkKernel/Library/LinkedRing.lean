import Mathlib.Algebra.Ring.Nat
import Mathlib.Data.List.Chain
import Mathlib.Data.List.Nodup
import Mathlib.Data.Set.Lattice
import Mathlib.Order.CompletePartialOrder
import Mathlib.Tactic.Common

/-!
# Rings of links

Elements that point at each other form a ring from a first element if the links lead through all
of them and back to the first one.
-/

namespace LinkedRing

variable {α : Type*} (links : α → α → Prop)

/-- The links lead through the elements, each of them once, in some order. -/
def IsRing (first : α) (elements : List α) : Prop :=
  ∃ rest, (first :: rest).Perm elements ∧ (first :: rest).Nodup ∧
    ((first :: rest) ++ [first]).IsChain links

variable {links} {first : α} {elements : List α}

/-- Behind an element of a chain there is another one. -/
theorem exists_next {list : List α} {last x : α} (chain : (list ++ [last]).IsChain links)
    (found : x ∈ list) : ∃ y ∈ list ++ [last], links x y := by
  obtain ⟨front, back, rfl⟩ := List.append_of_mem found
  rw [List.append_assoc, List.cons_append] at chain
  have behind := (List.isChain_append.mp chain).2.1
  cases back with
  | nil => exact ⟨last, by simp, (List.isChain_cons_cons.mp behind).1⟩
  | cons y back => exact ⟨y, by simp, (List.isChain_cons_cons.mp behind).1⟩

/-- Every element of a ring points at an element of it. -/
theorem IsRing.closed (ring : IsRing links first elements) {x : α} (found : x ∈ elements) :
    ∃ y ∈ elements, links x y := by
  obtain ⟨rest, perm, _, chain⟩ := ring
  obtain ⟨y, member, link⟩ := exists_next chain (perm.mem_iff.mpr found)
  refine ⟨y, perm.mem_iff.mp ?_, link⟩
  rcases List.mem_append.mp member with here | back
  · exact here
  · rw [List.mem_singleton.mp back]
    exact List.mem_cons_self

theorem IsRing.first_mem (ring : IsRing links first elements) : first ∈ elements := by
  obtain ⟨_, perm, _⟩ := ring
  exact perm.mem_iff.mp List.mem_cons_self

/-- Numbered elements that point at the next one, and the last one at the first one. -/
theorem isRing_numbered {element : Nat → α} {n : Nat} (positive : 0 < n)
    (distinct : ∀ i < n, ∀ j < n, element i = element j → i = j)
    (next : ∀ i, i + 1 < n → links (element i) (element (i + 1)))
    (back : links (element (n - 1)) (element 0)) :
    IsRing links (element 0) ((List.range n).map element) := by
  obtain ⟨n, rfl⟩ : ∃ m, n = m + 1 := ⟨n - 1, by omega⟩
  have whole : (List.range (n + 1)).map element =
      element 0 :: (List.range n).map fun i => element (i + 1) := by
    rw [List.range_succ_eq_map, List.map_cons, List.map_map]
    rfl
  refine ⟨(List.range n).map fun i => element (i + 1), ?_, ?_, ?_⟩
  · rw [whole]
  · rw [← whole]
    exact List.Nodup.map_on (fun i inside j inside' => distinct i (List.mem_range.mp inside) j
      (List.mem_range.mp inside')) List.nodup_range
  · rw [← whole, List.isChain_append]
    refine ⟨?_, List.isChain_singleton _, ?_⟩
    · rw [List.isChain_iff_getElem]
      intro i inside
      rw [List.length_map, List.length_range] at inside
      simp only [List.getElem_map, List.getElem_range]
      exact next i inside
    · intro x last y start
      rw [List.range_succ, List.map_append, List.map_singleton, List.getLast?_concat] at last
      cases last
      cases start
      exact back

end LinkedRing
