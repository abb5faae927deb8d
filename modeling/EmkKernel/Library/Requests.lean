import Mathlib.Algebra.Ring.Nat
import Mathlib.Data.Set.Lattice
import Mathlib.Logic.Relation
import Mathlib.Order.CompletePartialOrder
import Mathlib.Tactic.Common

/-!
# Runs of a machine that serves requests

A machine serves a request in a state or fails. A run serves requests that meet a
condition on the state, one after another; what each of them keeps, a run keeps.
-/

namespace Requests

variable {S R : Type*} {serve : S → R → Option S} {meets : S → R → Prop} {s s' : S}

/-- A step serves a request that meets the condition. -/
def Step (serve : S → R → Option S) (meets : S → R → Prop) (s s' : S) : Prop :=
  ∃ r, meets s r ∧ serve s r = some s'

/-- Any number of steps. -/
abbrev Run (serve : S → R → Option S) (meets : S → R → Prop) : S → S → Prop :=
  Relation.ReflTransGen (Step serve meets)

/-- What every request that meets the condition keeps, a run keeps. -/
theorem Run.keeps {I : S → Prop} (run : Run serve meets s s') (start : I s)
    (kept : ∀ s r s', I s → meets s r → serve s r = some s' → I s') : I s' := by
  induction run with
  | refl => exact start
  | tail _ step inv =>
    obtain ⟨r, holds, served⟩ := step
    exact kept _ r _ inv holds served

/-- A run under a condition is a run under every weaker one. -/
theorem Run.mono {meets' : S → R → Prop} (run : Run serve meets s s')
    (weaker : ∀ s r, meets s r → meets' s r) : Run serve meets' s s' := by
  induction run with
  | refl => exact .refl
  | tail _ step earlier =>
    obtain ⟨r, holds, served⟩ := step
    exact earlier.tail ⟨r, weaker _ r holds, served⟩

/-- Where an invariant is enough to serve every request that meets the condition, it
holds after a run and no such request fails. -/
theorem Run.keeps_serving {I : S → Prop} (run : Run serve meets s s') (start : I s)
    (serves : ∀ s r, I s → meets s r → ∃ s', serve s r = some s' ∧ I s') :
    I s' ∧ ∀ r, meets s' r → (serve s' r).isSome := by
  have inv : I s' := run.keeps start fun s r s' inv holds served => by
    obtain ⟨next, same, kept⟩ := serves s r inv holds
    cases served.symm.trans same
    exact kept
  refine ⟨inv, fun r holds => ?_⟩
  obtain ⟨next, served, _⟩ := serves s' r inv holds
  exact Option.isSome_of_eq_some served

/-- The requests of a list served one after another, each if it meets the condition. -/
def serveAll (serve : S → R → Option S) (meets : S → R → Prop) [∀ s r, Decidable (meets s r)]
    (s : S) : List R → Option S
  | [] => some s
  | r :: rest => if meets s r then (serve s r).bind (serveAll serve meets · rest) else none

theorem serveAll_run [∀ s r, Decidable (meets s r)] {rs : List R}
    (served : serveAll serve meets s rs = some s') : Run serve meets s s' := by
  induction rs generalizing s with
  | nil =>
    cases served
    exact .refl
  | cons r rest ih =>
    simp only [serveAll] at served
    split at served
    next holds =>
      obtain ⟨middle, first, later⟩ := Option.bind_eq_some_iff.mp served
      exact (ih later).head ⟨r, holds, first⟩
    next => cases served

end Requests
