import EmkKernel.Aml.NameSystem
import Mathlib.Data.List.TakeWhile

/-!
# Fragments of a name system

The entries of a namespace lie in at most four runs of the table that all namespaces share.
Only its last run can end where the table does; an entry more makes this run longer or begins
another one.
-/

namespace EmkKernel

namespace ReferenceBucket

def range (b : ReferenceBucket) : List Nat := List.range' b.start b.count

def behind (b : ReferenceBucket) : Nat := b.start + b.count

theorem range_succ (b : ReferenceBucket) :
    (⟨b.start, b.count + 1⟩ : ReferenceBucket).range = b.range ++ [b.behind] := by
  simp only [range, behind, List.range'_1_concat]

end ReferenceBucket

/-- The buckets of a system. -/
def usedFragments (fragments : List Nat) : List Nat := fragments.takeWhile (· ≠ 0)

theorem usedFragments_append {l : List Nat} {k : Nat} (nonzero : ∀ b ∈ l, b ≠ 0) :
    usedFragments (l ++ List.replicate k 0) = l := by
  unfold usedFragments
  rw [List.takeWhile_append_of_pos (by simpa using nonzero)]
  cases k <;> simp [List.replicate_succ]

theorem usedFragments_ne_zero {fragments : List Nat} {b : Nat}
    (member : b ∈ usedFragments fragments) : b ≠ 0 := by
  simpa using List.mem_takeWhile_imp member

/-! ### The first slot of a system that is free -/

theorem findIdx?_zero_none {l : List Nat} (nonzero : ∀ b ∈ l, b ≠ 0) :
    l.findIdx? (· = 0) = none := by
  rw [List.findIdx?_eq_none_iff]
  intro b member
  simpa using nonzero b member

theorem findIdx?_zero {l : List Nat} (nonzero : ∀ b ∈ l, b ≠ 0) (k : Nat) :
    (l ++ List.replicate (k + 1) 0).findIdx? (· = 0) = some l.length := by
  rw [List.findIdx?_append, findIdx?_zero_none nonzero, List.replicate_succ, List.findIdx?_cons]
  simp

theorem set_zero (l : List Nat) (k b : Nat) :
    (l ++ List.replicate (k + 1) 0).set l.length b = (l ++ [b]) ++ List.replicate k 0 := by
  rw [List.set_append_right _ _ (Nat.le_refl _), Nat.sub_self, List.replicate_succ,
    List.set_cons_zero, List.append_assoc]
  rfl

/-! ### Systems and their fragments -/

/-- The fragments of the systems lie before entry `n`, the ones that are not last even end
before it, and no two are the same. -/
structure Fragments (systems : PageAllocator (List Nat)) (buckets : PageAllocator ReferenceBucket)
    (n : Nat) : Prop where
  first : 0 < buckets.allocated
  shape : ∀ ns < systems.allocated, ∃ k, systems.slots ns =
    usedFragments (systems.slots ns) ++ List.replicate k 0 ∧
      (usedFragments (systems.slots ns)).length + k = 4
  nonempty : ∀ ns < systems.allocated, usedFragments (systems.slots ns) ≠ []
  inside : ∀ ns < systems.allocated, ∀ b ∈ usedFragments (systems.slots ns),
    b < buckets.allocated ∧ (buckets.slots b).behind ≤ n ∧ (buckets.slots b).count < 2 ^ 8
  ended : ∀ ns < systems.allocated, ∀ b ∈ (usedFragments (systems.slots ns)).dropLast,
    (buckets.slots b).behind < n
  distinct : ∀ ns < systems.allocated, (usedFragments (systems.slots ns)).Nodup
  apart : ∀ ns < systems.allocated, ∀ ns' < systems.allocated, ns ≠ ns' →
    ∀ b ∈ usedFragments (systems.slots ns), b ∉ usedFragments (systems.slots ns')

/-- The entries of a system. -/
def ownedEntries (systems : PageAllocator (List Nat)) (buckets : PageAllocator ReferenceBucket)
    (ns : Nat) : List Nat :=
  (usedFragments (systems.slots ns)).flatMap fun b => (buckets.slots b).range

namespace Fragments

variable {systems : PageAllocator (List Nat)} {buckets : PageAllocator ReferenceBucket}
  {n ns b : Nat}

theorem owned_lt (fragments : Fragments systems buckets n) (made : ns < systems.allocated)
    {j : Nat} (member : j ∈ ownedEntries systems buckets ns) : j < n := by
  obtain ⟨b, used, run⟩ := List.mem_flatMap.1 member
  have inside := (fragments.inside ns made b used).2.1
  have within := (List.mem_range'_1.1 run).2
  exact Nat.lt_of_lt_of_le within inside

/-- One more entry, behind the last fragment of a system. -/
theorem extend (fragments : Fragments systems buckets n) (made : ns < systems.allocated)
    (last : (usedFragments (systems.slots ns)).getLast? = some b)
    (ends : (buckets.slots b).behind = n) (few : (buckets.slots b).count + 1 < 2 ^ 8) :
    Fragments systems (buckets.set b ⟨(buckets.slots b).start, (buckets.slots b).count + 1⟩)
        (n + 1) ∧
      ∀ ns' < systems.allocated, ownedEntries systems
          (buckets.set b ⟨(buckets.slots b).start, (buckets.slots b).count + 1⟩) ns' =
        ownedEntries systems buckets ns' ++ if ns' = ns then [n] else [] := by
  obtain ⟨before, split⟩ := List.getLast?_eq_some_iff.1 last
  have distinct := fragments.distinct ns made
  rw [split] at distinct
  have alone : b ∉ before := fun member =>
    (List.nodup_append.1 distinct).2.2 b member b List.mem_cons_self rfl
  have here : ∀ ns' < systems.allocated, b ∈ usedFragments (systems.slots ns') → ns' = ns := by
    intro ns' made' member
    by_contra other
    exact fragments.apart ns' made' ns made other b member (by rw [split]; simp)
  have slot : ∀ b', b' ≠ b → (buckets.set b
      ⟨(buckets.slots b).start, (buckets.slots b).count + 1⟩).slots b' = buckets.slots b' :=
    fun b' other => Function.update_of_ne other _ _
  have slot_self : (buckets.set b
      ⟨(buckets.slots b).start, (buckets.slots b).count + 1⟩).slots b =
      ⟨(buckets.slots b).start, (buckets.slots b).count + 1⟩ := Function.update_self ..
  refine ⟨⟨fragments.first, fragments.shape, fragments.nonempty, ?_, ?_, fragments.distinct,
    fragments.apart⟩, ?_⟩
  · intro ns' made' b' member
    obtain ⟨below, behind, short⟩ := fragments.inside ns' made' b' member
    refine ⟨below, ?_⟩
    by_cases same : b' = b
    · subst same
      rw [slot_self]
      refine ⟨?_, few⟩
      rw [← ends]
      exact Nat.le_refl _
    · rw [slot b' same]
      exact ⟨Nat.le_succ_of_le behind, short⟩
  · intro ns' made' b' member
    have other : b' ≠ b := by
      rintro rfl
      obtain rfl := here ns' made' (List.mem_of_mem_dropLast member)
      rw [split, List.dropLast_concat] at member
      exact alone member
    rw [slot b' other]
    exact Nat.lt_succ_of_lt (fragments.ended ns' made' b' member)
  · intro ns' made'
    have elsewhere : ∀ l : List Nat, b ∉ l → (l.flatMap fun b' => ((buckets.set b
        ⟨(buckets.slots b).start, (buckets.slots b).count + 1⟩).slots b').range) =
        l.flatMap fun b' => (buckets.slots b').range := by
      intro l absent
      refine List.flatMap_congr fun b' member => ?_
      rw [slot b' fun same => absent (same ▸ member)]
    unfold ownedEntries
    by_cases same : ns' = ns
    · subst same
      rw [if_pos rfl, split, List.flatMap_append, List.flatMap_append, elsewhere before alone,
        List.flatMap_singleton, List.flatMap_singleton, slot_self, ReferenceBucket.range_succ, ends,
        List.append_assoc]
    · rw [if_neg same, List.append_nil]
      exact elsewhere _ fun member => same (here ns' made' member)

end Fragments

/-! ### One more fragment -/

/-- A system gets a bucket behind all others, with the entries from `n` on, and either it is a new
one or this bucket comes behind its own ones. -/
structure Attaches (systems systems' : PageAllocator (List Nat))
    (buckets buckets' : PageAllocator ReferenceBucket) (ns : Nat) (old : List Nat)
    (n count : Nat) : Prop where
  others : ∀ ns' < systems'.allocated, ns' ≠ ns →
    ns' < systems.allocated ∧ systems'.slots ns' = systems.slots ns'
  slot : ∃ k, systems'.slots ns = (old ++ [buckets.allocated]) ++ List.replicate k 0 ∧
    old.length + 1 + k = 4
  grown : buckets'.allocated = buckets.allocated + 1
  kept : ∀ b < buckets.allocated, buckets'.slots b = buckets.slots b
  new : buckets'.slots buckets.allocated = ⟨n, count⟩
  short : count < 2 ^ 8
  before : old = [] ∨ ns < systems.allocated ∧ old = usedFragments (systems.slots ns) ∧ 0 < count

namespace Attaches

variable {systems systems' : PageAllocator (List Nat)}
  {buckets buckets' : PageAllocator ReferenceBucket} {n ns ns' b count : Nat} {old : List Nat}
  (attaches : Attaches systems systems' buckets buckets' ns old n count)
  (fragments : Fragments systems buckets n)

include attaches fragments

theorem olds (member : b ∈ old) : b < buckets.allocated ∧ b ≠ 0 ∧
    (buckets.slots b).behind < n + count ∧ (buckets.slots b).count < 2 ^ 8 := by
  rcases attaches.before with rfl | ⟨made, rfl, positive⟩
  · cases member
  · obtain ⟨below, behind, short⟩ := fragments.inside ns made b member
    exact ⟨below, usedFragments_ne_zero member, by omega, short⟩

theorem used : usedFragments (systems'.slots ns) = old ++ [buckets.allocated] := by
  obtain ⟨k, slot, -⟩ := attaches.slot
  have first := fragments.first
  rw [slot]
  refine usedFragments_append ?_
  intro b member
  rcases List.mem_append.1 member with earlier | last
  · exact (attaches.olds fragments earlier).2.1
  · rw [List.mem_singleton.1 last]
    omega

omit fragments in
theorem used_other (made : ns' < systems'.allocated) (other : ns' ≠ ns) :
    usedFragments (systems'.slots ns') = usedFragments (systems.slots ns') := by
  rw [(attaches.others ns' made other).2]

theorem apart_other (made : ns' < systems'.allocated) (other : ns' ≠ ns)
    (member : b ∈ usedFragments (systems.slots ns')) :
    b < buckets.allocated ∧ b ∉ old ++ [buckets.allocated] := by
  have made' := (attaches.others ns' made other).1
  have below := (fragments.inside ns' made' b member).1
  refine ⟨below, fun inside => ?_⟩
  rcases List.mem_append.1 inside with earlier | last
  · rcases attaches.before with rfl | ⟨own, rfl, -⟩
    · cases earlier
    · exact fragments.apart ns' made' ns own other b member earlier
  · rw [List.mem_singleton.1 last] at below
    exact Nat.lt_irrefl _ below

theorem shape (made : ns' < systems'.allocated) : ∃ k, systems'.slots ns' =
    usedFragments (systems'.slots ns') ++ List.replicate k 0 ∧
      (usedFragments (systems'.slots ns')).length + k = 4 := by
  by_cases same : ns' = ns
  · subst same
    obtain ⟨k, slot, four⟩ := attaches.slot
    rw [attaches.used fragments, slot]
    exact ⟨k, rfl, by simpa using four⟩
  · obtain ⟨made', slot⟩ := attaches.others ns' made same
    rw [slot]
    exact fragments.shape ns' made'

theorem nonempty (made : ns' < systems'.allocated) :
    usedFragments (systems'.slots ns') ≠ [] := by
  by_cases same : ns' = ns
  · subst same
    rw [attaches.used fragments]
    simp
  · rw [attaches.used_other made same]
    exact fragments.nonempty ns' (attaches.others ns' made same).1

theorem inside (made : ns' < systems'.allocated)
    (member : b ∈ usedFragments (systems'.slots ns')) : b < buckets'.allocated ∧
      (buckets'.slots b).behind ≤ n + count ∧ (buckets'.slots b).count < 2 ^ 8 := by
  have grown := attaches.grown
  by_cases same : ns' = ns
  · subst same
    rw [attaches.used fragments] at member
    rcases List.mem_append.1 member with earlier | last
    · obtain ⟨below, -, behind, short⟩ := attaches.olds fragments earlier
      rw [attaches.kept b below]
      exact ⟨by omega, by omega, short⟩
    · rw [List.mem_singleton.1 last, attaches.new]
      exact ⟨by omega, Nat.le_refl _, attaches.short⟩
  · rw [attaches.used_other made same] at member
    obtain ⟨below, behind, short⟩ :=
      fragments.inside ns' (attaches.others ns' made same).1 b member
    rw [attaches.kept b below]
    exact ⟨by omega, by omega, short⟩

theorem ended (made : ns' < systems'.allocated)
    (member : b ∈ (usedFragments (systems'.slots ns')).dropLast) :
    (buckets'.slots b).behind < n + count := by
  by_cases same : ns' = ns
  · subst same
    rw [attaches.used fragments, List.dropLast_concat] at member
    obtain ⟨below, -, behind, -⟩ := attaches.olds fragments member
    rw [attaches.kept b below]
    exact behind
  · rw [attaches.used_other made same] at member
    have below := (attaches.apart_other fragments made same (List.mem_of_mem_dropLast member)).1
    rw [attaches.kept b below]
    exact Nat.lt_add_right _ (fragments.ended ns' (attaches.others ns' made same).1 b member)

theorem distinct (made : ns' < systems'.allocated) :
    (usedFragments (systems'.slots ns')).Nodup := by
  by_cases same : ns' = ns
  · subst same
    have once : old.Nodup := by
      rcases attaches.before with rfl | ⟨own, rfl, -⟩
      · exact List.nodup_nil
      · exact fragments.distinct ns' own
    rw [attaches.used fragments]
    refine once.append (List.nodup_singleton _) ?_
    intro b member last
    have below := (attaches.olds fragments member).1
    rw [List.mem_singleton.1 last] at below
    exact Nat.lt_irrefl _ below
  · rw [attaches.used_other made same]
    exact fragments.distinct ns' (attaches.others ns' made same).1

theorem apart {ns₁ ns₂ : Nat} (made₁ : ns₁ < systems'.allocated) (made₂ : ns₂ < systems'.allocated)
    (different : ns₁ ≠ ns₂) (member : b ∈ usedFragments (systems'.slots ns₁)) :
    b ∉ usedFragments (systems'.slots ns₂) := by
  by_cases same : ns₁ = ns
  · subst same
    rw [attaches.used_other made₂ different.symm]
    rw [attaches.used fragments] at member
    exact fun inside => (attaches.apart_other fragments made₂ different.symm inside).2 member
  · rw [attaches.used_other made₁ same] at member
    by_cases same' : ns₂ = ns
    · subst same'
      rw [attaches.used fragments]
      exact (attaches.apart_other fragments made₁ same member).2
    · rw [attaches.used_other made₂ same']
      exact fragments.apart ns₁ (attaches.others ns₁ made₁ same).1 ns₂
        (attaches.others ns₂ made₂ same').1 different b member

private theorem owned_self : ownedEntries systems' buckets' ns =
    (old.flatMap fun b => (buckets.slots b).range) ++ List.range' n count := by
  rw [ownedEntries, attaches.used fragments, List.flatMap_append, List.flatMap_singleton,
    attaches.new]
  congr 1
  exact List.flatMap_congr fun b member => by
    rw [attaches.kept b (attaches.olds fragments member).1]

private theorem owned_other (made : ns' < systems'.allocated) (other : ns' ≠ ns) :
    ownedEntries systems' buckets' ns' = ownedEntries systems buckets ns' := by
  rw [ownedEntries, attaches.used_other made other]
  exact List.flatMap_congr fun b member => by
    rw [attaches.kept b (attaches.apart_other fragments made other member).1]

/-- The fragments are in order behind the new one. -/
theorem ordered : Fragments systems' buckets' (n + count) where
  first := by
    rw [attaches.grown]
    exact Nat.succ_pos _
  shape _ made := attaches.shape fragments made
  nonempty _ made := attaches.nonempty fragments made
  inside _ made _ member := attaches.inside fragments made member
  ended _ made _ member := attaches.ended fragments made member
  distinct _ made := attaches.distinct fragments made
  apart _ made₁ _ made₂ different _ member :=
    attaches.apart fragments made₁ made₂ different member

end Attaches

namespace Fragments

variable {systems : PageAllocator (List Nat)} {buckets : PageAllocator ReferenceBucket}
  {n ns k : Nat}

/-- A system that is there begins another fragment with the entry `n`. -/
theorem begins (fragments : Fragments systems buckets n) (made : ns < systems.allocated)
    (four : (usedFragments (systems.slots ns)).length + 1 + k = 4) :
    let systems' := systems.set ns
      ((usedFragments (systems.slots ns) ++ [buckets.allocated]) ++ List.replicate k 0)
    Fragments systems' (buckets.pushed ⟨n, 1⟩) (n + 1) ∧
      ∀ ns' < systems.allocated, ownedEntries systems' (buckets.pushed ⟨n, 1⟩) ns' =
        ownedEntries systems buckets ns' ++ if ns' = ns then [n] else [] := by
  intro systems'
  have attaches : Attaches systems systems' buckets (buckets.pushed ⟨n, 1⟩) ns
      (usedFragments (systems.slots ns)) n 1 :=
    { others := fun ns' made' other => ⟨made', Function.update_of_ne other _ _⟩
      slot := ⟨k, Function.update_self .., four⟩
      grown := rfl
      kept := fun b below => Function.update_of_ne (Nat.ne_of_lt below) _ _
      new := Function.update_self ..
      short := by decide
      before := Or.inr ⟨made, rfl, Nat.one_pos⟩ }
  refine ⟨attaches.ordered fragments, fun ns' made' => ?_⟩
  by_cases same : ns' = ns
  · subst same
    rw [if_pos rfl]
    exact attaches.owned_self fragments
  · rw [if_neg same, List.append_nil]
    exact attaches.owned_other fragments made' same

/-- A new system begins with an empty fragment. -/
theorem opens (fragments : Fragments systems buckets n) :
    let systems' := systems.pushed [buckets.allocated, 0, 0, 0]
    Fragments systems' (buckets.pushed ⟨n, 0⟩) n ∧
      usedFragments (systems'.slots systems.allocated) = [buckets.allocated] ∧
      ∀ ns ≤ systems.allocated, ownedEntries systems' (buckets.pushed ⟨n, 0⟩) ns =
        if ns = systems.allocated then [] else ownedEntries systems buckets ns := by
  intro systems'
  have attaches : Attaches systems systems' buckets (buckets.pushed ⟨n, 0⟩) systems.allocated
      [] n 0 :=
    { others := fun ns' made other => ⟨Nat.lt_of_le_of_ne (Nat.le_of_lt_succ made) other,
        Function.update_of_ne other _ _⟩
      slot := ⟨3, Function.update_self .., rfl⟩
      grown := rfl
      kept := fun b below => Function.update_of_ne (Nat.ne_of_lt below) _ _
      new := Function.update_self ..
      short := by decide
      before := Or.inl rfl }
  refine ⟨attaches.ordered fragments, attaches.used fragments, fun ns below => ?_⟩
  by_cases same : ns = systems.allocated
  · subst same
    rw [if_pos rfl]
    exact attaches.owned_self fragments
  · rw [if_neg same]
    exact attaches.owned_other fragments (Nat.lt_succ_of_le below) same

end Fragments

end EmkKernel
