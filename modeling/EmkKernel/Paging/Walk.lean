import EmkKernel.Paging.Mapping

/-!
# The translation of the processor

The processor takes a frame from each entry it reads and goes on in it, as long as
the entry is present. An entry of the third level with `PS` is a page of 2 MiB.
-/

namespace EmkKernel

/-- The table the processor comes to along a path. -/
def follow (m : Memory) (root : BitVec 64) : Path → BitVec 64
  | [] => Entry.frame root
  | i :: p => (m (follow m root p) i).frame

/-- The entry the processor reads at a path. -/
def entryAt (m : Memory) (root : BitVec 64) : Path → Entry
  | [] => 0
  | i :: p => m (follow m root p) i

/-- Every entry that is read for an address passes a test. -/
def everyLevel (read : Path → Entry) (a : Address) (test : Entry → Bool) : Bool :=
  test (read a.first) && test (read a.second) && test (read a.third) &&
    ((read a.third).pageSize || test (read a.fourth))

/-- A physical address and the flags of the page it lies in, without `PS`. -/
structure Translation where
  physical : Nat
  flags : Flags
  deriving DecidableEq, Repr

def largePage (e : Entry) (virt : Nat) : Translation :=
  ⟨e.frame.toNat / pager2Mib * pager2Mib + virt % pager2Mib, e.smallFlags⟩

def smallPage (e : Entry) (virt : Nat) : Translation :=
  ⟨e.frame.toNat + virt % 0x1000, e.flags⟩

/-- The translation of an address by the entries that are read for it. -/
def translation (read : Path → Entry) (virt : Nat) : Option Translation :=
  let a := Pager.translate virt
  if everyLevel read a Entry.present then
    some (if (read a.third).pageSize then largePage (read a.third) virt
      else smallPage (read a.fourth) virt)
  else none

/-- Two ways to read entries agree on those that are read for an address. -/
structure Agree (read read' : Path → Entry) (a : Address) : Prop where
  first : read' a.first = read a.first
  second : (read a.first).present = true → read' a.second = read a.second
  third : (read a.first).present = true → (read a.second).present = true →
    read' a.third = read a.third
  fourth : (read a.first).present = true → (read a.second).present = true →
    (read a.third).present = true → (read a.third).pageSize = false →
    read' a.fourth = read a.fourth

section Agree

variable {read read' : Path → Entry} {a : Address}

theorem Agree.everyLevel (agree : Agree read read' a) {test : Entry → Bool}
    (present : ∀ e, test e = true → e.present = true) :
    everyLevel read' a test = everyLevel read a test := by
  simp only [EmkKernel.everyLevel, agree.first]
  -- the first test that fails decides both sides
  cases first : test (read a.first) with
  | false => simp only [Bool.false_and]
  | true =>
    rw [agree.second (present _ first)]
    cases second : test (read a.second) with
    | false => simp only [Bool.false_and, Bool.and_false]
    | true =>
      rw [agree.third (present _ first) (present _ second)]
      cases third : test (read a.third) with
      | false => simp only [Bool.false_and, Bool.and_false]
      | true =>
        cases large : (read a.third).pageSize with
        | true => rfl
        | false =>
          rw [agree.fourth (present _ first) (present _ second) (present _ third) large]

theorem everyLevel_present (all : everyLevel read a Entry.present = true) :
    (read a.first).present = true ∧ (read a.second).present = true ∧
      (read a.third).present = true := by
  simp only [everyLevel, Bool.and_eq_true] at all
  exact ⟨all.1.1.1, all.1.1.2, all.1.2⟩

theorem Agree.translation {virt : Nat} (agree : Agree read read' (Pager.translate virt)) :
    translation read' virt = translation read virt := by
  simp only [EmkKernel.translation, agree.everyLevel fun _ => id]
  split
  next all =>
    obtain ⟨first, second, third⟩ := everyLevel_present all
    rw [agree.third first second]
    split
    next => rfl
    next small =>
      rw [agree.fourth first second third (Bool.eq_false_iff.mpr small)]
  next => rfl

theorem agree_of_eq (first : read' a.first = read a.first) (second : read' a.second = read a.second)
    (third : read' a.third = read a.third) (fourth : read' a.fourth = read a.fourth) :
    Agree read read' a :=
  ⟨first, fun _ => second, fun _ _ => third, fun _ _ _ _ => fourth⟩

/-- Of the first two entries only their presence matters. -/
theorem translation_congr {virt : Nat}
    (first : (read' (Pager.translate virt).first).present =
      (read (Pager.translate virt).first).present)
    (second : (read' (Pager.translate virt).second).present =
      (read (Pager.translate virt).second).present)
    (third : read' (Pager.translate virt).third = read (Pager.translate virt).third)
    (fourth : read' (Pager.translate virt).fourth = read (Pager.translate virt).fourth) :
    translation read' virt = translation read virt := by
  have all : everyLevel read' (Pager.translate virt) Entry.present =
      everyLevel read (Pager.translate virt) Entry.present := by
    simp only [everyLevel, first, second, third, fourth]
  simp only [translation, all, third, fourth]

/-- Nothing is translated through an entry that is not present. -/
theorem translation_none {virt : Nat}
    (absent : (read (Pager.translate virt).first).present = false ∨
      (read (Pager.translate virt).second).present = false ∨
      (read (Pager.translate virt).third).present = false) : translation read virt = none := by
  rw [translation, if_neg]
  intro all
  obtain ⟨first, second, third⟩ := everyLevel_present all
  rcases absent with absent | absent | absent
  · exact Bool.false_ne_true (absent.symm.trans first)
  · exact Bool.false_ne_true (absent.symm.trans second)
  · exact Bool.false_ne_true (absent.symm.trans third)

theorem translation_none_small {virt : Nat}
    (small : (read (Pager.translate virt).third).pageSize = false)
    (absent : (read (Pager.translate virt).fourth).present = false) :
    translation read virt = none := by
  rw [translation, if_neg]
  simp only [everyLevel, small, absent, Bool.or_self, Bool.and_false, Bool.false_eq_true,
    not_false_eq_true]

end Agree

/-- The addresses whose upper bits repeat bit 47. -/
def Canonical (virt : Nat) : Prop := virt < 2 ^ 47 ∨ 2 ^ 64 - 2 ^ 47 ≤ virt ∧ virt < 2 ^ 64

instance (virt : Nat) : Decidable (Canonical virt) := inferInstanceAs (Decidable (_ ∨ _))

/-- Canonical addresses with the same indices lie in the same page. -/
theorem page_eq_of_fourth {u v : Nat} (canonicalU : Canonical u) (canonicalV : Canonical v)
    (same : (Pager.translate u).fourth = (Pager.translate v).fourth) : u / 0x1000 = v / 0x1000 := by
  simp only [Address.fourth, Pager.translate, List.cons.injEq, Fin.ofNat, Fin.mk.injEq,
    and_true] at same
  unfold Canonical at canonicalU canonicalV
  omega

theorem block_eq_of_third {u v : Nat} (canonicalU : Canonical u) (canonicalV : Canonical v)
    (same : (Pager.translate u).third = (Pager.translate v).third) :
    u / pager2Mib = v / pager2Mib := by
  simp only [Address.third, Pager.translate, List.cons.injEq, Fin.ofNat, Fin.mk.injEq,
    and_true] at same
  unfold Canonical at canonicalU canonicalV
  unfold pager2Mib
  omega

theorem Pager.third_add {virt o : Nat} (aligned : virt % pager2Mib = 0) (inside : o < pager2Mib) :
    (translate (virt + o)).third = (translate virt).third := by
  unfold pager2Mib at aligned inside
  simp only [Address.third, translate, List.cons.injEq, Fin.ofNat, Fin.mk.injEq, and_true]
  omega

namespace Pager

variable (pager : Pager)

/-- The translation of the processor while the pager's root is in `cr3`. -/
def walk (m : Memory) (virt : Nat) : Option Translation := translation (entryAt m pager.cr3) virt

/-- The entries of the pager, zero where there is no table. -/
def seen (m : Memory) (p : Path) : Entry := (pager.view m p).getD 0

variable {pager} {m : Memory} {p : Path} {i : Index} {n : BitVec 64}

theorem seen_of_view {e : Entry} (here : pager.view m p = some e) : pager.seen m p = e := by
  rw [seen, here, Option.getD_some]

theorem follow_table (tree : pager.Tree m) (here : pager.tableAt m p = some n) :
    follow m pager.cr3 p = n := by
  induction p generalizing n with
  | nil =>
    obtain rfl : pager.cr3 = n := Option.some.inj here
    exact tree.frames [] _ rfl
  | cons i p ih =>
    obtain ⟨t, above, points⟩ := RadixTree.table_of_cons here
    obtain ⟨_, _, _, rfl⟩ := child_some points
    rw [follow, ih above, ← Entry.frame_address]
    exact tree.frames _ _ here

private theorem entryAt_table (tree : pager.Tree m) (here : pager.tableAt m p = some n)
    (i : Index) :
    entryAt m pager.cr3 (i :: p) = pager.seen m (i :: p) := by
  rw [entryAt, follow_table tree here, seen_of_view (view_cons here i)]

theorem seen_ne_zero_of_present (present : (pager.seen m p).present = true) :
    pager.seen m p ≠ 0 := Entry.ne_zero_of_bit present

/-- Below an entry that is present and no page there is a table. -/
theorem tableAt_of_seen (shallow : p.length < 3) (nonzero : pager.seen m (i :: p) ≠ 0)
    (small : (pager.seen m (i :: p)).pageSize = false) :
    ∃ n, pager.tableAt m (i :: p) = some n := by
  cases here : pager.view m (i :: p) with
  | none =>
    rw [seen, here] at nonzero
    exact absurd rfl nonzero
  | some e =>
    rw [seen_of_view here] at nonzero small
    exact ⟨_, tableAt_of_view here shallow nonzero small⟩

theorem Tree.small (tree : pager.Tree m) (above : p.length < 2) :
    (pager.seen m (i :: p)).pageSize = false := by
  cases here : pager.view m (i :: p) with
  | none =>
    rw [seen, here]
    rfl
  | some e =>
    rw [seen_of_view here]
    exact tree.upper i p e above here

theorem agree_seen (tree : pager.Tree m) (a : Address) :
    Agree (entryAt m pager.cr3) (pager.seen m) a := by
  have first : pager.seen m a.first = entryAt m pager.cr3 a.first :=
    (entryAt_table tree (p := []) rfl _).symm
  have second (present : (entryAt m pager.cr3 a.first).present = true) :
      pager.seen m a.second = entryAt m pager.cr3 a.second := by
    rw [← first] at present
    obtain ⟨n, here⟩ := tableAt_of_seen (p := []) (by simp) (seen_ne_zero_of_present present)
      (tree.small (by simp))
    exact (entryAt_table tree here _).symm
  have third (present₁ : (entryAt m pager.cr3 a.first).present = true)
      (present₂ : (entryAt m pager.cr3 a.second).present = true) :
      pager.seen m a.third = entryAt m pager.cr3 a.third := by
    rw [← second present₁] at present₂
    obtain ⟨n, here⟩ := tableAt_of_seen (p := a.first) (by simp [Address.first])
      (seen_ne_zero_of_present present₂) (tree.small (by simp [Address.first]))
    exact (entryAt_table tree here _).symm
  refine ⟨first, second, third, fun present₁ present₂ present₃ small => ?_⟩
  rw [← third present₁ present₂] at present₃ small
  obtain ⟨n, here⟩ := tableAt_of_seen (p := a.second) (by simp [Address.second])
    (seen_ne_zero_of_present present₃) small
  exact (entryAt_table tree here _).symm

/-- The processor's translation is that of the entries of the tree. -/
theorem walk_eq (tree : pager.Tree m) (virt : Nat) :
    pager.walk m virt = translation (pager.seen m) virt :=
  (agree_seen tree (translate virt)).translation.symm

end Pager

/-! ### Entries after an edit -/

section Edits

variable {pager : Pager} {m m' : Memory} {q : Path} {e : Entry} {content : Index → Entry}

theorem Sets.seen (sets : Sets (pager.view m) (pager.view m') q e) (r : Path) :
    pager.seen m' r = if r = q then e else pager.seen m r := by
  split
  next here => rw [here, Pager.seen_of_view sets.here]
  next other => rw [Pager.seen, sets.other r other, Pager.seen]

theorem Adds.seen_here (adds : Adds (pager.view m) (pager.view m') q e content) :
    pager.seen m' q = e := Pager.seen_of_view adds.here

theorem Adds.seen_below (adds : Adds (pager.view m) (pager.view m') q e content) (j : Index) :
    pager.seen m' (j :: q) = content j := Pager.seen_of_view (adds.below j)

theorem Adds.seen_other (adds : Adds (pager.view m) (pager.view m') q e content) {r : Path}
    (other : r ≠ q) (below : ∀ j, r ≠ j :: q) : pager.seen m' r = pager.seen m r := by
  rw [Pager.seen, adds.other r other below, Pager.seen]

end Edits

end EmkKernel
