import EmkKernel.Processes.PeSections
import Mathlib.Data.List.Forall2

/-!
# Exports of a library by name

`NtDll::get_export` compares a name with the one at the hint, then with all names. The
position of a name in the name table is an index into the ordinal table, but the code takes
it for an index into the export address table. The hint leads to the same position as the
search.
-/

namespace EmkKernel

open Checked

/-- The number of elements before the first zero. -/
def countElements (isZero : Nat → Bool) : Nat → Nat → Option Nat
  | 0, _ => none
  | n + 1, i => if isZero i then some i else countElements isZero n (i + 1)

/-- `unchecked_construct_utf8_string`; memory ends somewhere. -/
def uncheckedConstructUtf8String (memory : Nat → Byte) (address : Nat) : PeM (List Byte) := do
  let length ← orStop (countElements (fun i => memory (address + i) == 0) (2 ^ 64) 0)
  pure ((List.range length).map fun i => memory (address + i))

def memcmpByte (a b : List Byte) (length : Nat) : Bool := a.take length == b.take length

/-- The tables of `PeEdata`, and the sections. -/
structure NtDll where
  exportAddressTable : List Nat
  namePointerTable : List Nat
  ordinalTable : List Nat
  sectionTable : List ImageSectionHeader

namespace NtDll

variable (dll : NtDll) (memory : Nat → Byte) (bufferAddress : Nat)

/-- The name that an entry of the name pointer table leads to, unless it is in no section. -/
def nameAt (nameRva : Nat) : PeM (Option (List Byte)) := do
  match ← findSectionForRva nameRva dll.sectionTable with
  | some nameSection => do
    let nameOffset ← orStop (subUnsigned nameRva nameSection.virtualAddress)
    let namePtr ← addressSum (← addressSum bufferAddress nameOffset) nameSection.pointerToRawData
    let name ← uncheckedConstructUtf8String memory namePtr
    pure (some name)
  | none => pure none

/-- The length is passed to `memcmp_byte` as `u32`. -/
def sameName (name importName : List Byte) : Bool :=
  name.length == importName.length && memcmpByte name importName (name.length % 2 ^ 32)

/-- `Option::Some(export_address_table[i])`. -/
def exportAt (i : Nat) : PeM (Option Nat) := do
  let rva ← orStop dll.exportAddressTable[i]?
  pure (some rva)

/-- The loop over the names from position `i` on. -/
def searchExport (importName : List Byte) (i : Nat) : List Nat → PeM (Option Nat)
  | [] => pure none
  | nameRva :: rest => do
    match ← dll.nameAt memory bufferAddress nameRva with
    | none => pure none
    | some name =>
      if sameName name importName then dll.exportAt i
      else searchExport importName (i + 1) rest

def getExport (hint : Nat) (importName : List Byte) : PeM (Option Nat) := do
  if dll.namePointerTable.length % 2 ^ 16 > hint then
    let nameRva ← orStop dll.namePointerTable[hint]?
    match ← dll.nameAt memory bufferAddress nameRva with
    | none => pure none
    | some name =>
      if sameName name importName then dll.exportAt hint
      else dll.searchExport memory bufferAddress importName 0 dll.namePointerTable
  else dll.searchExport memory bufferAddress importName 0 dll.namePointerTable

/-- The entries of the name pointer table lead to the names, which differ from each other,
and every ordinal is an index into the export address table. -/
structure WellFormed (names : List (List Byte)) : Prop where
  leads : List.Forall₂ (fun nameRva name =>
    (dll.nameAt memory bufferAddress nameRva).result = .ok (some name) ∧ name.length < 2 ^ 32)
    dll.namePointerTable names
  distinct : names.Nodup
  ordinals : dll.ordinalTable.length = names.length
  inside : ∀ ordinal ∈ dll.ordinalTable, ordinal < dll.exportAddressTable.length

/-- The entry of the export address table that the ordinal at a position stands for. -/
def exportByOrdinal (i : Nat) : Option Nat :=
  dll.ordinalTable[i]?.bind fun ordinal => dll.exportAddressTable[ordinal]?

/-- A name that is exported gives the entry of its ordinal, any other one gives nothing. -/
def LooksUp (names : List (List Byte)) (hint : Nat) (importName : List Byte) : Prop :=
  (∀ i : Nat, names[i]? = some importName →
    (dll.getExport memory bufferAddress hint importName).result = .ok (dll.exportByOrdinal i)) ∧
  (importName ∉ names → (dll.getExport memory bufferAddress hint importName).result = .ok none)

variable {dll memory bufferAddress} {names : List (List Byte)} {importName : List Byte} {i j : Nat}

private theorem sameName_iff {name : List Byte} (short : name.length < 2 ^ 32) :
    sameName name importName = true ↔ name = importName := by
  rw [sameName, memcmpByte, Nat.mod_eq_of_lt short, Bool.and_eq_true, beq_iff_eq, beq_iff_eq]
  constructor
  · rintro ⟨lengths, same⟩
    rwa [List.take_length, lengths, List.take_length] at same
  · rintro rfl
    exact ⟨rfl, rfl⟩

/-- The result of comparing the name of an entry, and of going on when it is another one. -/
theorem result_compare {nameRva : Nat} {name : List Byte} {found otherwise : PeM (Option Nat)}
    (named : (dll.nameAt memory bufferAddress nameRva).result = .ok (some name) ∧
      name.length < 2 ^ 32) :
    (do match ← dll.nameAt memory bufferAddress nameRva with
        | none => pure none
        | some name =>
          if sameName name importName then found else otherwise : PeM (Option Nat)).result =
      if name = importName then found.result else otherwise.result := by
  rw [result_bind named.1]
  simp only [sameName_iff named.2]
  split <;> rfl

private theorem searchExport_absent {rvas : List Nat} (leads : List.Forall₂ (fun nameRva name =>
      (dll.nameAt memory bufferAddress nameRva).result = .ok (some name) ∧ name.length < 2 ^ 32)
      rvas names) (absent : importName ∉ names) :
    (dll.searchExport memory bufferAddress importName i rvas).result = .ok none := by
  induction leads generalizing i with
  | nil => rfl
  | cons named _ ih =>
    obtain ⟨other, rest⟩ := not_or.mp (List.mem_cons.not.mp absent)
    rw [searchExport, result_compare named, if_neg (Ne.symm other)]
    exact ih rest

theorem searchExport_found {rvas : List Nat} (leads : List.Forall₂ (fun nameRva name =>
      (dll.nameAt memory bufferAddress nameRva).result = .ok (some name) ∧ name.length < 2 ^ 32)
      rvas names) (distinct : names.Nodup) (here : names[j]? = some importName) :
    (dll.searchExport memory bufferAddress importName i rvas).result =
      (dll.exportAt (i + j)).result := by
  induction leads generalizing i j with
  | nil => simp at here
  | cons named _ ih =>
    obtain ⟨fresh, distinct⟩ := List.nodup_cons.mp distinct
    rw [searchExport, result_compare named]
    cases j with
    | zero =>
      rw [List.getElem?_cons_zero, Option.some.injEq] at here
      rw [if_pos here, Nat.add_zero]
    | succ j =>
      rw [List.getElem?_cons_succ] at here
      rw [if_neg fun same => fresh (by rw [same]; exact List.mem_of_getElem? here),
        ih distinct here, Nat.add_assoc, Nat.add_comm 1 j]

theorem WellFormed.getExport (formed : dll.WellFormed memory bufferAddress names) (hint : Nat)
    (importName : List Byte) :
    (∀ i : Nat, names[i]? = some importName →
      (dll.getExport memory bufferAddress hint importName).result = (dll.exportAt i).result) ∧
    (importName ∉ names → (dll.getExport memory bufferAddress hint importName).result =
      .ok none) := by
  have search (i : Nat) (here : names[i]? = some importName) :
      (dll.searchExport memory bufferAddress importName 0 dll.namePointerTable).result =
        (dll.exportAt i).result := by
    rw [searchExport_found formed.leads formed.distinct here, Nat.zero_add]
  have absent (missing : importName ∉ names) := searchExport_absent (i := 0) formed.leads missing
  unfold NtDll.getExport
  split
  next inside =>
    have bound : hint < dll.namePointerTable.length := inside.trans_le (Nat.mod_le _ _)
    have bound' : hint < names.length := formed.leads.length_eq ▸ bound
    have named := formed.leads.get bound bound'
    have rva : (orStop dll.namePointerTable[hint]? : PeM Nat).result =
        .ok (dll.namePointerTable.get ⟨hint, bound⟩) := by
      rw [List.getElem?_eq_getElem bound]
      rfl
    rw [result_bind rva, result_compare named]
    constructor
    · intro i here
      split
      next same =>
        -- the hint is the position of the name, since no other name is the same
        have hinted : names[hint]? = some importName := by
          rw [List.getElem?_eq_getElem bound']
          exact congrArg some same
        have position : hint = i := by
          apply (List.getElem?_inj bound' formed.distinct).mp
          rw [hinted, here]
        rw [position]
      next => exact search i here
    · intro missing
      split
      next same => exact absurd (same ▸ List.get_mem names ⟨hint, bound'⟩) missing
      next => exact absent missing
  next => exact ⟨search, absent⟩

/-- The position of a name leads to its export exactly if its ordinal leads to the same entry. -/
theorem WellFormed.getExport_iff (formed : dll.WellFormed memory bufferAddress names) (hint : Nat)
    {importName : List Byte} {i : Nat} (here : names[i]? = some importName) :
    (dll.getExport memory bufferAddress hint importName).result = .ok (dll.exportByOrdinal i) ↔
      dll.exportAddressTable[i]? = dll.exportByOrdinal i := by
  have bound : i < dll.ordinalTable.length := by
    rw [formed.ordinals]
    exact (List.getElem?_eq_some_iff.mp here).1
  have inside := formed.inside _ (List.getElem_mem bound)
  have ordinal : dll.exportByOrdinal i =
      some (dll.exportAddressTable[dll.ordinalTable[i]]) := by
    rw [exportByOrdinal, List.getElem?_eq_getElem bound, Option.bind_some,
      List.getElem?_eq_getElem inside]
  rw [(formed.getExport hint importName).1 i here, ordinal, exportAt]
  cases dll.exportAddressTable[i]? with
  | none => exact iff_of_false nofun nofun
  | some rva =>
    constructor
    · intro same
      cases same
      rfl
    · intro same
      rw [← same]
      rfl

/-- A name is looked up as it should be exactly if its position leads to the same entry of the
export address table as its ordinal. -/
theorem looksUp_iff (formed : dll.WellFormed memory bufferAddress names) (hint : Nat)
    (importName : List Byte) : dll.LooksUp memory bufferAddress names hint importName ↔
      ∀ i : Nat, names[i]? = some importName →
        dll.exportAddressTable[i]? = dll.exportByOrdinal i := by
  constructor
  · rintro ⟨exported, _⟩ i here
    exact (formed.getExport_iff hint here).mp (exported i here)
  · intro agrees
    exact ⟨fun i here => (formed.getExport_iff hint here).mpr (agrees i here),
      (formed.getExport hint importName).2⟩

section Samples

/-- A section with the names `a` and `b`. -/
def namesMemory (address : Nat) : Byte :=
  if address = 0x400 then 97 else if address = 0x402 then 98 else 0

/-- The names lead to the functions at `0x1100` and `0x1200`. -/
def orderedDll : NtDll := ⟨[0x1100, 0x1200], [0x2000, 0x2002], [0, 1], [⟨0x1000, 0x2000, 0x400⟩]⟩

/-- The same names, with the functions in the other order. -/
def swappedDll : NtDll := { orderedDll with ordinalTable := [1, 0] }

private theorem orderedDll_names : List.Forall₂ (fun nameRva name =>
    (orderedDll.nameAt namesMemory 0 nameRva).result = .ok (some name) ∧ name.length < 2 ^ 32)
    [0x2000, 0x2002] [[97], [98]] := by
  refine .cons ⟨?_, by decide⟩ (.cons ⟨?_, by decide⟩ .nil)
  · decide +kernel
  · decide +kernel

theorem looksUp_ordered : orderedDll.LooksUp namesMemory 0 [[97], [98]] 7 [98] := by
  refine (looksUp_iff ⟨orderedDll_names, by decide, rfl, by decide⟩ 7 [98]).mpr fun i here => ?_
  have bound : i < 2 := (List.getElem?_eq_some_iff.mp here).1
  obtain rfl | rfl : i = 0 ∨ i = 1 := by omega
  · rfl
  · rfl

/-- The first name gives the function of the second one. -/
theorem not_looksUp_swapped : swappedDll.WellFormed namesMemory 0 [[97], [98]] ∧
    ¬swappedDll.LooksUp namesMemory 0 [[97], [98]] 0 [97] := by
  have formed : swappedDll.WellFormed namesMemory 0 [[97], [98]] :=
    ⟨orderedDll_names, by decide, rfl, by decide⟩
  refine ⟨formed, fun looksUp => ?_⟩
  have same := (formed.getExport_iff 0 rfl).mp (looksUp.1 0 rfl)
  cases same

end Samples

end NtDll

end EmkKernel
