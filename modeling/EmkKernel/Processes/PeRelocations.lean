import EmkKernel.Processes.PeSections

/-!
# The base relocation directory

`load_reloc` counts the blocks of the directory by their sizes, but reads the size of the
first block in every round.
-/

namespace EmkKernel

open Checked

/-- `size` is an `u32`. -/
structure ImageDataDirectory where
  virtualAddress : Nat
  size : Nat
  narrow : size < 2 ^ 32

def sizeOfBaseRelocationBlock : Nat := 8

/-- The field `block_size`. -/
def blockSizeAt (memory : Nat → Byte) (address : Nat) : Nat := littleEndian memory (address + 4) 4

structure PeRelocInformation where
  relocations : Nat
  numRelocations : Nat
  deriving DecidableEq, Repr

/-- The loop of `load_reloc`; there is nothing yet if it goes on. -/
def countRelocations (memory : Nat → Byte) (relocPtr : Nat) : Nat → Nat → Nat → PeM (Option Nat)
  | 0, _, _ => pure none
  | rounds + 1, sizeRem, numRelocations =>
    if sizeRem ≠ 0 then
      if relocPtr % 4 ≠ 0 then stop
      else do
        look relocPtr sizeOfBaseRelocationBlock
        let sizeRem ← orStop (subUnsigned sizeRem (blockSizeAt memory relocPtr))
        let numRelocations ← orStop (addU32 numRelocations 1)
        countRelocations memory relocPtr rounds sizeRem numRelocations
    else pure (some numRelocations)

/-- `load_reloc`, where the loop is left after a number of rounds. -/
def loadReloc (memory : Nat → Byte) (rvaAndSizes : List ImageDataDirectory)
    (sections : List ImageSectionHeader) (buffer : Buffer) (rounds : Nat) :
    PeM (Option PeRelocInformation) := do
  let reloc ← orStop rvaAndSizes[5]?
  if reloc.size = 0 ∨ reloc.virtualAddress = 0 then
    reject .unsupported
  else
    match ← findSectionForRva reloc.virtualAddress sections with
    | none => reject .missingSection
    | some relocSection => do
      let relocOffset ← orStop (subUnsigned reloc.virtualAddress relocSection.virtualAddress)
      let relocPtr ← addressSum (← addressSum buffer.ptr relocOffset) relocSection.pointerToRawData
      let numRelocations ← countRelocations memory relocPtr rounds reloc.size 0
      pure (numRelocations.map (PeRelocInformation.mk relocPtr))

/-- From the address on, a range of a given size is divided into blocks. -/
inductive Blocks (memory : Nat → Byte) : Nat → Nat → Nat → Prop
  | done (address : Nat) : Blocks memory address 0 0
  | block (address size count : Nat) (positive : 0 < blockSizeAt memory address)
      (fits : blockSizeAt memory address ≤ size)
      (rest : Blocks memory (address + blockSizeAt memory address)
        (size - blockSizeAt memory address) count) :
      Blocks memory address size (count + 1)

variable {memory : Nat → Byte} {relocPtr rounds sizeRem n count : Nat}

theorem Blocks.unique {address size k l : Nat} (first : Blocks memory address size k)
    (second : Blocks memory address size l) : k = l := by
  induction first generalizing l with
  | done =>
    cases second with
    | done => rfl
    | block _ _ _ positive fits _ => omega
  | block address size count positive fits rest ih =>
    cases second with
    | done => omega
    | block _ _ _ _ _ rest' => rw [ih rest']

/-! ### The loop -/

theorem countRelocations_ok
    (ran : (countRelocations memory relocPtr rounds sizeRem n).result = .ok (some count)) :
    n ≤ count ∧ sizeRem = blockSizeAt memory relocPtr * (count - n) ∧
      (sizeRem ≠ 0 → relocPtr % 4 = 0) := by
  induction rounds generalizing sizeRem n with
  | zero => cases ran
  | succ rounds ih =>
    rw [countRelocations] at ran
    by_cases finished : sizeRem = 0
    · rw [if_neg (not_not.mpr finished)] at ran
      cases ran
      exact ⟨le_rfl, by rw [finished, Nat.sub_self, Nat.mul_zero], fun more => absurd finished more⟩
    rw [if_pos finished] at ran
    by_cases odd : relocPtr % 4 ≠ 0
    · rw [if_pos odd] at ran
      cases ran
    rw [if_neg odd, result_bind (a := ()) rfl] at ran
    cases rest : subUnsigned sizeRem (blockSizeAt memory relocPtr) with
    | none =>
      rw [rest] at ran
      cases ran
    | some left =>
      cases next : addU32 n 1 with
      | none =>
        rw [rest, next] at ran
        cases ran
      | some m =>
        rw [rest, next, result_bind rfl, result_bind rfl] at ran
        obtain ⟨more, same, _⟩ := ih ran
        rw [addU32, Option.ite_none_right_eq_some, Option.some.injEq] at next
        rw [subUnsigned, Option.ite_none_left_eq_some, Option.some.injEq] at rest
        obtain ⟨_, rfl⟩ := next
        refine ⟨by omega, ?_, fun _ => not_not.mp odd⟩
        rw [show count - n = count - (n + 1) + 1 by omega, Nat.mul_succ, ← same]
        omega

theorem countRelocations_looks (more : sizeRem ≠ 0)
    (ran : (countRelocations memory relocPtr rounds sizeRem n).result = .ok (some count)) :
    (relocPtr, sizeOfBaseRelocationBlock) ∈
      (countRelocations memory relocPtr rounds sizeRem n).looked := by
  cases rounds with
  | zero => cases ran
  | succ rounds =>
    have aligned := (countRelocations_ok ran).2.2 more
    rw [countRelocations, if_pos more, if_neg (not_not.mpr aligned)]
    exact List.mem_cons_self

private theorem countRelocations_never_rejects (e : ExecutableLoadError) :
    (countRelocations memory relocPtr rounds sizeRem n).result ≠ .error (.rejects e) := by
  induction rounds generalizing sizeRem n with
  | zero => exact nofun
  | succ rounds ih =>
    rw [countRelocations]
    split
    · split
      · exact nofun
      · rw [result_bind (a := ()) rfl]
        cases subUnsigned sizeRem (blockSizeAt memory relocPtr) with
        | none => exact nofun
        | some left =>
          cases addU32 n 1 with
          | none => exact nofun
          | some m => exact ih
    · exact nofun

theorem countRelocations_even (aligned : relocPtr % 4 = 0)
    (positive : 0 < blockSizeAt memory relocPtr) (narrow : n + count < 2 ^ 32) :
    (countRelocations memory relocPtr (count + 1) (blockSizeAt memory relocPtr * count) n).result =
        .ok (some (n + count)) ∧
      ∀ range ∈ (countRelocations memory relocPtr (count + 1)
        (blockSizeAt memory relocPtr * count) n).looked,
        range = (relocPtr, sizeOfBaseRelocationBlock) := by
  induction count generalizing n with
  | zero =>
    rw [countRelocations, Nat.mul_zero, if_neg (by decide)]
    exact ⟨rfl, nofun⟩
  | succ count ih =>
    obtain ⟨result, looked⟩ := ih (n := n + 1) (by omega)
    have more : blockSizeAt memory relocPtr * (count + 1) ≠ 0 :=
      (Nat.mul_pos positive (Nat.succ_pos count)).ne'
    have left : subUnsigned (blockSizeAt memory relocPtr * (count + 1))
        (blockSizeAt memory relocPtr) = some (blockSizeAt memory relocPtr * count) := by
      rw [subUnsigned, if_neg (Nat.not_lt.mpr (Nat.le_mul_of_pos_right _ (Nat.succ_pos count))),
        Nat.mul_succ, Nat.add_sub_cancel]
    have next : addU32 n 1 = some (n + 1) := if_pos (by omega)
    rw [countRelocations, if_pos more, if_neg (not_not.mpr aligned), left, next]
    constructor
    · rw [result_bind (a := ()) rfl, result_bind rfl, result_bind rfl, result,
        Nat.add_assoc, Nat.add_comm 1 count]
    · intro range member
      rcases List.mem_cons.mp member with rfl | later
      · rfl
      · exact looked range later

/-! ### The directory -/

section Directory

variable {rvaAndSizes : List ImageDataDirectory} {sections : List ImageSectionHeader}
  {buffer : Buffer} {d : ImageDataDirectory} {header : ImageSectionHeader}

/-- The address of the content of a directory in a section. -/
def ImageDataDirectory.place (d : ImageDataDirectory) (header : ImageSectionHeader)
    (buffer : Buffer) : Nat :=
  buffer.ptr + (d.virtualAddress - header.virtualAddress) + header.pointerToRawData

/-- The directory is not there, is in no section, or its blocks are counted: the loop ends,
nothing outside is looked at, and what cannot be divided into blocks is malformed. -/
inductive LoadsReloc (memory : Nat → Byte) (rvaAndSizes : List ImageDataDirectory)
    (sections : List ImageSectionHeader) (buffer : Buffer) : Prop
  | absent
      (none : ∀ d, rvaAndSizes[5]? = some d → d.size = 0 ∨ d.virtualAddress = 0)
      (ran : (loadReloc memory rvaAndSizes sections buffer 0).result = .error
        (.rejects .unsupported))
  | noSection (d : ImageDataDirectory) (here : rvaAndSizes[5]? = some d)
      (present : ¬(d.size = 0 ∨ d.virtualAddress = 0))
      (none : (findSectionForRva d.virtualAddress sections).result = .ok none)
      (ran : (loadReloc memory rvaAndSizes sections buffer 0).result =
        .error (.rejects .missingSection))
  | counted (d : ImageDataDirectory) (here : rvaAndSizes[5]? = some d)
      (present : ¬(d.size = 0 ∨ d.virtualAddress = 0)) (header : ImageSectionHeader)
      (found : (findSectionForRva d.virtualAddress sections).result = .ok (some header))
      (rounds : Nat)
      (ends : (loadReloc memory rvaAndSizes sections buffer rounds).result ≠ .ok none)
      (inside : ∀ range ∈ (loadReloc memory rvaAndSizes sections buffer rounds).looked,
        d.place header buffer ≤ range.1 ∧ range.1 + range.2 ≤ d.place header buffer + d.size)
      (blocks : ∀ count, Blocks memory (d.place header buffer) d.size count →
        (loadReloc memory rvaAndSizes sections buffer rounds).result =
          .ok (some ⟨d.place header buffer, count⟩))
      (malformed : (∀ count, ¬Blocks memory (d.place header buffer) d.size count) →
        (loadReloc memory rvaAndSizes sections buffer rounds).result =
          .error (.rejects .malformed))

/-- The directory is not there, or in no section, or it has a place at which it is divided into
blocks, and as many blocks of the size of the first one make it up. -/
def EvenBlocks (memory : Nat → Byte) (rvaAndSizes : List ImageDataDirectory)
    (sections : List ImageSectionHeader) (buffer : Buffer) : Prop :=
  ∃ d, rvaAndSizes[5]? = some d ∧
    (d.size = 0 ∨ d.virtualAddress = 0 ∨
      (findSectionForRva d.virtualAddress sections).result = .ok none ∨
      ∃ header, (findSectionForRva d.virtualAddress sections).result = .ok (some header) ∧
        d.place header buffer < 2 ^ 64 ∧ d.place header buffer % 4 = 0 ∧
        sizeOfBaseRelocationBlock ≤ d.size ∧
        ∃ count, Blocks memory (d.place header buffer) d.size count ∧
          blockSizeAt memory (d.place header buffer) * count = d.size)

private theorem findSectionForRva_below {rva : Nat}
    (found : (findSectionForRva rva sections).result = .ok (some header)) :
    header.virtualAddress ≤ rva := by
  induction sections with
  | nil => cases found
  | cons first rest ih =>
    rw [findSectionForRva] at found
    split at found
    next starts =>
      cases sum : addU32 first.virtualAddress first.virtualSize with
      | none =>
        rw [sum] at found
        cases found
      | some sectionEnd =>
        rw [sum, result_bind rfl] at found
        split at found
        next =>
          cases found
          exact starts
        next => exact ih found
    next => exact ih found

/-- Looking up a section looks at no block. -/
theorem findSectionForRva_looked (rva : Nat) : (findSectionForRva rva sections).looked = [] := by
  induction sections with
  | nil => rfl
  | cons first rest ih =>
    rw [findSectionForRva]
    split
    · cases addU32 first.virtualAddress first.virtualSize with
      | none => rfl
      | some sectionEnd =>
        change (if sectionEnd ≥ rva then pure (some first)
          else findSectionForRva rva rest : PeM _).looked
          = []
        split
        · rfl
        · exact ih
    · exact ih

theorem loadReloc_absent (here : rvaAndSizes[5]? = some d)
    (absent : d.size = 0 ∨ d.virtualAddress = 0) (rounds : Nat) :
    loadReloc memory rvaAndSizes sections buffer rounds = reject .unsupported := by
  rw [loadReloc, here, bind_quiet rfl rfl, if_pos absent]

private theorem loadReloc_noSection (here : rvaAndSizes[5]? = some d)
    (present : ¬(d.size = 0 ∨ d.virtualAddress = 0))
    (none : (findSectionForRva d.virtualAddress sections).result = .ok none) (rounds : Nat) :
    loadReloc memory rvaAndSizes sections buffer rounds = reject .missingSection := by
  rw [loadReloc, here, bind_quiet rfl rfl, if_neg present,
    bind_quiet none (findSectionForRva_looked _)]

theorem loadReloc_found (here : rvaAndSizes[5]? = some d)
    (present : ¬(d.size = 0 ∨ d.virtualAddress = 0))
    (found : (findSectionForRva d.virtualAddress sections).result = .ok (some header))
    (rounds : Nat) :
    loadReloc memory rvaAndSizes sections buffer rounds =
      if d.place header buffer < 2 ^ 64 then do
        let numRelocations ← countRelocations memory (d.place header buffer) rounds d.size 0
        pure (numRelocations.map (PeRelocInformation.mk (d.place header buffer)))
      else stop := by
  have offset : subUnsigned d.virtualAddress header.virtualAddress =
      some (d.virtualAddress - header.virtualAddress) :=
    if_neg (Nat.not_lt.mpr (findSectionForRva_below found))
  rw [loadReloc, here, bind_quiet rfl rfl, if_neg present,
    bind_quiet found (findSectionForRva_looked _)]
  simp only [offset]
  rw [bind_quiet rfl rfl]
  by_cases first : buffer.ptr + (d.virtualAddress - header.virtualAddress) < 2 ^ 64
  · rw [addressSum, sumU64, if_pos first, bind_quiet rfl rfl, addressSum, sumU64]
    split
    next fits =>
      rw [bind_quiet rfl rfl, if_pos (show d.place header buffer < 2 ^ 64 from fits)]
      rfl
    next long =>
      rw [if_neg (show ¬d.place header buffer < 2 ^ 64 from long)]
      rfl
  · rw [addressSum, sumU64, if_neg first, if_neg fun fits => first (by
      unfold ImageDataDirectory.place at fits
      omega)]
    rfl

theorem LoadsReloc.even (loads : LoadsReloc memory rvaAndSizes sections buffer) :
    EvenBlocks memory rvaAndSizes sections buffer := by
  cases loads with
  | absent none ran =>
    cases here : rvaAndSizes[5]? with
    | none =>
      rw [loadReloc, here] at ran
      cases ran
    | some d => exact ⟨d, here, (none d here).elim Or.inl fun zero => Or.inr (Or.inl zero)⟩
  | noSection d here present none ran => exact ⟨d, here, Or.inr (Or.inr (Or.inl none))⟩
  | counted d here present header found rounds ends inside blocks malformed =>
    refine ⟨d, here, Or.inr (Or.inr (Or.inr ⟨header, found, ?_⟩))⟩
    rw [loadReloc_found here present found] at ends inside blocks malformed
    obtain ⟨nonempty, _⟩ := not_or.mp present
    by_cases fits : d.place header buffer < 2 ^ 64
    swap
    · simp only [if_neg fits] at blocks malformed
      -- a stop is neither of the results
      by_cases divided : ∃ count, Blocks memory (d.place header buffer) d.size count
      · obtain ⟨count, division⟩ := divided
        cases blocks count division
      · cases malformed (not_exists.mp divided)
    rw [if_pos fits] at ends inside blocks malformed
    cases ran : (countRelocations memory (d.place header buffer) rounds d.size 0).result with
    | error halt =>
      rw [result_bind_error ran] at blocks malformed
      by_cases divided : ∃ count, Blocks memory (d.place header buffer) d.size count
      · obtain ⟨count, division⟩ := divided
        cases blocks count division
      · cases malformed (not_exists.mp divided)
        exact absurd ran (countRelocations_never_rejects _)
    | ok left =>
      rw [result_bind ran] at ends blocks malformed
      cases left with
      | none => exact absurd rfl ends
      | some count =>
        obtain ⟨_, size, aligned⟩ := countRelocations_ok ran
        have first := inside _ (mem_looked_bind (countRelocations_looks nonempty ran))
        refine ⟨fits, aligned nonempty, by omega, ?_⟩
        by_cases divided : ∃ count, Blocks memory (d.place header buffer) d.size count
        · obtain ⟨k, division⟩ := divided
          cases blocks k division
          exact ⟨count, division, size.symm⟩
        · cases malformed (not_exists.mp divided)

theorem EvenBlocks.loads (even : EvenBlocks memory rvaAndSizes sections buffer) :
    LoadsReloc memory rvaAndSizes sections buffer := by
  obtain ⟨d, here, holds⟩ := even
  by_cases absent : d.size = 0 ∨ d.virtualAddress = 0
  · refine .absent (fun other same => ?_) (by rw [loadReloc_absent here absent]; rfl)
    cases here.symm.trans same
    exact absent
  rcases holds with zero | zero | none | ⟨header, found, fits, aligned, long, k, division, even⟩
  · exact absurd (Or.inl zero) absent
  · exact absurd (Or.inr zero) absent
  · exact .noSection d here absent none (by rw [loadReloc_noSection here absent none]; rfl)
  · have nonempty : d.size ≠ 0 := fun zero => absent (Or.inl zero)
    have positive : 0 < blockSizeAt memory (d.place header buffer) :=
      Nat.pos_of_mul_pos_right (by rw [even]; exact Nat.pos_of_ne_zero nonempty)
    have narrow : 0 + k < 2 ^ 32 := by
      have := d.narrow
      have : k ≤ d.size := even ▸ Nat.le_mul_of_pos_left k positive
      omega
    obtain ⟨result, looked⟩ := countRelocations_even aligned positive narrow
    rw [even] at result looked
    have ran : (loadReloc memory rvaAndSizes sections buffer (k + 1)).result =
        .ok (some ⟨d.place header buffer, k⟩) := by
      rw [loadReloc_found here absent found, if_pos fits, result_bind result, Nat.zero_add]
      rfl
    refine .counted d here absent header found (k + 1) ?_ ?_ ?_ ?_
    · rw [ran]
      exact nofun
    · intro range member
      rw [loadReloc_found here absent found, if_pos fits, looked_bind_pure] at member
      rw [looked range member]
      exact ⟨le_rfl, Nat.add_le_add_left long _⟩
    · intro count division'
      rw [ran, division.unique division']
    · intro undivided
      exact absurd division (undivided k)

/-- The blocks are counted as they should be exactly if the first one has the size that all
have on average. -/
theorem loadsReloc_iff : LoadsReloc memory rvaAndSizes sections buffer ↔
    EvenBlocks memory rvaAndSizes sections buffer :=
  ⟨LoadsReloc.even, EvenBlocks.loads⟩

/-- A block of 8 bytes and one of 16 bytes. -/
def unevenRelocations (address : Nat) : Byte :=
  if address = 0x1004 then 8 else if address = 0x100C then 16 else 0

/-- Five entries without a directory, and one of a given size. -/
def relocDirectories (size : Nat) (narrow : size < 2 ^ 32) : List ImageDataDirectory :=
  List.replicate 5 ⟨0, 0, by decide⟩ ++ [⟨0x5000, size, narrow⟩]

/-- Blocks of different sizes are counted by the size of the first one. -/
theorem not_loadsReloc_uneven : ¬LoadsReloc unevenRelocations (relocDirectories 24 (by decide))
    [⟨0x1000, 0x5000, 0x400⟩] ⟨0xC00, 0x1000, 0x1000, false⟩ := by
  intro loads
  obtain ⟨d, here, holds⟩ := loads.even
  cases here
  rcases holds with zero | zero | none | ⟨header, found, _, _, _, count, division, even⟩
  · cases zero
  · cases zero
  · cases none
  · cases found
    have first : blockSizeAt unevenRelocations 0x1000 = 8 := by decide +kernel
    have two : Blocks unevenRelocations 0x1000 24 2 := by
      refine .block _ _ 1 (by decide +kernel) (by decide +kernel) ?_
      refine .block _ _ 0 (by decide +kernel) (by decide +kernel) ?_
      exact .done _
    have same : 2 = count := two.unique division
    have even' : blockSizeAt unevenRelocations 0x1000 * count = 24 := even
    rw [first, ← same] at even'
    cases even'

end Directory

end EmkKernel
