import EmkKernel.Processes.PeCoff

/-!
# The section of a relative address

`find_section_for_rva` takes the first section that starts at or below the address and does
not end below it. A section that ends exactly at the address is taken as well, although the
address lies behind it, and the end of a section is a sum in `u32`.
-/

namespace EmkKernel

open Checked

/-- The fields of `ImageSectionHeader` that are used. -/
structure ImageSectionHeader where
  virtualSize : Nat
  virtualAddress : Nat
  pointerToRawData : Nat
  deriving DecidableEq, Repr

def findSectionForRva (rva : Nat) : List ImageSectionHeader → PeM (Option ImageSectionHeader)
  | [] => pure none
  | header :: rest =>
    if rva ≥ header.virtualAddress then do
      let sectionEnd ← orStop (addU32 header.virtualAddress header.virtualSize)
      if sectionEnd ≥ rva then pure (some header) else findSectionForRva rva rest
    else findSectionForRva rva rest

namespace ImageSectionHeader

/-- The address lies in the section. -/
def Contains (header : ImageSectionHeader) (rva : Nat) : Prop :=
  header.virtualAddress ≤ rva ∧ rva < header.virtualAddress + header.virtualSize

instance (header : ImageSectionHeader) (rva : Nat) : Decidable (header.Contains rva) :=
  inferInstanceAs (Decidable (_ ∧ _))

def Disjoint (s t : ImageSectionHeader) : Prop := ∀ rva, s.Contains rva → ¬t.Contains rva

end ImageSectionHeader

variable {rva : Nat} {sections : List ImageSectionHeader}

/-- The one section that the address lies in is found, or there is none. -/
def FindsSection (rva : Nat) (sections : List ImageSectionHeader) : Prop :=
  ∃ found, (findSectionForRva rva sections).result = .ok found ∧
    ∀ header, found = some header ↔ header ∈ sections ∧ header.Contains rva

/-- No section as far as the one that the address lies in starts at or below the address and
ends exactly there, or at `2 ^ 32` or later. -/
def EndsApart (rva : Nat) : List ImageSectionHeader → Prop
  | [] => True
  | header :: rest =>
    (header.virtualAddress ≤ rva →
      header.virtualAddress + header.virtualSize ≠ rva ∧
        header.virtualAddress + header.virtualSize < 2 ^ 32) ∧
      (¬header.Contains rva → EndsApart rva rest)

/-- A section that does not matter does not change what is found. -/
theorem findsSection_skip {header : ImageSectionHeader} {rest : List ImageSectionHeader}
    (same : findSectionForRva rva (header :: rest) = findSectionForRva rva rest)
    (outside : ¬header.Contains rva) : FindsSection rva (header :: rest) ↔
      FindsSection rva rest := by
  unfold FindsSection
  rw [same]
  refine exists_congr fun found => and_congr_right fun _ => forall_congr' fun other => ?_
  have members : other ∈ header :: rest ∧ other.Contains rva ↔
      other ∈ rest ∧ other.Contains rva := by
    constructor
    · rintro ⟨member, inside⟩
      rcases List.mem_cons.mp member with rfl | later
      · exact absurd inside outside
      · exact ⟨later, inside⟩
    · rintro ⟨later, inside⟩
      exact ⟨List.mem_cons_of_mem _ later, inside⟩
  rw [members]

/-- In a table of disjoint sections the right one is found exactly if no section that the
search passes ends at the address, or beyond `u32`. -/
theorem findsSection_iff (disjoint : sections.Pairwise ImageSectionHeader.Disjoint) :
    FindsSection rva sections ↔ EndsApart rva sections := by
  induction sections with
  | nil =>
    refine iff_of_true ⟨none, rfl, fun header => ?_⟩ trivial
    simp
  | cons header rest ih =>
    obtain ⟨apart, disjoint⟩ := List.pairwise_cons.mp disjoint
    by_cases starts : header.virtualAddress ≤ rva
    · by_cases fits : header.virtualAddress + header.virtualSize < 2 ^ 32
      · have ran : findSectionForRva rva (header :: rest) =
            if header.virtualAddress + header.virtualSize ≥ rva then pure (some header)
            else findSectionForRva rva rest := by
          rw [findSectionForRva, if_pos starts, addU32, if_pos fits]
          rfl
        rcases Nat.lt_trichotomy (header.virtualAddress + header.virtualSize) rva with
          before | exact' | behind
        -- the section ends below the address
        · rw [if_neg (by omega)] at ran
          have outside : ¬header.Contains rva := fun inside => by
            have := inside.2
            omega
          rw [findsSection_skip ran outside, ih disjoint, EndsApart]
          constructor
          · exact fun later => ⟨fun _ => ⟨by omega, fits⟩, fun _ => later⟩
          · exact fun holds => holds.2 outside
        -- it ends at the address, and is taken
        · rw [if_pos exact'.ge] at ran
          refine iff_of_false ?_ fun holds => (holds.1 starts).1 exact'
          rintro ⟨found, result, right⟩
          rw [ran] at result
          cases result
          have := ((right header).mp rfl).2.2
          omega
        -- the address lies in it
        · rw [if_pos behind.le] at ran
          have inside : header.Contains rva := ⟨starts, behind⟩
          refine iff_of_true ⟨some header, by rw [ran]; rfl, fun other => ?_⟩
            ⟨fun _ => ⟨by omega, fits⟩, fun outside => absurd inside outside⟩
          constructor
          · rintro ⟨⟩
            exact ⟨List.mem_cons_self, inside⟩
          · rintro ⟨member, inside'⟩
            rcases List.mem_cons.mp member with rfl | later
            · rfl
            · exact absurd inside' (apart other later rva inside)
      · refine iff_of_false ?_ fun holds => fits (holds.1 starts).2
        rintro ⟨found, result, _⟩
        rw [findSectionForRva, if_pos starts, addU32, if_neg fits] at result
        cases result
    · have ran : findSectionForRva rva (header :: rest) = findSectionForRva rva rest := by
        rw [findSectionForRva, if_neg starts]
      have outside : ¬header.Contains rva := fun inside => starts inside.1
      rw [findsSection_skip ran outside, ih disjoint, EndsApart]
      constructor
      · exact fun later => ⟨fun low => absurd low starts, fun _ => later⟩
      · exact fun holds => holds.2 outside

section Samples

/-- Two sections that touch. -/
def touchingSections : List ImageSectionHeader := [⟨0x1000, 0x1000, 0x400⟩, ⟨0x800, 0x2000, 0x1400⟩]

private theorem touchingSections_disjoint :
    touchingSections.Pairwise ImageSectionHeader.Disjoint := by
  refine List.pairwise_cons.mpr ⟨fun other member => ?_, List.pairwise_singleton _ _⟩
  rw [List.mem_singleton.mp member]
  rintro rva ⟨_, below⟩ ⟨above, _⟩
  simp only [] at below above
  omega

theorem findsSection_inside : FindsSection 0x2004 touchingSections := by
  refine (findsSection_iff touchingSections_disjoint).mpr ?_
  simp [touchingSections, EndsApart]

/-- The first byte of the second section is looked up in the first one. -/
theorem not_findsSection_boundary : touchingSections.Pairwise ImageSectionHeader.Disjoint ∧
    ¬FindsSection 0x2000 touchingSections := by
  refine ⟨touchingSections_disjoint, ?_⟩
  rintro ⟨found, result, right⟩
  have ran : (findSectionForRva 0x2000 touchingSections).result =
    .ok (some ⟨0x1000, 0x1000, 0x400⟩) := by decide +kernel
  rw [ran] at result
  cases result
  -- the first section ends where the second one starts
  have inside := ((right _).mp rfl).2.2
  exact absurd inside (by decide)

end Samples

end EmkKernel
