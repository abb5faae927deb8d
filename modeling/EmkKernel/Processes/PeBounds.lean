import EmkKernel.Processes.PeCoff

/-!
# What loading the headers of a PE file looks at

The condition under which loading stays inside the buffer is computed along the code: each
structure has to be inside when the checks before it let the code reach it.
-/

namespace EmkKernel

open Checked

variable {memory : Nat → Byte} {b : Buffer}

/-- The bytes lie in the buffer. -/
def Buffer.Holds (b : Buffer) (address n : Nat) : Prop :=
  b.ptr ≤ address ∧ address + n ≤ b.ptr + b.originalSize

section Rules

variable {allowed : Nat → Nat → Prop} {Q : Nat → Prop}

@[simp] theorem safe_addressSum (a n : Nat) :
    Safe (addressSum a n) allowed Q ↔ a + n < 2 ^ 64 ∧ Q (a + n) := by
  unfold addressSum sumU64
  rw [safe_orStop]
  split
  next fits =>
    constructor
    · rintro ⟨_, sum, holds⟩
      cases sum
      exact ⟨fits, holds⟩
    · exact fun ⟨_, holds⟩ => ⟨_, rfl, holds⟩
  next outside =>
    constructor
    · exact fun ⟨_, missing, _⟩ => nomatch missing
    · exact fun ⟨fits, _⟩ => absurd fits outside

@[simp] theorem safe_remainder (a n : Nat) :
    Safe (remainder a n) allowed Q ↔ n ≠ 0 ∧ Q (a % n) := by
  unfold remainder
  split
  next zero => simp [zero]
  next nonzero => simp [nonzero]

@[simp] theorem safe_readNumber (address n : Nat) :
    Safe (readNumber memory address n) allowed Q ↔
      address % n = 0 ∧ allowed address n ∧ Q (littleEndian memory address n) := by
  unfold readNumber
  split
  next odd => simp [odd]
  next aligned =>
    rw [not_not] at aligned
    simp [aligned]

end Rules

/-! ### The optional header -/

namespace OptionalHeader

variable (h : OptionalHeader)

/-- Where the checks come to a division, they do not divide by zero. -/
def Divides : Prop :=
  ¬(h.sectionAlignment ≠ 0x1000 ∧ h.sectionAlignment ≠ h.fileAlignment) → h.win32VersionValue = 0 →
    h.sectionAlignment ≠ 0 ∧ (h.sizeOfImage % h.sectionAlignment = 0 → h.fileAlignment ≠ 0)

/-- The checks that an optional header of a given size has to pass. -/
structure Accepted (bytes : Nat) (reserveMalformed : Nat → Bool) (size : Nat) : Prop where
  alignment : ¬(h.sectionAlignment ≠ 0x1000 ∧ h.sectionAlignment ≠ h.fileAlignment)
  version : h.win32VersionValue = 0
  image : h.sizeOfImage % h.sectionAlignment = 0
  headers : h.sizeOfHeaders % h.fileAlignment = 0
  flags : h.loaderFlags = 0
  directories : bytes + 2 + h.numberOfRvaAndSizes * sizeOfImageDataDirectory ≤ size
  heapCommit : h.sizeOfHeapCommit % 0x1000 = 0
  heapReserve : reserveMalformed h.sizeOfHeapReserve = false
  stackCommit : h.sizeOfStackCommit % 0x1000 = 0
  stackReserve : h.sizeOfStackReserve % 0x1000 = 0

/-- What is returned for it. -/
def unified (directories : Nat) : UnifiedOptionalHeader where
  addressOfEntryPoint := h.addressOfEntryPoint
  imageBase := h.imageBase
  sectionAlignment := h.sectionAlignment
  fileAlignment := h.fileAlignment
  sizeOfStackReserve := h.sizeOfStackReserve
  sizeOfStackCommit := h.sizeOfStackCommit
  rvaAndSizes := ⟨directories, h.numberOfRvaAndSizes⟩

end OptionalHeader

private theorem safe_loadOptionalHeaderAt {layout : (Nat → Byte) → Nat → OptionalHeader}
    {bytes : Nat} {reserveMalformed : Nat → Bool} {size offset : Nat} {allowed : Nat → Nat → Prop}
    {Q : UnifiedOptionalHeader → Prop} :
    Safe (PeCoff.loadOptionalHeaderAt layout bytes reserveMalformed memory size b offset)
      allowed Q ↔
      b.ptr + offset < 2 ^ 64 ∧ allowed (b.ptr + offset) bytes ∧
      (layout memory (b.ptr + offset)).Divides ∧
      ((layout memory (b.ptr + offset)).Accepted bytes reserveMalformed size →
        b.ptr + offset + bytes < 2 ^ 64 ∧
        Q ((layout memory (b.ptr + offset)).unified (b.ptr + offset + bytes))) := by
  unfold PeCoff.loadOptionalHeaderAt
  rw [safe_bind, safe_addressSum, safe_bind, safe_look]
  generalize layout memory (b.ptr + offset) = h
  refine and_congr_right fun _ => and_congr_right fun _ => ?_
  dsimp only
  rw [safe_ite]
  split
  next refused =>
    rw [safe_reject, true_iff]
    exact ⟨fun aligned => absurd refused aligned, fun accepted => absurd refused accepted.alignment⟩
  next aligned =>
  rw [safe_ite]
  split
  next other =>
    rw [safe_reject, true_iff]
    exact ⟨fun _ zero => absurd zero other, fun accepted => absurd accepted.version other⟩
  next version =>
  rw [not_not] at version
  have divides : h.Divides ↔ h.sectionAlignment ≠ 0 ∧
      (h.sizeOfImage % h.sectionAlignment = 0 → h.fileAlignment ≠ 0) :=
    ⟨fun divides => divides aligned version, fun divides _ _ => divides⟩
  rw [divides, and_assoc, safe_bind, safe_remainder]
  refine and_congr_right fun _ => ?_
  rw [safe_ite]
  split
  next uneven =>
    rw [safe_reject, true_iff]
    exact ⟨fun even => absurd even uneven, fun accepted => absurd accepted.image uneven⟩
  next image =>
  rw [not_not] at image
  rw [forall_prop_of_true image, safe_bind, safe_remainder]
  refine and_congr_right fun _ => ?_
  rw [safe_ite]
  split
  next refused =>
    rw [safe_reject, true_iff]
    intro accepted
    exact refused.elim (absurd accepted.headers) (absurd accepted.flags)
  next headers =>
  rw [safe_ite]
  split
  next long =>
    rw [safe_reject, true_iff]
    exact fun accepted => absurd accepted.directories (Nat.not_le_of_lt long)
  next short =>
  rw [safe_ite]
  split
  next refused =>
    rw [safe_reject, true_iff]
    intro accepted
    rcases refused with commit | reserve | commit | reserve
    · exact absurd accepted.heapCommit commit
    · rw [accepted.heapReserve] at reserve
      cases reserve
    · exact absurd accepted.stackCommit commit
    · exact absurd accepted.stackReserve reserve
  next sizes =>
  -- all checks are passed
  simp only [not_or, not_not, Bool.not_eq_true] at headers sizes
  have accepted : h.Accepted bytes reserveMalformed size :=
    ⟨aligned, version, image, headers.1, headers.2, Nat.le_of_not_lt short, sizes.1, sizes.2.1,
      sizes.2.2.1, sizes.2.2.2⟩
  rw [forall_prop_of_true accepted, safe_bind, safe_addressSum, safe_pure]
  rfl

/-! ### A file -/

/-- The fields of a file that say where the headers are. -/
def peOffset (memory : Nat → Byte) (b : Buffer) : Nat := littleEndian memory (b.ptr + 0x3C) 4

def peHeader (memory : Nat → Byte) (b : Buffer) : PeHeader :=
  PeHeader.at memory (b.ptr + peOffset memory b)

def peIndicator (memory : Nat → Byte) (b : Buffer) : Nat :=
  littleEndian memory (b.ptr + peOffset memory b + sizeOfPeHeader) 2

/-- The DOS header, the NT headers, the data directories and the section table. -/
structure PeCoff.Inside (pe : PeCoff) (memory : Nat → Byte) (b : Buffer) : Prop where
  dosHeader : b.Holds b.ptr 0x40
  ntHeaders : b.Holds (b.ptr + peOffset memory b)
    (sizeOfPeHeader + (peHeader memory b).sizeOfOptionalHeader)
  directories : b.Holds pe.optionalHeader.rvaAndSizes.address
    (pe.optionalHeader.rvaAndSizes.length * sizeOfImageDataDirectory)
  sections : b.Holds pe.sectionTable.address (pe.sectionTable.length * sizeOfImageSectionHeader)

/-- Loading rejects the file, or returns headers that are inside, and looks nowhere else. -/
def LoadsInside (memory : Nat → Byte) (b : Buffer) : Prop :=
  Safe (PeCoff.load memory b) b.Holds fun pe => pe.Inside memory b

/-- The checks of the PE header. -/
structure PeHeader.Accepted (h : PeHeader) : Prop where
  optional : h.sizeOfOptionalHeader ≠ 0
  machine : h.machine = peImageFileMachineAmd64
  characteristics : ¬(h.characteristics &&& peImageFileExecutableImage = 0 ∨
    h.characteristics &&& peImageFile32BitMachine ≠ 0 ∨
    h.characteristics &&& peImageFileBytesReversedHi ≠ 0)

/-- The optional header is there, it can be divided by its alignments, and when it is accepted
all headers and sections are there. -/
structure OptionalContained (layout : (Nat → Byte) → Nat → OptionalHeader) (bytes : Nat)
    (reserveMalformed : Nat → Bool) (memory : Nat → Byte) (b : Buffer) : Prop where
  inside : peOffset memory b + sizeOfPeHeader + 2 + bytes ≤ b.originalSize
  divides : (layout memory (b.ptr + (peOffset memory b + sizeOfPeHeader + 2))).Divides
  sections : (layout memory (b.ptr + (peOffset memory b + sizeOfPeHeader + 2))).Accepted bytes
      reserveMalformed (peHeader memory b).sizeOfOptionalHeader →
    peOffset memory b + sizeOfPeHeader + (peHeader memory b).sizeOfOptionalHeader +
      (peHeader memory b).numberOfSections * sizeOfImageSectionHeader ≤ b.originalSize

/-- What has to be there behind an accepted PE header. -/
structure MagicContained (memory : Nat → Byte) (b : Buffer) : Prop where
  even : (b.ptr + peOffset memory b + sizeOfPeHeader) % 2 = 0
  inside : peOffset memory b + sizeOfPeHeader + 2 ≤ b.originalSize
  pe32 : peIndicator memory b = 0x10b →
    OptionalContained Pe32OptionalHeader.at sizeOfPe32OptionalHeader (fun reserve => reserve ≠ 0)
      memory b
  pe32Plus : peIndicator memory b = 0x20b →
    OptionalContained Pe32PlusOptionalHeader.at sizeOfPe32PlusOptionalHeader
      (fun reserve => reserve % 0x1000 ≠ 0) memory b

/-- The structures that the checks of a file lead to are in the buffer. -/
structure HeadersContained (memory : Nat → Byte) (b : Buffer) : Prop where
  aligned : (b.ptr + 0x3C) % 4 = 0
  dosHeader : 0x40 ≤ b.originalSize
  header : peOffset memory b ≤ b.originalSize % 2 ^ 32 →
    peOffset memory b + sizeOfPeHeader ≤ b.originalSize
  magic : peOffset memory b ≤ b.originalSize % 2 ^ 32 → (peHeader memory b).Accepted →
    MagicContained memory b

private theorem Buffer.holds_offset (offset n : Nat) :
    b.Holds (b.ptr + offset) n ↔ offset + n ≤ b.originalSize := by
  unfold Buffer.Holds
  omega

theorem optionalContained_iff {layout : (Nat → Byte) → Nat → OptionalHeader} {bytes : Nat}
    {reserveMalformed : Nat → Bool} {is64bit : Bool} (space : b.ptr + b.originalSize < 2 ^ 64)
    (dos : 0x40 ≤ b.originalSize) :
    Safe (PeCoff.loadOptionalHeaderAt layout bytes reserveMalformed memory
      (peHeader memory b).sizeOfOptionalHeader b (peOffset memory b + sizeOfPeHeader + 2)) b.Holds
      (fun optionalBlock => Safe (do
        let sections ← addressSum (← addressSum (b.ptr + peOffset memory b) sizeOfPeHeader)
          (peHeader memory b).sizeOfOptionalHeader
        pure (⟨(peHeader memory b).characteristics, optionalBlock,
          ⟨sections, (peHeader memory b).numberOfSections⟩, is64bit⟩ : PeCoff)) b.Holds
          fun pe => pe.Inside memory b) ↔
      OptionalContained layout bytes reserveMalformed memory b := by
  rw [safe_loadOptionalHeaderAt]
  simp only [safe_bind, safe_addressSum, safe_pure]
  constructor
  · rintro ⟨_, inside, divides, accepted⟩
    rw [Buffer.holds_offset] at inside
    refine ⟨inside, divides, fun checks => ?_⟩
    obtain ⟨_, _, _, result⟩ := accepted checks
    have sections := result.sections.2
    dsimp only at sections
    omega
  · rintro ⟨inside, divides, sections⟩
    refine ⟨by omega, (Buffer.holds_offset _ _).mpr inside, divides, fun checks => ?_⟩
    have total := sections checks
    have directories := checks.directories
    refine ⟨by omega, by omega, by omega, ?_, ?_, ?_, ?_⟩
    · exact ⟨Nat.le_refl _, Nat.add_le_add_left dos _⟩
    · exact (Buffer.holds_offset _ _).mpr (by omega)
    · unfold Buffer.Holds
      dsimp only [OptionalHeader.unified]
      omega
    · unfold Buffer.Holds
      dsimp only
      omega

private theorem safe_headerChecks {h : PeHeader} {x : PeM PeCoff} {allowed : Nat → Nat → Prop}
    {Q : PeCoff → Prop} :
    Safe (if h.sizeOfOptionalHeader = 0 then reject .malformed
      else if h.machine ≠ peImageFileMachineAmd64 then reject .invalidISA
      else if h.characteristics &&& peImageFileExecutableImage = 0 ∨
          h.characteristics &&& peImageFile32BitMachine ≠ 0 ∨
          h.characteristics &&& peImageFileBytesReversedHi ≠ 0 then reject .malformed
      else x) allowed Q ↔ (h.Accepted → Safe x allowed Q) := by
  rw [safe_ite]
  split
  next none =>
    rw [safe_reject, true_iff]
    exact fun accepted => absurd none accepted.optional
  next optional =>
  rw [safe_ite]
  split
  next other =>
    rw [safe_reject, true_iff]
    exact fun accepted => absurd accepted.machine other
  next machine =>
  rw [safe_ite]
  split
  next refused =>
    rw [safe_reject, true_iff]
    exact fun accepted => absurd refused accepted.characteristics
  next characteristics =>
    rw [not_not] at machine
    have accepted : h.Accepted := ⟨optional, machine, characteristics⟩
    exact ⟨fun safe _ => safe, fun safe => safe accepted⟩

theorem magicContained_iff (space : b.ptr + b.originalSize < 2 ^ 64)
    (dos : 0x40 ≤ b.originalSize) :
    Safe (do
      let indicator ← readNumber memory (← addressSum (b.ptr + peOffset memory b) sizeOfPeHeader) 2
      let optionalBlock ← (
        if indicator = 0x10b then
          PeCoff.loadOptionalHeader memory (peHeader memory b).sizeOfOptionalHeader b
            (peOffset memory b + sizeOfPeHeader + 2)
        else if indicator = 0x20b then
          PeCoff.loadPlusOptionalHeader memory (peHeader memory b).sizeOfOptionalHeader b
            (peOffset memory b + sizeOfPeHeader + 2)
        else reject .malformed)
      let sections ← addressSum (← addressSum (b.ptr + peOffset memory b) sizeOfPeHeader)
        (peHeader memory b).sizeOfOptionalHeader
      pure (⟨(peHeader memory b).characteristics, optionalBlock,
        ⟨sections, (peHeader memory b).numberOfSections⟩, indicator = 0x20b⟩ : PeCoff)) b.Holds
        (fun pe => pe.Inside memory b) ↔ MagicContained memory b := by
  have number : littleEndian memory (b.ptr + peOffset memory b + sizeOfPeHeader) 2 =
      peIndicator memory b := rfl
  have magic : b.Holds (b.ptr + peOffset memory b + sizeOfPeHeader) 2 ↔
      peOffset memory b + sizeOfPeHeader + 2 ≤ b.originalSize := by
    rw [Nat.add_assoc]
    exact Buffer.holds_offset _ _
  rw [safe_bind, safe_addressSum, safe_bind, safe_readNumber, number, magic, safe_bind, safe_ite]
  -- the two magic numbers exclude each other
  split
  next pe32 =>
    have single : peIndicator memory b ≠ 0x20b := by omega
    unfold PeCoff.loadOptionalHeader
    rw [optionalContained_iff space dos]
    constructor
    · rintro ⟨_, even, inside, contained⟩
      exact ⟨even, inside, fun _ => contained, fun pe32Plus => absurd pe32Plus single⟩
    · rintro ⟨even, inside, contained, _⟩
      exact ⟨by omega, even, inside, contained pe32⟩
  next other =>
  rw [safe_ite]
  split
  next pe32Plus =>
    unfold PeCoff.loadPlusOptionalHeader
    rw [optionalContained_iff space dos]
    constructor
    · rintro ⟨_, even, inside, contained⟩
      exact ⟨even, inside, fun pe32 => absurd pe32 other, fun _ => contained⟩
    · rintro ⟨even, inside, _, contained⟩
      exact ⟨by omega, even, inside, contained pe32Plus⟩
  next neither =>
    rw [safe_reject]
    constructor
    · rintro ⟨_, even, inside, _⟩
      exact ⟨even, inside, fun pe32 => absurd pe32 other, fun pe32Plus => absurd pe32Plus neither⟩
    · rintro ⟨even, inside, _, _⟩
      exact ⟨by omega, even, inside, trivial⟩

/-- Loading stays inside the buffer if and only if the structures it comes to are there. -/
theorem loadsInside_iff (space : b.ptr + b.originalSize < 2 ^ 64) :
    LoadsInside memory b ↔ HeadersContained memory b := by
  have offset : littleEndian memory (b.ptr + 0x3C) 4 = peOffset memory b := rfl
  have header : PeHeader.at memory (b.ptr + peOffset memory b) = peHeader memory b := rfl
  unfold LoadsInside PeCoff.load
  rw [safe_bind, safe_addressSum, safe_bind, safe_readNumber, safe_ite, Buffer.holds_offset, offset]
  by_cases far : peOffset memory b > b.originalSize % 2 ^ 32
  · rw [if_pos far, safe_reject]
    constructor
    · rintro ⟨_, aligned, dos, _⟩
      exact ⟨aligned, dos, fun near => absurd far (Nat.not_lt_of_le near),
        fun near => absurd far (Nat.not_lt_of_le near)⟩
    · rintro ⟨aligned, dos, _, _⟩
      exact ⟨by omega, aligned, dos, trivial⟩
  · have near := Nat.le_of_not_lt far
    rw [if_neg far, safe_bind, safe_addressSum, safe_bind, safe_look]
    dsimp only
    rw [header, safe_headerChecks]
    constructor
    · rintro ⟨_, aligned, dos, _, inside, checks⟩
      refine ⟨aligned, dos, fun _ => (Buffer.holds_offset _ _).mp inside, fun _ accepted => ?_⟩
      have rest := checks accepted
      rw [magicContained_iff space dos] at rest
      exact rest
    · rintro ⟨aligned, dos, header, magic⟩
      have inside := header near
      refine ⟨by omega, aligned, dos, by omega, (Buffer.holds_offset _ _).mpr inside, ?_⟩
      intro accepted
      rw [magicContained_iff space dos]
      exact magic near accepted

/-! ### A file of two sectors -/

/-- A file with headers from byte 64 on, for a 64 bit program without data directories. -/
def peFile (sections : Nat) : Nat → Byte := fun a =>
  if a = 0x103C then 0x40
  else if a = 0x1044 then 0x64 else if a = 0x1045 then 0x86
  else if a = 0x1046 then BitVec.ofNat 8 sections
  else if a = 0x1047 then BitVec.ofNat 8 (sections / 2 ^ 8)
  else if a = 0x1054 then 112 else if a = 0x1056 then 0x02
  else if a = 0x1058 then 0x0B else if a = 0x1059 then 0x02
  else if a = 0x1079 then 0x10 else if a = 0x107D then 0x02
  else 0

def peBuffer : Buffer := ⟨0x1000, 0x1000, 1024, false⟩

theorem loadsInside_one : LoadsInside (peFile 1) peBuffer := by
  refine (loadsInside_iff (by decide)).mpr ⟨by decide, by decide, fun _ => by decide +kernel,
    fun _ _ => ?_⟩
  have magic : peIndicator (peFile 1) peBuffer = 0x20b := by decide +kernel
  refine ⟨by decide +kernel, by decide +kernel, fun pe32 => ?_, fun _ => ?_⟩
  · rw [magic] at pe32
    exact absurd pe32 (by decide)
  · exact ⟨by decide +kernel, fun _ _ => by decide +kernel, fun _ => by decide +kernel⟩

/-- The section table is as long as the header says, and not compared with the file. -/
theorem loads_outside : ¬LoadsInside (peFile 0xFFFF) peBuffer := by
  intro safe
  have loaded : ((PeCoff.load (peFile 0xFFFF) peBuffer).result.toOption.map fun pe =>
      pe.sectionTable) = some ⟨0x10C8, 0xFFFF⟩ := by decide +kernel
  obtain ⟨pe, ran, table⟩ := Option.map_eq_some_iff.mp loaded
  have result : (PeCoff.load (peFile 0xFFFF) peBuffer).result = .ok pe := by
    cases ended : (PeCoff.load (peFile 0xFFFF) peBuffer).result with
    | ok _ =>
      rw [ended] at ran
      cases ran
      rfl
    | error _ =>
      rw [ended] at ran
      cases ran
  have sections := (safe.of_ok result).sections
  rw [table] at sections
  exact absurd sections.2 (by decide)

end EmkKernel
