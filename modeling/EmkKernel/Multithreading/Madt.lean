import EmkKernel.Arch.Routing
import EmkKernel.Library.Checked
import EmkKernel.Memory.Bytes

/-!
# The interrupt controller structures

`Multithreading::new`: the loop over the MADT, which steps by the length that each structure
says it has. The fields of a structure are read as its type says, before its length is
looked at. `MADT` is laid out in the order of its fields, and the virtual allocator grants
the growth of the lists.
-/

namespace EmkKernel

open Checked

structure MultithreadingLocalApic where
  flags : BitVec 32
  acpiProcessorId : BitVec 8
  apicId : BitVec 8
  deriving DecidableEq

/-- The lists that are filled. -/
structure MadtLists where
  ioapics : List IoApic
  gsiOverrides : List GsiOverride
  localApics : List MultithreadingLocalApic

/-- A structure of the table with the fields that are used. -/
inductive MadtStructure where
  | localApic (acpiProcessorId apicId : BitVec 8) (flags : BitVec 32)
  | ioApic (ioapicId : BitVec 8) (ioapicAddress gsib : BitVec 32)
  | gsiOverride (bus source : BitVec 8) (gsi : BitVec 32) (flags : BitVec 16)
  | other

/-- A number of `n` bytes. -/
def fieldAt (memory : Nat → Byte) (address n : Nat) : BitVec (8 * n) :=
  BitVec.ofNat (8 * n) (littleEndian memory address n)

namespace Multithreading

/-- What is done with a structure; `none` is a panic. -/
def recordStructure (lists : MadtLists) : MadtStructure → Option MadtLists
  | .localApic acpiProcessorId apicId flags =>
    if lists.localApics.length > 16 then none
    else some { lists with localApics := lists.localApics ++ [⟨flags, acpiProcessorId, apicId⟩] }
  | .ioApic ioapicId ioapicAddress gsib =>
    some { lists with
      ioapics := lists.ioapics ++ [⟨ioapicAddress.toNat, ioApicFixedVaddr, gsib, ioapicId⟩] }
  | .gsiOverride bus source gsi flags =>
    (recordOverride lists.ioapics lists.gsiOverrides bus source gsi flags).map fun overrides =>
      { lists with gsiOverrides := overrides }
  | .other => some lists

/-- The fields of a structure, by the type in its first byte. -/
def readStructure (memory : Nat → Byte) (entryBase : Nat) : Checked Unit MadtStructure :=
  if memory entryBase = 1 then do
    look (entryBase + 2) 1
    look (entryBase + 4) 4
    look (entryBase + 8) 4
    pure (.ioApic (memory (entryBase + 2)) (fieldAt memory (entryBase + 4) 4)
      (fieldAt memory (entryBase + 8) 4))
  else if memory entryBase = 2 then do
    look (entryBase + 2) 1
    look (entryBase + 3) 1
    look (entryBase + 4) 4
    look (entryBase + 8) 2
    pure (.gsiOverride (memory (entryBase + 2)) (memory (entryBase + 3))
      (fieldAt memory (entryBase + 4) 4) (fieldAt memory (entryBase + 8) 2))
  else if memory entryBase = 0 then do
    look (entryBase + 2) 1
    look (entryBase + 3) 1
    look (entryBase + 4) 4
    pure (.localApic (memory (entryBase + 2)) (memory (entryBase + 3))
      (fieldAt memory (entryBase + 4) 4))
  else pure .other

/-- The length that a structure says it has. -/
def lengthAt (memory : Nat → Byte) (base : Nat) : Nat := (memory (base + 1)).toNat

/-- `while bytes > 0`, which stops when the fuel is used up. -/
def parseStructures (memory : Nat → Byte) : Nat → Nat → Nat → MadtLists → Checked Unit MadtLists
  | 0, _, _, _ => stop
  | fuel + 1, bytes, entryBase, lists =>
    if bytes > 0 then do
      look entryBase 1
      look (entryBase + 1) 1
      let entry ← readStructure memory entryBase
      let lists ← orStop (recordStructure lists entry)
      -- the count of bytes is a `u32`
      let length := lengthAt memory entryBase
      if bytes < length then stop
      else parseStructures memory fuel (bytes - length) (entryBase + length) lists
    else pure lists

/-- The length in the header of the table. -/
def madtLength (memory : Nat → Byte) (madt : Nat) : Nat := littleEndian memory (madt + 4) 4

/-- The lists that `new` makes of the table. -/
def parseMadt (memory : Nat → Byte) (madt fuel : Nat) : Checked Unit MadtLists :=
  -- the header is borrowed through a pointer to a structure with an alignment of 4
  if madt % 4 ≠ 0 then stop
  else do
    look (madt + 4) 4
    if madtLength memory madt < 44 then stop
    else parseStructures memory fuel (madtLength memory madt - 44) (madt + 44) ⟨[], [], []⟩

/-- The loop ends with these lists and looks at nothing outside the table. -/
def Parses (memory : Nat → Byte) (madt : Nat) (lists : MadtLists) : Prop :=
  ∃ fuel, Safe (parseMadt memory madt fuel) (Inside madt (madt + madtLength memory madt))
    fun lists' => lists' = lists

/-! ## Chains of structures -/

/-- The bytes from the start of a structure on that are looked at. -/
def fieldBytes (entryType : BitVec 8) : Nat :=
  if entryType = 1 then 12 else if entryType = 2 then 10 else if entryType = 0 then 8 else 2

private theorem fieldBytes_pos (entryType : BitVec 8) : 2 ≤ fieldBytes entryType := by
  simp only [fieldBytes]
  split_ifs <;> omega

/-- The structure at an address. -/
def structureAt (memory : Nat → Byte) (base : Nat) : MadtStructure :=
  if memory base = 1 then
    .ioApic (memory (base + 2)) (fieldAt memory (base + 4) 4) (fieldAt memory (base + 8) 4)
  else if memory base = 2 then
    .gsiOverride (memory (base + 2)) (memory (base + 3)) (fieldAt memory (base + 4) 4)
      (fieldAt memory (base + 8) 2)
  else if memory base = 0 then
    .localApic (memory (base + 2)) (memory (base + 3)) (fieldAt memory (base + 4) 4)
  else .other

/-- Structures that can be stepped through: a length is not 0 and leads to the end at most,
and the fields lie before the end, if not before the next structure. -/
inductive Chain (memory : Nat → Byte) : Nat → Nat → List MadtStructure → Prop where
  | last (base : Nat) : Chain memory base 0 []
  | next {base bytes : Nat} {es : List MadtStructure} : 0 < lengthAt memory base →
      lengthAt memory base ≤ bytes → fieldBytes (memory base) ≤ bytes →
      Chain memory (base + lengthAt memory base) (bytes - lengthAt memory base) es →
      Chain memory base bytes (structureAt memory base :: es)

/-- The structures of a table that is well formed: each one has room for its fields. -/
inductive Laid (memory : Nat → Byte) : Nat → Nat → List MadtStructure → Prop where
  | last (base : Nat) : Laid memory base 0 []
  | next {base bytes : Nat} {es : List MadtStructure} :
      fieldBytes (memory base) ≤ lengthAt memory base → lengthAt memory base ≤ bytes →
      Laid memory (base + lengthAt memory base) (bytes - lengthAt memory base) es →
      Laid memory base bytes (structureAt memory base :: es)

variable {memory : Nat → Byte} {base bytes low : Nat} {es es' : List MadtStructure}
  {lists : MadtLists} {Q : MadtLists → Prop}

theorem Laid.chain (laid : Laid memory base bytes es) : Chain memory base bytes es := by
  induction laid with
  | last base => exact Chain.last base
  | @next base _ _ room fits _ ih =>
    have some_bytes := fieldBytes_pos (memory base)
    exact Chain.next (by omega) fits (Nat.le_trans room fits) ih

theorem Chain.unique (chain : Chain memory base bytes es) (other : Chain memory base bytes es') :
    es = es' := by
  induction chain generalizing es' with
  | last base =>
    cases other with
    | last => rfl
    | next positive fits => omega
  | next positive fits _ _ ih =>
    cases other with
    | last => omega
    | next _ _ _ later => rw [ih later]

private theorem safe_readStructure_iff {Q : MadtStructure → Prop} {high : Nat}
    (from_low : low ≤ base) :
    (base + 1 + 1 ≤ high ∧ Safe (readStructure memory base) (Inside low high) Q) ↔
      base + fieldBytes (memory base) ≤ high ∧ Q (structureAt memory base) := by
  simp only [readStructure, structureAt, fieldBytes]
  split_ifs
  · simp only [safe_bind, safe_look, safe_pure, Inside]
    constructor
    · rintro ⟨_, _, _, inside, value⟩
      exact ⟨by omega, value⟩
    · rintro ⟨inside, value⟩
      exact ⟨by omega, by omega, by omega, by omega, value⟩
  · simp only [safe_bind, safe_look, safe_pure, Inside]
    constructor
    · rintro ⟨_, _, _, _, inside, value⟩
      exact ⟨by omega, value⟩
    · rintro ⟨inside, value⟩
      exact ⟨by omega, by omega, by omega, by omega, by omega, value⟩
  · simp only [safe_bind, safe_look, safe_pure, Inside]
    constructor
    · rintro ⟨_, _, _, inside, value⟩
      exact ⟨by omega, value⟩
    · rintro ⟨inside, value⟩
      exact ⟨by omega, by omega, by omega, by omega, value⟩
  · simp only [safe_pure]

theorem safe_parseStructures_succ {fuel : Nat} (from_low : low ≤ base) (more : 0 < bytes) :
    Safe (parseStructures memory (fuel + 1) bytes base lists) (Inside low (base + bytes)) Q ↔
      fieldBytes (memory base) ≤ bytes ∧ lengthAt memory base ≤ bytes ∧
        ∃ lists', recordStructure lists (structureAt memory base) = some lists' ∧
          Safe (parseStructures memory fuel (bytes - lengthAt memory base)
            (base + lengthAt memory base) lists') (Inside low (base + bytes)) Q := by
  have fields := @safe_readStructure_iff memory base low
    (fun entry => ∃ lists', recordStructure lists entry = some lists' ∧
      (lengthAt memory base ≤ bytes ∧
        Safe (parseStructures memory fuel (bytes - lengthAt memory base)
          (base + lengthAt memory base) lists') (Inside low (base + bytes)) Q))
    (base + bytes) from_low
  have first := fieldBytes_pos (memory base)
  have step (lists' : MadtLists) :
      Safe (if bytes < lengthAt memory base then stop
        else parseStructures memory fuel (bytes - lengthAt memory base)
          (base + lengthAt memory base) lists') (Inside low (base + bytes)) Q ↔
        lengthAt memory base ≤ bytes ∧
          Safe (parseStructures memory fuel (bytes - lengthAt memory base)
            (base + lengthAt memory base) lists') (Inside low (base + bytes)) Q := by
    by_cases fits : lengthAt memory base ≤ bytes
    · simp only [if_neg (Nat.not_lt.2 fits), fits, true_and]
    · simp only [if_pos (Nat.not_le.1 fits), safe_stop, fits, false_and]
  rw [parseStructures, if_pos more]
  simp only [safe_bind, safe_look, safe_orStop, step]
  constructor
  · rintro ⟨_, two, read⟩
    obtain ⟨inside, lists', recorded, fits, rest⟩ := fields.1 ⟨two.2, read⟩
    exact ⟨by omega, fits, lists', recorded, rest⟩
  · rintro ⟨inside, fits, lists', recorded, rest⟩
    obtain ⟨two, read⟩ := fields.2 ⟨by omega, lists', recorded, fits, rest⟩
    exact ⟨⟨from_low, by omega⟩, ⟨by omega, two⟩, read⟩

/-- A structure of length 0 is never left. -/
theorem not_safe_of_empty (from_low : low ≤ base) (more : 0 < bytes)
    (empty : lengthAt memory base = 0) (fuel : Nat) :
    ¬Safe (parseStructures memory fuel bytes base lists) (Inside low (base + bytes)) Q := by
  induction fuel generalizing lists with
  | zero => exact (safe_stop).1
  | succ fuel ih =>
    intro safe
    obtain ⟨_, _, lists', _, rest⟩ := (safe_parseStructures_succ from_low more).1 safe
    rw [empty, Nat.sub_zero, Nat.add_zero] at rest
    exact ih rest

/-- The loop ends inside the table exactly when it has a chain whose structures can be
recorded. -/
theorem safe_parseStructures_iff (from_low : low ≤ base) :
    (∃ fuel, Safe (parseStructures memory fuel bytes base lists) (Inside low (base + bytes)) Q) ↔
      ∃ es lists', Chain memory base bytes es ∧ es.foldlM recordStructure lists = some lists' ∧
        Q lists' := by
  constructor
  · rintro ⟨fuel, safe⟩
    induction fuel generalizing base bytes lists with
    | zero => exact absurd safe (safe_stop).1
    | succ fuel ih =>
      by_cases more : 0 < bytes
      · obtain ⟨fields, fits, lists', recorded, rest⟩ :=
          (safe_parseStructures_succ from_low more).1 safe
        have positive : 0 < lengthAt memory base := by
          refine Nat.pos_of_ne_zero fun empty => ?_
          rw [empty, Nat.sub_zero, Nat.add_zero] at rest
          exact not_safe_of_empty from_low more empty fuel rest
        have same : base + bytes = base + lengthAt memory base +
            (bytes - lengthAt memory base) := by
          omega
        rw [same] at rest
        obtain ⟨es, last, chain, folded, value⟩ := ih (by omega) rest
        refine ⟨_ :: es, last, Chain.next positive fits fields chain, ?_, value⟩
        rw [List.foldlM_cons, recorded]
        exact folded
      · obtain rfl : bytes = 0 := by omega
        rw [parseStructures, if_neg (Nat.lt_irrefl 0), safe_pure] at safe
        exact ⟨[], lists, Chain.last base, rfl, safe⟩
  · rintro ⟨es, last, chain, folded, value⟩
    refine ⟨es.length + 1, ?_⟩
    induction chain generalizing lists with
    | last base =>
      cases folded
      rw [parseStructures, if_neg (Nat.lt_irrefl 0), safe_pure]
      exact value
    | @next base bytes es positive fits fields chain ih =>
      rw [List.foldlM_cons] at folded
      obtain ⟨lists', recorded, later⟩ := Option.bind_eq_some_iff.1 folded
      have rest := ih (by omega) later
      have same : base + lengthAt memory base + (bytes - lengthAt memory base) = base + bytes := by
        omega
      rw [same] at rest
      exact (safe_parseStructures_succ from_low (by omega)).2 ⟨fields, fits, lists', recorded, rest⟩

theorem parses_iff {madt : Nat} :
    Parses memory madt lists ↔ madt % 4 = 0 ∧ 44 ≤ madtLength memory madt ∧
      ∃ es, Chain memory (madt + 44) (madtLength memory madt - 44) es ∧
        es.foldlM recordStructure ⟨[], [], []⟩ = some lists := by
  by_cases aligned : madt % 4 = 0
  · by_cases long : 44 ≤ madtLength memory madt
    · have ends : madt + 44 + (madtLength memory madt - 44) = madt + madtLength memory madt := by
        omega
      have loop := @safe_parseStructures_iff memory (madt + 44) (madtLength memory madt - 44) madt
        ⟨[], [], []⟩ (fun lists' => lists' = lists) (Nat.le_add_right _ _)
      have header : Inside madt (madt + madtLength memory madt) (madt + 4) 4 :=
        ⟨by omega, by omega⟩
      simp only [Parses, parseMadt, aligned, ne_eq, not_true_eq_false, if_false,
        safe_bind, safe_look,
        header, Nat.not_lt.2 long, true_and, long]
      rw [ends] at loop
      rw [loop]
      simp only [exists_eq_right_right]
    · simp only [Parses, parseMadt, aligned, ne_eq, not_true_eq_false, if_false, safe_bind,
        safe_look, Nat.not_le.1 long, if_true, safe_stop, and_false, exists_false, long, false_and]
  · simp only [Parses, parseMadt, aligned, ne_eq, not_false_eq_true, if_true, safe_stop,
      exists_false, false_and]

theorem Parses.unique {madt : Nat} {lists' : MadtLists} (parses : Parses memory madt lists)
    (other : Parses memory madt lists') : lists = lists' := by
  obtain ⟨_, _, es, chain, folded⟩ := parses_iff.1 parses
  obtain ⟨_, _, es', chain', folded'⟩ := parses_iff.1 other
  rw [chain.unique chain'] at folded
  exact Option.some.inj (folded.symm.trans folded')

end Multithreading

end EmkKernel
