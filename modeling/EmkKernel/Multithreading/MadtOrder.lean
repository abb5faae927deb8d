import EmkKernel.Multithreading.Madt
import Mathlib.Data.List.Induction

/-!
# The order of the MADT

An override is recorded only when its I/O APIC stands before it, so a table with an
override that concerns one of its I/O APICs is recorded in as many ways as there are orders.
-/

namespace EmkKernel

namespace MadtStructure

def ioApic? : MadtStructure → Option IoApic
  | .ioApic ioapicId ioapicAddress gsib =>
    some ⟨ioapicAddress.toNat, ioApicFixedVaddr, gsib, ioapicId⟩
  | _ => none

def processor? : MadtStructure → Option MultithreadingLocalApic
  | .localApic acpiProcessorId apicId flags => some ⟨flags, acpiProcessorId, apicId⟩
  | _ => none

def isOverride : MadtStructure → Bool
  | .gsiOverride .. => true
  | _ => false

/-- The part of a structure that routing depends on. -/
def entry : MadtStructure → MadtEntry
  | .ioApic ioapicId ioapicAddress gsib => .ioApic ioapicId ioapicAddress gsib
  | .gsiOverride bus source gsi flags => .gsiOverride bus source gsi flags
  | _ => .other

def bytes : MadtStructure → List Byte
  | .localApic acpiProcessorId apicId flags =>
    [0, 8, acpiProcessorId, apicId] ++ leBytes flags.toNat 4
  | .ioApic ioapicId ioapicAddress gsib =>
    [1, 12, ioapicId, 0] ++ leBytes ioapicAddress.toNat 4 ++ leBytes gsib.toNat 4
  | .gsiOverride bus source gsi flags =>
    [2, 10, bus, source] ++ leBytes gsi.toNat 4 ++ leBytes flags.toNat 2
  | .other => [3, 2]

end MadtStructure

namespace Multithreading

/-- The I/O APICs and the processors of a table, in its order. -/
def ioApicsOf (es : List MadtStructure) : List IoApic := es.filterMap MadtStructure.ioApic?

def processorsOf (es : List MadtStructure) : List MultithreadingLocalApic :=
  es.filterMap MadtStructure.processor?

/-- The overrides with the I/O APICs that their indices lead to. -/
def MadtLists.assigned (lists : MadtLists) : List (GsiOverride × Option IoApic) :=
  lists.gsiOverrides.map fun o =>
    ({ o with correspondingIoApicIndex := 0 }, lists.ioapics[o.correspondingIoApicIndex]?)

/-- The same is recorded, in any order. -/
structure SameRecords (lists lists' : MadtLists) : Prop where
  processors : lists.localApics.Perm lists'.localApics
  ioapics : lists.ioapics.Perm lists'.ioapics
  overrides : (MadtLists.assigned lists).Perm (MadtLists.assigned lists')

/-- The table is well formed, with these structures. -/
def Lays (memory : Nat → Byte) (madt : Nat) (es : List MadtStructure) : Prop :=
  44 ≤ madtLength memory madt ∧ Laid memory (madt + 44) (madtLength memory madt - 44) es

/-- The GSI of an override is one of the redirection entries of an I/O APIC. -/
def Concerns (redirections : IoApic → Nat) (gsi : BitVec 32) (apic : IoApic) : Prop :=
  apic.gisBase.toNat ≤ gsi.toNat ∧ gsi.toNat < apic.gisBase.toNat + redirections apic

/-- What is parsed of a table: the loop ends inside it; and when it is well formed, its order
does not matter, and an override is recorded with the I/O APIC that it concerns. -/
structure ParsesMadt (redirections : IoApic → Nat) (memory : Nat → Byte) (madt : Nat) : Prop where
  ends : ∃ lists, Parses memory madt lists
  orderless : ∀ es es' memory', Lays memory madt es → es'.Perm es → Lays memory' madt es' →
    ∃ lists lists', Parses memory madt lists ∧ Parses memory' madt lists' ∧
      SameRecords lists lists'
  assigned : ∀ es lists, Lays memory madt es → Parses memory madt lists →
    ∀ bus source gsi flags, .gsiOverride bus source gsi flags ∈ es →
      ∀ apic ∈ ioApicsOf es, Concerns redirections gsi apic →
        ∃ i, lists.ioapics[i]? = some apic ∧
          ⟨gsi - apic.gisBase, gsi, flags, i, bus, source, false⟩ ∈ lists.gsiOverrides

/-- The I/O APICs that an override is compared with: their number is cast to `u16`. -/
def tested (apics : List IoApic) : List IoApic := apics.take (apics.length % 2 ^ 16)

/-- The structures that can be recorded one after the other: at most 17 processors, and where
an I/O APIC takes an override, the end of its GSIs is a `u32`. -/
structure Recordable (es : List MadtStructure) : Prop where
  processors : (processorsOf es).length ≤ 17
  overrides : ∀ before bus source gsi flags after,
    es = before ++ .gsiOverride bus source gsi flags :: after →
    ∀ apic, (tested (ioApicsOf before)).find? (fun apic => apic.Takes gsi) = some apic →
      apic.gisBase.toNat + 24 < 2 ^ 32

/-- No override is at or behind the base of an I/O APIC, except behind its redirection entries
and behind the 25 GSIs that the range test lets through. -/
def Unconcerned (redirections : IoApic → Nat) (es : List MadtStructure) : Prop :=
  ∀ bus source gsi flags, .gsiOverride bus source gsi flags ∈ es → ∀ apic ∈ ioApicsOf es,
    ¬apic.Takes gsi ∧ ¬Concerns redirections gsi apic

/-! ## One structure after the other -/

section Record

variable {lists lists' : MadtLists} {e : MadtStructure} {es es' : List MadtStructure}
  {apics : List IoApic} {gsi : BitVec 32}

private theorem inRange_eq (apic : IoApic) (gsi : BitVec 32) :
    apic.inRange gsi = if apic.Takes gsi then
      if apic.gisBase.toNat + 24 < 2 ^ 32 then some true else none
    else some false := by
  by_cases takes : apic.Takes gsi
  · obtain ⟨above, below⟩ := takes
    simp only [IoApic.inRange, if_neg (Nat.not_lt.2 above), below, decide_true,
      if_pos (show apic.Takes gsi from ⟨above, below⟩)]
  · rw [if_neg takes, apic.inRange_of_not_takes takes]

private theorem findM_inRange_isSome (ps : List (IoApic × Nat)) :
    (ps.findM? fun p : IoApic × Nat => p.1.inRange gsi).isSome ↔
      ∀ apic, (ps.map Prod.fst).find? (fun apic => apic.Takes gsi) = some apic →
        apic.gisBase.toNat + 24 < 2 ^ 32 := by
  induction ps with
  | nil => simp [List.findM?]
  | cons p ps ih =>
    rw [List.findM?, inRange_eq, List.map_cons]
    by_cases takes : p.1.Takes gsi
    · rw [if_pos takes, List.find?_cons_of_pos (by simpa using takes)]
      by_cases fits : p.1.gisBase.toNat + 24 < 2 ^ 32
      · rw [if_pos fits]
        exact iff_of_true rfl fun apic same => Option.some.inj same ▸ fits
      · rw [if_neg fits]
        exact iff_of_false (by simp) fun all => fits (all _ rfl)
    · rw [if_neg takes, List.find?_cons_of_neg (by simpa using takes)]
      exact ih

private theorem recordOverride_isSome_iff {overrides : List GsiOverride} {bus source : BitVec 8}
    {flags : BitVec 16} :
    (recordOverride apics overrides bus source gsi flags).isSome ↔
      ∀ apic, (tested apics).find? (fun apic => apic.Takes gsi) = some apic →
        apic.gisBase.toNat + 24 < 2 ^ 32 := by
  have firsts : (apics.zipIdx.take (apics.length % 2 ^ 16)).map Prod.fst = tested apics := by
    rw [List.map_take, List.zipIdx_map_fst, tested]
  rw [← firsts, ← findM_inRange_isSome, recordOverride]
  cases (apics.zipIdx.take (apics.length % 2 ^ 16)).findM? fun p : IoApic × Nat =>
    p.1.inRange gsi with
  | none => rfl
  | some found => cases found <;> rfl

private theorem recordOverride_untaken {overrides : List GsiOverride} {bus source : BitVec 8}
    {flags : BitVec 16} (untaken : ∀ apic ∈ apics, ¬apic.Takes gsi) :
    recordOverride apics overrides bus source gsi flags = some overrides := by
  have none_found (ps : List (IoApic × Nat)) (each : ∀ p ∈ ps, ¬p.1.Takes gsi) :
      (ps.findM? fun p : IoApic × Nat => p.1.inRange gsi) = some none := by
    induction ps with
    | nil => rfl
    | cons p ps ih =>
      rw [List.findM?, inRange_eq, if_neg (each p (List.mem_cons_self ..))]
      exact ih fun q member => each q (List.mem_cons_of_mem _ member)
  have passed := none_found (apics.zipIdx.take (apics.length % 2 ^ 16)) fun p member =>
    untaken p.1 (List.fst_mem_of_mem_zipIdx (List.mem_of_mem_take member))
  rw [recordOverride]
  simp only [passed, bind, Option.bind]

/-- An override that the first I/O APIC takes is recorded, or its end is no `u32`. -/
theorem recordOverride_taken {apic : IoApic} {overrides overrides' : List GsiOverride}
    {bus source : BitVec 8} {flags : BitVec 16} (takes : apic.Takes gsi)
    (recorded : recordOverride [apic] overrides bus source gsi flags = some overrides') :
    overrides' ≠ [] := by
  have first : ([apic].zipIdx.take ([apic].length % 2 ^ 16)) = [(apic, 0)] := rfl
  rw [recordOverride, first, List.findM?, inRange_eq, if_pos takes] at recorded
  by_cases fits : apic.gisBase.toNat + 24 < 2 ^ 32
  · rw [if_pos fits] at recorded
    cases recorded
    exact List.append_ne_nil_of_right_ne_nil _ (List.cons_ne_nil _ _)
  · rw [if_neg fits] at recorded
    cases recorded

private theorem recordOverride_length {overrides overrides' : List GsiOverride}
    {bus source : BitVec 8} {flags : BitVec 16}
    (recorded : recordOverride apics overrides bus source gsi flags = some overrides') :
    overrides.length ≤ overrides'.length := by
  rw [recordOverride] at recorded
  obtain ⟨found, -, kept⟩ := Option.bind_eq_some_iff.1 recorded
  cases found with
  | none =>
    cases kept
    exact Nat.le_refl _
  | some ioapic =>
    cases kept
    rw [List.length_append]
    exact Nat.le_add_right _ _

private theorem recordStructure_overrides (recorded : recordStructure lists e = some lists') :
    lists.gsiOverrides.length ≤ lists'.gsiOverrides.length := by
  cases e with
  | localApic =>
    simp only [recordStructure] at recorded
    split at recorded
    · cases recorded
    · cases recorded
      exact Nat.le_refl _
  | ioApic =>
    cases recorded
    exact Nat.le_refl _
  | gsiOverride bus source gsi flags =>
    obtain ⟨overrides, found, rfl⟩ := Option.map_eq_some_iff.1 recorded
    exact recordOverride_length found
  | other =>
    cases recorded
    exact Nat.le_refl _

private theorem foldlM_overrides (folded : es.foldlM recordStructure lists = some lists') :
    lists.gsiOverrides.length ≤ lists'.gsiOverrides.length := by
  induction es generalizing lists with
  | nil =>
    cases folded
    exact Nat.le_refl _
  | cons e es ih =>
    rw [List.foldlM_cons] at folded
    obtain ⟨mid, recorded, later⟩ := Option.bind_eq_some_iff.1 folded
    exact Nat.le_trans (recordStructure_overrides recorded) (ih later)

theorem recordEntry_of_recordStructure (recorded : recordStructure lists e = some lists') :
    recordEntry (lists.ioapics, lists.gsiOverrides) e.entry =
      some (lists'.ioapics, lists'.gsiOverrides) := by
  cases e with
  | localApic =>
    simp only [recordStructure] at recorded
    split at recorded
    · cases recorded
    · cases recorded
      rfl
  | ioApic =>
    cases recorded
    rfl
  | gsiOverride bus source gsi flags =>
    obtain ⟨overrides, found, rfl⟩ := Option.map_eq_some_iff.1 recorded
    simp only [MadtStructure.entry, recordEntry, found, bind, Option.bind]
  | other =>
    cases recorded
    rfl

private theorem foldlM_recordEntry (folded : es.foldlM recordStructure lists = some lists') :
    (es.map MadtStructure.entry).foldlM recordEntry (lists.ioapics, lists.gsiOverrides) =
      some (lists'.ioapics, lists'.gsiOverrides) := by
  induction es generalizing lists with
  | nil =>
    cases folded
    rfl
  | cons e es ih =>
    rw [List.foldlM_cons] at folded
    obtain ⟨mid, recorded, later⟩ := Option.bind_eq_some_iff.1 folded
    rw [List.map_cons, List.foldlM_cons, recordEntry_of_recordStructure recorded]
    exact ih later

/-- What is parsed of a table are the I/O APICs and overrides that interrupts are routed by. -/
theorem Parses.new {memory : Nat → Byte} {madt : Nat} (parses : Parses memory madt lists) :
    ∃ entries, Multithreading.new entries = some (lists.ioapics, lists.gsiOverrides) := by
  obtain ⟨_, _, es, _, folded⟩ := parses_iff.1 parses
  exact ⟨es.map MadtStructure.entry, foldlM_recordEntry folded⟩

private theorem foldlM_lists (folded : es.foldlM recordStructure lists = some lists') :
    lists'.ioapics = lists.ioapics ++ ioApicsOf es ∧
      lists'.localApics = lists.localApics ++ processorsOf es := by
  induction es generalizing lists with
  | nil =>
    cases folded
    exact ⟨(List.append_nil _).symm, (List.append_nil _).symm⟩
  | cons e es ih =>
    rw [List.foldlM_cons] at folded
    obtain ⟨mid, recorded, later⟩ := Option.bind_eq_some_iff.1 folded
    obtain ⟨apics, processors⟩ := ih later
    cases e with
    | localApic =>
      simp only [recordStructure] at recorded
      split at recorded
      · cases recorded
      · cases recorded
        exact ⟨apics, processors.trans (List.append_assoc ..)⟩
    | ioApic =>
      cases recorded
      exact ⟨apics.trans (List.append_assoc ..), processors⟩
    | gsiOverride bus source gsi flags =>
      obtain ⟨overrides, _, rfl⟩ := Option.map_eq_some_iff.1 recorded
      exact ⟨apics, processors⟩
    | other =>
      cases recorded
      exact ⟨apics, processors⟩

/-- Where no I/O APIC takes an override, the lists are filled in the order of the table. -/
theorem foldlM_untaken
    (untaken : ∀ bus source gsi flags, .gsiOverride bus source gsi flags ∈ es →
      ∀ apic ∈ lists.ioapics ++ ioApicsOf es, ¬apic.Takes gsi)
    (few : lists.localApics.length + (processorsOf es).length ≤ 17) :
    es.foldlM recordStructure lists = some
      ⟨lists.ioapics ++ ioApicsOf es, lists.gsiOverrides, lists.localApics ++ processorsOf es⟩ := by
  induction es generalizing lists with
  | nil => simp [ioApicsOf, processorsOf]
  | cons e es ih =>
    have later {apics : List IoApic} (within : apics ++ ioApicsOf es ⊆ lists.ioapics ++
        ioApicsOf (e :: es))
        (bus source : BitVec 8) (gsi : BitVec 32) (flags : BitVec 16)
        (member : .gsiOverride bus source gsi flags ∈ es) :
        ∀ apic ∈ apics ++ ioApicsOf es, ¬apic.Takes gsi := fun apic there =>
      untaken bus source gsi flags (List.mem_cons_of_mem _ member) apic (within there)
    rw [List.foldlM_cons]
    cases e with
    | localApic acpiProcessorId apicId flags =>
      have count : (processorsOf (.localApic acpiProcessorId apicId flags :: es)).length =
        (processorsOf es).length + 1 := rfl
      have room : ¬lists.localApics.length > 16 := by omega
      simp only [recordStructure, if_neg room, bind, Option.bind]
      have rest := @ih ⟨lists.ioapics, lists.gsiOverrides,
        lists.localApics ++ [⟨flags, acpiProcessorId, apicId⟩]⟩ (later fun _ => id)
        (by simp only [List.length_append, List.length_singleton]; omega)
      rw [rest, List.append_assoc]
      rfl
    | ioApic ioapicId ioapicAddress gsib =>
      simp only [recordStructure, bind, Option.bind]
      have rest := @ih ⟨lists.ioapics ++ [⟨ioapicAddress.toNat, ioApicFixedVaddr, gsib, ioapicId⟩],
        lists.gsiOverrides, lists.localApics⟩
        (later fun apic there => by rwa [List.append_assoc] at there) few
      rw [rest, List.append_assoc]
      rfl
    | gsiOverride bus source gsi flags =>
      have kept := @recordOverride_untaken lists.ioapics gsi lists.gsiOverrides bus source flags
        fun apic member => untaken bus source gsi flags (List.mem_cons_self ..) apic
          (List.mem_append_left _ member)
      simp only [recordStructure, kept, Option.map_some, bind, Option.bind]
      exact ih (later fun _ => id) few
    | other =>
      simp only [recordStructure, bind, Option.bind]
      exact ih (later fun _ => id) few

private theorem processorsOf_append :
    processorsOf (es ++ es') = processorsOf es ++ processorsOf es' :=
  List.filterMap_append

theorem recordable_override_iff {bus source : BitVec 8} {flags : BitVec 16} :
    Recordable (es ++ [.gsiOverride bus source gsi flags]) ↔ Recordable es ∧
      ∀ apic, (tested (ioApicsOf es)).find? (fun apic => apic.Takes gsi) = some apic →
        apic.gisBase.toNat + 24 < 2 ^ 32 := by
  have same : processorsOf (es ++ [.gsiOverride bus source gsi flags]) = processorsOf es := by
    rw [processorsOf_append]
    exact List.append_nil _
  constructor
  · intro recordable
    refine ⟨⟨same ▸ recordable.processors, ?_⟩, recordable.overrides es bus source gsi flags [] rfl⟩
    intro before bus' source' gsi' flags' after split
    refine recordable.overrides before bus' source' gsi' flags'
      (after ++ [.gsiOverride bus source gsi flags]) ?_
    rw [split, List.append_assoc, List.cons_append]
  · rintro ⟨recordable, last⟩
    refine ⟨same ▸ recordable.processors, ?_⟩
    intro before bus' source' gsi' flags' after split
    rcases List.eq_nil_or_concat after with rfl | ⟨after, e, rfl⟩
    · obtain ⟨rfl, final⟩ := List.append_inj' split rfl
      cases final
      exact last
    · rw [List.concat_eq_append, ← List.cons_append, ← List.append_assoc] at split
      obtain ⟨rfl, -⟩ := List.append_inj' split rfl
      exact recordable.overrides before bus' source' gsi' flags' after rfl

/-- Any other structure at the end counts only if it is a processor. -/
theorem recordable_other_iff (other : e.isOverride = false) :
    Recordable (es ++ [e]) ↔
      Recordable es ∧ (processorsOf es).length + (processorsOf [e]).length ≤ 17 := by
  have count : (processorsOf (es ++ [e])).length =
      (processorsOf es).length + (processorsOf [e]).length := by
    rw [processorsOf_append, List.length_append]
  constructor
  · intro recordable
    have few := recordable.processors
    refine ⟨⟨by omega, ?_⟩, by omega⟩
    intro before bus source gsi flags after split
    refine recordable.overrides before bus source gsi flags (after ++ [e]) ?_
    rw [split, List.append_assoc, List.cons_append]
  · rintro ⟨recordable, few⟩
    refine ⟨by omega, ?_⟩
    intro before bus source gsi flags after split
    rcases List.eq_nil_or_concat after with rfl | ⟨after, e', rfl⟩
    · obtain ⟨rfl, final⟩ := List.append_inj' split rfl
      cases final
      cases other
    · rw [List.concat_eq_append, ← List.cons_append, ← List.append_assoc] at split
      obtain ⟨rfl, -⟩ := List.append_inj' split rfl
      exact recordable.overrides before bus source gsi flags after rfl

/-- A table is recorded without a panic exactly when it is recordable. -/
theorem foldlM_isSome_iff (es : List MadtStructure) :
    (es.foldlM recordStructure ⟨[], [], []⟩).isSome ↔ Recordable es := by
  induction es using List.reverseRecOn with
  | nil =>
    refine iff_of_true rfl ⟨Nat.zero_le _, ?_⟩
    intro before bus source gsi flags after split
    simp at split
  | append_singleton es e ih =>
    rw [List.foldlM_append]
    cases folded : es.foldlM recordStructure ⟨[], [], []⟩ with
    | none =>
      rw [folded] at ih
      refine iff_of_false nofun fun recordable => absurd (ih.2 ?_) nofun
      cases e with
      | gsiOverride bus source gsi flags => exact (recordable_override_iff.1 recordable).1
      | localApic => exact ((recordable_other_iff rfl).1 recordable).1
      | ioApic => exact ((recordable_other_iff rfl).1 recordable).1
      | other => exact ((recordable_other_iff rfl).1 recordable).1
    | some lists =>
      rw [folded] at ih
      have recordable : Recordable es := ih.1 rfl
      obtain ⟨apics, processors⟩ := foldlM_lists folded
      rw [List.nil_append] at apics processors
      change ([e].foldlM recordStructure lists).isSome ↔ _
      simp only [List.foldlM_cons, List.foldlM_nil, bind_pure]
      cases e with
      | gsiOverride bus source gsi flags =>
        rw [recordable_override_iff, and_iff_right recordable, ← apics,
          ← recordOverride_isSome_iff, recordStructure, Option.isSome_map]
      | localApic acpiProcessorId apicId flags =>
        have one : (processorsOf [.localApic acpiProcessorId apicId flags]).length = 1 := rfl
        rw [recordable_other_iff rfl, and_iff_right recordable, ← processors, one, recordStructure]
        by_cases full : lists.localApics.length > 16
        · rw [if_pos full]
          exact iff_of_false nofun (by omega)
        · rw [if_neg full]
          exact iff_of_true rfl (by omega)
      | ioApic =>
        rw [recordable_other_iff rfl, and_iff_right recordable]
        exact iff_of_true rfl recordable.processors
      | other =>
        rw [recordable_other_iff rfl, and_iff_right recordable]
        exact iff_of_true rfl recordable.processors

end Record

/-! ## Tables of given structures -/

section Tables

variable {memory memory' : Nat → Byte} {base bytes madt : Nat} {e : MadtStructure}
  {es es' : List MadtStructure}

private theorem fieldAt_leBytes {k : Nat} {w : BitVec (8 * k)}
    (holds : HoldsBytes memory base (leBytes w.toNat k)) : fieldAt memory base k = w := by
  rw [fieldAt, littleEndian_leBytes holds, Nat.mod_eq_of_lt w.isLt, BitVec.ofNat_toNat,
    BitVec.setWidth_eq]

theorem structureAt_bytes (holds : HoldsBytes memory base e.bytes) :
    structureAt memory base = e ∧ lengthAt memory base = e.bytes.length ∧
      fieldBytes (memory base) = e.bytes.length := by
  cases e with
  | localApic acpiProcessorId apicId flags =>
    obtain ⟨fixed, word⟩ := holdsBytes_append.1 holds
    simp only [holdsBytes_cons, Nat.add_assoc, Nat.reduceAdd] at fixed
    obtain ⟨type, length, id, apic, -⟩ := fixed
    have flags' : fieldAt memory (base + 4) 4 = flags := fieldAt_leBytes word
    rw [structureAt, lengthAt, fieldBytes, type, length, id, apic, flags']
    exact ⟨rfl, rfl, rfl⟩
  | ioApic ioapicId ioapicAddress gsib =>
    rw [MadtStructure.bytes, List.append_assoc] at holds
    obtain ⟨fixed, words⟩ := holdsBytes_append.1 holds
    obtain ⟨address, gsi⟩ := holdsBytes_append.1 words
    simp only [holdsBytes_cons, Nat.add_assoc, Nat.reduceAdd] at fixed
    obtain ⟨type, length, id, -, -⟩ := fixed
    have address' : fieldAt memory (base + 4) 4 = ioapicAddress := fieldAt_leBytes address
    have gsib' : fieldAt memory (base + 8) 4 = gsib := fieldAt_leBytes gsi
    rw [structureAt, lengthAt, fieldBytes, type, length, id, address', gsib']
    exact ⟨rfl, rfl, rfl⟩
  | gsiOverride bus source gsi flags =>
    rw [MadtStructure.bytes, List.append_assoc] at holds
    obtain ⟨fixed, words⟩ := holdsBytes_append.1 holds
    obtain ⟨number, last⟩ := holdsBytes_append.1 words
    simp only [holdsBytes_cons, Nat.add_assoc, Nat.reduceAdd] at fixed
    obtain ⟨type, length, bus', source', -⟩ := fixed
    have gsi' : fieldAt memory (base + 4) 4 = gsi := fieldAt_leBytes number
    have flags' : fieldAt memory (base + 8) 2 = flags := fieldAt_leBytes last
    rw [structureAt, lengthAt, fieldBytes, type, length, bus', source', gsi', flags']
    exact ⟨rfl, rfl, rfl⟩
  | other =>
    simp only [MadtStructure.bytes, holdsBytes_cons] at holds
    obtain ⟨type, length, -⟩ := holds
    rw [structureAt, lengthAt, fieldBytes, type, length]
    exact ⟨rfl, rfl, rfl⟩

private theorem laid_bytes (holds : HoldsBytes memory base (es.flatMap MadtStructure.bytes)) :
    Laid memory base (es.flatMap MadtStructure.bytes).length es := by
  induction es generalizing base with
  | nil => exact Laid.last base
  | cons e es ih =>
    rw [List.flatMap_cons] at holds ⊢
    obtain ⟨first, rest⟩ := holdsBytes_append.1 holds
    obtain ⟨rfl, length, fields⟩ := structureAt_bytes first
    refine Laid.next (Nat.le_of_eq (fields.trans length.symm)) ?_ ?_
    · rw [length, List.length_append]
      exact Nat.le_add_right _ _
    · rw [length, List.length_append, Nat.add_sub_cancel_left]
      exact ih rest

/-- No encoding of the structures is shorter. -/
theorem Laid.length_le (laid : Laid memory base bytes es) :
    (es.flatMap MadtStructure.bytes).length ≤ bytes := by
  have shortest (base : Nat) :
      (structureAt memory base).bytes.length ≤ fieldBytes (memory base) := by
    simp only [structureAt, fieldBytes]
    split_ifs <;> exact Nat.le_refl _
  induction laid with
  | last base => exact Nat.le_refl _
  | @next base bytes es room fits _ ih =>
    have first := shortest base
    rw [List.flatMap_cons, List.length_append]
    omega

/-- A table with the structures. -/
def tableBytes (es : List MadtStructure) : List Byte :=
  List.replicate 4 0 ++ (leBytes (44 + (es.flatMap MadtStructure.bytes).length) 4 ++
    (List.replicate 36 0 ++ es.flatMap MadtStructure.bytes))

private theorem lays_tableBytes (small : 44 + (es.flatMap MadtStructure.bytes).length < 2 ^ 32) :
    Lays (memoryOf madt (tableBytes es)) madt es := by
  obtain ⟨-, behind⟩ := holdsBytes_append.1 (holdsBytes_memoryOf madt (tableBytes es))
  obtain ⟨length, behind⟩ := holdsBytes_append.1 behind
  obtain ⟨-, structures⟩ := holdsBytes_append.1 behind
  simp only [List.length_replicate, length_leBytes, Nat.add_assoc,
    Nat.reduceAdd] at length structures
  have header : madtLength (memoryOf madt (tableBytes es)) madt =
      44 + (es.flatMap MadtStructure.bytes).length := by
    rw [madtLength, littleEndian_leBytes length]
    exact Nat.mod_eq_of_lt small
  refine ⟨header ▸ Nat.le_add_right _ _, ?_⟩
  rw [header, Nat.add_sub_cancel_left]
  exact laid_bytes structures

/-- There is a table with the structures of another one in any order. -/
theorem Lays.reorder (lays : Lays memory madt es) (perm : es'.Perm es) :
    ∃ memory', Lays memory' madt es' := by
  refine ⟨memoryOf madt (tableBytes es'), lays_tableBytes ?_⟩
  have same := (perm.flatMap_right MadtStructure.bytes).length_eq
  have short := lays.2.length_le
  have bound : madtLength memory madt < 2 ^ 32 := littleEndian_lt memory (madt + 4) 4
  have long := lays.1
  omega

end Tables

/-! ## The order of the structures -/

section Order

variable {redirections : IoApic → Nat} {memory memory' : Nat → Byte} {madt : Nat}
  {es es' : List MadtStructure} {lists lists' : MadtLists}

/-- What is parsed of a well formed table is what its structures say one after the other. -/
theorem Lays.parses_iff (lays : Lays memory madt es) :
    Parses memory madt lists ↔
      madt % 4 = 0 ∧ es.foldlM recordStructure ⟨[], [], []⟩ = some lists := by
  rw [Multithreading.parses_iff, and_iff_right lays.1]
  refine and_congr_right fun _ => ?_
  constructor
  · rintro ⟨es', chain, folded⟩
    rwa [← chain.unique lays.2.chain]
  · intro folded
    exact ⟨es, lays.2.chain, folded⟩

private theorem mem_ioApicsOf_perm (perm : es'.Perm es) (apic : IoApic) :
    apic ∈ ioApicsOf es' ↔ apic ∈ ioApicsOf es :=
  (perm.filterMap MadtStructure.ioApic?).mem_iff

theorem Unconcerned.folds (unconcerned : Unconcerned redirections es) (perm : es'.Perm es)
    (few : (processorsOf es).length ≤ 17) :
    es'.foldlM recordStructure ⟨[], [], []⟩ = some ⟨ioApicsOf es', [], processorsOf es'⟩ := by
  have same : (processorsOf es').length = (processorsOf es).length :=
    (perm.filterMap MadtStructure.processor?).length_eq
  refine @foldlM_untaken ⟨[], [], []⟩ es' ?_ (by simpa [same] using few)
  intro bus source gsi flags member apic there
  exact (unconcerned bus source gsi flags (perm.mem_iff.1 member) apic
    ((mem_ioApicsOf_perm perm apic).1 there)).1

/-- Overrides that stand before all I/O APICs are not recorded. -/
theorem foldlM_overridesFirst (folded : (es.filter MadtStructure.isOverride ++
      es.filter fun e => !e.isOverride).foldlM recordStructure ⟨[], [], []⟩ = some lists) :
    lists.gsiOverrides = [] := by
  have overrides (es : List MadtStructure) (only : ∀ e ∈ es, e.isOverride) :
      es.foldlM recordStructure ⟨[], [], []⟩ = some ⟨[], [], []⟩ := by
    induction es with
    | nil => rfl
    | cons e es ih =>
      rw [List.foldlM_cons]
      cases e with
      | gsiOverride bus source gsi flags =>
        exact ih fun e member => only e (List.mem_cons_of_mem _ member)
      | localApic => exact absurd (only _ (List.mem_cons_self ..)) nofun
      | ioApic => exact absurd (only _ (List.mem_cons_self ..)) nofun
      | other => exact absurd (only _ (List.mem_cons_self ..)) nofun
  have others (es : List MadtStructure) (only : ∀ e ∈ es, e.isOverride = false) (start : MadtLists)
      (folded : es.foldlM recordStructure start = some lists) :
      lists.gsiOverrides = start.gsiOverrides := by
    induction es generalizing start with
    | nil =>
      cases folded
      rfl
    | cons e es ih =>
      rw [List.foldlM_cons] at folded
      obtain ⟨mid, recorded, later⟩ := Option.bind_eq_some_iff.1 folded
      rw [ih (fun e member => only e (List.mem_cons_of_mem _ member)) mid later]
      cases e with
      | localApic =>
        simp only [recordStructure] at recorded
        split at recorded
        · cases recorded
        · cases recorded
          rfl
      | ioApic =>
        cases recorded
        rfl
      | gsiOverride => exact absurd (only _ (List.mem_cons_self ..)) nofun
      | other =>
        cases recorded
        rfl
  rw [List.foldlM_append, overrides _ fun e member => (List.mem_filter.1 member).2] at folded
  refine others _ (fun e member => ?_) _ folded
  simpa using (List.mem_filter.1 member).2

theorem foldlM_apicFirst {ioapicId : BitVec 8} {ioapicAddress gsib : BitVec 32} {apic : IoApic}
    {bus source : BitVec 8} {gsi : BitVec 32} {flags : BitVec 16}
    (same : MadtStructure.ioApic? (.ioApic ioapicId ioapicAddress gsib) = some apic)
    (takes : apic.Takes gsi)
    (folded : (.ioApic ioapicId ioapicAddress gsib :: .gsiOverride bus source gsi flags ::
      es).foldlM recordStructure ⟨[], [], []⟩ = some lists) : lists.gsiOverrides ≠ [] := by
  cases same
  rw [List.foldlM_cons] at folded
  obtain ⟨first, apics, later⟩ := Option.bind_eq_some_iff.1 folded
  cases apics
  rw [List.foldlM_cons] at later
  obtain ⟨mid, recorded, rest⟩ := Option.bind_eq_some_iff.1 later
  obtain ⟨overrides, found, rfl⟩ := Option.map_eq_some_iff.1 recorded
  have some_before := recordOverride_taken takes found
  have more := foldlM_overrides rest
  intro empty
  rw [empty] at more
  exact some_before (List.length_eq_zero_iff.1 (Nat.le_zero.1 more))

theorem perm_front {a b : MadtStructure} (first : a ∈ es) (second : b ∈ es) (other : a ≠ b) :
    ∃ rest, (a :: b :: rest).Perm es := by
  obtain ⟨s, t, rfl⟩ := List.append_of_mem first
  have behind : b ∈ s ++ t := by
    rcases List.mem_append.1 second with before | after
    · exact List.mem_append_left _ before
    · exact List.mem_append_right _ ((List.mem_cons.1 after).resolve_left other.symm)
  obtain ⟨s', t', split⟩ := List.append_of_mem behind
  refine ⟨s' ++ t', ?_⟩
  have inner : (b :: (s' ++ t')).Perm (s ++ t) := split ▸ List.perm_middle.symm
  exact (inner.cons a).trans List.perm_middle.symm

/-- A table that is parsed as it should be has no override that an I/O APIC takes: the orders
with it behind that I/O APIC and before all of them differ. -/
theorem ParsesMadt.unconcerned (parses : ParsesMadt redirections memory madt)
    (lays : Lays memory madt es) : Unconcerned redirections es := by
  have split : (es.filter MadtStructure.isOverride ++ es.filter fun e => !e.isOverride).Perm es :=
    List.filter_append_perm _ es
  -- the table in its own order records no overrides, since the reordered one records none
  obtain ⟨memory₀, reordered⟩ := lays.reorder split
  obtain ⟨lists, lists₀, parsed, parsed₀, same⟩ := parses.orderless es _ memory₀ lays
    split reordered
  have none_first := foldlM_overridesFirst (reordered.parses_iff.1 parsed₀).2
  have empty : lists.gsiOverrides = [] := by
    have lengths := same.overrides.length_eq
    simp only [MadtLists.assigned, List.length_map, none_first, List.length_nil] at lengths
    exact List.length_eq_zero_iff.1 lengths
  intro bus source gsi flags member apic there
  constructor
  · intro takes
    obtain ⟨e, inside, apics⟩ := List.mem_filterMap.1 there
    cases e with
    | ioApic ioapicId ioapicAddress gsib =>
      obtain ⟨rest, perm⟩ := perm_front inside member nofun
      obtain ⟨memory₁, laid⟩ := lays.reorder perm
      obtain ⟨lists', lists₁, parsed', parsed₁, same'⟩ :=
        parses.orderless es _ memory₁ lays perm laid
      rw [parsed'.unique parsed] at same'
      have lengths := same'.overrides.length_eq
      simp only [MadtLists.assigned, List.length_map, empty, List.length_nil] at lengths
      exact foldlM_apicFirst apics takes (laid.parses_iff.1 parsed₁).2
        (List.length_eq_zero_iff.1 lengths.symm)
    | localApic => cases apics
    | gsiOverride => cases apics
    | other => cases apics
  · intro concerns
    obtain ⟨i, -, recorded⟩ := parses.assigned es lists lays parsed bus source gsi flags member apic
      there concerns
    rw [empty] at recorded
    cases recorded

/-- A table is parsed as it should be when it is a chain of structures that can be recorded,
and, if it is well formed, none of its overrides concerns one of its I/O APICs. -/
theorem parsesMadt_iff :
    ParsesMadt redirections memory madt ↔
      (madt % 4 = 0 ∧ 44 ≤ madtLength memory madt ∧
        ∃ es, Chain memory (madt + 44) (madtLength memory madt - 44) es ∧ Recordable es) ∧
      ∀ es, Lays memory madt es → Unconcerned redirections es := by
  constructor
  · intro parses
    refine ⟨?_, fun es lays => parses.unconcerned lays⟩
    obtain ⟨lists, parsed⟩ := parses.ends
    obtain ⟨aligned, long, es, chain, folded⟩ := Multithreading.parses_iff.1 parsed
    exact ⟨aligned, long, es, chain, (foldlM_isSome_iff es).1 (Option.isSome_of_eq_some folded)⟩
  · rintro ⟨⟨aligned, long, es, chain, recordable⟩, unconcerned⟩
    obtain ⟨lists, folded⟩ := Option.isSome_iff_exists.1 ((foldlM_isSome_iff es).2 recordable)
    have parsed : Parses memory madt lists :=
      Multithreading.parses_iff.2 ⟨aligned, long, es, chain, folded⟩
    refine ⟨⟨lists, parsed⟩, ?_, ?_⟩
    · intro es₁ es₂ memory' lays perm lays'
      have own := lays.2.chain.unique chain
      subst own
      have apart := unconcerned es₁ lays
      exact ⟨_, _, lays.parses_iff.2 ⟨aligned, apart.folds (List.Perm.refl _)
        recordable.processors⟩,
        lays'.parses_iff.2 ⟨aligned, apart.folds perm recordable.processors⟩,
        (perm.filterMap _).symm, (perm.filterMap _).symm, List.Perm.refl _⟩
    · intro es₁ _ lays _ bus source gsi flags member apic there concerns
      exact absurd concerns (unconcerned es₁ lays bus source gsi flags member apic there).2

/-- An I/O APIC with 24 redirection entries, and the timer at its third one. -/
def timerTable : List MadtStructure := [.ioApic 0 0xFEC00000 0, .gsiOverride 0 0 2 0]

/-- The timer is not recorded when it comes first. A table with a structure of length 0 has no
end. -/
theorem not_parsesMadt_timer :
    ¬ParsesMadt (fun _ => 24) (memoryOf 0x1000 (tableBytes timerTable)) 0x1000 ∧
      ∀ lists, ¬Parses (Function.update (memoryOf 0x1000 (tableBytes [.other])) 0x102D 0) 0x1000
        lists := by
  constructor
  · intro parses
    have lays : Lays (memoryOf 0x1000 (tableBytes timerTable)) 0x1000 timerTable :=
      lays_tableBytes (by decide)
    have apart := parses.unconcerned lays 0 0 2 0 (by simp [timerTable])
      ⟨0xFEC00000, ioApicFixedVaddr, 0, 0⟩ (List.mem_singleton_self _)
    exact apart.1 (by decide)
  · intro lists parses
    obtain ⟨_, _, es, chain, _⟩ := Multithreading.parses_iff.1 parses
    have length : madtLength (Function.update (memoryOf 0x1000 (tableBytes [.other])) 0x102D 0)
        0x1000 = 46 := by decide
    rw [length] at chain
    cases chain with
    | next positive => exact absurd positive (by decide)

end Order

end Multithreading

end EmkKernel
