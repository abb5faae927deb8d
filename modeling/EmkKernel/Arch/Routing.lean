import EmkKernel.Arch.Apic

/-!
# Where interrupts are routed

Both routines write the two halves of one redirection entry, and for an override that was
recorded they agree on the entry. The range test takes one GSI too many, the destination
is one bit too low, and `write_gsi` always returns false.
-/

namespace EmkKernel

open EStateM

/-- The GSIs of an I/O APIC are 24. -/
def IoApic.Owns (self : IoApic) (gsi : BitVec 32) : Prop :=
  self.gisBase.toNat ≤ gsi.toNat ∧ gsi.toNat < self.gisBase.toNat + 24

instance (apic : IoApic) (gsi : BitVec 32) : Decidable (apic.Owns gsi) :=
  inferInstanceAs (Decidable (_ ∧ _))

/-- The GSIs that pass the range test. -/
def IoApic.Takes (self : IoApic) (gsi : BitVec 32) : Prop :=
  self.gisBase.toNat ≤ gsi.toNat ∧ gsi.toNat ≤ self.gisBase.toNat + 24

instance (apic : IoApic) (gsi : BitVec 32) : Decidable (apic.Takes gsi) :=
  inferInstanceAs (Decidable (_ ∧ _))

/-- A redirection entry as the I/O APIC has it: the vector in bits 0 to 7, the modes in bits
11, 13 and 15, the destination in bits 56 to 63, and fixed delivery, not masked. -/
def Redirection.entry (r : Redirection) : BitVec 64 :=
  r.isrVector.setWidth 64 ||| (r.destinationMode.setWidth 64 &&& 1) <<< 11 |||
    (r.pinPolarity.setWidth 64 &&& 1) <<< 13 ||| (r.triggerMode.setWidth 64 &&& 1) <<< 15 |||
    (r.destination.setWidth 8).setWidth 64 <<< 56

/-- The stores that give the redirection entry of a GSI its two halves. -/
def routed (apics : List IoApic) (gsi : BitVec 32) (r : Redirection) : List RegisterWrite :=
  (apics.filter fun apic => apic.Owns gsi).flatMap fun apic =>
    let register := 0x10 + 2 * (gsi.toNat - apic.gisBase.toNat)
    [⟨apic.physicalAddress, register, r.entry.extractLsb' 0 32⟩,
      ⟨apic.physicalAddress, register + 1, r.entry.extractLsb' 32 32⟩]

/-- The stores of a call are the expected ones. -/
def ApicMachine.Stored (m m' : ApicMachine) (expected : List RegisterWrite) : Prop :=
  ∃ stores, m'.writes = m.writes ++ stores ∧ stores.Perm expected

/-- A GSI is routed as it should be: `write_gsi` stores the redirection entry of the owner and
says whether there is one, and `write_and_register_gsi` stores the same once. -/
structure Routes (apics : List IoApic) (gsi : BitVec 32) (r : Redirection) (m : ApicMachine) :
    Prop where
  write : ∃ m', Apic.writeGsi apics gsi r m = .ok (decide (∃ apic ∈ apics, apic.Owns gsi)) m' ∧
    m.Stored m' (routed apics gsi r)
  register : ∀ gsiOverride, m.gsiOverrides.find? (fun o => o.gsi = gsi) = some gsiOverride →
    gsiOverride.registered = false →
    ∃ m', Apic.writeAndRegisterGsi apics gsi r m = .ok true m' ∧
      m.Stored m' (routed apics gsi r) ∧
      ∀ r', ∃ m'', Apic.writeAndRegisterGsi apics gsi r' m' = .ok false m'' ∧ m'.Stored m'' []

/-- The I/O APICs and overrides of a MADT, after any calls of the two routines. -/
inductive Apic.Reachable (apics : List IoApic) : ApicMachine → Prop where
  | new {madt : List MadtEntry} {gsiOverrides : List GsiOverride} :
      Multithreading.new madt = some (apics, gsiOverrides) →
      Reachable apics (Apic.new apics gsiOverrides)
  | write {m m' : ApicMachine} {gsi : BitVec 32} {r : Redirection} {b : Bool} :
      Reachable apics m → Apic.writeGsi apics gsi r m = .ok b m' → Reachable apics m'
  | register {m m' : ApicMachine} {gsi : BitVec 32} {r : Redirection} {b : Bool} :
      Reachable apics m → Apic.writeAndRegisterGsi apics gsi r m = .ok b m' →
      Reachable apics m'

/-! ## The range test -/

section Range

variable {apic : IoApic} {apics : List IoApic} {gsi : BitVec 32}

theorem IoApic.inRange_of_not_takes (passed : ¬apic.Takes gsi) : apic.inRange gsi = some false := by
  have small := gsi.isLt
  unfold Takes at passed
  unfold inRange
  split
  · rfl
  · rename_i from_base
    have above : ¬gsi.toNat ≤ apic.gisBase.toNat + 24 := fun low => passed ⟨by omega, low⟩
    rw [if_pos (by omega)]
    simpa using above

private theorem IoApic.takes_of_inRange (taken : apic.inRange gsi = some true) :
    apic.Takes gsi := by
  unfold inRange at taken
  split at taken
  · simp at taken
  · rename_i from_base
    split at taken
    · exact ⟨by omega, by simpa using taken⟩
    · simp at taken

private theorem IoApic.inRange_of_takes (takes : apic.Takes gsi) :
    apic.inRange gsi ≠ some false := by
  intro refused
  unfold inRange at refused
  rw [if_neg (Nat.not_lt.2 takes.1)] at refused
  split at refused
  · have above := takes.2
    simp only [Option.some.injEq, decide_eq_false_iff_not] at refused
    exact refused above
  · simp at refused

/-- The first I/O APIC that passes the test. -/
def takenBy (apics : List IoApic) (gsi : BitVec 32) : Option (Option IoApic) :=
  apics.findM? fun apic => apic.inRange gsi

private theorem takenBy_cons : takenBy (apic :: apics) gsi =
    (apic.inRange gsi).bind fun taken => if taken then some (some apic) else takenBy apics gsi := by
  unfold takenBy
  rw [List.findM?]
  cases apic.inRange gsi with
  | none => rfl
  | some taken => cases taken <;> rfl

private theorem takenBy_none (free : ∀ apic ∈ apics, ¬apic.Takes gsi) :
    takenBy apics gsi = some none := by
  induction apics with
  | nil => rfl
  | cons apic rest ih =>
    rw [takenBy_cons, apic.inRange_of_not_takes (free apic (List.mem_cons_self ..))]
    exact ih fun other member => free other (List.mem_cons_of_mem _ member)

private theorem not_takes_of_takenBy (none_takes : takenBy apics gsi = some none) :
    ∀ apic ∈ apics, ¬apic.Takes gsi := by
  induction apics with
  | nil => simp
  | cons apic rest ih =>
    rw [takenBy_cons] at none_takes
    cases tested : apic.inRange gsi with
    | none => simp [tested] at none_takes
    | some taken =>
      cases taken with
      | true => simp [tested] at none_takes
      | false =>
        simp only [tested, Option.bind_some, Bool.false_eq_true, if_false] at none_takes
        intro other member
        rcases List.mem_cons.1 member with rfl | later
        · exact fun takes => other.inRange_of_takes takes tested
        · exact ih none_takes other later

private theorem takes_of_takenBy (found : takenBy apics gsi = some (some apic)) :
    apic ∈ apics ∧ apic.Takes gsi := by
  induction apics with
  | nil => simp [takenBy, List.findM?] at found
  | cons first rest ih =>
    rw [takenBy_cons] at found
    cases tested : first.inRange gsi with
    | none => simp [tested] at found
    | some taken =>
      cases taken with
      | true =>
        simp only [tested, Option.bind_some, if_true, Option.some.injEq] at found
        rw [← found]
        exact ⟨List.mem_cons_self .., first.takes_of_inRange tested⟩
      | false =>
        simp only [tested, Option.bind_some, Bool.false_eq_true, if_false] at found
        exact ⟨List.mem_cons_of_mem _ (ih found).1, (ih found).2⟩

/-- I/O APICs that are found later do not change who takes a GSI. -/
theorem takenBy_append (found : takenBy apics gsi = some (some apic)) (more : List IoApic) :
    takenBy (apics ++ more) gsi = some (some apic) := by
  induction apics with
  | nil => simp [takenBy, List.findM?] at found
  | cons first rest ih =>
    rw [List.cons_append, takenBy_cons]
    rw [takenBy_cons] at found
    cases tested : first.inRange gsi with
    | none => simp [tested] at found
    | some taken =>
      cases taken with
      | true => simpa [tested] using found
      | false =>
        simp only [tested, Option.bind_some, Bool.false_eq_true, if_false] at found ⊢
        exact ih found

/-- The search that records an override looks at the first I/O APICs, with their indices. -/
theorem takenBy_of_indexed {n k i : Nat}
    (found : ((apics.zipIdx k).take n).findM? (fun c => c.1.inRange gsi) = some (some (apic, i))) :
    takenBy apics gsi = some (some apic) ∧ k ≤ i ∧ apics[i - k]? = some apic := by
  induction apics generalizing n k with
  | nil => simp [List.findM?] at found
  | cons first rest ih =>
    rw [takenBy_cons]
    cases n with
    | zero => simp [List.findM?] at found
    | succ n =>
      rw [List.zipIdx_cons, List.take_succ_cons, List.findM?] at found
      cases tested : first.inRange gsi with
      | none => simp [tested] at found
      | some taken =>
        cases taken with
        | true =>
          simp only [tested, Option.bind_eq_bind, Option.bind_some, Option.pure_def,
            Option.some.injEq, Prod.mk.injEq] at found
          obtain ⟨rfl, rfl⟩ := found
          simp
        | false =>
          simp only [tested, Option.bind_eq_bind, Option.bind_some] at found
          obtain ⟨same, after, at_index⟩ := ih found
          refine ⟨by simpa using same, by omega, ?_⟩
          rwa [show i - k = (i - (k + 1)) + 1 by omega, List.getElem?_cons_succ]

end Range

/-! ## What is recorded of the MADT -/

section Recorded

variable {apics : List IoApic} {gsiOverrides : List GsiOverride} {gsi : BitVec 32}

/-- An override names the entry and the I/O APIC that the range test finds. -/
def GsiOverride.Recorded (apics : List IoApic) (o : GsiOverride) : Prop :=
  ∃ apic, takenBy apics o.gsi = some (some apic) ∧
    apics[o.correspondingIoApicIndex]? = some apic ∧
    o.ioApicRedirectionEntry = o.gsi - apic.gisBase

theorem GsiOverride.Recorded.append {o : GsiOverride} (recorded : o.Recorded apics)
    (more : List IoApic) : o.Recorded (apics ++ more) := by
  obtain ⟨apic, found, at_index, entry⟩ := recorded
  refine ⟨apic, takenBy_append found more, ?_, entry⟩
  rw [List.getElem?_append_left]
  · exact at_index
  · exact (List.getElem?_eq_some_iff.1 at_index).1

private theorem recordOverride_recorded {after : List GsiOverride} {bus source : BitVec 8}
    {flags : BitVec 16} (before : ∀ o ∈ gsiOverrides, o.Recorded apics)
    (ran : Multithreading.recordOverride apics gsiOverrides bus source gsi flags = some after) :
    ∀ o ∈ after, o.Recorded apics := by
  unfold Multithreading.recordOverride at ran
  rw [Option.bind_eq_bind, Option.bind_eq_some_iff] at ran
  obtain ⟨found, searched, recorded⟩ := ran
  cases found with
  | none =>
    simp only [Option.some.injEq] at recorded
    rwa [← recorded]
  | some c =>
    obtain ⟨apic, i⟩ := c
    simp only [Option.some.injEq] at recorded
    obtain ⟨same, -, at_index⟩ := takenBy_of_indexed searched
    intro o member
    rw [← recorded, List.mem_append, List.mem_singleton] at member
    rcases member with earlier | rfl
    · exact before o earlier
    · exact ⟨apic, same, at_index, rfl⟩

/-- Each step over the MADT keeps the overrides in agreement with the I/O APICs. -/
theorem recordEntry_recorded {recorded after : List IoApic × List GsiOverride} {entry : MadtEntry}
    (before : ∀ o ∈ recorded.2, o.Recorded recorded.1)
    (ran : Multithreading.recordEntry recorded entry = some after) :
    ∀ o ∈ after.2, o.Recorded after.1 := by
  cases entry with
  | ioApic ioapicId ioapicAddress gsib =>
    simp only [Multithreading.recordEntry, Option.some.injEq] at ran
    intro o member
    rw [← ran] at member ⊢
    exact (before o member).append _
  | gsiOverride bus source gsi flags =>
    simp only [Multithreading.recordEntry, Option.bind_eq_bind, Option.bind_eq_some_iff,
      Option.some.injEq] at ran
    obtain ⟨overrides, recordedNow, rfl⟩ := ran
    exact recordOverride_recorded before recordedNow
  | other =>
    simp only [Multithreading.recordEntry, Option.some.injEq] at ran
    rwa [← ran]

theorem new_recorded {madt : List MadtEntry}
    (ran : Multithreading.new madt = some (apics, gsiOverrides)) :
    ∀ o ∈ gsiOverrides, o.Recorded apics := by
  -- the invariant is carried along the entries, from any lists on
  have run : ∀ (madt : List MadtEntry) (start : List IoApic × List GsiOverride),
      (∀ o ∈ start.2, o.Recorded start.1) →
      madt.foldlM Multithreading.recordEntry start = some (apics, gsiOverrides) →
      ∀ o ∈ gsiOverrides, o.Recorded apics := by
    intro madt
    induction madt with
    | nil =>
      intro start before ran
      simp only [List.foldlM_nil, Option.pure_def, Option.some.injEq] at ran
      rwa [ran] at before
    | cons entry rest ih =>
      intro start before ran
      simp only [List.foldlM_cons, Option.bind_eq_bind, Option.bind_eq_some_iff] at ran
      obtain ⟨next, step, later⟩ := ran
      exact ih next (recordEntry_recorded before step) later
  exact run madt ([], []) (by simp) ran

theorem pages_new (apics : List IoApic) :
    ∀ apic ∈ apics, ((Apic.new apics gsiOverrides).pages apic.virtualAddress).isSome := by
  -- a page that is mapped stays mapped
  have run : ∀ (apics : List IoApic) (pages : Nat → Option Nat) (vaddr : Nat),
      ((pages vaddr).isSome ∨ ∃ apic ∈ apics, apic.virtualAddress = vaddr) →
      (apics.foldl Apic.pageRegisters pages vaddr).isSome := by
    intro apics
    induction apics with
    | nil =>
      intro pages vaddr mapped
      simpa using mapped
    | cons first rest ih =>
      intro pages vaddr mapped
      apply ih
      unfold Apic.pageRegisters
      by_cases here : vaddr = first.virtualAddress
      · left
        rw [here, Function.update_self]
        rfl
      · rw [Function.update_of_ne here]
        rcases mapped with already | ⟨apic, member, rfl⟩
        · exact Or.inl already
        · rcases List.mem_cons.1 member with rfl | later
          · exact absurd rfl here
          · exact Or.inr ⟨apic, later, rfl⟩
  intro apic member
  exact run apics _ apic.virtualAddress (Or.inr ⟨apic, member, rfl⟩)

end Recorded

/-! ## The two routines -/

section Routines

variable {apics : List IoApic} {gsi : BitVec 32} {r : Redirection} {m m' : ApicMachine}

/-- `write_gsi` writes the entry at the I/O APIC that the range test finds, if any. -/
theorem writeGsi_eq : Apic.writeGsi apics gsi r =
    match takenBy apics gsi with
    | none => throw .panic
    | some none => pure false
    | some (some apic) => apic.writeEntry (gsi - apic.gisBase) r >>= fun _ => pure false := by
  unfold Apic.writeGsi
  induction apics with
  | nil => rfl
  | cons apic rest ih =>
    rw [takenBy_cons]
    simp only [forEachElement]
    cases apic.inRange gsi with
    | none => rfl
    | some taken =>
      cases taken with
      | true => simp
      | false => simpa using ih

/-- The invariant of the calls: the overrides are the recorded ones, and the registers of
all I/O APICs are mapped. -/
structure Apic.Upkept (apics : List IoApic) (m : ApicMachine) : Prop where
  recorded : ∀ o ∈ m.gsiOverrides, o.Recorded apics
  mapped : ∀ apic ∈ apics, (m.pages apic.virtualAddress).isSome

/-- The stores to one entry through the window of an I/O APIC. -/
def entryStores (device : Nat) (gsi : BitVec 32) (apic : IoApic) (r : Redirection) :
    List RegisterWrite :=
  let register := 0x10 + 2 * (gsi.toNat - apic.gisBase.toNat)
  [⟨device, register, r.half0⟩, ⟨device, register + 1, r.half1⟩]

private theorem writeEntry_ran {apic : IoApic} {device : Nat} (takes : apic.Takes gsi)
    (mapped : m.pages apic.virtualAddress = some device) :
    apic.writeEntry (gsi - apic.gisBase) r m =
      .ok () { m with writes := m.writes ++ entryStores device gsi apic r } := by
  have entry : (gsi - apic.gisBase).toNat = gsi.toNat - apic.gisBase.toNat :=
    BitVec.toNat_sub_of_le (BitVec.le_def.2 takes.1)
  have below : gsi.toNat - apic.gisBase.toNat ≤ 24 := by
    have := takes.2
    omega
  have register : ioapicredtbl ((gsi - apic.gisBase).toNat % 2 ^ 8) =
      some (0x10 + 2 * (gsi.toNat - apic.gisBase.toNat)) := by
    rw [entry, Nat.mod_eq_of_lt (by omega), ioapicredtbl, if_pos (by omega)]
  have write : ∀ (m : ApicMachine) (offset : Nat) (val : BitVec 32),
      m.pages apic.virtualAddress = some device →
      apic.writeRegister offset val m =
        .ok () { m with writes := m.writes ++ [⟨device, offset, val⟩] } := by
    intro m offset val mapped
    simp only [IoApic.writeRegister, EStateM.get_bind_run, mapped]
    rfl
  unfold IoApic.writeEntry
  rw [register]
  simp only [bind, EStateM.bind]
  rw [write m _ _ mapped]
  simp only
  rw [write _ _ _ (by exact mapped)]
  simp [entryStores]

private theorem writeEntry_then {apic : IoApic} {device : Nat} (takes : apic.Takes gsi)
    (mapped : m.pages apic.virtualAddress = some device) :
    (apic.writeEntry (gsi - apic.gisBase) r >>= fun _ => pure false : ApicM Bool) m =
      .ok false { m with writes := m.writes ++ entryStores device gsi apic r } := by
  simp only [bind, EStateM.bind, writeEntry_ran takes mapped]
  rfl

private theorem registerGsi_find {os : List GsiOverride} {o : GsiOverride}
    (first : os.find? (fun o => o.gsi = gsi) = some o) :
    (Apic.registerGsi gsi os).2 = !o.registered ∧
      (Apic.registerGsi gsi os).1.find? (fun o => o.gsi = gsi) =
        some { o with registered := true } := by
  induction os with
  | nil => simp at first
  | cons c rest ih =>
    unfold Apic.registerGsi
    by_cases here : c.gsi = gsi
    · rw [List.find?_cons_of_pos (by simpa using here), Option.some.injEq] at first
      rw [if_pos here, ← first]
      cases done : c.registered with
      | true =>
        refine ⟨rfl, ?_⟩
        rw [if_pos rfl, List.find?_cons_of_pos (by simpa using here), ← done]
      | false => simp [here]
    · rw [List.find?_cons_of_neg (by simpa using here)] at first
      rw [if_neg here]
      refine ⟨(ih first).1, ?_⟩
      rw [List.find?_cons_of_neg (by simpa using here)]
      exact (ih first).2

private theorem registerGsi_none {os : List GsiOverride}
    (absent : os.find? (fun o => o.gsi = gsi) = none) : (Apic.registerGsi gsi os).2 = false := by
  induction os with
  | nil => rfl
  | cons c rest ih =>
    rw [List.find?_cons] at absent
    split at absent
    · simp at absent
    · rename_i other
      unfold Apic.registerGsi
      rw [if_neg (by simpa using other)]
      exact ih absent

private theorem registerGsi_recorded {os : List GsiOverride}
    (recorded : ∀ o ∈ os, o.Recorded apics) :
    ∀ o ∈ (Apic.registerGsi gsi os).1, o.Recorded apics := by
  induction os with
  | nil => exact recorded
  | cons c rest ih =>
    have head := recorded c (List.mem_cons_self ..)
    have tail : ∀ o ∈ rest, o.Recorded apics :=
      fun o member => recorded o (List.mem_cons_of_mem c member)
    unfold Apic.registerGsi
    split
    · split
      · exact recorded
      · intro o member
        rcases List.mem_cons.1 member with rfl | later
        · exact head
        · exact tail o later
    · intro o member
      rcases List.mem_cons.1 member with rfl | later
      · exact head
      · exact ih tail o later

theorem forEach_find {os : List GsiOverride} {o : GsiOverride} {act : GsiOverride → ApicM Bool}
    (first : os.find? (fun o => o.gsi = gsi) = some o) (ran : act o m = .ok false m') :
    forEachElement (fun o => if o.gsi = gsi then act o else pure true) os m = .ok () m' := by
  induction os with
  | nil => simp at first
  | cons c rest ih =>
    rw [forEachElement]
    by_cases here : c.gsi = gsi
    · rw [List.find?_cons_of_pos (by simpa using here), Option.some.injEq] at first
      rw [if_pos here, first]
      simp only [bind, EStateM.bind, ran]
      rfl
    · rw [List.find?_cons_of_neg (by simpa using here)] at first
      rw [if_neg here]
      exact ih first

theorem Apic.Upkept.device (upkept : Apic.Upkept apics m) {apic : IoApic} (member : apic ∈ apics) :
    ∃ device, m.pages apic.virtualAddress = some device :=
  Option.isSome_iff_exists.1 (upkept.mapped apic member)

/-- A GSI that passes the range test of some I/O APIC is written, and false returned. -/
theorem writeGsi_ran (upkept : Apic.Upkept apics m) {apic : IoApic}
    (found : takenBy apics gsi = some (some apic)) :
    ∃ device, m.pages apic.virtualAddress = some device ∧ Apic.writeGsi apics gsi r m =
      .ok false { m with writes := m.writes ++ entryStores device gsi apic r } := by
  obtain ⟨member, takes⟩ := takes_of_takenBy found
  obtain ⟨device, mapped⟩ := upkept.device member
  refine ⟨device, mapped, ?_⟩
  rw [writeGsi_eq, found]
  exact writeEntry_then takes mapped

/-- A GSI with an override that is not registered yet gets the stores that `write_gsi` makes,
and the override is registered. -/
theorem writeAndRegisterGsi_ran (upkept : Apic.Upkept apics m) {o : GsiOverride}
    (first : m.gsiOverrides.find? (fun o => o.gsi = gsi) = some o) (fresh : o.registered = false) :
    ∃ apic device, takenBy apics gsi = some (some apic) ∧
      m.pages apic.virtualAddress = some device ∧
      Apic.writeAndRegisterGsi apics gsi r m =
        .ok true { m with
          gsiOverrides := (Apic.registerGsi gsi m.gsiOverrides).1
          writes := m.writes ++ entryStores device gsi apic r } := by
  have same : o.gsi = gsi := by simpa using List.find?_some first
  obtain ⟨apic, found, at_index, entry⟩ := upkept.recorded o (List.mem_of_find?_eq_some first)
  rw [same] at found entry
  obtain ⟨member, takes⟩ := takes_of_takenBy found
  obtain ⟨device, mapped⟩ := upkept.device member
  obtain ⟨marked, now⟩ := registerGsi_find first
  refine ⟨apic, device, found, mapped, ?_⟩
  unfold Apic.writeAndRegisterGsi
  simp only [EStateM.get_bind_run, EStateM.set_bind_run, marked, fresh, Bool.not_false,
    Bool.not_true, Bool.false_eq_true, if_false]
  simp only [bind, EStateM.bind]
  rw [@forEach_find _ _ { m with
    gsiOverrides := (Apic.registerGsi gsi m.gsiOverrides).1
    writes := m.writes ++ entryStores device gsi apic r } _ _ _ now]
  · rfl
  · simp only [at_index, entry]
    exact writeEntry_then takes (by exact mapped)

theorem writeAndRegisterGsi_refused
    (unmarked : (Apic.registerGsi gsi m.gsiOverrides).2 = false) :
    Apic.writeAndRegisterGsi apics gsi r m =
      .ok false { m with gsiOverrides := (Apic.registerGsi gsi m.gsiOverrides).1 } := by
  unfold Apic.writeAndRegisterGsi
  simp only [EStateM.get_bind_run, EStateM.set_bind_run, unmarked, Bool.not_false, if_true]
  rfl

/-! ## All states -/

private theorem upkept_writeGsi {b : Bool} (upkept : Apic.Upkept apics m)
    (ran : Apic.writeGsi apics gsi r m = .ok b m') : Apic.Upkept apics m' := by
  cases found : takenBy apics gsi with
  | none =>
    rw [writeGsi_eq, found] at ran
    cases ran
  | some taken =>
    cases taken with
    | none =>
      rw [writeGsi_eq, found] at ran
      cases ran
      exact upkept
    | some apic =>
      obtain ⟨device, -, same⟩ := writeGsi_ran (r := r) upkept found
      rw [same] at ran
      cases ran
      exact ⟨upkept.recorded, upkept.mapped⟩

/-- A call of `write_and_register_gsi` either registers an override or is refused. -/
theorem registers_or_refused (gsi : BitVec 32) (m : ApicMachine) :
    (∃ o, m.gsiOverrides.find? (fun o => o.gsi = gsi) = some o ∧ o.registered = false) ∨
      (Apic.registerGsi gsi m.gsiOverrides).2 = false := by
  cases first : m.gsiOverrides.find? (fun o => o.gsi = gsi) with
  | none => exact Or.inr (registerGsi_none first)
  | some o =>
    cases done : o.registered with
    | true =>
      right
      rw [(registerGsi_find first).1, done]
      rfl
    | false => exact Or.inl ⟨o, rfl, done⟩

private theorem upkept_writeAndRegisterGsi {b : Bool} (upkept : Apic.Upkept apics m)
    (ran : Apic.writeAndRegisterGsi apics gsi r m = .ok b m') : Apic.Upkept apics m' := by
  have kept : ∀ writes, Apic.Upkept apics
      { m with gsiOverrides := (Apic.registerGsi gsi m.gsiOverrides).1, writes := writes } :=
    fun _ => ⟨registerGsi_recorded upkept.recorded, upkept.mapped⟩
  rcases registers_or_refused gsi m with ⟨o, first, fresh⟩ | unmarked
  · obtain ⟨apic, device, -, -, same⟩ := writeAndRegisterGsi_ran (r := r) upkept first fresh
    rw [same] at ran
    cases ran
    exact kept _
  · rw [writeAndRegisterGsi_refused unmarked] at ran
    cases ran
    exact kept _

private theorem Apic.Reachable.upkept (reachable : Apic.Reachable apics m) :
    Apic.Upkept apics m := by
  induction reachable with
  | new recorded => exact ⟨new_recorded recorded, pages_new apics⟩
  | write _ ran ih => exact upkept_writeGsi ih ran
  | register _ ran ih => exact upkept_writeAndRegisterGsi ih ran

/-- For an override that is not registered the two routines make the same stores, and no
later registration of the GSI makes any. -/
theorem Apic.Reachable.routines_agree (reachable : Apic.Reachable apics m) {o : GsiOverride}
    (first : m.gsiOverrides.find? (fun o => o.gsi = gsi) = some o) (fresh : o.registered = false) :
    ∃ stores m₁ m₂, Apic.writeGsi apics gsi r m = .ok false m₁ ∧
      Apic.writeAndRegisterGsi apics gsi r m = .ok true m₂ ∧
      m₁.writes = m.writes ++ stores ∧ m₂.writes = m.writes ++ stores ∧
      ∀ r', ∃ m₃, Apic.writeAndRegisterGsi apics gsi r' m₂ = .ok false m₃ ∧
        m₃.writes = m₂.writes := by
  have upkept := reachable.upkept
  obtain ⟨apic, device, found, mapped, registers⟩ :=
    writeAndRegisterGsi_ran (r := r) upkept first fresh
  obtain ⟨device', mapped', writes⟩ := writeGsi_ran (r := r) upkept found
  rw [mapped, Option.some.injEq] at mapped'
  subst mapped'
  refine ⟨entryStores device gsi apic r, _, _, writes, registers, rfl, rfl, fun r' => ?_⟩
  -- the override that is found again is the one that was marked
  refine ⟨_, writeAndRegisterGsi_refused ?_, rfl⟩
  exact (registerGsi_find (registerGsi_find first).2).1

/-- Routing works exactly for the GSIs that no I/O APIC takes, where there is nothing to do. -/
theorem routes_iff (reachable : Apic.Reachable apics m) :
    Routes apics gsi r m ↔ ∀ apic ∈ apics, ¬apic.Takes gsi := by
  have upkept := reachable.upkept
  constructor
  · intro routes
    obtain ⟨m', ran, stores, appended, expected⟩ := routes.write
    cases found : takenBy apics gsi with
    | none =>
      rw [writeGsi_eq, found] at ran
      cases ran
    | some taken =>
      cases taken with
      | none => exact not_takes_of_takenBy found
      | some apic =>
        -- false is returned, so no I/O APIC may own the GSI, but there are stores
        obtain ⟨device, -, same⟩ := writeGsi_ran (r := r) upkept found
        rw [same, Result.ok.injEq] at ran
        obtain ⟨unowned, rfl⟩ := ran
        have nothing : routed apics gsi r = [] := by
          have all : ∀ apic ∈ apics, ¬apic.Owns gsi := by simpa using unowned
          rw [routed, List.filter_eq_nil_iff.2 (by simpa using all)]
          rfl
        rw [nothing, List.perm_nil] at expected
        rw [expected] at appended
        simp [entryStores] at appended
  · intro free
    have unowned : ∀ apic ∈ apics, ¬apic.Owns gsi :=
      fun apic member owns => free apic member ⟨owns.1, Nat.le_of_lt owns.2⟩
    have nothing : routed apics gsi r = [] := by
      rw [routed, List.filter_eq_nil_iff.2 (by simpa using unowned)]
      rfl
    constructor
    · refine ⟨m, ?_, [], by simp, by rw [nothing]⟩
      have none_owns : ¬∃ apic ∈ apics, apic.Owns gsi :=
        fun ⟨apic, member, owns⟩ => unowned apic member owns
      rw [writeGsi_eq, takenBy_none free, decide_eq_false none_owns]
      rfl
    · intro o first fresh
      -- a recorded override belongs to an I/O APIC that takes its GSI
      have same : o.gsi = gsi := by simpa using List.find?_some first
      obtain ⟨apic, taken, -⟩ := upkept.recorded o (List.mem_of_find?_eq_some first)
      rw [same] at taken
      obtain ⟨member, takes⟩ := takes_of_takenBy taken
      exact absurd takes (free apic member)

/-- One I/O APIC, for the GSIs from 0 to 23. -/
def firstIoApic : IoApic := ⟨0xFEC00000, ioApicFixedVaddr, 0, 1⟩

theorem routes_beyond : Routes [firstIoApic] 30 ⟨0x30, 0, 0, 0, 1⟩ (Apic.new [firstIoApic] []) :=
  (routes_iff (@Apic.Reachable.new _ [.ioApic 1 0xFEC00000 0] _ rfl)).2 (by decide)

/-- A GSI of the I/O APIC is written, for the processor 0 in place of 1, and false returned. -/
theorem routes_nowhere : Apic.Reachable [firstIoApic] (Apic.new [firstIoApic] []) ∧
    firstIoApic.Owns 5 ∧
    ¬Routes [firstIoApic] 5 ⟨0x30, 0, 0, 0, 1⟩ (Apic.new [firstIoApic] []) := by
  refine ⟨@Apic.Reachable.new _ [.ioApic 1 0xFEC00000 0] _ rfl, by decide, fun routes => ?_⟩
  obtain ⟨m', ran, -⟩ := routes.write
  have value := value?_of_ok ran
  revert value
  decide +kernel

end Routines

end EmkKernel
