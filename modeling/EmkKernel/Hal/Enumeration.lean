import EmkKernel.Hal.PciBus

/-!
# What the enumeration of the PCI bus finds

The loop over the devices of a bus goes up to 254 where there are 32, so every scan of a
bus also looks at pages that belong to the buses behind it.
-/

namespace EmkKernel

open EStateM

/-- A function that answers: function 0, and the others of a device with many. -/
def ConfigurationSpace.Present (config : ConfigurationSpace) (bus device func : Nat) : Prop :=
  (config bus device 0).vendorId ≠ 0xFFFF ∧
    (func = 0 ∨ (config bus device 0).headerType >>> 7 = 1 ∧
      (config bus device func).vendorId ≠ 0xFFFF)

namespace PciBus

variable {σ : Type} {calls : PagingCalls σ} {config : ConfigurationSpace} {mcfg : Mcfg}
  {m m' : PciMachine σ}

/-- The functions on the buses that are scanned. -/
def Scanned (config : ConfigurationSpace) (mcfg : Mcfg) (pciIdent : Nat) : Prop :=
  ∃ bus device func, mcfg.startPciBusNumber ≤ bus ∧ bus < 2 ∧ device < 32 ∧ func < 8 ∧
    config.Present bus device func ∧ pciIdent = compressIdent bus device func

/-- What a scan that began without mapped pages should have done. -/
structure Enumerates (config : ConfigurationSpace) (mcfg : Mcfg) (m : PciMachine σ) : Prop where
  nodup : m.devices.values.Nodup
  listed : ∀ pciIdent, pciIdent ∈ m.devices.values ↔ Scanned config mcfg pciIdent
  accessed : ∀ c ∈ m.accessed, c.2.1 < 32
  bases : ∀ a ∈ m.devices.values, ∀ b ∈ m.devices.values, a ≠ b →
    pciBase mcfg.baseAddress m.devices.values a ≠ pciBase mcfg.baseAddress m.devices.values b
  mapped : ∀ addr, addr ∈ m.mapped ↔
    ∃ a ∈ m.devices.values, pciBase mcfg.baseAddress m.devices.values a = some addr

/-- Everything that was accessed before was accessed. -/
def Grows (m m' : PciMachine σ) : Prop := ∀ c ∈ m.accessed, c ∈ m'.accessed

theorem Grows.trans {m'' : PciMachine σ} (first : Grows m m') (second : Grows m' m'') :
    Grows m m'' := fun c member => second c (first c member)

/-- A computation that forgets no access. -/
def Growing {α : Type} (x : PciM σ α) : Prop :=
  ∀ m, Yields x m (fun _ m' => Grows m m') fun _ _ => True

private theorem growing_pure {α : Type} (a : α) :
    Growing (pure a : PciM σ α) := fun _ _ member => member

private theorem growing_throw {α : Type} (e : Stop) :
    Growing (throw e : PciM σ α) := fun _ => trivial

private theorem growing_bind {α β : Type} {x : PciM σ α} {f : α → PciM σ β} (first : Growing x)
    (rest : ∀ a, Growing (f a)) : Growing (x >>= f) := by
  intro m
  rw [yields_bind]
  exact (first m).mono (fun a s' grown =>
    (rest a s').mono (fun _ _ later => grown.trans later) fun _ _ _ => trivial) fun _ _ _ => trivial

private theorem growing_ite {α : Type} (c : Prop) [Decidable c] {x y : PciM σ α} (yes : Growing x)
    (no : Growing y) : Growing (if c then x else y) := by
  split
  · exact yes
  · exact no

private theorem growing_checked {α : Type} (o : Option α) : Growing (checked o : PciM σ α) := by
  cases o with
  | none => exact growing_throw _
  | some a => exact growing_pure a

private theorem growing_forM {γ : Type} {body : γ → PciM σ PUnit} (items : List γ)
    (each : ∀ c, Growing (body c)) : Growing (items.forM body) := by
  induction items with
  | nil => exact growing_pure _
  | cons c rest ih => exact growing_bind (each c) fun _ => ih

theorem growing_set {f : PciMachine σ → PciM σ Unit}
    (same : ∀ m, Yields (f m) m (fun _ m' => m'.accessed = m.accessed) fun _ _ => True) :
    Growing (get >>= f) := by
  intro m
  rw [yields_bind, yields_get]
  refine (same m).mono (fun _ m' kept c member => ?_) fun _ _ _ => trivial
  rw [kept]
  exact member

private theorem growing_page4K (addr : Nat) : Growing (page4K calls addr) := by
  apply growing_set
  intro m
  cases calls.page4K addr addr 0x13 m.paging with
  | none => trivial
  | some paging => rfl

private theorem growing_unpage4K (addr : Nat) : Growing (unpage4K calls addr) := by
  apply growing_set
  intro m
  cases calls.unpage4K addr m.paging with
  | none => trivial
  | some paging => rfl

private theorem growing_pushBack (data : Nat) : Growing (pushBack data : PciM σ Unit) := by
  apply growing_set
  intro m
  dsimp only
  split
  · -- a full list: each call of the allocator gives a block or panics
    split
    · split
      · rfl
      · trivial
    · trivial
  · rfl

private theorem growing_readHeader (bus device func : Nat) :
    Growing (readHeader config bus device func : PciM σ PciHeader) :=
  fun _ _ member => List.mem_append_left _ member

private theorem growing_scanFunction (bus device func : Nat) :
    Growing (scanFunction calls config mcfg bus device func) := by
  apply growing_bind (growing_checked _)
  intro addr
  apply growing_bind (growing_page4K addr)
  intro _
  apply growing_bind (growing_readHeader bus device func)
  intro header
  apply growing_ite
  · exact growing_bind (growing_page4K addr) fun _ => growing_pushBack _
  · exact growing_unpage4K addr

theorem growing_rest (bus device addr : Nat) (header : PciHeader) :
    Growing (do
      if header.vendorId = 0xFFFF then
        unpage4K calls addr
      else
        let header ← readHeader config bus device 0
        if header.headerType >>> 7 = 1 then
          (List.range 8).forM fun func => scanFunction calls config mcfg bus device func
        else
          pushBack (compressIdent bus device 0)) := by
  apply growing_ite
  · exact growing_unpage4K addr
  · apply growing_bind (growing_readHeader bus device 0)
    intro header
    apply growing_ite
    · exact growing_forM _ fun func => growing_scanFunction bus device func
    · exact growing_pushBack _

theorem scanDevice_accesses (bus device : Nat) (m : PciMachine σ) :
    Yields (scanDevice calls config mcfg bus device) m
      (fun _ m' => Grows m m' ∧ (bus, device, 0) ∈ m'.accessed) fun _ _ => True := by
  unfold scanDevice
  rw [yields_bind]
  refine (growing_checked (addressOf mcfg.baseAddress (bus * 256 + device * 8)) m).mono ?_
    fun _ _ _ => trivial
  intro addr m₁ grown
  rw [yields_bind]
  refine (growing_page4K addr m₁).mono ?_ fun _ _ _ => trivial
  intro _ m₂ paged
  rw [yields_bind]
  refine (growing_rest bus device addr _ _).mono ?_ fun _ _ _ => trivial
  intro _ m₃ later
  constructor
  · exact grown.trans (paged.trans fun c member => later c (List.mem_append_left _ member))
  · exact later _ (List.mem_append_right _ (List.mem_singleton.2 rfl))

/-- Every device of the loop is accessed, also behind the last one that a bus has. -/
theorem scanBus_accesses (bus : Nat) (m : PciMachine σ) :
    Yields ((List.range 255).forM fun device => scanDevice calls config mcfg bus device) m
      (fun _ m' => Grows m m' ∧ ∀ device < 255, (bus, device, 0) ∈ m'.accessed)
      fun _ _ => True := by
  have run := yields_forM (R := fun _ _ => True) (s := m)
    (fun device => scanDevice calls config mcfg bus device)
    (fun rest m' => Grows m m' ∧
      ∀ device < 255, device ∈ rest ∨ (bus, device, 0) ∈ m'.accessed)
    (by
      intro device rest s inv
      refine (scanDevice_accesses bus device s).mono ?_ fun _ _ _ => trivial
      rintro _ s' ⟨grown, accessed⟩
      refine ⟨inv.1.trans grown, fun d below => ?_⟩
      rcases inv.2 d below with left | done
      · rcases List.mem_cons.1 left with rfl | later
        · exact Or.inr accessed
        · exact Or.inl later
      · exact Or.inr (grown _ done))
    (show Grows m m ∧ ∀ device < 255, device ∈ List.range 255 ∨ (bus, device, 0) ∈ m.accessed from
      ⟨fun _ member => member, fun d below => Or.inl (List.mem_range.2 below)⟩)
  refine run.mono ?_ fun _ _ _ => trivial
  rintro _ m' ⟨grown, all⟩
  exact ⟨grown, fun d below => (all d below).resolve_left (by simp)⟩

private theorem scan_accesses (scanned : mcfg.startPciBusNumber < 2) (m : PciMachine σ) :
    Yields (scan calls config mcfg) m (fun _ m' => (1, 32, 0) ∈ m'.accessed) fun _ _ => True := by
  have one : 1 ∈ List.range' mcfg.startPciBusNumber (2 - mcfg.startPciBusNumber) := by
    rw [List.mem_range'_1]
    omega
  have run := yields_forM (R := fun _ _ => True) (s := m)
    (fun bus => (List.range 255).forM fun device => scanDevice calls config mcfg bus device)
    (fun rest m' => 1 ∈ rest ∨ (1, 32, 0) ∈ m'.accessed)
    (by
      intro bus rest s inv
      refine (scanBus_accesses bus s).mono ?_ fun _ _ _ => trivial
      rintro _ s' ⟨grown, all⟩
      rcases inv with left | done
      · rcases List.mem_cons.1 left with rfl | later
        · exact Or.inr (all 32 (by decide))
        · exact Or.inl later
      · exact Or.inr (grown _ done))
    (Or.inl one)
  exact run.mono (fun _ m' inv => inv.resolve_left (by simp)) fun _ _ _ => trivial

/-- Without a bus to scan nothing is accessed, listed or mapped. -/
theorem scan_nothing (beyond : 2 ≤ mcfg.startPciBusNumber) : scan calls config mcfg = pure () := by
  unfold scan
  rw [Nat.sub_eq_zero_of_le beyond]
  rfl

private theorem newDevices_yields (capacity : Nat) (m : PciMachine σ) :
    Yields (newDevices capacity) m (fun _ m' => m'.devices.values = [] ∧
      m'.accessed = m.accessed ∧ m'.mapped = m.mapped) fun _ _ => True := by
  unfold newDevices
  rw [yields_bind, yields_get]
  split
  · exact ⟨rfl, rfl, rfl⟩
  · trivial

theorem initializeBus_yields {Q : PciMachine σ → Prop} (m : PciMachine σ)
    (scans : ∀ m₁ : PciMachine σ, m₁.devices.values = [] → m₁.accessed = m.accessed →
      m₁.mapped = m.mapped → Yields (scan calls config mcfg) m₁ (fun _ => Q) fun _ _ => True) :
    Yields (initializeBus calls config mcfg) m (fun _ => Q) fun _ _ => True := by
  unfold initializeBus
  rw [yields_ite]
  split
  · trivial
  · rw [yields_bind, yields_get, yields_bind]
    cases calls.page4K _ _ pagerPresent m.paging with
    | none => trivial
    | some paging =>
      simp only [checked, yields_pure, yields_bind, yields_set, yields_ite]
      split
      · trivial
      · refine (newDevices_yields 4 _).mono ?_ fun _ _ _ => trivial
        rintro _ m₁ ⟨empty, accessed, mapped⟩
        exact scans m₁ empty accessed mapped

/-- The enumeration is exact only when there is no bus to scan. -/
theorem enumerates_iff {paging : σ} {virtualAllocator : Allocator}
    (ran : initializeBus calls config mcfg (.new paging virtualAllocator) = .ok () m') :
    Enumerates config mcfg m' ↔ 2 ≤ mcfg.startPciBusNumber := by
  constructor
  · intro enumerates
    by_contra scanned
    have beyond := (initializeBus_yields (.new paging virtualAllocator) fun m₁ _ _ _ =>
      scan_accesses (by omega) m₁).ok ran
    exact absurd (enumerates.accessed _ beyond) (by decide)
  · intro beyond
    have untouched : m'.devices.values = [] ∧ m'.accessed = [] ∧ m'.mapped = [] := by
      refine (initializeBus_yields (Q := fun m => m.devices.values = [] ∧ m.accessed = [] ∧
        m.mapped = []) (.new paging virtualAllocator) ?_).ok ran
      intro m₁ empty accessed mapped
      rw [scan_nothing beyond]
      exact ⟨empty, accessed, mapped⟩
    obtain ⟨empty, accessed, mapped⟩ := untouched
    constructor
    · rw [empty]
      exact List.nodup_nil
    · intro pciIdent
      rw [empty]
      constructor
      · intro member
        exact absurd member List.not_mem_nil
      · rintro ⟨bus, _, _, first, last, _⟩
        omega
    · rw [accessed]
      simp
    · rw [empty]
      simp
    · rw [empty, mapped]
      simp

/-! ## Runs -/

/-- A pager that never fails. -/
def freePaging : PagingCalls Unit := ⟨fun _ _ _ m => some m, fun _ m => some m⟩

def freeAllocator : Allocator := ⟨fun _ => 0, 16, 0, 0, 0⟩

/-- One space of configuration, from a bus on. -/
def mcfgFrom (bus : Nat) : Mcfg := ⟨60, 0x7000, 0xB0000000, bus⟩

/-- The only device is the first one of bus 1. -/
def lonelyDevice : ConfigurationSpace := fun bus device func =>
  if bus = 1 ∧ device = 0 ∧ func = 0 then ⟨0x8086, 0⟩ else ⟨0xFFFF, 0⟩

theorem enumerates_beyond : ∃ m',
    initializeBus freePaging lonelyDevice (mcfgFrom 2) (.new () freeAllocator) = .ok () m' ∧
      Enumerates lonelyDevice (mcfgFrom 2) m' := by
  have ran : ((initializeBus freePaging lonelyDevice (mcfgFrom 2)).value?
      (.new () freeAllocator)).isSome := by decide +kernel
  unfold value? at ran
  split at ran
  · rename_i m' returned
    exact ⟨m', returned, (enumerates_iff returned).2 (by decide)⟩
  · cases ran

/-- The devices that are listed, and whether a device number from 32 on was accessed. -/
def seenFrom (bus : Nat) : Option (List Nat × Bool) :=
  match initializeBus freePaging lonelyDevice (mcfgFrom bus) (.new () freeAllocator) with
  | .ok _ m => some (m.devices.values, m.accessed.any fun c => c.2.1 ≥ 32)
  | .error _ _ => none

/-- The device of bus 1 is listed twice, also as device 32 of bus 0. -/
theorem enumerates_twice : ∃ m',
    initializeBus freePaging lonelyDevice (mcfgFrom 0) (.new () freeAllocator) = .ok () m' ∧
      m'.devices.values = [compressIdent 0 32 0, compressIdent 1 0 0] ∧
      ¬Enumerates lonelyDevice (mcfgFrom 0) m' := by
  have seen : seenFrom 0 = some ([compressIdent 0 32 0, compressIdent 1 0 0], true) := by
    decide +kernel
  unfold seenFrom at seen
  split at seen
  · rename_i m' ran
    simp only [Option.some.injEq, Prod.mk.injEq, List.any_eq_true] at seen
    obtain ⟨listed, c, member, beyond⟩ := seen
    refine ⟨m', ran, listed, fun enumerates => ?_⟩
    have below := enumerates.accessed c member
    simp only [ge_iff_le, decide_eq_true_eq] at beyond
    omega
  · cases seen

end PciBus

end EmkKernel
