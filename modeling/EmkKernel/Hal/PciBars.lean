import EmkKernel.Hal.PciBus
import EmkKernel.Library.WordFields
import EmkKernel.Paging.PageRuns

/-!
# Base address registers

`PciBus::get_bar` finds the size of a BAR by what the register keeps of a write, and `PciBar::map`
and `map_to_virtual` map its pages.
-/

namespace EmkKernel

open EStateM WordFields

inductive BarType where
  | memory
  | io
  deriving DecidableEq, Repr

/-- `PciBar` without its flags. -/
structure PciBar where
  barType : BarType
  data : BitVec 64
  length : BitVec 32

namespace PciBar

variable (bar : PciBar)

/-- `page_4_kb` for a page of a BAR; an error is `false`. -/
def mapsPage (pager : Pager) (virt physical : Nat) : PagerM Bool := fun m =>
  match pager.page4Kb virt (BitVec.ofNat 64 physical) 0x13 m with
  | .ok _ m' => .ok true m'
  | .error (.err _) m' => .ok false m'
  | .error .panic m' => .error .panic m'

/-- The loop over the pages, from page `i` on; the sums are in `u64`. -/
def mapPages (pager : Pager) (map : Nat) : Nat → Nat → PagerM Bool
  | 0, _ => pure true
  | n + 1, i =>
    if 2 ^ 64 ≤ map + i * 0x1000 ∨ 2 ^ 64 ≤ bar.data.toNat + i * 0x1000 then throw .panic
    else do
      let mapped ← mapsPage pager (map + i * 0x1000) (bar.data.toNat + i * 0x1000)
      if mapped then mapPages pager map n (i + 1) else pure false

def mapToVirtual (pager : Pager) (map : Nat) : PagerM Bool :=
  if bar.barType = .memory then bar.mapPages pager map (bar.length.toNat / 0x1000) 0
  else pure true

/-- The two loops are the same, here with the address for both. -/
def map (pager : Pager) : PagerM Bool := bar.mapToVirtual pager bar.data.toNat

end PciBar

/-- A dword of the configuration space that keeps some of its bits on a write. -/
structure ConfigurationRegister where
  value : BitVec 32
  writable : BitVec 32

def ConfigurationRegister.write (register : ConfigurationRegister) (value : BitVec 32) :
    ConfigurationRegister :=
  { register with value := register.value &&& ~~~register.writable ||| value &&& register.writable }

/-- The dwords by address. -/
abbrev ConfigurationRegisters := Nat → ConfigurationRegister

abbrev ConfigurationM := EStateM Stop ConfigurationRegisters

def readVolatile (address : Nat) : ConfigurationM (BitVec 32) := do
  let registers ← get
  pure (registers address).value

def writeVolatile (address : Nat) (value : BitVec 32) : ConfigurationM Unit :=
  modify fun registers => Function.update registers address ((registers address).write value)

inductive PciBarIndex where
  | index0
  | index1
  | index2
  | index3
  | index4
  | index5
  deriving DecidableEq, Repr

def PciBarIndex.offset : PciBarIndex → Nat
  | index0 => 0x10
  | index1 => 0x14
  | index2 => 0x18
  | index3 => 0x1C
  | index4 => 0x20
  | index5 => 0x24

namespace PciBus

def pciMemoryBar32bits : BitVec 32 := 0

/-- The length by what is read behind a write of ones; the sum is in `u32`. -/
def barLength (newValue : BitVec 32) : Option (BitVec 32) :=
  let newValue := ~~~(newValue &&& ~~~7)
  if newValue = BitVec.allOnes 32 then none else some (newValue + 1)

/-- What the register keeps of a write of ones; its value is written back. -/
def probe (address : Nat) (originalValue : BitVec 32) : ConfigurationM (BitVec 32) := do
  writeVolatile address 0xFFFFFFFF
  let newValue ← readVolatile address
  writeVolatile address originalValue
  pure newValue

def sized (data : BitVec 64) (newValue : BitVec 32) : ConfigurationM PciBar :=
  match barLength newValue with
  | none => throw .panic
  | some length => pure ⟨.memory, data, length⟩

/-- The branches for the two widths differ in the address only. -/
def getMemoryBar (address : Nat) (originalValue : BitVec 32) : ConfigurationM PciBar := do
  let data ←
    if originalValue >>> 1 &&& 3 = pciMemoryBar32bits then
      pure ((originalValue >>> 4 <<< 4).setWidth 64)
    else do
      let nextValue ← readVolatile (address + 4)
      pure ((originalValue >>> 4 <<< 4).setWidth 64 ||| nextValue.setWidth 64 <<< 32)
  let newValue ← probe address originalValue
  sized data newValue

/-- `get_bar`, with the base address of the configuration space and the list of devices. -/
def getBar (base : Nat) (pciDevices : List Nat) (pciIdent : Nat) (bar : PciBarIndex) :
    ConfigurationM (Option PciBar) :=
  if pciIdent ∈ pciDevices then
    match pciBase base pciDevices pciIdent with
    | none => throw .panic
    | some address => do
      let originalValue ← readVolatile (address + bar.offset)
      if originalValue &&& 1 = 0 then
        some <$> getMemoryBar (address + bar.offset) originalValue
      else pure (some ⟨.io, (originalValue >>> 2 <<< 2).setWidth 64, 0⟩)
  else pure none

end PciBus

/-! ### What a BAR is -/

/-- A memory BAR: its registers keep the type and the bits of an aligned address. -/
structure MemoryBar where
  wide : Bool
  prefetchable : Bool
  exponent : Nat
  address : Nat
  least : 4 ≤ exponent
  aligned : 2 ^ exponent ∣ address
  inside : address + 2 ^ exponent ≤ if wide then 2 ^ 64 else 2 ^ 32

namespace MemoryBar

variable (bar : MemoryBar)

def size : Nat := 2 ^ bar.exponent

def flags : BitVec 32 := setBit (setBit 0 2 bar.wide) 3 bar.prefetchable

/-- The register of the low address bits. -/
def low : ConfigurationRegister where
  value := bar.flags ||| BitVec.ofNat 32 bar.address
  writable := BitVec.ofNat 32 (2 ^ 64 - bar.size)

/-- The register of the high address bits. -/
def high : ConfigurationRegister where
  value := BitVec.ofNat 32 (bar.address / 2 ^ 32)
  writable := BitVec.ofNat 32 ((2 ^ 64 - bar.size) / 2 ^ 32)

end MemoryBar

/-- A register that is not implemented reads zero. -/
def ConfigurationRegister.unimplemented : ConfigurationRegister := ⟨0, 0⟩

/-- The registers at an address are those of a BAR, which may be missing. -/
def Shows (registers : ConfigurationRegisters) (address : Nat) : Option MemoryBar → Prop
  | none => registers address = .unimplemented
  | some bar => registers address = bar.low ∧
      (bar.wide = true → registers (address + 4) = bar.high)

/-- A byte is translated to its physical address, at an address that the processor takes. -/
def Pager.Reaches (pager : Pager) (m : Machine) (virt physical : Nat) : Prop :=
  Canonical virt ∧ ∃ t, pager.walk m.memory virt = some t ∧ t.physical = physical

/-- All bytes of a BAR are mapped after a loop that succeeds, on every pager. -/
def MapsAll (mapping : Pager → PagerM Bool) (virt address size : Nat) : Prop :=
  ∀ (pager : Pager) (m m' : Machine), pager.Ready4Kb m → mapping pager m = .ok true m' →
    ∀ j < size, pager.Reaches m' (virt + j) (address + j)

/-- `get_bar` finds the address and the size and leaves the registers as they were, and what it
finds is mapped as a whole. -/
def FindsBar (base : Nat) (pciDevices : List Nat) (pciIdent : Nat) (index : PciBarIndex)
    (registers : ConfigurationRegisters) (address size : Nat) : Prop :=
  ∃ bar, PciBus.getBar base pciDevices pciIdent index registers = .ok (some bar) registers ∧
    bar.data.toNat = address ∧ bar.length.toNat = size ∧
    MapsAll bar.map address address size ∧
    ∀ virt, (∀ j < size, Canonical (virt + j)) →
      MapsAll (fun pager => bar.mapToVirtual pager virt) virt address size

def addressOfBar (bar : Option MemoryBar) : Nat := bar.elim 0 MemoryBar.address

def sizeOfBar (bar : Option MemoryBar) : Nat := bar.elim 0 MemoryBar.size

namespace MemoryBar

/-- The BAR is not prefetchable, has from 4 KiB to 2 GiB and lies where the processor has addresses
for it. -/
structure Suits (bar : MemoryBar) : Prop where
  prefetchable : bar.prefetchable = false
  page : 0x1000 ≤ bar.size
  inU32 : bar.size < 2 ^ 32
  canonical : bar.address + bar.size ≤ 2 ^ 47

/-! ### The registers -/

variable (bar : MemoryBar)

private theorem size_dvd : 2 ^ 4 ∣ bar.size := Nat.pow_dvd_pow 2 bar.least

private theorem address_aligned : 2 ^ 4 ∣ bar.address := bar.size_dvd.trans bar.aligned

theorem size_le : bar.size ≤ 2 ^ 64 := by
  have inside := bar.inside
  unfold size
  split at inside <;> omega

private theorem getLsbD_value {i : Nat} (small : i < 32) : bar.low.value.getLsbD i =
    if i < 4 then decide (i = 2) && bar.wide || decide (i = 3) && bar.prefetchable
    else (BitVec.ofNat 32 bar.address).getLsbD i := by
  have zero : (0 : BitVec 32).getLsbD i = false := BitVec.getLsbD_zero
  rw [low, BitVec.getLsbD_or, flags, getLsbD_setBit _ _ small, getLsbD_setBit _ _ small, zero]
  by_cases flag : i < 4
  · rw [if_pos flag, getLsbD_aligned bar.address_aligned flag, Bool.or_false]
    by_cases third : i = 3
    · subst third
      simp
    · by_cases second : i = 2
      · subst second
        simp
      · simp [second, third]
  · have apart : i ≠ 2 ∧ i ≠ 3 := by omega
    rw [if_neg flag, if_neg apart.2, if_neg apart.1, Bool.false_or]

private theorem getLsbD_writable {i : Nat} (small : i < 32) :
    bar.low.writable.getLsbD i = decide (bar.exponent ≤ i) := by
  have le : bar.exponent ≤ 64 := by
    have bound := bar.size_le
    exact (Nat.pow_le_pow_iff_right (by decide)).mp bound
  have factored : 2 ^ 64 - 2 ^ bar.exponent =
      2 ^ bar.exponent * (2 ^ (64 - bar.exponent) - 1) := by
    rw [Nat.mul_sub, Nat.mul_one, ← Nat.pow_add, Nat.add_sub_cancel' le]
  rw [low, BitVec.getLsbD_ofNat, size, factored, Nat.testBit_two_pow_mul,
    Nat.testBit_two_pow_sub_one]
  have inside : i - bar.exponent < 64 - bar.exponent ∨ ¬bar.exponent ≤ i := by omega
  simp [small]
  omega

private theorem value_memory : bar.low.value &&& 1 = 0 := by
  apply BitVec.eq_of_getLsbD_eq
  intro i small
  have one : (1#32).getLsbD i = decide (i = 0) := by simp
  change (bar.low.value &&& 1#32).getLsbD i = (0#32).getLsbD i
  rw [BitVec.getLsbD_and, one, bar.getLsbD_value small, BitVec.getLsbD_zero]
  by_cases first : i = 0
  · subst first
    rfl
  · rw [decide_eq_false first, Bool.and_false]

theorem value_type :
    bar.low.value >>> 1 &&& 3 = PciBus.pciMemoryBar32bits ↔ bar.wide = false := by
  have bits : ∀ i < 32,
      (bar.low.value >>> 1 &&& 3#32).getLsbD i = (decide (i = 1) && bar.wide) := by
    intro i small
    have three : (3#32).getLsbD i = decide (i < 2) := by
      have all : ∀ i < 32, (3#32).getLsbD i = decide (i < 2) := by decide
      exact all i small
    rw [BitVec.getLsbD_and, BitVec.getLsbD_ushiftRight, three]
    by_cases low : i < 2
    · rw [bar.getLsbD_value (by omega), if_pos (by omega)]
      rcases (by omega : i = 0 ∨ i = 1) with rfl | rfl <;> simp
    · have apart : i ≠ 1 := by omega
      simp [low, apart]
  constructor
  · intro same
    have bit := bits 1 (by decide)
    change bar.low.value >>> 1 &&& 3#32 = 0#32 at same
    rw [same] at bit
    exact bit.symm
  · intro narrow
    apply BitVec.eq_of_getLsbD_eq
    intro i small
    change (bar.low.value >>> 1 &&& 3#32).getLsbD i = (0#32).getLsbD i
    rw [bits i small, narrow, Bool.and_false, BitVec.getLsbD_zero]

private theorem value_pointer : (bar.low.value >>> 4 <<< 4).toNat = bar.address % 2 ^ 32 := by
  apply shift_pointer_eq bar.address_aligned
  intro i small high
  rw [bar.getLsbD_value small, if_neg (Nat.not_lt.mpr high)]

/-- What the register keeps of a write of ones, without the bits that `get_bar` masks. -/
theorem probed : (bar.low.write 0xFFFFFFFF).value &&& ~~~7 =
    setBit bar.low.writable 3 bar.prefetchable := by
  have least := bar.least
  apply BitVec.eq_of_getLsbD_eq
  intro i small
  have seven : ∀ i < 32, (~~~7#32).getLsbD i = decide (3 ≤ i) := by decide
  have ones : ∀ i < 32, (0xFFFFFFFF#32).getLsbD i = true := by decide
  change ((bar.low.value &&& ~~~bar.low.writable ||| 0xFFFFFFFF#32 &&& bar.low.writable) &&&
    ~~~7#32).getLsbD i = _
  rw [BitVec.getLsbD_and, BitVec.getLsbD_or, BitVec.getLsbD_and, BitVec.getLsbD_and,
    BitVec.getLsbD_not, seven i small, ones i small, getLsbD_setBit _ _ small,
    bar.getLsbD_writable small, bar.getLsbD_value small]
  by_cases kept : bar.exponent ≤ i
  · have apart : i ≠ 3 := by omega
    have behind : 3 ≤ i := by omega
    simp [kept, apart, behind, small]
  · by_cases flag : i < 4
    · by_cases third : i = 3
      · subst third
        simp [kept]
      · have before : ¬3 ≤ i := by omega
        simp [kept, third, before]
    · -- the address has no bits below its size
      have apart : i ≠ 3 := by omega
      rw [if_neg flag, getLsbD_aligned bar.aligned (Nat.lt_of_not_le kept)]
      simp [kept, apart]

end MemoryBar

theorem ConfigurationRegister.write_back (register : ConfigurationRegister) (value : BitVec 32) :
    (register.write value).write register.value = register := by
  have same : (register.value &&& ~~~register.writable ||| value &&& register.writable) &&&
      ~~~register.writable ||| register.value &&& register.writable = register.value := by
    apply BitVec.eq_of_getLsbD_eq
    intro i small
    simp only [BitVec.getLsbD_or, BitVec.getLsbD_and, BitVec.getLsbD_not, small, decide_true,
      Bool.true_and]
    cases register.writable.getLsbD i <;> simp
  simp only [write, same]

/-! ### What `get_bar` finds -/

namespace PciBus

/-- The address in the two dwords, the second of which is read for the wide type only. -/
def barData (registers : ConfigurationRegisters) (address : Nat) : BitVec 64 :=
  if (registers address).value >>> 1 &&& 3 = pciMemoryBar32bits then
    ((registers address).value >>> 4 <<< 4).setWidth 64
  else
    ((registers address).value >>> 4 <<< 4).setWidth 64 |||
      (registers (address + 4)).value.setWidth 64 <<< 32

theorem probe_run (registers : ConfigurationRegisters) (address : Nat) :
    probe address (registers address).value registers =
      .ok ((registers address).write 0xFFFFFFFF).value registers := by
  have restored : Function.update
      (Function.update registers address ((registers address).write 0xFFFFFFFF)) address
      (((registers address).write 0xFFFFFFFF).write (registers address).value) = registers := by
    rw [ConfigurationRegister.write_back, Function.update_idem, Function.update_eq_self]
  let probed := Function.update registers address ((registers address).write 0xFFFFFFFF)
  change EStateM.Result.ok (probed address).value
    (Function.update probed address ((probed address).write (registers address).value)) = _
  rw [show probed address = _ from Function.update_self .., restored]

private theorem getMemoryBar_run (registers : ConfigurationRegisters) (address : Nat) :
    getMemoryBar address (registers address).value registers =
      sized (barData registers address) ((registers address).write 0xFFFFFFFF).value registers := by
  unfold getMemoryBar barData
  split
  next narrow =>
    change (probe address (registers address).value >>= sized _) registers = _
    simp only [bind, EStateM.bind, probe_run]
  next wide =>
    change (probe address (registers address).value >>= sized _) registers = _
    simp only [bind, EStateM.bind, probe_run]

theorem getBar_run {base address pciIdent : Nat} {pciDevices : List Nat} {index : PciBarIndex}
    {registers : ConfigurationRegisters} (listed : pciIdent ∈ pciDevices)
    (page : pciBase base pciDevices pciIdent = some address)
    (memory : (registers (address + index.offset)).value &&& 1 = 0) :
    getBar base pciDevices pciIdent index registers =
      (some <$> sized (barData registers (address + index.offset))
        ((registers (address + index.offset)).write 0xFFFFFFFF).value) registers := by
  unfold getBar
  rw [if_pos listed, page]
  change (if (registers (address + index.offset)).value &&& 1 = 0 then
    some <$> getMemoryBar (address + index.offset) (registers (address + index.offset)).value
    else _) registers = _
  rw [if_pos memory]
  simp only [Functor.map, EStateM.map, getMemoryBar_run]

/-- The complement and the increment are a negation, which panics for zero. -/
theorem barLength_eq (newValue : BitVec 32) : barLength newValue =
    if newValue &&& ~~~7 = 0 then none else some (-(newValue &&& ~~~7)) := by
  have ones : ~~~(newValue &&& ~~~7) = BitVec.allOnes 32 ↔ newValue &&& ~~~7 = 0 := by
    rw [← BitVec.not_zero, BitVec.not_inj]
    rfl
  simp only [barLength, ones, BitVec.neg_eq_not_add]
  rfl

end PciBus

namespace MemoryBar

variable (bar : MemoryBar)

/-- The length that is computed for a BAR of which the register is read. -/
def foundLength : Option (BitVec 32) := PciBus.barLength (bar.low.write 0xFFFFFFFF).value

private theorem toNat_writable :
    bar.low.writable.toNat = if bar.size < 2 ^ 32 then 2 ^ 32 - bar.size else 0 := by
  have le := bar.size_le
  have some_bytes : 0 < bar.size := Nat.two_pow_pos _
  rw [low, BitVec.toNat_ofNat]
  split
  next small => omega
  next large =>
    obtain ⟨k, multiple⟩ : 2 ^ 32 ∣ bar.size := by
      apply Nat.pow_dvd_pow
      exact (Nat.pow_le_pow_iff_right (by decide)).mp (Nat.le_of_not_lt large)
    omega

/-- Without the flag of a prefetchable BAR the length is the size, as long as it fits. -/
theorem foundLength_plain (plain : bar.prefetchable = false) (inU32 : bar.size < 2 ^ 32) :
    bar.foundLength = some (BitVec.ofNat 32 bar.size) := by
  have some_bytes : 0 < bar.size := Nat.two_pow_pos _
  have least := bar.least
  have kept : setBit bar.low.writable 3 false = bar.low.writable := by
    apply BitVec.eq_of_getLsbD_eq
    intro i small
    rw [getLsbD_setBit _ _ small]
    split
    next third =>
      subst third
      have below : ¬bar.exponent ≤ 3 := by omega
      rw [bar.getLsbD_writable (by decide), decide_eq_false below]
    next => rfl
  have value := bar.toNat_writable
  rw [if_pos inU32] at value
  have nonzero : bar.low.writable ≠ 0 := by
    intro zero
    rw [zero] at value
    have none : (0 : BitVec 32).toNat = 0 := rfl
    omega
  rw [foundLength, PciBus.barLength_eq, bar.probed, plain, kept, if_neg nonzero]
  congr 1
  apply BitVec.eq_of_toNat_eq
  rw [BitVec.toNat_neg, value, BitVec.toNat_ofNat]
  omega

/-- A BAR of 4 GiB or more keeps nothing of the write in its low register. -/
theorem foundLength_large (plain : bar.prefetchable = false) (large : ¬bar.size < 2 ^ 32) :
    bar.foundLength = none := by
  have zero : bar.low.writable = 0 := by
    apply BitVec.eq_of_toNat_eq
    rw [bar.toNat_writable, if_neg large]
    rfl
  have kept : setBit 0 3 false = 0 := by decide
  rw [foundLength, PciBus.barLength_eq, bar.probed, plain, zero, kept, if_pos rfl]

theorem foundLength_prefetchable (prefetchable : bar.prefetchable = true) {length : BitVec 32}
    (found : bar.foundLength = some length) : length.toNat ≠ bar.size := by
  intro same
  have least := bar.least
  rw [foundLength, PciBus.barLength_eq, bar.probed, prefetchable] at found
  split at found
  next => cases found
  next nonzero =>
    cases found
    have below : ∀ j < 3, (setBit bar.low.writable 3 true).getLsbD j = false := by
      intro j less
      have outside : ¬bar.exponent ≤ j := by omega
      rw [getLsbD_setBit _ _ (by omega), if_neg (by omega), bar.getLsbD_writable (by omega),
        decide_eq_false outside]
    have bit : (-(setBit bar.low.writable 3 true)).getLsbD 3 = true := by
      have nothing : ¬∃ j < 3, (setBit bar.low.writable 3 true).getLsbD j = true := by
        rintro ⟨j, less, set⟩
        rw [below j less] at set
        cases set
      rw [BitVec.getLsbD_neg, getLsbD_setBit _ _ (by decide), if_pos rfl, decide_eq_false nothing]
      rfl
    rw [BitVec.getLsbD, same, size, Nat.testBit_two_pow, decide_eq_true_eq] at bit
    omega

theorem toNat_barData {registers : ConfigurationRegisters} {address : Nat}
    (shows : Shows registers address (some bar)) :
    (PciBus.barData registers address).toNat = bar.address := by
  obtain ⟨low, high⟩ := shows
  have inside := bar.inside
  have some_bytes : 0 < bar.size := Nat.two_pow_pos _
  unfold size at some_bytes
  unfold PciBus.barData
  rw [low]
  have pointer := bar.value_pointer
  split
  next narrow =>
    rw [bar.value_type.mp narrow, if_neg Bool.false_ne_true] at inside
    rw [BitVec.toNat_setWidth, pointer]
    omega
  next wide =>
    have wide : bar.wide = true := by
      rw [bar.value_type] at wide
      exact Bool.eq_true_of_not_eq_false wide
    rw [wide, if_pos rfl] at inside
    have upper : (registers (address + 4)).value.toNat = bar.address / 2 ^ 32 := by
      rw [high wide, MemoryBar.high, BitVec.toNat_ofNat]
      omega
    rw [BitVec.toNat_or, BitVec.toNat_shiftLeft, BitVec.toNat_setWidth, BitVec.toNat_setWidth,
      pointer, upper, Nat.or_comm, Nat.mod_eq_of_lt (b := 2 ^ 64) (by omega),
      Nat.mod_eq_of_lt (b := 2 ^ 64) (by omega), Nat.shiftLeft_eq,
      Nat.mod_eq_of_lt (b := 2 ^ 64) (by omega), Nat.mul_comm,
      ← Nat.two_pow_add_eq_or_of_lt (Nat.mod_lt _ (by decide))]
    omega

end MemoryBar

/-! ### What is mapped -/

namespace PciBar

variable {bar : PciBar} {pager : Pager} {m m' : Machine} {map : Nat}

private theorem mapsPage_true {virt physical : Nat}
    (mapped : mapsPage pager virt physical m = .ok true m') :
    ∃ page, pager.page4Kb virt (BitVec.ofNat 64 physical) 0x13 m = .ok page m' := by
  unfold mapsPage at mapped
  split at mapped
  next page _ ran =>
    cases mapped
    exact ⟨page, ran⟩
  next => cases mapped
  next => cases mapped

/-- The loop goes on only behind a page that was mapped. -/
theorem mapPages_succ {n i : Nat} (ran : bar.mapPages pager map (n + 1) i m = .ok true m') :
    ∃ m₁, mapsPage pager (map + i * 0x1000) (bar.data.toNat + i * 0x1000) m = .ok true m₁ ∧
      bar.mapPages pager map n (i + 1) m₁ = .ok true m' := by
  unfold mapPages at ran
  split at ran
  next panics => cases ran
  next =>
    cases first : mapsPage pager (map + i * 0x1000) (bar.data.toNat + i * 0x1000) m with
    | error s m₁ =>
      simp only [bind, EStateM.bind, first] at ran
      cases ran
    | ok mapped m₁ =>
      simp only [bind, EStateM.bind, first] at ran
      cases mapped with
      | false => cases ran
      | true => exact ⟨m₁, rfl, ran⟩

/-- Behind the loop the pages from `i` on are mapped, and the others as they were. -/
structure MapsRun (bar : PciBar) (pager : Pager) (map : Nat) (m m' : Machine) (i stop : Nat) :
    Prop where
  bytes : ∀ j, i * 0x1000 ≤ j → j < stop * 0x1000 →
    ∃ t, pager.walk m'.memory (map + j) = some t ∧ t.physical = bar.data.toNat + j
  other : ∀ u, Canonical u → u < map + i * 0x1000 ∨ map + stop * 0x1000 ≤ u →
    pager.walk m'.memory u = pager.walk m.memory u

private theorem mapPages_maps {n : Nat} : ∀ {i : Nat} {m : Machine},
    (∀ j < (i + n) * 0x1000, Canonical (map + j)) →
    bar.data.toNat + (i + n) * 0x1000 ≤ 2 ^ 52 → pager.Ready4Kb m →
    bar.mapPages pager map n i m = .ok true m' → bar.MapsRun pager map m m' i (i + n) := by
  induction n with
  | zero =>
    intro i m _ _ _ ran
    cases ran
    exact ⟨fun j above below => by omega, fun _ _ _ => rfl⟩
  | succ n ih =>
    intro i m canonical inMemory ready ran
    obtain ⟨m₁, mapped, rest⟩ := mapPages_succ ran
    obtain ⟨page, returned⟩ := mapsPage_true mapped
    have physical : (BitVec.ofNat 64 (bar.data.toNat + i * 0x1000)).toNat =
        bar.data.toNat + i * 0x1000 := by
      rw [BitVec.toNat_ofNat]
      omega
    have here : i * 0x1000 < (i + (n + 1)) * 0x1000 := by omega
    have below : (BitVec.ofNat 64 (bar.data.toNat + i * 0x1000)).toNat < 2 ^ 52 := by
      rw [physical]
      omega
    have first := Pager.page4Kb_maps ready (canonical _ here) below (by decide) returned
    obtain ⟨aligned, ready₁⟩ := Pager.page4Kb_ready ready (by decide) returned
    rw [physical] at first
    have stop : i + 1 + n = i + (n + 1) := by omega
    rw [← stop] at canonical inMemory ⊢
    have later := ih canonical inMemory ready₁ rest
    have page_run : i * 0x1000 + 0x1000 = (i + 1) * 0x1000 := (Nat.succ_mul i 0x1000).symm
    have run : (i + 1) * 0x1000 ≤ (i + 1 + n) * 0x1000 :=
      Nat.mul_le_mul_right _ (Nat.le_add_right _ n)
    refine ⟨fun j above below => ?_, fun u canonicalU outside => ?_⟩
    · by_cases here : j < (i + 1) * 0x1000
      · -- the later pages leave this one alone
        obtain ⟨t, found, value⟩ := first.page (j - i * 0x1000) (by omega)
        have same : map + i * 0x1000 + (j - i * 0x1000) = map + j := by omega
        rw [same] at found
        refine ⟨t, (later.other (map + j) (canonical j below) (Or.inl (by omega))).trans found, ?_⟩
        omega
      · exact later.bytes j (Nat.le_of_not_lt here) below
    · obtain ⟨start, start_eq⟩ : ∃ start, i * 0x1000 = start := ⟨_, rfl⟩
      obtain ⟨next, next_eq⟩ : ∃ next, (i + 1) * 0x1000 = next := ⟨_, rfl⟩
      obtain ⟨behind, behind_eq⟩ : ∃ behind, (i + 1 + n) * 0x1000 = behind := ⟨_, rfl⟩
      have other := first.other u canonicalU
      have unchanged := later.other u canonicalU
      rw [start_eq] at outside page_run aligned other
      rw [behind_eq] at outside run unchanged
      rw [next_eq] at page_run run unchanged
      rw [unchanged (by omega), other (by omega)]

theorem mapPages_returns {n : Nat} : ∀ {i : Nat} {m : Machine}, map % 0x1000 = 0 →
    bar.data.toNat % 0x1000 = 0 → map + (i + n) * 0x1000 ≤ 2 ^ 64 →
    bar.data.toNat + (i + n) * 0x1000 ≤ 2 ^ 64 → pager.Ready4Kb m →
    m.allocator.Provides (3 * n) → ∃ m', bar.mapPages pager map n i m = .ok true m' := by
  induction n with
  | zero => exact fun _ _ _ _ _ _ => ⟨_, rfl⟩
  | succ n ih =>
    intro i m aligned aligned' inU64 inU64' ready provides
    have stop : i + 1 + n = i + (n + 1) := by omega
    have takes : Pager.Takes4Kb (map + i * 0x1000)
        (BitVec.ofNat 64 (bar.data.toNat + i * 0x1000)) 0x13 := by
      refine ⟨by omega, ?_, by decide⟩
      apply BitVec.eq_of_toNat_eq
      rw [BitVec.toNat_and, BitVec.toNat_ofNat,
        show (0xFFF : BitVec 64).toNat = 2 ^ 12 - 1 from rfl, Nat.and_two_pow_sub_one_eq_mod]
      change _ = 0
      omega
    obtain ⟨page, m₁, returned, left⟩ := Pager.page4Kb_returns ready takes provides
    obtain ⟨-, ready₁⟩ := Pager.page4Kb_ready ready (by decide) returned
    obtain ⟨m', rest⟩ := ih (i := i + 1) aligned aligned' (stop ▸ inU64) (stop ▸ inU64') ready₁ left
    have mapped : mapsPage pager (map + i * 0x1000) (bar.data.toNat + i * 0x1000) m =
        .ok true m₁ := by
      simp only [mapsPage, returned]
    have room : ¬(2 ^ 64 ≤ map + i * 0x1000 ∨ 2 ^ 64 ≤ bar.data.toNat + i * 0x1000) := by omega
    refine ⟨m', ?_⟩
    rw [mapPages, if_neg room]
    simp only [bind, EStateM.bind, mapped]
    exact rest

private theorem mapToVirtual_memory (memory : bar.barType = .memory) :
    bar.mapToVirtual pager map = bar.mapPages pager map (bar.length.toNat / 0x1000) 0 :=
  if_pos memory

/-- A BAR of whole pages is mapped as a whole where there are addresses for it. -/
theorem mapsAll_mapToVirtual {address size virt : Nat} (memory : bar.barType = .memory)
    (data : bar.data.toNat = address) (length : bar.length.toNat = size)
    (pages : size % 0x1000 = 0) (inMemory : address + size ≤ 2 ^ 52)
    (canonical : ∀ j < size, Canonical (virt + j)) :
    MapsAll (fun pager => bar.mapToVirtual pager virt) virt address size := by
  intro pager m m' ready mapped j inside
  change bar.mapToVirtual pager virt m = .ok true m' at mapped
  rw [mapToVirtual_memory memory, length] at mapped
  have whole : (0 + size / 0x1000) * 0x1000 = size := by omega
  have below : bar.data.toNat + (0 + size / 0x1000) * 0x1000 ≤ 2 ^ 52 :=
    (congrArg₂ (· + ·) data whole).trans_le inMemory
  have everywhere : ∀ j < (0 + size / 0x1000) * 0x1000, Canonical (virt + j) := by
    rwa [whole]
  have first : 0 * 0x1000 ≤ j := Nat.zero_mul 0x1000 ▸ Nat.zero_le j
  obtain ⟨t, found, value⟩ := (mapPages_maps everywhere below ready mapped).bytes j first
    (by rwa [whole])
  exact ⟨canonical j inside, t, found, data ▸ value⟩

theorem mapsAll_map {address size : Nat} (memory : bar.barType = .memory)
    (data : bar.data.toNat = address) (length : bar.length.toNat = size)
    (pages : size % 0x1000 = 0) (below : address + size ≤ 2 ^ 47) :
    MapsAll bar.map address address size := by
  have inMemory : address + size ≤ 2 ^ 52 := Nat.le_trans below (by decide)
  have canonical : ∀ j < size, Canonical (address + j) := fun j inside => Or.inl (by omega)
  intro pager m m' ready mapped
  rw [map, data] at mapped
  exact mapsAll_mapToVirtual memory data length pages inMemory canonical pager m m' ready mapped

end PciBar

/-! ### When a BAR is found and mapped -/

section

variable {base address pciIdent : Nat} {pciDevices : List Nat} {index : PciBarIndex}
  {registers : ConfigurationRegisters} {bar : MemoryBar}

private theorem getBar_memoryBar (listed : pciIdent ∈ pciDevices)
    (page : PciBus.pciBase base pciDevices pciIdent = some address)
    (shows : Shows registers (address + index.offset) (some bar)) :
    PciBus.getBar base pciDevices pciIdent index registers =
      (bar.foundLength).elim (.error .panic registers) fun length =>
        .ok (some ⟨.memory, PciBus.barData registers (address + index.offset), length⟩)
          registers := by
  have memory : (registers (address + index.offset)).value &&& 1 = 0 := by
    rw [shows.1]
    exact bar.value_memory
  rw [PciBus.getBar_run listed page memory, shows.1]
  change (some <$> PciBus.sized _ (bar.low.write 0xFFFFFFFF).value) registers = _
  unfold PciBus.sized
  cases found : PciBus.barLength (bar.low.write 0xFFFFFFFF).value with
  | none =>
    rw [MemoryBar.foundLength, found]
    rfl
  | some length =>
    rw [MemoryBar.foundLength, found]
    rfl

theorem found_of_getBar (listed : pciIdent ∈ pciDevices)
    (page : PciBus.pciBase base pciDevices pciIdent = some address)
    (shows : Shows registers (address + index.offset) (some bar)) {found : PciBar}
    (ran : PciBus.getBar base pciDevices pciIdent index registers = .ok (some found) registers) :
    found.barType = .memory ∧ bar.foundLength = some found.length := by
  rw [getBar_memoryBar listed page shows] at ran
  cases length : bar.foundLength with
  | none =>
    rw [length] at ran
    cases ran
  | some length' =>
    rw [length] at ran
    cases ran
    exact ⟨rfl, rfl⟩

/-- The length of a prefetchable BAR is not its size. -/
theorem not_findsBar_prefetchable (listed : pciIdent ∈ pciDevices)
    (page : PciBus.pciBase base pciDevices pciIdent = some address)
    (shows : Shows registers (address + index.offset) (some bar))
    (prefetchable : bar.prefetchable = true) {start : Nat} :
    ¬FindsBar base pciDevices pciIdent index registers start bar.size := by
  rintro ⟨found, ran, -, length, -⟩
  obtain ⟨-, foundLength⟩ := found_of_getBar listed page shows ran
  exact bar.foundLength_prefetchable prefetchable foundLength length

/-- Less than a page is not mapped. -/
theorem page_of_mapsAll {found : PciBar} {start size : Nat} (memory : found.barType = .memory)
    (length : found.length.toNat = size) (some_bytes : 0 < size)
    (all : MapsAll found.map start start size) : 0x1000 ≤ size := by
  apply Nat.le_of_not_lt
  intro small
  have nothing : found.map Pager.plainPager wideMachine = .ok true wideMachine := by
    rw [PciBar.map, PciBar.mapToVirtual_memory memory, length, Nat.div_eq_of_lt small]
    rfl
  obtain ⟨_, t, mapped, -⟩ := all _ _ _ wideMachine_ready nothing 0 some_bytes
  have fresh : Pager.plainPager.Fresh wideMachine.memory := Pager.plainFresh
  rw [fresh.walk] at mapped
  cases mapped

/-- An address that the processor does not take is not mapped, although the loop succeeds. -/
theorem canonical_of_mapsAll {found : PciBar} {size : Nat} (memory : found.barType = .memory)
    (length : found.length.toNat = size) (pages : size % 0x1000 = 0)
    (aligned : found.data.toNat % 0x1000 = 0) (some_bytes : 0 < size)
    (inU64 : found.data.toNat + size ≤ 2 ^ 64)
    (all : MapsAll found.map found.data.toNat found.data.toNat size) :
    found.data.toNat < 2 ^ 47 := by
  have inU32 := found.length.isLt
  have whole : (0 + size / 0x1000) * 0x1000 = size := by omega
  have provides : wideAllocator.Provides (3 * (size / 0x1000)) :=
    wideAllocator_provides (by omega)
  obtain ⟨m', ran⟩ := PciBar.mapPages_returns (i := 0) aligned aligned (by rwa [whole])
    (by rwa [whole]) wideMachine_ready provides
  have mapped : found.map Pager.plainPager wideMachine = .ok true m' := by
    rw [PciBar.map, PciBar.mapToVirtual_memory memory, length]
    exact ran
  obtain ⟨canonical, t, translated, value⟩ := all _ _ _ wideMachine_ready mapped 0 some_bytes
  have small := physical_lt_of_translation translated
  rw [value] at small
  unfold Canonical at canonical
  omega

/-- The increment panics where the register keeps nothing of the write. -/
theorem not_findsBar_unimplemented {start size : Nat} (listed : pciIdent ∈ pciDevices)
    (page : PciBus.pciBase base pciDevices pciIdent = some address)
    (shown : registers (address + index.offset) = .unimplemented) :
    ¬FindsBar base pciDevices pciIdent index registers start size := by
  rintro ⟨found, ran, -⟩
  have memory : (registers (address + index.offset)).value &&& 1 = 0 := by
    rw [shown]
    rfl
  have panics : PciBus.barLength
      (ConfigurationRegister.unimplemented.write 0xFFFFFFFF).value = none := by decide
  rw [PciBus.getBar_run listed page memory, shown] at ran
  simp only [Functor.map, EStateM.map, PciBus.sized, panics] at ran
  cases ran

theorem MemoryBar.pages (bar : MemoryBar) (whole : 0x1000 ≤ bar.size) :
    bar.size % 0x1000 = 0 ∧ bar.address % 0x1000 = 0 := by
  have page : 2 ^ 12 ≤ 2 ^ bar.exponent := whole
  have exponent : 12 ≤ bar.exponent := (Nat.pow_le_pow_iff_right (by decide)).mp page
  have size : 2 ^ 12 ∣ bar.size := Nat.pow_dvd_pow 2 exponent
  have address : 2 ^ 12 ∣ bar.address := size.trans bar.aligned
  omega

private theorem MemoryBar.end_le_u64 (bar : MemoryBar) : bar.address + bar.size ≤ 2 ^ 64 := by
  have inside := bar.inside
  change bar.address + 2 ^ bar.exponent ≤ 2 ^ 64
  split at inside
  next => exact inside
  next => exact Nat.le_trans inside (by decide)

/-- An aligned BAR of up to 4 GiB that starts below the end of the addresses ends there. -/
theorem MemoryBar.end_le (bar : MemoryBar) (inU32 : bar.size < 2 ^ 32)
    (start : bar.address < 2 ^ 47) :
    bar.address + bar.size ≤ 2 ^ 47 := by
  have small : 2 ^ bar.exponent < 2 ^ 32 := inU32
  have exponent : bar.exponent < 32 := (Nat.pow_lt_pow_iff_right (by decide)).mp small
  obtain ⟨k, multiple⟩ := bar.aligned
  have split : 2 ^ 47 = 2 ^ bar.exponent * 2 ^ (47 - bar.exponent) := by
    rw [← Nat.pow_add, Nat.add_sub_cancel' (by omega)]
  rw [multiple, split] at start ⊢
  have before : k < 2 ^ (47 - bar.exponent) := Nat.lt_of_mul_lt_mul_left start
  exact Nat.mul_le_mul_left (2 ^ bar.exponent) before

/-- A BAR is found and mapped as a whole where it is there, is not prefetchable, has from 4 KiB to
2 GiB and lies where the processor has addresses for it. -/
theorem findsBar_iff {bar : Option MemoryBar} (listed : pciIdent ∈ pciDevices)
    (page : PciBus.pciBase base pciDevices pciIdent = some address)
    (shows : Shows registers (address + index.offset) bar) :
    FindsBar base pciDevices pciIdent index registers (addressOfBar bar) (sizeOfBar bar) ↔
      ∃ b, bar = some b ∧ b.Suits := by
  cases bar with
  | none =>
    constructor
    · exact fun finds => absurd finds (not_findsBar_unimplemented listed page shows)
    · rintro ⟨_, missing, -⟩
      cases missing
  | some bar =>
    have data := bar.toNat_barData shows
    have some_bytes : 0 < bar.size := Nat.two_pow_pos _
    constructor
    · intro finds
      have plain : bar.prefetchable = false := by
        apply Bool.eq_false_iff.mpr
        exact fun prefetchable => not_findsBar_prefetchable listed page shows prefetchable finds
      obtain ⟨found, ran, address_eq, length, all, -⟩ := finds
      change found.data.toNat = bar.address at address_eq
      change found.length.toNat = bar.size at length
      change MapsAll found.map bar.address bar.address bar.size at all
      obtain ⟨memory, foundLength⟩ := found_of_getBar listed page shows ran
      have inU32 : bar.size < 2 ^ 32 := by
        by_contra large
        rw [bar.foundLength_large plain large] at foundLength
        cases foundLength
      have whole : 0x1000 ≤ bar.size := page_of_mapsAll memory length some_bytes all
      obtain ⟨pages, aligned⟩ := bar.pages whole
      have inU64 := bar.end_le_u64
      rw [← address_eq] at all aligned inU64
      have start := canonical_of_mapsAll memory length pages aligned some_bytes inU64 all
      rw [address_eq] at start
      exact ⟨bar, rfl, plain, whole, inU32, bar.end_le inU32 start⟩
    · rintro ⟨b, same, suits⟩
      cases same
      have length := bar.foundLength_plain suits.prefetchable suits.inU32
      have ran := getBar_memoryBar listed page shows
      rw [length] at ran
      have size : (BitVec.ofNat 32 bar.size).toNat = bar.size := by
        rw [BitVec.toNat_ofNat, Nat.mod_eq_of_lt suits.inU32]
      have below := suits.canonical
      have inMemory : bar.address + bar.size ≤ 2 ^ 52 := Nat.le_trans below (by decide)
      obtain ⟨pages, -⟩ := bar.pages suits.page
      refine ⟨_, ran, data, size, ?_, fun virt canonical => ?_⟩
      · exact PciBar.mapsAll_map rfl data size pages below
      · exact PciBar.mapsAll_mapToVirtual rfl data size pages inMemory canonical

end

/-- The registers of one BAR at `0x10`. -/
def registersOf (bar : MemoryBar) : ConfigurationRegisters :=
  Function.update (fun _ => .unimplemented) 0xB0000010 bar.low

private theorem shows_registersOf (bar : MemoryBar) (narrow : bar.wide = false) :
    Shows (registersOf bar) (0xB0000000 + PciBarIndex.index0.offset) (some bar) := by
  refine ⟨Function.update_self .., fun wide => ?_⟩
  rw [narrow] at wide
  cases wide

/-- The registers of a controller. -/
def controllerBar : MemoryBar where
  wide := false
  prefetchable := false
  exponent := 14
  address := 0xFEB00000
  least := by decide
  aligned := by decide
  inside := by decide

theorem findsBar_iff_controller :
    FindsBar 0xB0000000 [0] 0 .index0 (registersOf controllerBar) 0xFEB00000 0x4000 ↔
      ∃ b, some controllerBar = some b ∧ b.Suits :=
  findsBar_iff (List.mem_singleton_self 0) (by decide) (shows_registersOf controllerBar rfl)

/-- The memory of a display adapter. -/
def displayBar : MemoryBar where
  wide := false
  prefetchable := true
  exponent := 24
  address := 0xFD000000
  least := by decide
  aligned := by decide
  inside := by decide

theorem not_findsBar_display :
    ¬FindsBar 0xB0000000 [0] 0 .index0 (registersOf displayBar) 0xFD000000 0x1000000 :=
  @not_findsBar_prefetchable 0xB0000000 0xB0000000 0 [0] .index0 _ displayBar
    (List.mem_singleton_self 0) (by decide) (shows_registersOf displayBar rfl) rfl _

end EmkKernel
