import EmkKernel.Paging.Release
import EmkKernel.Utils.Reallocate

/-!
# Ports of a SATA controller

`SataController::initialize_ports`: a port gets a page for its command list and one for the
structures it receives. A port without a disk gives both back, but its registers keep them.
-/

namespace EmkKernel

open EStateM

/-- `(data & !(1 << bit)) | (val as u32) << bit`. -/
def assignBit (data : BitVec 32) (bit : Nat) (val : Bool) : BitVec 32 :=
  (data &&& ~~~(1#32 <<< bit)) ||| (BitVec.ofNat 32 val.toNat <<< bit)

/-- The registers of a port that the driver writes. -/
structure SataPort where
  clb : BitVec 32
  clbu : BitVec 32
  fb : BitVec 32
  fbu : BitVec 32
  cmd : BitVec 32
  sctl : BitVec 32

namespace SataPort

variable (self : SataPort)

def setStart (val : Bool) : SataPort := { self with cmd := assignBit self.cmd 0 val }

def setFisReceiveEnable (val : Bool) : SataPort := { self with cmd := assignBit self.cmd 4 val }

def setPortMultiplierAttached (val : Bool) : SataPort :=
  { self with cmd := assignBit self.cmd 17 val }

/-- The mask leaves three of the four bits. -/
def setSpeedAllowed (val : BitVec 8) : SataPort :=
  { self with sctl := (self.sctl &&& ~~~(4#32 <<< 4)) ||| (val.setWidth 32 <<< 4) }

/-- The addresses of both structures, in halves. -/
def setStructures (commandListBase fisBaseAddress : BitVec 64) : SataPort :=
  { self with
    clb := (commandListBase &&& 0xFFFFFFFF).setWidth 32
    clbu := (commandListBase >>> 32).setWidth 32
    fb := (fisBaseAddress &&& 0xFFFFFFFF).setWidth 32
    fbu := (fisBaseAddress >>> 32).setWidth 32 }

/-- The address that the device reads out of both halves. -/
def commandList : BitVec 64 := self.clbu ++ self.clb

def receivedFis : BitVec 64 := self.fbu ++ self.fb

end SataPort

/-- The registers of the controller, and the signature each port reports. -/
structure Abar where
  cap : BitVec 32
  pi : BitVec 32
  signature : Nat → BitVec 32
  port : Nat → SataPort

namespace Abar

def portMultiplierSignature : BitVec 32 := 0x96690101
def diskSignature : BitVec 32 := 0x00000101

variable (self : Abar)

def supportsPortMultiplier : Bool := self.cap.getLsbD 17

def setPort (i : Nat) (port : SataPort) : Abar :=
  { self with port := Function.update self.port i port }

/-- The body of the loop for a port that is implemented. `speed` is what was read before the
controller was reset. -/
def initializePort (speed : BitVec 8) (i : Nat) : PagerM Abar := do
  let commandListBase ← unwrapResult allocZeroPage
  let fisBaseAddress ← unwrapResult allocZeroPage
  let port := (((self.port i).setStructures commandListBase fisBaseAddress).setSpeedAllowed
    speed).setFisReceiveEnable true
  let sig := self.signature i
  if sig ≠ portMultiplierSignature ∧ sig ≠ diskSignature then do
    unwrapResult (freeBlock ⟨fisBaseAddress.toNat, 0x1000⟩)
    unwrapResult (freeBlock ⟨commandListBase.toNat, 0x1000⟩)
    pure (self.setPort i port)
  else
    let port := if sig = portMultiplierSignature ∧ self.supportsPortMultiplier then
      port.setPortMultiplierAttached true else port
    pure (self.setPort i (port.setStart true))

/-- `ports_implemented & (1 << i) != 0`. -/
def implements (i : Nat) : Bool := self.pi.getLsbD i

def initializePorts (speeds : Nat → BitVec 8) : PagerM Abar :=
  (List.range 31).foldlM (fun abar i =>
    if abar.implements i then abar.initializePort (speeds i) i else pure abar) self

/-! ### What the ports should be afterwards -/

/-- A device is attached that the driver knows. -/
def Accepts (i : Nat) : Prop :=
  self.signature i = portMultiplierSignature ∨ self.signature i = diskSignature

instance (i : Nat) : Decidable (self.Accepts i) := inferInstanceAs (Decidable (_ ∨ _))

/-- The port is implemented and has a device. -/
def Starts (i : Nat) : Prop := self.implements i = true ∧ self.Accepts i

instance (i : Nat) : Decidable (self.Starts i) := inferInstanceAs (Decidable (_ ∧ _))

/-- The ports of a list that are started. -/
def started (ports : List Nat) : Nat := ports.countP fun i => self.Starts i

/-- There are two pages for every port that is implemented, on top of those the ports before it
keep. -/
def Enough (ports : List Nat) (pages : Nat) : Prop :=
  ∀ before i after, ports = before ++ i :: after → self.implements i = true →
    2 * self.started before + 2 ≤ pages

/-- What of the command register is as before, but for some bits. -/
def SameBut (bits : List Nat) (old new : BitVec 32) : Prop :=
  ∀ j, j ∉ bits → new.getLsbD j = old.getLsbD j

/-- A port with a device runs on its structures. -/
structure Runs (old new : SataPort) (multiplier : Bool) : Prop where
  start : new.cmd.getLsbD 0 = true
  receive : new.cmd.getLsbD 4 = true
  multiplier : new.cmd.getLsbD 17 = (multiplier || old.cmd.getLsbD 17)
  others : SameBut [0, 4, 17] old.cmd new.cmd

/-- A port without a device receives, but is not started. -/
structure Waits (old new : SataPort) : Prop where
  receive : new.cmd.getLsbD 4 = true
  others : SameBut [4] old.cmd new.cmd

/-- The frames of the ports of a list that are started. -/
def Owned (ports : List Nat) (new : Abar) (f : BitVec 64) : Prop :=
  ∃ i ∈ ports, self.Starts i ∧ (f = (new.port i).commandList ∨ f = (new.port i).receivedFis)

/-- After the ports of a list: each that is started has two frames of zeros for itself, the
others hold none, and no frame in use was written to. -/
structure Initialized (start : Abar) (ports : List Nat) (used : BitVec 64 → Prop) (m : Machine)
    (new : Abar) (m' : Machine) : Prop where
  controller : new = { start with port := new.port }
  stocked : m'.allocator.Stocked fun f => used f ∨ start.Owned ports new f
  pages : m'.allocator.stock.card + 2 * start.started ports = m.allocator.stock.card
  lent : ∀ f, start.Owned ports new f → m'.allocator.Lent f ∧ ¬used f ∧ m'.memory f = fun _ => 0
  distinct : ∀ i ∈ ports, start.Starts i →
    (new.port i).commandList ≠ (new.port i).receivedFis ∧
    ∀ j ∈ ports, start.Starts j → i ≠ j → ∀ f,
      f = (new.port i).commandList ∨ f = (new.port i).receivedFis →
      f ≠ (new.port j).commandList ∧ f ≠ (new.port j).receivedFis
  kept : ∀ f, used f → m'.memory f = m.memory f
  runs : ∀ i ∈ ports, start.Starts i → Runs (start.port i) (new.port i)
    (start.signature i = portMultiplierSignature ∧ start.supportsPortMultiplier = true)
  waits : ∀ i ∈ ports, start.implements i = true → ¬start.Accepts i →
    Waits (start.port i) (new.port i)
  others : ∀ i, i ∉ ports ∨ start.implements i = false → new.port i = start.port i

end Abar

/-! ### Single pages -/

private theorem unwrapResult_yields {α : Type} {x : PagerM α} {m : Machine} {Q : α → Machine → Prop}
    {R : Stop → Machine → Prop} (yields : Yields x m Q R) :
    Yields (unwrapResult x) m Q fun s m' => s = .panic ∧ ∃ e, R e m' := by
  unfold Yields unwrapResult at *
  cases ran : x m with
  | ok a m' => simpa only [ran] using yields
  | error e m' =>
    rw [ran] at yields
    exact ⟨rfl, e, yields⟩

section Pages

variable {m m' : Machine} {used : BitVec 64 → Prop} {f g : BitVec 64}

/-- A page that nobody used is taken and filled with zeros. -/
structure Borrows (used : BitVec 64 → Prop) (m : Machine) (f : BitVec 64) (m' : Machine) :
    Prop where
  stocked : m'.allocator.Stocked fun g => used g ∨ g = f
  pages : m'.allocator.stock.card + 1 = m.allocator.stock.card
  lent : m'.allocator.Lent f
  unused : ¬used f
  memory : m'.memory = RadixTree.fill m.memory f fun _ => 0
  keeps : ∀ g, m.allocator.Lent g → m'.allocator.Lent g

private theorem takePage_yields (stocked : m.allocator.Stocked used) :
    Yields (unwrapResult allocZeroPage) m (Borrows used m)
      fun s _ => s = .panic ∧ m.allocator.stock.card = 0 := by
  refine (unwrapResult_yields (allocZeroPage_yields m)).mono ?_ ?_
  · rintro f m₁ ⟨mb, a, returned, rfl, rfl⟩
    obtain ⟨k, grants, same⟩ := stocked.grants returned
    obtain ⟨reached, clear⟩ := Allocator.mem_stock.mp grants.member
    rw [same]
    exact ⟨stocked.grant grants, grants.card, stocked.lent_of_grants grants,
      stocked.unused k reached clear, rfl, fun g => grants.lent⟩
  · rintro _ m₁ ⟨rfl, e, failed⟩
    rcases stocked.alloc_cases with ⟨empty, _⟩ | ⟨k, a, _, _, value⟩
    · exact ⟨rfl, Finset.card_eq_zero.mpr empty⟩
    · cases failed with
      | refused before stop after same refused =>
        subst same
        cases value.symm.trans refused
      | overflow no => exact no.elim

/-- A page is given back, and nobody uses it. -/
structure Repays (used : BitVec 64 → Prop) (m : Machine) (f : BitVec 64) (m' : Machine) :
    Prop where
  stocked : (∀ g, used g → g ≠ f) → m'.allocator.Stocked used
  pages : m'.allocator.stock.card = m.allocator.stock.card + 1
  memory : m'.memory = m.memory
  keeps : ∀ g, g ≠ f → m.allocator.Lent g → m'.allocator.Lent g

private theorem returnPage_yields (stocked : m.allocator.Stocked fun g => used g ∨ g = f)
    (lent : m.allocator.Lent f) :
    Yields (unwrapResult (freeBlock ⟨f.toNat, 0x1000⟩)) m (fun _ => Repays used m f)
      fun _ _ => False := by
  obtain ⟨k, a, same, regains, freed⟩ := lent.regains
  refine (unwrapResult_yields (freeBlock_yields m _)).mono ?_ ?_
  swap
  · rintro _ _ ⟨_, e, _, refused⟩
    cases freed.symm.trans refused
  rintro _ m₁ ⟨memory, returned⟩
  obtain rfl : a = m₁.allocator := congrArg Prod.snd (freed.symm.trans returned)
  refine ⟨fun others => stocked.regain regains fun g usedG => ⟨Or.inl usedG, ?_⟩, regains.card,
    memory, fun g other lentG => regains.lent lentG (same ▸ other)⟩
  rw [← same]
  exact others g usedG

end Pages

/-! ### Registers -/

section Registers

variable {data : BitVec 32} {bit : Nat}

private theorem getLsbD_assignBit_true (below : bit < 32) (j : Nat) :
    (assignBit data bit true).getLsbD j = (decide (j = bit) || data.getLsbD j) := by
  have one : (1#32 <<< bit).getLsbD j = decide (j = bit) := by
    rw [BitVec.getLsbD_shiftLeft, BitVec.getLsbD_one]
    by_cases same : j = bit
    · subst same
      simp [below]
    · by_cases less : j < bit
      · simp [same, less]
      · have positive : j - bit ≠ 0 := by omega
        simp [same, positive]
  have value : BitVec.ofNat 32 true.toNat = 1#32 := rfl
  rw [assignBit, value, BitVec.getLsbD_or, BitVec.getLsbD_and, BitVec.getLsbD_not, one]
  by_cases same : j = bit
  · simp [same, below]
  · by_cases inside : j < 32
    · simp [same, inside]
    · have outside : data.getLsbD j = false := BitVec.getLsbD_of_ge _ _ (by omega)
      simp [same, outside]

theorem append_halves (f : BitVec 64) :
    (f >>> 32).setWidth 32 ++ (f &&& 0xFFFFFFFF).setWidth 32 = f := by
  have mask : f.toNat &&& 0xFFFFFFFF = f.toNat % 2 ^ 32 := Nat.and_two_pow_sub_one_eq_mod f.toNat 32
  have low : (f &&& 0xFFFFFFFF).toNat = f.toNat % 2 ^ 32 := by
    rw [BitVec.toNat_and]
    exact mask
  have bound := f.isLt
  apply BitVec.eq_of_toNat_eq
  rw [BitVec.toNat_append, ← Nat.shiftLeft_add_eq_or_of_lt (BitVec.isLt _), BitVec.toNat_setWidth,
    BitVec.toNat_setWidth, low, BitVec.toNat_ushiftRight, Nat.shiftRight_eq_div_pow,
    Nat.shiftLeft_eq]
  omega

theorem sameBut_assignBit (below : bit < 32) :
    Abar.SameBut [bit] data (assignBit data bit true) := by
  intro j other
  rw [getLsbD_assignBit_true below, decide_eq_false (by simpa using other), Bool.false_or]

private theorem assignBit_self (below : bit < 32) :
    (assignBit data bit true).getLsbD bit = true := by
  rw [getLsbD_assignBit_true below, decide_eq_true rfl, Bool.true_or]

end Registers

namespace SataPort

variable (port : SataPort) (f g : BitVec 64) (speed : BitVec 8)

/-- A port after its structures, its speed and its receiver were set. -/
def prepared : SataPort :=
  ((port.setStructures f g).setSpeedAllowed speed).setFisReceiveEnable true

private theorem commandList_prepared : (port.prepared f g speed).commandList = f := append_halves f

private theorem receivedFis_prepared : (port.prepared f g speed).receivedFis = g := append_halves g

private theorem waits_prepared : Abar.Waits port (port.prepared f g speed) :=
  ⟨assignBit_self (by decide), sameBut_assignBit (by decide)⟩

private theorem runs_prepared : Abar.Runs port ((port.prepared f g speed).setStart true) false where
  start := assignBit_self (by decide)
  receive := (sameBut_assignBit (by decide) 4 (by decide)).trans (assignBit_self (by decide))
  multiplier := by
    rw [Bool.false_or]
    exact (sameBut_assignBit (by decide) 17 (by decide)).trans
      (sameBut_assignBit (by decide) 17 (by decide))
  others j other := by
    simp only [List.mem_cons, List.not_mem_nil, or_false, not_or] at other
    exact (sameBut_assignBit (by decide) j (by simpa using other.1)).trans
      (sameBut_assignBit (by decide) j (by simpa using other.2.1))

private theorem runs_multiplier : Abar.Runs port
    (((port.prepared f g speed).setPortMultiplierAttached true).setStart true) true where
  start := assignBit_self (by decide)
  receive := (sameBut_assignBit (by decide) 4 (by decide)).trans
    ((sameBut_assignBit (by decide) 4 (by decide)).trans (assignBit_self (by decide)))
  multiplier := (sameBut_assignBit (by decide) 17 (by decide)).trans (assignBit_self (by decide))
  others j other := by
    simp only [List.mem_cons, List.not_mem_nil, or_false, not_or] at other
    exact (sameBut_assignBit (by decide) j (by simpa using other.1)).trans
      ((sameBut_assignBit (by decide) j (by simpa using other.2.2)).trans
        (sameBut_assignBit (by decide) j (by simpa using other.2.1)))

end SataPort

/-! ### Single ports -/

namespace Abar

variable {abar new : Abar} {m m' : Machine} {used : BitVec 64 → Prop} {i : Nat}

/-- What one port takes: both its pages if it is started, and none otherwise. -/
structure Prepares (abar : Abar) (i : Nat) (used : BitVec 64 → Prop) (m : Machine) (new : Abar)
    (m' : Machine) : Prop where
  enough : 2 ≤ m.allocator.stock.card
  controller : new = abar.setPort i (new.port i)
  stocked : m'.allocator.Stocked fun f => used f ∨ abar.Accepts i ∧
    (f = (new.port i).commandList ∨ f = (new.port i).receivedFis)
  pages : m'.allocator.stock.card + (if abar.Accepts i then 2 else 0) = m.allocator.stock.card
  lent : ∀ f, used f ∧ m.allocator.Lent f ∨ abar.Accepts i ∧
    (f = (new.port i).commandList ∨ f = (new.port i).receivedFis) → m'.allocator.Lent f
  fresh : ¬used (new.port i).commandList ∧ ¬used (new.port i).receivedFis ∧
    (new.port i).commandList ≠ (new.port i).receivedFis
  memory : m'.memory = RadixTree.fill (RadixTree.fill m.memory (new.port i).commandList fun _ => 0)
    (new.port i).receivedFis fun _ => 0
  runs : abar.Accepts i → Runs (abar.port i) (new.port i)
    (abar.signature i = portMultiplierSignature ∧ abar.supportsPortMultiplier = true)
  waits : ¬abar.Accepts i → Waits (abar.port i) (new.port i)

theorem Prepares.of_port {port : SataPort} {f g : BitVec 64} (list : port.commandList = f)
    (fis : port.receivedFis = g) (enough : 2 ≤ m.allocator.stock.card)
    (stocked : m'.allocator.Stocked fun h => used h ∨ abar.Accepts i ∧ (h = f ∨ h = g))
    (pages : m'.allocator.stock.card + (if abar.Accepts i then 2 else 0) = m.allocator.stock.card)
    (lent : ∀ h, used h ∧ m.allocator.Lent h ∨ abar.Accepts i ∧ (h = f ∨ h = g) →
      m'.allocator.Lent h)
    (fresh : ¬used f ∧ ¬used g ∧ f ≠ g)
    (memory : m'.memory = RadixTree.fill (RadixTree.fill m.memory f fun _ => 0) g fun _ => 0)
    (runs : abar.Accepts i → Runs (abar.port i) port
      (abar.signature i = portMultiplierSignature ∧ abar.supportsPortMultiplier = true))
    (waits : ¬abar.Accepts i → Waits (abar.port i) port) :
    abar.Prepares i used m (abar.setPort i port) m' := by
  subst list fis
  have here : (abar.setPort i port).port i = port := Function.update_self ..
  refine ⟨enough, by rw [here], ?_, pages, ?_, ?_, ?_, ?_, ?_⟩ <;> rwa [here]

private theorem initializePort_yields (stocked : m.allocator.Stocked used) (abar : Abar)
    (speed : BitVec 8) (i : Nat) :
    Yields (abar.initializePort speed i) m (fun new m' => abar.Prepares i used m new m')
      fun s _ => s = .panic ∧ m.allocator.stock.card < 2 := by
  rw [initializePort, yields_bind]
  refine (takePage_yields stocked).mono (fun f m₁ first => ?_) fun _ _ none => ⟨none.1, by omega⟩
  rw [yields_bind]
  refine (takePage_yields first.stocked).mono (fun g m₂ second => ?_) fun _ _ none => ?_
  swap
  · have pages := first.pages
    exact ⟨none.1, by omega⟩
  have enough : 2 ≤ m.allocator.stock.card := by
    have := first.pages
    have := second.pages
    omega
  have unusedG : ¬used g ∧ g ≠ f := not_or.mp second.unused
  rw [yields_ite]
  split
  next unknown =>
    have refused : ¬abar.Accepts i := not_or.mpr unknown
    rw [yields_bind]
    refine (returnPage_yields second.stocked second.lent).mono
      (fun _ m₃ third => ?_) fun _ _ no => no.elim
    have stocked₃ := third.stocked fun h old => by
      rintro rfl
      exact second.unused old
    rw [yields_bind]
    refine (returnPage_yields stocked₃
      (third.keeps f unusedG.2.symm (second.keeps f first.lent))).mono
      (fun _ m₄ fourth => ?_) fun _ _ no => no.elim
    rw [yields_pure]
    change abar.Prepares i used m (abar.setPort i ((abar.port i).prepared f g speed)) m₄
    have fresh : ∀ h, used h → h ≠ f := fun h old same => first.unused (same ▸ old)
    refine .of_port (SataPort.commandList_prepared (abar.port i) f g speed)
      (SataPort.receivedFis_prepared (abar.port i) f g speed) enough
      ?_ ?_ ?_ ⟨first.unused, unusedG.1, unusedG.2.symm⟩ ?_
      (fun accepted => absurd accepted refused)
      fun _ => SataPort.waits_prepared ..
    · exact (fourth.stocked fresh).mono fun h taken => by simpa [refused] using taken
    · have := first.pages
      have := second.pages
      have := third.pages
      have := fourth.pages
      rw [if_neg refused]
      omega
    · rintro h (⟨old, lent⟩ | ⟨accepted, _⟩)
      · refine fourth.keeps h (fresh h old) (third.keeps h ?_ (second.keeps h (first.keeps h lent)))
        rintro rfl
        exact unusedG.1 old
      · exact absurd accepted refused
    · rw [fourth.memory, third.memory, second.memory, first.memory]
  next known =>
    have accepted : abar.Accepts i := by
      by_contra refused
      exact known (not_or.mp refused)
    rw [yields_pure]
    have prepares (port : SataPort) (list : port.commandList = f) (fis : port.receivedFis = g)
        (runs : Runs (abar.port i) port
          (abar.signature i = portMultiplierSignature ∧ abar.supportsPortMultiplier = true)) :
        abar.Prepares i used m (abar.setPort i port) m₂ := by
      refine .of_port list fis enough ?_ ?_ ?_ ⟨first.unused, unusedG.1, unusedG.2.symm⟩ ?_
        (fun _ => runs) fun refused => absurd accepted refused
      · exact second.stocked.mono fun h taken => by
          rcases taken with old | ⟨_, rfl | rfl⟩
          · exact Or.inl (Or.inl old)
          · exact Or.inl (Or.inr rfl)
          · exact Or.inr rfl
      · have := first.pages
        have := second.pages
        rw [if_pos accepted]
        omega
      · rintro h (⟨_, lent⟩ | ⟨_, rfl | rfl⟩)
        · exact second.keeps h (first.keeps h lent)
        · exact second.keeps h first.lent
        · exact second.lent
      · rw [second.memory, first.memory]
    split
    next both =>
      refine prepares ((((abar.port i).prepared f g speed).setPortMultiplierAttached true).setStart
        true) (SataPort.commandList_prepared (abar.port i) f g speed)
        (SataPort.receivedFis_prepared (abar.port i) f g speed) ?_
      rw [decide_eq_true both]
      exact SataPort.runs_multiplier ..
    next alone =>
      refine prepares (((abar.port i).prepared f g speed).setStart true)
        (SataPort.commandList_prepared (abar.port i) f g speed)
        (SataPort.receivedFis_prepared (abar.port i) f g speed) ?_
      rw [decide_eq_false alone]
      exact SataPort.runs_prepared ..

/-! ### All ports -/

variable {self : Abar} {ports : List Nat}

theorem owned_append (same : ∀ j ∈ ports, (new.port j) = abar.port j) (f : BitVec 64) :
    self.Owned (ports ++ [i]) new f ↔ self.Owned ports abar f ∨ self.Starts i ∧
      (f = (new.port i).commandList ∨ f = (new.port i).receivedFis) := by
  constructor
  · rintro ⟨j, member, starts, holds⟩
    rcases List.mem_append.mp member with before | last
    · exact Or.inl ⟨j, before, starts, same j before ▸ holds⟩
    · obtain rfl := List.mem_singleton.mp last
      exact Or.inr ⟨starts, holds⟩
  · rintro (⟨j, before, starts, holds⟩ | ⟨starts, holds⟩)
    · exact ⟨j, List.mem_append_left _ before, starts, (same j before).symm ▸ holds⟩
    · exact ⟨i, List.mem_append_right _ (List.mem_singleton_self i), starts, holds⟩

private theorem started_append (self : Abar) (ports : List Nat) (i : Nat) :
    self.started (ports ++ [i]) = self.started ports + if self.Starts i then 1 else 0 := by
  rw [started, started, List.countP_append, List.countP_singleton]
  simp only [decide_eq_true_eq]

/-- A port that is not implemented is passed over. -/
theorem Initialized.skip (init : self.Initialized ports used m abar m')
    (missing : self.implements i = false) : self.Initialized (ports ++ [i]) used m abar m' := by
  have stays : ¬self.Starts i := fun starts => Bool.false_ne_true (missing.symm.trans starts.1)
  have owned (f : BitVec 64) : self.Owned (ports ++ [i]) abar f ↔ self.Owned ports abar f :=
    (owned_append (fun _ _ => rfl) f).trans (or_iff_left fun last => stays last.1)
  have older (j : Nat) (member : j ∈ ports ++ [i]) (implemented : self.implements j = true) :
      j ∈ ports := by
    refine (List.mem_append.mp member).resolve_right fun last => ?_
    rw [List.mem_singleton.mp last, missing] at implemented
    cases implemented
  refine ⟨init.controller, ?_, ?_, fun f held => init.lent f ((owned f).mp held), ?_, init.kept, ?_,
    ?_, ?_⟩
  · exact init.stocked.mono fun f taken => taken.imp_right (owned f).mp
  · rw [started_append, if_neg stays]
    exact init.pages
  · intro j member starts
    obtain ⟨halves, others⟩ := init.distinct j (older j member starts.1) starts
    exact ⟨halves, fun k memberK startsK => others k (older k memberK startsK.1) startsK⟩
  · exact fun j member starts => init.runs j (older j member starts.1) starts
  · exact fun j member implemented => init.waits j (older j member implemented) implemented
  · rintro j (outside | none)
    · exact init.others j (Or.inl fun member => outside (List.mem_append_left _ member))
    · exact init.others j (Or.inr none)

theorem Prepares.elsewhere (prepares : abar.Prepares i used m new m') {j : Nat} (other : j ≠ i) :
    new.port j = abar.port j := by
  rw [prepares.controller]
  exact Function.update_of_ne other ..

/-- The two frames of the port are filled with zeros. -/
theorem Prepares.filled (prepares : abar.Prepares i used m new m') (f : BitVec 64) :
    m'.memory f = if f = (new.port i).commandList ∨ f = (new.port i).receivedFis then fun _ => 0
      else m.memory f := by
  funext j
  rw [prepares.memory, RadixTree.fill_apply, RadixTree.fill_apply]
  by_cases second : f = (new.port i).receivedFis
  · rw [if_pos second, if_pos (Or.inr second)]
  · by_cases first : f = (new.port i).commandList
    · rw [if_neg second, if_pos first, if_pos (Or.inl first)]
    · rw [if_neg second, if_neg first, if_neg (not_or.mpr ⟨first, second⟩)]

private theorem Prepares.not_used (prepares : abar.Prepares i used m new m') {f : BitVec 64}
    (mine : f = (new.port i).commandList ∨ f = (new.port i).receivedFis) : ¬used f := by
  rcases mine with rfl | rfl
  · exact prepares.fresh.1
  · exact prepares.fresh.2.1

theorem Prepares.outside (prepares : abar.Prepares i used m new m') {f : BitVec 64}
    (taken : used f) : m'.memory f = m.memory f := by
  rw [prepares.filled, if_neg fun mine => prepares.not_used mine taken]

section Step

variable {m₁ : Machine} (init : self.Initialized ports used m abar m₁) (unvisited : i ∉ ports)
  (implemented : self.implements i = true)
  (prepares : abar.Prepares i (fun f => used f ∨ self.Owned ports abar f) m₁ new m')

theorem Initialized.accepts_iff (init : self.Initialized ports used m abar m₁) :
    abar.Accepts i ↔ self.Accepts i := by
  rw [init.controller]
  rfl

include init implemented prepares in
theorem Initialized.pages_step :
    m'.allocator.stock.card + 2 * self.started (ports ++ [i]) = m.allocator.stock.card := by
  have starts : self.Starts i ↔ abar.Accepts i :=
    (and_iff_right implemented).trans init.accepts_iff.symm
  have pages := init.pages
  have taken := prepares.pages
  rw [started_append, if_congr starts rfl rfl]
  split at taken
  next accepted =>
    rw [if_pos accepted]
    omega
  next refused =>
    rw [if_neg refused]
    omega

include unvisited prepares

theorem Prepares.port_before {j : Nat} (member : j ∈ ports) : new.port j = abar.port j :=
  prepares.elsewhere fun same => unvisited (same ▸ member)

private theorem Prepares.owned_append (f : BitVec 64) : self.Owned (ports ++ [i]) new f ↔
    self.Owned ports abar f ∨
      self.Starts i ∧ (f = (new.port i).commandList ∨ f = (new.port i).receivedFis) :=
  Abar.owned_append (fun _ member => prepares.port_before unvisited member) f

private theorem Prepares.owned_before {j : Nat} (member : j ∈ ports) (starts : self.Starts j)
    {f : BitVec 64} (mine : f = (new.port j).commandList ∨ f = (new.port j).receivedFis) :
    self.Owned ports abar f :=
  ⟨j, member, starts, by rwa [← prepares.port_before unvisited member]⟩

include init

private theorem Initialized.stocked_step :
    m'.allocator.Stocked fun f => used f ∨ self.Owned (ports ++ [i]) new f := by
  refine prepares.stocked.mono fun f taken => ?_
  rcases taken with old | held
  · exact Or.inl (Or.inl old)
  · rcases (prepares.owned_append unvisited f).mp held with before | ⟨⟨_, accepted⟩, mine⟩
    · exact Or.inl (Or.inr before)
    · exact Or.inr ⟨init.accepts_iff.mpr accepted, mine⟩

private theorem Initialized.lent_step {f : BitVec 64} (held : self.Owned (ports ++ [i]) new f) :
    m'.allocator.Lent f ∧ ¬used f ∧ m'.memory f = fun _ => 0 := by
  rcases (prepares.owned_append unvisited f).mp held with before | ⟨⟨_, accepted⟩, mine⟩
  · obtain ⟨lent, fresh, zero⟩ := init.lent f before
    exact ⟨prepares.lent f (Or.inl ⟨Or.inr before, lent⟩), fresh,
      (prepares.outside (Or.inr before)).trans zero⟩
  · refine ⟨prepares.lent f (Or.inr ⟨init.accepts_iff.mpr accepted, mine⟩),
      fun old => prepares.not_used mine (Or.inl old), ?_⟩
    rw [prepares.filled, if_pos mine]

theorem Initialized.distinct_step {j : Nat} (member : j ∈ ports ++ [i])
    (starts : self.Starts j) : (new.port j).commandList ≠ (new.port j).receivedFis ∧
      ∀ k ∈ ports ++ [i], self.Starts k → j ≠ k → ∀ f,
        f = (new.port j).commandList ∨ f = (new.port j).receivedFis →
          f ≠ (new.port k).commandList ∧ f ≠ (new.port k).receivedFis := by
  rcases List.mem_append.mp member with before | last
  · refine ⟨?_, fun k memberK startsK other f mine => ?_⟩
    · rw [prepares.port_before unvisited before]
      exact (init.distinct j before starts).1
    · rcases List.mem_append.mp memberK with beforeK | last
      · rw [prepares.port_before unvisited before] at mine
        rw [prepares.port_before unvisited beforeK]
        exact (init.distinct j before starts).2 k beforeK startsK other f mine
      · obtain rfl := List.mem_singleton.mp last
        have taken := prepares.owned_before unvisited before starts mine
        exact ⟨fun same => prepares.not_used (Or.inl same) (Or.inr taken),
          fun same => prepares.not_used (Or.inr same) (Or.inr taken)⟩
  · obtain rfl := List.mem_singleton.mp last
    refine ⟨prepares.fresh.2.2, fun k memberK startsK other f mine => ?_⟩
    rcases List.mem_append.mp memberK with beforeK | last
    · have taken {f : BitVec 64} := prepares.owned_before unvisited beforeK startsK (f := f)
      exact ⟨fun same => prepares.not_used mine (Or.inr (taken (Or.inl same))),
        fun same => prepares.not_used mine (Or.inr (taken (Or.inr same)))⟩
    · exact absurd (List.mem_singleton.mp last).symm other

include implemented in
/-- A port more. -/
theorem Initialized.step : self.Initialized (ports ++ [i]) used m new m' := by
  have untouched : abar.port i = self.port i := init.others i (Or.inl unvisited)
  constructor
  case controller =>
    rw [prepares.controller, init.controller]
    rfl
  case stocked => exact init.stocked_step unvisited prepares
  case pages => exact init.pages_step implemented prepares
  case lent => exact fun f held => init.lent_step unvisited prepares held
  case distinct =>
    exact fun j member starts => init.distinct_step unvisited prepares member starts
  case kept =>
    exact fun f old => (prepares.outside (Or.inl old)).trans (init.kept f old)
  case runs =>
    intro j member starts
    rcases List.mem_append.mp member with older | last
    · rw [prepares.port_before unvisited older]
      exact init.runs j older starts
    · obtain rfl := List.mem_singleton.mp last
      have runs := prepares.runs (init.accepts_iff.mpr starts.2)
      rw [untouched] at runs
      rw [init.controller] at runs
      exact runs
  case waits =>
    intro j member implementedJ refused
    rcases List.mem_append.mp member with older | last
    · rw [prepares.port_before unvisited older]
      exact init.waits j older implementedJ refused
    · obtain rfl := List.mem_singleton.mp last
      rw [← untouched]
      exact prepares.waits fun accepted => refused (init.accepts_iff.mp accepted)
  case others =>
    rintro j none
    have other : j ≠ i := by
      rintro rfl
      rcases none with outside | missing
      · exact outside (List.mem_append_right _ (List.mem_singleton_self j))
      · exact Bool.false_ne_true (missing.symm.trans implemented)
    rw [prepares.elsewhere other]
    exact init.others j
      (none.imp_left fun outside member => outside (List.mem_append_left _ member))

end Step

private theorem enough_append (self : Abar) (ports : List Nat) (i pages : Nat) :
    self.Enough (ports ++ [i]) pages ↔ self.Enough ports pages ∧
      (self.implements i = true → 2 * self.started ports + 2 ≤ pages) := by
  constructor
  · intro enough
    refine ⟨fun before j after split => enough before j (after ++ [i]) ?_, enough ports i [] rfl⟩
    rw [split, List.append_assoc, List.cons_append]
  · rintro ⟨enough, last⟩ before j after split implemented
    rcases List.eq_nil_or_concat after with rfl | ⟨rest, k, rfl⟩
    · obtain ⟨rfl, same⟩ := List.append_inj' split rfl
      obtain rfl : i = j := List.singleton_inj.mp same
      exact last implemented
    · rw [List.concat_eq_append, ← List.cons_append, ← List.append_assoc] at split
      obtain ⟨rfl, _⟩ := List.append_inj' split rfl
      exact enough before j rest rfl implemented

private theorem initialized_nil (stocked : m.allocator.Stocked used) (self : Abar) :
    self.Initialized [] used m self m := by
  refine ⟨rfl, stocked.mono fun f taken => ?_, rfl, ?_, ?_, fun _ _ => rfl, ?_, ?_, fun _ _ => rfl⟩
  · exact taken.resolve_right fun ⟨i, member, _⟩ => absurd member List.not_mem_nil
  · exact fun f ⟨i, member, _⟩ => absurd member List.not_mem_nil
  all_goals exact fun i member => absurd member List.not_mem_nil

/-- The loop has come to the rest of the ports. -/
def Reaches (self : Abar) (used : BitVec 64 → Prop) (m : Machine) (rest : List Nat) (abar : Abar)
    (m' : Machine) : Prop :=
  ∃ done, List.range 31 = done ++ rest ∧ self.Initialized done used m abar m' ∧
    self.Enough done m.allocator.stock.card

/-- One round of the loop. -/
theorem Reaches.round {rest : List Nat} (reaches : self.Reaches used m (i :: rest) abar m')
    (speed : BitVec 8) :
    Yields (if abar.implements i then abar.initializePort speed i else pure abar) m'
      (self.Reaches used m rest)
      fun s _ => s = .panic ∧ ¬self.Enough (List.range 31) m.allocator.stock.card := by
  obtain ⟨done, all, init, enough⟩ := reaches
  have all' : List.range 31 = (done ++ [i]) ++ rest := by rw [all, List.append_assoc]; rfl
  have unvisited : i ∉ done := by
    have nodup : (done ++ i :: rest).Nodup := all ▸ List.nodup_range
    exact fun member => List.disjoint_of_nodup_append nodup member List.mem_cons_self
  have implements : abar.implements i = self.implements i := by rw [init.controller]; rfl
  have pages := init.pages
  rw [yields_ite, implements]
  split
  next implemented =>
    refine (initializePort_yields init.stocked abar speed i).mono
      (fun new m' prepares => ?_) fun _ _ short => ⟨short.1, fun every => ?_⟩
    · have two := prepares.enough
      exact ⟨done ++ [i], all', init.step unvisited implemented prepares,
        (enough_append self done i _).mpr ⟨enough, fun _ => by omega⟩⟩
    · have two := every done i rest all implemented
      have few := short.2
      omega
  next missing =>
    have missing : self.implements i = false := Bool.eq_false_iff.mpr missing
    refine ⟨done ++ [i], all', init.skip missing, (enough_append self done i _).mpr ⟨enough, ?_⟩⟩
    exact fun implemented => absurd (missing.symm.trans implemented) Bool.false_ne_true

private theorem initializePorts_yields (stocked : m.allocator.Stocked used) (self : Abar)
    (speeds : Nat → BitVec 8) :
    Yields (self.initializePorts speeds) m (self.Reaches used m [])
      fun s _ => s = .panic ∧ ¬self.Enough (List.range 31) m.allocator.stock.card := by
  refine yields_foldlM _ (self.Reaches used m) (fun i rest abar m' reaches =>
    reaches.round (speeds i)) ⟨[], rfl, initialized_nil stocked self, fun before i after none => ?_⟩
  exact absurd none.symm (List.append_ne_nil_of_right_ne_nil _ (List.cons_ne_nil i after))

/-- It is a matter of pages alone whether the ports are initialized: every port that is
implemented needs two when its turn comes, and one without a device gives them back. The last port
of the controller is never looked at. -/
theorem ports_initialized (stocked : m.allocator.Stocked used) (self : Abar)
    (speeds : Nat → BitVec 8) :
    (self.Enough (List.range 31) m.allocator.stock.card → ∃ new m',
      self.initializePorts speeds m = .ok new m' ∧
        self.Initialized (List.range 31) used m new m') ∧
    (¬self.Enough (List.range 31) m.allocator.stock.card → ∃ m',
      self.initializePorts speeds m = .error .panic m') := by
  have outcome := initializePorts_yields stocked self speeds
  unfold Yields at outcome
  cases ran : self.initializePorts speeds m with
  | ok new m' =>
    rw [ran] at outcome
    obtain ⟨done, all, init, enough⟩ := outcome
    rw [List.append_nil] at all
    subst all
    exact ⟨fun _ => ⟨new, m', rfl, init⟩, fun short => absurd enough short⟩
  | error s m' =>
    rw [ran] at outcome
    obtain ⟨rfl, short⟩ := outcome
    exact ⟨fun enough => absurd enough short, fun _ => ⟨m', rfl⟩⟩

section Samples

open Pager

/-- Three ports of which the first has a disk and the last a port multiplier. -/
def threePorts : Abar where
  cap := 1#32 <<< 17
  pi := 0b1011
  signature i := if i = 0 then diskSignature else if i = 3 then portMultiplierSignature else 0
  port _ := ⟨0, 0, 0, 0, 0, 0⟩

theorem ports_initialized_three : ∃ new m',
    threePorts.initializePorts (fun _ => 3) lentMachine = .ok new m' ∧
      threePorts.Initialized (List.range 31) (· = lentPager.cr3) lentMachine new m' := by
  have two : threePorts.started (List.range 31) = 2 := by decide
  have stock : 6 ≤ lentMachine.allocator.stock.card := by decide +kernel
  refine (ports_initialized lentAllocator_stocked threePorts fun _ => 3).1 ?_
  intro before i after split _
  have fewer : threePorts.started before ≤ threePorts.started (List.range 31) := by
    rw [split, started, started, List.countP_append]
    exact Nat.le_add_right _ _
  omega

end Samples

end Abar

end EmkKernel
