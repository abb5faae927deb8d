import EmkKernel.Drivers.NvmePrp

/-!
# Transfers in parts

`read_into_buffer` and `write_from_buffer` of `drivers::disk::nvme`: a transfer is split into
commands of at most the size that the controller allows. The number of blocks of a command is
cast to `u16` before one is subtracted from it.
-/

namespace EmkKernel

/-- The size from `MDTS`; the number that stands for no limit counts sectors. -/
def maximumDataTransferSize (mdts : Nat) : Option Nat :=
  if mdts = 0 then some 0xFFFF
  -- the shift and the product are checked
  else if mdts < 64 then mulU64 0x1000 (2 ^ mdts)
  else none

inductive IoDirection where
  | read
  | write
  deriving DecidableEq

/-- What `dispatch_read` and `dispatch_write` are called with. -/
structure IoCommand where
  direction : IoDirection
  queue : Nat
  numLogicalBlocks : Nat
  lba : Nat
  prps : Prps
  nsid : Nat

structure NVMeDisk where
  nsid : Nat
  numSectors : Nat
  sectorSize : Nat

/-- The fields of `NVMeController` that a transfer uses. -/
structure NVMeController where
  numQueuesImplemented : Nat
  maximumDataTransferSize : Nat
  allocator : Allocator

namespace NVMeController

def bulkSize (self : NVMeController) (sectorSize : Nat) : Nat :=
  if self.maximumDataTransferSize = 0xFFFF then self.maximumDataTransferSize * sectorSize
  else self.maximumDataTransferSize

/-- `construct_prp` and the release of its list behind the command. -/
def borrowPrps (self : NVMeController) (bytes address : Nat) : Option (Prps × NVMeController) := do
  let (prps, allocator) ← constructPrp self.allocator bytes address
  match prps.list with
  | none => some (prps, { self with allocator })
  | some mb =>
    match (allocator.free mb).value with
    | (.ok _, allocator) => some (prps, { self with allocator })
    | (.error _, _) => none

end NVMeController

/-- A sum in `u16`. -/
def addU16 (a b : Nat) : Option Nat := if a + b < 2 ^ 16 then some (a + b) else none

namespace NVMeDisk

variable (self : NVMeDisk)

/-- The number of blocks of a command. -/
def numLogicalBlocks (fetchedSize : Nat) : Option Nat :=
  if fetchedSize % self.sectorSize ≠ 0 then
    addU16 (fetchedSize / self.sectorSize % 2 ^ 16) 1
  else some (fetchedSize / self.sectorSize % 2 ^ 16)

/-- The loop over the parts, with fuel for a part of one byte each. -/
def transferLoop (direction : IoDirection) (scheduler : Nat) :
    Nat → NVMeController → Nat → Nat → Nat → Option (List IoCommand × NVMeController)
  | 0, _, _, _, _ => none
  | fuel + 1, controller, bytes, address, currentLba =>
    if bytes = 0 then some ([], controller)
    else do
      let bulk := controller.bulkSize self.sectorSize
      let fetchedSize := if bytes > bulk then bulk else bytes
      let (prps, controller) ← controller.borrowPrps fetchedSize address
      let numLogicalBlocks ← self.numLogicalBlocks fetchedSize
      let field ← subUnsigned numLogicalBlocks 1
      let address ← sumU64 address fetchedSize
      let lba ← sumU64 currentLba numLogicalBlocks
      let (rest, controller) ← transferLoop direction scheduler fuel controller
        (bytes - fetchedSize) address lba
      some (⟨direction, scheduler, field, currentLba, prps, self.nsid⟩ :: rest, controller)

/-- The sectors of a buffer. -/
def sectorsOf (buffer : Buffer) : Nat :=
  buffer.originalSize / self.sectorSize +
    if buffer.originalSize % self.sectorSize ≠ 0 then 1 else 0

/-- Behind the checks in which the directions differ: the result and the commands. -/
def transfer (direction : IoDirection) (controller : NVMeController) (lba : Nat) (buffer : Buffer)
    (scheduler : Nat) : Option (DiskIOResult × List IoCommand × NVMeController) := do
  let sectors := self.sectorsOf buffer
  let upper ← sumU64 lba sectors
  if upper > self.numSectors then some (.invalidLba, [], controller)
  else
    let bytes ← mulU64 sectors self.sectorSize
    let (commands, controller) ←
      self.transferLoop direction scheduler (2 ^ 64) controller bytes buffer.ptr lba
    some (.success, commands, controller)

def writeFromBuffer (controller : NVMeController) (lba : Nat) (buffer : Buffer)
    (scheduler : Nat) : Option (DiskIOResult × List IoCommand × NVMeController) :=
  if scheduler > controller.numQueuesImplemented - 1 ∨ scheduler = 0 then
    some (.invalidScheduler, [], controller)
  else self.transfer .write controller lba buffer scheduler

def readIntoBuffer (controller : NVMeController) (lba : Nat) (buffer : Buffer)
    (scheduler : Nat) : Option (DiskIOResult × List IoCommand × NVMeController) :=
  if scheduler > controller.numQueuesImplemented - 1 ∨ scheduler = 0 then
    some (.invalidScheduler, [], controller)
  else if buffer.readonly then some (.bufferReadonly, [], controller)
  else self.transfer .read controller lba buffer scheduler

end NVMeDisk

/-! ### Sectors in order -/

/-- What the device takes in one command: `MDTS` counts pages, and 0 stands for no limit. -/
def WithinLimit (mdts bytes : Nat) : Prop := mdts = 0 ∨ bytes ≤ 0x1000 * 2 ^ mdts

theorem WithinLimit.mono {mdts m n : Nat} (within : WithinLimit mdts n) (le : m ≤ n) :
    WithinLimit mdts m :=
  within.imp_right (Nat.le_trans le)

/-- The commands cover `n` sectors from `lba` on, each exactly once and in order, with the part of
the buffer from `address` on that belongs to them, and each fits its field and the device. -/
def Covers (direction : IoDirection) (mdts sectorSize : Nat) :
    Nat → Nat → Nat → List IoCommand → Prop
  | _, _, n, [] => n = 0
  | address, lba, n, command :: rest =>
    let blocks := command.numLogicalBlocks + 1
    command.direction = direction ∧ command.lba = lba ∧ command.prps.prp1 = address ∧
      command.numLogicalBlocks < 2 ^ 16 ∧ blocks ≤ n ∧ WithinLimit mdts (blocks * sectorSize) ∧
      Covers direction mdts sectorSize (address + blocks * sectorSize) (lba + blocks) (n - blocks)
        rest

/-- A transfer that succeeds with commands that cover its sectors. -/
def SplitsExactly (direction : IoDirection) (mdts : Nat) (disk : NVMeDisk) (lba : Nat)
    (buffer : Buffer) (result : Option (DiskIOResult × List IoCommand × NVMeController)) : Prop :=
  ∃ commands controller, result = some (.success, commands, controller) ∧
    Covers direction mdts disk.sectorSize buffer.ptr lba (disk.sectorsOf buffer) commands

/-- There is no limit, or one command is enough and its blocks can be counted, or the largest
command takes whole sectors that can be counted. -/
def FitsCommands (mdts sectorSize n : Nat) : Prop :=
  mdts = 0 ∨ n * sectorSize ≤ 0x1000 * 2 ^ mdts ∧ n < 2 ^ 16 ∨
    sectorSize ∣ 0x1000 * 2 ^ mdts ∧ 0x1000 * 2 ^ mdts < 2 ^ 16 * sectorSize

namespace NVMeController

variable {controller controller' : NVMeController} {bytes address : Nat} {prps : Prps}

/-- The size of the next part. -/
def part (bulk bytes : Nat) : Nat := if bytes > bulk then bulk else bytes

/-- The lists of pages of all parts can be built, one after the other. -/
def Provides (bulk : Nat) : Nat → NVMeController → Nat → Nat → Prop
  | 0, _, _, _ => True
  | fuel + 1, controller, bytes, address => bytes ≠ 0 → ∃ prps controller',
    controller.borrowPrps (part bulk bytes) address = some (prps, controller') ∧
      Provides bulk fuel controller' (bytes - part bulk bytes) (address + part bulk bytes)

private theorem constructPrp_prp1 {allocator allocator' : Allocator}
    (built : constructPrp allocator bytes address = some (prps, allocator')) :
    prps.prp1 = address := by
  unfold constructPrp at built
  simp only [Option.bind_eq_bind] at built
  split at built
  · split at built
    · obtain ⟨prp2, _, built⟩ := Option.bind_eq_some_iff.mp built
      cases built
      rfl
    · obtain ⟨aligned, _, built⟩ := Option.bind_eq_some_iff.mp built
      generalize (bytes - (0x1000 - address % 0x1000)) / 0x1000 +
        (if (bytes - (0x1000 - address % 0x1000)) % 0x1000 ≠ 0 then 1 else 0) = p at built
      split at built
      · split at built
        · cases built
        · obtain ⟨written, _, built⟩ := Option.bind_eq_some_iff.mp built
          obtain ⟨last, _, built⟩ := Option.bind_eq_some_iff.mp built
          cases built
          rfl
      · split at built
        · cases built
        · obtain ⟨written, _, built⟩ := Option.bind_eq_some_iff.mp built
          cases built
          rfl
  · cases built
    rfl

private theorem borrowPrps_some
    (borrowed : controller.borrowPrps bytes address = some (prps, controller')) :
    prps.prp1 = address ∧
      controller'.maximumDataTransferSize = controller.maximumDataTransferSize := by
  unfold borrowPrps at borrowed
  obtain ⟨⟨prps', allocator⟩, built, borrowed⟩ := Option.bind_eq_some_iff.mp borrowed
  have first := constructPrp_prp1 built
  simp only at borrowed
  split at borrowed
  · cases borrowed
    exact ⟨first, rfl⟩
  · split at borrowed
    · cases borrowed
      exact ⟨first, rfl⟩
    · cases borrowed

end NVMeController

namespace NVMeDisk

open NVMeController

variable {disk : NVMeDisk} {direction : IoDirection} {scheduler fuel mdts bulk bytes : Nat}
  {controller controller' : NVMeController} {address lba m k : Nat} {commands : List IoCommand}

private theorem numLogicalBlocks_mul (some : 0 < disk.sectorSize) (few : k < 2 ^ 16) :
    disk.numLogicalBlocks (k * disk.sectorSize) = .some k := by
  have whole : ¬k * disk.sectorSize % disk.sectorSize ≠ 0 := by simp
  rw [numLogicalBlocks, if_neg whole, Nat.mul_div_cancel _ some, Nat.mod_eq_of_lt few]

theorem transferLoop_step (direction : IoDirection) (scheduler : Nat)
    (size : controller.bulkSize disk.sectorSize = bulk)
    (sectors : 0 < disk.sectorSize) (some : 0 < k) (few : k < 2 ^ 16) (le : k ≤ m)
    (isPart : part bulk (m * disk.sectorSize) = k * disk.sectorSize)
    (inMemory : address + m * disk.sectorSize < 2 ^ 64) (onDisk : lba + m < 2 ^ 64)
    (provides : Provides bulk (fuel + 1) controller (m * disk.sectorSize) address) :
    ∃ prps controller', prps.prp1 = address ∧
      controller'.bulkSize disk.sectorSize = bulk ∧
      Provides bulk fuel controller' ((m - k) * disk.sectorSize) (address + k * disk.sectorSize) ∧
      disk.transferLoop direction scheduler (fuel + 1) controller (m * disk.sectorSize)
        address lba =
        (disk.transferLoop direction scheduler fuel controller' ((m - k) * disk.sectorSize)
          (address + k * disk.sectorSize) (lba + k)).map fun rest =>
            (⟨direction, scheduler, k - 1, lba, prps, disk.nsid⟩ :: rest.1, rest.2) := by
  have positive : m * disk.sectorSize ≠ 0 := Nat.mul_ne_zero (by omega) (by omega)
  have less : k * disk.sectorSize ≤ m * disk.sectorSize := Nat.mul_le_mul_right _ le
  obtain ⟨prps, controller', borrowed, provides⟩ := provides positive
  rw [isPart] at borrowed provides
  obtain ⟨first, same⟩ := borrowPrps_some borrowed
  have left : m * disk.sectorSize - k * disk.sectorSize = (m - k) * disk.sectorSize :=
    (Nat.sub_mul ..).symm
  rw [left] at provides
  refine ⟨prps, controller', first, ?_, provides, ?_⟩
  · rw [bulkSize, same]
    exact size
  have fetched : (if m * disk.sectorSize > bulk then bulk else m * disk.sectorSize) =
      k * disk.sectorSize := isPart
  have field : subUnsigned k 1 = Option.some (k - 1) := if_neg (by omega)
  have next : sumU64 address (k * disk.sectorSize) = Option.some (address + k * disk.sectorSize) :=
    if_pos (by omega)
  have behind : sumU64 lba k = Option.some (lba + k) := if_pos (by omega)
  rw [transferLoop, if_neg positive, size]
  simp only [fetched, borrowed, numLogicalBlocks_mul sectors few, field, next, behind, left,
    Option.bind_eq_bind, Option.bind_some]
  rw [Option.map_eq_bind]
  rfl

/-- Nothing is left behind the last part. -/
theorem transferLoop_zero : disk.transferLoop direction scheduler (fuel + 1) controller 0 address
    lba = some ([], controller) := by
  rw [transferLoop, if_pos rfl]

theorem covers_cons {prps : Prps} {rest : List IoCommand} (first : prps.prp1 = address)
    (some : 0 < k) (few : k < 2 ^ 16) (le : k ≤ m)
    (within : WithinLimit mdts (k * disk.sectorSize))
    (covers : Covers direction mdts disk.sectorSize (address + k * disk.sectorSize) (lba + k)
      (m - k) rest) :
    Covers direction mdts disk.sectorSize address lba m
      (⟨direction, scheduler, k - 1, lba, prps, disk.nsid⟩ :: rest) := by
  have blocks : k - 1 + 1 = k := Nat.sub_add_cancel some
  refine ⟨rfl, rfl, first, by simp only; omega, ?_, ?_, ?_⟩ <;> simp only [blocks]
  · exact le
  · exact within
  · exact covers

theorem transferLoop_covers (size : controller.bulkSize disk.sectorSize = bulk)
    (sectors : 0 < disk.sectorSize) (whole : bulk = k * disk.sectorSize) (some : 0 < k)
    (few : k < 2 ^ 16) (within : WithinLimit mdts bulk) (enough : m < fuel)
    (inMemory : address + m * disk.sectorSize < 2 ^ 64) (onDisk : lba + m < 2 ^ 64)
    (provides : Provides bulk fuel controller (m * disk.sectorSize) address) :
    ∃ commands controller', disk.transferLoop direction scheduler fuel controller
        (m * disk.sectorSize) address lba = .some (commands, controller') ∧
      Covers direction mdts disk.sectorSize address lba m commands := by
  induction fuel generalizing controller m address lba with
  | zero => exact absurd enough (Nat.not_lt_zero m)
  | succ fuel ih =>
    rcases Nat.eq_zero_or_pos m with rfl | more
    · exact ⟨[], controller, by rw [Nat.zero_mul, transferLoop_zero], rfl⟩
    -- the next part has `min m k` sectors
    have isPart : part bulk (m * disk.sectorSize) = min m k * disk.sectorSize := by
      unfold part
      rw [whole]
      by_cases last : m ≤ k
      · have le := Nat.mul_le_mul_right disk.sectorSize last
        rw [if_neg (Nat.not_lt.mpr le), Nat.min_eq_left last]
      · have less := Nat.mul_lt_mul_of_pos_right (Nat.lt_of_not_le last) sectors
        rw [if_pos less, Nat.min_eq_right (Nat.le_of_not_le last)]
    have le : min m k ≤ m := Nat.min_le_left m k
    have positive : 0 < min m k := Nat.lt_min.mpr ⟨more, some⟩
    have counted : min m k < 2 ^ 16 := Nat.lt_of_le_of_lt (Nat.min_le_right m k) few
    obtain ⟨prps, next, first, size', provides', step⟩ := transferLoop_step
      direction scheduler size sectors positive counted le isPart inMemory onDisk provides
    have split : m * disk.sectorSize = min m k * disk.sectorSize +
        (m - min m k) * disk.sectorSize := by
      rw [← Nat.add_mul, Nat.add_sub_cancel' le]
    have inMemory' : address + min m k * disk.sectorSize + (m - min m k) * disk.sectorSize <
        2 ^ 64 := by omega
    have onDisk' : lba + min m k + (m - min m k) < 2 ^ 64 := by omega
    obtain ⟨rest, controller', ran, covers⟩ :=
      ih size' (by omega) inMemory' onDisk' provides'
    refine ⟨_, controller', by rw [step, ran]; rfl,
      covers_cons first positive counted le ?_ covers⟩
    refine within.mono ?_
    exact whole ▸ Nat.mul_le_mul_right _ (Nat.min_le_right m k)

theorem transferLoop_single (size : controller.bulkSize disk.sectorSize = bulk)
    (sectors : 0 < disk.sectorSize) (fits : m * disk.sectorSize ≤ bulk) (some : 0 < m)
    (few : m < 2 ^ 16) (within : WithinLimit mdts (m * disk.sectorSize))
    (inMemory : address + m * disk.sectorSize < 2 ^ 64) (onDisk : lba + m < 2 ^ 64)
    (provides : Provides bulk (fuel + 2) controller (m * disk.sectorSize) address) :
    ∃ commands controller', disk.transferLoop direction scheduler (fuel + 2) controller
        (m * disk.sectorSize) address lba = .some (commands, controller') ∧
      Covers direction mdts disk.sectorSize address lba m commands := by
  obtain ⟨prps, next, first, _, _, step⟩ := transferLoop_step direction
    scheduler size sectors some few le_rfl (if_neg (Nat.not_lt.mpr fits)) inMemory
    onDisk provides
  rw [Nat.sub_self, Nat.zero_mul, transferLoop_zero] at step
  refine ⟨_, next, step, covers_cons first some few le_rfl within ?_⟩
  rw [Nat.sub_self]
  rfl

theorem transferLoop_some (size : controller.bulkSize disk.sectorSize = bulk) (some : bytes ≠ 0)
    (ran : disk.transferLoop direction scheduler (fuel + 1) controller bytes address lba =
      .some (commands, controller')) :
    ∃ prps next blocks rest, prps.prp1 = address ∧ next.bulkSize disk.sectorSize = bulk ∧
      disk.numLogicalBlocks (part bulk bytes) = .some blocks ∧ 0 < blocks ∧
      commands = ⟨direction, scheduler, blocks - 1, lba, prps, disk.nsid⟩ :: rest ∧
      disk.transferLoop direction scheduler fuel next (bytes - part bulk bytes)
        (address + part bulk bytes) (lba + blocks) = .some (rest, controller') := by
  rw [transferLoop, if_neg some, size] at ran
  change (controller.borrowPrps (part bulk bytes) address).bind _ = _ at ran
  obtain ⟨⟨prps, next⟩, borrowed, ran⟩ := Option.bind_eq_some_iff.mp ran
  obtain ⟨blocks, counted, ran⟩ := Option.bind_eq_some_iff.mp ran
  obtain ⟨field, isField, ran⟩ := Option.bind_eq_some_iff.mp ran
  obtain ⟨address', moved, ran⟩ := Option.bind_eq_some_iff.mp ran
  obtain ⟨lba', advanced, ran⟩ := Option.bind_eq_some_iff.mp ran
  obtain ⟨⟨rest, last⟩, later, result⟩ := Option.bind_eq_some_iff.mp ran
  obtain ⟨first, same⟩ := borrowPrps_some borrowed
  cases result
  unfold subUnsigned at isField
  unfold sumU64 at moved advanced
  obtain ⟨positive, ⟨⟩⟩ := Option.ite_none_left_eq_some.mp isField
  obtain ⟨_, ⟨⟩⟩ := Option.ite_none_right_eq_some.mp moved
  obtain ⟨_, ⟨⟩⟩ := Option.ite_none_right_eq_some.mp advanced
  refine ⟨prps, next, blocks, rest, first, ?_, counted, by omega, rfl, later⟩
  rw [bulkSize, same]
  exact size

/-- The sectors of a transfer are on the disk and its buffer in memory. -/
structure Accepts (disk : NVMeDisk) (controller : NVMeController) (lba : Nat) (buffer : Buffer)
    (scheduler : Nat) : Prop where
  queue : 0 < scheduler ∧ scheduler ≤ controller.numQueuesImplemented - 1
  some : 0 < buffer.originalSize
  sectors : 0 < disk.sectorSize ∧ disk.sectorSize < 2 ^ 32
  onDisk : lba + disk.sectorsOf buffer ≤ disk.numSectors ∧ disk.numSectors < 2 ^ 64
  inMemory : buffer.ptr + disk.sectorsOf buffer * disk.sectorSize < 2 ^ 64

private theorem sectorsOf_pos {buffer : Buffer} (sectors : 0 < disk.sectorSize)
    (some : 0 < buffer.originalSize) : 0 < disk.sectorsOf buffer := by
  unfold sectorsOf
  by_cases rest : buffer.originalSize % disk.sectorSize ≠ 0
  · rw [if_pos rest]
    exact Nat.succ_pos _
  · have divides := Nat.dvd_of_mod_eq_zero (not_not.mp rest)
    rw [if_neg rest]
    exact Nat.div_pos (Nat.le_of_dvd some divides) sectors

private theorem bulkSize_eq (disk : NVMeDisk)
    (size : maximumDataTransferSize mdts = some controller.maximumDataTransferSize) :
    controller.bulkSize disk.sectorSize =
      if mdts = 0 then 0xFFFF * disk.sectorSize else 0x1000 * 2 ^ mdts := by
  unfold maximumDataTransferSize at size
  unfold bulkSize
  by_cases unlimited : mdts = 0
  · rw [if_pos unlimited] at size ⊢
    rw [← Option.some.inj size, if_pos rfl]
  · rw [if_neg unlimited] at size ⊢
    split at size
    · unfold mulU64 at size
      obtain ⟨_, same⟩ := Option.ite_none_right_eq_some.mp size
      rw [← Option.some.inj same, if_neg (by omega)]
    · cases size

/-- The loop covers the sectors if and only if the commands fit. -/
theorem transferLoop_iff (direction : IoDirection) (scheduler : Nat)
    (size : maximumDataTransferSize mdts =
      some controller.maximumDataTransferSize) (sectors : 0 < disk.sectorSize) (more : 0 < m)
    (enough : m < fuel) (inMemory : address + m * disk.sectorSize < 2 ^ 64)
    (onDisk : lba + m < 2 ^ 64)
    (provides : Provides (controller.bulkSize disk.sectorSize) fuel controller
      (m * disk.sectorSize) address) :
    (∃ commands controller', disk.transferLoop direction scheduler fuel controller
        (m * disk.sectorSize) address lba = some (commands, controller') ∧
      Covers direction mdts disk.sectorSize address lba m commands) ↔
    FitsCommands mdts disk.sectorSize m := by
  have bulk := bulkSize_eq disk size
  obtain ⟨fuel, rfl⟩ := Nat.exists_eq_add_of_le' (show 2 ≤ fuel by omega)
  by_cases unlimited : mdts = 0
  · refine iff_of_true ?_ (Or.inl unlimited)
    rw [if_pos unlimited] at bulk
    exact transferLoop_covers rfl sectors bulk (by decide) (by decide) (Or.inl unlimited)
      (by omega) inMemory onDisk provides
  rw [if_neg unlimited] at bulk
  constructor
  · rintro ⟨commands, controller', ran, covers⟩
    have positive : m * disk.sectorSize ≠ 0 := Nat.mul_ne_zero (by omega) (by omega)
    obtain ⟨prps, next, blocks, rest, first, size', counted, some, rfl, later⟩ :=
      transferLoop_some rfl positive ran
    obtain ⟨_, _, _, _, le, _, covers⟩ := covers
    rw [Nat.sub_add_cancel some] at le covers
    by_cases fits : m * disk.sectorSize ≤ 0x1000 * 2 ^ mdts
    -- one command, and no sector is left behind it
    · refine Or.inr (Or.inl ⟨fits, ?_⟩)
      have isPart : part (controller.bulkSize disk.sectorSize) (m * disk.sectorSize) =
          m * disk.sectorSize := if_neg (Nat.not_lt.mpr (bulk ▸ fits))
      rw [isPart, Nat.sub_self, transferLoop_zero] at later
      cases later
      have all : m - blocks = 0 := covers
      have whole : ¬m * disk.sectorSize % disk.sectorSize ≠ 0 := by simp
      rw [isPart, numLogicalBlocks, if_neg whole, Nat.mul_div_cancel _ sectors,
        Option.some.injEq] at counted
      omega
    -- the next command says how far the address went for the blocks
    · refine Or.inr (Or.inr ?_)
      have isPart : part (controller.bulkSize disk.sectorSize) (m * disk.sectorSize) =
          0x1000 * 2 ^ mdts := (if_pos (bulk ▸ Nat.lt_of_not_le fits)).trans bulk
      rw [isPart] at counted later
      obtain ⟨_, _, _, rest, second, _, _, _, rfl, _⟩ := transferLoop_some size' (by omega) later
      have address' := covers.2.2.1
      rw [second, Nat.add_left_cancel_iff] at address'
      have whole : ¬0x1000 * 2 ^ mdts % disk.sectorSize ≠ 0 := by simp [address']
      rw [numLogicalBlocks, if_neg whole, address', Nat.mul_div_cancel _ sectors,
        Option.some.injEq] at counted
      rw [address']
      refine ⟨Nat.dvd_mul_left .., Nat.mul_lt_mul_of_pos_right ?_ sectors⟩
      omega
  · rintro (none | ⟨fits, few⟩ | ⟨⟨k, whole⟩, few⟩)
    · exact absurd none unlimited
    · exact transferLoop_single rfl sectors (bulk ▸ fits) more few (Or.inr fits) inMemory onDisk
        provides
    · rw [Nat.mul_comm disk.sectorSize] at whole
      have positive : 0 < 0x1000 * 2 ^ mdts := Nat.mul_pos (by decide) (Nat.two_pow_pos mdts)
      rw [whole] at few positive bulk
      exact transferLoop_covers rfl sectors bulk (Nat.pos_of_mul_pos_right positive)
        (Nat.lt_of_mul_lt_mul_right few) (Or.inr (by omega)) (by omega) inMemory onDisk provides

private theorem transferLoop_of_success {buffer : Buffer}
    (ran : disk.transfer direction controller lba buffer scheduler =
      some (.success, commands, controller')) :
    disk.transferLoop direction scheduler (2 ^ 64) controller
      (disk.sectorsOf buffer * disk.sectorSize) buffer.ptr lba = some (commands, controller') := by
  obtain ⟨upper, _, ran⟩ := Option.bind_eq_some_iff.mp ran
  split at ran
  · cases ran
  obtain ⟨bytes, product, ran⟩ := Option.bind_eq_some_iff.mp ran
  unfold mulU64 at product
  obtain ⟨_, ⟨⟩⟩ := Option.ite_none_right_eq_some.mp product
  obtain ⟨⟨commands', last⟩, loop, result⟩ := Option.bind_eq_some_iff.mp ran
  cases result
  exact loop

private theorem splitsExactly_iff {buffer : Buffer} (size : maximumDataTransferSize mdts =
      some controller.maximumDataTransferSize)
    (accepts : disk.Accepts controller lba buffer scheduler)
    (provides : Provides (controller.bulkSize disk.sectorSize) (2 ^ 64) controller
      (disk.sectorsOf buffer * disk.sectorSize) buffer.ptr) :
    SplitsExactly direction mdts disk lba buffer
        (disk.transfer direction controller lba buffer scheduler) ↔
      FitsCommands mdts disk.sectorSize (disk.sectorsOf buffer) := by
  have more := sectorsOf_pos accepts.sectors.1 accepts.some
  have onDisk := accepts.onDisk
  have inMemory := accepts.inMemory
  have upper : sumU64 lba (disk.sectorsOf buffer) = some (lba + disk.sectorsOf buffer) :=
    if_pos (by omega)
  have bytes : mulU64 (disk.sectorsOf buffer) disk.sectorSize =
      some (disk.sectorsOf buffer * disk.sectorSize) := if_pos (by omega)
  have loop := transferLoop_iff direction scheduler size accepts.sectors.1 more
    (show disk.sectorsOf buffer < 2 ^ 64 by omega) inMemory
    (show lba + disk.sectorsOf buffer < 2 ^ 64 by omega) provides
  rw [← loop]
  unfold SplitsExactly transfer
  simp only [upper, bytes, Option.bind_eq_bind, Option.bind_some, if_neg (Nat.not_lt.mpr onDisk.1)]
  cases disk.transferLoop direction scheduler (2 ^ 64) controller
      (disk.sectorsOf buffer * disk.sectorSize) buffer.ptr lba with
  | none => simp
  | some result => simp [Prod.ext_iff]

/-- A transfer in either direction is split exactly if and only if its commands fit. -/
theorem transfers_iff {buffer : Buffer} (size : maximumDataTransferSize mdts =
      some controller.maximumDataTransferSize)
    (accepts : disk.Accepts controller lba buffer scheduler) (writable : buffer.readonly = false)
    (provides : Provides (controller.bulkSize disk.sectorSize) (2 ^ 64) controller
      (disk.sectorsOf buffer * disk.sectorSize) buffer.ptr) :
    (SplitsExactly .read mdts disk lba buffer
        (disk.readIntoBuffer controller lba buffer scheduler) ↔
      FitsCommands mdts disk.sectorSize (disk.sectorsOf buffer)) ∧
    (SplitsExactly .write mdts disk lba buffer
        (disk.writeFromBuffer controller lba buffer scheduler) ↔
      FitsCommands mdts disk.sectorSize (disk.sectorsOf buffer)) := by
  obtain ⟨some, le⟩ := accepts.queue
  have queue : ¬(scheduler > controller.numQueuesImplemented - 1 ∨ scheduler = 0) := by omega
  have notReadonly : ¬buffer.readonly = true := by rw [writable]; exact Bool.false_ne_true
  rw [readIntoBuffer, if_neg queue, if_neg notReadonly, writeFromBuffer, if_neg queue]
  exact ⟨splitsExactly_iff size accepts provides, splitsExactly_iff size accepts provides⟩

/-! ### Inputs -/

/-- A controller with parts of up to `0x1000 * 2 ^ mdts` bytes. -/
def controllerOf (mdts : Nat) : NVMeController :=
  ⟨2, 0x1000 * 2 ^ mdts, ⟨fun _ => 0, 1, 0, 0x100000, 0⟩⟩

def smallDisk : NVMeDisk := ⟨1, 0x100000, 512⟩

/-- A buffer of `n` sectors. -/
def bufferOf (n : Nat) : Buffer := ⟨0x10000, n * 512, n * 512, false⟩

private theorem accepts_small : smallDisk.Accepts (controllerOf 1) 7 (bufferOf 40) 1 :=
  ⟨by decide, by decide, by decide, by decide, by decide⟩

private theorem provides_zero {fuel : Nat} : Provides bulk fuel controller 0 address := by
  cases fuel with
  | zero => trivial
  | succ fuel => exact fun some => absurd rfl some

/-- Two parts of eight KiB and one of four, each with its pages in the two pointers. -/
theorem provides_small : Provides 0x2000 (2 ^ 64) (controllerOf 1) (40 * 512) 0x10000 := by
  have fuel : 2 ^ 64 = 2 ^ 64 - 3 + 3 := rfl
  rw [fuel]
  exact fun _ => ⟨_, _, rfl, fun _ => ⟨_, _, rfl, fun _ => ⟨_, _, rfl, provides_zero⟩⟩⟩

theorem transfers_small :
    SplitsExactly .read 1 smallDisk 7 (bufferOf 40)
        (smallDisk.readIntoBuffer (controllerOf 1) 7 (bufferOf 40) 1) ∧
      SplitsExactly .write 1 smallDisk 7 (bufferOf 40)
        (smallDisk.writeFromBuffer (controllerOf 1) 7 (bufferOf 40) 1) := by
  have fits : FitsCommands 1 512 40 := Or.inr (Or.inr ⟨by decide, by decide⟩)
  obtain ⟨reads, writes⟩ := transfers_iff
    (show maximumDataTransferSize 1 = some (controllerOf 1).maximumDataTransferSize from rfl)
    accepts_small rfl provides_small
  exact ⟨reads.mpr fits, writes.mpr fits⟩

/-- The count of 65536 sectors is cast to 0. -/
theorem not_splitsExactly_65536 :
    ¬SplitsExactly .read 14 smallDisk 0 (bufferOf 65536)
      (smallDisk.readIntoBuffer (controllerOf 14) 0 (bufferOf 65536) 1) := by
  rintro ⟨commands, controller, ran, _⟩
  rw [readIntoBuffer, if_neg (by decide), if_neg (by decide)] at ran
  have sectors : smallDisk.sectorsOf (bufferOf 65536) = 65536 := by decide +kernel
  have ran := transferLoop_of_success ran
  rw [sectors] at ran
  have fuel : 2 ^ 64 = 2 ^ 64 - 1 + 1 := rfl
  rw [fuel] at ran
  obtain ⟨_, _, blocks, _, _, _, counted, positive, _⟩ := transferLoop_some rfl (by decide) ran
  have none : smallDisk.numLogicalBlocks
      (part ((controllerOf 14).bulkSize smallDisk.sectorSize) (65536 * 512)) = some 0 := by
    decide +kernel
  cases none.symm.trans counted
  exact absurd positive (Nat.lt_irrefl 0)

end NVMeDisk

end EmkKernel
