import EmkKernel.Drivers.XhciProducers

/-!
# How far the rings of the driver reach

Neither ring has a Link block, so both run straight through their pages and behind them. The
controller reads on as long as the blocks that it finds have its cycle state.
-/

namespace EmkKernel

namespace RawXhciTrb

variable {trb : RawXhciTrb}

/-- A block that the controller of a first lap executes, and then goes to the next one. -/
def Executable (trb : RawXhciTrb) : Prop :=
  trb.cycle = true ∧ trb.trbType ≠ XhciTrbId.link.toU32

private theorem toU32_injective {id id' : XhciTrbId} (same : id.toU32 = id'.toU32) : id = id' := by
  have both := congrArg XhciTrbId.fromU32 same
  rw [XhciTrbId.fromU32_toU32, XhciTrbId.fromU32_toU32] at both
  exact Option.some.inj both

/-- What makes a block executable: type, flags other than the cycle bit, and the cycle bit. -/
theorem executable_of {id : XhciTrbId} (cycle : trb.cycle = true) (type : trb.trbType = id.toU32)
    (other : id ≠ .link) : trb.Executable :=
  ⟨cycle, fun link => other (toU32_injective (type.symm.trans link))⟩

theorem shifted_clear (x : BitVec 32) {position i : Nat} (before : i < position) :
    (x <<< position).getLsbD i = false := by
  simp [before]

private theorem flag_clear (value : Bool) {position i : Nat} (other : i ≠ position) :
    ((BitVec.ofBool value).setWidth 32 <<< position).getLsbD i = false := by
  rcases Nat.lt_or_gt_of_ne other with before | after
  · exact shifted_clear _ before
  · have beyond : i - position ≠ 0 := by omega
    simp [beyond]

theorem trbType_setTransferType (trb : RawXhciTrb) (trt : BitVec 32) :
    (trb.setTransferType trt).trbType = trb.trbType := by
  refine BitVec.eq_of_getLsbD_eq fun i short => ?_
  have mask : (0x3F : BitVec 32).getLsbD i = decide (i < 6) := mask_bits ⟨i, short⟩
  rw [trbType, trbType, BitVec.getLsbD_and, BitVec.getLsbD_and, BitVec.getLsbD_ushiftRight,
    BitVec.getLsbD_ushiftRight, mask]
  by_cases low : i < 6
  · rw [setTransferType, BitVec.getLsbD_or, BitVec.getLsbD_and, BitVec.getLsbD_not,
      shifted_clear _ (by omega), shifted_clear _ (by omega), Bool.or_false, Bool.not_false,
      decide_eq_true (show 10 + i < 32 by omega), Bool.and_true, Bool.and_true]
  · rw [decide_eq_false low, Bool.and_false, Bool.and_false]

theorem executable_command (trb : RawXhciTrb) {id : XhciTrbId} (other : id ≠ .link)
    {parameters : BitVec 32} (clear : ∀ i < 16, i ≠ 9 → parameters.getLsbD i = false) :
    (trb.command true id parameters).Executable := by
  refine executable_of ?_ (trbType_eq fun i low => ?_) other
  · rw [cycle, isSet_eq, command, BitVec.getLsbD_or, BitVec.getLsbD_or,
      clear 0 (by decide) (by decide), shifted_clear _ (by decide)]
    rfl
  · have last : ((BitVec.ofBool true).setWidth 32).getLsbD (10 + i) = false := by simp
    rw [command, BitVec.getLsbD_or, BitVec.getLsbD_or, clear (10 + i) (by omega) (by omega), last,
      Bool.or_false, Bool.false_or, BitVec.getLsbD_shiftLeft, Nat.add_sub_cancel_left,
      decide_eq_true (show 10 + i < 32 by omega), decide_eq_false (show ¬10 + i < 10 by omega)]
    rfl

end RawXhciTrb

namespace ProducerRing

open RawXhciTrb

private theorem executable_commandTrb {trb trb' : RawXhciTrb} {command : XhciCommand}
    (made : commandTrb trb true command = some trb') : trb'.Executable := by
  cases command <;> simp only [commandTrb, Option.some.injEq, reduceCtorEq] at made
  all_goals
    subst made
    refine executable_command _ (by decide) fun i low other => ?_
  case noOp => exact BitVec.getLsbD_zero
  case enableSlot => exact shifted_clear _ low
  case addressDevice =>
    rw [BitVec.getLsbD_or, shifted_clear _ (by omega), flag_clear _ other, Bool.or_false]
  case configureEndpoint =>
    rw [BitVec.getLsbD_or, shifted_clear _ (by omega), flag_clear _ other, Bool.or_false]
  case evaluateContext => exact shifted_clear _ (by omega)
  case stopEndpoint =>
    rw [BitVec.getLsbD_or, BitVec.getLsbD_or, shifted_clear _ (by omega),
      flag_clear _ (by omega), shifted_clear _ low, Bool.or_false, Bool.or_false]

private theorem executable_setupTrb (trb : RawXhciTrb) (request : UsbStandardDeviceRequest)
    (wValue : BitVec 16) (trt : BitVec 32) :
    (setupTrb trb request wValue trt true).Executable := by
  refine @executable_of _ .setup (isSet_setBit _ (by decide) _) ?_ (by decide)
  simp only [setupTrb]
  rw [trbType_setBit _ (by decide) (by decide), trbType_setBit _ (by decide) (by decide),
    trbType_setBit _ (by decide) (by decide), trbType_setTransferType]
  exact trbType_setType _ _

private theorem executable_dataTrb (trb : RawXhciTrb) (buffer : BitVec 64) (bufferLen : BitVec 32) :
    (dataTrb trb buffer bufferLen true).Executable := by
  refine @executable_of _ .data (isSet_setBit _ (by decide) _) ?_ (by decide)
  simp only [dataTrb]
  iterate 8 rw [trbType_setBit _ (by decide) (by decide)]
  exact trbType_setType _ _

private theorem executable_statusTrb (trb : RawXhciTrb) (interrupterTarget : BitVec 16)
    (ioc direction : Bool) : (statusTrb trb interrupterTarget ioc direction true).Executable := by
  refine @executable_of _ .status (isSet_setBit _ (by decide) _) ?_ (by decide)
  simp only [statusTrb]
  iterate 4 rw [trbType_setBit _ (by decide) (by decide)]
  exact (trbType_setBit (trb.setType .status |>.setInterrupterTarget interrupterTarget) (by decide)
    (by decide) ioc).trans (trbType_setType _ _)

variable {page pages : Nat} {rest : Nat → RawXhciTrb} {s s' : ProducerRing}

/-- The slot of a position, also of one behind the pages. -/
def slot (page n : Nat) : Nat := 0x1000 * page + 16 * n

theorem slot_ne (page : Nat) {m n : Nat} (different : m ≠ n) : slot page m ≠ slot page n := by
  rw [slot, slot]
  omega

/-- A block of the pages of a ring. -/
def Inside (page pages a : Nat) : Prop := 0x1000 * page ≤ a ∧ a + 16 ≤ 0x1000 * (page + pages)

private theorem inside_slot {n : Nat} (before : n < 256 * pages) :
    Inside page pages (slot page n) := by
  rw [Inside, slot]
  omega

private theorem not_inside_slot : ¬Inside page pages (slot page (256 * pages)) := by
  rw [Inside, slot]
  omega

/-- The driver has written the first slots of the pages, and nothing else. -/
structure Produced (page pages : Nat) (rest : Nat → RawXhciTrb) (s : ProducerRing) : Prop where
  enqueue : s.enqueuePointer = slot page s.written.length
  pcs : s.pcs = true
  room : s.written.length ≤ 256 * pages
  written : ∀ n < s.written.length, s.written[n]? = some (slot page n, s.memory (slot page n)) ∧
    (s.memory (slot page n)).Executable
  free : ∀ n, s.written.length ≤ n → n < 256 * pages → s.memory (slot page n) = .zero
  behind : s.memory (slot page (256 * pages)) = rest (slot page (256 * pages))
  inside : ∀ a ∈ s.writes, Inside page pages a

/-- It has written more blocks than there is room for, and one of them behind the pages. -/
def Spilled (page pages : Nat) (s : ProducerRing) : Prop :=
  256 * pages < s.written.length ∧ ∃ a ∈ s.writes, ¬Inside page pages a

/-- The driver fills the slot that its pointer names. -/
def put (s : ProducerRing) (fill : RawXhciTrb → RawXhciTrb) : ProducerRing :=
  { s.write s.enqueuePointer (fill (s.memory s.enqueuePointer)) with
    enqueuePointer := s.enqueuePointer + 16 }

private theorem length_put (fill : RawXhciTrb → RawXhciTrb) :
    (s.put fill).written.length = s.written.length + 1 := by
  simp [put, write]

private theorem produced_put (produced : Produced page pages rest s)
    (room : s.written.length < 256 * pages)
    {fill : RawXhciTrb → RawXhciTrb} (executable : (fill (s.memory s.enqueuePointer)).Executable) :
    Produced page pages rest (s.put fill) := by
  have length := length_put (s := s) fill
  have other : ∀ n, n ≠ s.written.length →
      (s.put fill).memory (slot page n) = s.memory (slot page n) := fun n different =>
    Function.update_of_ne (by rw [produced.enqueue]; exact slot_ne page different) _ _
  have here : (s.put fill).memory (slot page s.written.length) =
      fill (s.memory s.enqueuePointer) := by
    rw [← produced.enqueue]
    exact Function.update_self _ _ _
  refine ⟨?_, produced.pcs, ?_, fun n before => ?_, fun n after inside => ?_, ?_, fun a found => ?_⟩
  · rw [length]
    show s.enqueuePointer + 16 = _
    rw [produced.enqueue, slot, slot]
    omega
  · rw [length]
    exact room
  · rw [length] at before
    by_cases new : n = s.written.length
    · rw [new, here]
      refine ⟨?_, executable⟩
      rw [← produced.enqueue]
      exact List.getElem?_concat_length
    · have old : n < s.written.length := by omega
      rw [other n new]
      refine ⟨?_, (produced.written n old).2⟩
      rw [← (produced.written n old).1]
      exact List.getElem?_append_left old
  · rw [length] at after
    rw [other n (by omega)]
    exact produced.free n (by omega) inside
  · rw [other _ (by omega)]
    exact produced.behind
  · rcases List.mem_append.mp found with old | new
    · exact produced.inside a old
    · rw [List.mem_singleton.mp new, produced.enqueue]
      exact inside_slot room

/-- What issuing a request does, whatever it is. -/
structure Issued (page pages : Nat) (rest : Nat → RawXhciTrb) (s s' : ProducerRing) : Prop where
  running : s'.running = true
  dequeuePointer : s'.dequeuePointer = s.dequeuePointer
  ccs : s'.ccs = s.ccs
  executed : s'.executed = s.executed
  written : ∃ more, more ≠ [] ∧ s'.written = s.written ++ more
  writes : s.writes ⊆ s'.writes
  produced : Produced page pages rest s →
    Produced page pages rest s' ∨ Spilled page pages s'

/-- A block at the pointer: it fills the last slots of the pages, or it is behind them. -/
theorem issued_process {command : XhciCommand} (ran : s.process command = some s') :
    Issued page pages rest s s' := by
  obtain ⟨trb, made, rfl⟩ := Option.map_eq_some_iff.mp ran
  refine ⟨rfl, rfl, rfl, rfl, ⟨_, List.cons_ne_nil _ _, rfl⟩, List.subset_append_left _ _,
    fun produced => ?_⟩
  rcases produced.room.lt_or_eq with room | full
  · rw [produced.pcs] at made
    have filled : Produced page pages rest (s.put fun _ => trb) :=
      produced_put produced room (executable_commandTrb made)
    exact Or.inl { filled with }
  · refine Or.inr ⟨?_, s.enqueuePointer, ?_, ?_⟩
    · show 256 * pages < (s.written ++ [_]).length
      rw [List.length_append, List.length_singleton]
      omega
    · exact List.mem_append_right _ (List.mem_singleton_self _)
    · rw [produced.enqueue, full]
      exact not_inside_slot

/-- A request that finds no Link block. -/
theorem requestTrb_plain (plain : (s.memory s.enqueuePointer).trbType ≠ XhciTrbId.link.toU32) :
    s.requestTrb =
      ((s.enqueuePointer, s.pcs), { s with enqueuePointer := s.enqueuePointer + 16 }) := by
  simp only [requestTrb, if_neg plain]

/-- Both functions request their blocks first, -/
def requestTrbs (s : ProducerRing) : Nat → List (Nat × Bool) × ProducerRing
  | 0 => ([], s)
  | k + 1 => (s.requestTrb.1 :: (requestTrbs s.requestTrb.2 k).1, (requestTrbs s.requestTrb.2 k).2)

/-- and fill them afterwards. -/
def fillTrbs (s : ProducerRing) (blocks : List (Nat × Bool)) :
    List (Bool → RawXhciTrb → RawXhciTrb) → ProducerRing
  | [] => s
  | fill :: fills =>
    match blocks with
    | [] => s
    | (a, cycle) :: blocks => fillTrbs (s.write a (fill cycle (s.memory a))) blocks fills

/-- A transfer of some blocks. -/
def transferOf (s : ProducerRing) (fills : List (Bool → RawXhciTrb → RawXhciTrb)) : ProducerRing :=
  ((s.requestTrbs fills.length).2.fillTrbs (s.requestTrbs fills.length).1 fills).ringDoorbell

/-- The blocks of a transfer. -/
def fills : ControlTransfer → List (Bool → RawXhciTrb → RawXhciTrb)
  | .noData request interrupterTarget ioc =>
    [fun cycle trb => setupTrb trb request (trb.dword0.extractLsb' 16 16) 0 cycle,
      fun cycle trb => statusTrb trb interrupterTarget ioc true cycle]
  | .read request interrupterTarget buffer bufferLen ioc =>
    [fun cycle trb => setupTrb trb request request.wValue 3 cycle,
      fun cycle trb => dataTrb trb buffer bufferLen cycle,
      fun cycle trb => statusTrb trb interrupterTarget ioc false cycle]

private theorem transfer_eq (s : ProducerRing) (transfer : ControlTransfer) :
    s.transfer transfer = some (s.transferOf (fills transfer)) := by
  cases transfer with
  | noData request interrupterTarget ioc => rfl
  | read request interrupterTarget buffer bufferLen ioc => rfl

private theorem fills_ne_nil (transfer : ControlTransfer) : fills transfer ≠ [] := by
  cases transfer with
  | noData => exact List.cons_ne_nil _ _
  | read => exact List.cons_ne_nil _ _

private theorem executable_fills (transfer : ControlTransfer) :
    ∀ fill ∈ fills transfer, ∀ trb, (fill true trb).Executable := by
  cases transfer with
  | noData request interrupterTarget ioc =>
    refine List.forall_mem_cons.mpr ⟨fun trb => executable_setupTrb _ _ _ _, ?_⟩
    exact List.forall_mem_singleton.mpr fun trb => executable_statusTrb _ _ _ _
  | read request interrupterTarget buffer bufferLen ioc =>
    refine List.forall_mem_cons.mpr ⟨fun trb => executable_setupTrb _ _ _ _, ?_⟩
    refine List.forall_mem_cons.mpr ⟨fun trb => executable_dataTrb _ _ _, ?_⟩
    exact List.forall_mem_singleton.mpr fun trb => executable_statusTrb _ _ _ _

theorem requestTrbs_kept (s : ProducerRing) (k : Nat) :
    (s.requestTrbs k).2.written = s.written ∧
    (s.requestTrbs k).2.dequeuePointer = s.dequeuePointer ∧
    (s.requestTrbs k).2.ccs = s.ccs ∧ (s.requestTrbs k).2.executed = s.executed ∧
    s.writes ⊆ (s.requestTrbs k).2.writes ∧ (s.requestTrbs k).1.length = k := by
  induction k generalizing s with
  | zero => exact ⟨rfl, rfl, rfl, rfl, List.Subset.refl _, rfl⟩
  | succ k ih =>
    obtain ⟨written, dequeue, ccs, executed, writes, length⟩ := ih s.requestTrb.2
    simp only [requestTrbs]
    rw [written, dequeue, ccs, executed, List.length_cons, length]
    have first : s.requestTrb.2.written = s.written ∧
        s.requestTrb.2.dequeuePointer = s.dequeuePointer ∧ s.requestTrb.2.ccs = s.ccs ∧
        s.requestTrb.2.executed = s.executed ∧ s.writes ⊆ s.requestTrb.2.writes := by
      simp only [requestTrb]
      split
      · exact ⟨rfl, rfl, rfl, rfl, List.subset_append_left _ _⟩
      · exact ⟨rfl, rfl, rfl, rfl, List.Subset.refl _⟩
    obtain ⟨written', dequeue', ccs', executed', writes'⟩ := first
    exact ⟨written', dequeue', ccs', executed', List.Subset.trans writes' writes, rfl⟩

theorem fillTrbs_eq (s : ProducerRing) (blocks : List (Nat × Bool))
    (fills : List (Bool → RawXhciTrb → RawXhciTrb)) (same : blocks.length = fills.length) :
    (s.fillTrbs blocks fills).dequeuePointer = s.dequeuePointer ∧
    (s.fillTrbs blocks fills).ccs = s.ccs ∧ (s.fillTrbs blocks fills).executed = s.executed ∧
    (s.fillTrbs blocks fills).writes = s.writes ++ blocks.map Prod.fst ∧
    ∃ more, more.length = fills.length ∧ (s.fillTrbs blocks fills).written = s.written ++ more := by
  induction fills generalizing s blocks with
  | nil =>
    obtain rfl := List.length_eq_zero_iff.mp same
    exact ⟨rfl, rfl, rfl, (List.append_nil _).symm, [], rfl, (List.append_nil _).symm⟩
  | cons fill fills ih =>
    cases blocks with
    | nil => cases same
    | cons block blocks =>
      obtain ⟨a, cycle⟩ := block
      obtain ⟨dequeue, ccs, executed, writes, more, length, written⟩ :=
        ih (s.write a (fill cycle (s.memory a))) blocks (Nat.succ.inj same)
      refine ⟨dequeue, ccs, executed, ?_, (a, fill cycle (s.memory a)) :: more, ?_, ?_⟩
      · rw [fillTrbs, writes]
        exact List.append_assoc _ _ _
      · rw [List.length_cons, length, List.length_cons]
      · rw [fillTrbs, written]
        exact List.append_assoc _ _ _

/-- The blocks that a pointer gives where it finds no Link block. -/
def blocksFrom (a : Nat) (cycle : Bool) (k : Nat) : List (Nat × Bool) :=
  (List.range k).map fun j => (a + 16 * j, cycle)

private theorem blocksFrom_succ (a : Nat) (cycle : Bool) (k : Nat) :
    blocksFrom a cycle (k + 1) = (a, cycle) :: blocksFrom (a + 16) cycle k := by
  rw [blocksFrom, List.range_succ_eq_map, List.map_cons, List.map_map]
  refine congrArg _ (List.map_congr_left fun j _ => ?_)
  show (a + 16 * (j + 1), cycle) = (a + 16 + 16 * j, cycle)
  rw [Nat.mul_add, Nat.mul_one, Nat.add_assoc, Nat.add_comm 16]

private theorem requestTrbs_plain (s : ProducerRing) (k : Nat)
    (plain : ∀ j < k, (s.memory (s.enqueuePointer + 16 * j)).trbType ≠ XhciTrbId.link.toU32) :
    s.requestTrbs k = (blocksFrom s.enqueuePointer s.pcs k,
      { s with enqueuePointer := s.enqueuePointer + 16 * k }) := by
  induction k generalizing s with
  | zero => rfl
  | succ k ih =>
    have first := requestTrb_plain (s := s) (plain 0 (Nat.succ_pos k))
    have later := ih { s with enqueuePointer := s.enqueuePointer + 16 } fun j before => by
      have next := plain (j + 1) (Nat.succ_lt_succ before)
      rwa [Nat.mul_add, Nat.mul_one, Nat.add_comm (16 * j), ← Nat.add_assoc] at next
    rw [requestTrbs, first, later, blocksFrom_succ]
    simp only [Nat.mul_add, Nat.mul_one, Nat.add_assoc, Nat.add_comm 16]

theorem produced_fillTrbs (produced : Produced page pages rest s)
    (fills : List (Bool → RawXhciTrb → RawXhciTrb))
    (room : s.written.length + fills.length ≤ 256 * pages)
    (executable : ∀ fill ∈ fills, ∀ trb, (fill true trb).Executable) :
    Produced page pages rest
      ({ s with enqueuePointer := s.enqueuePointer + 16 * fills.length }.fillTrbs
        (blocksFrom s.enqueuePointer s.pcs fills.length) fills) := by
  induction fills generalizing s with
  | nil => exact produced
  | cons fill fills ih =>
    rw [List.length_cons] at room ⊢
    have bit := executable fill List.mem_cons_self (s.memory s.enqueuePointer)
    have put : Produced page pages rest (s.put (fill true)) := produced_put produced (by omega) bit
    have later := ih put (by rw [length_put]; omega) fun fill found =>
      executable fill (List.mem_cons_of_mem _ found)
    rw [blocksFrom_succ, fillTrbs, produced.pcs]
    have same : s.enqueuePointer + 16 * (fills.length + 1) =
        s.enqueuePointer + 16 + 16 * fills.length := by omega
    rw [same]
    have cycle : (s.put (fill true)).pcs = true := produced.pcs
    rw [cycle] at later
    exact later

/-- The pointer of a request that comes after `k` others without a Link block in their way. -/
theorem requestTrbs_reaches (s : ProducerRing) {n k : Nat} (few : k < n)
    (plain : ∀ j < k, (s.memory (s.enqueuePointer + 16 * j)).trbType ≠ XhciTrbId.link.toU32) :
    s.enqueuePointer + 16 * k ∈ (s.requestTrbs n).2.writes ++ (s.requestTrbs n).1.map Prod.fst := by
  induction n generalizing s k with
  | zero => cases few
  | succ n ih =>
    cases k with
    | zero =>
      by_cases type : (s.memory s.enqueuePointer).trbType = XhciTrbId.link.toU32
      · -- The Link block itself is written.
        have linked : s.enqueuePointer ∈ s.requestTrb.2.writes := by
          simp only [requestTrb, if_pos type]
          exact List.mem_append_right _ (List.mem_singleton_self _)
        exact List.mem_append_left _ ((requestTrbs_kept _ n).2.2.2.2.1 linked)
      · rw [requestTrbs, requestTrb_plain type]
        exact List.mem_append_right _ List.mem_cons_self
    | succ k =>
      have first := requestTrb_plain (s := s) (plain 0 (Nat.succ_pos k))
      have later := ih { s with enqueuePointer := s.enqueuePointer + 16 }
        (Nat.lt_of_succ_lt_succ few) fun j before => by
          have next := plain (j + 1) (Nat.succ_lt_succ before)
          rwa [Nat.mul_add, Nat.mul_one, Nat.add_comm (16 * j), ← Nat.add_assoc] at next
      rw [requestTrbs, first, Nat.mul_add, Nat.mul_one, Nat.add_comm (16 * k), ← Nat.add_assoc]
      rcases List.mem_append.mp later with old | new
      · exact List.mem_append_left _ old
      · exact List.mem_append_right _ (List.mem_cons_of_mem _ new)

private theorem zero_plain : RawXhciTrb.zero.trbType ≠ XhciTrbId.link.toU32 := by decide

/-- A slot that is free holds no Link block. -/
theorem Produced.plain (produced : Produced page pages rest s) {k : Nat}
    (room : s.written.length + k < 256 * pages) :
    (s.memory (s.enqueuePointer + 16 * k)).trbType ≠ XhciTrbId.link.toU32 := by
  have here : s.enqueuePointer + 16 * k = slot page (s.written.length + k) := by
    rw [produced.enqueue, slot, slot]
    omega
  rw [here, produced.free _ (by omega) room]
  exact zero_plain

private theorem issued_transferOf {fills : List (Bool → RawXhciTrb → RawXhciTrb)}
    (some : fills ≠ []) (executable : ∀ fill ∈ fills, ∀ trb, (fill true trb).Executable) :
    Issued page pages rest s (s.transferOf fills) := by
  obtain ⟨written, dequeue, ccs, executed, writes, length⟩ := requestTrbs_kept s fills.length
  obtain ⟨dequeue', ccs', executed', writes', more, size, written'⟩ :=
    fillTrbs_eq (s.requestTrbs fills.length).2 _ fills length
  have added : (s.transferOf fills).written = s.written ++ more := written'.trans (by rw [written])
  refine ⟨rfl, dequeue'.trans dequeue, ccs'.trans ccs, executed'.trans executed,
    ⟨more, ?_, added⟩, ?_, fun produced => ?_⟩
  · rintro rfl
    exact some (List.length_eq_zero_iff.mp size.symm)
  · refine List.Subset.trans writes ?_
    show _ ⊆ (fillTrbs _ _ _).writes
    rw [writes']
    exact List.subset_append_left _ _
  · by_cases room : s.written.length + fills.length ≤ 256 * pages
    · refine Or.inl ?_
      have filled := produced_fillTrbs produced fills room executable
      rw [transferOf, requestTrbs_plain s fills.length fun j before => produced.plain (by omega)]
      exact { filled with }
    · refine Or.inr ⟨?_, slot page (256 * pages), ?_, not_inside_slot⟩
      · rw [added, List.length_append, size]
        omega
      · have used := produced.room
        have reaches := requestTrbs_reaches s (n := fills.length)
          (k := 256 * pages - s.written.length) (by omega) fun j before =>
            produced.plain (by omega)
        rw [← writes', produced.enqueue] at reaches
        have here : slot page s.written.length + 16 * (256 * pages - s.written.length) =
            slot page (256 * pages) := by
          rw [slot, slot]
          omega
        rwa [here] at reaches

private theorem length_transferOf (s : ProducerRing)
    (fills : List (Bool → RawXhciTrb → RawXhciTrb)) :
    (s.transferOf fills).written.length = s.written.length + fills.length := by
  obtain ⟨written, _, _, _, _, length⟩ := requestTrbs_kept s fills.length
  obtain ⟨_, _, _, _, more, size, written'⟩ :=
    fillTrbs_eq (s.requestTrbs fills.length).2 _ fills length
  show (fillTrbs _ _ _).written.length = _
  rw [written', written, List.length_append, size]

private theorem issued_transfer {transfer : ControlTransfer} (ran : s.transfer transfer = some s') :
    Issued page pages rest s s' := by
  rw [transfer_eq] at ran
  obtain rfl := Option.some.inj ran
  exact issued_transferOf (fills_ne_nil transfer) (executable_fills transfer)

/-- The controller executed the first blocks, in order. -/
structure Consumed (page : Nat) (ccs : Bool) (s : ProducerRing) : Prop where
  ccs : s.ccs = ccs
  dequeuePointer : s.dequeuePointer = slot page s.executed.length
  order : s.executed <+: s.written
  complete : s.running = false → s.executed = s.written
  started : s.running = true → s.written ≠ []

/-- The controller finds nothing behind the last block. -/
def Ends (page pages : Nat) (rest : Nat → RawXhciTrb) (ccs : Bool) (n : Nat) : Prop :=
  n = 0 ∨ ccs = true ∧
    (n < 256 * pages ∨ n = 256 * pages ∧ (rest (slot page (256 * pages))).cycle = false)

theorem Ends.mono {ccs : Bool} {m n : Nat} (ends : Ends page pages rest ccs n) (less : m ≤ n) :
    Ends page pages rest ccs m := by
  rcases ends with none | ⟨bit, before | ⟨full, clear⟩⟩
  · exact Or.inl (by omega)
  · exact Or.inr ⟨bit, Or.inl (by omega)⟩
  · rcases less.lt_or_eq with before | same
    · exact Or.inr ⟨bit, Or.inl (by omega)⟩
    · exact Or.inr ⟨bit, Or.inr ⟨by omega, clear⟩⟩

/-- The block after the written ones. -/
theorem Produced.after {ccs : Bool} (produced : Produced page pages rest s)
    (ends : Ends page pages rest ccs s.written.length) (some : s.written ≠ []) :
    (s.memory (slot page s.written.length)).cycle = false := by
  have positive := List.length_pos_iff.mpr some
  rcases ends with none | ⟨_, before | ⟨full, clear⟩⟩
  · omega
  · rw [produced.free _ (Nat.le_refl _) before]
    rfl
  · rw [full, produced.behind]
    exact clear

/-- A block that is left is executed. -/
theorem Consumed.next {ccs : Bool} (consumed : Consumed page ccs s)
    (produced : Produced page pages rest s) (left : s.executed.length < s.written.length) :
    s.dequeuePointer = slot page s.executed.length ∧
    (s.memory s.dequeuePointer).Executable ∧
    s.executed ++ [(s.dequeuePointer, s.memory s.dequeuePointer)] <+: s.written := by
  obtain ⟨entry, executable⟩ := produced.written _ left
  rw [consumed.dequeuePointer]
  exact ⟨rfl, executable, CycleRing.consumed_concat consumed.order entry⟩

/-- A controller in the lap of the blocks executes the next one. -/
theorem Consumed.fetch (consumed : Consumed page true s) (produced : Produced page pages rest s)
    (running : s.running = true) (left : s.executed.length < s.written.length) :
    ∃ s', s.fetch = some s' ∧ Consumed page true s' ∧ s'.running = true ∧
      s'.executed.length = s.executed.length + 1 := by
  obtain ⟨here, executable, order⟩ := consumed.next produced left
  have length : (s.executed ++ [(s.dequeuePointer, s.memory s.dequeuePointer)]).length =
      s.executed.length + 1 := by simp
  have fetched : s.fetch = some { s with
      executed := s.executed ++ [(s.dequeuePointer, s.memory s.dequeuePointer)]
      dequeuePointer := s.dequeuePointer + 16 } := by
    rw [ProducerRing.fetch, if_pos running, if_pos (executable.1.trans consumed.ccs.symm),
      if_neg executable.2]
  refine ⟨_, fetched, ⟨consumed.ccs, ?_, order, fun stops => ?_, consumed.started⟩, running, length⟩
  · rw [length]
    show s.dequeuePointer + 16 = _
    rw [here, slot, slot]
    omega
  · exact absurd (running.symm.trans stops) (by decide)

private theorem consumed_fetch {ccs : Bool} (consumed : Consumed page ccs s)
    (produced : Produced page pages rest s) (ends : Ends page pages rest ccs s.written.length)
    (ran : s.fetch = some s') : Consumed page ccs s' := by
  cases running : s.running with
  | false =>
    rw [ProducerRing.fetch, running] at ran
    cases ran
  | true =>
    have some := consumed.started running
    have positive := List.length_pos_iff.mpr some
    -- The cycle state of the controller is the one of the blocks, or it would never start.
    obtain rfl : ccs = true := by
      rcases ends with none | ⟨bit, _⟩
      · omega
      · exact bit
    rcases consumed.order.length_le.lt_or_eq with left | all
    · obtain ⟨next, fetched, kept, _⟩ := consumed.fetch produced running left
      obtain rfl := Option.some.inj (fetched.symm.trans ran)
      exact kept
    · have clear : (s.memory s.dequeuePointer).cycle = false := by
        rw [consumed.dequeuePointer, all]
        exact produced.after ends some
      rw [ProducerRing.fetch, if_pos running, if_neg (by rw [clear, consumed.ccs]; decide)] at ran
      obtain rfl := Option.some.inj ran
      exact ⟨consumed.ccs, consumed.dequeuePointer, consumed.order,
        fun _ => consumed.order.eq_of_length all, fun runs => by cases runs⟩

/-- The controller writes nothing. -/
theorem fetch_kept (ran : s.fetch = some s') :
    s'.memory = s.memory ∧ s'.enqueuePointer = s.enqueuePointer ∧ s'.pcs = s.pcs ∧
    s'.writes = s.writes ∧ s'.written = s.written := by
  simp only [ProducerRing.fetch] at ran
  split at ran
  · split at ran
    · split at ran
      · obtain rfl := Option.some.inj ran
        exact ⟨rfl, rfl, rfl, rfl, rfl⟩
      · obtain rfl := Option.some.inj ran
        exact ⟨rfl, rfl, rfl, rfl, rfl⟩
    · obtain rfl := Option.some.inj ran
      exact ⟨rfl, rfl, rfl, rfl, rfl⟩
  · cases ran

private theorem produced_fetch (produced : Produced page pages rest s) (ran : s.fetch = some s') :
    Produced page pages rest s' := by
  obtain ⟨memory, enqueue, pcs, writes, written⟩ := fetch_kept ran
  obtain ⟨enqueue', pcs', room, written', free, behind, inside⟩ := produced
  rw [← written] at enqueue' room written' free
  rw [← memory] at written' free behind
  exact ⟨enqueue.trans enqueue', pcs.trans pcs', room, written', free, behind,
    by rwa [writes]⟩

section Runs

variable {R : Type} {issue : ProducerRing → R → Option ProducerRing}

/-- The invariant: the blocks fit and the controller follows, or one of them did not fit. -/
def Follows (page pages : Nat) (rest : Nat → RawXhciTrb) (ccs : Bool) (s : ProducerRing) : Prop :=
  Spilled page pages s ∨ Produced page pages rest s ∧
    (Ends page pages rest ccs s.written.length → Consumed page ccs s)

theorem follows_serve {ccs : Bool} (issues : ∀ s r s', issue s r = some s' →
      Issued page pages rest s s') (follows : Follows page pages rest ccs s)
    (action : ProducerAction R) (ran : serve issue s action = some s') :
    Follows page pages rest ccs s' := by
  cases action with
  | fetch =>
    obtain ⟨_, _, _, writes, written⟩ := fetch_kept ran
    rcases follows with spilled | ⟨produced, consumed⟩
    · refine Or.inl ?_
      rwa [Spilled, writes, written]
    · refine Or.inr ⟨produced_fetch produced ran, fun ends => ?_⟩
      rw [written] at ends
      exact consumed_fetch (consumed ends) produced ends ran
  | issue request =>
    have issued := issues _ _ _ ran
    obtain ⟨more, some, written⟩ := issued.written
    have longer : s.written.length ≤ s'.written.length := by
      rw [written, List.length_append]
      omega
    rcases follows with ⟨full, a, found, outside⟩ | ⟨produced, consumed⟩
    · exact Or.inl ⟨by omega, a, issued.writes found, outside⟩
    · rcases issued.produced produced with kept | spilled
      · refine Or.inr ⟨kept, fun ends => ?_⟩
        have before := consumed (ends.mono longer)
        refine ⟨issued.ccs.trans before.ccs, ?_, ?_, fun stops => ?_, fun _ none => ?_⟩
        · rw [issued.dequeuePointer, issued.executed]
          exact before.dequeuePointer
        · rw [issued.executed, written]
          exact before.order.trans (List.prefix_append _ _)
        · exact absurd (issued.running.symm.trans stops) (by decide)
        · rw [written] at none
          exact some (List.append_eq_nil_iff.mp none).2
      · exact Or.inl spilled

/-- While the controller finds an end, everything is in the pages and executed in order. -/
theorem Follows.staysInside {ccs : Bool} (follows : Follows page pages rest ccs s)
    (ends : Ends page pages rest ccs s.written.length) : StaysInside page pages s := by
  rcases follows with ⟨full, _⟩ | ⟨produced, consumed⟩
  · rcases ends with none | ⟨_, before | ⟨same, _⟩⟩
    · omega
    · omega
    · omega
  · exact ⟨produced.inside, (consumed ends).order, (consumed ends).complete⟩

/-- The controller has not looked at the ring. -/
structure Untouched (page : Nat) (ccs : Bool) (s : ProducerRing) : Prop where
  ccs : s.ccs = ccs
  dequeuePointer : s.dequeuePointer = slot page 0
  executed : s.executed = []
  running : s.written ≠ [] → s.running = true

private theorem untouched_issue {ccs : Bool} (issued : Issued page pages rest s s')
    (untouched : Untouched page ccs s) : Untouched page ccs s' where
  ccs := issued.ccs.trans untouched.ccs
  dequeuePointer := issued.dequeuePointer.trans untouched.dequeuePointer
  executed := issued.executed.trans untouched.executed
  running _ := issued.running

/-- Any order of requests and steps of the controller. -/
abbrev AnyRun (issue : ProducerRing → R → Option ProducerRing) :
    ProducerRing → ProducerRing → Prop :=
  Requests.Run (serve issue) fun _ _ => True

private theorem anyRun_fetch (ran : s.fetch = some s') : AnyRun issue s s' :=
  .single ⟨.fetch, trivial, ran⟩

theorem fetch_many (consumed : Consumed page true s) (produced : Produced page pages rest s)
    (running : s.running = true) (k : Nat) (few : s.executed.length + k ≤ s.written.length) :
    ∃ s', AnyRun issue s s' ∧ Consumed page true s' ∧ Produced page pages rest s' ∧
      s'.running = true ∧ s'.executed.length = s.executed.length + k ∧ s'.written = s.written := by
  induction k with
  | zero => exact ⟨s, .refl, consumed, produced, running, rfl, rfl⟩
  | succ k ih =>
    obtain ⟨s', run, consumed', produced', running', executed, written⟩ := ih (by omega)
    obtain ⟨next, fetched, consumed'', running'', executed'⟩ :=
      consumed'.fetch produced' running' (by rw [written]; omega)
    obtain ⟨_, _, _, _, written'⟩ := fetch_kept fetched
    exact ⟨next, run.trans (anyRun_fetch fetched), consumed'', produced_fetch produced' fetched,
      running'', by omega, written'.trans written⟩

/-- Where the controller finds no end, it stops too early, or goes on behind the blocks. -/
theorem not_staysInside {ccs : Bool} (follows : Follows page pages rest ccs s)
    (untouched : Untouched page ccs s) (overrun : ¬Ends page pages rest ccs s.written.length) :
    ∃ s', AnyRun issue s s' ∧ s'.written.length = s.written.length ∧
      ¬StaysInside page pages s' := by
  have some : s.written ≠ [] := fun none => overrun (Or.inl (by rw [none]; rfl))
  have positive := List.length_pos_iff.mpr some
  have running := untouched.running some
  rcases follows with ⟨_, a, found, outside⟩ | ⟨produced, _⟩
  · exact ⟨s, .refl, rfl, fun stays => outside (stays.inside a found)⟩
  cases bit : ccs with
  | false =>
    have first : (s.memory s.dequeuePointer).cycle = true := by
      rw [untouched.dequeuePointer]
      exact (produced.written 0 positive).2.1
    have fetched : s.fetch = Option.some { s with running := false } := by
      rw [ProducerRing.fetch, if_pos running,
        if_neg (by rw [first, untouched.ccs, bit]; decide)]
    refine ⟨_, anyRun_fetch fetched, rfl, fun stays => some ?_⟩
    rw [← stays.complete rfl]
    exact untouched.executed
  | true =>
    subst bit
    have none := untouched.executed
    have consumed : Consumed page true s := by
      refine ⟨untouched.ccs, ?_, ?_, fun stops => absurd (running.symm.trans stops) (by decide),
        fun _ => some⟩
      · rw [untouched.dequeuePointer, none]
        rfl
      · rw [none]
        exact List.nil_prefix
    have full : s.written.length = 256 * pages := by
      by_contra other
      exact overrun (Or.inr ⟨rfl, Or.inl (by have := produced.room; omega)⟩)
    have behind : (rest (slot page (256 * pages))).cycle = true := by
      by_contra clear
      exact overrun (Or.inr ⟨rfl, Or.inr ⟨full, Bool.eq_false_of_not_eq_true clear⟩⟩)
    obtain ⟨s', run, consumed', produced', running', executed, written⟩ :=
      @fetch_many _ _ _ _ _ issue consumed produced running s.written.length
        (by rw [none, List.length_nil, Nat.zero_add])
    have atEnd : (s'.memory s'.dequeuePointer).cycle = s'.ccs := by
      rw [consumed'.dequeuePointer, consumed'.ccs, executed, none, List.length_nil, Nat.zero_add,
        full, produced'.behind]
      exact behind
    -- Whatever is there is executed, and the list of what was executed is the longer one.
    obtain ⟨next, fetched, longer⟩ : ∃ next, s'.fetch = Option.some next ∧
        next.executed.length = s'.executed.length + 1 := by
      rw [ProducerRing.fetch, if_pos running', if_pos atEnd]
      split
      · exact ⟨_, rfl, by simp⟩
      · exact ⟨_, rfl, by simp⟩
    obtain ⟨_, _, _, _, written'⟩ := fetch_kept fetched
    refine ⟨next, run.trans (anyRun_fetch fetched), by rw [written', written], fun stays => ?_⟩
    have short := stays.order.length_le
    rw [longer, executed, written', written] at short
    omega

theorem staysInside_iff {ccs : Bool} {start : ProducerRing}
    (issues : ∀ s r s', issue s r = some s' → Issued page pages rest s s')
    (follows : Follows page pages rest ccs start) (n : Nat)
    (reached : ¬Ends page pages rest ccs n → ∃ s, AnyRun issue start s ∧ s.written.length = n ∧
      Untouched page ccs s) :
    (∀ s, AnyRun issue start s → s.written.length = n → StaysInside page pages s) ↔
      Ends page pages rest ccs n := by
  have kept : ∀ {s}, AnyRun issue start s → Follows page pages rest ccs s := fun run =>
    run.keeps follows fun _ action _ inv _ ran => follows_serve issues inv action ran
  constructor
  · intro stays
    by_contra overrun
    obtain ⟨s, run, rfl, untouched⟩ := reached overrun
    obtain ⟨s', later, written, leaves⟩ :=
      @not_staysInside _ _ _ _ _ issue _ (kept run) untouched overrun
    exact leaves (stays s' (run.trans later) written)
  · intro ends s run written
    rw [← written] at ends
    exact (kept run).staysInside ends

end Runs

theorem follows_new (page pages : Nat) (rest : Nat → RawXhciTrb) (ccs : Bool) :
    Follows page pages rest ccs (new page pages rest ccs) := by
  refine Or.inr ⟨⟨rfl, rfl, Nat.zero_le _, fun n before => absurd before (Nat.not_lt_zero n),
    fun n _ inside => ?_, ?_, fun a found => absurd found List.not_mem_nil⟩, fun _ => ⟨rfl, rfl,
    List.prefix_rfl, fun _ => rfl, fun runs => by cases runs⟩⟩
  · refine if_pos ⟨?_, ?_⟩
    · rw [slot]
      omega
    · rw [slot]
      omega
  · refine if_neg ?_
    rw [slot]
    omega

private theorem untouched_new (page pages : Nat) (rest : Nat → RawXhciTrb) (ccs : Bool) :
    Untouched page ccs (new page pages rest ccs) :=
  ⟨rfl, rfl, rfl, fun some => absurd rfl some⟩

private theorem commandRing_eq (page : Nat) (rest : Nat → RawXhciTrb) (register : BitVec 32) :
    commandRing page rest register = new page 2 rest (register.getLsbD 0) := by
  have pointer : writeCommandRingPointer register (0x1000 * page) / 64 * 64 = 0x1000 * page := by
    rw [writeCommandRingPointer]
    omega
  have bit : (writeCommandRingPointer register (0x1000 * page) % 2 == 1) = register.getLsbD 0 := by
    have low : writeCommandRingPointer register (0x1000 * page) % 2 = register.toNat % 2 := by
      rw [writeCommandRingPointer]
      omega
    rw [low, BitVec.getLsbD, Nat.testBit_zero]
    rfl
  rw [commandRing, pointer, bit]
  rfl

theorem reached_commands (page : Nat) (rest : Nat → RawXhciTrb) (ccs : Bool) (n : Nat) :
    ∃ s, AnyRun process (new page 2 rest ccs) s ∧ s.written.length = n ∧ Untouched page ccs s := by
  induction n with
  | zero => exact ⟨_, .refl, rfl, untouched_new page 2 rest ccs⟩
  | succ n ih =>
    obtain ⟨s, run, rfl, untouched⟩ := ih
    have ran : s.process .noOp = some _ := rfl
    refine ⟨_, run.tail ⟨.issue .noOp, trivial, ran⟩, ?_,
      untouched_issue (@issued_process page 2 rest _ _ _ ran) untouched⟩
    show (s.written ++ [_]).length = _
    rw [List.length_append, List.length_singleton]

theorem reached_transfers (page : Nat) (rest : Nat → RawXhciTrb) (n : Nat) (several : n ≠ 1) :
    ∃ s, AnyRun transfer (controlRing page rest) s ∧ s.written.length = n ∧
      Untouched page true s := by
  induction n using Nat.strong_induction_on with
  | h n ih =>
    -- A transfer after the ones before it.
    have last : ∀ t : ControlTransfer, (fills t).length ≤ n → n - (fills t).length ≠ 1 →
        ∃ s, AnyRun transfer (controlRing page rest) s ∧ s.written.length = n ∧
          Untouched page true s := by
      intro t enough several'
      have positive := List.length_pos_iff.mpr (fills_ne_nil t)
      obtain ⟨s, run, length, untouched⟩ := ih (n - (fills t).length) (by omega) several'
      have ran := transfer_eq s t
      refine ⟨_, run.tail ⟨.issue t, trivial, ran⟩, ?_,
        untouched_issue (@issued_transfer page 1 rest _ _ _ ran) untouched⟩
      rw [length_transferOf]
      omega
    by_cases none : n = 0
    · subst none
      exact ⟨_, .refl, rfl, untouched_new page 1 rest true⟩
    by_cases odd : n = 3
    · exact last (.read ⟨0, 0, 0, 0, 0⟩ 0 0 0 false) (Nat.le_of_eq odd.symm) (by
        show n - 3 ≠ 1
        omega)
    · exact last (.noData ⟨0, 0, 0, 0, 0⟩ 0 false) (by
        show 2 ≤ n
        omega) (by
        show n - 2 ≠ 1
        omega)

/-- The rings stay in their pages as long as they are shorter than these, or as long as these
with nothing behind them. -/
theorem staysInside_iff_short (page : Nat) (rest : Nat → RawXhciTrb) (register : BitVec 32)
    (n : Nat) :
    ((∀ s, AnyRun process (commandRing page rest register) s → s.written.length = n →
        StaysInside page 2 s) ↔
      (n = 0 ∨ register.getLsbD 0 = true ∧
        (n < 512 ∨ n = 512 ∧ (rest (0x1000 * page + 16 * 512)).cycle = false))) ∧
    ((∀ s, AnyRun transfer (controlRing page rest) s → s.written.length = n →
        StaysInside page 1 s) ↔
      (n < 256 ∨ n = 256 ∧ (rest (0x1000 * page + 16 * 256)).cycle = false)) := by
  constructor
  · rw [commandRing_eq]
    exact staysInside_iff (fun _ _ _ => issued_process) (follows_new page 2 rest _) n
      fun _ => reached_commands page rest _ n
  · refine (staysInside_iff (fun _ _ _ => issued_transfer) (follows_new page 1 rest true) n
      fun overrun => reached_transfers page rest n ?_).trans ?_
    · rintro rfl
      exact overrun (Or.inr ⟨rfl, Or.inl (by decide)⟩)
    · rw [Ends]
      constructor
      · rintro (rfl | ⟨_, ends⟩)
        · exact Or.inl (by decide)
        · exact ends
      · exact fun ends => Or.inr ⟨rfl, ends⟩

/-- The 513th command is written behind the pages of the command ring. -/
theorem not_staysInside_long : ∃ s,
    AnyRun process (commandRing 1 (fun _ => .zero) 1) s ∧ ¬StaysInside 1 2 s := by
  have ends : ¬Ends 1 2 (fun _ => .zero) true 513 := by
    rintro (none | ⟨_, before | ⟨same, _⟩⟩)
    · cases none
    · exact absurd before (by decide)
    · exact absurd same (by decide)
  rw [commandRing_eq]
  obtain ⟨s, run, length, untouched⟩ := reached_commands 1 (fun _ => .zero) true 513
  have follows : Follows 1 2 (fun _ => .zero) true s :=
    run.keeps (follows_new 1 2 (fun _ => .zero) true) fun _ action _ inv _ ran =>
      follows_serve (fun _ _ _ => issued_process) inv action ran
  obtain ⟨s', later, _, leaves⟩ :=
    @not_staysInside _ _ _ _ _ process _ follows untouched (by rwa [length])
  exact ⟨s', run.trans later, leaves⟩

end ProducerRing

end EmkKernel
