import EmkKernel.Library.WordFields

/-!
# Control transfers of an OHCI endpoint

`OhciNonPeriodicEndpoint::send_setup_status` and `send_setup_out_status`: the transfer
descriptors they write, and what a controller processes from the head pointer to the tail.
-/

namespace EmkKernel

open WordFields

/-- `GeneralTD`, dword by dword. -/
structure GeneralTD where
  control : BitVec 32
  cbp : BitVec 32
  nextTd : BitVec 32
  bufferEnd : BitVec 32

namespace GeneralTD

variable (td : GeneralTD)

def zeroOut : GeneralTD := ⟨0, 0, 0, 0⟩

/-- The direction `Dp`. -/
def setDp (value : BitVec 32) : GeneralTD := { td with control := setPart td.control 0x3 19 value }

def dp : BitVec 32 := getPart td.control 0x3 19

/-- The interrupt delay `Di`. -/
def setDi (value : BitVec 32) : GeneralTD := { td with control := setPart td.control 0x7 21 value }

/-- The data toggle `T`. -/
def setT (value : BitVec 32) : GeneralTD := { td with control := setPart td.control 0x3 24 value }

def t : BitVec 32 := getPart td.control 0x3 24

/-- The buffer rounding `R`. -/
def setR (value : Bool) : GeneralTD := { td with control := setBit td.control 18 value }

def writeCbp (value : BitVec 32) : GeneralTD := { td with cbp := value }

def writeNextTd (value : BitVec 32) : GeneralTD := { td with nextTd := value >>> 4 <<< 4 }

def writeBufferEnd (value : BitVec 32) : GeneralTD := { td with bufferEnd := value }

end GeneralTD

/-- The dwords of `OhciEndpointDescriptor` that the transfers read and write. -/
structure OhciEndpointDescriptor where
  control : BitVec 32
  tailP : BitVec 32
  headDword : BitVec 32

namespace OhciEndpointDescriptor

variable (descriptor : OhciEndpointDescriptor)

/-- The endpoint number `En`. -/
def en : BitVec 32 := getPart descriptor.control 0xF 7

/-- Skip, the bit `K`. -/
def skip : Bool := descriptor.control.getLsbD 14

def setSkip (value : Bool) : OhciEndpointDescriptor :=
  { descriptor with control := setBit descriptor.control 14 value }

/-- The bit `H`. -/
def halted : Bool := descriptor.headDword.getLsbD 0

def headP : BitVec 32 := descriptor.headDword >>> 4 <<< 4

def writeHeadP (value : BitVec 32) : OhciEndpointDescriptor :=
  { descriptor with headDword := value ||| descriptor.headDword &&& 0x3 }

def writeTailP (value : BitVec 32) : OhciEndpointDescriptor := { descriptor with tailP := value }

end OhciEndpointDescriptor

/-- `OhciNonPeriodicEndpoint` with the memory its descriptors are in, which is read descriptor
by descriptor. -/
structure OhciNonPeriodicEndpoint where
  memory : Nat → GeneralTD
  descriptor : OhciEndpointDescriptor
  transferDescriptors : Nat
  control : Bool

namespace OhciNonPeriodicEndpoint

def ohciTransferDescriptorProcessed : BitVec 32 := 1 <<< 31

/-- `PidCode::as_ohci`. -/
def setupToken : BitVec 32 := 0

def outToken : BitVec 32 := 1

def inToken : BitVec 32 := 2

/-- `buffer + (length - 1)` in `u32`. -/
def endOf (buffer length : Nat) : Option Nat :=
  if length = 0 ∨ 2 ^ 32 ≤ buffer + (length - 1) then none else some (buffer + (length - 1))

variable (ep : OhciNonPeriodicEndpoint)

/-- The next pointer of the last descriptor, with the count for the handler. -/
def marker : BitVec 32 :=
  if ep.control then ohciTransferDescriptorProcessed ||| 2 <<< 20 ||| ep.descriptor.en <<< 10
  else ohciTransferDescriptorProcessed ||| 2 <<< 20

def address (index : Nat) : Nat := ep.transferDescriptors + 16 * index

/-- The pointers of the descriptor that are written when the chain is complete. -/
def start (tail : BitVec 32) : OhciEndpointDescriptor :=
  ((ep.descriptor.writeHeadP (BitVec.ofNat 32 ep.transferDescriptors)).writeTailP tail).setSkip
    false

def setupTd (buffer bufferEnd : Nat) (exactFit : Bool) (next : BitVec 32) : GeneralTD :=
  ((((((GeneralTD.zeroOut.setDp setupToken).setDi 0b111).setR !exactFit).writeCbp
    (BitVec.ofNat 32 buffer)).writeBufferEnd (BitVec.ofNat 32 bufferEnd)).writeNextTd next).setT
      0b10

def outTd (buffer bufferEnd : Nat) (exactFit : Bool) (next : BitVec 32) : GeneralTD :=
  ((((((GeneralTD.zeroOut.setDp outToken).setDi 0b111).setR !exactFit).writeCbp
    (BitVec.ofNat 32 buffer)).writeBufferEnd (BitVec.ofNat 32 bufferEnd)).writeNextTd next).setT
      0b11

/-- The status descriptor without a buffer. -/
def statusTd (interruptDelay : BitVec 8) (next : BitVec 32) : GeneralTD :=
  (((GeneralTD.zeroOut.setDp inToken).setDi (interruptDelay.setWidth 32)).writeNextTd next).setT
    0b11

/-- Nothing is returned where the arithmetic panics. -/
def sendSetupStatus (interruptDelay : BitVec 8)
    (setupBuffer setupBufferLength statusBuffer statusBufferLength : Nat) (exactFit : Bool) :
    Option OhciNonPeriodicEndpoint := do
  let setupEnd ← endOf setupBuffer setupBufferLength
  let statusEnd ← endOf statusBuffer statusBufferLength
  let status := ((statusTd interruptDelay ep.marker).writeCbp
    (BitVec.ofNat 32 statusBuffer)).writeBufferEnd (BitVec.ofNat 32 statusEnd)
  let setup := setupTd setupBuffer setupEnd exactFit (BitVec.ofNat 32 (ep.address 1))
  pure { ep with
    memory := Function.update (Function.update ep.memory (ep.address 0) setup) (ep.address 1) status
    descriptor := ep.start status.nextTd }

def sendSetupOutStatus (interruptDelay : BitVec 8)
    (setupBuffer setupBufferLength outBuffer outBufferLength : Nat) (exactFit : Bool) :
    Option OhciNonPeriodicEndpoint := do
  let setupEnd ← endOf setupBuffer setupBufferLength
  let outEnd ← endOf outBuffer outBufferLength
  let status := statusTd interruptDelay ep.marker
  -- the setup descriptor is linked to the status descriptor
  let setup := setupTd setupBuffer setupEnd exactFit (BitVec.ofNat 32 (ep.address 2))
  let out := outTd outBuffer outEnd exactFit (BitVec.ofNat 32 (ep.address 2))
  pure { ep with
    memory := Function.update (Function.update (Function.update ep.memory (ep.address 0) setup)
      (ep.address 1) out) (ep.address 2) status
    descriptor := ep.start status.nextTd }

/-! ### The controller -/

/-- What a controller reads in a descriptor. -/
structure Stage where
  pid : BitVec 32
  toggle : BitVec 32
  cbp : BitVec 32
  bufferEnd : BitVec 32

/-- A stage with its buffer; an empty one has the buffer 0 of length 1. -/
def Stage.of (pid toggle : BitVec 32) (buffer length : Nat) : Stage where
  pid := pid
  toggle := toggle
  cbp := BitVec.ofNat 32 buffer
  bufferEnd := BitVec.ofNat 32 (buffer + (length - 1))

def stage (td : GeneralTD) : Stage := ⟨td.dp, td.t, td.cbp, td.bufferEnd⟩

def data0 : BitVec 32 := 0b10

def data1 : BitVec 32 := 0b11

/-- The descriptors between a head pointer and the tail, in order. -/
inductive Processes (memory : Nat → GeneralTD) (tail : BitVec 32) :
    BitVec 32 → List GeneralTD → Prop
  | done : Processes memory tail tail []
  | next {head : BitVec 32} {rest : List GeneralTD} (before : head ≠ tail)
      (behind : Processes memory tail (memory head.toNat).nextTd rest) :
      Processes memory tail head (memory head.toNat :: rest)

/-- The controller takes the stages in order, and the handler is told how many there are. -/
def Executes (ep : OhciNonPeriodicEndpoint) (stages : List Stage) : Prop :=
  ep.descriptor.skip = false ∧ ep.descriptor.halted = false ∧
  ∃ tds, Processes ep.memory (ep.descriptor.tailP >>> 4 <<< 4) ep.descriptor.headP tds ∧
    tds.map stage = stages ∧ (ep.descriptor.tailP >>> 20 &&& 0xFF).toNat = tds.length

private theorem processes_unique {memory : Nat → GeneralTD} {tail head : BitVec 32}
    {first second : List GeneralTD} (left : Processes memory tail head first)
    (right : Processes memory tail head second) : first = second := by
  induction left generalizing second with
  | done =>
    cases right with
    | done => rfl
    | next before _ => exact absurd rfl before
  | next before _ ih =>
    cases right with
    | done => exact absurd rfl before
    | next _ behind => rw [ih behind]

/-! ### The dwords -/

private theorem shift_back {word : BitVec 32} (low : ∀ i < 4, word.getLsbD i = false) :
    word >>> 4 <<< 4 = word := by
  apply BitVec.eq_of_getLsbD_eq
  intro i small
  rw [getLsbD_shift_back _ _ small]
  split
  next => rfl
  next free => rw [low i (Nat.lt_of_not_le free)]

private theorem ofNat_back {address : Nat} (aligned : 2 ^ 4 ∣ address) :
    BitVec.ofNat 32 address >>> 4 <<< 4 = BitVec.ofNat 32 address :=
  shift_back fun _ low => getLsbD_aligned aligned low

theorem en_shift (x : BitVec 32) {i : Nat} (outside : i < 10 ∨ 14 ≤ i) :
    (getPart x 0xF 7 <<< 10).getLsbD i = false := by
  have mask : ∀ n, 4 ≤ n → (0xF : BitVec 32).getLsbD n = false := by
    intro n high
    by_cases small : n < 32
    · have all : ∀ n < 32, 4 ≤ n → (0xF : BitVec 32).getLsbD n = false := by decide
      exact all n small high
    · exact BitVec.getLsbD_of_ge _ _ (Nat.le_of_not_lt small)
  rw [BitVec.getLsbD_shiftLeft]
  rcases outside with low | high
  · rw [decide_eq_true low, Bool.not_true, Bool.and_false, Bool.false_and]
  · rw [getPart, BitVec.getLsbD_and, mask (i - 10) (by omega), Bool.and_false, Bool.and_false]

private theorem marker_back (ep : OhciNonPeriodicEndpoint) : ep.marker >>> 4 <<< 4 = ep.marker := by
  apply shift_back
  intro i low
  have fixed : ∀ n < 4, (ohciTransferDescriptorProcessed ||| 2 <<< 20).getLsbD n = false := by
    decide
  rw [marker]
  split
  · rw [BitVec.getLsbD_or, fixed i low, OhciEndpointDescriptor.en, en_shift _ (by omega)]
    rfl
  · exact fixed i low

private theorem marker_count (ep : OhciNonPeriodicEndpoint) :
    (ep.marker >>> 20 &&& 0xFF).toNat = 2 := by
  have fixed : (ohciTransferDescriptorProcessed ||| 2 <<< 20) >>> 20 &&& 0xFF = 2#32 := by decide
  have same : ep.marker >>> 20 &&& 0xFF = 2#32 := by
    rw [marker]
    split
    · rw [← fixed]
      apply BitVec.eq_of_getLsbD_eq
      intro i small
      rw [BitVec.getLsbD_and, BitVec.getLsbD_and, BitVec.getLsbD_ushiftRight,
        BitVec.getLsbD_ushiftRight, BitVec.getLsbD_or, OhciEndpointDescriptor.en,
        en_shift _ (by omega), Bool.or_false]
    · exact fixed
  rw [same]
  rfl

private theorem stage_setupTd (buffer bufferEnd : Nat) (exactFit : Bool) (next : BitVec 32) :
    stage (setupTd buffer bufferEnd exactFit next) =
      ⟨setupToken, data0, BitVec.ofNat 32 buffer, BitVec.ofNat 32 bufferEnd⟩ := by
  simp only [stage, Stage.mk.injEq]
  refine ⟨?_, getPart_setPart _ _ (by decide), rfl, rfl⟩
  change getPart (setPart (setBit (setPart (setPart 0 0x3 19 setupToken) 0x7 21 0b111) 18 !exactFit)
    0x3 24 0b10) 0x3 19 = setupToken
  rw [getPart_setPart_other _ _ (by decide), getPart_setBit _ _ (by decide),
    getPart_setPart_other _ _ (by decide), getPart_setPart _ _ (by decide)]
  rfl

private theorem dp_statusTd (interruptDelay : BitVec 8) (next : BitVec 32) :
    (statusTd interruptDelay next).dp = inToken := by
  change getPart (setPart (setPart (setPart 0 0x3 19 inToken) 0x7 21 (interruptDelay.setWidth 32))
    0x3 24 0b11) 0x3 19 = inToken
  rw [getPart_setPart_other _ _ (by decide), getPart_setPart_other _ _ (by decide),
    getPart_setPart _ _ (by decide)]
  rfl

private theorem t_statusTd (interruptDelay : BitVec 8) (next : BitVec 32) :
    (statusTd interruptDelay next).t = data1 := getPart_setPart _ _ (by decide)

private theorem endOf_eq {buffer length last : Nat} (inU32 : endOf buffer length = some last) :
    last = buffer + (length - 1) := by
  unfold endOf at inU32
  split at inU32
  · cases inU32
  · exact (Option.some.inj inU32).symm

/-! ### The chain of a transfer -/

variable {ep ep' : OhciNonPeriodicEndpoint}

private theorem skip_start (tail : BitVec 32) : (ep.start tail).skip = false := by
  change (setBit ep.descriptor.control 14 false).getLsbD 14 = false
  rw [getLsbD_setBit _ _ (by decide), if_pos rfl]

private theorem headDword_bits (aligned : 2 ^ 4 ∣ ep.transferDescriptors) (tail : BitVec 32)
    {i : Nat} (inside : i < 32) : (ep.start tail).headDword.getLsbD i =
      if i < 2 then ep.descriptor.headDword.getLsbD i
      else (BitVec.ofNat 32 ep.transferDescriptors).getLsbD i := by
  have mask : ∀ n < 32, (0x3 : BitVec 32).getLsbD n = decide (n < 2) := by decide
  change (BitVec.ofNat 32 ep.transferDescriptors ||| ep.descriptor.headDword &&& 0x3).getLsbD i = _
  rw [BitVec.getLsbD_or, BitVec.getLsbD_and, mask i inside]
  split
  next low =>
    rw [getLsbD_aligned aligned (by omega), decide_eq_true low, Bool.false_or, Bool.and_true]
  next high => rw [decide_eq_false high, Bool.and_false, Bool.or_false]

private theorem halted_start (aligned : 2 ^ 4 ∣ ep.transferDescriptors) (tail : BitVec 32) :
    (ep.start tail).halted = ep.descriptor.halted := by
  rw [OhciEndpointDescriptor.halted, headDword_bits aligned tail (by decide), if_pos (by decide)]
  rfl

private theorem headP_start (aligned : 2 ^ 4 ∣ ep.transferDescriptors) (tail : BitVec 32) :
    (ep.start tail).headP = BitVec.ofNat 32 ep.transferDescriptors := by
  rw [OhciEndpointDescriptor.headP]
  apply BitVec.eq_of_getLsbD_eq
  intro i small
  rw [getLsbD_shift_back _ _ small]
  split
  next high => rw [headDword_bits aligned tail small, if_neg (by omega)]
  next free => rw [getLsbD_aligned aligned (Nat.lt_of_not_le free)]

/-- Two linked descriptors, of which the second one points at the tail, are both processed exactly
if neither of them is the tail. -/
theorem processes_pair {memory : Nat → GeneralTD} {tail head second : BitVec 32}
    (first : (memory head.toNat).nextTd = second) (last : (memory second.toNat).nextTd = tail) :
    (∃ tds, Processes memory tail head tds ∧ tds.length ≠ 2 ∧ ¬(head ≠ tail ∧ second ≠ tail)) ∨
    (Processes memory tail head [memory head.toNat, memory second.toNat] ∧ head ≠ tail ∧
      second ≠ tail) := by
  by_cases empty : head = tail
  · exact Or.inl ⟨[], empty ▸ .done, by simp, fun apart => apart.1 empty⟩
  · by_cases short : second = tail
    · have behind : Processes memory tail (memory head.toNat).nextTd [] := by
        rw [first, short]
        exact .done
      exact Or.inl ⟨_, .next empty behind, by simp, fun apart => apart.2 short⟩
    · have ended : Processes memory tail (memory second.toNat).nextTd [] := by
        rw [last]
        exact .done
      have behind : Processes memory tail (memory head.toNat).nextTd [memory second.toNat] := by
        rw [first]
        exact .next short ended
      exact Or.inr ⟨.next empty behind, empty, short⟩

variable (aligned : 2 ^ 4 ∣ ep.transferDescriptors)
  (inside : ep.transferDescriptors + 48 ≤ 2 ^ 32)

private theorem address_ne {i j : Nat} (apart : i ≠ j) : ep.address i ≠ ep.address j := by
  rw [address, address]
  omega

section

include aligned inside

theorem toNat_address {index : Nat} (small : index < 3) :
    (BitVec.ofNat 32 (ep.address index)).toNat = ep.address index := by
  rw [BitVec.toNat_ofNat, Nat.mod_eq_of_lt]
  rw [address]
  omega

omit inside in
theorem address_back (index : Nat) :
    BitVec.ofNat 32 (ep.address index) >>> 4 <<< 4 = BitVec.ofNat 32 (ep.address index) := by
  apply ofNat_back
  exact Nat.dvd_add aligned (Nat.dvd_mul_right 16 index)

/-- The chain of a transfer: the head is the setup descriptor, which is linked to the one with
the index, and that one holds the marker. -/
structure Chained (ep ep' : OhciNonPeriodicEndpoint) (index : Nat) : Prop where
  descriptor : ep'.descriptor = ep.start ep.marker
  setup : (ep'.memory (ep.address 0)).nextTd = BitVec.ofNat 32 (ep.address index)
  status : (ep'.memory (ep.address index)).nextTd = ep.marker

/-- The controller takes the two descriptors of the chain, as many as the handler counts. -/
theorem executes_iff_of_chained {index : Nat} (small : index < 3)
    (chained : Chained ep ep' index) (stages : List Stage) :
    Executes ep' stages ↔ ep.descriptor.halted = false ∧
      (BitVec.ofNat 32 (ep.address 0) ≠ ep.marker ∧
        BitVec.ofNat 32 (ep.address index) ≠ ep.marker) ∧
      [ep'.memory (ep.address 0), ep'.memory (ep.address index)].map stage = stages := by
  have head := headP_start aligned ep.marker
  have first : (ep'.memory (BitVec.ofNat 32 (ep.address 0)).toNat).nextTd =
      BitVec.ofNat 32 (ep.address index) := by
    rw [toNat_address aligned inside (by decide), chained.setup]
  have last : (ep'.memory (BitVec.ofNat 32 (ep.address index)).toNat).nextTd = ep.marker := by
    rw [toNat_address aligned inside small, chained.status]
  have pair := processes_pair first last
  rw [toNat_address aligned inside (by decide), toNat_address aligned inside small] at pair
  rw [Executes, chained.descriptor, skip_start, halted_start aligned, head,
    show (ep.start ep.marker).tailP = ep.marker from rfl, marker_back, marker_count]
  constructor
  · rintro ⟨_, running, tds, processed, taken, count⟩
    refine ⟨running, ?_⟩
    rcases pair with ⟨tds', processed', other, _⟩ | ⟨both, apart⟩
    · rw [processes_unique processed' processed] at other
      exact absurd count.symm other
    · rw [processes_unique processed both] at taken
      exact ⟨apart, taken⟩
  · rintro ⟨running, apart, taken⟩
    refine ⟨rfl, running, ?_⟩
    rcases pair with ⟨_, _, _, met⟩ | ⟨both, _⟩
    · exact absurd apart met
    · exact ⟨_, both, taken, rfl⟩

end

/-! ### The two transfers -/

variable {interruptDelay : BitVec 8} {exactFit : Bool}
  {setupBuffer setupBufferLength outBuffer outBufferLength statusBuffer statusBufferLength : Nat}

/-- The stages of `send_setup_status`. -/
def setupStatusStages (setupBuffer setupBufferLength statusBuffer statusBufferLength : Nat) :
    List Stage :=
  [.of setupToken data0 setupBuffer setupBufferLength,
    .of inToken data1 statusBuffer statusBufferLength]

/-- The stages of `send_setup_out_status`, with an empty status stage. -/
def setupOutStatusStages (setupBuffer setupBufferLength outBuffer outBufferLength : Nat) :
    List Stage :=
  [.of setupToken data0 setupBuffer setupBufferLength,
    .of outToken data1 outBuffer outBufferLength, .of inToken data1 0 1]

private theorem sendSetupStatus_chained (aligned : 2 ^ 4 ∣ ep.transferDescriptors)
    (sent : ep.sendSetupStatus interruptDelay setupBuffer setupBufferLength statusBuffer
      statusBufferLength exactFit = some ep') :
    Chained ep ep' 1 ∧ [ep'.memory (ep.address 0), ep'.memory (ep.address 1)].map stage =
      setupStatusStages setupBuffer setupBufferLength statusBuffer statusBufferLength := by
  obtain ⟨setupEnd, setup, sent⟩ := Option.bind_eq_some_iff.mp sent
  obtain ⟨statusEnd, status, sent⟩ := Option.bind_eq_some_iff.mp sent
  cases sent
  obtain rfl := endOf_eq setup
  obtain rfl := endOf_eq status
  have apart : ep.address 0 ≠ ep.address 1 := address_ne (by decide)
  refine ⟨⟨congrArg ep.start (marker_back ep), ?_, ?_⟩, ?_⟩
  · dsimp only
    rw [Function.update_of_ne apart, Function.update_self]
    exact address_back aligned 1
  · dsimp only
    rw [Function.update_self]
    exact marker_back ep
  · dsimp only [List.map]
    rw [Function.update_self, Function.update_of_ne apart, Function.update_self, stage_setupTd]
    -- the buffer is written behind the parts of the first dword
    have pid := dp_statusTd interruptDelay ep.marker
    have toggle := t_statusTd interruptDelay ep.marker
    simp only [setupStatusStages, Stage.of, stage, GeneralTD.dp, GeneralTD.t,
      GeneralTD.writeBufferEnd, GeneralTD.writeCbp] at pid toggle ⊢
    rw [pid, toggle]

private theorem sendSetupOutStatus_chained (aligned : 2 ^ 4 ∣ ep.transferDescriptors)
    (sent : ep.sendSetupOutStatus interruptDelay setupBuffer setupBufferLength outBuffer
      outBufferLength exactFit = some ep') : Chained ep ep' 2 := by
  obtain ⟨setupEnd, _, sent⟩ := Option.bind_eq_some_iff.mp sent
  obtain ⟨outEnd, _, sent⟩ := Option.bind_eq_some_iff.mp sent
  cases sent
  have first : ep.address 0 ≠ ep.address 1 := address_ne (by decide)
  have last : ep.address 0 ≠ ep.address 2 := address_ne (by decide)
  refine ⟨congrArg ep.start (marker_back ep), ?_, ?_⟩
  · dsimp only
    rw [Function.update_of_ne last, Function.update_of_ne first, Function.update_self]
    exact address_back aligned 2
  · dsimp only
    rw [Function.update_self]
    exact marker_back ep

/-- A transfer without a data stage is executed exactly if the endpoint is not halted and the
marker is the address of neither of its descriptors. A transfer with one never is: the setup
descriptor is linked past the data. -/
theorem executes_iff (aligned : 2 ^ 4 ∣ ep.transferDescriptors)
    (inside : ep.transferDescriptors + 48 ≤ 2 ^ 32) :
    (∀ ep', ep.sendSetupStatus interruptDelay setupBuffer setupBufferLength statusBuffer
        statusBufferLength exactFit = some ep' →
      (Executes ep'
          (setupStatusStages setupBuffer setupBufferLength statusBuffer statusBufferLength) ↔
        ep.descriptor.halted = false ∧ BitVec.ofNat 32 (ep.address 0) ≠ ep.marker ∧
          BitVec.ofNat 32 (ep.address 1) ≠ ep.marker)) ∧
    (∀ ep', ep.sendSetupOutStatus interruptDelay setupBuffer setupBufferLength outBuffer
        outBufferLength exactFit = some ep' →
      ¬Executes ep'
        (setupOutStatusStages setupBuffer setupBufferLength outBuffer outBufferLength)) := by
  constructor
  · intro ep' sent
    obtain ⟨chained, taken⟩ := sendSetupStatus_chained aligned sent
    rw [executes_iff_of_chained aligned inside (by decide) chained]
    constructor
    · exact fun executes => ⟨executes.1, executes.2.1⟩
    · exact fun running => ⟨running.1, running.2, taken⟩
  · intro ep' sent executes
    have chained := sendSetupOutStatus_chained aligned sent
    rw [executes_iff_of_chained aligned inside (by decide) chained] at executes
    -- two descriptors are not three stages
    have lengths : 2 = 3 := congrArg List.length executes.2.2
    exact absurd lengths (by decide)

/-- A device with a request at 0x2000 and its descriptors at 0x1000. -/
def sample : OhciNonPeriodicEndpoint where
  memory _ := GeneralTD.zeroOut
  descriptor := ⟨0, 0, 0⟩
  transferDescriptors := 0x1000
  control := true

theorem executes_iff_sample :
    ∃ ep', sample.sendSetupStatus 0 0x2000 8 0 1 true = some ep' ∧
      Executes ep' (setupStatusStages 0x2000 8 0 1) :=
  ⟨_, rfl, (((@executes_iff sample 0 true 0x2000 8 0 1 0 1) (by decide) (by decide)).1 _ rfl).mpr
    ⟨by decide, by decide, by decide⟩⟩

/-- Data for the device that the controller passes over. -/
theorem not_executes_out :
    ∃ ep', sample.sendSetupOutStatus 0 0x2000 8 0x3000 16 true = some ep' ∧
      ¬Executes ep' (setupOutStatusStages 0x2000 8 0x3000 16) := by
  refine ⟨_, rfl, fun executes => ?_⟩
  have aligned : 2 ^ 4 ∣ sample.transferDescriptors := by decide
  have chained : Chained sample _ 2 :=
    @sendSetupOutStatus_chained _ _ 0 true 0x2000 8 0x3000 16 aligned rfl
  rw [executes_iff_of_chained aligned (by decide) (by decide) chained] at executes
  exact absurd (congrArg List.length executes.2.2) (by decide)

end OhciNonPeriodicEndpoint

end EmkKernel
