import Mathlib.Logic.Function.Basic
import EmkKernel.Drivers.NvmeQueue

/-!
# Cores that wait for NVMe completions

`dispatch_read` and `dispatch_write` (and `dispatch_admin`, for the queue 0) on any number of
cores, `nvme_irq`, and a controller that completes what was submitted in any order. Each
access to what cores and handler share is one step. The commands succeed, so their status
says as little as the one of an entry that was never written.
-/

namespace EmkKernel

/-- How far a core is in `dispatch_read`, with the value that it loaded last. -/
inductive DispatchPoint where
  | loadedCheck (checkQueue : BitVec 8)
  | registered
  | loadedCount (num : Nat)
  | counted
  | loadedSlot (tailValue : Nat)
  | written
  | loadedTail (tailValue : Nat)
  | advanced
  | loadedDoorbell (tailValue : Nat)
  | waiting
  deriving DecidableEq

inductive NvmeCore where
  | idle
  | dispatching (queue : Nat) (point : DispatchPoint)
  deriving DecidableEq

/-- How far `nvme_irq` is: with `interrupt_value`, the queue it looks at, and the bound and the
variable of the loop over the completions. -/
inductive NvmeIrq where
  | idle
  | looking (interruptValue : BitVec 8) (i : Nat)
  | unissuing (interruptValue : BitVec 8) (i num k : Nat)
  deriving DecidableEq

/-- A command is known by its core and by how many commands that core waited for before. -/
structure NvmeSystem (ι : Type*) where
  checkQueue : BitVec 8
  numOutstandingCompletions : Nat → Nat
  numQueuesImplemented : Nat
  queues : Nat → NVMeQueue
  /-- How many entries the controller takes a submission queue to have. -/
  sizes : Nat → Nat
  /-- The entries of the submission queues. -/
  entries : Nat → Nat → Option (ι × Nat)
  cores : ι → NvmeCore
  calls : ι → Nat
  returned : List (Nat × ι × Nat)
  irq : NvmeIrq
  /-- What the controller was told last, what it has not completed, and what it has. -/
  doorbells : Nat → Nat
  submitted : Nat → List (ι × Nat)
  posted : Nat → List (ι × Nat)
  consumed : Nat → Nat
  interrupt : Bool

inductive NvmeStep (ι : Type*) where
  | call (core : ι) (queue : Nat)
  | access (core : ι)
  | post (queue : Nat) (command : ι × Nat)
  | deliver
  | handle

namespace NvmeSystem

/-- The controller is set up and no command is under way. -/
def start (ι : Type*) (numQueuesImplemented : Nat) (queues : Nat → NVMeQueue)
    (sizes : Nat → Nat) : NvmeSystem ι where
  checkQueue := 0
  numOutstandingCompletions := fun _ => 0
  numQueuesImplemented
  queues
  sizes
  entries := fun _ _ => none
  cores := fun _ => .idle
  calls := fun _ => 0
  returned := []
  irq := .idle
  doorbells := fun _ => 0
  submitted := fun _ => []
  posted := fun _ => []
  consumed := fun _ => 0
  interrupt := false

variable {ι : Type*} [DecidableEq ι] (s : NvmeSystem ι)

/-- `1 << queue`. -/
def bit (queue : Nat) : BitVec 8 := 1#8 <<< queue

/-- `dispatch_admin` stores a one, the others add one. -/
def nextCount (queue num : Nat) : Nat := if queue = 0 then 1 else num + 1

/-- The slots that a value of the tail doorbell tells the controller of. -/
def toldSlots (queue value : Nat) : List Nat :=
  let size := s.sizes queue
  (List.range ((value + size - s.doorbells queue) % size)).map fun k =>
    (s.doorbells queue + k) % size

/-- The commands in them. -/
def told (queue value : Nat) : List (ι × Nat) :=
  (s.toldSlots queue value).filterMap (s.entries queue)

def move (core : ι) (queue : Nat) (point : DispatchPoint) : NvmeSystem ι :=
  { s with cores := Function.update s.cores core (.dispatching queue point) }

/-- `read_into_buffer` only passes queues that there are. The first access is the load of
`check_queue |= 1 << queue`. -/
def call (core : ι) (queue : Nat) : Option (NvmeSystem ι) :=
  if s.cores core = .idle ∧ queue < s.numQueuesImplemented ∧ queue < 8 then
    some (s.move core queue (.loadedCheck s.checkQueue))
  else none

/-- The next access of `dispatch_read` and of the `issue_read` in it. -/
def dispatch (core : ι) (queue : Nat) : DispatchPoint → Option (NvmeSystem ι)
  | .loadedCheck checkQueue =>
    some { s.move core queue .registered with checkQueue := checkQueue ||| bit queue }
  | .registered => some (s.move core queue (.loadedCount (s.numOutstandingCompletions queue)))
  | .loadedCount num =>
    if nextCount queue num < 256 then
      some { s.move core queue .counted with
        numOutstandingCompletions :=
          Function.update s.numOutstandingCompletions queue (nextCount queue num) }
    else none
  | .counted => some (s.move core queue (.loadedSlot (s.queues queue).tailValue))
  | .loadedSlot tailValue =>
    if tailValue < (s.queues queue).size then
      some { s.move core queue .written with
        entries := Function.update s.entries queue
          (Function.update (s.entries queue) tailValue (some (core, s.calls core))) }
    else none
  | .written => some (s.move core queue (.loadedTail (s.queues queue).tailValue))
  | .loadedTail tailValue =>
    ((s.queues queue).advanced tailValue).map fun tailValue =>
      { s.move core queue .advanced with
        queues := Function.update s.queues queue { s.queues queue with tailValue } }
  | .advanced => some (s.move core queue (.loadedDoorbell (s.queues queue).tailValue))
  | .loadedDoorbell tailValue =>
    some { s.move core queue .waiting with
      doorbells := Function.update s.doorbells queue tailValue
      submitted := Function.update s.submitted queue
        (s.submitted queue ++ s.told queue tailValue) }
  | .waiting =>
    if s.checkQueue &&& bit queue ≠ 0 then some s
    else
      some { s with
        cores := Function.update s.cores core .idle
        calls := Function.update s.calls core (s.calls core + 1)
        returned := s.returned ++ [(queue, core, s.calls core)] }

def access (core : ι) : Option (NvmeSystem ι) :=
  match s.cores core with
  | .idle => none
  | .dispatching queue point => s.dispatch core queue point

/-- A completion, and the interrupt that it asks for, alone or with others. -/
def post (queue : Nat) (command : ι × Nat) : Option (NvmeSystem ι) :=
  if command ∈ s.submitted queue then
    some { s with
      submitted := Function.update s.submitted queue ((s.submitted queue).erase command)
      posted := Function.update s.posted queue (s.posted queue ++ [command])
      interrupt := true }
  else none

/-- The interrupt reaches the processor, and `nvme_irq` loads `check_queue`. -/
def deliver : Option (NvmeSystem ι) :=
  if s.interrupt ∧ s.irq = .idle then
    some { s with interrupt := false, irq := .looking s.checkQueue 0 }
  else none

/-- The next access of `nvme_irq`. -/
def handle : Option (NvmeSystem ι) :=
  match s.irq with
  | .idle => none
  | .looking interruptValue i =>
    if i < s.numQueuesImplemented then
      -- the shift of an `u8`
      if 8 ≤ i then none
      else if interruptValue &&& bit i ≠ 0 then
        some { s with
          irq := .unissuing (interruptValue ^^^ bit i) i (s.numOutstandingCompletions i) 0 }
      else some { s with irq := .looking interruptValue (i + 1) }
    else some { s with irq := .idle, checkQueue := interruptValue }
  | .unissuing interruptValue i num k =>
    if k < num then
      (s.queues i).unissueSilent.map fun unissued =>
        { s with
          irq := .unissuing interruptValue i num (k + 1)
          queues := Function.update s.queues i unissued.2
          consumed := Function.update s.consumed i (s.consumed i + 1) }
    else
      some { s with
        irq := .looking interruptValue (i + 1)
        numOutstandingCompletions := Function.update s.numOutstandingCompletions i 0 }

def step : NvmeStep ι → Option (NvmeSystem ι)
  | .call core queue => s.call core queue
  | .access core => s.access core
  | .post queue command => s.post queue command
  | .deliver => s.deliver
  | .handle => s.handle

end NvmeSystem

end EmkKernel
