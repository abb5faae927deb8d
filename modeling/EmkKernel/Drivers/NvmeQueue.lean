import EmkKernel.Library.Requests
import EmkKernel.Memory.Basic

/-!
# NVMe queues

`NVMeQueue`, how `NVMeController` creates queue pairs, and a controller that works on one of
them. What the driver does with the slots and the doorbells of a pair is recorded.
-/

namespace EmkKernel

def nvmeQueueMaxCid : Nat := 0x7FF

structure NVMeQueue where
  completionBase : Nat
  submissionBase : Nat
  head : Nat
  tail : Nat
  size : Nat
  cidMask : Nat
  currentCid : Nat
  headValue : Nat
  tailValue : Nat

namespace NVMeQueue

def new (completionBase submissionBase head tail size cidMask : Nat) : NVMeQueue :=
  ⟨completionBase, submissionBase, head, tail, size, cidMask, 0, 0, 0⟩

variable (self : NVMeQueue)

/-- `(value + 1) % (size - 1)`, with a panic for the difference and for the division. -/
def advanced (value : Nat) : Option Nat :=
  if self.size ≤ 1 then none else some ((value + 1) % (self.size - 1))

/-- `current_submit`: the address of an entry of the slice. -/
def currentSubmit : Option Nat :=
  if self.tailValue < self.size then some (self.submissionBase + 64 * self.tailValue) else none

def currentCompletion : Option Nat :=
  if self.headValue < self.size then some (self.completionBase + 16 * self.headValue) else none

/-- A slot, the register of the doorbell written after it, and the value written. -/
abbrev Access := Nat × Nat × Nat

/-- `issue_general`, `issue_read` and `issue_write` differ in the command that they write. -/
def issue : Option (Access × NVMeQueue) := do
  let currentCid := (self.currentCid + 1) % nvmeQueueMaxCid
  let slot ← self.currentSubmit
  let tailValue ← self.advanced self.tailValue
  some ((slot, self.tail, tailValue), { self with currentCid, tailValue })

/-- `unissue_silent`, whatever the status is. -/
def unissueSilent : Option (Access × NVMeQueue) := do
  let slot ← self.currentCompletion
  let headValue ← self.advanced self.headValue
  some ((slot, self.head, headValue), { self with headValue })

end NVMeQueue

/-- `NVMeCreationCommand`; the size is one less than the number of entries. -/
structure NVMeCreationCommand where
  qid : Nat
  cqid : Nat
  queueSize : Nat
  queue : Nat

namespace NVMeCreationCommand

def createIoCompletionQueue (qid queueSize queue : Nat) : NVMeCreationCommand :=
  ⟨qid, 0, queueSize, queue⟩

def createIoSubmissionQueue (qid cqid queueSize queue : Nat) : NVMeCreationCommand :=
  ⟨qid, cqid, queueSize, queue⟩

end NVMeCreationCommand

/-- `hdbl` and `tdbl` of the BAR. -/
structure NVMeBar where
  data : Nat
  dstrd : Nat

namespace NVMeBar

variable (self : NVMeBar)

def tdbl (tail : Nat) : Nat := self.data + (0x1000 + 2 * tail * (4 <<< self.dstrd))

def hdbl (head : Nat) : Nat := self.data + (0x1000 + (2 * head + 1) * (4 <<< self.dstrd))

end NVMeBar

/-- A pair of queues: the driver's side, the commands that told the controller of them, and
the memory allocated for the submission queue and the completion queue. -/
structure QueuePair where
  queue : NVMeQueue
  completion : NVMeCreationCommand
  submission : NVMeCreationCommand
  submissionMemory : MemoryBlock
  completionMemory : MemoryBlock

namespace NVMeController

variable (abar : NVMeBar)

/-- `setup_controller`. The sizes and addresses of the admin queues are in registers, which
say the same as commands for the queues 0 would. -/
def setupController (asq acq : MemoryBlock) : QueuePair where
  queue := .new acq.base asq.base (abar.hdbl 0) (abar.tdbl 0) 256 0
  completion := .createIoCompletionQueue 0 255 acq.base
  submission := .createIoSubmissionQueue 0 0 255 asq.base
  submissionMemory := asq
  completionMemory := acq

/-- The size of the queues of a pair. -/
def pairSize (mqes : Nat) : Nat := if 256 > mqes then mqes else 256

/-- `create_basic_io_pairs`, in the two pages that were allocated; `none` is a panic. -/
def createBasicIoPairs (mqes : Nat) (memory : MemoryBlock) : Option QueuePair :=
  let queueBase := memory.base
  let size := pairSize mqes
  if size = 0 then none
  else some {
    queue := .new queueBase (queueBase + 0x1000) (abar.hdbl 1) (abar.tdbl 1) size (1 <<< 14)
    completion := .createIoCompletionQueue 1 (size - 1) queueBase
    submission := .createIoSubmissionQueue 1 1 (size - 1) (queueBase + 0x1000)
    submissionMemory := memory
    completionMemory := memory }

/-- `create_io_pair`. -/
def createIoPair (numQueuesImplemented mqes : Nat) (memory : MemoryBlock) : Option QueuePair :=
  let queueBase := memory.base
  let size := pairSize mqes
  if size = 0 then none
  else some {
    queue := .new queueBase (queueBase + 0x1000) (abar.hdbl numQueuesImplemented)
      (abar.tdbl numQueuesImplemented) size (1 <<< 15)
    completion := .createIoCompletionQueue numQueuesImplemented (size - 1) queueBase
    submission := .createIoSubmissionQueue numQueuesImplemented 1 (size - 1) (queueBase + 0x1000)
    submissionMemory := memory
    completionMemory := memory }

end NVMeController

/-- A pair at work: the commands submitted and the completions taken by the driver, and how many
completions the controller posted. -/
structure PairState where
  queue : NVMeQueue
  submitted : List NVMeQueue.Access
  posted : Nat
  consumed : List NVMeQueue.Access

inductive PairStep where
  | issue
  | post
  | unissue

namespace QueuePair

variable (pair : QueuePair)

/-- The number of entries that the controller knows of. -/
def entries : Nat := pair.submission.queueSize + 1

def start : PairState := ⟨pair.queue, [], 0, []⟩

/-- A queue with all entries but one in use is full. A completion is posted for a command, and
taken after it was posted. -/
def step (s : PairState) : PairStep → Option PairState
  | .issue =>
    if s.submitted.length - s.consumed.length < pair.entries - 1 then do
      let issued ← s.queue.issue
      some { s with queue := issued.2, submitted := s.submitted ++ [issued.1] }
    else none
  | .post =>
    if s.posted < s.submitted.length then some { s with posted := s.posted + 1 } else none
  | .unissue =>
    if s.consumed.length < s.posted then do
      let unissued ← s.queue.unissueSilent
      some { s with queue := unissued.2, consumed := s.consumed ++ [unissued.1] }
    else none

/-- Any order of the steps. -/
abbrev Run : PairState → Prop := Requests.Run pair.step (fun _ _ => True) pair.start

end QueuePair

end EmkKernel
