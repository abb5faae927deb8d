import EmkKernel.Library.Requests
import EmkKernel.Memory.Basic

/-!
# Requests between processors

`Multithreading::send_user_ipi` and `await_ipi` on the sending processor, `kernel_ipi_dst` on
the receiving one, and the packet that both of them use. Every access to the packet is a
step, and the steps of the two processors come in any order. The history at the end of the
state is not part of the kernel: it says what the two of them did.
-/

namespace EmkKernel

inductive IpiRequestType where
  | invalid
  | syncVMem
  | summonApplication
  deriving DecidableEq

inductive IpiStatus where
  | invalid
  | pending
  | recieved
  | completed
  | failed
  deriving DecidableEq

/-- The union of what a request is about. -/
inductive IpiRequestData where
  | applicationToSummon (filePath : String)
  | vmemSync (paddr : MemoryBlock) (vaddr : Nat)
  deriving DecidableEq

def IpiRequestData.requestType : IpiRequestData → IpiRequestType
  | .applicationToSummon _ => .summonApplication
  | .vmemSync _ _ => .syncVMem

structure IpiDescriptorPacket where
  requestType : IpiRequestType
  status : IpiStatus
  requestData : IpiRequestData
  deriving DecidableEq

inductive PacketField where
  | status
  | requestType
  | requestData
  deriving DecidableEq

/-- The sender: `prepare_func` has fields left to store, or `await_ipi` has tries left. -/
inductive IpiSender where
  | idle
  | preparing (request : IpiRequestData) (todo : List PacketField)
  | awaiting (request : IpiRequestData) (tries : Nat)
  | gaveUp (request : IpiRequestData)
  deriving DecidableEq

/-- What the handler does at its ends. -/
inductive HandlerStore where
  | eoi
  | requestTypeInvalid
  | status (status : IpiStatus)
  deriving DecidableEq

/-- The handler, with the number of the request that it works on. -/
inductive IpiReceiver where
  | idle
  | entered
  | dispatching
  | mapping (number pages i : Nat)
  | summoning (number : Nat)
  | finishing (number : Nat) (todo : List HandlerStore)
  | halted
  deriving DecidableEq

structure IpiState where
  packet : IpiDescriptorPacket
  pendingIpi : Bool
  sender : IpiSender
  receiver : IpiReceiver
  /-- The requests that were begun, and the one whose data is in the packet. -/
  sent : Nat
  held : Nat
  mapped : List (Nat × Nat)
  summoned : List String
  served : List (Nat × Bool)
  reports : List (Nat × IpiRequestData × Bool)
  delivered : Nat
  eois : Nat
  overwrites : Nat
  deriving DecidableEq

/-- A processor that was activated has an invalid packet. -/
def IpiState.initial : IpiState where
  packet := ⟨.invalid, .invalid, .vmemSync ⟨0, 0⟩ 0⟩
  pendingIpi := false
  sender := .idle
  receiver := .idle
  sent := 0
  held := 0
  mapped := []
  summoned := []
  served := []
  reports := []
  delivered := 0
  eois := 0
  overwrites := 0

/-- The steps: a call of `send_user_ipi` with the order of its stores, one of these stores or
the IPI after them, one check of `await_ipi`, the interrupt, and a step of the handler, with
the outcome of what it calls. -/
inductive IpiStep where
  | begin (request : IpiRequestData) (order : List PacketField)
  | store
  | poll
  | deliver
  | handle (works : Bool)
  deriving DecidableEq

namespace IpiState

variable (s : IpiState)

/-- `send_user_ipi`, which does not look at the status; the orders of the callers differ. -/
def begin (request : IpiRequestData) (order : List PacketField) : Option IpiState :=
  if order.Perm [.status, .requestType, .requestData] then
    let next := { s with
      sender := .preparing request order
      sent := s.sent + 1
      overwrites := s.overwrites +
        if s.packet.status = .pending ∨ s.packet.status = .recieved then 1 else 0 }
    match s.sender with
    | .idle => some next
    | .gaveUp _ => some next
    | _ => none
  else none

/-- A store of `prepare_func`. -/
def storeField (request : IpiRequestData) : PacketField → IpiState
  | .status => { s with packet.status := .pending }
  | .requestType => { s with packet.requestType := request.requestType }
  | .requestData => { s with packet.requestData := request, held := s.sent }

def store : Option IpiState :=
  match s.sender with
  | .preparing request (field :: rest) =>
    some { s.storeField request field with sender := .preparing request rest }
  | .preparing request [] => some { s with pendingIpi := true, sender := .awaiting request 50 }
  | _ => none

/-- `await_ipi`: the status is only compared with `Completed`. -/
def poll : Option IpiState :=
  match s.sender with
  | .awaiting request (tries + 1) =>
    if s.packet.status = .completed then
      some { s with sender := .idle, reports := s.reports ++ [(s.sent, request, true)] }
    else
      some { s with sender := .awaiting request tries }
  | .awaiting request 0 =>
    some { s with sender := .gaveUp request, reports := s.reports ++ [(s.sent, request, false)] }
  | _ => none

/-- An IPI that is pending interrupts a processor that is not in the handler. -/
def deliver : Option IpiState :=
  if s.pendingIpi ∧ s.receiver = .idle then
    some { s with pendingIpi := false, receiver := .entered, delivered := s.delivered + 1 }
  else none

/-- The stores that end every way through the handler. -/
def completion : List HandlerStore := [.eoi, .requestTypeInvalid, .status .completed]

/-- The stores behind an error of `summon_application`, which is followed by the end that
the other requests share. -/
def refusal : List HandlerStore := [.eoi, .requestTypeInvalid, .status .failed] ++ completion

def handlerStore : HandlerStore → IpiState
  | .eoi => { s with eois := s.eois + 1 }
  | .requestTypeInvalid => { s with packet.requestType := .invalid }
  | .status status => { s with packet.status := status }

/-- `kernel_ipi_dst`. -/
def handle (works : Bool) : Option IpiState :=
  match s.receiver with
  | .idle => none
  | .entered => some { s with receiver := .dispatching, packet.status := .recieved }
  | .dispatching =>
    match s.packet.requestType, s.packet.requestData with
    | .invalid, _ => some { s with receiver := .finishing s.held completion }
    | .syncVMem, .vmemSync paddr _ =>
      some { s with receiver := .mapping s.held (paddr.length / 0x1000) 0 }
    | .summonApplication, .applicationToSummon _ => some { s with receiver := .summoning s.held }
    -- the union holds something else than the type says
    | _, _ => some { s with receiver := .halted }
  | .mapping number pages i =>
    if i < pages then
      match s.packet.requestData with
      | .vmemSync paddr vaddr =>
        if works then
          some { s with
            receiver := .mapping number pages (i + 1)
            mapped := s.mapped ++ [(vaddr + i * 0x1000, paddr.base + i * 0x1000)] }
        else
          -- `unwrap` of the error of `page_4_kb`
          some { s with receiver := .halted, served := s.served ++ [(number, false)] }
      | .applicationToSummon _ => some { s with receiver := .halted }
    else
      some { s with
        receiver := .finishing number completion
        served := s.served ++ [(number, true)] }
  | .summoning number =>
    match s.packet.requestData with
    | .applicationToSummon filePath =>
      if works then
        some { s with
          receiver := .finishing number completion
          summoned := s.summoned ++ [filePath]
          served := s.served ++ [(number, true)] }
      else
        some { s with
          receiver := .finishing number refusal
          served := s.served ++ [(number, false)] }
    | .vmemSync _ _ => some { s with receiver := .halted }
  | .finishing number (next :: rest) =>
    some { s.handlerStore next with receiver := .finishing number rest }
  -- the return from the interrupt, or the start of the application
  | .finishing _ [] => some { s with receiver := .idle }
  | .halted => none

def step : IpiStep → Option IpiState
  | .begin request order => s.begin request order
  | .store => s.store
  | .poll => s.poll
  | .deliver => s.deliver
  | .handle works => s.handle works

end IpiState

end EmkKernel
