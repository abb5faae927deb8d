import EmkKernel.Library.WordFields

/-!
# The frame list of a UHCI controller

`UhciFrameList`: 1024 pointers of the controller and the link dwords of the queue heads, which
are linked from any number of frames. The pointers and the queue heads are in memory of their
own. Bit 0 of a pointer ends a list.
-/

namespace EmkKernel

open WordFields

inductive UsbTransferType where
  | control
  | isochronous
  | bulk
  | interrupt
  deriving DecidableEq

/-- A slice of queue heads by its first and its last address. -/
structure UhciQueueHeads where
  start : BitVec 32
  sliceEndAddress : BitVec 32

/-- A dword that `append_to_ptr` points at: the pointer of a frame or the link of a queue head. -/
inductive FramePlace where
  | root (index : Nat)
  | head (address : BitVec 32)
  deriving DecidableEq

structure UhciFrameList where
  employ : Nat → BitVec 32
  links : BitVec 32 → BitVec 32
  interruptQhs : UhciQueueHeads
  controlQhs : UhciQueueHeads

namespace UhciFrameList

/-- `value & !0xF`. -/
def pointer (value : BitVec 32) : BitVec 32 := value &&& ~~~0xF#32

/-- `value & 1 == 1`. -/
def terminates (value : BitVec 32) : Bool := value.getLsbD 0

/-- The three writes to the link of a queue head: its pointer, `q` and `t`. -/
def setQueueHeadLink (link value : BitVec 32) : BitVec 32 :=
  let link := pointer (pointer value) ||| link &&& 0xF#32
  let link := setBit link 1 (value.getLsbD 1)
  setBit link 0 (terminates value)

variable (list : UhciFrameList)

def covers (qhs : UhciQueueHeads) (address : BitVec 32) : Bool :=
  qhs.start ≤ address && address ≤ qhs.sliceEndAddress

/-- Where the walk for a transfer type stops. -/
def stops (transferType : UsbTransferType) (current : BitVec 32) : Bool :=
  terminates current ||
    match transferType with
    | .control => covers list.interruptQhs (pointer current)
    | .bulk => covers list.controlQhs (pointer current)
    | .interrupt => false
    | .isochronous => false

/-- The loop of `append_qh`: the queue head behind which to append, or none if the one to append
is found. Addresses are 28 bits, so a longer walk never ends. -/
def findPrevious (qh : BitVec 32) (transferType : UsbTransferType) :
    Nat → BitVec 32 → BitVec 32 → Option (Option (BitVec 32))
  | 0, _, _ => none
  | n + 1, previous, current =>
    if pointer current = qh then some none
    else if list.stops transferType current then some (some (pointer previous))
    else findPrevious qh transferType n current (list.links (pointer current))

/-- The place that `append_qh` writes to, or none if the queue head is found. -/
def appendTo (frame : Nat) (qh : BitVec 32) (transferType : UsbTransferType) :
    Option (Option FramePlace) :=
  let first := list.employ frame
  if terminates first then some (some (.root frame))
  else (list.findPrevious qh transferType (2 ^ 28) first first).map (·.map .head)

def read : FramePlace → BitVec 32
  | .root index => list.employ index
  | .head address => list.links address

def write (value : BitVec 32) : FramePlace → UhciFrameList
  | .root index => { list with employ := Function.update list.employ index value }
  | .head address => { list with links := Function.update list.links address value }

/-- The end of `append_qh`. -/
def insert (qh : BitVec 32) (place : FramePlace) : UhciFrameList :=
  let nextVal := list.read place
  let list := list.write (setQueueHeadLink (list.links qh) nextVal) (.head qh)
  list.write (qh ||| 2#32) place

/-- `append_qh` of the root of a frame; there is no result for a panic and for a walk that never
ends. -/
def appendQh (frame : Nat) (qh : BitVec 32) (transferType : UsbTransferType) :
    Option UhciFrameList :=
  if transferType = .isochronous then none
  else (list.appendTo frame qh transferType).map fun found =>
    match found with
    | none => list
    | some place => list.insert qh place

/-- The frames that `place_qh` appends to: `i * interval` for `i` from 1 on. -/
def placedFrames (interval : Nat) : List Nat :=
  (List.range' 1 (1024 / interval - 1)).map (· * interval)

def placeQh (qh : BitVec 32) (interval : Nat) (transferType : UsbTransferType) :
    Option UhciFrameList :=
  if interval = 0 then none
  else (placedFrames interval).foldlM (fun list frame => list.appendQh frame qh transferType) list

/-- `mark_invalid`. -/
def markInvalid : UhciFrameList := { list with employ := fun _ => 1 }

end UhciFrameList

end EmkKernel
