import EmkKernel.Aml.NameSystem

/-!
# Execution of methods

The interpreter of `aml`: a method runs in a frame of its own with its arguments and
locals, term by term until its code ends or a `Return` is read in a block. A call that
panics has no value.
-/

namespace EmkKernel

inductive AmlType where
  | invalid
  | unsignedNumber
  | number
  | string
  | dataRefObject
  | package
  deriving DecidableEq, Repr

inductive AmlValue where
  | empty
  | unsignedNumber (r : Nat)
  | number (val : Int)
  | string (base length : Nat)
  | dataRefObject (dro : Nat)
  | package (data numElements : Nat)
  deriving DecidableEq, Repr

inductive AmlError where
  | notFound
  | invalidInput
  | mismatchInLength
  | malformedPath
  deriving DecidableEq, Repr

/-- The characters up to the zero, counted in `u16`. -/
def stringLength (memory : Nat → Byte) (address : Nat) : Option Nat :=
  (List.range (2 ^ 16)).find? fun i => memory (address + i) == 0

namespace AmlValue

def fromU64 (memory : Nat → Byte) (val : Nat) : AmlType → Option AmlValue
  | .package => none
  | .invalid => some .empty
  | .number => some (.number ((BitVec.ofNat 64 val).toInt))
  | .unsignedNumber => some (.unsignedNumber val)
  | .string => (stringLength memory val).map fun length => .string val length
  | .dataRefObject => some (.dataRefObject val)

def getType : AmlValue → AmlType
  | .empty => .invalid
  | .unsignedNumber _ => .unsignedNumber
  | .string _ _ => .string
  | .dataRefObject _ => .dataRefObject
  | .number _ => .number
  | .package _ _ => .package

def asU64 : AmlValue → Option Nat
  | .empty => none
  | .unsignedNumber r => some r
  | .string base _ => some base
  | .dataRefObject dro => some dro
  | .number val => some (BitVec.ofInt 64 val).toNat
  | .package _ _ => none

end AmlValue

structure AmlMethodFrame where
  arguments : Nat → Nat
  locals : Nat → Nat
  localTypes : Nat → AmlType
  argumentTypes : Nat → AmlType

/-- The frame of a call: at most seven arguments, and no local has a value. -/
def AmlMethodFrame.ofParameters (parameters : List AmlValue) : Option AmlMethodFrame := do
  if parameters.length > 7 then failure
  let arguments ← parameters.mapM AmlValue.asU64
  some {
    arguments := fun p => arguments.getD p 0
    locals := fun _ => 0
    localTypes := fun _ => .invalid
    argumentTypes := fun p => (parameters.map AmlValue.getType).getD p .invalid }

structure Scope where
  path : Nat
  nameSystem : Option Nat

/-- A device has the fields of a scope. -/
abbrev Device := Scope

/-- The fields of `Method` that a call uses. -/
structure Method where
  path : Nat
  flags : Nat
  numBytes : Nat
  codeBegin : Nat

/-- The fields of `AmlCode` that execution uses, and the memory that its pointers read. -/
structure AmlCode where
  memory : Nat → Byte
  pathSystem : PathSystem
  nameSystem : NameSystem
  scopes : PageAllocator Scope
  devices : PageAllocator Device
  methods : PageAllocator Method
  methodFrames : Stack AmlMethodFrame
  currentExecutingPath : Nat
  executionShouldReturn : Bool
  executionReturnData : Nat

namespace AmlCode

variable (self : AmlCode)

/-- The loop over the owners of a path, for scopes or for devices. Without an end it would
meet an owner twice. -/
def searchOwners (scopes : PageAllocator Scope) (buf : Segment) : Nat → Nat → Option (Option Nat)
  | 0, _ => none
  | fuel + 1, searchPath =>
    if searchPath = 0 then some none
    else do
      let s ← scopes.values.find? fun s => s.path = searchPath
      let dro ← match s.nameSystem with
        | some ns => self.nameSystem.getMut ns buf
        | none => some none
      match dro with
      | some dro => some (some dro)
      | none => searchOwners scopes buf fuel (← self.pathSystem.getOwnerOf s.path)

/-- `unwrap_namestring`: the object of a relative name with one segment. -/
def unwrapNamestring : NameString → Option Nat
  | .single buf false => do
    match ← self.searchOwners self.scopes buf (2 ^ 16) self.currentExecutingPath with
    | some dro => some dro
    | none =>
      match ← self.searchOwners self.devices buf (2 ^ 16) self.currentExecutingPath with
      | some dro => some dro
      | none => none
  | _ => none

def unwrapTermarg : TermArg → Option (AmlValue × AmlType)
  | .arg a => do
    let type := self.methodFrames.refTop.argumentTypes a
    let val ← AmlValue.fromU64 self.memory (self.methodFrames.refTop.arguments a) type
    some (val, type)
  | .local l => do
    let type := self.methodFrames.refTop.localTypes l
    let val ← AmlValue.fromU64 self.memory (self.methodFrames.refTop.locals l) type
    some (val, type)
  | .byte b => some (.unsignedNumber b, .unsignedNumber)
  | .word w => some (.unsignedNumber w, .unsignedNumber)
  | .dWord dw => some (.unsignedNumber dw, .unsignedNumber)
  | .qWord qw => some (.unsignedNumber qw, .unsignedNumber)
  | .zero => some (.unsignedNumber 0, .unsignedNumber)
  | .one => some (.unsignedNumber 1, .unsignedNumber)
  | .ones => some (.unsignedNumber 0xFFFFFFFFFFFFFFFF, .unsignedNumber)
  | .string base len => some (.string base len, .string)
  | .returnOp _ => none
  | .nameString name => do
    let dro ← self.unwrapNamestring name
    some (.dataRefObject dro, .dataRefObject)

def unwrapDataRefObject (dro : Nat) : Option (AmlValue × AmlType) :=
  match self.nameSystem.object dro with
  | .one => some (.unsignedNumber 1, .unsignedNumber)
  | .zero => some (.unsignedNumber 0, .unsignedNumber)
  | .ones => some (.unsignedNumber 0xFFFFFFFFFFFFFFFF, .unsignedNumber)
  | .package data _ numElements => some (.package data numElements, .package)
  | _ => none

/-- `unwrap_data_ref_object_int`. -/
def unwrapDataRefObjectInt (dro : Nat) : Option Nat :=
  match self.nameSystem.object dro with
  | .byte b => some b
  | .word w => some w
  | .dWord dw => some dw
  | .qWord qw => some qw
  | .zero => some 0
  | .one => some 1
  | .ones => some 0xFFFFFFFFFFFFFFFF
  | _ => none

/-- The object that a store of a number leaves. The test of a signed number for a `DWord`
fails for every number. -/
def storedObject : DataRefObject → AmlValue → Option DataRefObject
  | .byte _, .number num =>
    if num > 127 ∨ num < -128 then none else some (.byte (BitVec.ofInt 8 num).toNat)
  | .byte _, .unsignedNumber num => if num > 255 then none else some (.byte num)
  | .word _, .number num =>
    if num > 32767 ∨ num < -32768 then none else some (.word (BitVec.ofInt 16 num).toNat)
  | .word _, .unsignedNumber num => if num > 0xFFFF then none else some (.word num)
  | .dWord _, .number num =>
    if num > 0x7FFFFFFF ∨ num < 0x80000000 then none
    else some (.dWord (BitVec.ofInt 32 num).toNat)
  | .dWord _, .unsignedNumber num => if num > 0xFFFFFFFF then none else some (.dWord num)
  | .qWord _, .number num => some (.qWord (BitVec.ofInt 64 num).toNat)
  | .qWord _, .unsignedNumber num => some (.qWord num)
  | .zero, .number num =>
    if num > 0xFFFFFFFF then some (.qWord (BitVec.ofInt 64 num).toNat)
    else if num > 0xFFFFF then some (.dWord (BitVec.ofInt 32 num).toNat)
    else if num > 0xFF then some (.word (BitVec.ofInt 16 num).toNat)
    else if num > 0 then some (.byte (BitVec.ofInt 8 num).toNat)
    else none
  | .zero, .unsignedNumber num =>
    if num > 0xFFFFFFFF then some (.qWord num)
    else if num > 0xFFFFF then some (.dWord num)
    else if num > 0xFF then some (.word (num % 2 ^ 16))
    else if num > 0 then some (.byte num)
    else some .zero
  | _, _ => none

def storeDataRefObject (dro : Nat) (val : AmlValue) : Option AmlCode := do
  let object ← storedObject (self.nameSystem.object dro) val
  some { self with nameSystem := self.nameSystem.setObject dro object }

/-- What `store_argument` and `store_local` write: a number over a number. -/
def storedNumber (type : AmlType) (val : AmlValue) (valType : AmlType) : Option Nat :=
  match type with
  | .unsignedNumber | .number =>
    match valType with
    | .unsignedNumber | .number => val.asU64
    | _ => none
  | _ => none

def storeArgument (a : Nat) (val : AmlValue) (valType : AmlType) : Option AmlCode := do
  let frame := self.methodFrames.refTop
  let num ← storedNumber (frame.argumentTypes a) val valType
  let frame := { frame with arguments := Function.update frame.arguments a num }
  some { self with methodFrames := self.methodFrames.setTop frame }

def storeLocal (l : Nat) (val : AmlValue) (valType : AmlType) : Option AmlCode := do
  let frame := self.methodFrames.refTop
  let num ← storedNumber (frame.localTypes l) val valType
  let frame := { frame with locals := Function.update frame.locals l num }
  some { self with methodFrames := self.methodFrames.setTop frame }

/-- `eval_termarg_int`, with fuel for the operands in operands. -/
def evalTermargIntLoop : Nat → TermArgInt → Option Nat
  | 0, _ => none
  | fuel + 1, termarg =>
    match termarg with
    | .zero => some 0
    | .one => some 1
    | .ones => some 0xFFFFFFFFFFFFFFFF
    | .byte b => some b
    | .word w => some w
    | .dWord dw => some dw
    | .qWord qw => some qw
    | .logicalEquals base => do
      let (operand0, reader) ← parseTermargInt (BufferedReader.new self.memory base 0xFFFFF)
      let (operand1, _) ← parseTermargInt reader
      let value0 ← evalTermargIntLoop fuel operand0
      let value1 ← evalTermargIntLoop fuel operand1
      some (if value0 = value1 then 1 else 0)
    | .nameString name => do
      let dro ← self.unwrapNamestring name
      self.unwrapDataRefObjectInt dro

def evalTermargInt (termarg : TermArgInt) : Option Nat := self.evalTermargIntLoop (2 ^ 64) termarg

/-- `execute_termarg`: only a `Return` is executed in a block. -/
def executeTermarg (reader : BufferedReader) : Option (AmlCode × BufferedReader) := do
  let (termarg, reader) ← parseTermarg reader
  match termarg with
  | .returnOp valAddr =>
    some ({ self with executionShouldReturn := true, executionReturnData := valAddr }, reader)
  | _ => none

/-- The loop over the terms of a block. -/
def executeBlock (current pkglen : Nat) :
    Nat → AmlCode → BufferedReader → Option (AmlCode × BufferedReader)
  | 0, _, _ => none
  | fuel + 1, self, reader =>
    if (Reader.current reader - current) % 2 ^ 32 ≤ pkglen ∧ self.executionShouldReturn =
      false then do
      let (self, reader) ← self.executeTermarg reader
      executeBlock current pkglen fuel self reader
    else some (self, reader)

/-- `ElseOp`. -/
def executeElse (reader : BufferedReader) : Option (AmlCode × BufferedReader) := do
  let (pkglen, reader) ← parsePkglen reader
  executeBlock (Reader.current reader) pkglen (2 ^ 32) self reader

/-- A difference in `u32`. -/
def subU32 (a b : Nat) : Option Nat := if a < b then none else some (a - b)

/-- `IfOp`. -/
def executeIf (reader : BufferedReader) : Option (AmlCode × BufferedReader) := do
  let (pkglen, reader) ← parsePkglen reader
  let current := Reader.current reader
  let (predicate, reader) ← parseTermargInt reader
  let pkglen ← subU32 pkglen (Reader.current reader - current)
  let current := Reader.current reader
  let result ← self.evalTermargInt predicate
  if result = 1 then
    executeBlock current pkglen (2 ^ 32) self reader
  else
    let (_, reader) ← Reader.skip reader (← subU32 pkglen 1)
    let (oc, reader) ← ReadM.readUnsigned 1 reader
    if oc = 0xA1 then
      self.executeElse reader
    else
      let (_, reader) ← Reader.goBack reader 1
      some (self, reader)

/-- `StoreOp`. -/
def executeStore (reader : BufferedReader) : Option (AmlCode × BufferedReader) := do
  let (termarg, reader) ← parseTermarg reader
  let (supername, reader) ← parseSupername reader
  let (source, sourceType) ← self.unwrapTermarg termarg
  let self ← match supername with
    | .debugObj => none
    | .simpleName (.arg a) => self.storeArgument a source sourceType
    | .simpleName (.local l) => self.storeLocal l source sourceType
    | .simpleName (.nameString name) => do
      let dro ← self.unwrapNamestring name
      self.storeDataRefObject dro source
  some (self, reader)

def executeOpcode (opcode : Nat) (reader : BufferedReader) : Option (AmlCode × BufferedReader) :=
  if opcode = 0xA0 then self.executeIf reader
  else if opcode = 0xA1 then self.executeElse reader
  else if opcode = 0x70 then self.executeStore reader
  else none

/-- The loop of `execute_method0`: a term and what comes behind it. Every pass takes a byte
of the method. -/
def executeBody (methodPath : Nat) :
    Nat → AmlCode → BufferedReader → Option (AmlValue × AmlCode)
  | 0, _, _ => none
  | fuel + 1, self, reader => do
    if (← reader.remainingBytes) = 0 then
      let methodFrames ← self.methodFrames.popSilent
      some (.empty, { self with methodFrames })
    else
      let (opcode, reader) ← ReadM.readUnsigned 1 reader
      let (self, reader) ← self.executeOpcode opcode reader
      if self.executionShouldReturn then
        let self := { self with executionShouldReturn := false }
        let (retData, _) ← parseTermarg (BufferedReader.new self.memory
          self.executionReturnData 0xFFFF)
        let methodFrames ← self.methodFrames.popSilent
        let self := { self with methodFrames }
        let (retVal, _) ← self.unwrapTermarg retData
        match retVal with
        | .dataRefObject dro =>
          let (value, _) ← self.unwrapDataRefObject dro
          some (value, self)
        | _ => executeBody methodPath fuel { self with currentExecutingPath := methodPath } reader
      else
        executeBody methodPath fuel { self with currentExecutingPath := methodPath } reader

/-- The frame of a call is pushed and the path of the method becomes the current one. -/
def enter (method : Method) (parameters : List AmlValue) : Option AmlCode := do
  let methodFrame ← AmlMethodFrame.ofParameters parameters
  let methodFrames ← self.methodFrames.push methodFrame
  some { self with methodFrames, currentExecutingPath := method.path }

def executeMethod0 (methodIndex : Nat) (parameters : List AmlValue) :
    Option (Except AmlError AmlValue × AmlCode) := do
  let method ← self.methods.asRef methodIndex
  if method.flags % 2 ^ 3 ≠ parameters.length % 2 ^ 8 then
    some (.error .mismatchInLength, self)
  else
    let entered ← self.enter method parameters
    let reader := BufferedReader.new self.memory method.codeBegin method.numBytes
    let (value, left) ← executeBody method.path (method.numBytes + 1) entered reader
    some (.ok value, left)

end AmlCode

end EmkKernel
