import EmkKernel.Pfs.DirectoryEntries
import EmkKernel.Processes.MarkTable
import EmkKernel.Utils.PagedArrays

/-!
# Applications

`Application`, `ApplicationPool` and `ApplicationComplex` of `processes`. An application has a
table of handles in pages of its own; the index of a handle is its number less the base of
all handles. The addresses of the virtual allocator are those of memory.
-/

namespace EmkKernel

open IoMachine

/-- `&'a mut [u64]`. -/
structure HandleSlice where
  ptr : Nat
  length : Nat
  deriving DecidableEq, Repr

namespace HandleSlice

/-- `invalid_mut_slice`. -/
def invalid : HandleSlice := ⟨8, 0⟩

def address (self : HandleSlice) (i : Nat) : Nat := self.ptr + 8 * i

end HandleSlice

structure HandleBuffer where
  memory : MemoryBlock
  handles : HandleSlice
  current : Nat

/-- The buffer whose slice is a whole block. -/
def HandleBuffer.over (mb : MemoryBlock) (current : Nat) : HandleBuffer :=
  ⟨mb, ⟨mb.base, mb.length / 8⟩, current⟩

/-- The bytes of a `u64`. -/
def qwordBytes (v : Nat) : ValueBytes 8 := fun j =>
  (leBytes v 8).get (j.cast (length_leBytes v 8).symm)

def fixedFsHandleBase : Nat := 0x1000

/-- The image of an application and its saved registers are left out. -/
structure Application where
  fsHandleBuffer : HandleBuffer
  fsHandleBase : Nat
  executionFi : Key

namespace Application

variable (self : Application)

def default : Application :=
  ⟨⟨⟨0, 0⟩, .invalid, 0⟩, fixedFsHandleBase, 0⟩

def spawn (executionFi : Key) : IoM (Bool × Application) := do
  match ← IoMachine.allocZero 1 with
  | .error _ => pure (false, self)
  | .ok mb => pure (true, { self with executionFi, fsHandleBuffer := .over mb 0 })

def release : IoM (Bool × Application) := do
  match ← IoMachine.free self.fsHandleBuffer.memory with
  | .error _ => pure (false, self)
  | .ok _ =>
    pure (true, { self with fsHandleBuffer := { self.fsHandleBuffer with handles := .invalid } })

/-- Twice the pages, a product in `u16`. -/
def doubledPages : Option Nat :=
  let pages := self.fsHandleBuffer.memory.length / 0x1000 % 2 ^ 16 * 2
  if pages < 2 ^ 16 then some pages else none

def reallocateHandles : IoM Application := do
  let pages ← orPanic self.doubledPages
  match ← IoMachine.allocZero pages with
  | .error _ => throw .panic
  | .ok mb => do
    modify fun m => { m with
      memory := copyQwords m.memory mb.base self.fsHandleBuffer.memory.base
        (self.fsHandleBuffer.handles.length % 2 ^ 32) }
    match ← IoMachine.free self.fsHandleBuffer.memory with
    | .error _ => throw .panic
    | .ok _ => pure { self with fsHandleBuffer := .over mb self.fsHandleBuffer.current }

/-- A full table gives no handle. -/
def allocateHandle (ftabIndex : BitVec 32) : IoM (Option Nat × Application) := do
  let buffer := self.fsHandleBuffer
  let next ← orPanic (addU32 buffer.current 1)
  if next > buffer.handles.length % 2 ^ 32 then
    pure (none, self)
  else if buffer.current < buffer.handles.length then do
    modify fun m => { m with
      memory := storeValue m.memory (buffer.handles.address buffer.current)
        (qwordBytes ftabIndex.toNat) }
    pure (some (buffer.current + self.fsHandleBase),
      { self with fsHandleBuffer := { buffer with current := next } })
  else
    throw .panic

end Application

/-- What `summon_application` asks of the file at the path. -/
structure ExecutableFile where
  fi : Key
  writeCount : Nat
  permissions : Nat

inductive ApplicationComplexResult where
  | invalidState
  | wrongPermissions
  | maxNumAppsExceeded
  | spawnFailed
  deriving DecidableEq, Repr

/-- A file is marked, or counted once more; what the table answers is not looked at. -/
def MarkTable.mark (t : MarkTable) (fi : Key) : Except Stop MarkTable := do
  if ← t.contains fi then
    let (_, t) ← t.increase fi
    pure t
  else
    let (_, t) ← t.insert fi
    pure t

/-- The pool of applications and its mark table. -/
structure ApplicationComplex where
  applications : Nat → Application
  applicationsPresent : Nat
  markTable : MarkTable

namespace ApplicationComplex

/-- `applications.len()`. -/
def numApplications : Nat := 24

/-- `ApplicationPool::allocate` with the table that `MarkTable::new` made. -/
def allocate (markTable : MarkTable) : IoM ApplicationComplex := do
  match ← IoMachine.allocZero 2 with
  | .error _ => throw .panic
  | .ok _registerSpace =>
    match ← IoMachine.allocZero 1 with
    | .error _ => throw .panic
    | .ok _applications =>
      pure { applications := fun _ => .default, applicationsPresent := 0, markTable }

variable (self : ApplicationComplex)

def setApplication (i : Nat) (app : Application) : ApplicationComplex :=
  { self with applications := Function.update self.applications i app }

/-- `summon_application` for the file it found. The image is loaded before the application is
counted, which is left to others here. -/
def summonApplication (file : ExecutableFile) :
    IoM (Except ApplicationComplexResult Unit × ApplicationComplex) := do
  if file.writeCount ≠ 0 then
    pure (.error .invalidState, self)
  else if file.permissions &&& gfsPermissionsExecute = 0 then
    pure (.error .wrongPermissions, self)
  else do
    let next ← orPanic (addU32 self.applicationsPresent 1)
    if next > numApplications then
      pure (.error .maxNumAppsExceeded, self)
    else do
      let (spawned, app) ← (self.applications self.applicationsPresent).spawn file.fi
      if spawned then
        match self.markTable.mark file.fi with
        | .error _ => throw .panic
        | .ok markTable =>
          pure (.ok (), { self.setApplication self.applicationsPresent app with
            markTable
            applicationsPresent := next })
      else
        pure (.error .spawnFailed, self)

end ApplicationComplex

end EmkKernel
