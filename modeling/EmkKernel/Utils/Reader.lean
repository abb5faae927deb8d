import EmkKernel.Memory.Basic

/-!
# Readers

`utils::reader`: the trait `Reader` and the reader of a buffer. The numbers that are read
and the moves of `skip` and `go_back` are the same for every reader; readers differ in
where they stop. A call that panics has no value.
-/

namespace EmkKernel

/-- The trait `Reader`. `take` moves without a check of the end; `skip` and `goBack` tell
whether they moved. -/
class Reader (ρ : Type) where
  memory : ρ → Nat → Byte
  current : ρ → Nat
  take : ρ → Nat → Option ρ
  skip : ρ → Nat → Option (Bool × ρ)
  goBack : ρ → Nat → Option (Bool × ρ)

abbrev ReadM (ρ : Type) := StateT ρ Option

namespace ReadM

variable {ρ : Type} [Reader ρ]

def current : ReadM ρ Nat := fun r => some (Reader.current r, r)

/-- What is read at a pointer into the memory of the reader. -/
def pointer (address : Nat) : ReadM ρ (Nat → Byte) :=
  fun r => some (fun i => Reader.memory r (address + i), r)

def readByte : ReadM ρ Byte := fun r =>
  (Reader.take r 1).map fun r' => (Reader.memory r (Reader.current r), r')

/-- `read_u8`, `read_u16`, `read_u32` and `read_u64`. -/
def readUnsigned (bytes : Nat) : ReadM ρ Nat := fun r =>
  (Reader.take r bytes).map fun r' => (littleEndian (Reader.memory r) (Reader.current r) bytes, r')

def peekU8 (offset : Nat) : ReadM ρ Byte := fun r =>
  some (Reader.memory r (Reader.current r + offset), r)

def skip (len : Nat) : ReadM ρ Bool := fun r => Reader.skip r len

def goBack (len : Nat) : ReadM ρ Bool := fun r => Reader.goBack r len

/-- `read_bytes` into a buffer of zeros. -/
def readBytes (len : Nat) : ReadM ρ (Nat → Byte) := do
  let buffer ← pointer (← current)
  if ← skip len then pure buffer else pure fun _ => 0

omit [Reader ρ] in
theorem bind_some {α β : Type} {x : ReadM ρ α} {f : α → ReadM ρ β} {r r' : ρ} {a : α}
    (ran : x r = some (a, r')) : (x >>= f) r = f a r' := by
  change (x r).bind (fun p => f p.1 p.2) = f a r'
  rw [ran, Option.bind_some]

end ReadM

structure BufferedReader where
  memory : Nat → Byte
  buf : Nat
  len : Nat
  pos : Nat

namespace BufferedReader

def new (memory : Nat → Byte) (buf len : Nat) : BufferedReader := ⟨memory, buf, len, 0⟩

/-- `remaining_bytes`. -/
def remainingBytes (self : BufferedReader) : Option Nat :=
  if self.len < self.pos then none else some (self.len - self.pos)

instance : Reader BufferedReader where
  memory self := self.memory
  current self := self.buf + self.pos
  take self n := if self.pos + n < 2 ^ 32 then some { self with pos := self.pos + n } else none
  skip self len :=
    if self.pos + len < 2 ^ 32 then
      if self.pos + len > self.len then some (false, self)
      else some (true, { self with pos := self.pos + len })
    else none
  goBack self len :=
    if self.pos < len then some (false, self)
    else some (true, { self with pos := self.pos - len })

end BufferedReader

end EmkKernel
