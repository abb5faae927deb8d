import EmkKernel.Hal.PciRouting

/-!
# Which interrupts are found

The walk passes small descriptors as a whole, but a large one only up to three bytes before
its end. What it then takes for descriptors is right by chance, and it may not end.
-/

namespace EmkKernel

open Checked BufferedReader

/-! ## Resource templates -/

/-- Descriptors of resources: IRQs with their flags, if there are any, and extended interrupts
stand beside small and large descriptors of any other type. -/
inductive ResourceDescriptor where
  | irq (mask : BitVec 16) (flags : Option Byte)
  | small (type : Nat) (data : List Byte)
  | interrupt (flags : Byte) (first : BitVec 32) (others : List (BitVec 32)) (source : List Byte)
  | large (type : Nat) (data : List Byte)

namespace ResourceDescriptor

def bytes : ResourceDescriptor → List Byte
  | .irq mask none => 0x22 :: leBytes mask.toNat 2
  | .irq mask (some flags) => 0x23 :: (leBytes mask.toNat 2 ++ [flags])
  | .small type data => .ofNat 8 (type * 2 ^ 3 + data.length) :: data
  | .interrupt flags first others source =>
    0x89 :: (leBytes (6 + 4 * others.length + source.length) 2 ++
      flags :: .ofNat 8 (1 + others.length) :: (leBytes first.toNat 4 ++
        (others.flatMap (fun n => leBytes n.toNat 4) ++ source)))
  | .large type data => .ofNat 8 (0x80 + type) :: (leBytes data.length 2 ++ data)

/-- Lengths and types fit, and what is an IRQ, an extended interrupt or the end is none of the
others. -/
def Valid : ResourceDescriptor → Prop
  | .irq .. => True
  | .small type data => type < 2 ^ 4 ∧ type ≠ 0x4 ∧ type ≠ 0xF ∧ data.length < 2 ^ 3
  | .interrupt _ _ others source =>
    1 + others.length < 2 ^ 8 ∧ 6 + 4 * others.length + source.length < 2 ^ 16
  | .large type data => type < 2 ^ 7 ∧ type ≠ 0x9 ∧ data.length < 2 ^ 16

/-- The interrupts of a mask, the lowest first. -/
def interruptsOf (mask : Nat) : List Nat := (List.range 16).filter mask.testBit

/-- The flags of an IRQ. -/
def withFlags (flags : Byte) (irq : Nat) : PciRoutingInterrupt :=
  ⟨irq, flags.toNat % 2, flags.toNat / 2 ^ 3 % 2⟩

/-- The flags of extended interrupts. -/
def extended (flags : Byte) (n : BitVec 32) : PciRoutingInterrupt :=
  ⟨n.toNat, flags.toNat / 2 % 2, flags.toNat / 2 ^ 2 % 2⟩

/-- The interrupts of a descriptor. IRQs without flags are edges, and high. -/
def interrupts : ResourceDescriptor → List PciRoutingInterrupt
  | .irq mask flags => (interruptsOf mask.toNat).map (withFlags (flags.getD 0x01))
  | .interrupt flags first others _ => (first :: others).map (extended flags)
  | _ => []

/-- A small descriptor in which the walk finds nothing. -/
def PassesSmall (sourceIndex : Nat) : ResourceDescriptor → Prop
  | .irq mask _ => (interruptsOf mask.toNat).length ≤ sourceIndex
  | .small type data => type < 2 ^ 4 ∧ type ≠ 0x4 ∧ data.length < 2 ^ 3
  | _ => False

/-- The last three bytes of a large descriptor are small ones. -/
def Resumes : ResourceDescriptor → Prop
  | .large type data => ∃ rest : List ResourceDescriptor, (∀ d ∈ rest, d.PassesSmall 0) ∧
      rest.flatMap bytes = (ResourceDescriptor.large type data).bytes.drop data.length
  | _ => False

/-- The walk finds nothing in the descriptor and comes to its end. -/
def Passes (sourceIndex : Nat) (d : ResourceDescriptor) : Prop :=
  d.PassesSmall sourceIndex ∨ sourceIndex = 0 ∧ d.Resumes

end ResourceDescriptor

/-- The `_CRS` buffer of a device: a list of descriptors, and an end tag. -/
structure ResourceTemplate where
  address : Nat
  descriptors : List ResourceDescriptor
  checksum : Byte
  valid : ∀ d ∈ descriptors, d.Valid

namespace ResourceTemplate

variable (t : ResourceTemplate)

def bytes : List Byte := t.descriptors.flatMap ResourceDescriptor.bytes ++ [0x79, t.checksum]

/-- The interrupt with the index, of all that the descriptors list. -/
def selected (sourceIndex : Nat) : Option PciRoutingInterrupt :=
  (t.descriptors.flatMap ResourceDescriptor.interrupts)[sourceIndex]?

/-- The first byte behind descriptors. -/
def nextByte : List ResourceDescriptor → Byte
  | [] => 0x79
  | d :: _ => d.bytes.headD 0

/-- The interrupt that a descriptor is taken for is the selected one. An IRQ without flags takes
the byte behind it for them, and an extended interrupt has a number of one byte. -/
def Decides (sourceIndex : Nat) (selected : Option PciRoutingInterrupt) (next : Byte) :
    ResourceDescriptor → Prop
  | .irq mask flags => ∃ i, (ResourceDescriptor.interruptsOf mask.toNat)[sourceIndex]? = some i ∧
      selected = some (ResourceDescriptor.withFlags (flags.getD next) i)
  | .interrupt _ first _ _ => sourceIndex = 0 ∧ first.toNat < 2 ^ 8
  | _ => False

/-- Nothing is found before a descriptor that decides. -/
def RightlyRead (sourceIndex : Nat) : Prop :=
  ∃ before d after, t.descriptors = before ++ d :: after ∧
    (∀ b ∈ before, b.Passes sourceIndex) ∧
    Decides sourceIndex (t.selected sourceIndex) (nextByte after) d

end ResourceTemplate

/-! ## The walk through a template -/

section Walk

open ResourceDescriptor

variable {memory : Nat → Byte} {sourceIndex fuel rem r cptr low high : Nat}
  {Q : Option PciRoutingInterrupt → Prop}

private theorem findInMask_eq (mask : Nat) {counter : Nat} (before : counter ≤ sourceIndex)
    (bits : List Nat) : findInMask mask sourceIndex counter bits =
      (bits.filter mask.testBit)[sourceIndex - counter]? := by
  induction bits generalizing counter with
  | nil => rfl
  | cons i rest ih =>
    by_cases set : mask.testBit i
    · rw [findInMask, if_pos set, List.filter_cons_of_pos set]
      by_cases here : counter = sourceIndex
      · rw [if_pos here, here, Nat.sub_self, List.getElem?_cons_zero]
      · -- the interrupts that were counted are not listed again
        obtain ⟨k, less⟩ := Nat.exists_eq_succ_of_ne_zero
          (show sourceIndex - counter ≠ 0 by omega)
        rw [if_neg here, ih (by omega), less, Nat.succ_eq_add_one, List.getElem?_cons_succ]
        congr 1
        omega
    · rw [findInMask, if_neg set, List.filter_cons_of_neg set]
      exact ih before

private theorem byte_of_holds {b : Byte} {bs : List Byte}
    (placed : HoldsBytes memory cptr (b :: bs)) :
    memory cptr = b := (holdsBytes_cons.1 placed).1

/-- A small descriptor that is not taken for an interrupt is passed. -/
theorem walk_small {type : Nat} {data : List Byte} (small : type < 2 ^ 4)
    (short : data.length < 2 ^ 3)
    (placed : HoldsBytes memory cptr (.ofNat 8 (type * 2 ^ 3 + data.length) :: data))
    (inside : low ≤ cptr ∧ cptr + (data.length + 1) ≤ high)
    (nothing : ∀ next, Safe (smallInterrupt memory sourceIndex cptr >>= foundOr next)
      (Inside low high) Q ↔ Safe next (Inside low high) Q) :
    Safe (walkResources memory sourceIndex (fuel + 1) (data.length + 1 + r) cptr)
        (Inside low high) Q ↔
      Safe (walkResources memory sourceIndex fuel r (cptr + (data.length + 1)))
        (Inside low high) Q := by
  have type_eq : (memory cptr).toNat = type * 2 ^ 3 + data.length := by
    rw [byte_of_holds placed, BitVec.toNat_ofNat]
    omega
  have length : (type * 2 ^ 3 + data.length) % 2 ^ 3 + 1 = data.length + 1 := by omega
  have first : Inside low high cptr 1 := ⟨inside.1, by omega⟩
  rw [walkResources, if_pos (by omega), safe_bind, safe_look]
  simp only [type_eq, first, true_and, if_pos (show type * 2 ^ 3 + data.length < 0x80 by omega)]
  rw [nothing, length, if_neg (by omega), Nat.add_sub_cancel_left]

private theorem irq_bytes (mask : BitVec 16) (flags : Option Byte) :
    (irq mask flags).bytes = .ofNat 8 (4 * 2 ^ 3 + (leBytes mask.toNat 2 ++ flags.toList).length) ::
      (leBytes mask.toNat 2 ++ flags.toList) := by
  cases flags <;> rfl

private theorem irq_length (mask : BitVec 16) (flags : Option Byte) :
    2 ≤ (leBytes mask.toNat 2 ++ flags.toList).length ∧
      (leBytes mask.toNat 2 ++ flags.toList).length < 2 ^ 3 := by
  cases flags <;> simp

theorem irq_read {mask : BitVec 16} {flags : Option Byte}
    (placed : HoldsBytes memory cptr (irq mask flags).bytes) :
    (memory cptr).toNat / 2 ^ 3 = 0x04 ∧ littleEndian memory (cptr + 1) 2 = mask.toNat := by
  rw [irq_bytes] at placed
  have data := (holdsBytes_cons.1 placed).2
  have number := littleEndian_leBytes (holdsBytes_append.1 data).1
  rw [Nat.mod_eq_of_lt mask.isLt] at number
  refine ⟨?_, number⟩
  have short := (irq_length mask flags).2
  rw [byte_of_holds placed, BitVec.toNat_ofNat]
  omega

private theorem smallInterrupt_irq {mask : BitVec 16} {flags : Option Byte}
    (placed : HoldsBytes memory cptr (irq mask flags).bytes) (next : Checked Unit _)
    {allowed : Nat → Nat → Prop} (inside : allowed (cptr + 1) 2)
    (few : (interruptsOf mask.toNat)[sourceIndex]? = none) :
    Safe (smallInterrupt memory sourceIndex cptr >>= foundOr next) allowed Q ↔
      Safe next allowed Q := by
  obtain ⟨type, number⟩ := irq_read placed
  have found : findInMask mask.toNat sourceIndex 0 (List.range 16) = none :=
    (findInMask_eq _ (Nat.zero_le _) _).trans few
  rw [smallInterrupt, if_pos type, number, found]
  simp only [safe_bind, safe_look, safe_pure, foundOr, inside, true_and]

/-- The interrupt that is found in an IRQ, with the flags in the byte behind the mask. -/
theorem walk_found {mask : BitVec 16} {flags : Option Byte} {i : Nat}
    (placed : HoldsBytes memory cptr (irq mask flags).bytes)
    (inside : low ≤ cptr ∧ cptr + 4 ≤ high) (rest : rem ≠ 0)
    (found : (interruptsOf mask.toNat)[sourceIndex]? = some i) :
    Safe (walkResources memory sourceIndex (fuel + 1) rem cptr) (Inside low high) Q ↔
      Q (some (withFlags (memory (cptr + 3)) i)) := by
  obtain ⟨type, number⟩ := irq_read placed
  have found : findInMask mask.toNat sourceIndex 0 (List.range 16) = some i :=
    (findInMask_eq _ (Nat.zero_le _) _).trans found
  have first : Inside low high cptr 1 := ⟨inside.1, by omega⟩
  have second : Inside low high (cptr + 1) 2 := ⟨by omega, by omega⟩
  have third : Inside low high (cptr + 3) 1 := ⟨by omega, by omega⟩
  have small : (memory cptr).toNat < 0x80 := by omega
  rw [walkResources, if_pos rest, smallInterrupt, if_pos type, number, found]
  simp only [safe_bind, safe_look, safe_pure, foundOr, if_pos small, first, second, third, true_and,
    withFlags]

private theorem walk_passesSmall {d : ResourceDescriptor} (passes : d.PassesSmall sourceIndex)
    (placed : HoldsBytes memory cptr d.bytes)
    (inside : low ≤ cptr ∧ cptr + d.bytes.length ≤ high) :
    Safe (walkResources memory sourceIndex (fuel + 1) (d.bytes.length + r) cptr)
        (Inside low high) Q ↔
      Safe (walkResources memory sourceIndex fuel r (cptr + d.bytes.length))
        (Inside low high) Q := by
  cases d with
  | irq mask flags =>
    have few : (interruptsOf mask.toNat)[sourceIndex]? = none := List.getElem?_eq_none passes
    obtain ⟨data, short⟩ := irq_length mask flags
    have whole := placed
    rw [irq_bytes] at placed inside ⊢
    rw [List.length_cons] at inside ⊢
    refine walk_small (by decide) short placed inside fun next => ?_
    exact smallInterrupt_irq whole next ⟨by omega, by omega⟩ few
  | small type data =>
    obtain ⟨few, other, short⟩ := passes
    rw [ResourceDescriptor.bytes] at placed inside ⊢
    rw [List.length_cons] at inside ⊢
    refine walk_small few short placed inside fun next => ?_
    have none : smallInterrupt memory sourceIndex cptr = pure none := by
      rw [smallInterrupt, if_neg]
      rw [byte_of_holds placed, BitVec.toNat_ofNat]
      omega
    rw [none, safe_bind, safe_pure, foundOr]
  | interrupt => exact passes.elim
  | large => exact passes.elim

/-- An extended interrupt is only right for the first index and a number of one byte. -/
theorem walk_interrupt {flags : Byte} {first : BitVec 32} {others : List (BitVec 32)}
    {source : List Byte}
    (placed : HoldsBytes memory cptr (interrupt flags first others source).bytes)
    (inside : low ≤ cptr ∧ cptr + 6 ≤ high) (rest : rem ≠ 0) :
    Safe (walkResources memory sourceIndex (fuel + 1) rem cptr) (Inside low high) Q ↔
      sourceIndex = 0 ∧ Q (some ⟨first.toNat % 2 ^ 8, (extended flags first).triggerMode,
        (extended flags first).polarity⟩) := by
  obtain ⟨type, data⟩ := holdsBytes_cons.1 placed
  obtain ⟨-, content⟩ := holdsBytes_append.1 data
  rw [length_leBytes] at content
  obtain ⟨isFlags, counted⟩ := holdsBytes_cons.1 content
  obtain ⟨-, numbers⟩ := holdsBytes_cons.1 counted
  obtain ⟨number, -⟩ := holdsBytes_append.1 numbers
  have lowest : memory (cptr + 5) = BitVec.ofNat 8 first.toNat := (holdsBytes_cons.1 number).1
  have isFlags : memory (cptr + 3) = flags := isFlags
  have look₁ : Inside low high cptr 1 := ⟨inside.1, by omega⟩
  have look₂ : Inside low high (cptr + 3) 1 := ⟨by omega, by omega⟩
  have look₃ : Inside low high (cptr + 5) 1 := ⟨by omega, by omega⟩
  have tag : (0x89 : Byte).toNat = 0x89 := rfl
  rw [walkResources, if_pos rest, type, tag, if_neg (by decide), safe_bind, safe_look, safe_ite,
    if_pos (show 0x89 - 0x80 = 0x9 by decide), lowest, isFlags]
  by_cases zero : sourceIndex = 0
  · simp only [zero, ne_eq, not_true_eq_false, if_false, safe_bind, safe_look, safe_pure, look₁,
      look₂, look₃, true_and, extended, BitVec.toNat_ofNat]
  · simp only [ne_eq, zero, not_false_eq_true, if_true, safe_stop, and_false, false_and]

/-- The walk goes on three bytes before the end of a large descriptor. -/
theorem walk_large {type : Nat} {data : List Byte} (valid : (large type data).Valid)
    (placed : HoldsBytes memory cptr (large type data).bytes)
    (inside : low ≤ cptr ∧ cptr + 3 ≤ high) :
    Safe (walkResources memory 0 (fuel + 1) ((large type data).bytes.length + r) cptr)
        (Inside low high) Q ↔
      Safe (walkResources memory 0 fuel (3 + r) (cptr + data.length)) (Inside low high) Q := by
  obtain ⟨few, other, short⟩ := valid
  obtain ⟨tag, rest⟩ := holdsBytes_cons.1 placed
  have number := littleEndian_leBytes (holdsBytes_append.1 rest).1
  rw [Nat.mod_eq_of_lt short] at number
  have type_eq : (memory cptr).toNat = 0x80 + type := by
    rw [tag, BitVec.toNat_ofNat]
    omega
  have length : (large type data).bytes.length = 3 + data.length := by
    rw [ResourceDescriptor.bytes, List.length_cons, List.length_append, length_leBytes]
    omega
  have first : Inside low high cptr 1 := ⟨inside.1, by omega⟩
  have second : Inside low high (cptr + 1) 2 := ⟨by omega, by omega⟩
  have left : 3 + data.length + r - data.length = 3 + r := by omega
  rw [walkResources, length, if_pos (by omega), type_eq, if_neg (by omega), if_neg (by omega),
    if_neg (by omega), number, if_neg (by omega), left]
  simp only [safe_bind, safe_look, first, second, true_and]

/-- What the walk passes before a position does not matter. -/
def Skips (memory : Nat → Byte) (sourceIndex low high rem cptr rem' cptr' : Nat) : Prop :=
  ∃ n, ∀ fuel (Q : Option PciRoutingInterrupt → Prop),
    Safe (walkResources memory sourceIndex (fuel + n) rem cptr) (Inside low high) Q ↔
      Safe (walkResources memory sourceIndex fuel rem' cptr') (Inside low high) Q

theorem Skips.trans {rem₁ rem₂ cptr₁ cptr₂ : Nat}
    (first : Skips memory sourceIndex low high rem cptr rem₁ cptr₁)
    (second : Skips memory sourceIndex low high rem₁ cptr₁ rem₂ cptr₂) :
    Skips memory sourceIndex low high rem cptr rem₂ cptr₂ := by
  obtain ⟨n, passes⟩ := first
  obtain ⟨n', passes'⟩ := second
  refine ⟨n' + n, fun fuel Q => ?_⟩
  rw [← Nat.add_assoc, passes, passes']

theorem skips_all {ds : List ResourceDescriptor}
    (each : ∀ d ∈ ds, ∀ {cptr r}, HoldsBytes memory cptr d.bytes →
      low ≤ cptr ∧ cptr + d.bytes.length ≤ high →
      Skips memory sourceIndex low high (d.bytes.length + r) cptr r (cptr + d.bytes.length))
    (placed : HoldsBytes memory cptr (ds.flatMap ResourceDescriptor.bytes))
    (inside : low ≤ cptr ∧ cptr + (ds.flatMap ResourceDescriptor.bytes).length ≤ high) :
    Skips memory sourceIndex low high ((ds.flatMap ResourceDescriptor.bytes).length + r) cptr r
      (cptr + (ds.flatMap ResourceDescriptor.bytes).length) := by
  induction ds generalizing cptr with
  | nil =>
    refine ⟨0, fun fuel Q => ?_⟩
    rw [List.flatMap_nil, List.length_nil, Nat.zero_add, Nat.add_zero, Nat.add_zero]
  | cons d ds ih =>
    rw [List.flatMap_cons] at placed inside ⊢
    obtain ⟨first, later⟩ := holdsBytes_append.1 placed
    rw [List.length_append] at inside ⊢
    have one := @each d (List.mem_cons_self ..) cptr
      ((ds.flatMap ResourceDescriptor.bytes).length + r) first (by omega)
    have rest := ih (fun d member => each d (List.mem_cons_of_mem _ member)) later
      ⟨by omega, by omega⟩
    rw [Nat.add_assoc d.bytes.length, ← Nat.add_assoc cptr]
    exact one.trans rest

private theorem skips_small {d : ResourceDescriptor} (passes : d.PassesSmall sourceIndex)
    (placed : HoldsBytes memory cptr d.bytes)
    (inside : low ≤ cptr ∧ cptr + d.bytes.length ≤ high) :
    Skips memory sourceIndex low high (d.bytes.length + r) cptr r (cptr + d.bytes.length) :=
  ⟨1, fun _ _ => walk_passesSmall passes placed inside⟩

/-- A descriptor is passed, a large one if small ones stand in its last three bytes. -/
theorem skips_passes {d : ResourceDescriptor} (valid : d.Valid) (passes : d.Passes sourceIndex)
    (placed : HoldsBytes memory cptr d.bytes)
    (inside : low ≤ cptr ∧ cptr + d.bytes.length ≤ high) :
    Skips memory sourceIndex low high (d.bytes.length + r) cptr r (cptr + d.bytes.length) := by
  rcases passes with small | ⟨rfl, resumes⟩
  · exact skips_small small placed inside
  cases d with
  | irq => exact resumes.elim
  | small => exact resumes.elim
  | interrupt => exact resumes.elim
  | large type data =>
    obtain ⟨rest, passed, last⟩ := resumes
    have length : (large type data).bytes.length = data.length + 3 := by
      rw [ResourceDescriptor.bytes, List.length_cons, List.length_append, length_leBytes]
      omega
    have three : (rest.flatMap ResourceDescriptor.bytes).length = 3 := by
      rw [last, List.length_drop, length, Nat.add_sub_cancel_left]
    have behind : HoldsBytes memory (cptr + data.length)
        (rest.flatMap ResourceDescriptor.bytes) := by
      have split := List.take_append_drop data.length (large type data).bytes
      rw [← split, holdsBytes_append, List.length_take, length, Nat.min_eq_left (by omega)]
        at placed
      rw [last]
      exact placed.2
    have large_step : Skips memory 0 low high ((large type data).bytes.length + r) cptr (3 + r)
        (cptr + data.length) := ⟨1, fun fuel Q => walk_large valid placed ⟨inside.1, by omega⟩⟩
    have smalls := @skips_all memory 0 r (cptr + data.length) low high rest
      (fun d member _ _ => skips_small (passed d member)) behind ⟨by omega, by omega⟩
    rw [three, Nat.add_assoc, ← length] at smalls
    exact large_step.trans smalls

private theorem safe_walk_succ (safe : Safe (walkResources memory sourceIndex fuel rem cptr)
      (Inside low high) Q) :
    Safe (walkResources memory sourceIndex (fuel + 1) rem cptr) (Inside low high) Q := by
  induction fuel generalizing rem cptr with
  | zero =>
    rw [walkResources, safe_stop] at safe
    exact safe.elim
  | succ fuel ih =>
    rw [walkResources] at safe ⊢
    by_cases left : rem ≠ 0
    · rw [if_pos left, safe_bind, safe_look] at safe ⊢
      refine ⟨safe.1, ?_⟩
      by_cases small : (memory cptr).toNat < 0x80
      · have safe := safe.2
        rw [if_pos small, safe_bind] at safe ⊢
        refine safe.mono fun found after => ?_
        cases found with
        | some interrupt => exact after
        | none =>
          rw [foundOr, safe_ite] at after ⊢
          split
          next short =>
            rw [if_pos short] at after
            exact after
          next fits =>
            rw [if_neg fits] at after
            exact ih after
      · have safe := safe.2
        rw [if_neg small] at safe ⊢
        by_cases other : sourceIndex ≠ 0
        · rw [if_pos other] at safe ⊢
          exact safe
        rw [if_neg other] at safe ⊢
        by_cases isInterrupt : (memory cptr).toNat - 0x80 = 0x9
        · rw [if_pos isInterrupt] at safe ⊢
          exact safe
        rw [if_neg isInterrupt, safe_bind, safe_look, safe_ite] at safe ⊢
        refine ⟨safe.1, ?_⟩
        have safe := safe.2
        split
        next short =>
          rw [if_pos short] at safe
          exact safe
        next fits =>
          rw [if_neg fits] at safe
          exact ih safe
    · rw [if_neg left] at safe ⊢
      exact safe

private theorem safe_walk_add (safe : Safe (walkResources memory sourceIndex fuel rem cptr)
      (Inside low high) Q) (n : Nat) :
    Safe (walkResources memory sourceIndex (fuel + n) rem cptr) (Inside low high) Q := by
  induction n with
  | zero => exact safe
  | succ n ih => exact safe_walk_succ ih

/-! ### Whole templates -/

variable {t : ResourceTemplate}

private theorem interrupts_of_passes {d : ResourceDescriptor} (passes : d.Passes 0) :
    d.interrupts = [] := by
  cases d with
  | irq mask flags =>
    have none : interruptsOf mask.toNat = [] := by
      obtain small | ⟨-, resumes⟩ := passes
      · exact List.eq_nil_of_length_eq_zero (Nat.le_zero.1 small)
      · exact resumes.elim
    rw [interrupts, none, List.map_nil]
  | small => rfl
  | interrupt =>
    obtain small | ⟨-, resumes⟩ := passes
    · exact small.elim
    · exact resumes.elim
  | large => rfl

theorem placed_at {before after : List ResourceDescriptor} {d : ResourceDescriptor}
    (placed : HoldsBytes memory t.address t.bytes)
    (split : t.descriptors = before ++ d :: after) :
    ∃ cptr r, cptr = t.address + (before.flatMap ResourceDescriptor.bytes).length ∧
      t.bytes.length = (before.flatMap ResourceDescriptor.bytes).length + r ∧
      d.bytes.length + 2 ≤ r ∧ cptr + r = t.address + t.bytes.length ∧
      HoldsBytes memory t.address (before.flatMap ResourceDescriptor.bytes) ∧
      HoldsBytes memory cptr d.bytes ∧
      memory (cptr + d.bytes.length) = ResourceTemplate.nextByte after := by
  have bytes : t.bytes = before.flatMap ResourceDescriptor.bytes ++
      (d.bytes ++ (after.flatMap ResourceDescriptor.bytes ++ [0x79, t.checksum])) := by
    rw [ResourceTemplate.bytes, split, List.flatMap_append, List.flatMap_cons, List.append_assoc,
      List.append_assoc]
  rw [bytes] at placed ⊢
  obtain ⟨front, later⟩ := holdsBytes_append.1 placed
  obtain ⟨here, behind⟩ := holdsBytes_append.1 later
  refine ⟨_, _, rfl, List.length_append, ?_, ?_, front, here, ?_⟩
  · simp only [List.length_append, List.length_cons, List.length_nil]
    omega
  · simp only [List.length_append, Nat.add_assoc]
  · cases after with
    | nil => exact byte_of_holds behind
    | cons d' after =>
      have some_byte : ∃ b rest, d'.bytes = b :: rest := by
        cases d' with
        | irq mask flags => exact ⟨_, _, irq_bytes mask flags⟩
        | small => exact ⟨_, _, rfl⟩
        | interrupt => exact ⟨_, _, rfl⟩
        | large => exact ⟨_, _, rfl⟩
      obtain ⟨b, rest, same⟩ := some_byte
      rw [List.flatMap_cons, same] at behind
      rw [byte_of_holds behind, ResourceTemplate.nextByte, same, List.headD_cons]

theorem irq_flags {mask : BitVec 16} {flags : Option Byte} {next : Byte}
    (placed : HoldsBytes memory cptr (irq mask flags).bytes)
    (behind : memory (cptr + (irq mask flags).bytes.length) = next) :
    memory (cptr + 3) = flags.getD next := by
  cases flags with
  | none => exact behind
  | some f =>
    have data := (holdsBytes_append.1 (holdsBytes_cons.1 placed).2).2
    rw [length_leBytes] at data
    exact byte_of_holds data

theorem skips_before {before after : List ResourceDescriptor} {d : ResourceDescriptor}
    (placed : HoldsBytes memory t.address t.bytes)
    (split : t.descriptors = before ++ d :: after) (passed : ∀ b ∈ before, b.Passes sourceIndex) :
    ∃ cptr r, Skips memory sourceIndex t.address (t.address + t.bytes.length) t.bytes.length
        t.address r cptr ∧
      d.bytes.length + 2 ≤ r ∧ t.address ≤ cptr ∧ cptr + r = t.address + t.bytes.length ∧
      HoldsBytes memory cptr d.bytes ∧
      memory (cptr + d.bytes.length) = ResourceTemplate.nextByte after := by
  obtain ⟨cptr, r, place, length, room, ends, front, here, behind⟩ := placed_at placed split
  refine ⟨cptr, r, ?_, room, by omega, ends, here, behind⟩
  have valid (b : ResourceDescriptor) (member : b ∈ before) : b.Valid :=
    t.valid b (split ▸ List.mem_append_left _ member)
  have skips := @skips_all memory sourceIndex r t.address t.address
    (t.address + t.bytes.length) before
    (fun b member _ _ placed inside =>
      skips_passes (valid b member) (passed b member) placed inside) front ⟨Nat.le_refl _, by omega⟩
  rw [← length, ← place] at skips
  exact skips

private theorem length_interrupt (flags : Byte) (first : BitVec 32) (others : List (BitVec 32))
    (source : List Byte) : 6 ≤ (interrupt flags first others source).bytes.length := by
  simp only [ResourceDescriptor.bytes, List.length_cons, List.length_append, length_leBytes]
  omega

/-- The first of extended interrupts, if no other interrupt stands before them. -/
theorem selected_first {before after : List ResourceDescriptor} {flags : Byte} {first : BitVec 32}
    {others : List (BitVec 32)} {source : List Byte}
    (split : t.descriptors = before ++ interrupt flags first others source :: after)
    (passed : ∀ b ∈ before, b.Passes 0) : t.selected 0 = some (extended flags first) := by
  have none : before.flatMap ResourceDescriptor.interrupts = [] := by
    rw [List.flatMap_eq_nil_iff]
    exact fun b member => interrupts_of_passes (passed b member)
  rw [ResourceTemplate.selected, split, List.flatMap_append, none, List.flatMap_cons]
  rfl

/-- From a template that is read rightly, the selected interrupt is returned. -/
theorem walk_rightlyRead {i : PciRoutingInterrupt} (right : t.RightlyRead sourceIndex)
    (placed : HoldsBytes memory t.address t.bytes) (selected : t.selected sourceIndex = some i) :
    ∃ fuel, ∀ Q : Option PciRoutingInterrupt → Prop,
      Safe (walkResources memory sourceIndex fuel t.bytes.length t.address)
        (Inside t.address (t.address + t.bytes.length)) Q ↔ Q (some i) := by
  obtain ⟨before, d, after, split, passed, decides⟩ := right
  obtain ⟨cptr, r, ⟨n, skips⟩, room, above, ends, here, behind⟩ := skips_before placed split passed
  refine ⟨0 + 1 + n, fun Q => ?_⟩
  rw [skips]
  cases d with
  | irq mask flags =>
    obtain ⟨bit, found, same⟩ := decides
    have wide := (irq_length mask flags).1
    rw [irq_bytes, List.length_cons] at room
    rw [walk_found here ⟨above, by omega⟩ (by omega) found, irq_flags here behind, ← same, selected]
  | interrupt flags first others source =>
    obtain ⟨rfl, narrow⟩ := decides
    have length := length_interrupt flags first others source
    rw [walk_interrupt here ⟨above, by omega⟩ (by omega), Nat.mod_eq_of_lt narrow, ← selected,
      selected_first split passed]
    exact ⟨And.right, fun value => ⟨rfl, value⟩⟩
  | small => exact decides.elim
  | large => exact decides.elim

theorem exists_first {α : Type} {P : α → Prop} {xs : List α} (some : ¬∀ x ∈ xs, P x) :
    ∃ before x after, xs = before ++ x :: after ∧ (∀ b ∈ before, P b) ∧ ¬P x := by
  induction xs with
  | nil => exact absurd (by simp) some
  | cons x xs ih =>
    by_cases here : P x
    · have later : ¬∀ y ∈ xs, P y := fun all => some fun y member =>
        (List.mem_cons.1 member).elim (fun same => same ▸ here) (all y)
      obtain ⟨before, y, after, rfl, passed, not⟩ := ih later
      refine ⟨x :: before, y, after, rfl, ?_, not⟩
      intro b member
      rcases List.mem_cons.1 member with rfl | member
      · exact here
      · exact passed b member
    · exact ⟨[], x, xs, rfl, by simp, here⟩

/-- Where a template without large descriptors, but for extended interrupts, gives the selected
interrupt, it is read rightly. -/
theorem rightlyRead_of_walk (plain : ∀ type data, .large type data ∉ t.descriptors)
    (placed : HoldsBytes memory t.address t.bytes)
    (safe : Safe (walkResources memory sourceIndex fuel t.bytes.length t.address)
      (Inside t.address (t.address + t.bytes.length)) Q)
    (notNone : ¬Q none) (only : ∀ i, Q (some i) → t.selected sourceIndex = some i) :
    t.RightlyRead sourceIndex := by
  by_cases all : ∀ d ∈ t.descriptors, d.PassesSmall sourceIndex
  · -- the walk goes on to the end
    obtain ⟨front, tag⟩ := holdsBytes_append.1 (show HoldsBytes memory t.address
      (t.descriptors.flatMap ResourceDescriptor.bytes ++ [0x79, t.checksum]) from placed)
    have length : t.bytes.length =
        (t.descriptors.flatMap ResourceDescriptor.bytes).length + 2 := by
      rw [ResourceTemplate.bytes, List.length_append]
      rfl
    obtain ⟨n, skips⟩ := @skips_all memory sourceIndex 2 t.address t.address
      (t.address + t.bytes.length) t.descriptors
      (fun d member _ _ => skips_small (all d member)) front ⟨Nat.le_refl _, by omega⟩
    obtain ⟨m, ended⟩ := @skips_small memory sourceIndex 0
      (t.address + (t.descriptors.flatMap ResourceDescriptor.bytes).length) t.address
      (t.address + t.bytes.length) (.small 0xF [t.checksum])
      ⟨by decide, by decide, Nat.lt_of_sub_eq_succ rfl⟩ tag
      ⟨Nat.le_add_right .., by rw [length]; exact Nat.le_refl _⟩
    rw [← length] at skips
    have more := safe_walk_add (safe_walk_add (safe_walk_add safe 1) m) n
    rw [skips] at more
    have last := (ended _ _).1 more
    rw [walkResources, if_neg (by decide), safe_pure] at last
    exact absurd last notNone
  · obtain ⟨before, d, after, split, passed, not⟩ := exists_first all
    refine ⟨before, d, after, split, fun b member => .inl (passed b member), ?_⟩
    obtain ⟨cptr, r, ⟨n, skips⟩, room, above, ends, here, behind⟩ :=
      skips_before placed split fun b member => .inl (passed b member)
    have more := safe_walk_add (safe_walk_add safe 1) n
    rw [skips] at more
    have own : d ∈ t.descriptors := split ▸ List.mem_append_right _ (List.mem_cons_self ..)
    cases d with
    | irq mask flags =>
      have wide := (irq_length mask flags).1
      rw [irq_bytes, List.length_cons] at room
      obtain ⟨bit, found⟩ : ∃ bit, (interruptsOf mask.toNat)[sourceIndex]? = some bit :=
        ⟨_, List.getElem?_eq_getElem (Nat.lt_of_not_le not)⟩
      rw [walk_found here ⟨above, by omega⟩ (by omega) found, irq_flags here behind] at more
      exact ⟨bit, found, only _ more⟩
    | interrupt flags first others source =>
      have length := length_interrupt flags first others source
      rw [walk_interrupt here ⟨above, by omega⟩ (by omega)] at more
      obtain ⟨rfl, value⟩ := more
      have listed := selected_first split fun b member => .inl (passed b member)
      have same := congrArg PciRoutingInterrupt.irq
        (Option.some.inj (listed.symm.trans (only _ value)))
      refine ⟨rfl, ?_⟩
      have number : first.toNat = first.toNat % 2 ^ 8 := same
      omega
    | small type data =>
      obtain ⟨few, other, -, short⟩ := t.valid _ own
      exact absurd ⟨few, other, short⟩ not
    | large type data => exact absurd own (plain type data)

end Walk

end EmkKernel
