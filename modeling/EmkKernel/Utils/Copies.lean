import EmkKernel.Utils.Reallocate

/-!
# Copies in physical memory

What the words and bytes of physical memory are after `memcpy_qword`, after frames were
filled with zeros, and after `memcpy` and `memset`.
-/

namespace EmkKernel

variable {m : Memory} {x y dst src n : Nat}

theorem locate_inj (alignedX : x % 8 = 0) (alignedY : y % 8 = 0) (boundX : x < 2 ^ 64)
    (boundY : y < 2 ^ 64) (table : (locate x).table = (locate y).table)
    (index : (locate x).index = (locate y).index) : x = y := by
  have frames := congrArg BitVec.toNat table
  have indices := congrArg Fin.val index
  simp only [locate, BitVec.toNat_ofNat, Fin.ofNat] at frames indices
  omega

private theorem wordAt_write (alignedX : x % 8 = 0) (alignedY : y % 8 = 0) (boundX : x < 2 ^ 64)
    (boundY : y < 2 ^ 64) (e : Entry) :
    wordAt (RadixTree.write m (locate x).table (locate x).index e) y =
      if y = x then e else wordAt m y := by
  rw [wordAt, RadixTree.write_apply]
  by_cases same : y = x
  · rw [same, if_pos ⟨rfl, rfl⟩, if_pos rfl]
  · rw [if_neg same, if_neg fun here => same (locate_inj alignedY alignedX boundY boundX
      here.1 here.2)]
    rfl

/-- A copy changes no word outside its destination. -/
theorem wordAt_memcpyQword_of_outside (aligned : x % 8 = 0) (bound : x < 2 ^ 64)
    (alignedDst : dst % 8 = 0) (boundDst : dst + 8 * n ≤ 2 ^ 64)
    (outside : x < dst ∨ dst + 8 * n ≤ x) :
    wordAt (memcpyQword m dst src n) x = wordAt m x := by
  induction n generalizing m dst src with
  | zero => rfl
  | succ n ih =>
    rw [memcpyQword, ih (by omega) (by omega) (by omega),
      wordAt_write alignedDst aligned (by omega) bound, if_neg (by omega)]

/-- The words of the source arrive, if source and destination lie apart. -/
theorem wordAt_memcpyQword (alignedDst : dst % 8 = 0) (alignedSrc : src % 8 = 0)
    (boundDst : dst + 8 * n ≤ 2 ^ 64) (boundSrc : src + 8 * n ≤ 2 ^ 64)
    (apart : src + 8 * n ≤ dst ∨ dst + 8 * n ≤ src) {j : Nat} (below : j < n) :
    wordAt (memcpyQword m dst src n) (dst + 8 * j) = wordAt m (src + 8 * j) := by
  induction n generalizing m dst src j with
  | zero => exact absurd below (Nat.not_lt_zero j)
  | succ n ih =>
    rw [memcpyQword]
    cases j with
    | zero =>
      -- the rest of the copy lies behind the first word
      rw [wordAt_memcpyQword_of_outside (by omega) (by omega) (by omega) (by omega) (by omega),
        wordAt_write alignedDst (by omega) (by omega) (by omega), if_pos (by omega)]
      rfl
    | succ j =>
      have next : dst + 8 * (j + 1) = dst + 8 + 8 * j := by omega
      rw [next, ih (by omega) (by omega) (by omega) (by omega) (by omega) (by omega),
        wordAt_write alignedDst (by omega) (by omega) (by omega), if_neg (by omega)]
      congr 1
      omega

theorem wordAt_zeroFrames (aligned : dst % 0x1000 = 0) (bound : x < 2 ^ 64)
    (boundDst : dst + n * 0x1000 ≤ 2 ^ 64) (outside : x < dst ∨ dst + n * 0x1000 ≤ x) :
    wordAt (zeroFrames m dst n) x = wordAt m x := by
  induction n generalizing m dst with
  | zero => rfl
  | succ n ih =>
    rw [zeroFrames, ih (by omega) (by omega) (by omega), wordAt, RadixTree.fill_apply, if_neg]
    · rfl
    intro same
    have frames := congrArg BitVec.toNat same
    simp only [locate, BitVec.toNat_ofNat] at frames
    omega

/-- The byte at a physical address. -/
def physicalByte (m : Memory) (address : Nat) : Byte :=
  (wordAt m address >>> (8 * (address % 8))).setWidth 8

theorem wordAt_floor (m : Memory) (x : Nat) : wordAt m (x / 8 * 8) = wordAt m x := by
  have same : locate (x / 8 * 8) = locate x := by
    rw [locate, locate, show x / 8 * 8 / 0x1000 = x / 0x1000 by omega,
      show x / 8 * 8 / 8 = x / 8 by omega]
  rw [wordAt, same, wordAt]

theorem zeroFrames_of_other {f : BitVec 64}
    (other : ∀ i < n, f ≠ BitVec.ofNat 64 (dst + i * 0x1000)) :
    zeroFrames m dst n f = m f := by
  induction n generalizing m dst with
  | zero => rfl
  | succ n ih =>
    have first := other 0 (Nat.succ_pos n)
    rw [zeroFrames, ih]
    · funext i
      rw [RadixTree.fill_apply, if_neg (by simpa using first)]
    · intro i below
      rw [Nat.add_assoc, Nat.add_comm 0x1000, ← Nat.succ_mul]
      exact other (i + 1) (by omega)

/-! ### Single bytes -/

/-- A word with another byte at one of its eight places. -/
def putByte (w : Entry) (k : Nat) (b : Byte) : Entry :=
  (w &&& ~~~(0xFF#64 <<< (8 * k))) ||| (b.setWidth 64 <<< (8 * k))

/-- `*(address as *mut u8) = b`. -/
def storeByte (m : Memory) (address : Nat) (b : Byte) : Memory :=
  RadixTree.write m (locate address).table (locate address).index
    (putByte (wordAt m address) (address % 8) b)

/-- `memcpy`: the bytes are copied one after the other. -/
def memcpy (m : Memory) (dst src : Nat) : Nat → Memory
  | 0 => m
  | n + 1 => memcpy (storeByte m dst (physicalByte m src)) (dst + 1) (src + 1) n

def memset (m : Memory) (dst : Nat) (value : Byte) : Nat → Memory
  | 0 => m
  | n + 1 => memset (storeByte m dst value) (dst + 1) value n

private theorem getLsbD_byteMask (j : Nat) : (0xFF#64).getLsbD j = decide (j < 8) := by
  by_cases small : j < 64
  · have bits : ∀ j : Fin 64, (0xFF#64).getLsbD j = decide (j.val < 8) := by decide
    exact bits ⟨j, small⟩
  · rw [BitVec.getLsbD_of_ge _ _ (by omega), decide_eq_false (by omega)]

private theorem getLsbD_putByte (w : Entry) (b : Byte) {k j : Nat} (inside : j < 64) :
    (putByte w k b).getLsbD j = if j / 8 = k then b.getLsbD (j % 8) else w.getLsbD j := by
  rw [putByte, BitVec.getLsbD_or, BitVec.getLsbD_and, BitVec.getLsbD_not, BitVec.getLsbD_shiftLeft,
    BitVec.getLsbD_shiftLeft, BitVec.getLsbD_setWidth, getLsbD_byteMask, decide_eq_true inside]
  by_cases here : j / 8 = k
  · have offset : j - 8 * k = j % 8 := by omega
    have above : ¬j < 8 * k := by omega
    have low : j % 8 < 8 := Nat.mod_lt _ (by decide)
    have bound : j % 8 < 64 := by omega
    simp [here, offset, above, low, bound]
  · rw [if_neg here]
    by_cases below : j < 8 * k
    · simp [below]
    · have far : ¬j - 8 * k < 8 := by omega
      have none : b.getLsbD (j - 8 * k) = false := BitVec.getLsbD_of_ge _ _ (by omega)
      simp [below, far, none]

theorem physicalByte_storeByte (boundX : x < 2 ^ 64) (boundY : y < 2 ^ 64) (b : Byte) :
    physicalByte (storeByte m x b) y = if y = x then b else physicalByte m y := by
  have word : wordAt (storeByte m x b) y =
      if y / 8 * 8 = x / 8 * 8 then putByte (wordAt m x) (x % 8) b else wordAt m y := by
    have same : locate x = locate (x / 8 * 8) := by
      rw [locate, locate, show x / 8 * 8 / 0x1000 = x / 0x1000 by omega,
        show x / 8 * 8 / 8 = x / 8 by omega]
    rw [← wordAt_floor, storeByte, same, wordAt_write (by omega) (by omega) (by omega) (by omega),
      wordAt_floor]
  rw [physicalByte, word]
  apply BitVec.eq_of_getLsbD_eq
  intro j inside
  rw [BitVec.getLsbD_setWidth, BitVec.getLsbD_ushiftRight, decide_eq_true inside, Bool.true_and]
  by_cases here : y / 8 * 8 = x / 8 * 8
  · rw [if_pos here, getLsbD_putByte _ _ (by omega),
      show (8 * (y % 8) + j) / 8 = y % 8 by omega, show (8 * (y % 8) + j) % 8 = j by omega]
    by_cases same : y = x
    · rw [if_pos (by rw [same]), if_pos same]
    · rw [if_neg (by omega), if_neg same, physicalByte, BitVec.getLsbD_setWidth,
        BitVec.getLsbD_ushiftRight, decide_eq_true inside, Bool.true_and, ← wordAt_floor m y, here,
        wordAt_floor]
  · rw [if_neg here, if_neg (fun same => here (by rw [same])), physicalByte,
      BitVec.getLsbD_setWidth, BitVec.getLsbD_ushiftRight, decide_eq_true inside, Bool.true_and]

private theorem storeByte_of_other (b : Byte) {f : BitVec 64} (other : f ≠ (locate x).table) :
    storeByte m x b f = m f := by
  funext i
  rw [storeByte, RadixTree.write_apply, if_neg fun same => other same.1]

theorem physicalByte_congr {m' : Memory} (same : m' (locate x).table = m (locate x).table) :
    physicalByte m' x = physicalByte m x := by
  rw [physicalByte, physicalByte, wordAt, wordAt, same]

/-! ### Copies of bytes -/

/-- A copy writes to the frames of its destination alone. -/
theorem memcpy_of_other {f : BitVec 64} (other : ∀ i < n, f ≠ (locate (dst + i)).table) :
    memcpy m dst src n f = m f := by
  induction n generalizing m dst src with
  | zero => rfl
  | succ n ih =>
    rw [memcpy, ih, storeByte_of_other]
    · exact other 0 (Nat.succ_pos n)
    · intro i below
      rw [Nat.add_right_comm]
      exact other (i + 1) (by omega)

theorem memset_of_other {value : Byte} {f : BitVec 64}
    (other : ∀ i < n, f ≠ (locate (dst + i)).table) : memset m dst value n f = m f := by
  induction n generalizing m dst with
  | zero => rfl
  | succ n ih =>
    rw [memset, ih, storeByte_of_other]
    · exact other 0 (Nat.succ_pos n)
    · intro i below
      rw [Nat.add_right_comm]
      exact other (i + 1) (by omega)

private theorem physicalByte_memcpy_of_outside (bound : dst + n ≤ 2 ^ 64) (boundX : x < 2 ^ 64)
    (outside : x < dst ∨ dst + n ≤ x) :
    physicalByte (memcpy m dst src n) x = physicalByte m x := by
  induction n generalizing m dst src with
  | zero => rfl
  | succ n ih =>
    rw [memcpy, ih (by omega) (by omega), physicalByte_storeByte (by omega) boundX,
      if_neg (by omega)]

/-- The bytes of the source arrive, if it lies in other frames. -/
theorem physicalByte_memcpy (bound : dst + n ≤ 2 ^ 64)
    (apart : ∀ i < n, ∀ j < n, (locate (src + i)).table ≠ (locate (dst + j)).table) {i : Nat}
    (below : i < n) :
    physicalByte (memcpy m dst src n) (dst + i) = physicalByte m (src + i) := by
  induction n generalizing m dst src i with
  | zero => exact absurd below (Nat.not_lt_zero i)
  | succ n ih =>
    rw [memcpy]
    cases i with
    | zero =>
      -- the rest of the copy lies behind the first byte
      rw [physicalByte_memcpy_of_outside (by omega) (by omega) (Or.inl (by omega)),
        physicalByte_storeByte (by omega) (by omega), if_pos (Nat.add_zero dst)]
      rfl
    | succ i =>
      have next : dst + (i + 1) = dst + 1 + i := by omega
      have source : src + (i + 1) = src + 1 + i := by omega
      rw [next, ih (by omega) _ (by omega), source]
      · exact physicalByte_congr (storeByte_of_other _ (source ▸ apart (i + 1) below 0 (by omega)))
      · intro j belowJ k belowK
        have left : src + 1 + j = src + (j + 1) := by omega
        have right : dst + 1 + k = dst + (k + 1) := by omega
        rw [left, right]
        exact apart (j + 1) (by omega) (k + 1) (by omega)

theorem physicalByte_memset_of_outside {value : Byte} (bound : dst + n ≤ 2 ^ 64)
    (boundX : x < 2 ^ 64) (outside : x < dst ∨ dst + n ≤ x) :
    physicalByte (memset m dst value n) x = physicalByte m x := by
  induction n generalizing m dst with
  | zero => rfl
  | succ n ih =>
    rw [memset, ih (by omega) (by omega), physicalByte_storeByte (by omega) boundX,
      if_neg (by omega)]

theorem physicalByte_memset {value : Byte} (bound : dst + n ≤ 2 ^ 64) {i : Nat} (below : i < n) :
    physicalByte (memset m dst value n) (dst + i) = value := by
  induction n generalizing m dst i with
  | zero => exact absurd below (Nat.not_lt_zero i)
  | succ n ih =>
    rw [memset]
    cases i with
    | zero =>
      rw [physicalByte_memset_of_outside (by omega) (by omega) (Or.inl (by omega)),
        physicalByte_storeByte (by omega) (by omega), if_pos (Nat.add_zero dst)]
    | succ i =>
      have next : dst + (i + 1) = dst + 1 + i := by omega
      rw [next, ih (by omega) (by omega)]

end EmkKernel
