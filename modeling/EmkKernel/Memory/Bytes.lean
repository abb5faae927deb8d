import EmkKernel.Memory.Basic

/-!
# Bytes in memory

Where a list of bytes lies, and the numbers that are read from memory.
-/

namespace EmkKernel

/-- A range of bytes between two addresses. -/
def Inside (low high address n : Nat) : Prop := low ≤ address ∧ address + n ≤ high

/-- The bytes lie in the memory from an address on. -/
def HoldsBytes (memory : Nat → Byte) (data : Nat) (bytes : List Byte) : Prop :=
  ∀ k < bytes.length, bytes[k]? = some (memory (data + k))

theorem holdsBytes_cons {memory : Nat → Byte} {data : Nat} {b : Byte} {bytes : List Byte} :
    HoldsBytes memory data (b :: bytes) ↔ memory data = b ∧ HoldsBytes memory (data + 1) bytes := by
  constructor
  · intro placed
    constructor
    · exact (Option.some.inj (placed 0 (by simp))).symm
    · intro k below
      have here := placed (k + 1) (by simpa using below)
      rw [List.getElem?_cons_succ] at here
      rw [here, Nat.add_right_comm, Nat.add_assoc]
  · rintro ⟨first, rest⟩ k below
    cases k with
    | zero => rw [List.getElem?_cons_zero, Nat.add_zero, first]
    | succ k =>
      rw [List.getElem?_cons_succ, rest k (by simpa using below), Nat.add_right_comm, Nat.add_assoc]

theorem holdsBytes_append {memory : Nat → Byte} {data : Nat} {xs ys : List Byte} :
    HoldsBytes memory data (xs ++ ys) ↔
      HoldsBytes memory data xs ∧ HoldsBytes memory (data + xs.length) ys := by
  induction xs generalizing data with
  | nil =>
    simp only [List.nil_append, List.length_nil, Nat.add_zero]
    exact ⟨fun placed => ⟨fun k below => absurd below (Nat.not_lt_zero k), placed⟩, And.right⟩
  | cons x xs ih =>
    rw [List.cons_append, holdsBytes_cons, holdsBytes_cons, ih, and_assoc, List.length_cons,
      Nat.add_assoc, Nat.add_comm 1]

/-- The bytes of a number, the lowest first. -/
def leBytes : Nat → Nat → List Byte
  | _, 0 => []
  | v, k + 1 => BitVec.ofNat 8 v :: leBytes (v / 2 ^ 8) k

@[simp] theorem length_leBytes (v k : Nat) : (leBytes v k).length = k := by
  induction k generalizing v with
  | zero => rfl
  | succ k ih => rw [leBytes, List.length_cons, ih]

theorem littleEndian_congr {memory memory' : Nat → Byte} {address address' n : Nat}
    (same : ∀ i < n, memory (address + i) = memory' (address' + i)) :
    littleEndian memory address n = littleEndian memory' address' n := by
  induction n generalizing address address' with
  | zero => rfl
  | succ n ih =>
    have first := same 0 (Nat.succ_pos n)
    rw [Nat.add_zero, Nat.add_zero] at first
    unfold littleEndian
    rw [first, ih fun i less => ?_]
    rw [Nat.add_assoc, Nat.add_assoc, Nat.add_comm 1]
    exact same (i + 1) (Nat.succ_lt_succ less)

theorem littleEndian_lt (memory : Nat → Byte) (address n : Nat) :
    littleEndian memory address n < 2 ^ (8 * n) := by
  induction n generalizing address with
  | zero => exact Nat.one_pos
  | succ n ih =>
    have later := ih (address + 1)
    have first := (memory address).isLt
    rw [Nat.mul_succ, Nat.pow_add, Nat.mul_comm]
    unfold littleEndian
    omega

/-- Where the bytes of a number lie, the number is read. -/
theorem littleEndian_leBytes {memory : Nat → Byte} {address v k : Nat}
    (holds : HoldsBytes memory address (leBytes v k)) :
    littleEndian memory address k = v % 2 ^ (8 * k) := by
  induction k generalizing v address with
  | zero => simp [littleEndian, Nat.mod_one]
  | succ k ih =>
    obtain ⟨first, rest⟩ := holdsBytes_cons.1 holds
    have split := Nat.mod_mul (x := v) (a := 2 ^ 8) (b := 2 ^ (8 * k))
    rw [littleEndian, first, ih rest, BitVec.toNat_ofNat, Nat.mul_add, Nat.add_comm (8 * k),
      Nat.pow_add, split]

/-- Memory with the bytes from an address on. -/
def memoryOf (address : Nat) (bytes : List Byte) : Nat → Byte :=
  fun a => bytes.getD (a - address) 0

theorem holdsBytes_memoryOf (address : Nat) (bytes : List Byte) :
    HoldsBytes (memoryOf address bytes) address bytes := by
  intro k below
  rw [memoryOf, Nat.add_sub_cancel_left, List.getD_eq_getElem?_getD, List.getElem?_eq_getElem below,
    Option.getD_some]

end EmkKernel
