import EmkKernel.Aml.Calls

/-!
# Numbers stored in objects

`store_data_ref_object` tests a number against the limits of the object it is stored to,
kind by kind, and `unwrap_data_ref_object_int` reads it back. An object that is `Zero` takes
the kind that the number needs.
-/

namespace EmkKernel

/-- What the numbers that an object can hold lie below. -/
def DataRefObject.limit : DataRefObject → Nat
  | .byte _ => 2 ^ 8
  | .word _ => 2 ^ 16
  | .dWord _ => 2 ^ 32
  | .qWord _ => 2 ^ 64
  | .zero => 2 ^ 64
  | _ => 0

/-- The kinds of objects that take every unsigned number. -/
def DataRefObject.IsInteger (object : DataRefObject) : Prop := 0 < object.limit

/-- A number of 64 bits and an object of any kind, or a signed number of 32 bits and a
`DWord`. -/
inductive NumberStore : DataRefObject → AmlValue → Prop
  | unsigned (object : DataRefObject) (num : Nat) (isInteger : object.IsInteger)
      (u64 : num < 2 ^ 64) : NumberStore object (.unsignedNumber num)
  | signed (dw : Nat) (num : Int) (low : -0x80000000 ≤ num) (high : num < 0x80000000) :
      NumberStore (.dWord dw) (.number num)

/-- The object can hold the number. -/
def DataRefObject.Represents (object : DataRefObject) : AmlValue → Prop
  | .unsignedNumber num => num < object.limit
  | _ => True

/-- What is read from an object that holds the number: a signed one as its 32 bits. -/
def AmlValue.held : AmlValue → Nat
  | .unsignedNumber num => num
  | .number num => (BitVec.ofInt 32 num).toNat
  | _ => 0

namespace AmlCode

variable {code : AmlCode} {dro : Nat} {val : AmlValue}

/-- A number that the object can hold is read back after the store; another one is not
stored. -/
structure StoresNumber (code : AmlCode) (dro : Nat) (val : AmlValue) : Prop where
  accepted : (code.nameSystem.object dro).Represents val → ∃ code',
    code.storeDataRefObject dro val = some code' ∧
      code'.unwrapDataRefObjectInt dro = some val.held
  rejected : ¬(code.nameSystem.object dro).Represents val → code.storeDataRefObject dro val = none

theorem storeDataRefObject_some {object : DataRefObject}
    (stored : storedObject (code.nameSystem.object dro) val = some object) :
    code.storeDataRefObject dro val =
      some { code with nameSystem := code.nameSystem.setObject dro object } := by
  unfold storeDataRefObject
  rw [stored]
  rfl

private theorem storeDataRefObject_none
    (refused : storedObject (code.nameSystem.object dro) val = none) :
    code.storeDataRefObject dro val = none := by
  unfold storeDataRefObject
  rw [refused]
  rfl

@[simp] theorem object_setObject (ns : NameSystem) (dro : Nat) (object : DataRefObject) :
    (ns.setObject dro object).object dro = object := Function.update_self ..

/-- The number that `unwrap_data_ref_object_int` reads. -/
def intOf : DataRefObject → Option Nat
  | .byte b => some b
  | .word w => some w
  | .dWord dw => some dw
  | .qWord qw => some qw
  | .zero => some 0
  | .one => some 1
  | .ones => some 0xFFFFFFFFFFFFFFFF
  | _ => none

private theorem unwrapDataRefObjectInt_eq :
    code.unwrapDataRefObjectInt dro = intOf (code.nameSystem.object dro) := by
  unfold unwrapDataRefObjectInt
  cases code.nameSystem.object dro <;> rfl

/-- Only the object matters. -/
theorem storesNumber_iff_object : code.StoresNumber dro val ↔
    ((code.nameSystem.object dro).Represents val →
      (storedObject (code.nameSystem.object dro) val).bind intOf = some val.held) ∧
    (¬(code.nameSystem.object dro).Represents val →
      storedObject (code.nameSystem.object dro) val = none) := by
  constructor
  · intro stores
    refine ⟨fun fits => ?_, fun large => ?_⟩
    · obtain ⟨code', stored, read⟩ := stores.accepted fits
      obtain ⟨object, result, written⟩ := Option.bind_eq_some_iff.mp stored
      cases written
      rw [unwrapDataRefObjectInt_eq, object_setObject] at read
      rw [result, Option.bind_some, read]
    · cases result : storedObject (code.nameSystem.object dro) val with
      | none => rfl
      | some object =>
        have refused := stores.rejected large
        rw [storeDataRefObject_some result] at refused
        cases refused
  · rintro ⟨accepts, rejects⟩
    refine ⟨fun fits => ?_, fun large => storeDataRefObject_none (rejects large)⟩
    obtain ⟨object, result, read⟩ := Option.bind_eq_some_iff.mp (accepts fits)
    refine ⟨_, storeDataRefObject_some result, ?_⟩
    rw [unwrapDataRefObjectInt_eq, object_setObject, read]

theorem holds_unsigned {object : DataRefObject} {num : Nat} (isInteger : object.IsInteger)
    (other : object ≠ .zero) (u64 : num < 2 ^ 64) :
    (num < object.limit → (storedObject object (.unsignedNumber num)).bind intOf = some num) ∧
      (¬num < object.limit → storedObject object (.unsignedNumber num) = none) := by
  cases object with
  | byte b =>
    simp only [storedObject, DataRefObject.limit]
    split
    · exact ⟨fun fits => by omega, fun _ => rfl⟩
    · exact ⟨fun _ => rfl, fun large => by omega⟩
  | word w =>
    simp only [storedObject, DataRefObject.limit]
    split
    · exact ⟨fun fits => by omega, fun _ => rfl⟩
    · exact ⟨fun _ => rfl, fun large => by omega⟩
  | dWord dw =>
    simp only [storedObject, DataRefObject.limit]
    split
    · exact ⟨fun fits => by omega, fun _ => rfl⟩
    · exact ⟨fun _ => rfl, fun large => by omega⟩
  | qWord qw =>
    simp only [storedObject, DataRefObject.limit]
    exact ⟨fun _ => rfl, fun large => absurd u64 large⟩
  | zero => exact absurd rfl other
  | _ => exact absurd isInteger (Nat.lt_irrefl 0)

/-- A `Zero` takes a `Word` for numbers of up to 20 bits. -/
theorem storedObject_zero (num : Nat) :
    (storedObject .zero (.unsignedNumber num)).bind intOf =
      some (if 0xFF < num ∧ num ≤ 0xFFFFF then num % 2 ^ 16 else num) := by
  simp only [storedObject]
  by_cases qWord : num > 0xFFFFFFFF
  · rw [if_pos qWord, if_neg (by omega)]
    rfl
  · rw [if_neg qWord]
    by_cases dWord : num > 0xFFFFF
    · rw [if_pos dWord, if_neg (by omega)]
      rfl
    · rw [if_neg dWord]
      by_cases word : num > 0xFF
      · rw [if_pos word, if_pos (by omega)]
        rfl
      · have small : ¬(0xFF < num ∧ num ≤ 0xFFFFF) := fun both => word both.1
        rw [if_neg word, if_neg small]
        by_cases positive : num > 0
        · rw [if_pos positive]
          rfl
        · obtain rfl : num = 0 := by omega
          rfl

/-- A number and an object of a kind that takes it are stored and read back exactly if the
number is unsigned and no `Zero` makes a `Word` of more than 16 bits of it. -/
theorem storesNumber_iff (store : NumberStore (code.nameSystem.object dro) val) :
    code.StoresNumber dro val ↔ ∃ num, val = .unsignedNumber num ∧
      ¬(code.nameSystem.object dro = .zero ∧ 0xFFFF < num ∧ num ≤ 0xFFFFF) := by
  rw [storesNumber_iff_object]
  generalize code.nameSystem.object dro = object at store
  cases store with
  | signed dw num low high =>
    -- no number is at most 0x7FFFFFFF and at least 0x80000000
    have refused : storedObject (.dWord dw) (.number num) = none := by
      simp only [storedObject]
      exact if_pos (by omega)
    rw [refused]
    simp [DataRefObject.Represents]
  | unsigned object num isInteger u64 =>
    simp only [DataRefObject.Represents, AmlValue.held, AmlValue.unsignedNumber.injEq,
      exists_eq_left']
    by_cases zero : object = .zero
    · subst zero
      rw [storedObject_zero]
      simp only [Option.some.injEq, true_and]
      constructor
      · rintro ⟨reads, _⟩ truncated
        have read := reads u64
        rw [if_pos (by omega)] at read
        omega
      · intro exact
        refine ⟨fun _ => ?_, fun large => absurd u64 large⟩
        split
        · omega
        · rfl
    · refine iff_of_true (holds_unsigned isInteger zero u64) ?_
      rintro ⟨same, _⟩
      exact zero same

/-- Code with one object. -/
def withObject (object : DataRefObject) : AmlCode :=
  { oneMethod [] with nameSystem := (oneMethod []).nameSystem.setObject 0 object }

/-- A number of 21 bits over a `Zero`. -/
theorem storesNumber_million : (withObject .zero).StoresNumber 0 (.unsignedNumber 0x100000) := by
  have store : NumberStore ((withObject .zero).nameSystem.object 0) (.unsignedNumber 0x100000) :=
    .unsigned _ _ (Nat.two_pow_pos 64) (by decide)
  refine (storesNumber_iff store).mpr ⟨0x100000, rfl, ?_⟩
  decide

/-- A number of 17 bits over a `Zero` loses its highest bit. -/
theorem not_storesNumber_seventeen :
    ¬(withObject .zero).StoresNumber 0 (.unsignedNumber 0x10000) := by
  intro stores
  have fits : 0x10000 < 2 ^ 64 := by decide
  have reads := (storesNumber_iff_object.mp stores).1 fits
  revert reads
  decide

end AmlCode

end EmkKernel
