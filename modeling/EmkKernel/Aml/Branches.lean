import EmkKernel.Aml.Calls
import EmkKernel.Aml.IntTerms

/-!
# Branches

An `If` selects a block by its predicate, and execution goes on behind the package and behind
the package of an `Else`. The interpreter takes only the value one for true, runs a block that
does not return beyond its end, and skips a block by a length that still counts the bytes
of the length itself.
-/

namespace EmkKernel

namespace BufferedReader

variable {reader : BufferedReader}

/-- A package whose length stands at the position of the reader and counts from there. -/
structure Package (reader : BufferedReader) where
  start : Nat
  stop : Nat
  starts : start = reader.pos + reader.following + 1
  stops : stop = reader.pos + reader.packageLength
  covers : start ≤ stop
  inside : stop ≤ reader.len

/-- Only the term `Return` is supported in a block, and nothing is executed behind one. -/
def Supported (reader : BufferedReader) (start stop : Nat) : Prop :=
  start < stop → reader.byteAt start = 0xA4

/-- An `Else` at a position. -/
structure ElseTerm (reader : BufferedReader) (position : Nat) where
  inside : position < reader.len
  opcode : reader.byteAt position = 0xA1
  package : Package (reader.moved (position + 1))
  supported : Supported reader package.start package.stop

end BufferedReader

open BufferedReader

namespace AmlCode

variable {code : AmlCode} {reader reader' : BufferedReader}

/-- A predicate at the position of the reader, its value, and the position behind it: a number,
or what has a value for the interpreter. -/
inductive PredicateAt (code : AmlCode) (reader : BufferedReader) : Nat → Nat → Prop
  | number (term : IntTerm) (value : Nat) (isNumber : term.value? = some value)
      (valid : term.Valid) (holds : reader.Holds term.bytes) :
      PredicateAt code reader value (reader.pos + term.bytes.length)
  | evaluated (predicate : TermArgInt) (value next : Nat)
      (read : parseTermargInt reader = some (predicate, reader.moved next))
      (evaluated : code.evalTermargInt predicate = some value) : PredicateAt code reader value next

/-- An `If` whose length starts at the position of the reader, and its `Else`, if it has one. -/
structure IfTerm (code : AmlCode) (reader : BufferedReader) where
  package : Package reader
  value : Nat
  block : Nat
  predicate : PredicateAt code (reader.moved package.start) value block
  ordered : package.start ≤ block
  covers : block ≤ package.stop
  supported : Supported reader block package.stop
  alternative : Option (ElseTerm reader package.stop)
  alone : alternative = none → package.stop < reader.len → reader.byteAt package.stop ≠ 0xA1

/-- A `Return` at a position is executed, or nothing is and execution goes on at one. -/
inductive Outcome where
  | returns (position : Nat)
  | continues (position : Nat)

/-- What a block does: its `Return` is executed, or it is empty. -/
def blockOutcome (start stop next : Nat) : Outcome :=
  if start < stop then .returns start else .continues next

namespace IfTerm

variable (term : IfTerm code reader)

/-- The first position behind the packages. -/
def stop : Nat := term.alternative.elim term.package.stop fun alternative =>
    alternative.package.stop

/-- What is meant to happen. -/
def outcome : Outcome :=
  if term.value ≠ 0 then blockOutcome term.block term.package.stop term.stop
  else
    term.alternative.elim (.continues term.stop) fun alternative =>
      blockOutcome alternative.package.start alternative.package.stop term.stop

end IfTerm

/-- The state after a `Return` at a position. -/
def returnsAt (code : AmlCode) (address : Nat) : AmlCode :=
  { code with executionShouldReturn := true, executionReturnData := address }

private theorem returnsAt_ne {address : Nat} (running : code.executionShouldReturn = false) :
    code.returnsAt address ≠ code := by
  intro same
  have returned := congrArg AmlCode.executionShouldReturn same
  rw [running] at returned
  cases returned

/-- A run of the interpreter has an outcome. -/
def Reaches (code : AmlCode) (reader : BufferedReader) (ran : Option (AmlCode × BufferedReader)) :
    Outcome → Prop
  | .returns position => ∃ reader', ran = some (code.returnsAt (reader.buf + position + 1), reader')
  | .continues position => ran = some (code, reader.moved position)

/-- Execution does what the `If` means. -/
def Branches (term : IfTerm code reader) : Prop :=
  Reaches code reader (code.executeOpcode 0xA0 reader) term.outcome

/-- Where the interpreter goes on when the value is not one: the bytes of the length are
skipped a second time, except for one, unless that leads behind the method. -/
def IfTerm.resumes (term : IfTerm code reader) : Nat :=
  if term.package.stop + (term.package.start - reader.pos) - 1 ≤ reader.len then
    term.package.stop + (term.package.start - reader.pos) - 1
  else term.block

/-- Where the interpreter goes on is right for an outcome: it is the position, without an
`Else`, or it has an `Else` whose block starts at the position. -/
def IfTerm.Resumes (term : IfTerm code reader) : Outcome → Prop
  | .continues position => term.resumes = position ∧ reader.byteAt position ≠ 0xA1
  | .returns position => reader.byteAt term.resumes = 0xA1 ∧
      ∃ total, parsePkglen (reader.moved (term.resumes + 1)) = some (total, reader.moved position)

/-- A value of one selects a block that is not empty. For every other one, the interpreter goes
on where it should. -/
def IfTerm.Lands (term : IfTerm code reader) : Prop :=
  reader.byteAt term.package.start ≠ 0xFF ∧
    (term.value = 1 ∧ term.block < term.package.stop ∨
      term.value ≠ 1 ∧ term.Resumes term.outcome)

/-! ### What the parsers read -/

private theorem readByte_moves {b : Byte} (ran : ReadM.readByte reader = some (b, reader')) :
    reader' = reader.moved (reader.pos + 1) := by
  unfold ReadM.readByte at ran
  obtain ⟨r, took, same⟩ := Option.map_eq_some_iff.mp ran
  cases same
  change (if reader.pos + 1 < 2 ^ 32 then some (reader.moved (reader.pos + 1)) else none) =
    _ at took
  split at took
  · exact (Option.some.inj took).symm
  · cases took

private theorem parsePkglenBytes_moves {ret i n total : Nat}
    (ran : parsePkglenBytes ret i n reader = some (total, reader')) :
    reader' = reader.moved (reader.pos + n) := by
  induction n generalizing reader ret i with
  | zero =>
    cases ran
    rfl
  | succ n ih =>
    obtain ⟨⟨b, r⟩, first, rest⟩ := Option.bind_eq_some_iff.mp ran
    rw [ih rest, readByte_moves first, moved_moved, moved_pos, Nat.add_assoc, Nat.add_comm 1 n]

theorem parsePkglen_moves {total : Nat} (ran : parsePkglen reader = some (total, reader')) :
    ∃ n ≤ 3, reader' = reader.moved (reader.pos + n + 1) := by
  obtain ⟨⟨b, r⟩, first, rest⟩ := Option.bind_eq_some_iff.mp ran
  have moved := readByte_moves first
  have byte := b.isLt
  dsimp only at rest
  split at rest
  · cases rest
    exact ⟨0, by decide, moved⟩
  · refine ⟨b.toNat / 2 ^ 6, by omega, ?_⟩
    rw [parsePkglenBytes_moves rest, moved, moved_moved, moved_pos]
    congr 1
    omega

private theorem map_value {α β : Type} {f : α → β} {x : ReadM BufferedReader α} {b : β}
    (ran : (f <$> x) reader = some (b, reader')) : ∃ a, b = f a := by
  obtain ⟨⟨a, r⟩, _, same⟩ := Option.bind_eq_some_iff.mp ran
  cases same
  exact ⟨a, rfl⟩

theorem ite_value {α : Type} {c : Prop} [Decidable c] {x y : ReadM BufferedReader α} {a : α}
    (ran : (if c then x else y) reader = some (a, reader')) :
    c ∧ x reader = some (a, reader') ∨ ¬c ∧ y reader = some (a, reader') := by
  split at ran
  next taken => exact Or.inl ⟨taken, ran⟩
  next other => exact Or.inr ⟨other, ran⟩

/-- Only `Return` is read as one. -/
theorem parseTermarg_other {termarg : TermArg} (fits : reader.pos + 1 < 2 ^ 32)
    (other : reader.byteAt reader.pos ≠ 0xA4)
    (ran : parseTermarg reader = some (termarg, reader')) (address : Nat) :
    termarg ≠ .returnOp address := by
  rintro rfl
  rw [parseTermarg, ReadM.bind_some (readUnsigned_one fits)] at ran
  -- one case for each code of a term
  iterate 3
    rcases ite_value ran with ⟨-, ran⟩ | ⟨-, ran⟩
    · cases ran
  iterate 3
    rcases ite_value ran with ⟨-, ran⟩ | ⟨-, ran⟩
    · cases (map_value ran).choose_spec
  rcases ite_value ran with ⟨-, ran⟩ | ⟨-, ran⟩
  · obtain ⟨⟨_, _⟩, _, ran⟩ := Option.bind_eq_some_iff.mp ran
    cases ran
  rcases ite_value ran with ⟨-, ran⟩ | ⟨-, ran⟩
  · cases (map_value ran).choose_spec
  iterate 2
    rcases ite_value ran with ⟨-, ran⟩ | ⟨-, ran⟩
    · cases ran
  rcases ite_value ran with ⟨isReturn, -⟩ | ⟨-, ran⟩
  · exact other isReturn
  · -- what is left is a name
    cases (map_value ran).choose_spec

/-- Only `Return` is executed in a block. -/
theorem executeTermarg_eq (fits : reader.pos + 1 < 2 ^ 32) :
    code.executeTermarg reader =
      if reader.byteAt reader.pos = 0xA4 then
        some (code.returnsAt (reader.buf + reader.pos + 1), reader.moved (reader.pos + 1))
      else none := by
  rw [executeTermarg]
  split
  next isReturn =>
    rw [parseTermarg, ReadM.bind_some (readUnsigned_one fits), isReturn]
    rfl
  next other =>
    cases ran : parseTermarg reader with
    | none => rfl
    | some r =>
      obtain ⟨termarg, r⟩ := r
      cases termarg
      case returnOp address => exact absurd rfl (parseTermarg_other fits other ran address)
      all_goals rfl

private theorem parseTermargInt_ones (fits : reader.pos + 1 < 2 ^ 32)
    (ones : reader.byteAt reader.pos = 0xFF) : parseTermargInt reader = none := by
  rw [parseTermargInt, show 2 ^ 64 = 18446744073709551615 + 1 from rfl, parseTermargIntLoop]
  rw [ReadM.bind_some (readUnsigned_one fits), ones]
  rfl

theorem PredicateAt.cases {value next : Nat} (predicate : PredicateAt code reader value next) :
    (∃ predicate, parseTermargInt reader = some (predicate, reader.moved next) ∧
      code.evalTermargInt predicate = some value) ∨ reader.byteAt reader.pos = 0xFF := by
  cases predicate with
  | evaluated predicate value next read evaluated => exact Or.inl ⟨predicate, read, evaluated⟩
  | number term value isNumber valid holds =>
    have fuel : 2 ^ 64 = 18446744073709551615 + 1 := rfl
    cases term with
    | zero =>
      cases isNumber
      refine Or.inl ⟨.zero, ?_, rfl⟩
      rw [parseTermargInt, fuel, parseTermargIntLoop, ReadM.bind_some holds.readUnsigned]
      rfl
    | one =>
      cases isNumber
      refine Or.inl ⟨.one, ?_, rfl⟩
      rw [parseTermargInt, fuel, parseTermargIntLoop, ReadM.bind_some holds.readUnsigned]
      rfl
    | ones => exact Or.inr (congrArg BitVec.toNat holds.byte)
    | const c =>
      cases isNumber
      refine Or.inl ⟨c.term, parseTermargIntLoop_const valid holds, ?_⟩
      cases c <;> rfl
    | name _ | logical _ _ _ | logicalNot _ | operation _ _ => cases isNumber

private theorem executeBlock_eq (fits : reader.pos + 1 < 2 ^ 32) (pkglen : Nat)
    (running : code.executionShouldReturn = false) :
    executeBlock (Reader.current reader) pkglen (2 ^ 32) code reader =
      if reader.byteAt reader.pos = 0xA4 then
        some (code.returnsAt (reader.buf + reader.pos + 1), reader.moved (reader.pos + 1))
      else none := by
  rw [show 2 ^ 32 = 4294967294 + 1 + 1 by rfl, executeBlock, Nat.sub_self]
  rw [if_pos ⟨Nat.zero_le _, running⟩, executeTermarg_eq fits]
  split
  · -- the second round ends the block
    simp only [bind, Option.bind]
    rw [executeBlock, if_neg fun again => absurd again.2 (by simp [returnsAt])]
  · rfl

private theorem executeElse_eq {total start : Nat} (fits : start + 1 < 2 ^ 32)
    (parsed : parsePkglen reader = some (total, reader.moved start))
    (running : code.executionShouldReturn = false) :
    code.executeElse reader =
      if reader.byteAt start = 0xA4 then
        some (code.returnsAt (reader.buf + start + 1), reader.moved (start + 1))
      else none := by
  rw [executeElse, parsed]
  exact executeBlock_eq fits total running

namespace IfTerm

variable (term : IfTerm code reader)

private theorem start_bounds : reader.pos < term.package.start ∧ term.package.start ≤ term.block ∧
    term.block ≤ term.package.stop ∧ term.package.stop ≤ reader.len := by
  have start := term.package.starts
  exact ⟨by omega, term.ordered, term.covers, term.package.inside⟩

private theorem parsePkglen_package (small : reader.len < 2 ^ 28) : parsePkglen reader =
    some (term.package.stop - reader.pos, reader.moved term.package.start) := by
  obtain ⟨before, ordered, covers, inside⟩ := term.start_bounds
  have start := term.package.starts
  rw [parsePkglen_eq (by omega), term.package.stops, Nat.add_sub_cancel_left, start]

/-- A skipped block leads to where the interpreter goes on. -/
theorem skip_eq (small : reader.len < 2 ^ 28) :
    Reader.skip (reader.moved term.block)
      (term.package.stop - term.block + (term.package.start - reader.pos) - 1) =
      some (decide (term.package.stop + (term.package.start - reader.pos) - 1 ≤ reader.len),
        reader.moved term.resumes) := by
  obtain ⟨before, ordered, covers, inside⟩ := term.start_bounds
  have sum : term.block + (term.package.stop - term.block + (term.package.start - reader.pos) - 1) =
      term.package.stop + (term.package.start - reader.pos) - 1 := by omega
  have fits : term.package.stop + (term.package.start - reader.pos) - 1 < 2 ^ 32 := by omega
  simp only [Reader.skip, moved_pos, moved_len, sum, if_pos fits, resumes]
  split
  next behind => rw [if_neg (by omega), decide_eq_false (by omega)]
  next within =>
    rw [if_pos (by omega), decide_eq_true (by omega)]
    rfl

private theorem resumes_bounds : term.block ≤ term.resumes ∧ term.resumes ≤ reader.len := by
  obtain ⟨before, ordered, covers, inside⟩ := term.start_bounds
  rw [resumes]
  split
  next within => exact ⟨by omega, within⟩
  next => exact ⟨le_rfl, by omega⟩

theorem executeIf_parsed (small : reader.len < 2 ^ 28)
    (running : code.executionShouldReturn = false)
    {predicate : TermArgInt}
    (read : parseTermargInt (reader.moved term.package.start) =
      some (predicate, reader.moved term.block))
    (evaluated : code.evalTermargInt predicate = some term.value) :
    code.executeOpcode 0xA0 reader =
      if term.value = 1 then
        if reader.byteAt term.block = 0xA4 then
          some (code.returnsAt (reader.buf + term.block + 1), reader.moved (term.block + 1))
        else none
      else if reader.byteAt term.resumes = 0xA1 then
        code.executeElse (reader.moved (term.resumes + 1))
      else some (code, reader.moved term.resumes) := by
  obtain ⟨before, ordered, covers, inside⟩ := term.start_bounds
  obtain ⟨behind, bound⟩ := term.resumes_bounds
  have left : subU32 (term.package.stop - reader.pos)
      (reader.buf + term.block - (reader.buf + term.package.start)) =
      some (term.package.stop - term.block + (term.package.start - reader.pos)) := by
    rw [subU32, if_neg (by omega)]
    congr 1
    omega
  have less : subU32 (term.package.stop - term.block + (term.package.start - reader.pos)) 1 =
      some (term.package.stop - term.block + (term.package.start - reader.pos) - 1) :=
    if_neg (by omega)
  rw [executeOpcode, if_pos rfl, executeIf, term.parsePkglen_package small]
  simp only [bind, Option.bind, current_moved, read, left, evaluated, less]
  split
  next =>
    exact @executeBlock_eq code (reader.moved term.block)
      (by simp only [moved_pos]; omega) _ running
  next =>
    have fits : (reader.moved term.resumes).pos + 1 < 2 ^ 32 := by
      simp only [moved_pos]
      omega
    simp only [skip_eq term small, readUnsigned_one fits, byteAt_moved, moved_pos, moved_moved]
    split
    next => rfl
    next => rfl

/-- The interpreter cannot read `Ones` as a predicate. -/
theorem executeIf_ones (small : reader.len < 2 ^ 28)
    (ones : reader.byteAt term.package.start = 0xFF) : code.executeOpcode 0xA0 reader = none := by
  obtain ⟨before, ordered, covers, inside⟩ := term.start_bounds
  have unread := @parseTermargInt_ones (reader.moved term.package.start)
    (by simp only [moved_pos]; omega) ones
  rw [executeOpcode, if_pos rfl, executeIf, term.parsePkglen_package small]
  simp only [bind, Option.bind, unread]

/-- A block that returns starts with a `Return`. -/
theorem outcome_returns {position : Nat} (returns : term.outcome = .returns position) :
    reader.byteAt position = 0xA4 := by
  have block {start stop next : Nat} (supported : Supported reader start stop)
      (returns : blockOutcome start stop next = .returns position) :
      reader.byteAt position = 0xA4 := by
    unfold blockOutcome at returns
    split at returns
    next nonempty =>
      cases returns
      exact supported nonempty
    next => cases returns
  unfold outcome at returns
  split at returns
  · exact block term.supported returns
  · cases here : term.alternative with
    | none =>
      rw [here] at returns
      cases returns
    | some alternative =>
      rw [here] at returns
      exact block alternative.supported returns

/-- What happens at an `If` whose value is not one. -/
theorem reaches_iff (small : reader.len < 2 ^ 28) (running : code.executionShouldReturn = false)
    (ran : code.executeOpcode 0xA0 reader =
      if reader.byteAt term.resumes = 0xA1 then code.executeElse (reader.moved (term.resumes + 1))
      else some (code, reader.moved term.resumes)) :
    Branches term ↔ term.Resumes term.outcome := by
  obtain ⟨_, bound⟩ := term.resumes_bounds
  -- an `Else` returns, or there is no result
  have alternative (atElse : reader.byteAt term.resumes = 0xA1) :
      code.executeOpcode 0xA0 reader = none ∨
        ∃ total start, parsePkglen (reader.moved (term.resumes + 1)) =
            some (total, reader.moved start) ∧
          code.executeOpcode 0xA0 reader = if reader.byteAt start = 0xA4 then
            some (code.returnsAt (reader.buf + start + 1), reader.moved (start + 1)) else none := by
    rw [ran, if_pos atElse]
    cases parsed : parsePkglen (reader.moved (term.resumes + 1)) with
    | none =>
      left
      rw [executeElse, parsed]
      rfl
    | some r =>
      obtain ⟨total, r⟩ := r
      obtain ⟨n, few, rfl⟩ := parsePkglen_moves parsed
      refine Or.inr ⟨total, _, rfl, executeElse_eq ?_ parsed running⟩
      simp only [moved_pos]
      omega
  unfold Branches
  cases outcome : term.outcome with
  | continues position =>
    simp only [Reaches, Resumes]
    constructor
    · intro goesOn
      by_cases atElse : reader.byteAt term.resumes = 0xA1
      · rcases alternative atElse with none | ⟨total, start, _, returned⟩
        · cases none.symm.trans goesOn
        · rw [returned] at goesOn
          split at goesOn
          next =>
            rw [Option.some.injEq, Prod.mk.injEq] at goesOn
            exact absurd goesOn.1 (returnsAt_ne running)
          next => cases goesOn
      · rw [ran, if_neg atElse, Option.some.injEq, Prod.mk.injEq] at goesOn
        have position : term.resumes = position := congrArg BufferedReader.pos goesOn.2
        exact ⟨position, position ▸ atElse⟩
    · rintro ⟨rfl, noElse⟩
      rw [ran, if_neg noElse]
  | returns position =>
    have isReturn := term.outcome_returns outcome
    simp only [Reaches, Resumes]
    constructor
    · rintro ⟨r, returned⟩
      by_cases atElse : reader.byteAt term.resumes = 0xA1
      · refine ⟨atElse, ?_⟩
        rcases alternative atElse with none | ⟨total, start, parsed, returned'⟩
        · cases none.symm.trans returned
        · rw [returned'] at returned
          split at returned
          next =>
            rw [Option.some.injEq, Prod.mk.injEq] at returned
            have address := congrArg AmlCode.executionReturnData returned.1
            simp only [returnsAt] at address
            obtain rfl : start = position := by omega
            exact ⟨total, parsed⟩
          next => cases returned
      · rw [ran, if_neg atElse, Option.some.injEq, Prod.mk.injEq] at returned
        exact absurd returned.1.symm (returnsAt_ne running)
    · rintro ⟨atElse, total, parsed⟩
      refine ⟨reader.moved (position + 1), ?_⟩
      obtain ⟨n, few, moved⟩ := parsePkglen_moves parsed
      have start : position = term.resumes + 1 + n + 1 := congrArg BufferedReader.pos moved
      rw [ran, if_pos atElse, executeElse_eq (by omega) parsed running]
      exact if_pos isReturn

/-- A value other than one leads on as it should exactly if the `If` resumes there. -/
theorem branches_of_other (small : reader.len < 2 ^ 28)
    (running : code.executionShouldReturn = false)
    (parses : reader.byteAt term.package.start ≠ 0xFF) (other : term.value ≠ 1) :
    Branches term ↔ term.Resumes term.outcome := by
  rcases term.predicate.cases with ⟨predicate, read, evaluated⟩ | isOnes
  · have ran := term.executeIf_parsed small running read evaluated
    rw [if_neg other] at ran
    exact term.reaches_iff small running ran
  · exact absurd isOnes parses

end IfTerm

/-- An `If` is executed as it should be exactly if it lands where it should. -/
theorem branches_iff (term : IfTerm code reader) (small : reader.len < 2 ^ 28)
    (running : code.executionShouldReturn = false) : Branches term ↔ term.Lands := by
  obtain ⟨before, ordered, covers, inside⟩ := term.start_bounds
  by_cases ones : reader.byteAt term.package.start = 0xFF
  · refine iff_of_false ?_ fun lands => lands.1 ones
    have none := term.executeIf_ones small ones
    unfold Branches
    rw [none]
    cases term.outcome with
    | returns position =>
      rintro ⟨_, ran⟩
      cases ran
    | continues position =>
      intro ran
      cases ran
  by_cases one : term.value = 1
  · rcases term.predicate.cases with ⟨predicate, read, evaluated⟩ | isOnes
    swap
    · exact absurd isOnes ones
    have ran := term.executeIf_parsed small running read evaluated
    rw [if_pos one] at ran
    have outcome : term.outcome = blockOutcome term.block term.package.stop term.stop := by
      rw [IfTerm.outcome, if_pos (by omega)]
    unfold Branches
    rw [outcome, ran, blockOutcome]
    by_cases nonempty : term.block < term.package.stop
    · refine iff_of_true ?_ ⟨ones, Or.inl ⟨one, nonempty⟩⟩
      rw [if_pos nonempty, if_pos (term.supported nonempty)]
      exact ⟨_, rfl⟩
    · refine iff_of_false ?_ fun lands => ?_
      · rw [if_neg nonempty]
        -- a term behind the empty block is executed, or there is no result
        intro goesOn
        split at goesOn
        next =>
          simp only [Reaches, Option.some.injEq, Prod.mk.injEq] at goesOn
          exact returnsAt_ne running goesOn.1
        next => cases goesOn
      · rcases lands.2 with ⟨_, inside⟩ | ⟨other, _⟩
        · exact nonempty inside
        · exact other one
  · rw [term.branches_of_other small running ones one]
    constructor
    · exact fun lands => ⟨ones, Or.inr ⟨one, lands⟩⟩
    · rintro ⟨_, ⟨isOne, _⟩ | ⟨_, lands⟩⟩
      · exact absurd isOne one
      · exact lands

section Samples

/-- The first term of a method, read as an `If`. -/
def firstTerm (bytes : List Byte) : BufferedReader :=
  (BufferedReader.new (oneMethod bytes).memory 0 bytes.length).moved 1

/-- `If (One) { Return (One) }`. -/
def oneTerm : IfTerm (oneMethod returnsOne) (firstTerm returnsOne) where
  package := ⟨2, 5, rfl, rfl, by decide, by decide⟩
  value := 1
  block := 3
  predicate := .number .one 1 rfl trivial ⟨by decide, by decide, by decide⟩
  ordered := by decide
  covers := by decide
  supported := fun _ => rfl
  alternative := none
  alone := fun _ inside => absurd inside (by decide)

theorem branches_one : Branches oneTerm := by
  refine (branches_iff oneTerm (by decide) rfl).mpr ⟨by decide, Or.inl ⟨rfl, by decide⟩⟩

/-- `If (0x02) { Return (One) }`. -/
def returnsTwo : List Byte := [0xA0, 0x05, 0x0A, 0x02, 0xA4, 0x01]

def twoTerm : IfTerm (oneMethod returnsTwo) (firstTerm returnsTwo) where
  package := ⟨2, 6, rfl, rfl, by decide, by decide⟩
  value := 2
  block := 4
  predicate := .number (.const (.byte 2)) 2 rfl (show 2 < 2 ^ (8 * 1) by decide)
    ⟨by decide, by decide, by decide⟩
  ordered := by decide
  covers := by decide
  supported := fun _ => rfl
  alternative := none
  alone := fun _ inside => absurd inside (by decide)

/-- A block is left out although its predicate is two. -/
theorem not_branches_two : ¬Branches twoTerm := by
  intro branches
  have resumes :=
    (twoTerm.branches_of_other (by decide) rfl (by decide) (by decide)).mp branches
  obtain ⟨atElse, _⟩ := resumes
  cases atElse

end Samples

end AmlCode

end EmkKernel
