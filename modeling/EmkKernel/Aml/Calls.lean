import EmkKernel.Aml.Execution

/-!
# Calls of methods

A call is meant to run to the first `Return`, to read its operand in the frame of the
callee and to leave the frames of the callers. The interpreter pops the frame before it
reads the operand, and goes on behind the `Return` unless the operand is an object.
-/

namespace EmkKernel

/-- A frame holds the arguments of a call, and no local has a value. -/
structure AmlMethodFrame.Holds (frame : AmlMethodFrame) (parameters : List AmlValue) :
    Prop where
  arguments : ∀ p value, parameters[p]? = some value →
    value.asU64 = some (frame.arguments p) ∧ frame.argumentTypes p = value.getType
  locals : ∀ l, frame.localTypes l = .invalid

namespace AmlCode

variable {s s' left : AmlCode} {reader reader' : BufferedReader} {value : AmlValue}

/-! ### What a call is meant to do -/

/-- The value of an object. -/
def objectValue (self : AmlCode) (dro : Nat) : AmlValue :=
  match self.nameSystem.object dro with
  | .zero => .unsignedNumber 0
  | .one => .unsignedNumber 1
  | .ones => .unsignedNumber 0xFFFFFFFFFFFFFFFF
  | .byte b => .unsignedNumber b
  | .word w => .unsignedNumber w
  | .dWord dw => .unsignedNumber dw
  | .qWord qw => .unsignedNumber qw
  | .string ptr length => .string ptr length
  | .package data _ numElements => .package data numElements
  | .buffer _ _ | .revisionOp => .dataRefObject dro

/-- The value of an operand in the frame on top. -/
def operandValue (self : AmlCode) (operand : TermArg) : Option AmlValue :=
  (self.unwrapTermarg operand).map fun val =>
    match val.1 with
    | .dataRefObject dro => self.objectValue dro
    | val => val

/-- The terms up to the first `Return`, and its operand. -/
def runToReturn (methodPath : Nat) :
    Nat → AmlCode → BufferedReader → Option (Option TermArg × AmlCode)
  | 0, _, _ => none
  | fuel + 1, self, reader => do
    if (← reader.remainingBytes) = 0 then
      some (none, self)
    else
      let (opcode, reader) ← ReadM.readUnsigned 1 reader
      let (self, reader) ← self.executeOpcode opcode reader
      if self.executionShouldReturn then
        let (operand, _) ← parseTermarg (BufferedReader.new self.memory
          self.executionReturnData 0xFFFF)
        some (some operand, { self with executionShouldReturn := false })
      else
        runToReturn methodPath fuel { self with currentExecutingPath := methodPath } reader

/-- The operand of the `Return` that ends the method, if one does, and the state there. -/
def returned (self : AmlCode) (method : Method) (parameters : List AmlValue) :
    Option (Option TermArg × AmlCode) := do
  let entered ← self.enter method parameters
  runToReturn method.path (method.numBytes + 1) entered
    (BufferedReader.new self.memory method.codeBegin method.numBytes)

/-- A method starts in a frame of its own with its arguments, and one that comes to an end with a
value does so in its call: the frames are those of the callers again, and the objects are as the
`Return` found them. -/
structure Balanced (code : AmlCode) (methodIndex : Nat) (method : Method)
    (parameters : List AmlValue) : Prop where
  enters : ∀ entered, code.enter method parameters = some entered →
    ∃ frame : AmlMethodFrame, frame.Holds parameters ∧
      entered.methodFrames.values = code.methodFrames.values ++ [frame]
  ends : ∀ operand left value, code.returned method parameters = some (operand, left) →
    operand.elim (some .empty) left.operandValue = some value →
    ∃ after, code.executeMethod0 methodIndex parameters = some (.ok value, after) ∧
      after.methodFrames.values = code.methodFrames.values ∧ after.nameSystem = left.nameSystem

/-! ### What a term does to the frames -/

/-- The frames below the top stay. -/
structure Keeps (s s' : AmlCode) : Prop where
  inserted : s'.methodFrames.inserted = s.methodFrames.inserted
  below : ∀ i < s.methodFrames.inserted - 1, s'.methodFrames.slots i = s.methodFrames.slots i

private theorem Keeps.of_eq (same : s'.methodFrames = s.methodFrames) : Keeps s s' :=
  ⟨by rw [same], fun _ _ => by rw [same]⟩

theorem Keeps.trans {s'' : AmlCode} (first : Keeps s s') (second : Keeps s' s'') : Keeps s s'' := by
  refine ⟨second.inserted.trans first.inserted, fun i bound => ?_⟩
  rw [second.below i (by rwa [first.inserted]), first.below i bound]

private theorem keeps_setTop (frame : AmlMethodFrame) :
    Keeps s { s with methodFrames := s.methodFrames.setTop frame } := by
  refine ⟨rfl, fun i bound => Function.update_of_ne ?_ _ _⟩
  exact Nat.ne_of_lt bound

private theorem storeArgument_keeps {a : Nat} {val : AmlValue} {type : AmlType}
    (stored : s.storeArgument a val type = some s') : Keeps s s' := by
  obtain ⟨num, _, same⟩ := Option.bind_eq_some_iff.mp stored
  obtain rfl := Option.some.inj same
  exact keeps_setTop _

private theorem storeLocal_keeps {l : Nat} {val : AmlValue} {type : AmlType}
    (stored : s.storeLocal l val type = some s') : Keeps s s' := by
  obtain ⟨num, _, same⟩ := Option.bind_eq_some_iff.mp stored
  obtain rfl := Option.some.inj same
  exact keeps_setTop _

private theorem executeTermarg_keeps (ran : s.executeTermarg reader = some (s', reader')) :
    Keeps s s' := by
  obtain ⟨⟨termarg, _⟩, _, ran⟩ := Option.bind_eq_some_iff.mp ran
  cases termarg
  case returnOp =>
    cases ran
    exact .of_eq rfl
  all_goals cases ran

private theorem executeBlock_keeps {current pkglen fuel : Nat}
    (ran : executeBlock current pkglen fuel s reader = some (s', reader')) : Keeps s s' := by
  induction fuel generalizing s reader with
  | zero => cases ran
  | succ fuel ih =>
    unfold executeBlock at ran
    split at ran
    · obtain ⟨⟨s₁, reader₁⟩, first, ran⟩ := Option.bind_eq_some_iff.mp ran
      exact (executeTermarg_keeps first).trans (ih ran)
    · cases ran
      exact .of_eq rfl

private theorem executeElse_keeps (ran : s.executeElse reader = some (s', reader')) :
    Keeps s s' := by
  obtain ⟨⟨pkglen, _⟩, _, ran⟩ := Option.bind_eq_some_iff.mp ran
  exact executeBlock_keeps ran

private theorem executeIf_keeps (ran : s.executeIf reader = some (s', reader')) : Keeps s s' := by
  obtain ⟨⟨pkglen, _⟩, _, ran⟩ := Option.bind_eq_some_iff.mp ran
  obtain ⟨⟨predicate, _⟩, _, ran⟩ := Option.bind_eq_some_iff.mp ran
  obtain ⟨pkglen, _, ran⟩ := Option.bind_eq_some_iff.mp ran
  obtain ⟨result, _, ran⟩ := Option.bind_eq_some_iff.mp ran
  dsimp only at ran
  split at ran
  · exact executeBlock_keeps ran
  · obtain ⟨length, _, ran⟩ := Option.bind_eq_some_iff.mp ran
    obtain ⟨⟨_, reader₁⟩, _, ran⟩ := Option.bind_eq_some_iff.mp ran
    obtain ⟨⟨oc, reader₂⟩, _, ran⟩ := Option.bind_eq_some_iff.mp ran
    dsimp only at ran
    split at ran
    · exact executeElse_keeps ran
    · obtain ⟨⟨_, reader₃⟩, _, ran⟩ := Option.bind_eq_some_iff.mp ran
      cases ran
      exact .of_eq rfl

private theorem executeStore_keeps (ran : s.executeStore reader = some (s', reader')) :
    Keeps s s' := by
  obtain ⟨⟨termarg, _⟩, _, ran⟩ := Option.bind_eq_some_iff.mp ran
  obtain ⟨⟨supername, _⟩, _, ran⟩ := Option.bind_eq_some_iff.mp ran
  obtain ⟨⟨source, type⟩, _, ran⟩ := Option.bind_eq_some_iff.mp ran
  dsimp only at ran
  split at ran
  · cases ran
  · obtain ⟨s₁, stored, ran⟩ := Option.bind_eq_some_iff.mp ran
    cases ran
    exact storeArgument_keeps stored
  · obtain ⟨s₁, stored, ran⟩ := Option.bind_eq_some_iff.mp ran
    cases ran
    exact storeLocal_keeps stored
  · obtain ⟨dro, _, ran⟩ := Option.bind_eq_some_iff.mp ran
    obtain ⟨s₁, stored, ran⟩ := Option.bind_eq_some_iff.mp ran
    obtain ⟨object, _, same⟩ := Option.bind_eq_some_iff.mp stored
    cases same
    cases ran
    exact .of_eq rfl

/-- No term changes the frames of the callers. -/
theorem executeOpcode_keeps {opcode : Nat} (ran : s.executeOpcode opcode reader = some (s',
    reader')) :
    Keeps s s' := by
  unfold executeOpcode at ran
  split at ran
  · exact executeIf_keeps ran
  · split at ran
    · exact executeElse_keeps ran
    · split at ran
      · exact executeStore_keeps ran
      · cases ran

private theorem runToReturn_keeps {methodPath fuel : Nat} {operand : Option TermArg}
    (ran : runToReturn methodPath fuel s reader = some (operand, left)) : Keeps s left := by
  induction fuel generalizing s reader with
  | zero => cases ran
  | succ fuel ih =>
    unfold runToReturn at ran
    obtain ⟨remaining, _, ran⟩ := Option.bind_eq_some_iff.mp ran
    dsimp only at ran
    split at ran
    · cases ran
      exact .of_eq rfl
    · obtain ⟨⟨opcode, reader₁⟩, _, ran⟩ := Option.bind_eq_some_iff.mp ran
      obtain ⟨⟨s₁, reader₂⟩, first, ran⟩ := Option.bind_eq_some_iff.mp ran
      have kept := executeOpcode_keeps first
      dsimp only at ran
      split at ran
      · obtain ⟨⟨operand, _⟩, _, ran⟩ := Option.bind_eq_some_iff.mp ran
        cases ran
        exact kept.trans (.of_eq rfl)
      · have onward : Keeps s₁ { s₁ with currentExecutingPath := methodPath } := .of_eq rfl
        exact (kept.trans onward).trans (ih ran)

/-! ### How the interpreter ends a body -/

/-- The state with the frame on top popped. -/
def popped (self : AmlCode) : AmlCode :=
  { self with methodFrames := { self.methodFrames with
      inserted := self.methodFrames.inserted - 1 } }

private theorem popSilent_some {self : AmlCode} {frames : Stack AmlMethodFrame}
    (ok : self.methodFrames.popSilent = some frames) :
    0 < self.methodFrames.inserted ∧ { self with methodFrames := frames } = self.popped := by
  unfold Stack.popSilent at ok
  split at ok
  · cases ok
  next used =>
    cases ok
    exact ⟨Nat.pos_of_ne_zero used, rfl⟩

private theorem popSilent_of_pos {self : AmlCode} (used : 0 < self.methodFrames.inserted) :
    self.methodFrames.popSilent = some self.popped.methodFrames :=
  if_neg used.ne'

/-- What follows a `Return`: the operand is read with the frame popped, and the method goes
on unless it is an object. -/
def resume (methodPath fuel : Nat) (operand : TermArg) (self : AmlCode) (reader : BufferedReader) :
    Option (AmlValue × AmlCode) := do
  let methodFrames ← self.methodFrames.popSilent
  let self := { self with methodFrames }
  let (retVal, _) ← self.unwrapTermarg operand
  match retVal with
  | .dataRefObject dro =>
    let (value, _) ← self.unwrapDataRefObject dro
    some (value, self)
  | _ => executeBody methodPath fuel { self with currentExecutingPath := methodPath } reader

/-- The interpreter runs as it is meant to up to the first `Return`. -/
theorem executeBody_run (methodPath fuel : Nat) (s : AmlCode) (reader : BufferedReader) :
    (runToReturn methodPath fuel s reader = none → executeBody methodPath fuel s reader = none) ∧
    (∀ left, runToReturn methodPath fuel s reader = some (none, left) →
      executeBody methodPath fuel s reader =
        left.methodFrames.popSilent.map fun _ => (.empty, left.popped)) ∧
    ∀ operand left, runToReturn methodPath fuel s reader = some (some operand, left) →
      ∃ fuel' < fuel, ∃ reader', executeBody methodPath fuel s reader =
        resume methodPath fuel' operand left reader' := by
  induction fuel generalizing s reader with
  | zero => exact ⟨fun _ => rfl, nofun, nofun⟩
  | succ fuel ih =>
    unfold executeBody runToReturn
    cases reader.remainingBytes with
    | none => exact ⟨fun _ => rfl, nofun, nofun⟩
    | some remaining =>
      by_cases zero : remaining = 0
      · subst zero
        refine ⟨nofun, fun left ends => ?_, nofun⟩
        cases ends
        cases pop : s.methodFrames.popSilent with
        | none => simp
        | some frames => simp [(popSilent_some pop).2]
      · simp only [Option.bind_eq_bind, Option.bind_some, zero, if_false]
        cases ReadM.readUnsigned 1 reader with
        | none => exact ⟨fun _ => rfl, nofun, nofun⟩
        | some first =>
          simp only [Option.bind_some]
          cases s.executeOpcode first.1 first.2 with
          | none => exact ⟨fun _ => rfl, nofun, nofun⟩
          | some ran =>
            simp only [Option.bind_some]
            split
            next =>
              -- a `Return` was read
              cases parseTermarg
                (BufferedReader.new ran.1.memory ran.1.executionReturnData 0xFFFF) with
              | none => exact ⟨fun _ => rfl, nofun, nofun⟩
              | some operand =>
                refine ⟨nofun, nofun, fun operand left returns => ?_⟩
                cases returns
                exact ⟨fuel, Nat.lt_succ_self _, ran.2, rfl⟩
            next =>
              obtain ⟨panics, ends, returns⟩ := ih { ran.1 with currentExecutingPath := methodPath }
                ran.2
              refine ⟨panics, ends, fun operand left run => ?_⟩
              obtain ⟨fuel', less, reader', same⟩ := returns operand left run
              exact ⟨fuel', Nat.lt_succ_of_lt less, reader', same⟩

private theorem resume_cases {methodPath fuel : Nat} {operand : TermArg}
    (ran : resume methodPath fuel operand left reader = some (value, s')) :
    0 < left.methodFrames.inserted ∧ ∃ val type, left.popped.unwrapTermarg operand =
      some (val, type) ∧
      ((∃ dro type, val = .dataRefObject dro ∧
          left.popped.unwrapDataRefObject dro = some (value, type) ∧ s' = left.popped) ∨
        executeBody methodPath fuel { left.popped with currentExecutingPath := methodPath } reader =
          some (value, s')) := by
  obtain ⟨frames, pop, ran⟩ := Option.bind_eq_some_iff.mp ran
  obtain ⟨used, state⟩ := popSilent_some pop
  rw [state] at ran
  obtain ⟨⟨val, type⟩, unwrapped, ran⟩ := Option.bind_eq_some_iff.mp ran
  refine ⟨used, val, type, unwrapped, ?_⟩
  dsimp only at ran
  split at ran
  next dro =>
    obtain ⟨⟨value, type⟩, object, ran⟩ := Option.bind_eq_some_iff.mp ran
    cases ran
    exact Or.inl ⟨dro, type, rfl, object, rfl⟩
  next => exact Or.inr ran

theorem executeBody_pops {methodPath fuel : Nat}
    (ran : executeBody methodPath fuel s reader = some (value, s')) :
    s'.methodFrames.inserted < s.methodFrames.inserted := by
  induction fuel using Nat.strong_induction_on generalizing s reader with
  | _ fuel ih =>
    obtain ⟨panics, ends, returns⟩ := executeBody_run methodPath fuel s reader
    cases run : runToReturn methodPath fuel s reader with
    | none =>
      rw [panics run] at ran
      cases ran
    | some result =>
      obtain ⟨operand, left⟩ := result
      have kept := (runToReturn_keeps run).inserted
      cases operand with
      | none =>
        rw [ends left run] at ran
        obtain ⟨frames, pop, same⟩ := Option.map_eq_some_iff.mp ran
        obtain ⟨used, _⟩ := popSilent_some pop
        cases same
        rw [← kept]
        exact Nat.sub_lt used Nat.one_pos
      | some operand =>
        obtain ⟨fuel', less, reader', same⟩ := returns operand left run
        rw [same] at ran
        obtain ⟨used, val, type, _, ⟨_, _, _, _, rfl⟩ | onward⟩ := resume_cases ran
        · rw [← kept]
          exact Nat.sub_lt used Nat.one_pos
        · -- a second frame goes
          have further := ih fuel' less onward
          simp only [popped] at further
          omega

/-! ### Operands that end the call -/

/-- Objects that `unwrap_data_ref_object` has a value for. -/
def isConstant (self : AmlCode) (dro : Nat) : Bool :=
  match self.nameSystem.object dro with
  | .zero | .one | .ones | .package _ _ _ => true
  | _ => false

/-- A slot of a frame refers to a constant or a package with the value. -/
def Refers (self : AmlCode) (value : AmlValue) (type : AmlType) (dro : Nat) : Prop :=
  type = .dataRefObject ∧ self.isConstant dro = true ∧ self.objectValue dro = value

/-- The operand names a constant or a package. An argument or local does if the frame below,
which is the frame itself where there is none, refers to one with the same value. -/
def Answers (self : AmlCode) (value : AmlValue) : TermArg → Prop
  | .nameString name => ∃ dro, self.unwrapNamestring name = some dro ∧ self.isConstant dro = true
  | .arg a =>
    let below := self.popped.methodFrames.refTop
    self.Refers value (below.argumentTypes a) (below.arguments a)
  | .local l =>
    let below := self.popped.methodFrames.refTop
    self.Refers value (below.localTypes l) (below.locals l)
  | _ => False

private theorem unwrapDataRefObject_iff (self : AmlCode) (dro : Nat) :
    (∃ type, self.unwrapDataRefObject dro = some (value, type)) ↔
      self.isConstant dro = true ∧ self.objectValue dro = value := by
  unfold unwrapDataRefObject isConstant objectValue
  cases self.nameSystem.object dro <;> simp

private theorem fromU64_object {memory : Nat → Byte} {val dro : Nat} {type : AmlType} :
    AmlValue.fromU64 memory val type = some (.dataRefObject dro) ↔
      type = .dataRefObject ∧ val = dro := by
  cases type <;> simp [AmlValue.fromU64]

theorem searchOwners_popped (self : AmlCode) (scopes : PageAllocator Scope) (buf : Segment)
    (fuel path : Nat) :
    self.popped.searchOwners scopes buf fuel path = self.searchOwners scopes buf fuel path := by
  induction fuel generalizing path with
  | zero => rfl
  | succ fuel ih =>
    unfold searchOwners
    simp only [ih]
    rfl

private theorem unwrapNamestring_popped (self : AmlCode) (name : NameString) :
    self.popped.unwrapNamestring name = self.unwrapNamestring name := by
  unfold unwrapNamestring
  simp only [searchOwners_popped]
  rfl

theorem slot_refers {type : AmlType} {val : Nat} :
    (∃ dro type', (AmlValue.fromU64 left.memory val type >>= fun v => some (v, type)) =
        some (.dataRefObject dro, type') ∧
      left.isConstant dro = true ∧ left.objectValue dro = value) ↔ left.Refers value type val := by
  constructor
  · rintro ⟨dro, type', unwrapped, constant, same⟩
    obtain ⟨v, read, pair⟩ := Option.bind_eq_some_iff.mp unwrapped
    cases pair
    obtain ⟨kind, rfl⟩ := fromU64_object.mp read
    exact ⟨kind, constant, same⟩
  · rintro ⟨rfl, constant, same⟩
    exact ⟨val, .dataRefObject, rfl, constant, same⟩

theorem answers_iff {operand : TermArg} (meant : left.operandValue operand = some value) :
    (∃ dro type, left.popped.unwrapTermarg operand = some (.dataRefObject dro, type) ∧
      ∃ type, left.popped.unwrapDataRefObject dro = some (value, type)) ↔
      left.Answers value operand := by
  simp only [unwrapDataRefObject_iff]
  cases operand
  case arg a => exact slot_refers
  case «local» l => exact slot_refers
  case nameString name =>
    obtain ⟨val, unwrapped, same⟩ := Option.map_eq_some_iff.mp meant
    obtain ⟨dro, named, pair⟩ := Option.bind_eq_some_iff.mp unwrapped
    cases pair
    have named' := (unwrapNamestring_popped left name).trans named
    constructor
    · rintro ⟨dro', type, unwrapped', constant, _⟩
      obtain ⟨dro'', named'', pair⟩ := Option.bind_eq_some_iff.mp unwrapped'
      cases pair
      exact ⟨dro', (unwrapNamestring_popped left name).symm.trans named'', constant⟩
    · rintro ⟨dro', named'', constant⟩
      obtain rfl := Option.some.inj (named.symm.trans named'')
      refine ⟨dro, .dataRefObject, ?_, constant, same⟩
      simp only [unwrapTermarg, named', Option.bind_eq_bind, Option.bind_some]
  all_goals simp [unwrapTermarg, Answers]

/-! ### Which calls are balanced -/

private theorem values_eq {T : Type} {a b : Stack T} (inserted : a.inserted = b.inserted)
    (slots : ∀ i < b.inserted, a.slots i = b.slots i) : a.values = b.values := by
  unfold Stack.values
  rw [inserted]
  exact List.map_congr_left fun i member => slots i (List.mem_range.mp member)

private theorem values_push {T : Type} {a b : Stack T} {val : T} (pushed : a.push val = some b) :
    b.values = a.values ++ [val] := by
  unfold Stack.push at pushed
  split at pushed
  · cases pushed
  · cases pushed
    simp only [Stack.values, List.range_succ, List.map_append, List.map_singleton,
      Function.update_self]
    refine congrArg (· ++ [val]) (List.map_congr_left fun i member => ?_)
    exact Function.update_of_ne (Nat.ne_of_lt (List.mem_range.mp member)) _ _

theorem length_values {T : Type} (a : Stack T) : a.values.length = a.inserted := by
  rw [Stack.values, List.length_map, List.length_range]

private theorem mapM_getElem {α β : Type} {f : α → Option β} {xs : List α} {ys : List β}
    (all : xs.mapM f = some ys) (i : Nat) (x : α) (found : xs[i]? = some x) :
    ∃ y, f x = some y ∧ ys[i]? = some y := by
  induction xs generalizing ys i with
  | nil => cases found
  | cons first rest ih =>
    rw [List.mapM_cons] at all
    obtain ⟨y, image, all⟩ := Option.bind_eq_some_iff.mp all
    obtain ⟨ys', images, same⟩ := Option.bind_eq_some_iff.mp all
    cases same
    cases i with
    | zero =>
      cases found
      exact ⟨y, image, rfl⟩
    | succ i => exact ih images i found

theorem enter_holds {self : AmlCode} {method : Method} {parameters : List AmlValue}
    {entered : AmlCode} (enter : self.enter method parameters = some entered) :
    ∃ frame : AmlMethodFrame, frame.Holds parameters ∧
      entered.methodFrames.values = self.methodFrames.values ++ [frame] := by
  obtain ⟨frame, made, pushed⟩ := Option.bind_eq_some_iff.mp enter
  obtain ⟨frames, push, same⟩ := Option.bind_eq_some_iff.mp pushed
  cases same
  refine ⟨frame, ?_, ?_⟩
  · unfold AmlMethodFrame.ofParameters at made
    split at made
    · cases made
    · obtain ⟨arguments, all, same⟩ := Option.bind_eq_some_iff.mp made
      cases same
      refine ⟨fun p value found => ⟨?_, ?_⟩, fun _ => rfl⟩
      · obtain ⟨y, image, stored⟩ := mapM_getElem all p value found
        simp only [image, List.getD, stored, Option.getD_some]
      · simp only [List.getD, List.getElem?_map, found, Option.map_some, Option.getD_some]
  · exact values_push push

/-- What is left of a body with its frame popped are the frames of the callers. -/
theorem returned_keeps {self : AmlCode} {method : Method} {parameters : List AmlValue}
    {operand : Option TermArg} (run : self.returned method parameters = some (operand, left)) :
    left.methodFrames.inserted = self.methodFrames.inserted + 1 ∧
      left.popped.methodFrames.values = self.methodFrames.values := by
  obtain ⟨entered, enter, run⟩ := Option.bind_eq_some_iff.mp run
  obtain ⟨frame, _, pushed⟩ := Option.bind_eq_some_iff.mp enter
  obtain ⟨frames, push, same⟩ := Option.bind_eq_some_iff.mp pushed
  cases same
  have kept := runToReturn_keeps run
  unfold Stack.push at push
  split at push
  · cases push
  · cases push
    refine ⟨kept.inserted, values_eq ?_ fun i bound => ?_⟩
    · exact (congrArg (· - 1) kept.inserted).trans (Nat.add_sub_cancel _ _)
    · refine (kept.below i bound).trans ?_
      exact Function.update_of_ne (Nat.ne_of_lt bound) _ _

theorem executeMethod0_eq {self : AmlCode} {methodIndex : Nat} {method : Method}
    {parameters : List AmlValue} (found : self.methods.asRef methodIndex = some method)
    (matching : method.flags % 2 ^ 3 = parameters.length) :
    self.executeMethod0 methodIndex parameters =
      (self.enter method parameters).bind fun entered =>
        (executeBody method.path (method.numBytes + 1) entered
          (BufferedReader.new self.memory method.codeBegin method.numBytes)).map fun r =>
            (.ok r.1, r.2) := by
  have small : ¬method.flags % 2 ^ 3 ≠ parameters.length % 2 ^ 8 := by omega
  unfold executeMethod0
  rw [found]
  simp only [Option.bind_eq_bind, Option.bind_some, if_neg small]
  refine congrArg _ (funext fun entered => ?_)
  exact (Option.map_eq_bind ..).symm

/-- A call is balanced exactly if it ends without a `Return` or with one whose operand
answers. -/
theorem balanced_iff (self : AmlCode) (methodIndex : Nat) (method : Method)
    (parameters : List AmlValue) (found : self.methods.asRef methodIndex = some method)
    (matching : method.flags % 2 ^ 3 = parameters.length) :
    self.Balanced methodIndex method parameters ↔
      ∀ operand left value, self.returned method parameters = some (some operand, left) →
        left.operandValue operand = some value → left.Answers value operand := by
  have call := executeMethod0_eq found matching
  constructor
  · intro balanced operand left value run meant
    obtain ⟨inserted, frames⟩ := returned_keeps run
    obtain ⟨after, ran, same, _⟩ := balanced.ends (some operand) left value run meant
    obtain ⟨entered, enter, body⟩ := Option.bind_eq_some_iff.mp run
    obtain ⟨_, _, returns⟩ := executeBody_run method.path (method.numBytes + 1) entered
      (BufferedReader.new self.memory method.codeBegin method.numBytes)
    obtain ⟨fuel, _, reader, resumed⟩ := returns operand left body
    rw [call, enter, Option.bind_some, resumed] at ran
    obtain ⟨⟨value', after'⟩, resumes, pair⟩ := Option.map_eq_some_iff.mp ran
    cases pair
    obtain ⟨_, val, type, unwrapped, ⟨dro, type', rfl, object, _⟩ | onward⟩ := resume_cases resumes
    · exact (answers_iff meant).mp ⟨dro, type, unwrapped, type', object⟩
    · -- the frame of the caller is popped as well
      have fewer := executeBody_pops onward
      have lengths := congrArg List.length same
      rw [length_values, length_values] at lengths
      simp only [popped] at fewer lengths
      omega
  · intro answers
    refine ⟨fun _ => enter_holds, fun operand left value run meant => ?_⟩
    obtain ⟨inserted, frames⟩ := returned_keeps run
    obtain ⟨entered, enter, body⟩ := Option.bind_eq_some_iff.mp run
    obtain ⟨_, ends, returns⟩ := executeBody_run method.path (method.numBytes + 1) entered
      (BufferedReader.new self.memory method.codeBegin method.numBytes)
    have pop : left.methodFrames.popSilent = some left.popped.methodFrames :=
      popSilent_of_pos (by omega)
    refine ⟨left.popped, ?_, frames, rfl⟩
    rw [call, enter, Option.bind_some]
    cases operand with
    | none =>
      cases meant
      rw [ends left body, pop]
      rfl
    | some operand =>
      obtain ⟨dro, type, unwrapped, type', object⟩ :=
        (answers_iff meant).mpr (answers operand left value run meant)
      obtain ⟨fuel, _, reader, resumed⟩ := returns operand left body
      have state : { left with methodFrames := left.popped.methodFrames } = left.popped := rfl
      rw [resumed, resume, pop]
      simp only [Option.bind_eq_bind, Option.bind_some, state, unwrapped, object, Option.map_some]

/-- The code of one method that is defined in `_SB_`, where `NAM_` is `One`. -/
def oneMethod (code : List Byte) : AmlCode where
  memory := fun i => code.getD i 0
  pathSystem := .new
  nameSystem :=
    { names := ⟨fun i => [0x4E, 0x41, 0x4D, 0x5F].getD i 0, 0x1000, 4⟩
      systems := ⟨fun _ => [1, 0, 0, 0], 1, 512⟩
      referenceBuckets := ⟨fun _ => ⟨0, 1⟩, 2, 1024⟩
      entries := ⟨fun _ => ⟨0, 0⟩, 1, 1024⟩
      memory := ⟨fun _ => .one, 1, 0x1000⟩ }
  scopes := ⟨fun _ => ⟨2, some 0⟩, 1, 256⟩
  devices := ⟨fun _ => ⟨0, none⟩, 0, 256⟩
  methods := ⟨fun _ => ⟨2, 0, code.length, 0⟩, 1, 256⟩
  methodFrames := .new ⟨fun _ => 0, fun _ => 0, fun _ => .invalid, fun _ => .invalid⟩ 126 256
  currentExecutingPath := 0
  executionShouldReturn := false
  executionReturnData := 0

/-- `If (One) { Return (NAM_) }`. -/
def returnsName : List Byte := [0xA0, 0x07, 0x01, 0xA4, 0x4E, 0x41, 0x4D, 0x5F]

/-- `If (One) { Return (One) }`. -/
def returnsOne : List Byte := [0xA0, 0x04, 0x01, 0xA4, 0x01]

theorem balanced_name :
    (oneMethod returnsName).Balanced 0 ⟨2, 0, 8, 0⟩ [] := by
  refine (balanced_iff (oneMethod returnsName) 0 ⟨2, 0, 8, 0⟩ [] rfl rfl).mpr ?_
  intro operand left value run _
  have concrete : ∃ name left, (oneMethod returnsName).returned ⟨2, 0, 8, 0⟩ [] =
      some (some (.nameString name), left) ∧ left.unwrapNamestring name = some 0 ∧
        left.isConstant 0 = true := ⟨_, _, rfl, rfl, rfl⟩
  obtain ⟨name, left', run', named, constant⟩ := concrete
  rw [run'] at run
  cases run
  exact ⟨0, named, constant⟩

/-- The operand is no object, so the interpreter takes it for the next term. -/
theorem one_not_balanced : ¬(oneMethod returnsOne).Balanced 0 ⟨2, 0, 5, 0⟩ [] := by
  intro balanced
  have concrete : ∃ left, (oneMethod returnsOne).returned ⟨2, 0, 5, 0⟩ [] =
      some (some .one, left) := ⟨_, rfl⟩
  obtain ⟨left, run⟩ := concrete
  obtain ⟨after, ran, _⟩ := balanced.ends (some .one) left (.unsignedNumber 1) run rfl
  have panics : (oneMethod returnsOne).executeMethod0 0 [] = none := rfl
  rw [panics] at ran
  cases ran

end AmlCode

end EmkKernel
