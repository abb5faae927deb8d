import EmkKernel.Library.Requests
import EmkKernel.Memory.Basic

/-!
# Waiting for a command

The driver issues a command and waits for events, the handler consumes the events in the order
in which the controller posted them, and the controller posts completions, port status changes
and transfer events whenever it likes. The last four fields of the state are history.
-/

namespace EmkKernel

/-- The commands that the driver waits for, by what happens to their completion. -/
inductive AwaitedCommand where
  | enableSlot
  | addressDevice
  /-- `EvaluateContext` and `ConfigureEndpoint`, without a callback. -/
  | context
  deriving DecidableEq

/-- Commands have numbers in the order in which they were issued. -/
inductive XhciEvent where
  | commandCompletion (command completionCode slotId : Nat)
  | portStatusChange
  | transfer
  deriving DecidableEq

/-- `wait_for_events` with the tries that are left. -/
inductive WaitingDriver where
  | running
  | waiting (command : AwaitedCommand) (tries : Nat)
  | waitingForPort (tries : Nat)
  | panicked
  deriving DecidableEq

structure XhciWaits where
  driver : WaitingDriver
  eventCallbackFn : Option AwaitedCommand
  /-- The local variable of `untraited_work0`. -/
  slotIndex : Nat
  gotEvents : Bool
  -- The handler has called its closure for an event, and has not set the flag.
  flagging : Bool
  unfinished : List Nat
  pending : List XhciEvent
  issued : Nat
  consumed : List XhciEvent
  /-- How many events were consumed when the command was issued. -/
  issuedAt : Nat
  /-- The events that set the flag since it was cleared. -/
  flaggedBy : List Nat

inductive WaitAction where
  | issue (command : AwaitedCommand)
  | waitForPort
  | poll
  | complete (command completionCode slotId : Nat)
  | post (event : XhciEvent)
  | consume
  | setFlag
  deriving DecidableEq

namespace XhciWaits

def new : XhciWaits := ⟨.running, none, 0, false, false, [], [], 0, [], 0, []⟩

variable (s : XhciWaits)

/-- The callback is installed before the command is issued. -/
def issue (command : AwaitedCommand) : XhciWaits :=
  { s with
    driver := .waiting command 20
    eventCallbackFn := if command = .context then s.eventCallbackFn else some command
    slotIndex := if command = .enableSlot then 0 else s.slotIndex
    unfinished := s.unfinished ++ [s.issued]
    issued := s.issued + 1
    issuedAt := s.consumed.length }

/-- An iteration of `wait_for_events`. A callback is removed after the wait. -/
def poll : Option XhciWaits :=
  match s.driver with
  | .waiting command tries =>
    if s.gotEvents then
      some { s with
        driver := .running
        gotEvents := false
        flaggedBy := []
        eventCallbackFn := if command = .context then s.eventCallbackFn else none }
    else if tries ≤ 1 then some { s with driver := .panicked }
    else some { s with driver := .waiting command (tries - 1) }
  | .waitingForPort tries =>
    if s.gotEvents then some { s with driver := .running, gotEvents := false, flaggedBy := [] }
    else if tries ≤ 1 then some { s with driver := .panicked }
    else some { s with driver := .waitingForPort (tries - 1) }
  | .running | .panicked => none

/-- What the closures do with an event: a panic, or the slot that is in it. -/
def callback : Option AwaitedCommand → XhciEvent → Nat → Option Nat
  | _, .transfer, slotIndex => some slotIndex
  | none, _, slotIndex => some slotIndex
  | some .enableSlot, .commandCompletion _ completionCode slotId, _ =>
    if completionCode = 1 then some slotId else none
  | some _, .commandCompletion _ completionCode _, slotIndex =>
    if completionCode = 1 then some slotIndex else none
  | some _, .portStatusChange, _ => none

/-- The next event is handled. -/
def consume : Option XhciWaits :=
  match s.pending with
  | [] => none
  | event :: pending =>
    if s.flagging = true ∨ s.driver = .panicked then none
    else
      match callback s.eventCallbackFn event s.slotIndex with
      | none => some { s with driver := .panicked, pending, consumed := s.consumed ++ [event] }
      | some slotIndex => some { s with
          slotIndex, pending, flagging := true, consumed := s.consumed ++ [event] }

def serve (s : XhciWaits) : WaitAction → Option XhciWaits
  | .issue command => if s.driver = .running then some (s.issue command) else none
  | .waitForPort =>
    if s.driver = .running then some { s with driver := .waitingForPort 20 } else none
  | .poll => s.poll
  | .complete command completionCode slotId =>
    if command ∈ s.unfinished then
      some { s with
        unfinished := s.unfinished.erase command
        pending := s.pending ++ [.commandCompletion command completionCode slotId] }
    else none
  | .post event =>
    match event with
    | .commandCompletion _ _ _ => none
    | _ => some { s with pending := s.pending ++ [event] }
  | .consume => s.consume
  | .setFlag =>
    if s.flagging then
      some { s with
        flagging := false
        gotEvents := true
        flaggedBy := s.flaggedBy ++ [s.consumed.length - 1] }
    else none

/-- The completion of the last command was consumed, with a slot in it. -/
def Completed (slotId : Nat) : Prop :=
  ∃ completionCode, .commandCompletion (s.issued - 1) completionCode slotId ∈ s.consumed

/-- Wherever the wait for a command would end, its completion was consumed, the slot is the one
in it, and the flag is not an older event's. -/
def WaitsRight : Prop :=
  ∀ command tries, s.driver = .waiting command tries → s.gotEvents = true →
    (∃ slotId, s.Completed slotId) ∧ (command = .enableSlot → s.Completed s.slotIndex) ∧
    ∀ event ∈ s.flaggedBy, s.issuedAt ≤ event

/-- An event is the completion of the last command. -/
def completesLast (event : XhciEvent) : Bool :=
  match event with
  | .commandCompletion command _ _ => command + 1 == s.issued
  | _ => false

/-- A command is issued while no event has set the flag or is about to, and until its completion
is consumed, the handler consumes nothing else. -/
def alone : WaitAction → Bool
  | .issue _ => !s.gotEvents && !s.flagging
  | .consume =>
    match s.driver with
    | .waiting _ _ => s.consumed.any s.completesLast || s.pending.head?.all s.completesLast
    | _ => true
  | _ => true

def isCompletion : XhciEvent → Bool
  | .commandCompletion _ _ _ => true
  | _ => false

/-- The commands whose completion the handler has not consumed. -/
def outstanding : Nat := s.unfinished.length + s.pending.countP isCompletion

/-- The driver waits, and the completion was not consumed or was. -/
structure WaitingFor (s : XhciWaits) (command : AwaitedCommand) : Prop where
  issuedAt : s.issuedAt ≤ s.consumed.length
  flaggedBy : ∀ event ∈ s.flaggedBy, s.issuedAt ≤ event
  flagging : s.flagging = true → s.issuedAt < s.consumed.length
  completion :
    (s.consumed.any s.completesLast = false ∧ s.gotEvents = false ∧ s.flagging = false ∧
      (command = .enableSlot → s.eventCallbackFn = some .enableSlot) ∧ s.outstanding ≤ 1) ∨
    ((∃ slotId, s.Completed slotId) ∧ (command = .enableSlot → s.Completed s.slotIndex) ∧
      s.outstanding = 0)

/-- The invariant. -/
structure Ordered (s : XhciWaits) : Prop where
  commands : ∀ c code slot, .commandCompletion c code slot ∈ s.pending ++ s.consumed → c < s.issued
  unfinished : ∀ c ∈ s.unfinished, c < s.issued
  flags : s.gotEvents = false → s.flaggedBy = []
  driver : match s.driver with
    | .running | .waitingForPort _ => s.outstanding = 0
    | .waiting command _ => WaitingFor s command
    | .panicked => True

variable {s} {s' : XhciWaits}

private theorem ordered_new : Ordered new where
  commands c code slot found := by cases found
  unfinished c found := by cases found
  flags _ := rfl
  driver := rfl

private theorem outstanding_issue (none : s.outstanding = 0) (command : AwaitedCommand) :
    (s.issue command).outstanding = 1 := by
  simp only [outstanding, issue, List.length_append, List.length_singleton] at none ⊢
  omega

private theorem ordered_issue (ordered : Ordered s) (running : s.driver = .running)
    (command : AwaitedCommand) (alone : s.gotEvents = false ∧ s.flagging = false) :
    Ordered (s.issue command) := by
  have none : s.outstanding = 0 := by
    have state := ordered.driver
    rw [running] at state
    exact state
  refine ⟨fun c code slot found => Nat.lt_succ_of_lt (ordered.commands c code slot found),
    fun c found => ?_, ordered.flags, ⟨Nat.le_refl _, ?_, ?_,
      Or.inl ⟨?_, alone.1, alone.2, ?_, ?_⟩⟩⟩
  · rcases List.mem_append.mp found with old | new
    · exact Nat.lt_succ_of_lt (ordered.unfinished c old)
    · rw [List.mem_singleton.mp new]
      exact Nat.lt_succ_self _
  · intro event found
    rw [show (s.issue command).flaggedBy = [] from ordered.flags alone.1] at found
    cases found
  · intro busy
    exact absurd (busy.symm.trans alone.2) (by decide)
  · -- No completion that was consumed can be the one of a new command.
    refine List.any_eq_false.mpr fun event found last => ?_
    cases event with
    | commandCompletion c code slot =>
      have old := ordered.commands c code slot (List.mem_append_right _ found)
      have new : c + 1 = s.issued + 1 := beq_iff_eq.mp last
      omega
    | portStatusChange => cases last
    | transfer => cases last
  · rintro rfl
    rfl
  · exact (outstanding_issue none command).le

private theorem ordered_poll (ordered : Ordered s) (ran : s.poll = some s') : Ordered s' := by
  have state := ordered.driver
  simp only [poll] at ran
  split at ran
  next command tries waits =>
    rw [waits] at state
    split at ran
    next flag =>
      obtain rfl := Option.some.inj ran
      refine ⟨ordered.commands, ordered.unfinished, fun _ => rfl, ?_⟩
      rcases state.completion with ⟨_, clear, _⟩ | ⟨_, _, none⟩
      · exact absurd (flag.symm.trans clear) (by decide)
      · exact none
    next =>
      split at ran
      next =>
        obtain rfl := Option.some.inj ran
        exact ⟨ordered.commands, ordered.unfinished, ordered.flags, trivial⟩
      next =>
        obtain rfl := Option.some.inj ran
        exact ⟨ordered.commands, ordered.unfinished, ordered.flags, { state with }⟩
  next tries waits =>
    rw [waits] at state
    split at ran
    next =>
      obtain rfl := Option.some.inj ran
      exact ⟨ordered.commands, ordered.unfinished, fun _ => rfl, state⟩
    next =>
      split at ran
      next =>
        obtain rfl := Option.some.inj ran
        exact ⟨ordered.commands, ordered.unfinished, ordered.flags, trivial⟩
      next =>
        obtain rfl := Option.some.inj ran
        exact ⟨ordered.commands, ordered.unfinished, ordered.flags, state⟩
  next => cases ran
  next => cases ran

/-- Posting moves what is outstanding, or adds nothing to it. -/
theorem ordered_posted {unfinished : List Nat} {pending : List XhciEvent} (ordered : Ordered s)
    (commands : ∀ c code slot, .commandCompletion c code slot ∈ pending → c < s.issued)
    (fewer : ∀ c ∈ unfinished, c ∈ s.unfinished)
    (same : unfinished.length + pending.countP isCompletion = s.outstanding) :
    Ordered { s with unfinished, pending } := by
  refine ⟨fun c code slot found => ?_, fun c found => ordered.unfinished c (fewer c found),
    ordered.flags, ?_⟩
  · rcases List.mem_append.mp found with new | old
    · exact commands c code slot new
    · exact ordered.commands c code slot (List.mem_append_right _ old)
  · have state := ordered.driver
    show match s.driver with
      | .running | .waitingForPort _ => unfinished.length + pending.countP isCompletion = 0
      | .waiting command _ => WaitingFor { s with unfinished, pending } command
      | .panicked => True
    cases driver : s.driver with
    | waiting command tries =>
      rw [driver] at state
      obtain ⟨issuedAt, flaggedBy, flagging, completion⟩ := state
      refine ⟨issuedAt, flaggedBy, flagging, ?_⟩
      rcases completion with ⟨left, flag, idle, callback, few⟩ | ⟨done, slot, none⟩
      · exact Or.inl ⟨left, flag, idle, callback, same.le.trans few⟩
      · exact Or.inr ⟨done, slot, same.trans none⟩
    | running =>
      rw [driver] at state
      exact same.trans state
    | waitingForPort tries =>
      rw [driver] at state
      exact same.trans state
    | panicked => trivial

private theorem ordered_complete (ordered : Ordered s) {c code slot : Nat}
    (left : c ∈ s.unfinished) :
    Ordered { s with
      unfinished := s.unfinished.erase c
      pending := s.pending ++ [.commandCompletion c code slot] } := by
  refine ordered_posted ordered (fun c' code' slot' found => ?_)
    (fun c' found => List.mem_of_mem_erase found) ?_
  · rcases List.mem_append.mp found with old | new
    · exact ordered.commands c' code' slot' (List.mem_append_left _ old)
    · cases List.mem_singleton.mp new
      exact ordered.unfinished c left
  · have positive := List.length_pos_of_mem left
    rw [List.length_erase_of_mem left, List.countP_append, outstanding]
    simp only [List.countP_singleton, isCompletion, if_true]
    omega

private theorem ordered_post (ordered : Ordered s) {event : XhciEvent}
    (other : isCompletion event = false) :
    Ordered { s with pending := s.pending ++ [event] } := by
  refine ordered_posted ordered (fun c code slot found => ?_) (fun c found => found) ?_
  · rcases List.mem_append.mp found with old | new
    · exact ordered.commands c code slot (List.mem_append_left _ old)
    · rw [← List.mem_singleton.mp new] at other
      cases other
  · rw [List.countP_append, List.countP_singleton, other]
    rfl

/-- Only completions change the slot. -/
theorem callback_other {installed : Option AwaitedCommand} {event : XhciEvent}
    {slotIndex next : Nat}
    (other : isCompletion event = false) (ran : callback installed event slotIndex = some next) :
    next = slotIndex := by
  cases event with
  | commandCompletion => cases other
  | transfer =>
    cases installed with
    | none => exact (Option.some.inj ran).symm
    | some command => cases command <;> exact (Option.some.inj ran).symm
  | portStatusChange =>
    cases installed with
    | none => exact (Option.some.inj ran).symm
    | some command => cases command <;> cases ran

private theorem callback_enableSlot {c code slot slotIndex next : Nat}
    (ran : callback (some .enableSlot) (.commandCompletion c code slot) slotIndex = some next) :
    next = slot := by
  simp only [callback] at ran
  split at ran
  · exact (Option.some.inj ran).symm
  · cases ran

private theorem ordered_consume (ordered : Ordered s) (alone : s.alone .consume = true)
    (ran : s.consume = some s') : Ordered s' := by
  have state := ordered.driver
  simp only [consume] at ran
  split at ran
  next => cases ran
  next event pending head =>
    have commands : ∀ c code slot,
        XhciEvent.commandCompletion c code slot ∈ pending ++ (s.consumed ++ [event]) →
          c < s.issued := by
      intro c code slot found
      refine ordered.commands c code slot ?_
      rw [head]
      simp only [List.mem_append, List.mem_cons, List.not_mem_nil, or_false] at found ⊢
      tauto
    have before : s.outstanding = s.unfinished.length +
        (pending.countP isCompletion + if isCompletion event then 1 else 0) := by
      rw [outstanding, head, List.countP_cons]
    split at ran
    next => cases ran
    next free =>
      split at ran
      next =>
        obtain rfl := Option.some.inj ran
        exact ⟨commands, ordered.unfinished, ordered.flags, trivial⟩
      next slotIndex called =>
        obtain rfl := Option.some.inj ran
        refine ⟨commands, ordered.unfinished, ordered.flags, ?_⟩
        have grows : s.consumed.length < (s.consumed ++ [event]).length := by simp
        show match s.driver with
          | .running | .waitingForPort _ => s.unfinished.length + pending.countP isCompletion = 0
          | .waiting command _ => WaitingFor { s with
              slotIndex, pending, flagging := true, consumed := s.consumed ++ [event] } command
          | .panicked => True
        cases driver : s.driver with
        | running =>
          rw [driver] at state
          rw [state] at before
          omega
        | waitingForPort tries =>
          rw [driver] at state
          rw [state] at before
          omega
        | panicked => trivial
        | waiting command tries =>
          rw [driver] at state
          obtain ⟨issuedAt, flaggedBy, flagging, completion⟩ := state
          refine ⟨issuedAt.trans grows.le, flaggedBy, fun _ => issuedAt.trans_lt grows, Or.inr ?_⟩
          rcases completion with ⟨left, flag, idle, callback', few⟩ | ⟨⟨slot, code, found⟩,
            named, none⟩
          · -- The one event that may be consumed now is the completion.
            have last : s.completesLast event = true := by
              simpa only [XhciWaits.alone, driver, left, Bool.false_or, head, List.head?_cons,
                Option.all_some] using alone
            cases event with
            | commandCompletion c code slot =>
              have same : c = s.issued - 1 := by
                have := beq_iff_eq.mp last
                omega
              have completed : XhciEvent.commandCompletion (s.issued - 1) code slot ∈
                  s.consumed ++ [.commandCompletion c code slot] := by
                rw [same]
                exact List.mem_append_right _ (List.mem_singleton_self _)
              refine ⟨⟨slot, code, completed⟩, fun enable => ⟨code, ?_⟩, ?_⟩
              · rw [callback' enable] at called
                show XhciEvent.commandCompletion (s.issued - 1) code slotIndex ∈ _
                rw [callback_enableSlot called]
                exact completed
              · show s.unfinished.length + pending.countP isCompletion = 0
                simp only [isCompletion, if_true] at before
                omega
            | portStatusChange => cases last
            | transfer => cases last
          · have other : isCompletion event = false := by
              cases kind : isCompletion event with
              | false => rfl
              | true =>
                rw [kind, none] at before
                simp at before
            refine ⟨⟨slot, code, List.mem_append_left _ found⟩, fun enable => ?_, ?_⟩
            · obtain ⟨code', found'⟩ := named enable
              refine ⟨code', List.mem_append_left _ ?_⟩
              rw [callback_other other called]
              exact found'
            · show s.unfinished.length + pending.countP isCompletion = 0
              rw [none] at before
              omega

private theorem ordered_setFlag (ordered : Ordered s) (flagging : s.flagging = true) :
    Ordered { s with
      flagging := false
      gotEvents := true
      flaggedBy := s.flaggedBy ++ [s.consumed.length - 1] } := by
  refine ⟨ordered.commands, ordered.unfinished, fun clear => (by cases clear), ?_⟩
  have state := ordered.driver
  show match s.driver with
    | .running | .waitingForPort _ => s.outstanding = 0
    | .waiting command _ => WaitingFor { s with
        flagging := false
        gotEvents := true
        flaggedBy := s.flaggedBy ++ [s.consumed.length - 1] } command
    | .panicked => True
  cases driver : s.driver with
  | running => rwa [driver] at state
  | waitingForPort tries => rwa [driver] at state
  | panicked => trivial
  | waiting command tries =>
    rw [driver] at state
    obtain ⟨issuedAt, flaggedBy, after, completion⟩ := state
    refine ⟨issuedAt, fun event found => ?_, fun busy => (by cases busy), Or.inr ?_⟩
    · rcases List.mem_append.mp found with old | new
      · exact flaggedBy event old
      · rw [List.mem_singleton.mp new]
        exact Nat.le_sub_one_of_lt (after flagging)
    · rcases completion with ⟨_, _, idle, _⟩ | done
      · exact absurd (flagging.symm.trans idle) (by decide)
      · exact done

private theorem ordered_serve (ordered : Ordered s) (action : WaitAction)
    (alone : s.alone action = true) (ran : serve s action = some s') : Ordered s' := by
  cases action with
  | issue command =>
    simp only [serve] at ran
    split at ran
    next running =>
      obtain rfl := Option.some.inj ran
      refine ordered_issue ordered running command ?_
      simpa only [XhciWaits.alone, Bool.and_eq_true, Bool.not_eq_true'] using alone
    next => cases ran
  | waitForPort =>
    simp only [serve] at ran
    split at ran
    next running =>
      obtain rfl := Option.some.inj ran
      have state := ordered.driver
      rw [running] at state
      exact ⟨ordered.commands, ordered.unfinished, ordered.flags, state⟩
    next => cases ran
  | poll => exact ordered_poll ordered ran
  | complete c code slot =>
    simp only [serve] at ran
    split at ran
    next left =>
      obtain rfl := Option.some.inj ran
      exact ordered_complete ordered left
    next => cases ran
  | post event =>
    cases event with
    | commandCompletion => cases ran
    | portStatusChange =>
      obtain rfl := Option.some.inj ran
      exact ordered_post ordered rfl
    | transfer =>
      obtain rfl := Option.some.inj ran
      exact ordered_post ordered rfl
  | consume => exact ordered_consume ordered alone ran
  | setFlag =>
    simp only [serve] at ran
    split at ran
    next flagging =>
      obtain rfl := Option.some.inj ran
      exact ordered_setFlag ordered flagging
    next => cases ran

private theorem Ordered.waitsRight (ordered : Ordered s) : s.WaitsRight := by
  intro command tries waits flag
  have state := ordered.driver
  rw [waits] at state
  obtain ⟨_, flaggedBy, _, completion⟩ := state
  rcases completion with ⟨_, clear, _⟩ | ⟨done, slot, _⟩
  · exact absurd (flag.symm.trans clear) (by decide)
  · exact ⟨done, slot, flaggedBy⟩

/-- A wait ends with the completion of its command where nothing else sets the flag. -/
theorem waits_right (s : XhciWaits) (run : Requests.Run serve (fun s a => s.alone a = true) new s) :
    s.WaitsRight := by
  have ordered : Ordered s := run.keeps ordered_new fun _ action _ kept alone ran =>
    ordered_serve kept action alone ran
  exact ordered.waitsRight

/-- A slot is enabled while a port changes before and after. -/
theorem waits_right_enableSlot : ∃ s : XhciWaits, s.WaitsRight ∧ s.slotIndex = 3 ∧
    s.driver = .running := by
  have ran : ((Requests.serveAll serve (fun s a => s.alone a = true) new
      [.post .portStatusChange, .waitForPort, .consume, .setFlag, .poll, .issue .enableSlot,
        .complete 0 1 3, .consume, .setFlag, .poll]).any
      fun s => decide (s.slotIndex = 3 ∧ s.driver = .running)) = true := by
    decide +kernel
  obtain ⟨s, served, shown⟩ := (Option.any_eq_true _ _).1 ran
  exact ⟨s, waits_right s (Requests.serveAll_run served), of_decide_eq_true shown⟩

/-- A transfer event that was handled before the command satisfies the wait. -/
theorem not_waits_right : ∃ s, Requests.Run serve (fun _ _ => True) new s ∧ ¬s.WaitsRight := by
  have ran : ((Requests.serveAll serve (fun _ _ => True) new
      [.post .transfer, .consume, .setFlag, .issue .enableSlot]).any
      fun s => decide (s.driver = .waiting .enableSlot 20 ∧ s.gotEvents = true ∧
        s.consumed = [.transfer])) = true := by
    decide +kernel
  obtain ⟨s, served, shown⟩ := (Option.any_eq_true _ _).1 ran
  obtain ⟨waits, flag, consumed⟩ := of_decide_eq_true shown
  refine ⟨s, Requests.serveAll_run served, fun right => ?_⟩
  obtain ⟨⟨slot, code, found⟩, _⟩ := right _ _ waits flag
  rw [consumed, List.mem_singleton] at found
  cases found

end XhciWaits

end EmkKernel
