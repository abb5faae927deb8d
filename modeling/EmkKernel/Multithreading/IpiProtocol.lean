import EmkKernel.Multithreading.Ipi

/-!
# What the requests between processors keep

As long as every request can be carried out, and no request is begun after `await_ipi` gave
one up, the two processors take turns with the packet. A refused application breaks the
protocol: the end of the handler that all requests share stores a second status and
signals a second end of the interrupt.
-/

namespace EmkKernel

/-- The handler is not at work. -/
def IpiReceiver.Ended (receiver : IpiReceiver) : Prop := receiver = .idle ∨ receiver = .halted

namespace IpiState

variable {s s' : IpiState} {request : IpiRequestData}

/-- What a request asks for was done. -/
def Done (s : IpiState) : IpiRequestData → Prop
  | .applicationToSummon filePath => filePath ∈ s.summoned
  | .vmemSync paddr vaddr =>
    ∀ i < paddr.length / 0x1000, (vaddr + i * 0x1000, paddr.base + i * 0x1000) ∈ s.mapped

/-- The protocol in one state, with what was reported and served up to it. -/
structure Protocol (s : IpiState) : Prop where
  success : ∀ number request, (number, request, true) ∈ s.reports →
    (number, true) ∈ s.served ∧ s.Done request
  failure : ∀ number, (number, false) ∈ s.served →
    ∀ request, (number, request, true) ∉ s.reports
  failed : (s.sent, false) ∈ s.served → s.receiver.Ended → s.packet.status = .failed
  eoi : s.eois ≤ s.delivered ∧ (s.receiver.Ended → s.eois = s.delivered)
  pending : s.overwrites = 0

/-- What the handler calls works, and a request is only begun when the one before was
reported as carried out. -/
def Meets (s : IpiState) : IpiStep → Prop
  | .begin _ _ => s.sender = .idle
  | .handle works => works = true
  | _ => True

instance (s : IpiState) : (a : IpiStep) → Decidable (s.Meets a)
  | .begin _ _ => inferInstanceAs (Decidable (s.sender = .idle))
  | .handle works => inferInstanceAs (Decidable (works = true))
  | .store | .poll | .deliver => inferInstanceAs (Decidable True)

/-- The ends of interrupts that are still to be signalled. -/
def owed : IpiReceiver → Nat
  | .idle => 0
  | .finishing _ todo => todo.count .eoi
  | _ => 1

/-- No IPI is under way, and the handler has made its last store. -/
def Settled (s : IpiState) : Prop :=
  s.pendingIpi = false ∧ (s.receiver = .idle ∨ ∃ number, s.receiver = .finishing number [])

/-- The packet holds the request that was sent last. -/
def Holds (s : IpiState) (request : IpiRequestData) : Prop :=
  s.packet.requestType = request.requestType ∧ s.packet.requestData = request ∧ s.held = s.sent

/-- The first `i` pages of a request are mapped. -/
def MappedTo (s : IpiState) (paddr : MemoryBlock) (vaddr i : Nat) : Prop :=
  ∀ j < i, (vaddr + j * 0x1000, paddr.base + j * 0x1000) ∈ s.mapped

/-- How far the handler is with the request. -/
def Serving (s : IpiState) (request : IpiRequestData) : IpiReceiver → Prop
  | .entered => s.Holds request ∧ s.packet.status ≠ .completed
  | .dispatching => s.Holds request ∧ s.packet.status ≠ .completed
  | .mapping number pages i =>
    number = s.sent ∧ s.packet.status ≠ .completed ∧ ∃ paddr vaddr,
      request = .vmemSync paddr vaddr ∧ s.packet.requestData = request ∧
      pages = paddr.length / 0x1000 ∧ i ≤ pages ∧ s.MappedTo paddr vaddr i
  | .summoning number =>
    number = s.sent ∧ s.packet.status ≠ .completed ∧ ∃ filePath,
      request = .applicationToSummon filePath ∧ s.packet.requestData = request
  | .finishing number todo =>
    number = s.sent ∧ (s.sent, true) ∈ s.served ∧ s.Done request ∧ todo <:+ completion ∧
      if todo = [] then s.packet.status = .completed else s.packet.status ≠ .completed
  | .idle => (s.sent, true) ∈ s.served ∧ s.Done request ∧ s.packet.status = .completed
  | .halted => False

/-- Between the IPI and the report, the IPI is under way or the handler serves it. -/
def Working (s : IpiState) (request : IpiRequestData) : Prop :=
  s.pendingIpi = true ∧ s.packet.status = .pending ∧ s.Holds request ∧
      (s.receiver = .idle ∨ ∃ number, s.receiver = .finishing number []) ∨
    s.pendingIpi = false ∧ s.Serving request s.receiver

/-- The fields that are not left to store are stored. -/
def Prepared (s : IpiState) (request : IpiRequestData) (todo : List PacketField) : Prop :=
  (.status ∈ todo ∨ s.packet.status = .pending) ∧
    (.requestType ∈ todo ∨ s.packet.requestType = request.requestType) ∧
    (.requestData ∈ todo ∨ s.packet.requestData = request ∧ s.held = s.sent)

/-- Whose turn it is. -/
def Turn (s : IpiState) : IpiSender → Prop
  | .idle => s.Settled ∧ s.packet.status ≠ .pending ∧ s.packet.status ≠ .recieved
  | .preparing request todo => s.Settled ∧ s.Prepared request todo
  | .awaiting request _ => s.Working request
  | .gaveUp request => s.Working request

/-- The invariant of the runs that meet the condition. -/
structure Inv (s : IpiState) : Prop where
  turn : s.Turn s.sender
  success : ∀ number request, (number, request, true) ∈ s.reports →
    (number, true) ∈ s.served ∧ s.Done request
  served : ∀ number works, (number, works) ∈ s.served → works = true
  eoi : s.eois + owed s.receiver = s.delivered
  pending : s.overwrites = 0
  running : s.receiver ≠ .halted

private theorem inv_initial : initial.Inv := by
  constructor
  · exact ⟨⟨rfl, Or.inl rfl⟩, by decide, by decide⟩
  · intro number request member
    exact absurd member List.not_mem_nil
  · intro number works member
    exact absurd member List.not_mem_nil
  · rfl
  · rfl
  · decide

/-- The invariant gives the protocol. -/
theorem Inv.protocol (inv : s.Inv) : s.Protocol := by
  have none_failed : ∀ number, (number, false) ∉ s.served :=
    fun number member => Bool.false_ne_true (inv.served number false member)
  constructor
  · exact inv.success
  · intro number member
    exact absurd member (none_failed number)
  · intro member
    exact absurd member (none_failed s.sent)
  · have owes := inv.eoi
    refine ⟨by omega, fun ended => ?_⟩
    rcases ended with idle | halted
    · rw [idle] at owes
      exact owes
    · exact absurd halted inv.running
  · exact inv.pending

/-! ## The sender -/

private theorem inv_begin {order : List PacketField} (inv : s.Inv) (idle : s.sender = .idle)
    (ran : s.begin request order = some s') : s'.Inv := by
  have turn := inv.turn
  rw [idle] at turn
  obtain ⟨settled, not_pending, not_recieved⟩ := turn
  unfold begin at ran
  split at ran
  · rename_i all
    simp only [idle, not_pending, not_recieved, or_self, if_false, Nat.add_zero,
      Option.some.injEq] at ran
    rw [← ran]
    refine ⟨⟨settled, ?_⟩, inv.success, inv.served, inv.eoi, inv.pending, inv.running⟩
    -- every field is still to be stored
    exact ⟨Or.inl (all.mem_iff.2 (by simp)), Or.inl (all.mem_iff.2 (by simp)),
      Or.inl (all.mem_iff.2 (by simp))⟩
  · cases ran

private theorem prepared_storeField {field : PacketField} {rest : List PacketField}
    (prepared : s.Prepared request (field :: rest)) :
    (s.storeField request field).Prepared request rest := by
  obtain ⟨status, requestType, requestData⟩ := prepared
  cases field with
  | status =>
    exact ⟨Or.inr rfl, requestType.imp_left (by simp), requestData.imp_left (by simp)⟩
  | requestType =>
    exact ⟨status.imp_left (by simp), Or.inr rfl, requestData.imp_left (by simp)⟩
  | requestData =>
    exact ⟨status.imp_left (by simp), requestType.imp_left (by simp), Or.inr ⟨rfl, rfl⟩⟩

private theorem inv_store (inv : s.Inv) (ran : s.store = some s') : s'.Inv := by
  have turn := inv.turn
  unfold store at ran
  split at ran
  · rename_i request field rest preparing
    rw [preparing] at turn
    obtain ⟨settled, prepared⟩ := turn
    have next := prepared_storeField prepared
    simp only [Option.some.injEq] at ran
    rw [← ran]
    refine ⟨⟨?_, next⟩, ?_, ?_, ?_, ?_, ?_⟩
    all_goals cases field
    all_goals first
      | exact settled
      | exact inv.success
      | exact inv.served
      | exact inv.eoi
      | exact inv.pending
      | exact inv.running
  · rename_i request preparing
    rw [preparing] at turn
    obtain ⟨settled, status, requestType, requestData⟩ := turn
    simp only [Option.some.injEq] at ran
    rw [← ran]
    refine ⟨Or.inl ⟨rfl, ?_, ⟨?_, ?_, ?_⟩, settled.2⟩, inv.success, inv.served, inv.eoi,
      inv.pending, inv.running⟩
    · exact status.resolve_left List.not_mem_nil
    · exact requestType.resolve_left List.not_mem_nil
    · exact (requestData.resolve_left List.not_mem_nil).1
    · exact (requestData.resolve_left List.not_mem_nil).2
  · cases ran

/-- The status says `Completed` only when the request was served and the handler is done. -/
theorem Working.completed (working : s.Working request) (completed : s.packet.status = .completed) :
    s.Settled ∧ (s.sent, true) ∈ s.served ∧ s.Done request := by
  rcases working with ⟨_, pending, _⟩ | ⟨quiet, serving⟩
  · rw [completed] at pending
    cases pending
  · cases at_work : s.receiver with
    | idle =>
      rw [at_work] at serving
      exact ⟨⟨quiet, Or.inl at_work⟩, serving.1, serving.2.1⟩
    | entered =>
      rw [at_work] at serving
      exact absurd completed serving.2
    | dispatching =>
      rw [at_work] at serving
      exact absurd completed serving.2
    | mapping number pages i =>
      rw [at_work] at serving
      exact absurd completed serving.2.1
    | summoning number =>
      rw [at_work] at serving
      exact absurd completed serving.2.1
    | finishing number todo =>
      rw [at_work] at serving
      obtain ⟨_, served, done, _, status⟩ := serving
      cases todo with
      | nil => exact ⟨⟨quiet, Or.inr ⟨number, at_work⟩⟩, served, done⟩
      | cons next rest =>
        rw [if_neg (by simp)] at status
        exact absurd completed status
    | halted =>
      rw [at_work] at serving
      exact serving.elim

private theorem inv_poll (inv : s.Inv) (ran : s.poll = some s') : s'.Inv := by
  have turn := inv.turn
  unfold poll at ran
  split at ran
  · rename_i request tries awaiting
    rw [awaiting] at turn
    split at ran
    · rename_i completed
      obtain ⟨settled, served, done⟩ := Working.completed turn completed
      simp only [Option.some.injEq] at ran
      rw [← ran]
      refine ⟨⟨settled, ?_, ?_⟩, ?_, inv.served, inv.eoi, inv.pending, inv.running⟩
      · simp [completed]
      · simp [completed]
      · intro number request' member
        rcases List.mem_append.1 member with earlier | now
        · exact inv.success number request' earlier
        · simp only [List.mem_singleton, Prod.mk.injEq, and_true] at now
          obtain ⟨rfl, rfl⟩ := now
          exact ⟨served, done⟩
    · simp only [Option.some.injEq] at ran
      rw [← ran]
      exact ⟨turn, inv.success, inv.served, inv.eoi, inv.pending, inv.running⟩
  · rename_i request awaiting
    rw [awaiting] at turn
    simp only [Option.some.injEq] at ran
    rw [← ran]
    refine ⟨turn, ?_, inv.served, inv.eoi, inv.pending, inv.running⟩
    intro number request' member
    rcases List.mem_append.1 member with earlier | now
    · exact inv.success number request' earlier
    · simp at now
  · cases ran

/-! ## The receiver -/

theorem inv_deliver (inv : s.Inv) (ran : s.deliver = some s') : s'.Inv := by
  have turn := inv.turn
  have owes := inv.eoi
  unfold deliver at ran
  split at ran
  · rename_i ready
    obtain ⟨under_way, idle⟩ := ready
    have unsettled : ¬s.Settled := fun settled => by simp [Settled, under_way] at settled
    have entered : ∀ request, s.Working request → s.Holds request ∧
        s.packet.status ≠ .completed := by
      intro request working
      rcases working with ⟨_, pending, holds, _⟩ | ⟨quiet, _⟩
      · exact ⟨holds, by simp [pending]⟩
      · simp [under_way] at quiet
    simp only [Option.some.injEq] at ran
    rw [← ran]
    refine ⟨?_, inv.success, inv.served, ?_, inv.pending, by simp⟩
    · cases sends : s.sender with
      | idle =>
        rw [sends] at turn
        exact absurd turn.1 unsettled
      | preparing request todo =>
        rw [sends] at turn
        exact absurd turn.1 unsettled
      | awaiting request tries =>
        rw [sends] at turn
        exact Or.inr ⟨rfl, entered request turn⟩
      | gaveUp request =>
        rw [sends] at turn
        exact Or.inr ⟨rfl, entered request turn⟩
    · rw [idle] at owes
      simp only [owed] at owes ⊢
      omega
  · cases ran

/-- What a step of the handler leaves, while what it calls works. -/
structure Continues (s s' : IpiState) : Prop where
  sender : s'.sender = s.sender
  sent : s'.sent = s.sent
  reports : s'.reports = s.reports
  overwrites : s'.overwrites = s.overwrites
  pendingIpi : s'.pendingIpi = s.pendingIpi
  served : ∀ entry ∈ s.served, entry ∈ s'.served
  worked : ∀ number works, (number, works) ∈ s'.served → (number, works) ∈ s.served ∨ works = true
  mapped : ∀ page ∈ s.mapped, page ∈ s'.mapped
  summoned : ∀ filePath ∈ s.summoned, filePath ∈ s'.summoned
  eoi : s.eois + owed s.receiver = s.delivered → s'.eois + owed s'.receiver = s'.delivered

theorem Continues.done (continues : Continues s s') (done : s.Done request) : s'.Done request := by
  cases request with
  | applicationToSummon filePath => exact continues.summoned _ done
  | vmemSync paddr vaddr => exact fun i below => continues.mapped _ (done i below)

/-- Behind its last store the handler only leaves. -/
theorem handle_settled (last : s.receiver = .idle ∨ ∃ number, s.receiver = .finishing number [])
    (ran : s.handle true = some s') : s' = { s with receiver := .idle } ∧
      owed s.receiver = 0 := by
  rcases last with idle | ⟨number, done⟩
  · simp [handle, idle] at ran
  · simp only [handle, done, Option.some.injEq] at ran
    rw [done]
    exact ⟨ran.symm, rfl⟩

theorem continues_same (receiver : IpiReceiver) (packet : IpiDescriptorPacket) (n : Nat)
    (owes : s.eois + owed s.receiver = n + owed receiver) :
    Continues s { s with receiver := receiver, packet := packet, eois := n } := by
  refine ⟨rfl, rfl, rfl, rfl, rfl, fun _ h => h, fun _ _ h => Or.inl h, fun _ h => h,
    fun _ h => h, fun before => ?_⟩
  exact owes.symm.trans before

private theorem handle_entered {works : Bool} (serving : s.Serving request .entered)
    (here : s.receiver = .entered) (ran : s.handle works = some s') :
    Continues s s' ∧ s'.Serving request s'.receiver := by
  simp only [handle, here, Option.some.injEq] at ran
  rw [← ran]
  refine ⟨continues_same .dispatching _ s.eois (by rw [here]; rfl), serving.1, by simp⟩

private theorem handle_dispatching {works : Bool} (serving : s.Serving request .dispatching)
    (here : s.receiver = .dispatching) (ran : s.handle works = some s') :
    Continues s s' ∧ s'.Serving request s'.receiver := by
  obtain ⟨⟨requestType, requestData, held⟩, status⟩ := serving
  cases request with
  | applicationToSummon filePath =>
    simp only [handle, here, requestType, requestData, IpiRequestData.requestType,
      Option.some.injEq] at ran
    rw [← ran]
    exact ⟨continues_same (.summoning s.held) _ s.eois (by rw [here]; rfl), held, status, filePath,
      rfl, requestData⟩
  | vmemSync paddr vaddr =>
    simp only [handle, here, requestType, requestData, IpiRequestData.requestType,
      Option.some.injEq] at ran
    rw [← ran]
    refine ⟨continues_same (.mapping s.held _ 0) _ s.eois (by rw [here]; rfl), held, status, paddr,
      vaddr, rfl, requestData, rfl, Nat.zero_le _, fun j below => absurd below (Nat.not_lt_zero j)⟩

private theorem handle_mapping {number pages i : Nat} (serving : s.Serving request
    (.mapping number pages i))
    (here : s.receiver = .mapping number pages i) (ran : s.handle true = some s') :
    Continues s s' ∧ s'.Serving request s'.receiver := by
  obtain ⟨same, status, paddr, vaddr, rfl, requestData, length, below, mapped⟩ := serving
  simp only [handle, here] at ran
  split at ran
  · rename_i more
    simp only [requestData, if_true, Option.some.injEq] at ran
    rw [← ran]
    refine ⟨⟨rfl, rfl, rfl, rfl, rfl, fun _ h => h, fun _ _ h => Or.inl h,
      fun _ h => List.mem_append_left _ h, fun _ h => h, fun before => ?_⟩, ?_⟩
    · rw [here] at before
      exact before
    · refine ⟨same, status, paddr, vaddr, rfl, requestData, length, more, fun j upto => ?_⟩
      rcases Nat.lt_succ_iff_lt_or_eq.1 upto with earlier | rfl
      · exact List.mem_append_left _ (mapped j earlier)
      · exact List.mem_append_right _ (List.mem_singleton.2 rfl)
  · rename_i all
    simp only [Option.some.injEq] at ran
    rw [← ran]
    refine ⟨⟨rfl, rfl, rfl, rfl, rfl, fun _ h => List.mem_append_left _ h, ?_, fun _ h => h,
      fun _ h => h, fun before => ?_⟩, ?_⟩
    · intro k works member
      rcases List.mem_append.1 member with earlier | now
      · exact Or.inl earlier
      · exact Or.inr (Prod.mk.inj (List.mem_singleton.1 now)).2
    · rw [here] at before
      exact before
    · refine ⟨same, ?_, fun j upto => mapped j (by omega), List.suffix_refl _, ?_⟩
      · exact List.mem_append_right _ (by rw [same]; exact List.mem_singleton.2 rfl)
      · rw [if_neg (by decide)]
        exact status

private theorem handle_summoning {number : Nat} (serving : s.Serving request (.summoning number))
    (here : s.receiver = .summoning number) (ran : s.handle true = some s') :
    Continues s s' ∧ s'.Serving request s'.receiver := by
  obtain ⟨same, status, filePath, rfl, requestData⟩ := serving
  simp only [handle, here, requestData, if_true, Option.some.injEq] at ran
  rw [← ran]
  refine ⟨⟨rfl, rfl, rfl, rfl, rfl, fun _ h => List.mem_append_left _ h, ?_, fun _ h => h,
    fun _ h => List.mem_append_left _ h, fun before => ?_⟩, ?_⟩
  · intro k works member
    rcases List.mem_append.1 member with earlier | now
    · exact Or.inl earlier
    · exact Or.inr (Prod.mk.inj (List.mem_singleton.1 now)).2
  · rw [here] at before
    exact before
  · refine ⟨same, ?_, ?_, List.suffix_refl _, ?_⟩
    · exact List.mem_append_right _ (by rw [same]; exact List.mem_singleton.2 rfl)
    · exact List.mem_append_right _ (List.mem_singleton.2 rfl)
    · rw [if_neg (by decide)]
      exact status

/-- The stores behind a request that was carried out: only the last of them completes. -/
theorem handle_finishing {number : Nat} {next : HandlerStore} {rest : List HandlerStore}
    {works : Bool} (serving : s.Serving request (.finishing number (next :: rest)))
    (here : s.receiver = .finishing number (next :: rest)) (ran : s.handle works = some s') :
    Continues s s' ∧ s'.Serving request s'.receiver := by
  obtain ⟨same, served, done, suffix, status⟩ := serving
  rw [if_neg (by simp)] at status
  simp only [handle, here, Option.some.injEq] at ran
  -- the three places in the common end
  have places : next :: rest = completion ∨ next :: rest =
      [.requestTypeInvalid, .status .completed] ∨
      next :: rest = [.status .completed] := by
    simpa [completion, List.suffix_cons_iff] using suffix
  rw [← ran]
  rcases places with first | second | third
  · obtain ⟨rfl, rfl⟩ := List.cons.inj first
    refine ⟨continues_same (.finishing number [.requestTypeInvalid, .status .completed])
      _ (s.eois + 1)
      (by rw [here]; rfl), same, served, done, ⟨[.eoi], rfl⟩, ?_⟩
    rw [if_neg (by simp)]
    exact status
  · obtain ⟨rfl, rfl⟩ := List.cons.inj second
    refine ⟨continues_same (.finishing number [.status .completed]) _ s.eois
      (by rw [here]; rfl), same, served, done, ⟨[.eoi, .requestTypeInvalid], rfl⟩, ?_⟩
    rw [if_neg (by simp)]
    exact status
  · obtain ⟨rfl, rfl⟩ := List.cons.inj third
    refine ⟨continues_same (.finishing number []) _ s.eois
      (by rw [here]; rfl), same, served, done, List.nil_suffix, ?_⟩
    rw [if_pos rfl]
    rfl

private theorem handle_serving (serving : s.Serving request s.receiver)
    (ran : s.handle true = some s') : Continues s s' ∧ s'.Serving request s'.receiver := by
  cases here : s.receiver with
  | idle => simp [handle, here] at ran
  | entered => exact handle_entered (here ▸ serving) here ran
  | dispatching => exact handle_dispatching (here ▸ serving) here ran
  | mapping number pages i => exact handle_mapping (here ▸ serving) here ran
  | summoning number => exact handle_summoning (here ▸ serving) here ran
  | finishing number todo =>
    cases todo with
    | nil =>
      rw [here] at serving
      obtain ⟨_, served, done, _, status⟩ := serving
      obtain ⟨same, _⟩ := handle_settled (Or.inr ⟨number, here⟩) ran
      rw [same]
      exact ⟨continues_same .idle _ s.eois (by rw [here]; rfl), served, done, by simpa using status⟩
    | cons next rest => exact handle_finishing (here ▸ serving) here ran
  | halted =>
    rw [here] at serving
    exact serving.elim

theorem Continues.inv (continues : Continues s s') (inv : s.Inv) (turn : s'.Turn s'.sender)
    (running : s'.receiver ≠ .halted) : s'.Inv := by
  refine ⟨turn, ?_, ?_, continues.eoi inv.eoi, ?_, running⟩
  · intro number request member
    rw [continues.reports] at member
    obtain ⟨served, done⟩ := inv.success number request member
    exact ⟨continues.served _ served, continues.done done⟩
  · intro number works member
    rcases continues.worked number works member with earlier | now
    · exact inv.served number works earlier
    · exact now
  · rw [continues.overwrites]
    exact inv.pending

/-- A handler that has made its last store leaves everything else alone. -/
theorem inv_leave (inv : s.Inv)
    (last : s.receiver = .idle ∨ ∃ number, s.receiver = .finishing number [])
    (turn : ({ s with receiver := .idle } : IpiState).Turn s.sender)
    (ran : s.handle true = some s') : s'.Inv := by
  obtain ⟨same, free⟩ := handle_settled last ran
  rw [same]
  have leaves : Continues s { s with receiver := .idle } :=
    continues_same .idle _ s.eois (by rw [free]; rfl)
  exact leaves.inv inv turn (by simp)

theorem inv_handle (inv : s.Inv) (ran : s.handle true = some s') : s'.Inv := by
  have turn := inv.turn
  -- while the request is served, the sender waits for it
  have serves : ∀ request, s.pendingIpi = false → s.Serving request s.receiver →
      (∀ s'' : IpiState, s''.pendingIpi = false → s''.Serving request s''.receiver →
        s''.Turn s.sender) → s'.Inv := by
    intro request quiet serving waits
    obtain ⟨continues, next⟩ := handle_serving serving ran
    refine continues.inv inv ?_ ?_
    · rw [continues.sender]
      exact waits s' (continues.pendingIpi.trans quiet) next
    · intro halted
      rw [halted] at next
      exact next
  cases sends : s.sender with
  | idle =>
    rw [sends] at turn
    refine inv_leave inv turn.1.2 ?_ ran
    rw [sends]
    exact ⟨⟨turn.1.1, Or.inl rfl⟩, turn.2⟩
  | preparing request todo =>
    rw [sends] at turn
    refine inv_leave inv turn.1.2 ?_ ran
    rw [sends]
    exact ⟨⟨turn.1.1, Or.inl rfl⟩, turn.2⟩
  | awaiting request tries =>
    rw [sends] at turn serves
    rcases turn with ⟨under_way, pending, holds, last⟩ | ⟨quiet, serving⟩
    · refine inv_leave inv last ?_ ran
      rw [sends]
      exact Or.inl ⟨under_way, pending, holds, Or.inl rfl⟩
    · exact serves request quiet serving fun _ quiet next => Or.inr ⟨quiet, next⟩
  | gaveUp request =>
    rw [sends] at turn serves
    rcases turn with ⟨under_way, pending, holds, last⟩ | ⟨quiet, serving⟩
    · refine inv_leave inv last ?_ ran
      rw [sends]
      exact Or.inl ⟨under_way, pending, holds, Or.inl rfl⟩
    · exact serves request quiet serving fun _ quiet next => Or.inr ⟨quiet, next⟩

/-! ## Runs -/

theorem inv_step {a : IpiStep} (inv : s.Inv) (meets : s.Meets a) (ran : s.step a = some s') :
    s'.Inv := by
  cases a with
  | begin request order => exact inv_begin inv meets ran
  | store => exact inv_store inv ran
  | poll => exact inv_poll inv ran
  | deliver => exact inv_deliver inv ran
  | handle works =>
    rw [show works = true from meets] at ran
    exact inv_handle inv ran

/-- In every run in which all requests can be carried out and none is begun after one that
`await_ipi` gave up, every state keeps the protocol. -/
theorem run_protocol (run : Requests.Run step Meets initial s) : s.Protocol :=
  (run.keeps inv_initial fun _ _ _ inv meets ran => inv_step inv meets ran).protocol

/-- One request: the stores of `prepare_func`, the IPI, the interrupt, the handler, and a
check of `await_ipi`. -/
def oneRequest (request : IpiRequestData) (works : Bool) (handled : Nat) : List IpiStep :=
  [.begin request [.status, .requestType, .requestData], .store, .store, .store, .store,
    .deliver] ++ List.replicate handled (.handle works) ++ [.poll]

/-- Two pages are mapped for another processor, and reported. -/
theorem run_protocol_sync : ∃ s, Requests.Run step Meets initial s ∧
    s.reports = [(1, .vmemSync ⟨0x5000, 0x2000⟩ 0x9000, true)] ∧ s.Protocol := by
  have reports : (Requests.serveAll step Meets initial
      (oneRequest (.vmemSync ⟨0x5000, 0x2000⟩ 0x9000) true 9)).map IpiState.reports =
      some [(1, .vmemSync ⟨0x5000, 0x2000⟩ 0x9000, true)] := by decide +kernel
  obtain ⟨s, served, reported⟩ := Option.map_eq_some_iff.1 reports
  have run := Requests.serveAll_run served
  exact ⟨s, run, reported, run_protocol run⟩

/-- An application that is refused is reported as started, and the interrupt is ended
twice. -/
theorem run_refused : ∃ s, Requests.Run step (fun _ _ => True) initial s ∧
    s.served = [(1, false)] ∧ s.eois = s.delivered + 1 ∧ ¬s.Protocol := by
  have seen : (Requests.serveAll step (fun _ _ => True) initial
      (oneRequest (.applicationToSummon "z:\\test001.exe") false 10)).map
      (fun s => (s.served, s.reports, s.eois, s.delivered)) =
      some ([(1, false)], [(1, .applicationToSummon "z:\\test001.exe", true)], 2, 1) := by
    decide +kernel
  obtain ⟨s, served, values⟩ := Option.map_eq_some_iff.1 seen
  simp only [Prod.mk.injEq] at values
  obtain ⟨failed, reported, twice, once⟩ := values
  refine ⟨s, Requests.serveAll_run served, failed, by rw [twice, once], fun protocol => ?_⟩
  refine protocol.failure 1 ?_ (.applicationToSummon "z:\\test001.exe") ?_
  · rw [failed]
    exact List.mem_singleton.2 rfl
  · rw [reported]
    exact List.mem_singleton.2 rfl

end IpiState

end EmkKernel
