import EmkKernel.Drivers.NvmeDispatch
import EmkKernel.Library.Requests

/-!
# Runs of cores, controller and handler

The steps of the controller and of `nvme_irq`, and runs of all of them.
-/

namespace EmkKernel

open CountedLine

namespace NvmeSystem

variable {ι : Type*} [DecidableEq ι] [Fintype ι] {s s' : NvmeSystem ι} {core : ι} {queue : Nat}

/-! ## The controller -/

private theorem inv_post {command : ι × Nat} (inv : s.Inv) (ran : s.post queue command = some s') :
    s'.Inv := by
  unfold post at ran
  split at ran
  · rename_i submitted
    obtain rfl := Option.some.inj ran
    let s' : NvmeSystem ι := { s with
      submitted := Function.update s.submitted queue ((s.submitted queue).erase command)
      posted := Function.update s.posted queue (s.posted queue ++ [command])
      interrupt := true }
    have here : s'.line queue = (s.line queue).post command := by
      simp only [line, Line.post, s', Function.update_self]
      rfl
    have elsewhere : ∀ other, other ≠ queue → s'.line other = s.line other := by
      intro other apart
      simp only [line, s', Function.update_of_ne apart]
      rfl
    have books : (s'.line queue).Books := here ▸ (inv.books queue).post submitted
    show s'.Inv
    refine inv.of_here books (Or.inr (Or.inl rfl)) ?_ elsewhere rfl (fun _ => rfl) id ?_ inv.bits
      inv.there
    · rw [here, (inv.books queue).answered_post]
      exact List.Subset.refl _
    · exact inv.serves.keep (fun _ => id) fun _ _ _ _ handler =>
        ⟨rfl, rfl, inv.all_counted handler⟩
  · cases ran

omit [DecidableEq ι] in
theorem inv_deliver (inv : s.Inv) (ran : s.deliver = some s') : s'.Inv := by
  unfold deliver at ran
  split at ran
  · rename_i waits
    obtain ⟨-, idle⟩ := waits
    obtain rfl := Option.some.inj ran
    let s' : NvmeSystem ι := { s with interrupt := false, irq := .looking s.checkQueue 0 }
    have lines : ∀ other, s'.line other = s.line other := by
      intro other
      simp only [line, isOpen, base, s', idle]
    show s'.Inv
    refine ⟨fun other => ?_, ⟨fun _ => id, fun _ below => absurd below (Nat.not_lt_zero _)⟩,
      inv.bits, fun other => ?_, fun other command member => ?_, inv.there⟩
    · exact lines other ▸ inv.books other
    · -- what was posted is at a queue that is open
      rw [Awake, lines]
      cases isOpen : (s.line other).isOpen with
      | true => exact Or.inr (Or.inr ⟨NvmeIrq.noConfusion, rfl⟩)
      | false => exact Or.inl ((inv.books other).consumed_of_closed isOpen)
    · exact lines other ▸ inv.returned other command member
  · cases ran

/-! ## The handler -/

section Handler

variable {interruptValue : BitVec 8} {i num k : Nat}

omit [DecidableEq ι] in
/-- A step that changes no line and does not end the handler. -/
theorem inv_goes_on {irq : NvmeIrq} (inv : s.Inv)
    (lines : ∀ queue, line { s with irq } queue = s.line queue) (active : irq ≠ .idle)
    (serves : s.Serves irq) : Inv { s with irq } := by
  refine ⟨fun queue => ?_, ?_, inv.bits, fun queue => ?_, fun queue command member => ?_,
    inv.there⟩
  · exact lines queue ▸ inv.books queue
  · exact serves.keep (fun _ => id) fun interruptValue i num k now => by
      subst now
      exact ⟨rfl, rfl, serves.2.2.2.2.2.2⟩
  · rw [Awake, lines]
    exact (inv.awake queue).imp_right (Or.imp_right (And.imp_left fun _ => active))
  · exact lines queue ▸ inv.returned queue command member

omit [DecidableEq ι] in
theorem inv_pass (inv : s.Inv) (handler : s.irq = .looking interruptValue i)
    (clear : interruptValue.getLsbD i = false) :
    Inv { s with irq := .looking interruptValue (i + 1) } := by
  have serves := inv.serves
  rw [handler] at serves
  refine inv_goes_on inv (fun queue => ?_) NvmeIrq.noConfusion ⟨serves.1, fun queue below => ?_⟩
  · simp only [line, isOpen, base, handler]
  · rcases Nat.lt_succ_iff_lt_or_eq.1 below with earlier | rfl
    · exact serves.2 queue earlier
    · exact clear

omit [DecidableEq ι] in
theorem inv_load (inv : s.Inv) (handler : s.irq = .looking interruptValue i) (small : i < 8)
    (set : interruptValue.getLsbD i = true)
    (all : ∀ core, (s.cores core).registeredOn i = true → (s.cores core).countedOn i = true) :
    Inv { s with
      irq := .unissuing (interruptValue ^^^ bit i) i (s.numOutstandingCompletions i) 0 } := by
  have serves := inv.serves
  rw [handler] at serves
  have bits : ∀ queue, (interruptValue ^^^ bit i).getLsbD queue =
      (interruptValue.getLsbD queue ^^ queue == i) := getLsbD_xor_bit _ small
  refine inv_goes_on inv (fun queue => ?_) NvmeIrq.noConfusion
    ⟨fun queue still => ?_, fun queue below => ?_, serves.1 i set, rfl, Nat.zero_le _,
      Nat.zero_le _, fun core member => mem_counted.2 (all core (mem_registered.1 member))⟩
  · have same : ((interruptValue ^^^ bit i).getLsbD queue || i == queue) =
        interruptValue.getLsbD queue := by
      rw [bits]
      by_cases here : queue = i
      · subst here
        simp [set]
      · rw [beq_eq_false_iff_ne.2 here, beq_eq_false_iff_ne.2 (Ne.symm here), Bool.xor_false,
          Bool.or_false]
    simp only [line, isOpen, base, handler, same, Nat.sub_zero, ite_self]
  · rw [bits] at still
    by_cases here : queue = i
    · subst here
      exact serves.1 queue set
    · rw [beq_eq_false_iff_ne.2 here, Bool.xor_false] at still
      exact serves.1 queue still
  · rw [bits]
    rcases Nat.lt_or_eq_of_le below with earlier | rfl
    · rw [serves.2 queue earlier, beq_eq_false_iff_ne.2 (Nat.ne_of_lt earlier)]
      rfl
    · simp [set]

omit [DecidableEq ι] in
theorem inv_take {queues : Nat → NVMeQueue} (inv : s.Inv)
    (handler : s.irq = .unissuing interruptValue i num k) (more : k < num)
    (posted : s.consumed i < (s.posted i).length) :
    Inv { s with
      irq := .unissuing interruptValue i num (k + 1)
      queues := queues
      consumed := Function.update s.consumed i (s.consumed i + 1) } := by
  let s' : NvmeSystem ι := { s with
    irq := .unissuing interruptValue i num (k + 1)
    queues := queues
    consumed := Function.update s.consumed i (s.consumed i + 1) }
  have serves := inv.serves
  rw [handler] at serves
  obtain ⟨inside, done, this, bound, most, taken, all⟩ := serves
  have isOpen_here : (s.line i).isOpen = true := by
    simp [line, isOpen, handler]
  have here : s'.line i = (s.line i).take := by
    have from_base : s.consumed i + 1 - (k + 1) = s.consumed i - k := by omega
    simp only [line, Line.take, isOpen, base, s', handler, Function.update_self, if_pos,
      from_base]
  have elsewhere : ∀ other, other ≠ i → s'.line other = s.line other := by
    intro other apart
    simp only [line, isOpen, base, s', handler, Function.update_of_ne apart, if_neg apart.symm]
  have books : (s'.line i).Books := here ▸ (inv.books i).take isOpen_here posted
  show s'.Inv
  refine inv.of_here books ?_ ?_ elsewhere rfl id (fun _ => NvmeIrq.noConfusion) ?_ inv.bits
    inv.there
  · rw [Awake, here]
    exact Or.inr (Or.inr ⟨NvmeIrq.noConfusion, isOpen_here⟩)
  · rw [here]
    exact List.Subset.refl _
  · refine ⟨inside, done, this, bound, more, ?_, all⟩
    simp only [s', Function.update_self]
    omega

private theorem inv_clear (inv : s.Inv) (handler : s.irq = .unissuing interruptValue i num k)
    (last : ¬k < num) :
    Inv { s with
      irq := .looking interruptValue (i + 1)
      numOutstandingCompletions := Function.update s.numOutstandingCompletions i 0 } := by
  let s' : NvmeSystem ι := { s with
    irq := .looking interruptValue (i + 1)
    numOutstandingCompletions := Function.update s.numOutstandingCompletions i 0 }
  have serves := inv.serves
  rw [handler] at serves
  obtain ⟨inside, done, this, bound, most, taken, all⟩ := serves
  have here : s'.line i = (s.line i).close := by
    simp only [line, Line.close, isOpen, base, s', Function.update_self,
      done i (Nat.le_refl i)]
  have elsewhere : ∀ other, other ≠ i → s'.line other = s.line other := by
    intro other apart
    simp only [line, isOpen, base, s', handler, Function.update_of_ne apart, if_neg apart.symm,
      beq_eq_false_iff_ne.2 apart.symm, Bool.or_false]
  have all_taken : (s.line i).consumed = (s.line i).base + (s.line i).outstanding := by
    simp only [line, base, handler, if_pos]
    omega
  have books : (s'.line i).Books :=
    here ▸ (inv.books i).close (by simp [line, isOpen, handler]) all all_taken
  show s'.Inv
  refine inv.of_here books ?_ ?_ elsewhere rfl id (fun _ => NvmeIrq.noConfusion)
    ⟨inside, fun queue below => done queue (Nat.le_of_lt_succ below)⟩ inv.bits inv.there
  · exact Or.inl (books.consumed_of_closed (congrArg Line.isOpen here))
  · rw [here]
    exact (List.take_prefix_take_left (inv.books i).taken.1).subset

omit [DecidableEq ι] in
theorem inv_finish (inv : s.Inv) (handler : s.irq = .looking interruptValue i)
    (last : ¬i < s.numQueuesImplemented) :
    Inv { s with irq := .idle, checkQueue := interruptValue } := by
  let s' : NvmeSystem ι := { s with irq := .idle, checkQueue := interruptValue }
  have serves := inv.serves
  rw [handler] at serves
  have lines : ∀ queue, s'.line queue = s.line queue := by
    intro queue
    simp only [line, isOpen, base, s', handler]
  show s'.Inv
  refine ⟨fun queue => ?_, trivial, fun queue set => inv.bits queue (serves.1 queue set),
    fun queue => ?_, fun queue command member => ?_, inv.there⟩
  · exact lines queue ▸ inv.books queue
  · -- no queue is left open
    have closed : (s.line queue).isOpen = false := by
      simp only [line, isOpen, handler]
      by_contra set
      have inside := inv.bits queue (serves.1 queue (Bool.eq_true_of_not_eq_false set))
      exact set (serves.2 queue (by omega))
    rw [Awake, lines]
    exact Or.inl ((inv.books queue).consumed_of_closed closed)
  · exact lines queue ▸ inv.returned queue command member

theorem inv_handle (inv : s.Inv) (meets : s.Meets .handle) (ran : s.handle = some s') :
    s'.Inv := by
  unfold handle at ran
  cases handler : s.irq with
  | idle =>
    rw [handler] at ran
    cases ran
  | looking interruptValue i =>
    have meets : s.MeetsIrq (.looking interruptValue i) := handler ▸ meets
    simp only [handler] at ran
    split at ran
    · rename_i below
      split at ran
      · cases ran
      · rename_i small
        have tested := WordFields.and_one_shift_eq_zero_iff interruptValue (Nat.lt_of_not_le small)
        split at ran
        · rename_i nonzero
          have set : interruptValue.getLsbD i = true :=
            Bool.eq_true_of_not_eq_false fun clear => nonzero (tested.2 clear)
          obtain rfl := Option.some.inj ran
          exact inv_load inv handler (Nat.lt_of_not_le small) set (meets below set)
        · rename_i zero
          obtain rfl := Option.some.inj ran
          exact inv_pass inv handler (tested.1 (not_not.1 zero))
    · rename_i last
      obtain rfl := Option.some.inj ran
      exact inv_finish inv handler last
  | unissuing interruptValue i num k =>
    have meets : s.MeetsIrq (.unissuing interruptValue i num k) := handler ▸ meets
    simp only [handler] at ran
    split at ran
    · rename_i more
      obtain ⟨unissued, -, rfl⟩ := Option.map_eq_some_iff.1 ran
      exact inv_take inv handler more (meets more)
    · rename_i last
      obtain rfl := Option.some.inj ran
      exact inv_clear inv handler last

end Handler

/-! ## Runs -/

omit [DecidableEq ι] in
theorem inv_start (numQueuesImplemented : Nat) (queues : Nat → NVMeQueue) (sizes : Nat → Nat) :
    (start ι numQueuesImplemented queues sizes).Inv := by
  refine ⟨fun queue => ?_, trivial, fun queue set => ?_, fun _ => Or.inl rfl,
    fun queue command member => absurd member List.not_mem_nil, fun _ _ _ found => nomatch found⟩
  · have clear : ((start ι numQueuesImplemented queues sizes).line queue).isOpen = false :=
      BitVec.getLsbD_zero
    have nobody : ((start ι numQueuesImplemented queues sizes).line queue).registered = ∅ :=
      Finset.filter_eq_empty_iff.2 fun _ _ => Bool.noConfusion
    have uncounted : ((start ι numQueuesImplemented queues sizes).line queue).counted = ∅ :=
      Finset.filter_eq_empty_iff.2 fun _ _ => Bool.noConfusion
    refine ⟨?_, ?_, List.nodup_nil, ⟨Nat.le_refl 0, Nat.le_refl 0⟩, fun _ => rfl, ?_, ?_, ?_⟩
    · rw [uncounted]
      exact Finset.empty_subset _
    · rw [clear]
      rfl
    · exact fun isOpen => absurd (clear.symm.trans isOpen) Bool.noConfusion
    · rw [nobody]
      exact fun _ _ member => absurd member (Finset.notMem_empty _)
    · rintro who number (⟨slot, entry⟩ | submitted | posted)
      · cases entry
      · exact absurd submitted List.not_mem_nil
      · exact absurd posted List.not_mem_nil
  · exact absurd (BitVec.getLsbD_zero.symm.trans set) Bool.noConfusion

theorem inv_step {a : NvmeStep ι} (inv : s.Inv) (meets : s.Meets a) (ran : s.step a = some s') :
    s'.Inv := by
  cases a with
  | call core queue => exact inv_call inv ran
  | access core => exact inv_access inv meets ran
  | post queue command => exact inv_post inv ran
  | deliver => exact inv_deliver inv ran
  | handle => exact inv_handle inv meets ran

omit [DecidableEq ι] in
/-- Whoever has an answer is not left at an open line. -/
theorem Inv.let_go (inv : s.Inv) (found : s.cores core = .dispatching queue .waiting)
    (taken : (core, s.calls core) ∈ (s.posted queue).take (s.consumed queue))
    (base : s.base queue = s.consumed queue) : s.isOpen queue = false := by
  by_contra isOpen
  have member : core ∈ (s.line queue).registered := by
    rw [line, mem_registered, found]
    simp [NvmeCore.registeredOn]
  have fresh := (inv.books queue).fresh (Bool.eq_true_of_not_eq_false isOpen) core member
  refine fresh ?_
  rw [Line.answered, show (s.line queue).base = s.consumed queue from base]
  exact taken

omit [DecidableEq ι] in
theorem Inv.completes (inv : s.Inv) : s.Completes := by
  refine ⟨fun queue command member => ?_, fun queue => ?_, fun idle quiet queue => ?_,
    fun core queue found taken => ?_⟩
  · exact (List.take_prefix_take_left (inv.books queue).taken.1).subset
      (inv.returned queue command member)
  · exact ⟨(inv.books queue).posted_nodup, (inv.books queue).taken.2⟩
  · rcases inv.awake queue with all | pending | ⟨active, -⟩
    · exact all
    · exact absurd (quiet.symm.trans pending) Bool.noConfusion
    · exact absurd idle active
  · have let_go := inv.let_go found taken
    have serves := inv.serves
    cases handler : s.irq with
    | idle =>
      simp only [isOpen, base, handler] at let_go
      exact Or.inl (let_go trivial)
    | looking interruptValue i =>
      simp only [isOpen, base, handler] at let_go
      exact Or.inr ⟨interruptValue, rfl, let_go trivial⟩
    | unissuing interruptValue i num k =>
      rw [handler] at serves
      refine Or.inr ⟨interruptValue, rfl, ?_⟩
      by_cases here : i = queue
      · exact serves.2.1 queue (Nat.le_of_eq here.symm)
      · simp only [isOpen, base, handler, if_neg here, beq_eq_false_iff_ne.2 here,
          Bool.or_false] at let_go
        exact let_go trivial

/-- In every run that meets the conditions a call returns after its own completion was posted
and taken, every completion is taken once, and nobody waits for one that was taken. -/
theorem run_completes {numQueuesImplemented : Nat} {queues : Nat → NVMeQueue} {sizes : Nat → Nat}
    (run : Requests.Run step Meets (start ι numQueuesImplemented queues sizes) s) : s.Completes :=
  (run.keeps (inv_start numQueuesImplemented queues sizes)
    fun _ _ _ inv meets ran => inv_step inv meets ran).completes

/-- Queues of four entries. -/
def smallQueues : Nat → NVMeQueue := fun _ => .new 0x1000 0x2000 0 0 4 0

/-- A controller that knows of all of them. -/
def fourEntries : Nat → Nat := fun _ => 4

/-- A call up to the wait: the load of `check_queue` and nine more accesses. -/
def wholeCall (core : Fin 2) (queue : Nat) : List (NvmeStep (Fin 2)) :=
  .call core queue :: List.replicate 9 (.access core)

/-- A core reads, the controller completes, and the handler lets the core go on. -/
theorem run_completes_one : ∃ s,
    Requests.Run step Meets (start (Fin 2) 2 smallQueues fourEntries) s ∧
    s.returned = [(1, 0, 0)] ∧ s.Completes := by
  have returned : (Requests.serveAll step Meets (start (Fin 2) 2 smallQueues fourEntries)
      (wholeCall 0 1 ++ [.post 1 (0, 0), .deliver] ++ List.replicate 5 .handle ++
        [.access 0])).map NvmeSystem.returned = some [(1, 0, 0)] := by decide +kernel
  obtain ⟨s, served, this⟩ := Option.map_eq_some_iff.1 returned
  have run := Requests.serveAll_run served
  exact ⟨s, run, this, run_completes run⟩

/-- Without the conditions, the interrupt for one queue lets a core of another queue go before
its command reaches the controller. -/
theorem run_too_early : ∃ s,
    Requests.Run step (fun _ _ => True) (start (Fin 2) 3 smallQueues fourEntries) s ∧
    ¬s.Completes := by
  have seen : (Requests.serveAll step (fun _ _ => True) (start (Fin 2) 3 smallQueues fourEntries)
      (wholeCall 0 1 ++ .call 1 2 :: List.replicate 3 (.access 1) ++ [.post 1 (0, 0), .deliver] ++
        List.replicate 8 .handle ++ List.replicate 7 (.access 1))).map
      (fun s => (s.returned, s.posted 2)) = some ([(2, 1, 0)], []) := by decide +kernel
  obtain ⟨s, served, values⟩ := Option.map_eq_some_iff.1 seen
  obtain ⟨returned, posted⟩ := Prod.mk.inj values
  refine ⟨s, Requests.serveAll_run served, fun completes => ?_⟩
  have done := completes.returned 2 (1, 0) (by rw [returned]; exact List.mem_singleton.2 rfl)
  rw [posted, List.take_nil] at done
  exact absurd done List.not_mem_nil

end NvmeSystem

end EmkKernel
