import EmkKernel.Drivers.NvmeQueue

/-!
# How driver and controller count slots

The driver takes its values modulo one less than the number of entries, so the first value
that it writes wrong is the one before the end of the queue. The entries of an I/O
submission queue lie behind the page that it has from the 65th on, and every pair but the
first has its completions posted to the queue of the first.
-/

namespace EmkKernel

/-- The pairs that the controller creates: with the four pages and the page of the admin queues,
and with two pages for the others. -/
inductive QueuePair.SetUp (abar : NVMeBar) : QueuePair → Prop where
  | admin {asq acq : MemoryBlock} : asq.length = 4 * 0x1000 → acq.length = 0x1000 →
      SetUp abar (NVMeController.setupController abar asq acq)
  | basic {mqes : Nat} {memory : MemoryBlock} {pair : QueuePair} : memory.length = 2 * 0x1000 →
      NVMeController.createBasicIoPairs abar mqes memory = some pair → SetUp abar pair
  | another {numQueuesImplemented mqes : Nat} {memory : MemoryBlock} {pair : QueuePair} :
      2 ≤ numQueuesImplemented → memory.length = 2 * 0x1000 →
      NVMeController.createIoPair abar numQueuesImplemented mqes memory = some pair →
      SetUp abar pair

namespace QueuePair

variable {abar : NVMeBar} {pair : QueuePair} {s s' : PairState}

/-- Driver and controller agree about the commands and completions so far. -/
structure Agrees (abar : NVMeBar) (pair : QueuePair) (s : PairState) : Prop where
  submitted : ∀ k < s.submitted.length, s.submitted[k]? =
    some (pair.submission.queue + 64 * (k % pair.entries), abar.tdbl pair.submission.qid,
      (k + 1) % pair.entries)
  inside : ∀ access ∈ s.submitted, pair.submissionMemory.base ≤ access.1 ∧
    access.1 + 64 ≤ pair.submissionMemory.endAddress
  posted : pair.submission.cqid = pair.completion.qid
  consumed : ∀ k < s.consumed.length, s.consumed[k]? =
    some (pair.completion.queue + 16 * (k % (pair.completion.queueSize + 1)),
      abar.hdbl pair.completion.qid, (k + 1) % (pair.completion.queueSize + 1))

/-- The accesses that the driver makes. -/
def accesses (base entry doorbell modulus n : Nat) : List NVMeQueue.Access :=
  (List.range n).map fun k => (base + entry * (k % modulus), doorbell, (k + 1) % modulus)

private theorem accesses_succ (base entry doorbell modulus n : Nat) :
    accesses base entry doorbell modulus (n + 1) = accesses base entry doorbell modulus n ++
      [(base + entry * (n % modulus), doorbell, (n + 1) % modulus)] := by
  simp [accesses, List.range_succ]

private theorem getElem?_accesses {base entry doorbell modulus n k : Nat} (below : k < n) :
    (accesses base entry doorbell modulus n)[k]? =
      some (base + entry * (k % modulus), doorbell, (k + 1) % modulus) := by
  simp [accesses, below]

/-- The invariant of a pair at work: everything follows from how many commands were submitted
and how many completions were taken. -/
structure Counts (pair : QueuePair) (s : PairState) : Prop where
  size : s.queue.size = pair.queue.size
  submissionBase : s.queue.submissionBase = pair.queue.submissionBase
  completionBase : s.queue.completionBase = pair.queue.completionBase
  tail : s.queue.tail = pair.queue.tail
  head : s.queue.head = pair.queue.head
  tailValue : s.queue.tailValue = s.submitted.length % (pair.queue.size - 1)
  headValue : s.queue.headValue = s.consumed.length % (pair.queue.size - 1)
  submitted : s.submitted = accesses pair.queue.submissionBase 64 pair.queue.tail
    (pair.queue.size - 1) s.submitted.length
  consumed : s.consumed = accesses pair.queue.completionBase 16 pair.queue.head
    (pair.queue.size - 1) s.consumed.length
  order : s.consumed.length ≤ s.posted ∧ s.posted ≤ s.submitted.length
  advances : s.submitted.length = 0 ∨ 2 ≤ pair.queue.size

private theorem counts_start (fresh : pair.queue.tailValue = 0 ∧ pair.queue.headValue = 0) :
    Counts pair pair.start := by
  refine ⟨rfl, rfl, rfl, rfl, rfl, ?_, ?_, rfl, rfl, ⟨Nat.le_refl 0, Nat.le_refl 0⟩, Or.inl rfl⟩
  · exact fresh.1.trans (Nat.zero_mod _).symm
  · exact fresh.2.trans (Nat.zero_mod _).symm

private theorem advanced_some {queue : NVMeQueue} {value next : Nat}
    (ran : queue.advanced value = some next) :
    2 ≤ queue.size ∧ next = (value + 1) % (queue.size - 1) := by
  unfold NVMeQueue.advanced at ran
  split at ran
  · cases ran
  · exact ⟨by omega, (Option.some.inj ran).symm⟩

private theorem counts_issue (counts : Counts pair s) (ran : pair.step s .issue = some s') :
    Counts pair s' := by
  simp only [step] at ran
  split at ran
  · simp only [NVMeQueue.issue, NVMeQueue.currentSubmit, Option.bind_eq_bind,
      Option.bind_eq_some_iff, Option.some.injEq] at ran
    obtain ⟨_, ⟨slot, found, tailValue, advanced, rfl⟩, rfl⟩ := ran
    split at found
    · obtain ⟨several, next⟩ := advanced_some advanced
      rw [counts.size] at several
      rw [counts.size, counts.tailValue, Nat.mod_add_mod] at next
      have appended : s.submitted ++ [(slot, s.queue.tail, tailValue)] =
          accesses pair.queue.submissionBase 64 pair.queue.tail (pair.queue.size - 1)
            (s.submitted.length + 1) := by
        rw [accesses_succ, ← counts.submitted, ← Option.some.inj found, counts.submissionBase,
          counts.tailValue, counts.tail, next]
      refine ⟨counts.size, counts.submissionBase, counts.completionBase, counts.tail, counts.head,
        ?_, counts.headValue, ?_, counts.consumed, ?_, Or.inr several⟩
      · simpa using next
      · simpa using appended
      · have order := counts.order
        simp only [List.length_append, List.length_singleton]
        omega
    · cases found
  · cases ran

private theorem counts_post (counts : Counts pair s) (ran : pair.step s .post = some s') :
    Counts pair s' := by
  simp only [step] at ran
  split at ran
  · rename_i waiting
    obtain rfl := Option.some.inj ran
    exact ⟨counts.size, counts.submissionBase, counts.completionBase, counts.tail, counts.head,
      counts.tailValue, counts.headValue, counts.submitted, counts.consumed,
      ⟨Nat.le_succ_of_le counts.order.1, waiting⟩, counts.advances⟩
  · cases ran

private theorem counts_unissue (counts : Counts pair s) (ran : pair.step s .unissue = some s') :
    Counts pair s' := by
  simp only [step] at ran
  split at ran
  · rename_i waiting
    simp only [NVMeQueue.unissueSilent, NVMeQueue.currentCompletion, Option.bind_eq_bind,
      Option.bind_eq_some_iff, Option.some.injEq] at ran
    obtain ⟨_, ⟨slot, found, headValue, advanced, rfl⟩, rfl⟩ := ran
    split at found
    · obtain ⟨several, next⟩ := advanced_some advanced
      rw [counts.size] at several
      rw [counts.size, counts.headValue, Nat.mod_add_mod] at next
      have appended : s.consumed ++ [(slot, s.queue.head, headValue)] =
          accesses pair.queue.completionBase 16 pair.queue.head (pair.queue.size - 1)
            (s.consumed.length + 1) := by
        rw [accesses_succ, ← counts.consumed, ← Option.some.inj found, counts.completionBase,
          counts.headValue, counts.head, next]
      refine ⟨counts.size, counts.submissionBase, counts.completionBase, counts.tail, counts.head,
        counts.tailValue, ?_, counts.submitted, ?_, ?_, Or.inr several⟩
      · simpa using next
      · simpa using appended
      · have order := counts.order
        simp only [List.length_append, List.length_singleton]
        omega
    · cases found
  · cases ran

private theorem counts_run (fresh : pair.queue.tailValue = 0 ∧ pair.queue.headValue = 0)
    (run : pair.Run s) : Counts pair s := by
  refine run.keeps (counts_start fresh) fun s a s' counts _ ran => ?_
  cases a with
  | issue => exact counts_issue counts ran
  | post => exact counts_post counts ran
  | unissue => exact counts_unissue counts ran

/-! ## The pairs -/

/-- The submission entries that the memory has room for. -/
def room (pair : QueuePair) : Nat :=
  (pair.submissionMemory.endAddress - pair.submission.queue) / 64

/-- What all pairs have in common: the driver counts as many entries as it told the controller
of, and only the first pairs have a completion queue of their own. -/
structure Shape (abar : NVMeBar) (pair : QueuePair) : Prop where
  submissionSize : pair.queue.size = pair.entries
  completionSize : pair.queue.size = pair.completion.queueSize + 1
  submissionBase : pair.queue.submissionBase = pair.submission.queue
  completionBase : pair.queue.completionBase = pair.completion.queue
  tail : pair.queue.tail = abar.tdbl pair.submission.qid
  head : pair.queue.head = abar.hdbl pair.completion.qid
  fresh : pair.queue.tailValue = 0 ∧ pair.queue.headValue = 0
  memory : pair.submissionMemory.base ≤ pair.submission.queue ∧
    pair.submission.queue ≤ pair.submissionMemory.endAddress
  own : pair.submission.cqid = pair.completion.qid ↔ pair.submission.qid ≤ 1

theorem SetUp.shape (setUp : SetUp abar pair) : Shape abar pair := by
  cases setUp with
  | @admin asq acq sqLength cqLength =>
    refine ⟨rfl, rfl, rfl, rfl, rfl, rfl, ⟨rfl, rfl⟩, ⟨Nat.le_refl _, ?_⟩, ?_⟩
    · exact Nat.le_add_right _ _
    · exact iff_of_true rfl (Nat.zero_le 1)
  | @basic mqes memory _ length created =>
    simp only [NVMeController.createBasicIoPairs] at created
    split at created
    · cases created
    · rename_i nonempty
      have size : NVMeController.pairSize mqes = NVMeController.pairSize mqes - 1 + 1 := by omega
      obtain rfl := Option.some.inj created
      refine ⟨size, size, rfl, rfl, rfl, rfl, ⟨rfl, rfl⟩, ⟨Nat.le_add_right _ _, ?_⟩, ?_⟩
      · simp only [NVMeCreationCommand.createIoSubmissionQueue, MemoryBlock.endAddress, length]
        omega
      · exact iff_of_true rfl (Nat.le_refl 1)
  | @another n mqes memory _ later length created =>
    simp only [NVMeController.createIoPair] at created
    split at created
    · cases created
    · rename_i nonempty
      have size : NVMeController.pairSize mqes = NVMeController.pairSize mqes - 1 + 1 := by omega
      obtain rfl := Option.some.inj created
      refine ⟨size, size, rfl, rfl, rfl, rfl, ⟨rfl, rfl⟩, ⟨Nat.le_add_right _ _, ?_⟩, ?_⟩
      · simp only [NVMeCreationCommand.createIoSubmissionQueue, MemoryBlock.endAddress, length]
        omega
      · refine iff_of_false ?_ (by exact Nat.not_le.2 later)
        intro same
        have one : 1 = n := same
        omega

theorem same_slot {size k : Nat} (early : k + 1 < size - 1) :
    k % (size - 1) = k % size ∧ (k + 1) % (size - 1) = (k + 1) % size := by
  constructor
  · rw [Nat.mod_eq_of_lt (by omega), Nat.mod_eq_of_lt (by omega)]
  · rw [Nat.mod_eq_of_lt early, Nat.mod_eq_of_lt (by omega)]

theorem wraps_early {size : Nat} (several : 2 ≤ size) :
    (size - 2 + 1) % (size - 1) ≠ (size - 2 + 1) % size := by
  rw [show size - 2 + 1 = size - 1 by omega, Nat.mod_self, Nat.mod_eq_of_lt (by omega)]
  omega

/-- Driver and controller agree as long as no command goes to the last two slots, the slots are
inside the memory of the queue, and the pair is not a later one. -/
theorem agrees_iff (setUp : SetUp abar pair) (run : pair.Run s) :
    Agrees abar pair s ↔ pair.submission.qid ≤ 1 ∧
      s.submitted.length ≤ min (pair.entries - 2) pair.room := by
  have shape := setUp.shape
  have counts := counts_run shape.fresh run
  have submissionSize := shape.submissionSize
  have memory := shape.memory
  have at_submit : ∀ k < s.submitted.length, s.submitted[k]? =
      some (pair.submission.queue + 64 * (k % (pair.queue.size - 1)),
        abar.tdbl pair.submission.qid, (k + 1) % (pair.queue.size - 1)) := by
    intro k below
    rw [counts.submitted, shape.submissionBase, shape.tail]
    exact getElem?_accesses below
  constructor
  · intro agrees
    refine ⟨shape.own.1 agrees.posted, Nat.le_min.2 ?_⟩
    have early : s.submitted.length ≤ pair.entries - 2 := by
      by_contra late
      rcases counts.advances with none_submitted | several
      · omega
      · -- the first doorbell at the wrap
        have below : pair.queue.size - 2 < s.submitted.length := by omega
        have expected := agrees.submitted _ below
        rw [at_submit _ below, Option.some.injEq, Prod.mk.injEq, Prod.mk.injEq,
          ← submissionSize] at expected
        exact wraps_early several expected.2.2
    refine ⟨early, ?_⟩
    cases count : s.submitted.length with
    | zero => exact Nat.zero_le _
    | succ n =>
      have below : n < s.submitted.length := by omega
      have last := agrees.inside _ (List.mem_of_getElem? (at_submit n below))
      simp only at last
      rw [Nat.mod_eq_of_lt (by omega)] at last
      unfold room
      omega
  · rintro ⟨first, few⟩
    obtain ⟨early, fits⟩ := Nat.le_min.1 few
    have order := counts.order
    refine ⟨?_, ?_, shape.own.2 first, ?_⟩
    · intro k below
      obtain ⟨slot, doorbell⟩ := same_slot (show k + 1 < pair.queue.size - 1 by omega)
      rw [at_submit k below, slot, doorbell, submissionSize]
    · intro access member
      obtain ⟨k, below, found⟩ := List.mem_iff_getElem.1 member
      have here := at_submit k below
      rw [List.getElem?_eq_getElem below, found, Option.some.injEq] at here
      rw [here]
      simp only
      rw [Nat.mod_eq_of_lt (by omega)]
      unfold room at fits
      omega
    · intro k below
      obtain ⟨slot, doorbell⟩ := same_slot (show k + 1 < pair.queue.size - 1 by omega)
      rw [counts.consumed, shape.completionBase, shape.head, getElem?_accesses below,
        slot, doorbell,
        shape.completionSize]

def firstBar : NVMeBar := ⟨0xFEB00000, 0⟩

/-- A first pair with four entries. -/
def smallPair : QueuePair :=
  { queue := .new 0x20000 0x21000 (firstBar.hdbl 1) (firstBar.tdbl 1) 4 (1 <<< 14)
    completion := .createIoCompletionQueue 1 3 0x20000
    submission := .createIoSubmissionQueue 1 1 3 0x21000
    submissionMemory := ⟨0x20000, 0x2000⟩
    completionMemory := ⟨0x20000, 0x2000⟩ }

private theorem smallPair_setUp : SetUp firstBar smallPair :=
  @SetUp.basic _ 4 ⟨0x20000, 0x2000⟩ _ rfl rfl

/-- The accesses of a run of the small pair. -/
def accessesAfter (steps : List PairStep) : Option (List NVMeQueue.Access × List
    NVMeQueue.Access) :=
  (Requests.serveAll smallPair.step (fun _ _ => True) smallPair.start steps).map
    fun s => (s.submitted, s.consumed)

private theorem run_of_accessesAfter {steps : List PairStep}
    {seen : List NVMeQueue.Access × List NVMeQueue.Access}
    (ran : accessesAfter steps = some seen) :
    ∃ s, smallPair.Run s ∧ s.submitted = seen.1 ∧ s.consumed = seen.2 := by
  obtain ⟨s, served, rfl⟩ := Option.map_eq_some_iff.1 ran
  exact ⟨s, Requests.serveAll_run served, rfl, rfl⟩

/-- Two commands with one completion in between. -/
theorem agrees_two : ∃ s, smallPair.Run s ∧ s.submitted.length = 2 ∧ s.consumed.length = 1 ∧
    Agrees firstBar smallPair s := by
  have ran : accessesAfter [.issue, .post, .unissue, .issue] =
      some ([(0x21000, 0xFEB01008, 1), (0x21040, 0xFEB01008, 2)], [(0x20000, 0xFEB0100C, 1)]) := by
    decide
  obtain ⟨s, run, submitted, consumed⟩ := run_of_accessesAfter ran
  refine ⟨s, run, by rw [submitted]; rfl, by rw [consumed]; rfl,
    (agrees_iff smallPair_setUp run).2 ⟨Nat.le_refl 1, ?_⟩⟩
  rw [submitted]
  decide

/-- The third of four slots is followed by the doorbell value 0. -/
theorem wraps_at_three : ∃ s, smallPair.Run s ∧ s.submitted.length = 3 ∧
    ¬Agrees firstBar smallPair s := by
  have ran : accessesAfter [.issue, .issue, .issue] =
      some ([(0x21000, 0xFEB01008, 1), (0x21040, 0xFEB01008, 2), (0x21080, 0xFEB01008, 0)],
        []) := by
    decide
  obtain ⟨s, run, submitted, _⟩ := run_of_accessesAfter ran
  refine ⟨s, run, by rw [submitted]; rfl, fun agrees => ?_⟩
  have third := agrees.submitted 2 (by rw [submitted]; decide)
  rw [submitted] at third
  revert third
  decide

end QueuePair

end EmkKernel
