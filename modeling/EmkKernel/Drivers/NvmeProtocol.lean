import Mathlib.Data.Fintype.Basic
import EmkKernel.Drivers.NvmeCompletion
import EmkKernel.Library.CountedLine
import EmkKernel.Library.WordFields

/-!
# When waiting for NVMe completions is right

The handler does not look at what the controller completed: it takes as many completions from
a queue as cores were counted there, and then lets all of them go on. Every queue is a line
whose answers are only counted, so this is right as long as no store to a shared word drops
another one, every core that is registered was counted when its queue is served, and the
completions were posted when they are taken.
-/

namespace EmkKernel

open CountedLine

/-- A core is registered from its store to `check_queue` on. -/
def NvmeCore.registeredOn (queue : Nat) : NvmeCore → Bool
  | .idle => false
  | .dispatching _ (.loadedCheck _) => false
  | .dispatching other _ => other == queue

/-- A core is counted from its store to `num_outstanding_completions` on. -/
def NvmeCore.countedOn (queue : Nat) : NvmeCore → Bool
  | .idle => false
  | .dispatching _ (.loadedCheck _) => false
  | .dispatching _ .registered => false
  | .dispatching _ (.loadedCount _) => false
  | .dispatching other _ => other == queue

/-- What the handler is going to store to `check_queue`. -/
def NvmeIrq.value? : NvmeIrq → Option (BitVec 8)
  | .idle => none
  | .looking interruptValue _ => some interruptValue
  | .unissuing interruptValue _ _ _ => some interruptValue

namespace NvmeSystem

variable {ι : Type*} [Fintype ι] (s : NvmeSystem ι)

/-- What keeps an access right: no store to a shared word drops another one, the handler does
not clear a bit that was set behind its back, nobody who was let go misses it, and the
controller is told of entries that hold a command, and of every command once. -/
def MeetsAccess (queue : Nat) : DispatchPoint → Prop
  | .loadedCheck checkQueue =>
    checkQueue ||| bit queue = s.checkQueue ||| bit queue ∧
      (∀ interruptValue ∈ s.irq.value?, interruptValue.getLsbD queue = true) ∧
      (s.checkQueue.getLsbD queue = false →
        ∀ other, (s.cores other).registeredOn queue = false)
  | .loadedCount num => nextCount queue num = s.numOutstandingCompletions queue + 1
  | .loadedDoorbell tailValue =>
    (∀ slot ∈ s.toldSlots queue tailValue, (s.entries queue slot).isSome) ∧
      (s.told queue tailValue).Nodup ∧ ∀ command ∈ s.told queue tailValue,
        command ∉ s.submitted queue ∧ command ∉ s.posted queue
  | _ => True

def MeetsCore : NvmeCore → Prop
  | .idle => True
  | .dispatching queue point => s.MeetsAccess queue point

/-- The handler comes to a queue when everybody there is counted, and takes completions that
were posted. -/
def MeetsIrq : NvmeIrq → Prop
  | .idle => True
  | .looking interruptValue i =>
    i < s.numQueuesImplemented → interruptValue.getLsbD i = true →
      ∀ core, (s.cores core).registeredOn i = true → (s.cores core).countedOn i = true
  | .unissuing _ i num k => k < num → s.consumed i < (s.posted i).length

def Meets : NvmeStep ι → Prop
  | .access core => s.MeetsCore (s.cores core)
  | .handle => s.MeetsIrq s.irq
  | _ => True

section Decidable

variable [DecidableEq ι]

instance (queue : Nat) : (point : DispatchPoint) → Decidable (s.MeetsAccess queue point)
  | .loadedCheck checkQueue => inferInstanceAs (Decidable (
    checkQueue ||| bit queue = s.checkQueue ||| bit queue ∧
      (∀ interruptValue ∈ s.irq.value?, interruptValue.getLsbD queue = true) ∧
      (s.checkQueue.getLsbD queue = false →
        ∀ other, (s.cores other).registeredOn queue = false)))
  | .loadedCount num => inferInstanceAs (Decidable (
    nextCount queue num = s.numOutstandingCompletions queue + 1))
  | .loadedDoorbell tailValue => inferInstanceAs (Decidable (
    (∀ slot ∈ s.toldSlots queue tailValue, (s.entries queue slot).isSome) ∧
      (s.told queue tailValue).Nodup ∧ ∀ command ∈ s.told queue tailValue,
        command ∉ s.submitted queue ∧ command ∉ s.posted queue))
  | .registered | .counted | .loadedSlot _ | .written | .loadedTail _ | .advanced | .waiting =>
    inferInstanceAs (Decidable True)

instance : (core : NvmeCore) → Decidable (s.MeetsCore core)
  | .idle => inferInstanceAs (Decidable True)
  | .dispatching queue point => inferInstanceAs (Decidable (s.MeetsAccess queue point))

instance : (irq : NvmeIrq) → Decidable (s.MeetsIrq irq)
  | .idle => inferInstanceAs (Decidable True)
  | .looking interruptValue i => inferInstanceAs (Decidable (
    i < s.numQueuesImplemented → interruptValue.getLsbD i = true →
      ∀ core, (s.cores core).registeredOn i = true → (s.cores core).countedOn i = true))
  | .unissuing _ i num k => inferInstanceAs (Decidable (
    k < num → s.consumed i < (s.posted i).length))

instance : (a : NvmeStep ι) → Decidable (s.Meets a)
  | .access core => inferInstanceAs (Decidable (s.MeetsCore (s.cores core)))
  | .handle => inferInstanceAs (Decidable (s.MeetsIrq s.irq))
  | .call _ _ | .post _ _ | .deliver => inferInstanceAs (Decidable True)

end Decidable

/-- What cores and controller rely on. -/
structure Completes : Prop where
  returned : ∀ queue command, (queue, command) ∈ s.returned →
    command ∈ (s.posted queue).take (s.consumed queue)
  once : ∀ queue, (s.posted queue).Nodup ∧ s.consumed queue ≤ (s.posted queue).length
  rest : s.irq = .idle → s.interrupt = false →
    ∀ queue, s.consumed queue = (s.posted queue).length
  woken : ∀ core queue, s.cores core = .dispatching queue .waiting →
    (core, s.calls core) ∈ (s.posted queue).take (s.consumed queue) →
      s.checkQueue.getLsbD queue = false ∨
        ∃ interruptValue ∈ s.irq.value?, interruptValue.getLsbD queue = false

/-! ## The queues as lines -/

def registered (cores : ι → NvmeCore) (queue : Nat) : Finset ι :=
  Finset.univ.filter fun core => (cores core).registeredOn queue = true

def counted (cores : ι → NvmeCore) (queue : Nat) : Finset ι :=
  Finset.univ.filter fun core => (cores core).countedOn queue = true

/-- Whoever registers at the queue now is seen by the handler. -/
def isOpen (queue : Nat) : Bool :=
  match s.irq with
  | .idle => s.checkQueue.getLsbD queue
  | .looking interruptValue _ => interruptValue.getLsbD queue
  | .unissuing interruptValue i _ _ => interruptValue.getLsbD queue || i == queue

/-- Where the completions begin that are taken now. -/
def base (queue : Nat) : Nat :=
  match s.irq with
  | .unissuing _ i _ k => if i = queue then s.consumed queue - k else s.consumed queue
  | _ => s.consumed queue

def line (queue : Nat) : Line ι where
  registered := registered s.cores queue
  counted := counted s.cores queue
  left := s.calls
  outstanding := s.numOutstandingCompletions queue
  isOpen := s.isOpen queue
  written := { request | ∃ slot, s.entries queue slot = some request }
  submitted := s.submitted queue
  posted := s.posted queue
  base := s.base queue
  consumed := s.consumed queue

/-- How far the handler is. The queues before the one it looks at are done, and while it takes
completions nobody else comes to that one. -/
def Serves : NvmeIrq → Prop
  | .idle => True
  | .looking interruptValue i =>
    (∀ queue, interruptValue.getLsbD queue = true → s.checkQueue.getLsbD queue = true) ∧
      ∀ queue < i, interruptValue.getLsbD queue = false
  | .unissuing interruptValue i num k =>
    (∀ queue, interruptValue.getLsbD queue = true → s.checkQueue.getLsbD queue = true) ∧
      (∀ queue ≤ i, interruptValue.getLsbD queue = false) ∧
      s.checkQueue.getLsbD i = true ∧ num = s.numOutstandingCompletions i ∧ k ≤ num ∧
      k ≤ s.consumed i ∧ registered s.cores i ⊆ counted s.cores i

/-- What was posted and not taken is going to be taken: an interrupt is pending, or the handler
is still to come to the queue. -/
def Awake (queue : Nat) : Prop :=
  (s.line queue).consumed = (s.line queue).posted.length ∨ s.interrupt = true ∨
    s.irq ≠ .idle ∧ (s.line queue).isOpen = true

/-- The invariant of the runs that meet the conditions. -/
structure Inv : Prop where
  books : ∀ queue, (s.line queue).Books
  serves : s.Serves s.irq
  bits : ∀ queue, s.checkQueue.getLsbD queue = true → queue < s.numQueuesImplemented
  awake : ∀ queue, s.Awake queue
  returned : ∀ queue command, (queue, command) ∈ s.returned →
    command ∈ (s.line queue).answered
  there : ∀ core queue point, s.cores core = .dispatching queue point →
    queue < s.numQueuesImplemented ∧ queue < 8

variable {s} {s' : NvmeSystem ι} {core : ι} {queue : Nat}

/-- A step that changes one line. -/
theorem Inv.of_here (inv : s.Inv) (here : (s'.line queue).Books) (awake : s'.Awake queue)
    (grows : (s.line queue).answered ⊆ (s'.line queue).answered)
    (elsewhere : ∀ other, other ≠ queue → s'.line other = s.line other)
    (returned : s'.returned = s.returned) (interrupt : s.interrupt = true → s'.interrupt = true)
    (irq : s.irq ≠ .idle → s'.irq ≠ .idle) (serves : s'.Serves s'.irq)
    (bits : ∀ other, s'.checkQueue.getLsbD other = true → other < s'.numQueuesImplemented)
    (there : ∀ core other point, s'.cores core = .dispatching other point →
      other < s'.numQueuesImplemented ∧ other < 8) : s'.Inv := by
  refine ⟨fun other => ?_, serves, bits, fun other => ?_, fun other command member => ?_, there⟩
  · by_cases same : other = queue
    · exact same ▸ here
    · exact elsewhere other same ▸ inv.books other
  · by_cases same : other = queue
    · exact same ▸ awake
    · rw [Awake, elsewhere other same]
      exact (inv.awake other).imp_right (Or.imp interrupt (And.imp_left irq))
  · have earlier := inv.returned other command (returned ▸ member)
    by_cases same : other = queue
    · subst same
      exact grows earlier
    · rw [elsewhere other same]
      exact earlier

private theorem getLsbD_bit (small : queue < 8) (other : Nat) :
    (bit queue).getLsbD other = (other == queue) := by
  by_cases inside : other < 8
  · rw [bit, WordFields.getLsbD_one_shift inside]
    rfl
  · have apart : other ≠ queue := by omega
    rw [BitVec.getLsbD_of_ge _ _ (Nat.le_of_not_lt inside), beq_eq_false_iff_ne.2 apart]

theorem getLsbD_or_bit (word : BitVec 8) (small : queue < 8) (other : Nat) :
    (word ||| bit queue).getLsbD other = (word.getLsbD other || other == queue) := by
  rw [BitVec.getLsbD_or, getLsbD_bit small]

theorem getLsbD_xor_bit (word : BitVec 8) (small : queue < 8) (other : Nat) :
    (word ^^^ bit queue).getLsbD other = (word.getLsbD other ^^ other == queue) := by
  rw [BitVec.getLsbD_xor, getLsbD_bit small]

/-- What the handler relies on does not depend on the other queues. -/
theorem Serves.keep {s' : NvmeSystem ι} {irq : NvmeIrq} (serves : s.Serves irq)
    (bits : ∀ queue, s.checkQueue.getLsbD queue = true → s'.checkQueue.getLsbD queue = true)
    (same : ∀ interruptValue i num k, irq = .unissuing interruptValue i num k →
      s'.numOutstandingCompletions i = s.numOutstandingCompletions i ∧
      s'.consumed i = s.consumed i ∧ registered s'.cores i ⊆ counted s'.cores i) :
    s'.Serves irq := by
  cases irq with
  | idle => trivial
  | looking interruptValue i =>
    obtain ⟨inside, done⟩ := serves
    exact ⟨fun queue set => bits queue (inside queue set), done⟩
  | unissuing interruptValue i num k =>
    obtain ⟨inside, done, this, bound, most, taken, -⟩ := serves
    obtain ⟨outstanding, consumed, all⟩ := same interruptValue i num k rfl
    exact ⟨fun queue set => bits queue (inside queue set), done, bits i this,
      bound.trans outstanding.symm, most, consumed.symm ▸ taken, all⟩

/-- While the handler takes completions, everybody who is registered is counted. -/
theorem Inv.all_counted {interruptValue : BitVec 8} {i num k : Nat} (inv : s.Inv)
    (handler : s.irq = .unissuing interruptValue i num k) :
    registered s.cores i ⊆ counted s.cores i := by
  have serves := inv.serves
  rw [handler] at serves
  exact serves.2.2.2.2.2.2

theorem mem_registered {cores : ι → NvmeCore} :
    core ∈ registered cores queue ↔ (cores core).registeredOn queue = true := by
  simp [registered]

theorem mem_counted {cores : ι → NvmeCore} :
    core ∈ counted cores queue ↔ (cores core).countedOn queue = true := by
  simp [counted]

variable [DecidableEq ι]

/-- What changes when one core goes on. -/
theorem filter_update (holds : NvmeCore → Bool) (cores : ι → NvmeCore) (next : NvmeCore) :
    (Finset.univ.filter fun other => holds (Function.update cores core next other) = true) =
      if holds next = true
      then insert core (Finset.univ.filter fun other => holds (cores other) = true)
      else (Finset.univ.filter fun other => holds (cores other) = true).erase core := by
  ext other
  by_cases same : other = core
  · subst same
    cases now : holds next <;> simp [now]
  · cases now : holds next <;> simp [same]

theorem filter_same {holds : NvmeCore → Bool} {cores : ι → NvmeCore} {next : NvmeCore}
    (same : holds next = holds (cores core)) :
    (Finset.univ.filter fun other => holds (Function.update cores core next other) = true) =
      Finset.univ.filter fun other => holds (cores other) = true := by
  rw [filter_update, same]
  split
  · rename_i holding
    exact Finset.insert_eq_of_mem (Finset.mem_filter.2 ⟨Finset.mem_univ core, holding⟩)
  · rename_i not_holding
    exact Finset.erase_eq_of_notMem fun member => not_holding (Finset.mem_filter.1 member).2

omit [Fintype ι] in
theorem there_update {holds : Nat → Prop} {cores : ι → NvmeCore} {next : NvmeCore}
    (there : ∀ core queue point, cores core = .dispatching queue point → holds queue)
    (now : ∀ queue point, next = .dispatching queue point → holds queue) :
    ∀ other queue point,
      Function.update cores core next other = .dispatching queue point → holds queue := by
  intro other queue point found
  by_cases same : other = core
  · subst same
    exact now queue point ((Function.update_self other next cores).symm.trans found)
  · exact there other queue point ((Function.update_of_ne same next cores).symm.trans found)

end NvmeSystem

end EmkKernel
