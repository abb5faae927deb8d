import EmkKernel.Drivers.NvmeProtocol

/-!
# What the cores keep

Registering, counting, writing the entry, the doorbell and the return of a core change one
line each; the other accesses change none.
-/

namespace EmkKernel

open CountedLine

namespace NvmeSystem

variable {ι : Type*} [DecidableEq ι] [Fintype ι] {s s' : NvmeSystem ι} {core : ι} {queue : Nat}

/-- An access that changes neither what a core is registered for nor anything that the others
see. -/
theorem inv_move {next : NvmeCore} {queues : Nat → NVMeQueue} (inv : s.Inv)
    (registers : ∀ queue, next.registeredOn queue = (s.cores core).registeredOn queue)
    (counts : ∀ queue, next.countedOn queue = (s.cores core).countedOn queue)
    (there : ∀ queue point, next = .dispatching queue point →
      queue < s.numQueuesImplemented ∧ queue < 8) :
    Inv { s with cores := Function.update s.cores core next, queues := queues } := by
  have registered_eq : ∀ queue, registered (Function.update s.cores core next) queue =
      registered s.cores queue := fun queue => filter_same (registers queue)
  have counted_eq : ∀ queue, counted (Function.update s.cores core next) queue =
      counted s.cores queue := fun queue => filter_same (counts queue)
  have line_eq : ∀ queue, line { s with
      cores := Function.update s.cores core next, queues := queues } queue = s.line queue := by
    intro queue
    simp only [line, registered_eq, counted_eq]
    rfl
  refine ⟨fun queue => ?_, ?_, inv.bits, fun queue => ?_, fun queue => ?_, ?_⟩
  · rw [line_eq]
    exact inv.books queue
  · refine inv.serves.keep (fun _ => id) fun interruptValue i num k handler => ⟨rfl, rfl, ?_⟩
    simp only [registered_eq, counted_eq]
    exact inv.all_counted handler
  · rw [Awake, line_eq]
    exact inv.awake queue
  · rw [line_eq]
    exact inv.returned queue
  · exact there_update inv.there there

theorem inv_call (inv : s.Inv) (ran : s.call core queue = some s') : s'.Inv := by
  unfold call at ran
  split at ran
  · rename_i free
    obtain ⟨idle, there⟩ := free
    obtain rfl := Option.some.inj ran
    refine inv_move inv ?_ ?_ ?_
    · intro other
      rw [idle]
      rfl
    · intro other
      rw [idle]
      rfl
    · rintro _ _ ⟨⟩
      exact there
  · cases ran

theorem inv_register {checkQueue : BitVec 8} (inv : s.Inv)
    (found : s.cores core = .dispatching queue (.loadedCheck checkQueue))
    (current : checkQueue ||| bit queue = s.checkQueue ||| bit queue)
    (keeps : ∀ interruptValue ∈ s.irq.value?, interruptValue.getLsbD queue = true)
    (alone : s.checkQueue.getLsbD queue = false →
      ∀ other, (s.cores other).registeredOn queue = false) :
    Inv { s.move core queue .registered with checkQueue := checkQueue ||| bit queue } := by
  obtain ⟨below, small⟩ := inv.there core queue _ found
  rw [current]
  let s' : NvmeSystem ι :=
    { s.move core queue .registered with checkQueue := s.checkQueue ||| bit queue }
  have bits : ∀ other, s'.checkQueue.getLsbD other =
      (s.checkQueue.getLsbD other || other == queue) := getLsbD_or_bit _ small
  have counted_eq : ∀ other, counted s'.cores other = counted s.cores other := by
    refine fun other => filter_same ?_
    rw [found]
    rfl
  have open_here : s'.isOpen queue = true := by
    cases handler : s.irq with
    | idle =>
      simp only [isOpen, s', move, handler]
      exact (bits queue).trans (by simp)
    | looking interruptValue i =>
      simp only [isOpen, s', move, handler]
      exact keeps interruptValue (by rw [handler]; rfl)
    | unissuing interruptValue i num k =>
      simp only [isOpen, s', move, handler]
      rw [keeps interruptValue (by rw [handler]; rfl), Bool.true_or]
  have here : s'.line queue = (s.line queue).register core := by
    have joins : registered s'.cores queue = insert core (registered s.cores queue) := by
      refine (filter_update _ _ _).trans (if_pos ?_)
      simp [NvmeCore.registeredOn]
    simp only [line, Line.register, joins, counted_eq, open_here]
    rfl
  have registered_other : ∀ other, other ≠ queue →
      registered s'.cores other = registered s.cores other := by
    intro other apart
    refine filter_same ?_
    rw [found]
    simp [NvmeCore.registeredOn, apart.symm]
  have elsewhere : ∀ other, other ≠ queue → s'.line other = s.line other := by
    intro other apart
    have open_same : s'.isOpen other = s.isOpen other := by
      have bit_same : s'.checkQueue.getLsbD other = s.checkQueue.getLsbD other := by
        rw [bits, beq_eq_false_iff_ne.2 apart, Bool.or_false]
      unfold isOpen
      rw [bit_same]
      rfl
    simp only [line, registered_other other apart, counted_eq, open_same]
    rfl
  have absent : core ∉ (s.line queue).registered := by
    rw [line, mem_registered, found]
    exact Bool.noConfusion
  have nobody : (s.line queue).isOpen = false → (s.line queue).registered = ∅ := by
    intro closed
    -- the handler is not at work, and the bit is clear
    have clear : s.checkQueue.getLsbD queue = false := by
      cases handler : s.irq with
      | idle =>
        simpa only [line, isOpen, handler] using closed
      | looking interruptValue i =>
        have set := keeps interruptValue (by rw [handler]; rfl)
        simp [line, isOpen, handler, set] at closed
      | unissuing interruptValue i num k =>
        have set := keeps interruptValue (by rw [handler]; rfl)
        simp [line, isOpen, handler, set] at closed
    refine Finset.eq_empty_of_forall_notMem fun other member => ?_
    rw [line, mem_registered] at member
    exact absurd (member.symm.trans (alone clear other)) Bool.noConfusion
  have books : (s'.line queue).Books := here ▸ (inv.books queue).register absent nobody
  show s'.Inv
  refine inv.of_here books ?_ ?_ elsewhere rfl id id ?_ ?_ (there_update inv.there ?_)
  · rw [Awake, here]
    exact (inv.awake queue).imp_right (Or.imp_right (And.imp_right fun _ => rfl))
  · rw [here]
    exact List.Subset.refl _
  · refine inv.serves.keep (fun other set => ?_) fun interruptValue i num k handler =>
      ⟨rfl, rfl, ?_⟩
    · rw [bits, set, Bool.true_or]
    · have serves := inv.serves
      rw [handler] at serves
      have apart : i ≠ queue := by
        rintro rfl
        have set := keeps interruptValue (by rw [handler]; rfl)
        exact absurd (set.symm.trans (serves.2.1 i (Nat.le_refl i))) Bool.noConfusion
      rw [registered_other i apart, counted_eq]
      exact inv.all_counted handler
  · intro other set
    rw [bits, Bool.or_eq_true, beq_iff_eq] at set
    rcases set with earlier | rfl
    · exact inv.bits other earlier
    · exact below
  · rintro _ _ ⟨⟩
    exact ⟨below, small⟩

theorem inv_count {num : Nat} (inv : s.Inv)
    (found : s.cores core = .dispatching queue (.loadedCount num))
    (current : nextCount queue num = s.numOutstandingCompletions queue + 1) :
    Inv { s.move core queue .counted with
      numOutstandingCompletions :=
        Function.update s.numOutstandingCompletions queue (nextCount queue num) } := by
  rw [current]
  let s' : NvmeSystem ι := { s.move core queue .counted with
    numOutstandingCompletions := Function.update s.numOutstandingCompletions queue
      (s.numOutstandingCompletions queue + 1) }
  have registered_eq : ∀ other, registered s'.cores other = registered s.cores other := by
    refine fun other => filter_same ?_
    rw [found]
    rfl
  have counted_other : ∀ other, other ≠ queue →
      counted s'.cores other = counted s.cores other := by
    intro other apart
    refine filter_same ?_
    rw [found]
    simp [NvmeCore.countedOn, apart.symm]
  have member : core ∈ registered s.cores queue := by
    rw [mem_registered, found]
    simp [NvmeCore.registeredOn]
  have absent : core ∉ counted s.cores queue := by
    rw [mem_counted, found]
    exact Bool.noConfusion
  have here : s'.line queue = (s.line queue).count core := by
    have joins : counted s'.cores queue = insert core (counted s.cores queue) := by
      refine (filter_update _ _ _).trans (if_pos ?_)
      simp [NvmeCore.countedOn]
    simp only [line, Line.count, joins, registered_eq]
    simp only [s', Function.update_self]
    rfl
  have elsewhere : ∀ other, other ≠ queue → s'.line other = s.line other := by
    intro other apart
    simp only [line, registered_eq, counted_other other apart]
    simp only [s', Function.update_of_ne apart]
    rfl
  have books : (s'.line queue).Books := here ▸ (inv.books queue).count member absent
  show s'.Inv
  refine inv.of_here books ?_ ?_ elsewhere rfl id id ?_ inv.bits (there_update inv.there ?_)
  · rw [Awake, here]
    exact inv.awake queue
  · rw [here]
    exact List.Subset.refl _
  · refine inv.serves.keep (fun _ => id) fun interruptValue i num k handler => ?_
    -- the handler only takes completions where nobody is left to be counted
    have all := inv.all_counted handler
    have apart : i ≠ queue := by
      rintro rfl
      exact absent (all member)
    refine ⟨Function.update_of_ne apart _ _, rfl, ?_⟩
    rw [registered_eq, counted_other i apart]
    exact all
  · rintro _ _ ⟨⟩
    exact inv.there core queue _ found

theorem sets_same {point : DispatchPoint} (next : DispatchPoint)
    (found : s.cores core = .dispatching queue point)
    (before : ∀ other,
      (NvmeCore.dispatching queue point).registeredOn other = (queue == other) ∧
      (NvmeCore.dispatching queue point).countedOn other = (queue == other))
    (after : ∀ other,
      (NvmeCore.dispatching queue next).registeredOn other = (queue == other) ∧
      (NvmeCore.dispatching queue next).countedOn other = (queue == other)) (other : Nat) :
    registered (s.move core queue next).cores other = registered s.cores other ∧
      counted (s.move core queue next).cores other = counted s.cores other := by
  constructor
  · refine filter_same ?_
    rw [found, (before other).1]
    exact (after other).1
  · refine filter_same ?_
    rw [found, (before other).2]
    exact (after other).2

theorem inv_write {tailValue : Nat} (inv : s.Inv)
    (found : s.cores core = .dispatching queue (.loadedSlot tailValue)) :
    Inv { s.move core queue .written with
      entries := Function.update s.entries queue
        (Function.update (s.entries queue) tailValue (some (core, s.calls core))) } := by
  let s' : NvmeSystem ι := { s.move core queue .written with
    entries := Function.update s.entries queue
      (Function.update (s.entries queue) tailValue (some (core, s.calls core))) }
  have sets := sets_same .written found (fun _ => ⟨rfl, rfl⟩) (fun _ => ⟨rfl, rfl⟩)
  have counts : core ∈ (s.line queue).counted := by
    rw [line, mem_counted, found]
    simp [NvmeCore.countedOn]
  have here : s'.line queue = { s.line queue with
      written := { request | ∃ slot, s'.entries queue slot = some request } } := by
    simp only [line, s', sets]
    rfl
  have elsewhere : ∀ other, other ≠ queue → s'.line other = s.line other := by
    intro other apart
    simp only [line, s', sets, Function.update_of_ne apart]
    rfl
  have wrote : { request | ∃ slot, s'.entries queue slot = some request } ⊆
      insert ((s.line queue).request core) (s.line queue).written := by
    rintro request ⟨slot, entry⟩
    simp only [s', Function.update_self] at entry
    by_cases same : slot = tailValue
    · subst same
      rw [Function.update_self] at entry
      exact Or.inl (Option.some.inj entry).symm
    · rw [Function.update_of_ne same] at entry
      exact Or.inr ⟨slot, entry⟩
  have books : (s'.line queue).Books := here ▸ (inv.books queue).write counts wrote
  show s'.Inv
  refine inv.of_here books ?_ ?_ elsewhere rfl id id ?_ inv.bits (there_update inv.there ?_)
  · rw [Awake, here]
    exact inv.awake queue
  · rw [here]
    exact List.Subset.refl _
  · refine inv.serves.keep (fun _ => id) fun interruptValue i num k handler => ⟨rfl, rfl, ?_⟩
    simp only [s', sets]
    exact inv.all_counted handler
  · rintro _ _ ⟨⟩
    exact inv.there core queue _ found

theorem inv_doorbell {tailValue : Nat} (inv : s.Inv)
    (found : s.cores core = .dispatching queue (.loadedDoorbell tailValue))
    (nodup : (s.told queue tailValue).Nodup)
    (new : ∀ command ∈ s.told queue tailValue,
      command ∉ s.submitted queue ∧ command ∉ s.posted queue) :
    Inv { s.move core queue .waiting with
      doorbells := Function.update s.doorbells queue tailValue
      submitted := Function.update s.submitted queue
        (s.submitted queue ++ s.told queue tailValue) } := by
  let s' : NvmeSystem ι := { s.move core queue .waiting with
    doorbells := Function.update s.doorbells queue tailValue
    submitted := Function.update s.submitted queue
      (s.submitted queue ++ s.told queue tailValue) }
  have sets := sets_same .waiting found (fun _ => ⟨rfl, rfl⟩) (fun _ => ⟨rfl, rfl⟩)
  have here : s'.line queue = (s.line queue).submit (s.told queue tailValue) := by
    simp only [line, Line.submit, s', sets, Function.update_self]
    rfl
  have elsewhere : ∀ other, other ≠ queue → s'.line other = s.line other := by
    intro other apart
    simp only [line, s', sets, Function.update_of_ne apart]
    rfl
  have wrote : ∀ command ∈ s.told queue tailValue, command ∈ (s.line queue).written := by
    intro command member
    obtain ⟨slot, -, entry⟩ := List.mem_filterMap.1 member
    exact ⟨slot, entry⟩
  have books : (s'.line queue).Books := here ▸ (inv.books queue).submit wrote nodup new
  show s'.Inv
  refine inv.of_here books ?_ ?_ elsewhere rfl id id ?_ inv.bits (there_update inv.there ?_)
  · rw [Awake, here]
    exact inv.awake queue
  · rw [here]
    exact List.Subset.refl _
  · refine inv.serves.keep (fun _ => id) fun interruptValue i num k handler => ⟨rfl, rfl, ?_⟩
    simp only [s', sets]
    exact inv.all_counted handler
  · rintro _ _ ⟨⟩
    exact inv.there core queue _ found

/-- A core that sees the bit cleared returns, with its completion taken. -/
theorem inv_leave (inv : s.Inv) (found : s.cores core = .dispatching queue .waiting)
    (clear : s.checkQueue.getLsbD queue = false) :
    Inv { s with
      cores := Function.update s.cores core .idle
      calls := Function.update s.calls core (s.calls core + 1)
      returned := s.returned ++ [(queue, core, s.calls core)] } := by
  let s' : NvmeSystem ι := { s with
    cores := Function.update s.cores core .idle
    calls := Function.update s.calls core (s.calls core + 1)
    returned := s.returned ++ [(queue, core, s.calls core)] }
  have registered_eq : ∀ other, registered s'.cores other =
      (registered s.cores other).erase core := fun other =>
    (filter_update _ _ _).trans (if_neg (by simp [NvmeCore.registeredOn]))
  have counted_eq : ∀ other, counted s'.cores other = (counted s.cores other).erase core :=
    fun other => (filter_update _ _ _).trans (if_neg (by simp [NvmeCore.countedOn]))
  have lines : ∀ other, s'.line other = (s.line other).leave core := by
    intro other
    simp only [line, Line.leave, registered_eq, counted_eq]
    rfl
  -- the handler takes what it does not clear, and nothing else is open
  have closed : (s.line queue).isOpen = false := by
    have serves := inv.serves
    have inside : ∀ word : BitVec 8, (∀ other, word.getLsbD other = true →
        s.checkQueue.getLsbD other = true) → word.getLsbD queue = false := by
      intro word subset
      by_contra set
      exact absurd (clear.symm.trans (subset queue (Bool.eq_true_of_not_eq_false set)))
        Bool.noConfusion
    cases handler : s.irq with
    | idle => simpa only [line, isOpen, handler] using clear
    | looking interruptValue i =>
      rw [handler] at serves
      simpa only [line, isOpen, handler] using inside interruptValue serves.1
    | unissuing interruptValue i num k =>
      rw [handler] at serves
      obtain ⟨subset, -, this, -⟩ := serves
      have apart : i ≠ queue := by
        rintro rfl
        exact absurd (clear.symm.trans this) Bool.noConfusion
      simp only [line, isOpen, handler, inside interruptValue subset, Bool.false_or]
      exact beq_eq_false_iff_ne.2 apart
  have member : core ∈ (s.line queue).registered := by
    rw [line, mem_registered, found]
    simp [NvmeCore.registeredOn]
  have only_here : ∀ other, core ∈ (s.line other).registered → other = queue := by
    intro other there
    rw [line, mem_registered, found] at there
    exact (beq_iff_eq.1 there).symm
  show s'.Inv
  refine ⟨fun other => ?_, ?_, inv.bits, fun other => ?_, fun other command returned => ?_, ?_⟩
  · rw [lines]
    exact (inv.books other).leave fun there => only_here other there ▸ closed
  · refine inv.serves.keep (fun _ => id) fun interruptValue i num k handler => ⟨rfl, rfl, ?_⟩
    rw [registered_eq, counted_eq]
    exact Finset.erase_subset_erase core (inv.all_counted handler)
  · rw [Awake, lines]
    exact inv.awake other
  · rw [lines]
    rcases List.mem_append.1 returned with earlier | now
    · exact inv.returned other command earlier
    · obtain ⟨rfl, rfl⟩ := Prod.mk.inj (List.mem_singleton.1 now)
      exact (inv.books other).done closed core member
  · refine there_update inv.there ?_
    rintro _ _ ⟨⟩

theorem inv_access (inv : s.Inv) (meets : s.Meets (.access core))
    (ran : s.access core = some s') : s'.Inv := by
  unfold access at ran
  cases found : s.cores core with
  | idle =>
    rw [found] at ran
    cases ran
  | dispatching queue point =>
    have meets : s.MeetsCore (.dispatching queue point) := found ▸ meets
    rw [found] at ran
    have there := inv.there core queue point found
    have here : ∀ next other (point : DispatchPoint),
        NvmeCore.dispatching queue next = .dispatching other point →
          other < s.numQueuesImplemented ∧ other < 8 := by
      rintro _ _ _ ⟨⟩
      exact there
    cases point with
    | loadedCheck checkQueue =>
      obtain rfl := Option.some.inj ran
      exact inv_register inv found meets.1 meets.2.1 meets.2.2
    | registered =>
      obtain rfl := Option.some.inj ran
      exact inv_move inv (fun _ => by rw [found]; rfl) (fun _ => by rw [found]; rfl) (here _)
    | loadedCount num =>
      simp only [dispatch] at ran
      split at ran
      · obtain rfl := Option.some.inj ran
        exact inv_count inv found meets
      · cases ran
    | counted =>
      obtain rfl := Option.some.inj ran
      exact inv_move inv (fun _ => by rw [found]; rfl) (fun _ => by rw [found]; rfl) (here _)
    | loadedSlot tailValue =>
      simp only [dispatch] at ran
      split at ran
      · obtain rfl := Option.some.inj ran
        exact inv_write inv found
      · cases ran
    | written =>
      obtain rfl := Option.some.inj ran
      exact inv_move inv (fun _ => by rw [found]; rfl) (fun _ => by rw [found]; rfl) (here _)
    | loadedTail tailValue =>
      obtain ⟨next, -, rfl⟩ := Option.map_eq_some_iff.1 ran
      exact inv_move inv (fun _ => by rw [found]; rfl) (fun _ => by rw [found]; rfl) (here _)
    | advanced =>
      obtain rfl := Option.some.inj ran
      exact inv_move inv (fun _ => by rw [found]; rfl) (fun _ => by rw [found]; rfl) (here _)
    | loadedDoorbell tailValue =>
      obtain rfl := Option.some.inj ran
      exact inv_doorbell inv found meets.2.1 meets.2.2
    | waiting =>
      simp only [dispatch] at ran
      split at ran
      · obtain rfl := Option.some.inj ran
        exact inv
      · rename_i clear
        obtain rfl := Option.some.inj ran
        refine inv_leave inv found ?_
        exact (WordFields.and_one_shift_eq_zero_iff _ there.2).1 (not_not.1 clear)

end NvmeSystem

end EmkKernel
