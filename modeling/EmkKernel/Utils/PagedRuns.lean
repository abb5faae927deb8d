import EmkKernel.Utils.PagedGrowth
import EmkKernel.Library.Requests

/-!
# Arrays at work

Pushes and reads of a `PageAllocator`, a `DynamicAllocator` and the `List` made of one, in any
order. The checks of `as_ref` and `ref_const` let the index behind the last value pass.
-/

namespace EmkKernel

open EStateM IoMachine

/-- The three types. -/
inductive PagedVector where
  | page (a : PagedArray)
  | dynamic (a : PagedArray)
  | list (l : PagedList)

namespace PagedVector

variable {size : Nat}

def length : PagedVector → Nat
  | .page a => a.allocated
  | .dynamic a => a.allocated
  | .list l => l.entries

def ptr : PagedVector → Nat
  | .page a => a.ptr
  | .dynamic a => a.ptr
  | .list l => l.ptr

def memory : PagedVector → MemoryBlock
  | .page a => a.memory
  | .dynamic a => a.memory
  | .list l => l.memory

/-- The values there is room for, which a list does not record. -/
def capacity : PagedVector → Nat
  | .page a => a.capacity
  | .dynamic a => a.capacity
  | .list l => l.entries

/-- Only a `DynamicAllocator` grows and becomes a list. -/
def growing : PagedVector → Bool
  | .page _ => false
  | .dynamic _ => true
  | .list _ => false

/-- `as_ref` and `ref_const`. -/
def ref (size index : Nat) : PagedVector → Option Nat
  | .page a => a.asRef size index
  | .dynamic a => a.refConst size index
  | .list l => l.refConst size index

/-- `push_back`, and whether the value was taken. There is none for a list. -/
def pushBack (data : ValueBytes size) : PagedVector → Option (IoM (Bool × PagedVector))
  | .page a => some do
    let (taken, a) ← a.pushBackFixed data
    pure (taken, .page a)
  | .dynamic a => some do
    let (error, a) ← a.pushBackGrowing data
    pure (error.isNone, .dynamic a)
  | .list _ => none

/-- The pages of an array that grows are no more than a growth takes. -/
def Ample (size : Nat) : PagedVector → Prop
  | .page _ => True
  | .dynamic a => PagedArray.Ample size a
  | .list _ => True

/-- The fields as those of an array. -/
def array (v : PagedVector) : PagedArray := ⟨v.memory, v.ptr, v.length, v.capacity⟩

end PagedVector

/-- What is done with an array, and the machine that something else left. -/
inductive VectorRequest (size : Nat) where
  | push (data : ValueBytes size)
  | read (index : Nat)
  | toList
  | elsewhere (machine : IoMachine)

/-- An array at work, with the values that were taken and, for each read, the value it gave and
the one that was pushed. -/
structure VectorRun (size : Nat) where
  machine : IoMachine
  vector : PagedVector
  pushed : List (ValueBytes size)
  answers : List (Option (ValueBytes size) × Option (ValueBytes size))

namespace VectorRun

variable {size : Nat}

def start (vector : PagedVector) (machine : IoMachine) : VectorRun size :=
  ⟨machine, vector, [], []⟩

/-- What a read gives. -/
def value (s : VectorRun size) (index : Nat) : Option (ValueBytes size) :=
  (s.vector.ref size index).map (valueAt size s.machine.memory)

def serve (s : VectorRun size) : VectorRequest size → Option (VectorRun size)
  | .push data =>
    (s.vector.pushBack data).bind fun push =>
      match push s.machine with
      | .ok (taken, vector) machine =>
        some { s with
          machine
          vector
          pushed := if taken then s.pushed ++ [data] else s.pushed }
      | .error _ _ => none
  | .read index => some { s with answers := s.answers ++ [(s.value index, s.pushed[index]?)] }
  | .toList =>
    match s.vector with
    | .dynamic a => some { s with vector := .list a.toList }
    | .page _ => none
    | .list _ => none
  | .elsewhere machine => some { s with machine }

/-- A null pointer is passed exactly behind the last value. -/
def NullChecked (s : VectorRun size) (index : Nat) : Prop :=
  (index < s.vector.length → s.vector.array.address size index ≠ 0) ∧
    (index = s.vector.length → s.vector.array.address size index = 0)

/-- The index behind the last value passes every check; `as_ref` gives nothing for a null
pointer. -/
def Reads (s : VectorRun size) (index : Nat) : Prop :=
  match s.vector with
  | .page _ => s.NullChecked index
  | .dynamic a => index ≠ a.allocated
  | .list _ => s.NullChecked index

/-- The values that are copied for a push are in no more than `2 ^ 15` pages, so that twice as
many are counted in `u16`, or as none. -/
def Pushes (s : VectorRun size) : Prop :=
  match s.vector with
  | .page _ => True
  | .dynamic a => a.capacity ≤ a.allocated → PagedArray.pagesNeeded (a.capacity * size) ≤ 2 ^ 15
  | .list _ => False

/-- The condition. Others leave the memory of the array. -/
def Meets (s : VectorRun size) : VectorRequest size → Prop
  | .push _ => s.Pushes
  | .read index => s.Reads index
  | .toList => s.vector.growing = true
  | .elsewhere machine => PagedArray.Leaves s.machine s.vector.memory machine

/-- An array of any of the types before the first push. -/
inductive Begins (size : Nat) (m : IoMachine) : PagedVector → IoMachine → Prop
  | page (capacity : Nat) {a : PagedArray} {m' : IoMachine}
      (made : PagedArray.new size capacity m = .ok a m') : Begins size m (.page a) m'
  | dynamic (capacity : Nat) {a : PagedArray} {m' : IoMachine}
      (made : PagedArray.new size capacity m = .ok a m') : Begins size m (.dynamic a) m'
  | emptyPage : Begins size m (.page .empty) m
  | emptyDynamic : Begins size m (.dynamic .empty) m
  | emptyList : Begins size m (.list .empty) m

/-- What was pushed is there, what is read now and was read before is what was pushed, and an
error leaves everything. A push outside the condition leaves too little memory. -/
structure Right (s : VectorRun size) : Prop where
  length : s.vector.length = s.pushed.length
  reads : ∀ index, s.value index = s.pushed[index]? ↔ s.Reads index
  answers : ∀ answer ∈ s.answers, answer.1 = answer.2
  fits : s.vector.capacity * size ≤ s.vector.memory.length
  refuses : ∀ (data : ValueBytes size) push, s.vector.pushBack data = some push → s.Pushes →
    ∀ vector machine, push s.machine = .ok (false, vector) machine → vector = s.vector ∧
      ∀ i < s.pushed.length, valueAt size machine.memory (s.vector.array.address size i) =
        valueAt size s.machine.memory (s.vector.array.address size i)
  served : ∀ r, s.Meets r → ¬s.vector.array.Overflows s.machine → (s.serve r).isSome
  short : ∀ (data : ValueBytes size) push, s.vector.pushBack data = some push → ¬s.Pushes →
    ∀ vector machine, push s.machine = .ok (true, vector) machine →
      vector.memory.length < vector.capacity * size

/-- The invariant: the array is sound, and a growing one has pages that a growth can copy. -/
structure Keeps (s : VectorRun size) : Prop where
  sound : PagedArray.Sound s.vector.array s.machine s.pushed
  ample : s.vector.Ample size
  answers : ∀ answer ∈ s.answers, answer.1 = answer.2

variable {s s' : VectorRun size} {m m' : IoMachine} {vector : PagedVector}

theorem keeps_start (narrow : size < 2 ^ 32) (begins : Begins size m vector m') :
    Keeps (start vector m' : VectorRun size) := by
  have none (answer) (member : answer ∈ ([] : List (Option (ValueBytes size) × _))) :
      answer.1 = answer.2 := absurd member List.not_mem_nil
  cases begins with
  | page capacity made =>
    obtain ⟨sound, _⟩ := (PagedArray.new_yields narrow).ok made
    exact ⟨sound, trivial, none⟩
  | dynamic capacity made =>
    obtain ⟨sound, ample⟩ := (PagedArray.new_yields narrow).ok made
    exact ⟨sound, ample, none⟩
  | emptyPage => exact ⟨PagedArray.sound_empty, trivial, none⟩
  | emptyDynamic =>
    exact ⟨PagedArray.sound_empty, fun some => absurd some (Nat.lt_irrefl 0), none⟩
  | emptyList => exact ⟨PagedArray.sound_empty, trivial, none⟩

/-- A push that meets the condition: the value is there, or nothing happened to the array. -/
theorem Keeps.pushBack (keeps : Keeps s) (narrow : size < 2 ^ 32) (pushes : s.Pushes)
    (data : ValueBytes size) : ∃ push, s.vector.pushBack data = some push ∧
      Yields push s.machine
        (fun r m' => r = (false, s.vector) ∧
            PagedArray.Leaves s.machine s.vector.memory m' ∨
          r.1 = true ∧ PagedArray.Sound r.2.array m' (s.pushed ++ [data]) ∧
            r.2.Ample size)
        fun _ _ => s.vector.array.Overflows s.machine := by
  obtain ⟨machine, vector, pushed, answers⟩ := s
  cases vector with
  | page a =>
    have sound : PagedArray.Sound a machine pushed := keeps.sound
    refine ⟨_, rfl, ?_⟩
    rw [yields_bind]
    rcases Nat.lt_or_ge a.allocated a.capacity with room | full
    · refine yields_of_ok (PagedArray.pushBackFixed_room room sound.next) ?_
      exact Or.inr ⟨rfl, sound.append room data, trivial⟩
    · refine yields_of_ok (PagedArray.pushBackFixed_full full sound.next) ?_
      exact Or.inl ⟨rfl, rfl, fun _ _ used => used, fun _ _ => rfl⟩
  | dynamic a =>
    have sound : PagedArray.Sound a machine pushed := keeps.sound
    refine ⟨_, rfl, ?_⟩
    rw [yields_bind]
    refine (PagedArray.pushBackGrowing_yields sound keeps.ample narrow pushes data).mono ?_
      fun _ _ overflows => overflows
    rintro ⟨error, b⟩ m' (⟨refused, rfl, preserves⟩ | ⟨rfl, sound', ample'⟩)
    · refine Or.inl ⟨?_, sound.leaves_of_preserves preserves⟩
      cases error with
      | none => cases refused
      | some e => rfl
    · exact Or.inr ⟨rfl, sound', ample'⟩
  | list l => exact pushes.elim

theorem Keeps.length (keeps : Keeps s) : s.vector.length = s.pushed.length := keeps.sound.count

theorem Keeps.within (keeps : Keeps s) {i : Nat} (less : i < s.vector.length) :
    s.pushed[i]? = some (valueAt size s.machine.memory (s.vector.array.address size i)) :=
  keeps.sound.getElem? (keeps.length ▸ less)

theorem Keeps.beyond (keeps : Keeps s) {i : Nat} (above : s.vector.length ≤ i) :
    s.pushed[i]? = none :=
  List.getElem?_eq_none (keeps.length ▸ above)

theorem Keeps.nullChecked_iff (keeps : Keeps s) {i : Nat}
    (checked : s.vector.ref size i = if i > s.vector.length then none
      else PagedArray.asReference (s.vector.array.address size i)) :
    s.value i = s.pushed[i]? ↔ s.NullChecked i := by
  rw [value, checked, PagedArray.asReference]
  rcases Nat.lt_trichotomy i s.vector.length with less | equal | above
  · rw [if_neg (Nat.not_lt.mpr less.le), keeps.within less]
    split
    next null =>
      refine iff_of_false ?_ fun right => right.1 less null
      exact Option.some_ne_none _ ∘ Eq.symm
    next found => exact iff_of_true rfl ⟨fun _ => found, fun same => absurd same less.ne⟩
  · rw [if_neg (Nat.not_lt.mpr equal.le), keeps.beyond equal.ge]
    split
    next null => exact iff_of_true rfl ⟨fun less => absurd equal less.ne, fun _ => null⟩
    next found => exact iff_of_false (Option.some_ne_none _) fun right => found (right.2 equal)
  · rw [if_pos above, keeps.beyond above.le]
    exact iff_of_true rfl
      ⟨fun less => absurd less above.le.not_gt, fun same => absurd same above.ne'⟩

theorem Keeps.gives_iff (keeps : Keeps s) (i : Nat) : s.value i = s.pushed[i]? ↔ s.Reads i := by
  obtain ⟨machine, vector, pushed, answers⟩ := s
  cases vector with
  | page a => exact keeps.nullChecked_iff rfl
  | list l => exact keeps.nullChecked_iff rfl
  | dynamic a =>
    change Option.map _ (a.refConst size i) = pushed[i]? ↔ i ≠ a.allocated
    rw [PagedArray.refConst]
    rcases Nat.lt_trichotomy i a.allocated with less | equal | above
    · rw [if_neg (Nat.not_lt.mpr less.le)]
      exact iff_of_true (keeps.within less).symm less.ne
    · have none := keeps.beyond equal.ge
      rw [if_neg (Nat.not_lt.mpr equal.le)]
      exact iff_of_false (fun given => Option.some_ne_none _ (given.trans none)) (· equal)
    · rw [if_pos above]
      exact iff_of_true (keeps.beyond above.le).symm above.ne'

/-- Whatever is served under the condition keeps the invariant. -/
theorem Keeps.serve (keeps : Keeps s) (narrow : size < 2 ^ 32) {r : VectorRequest size}
    (meets : s.Meets r) (served : s.serve r = some s') : Keeps s' := by
  cases r with
  | push data =>
    obtain ⟨push, offered, yields⟩ := keeps.pushBack narrow meets data
    rw [VectorRun.serve, offered, Option.bind_some] at served
    split at served
    next taken vector machine ran =>
      cases served
      rcases yields.ok ran with ⟨refused, leaves⟩ | ⟨accepted, sound, ample⟩
      · -- an error: the array is as it was, in a machine that left it
        cases refused
        exact ⟨keeps.sound.leaves leaves, keeps.ample, keeps.answers⟩
      · obtain rfl : taken = true := accepted
        exact ⟨sound, ample, keeps.answers⟩
    next => cases served
  | read index =>
    cases served
    refine ⟨keeps.sound, keeps.ample, List.forall_mem_append.mpr ⟨keeps.answers, ?_⟩⟩
    exact List.forall_mem_singleton.mpr ((keeps.gives_iff index).mpr meets)
  | toList =>
    obtain ⟨machine, vector, pushed, answers⟩ := s
    cases vector with
    | page a => cases meets
    | list l => cases meets
    | dynamic a =>
      cases served
      have sound : PagedArray.Sound a machine pushed := keeps.sound
      exact ⟨sound.toList, trivial, keeps.answers⟩
  | elsewhere machine =>
    cases served
    exact ⟨keeps.sound.leaves meets, keeps.ample, keeps.answers⟩

/-- Only an address that does not exist stops a request. -/
theorem Keeps.served (keeps : Keeps s) (narrow : size < 2 ^ 32) {r : VectorRequest size}
    (meets : s.Meets r) (addresses : ¬s.vector.array.Overflows s.machine) :
    (s.serve r).isSome := by
  cases r with
  | push data =>
    obtain ⟨push, offered, yields⟩ := keeps.pushBack narrow meets data
    obtain ⟨taken, machine, ran, _⟩ := yields.returns fun _ _ => addresses
    rw [VectorRun.serve, offered, Option.bind_some, ran]
    rfl
  | read index => rfl
  | toList =>
    obtain ⟨machine, vector, pushed, answers⟩ := s
    cases vector with
    | page a => cases meets
    | list l => cases meets
    | dynamic a => rfl
  | elsewhere machine => rfl

theorem Keeps.refuses (keeps : Keeps s) (narrow : size < 2 ^ 32) {data : ValueBytes size}
    {push : IoM (Bool × PagedVector)} (offered : s.vector.pushBack data = some push)
    (pushes : s.Pushes) {vector : PagedVector} {machine : IoMachine}
    (ran : push s.machine = .ok (false, vector) machine) :
    vector = s.vector ∧ ∀ i < s.pushed.length,
      valueAt size machine.memory (s.vector.array.address size i) =
        valueAt size s.machine.memory (s.vector.array.address size i) := by
  obtain ⟨push', offered', yields⟩ := keeps.pushBack narrow pushes data
  cases offered.symm.trans offered'
  rcases yields.ok ran with ⟨refused, leaves⟩ | ⟨accepted, _⟩
  · have later := keeps.sound.leaves leaves
    refine ⟨congrArg Prod.snd refused, fun i less => ?_⟩
    -- both are the value that was pushed
    exact Option.some.inj ((later.getElem? less).symm.trans (keeps.sound.getElem? less))
  · cases accepted

theorem Keeps.short (keeps : Keeps s) (narrow : size < 2 ^ 32) {data : ValueBytes size}
    {push : IoM (Bool × PagedVector)} (offered : s.vector.pushBack data = some push)
    (many : ¬s.Pushes) {vector : PagedVector} {machine : IoMachine}
    (ran : push s.machine = .ok (true, vector) machine) :
    vector.memory.length < vector.capacity * size := by
  obtain ⟨m, v, pushed, answers⟩ := s
  cases v with
  | page a => exact absurd trivial many
  | list l => cases offered
  | dynamic a =>
    obtain ⟨full, more⟩ := Classical.not_imp.mp many
    cases offered
    obtain ⟨r, m₁, ran, last⟩ := of_bind_ok ran
    have unfit := (PagedArray.pushBackGrowing_short keeps.sound narrow full
      (Nat.lt_of_not_le more) data).ok ran
    obtain ⟨error, b⟩ := r
    cases error with
    | none =>
      cases last
      exact unfit rfl
    | some e => cases last

/-- In every run of pushes and reads that meet the condition, across any number of growths, the
values pushed are there and every read gives what was pushed. -/
theorem vectors_right (narrow : size < 2 ^ 32) (begins : Begins size m vector m')
    (run : Requests.Run serve Meets (start vector m') s) : Right s := by
  have keeps : Keeps s := run.keeps (keeps_start narrow begins) fun _ _ _ keeps meets served =>
    keeps.serve narrow meets served
  exact {
    length := keeps.length
    reads := keeps.gives_iff
    answers := keeps.answers
    fits := keeps.sound.fits
    refuses := fun _ _ offered pushes _ _ ran => keeps.refuses narrow offered pushes ran
    served := fun _ meets addresses => keeps.served narrow meets addresses
    short := fun _ _ offered many _ _ ran => keeps.short narrow offered many ran }

section Samples

instance Pushes.decidable (s : VectorRun size) : Decidable s.Pushes :=
  match s with
  | ⟨_, .page _, _, _⟩ => inferInstanceAs (Decidable True)
  | ⟨_, .dynamic a, _, _⟩ => inferInstanceAs (Decidable (a.capacity ≤ a.allocated →
      PagedArray.pagesNeeded (a.capacity * size) ≤ 2 ^ 15))
  | ⟨_, .list _, _, _⟩ => inferInstanceAs (Decidable False)

instance (s : VectorRun size) (index : Nat) : Decidable (s.NullChecked index) :=
  inferInstanceAs (Decidable (_ ∧ _))

instance Reads.decidable (s : VectorRun size) (index : Nat) : Decidable (s.Reads index) :=
  match s with
  | ⟨m, .page a, ps, as⟩ => inferInstanceAs (Decidable (NullChecked ⟨m, .page a, ps, as⟩ index))
  | ⟨_, .dynamic a, _, _⟩ => inferInstanceAs (Decidable (index ≠ a.allocated))
  | ⟨m, .list l, ps, as⟩ => inferInstanceAs (Decidable (NullChecked ⟨m, .list l, ps, as⟩ index))

instance Meets.decidable (s : VectorRun size) (r : VectorRequest size) : Decidable (s.Meets r) :=
  match r with
  | .push _ => inferInstanceAs (Decidable s.Pushes)
  | .read index => inferInstanceAs (Decidable (s.Reads index))
  | .toList => inferInstanceAs (Decidable (s.vector.growing = true))
  | .elsewhere m => inferInstanceAs (Decidable (PagedArray.Leaves s.machine s.vector.memory m))

/-- 32 pages from 1 MiB on. -/
def pagesMachine : IoMachine :=
  ⟨fun _ => 0, fun w => if w = 0 then 0 else 0xFFFFFFFF, 1, 0, 0x100000, 0⟩

/-- A new `DynamicAllocator`, and requests to it. -/
def serveNew (size capacity : Nat) (meets : VectorRun size → VectorRequest size → Prop)
    [∀ s r, Decidable (meets s r)] (rs : List (VectorRequest size)) : Option (VectorRun size) :=
  match PagedArray.new size capacity pagesMachine with
  | .ok a m => Requests.serveAll serve meets (start (.dynamic a) m) rs
  | .error _ _ => none

theorem serveNew_run {capacity : Nat} {meets : VectorRun size → VectorRequest size → Prop}
    [∀ s r, Decidable (meets s r)] {rs : List (VectorRequest size)}
    (served : serveNew size capacity meets rs = some s) :
    ∃ a m, PagedArray.new size capacity pagesMachine = .ok a m ∧
      Requests.Run serve meets (start (.dynamic a) m) s := by
  unfold serveNew at served
  split at served
  next a m made => exact ⟨a, m, made, Requests.serveAll_run served⟩
  next => cases served

/-- An array of values of a page each grows twice, and is read as a list. -/
theorem vectors_right_grown : ∃ a m s, PagedArray.new 0x1000 1 pagesMachine = .ok a m ∧
    Requests.Run serve Meets (start (.dynamic a) m) s ∧ s.pushed.length = 3 ∧
      s.answers.length = 3 ∧ Right (s : VectorRun 0x1000) := by
  have shown : ((serveNew 0x1000 1 Meets [.push fun _ => 1, .push fun _ => 2, .push fun _ => 3,
      .read 1, .toList, .read 2, .read 4]).any fun s =>
        decide (s.pushed.length = 3 ∧ s.answers.length = 3)) = true := by decide +kernel
  obtain ⟨s, served, lengths⟩ := (Option.any_eq_true _ _).mp shown
  obtain ⟨pushes, reads⟩ := of_decide_eq_true lengths
  obtain ⟨a, m, made, run⟩ := serveNew_run served
  exact ⟨a, m, s, made, run, pushes, reads, vectors_right (by decide) (.dynamic 1 made) run⟩

/-- Before the first push there is a reference at index zero. -/
theorem not_right_empty : ∃ a m s, PagedArray.new 8 4 pagesMachine = .ok a m ∧
    Requests.Run serve (fun _ _ => True) (start (.dynamic a) m) s ∧
      ¬∀ answer ∈ (s : VectorRun 8).answers, answer.1 = answer.2 := by
  have shown : ((serveNew 8 4 (fun _ _ => True) [.read 0]).any fun s =>
      s.answers.any fun answer => answer.1.isSome && answer.2.isNone) = true := by decide +kernel
  obtain ⟨s, served, wrong⟩ := (Option.any_eq_true _ _).mp shown
  obtain ⟨a, m, made, run⟩ := serveNew_run served
  refine ⟨a, m, s, made, run, fun right => ?_⟩
  obtain ⟨answer, member, given⟩ := List.any_eq_true.mp wrong
  rw [right answer member] at given
  cases found : answer.2 <;> simp [found] at given

end Samples

end VectorRun

end EmkKernel
