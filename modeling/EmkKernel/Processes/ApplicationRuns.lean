import EmkKernel.Processes.Handles

/-!
# Applications at work

Applications are summoned, take handles, grow their tables and give them back, in any order
and beside all that others do with the same memory.
-/

namespace EmkKernel

open EStateM IoMachine PagedArray

/-- What is done with the applications, and the machine that something else left. -/
inductive ApplicationRequest where
  | summon (file : ExecutableFile)
  | allocateHandle (i : Nat) (ftabIndex : BitVec 32)
  | reallocateHandles (i : Nat)
  | release (i : Nat)
  | elsewhere (machine : IoMachine)

/-- The applications with the handles that were given to each of them, and for which file. -/
structure ApplicationRun where
  machine : IoMachine
  complex : ApplicationComplex
  handles : Nat → List (Nat × BitVec 32)

namespace ApplicationRun

def start (complex : ApplicationComplex) (machine : IoMachine) : ApplicationRun :=
  ⟨machine, complex, fun _ => []⟩

def app (s : ApplicationRun) (i : Nat) : Application := s.complex.applications i

/-- An application after a call, in the machine that the call left. -/
def after (s : ApplicationRun) (i : Nat) (app : Application) (machine : IoMachine) :
    ApplicationRun :=
  { s with machine, complex := s.complex.setApplication i app }

def serve (s : ApplicationRun) : ApplicationRequest → Option ApplicationRun
  | .summon file =>
    match s.complex.summonApplication file s.machine with
    | .ok (_, complex) machine => some { s with machine, complex }
    | .error _ _ => none
  | .allocateHandle i ftabIndex =>
    match (s.app i).allocateHandle ftabIndex s.machine with
    | .ok (some handle, app) machine =>
      some { s.after i app machine with
        handles := Function.update s.handles i (s.handles i ++ [(handle, ftabIndex)]) }
    | .ok (none, app) machine => some (s.after i app machine)
    | .error _ _ => none
  | .reallocateHandles i =>
    match (s.app i).reallocateHandles s.machine with
    | .ok app machine => some (s.after i app machine)
    | .error _ _ => none
  | .release i =>
    match (s.app i).release s.machine with
    | .ok (_, app) machine => some (s.after i app machine)
    | .error _ _ => none
  | .elsewhere machine => some { s with machine }

/-- The application was summoned and has its handles. -/
def Lives (s : ApplicationRun) (i : Nat) : Prop :=
  i < s.complex.applicationsPresent ∧ (s.app i).Opened

instance (s : ApplicationRun) (i : Nat) : Decidable (s.Lives i) :=
  inferInstanceAs (Decidable (_ ∧ _))

/-- The block of an application's handles. -/
def block (s : ApplicationRun) (i : Nat) : MemoryBlock := (s.app i).fsHandleBuffer.memory

/-- Handles are moved and given back where there are any, and others leave them. -/
def Permits (s : ApplicationRun) : ApplicationRequest → Prop
  | .summon _ => True
  | .allocateHandle i _ => i < s.complex.applicationsPresent
  | .reallocateHandles i => s.Lives i
  | .release i => s.Lives i
  | .elsewhere machine =>
    ∀ i < s.complex.applicationsPresent, s.Lives i → Leaves s.machine (s.block i) machine

instance (s : ApplicationRun) : (r : ApplicationRequest) → Decidable (s.Permits r)
  | .summon _ => inferInstanceAs (Decidable True)
  | .allocateHandle _ _ => inferInstanceAs (Decidable (_ < _))
  | .reallocateHandles i => inferInstanceAs (Decidable (s.Lives i))
  | .release i => inferInstanceAs (Decidable (s.Lives i))
  | .elsewhere _ => inferInstanceAs (Decidable (∀ i < s.complex.applicationsPresent, _))

/-- Each table has the files of the handles given so far in memory of its own, and gives
another handle exactly if it is not full. -/
structure KeepsHandles (s : ApplicationRun) : Prop where
  present : s.complex.applicationsPresent ≤ ApplicationComplex.numApplications
  handles : ∀ i, s.Lives i → ∀ n e, (s.handles i)[n]? = some e →
    e.1 = fixedFsHandleBase + n ∧ littleEndian s.machine.memory
      ((s.app i).fsHandleBuffer.handles.address n) 8 = e.2.toNat
  inside : ∀ i, s.Lives i → Held s.machine (s.block i) ∧
    (s.app i).fsHandleBuffer.handles.ptr = (s.block i).base ∧
    8 * (s.app i).fsHandleBuffer.handles.length = (s.block i).length
  apart : ∀ i j, s.Lives i → s.Lives j → i ≠ j → (s.block i).Disjoint (s.block j)
  gives : ∀ i, s.Lives i → ∀ ftabIndex, ∃ r m',
    (s.app i).allocateHandle ftabIndex s.machine = .ok r m' ∧
      (r.1 = none ↔ (s.handles i).length = (s.app i).fsHandleBuffer.handles.length)
  grows : ∀ i, s.Lives i → ∀ app m', (s.app i).reallocateHandles s.machine = .ok app m' →
    app.fsHandleBuffer.handles.length = 2 * (s.app i).fsHandleBuffer.handles.length

/-- The invariant. -/
structure Inv (s : ApplicationRun) : Prop where
  present : s.complex.applicationsPresent ≤ ApplicationComplex.numApplications
  base : ∀ i, (s.app i).fsHandleBase = fixedFsHandleBase
  fresh : ∀ i, s.complex.applicationsPresent ≤ i → s.handles i = [] ∧ ¬(s.app i).Opened
  tables : ∀ i, s.Lives i → (s.app i).Keeps s.machine (s.handles i)
  apart : ∀ i j, s.Lives i → s.Lives j → i ≠ j → (s.block i).Disjoint (s.block j)

variable {s s' : ApplicationRun} {m m' : IoMachine} {i j : Nat}

theorem app_after_self (s : ApplicationRun) (i : Nat) (app : Application) (machine : IoMachine) :
    (s.after i app machine).app i = app := Function.update_self ..

theorem app_after_of_ne (s : ApplicationRun) (app : Application) (machine : IoMachine)
    (other : j ≠ i) : (s.after i app machine).app j = s.app j := Function.update_of_ne other ..

theorem Inv.held (inv : s.Inv) (lives : s.Lives i) : Held s.machine (s.block i) :=
  (inv.tables i lives).held lives.2

/-- One application is changed, and the blocks of the others are left. -/
theorem Inv.change (inv : s.Inv) (app : Application) (below : i < s.complex.applicationsPresent)
    {list : List (Nat × BitVec 32)} (base : app.fsHandleBase = fixedFsHandleBase)
    (others : ∀ j, s.Lives j → j ≠ i → Leaves s.machine (s.block j) m')
    (mine : app.Opened → app.Keeps m' list ∧
      ∀ j, s.Lives j → j ≠ i → app.fsHandleBuffer.memory.Disjoint (s.block j)) :
    Inv { s.after i app m' with handles := Function.update s.handles i list } := by
  have appSelf := app_after_self s i app m'
  have lives (j : Nat) (other : j ≠ i) (lives : (s.after i app m').Lives j) : s.Lives j := by
    have opened := lives.2
    rw [app_after_of_ne s app m' other] at opened
    exact ⟨lives.1, opened⟩
  refine ⟨inv.present, fun j => ?_, fun j above => ?_, fun j livesJ => ?_,
    fun j k livesJ livesK other => ?_⟩
  · by_cases here : j = i
    · subst here
      exact (congrArg Application.fsHandleBase appSelf).trans base
    · exact (congrArg Application.fsHandleBase (app_after_of_ne s app m' here)).trans (inv.base j)
  · have other : j ≠ i := fun same => absurd below (Nat.not_lt.mpr (same ▸ above))
    obtain ⟨none, unopened⟩ := inv.fresh j above
    refine ⟨(Function.update_of_ne other ..).trans none, ?_⟩
    rwa [← app_after_of_ne s app m' other] at unopened
  · change ((s.after i app m').app j).Keeps m' (Function.update s.handles i list j)
    by_cases here : j = i
    · subst here
      rw [appSelf, Function.update_self]
      exact (mine (appSelf ▸ livesJ.2)).1
    · rw [app_after_of_ne s app m' here, Function.update_of_ne here]
      have livesJ := lives j here livesJ
      exact (inv.tables j livesJ).leaves (others j livesJ here)
  · change ((s.after i app m').block j).Disjoint ((s.after i app m').block k)
    rw [block, block]
    by_cases here : j = i
    · subst here
      rw [appSelf, app_after_of_ne s app m' other.symm]
      exact (mine (appSelf ▸ livesJ.2)).2 k (lives k other.symm livesK) other.symm
    · rw [app_after_of_ne s app m' here]
      by_cases there : k = i
      · subst there
        rw [appSelf]
        intro x inside taken
        exact (mine (appSelf ▸ livesK.2)).2 j (lives j here livesJ) here x taken inside
      · rw [app_after_of_ne s app m' there]
        exact inv.apart j k (lives j here livesJ) (lives k there livesK) other

/-- An application is changed that was given no handle. -/
theorem Inv.after (inv : s.Inv) (app : Application) (below : i < s.complex.applicationsPresent)
    (base : app.fsHandleBase = fixedFsHandleBase)
    (others : ∀ j, s.Lives j → j ≠ i → Leaves s.machine (s.block j) m')
    (mine : app.Opened → app.Keeps m' (s.handles i) ∧
      ∀ j, s.Lives j → j ≠ i → app.fsHandleBuffer.memory.Disjoint (s.block j)) :
    (s.after i app m').Inv := by
  have changed := inv.change app below base others mine
  rw [Function.update_eq_self] at changed
  exact changed

/-- Nothing happened to an application. -/
theorem Inv.unchanged (inv : s.Inv) : (s.after i (s.app i) s.machine).Inv := by
  have same : Function.update s.complex.applications i (s.app i) = s.complex.applications :=
    Function.update_eq_self ..
  rw [ApplicationRun.after, ApplicationComplex.setApplication, same]
  exact inv

/-- What every application is left with by a machine that leaves them. -/
theorem Inv.elsewhere (inv : s.Inv)
    (leaves : ∀ i, s.Lives i → Leaves s.machine (s.block i) m') : Inv { s with machine := m' } :=
  ⟨inv.present, inv.base, inv.fresh, fun i lives => (inv.tables i lives).leaves (leaves i lives),
    inv.apart⟩

theorem Inv.allocateHandle (inv : s.Inv) (below : i < s.complex.applicationsPresent)
    {ftabIndex : BitVec 32} (served : s.serve (.allocateHandle i ftabIndex) = some s') :
    s'.Inv := by
  by_cases opened : (s.app i).Opened
  · have lives : s.Lives i := ⟨below, opened⟩
    have keeps := inv.tables i lives
    rcases keeps.allocateHandle ftabIndex with ⟨_, ran⟩ | ⟨room, ran⟩
    · rw [serve, ran] at served
      cases served
      exact inv.unchanged
    · rw [serve, ran] at served
      cases served
      refine inv.change (s.app i).pushed below (inv.base i)
        (fun j livesJ other =>
          keeps.push_leaves room (inv.apart i j lives livesJ other.symm) ftabIndex)
        fun _ => ⟨keeps.push (inv.base i) room ftabIndex,
          fun j livesJ other => inv.apart i j lives livesJ other.symm⟩
  · have outcome := Application.allocateHandle_unopened opened ftabIndex s.machine
    rw [serve] at served
    split at served
    next handle app machine ran => cases (outcome.ok ran).1
    next app machine ran =>
      obtain ⟨result, rfl⟩ := outcome.ok ran
      cases result
      cases served
      exact inv.unchanged
    next => cases served

theorem Inv.reallocateHandles (inv : s.Inv) (lives : s.Lives i)
    (served : s.serve (.reallocateHandles i) = some s') : s'.Inv := by
  rw [serve] at served
  split at served
  next app machine ran =>
    cases served
    obtain ⟨mb, rfl, keeps, _, others⟩ := ((inv.tables i lives).reallocateHandles lives.2).ok ran
    have apart (j : Nat) (livesJ : s.Lives j) (other : j ≠ i) :=
      others (s.block j) (inv.held livesJ) (inv.apart i j lives livesJ other.symm)
    exact inv.after ((s.app i).moved mb) lives.1 (inv.base i)
      (fun j livesJ other => (apart j livesJ other).1)
      fun _ => ⟨keeps, fun j livesJ other => (apart j livesJ other).2⟩
  next => cases served

theorem Inv.release (inv : s.Inv) (lives : s.Lives i)
    (served : s.serve (.release i) = some s') : s'.Inv := by
  rw [serve] at served
  split at served
  next result app machine ran =>
    cases served
    rcases (Application.release_yields (inv.held lives)).ok ran with ⟨refused, rfl⟩ |
      ⟨released, others⟩
    · cases refused
      exact inv.unchanged
    · cases released
      exact inv.after (s.app i).closed lives.1 (inv.base i)
        (fun j livesJ other => others _ (inv.apart i j lives livesJ other.symm))
        fun again => absurd again Application.not_opened_closed
  next => cases served

/-- What `summon_application` does: nothing, or one more application with a page of its own. -/
theorem summonApplication_yields (c : ApplicationComplex) (file : ExecutableFile)
    (m : IoMachine) :
    Yields (c.summonApplication file) m
      (fun r m' => (∃ e, r = (.error e, c)) ∧ m' = m ∨
        ∃ mb k markTable, r = (.ok (), { c.setApplication c.applicationsPresent
              ((c.applications c.applicationsPresent).spawned file.fi mb) with
            markTable
            applicationsPresent := c.applicationsPresent + 1 }) ∧
          c.applicationsPresent < ApplicationComplex.numApplications ∧
          c.markTable.mark file.fi = .ok markTable ∧ Zeroed m 1 k mb m')
      fun _ _ => True := by
  rw [ApplicationComplex.summonApplication]
  split
  · exact Or.inl ⟨⟨_, rfl⟩, rfl⟩
  split
  · exact Or.inl ⟨⟨_, rfl⟩, rfl⟩
  rw [yields_bind]
  refine (orPanic_yields _).mono ?_ fun _ _ _ => trivial
  rintro next m₀ ⟨same, sum⟩
  subst m₀
  obtain rfl := Option.some.inj (Option.ite_none_right_eq_some.mp sum).2
  split
  · exact Or.inl ⟨⟨_, rfl⟩, rfl⟩
  next room =>
  rw [yields_bind]
  refine (Application.spawn_yields _ _ _).mono ?_ fun _ _ _ => trivial
  rintro ⟨spawned, app⟩ m₁ (⟨refused, rfl⟩ | ⟨mb, k, made, zeroed⟩)
  · cases refused
    exact Or.inl ⟨⟨_, rfl⟩, rfl⟩
  · cases made
    simp only [if_true]
    split
    next => trivial
    next markTable marked =>
      exact Or.inr ⟨mb, k, markTable, rfl, Nat.not_lt.mp room, marked, zeroed⟩

/-- The next application is counted before it has handles. -/
theorem Inv.count (inv : s.Inv)
    (room : s.complex.applicationsPresent < ApplicationComplex.numApplications)
    (unopened : ¬(s.app s.complex.applicationsPresent).Opened) (markTable : MarkTable) :
    Inv { s with complex := { s.complex with
      markTable
      applicationsPresent := s.complex.applicationsPresent + 1 } } := by
  have lives (i : Nat) (below : i < s.complex.applicationsPresent + 1) (opened : (s.app i).Opened) :
      s.Lives i := by
    refine ⟨Nat.lt_of_le_of_ne (Nat.le_of_lt_succ below) fun same => ?_, opened⟩
    exact unopened (same ▸ opened)
  exact ⟨room, inv.base, fun i above => inv.fresh i (Nat.le_of_succ_le above),
    fun i livesI => inv.tables i (lives i livesI.1 livesI.2), fun i j livesI livesJ =>
      inv.apart i j (lives i livesI.1 livesI.2) (lives j livesJ.1 livesJ.2)⟩

theorem Inv.summon (inv : s.Inv) {file : ExecutableFile}
    (served : s.serve (.summon file) = some s') : s'.Inv := by
  rw [serve] at served
  split at served
  next result complex machine ran =>
    cases served
    rcases (summonApplication_yields s.complex file s.machine).ok ran with ⟨⟨e, same⟩, rfl⟩ |
      ⟨mb, k, markTable, same, room, _, zeroed⟩
    · cases same
      exact inv
    cases same
    obtain ⟨none, unopened⟩ := inv.fresh _ (Nat.le_refl s.complex.applicationsPresent)
    have counted := inv.count room unopened markTable
    exact counted.after ((s.app s.complex.applicationsPresent).spawned file.fi mb)
      (Nat.lt_succ_self s.complex.applicationsPresent) (inv.base _)
      (fun j lives _ => (counted.held lives).leaves_of_preserves (preserves_zeroed zeroed))
      fun _ => ⟨none.symm ▸ Application.keeps_spawned file.fi zeroed,
        fun j lives _ x inside taken => (counted.held lives).disjoint zeroed x taken inside⟩
  next => cases served

/-- Every request that is permitted keeps the invariant. -/
theorem Inv.serve (inv : s.Inv) {r : ApplicationRequest} (permits : s.Permits r)
    (served : s.serve r = some s') : s'.Inv := by
  cases r with
  | summon file => exact inv.summon served
  | allocateHandle i ftabIndex => exact inv.allocateHandle permits served
  | reallocateHandles i => exact inv.reallocateHandles permits served
  | release i => exact inv.release permits served
  | elsewhere machine =>
    cases served
    exact inv.elsewhere fun i lives => permits i lives.1 lives

/-- No application of a new pool was summoned. -/
theorem allocate_yields (markTable : MarkTable) (m : IoMachine) :
    Yields (ApplicationComplex.allocate markTable) m
      (fun complex _ => complex = ⟨fun _ => .default, 0, markTable⟩) fun _ _ => True := by
  rw [ApplicationComplex.allocate, yields_bind]
  refine (yields_any _ _).mono ?_ fun _ _ _ => trivial
  rintro (e | mb) m₁ _
  · trivial
  rw [yields_bind]
  refine (yields_any _ _).mono ?_ fun _ _ _ => trivial
  rintro (e | mb) m₂ _
  · trivial
  · rfl

theorem inv_start {markTable : MarkTable} {complex : ApplicationComplex}
    (made : ApplicationComplex.allocate markTable m = .ok complex m') :
    (start complex m').Inv := by
  obtain rfl := (allocate_yields markTable m).ok made
  refine ⟨Nat.zero_le _, fun _ => rfl, fun _ _ => ⟨rfl, Nat.lt_irrefl 0⟩, fun i lives => ?_,
    fun i j lives => ?_⟩ <;> exact absurd lives.1 (Nat.not_lt_zero i)

private theorem Inv.keepsHandles (inv : s.Inv) : s.KeepsHandles where
  present := inv.present
  handles i lives n e found := by
    have keeps := inv.tables i lives
    have less := (List.getElem?_eq_some_iff.mp found).1
    constructor
    · have number : ((s.handles i).map Prod.fst)[n]? = some e.1 := by
        rw [List.getElem?_map, found, Option.map_some]
      rw [keeps.numbered, List.getElem?_map, List.getElem?_range less, Option.map_some] at number
      rw [← Option.some.inj number, Nat.add_comm]
    · have value := keeps.sound.getElem? (i := n) (by rwa [List.length_map])
      rw [List.getElem?_map, found, Option.map_some] at value
      exact littleEndian_of_valueAt (Option.some.inj value).symm (by omega)
  inside i lives :=
    ⟨inv.held lives, (inv.tables i lives).sound.ptr, (inv.tables i lives).whole.symm⟩
  apart := inv.apart
  gives i lives ftabIndex := by
    rcases (inv.tables i lives).allocateHandle ftabIndex with ⟨full, ran⟩ | ⟨room, ran⟩
    · exact ⟨_, _, ran, iff_of_true rfl full⟩
    · exact ⟨_, _, ran, iff_of_false (Option.some_ne_none _) room.ne⟩
  grows i lives app m' ran := by
    obtain ⟨_, _, _, doubled, _⟩ := ((inv.tables i lives).reallocateHandles lives.2).ok ran
    exact doubled

/-- Whatever is done with the applications of a new pool, and whatever others do beside it:
every handle that was given names the file it was given for. -/
theorem run_keepsHandles {markTable : MarkTable} {complex : ApplicationComplex}
    (made : ApplicationComplex.allocate markTable m = .ok complex m')
    (run : Requests.Run serve Permits (start complex m') s) : s.KeepsHandles :=
  (run.keeps (inv_start made) fun _ _ _ inv permits served => inv.serve permits served).keepsHandles

section Samples

/-- Memory of zeros whose 128 pages from `0x100000` on are free. -/
def plainMemory : IoMachine := ⟨fun _ => 0, ⟨fun _ => 0, 4, 0, 0x100000, 0⟩⟩

/-- A table without marks. -/
def unmarked : MarkTable :=
  ⟨⟨processesMarkTablePairFixedVaddr, 1024⟩,
    fun i => ⟨⟨processesMarkTablePairFixedVaddr + 16 * i, 2⟩, 0⟩, 1024,
    .initial 8 ⟨0, 0x1000⟩ ⟨processesMarkTablePairFixedVaddr, 0x8000⟩ true, 1024, fun _ => (0, 0)⟩

/-- An application is moved between two of its handles, beside another one. -/
theorem run_keepsHandles_two : ∃ complex m' s,
    ApplicationComplex.allocate unmarked plainMemory = .ok complex m' ∧
      Requests.Run serve Permits (start complex m') s ∧
      s.handles 0 = [(0x1000, 7), (0x1001, 9)] ∧ s.handles 1 = [(0x1000, 8)] ∧
      s.KeepsHandles := by
  have served : (match ApplicationComplex.allocate unmarked plainMemory with
      | .ok complex m' => (Requests.serveAll serve Permits (start complex m')
          [.summon ⟨0, 0, 8⟩, .summon ⟨0, 0, 8⟩, .allocateHandle 0 7, .allocateHandle 1 8,
            .reallocateHandles 0, .allocateHandle 0 9]).map fun s => (s.handles 0, s.handles 1)
      | .error _ _ => none) = some ([(0x1000, 7), (0x1001, 9)], [(0x1000, 8)]) := by
    decide +kernel
  cases made : ApplicationComplex.allocate unmarked plainMemory with
  | error e m' =>
    rw [made] at served
    cases served
  | ok complex m' =>
    simp only [made] at served
    obtain ⟨s, served, handles⟩ := Option.map_eq_some_iff.mp served
    have run := Requests.serveAll_run served
    exact ⟨complex, m', s, rfl, run, congrArg Prod.fst handles, congrArg Prod.snd handles,
      run_keepsHandles made run⟩

end Samples

end ApplicationRun

end EmkKernel
