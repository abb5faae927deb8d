import EmkKernel.Drivers.UsbParsing

/-!
# What the tables of a driver hold

A full table drops what is pushed, and the slice of the interface or endpoint reaches behind
its values. So a configuration can be read through the tables exactly when everything had
room.
-/

namespace EmkKernel

/-! ## Tables -/

namespace PageAllocator

variable {T : Type} {table table' table'' : PageAllocator T}

/-- Values stay where they are, and the table is as large as it was. -/
structure Grows (table table' : PageAllocator T) : Prop where
  capacity : table'.capacity = table.capacity
  allocated : table.allocated ≤ table'.allocated
  slots : ∀ k < table.allocated, table'.slots k = table.slots k
  bound : table.allocated ≤ table.capacity → table'.allocated ≤ table.capacity

theorem Grows.refl (table : PageAllocator T) : table.Grows table :=
  ⟨rfl, Nat.le_refl _, fun _ _ => rfl, id⟩

theorem Grows.trans (first : table.Grows table') (second : table'.Grows table'') :
    table.Grows table'' where
  capacity := second.capacity.trans first.capacity
  allocated := Nat.le_trans first.allocated second.allocated
  slots k below := by
    rw [second.slots k (Nat.lt_of_lt_of_le below first.allocated), first.slots k below]
  bound kept := by
    rw [← first.capacity]
    exact second.bound (by rw [first.capacity]; exact first.bound kept)

private theorem pushBack_room (room : table.allocated < table.capacity) (x : T) :
    (table.pushBack x).2 = { table with
      slots := Function.update table.slots table.allocated x
      allocated := table.allocated + 1 } := by
  rw [pushBack, if_neg (by omega)]

private theorem grows_pushBack (table : PageAllocator T) (x : T) :
    table.Grows (table.pushBack x).2 := by
  by_cases room : table.allocated < table.capacity
  · rw [pushBack_room room]
    refine ⟨rfl, Nat.le_succ _, fun k below => ?_, fun _ => room⟩
    exact Function.update_of_ne (Nat.ne_of_lt below) ..
  · rw [pushBack, if_pos (by omega)]
    exact .refl table

end PageAllocator

/-! ## What is pushed can be read -/

namespace UsbParsing

open PageAllocator

variable {ι ε σ : Type} {driver : UsbDriver ι ε σ} {view : UsbView ι ε}
  {step : EndpointBlock → σ → Option (ε × σ)} {strict peeks : Bool} {Suits : EndpointBlock → Prop}

private theorem takeEndpoints_grows {es : List EndpointBlock} {c c' : UsbParsing ι ε σ}
    (took : c.takeEndpoints step es = some c') : c.endpoints.Grows c'.endpoints := by
  induction es generalizing c with
  | nil =>
    cases took
    exact .refl _
  | cons e es ih =>
    rw [takeEndpoints] at took
    obtain ⟨r, _, later⟩ := Option.bind_eq_some_iff.1 took
    exact (grows_pushBack _ _).trans (ih later)

theorem takeEndpoints_read (follows : driver.Follows view step strict peeks Suits)
    {es : List EndpointBlock} {c c' : UsbParsing ι ε σ}
    (took : c.takeEndpoints step es = some c')
    (room : c.endpoints.allocated + es.length ≤ c.endpoints.capacity) :
    c'.endpoints.allocated = c.endpoints.allocated + es.length ∧
      (List.range' c.endpoints.allocated es.length).map (view.endpoint ∘ c'.endpoints.slots) =
        es.map EndpointBlock.descriptor := by
  induction es generalizing c with
  | nil =>
    cases took
    exact ⟨rfl, rfl⟩
  | cons e es ih =>
    rw [List.length_cons] at room
    rw [takeEndpoints] at took
    obtain ⟨r, taken, later⟩ := Option.bind_eq_some_iff.1 took
    have pushed := @pushBack_room _ c.endpoints (by omega) r.1
    have grown := takeEndpoints_grows later
    rw [pushed] at later grown
    obtain ⟨allocated, descriptors⟩ := ih later (by simp only; omega)
    refine ⟨?_, ?_⟩
    · rw [allocated, List.length_cons]
      simp only
      omega
    · have first : c'.endpoints.slots c.endpoints.allocated = r.1 := by
        rw [grown.slots _ (Nat.lt_succ_self _)]
        exact Function.update_self ..
      rw [List.length_cons, List.range'_succ, List.map_cons, List.map_cons, Function.comp_apply,
        first, follows.endpoint taken]
      exact congrArg _ descriptors

/-- What the interfaces leave besides their tables. -/
theorem takeInterfaces_frame {blocks : List InterfaceBlock} {i : Nat} {c c' : UsbParsing ι ε σ}
    (took : c.takeInterfaces driver step i blocks = some c') :
    c'.data = c.data + (blockBytes blocks).length ∧
      c'.numEndpoints = c.numEndpoints + endpointCount blocks ∧
      c'.hidInterfaces = c.hidInterfaces ++ hidsFrom i blocks := by
  induction blocks generalizing i c with
  | nil =>
    cases took
    exact ⟨rfl, rfl, (List.append_nil _).symm⟩
  | cons b rest ih =>
    simp only [takeInterfaces, Option.bind_eq_some_iff] at took
    obtain ⟨start, _, c₁, endpoints, later⟩ := took
    obtain ⟨data, numEndpoints, hids, _⟩ := takeEndpoints_frame endpoints
    obtain ⟨data', numEndpoints', hids'⟩ := ih later
    refine ⟨?_, ?_, ?_⟩
    · rw [data', data, takeHeader_data, blockBytes_cons]
      simp only [List.length_append, InterfaceBlock.header_length]
      omega
    · rw [numEndpoints', numEndpoints, takeHeader_numEndpoints]
      simp only [endpointCount, List.map_cons, List.sum_cons]
      omega
    · rw [hids', hids, takeHeader, hidsFrom, List.append_assoc]

private theorem takeInterfaces_grows {blocks : List InterfaceBlock} {i : Nat}
    {c c' : UsbParsing ι ε σ} (took : c.takeInterfaces driver step i blocks = some c') :
    c.interfaces.Grows c'.interfaces ∧ c.endpoints.Grows c'.endpoints := by
  induction blocks generalizing i c with
  | nil =>
    cases took
    exact ⟨.refl _, .refl _⟩
  | cons b rest ih =>
    simp only [takeInterfaces, Option.bind_eq_some_iff] at took
    obtain ⟨start, _, c₁, endpoints, later⟩ := took
    have interfaces := (takeEndpoints_frame endpoints).2.2.2
    obtain ⟨grown, grown'⟩ := ih later
    constructor
    · rw [interfaces] at grown
      exact (grows_pushBack _ _).trans grown
    · exact (takeEndpoints_grows endpoints).trans grown'

theorem endpointCount_cons (b : InterfaceBlock) (rest : List InterfaceBlock) :
    endpointCount (b :: rest) = b.endpoints.length + endpointCount rest := by
  rw [endpointCount, List.map_cons, List.sum_cons, endpointCount]

private theorem readInterfaces_cons {a n : Nat} {c : UsbParsing ι ε σ} {v : InterfaceView}
    {vs : List InterfaceView} :
    view.readInterfaces ⟨a, n + 1⟩ c = some (v :: vs) ↔
      view.readInterface c.endpoints (c.interfaces.slots a) = some v ∧
        view.readInterfaces ⟨a + 1, n⟩ c = some vs := by
  have same : a + (n + 1) = a + 1 + n := by omega
  simp only [UsbView.readInterfaces, TableSlice.read, same]
  by_cases inside : a + 1 + n ≤ c.interfaces.allocated
  · simp only [if_pos inside, Option.bind_some, List.range'_succ, List.map_cons, List.mapM_cons,
      Option.bind_eq_bind, Option.bind_eq_some_iff, Option.pure_def, Option.some.injEq,
      List.cons.injEq]
    constructor
    · rintro ⟨_, first, _, rest, rfl, rfl⟩
      exact ⟨first, rest⟩
    · rintro ⟨first, rest⟩
      exact ⟨v, first, vs, rest, rfl, rfl⟩
  · simp only [if_neg inside, Option.bind_none]
    exact ⟨nofun, fun read => nomatch read.2⟩

theorem opens_some (follows : driver.Follows view step strict peeks Suits) {T : Type}
    {table : PageAllocator T} {start : Nat} :
    driver.opens table = some start ↔
      (strict = true → table.allocated < table.capacity) ∧ table.allocated = start := by
  rw [follows.opens]
  split
  next full => exact ⟨nofun, fun opened => absurd (opened.1 full.1) (Nat.not_lt.2 full.2)⟩
  next room =>
    rw [Option.some.injEq]
    exact ⟨fun same => ⟨fun demands => Nat.not_le.1 fun full => room ⟨demands, full⟩, same⟩,
      And.right⟩

theorem readInterface_iff (follows : driver.Follows view step strict peeks Suits)
    {b : InterfaceBlock} {c c₁ : UsbParsing ι ε σ} {endpoints : PageAllocator ε}
    (taken : c.takeEndpoints step b.endpoints = some c₁) (grown : c₁.endpoints.Grows endpoints)
    (kept : c.endpoints.allocated ≤ c.endpoints.capacity) :
    view.readInterface endpoints
        (driver.interfaceFromRaw b.descriptor ⟨c.endpoints.allocated, b.endpoints.length⟩) =
        some b.view ↔
      c.endpoints.allocated + b.endpoints.length ≤ c.endpoints.capacity := by
  have whole := (takeEndpoints_grows taken).trans grown
  obtain ⟨cls, sub, protocol, slice⟩ :=
    follows.interface b ⟨c.endpoints.allocated, b.endpoints.length⟩
  simp only [UsbView.readInterface, slice, cls, sub, protocol, TableSlice.read]
  constructor
  · intro read
    split at read
    next inside => exact Nat.le_trans inside (whole.bound kept)
    next => cases read
  · intro room
    obtain ⟨allocated, descriptors⟩ := takeEndpoints_read follows taken room
    rw [if_pos (by rw [← allocated]; exact grown.allocated), Option.map_some, List.map_map,
      InterfaceBlock.view, ← descriptors]
    refine congrArg (fun es => some (InterfaceView.mk _ _ _ es)) (List.map_congr_left ?_)
    intro k member
    have below := (List.mem_range'_1.1 member).2
    rw [Function.comp_apply, Function.comp_apply, grown.slots k (by omega)]

/-- The interfaces can be read exactly when they and their endpoints had room. -/
theorem takeInterfaces_read (follows : driver.Follows view step strict peeks Suits)
    {blocks : List InterfaceBlock} {i : Nat} {c c' : UsbParsing ι ε σ}
    (took : c.takeInterfaces driver step i blocks = some c')
    (interfaces : c.interfaces.allocated ≤ c.interfaces.capacity)
    (endpoints : c.endpoints.allocated ≤ c.endpoints.capacity) :
    view.readInterfaces ⟨c.interfaces.allocated, blocks.length⟩ c' =
        some (blocks.map InterfaceBlock.view) ↔
      c.interfaces.allocated + blocks.length ≤ c.interfaces.capacity ∧
        c.endpoints.allocated + endpointCount blocks ≤ c.endpoints.capacity := by
  induction blocks generalizing i c with
  | nil =>
    cases took
    simp [UsbView.readInterfaces, TableSlice.read, endpointCount, interfaces, endpoints]
  | cons b rest ih =>
    obtain ⟨grown, -⟩ := takeInterfaces_grows took
    simp only [takeInterfaces, Option.bind_eq_some_iff] at took
    obtain ⟨start, opened, c₁, taken, later⟩ := took
    obtain ⟨-, rfl⟩ := (opens_some follows).1 opened
    obtain ⟨-, -, -, pushed⟩ := takeEndpoints_frame taken
    obtain ⟨grown₁, grown₁'⟩ := takeInterfaces_grows later
    rw [List.length_cons, List.map_cons, endpointCount_cons]
    by_cases room : c.interfaces.allocated < c.interfaces.capacity
    · rw [takeHeader, pushBack_room room] at pushed
      rw [pushed] at grown₁
      have slot : c'.interfaces.slots c.interfaces.allocated =
          driver.interfaceFromRaw b.descriptor ⟨c.endpoints.allocated, b.endpoints.length⟩ := by
        rw [grown₁.slots _ (Nat.lt_succ_self _)]
        exact Function.update_self ..
      have own := readInterface_iff follows taken grown₁' endpoints
      have grown_b := takeEndpoints_grows taken
      have read := ih later (by rw [pushed]; exact room)
        (by rw [grown_b.capacity]; exact grown_b.bound endpoints)
      rw [pushed, grown_b.capacity] at read
      simp only at read
      rw [readInterfaces_cons, slot]
      refine (and_congr own read).trans ?_
      constructor
      · rintro ⟨fits, few, fits'⟩
        rw [(takeEndpoints_read follows taken fits).1] at fits'
        simp only [takeHeader_endpoints] at fits fits'
        omega
      · rintro ⟨few, fits⟩
        have fits_b : (c.takeHeader driver i b c.endpoints.allocated).endpoints.allocated +
            b.endpoints.length ≤ (c.takeHeader driver i b
              c.endpoints.allocated).endpoints.capacity := by
          simp only [takeHeader_endpoints]
          omega
        refine ⟨fits_b, by omega, ?_⟩
        rw [(takeEndpoints_read follows taken fits_b).1]
        simp only [takeHeader_endpoints]
        omega
    · -- the interface was dropped
      have full := grown.bound interfaces
      rw [UsbView.readInterfaces, TableSlice.read, if_neg (by simp only; omega)]
      constructor
      · intro read
        cases read
      · intro fits
        omega

/-! ## When everything has room -/

/-- What the endpoints need of the driver, one after another. -/
def takeOwn (step : EndpointBlock → σ → Option (ε × σ)) : List EndpointBlock → σ → Option σ
  | [], own => some own
  | e :: es, own => (step e own).bind fun r => takeOwn step es r.2

private theorem takeOwn_append (es es' : List EndpointBlock) (own : σ) :
    takeOwn step (es ++ es') own = (takeOwn step es own).bind (takeOwn step es') := by
  induction es generalizing own with
  | nil => rfl
  | cons e es ih =>
    simp only [List.cons_append, takeOwn, Option.bind_assoc]
    exact congrArg _ (funext fun r => ih r.2)

private theorem takeEndpoints_own {es : List EndpointBlock} {c : UsbParsing ι ε σ} :
    (c.takeEndpoints step es).map UsbParsing.own = takeOwn step es c.own := by
  induction es generalizing c with
  | nil => rfl
  | cons e es ih =>
    simp only [takeEndpoints, takeOwn, Option.map_bind]
    exact congrArg _ (funext fun r => ih)

/-- A strict driver starts every interface before the table is full. -/
theorem takeInterfaces_some (follows : driver.Follows view step strict peeks Suits)
    {blocks : List InterfaceBlock} {i : Nat} {c : UsbParsing ι ε σ}
    (fits : c.endpoints.allocated + endpointCount blocks ≤ c.endpoints.capacity) {own : σ} :
    (∃ c', c.takeInterfaces driver step i blocks = some c' ∧ c'.own = own) ↔
      (strict = true → blocks ≠ [] →
        c.endpoints.allocated + endpointCount blocks.dropLast < c.endpoints.capacity) ∧
      takeOwn step (blocks.flatMap InterfaceBlock.endpoints) c.own = some own := by
  induction blocks generalizing i c with
  | nil => simp [takeInterfaces, takeOwn]
  | cons b rest ih =>
    rw [endpointCount_cons] at fits
    have own_b : ∀ start, ((c.takeHeader driver i b start).takeEndpoints step b.endpoints).map
        UsbParsing.own = takeOwn step b.endpoints c.own := fun start => takeEndpoints_own
    have read : ∀ start c₁, (c.takeHeader driver i b start).takeEndpoints step b.endpoints =
        some c₁ →
        c₁.endpoints.allocated = c.endpoints.allocated + b.endpoints.length ∧
          c₁.endpoints.capacity = c.endpoints.capacity := fun start c₁ taken =>
      ⟨(takeEndpoints_read follows taken (by simp only [takeHeader_endpoints]; omega)).1,
        (takeEndpoints_grows taken).capacity⟩
    have strictly : (strict = true → b :: rest ≠ [] →
          c.endpoints.allocated + endpointCount (b :: rest).dropLast < c.endpoints.capacity) ↔
        (strict = true → c.endpoints.allocated < c.endpoints.capacity) ∧
          (strict = true → rest ≠ [] → c.endpoints.allocated + b.endpoints.length +
            endpointCount rest.dropLast < c.endpoints.capacity) := by
      cases rest with
      | nil => simp [endpointCount]
      | cons b' rest =>
        rw [List.dropLast_cons_cons, endpointCount_cons]
        constructor
        · intro room
          exact ⟨fun demands => by have := room demands (List.cons_ne_nil _ _); omega,
            fun demands _ => by have := room demands (List.cons_ne_nil _ _); omega⟩
        · rintro ⟨-, room⟩ demands -
          have := room demands (List.cons_ne_nil _ _)
          omega
    rw [strictly, List.flatMap_cons, takeOwn_append, ← own_b c.endpoints.allocated]
    simp only [takeInterfaces, Option.bind_eq_some_iff, Option.map_eq_some_iff]
    constructor
    · rintro ⟨c', ⟨start, opened, c₁, taken, later⟩, same⟩
      obtain ⟨room, rfl⟩ := (opens_some follows).1 opened
      obtain ⟨allocated, capacity⟩ := read _ c₁ taken
      have rest_some := (ih (c := c₁) (by omega)).1 ⟨c', later, same⟩
      rw [allocated, capacity] at rest_some
      exact ⟨⟨room, rest_some.1⟩, c₁.own, ⟨c₁, taken, rfl⟩, rest_some.2⟩
    · rintro ⟨⟨room, later⟩, _, ⟨c₁, taken, rfl⟩, owned⟩
      obtain ⟨allocated, capacity⟩ := read _ c₁ taken
      obtain ⟨c', took, same⟩ := (ih (i := i + 1) (c := c₁) (by omega)).2
        ⟨by rw [allocated, capacity]; exact later, owned⟩
      exact ⟨c', ⟨_, (opens_some follows).2 ⟨room, rfl⟩, c₁, taken, took⟩, same⟩

end UsbParsing

end EmkKernel
