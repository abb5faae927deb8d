import Mathlib.Algebra.Ring.Nat
import Mathlib.Data.Set.Lattice
import Mathlib.Order.CompletePartialOrder
import Mathlib.Tactic.Common

/-!
# Postconditions of computations that change a state and may fail

A computation in `EStateM` ends with a value or with an error, in a state. Its
specification is a pair of postconditions, one for each of the two. The rules
below follow the computation from left to right; a loop over a list keeps an
invariant that may mention the elements left.
-/

namespace EStateM

variable {ε σ α β : Type}

/-- The value of a computation that returns. -/
def value? (x : EStateM ε σ α) (s : σ) : Option α :=
  match x s with
  | .ok a _ => some a
  | .error _ _ => none

theorem value?_of_ok {x : EStateM ε σ α} {s s' : σ} {a : α} (ran : x s = .ok a s') :
    x.value? s = some a := by
  rw [value?, ran]

theorem ok_of_value? {x : EStateM ε σ α} {s : σ} {a : α} (ended : x.value? s = some a) :
    ∃ s', x s = .ok a s' := by
  unfold value? at ended
  split at ended
  next a₁ s' ran =>
    cases ended
    exact ⟨s', ran⟩
  next => cases ended

/-- The state behind a computation that returns. -/
def state? (x : EStateM ε σ α) (s : σ) : Option σ :=
  match x s with
  | .ok _ s' => some s'
  | .error _ _ => none

theorem ok_of_state? {x : EStateM ε σ α} {s s' : σ} (ended : x.state? s = some s') :
    ∃ a, x s = .ok a s' := by
  unfold state? at ended
  split at ended
  next a s₁ ran =>
    cases ended
    exact ⟨a, ran⟩
  next => cases ended

/-- Run from `s`, a value ends with `Q` and an error with `R`. -/
def Yields (x : EStateM ε σ α) (s : σ) (Q : α → σ → Prop) (R : ε → σ → Prop) : Prop :=
  match x s with
  | .ok a s' => Q a s'
  | .error e s' => R e s'

variable {x : EStateM ε σ α} {f : α → EStateM ε σ β} {s : σ} {Q Q' : α → σ → Prop}
  {R R' : ε → σ → Prop}

theorem Yields.ok {a : α} {s' : σ} (yields : Yields x s Q R) (ran : x s = .ok a s') : Q a s' := by
  simpa [Yields, ran] using yields

theorem Yields.error {e : ε} {s' : σ} (yields : Yields x s Q R) (ran : x s = .error e s') :
    R e s' := by
  simpa [Yields, ran] using yields

theorem Yields.mono (yields : Yields x s Q R) (value : ∀ a s', Q a s' → Q' a s')
    (failure : ∀ e s', R e s' → R' e s') : Yields x s Q' R' := by
  unfold Yields at yields ⊢
  split at yields
  · exact value _ _ yields
  · exact failure _ _ yields

/-- Without an error to end with, the computation returns. -/
theorem Yields.returns (yields : Yields x s Q R) (sound : ∀ e s', ¬R e s') :
    ∃ a s', x s = .ok a s' ∧ Q a s' := by
  unfold Yields at yields
  cases ran : x s with
  | ok a s' =>
    rw [ran] at yields
    exact ⟨a, s', rfl, yields⟩
  | error e s' =>
    rw [ran] at yields
    exact absurd yields (sound e s')

theorem Yields.and (first : Yields x s Q R) (second : Yields x s Q' R') :
    Yields x s (fun a s' => Q a s' ∧ Q' a s') fun e s' => R e s' ∧ R' e s' := by
  unfold Yields at *
  cases ran : x s with
  | ok a s' =>
    rw [ran] at first second
    exact ⟨first, second⟩
  | error e s' =>
    rw [ran] at first second
    exact ⟨first, second⟩

theorem yields_of_ok {a : α} {s' : σ} (ran : x s = .ok a s') (value : Q a s') : Yields x s Q R := by
  simpa only [Yields, ran] using value

theorem get_bind_run {f : σ → EStateM ε σ β} (s : σ) :
    ((get : EStateM ε σ σ) >>= f) s = f s s := rfl

theorem set_bind_run {f : PUnit → EStateM ε σ β} (s s' : σ) :
    ((set s' : EStateM ε σ PUnit) >>= f) s = f ⟨⟩ s' := rfl

/-- A computation of which nothing is known. -/
theorem yields_any (x : EStateM ε σ α) (s : σ) : Yields x s (fun _ _ => True) fun _ _ => True := by
  unfold Yields
  split <;> trivial

@[simp] theorem yields_pure (a : α) : Yields (pure a) s Q R ↔ Q a s := Iff.rfl

@[simp] theorem yields_throw (e : ε) : Yields (throw e : EStateM ε σ α) s Q R ↔ R e s := Iff.rfl

@[simp] theorem yields_get {Q : σ → σ → Prop} :
    Yields (get : EStateM ε σ σ) s Q R ↔ Q s s := Iff.rfl

@[simp] theorem yields_set {Q : PUnit → σ → Prop} (s' : σ) :
    Yields (set s' : EStateM ε σ PUnit) s Q R ↔ Q ⟨⟩ s' := Iff.rfl

@[simp] theorem yields_modify {Q : PUnit → σ → Prop} (g : σ → σ) :
    Yields (modify g : EStateM ε σ PUnit) s Q R ↔ Q ⟨⟩ (g s) := Iff.rfl

@[simp] theorem yields_bind {Q : β → σ → Prop} :
    Yields (x >>= f) s Q R ↔ Yields x s (fun a s' => Yields (f a) s' Q R) R := by
  simp only [Yields, bind, EStateM.bind]
  cases x s <;> rfl

@[simp] theorem yields_map {g : α → β} {Q : β → σ → Prop} :
    Yields (g <$> x) s Q R ↔ Yields x s (fun a s' => Q (g a) s') R := by
  simp only [Yields, Functor.map, EStateM.map]
  cases x s <;> rfl

@[simp] theorem yields_ite (c : Prop) [Decidable c] (y : EStateM ε σ α) :
    Yields (if c then x else y) s Q R ↔ if c then Yields x s Q R else Yields y s Q R := by
  split <;> rfl

theorem yields_tryCatch {handle : ε → EStateM ε σ α} (yields : Yields x s Q R)
    (caught : ∀ e s', R e s' → Yields (handle e) s' Q R') : Yields (tryCatch x handle) s Q R' := by
  unfold Yields at yields
  cases ran : x s with
  | ok a s' =>
    rw [ran] at yields
    have returned : tryCatch x handle s = .ok a s' := by
      simp only [MonadExcept.tryCatch, tryCatchThe, MonadExceptOf.tryCatch, EStateM.tryCatch, ran]
    exact yields_of_ok returned yields
  | error e s' =>
    rw [ran] at yields
    have handled : tryCatch x handle s = handle e s' := by
      simp only [MonadExcept.tryCatch, tryCatchThe, MonadExceptOf.tryCatch, EStateM.tryCatch, ran]
      rfl
    unfold Yields
    rw [handled]
    exact caught e s' yields

/-- A loop over a list ends with what its invariant says when no element is left. -/
theorem yields_forM {γ : Type} (body : γ → EStateM ε σ PUnit) (Inv : List γ → σ → Prop)
    (step : ∀ c rest s, Inv (c :: rest) s → Yields (body c) s (fun _ => Inv rest) R)
    {items : List γ} (start : Inv items s) : Yields (items.forM body) s (fun _ => Inv []) R := by
  induction items generalizing s with
  | nil => exact start
  | cons c rest ih =>
    change Yields (body c >>= fun _ => rest.forM body) s _ R
    rw [yields_bind]
    exact (step c rest s start).mono (fun _ s' kept => ih kept) fun _ _ failed => failed

/-- A loop that counts, with an invariant of the rounds made. -/
theorem yields_range (body : Nat → EStateM ε σ PUnit) (Inv : Nat → σ → Prop) (n : Nat)
    (step : ∀ i < n, ∀ s, Inv i s → Yields (body i) s (fun _ => Inv (i + 1)) R)
    (start : Inv 0 s) : Yields ((List.range n).forM body) s (fun _ => Inv n) R := by
  induction n with
  | zero => exact start
  | succ n ih =>
    rw [List.range_succ]
    change Yields (forM (List.range n ++ [n]) body) s _ R
    rw [List.forM_append, yields_bind]
    refine (ih fun i below => step i (by omega)).mono (fun _ s' inv => ?_) fun _ _ failed => failed
    change Yields (body n >>= fun _ => pure ()) s' _ R
    rw [yields_bind]
    exact step n (by omega) s' inv

/-- A loop that changes a value, with an invariant of the elements left and the value. -/
theorem yields_foldlM {γ : Type} (f : β → γ → EStateM ε σ β) (Inv : List γ → β → σ → Prop)
    (step : ∀ c rest b s, Inv (c :: rest) b s → Yields (f b c) s (Inv rest) R)
    {items : List γ} {b : β} (start : Inv items b s) :
    Yields (items.foldlM f b) s (Inv []) R := by
  induction items generalizing s b with
  | nil => exact start
  | cons c rest ih =>
    rw [List.foldlM_cons, yields_bind]
    exact (step c rest b s start).mono (fun _ _ kept => ih kept) fun _ _ failed => failed

/-- A search that changes nothing finds whether some element passes. -/
theorem yields_anyM {γ : Type} (test : γ → EStateM ε σ Bool) {Q : γ → Prop}
    {items : List γ}
    (each : ∀ c ∈ items, Yields (test c) s (fun found s' => s' = s ∧ (found = true ↔ Q c)) R) :
    Yields (items.anyM test) s (fun found s' => s' = s ∧ (found = true ↔ ∃ c ∈ items, Q c)) R := by
  induction items with
  | nil => exact ⟨rfl, by simp⟩
  | cons c rest ih =>
    rw [List.anyM, yields_bind]
    refine (each c (List.mem_cons_self)).mono ?_ fun _ _ failed => failed
    rintro found s' ⟨rfl, first⟩
    cases found with
    | true => exact ⟨rfl, iff_of_true rfl ⟨c, List.mem_cons_self, first.mp rfl⟩⟩
    | false =>
      have later := ih fun d member => each d (List.mem_cons_of_mem c member)
      refine later.mono (fun found s' kept => ⟨kept.1, kept.2.trans ?_⟩) fun _ _ failed => failed
      simp only [List.mem_cons, exists_eq_or_imp]
      rw [or_iff_right fun passes => Bool.false_ne_true (first.mpr passes)]

/-- From every state with `I` a computation comes to a state with `I`, unless it ends
with an error that is excused. -/
def Maintains (I : σ → Prop) (excused : ε → Prop) (x : EStateM ε σ α) : Prop :=
  ∀ s, I s → Yields x s (fun _ => I) fun e s' => excused e ∨ I s'

section Maintains

variable {I : σ → Prop} {excused : ε → Prop}

theorem maintains_pure (a : α) : Maintains I excused (pure a : EStateM ε σ α) :=
  fun _ inv => inv

theorem maintains_bind (first : Maintains I excused x)
    (rest : ∀ a, Maintains I excused (f a)) : Maintains I excused (x >>= f) := by
  intro s inv
  rw [yields_bind]
  exact (first s inv).mono (fun a s' kept => rest a s' kept) fun _ _ failed => failed

theorem maintains_forM {γ : Type} {body : γ → EStateM ε σ PUnit} {items : List γ}
    (each : ∀ c ∈ items, Maintains I excused (body c)) : Maintains I excused (items.forM body) := by
  induction items with
  | nil => exact maintains_pure _
  | cons c rest ih =>
    refine maintains_bind (each c (List.mem_cons_self ..)) fun _ => ih fun d later => ?_
    exact each d (List.mem_cons_of_mem c later)

end Maintains

end EStateM
