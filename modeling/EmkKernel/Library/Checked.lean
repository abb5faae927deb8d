import Mathlib.Algebra.Ring.Nat
import Mathlib.Data.Set.Lattice
import Mathlib.Order.CompletePartialOrder
import Mathlib.Tactic.Common

/-!
# Computations that look at ranges of memory and may end early

A computation ends with a value, rejects its input, or stops where it never should, and
records the ranges of memory it looked at on the way. `Safe` is its weakest precondition
for looking at allowed ranges only, and never stopping. Each rule is an equivalence, so
the condition under which a computation is safe can be computed by rewriting.
-/

/-- An end without a value. -/
inductive Halt (ε : Type) where
  | rejects (e : ε)
  | stops
  deriving DecidableEq, Repr

/-- A result, and the ranges looked at: their first addresses and lengths. -/
structure Checked (ε α : Type) where
  result : Except (Halt ε) α
  looked : List (Nat × Nat)

namespace Checked

variable {ε α β : Type}

instance : Monad (Checked ε) where
  pure a := ⟨.ok a, []⟩
  bind x f :=
    match x.result with
    | .ok a => ⟨(f a).result, x.looked ++ (f a).looked⟩
    | .error halt => ⟨.error halt, x.looked⟩

def reject (e : ε) : Checked ε α := ⟨.error (.rejects e), []⟩

/-- The end of a computation that never should. -/
def stop : Checked ε α := ⟨.error .stops, []⟩

def look (address n : Nat) : Checked ε Unit := ⟨.ok (), [(address, n)]⟩

/-- The value that is there, or a stop. -/
def orStop : Option α → Checked ε α
  | some a => pure a
  | none => stop

/-- Only allowed ranges are looked at, there is no stop, and a value has `Q`. -/
def Safe (x : Checked ε α) (allowed : Nat → Nat → Prop) (Q : α → Prop) : Prop :=
  (∀ range ∈ x.looked, allowed range.1 range.2) ∧
    match x.result with
    | .ok a => Q a
    | .error (.rejects _) => True
    | .error .stops => False

variable {x : Checked ε α} {f : α → Checked ε β} {allowed : Nat → Nat → Prop} {Q : α → Prop}

theorem result_bind {a : α} (ran : x.result = .ok a) : (x >>= f).result = (f a).result := by
  simp only [bind, ran]

theorem result_bind_error {halt : Halt ε} (ran : x.result = .error halt) :
    (x >>= f).result = .error halt := by
  simp only [bind, ran]

theorem mem_looked_bind {range : Nat × Nat} (member : range ∈ x.looked) :
    range ∈ (x >>= f).looked := by
  simp only [bind]
  split
  · exact List.mem_append_left _ member
  · exact member

/-- Nothing is looked at when a value is changed. -/
theorem looked_bind_pure (x : Checked ε α) (g : α → β) :
    (x >>= fun a => pure (g a)).looked = x.looked := by
  simp only [bind, pure]
  split
  · exact List.append_nil _
  · rfl

/-- A computation that looks at nothing on the way to its value. -/
theorem bind_quiet {a : α} (ran : x.result = .ok a) (quiet : x.looked = []) :
    x >>= f = f a := by
  simp only [bind, ran, quiet, List.nil_append]

theorem Safe.of_ok {a : α} (safe : Safe x allowed Q) (ran : x.result = .ok a) : Q a := by
  have value := safe.2
  rw [ran] at value
  exact value

theorem Safe.mono {Q' : α → Prop} (safe : Safe x allowed Q) (weaker : ∀ a, Q a → Q' a) :
    Safe x allowed Q' := by
  refine ⟨safe.1, ?_⟩
  have value := safe.2
  revert value
  cases x.result with
  | ok a => exact weaker a
  | error halt => cases halt <;> exact id

@[simp] theorem safe_pure (a : α) : Safe (pure a : Checked ε α) allowed Q ↔ Q a := by
  simp [Safe, pure]

@[simp] theorem safe_reject (e : ε) : Safe (reject e) allowed Q ↔ True := by
  simp [Safe, reject]

@[simp] theorem safe_stop : Safe (stop : Checked ε α) allowed Q ↔ False := by
  simp [Safe, stop]

@[simp] theorem safe_look {Q : Unit → Prop} (address n : Nat) :
    Safe (look address n : Checked ε Unit) allowed Q ↔ allowed address n ∧ Q () := by
  simp [Safe, look]

@[simp] theorem safe_orStop (o : Option α) :
    Safe (orStop o : Checked ε α) allowed Q ↔ ∃ a, o = some a ∧ Q a := by
  cases o with
  | some a => simp [orStop]
  | none => simp [orStop]

@[simp] theorem safe_bind {Q : β → Prop} :
    Safe (x >>= f) allowed Q ↔ Safe x allowed fun a => Safe (f a) allowed Q := by
  simp only [Safe, bind]
  cases x.result with
  | ok a =>
    simp only [List.mem_append]
    constructor
    · rintro ⟨all, value⟩
      exact ⟨fun r member => all r (Or.inl member), fun r member => all r (Or.inr member), value⟩
    · rintro ⟨before, after, value⟩
      exact ⟨fun r member => member.elim (before r) (after r), value⟩
  | error halt => cases halt <;> rfl

@[simp] theorem safe_ite (c : Prop) [Decidable c] (y : Checked ε α) :
    Safe (if c then x else y) allowed Q ↔ if c then Safe x allowed Q else Safe y allowed Q := by
  split <;> rfl

/-- Every value of the computation has `Q`. -/
def EndsWith (x : Checked ε α) (Q : α → Prop) : Prop := ∀ a, x.result = .ok a → Q a

theorem Safe.and_ends {Q' : α → Prop} (safe : Safe x allowed Q) (ends : EndsWith x Q') :
    Safe x allowed fun a => Q a ∧ Q' a := by
  refine ⟨safe.1, ?_⟩
  have value := safe.2
  revert value
  cases ran : x.result with
  | ok a => exact fun value => ⟨value, ends a ran⟩
  | error halt => cases halt <;> exact id

@[simp] theorem ends_pure (a : α) : EndsWith (pure a : Checked ε α) Q ↔ Q a := by
  simp [EndsWith, pure]

@[simp] theorem ends_stop : EndsWith (stop : Checked ε α) Q ↔ True := by
  simp [EndsWith, stop]

@[simp] theorem ends_look {Q : Unit → Prop} (address n : Nat) :
    EndsWith (look address n : Checked ε Unit) Q ↔ Q () :=
  ⟨fun ends => ends () rfl, fun value _ _ => value⟩

@[simp] theorem ends_orStop (o : Option α) :
    EndsWith (orStop o : Checked ε α) Q ↔ ∀ a, o = some a → Q a := by
  cases o with
  | some a => simp [orStop]
  | none => simp [orStop]

@[simp] theorem ends_bind {Q : β → Prop} :
    EndsWith (x >>= f) Q ↔ EndsWith x fun a => EndsWith (f a) Q := by
  simp only [EndsWith, bind]
  cases x.result with
  | ok a => simp
  | error halt => simp

@[simp] theorem ends_ite (c : Prop) [Decidable c] (y : Checked ε α) :
    EndsWith (if c then x else y) Q ↔ if c then EndsWith x Q else EndsWith y Q := by
  split <;> rfl

theorem EndsWith.mono {Q' : α → Prop} (ends : EndsWith x Q)
    (weaker : ∀ a, Q a → Q' a) : EndsWith x Q' :=
  fun a ran => weaker a (ends a ran)

end Checked
