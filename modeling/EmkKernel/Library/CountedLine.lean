import Mathlib.Data.Finset.Card
import Mathlib.Data.List.Nodup
import Mathlib.Data.Set.Insert
import Mathlib.Logic.Function.Basic

/-!
# Lines whose answers are only counted

Those who want something register at a line and are counted, and their requests are answered
in any order. The server takes as many answers as were counted, without a look at whose they
are, and closes the line, after which everybody who is registered leaves. As long as nobody
is overlooked when the server begins and no answer is taken before it was given, this is
right for each of them.
-/

namespace CountedLine

/-- A line. The requests of somebody are numbered by the lines left before; the first `base`
answers belong to the requests that are done with. -/
structure Line (ι : Type*) where
  registered : Finset ι
  counted : Finset ι
  left : ι → Nat
  outstanding : Nat
  isOpen : Bool
  written : Set (ι × Nat)
  submitted : List (ι × Nat)
  posted : List (ι × Nat)
  base : Nat
  consumed : Nat

namespace Line

section Events

variable {ι : Type*} (line : Line ι)

def request (who : ι) : ι × Nat := (who, line.left who)

/-- The requests that somebody knows of. -/
def Known (request : ι × Nat) : Prop :=
  request ∈ line.written ∨ request ∈ line.submitted ∨ request ∈ line.posted

def answered : List (ι × Nat) := line.posted.take line.base

def submit (requests : List (ι × Nat)) : Line ι :=
  { line with submitted := line.submitted ++ requests }

def take : Line ι := { line with consumed := line.consumed + 1 }

def close : Line ι := { line with isOpen := false, base := line.consumed, outstanding := 0 }

variable [DecidableEq ι]

def register (who : ι) : Line ι :=
  { line with registered := insert who line.registered, isOpen := true }

def count (who : ι) : Line ι :=
  { line with counted := insert who line.counted, outstanding := line.outstanding + 1 }

def post (request : ι × Nat) : Line ι :=
  { line with submitted := line.submitted.erase request, posted := line.posted ++ [request] }

def leave (who : ι) : Line ι :=
  { line with
    registered := line.registered.erase who
    counted := line.counted.erase who
    left := Function.update line.left who (line.left who + 1) }

end Events

/-- The books of a line: whoever is registered at an open line waits for an answer, and
whoever is registered at a closed one has it. -/
structure Books {ι : Type*} (line : Line ι) : Prop where
  counted : line.counted ⊆ line.registered
  outstanding : line.outstanding = if line.isOpen then line.counted.card else 0
  nodup : (line.submitted ++ line.posted).Nodup
  taken : line.base ≤ line.consumed ∧ line.consumed ≤ line.posted.length
  settled : line.isOpen = false → line.base = line.consumed
  fresh : line.isOpen = true → ∀ who ∈ line.registered, line.request who ∉ line.answered
  done : line.isOpen = false → ∀ who ∈ line.registered, line.request who ∈ line.answered
  known : ∀ who number, line.Known (who, number) →
    number < line.left who ∧ (who, number) ∈ line.answered ∨
      number = line.left who ∧ who ∈ line.counted

namespace Books

variable {ι : Type*} {line : Line ι} {who : ι}

theorem posted_nodup (books : line.Books) : line.posted.Nodup :=
  (List.nodup_append'.1 books.nodup).2.1

/-- Somebody who is not counted has nothing in the line. -/
theorem not_known (books : line.Books) (absent : who ∉ line.counted) :
    ¬line.Known (line.request who) := by
  intro known
  rcases books.known who (line.left who) known with ⟨earlier, -⟩ | ⟨-, counted⟩
  · exact absurd earlier (Nat.lt_irrefl _)
  · exact absent counted

/-- Somebody who is counted writes the request down, over whatever was there. -/
theorem write {written : Set (ι × Nat)} (books : line.Books) (counted : who ∈ line.counted)
    (wrote : written ⊆ insert (line.request who) line.written) :
    Books { line with written } := by
  refine ⟨books.counted, books.outstanding, books.nodup, books.taken, books.settled,
    books.fresh, books.done, fun other number known => ?_⟩
  rcases known with new | later
  · rcases wrote new with same | old
    · obtain ⟨rfl, rfl⟩ := Prod.mk.inj same
      exact Or.inr ⟨rfl, counted⟩
    · exact books.known other number (Or.inl old)
  · exact books.known other number (Or.inr later)

/-- What is submitted was written down, and was not submitted before. -/
theorem submit {requests : List (ι × Nat)} (books : line.Books)
    (wrote : ∀ request ∈ requests, request ∈ line.written) (nodup : requests.Nodup)
    (new : ∀ request ∈ requests, request ∉ line.submitted ∧ request ∉ line.posted) :
    (line.submit requests).Books := by
  obtain ⟨submitted, posted, apart⟩ := List.nodup_append'.1 books.nodup
  refine ⟨books.counted, books.outstanding, ?_, books.taken, books.settled, books.fresh,
    books.done, fun other number known => books.known other number ?_⟩
  · refine List.nodup_append'.2 ⟨?_, posted, ?_⟩
    · exact List.nodup_append'.2 ⟨submitted, nodup,
        fun request old request_new => (new request request_new).1 old⟩
    · intro request member answered
      rcases List.mem_append.1 member with old | request_new
      · exact apart old answered
      · exact (new request request_new).2 answered
  · rcases known with written | submitted | posted
    · exact Or.inl written
    · rcases List.mem_append.1 submitted with old | request_new
      · exact Or.inr (Or.inl old)
      · exact Or.inl (wrote _ request_new)
    · exact Or.inr (Or.inr posted)

theorem take (books : line.Books) (isOpen : line.isOpen = true)
    (posted : line.consumed < line.posted.length) : line.take.Books := by
  obtain ⟨base, -⟩ := books.taken
  exact ⟨books.counted, books.outstanding, books.nodup, ⟨base.trans (Nat.le_succ _), posted⟩,
    fun closed => absurd (isOpen.symm.trans closed) Bool.noConfusion, books.fresh, books.done,
    books.known⟩

/-- At a closed line, all that was posted is consumed. -/
theorem consumed_of_closed (books : line.Books) (closed : line.isOpen = false) :
    line.consumed = line.posted.length := by
  have all : line.posted ⊆ line.answered := by
    intro request member
    rcases books.known request.1 request.2 (Or.inr (Or.inr member)) with
      ⟨-, answered⟩ | ⟨number, counted⟩
    · exact answered
    · have mine := books.done closed request.1 (books.counted counted)
      rwa [Line.request, ← number] at mine
  have short := (books.posted_nodup.subperm all).length_le
  have settled := books.settled closed
  have := books.taken
  simp only [answered, List.length_take] at short
  omega

variable [DecidableEq ι]

theorem register (books : line.Books) (absent : who ∉ line.registered)
    (alone : line.isOpen = false → line.registered = ∅) : (line.register who).Books := by
  have uncounted : who ∉ line.counted := fun counted => absent (books.counted counted)
  refine ⟨?_, ?_, books.nodup, books.taken, ?_, ?_, ?_, books.known⟩
  · exact books.counted.trans (Finset.subset_insert who line.registered)
  · have outstanding := books.outstanding
    cases isOpen : line.isOpen with
    | true =>
      rw [isOpen] at outstanding
      exact outstanding
    | false =>
      -- nobody was registered, so nobody is counted
      have none_counted : line.counted = ∅ :=
        Finset.subset_empty.1 (alone isOpen ▸ books.counted)
      rw [isOpen] at outstanding
      simpa [Line.register, none_counted] using outstanding
  · exact fun closed => nomatch closed
  · intro _ other member answered
    rcases Finset.mem_insert.1 member with rfl | earlier
    · exact books.not_known uncounted (Or.inr (Or.inr (List.mem_of_mem_take answered)))
    · cases isOpen : line.isOpen with
      | true => exact books.fresh isOpen other earlier answered
      | false => exact absurd (alone isOpen ▸ earlier) (Finset.notMem_empty other)
  · exact fun closed => nomatch closed

theorem count (books : line.Books) (member : who ∈ line.registered)
    (absent : who ∉ line.counted) : (line.count who).Books := by
  have isOpen : line.isOpen = true := by
    by_contra closed
    have answered := books.done (Bool.eq_false_of_not_eq_true closed) who member
    exact books.not_known absent (Or.inr (Or.inr (List.mem_of_mem_take answered)))
  refine ⟨?_, ?_, books.nodup, books.taken, books.settled, books.fresh, books.done, ?_⟩
  · exact Finset.insert_subset member books.counted
  · have outstanding := books.outstanding
    rw [isOpen, if_pos rfl] at outstanding
    simp [Line.count, isOpen, outstanding, Finset.card_insert_of_notMem absent]
  · intro other number known
    exact (books.known other number known).imp_right
      (And.imp_right (Finset.mem_insert_of_mem (a := other)))

theorem answered_post (books : line.Books) (request : ι × Nat) :
    (line.post request).answered = line.answered :=
  List.take_append_of_le_length (books.taken.1.trans books.taken.2)

theorem post {request : ι × Nat} (books : line.Books) (submitted : request ∈ line.submitted) :
    (line.post request).Books := by
  refine ⟨books.counted, books.outstanding, ?_, ⟨books.taken.1, ?_⟩, books.settled, ?_, ?_, ?_⟩
  · -- the request moves from one list to the other
    have moved : (line.submitted ++ line.posted).Perm
        (line.submitted.erase request ++ (line.posted ++ [request])) := by
      refine ((List.perm_cons_erase submitted).append_right line.posted).trans ?_
      rw [← List.append_assoc]
      exact (List.perm_append_singleton request _).symm
    exact moved.nodup_iff.1 books.nodup
  · exact books.taken.2.trans (by simp [Line.post])
  · rw [books.answered_post]
    exact books.fresh
  · rw [books.answered_post]
    exact books.done
  · rw [books.answered_post]
    intro who number known
    refine books.known who number ?_
    rcases known with written | waits | posted
    · exact Or.inl written
    · exact Or.inr (Or.inl (List.mem_of_mem_erase waits))
    · rcases List.mem_append.1 posted with old | this
      · exact Or.inr (Or.inr old)
      · rw [List.mem_singleton.1 this]
        exact Or.inr (Or.inl submitted)

/-- What was posted and is not done with belongs to somebody who is counted. -/
theorem of_mem_drop {request : ι × Nat} (books : line.Books)
    (member : request ∈ line.posted.drop line.base) :
    request ∈ line.counted.image line.request := by
  have nodup := books.posted_nodup
  rw [← List.take_append_drop line.base line.posted] at nodup
  have apart := (List.nodup_append'.1 nodup).2.2
  rcases books.known request.1 request.2 (Or.inr (Or.inr (List.mem_of_mem_drop member)))
    with ⟨-, answered⟩ | ⟨number, counted⟩
  · exact absurd member (apart answered)
  · exact Finset.mem_image.2 ⟨request.1, counted, Prod.ext rfl number.symm⟩

/-- When as many answers were taken as are outstanding, everybody counted has one. -/
theorem answered_of_taken (books : line.Books) (isOpen : line.isOpen = true)
    (taken : line.consumed = line.base + line.outstanding) (counted : who ∈ line.counted) :
    line.request who ∈ line.posted.take line.consumed := by
  have outstanding := books.outstanding
  rw [isOpen, if_pos rfl] at outstanding
  -- the answers that were taken now
  let now := (line.posted.drop line.base).take line.outstanding
  have nodup : now.Nodup := (books.posted_nodup.drop).take
  have length : now.length = line.outstanding := by
    have := books.taken.2
    simp only [now, List.length_take, List.length_drop]
    omega
  have inside : now.toFinset ⊆ line.counted.image line.request := by
    intro request member
    exact books.of_mem_drop (List.mem_of_mem_take (List.mem_toFinset.1 member))
  have all : now.toFinset = line.counted.image line.request := by
    refine Finset.eq_of_subset_of_card_le inside (Finset.card_image_le.trans ?_)
    rw [List.toFinset_card_of_nodup nodup, length, outstanding]
  have mine : line.request who ∈ now :=
    List.mem_toFinset.1 (all ▸ Finset.mem_image_of_mem line.request counted)
  rw [taken, List.take_add]
  exact List.mem_append_right _ mine

theorem close (books : line.Books) (isOpen : line.isOpen = true)
    (all : line.registered ⊆ line.counted)
    (taken : line.consumed = line.base + line.outstanding) : line.close.Books := by
  have more : line.answered ⊆ line.close.answered :=
    (List.take_prefix_take_left books.taken.1).subset
  refine ⟨books.counted, rfl, books.nodup, ⟨Nat.le_refl _, books.taken.2⟩, fun _ => rfl,
    (fun still => nomatch still), ?_, ?_⟩
  · exact fun _ who member => books.answered_of_taken isOpen taken (all member)
  · intro who number known
    exact (books.known who number known).imp_left (And.imp_right (more ·))

/-- Whoever is registered leaves a closed line. -/
theorem leave (books : line.Books) (closed : who ∈ line.registered → line.isOpen = false) :
    (line.leave who).Books := by
  have others : ∀ other ∈ line.registered.erase who,
      (line.leave who).request other = line.request other := by
    intro other member
    exact congrArg (Prod.mk other) (Function.update_of_ne (Finset.ne_of_mem_erase member) _ _)
  refine ⟨Finset.erase_subset_erase who books.counted, ?_, books.nodup, books.taken,
    books.settled, ?_, ?_, ?_⟩
  · have outstanding := books.outstanding
    cases isOpen : line.isOpen with
    | false =>
      rw [isOpen] at outstanding
      simpa [Line.leave, isOpen] using outstanding
    | true =>
      have absent : who ∉ line.counted := by
        intro counted
        exact absurd ((closed (books.counted counted)).symm.trans isOpen) Bool.noConfusion
      rw [isOpen] at outstanding
      simpa [Line.leave, isOpen, Finset.erase_eq_of_notMem absent] using outstanding
  · intro isOpen other member
    rw [others other member]
    exact books.fresh isOpen other (Finset.mem_of_mem_erase member)
  · intro isClosed other member
    rw [others other member]
    exact books.done isClosed other (Finset.mem_of_mem_erase member)
  · intro other number known
    by_cases same : other = who
    · subst same
      left
      simp only [Line.leave, Function.update_self]
      rcases books.known other number known with ⟨earlier, answered⟩ | ⟨rfl, counted⟩
      · exact ⟨by omega, answered⟩
      · have registered := books.counted counted
        exact ⟨by omega, books.done (closed registered) other registered⟩
    · rw [show (line.leave who).left other = line.left other from Function.update_of_ne same _ _]
      exact (books.known other number known).imp_right
        (And.imp_right fun counted => Finset.mem_erase.2 ⟨same, counted⟩)

end Books

end Line

end CountedLine
