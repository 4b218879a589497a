import ExactCover.Proofs.Search.Calls

/-!
# Using one problem again and again

A search borrows the table of its problem and edits it.  Wherever it is left, the table that
`Search.close` gives back is the one that it got (`Search.Explores.close_eq`): every selection that
is still in force was made on the table that the selections below it had left, so retracting them
from the innermost outwards passes through the same tables again.

So the uses that a problem can be put to do not interfere.  `Problem.use` is one of them — counting
the solutions, asking for the first, or calling for some of them and leaving — and
`Problem.Built.close_and_useAll` says that any number of uses in a row see what each would have seen
alone, and that the problem is the same after all of them.
-/

set_option autoImplicit false

namespace ExactCover

variable {C R : Type} [Key C] [Key R] {p : Problem C R} {live : List R} {s : Search C R}

/-! ## Leaving a search -/

namespace Search

/-- **Wherever a search of `p` is left, `p` is given back.** -/
theorem Explores.close_eq (hp : p.table.Coherent p.options) (h : s.Explores p live) :
    s.close = p := by
  have htable := h.stack.foldl_retract hp
  rw [← h.chosen_eq, ← h.table_eq, ← h.options_eq] at htable
  exact Problem.ext htable h.options_eq

/-- What a number of calls answer, each with the work done by then, and the search after them. -/
def answers : Nat → Search C R → List (Option (List R) × Statistics) × Search C R
  | 0, s => ([], s)
  | k + 1, s =>
    let (answer, s') := s.next
    let (more, s'') := answers k s'
    ((answer, s'.statistics) :: more, s'')

theorem answers_snd (k : Nat) (s : Search C R) : (s.answers k).2 = s.after k := by
  induction k generalizing s with
  | zero => rfl
  | succ k ih => exact ih s.next.2

end Search

/-! ## Uses -/

/-- What a problem can be used for. -/
inductive Use where
  /-- Counting the solutions. -/
  | count
  /-- Asking for the first solution. -/
  | first
  /-- Opening a search, calling it so many times, and leaving it. -/
  | calls (k : Nat)

/-- What is seen of a use. -/
inductive Outcome (R : Type) where
  /-- The number of solutions. -/
  | count (n : Nat)
  /-- The first solution, if there is one. -/
  | first (answer : Option (List R))
  /-- The answers, each with the work done by then. -/
  | calls (answers : List (Option (List R) × Statistics))
deriving DecidableEq

namespace Problem

/-- **One use**: what is seen of it, and the problem that its search gives back. -/
def use (p : Problem C R) : Use → Outcome R × Problem C R
  | .count => (.count p.countSolutions.1, p.countSolutions.2.close)
  | .first => (.first p.firstSolution.1, p.firstSolution.2.close)
  | .calls k => (.calls (p.solve.answers k).1, (p.solve.answers k).2.close)

/-- Several uses, each of the problem that the one before gave back. -/
def useAll (p : Problem C R) : List Use → List (Outcome R) × Problem C R
  | [] => ([], p)
  | u :: us =>
    let (outcome, p') := p.use u
    let (outcomes, p'') := p'.useAll us
    (outcome :: outcomes, p'')

/-- A search can be left after any number of calls. -/
theorem close_after (hp : p.table.Shows p.options p.table.keys live) (k : Nat) :
    (p.solve.after k).close = p :=
  ((p.explores_solve live).after hp k).1.close_eq hp.coherent

/-- **A use gives the problem back.** -/
theorem use_snd (hp : p.table.Shows p.options p.table.keys live) (u : Use) : (p.use u).2 = p := by
  cases u with
  | count => exact ((p.explores_solve live).rest hp).1.close_eq hp.coherent
  | first => exact close_after hp 1
  | calls k => rw [use, Search.answers_snd, close_after hp]

namespace Built

theorem close_after (hp : p.Built) (k : Nat) : (p.solve.after k).close = p :=
  Problem.close_after hp.consistent.shows k

theorem use_snd (hp : p.Built) (u : Use) : (p.use u).2 = p :=
  Problem.use_snd hp.consistent.shows u

/-- Whatever a problem has been used for, it is what it was. -/
theorem useAll_snd (hp : p.Built) (us : List Use) : (p.useAll us).2 = p := by
  induction us with
  | nil => rfl
  | cons u us ih =>
    show ((p.use u).2.useAll us).2 = p
    rw [hp.use_snd, ih]

/-- **A problem can be used again and again.**  A search of it can be left after any number of calls
and gives back the problem, and of any uses in a row each sees what it would have seen of the
problem as it was first. -/
theorem close_and_useAll (hp : p.Built) : (∀ k, (p.solve.after k).close = p) ∧
    ∀ us, p.useAll us = (us.map fun u ↦ (p.use u).1, p) := by
  refine ⟨hp.close_after, fun us ↦ ?_⟩
  induction us with
  | nil => rfl
  | cons u us ih =>
    show ((p.use u).1 :: ((p.use u).2.useAll us).1, ((p.use u).2.useAll us).2) = _
    rw [hp.use_snd, ih, List.map_cons]

/-- The triangle is left in the middle of a search and used three times more. -/
theorem close_and_useAll_triangle : triangle.Built ∧ (triangle.solve.after 1).close = triangle ∧
    triangle.useAll [.calls 1, .first, .count, .calls 2] =
      ([.calls [(some [1, 4], ⟨2, 0, 1⟩)], .first (some [1, 4]), .count 1,
        .calls [(some [1, 4], ⟨2, 0, 1⟩), (none, ⟨3, 1, 1⟩)]], triangle) := by
  have h := Built.close_and_useAll triangle_built
  refine ⟨triangle_built, h.1 1, (h.2 _).trans ?_⟩
  decide +kernel

end Built

end Problem

end ExactCover
