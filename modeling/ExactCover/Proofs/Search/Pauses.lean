import ExactCover.Proofs.Search.Calls

/-!
# A search between two calls

Within a call a search passes through tables that lack some of their columns, and through frames
that are opened, emptied and closed.  None of this outlasts the call.  A call that answers nothing
leaves the search as it was before the first: no frame is open, and the table is the one that the
search was set up with (`Search.AtRest`).  A call that answers a solution leaves a table without
columns, for they are all covered, and every frame that is open then has a row of the solution
selected (`Search.AtSolution`).

So the table is either whole or empty whenever the caller can see it, and a search that is abandoned
leaves behind the problem it was set up for, or the rows of this problem without any column
(`Search.Explores.abandon_next`).
-/

set_option autoImplicit false

namespace ExactCover

variable {C R : Type} [Key C] [Key R] {p : Problem C R} {live rows : List R} {s : Search C R}

namespace Search

/-- **Nothing is selected**, and the table is that of `p`. -/
structure AtRest (p : Problem C R) (s : Search C R) : Prop where
  /-- All columns are in the table, with all of their candidates. -/
  table_eq : s.table = p.table
  /-- The rows are those of the problem. -/
  options_eq : s.options = p.options
  /-- No rows have been put together. -/
  chosen_eq : s.chosen = []
  /-- No frame is open, so no selection waits to be retracted. -/
  frames_eq : s.frames = []

/-- **The rows of a solution of `p` are selected.** -/
structure AtSolution (p : Problem C R) (rows : List R) (s : Search C R) : Prop where
  /-- All columns are covered. -/
  table_eq : s.table = ∅
  /-- The rows are those of the problem. -/
  options_eq : s.options = p.options
  /-- The rows that have been put together are those of the solution. -/
  chosen_eq : s.chosen = rows
  /-- Every frame has a row selected.  From the outermost frame to the innermost, these are the rows
  of the solution. -/
  selected_eq : s.frames.reverse.map (·.selected.map (·.row)) = rows.map some

omit [Key C] in
/-- Where every frame has a row selected, the frames tell which rows are chosen. -/
theorem map_selected_reverse {frames : List (Frame C R)}
    (h : ∀ f ∈ frames, f.selected.isSome = true) :
    frames.reverse.map (·.selected.map (·.row)) = (chosenIn frames).map some := by
  induction frames with
  | nil => rfl
  | cons f outer ih =>
    rw [List.forall_mem_cons] at h
    obtain ⟨searched, _ | σ, untried⟩ := f
    · exact absurd h.1 (by simp)
    · rw [chosenIn_cons_some, List.reverse_cons, List.map_append, ih h.2, List.map_append]
      rfl

namespace Explores

/-- Without frames there are no selections. -/
theorem atRest (h : s.Explores p live) (hframes : s.frames = []) : s.AtRest p where
  table_eq := by rw [h.table_eq, h.chosen_eq, hframes]; rfl
  options_eq := h.options_eq
  chosen_eq := by rw [h.chosen_eq, hframes]; rfl
  frames_eq := hframes

/-- **A call that answers nothing leaves nothing selected.** -/
theorem atRest_next (hp : p.table.Shows p.options p.table.keys live) (h : s.Explores p live)
    (hanswer : s.next.1 = none) : s.next.2.AtRest p := by
  have hnext := h.next hp
  rw [hanswer] at hnext
  cases hnext with
  | exhausted _ _ h' hframes _ => exact h'.atRest hframes

/-- **A call that answers a solution leaves just its rows selected.** -/
theorem atSolution_next (hp : p.table.Shows p.options p.table.keys live) (h : s.Explores p live)
    (hanswer : s.next.1 = some rows) : s.next.2.AtSolution p rows := by
  have hnext := h.next hp
  rw [hanswer] at hnext
  cases hnext with
  | solution _ _ _ h' hrows htable hselected =>
    refine ⟨htable, h'.options_eq, hrows, ?_⟩
    rw [map_selected_reverse hselected, ← h'.chosen_eq, hrows]

end Explores

/-- Abandoning a search at rest gives back the problem. -/
theorem AtRest.abandon_eq (h : s.AtRest p) : s.abandon = p :=
  Problem.ext h.table_eq h.options_eq

/-- Abandoning a search at a solution leaves no column. -/
theorem AtSolution.abandon_eq (h : s.AtSolution p rows) : s.abandon = ⟨∅, p.options⟩ :=
  Problem.ext h.table_eq h.options_eq

/-- **An abandoned search leaves its problem behind as it was or without columns.** -/
theorem Explores.abandon_next (hp : p.table.Shows p.options p.table.keys live)
    (h : s.Explores p live) : s.next.2.abandon = p ∨ s.next.2.abandon = ⟨∅, p.options⟩ := by
  cases hanswer : s.next.1 with
  | none => exact .inl (h.atRest_next hp hanswer).abandon_eq
  | some rows => exact .inr (h.atSolution_next hp hanswer).abandon_eq

end Search

namespace Problem

theorem atRest_solve (p : Problem C R) : p.solve.AtRest p := ⟨rfl, rfl, rfl, rfl⟩

/-- **Between calls the table is either whole or empty.**  Nothing is selected before the first call
and after each that answers nothing, the rows of the solution are selected after each that answers
one, and at no time have the options changed.  So the problem that an abandoned search leaves behind
is the original one, or has its rows and no column. -/
theorem Built.atRest_or_atSolution (hp : p.Built) : p.solve.AtRest p ∧
    (∀ k, (p.solve.after k).next.1 = none → (p.solve.after (k + 1)).AtRest p) ∧
    (∀ k rows, (p.solve.after k).next.1 = some rows →
      (p.solve.after (k + 1)).AtSolution p rows) ∧
    ∀ k, (p.solve.after k).options = p.options ∧
      ((p.solve.after k).abandon = p ∨ (p.solve.after k).abandon = ⟨∅, p.options⟩) := by
  have hshows := hp.consistent.shows
  refine ⟨p.atRest_solve, fun k hanswer ↦ ?_, fun k rows hanswer ↦ ?_,
    fun k ↦ ⟨(hp.explores_after k).options_eq, ?_⟩⟩
  · rw [Search.after_succ]
    exact (hp.explores_after k).atRest_next hshows hanswer
  · rw [Search.after_succ]
    exact (hp.explores_after k).atSolution_next hshows hanswer
  · cases k with
    | zero => exact .inl p.atRest_solve.abandon_eq
    | succ k =>
      rw [Search.after_succ]
      exact (hp.explores_after k).abandon_next hshows

/-- The triangle is empty after the only solution, and whole after the call that follows. -/
theorem atRest_or_atSolution_triangle : triangle.Built ∧
    (triangle.solve.after 0).next.1 = some [1, 4] ∧
    (triangle.solve.after 1).AtSolution triangle [1, 4] ∧
    (triangle.solve.after 1).next.1 = none ∧ (triangle.solve.after 2).AtRest triangle := by
  obtain ⟨-, hrest, hsolution, -⟩ := Built.atRest_or_atSolution triangle_built
  have hfirst : (triangle.solve.after 0).next.1 = some [1, 4] := by decide +kernel
  have hsecond : (triangle.solve.after 1).next.1 = none := by decide +kernel
  exact ⟨triangle_built, hfirst, hsolution 0 _ hfirst, hsecond, hrest 1 hsecond⟩

end Problem

end ExactCover
