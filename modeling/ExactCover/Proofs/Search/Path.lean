import ExactCover.Proofs.Search.Lockstep
import ExactCover.Proofs.Search.Lookups

/-!
# The table along a search

The table of a search has been edited by every selection and every retraction since the search
began.  None of that history matters.  Whenever one looks, the table is what the rows selected at
that moment leave of the original one (`Problem.LeftBy`): the columns that none of these rows
covers, and under each of them its candidates, without those that share a column with one of these
rows.  So it depends on the set of these rows alone (`Problem.LeftBy.eq_of_restates`), and it is
empty just when they cover every column.

One can look between two steps of the search, hence whenever a row has just been retracted and
whenever a call returns; and within a step, when a row has just been selected and the node that this
leads to has not been looked at (`Search.Passes`).
-/

set_option autoImplicit false

namespace ExactCover

variable {C R : Type} [Key C] [Key R] {p q : Problem C R} {live rows rows' : List R}
  {t t' : Table C R}

/-! ## What selections leave -/

namespace Problem

/-- **The table is what the given rows leave of the table of `p`.** -/
structure LeftBy (p : Problem C R) (rows : List R) (t : Table C R) : Prop where
  /-- The columns are those that none of the rows covers. -/
  mem_iff : ∀ c, c ∈ t ↔ c ∈ p.table ∧ ∀ r ∈ rows, c ∉ p.options.columns r
  /-- The candidates are those that share no column with any of the rows. -/
  lists_iff : ∀ c ∈ t, ∀ r', t.Lists c r' ↔
    p.table.Lists c r' ∧ ¬∃ r ∈ rows, ∃ d ∈ p.options.columns r, d ∈ p.options.columns r'

/-- Selecting rows leaves what it should. -/
theorem leftBy_tableAfter (hp : p.table.Coherent p.options) (rows : List R) :
    p.LeftBy rows (p.tableAfter rows) where
  mem_iff _ := Table.mem_selectAll
  lists_iff c _ r' := by
    rw [tableAfter, hp.lists_selectAll]
    simp only [not_exists, not_and]

namespace LeftBy

/-- The table is empty just when the rows cover every column. -/
theorem eq_empty_iff (h : p.LeftBy rows t) :
    t = ∅ ↔ ∀ c ∈ p.table, ∃ r ∈ rows, c ∈ p.options.columns r := by
  rw [Std.ExtTreeMap.eq_empty_iff_forall_not_mem]
  simp only [h.mem_iff, not_and, not_forall, not_not, exists_prop]

/-- **What rows leave depends on the set of these rows only**, and not on the order in which rows
declare their columns. -/
theorem eq_of_restates (hp : p.Consistent) (hq : q.Consistent) (hpq : p.Restates q)
    (h : p.LeftBy rows t) (h' : q.LeftBy rows' t') (hrows : ∀ r, r ∈ rows ↔ r ∈ rows') :
    t = t' := by
  have hmem (c : C) : c ∈ t ↔ c ∈ t' := by
    rw [h.mem_iff, h'.mem_iff, hpq.mem_table]
    simp only [hrows, hpq.mem_columns_iff]
  refine Table.ext_lists hmem fun c r ↦ ?_
  by_cases hc : c ∈ t
  · rw [h.lists_iff c hc, h'.lists_iff c ((hmem c).1 hc), hp.lists_iff, hq.lists_iff]
    simp only [hrows, hpq.mem_columns_iff]
  · exact iff_of_false (fun hl ↦ hc (Table.mem_of_lists hl))
      fun hl ↦ hc ((hmem c).2 (Table.mem_of_lists hl))

end LeftBy

end Problem

/-! ## The moments of a search -/

namespace Search

variable {s s' : Search C R}

/-- **The moments that a search passes through.** -/
inductive Passes (s : Search C R) : Search C R → Prop
  /-- Between two steps. -/
  | between {s' : Search C R} (h : s.Reaches s') : Passes s s'
  /-- Within a step, after a row was selected. -/
  | entered {s' : Search C R} {searched untried : List R} {row : R} {outer : List (Frame C R)}
      (h : s.Reaches s') (hphase : s'.phase = .searching)
      (hframes : s'.frames = ⟨searched, none, row :: untried⟩ :: outer) :
      Passes s (s'.enter searched row untried outer)

theorem Reaches.run {n : Nat} (h : s.Reaches s') : s.Reaches (s'.run n).2 := by
  induction n generalizing s' with
  | zero => exact h
  | succ n ih =>
    have hstep := h.step
    rw [Search.run]
    generalize s'.step = result at hstep
    obtain ⟨report, s''⟩ := result
    cases report with
    | working => exact ih hstep
    | solution rows => exact hstep
    | exhausted => exact hstep

/-- A call returns at a moment between two steps. -/
theorem reaches_after (s : Search C R) (k : Nat) : s.Reaches (s.after k) := by
  induction k with
  | zero => exact .refl
  | succ k ih =>
    rw [after_succ]
    exact ih.run

/-- **At every moment the table is what the rows selected leave.** -/
theorem Explores.leftBy (hp : p.table.Shows p.options p.table.keys live) (h : s.Explores p live)
    (hs : s.Passes s') : s'.options = p.options ∧ p.LeftBy s'.chosen s'.table := by
  cases hs with
  | between hs =>
    have h' := h.reaches hp hs
    exact ⟨h'.options_eq, h'.table_eq ▸ Problem.leftBy_tableAfter hp.coherent _⟩
  | entered hs _ _ =>
    have h' := h.reaches hp hs
    exact ⟨h'.options_eq, h'.table_enter ▸ Problem.leftBy_tableAfter hp.coherent _⟩

/-- **At every moment the rows selected are those of the frames.** -/
theorem Explores.chosen_of_passes (hp : p.table.Shows p.options p.table.keys live)
    (h : s.Explores p live) (hs : s.Passes s') : s'.chosen = chosenIn s'.frames := by
  cases hs with
  | between hs => exact (h.reaches hp hs).chosen_eq
  | entered hs _ hframes => exact (h.reaches hp hs).chosen_enter hframes

end Search

/-! ## Searches of problems that were built -/

namespace Problem

/-- **The table of a search is determined by the rows selected.**  At every moment of a search, in
particular whenever a call returns, the options are those of the problem; the table is what the rows
selected leave of the table of the problem; and it is empty just when they cover every column.  Two
searches have the same table whenever the same rows are selected, in whatever order they were, and
in whatever order the rows of their problems declare their columns. -/
theorem Built.table_along (hp : p.Built) :
    (∀ k, p.solve.Passes (p.solve.after k)) ∧
    (∀ s, p.solve.Passes s → s.options = p.options ∧ p.LeftBy s.chosen s.table ∧
      (s.table = ∅ ↔ ∀ c ∈ p.table, ∃ r ∈ s.chosen, c ∈ p.options.columns r)) ∧
    ∀ q : Problem C R, q.Built → p.Restates q → ∀ s s', p.solve.Passes s → q.solve.Passes s' →
      (∀ r, r ∈ s.chosen ↔ r ∈ s'.chosen) → s.table = s'.table := by
  have hleft {q : Problem C R} (hq : q.Built) {s : Search C R} (hs : q.solve.Passes s) :
      s.options = q.options ∧ q.LeftBy s.chosen s.table :=
    (q.explores_solve q.options.keys).leftBy hq.consistent.shows hs
  refine ⟨fun k ↦ .between (p.solve.reaches_after k), fun s hs ↦ ?_,
    fun q hq hpq s s' hs hs' hchosen ↦ ?_⟩
  · obtain ⟨hoptions, htable⟩ := hleft hp hs
    exact ⟨hoptions, htable, htable.eq_empty_iff⟩
  · exact LeftBy.eq_of_restates hp.consistent hq.consistent hpq (hleft hp hs).2 (hleft hq hs').2
      hchosen

/-- In the triangle, one side has been selected when the corner that it leaves is still in the
table, and the table is empty at the solution. -/
theorem table_along_triangle : triangle.Built ∧
    (∃ s, triangle.solve.Passes s ∧ s.chosen = [1] ∧ triangle.LeftBy [1] s.table ∧
      s.table ≠ ∅) ∧
    triangle.LeftBy [1, 4] (triangle.solve.after 1).table ∧
    (triangle.solve.after 1).table = ∅ := by
  obtain ⟨hcalls, hmoments, -⟩ := Built.table_along triangle_built
  have hside : (triangle.solve.step.2.step.2).chosen = [1] := by decide +kernel
  have hcorner : ¬∀ c ∈ triangle.table.keys, ∃ r ∈ [1], c ∈ triangle.options.columns r := by
    decide +kernel
  have hsolution : (triangle.solve.after 1).chosen = [1, 4] := by decide +kernel
  have hcovered : ∀ c ∈ triangle.table.keys, ∃ r ∈ [1, 4], c ∈ triangle.options.columns r := by
    decide +kernel
  simp only [Std.ExtTreeMap.mem_keys] at hcorner hcovered
  have hpasses : triangle.solve.Passes triangle.solve.step.2.step.2 :=
    .between (.step (.step .refl))
  obtain ⟨-, hleft, hempty⟩ := hmoments _ hpasses
  obtain ⟨-, hleft', hempty'⟩ := hmoments _ (hcalls 1)
  rw [hside] at hleft hempty
  rw [hsolution] at hleft' hempty'
  exact ⟨triangle_built, ⟨_, hpasses, hside, hleft, mt hempty.1 hcorner⟩, hleft',
    hempty'.2 hcovered⟩

end Problem

end ExactCover
