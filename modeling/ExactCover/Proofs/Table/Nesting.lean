import ExactCover.Proofs.Search.Lookups

/-!
# Nested selections

Rows are selected one after another, each in the table that those before it have left, and then the
selections are retracted in the reverse order, each from its own record.  A record is read on a
table from which columns are missing, and does not say which candidates were struck; but the table
is the one in which the record was made, as it was right after, and it is coherent.  So every
retraction is the inverse of its selection, and the tables on the way back are those on the way
there (`Coherent.retract_undos`).

The rows can be any, in any order: a row that is not listed any more, or that shares columns with an
earlier one, covers what is left of its columns.
-/

set_option autoImplicit false

namespace ExactCover.Table

variable {C R : Type} [Key C] [Key R] {o : Options C R} {t : Table C R} {rows : List R}

/-- The tables passed through when rows are selected one after another, from `t` to the last. -/
def stages (o : Options C R) (t : Table C R) (rows : List R) : List (Table C R) :=
  rows.scanl (fun t r ↦ (t.select o r).1) t

/-- The records of these selections, in the order made. -/
def undos (o : Options C R) (t : Table C R) : List R → List (Undo C R)
  | [] => []
  | r :: rows => (t.select o r).2 :: undos o (t.select o r).1 rows

/-- The tables passed through when selections are retracted one after another, from `t` to the
last. -/
def stagesBack (o : Options C R) (t : Table C R) (us : List (Undo C R)) : List (Table C R) :=
  us.scanl (retract o) t

theorem stages_cons {r : R} :
    t.stages o (r :: rows) = t :: (t.select o r).1.stages o rows := List.scanl_cons

theorem selectAll_cons {r : R} :
    t.selectAll o (r :: rows) = (t.select o r).1.selectAll o rows := rfl

theorem stagesBack_concat {us : List (Undo C R)} {u : Undo C R} :
    t.stagesBack o (us ++ [u]) = t.stagesBack o us ++ [(us.foldl (retract o) t).retract o u] := by
  rw [stagesBack, List.scanl_append]
  rfl

/-! ## Coherence along the way -/

/-- **All tables on the way are coherent.** -/
theorem Coherent.of_mem_stages (h : t.Coherent o) {s : Table C R} (hs : s ∈ t.stages o rows) :
    s.Coherent o := by
  induction rows generalizing t with
  | nil => exact List.mem_singleton.1 hs ▸ h
  | cons r rows ih =>
    rw [stages_cons] at hs
    rcases List.mem_cons.1 hs with rfl | hs
    · exact h
    · exact ih (h.select r) hs

/-- What a coherent table lists is a row. -/
theorem Coherent.declared (h : t.Coherent o) : Declared o (t, []) :=
  ⟨fun c r hl ↦ Options.mem_of_mem_columns (h.mem_columns c r hl), nofun⟩

/-- There are only rows on the records of the way. -/
theorem Coherent.mem_of_mem_undos (h : t.Coherent o) (hrows : ∀ r ∈ rows, r ∈ o) {u : Undo C R}
    (hu : u ∈ t.undos o rows) : ∀ e ∈ u, ∀ r ∈ e.2, r ∈ o := by
  induction rows generalizing t with
  | nil => exact absurd hu List.not_mem_nil
  | cons r rows ih =>
    rw [List.forall_mem_cons] at hrows
    rcases List.mem_cons.1 hu with rfl | hu
    · exact (h.declared.select hrows.1).2.mem_of_undo
    · exact ih (h.select r) hrows.2 hu

/-! ## The way back -/

/-- All retractions together give back the first table. -/
theorem Coherent.foldl_retract_undos (h : t.Coherent o) :
    (t.undos o rows).reverse.foldl (retract o) (t.selectAll o rows) = t := by
  induction rows generalizing t with
  | nil => rfl
  | cons r rows ih =>
    rw [undos, List.reverse_cons, List.foldl_append, selectAll_cons, ih (h.select r)]
    exact h.retract_select r

/-- **The tables on the way back are those on the way there.** -/
theorem Coherent.stagesBack_undos (h : t.Coherent o) :
    (t.selectAll o rows).stagesBack o (t.undos o rows).reverse = (t.stages o rows).reverse := by
  induction rows generalizing t with
  | nil => rfl
  | cons r rows ih =>
    have h' := h.select r
    rw [undos, List.reverse_cons, selectAll_cons, stagesBack_concat, ih h',
      h'.foldl_retract_undos, h.retract_select, stages_cons, List.reverse_cons]

/-- **Retracting undoes selecting, however deeply selections are nested.**  Take any rows, and
select them one after another.  Retracting the selections in the reverse order passes through the
tables of the way there, back to the first, and all of these are coherent.  None of the operations
looks up what is not a row. -/
theorem Coherent.retract_undos (h : t.Coherent o) (hrows : ∀ r ∈ rows, r ∈ o) :
    (t.selectAll o rows).stagesBack o (t.undos o rows).reverse = (t.stages o rows).reverse ∧
      (t.stages o rows).head? = some t ∧
      (t.stages o rows).getLast? = some (t.selectAll o rows) ∧
      (∀ s ∈ t.stages o rows, s.Coherent o ∧ ∀ r ∈ rows, s.select? o r = some (s.select o r)) ∧
      ∀ u ∈ t.undos o rows, ∀ s : Table C R, s.retract? o u = some (s.retract o u) := by
  refine ⟨h.stagesBack_undos, List.head?_scanl, List.getLast?_scanl, fun s hs ↦ ?_,
    fun u hu s ↦ retract?_eq (h.mem_of_mem_undos hrows hu)⟩
  have hcoherent := h.of_mem_stages hs
  exact ⟨hcoherent, fun r hr ↦ (hcoherent.declared.select (hrows r hr)).1⟩

/-- The corner of the triangle is selected, and then two of its sides that are not listed any
more. -/
theorem retract_undos_triangle :
    Problem.triangle.table.Coherent Problem.triangle.options ∧
      (∀ r ∈ [4, 3, 2], r ∈ Problem.triangle.options) ∧
      ((Problem.triangle.table.selectAll Problem.triangle.options [4, 3, 2]).stagesBack
        Problem.triangle.options
        (Problem.triangle.table.undos Problem.triangle.options [4, 3, 2]).reverse).map
          (fun t ↦ t.toList.map fun e ↦ (e.1, e.2.toList)) =
        [[], [(1, [])], [(1, [1]), (2, [1])], [(1, [1, 2]), (2, [1, 3]), (3, [2, 3, 4])]] := by
  have hcoherent := Problem.triangle_built.consistent.shows.coherent
  have hrows : ∀ r ∈ [4, 3, 2], r ∈ Problem.triangle.options := by decide +kernel
  refine ⟨hcoherent, hrows, ?_⟩
  rw [(Coherent.retract_undos hcoherent hrows).1]
  decide +kernel

end ExactCover.Table
