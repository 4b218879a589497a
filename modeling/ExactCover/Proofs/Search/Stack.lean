import ExactCover.Proofs.Search.Visits
import ExactCover.Search.Basic

/-!
# The frames of a search

A search holds a stack of frames and one table.  The rows selected can be read off the frames
(`chosenIn`), and both are determined by them: the table is the one that these selections leave
(`Problem.tableAfter`), and each frame lists the candidates of the column that was tightest when
only the frames below it had a row selected, and keeps what the selection of its own row took out of
that table (`Frame.OpenedOn`).  `Stack` says so of all frames at once.  From it follows what there
is still to be met, `Problem.pendingIn`, and that all frames together can be left: retracting their
selections, the innermost first, gives back the table that the search started with
(`Stack.foldl_retract`).
-/

set_option autoImplicit false

namespace ExactCover

variable {C R : Type} [Key C] [Key R]

/-- The candidates of a frame's column. -/
def Frame.candidates (f : Frame C R) : List R :=
  f.searched.reverse ++ (f.selected.map (·.row)).toList ++ f.untried

/-- The rows selected in the frames of a stack, in the order selected. -/
def chosenIn (frames : List (Frame C R)) : List R :=
  (frames.filterMap fun f ↦ f.selected.map (·.row)).reverse

section chosenIn

variable {frames : List (Frame C R)} {searched untried : List R}

omit [Key C]

@[simp]
theorem chosenIn_nil : chosenIn ([] : List (Frame C R)) = [] := rfl

@[simp]
theorem chosenIn_cons_none : chosenIn (⟨searched, none, untried⟩ :: frames) = chosenIn frames := by
  simp [chosenIn]

@[simp]
theorem chosenIn_cons_some {σ : Selection C R} :
    chosenIn (⟨searched, some σ, untried⟩ :: frames) = chosenIn frames ++ [σ.row] := by
  simp [chosenIn]

end chosenIn

/-! ## What is left of the search tree -/

namespace Problem

/-- The table that selecting the given rows leaves. -/
def tableAfter (p : Problem C R) (rows : List R) : Table C R := p.table.selectAll p.options rows

/-- The visits below the node to which selecting the given rows leads, if the search started with
the given live rows. -/
def visitsAfter (p : Problem C R) (live rows : List R) : List (Visit R) :=
  p.options.visits (rows.foldl p.options.uncovered p.table.keys)
    (rows.foldl p.options.compatible live) rows

/-- The visits of the branch that selects `r` after the given rows. -/
def branch (p : Problem C R) (live rows : List R) (r : R) : List (Visit R) :=
  .enter r :: p.visitsAfter live (rows ++ [r])

/-- The visits of all branches that a stack of frames leaves. -/
def pendingIn (p : Problem C R) (live : List R) : List (Frame C R) → List (Visit R)
  | [] => []
  | f :: outer => f.untried.flatMap (p.branch live (chosenIn outer)) ++ p.pendingIn live outer

variable {p : Problem C R} {live rows : List R} {c : C} {rs : Std.ExtTreeSet R}

@[simp]
theorem tableAfter_concat {r : R} :
    p.tableAfter (rows ++ [r]) = ((p.tableAfter rows).select p.options r).1 :=
  Table.selectAll_concat

theorem visitsAfter_of_eq_none (h : p.table.Shows p.options p.table.keys live)
    (ht : (p.tableAfter rows).tightest? = none) : p.visitsAfter live rows = [.solution rows] :=
  (h.selectAll rows).visits_of_eq_none ht

theorem visitsAfter_of_isEmpty (h : p.table.Shows p.options p.table.keys live)
    (ht : (p.tableAfter rows).tightest? = some (c, rs)) (hrs : rs.isEmpty = true) :
    p.visitsAfter live rows = [.deadEnd] :=
  (h.selectAll rows).visits_of_isEmpty ht hrs

theorem visitsAfter_of_not_isEmpty (h : p.table.Shows p.options p.table.keys live)
    (ht : (p.tableAfter rows).tightest? = some (c, rs)) (hrs : ¬rs.isEmpty = true) :
    p.visitsAfter live rows = rs.toList.flatMap (p.branch live rows) := by
  rw [visitsAfter, (h.selectAll rows).visits_of_not_isEmpty ht hrs]
  refine congrArg rs.toList.flatMap (funext fun r ↦ ?_)
  simp only [branch, visitsAfter, List.foldl_append, List.foldl_cons, List.foldl_nil]

end Problem

/-! ## Stacks of frames -/

/-- **The frame was opened on the table `t`**: its candidates are those of the tightest column, and
its selection was made in `t`. -/
structure Frame.OpenedOn (o : Options C R) (t : Table C R) (f : Frame C R) : Prop where
  /-- The candidates are those of the tightest column. -/
  candidates_eq : ∃ c rs, t.tightest? = some (c, rs) ∧ f.candidates = rs.toList
  /-- The undo record is that of selecting the row in `t`. -/
  undo_eq : ∀ σ, f.selected = some σ → σ.undo = (t.select o σ.row).2

/-- **The frames of a search of `p`**: each was opened on the table that the selections below it
leave. -/
inductive Stack (p : Problem C R) : List (Frame C R) → Prop
  | nil : Stack p []
  | cons {f : Frame C R} {outer : List (Frame C R)} (houter : Stack p outer)
      (hselected : ∀ g ∈ outer, g.selected.isSome = true)
      (hf : f.OpenedOn p.options (p.tableAfter (chosenIn outer))) : Stack p (f :: outer)

/-- A frame stays one that was opened on the table when its candidates do not change, as long as it
keeps the record of its selection. -/
theorem Frame.OpenedOn.of_candidates_eq {o : Options C R} {t : Table C R} {f g : Frame C R}
    (h : f.OpenedOn o t) (hg : g.candidates = f.candidates)
    (hundo : ∀ σ, g.selected = some σ → σ.undo = (t.select o σ.row).2) : g.OpenedOn o t := by
  obtain ⟨c, rs, htight, hrs⟩ := h.candidates_eq
  exact ⟨⟨c, rs, htight, hg.trans hrs⟩, hundo⟩

variable {p : Problem C R}

/-- A row that is a candidate of a frame's column covers it. -/
theorem Frame.OpenedOn.exists_mem {t : Table C R} {f : Frame C R} (hf : f.OpenedOn p.options t)
    (ht : t.Coherent p.options) {σ : Selection C R} (hσ : f.selected = some σ) :
    ∃ c ∈ t, c ∈ p.options.columns σ.row := by
  obtain ⟨c, rs, htight, hrs⟩ := hf.candidates_eq
  have hc := Table.getElem?_of_tightest? htight
  have hmem : σ.row ∈ rs := by
    rw [← Std.ExtTreeSet.mem_toList, ← hrs, Frame.candidates, hσ]
    simp
  have hl := (Table.lists_iff_of_getElem? hc).2 hmem
  exact ⟨c, Table.mem_of_lists hl, ht.mem_columns c _ hl⟩

namespace Stack

variable {frames : List (Frame C R)}

theorem tail {f : Frame C R} {outer : List (Frame C R)} (h : Stack p (f :: outer)) :
    Stack p outer := by
  cases h
  assumption

/-- **Leaving all frames gives back the table.** -/
theorem foldl_retract (hp : p.table.Coherent p.options) (h : Stack p frames) :
    (frames.filterMap (·.selected)).foldl (fun t σ ↦ t.retract p.options σ.undo)
      (p.tableAfter (chosenIn frames)) = p.table := by
  induction h with
  | nil => rfl
  | @cons f outer _ _ hf ih =>
    obtain ⟨searched, selected, untried⟩ := f
    cases selected with
    | none =>
      rw [chosenIn_cons_none, List.filterMap_cons_none rfl]
      exact ih
    | some σ =>
      have hback := (hp.selectAll (chosenIn outer)).retract_select σ.row
      rw [chosenIn_cons_some, Problem.tableAfter_concat]
      simp only [List.filterMap_cons, List.foldl_cons, hf.undo_eq σ rfl]
      exact hback.symm ▸ ih

/-- The columns in the table and those on record are those that the search started with. -/
theorem foldr_covered (h : Stack p frames) :
    frames.foldr (fun f n ↦ f.covered + n) (p.tableAfter (chosenIn frames)).size =
      p.table.size := by
  have hadd (l : List (Frame C R)) (a b : Nat) :
      l.foldr (fun f n ↦ f.covered + n) (a + b) = a + l.foldr (fun f n ↦ f.covered + n) b := by
    induction l with
    | nil => rfl
    | cons f l ih => rw [List.foldr_cons, List.foldr_cons, ih, Nat.add_left_comm]
  induction h with
  | nil => rfl
  | @cons f outer _ _ hf ih =>
    obtain ⟨searched, selected, untried⟩ := f
    cases selected with
    | none =>
      rw [chosenIn_cons_none, List.foldr_cons, ih]
      exact Nat.zero_add _
    | some σ =>
      rw [← Table.size_select_add_length (o := p.options) (r := σ.row), Nat.add_comm, hadd] at ih
      rw [chosenIn_cons_some, Problem.tableAfter_concat, List.foldr_cons, Frame.covered]
      dsimp only
      rw [hf.undo_eq σ rfl]
      exact ih

/-- While all frames have a row selected, each has taken a column out of the table. -/
theorem length_add_size_le (hp : p.table.Coherent p.options) (h : Stack p frames)
    (hselected : ∀ f ∈ frames, f.selected.isSome = true) :
    frames.length + (p.tableAfter (chosenIn frames)).size ≤ p.table.size := by
  induction h with
  | nil => exact Nat.le_of_eq (Nat.zero_add _)
  | @cons f outer _ houter hf ih =>
    obtain ⟨searched, selected, untried⟩ := f
    cases selected with
    | none => simp at hselected
    | some σ =>
      obtain ⟨c, hc, hcσ⟩ := hf.exists_mem (hp.selectAll _) rfl
      have hlt := Table.size_select_lt hc hcσ
      have hle := ih houter
      rw [chosenIn_cons_some, Problem.tableAfter_concat, List.length_cons]
      omega

/-- **There are no more frames than columns.** -/
theorem length_le (hp : p.table.Coherent p.options) (h : Stack p frames) :
    frames.length ≤ p.table.size := by
  cases h with
  | nil => exact Nat.zero_le _
  | @cons f outer houter hselected hf =>
    have hle := houter.length_add_size_le hp hselected
    have hpos : (p.tableAfter (chosenIn outer)).size ≠ 0 := by
      intro hzero
      obtain ⟨c, rs, htight, -⟩ := hf.candidates_eq
      have hempty := Std.ExtTreeMap.eq_empty_iff_size_eq_zero.2 hzero
      rw [Table.tightest?_eq_none_iff.2 hempty] at htight
      cases htight
    rw [List.length_cons]
    omega

end Stack

end ExactCover
