import ExactCover.Proofs.Problem.Assembling
import ExactCover.Proofs.Problem.Lifetime
import Mathlib.Data.List.Forall2

/-!
# Searches in lockstep

A row declares its columns in some order, and selecting it covers them in this order, each in the
table that the ones before have left.  The order shows in the undo records, but in nothing else: the
table after any selections depends on which columns the rows cover
(`Problem.Parallel.tableAfter_eq`).  So two problems that differ in such orders only,
`Problem.Restates`, are searched in lockstep.  Their searches branch on the same columns, try the
same rows, report the same and log the same (`Search.InStep`), and every step keeps them together
(`Search.Explores.inStep_step`).

`Problem.sameCourse` says so of whole searches, in particular of those of problems that were put
together from the same columns and rows in different orders.
-/

set_option autoImplicit false

namespace ExactCover

variable {C R : Type} [Key C] [Key R]

/-! ## The same problem in other words -/

namespace Problem

/-- **The problem `q` has the columns and the rows of `p`**, and each row covers the same columns in
both, in whatever order it declares them. -/
structure Restates (p q : Problem C R) : Prop where
  /-- The columns are the same. -/
  mem_table : ∀ c, c ∈ p.table ↔ c ∈ q.table
  /-- The rows are the same. -/
  mem_options : ∀ r, r ∈ p.options ↔ r ∈ q.options
  /-- Each row declares the same columns. -/
  columns_perm : ∀ r, (p.options.columns r).Perm (q.options.columns r)

/-- Besides, both are searched by the same rows, those in `live`. -/
structure Parallel (p q : Problem C R) (live : List R) : Prop extends Restates p q where
  /-- The one problem shows its columns and the live rows. -/
  shows_left : p.table.Shows p.options p.table.keys live
  /-- So does the other. -/
  shows_right : q.table.Shows q.options q.table.keys live

variable {p q : Problem C R} {live : List R} {c : C} {r : R}

theorem Restates.mem_columns_iff (h : p.Restates q) :
    c ∈ p.options.columns r ↔ c ∈ q.options.columns r :=
  (h.columns_perm r).mem_iff

theorem Restates.rowCount_eq (h : p.Restates q) : p.rowCount = q.rowCount := by
  have hkeys : p.options.keys = q.options.keys := by
    refine Ascending.ext Std.ExtTreeMap.ordered_keys Std.ExtTreeMap.ordered_keys fun r ↦ ?_
    rw [Std.ExtTreeMap.mem_keys, Std.ExtTreeMap.mem_keys, h.mem_options]
  rw [rowCount, rowCount, ← Std.ExtTreeMap.length_keys, hkeys, Std.ExtTreeMap.length_keys]

namespace Parallel

theorem table_eq (h : p.Parallel q live) : p.table = q.table := by
  refine Table.ext_lists h.mem_table fun c r ↦ ?_
  rw [h.shows_left.lists_iff, h.shows_right.lists_iff, h.mem_columns_iff]

/-- **Selecting the same rows leaves the same table.** -/
theorem tableAfter_eq (h : p.Parallel q live) (rows : List R) :
    p.tableAfter rows = q.tableAfter rows := by
  refine Table.ext_lists (fun c ↦ ?_) fun c r ↦ ?_
  · rw [tableAfter, tableAfter, Table.mem_selectAll, Table.mem_selectAll, h.table_eq]
    simp only [h.mem_columns_iff]
  · rw [tableAfter, tableAfter, h.shows_left.coherent.lists_selectAll,
      h.shows_right.coherent.lists_selectAll, h.table_eq]
    simp only [h.mem_columns_iff]

end Parallel

end Problem

/-! ## Two searches side by side -/

/-- What a frame says of the search tree: the candidates searched, selected and untried. -/
def Frame.branches (f : Frame C R) : List R × Option R × List R :=
  (f.searched, f.selected.map (·.row), f.untried)

section Frame

variable {f : Frame C R} {searched untried : List R} {row : R}

omit [Key C]

theorem Frame.eq_of_branches_eq (h : f.branches = (searched, none, untried)) :
    f = ⟨searched, none, untried⟩ := by
  obtain ⟨_, _ | σ, _⟩ := f
  · cases h
    rfl
  · cases h

theorem Frame.exists_selection (h : f.branches = (searched, some row, untried)) :
    ∃ σ : Selection C R, σ.row = row ∧ f = ⟨searched, some σ, untried⟩ := by
  obtain ⟨_, _ | σ, _⟩ := f
  · cases h
  · cases h
    exact ⟨σ, rfl, rfl⟩

end Frame

namespace Search

/-- **The searches are in step**: they have come to the same node, by the same work, and have logged
the same.  Their undo records may differ. -/
structure InStep (s s' : Search C R) : Prop where
  /-- The frames have the same candidates, and the same of them are selected. -/
  branches_eq : s.frames.map Frame.branches = s'.frames.map Frame.branches
  /-- The same rows are selected. -/
  chosen_eq : s.chosen = s'.chosen
  /-- Both have come equally far. -/
  phase_eq : s.phase = s'.phase
  /-- Both have done the same work. -/
  statistics_eq : s.statistics = s'.statistics
  /-- Both have logged the same. -/
  log_eq : s.log = s'.log

variable {p q : Problem C R} {live : List R} {s s' : Search C R}

namespace InStep

variable {searched untried : List R} {outer outer' : List (Frame C R)}

theorem depth_eq (h : InStep s s') : s.depth = s'.depth := congrArg List.length h.chosen_eq

/-- A frame on top of the one stack has its like on top of the other. -/
theorem exists_cons {f : Frame C R} (h : InStep s s') (hframes : s.frames = f :: outer) :
    ∃ f' outer', s'.frames = f' :: outer' ∧ f'.branches = f.branches ∧
      outer.map Frame.branches = outer'.map Frame.branches := by
  have hbranches := h.branches_eq
  rw [hframes, List.map_cons, eq_comm, List.map_eq_cons_iff] at hbranches
  obtain ⟨f', outer', hframes', hf, houter⟩ := hbranches
  exact ⟨f', outer', hframes', hf, houter.symm⟩

theorem exists_cons_none (h : InStep s s')
    (hframes : s.frames = ⟨searched, none, untried⟩ :: outer) :
    ∃ outer', s'.frames = ⟨searched, none, untried⟩ :: outer' ∧
      outer.map Frame.branches = outer'.map Frame.branches := by
  obtain ⟨f', outer', hframes', hf, houter⟩ := h.exists_cons hframes
  exact ⟨outer', Frame.eq_of_branches_eq hf ▸ hframes', houter⟩

/-- **Looking at the same table finds the same.** -/
theorem descend (h : InStep s s') (htable : s.table = s'.table) :
    s.descend.1 = s'.descend.1 ∧ InStep s.descend.2 s'.descend.2 := by
  rcases hnode : s.table.tightest? with _ | ⟨c, rs⟩
  · rw [descend_of_eq_none hnode, descend_of_eq_none (htable ▸ hnode), h.chosen_eq,
      h.statistics_eq, h.depth_eq, h.log_eq]
    exact ⟨rfl, h.branches_eq, rfl, h.phase_eq, rfl, rfl⟩
  by_cases hrs : rs.isEmpty = true
  · rw [descend_of_isEmpty hnode hrs, descend_of_isEmpty (htable ▸ hnode) hrs, h.statistics_eq,
      h.depth_eq, h.log_eq]
    exact ⟨rfl, h.branches_eq, h.chosen_eq, h.phase_eq, rfl, rfl⟩
  · rw [descend_of_not_isEmpty hnode hrs, descend_of_not_isEmpty (htable ▸ hnode) hrs, h.depth_eq,
      h.log_eq]
    exact ⟨rfl, congrArg (_ :: ·) h.branches_eq, h.chosen_eq, h.phase_eq, h.statistics_eq, rfl⟩

theorem finish (h : InStep s s') : InStep s.finish s'.finish := by
  have hphase := h.phase_eq
  rw [Search.finish, Search.finish]
  cases hs : s.phase <;> rw [hs] at hphase <;> rw [← hphase]
  · exact ⟨h.branches_eq, h.chosen_eq, rfl, h.statistics_eq, by rw [h.statistics_eq, h.log_eq]⟩
  · exact ⟨h.branches_eq, h.chosen_eq, rfl, h.statistics_eq, by rw [h.statistics_eq, h.log_eq]⟩
  · exact h

/-- Retracting, and selecting, the same row keeps the searches in step. -/
theorem leave {σ σ' : Selection C R} (h : InStep s s') (hrow : σ'.row = σ.row)
    (houter : outer.map Frame.branches = outer'.map Frame.branches) :
    InStep (s.leave searched σ untried outer) (s'.leave searched σ' untried outer') := by
  refine ⟨?_, congrArg List.dropLast h.chosen_eq, h.phase_eq, h.statistics_eq, ?_⟩
  · simp [Search.leave, Frame.branches, hrow, houter]
  · simp only [Search.leave, h.log_eq, h.chosen_eq, hrow]

theorem enter {row : R} (h : InStep s s')
    (houter : outer.map Frame.branches = outer'.map Frame.branches) :
    InStep (s.enter searched row untried outer) (s'.enter searched row untried outer') := by
  refine ⟨congrArg (_ :: ·) houter, congrArg (· ++ [row]) h.chosen_eq, h.phase_eq, ?_, ?_⟩
  · simp only [Search.enter, h.statistics_eq]
  · simp only [Search.enter, h.depth_eq, h.log_eq]

end InStep

/-! ## One step -/

namespace Explores

/-- **Every step keeps the searches in step**, and it reports the same in both. -/
theorem inStep_step (hpq : p.Parallel q live)
    (hs : s.Explores p live) (hs' : s'.Explores q live) (h : InStep s s') :
    s.step.1 = s'.step.1 ∧ InStep s.step.2 s'.step.2 := by
  have hstep := hs.step_cases
  generalize s.step = result at hstep ⊢
  cases hstep with
  | ready hphase =>
    have htable : s.table = s'.table := by
      rw [hs.table_eq, hs'.table_eq, h.chosen_eq, hpq.tableAfter_eq]
    rw [step_of_ready (h.phase_eq ▸ hphase)]
    exact InStep.descend ⟨h.branches_eq, h.chosen_eq, rfl, h.statistics_eq, h.log_eq⟩ htable
  | nil hphase hframes =>
    have hframes' : s'.frames = [] := by
      have hbranches := h.branches_eq
      rwa [hframes, List.map_nil, eq_comm, List.map_eq_nil_iff] at hbranches
    rw [step_of_nil (h.phase_eq ▸ hphase) hframes']
    exact ⟨rfl, h.finish⟩
  | selected hphase hframes =>
    obtain ⟨f', outer', hframes', hf, houter⟩ := h.exists_cons hframes
    obtain ⟨σ', hrow, rfl⟩ := Frame.exists_selection hf
    rw [step_of_selected (h.phase_eq ▸ hphase) hframes']
    exact ⟨rfl, h.leave hrow houter⟩
  | untried_nil hphase hframes =>
    obtain ⟨outer', hframes', houter⟩ := h.exists_cons_none hframes
    rw [step_of_untried_nil (h.phase_eq ▸ hphase) hframes']
    exact ⟨rfl, houter, h.chosen_eq, h.phase_eq, h.statistics_eq, h.log_eq⟩
  | @untried_cons searched untried row outer hphase hframes =>
    obtain ⟨outer', hframes', houter⟩ := h.exists_cons_none hframes
    have hentered : InStep (s.enter searched row untried outer)
        (s'.enter searched row untried outer') := h.enter houter
    rw [step_of_untried_cons (h.phase_eq ▸ hphase) hframes']
    refine hentered.descend ?_
    rw [hs.table_enter, hs'.table_enter, hentered.chosen_eq, hpq.tableAfter_eq]

/-! ## Whole searches -/

/-- Any number of steps keeps the searches in step. -/
theorem inStep_run (hpq : p.Parallel q live) {n : Nat}
    (hs : s.Explores p live) (hs' : s'.Explores q live) (h : InStep s s') :
    (s.run n).1 = (s'.run n).1 ∧ InStep (s.run n).2 (s'.run n).2 := by
  induction n generalizing s s' with
  | zero => exact ⟨rfl, h⟩
  | succ n ih =>
    obtain ⟨hreport, hstep⟩ := inStep_step hpq hs hs' h
    have hs₁ := (hs.step hpq.shows_left).explores
    have hs₁' := (hs'.step hpq.shows_right).explores
    rw [Search.run, Search.run]
    generalize s.step = result at hreport hstep hs₁
    generalize s'.step = result' at hreport hstep hs₁'
    obtain ⟨report, t⟩ := result
    obtain ⟨report', t'⟩ := result'
    obtain rfl : report = report' := hreport
    cases report with
    | working => exact ih hs₁ hs₁' hstep
    | solution rows => exact ⟨rfl, hstep⟩
    | exhausted => exact ⟨rfl, hstep⟩

/-- **A call keeps the searches in step**, and both answer the same. -/
theorem inStep_next (hpq : p.Parallel q live)
    (hs : s.Explores p live) (hs' : s'.Explores q live) (h : InStep s s') :
    s.next.1 = s'.next.1 ∧ InStep s.next.2 s'.next.2 := by
  have hbound : s.stepBound = s'.stepBound := by
    have hrows : p.options.size = q.options.size := hpq.rowCount_eq
    rw [stepBound, stepBound, hs.columnCount_eq, hs'.columnCount_eq, hs.options_eq, hs'.options_eq,
      hpq.table_eq, hrows]
  rw [Search.next, Search.next, hbound]
  exact inStep_run hpq hs hs' h

theorem inStep_after (hpq : p.Parallel q live) (k : Nat)
    (hs : s.Explores p live) (hs' : s'.Explores q live) (h : InStep s s') :
    (s.answers k).1 = (s'.answers k).1 ∧ InStep (s.after k) (s'.after k) := by
  induction k generalizing s s' with
  | zero => exact ⟨rfl, h⟩
  | succ k ih =>
    obtain ⟨hanswer, hnext⟩ := inStep_next hpq hs hs' h
    obtain ⟨hanswers, hafter⟩ :=
      ih (hs.next_ahead hpq.shows_left).1 (hs'.next_ahead hpq.shows_right).1 hnext
    refine ⟨?_, hafter⟩
    show (s.next.1, s.next.2.statistics) :: (s.next.2.answers k).1 =
      (s'.next.1, s'.next.2.statistics) :: (s'.next.2.answers k).1
    rw [hanswer, hnext.statistics_eq, hanswers]

end Explores

end Search

/-! ## Problems in other words -/

namespace Problem

variable {p q : Problem C R} {live : List R}

/-- **The searches of both problems take the same course**: by any number of calls they have
answered the same and done the same work at each of them, and have logged the same. -/
def SameCourse (p q : Problem C R) : Prop :=
  ∀ k, (p.solve.answers k).1 = (q.solve.answers k).1 ∧
    (p.solve.after k).statistics = (q.solve.after k).statistics ∧
    (p.solve.after k).log = (q.solve.after k).log

theorem Parallel.course_eq (h : p.Parallel q live) : SameCourse p q := by
  intro k
  have hstart : Search.InStep p.solve q.solve := by
    refine ⟨rfl, rfl, rfl, rfl, ?_⟩
    show [Event.solving p.columnCount p.rowCount] = [Event.solving q.columnCount q.rowCount]
    rw [columnCount, columnCount, h.table_eq, h.rowCount_eq]
  obtain ⟨hanswers, hstep⟩ :=
    Search.Explores.inStep_after h k (p.explores_solve live) (q.explores_solve live) hstart
  exact ⟨hanswers, hstep.statistics_eq, hstep.log_eq⟩

/-- The course of a search is the same in other words, as long as the same rows are listed. -/
theorem Lived.sameCourse_of_restates (hp : p.Lived) (hq : q.Lived) (h : p.Restates q)
    (hlisted : ∀ r, (∃ c, p.table.Lists c r) ↔ ∃ c, q.table.Lists c r) : SameCourse p q := by
  have hrows : q.table.rows = p.table.rows :=
    Ascending.ext Std.ExtTreeSet.ordered_toList Std.ExtTreeSet.ordered_toList fun r ↦ by
      rw [Table.mem_rows, Table.mem_rows, hlisted]
  exact Parallel.course_eq ⟨h, hp.orderly.shows, hrows ▸ hq.orderly.shows⟩

/-- Of a problem that was built, the rows which cover something are listed. -/
theorem Built.sameCourse_of_restates (hp : p.Built) (hq : q.Built) (h : p.Restates q) :
    SameCourse p q := by
  refine hp.lived.sameCourse_of_restates hq.lived h fun r ↦ exists_congr fun c ↦ ?_
  rw [hp.consistent.lists_iff, hq.consistent.lists_iff, h.mem_columns_iff]

/-! ### Additions in another order -/

/-- **The same addition**, except for the order in which a row declares its columns. -/
inductive Edit.Restates : Edit C R → Edit C R → Prop
  | column (c : C) : Restates (.column c) (.column c)
  | row (r : R) {cs cs' : List C} (h : cs.Perm cs') : Restates (.row r cs) (.row r cs')

/-- **The same additions in another order**, and each row with its columns in any order. -/
def Rearranged (es es' : List (Edit C R)) : Prop :=
  ∃ es'', es.Perm es'' ∧ es''.Forall₂ Edit.Restates es'

/-- Lists that are related element by element have partners for all of their members. -/
theorem exists_mem_of_forall₂ {α β : Type} {S : α → β → Prop} {l : List α} {l' : List β}
    (h : l.Forall₂ S l') {a : α} (ha : a ∈ l) : ∃ b ∈ l', S a b := by
  induction h with
  | nil => exact absurd ha List.not_mem_nil
  | @cons d b _ _ hd _ ih =>
    rcases List.mem_cons.1 ha with rfl | ha
    · exact ⟨b, List.mem_cons_self, hd⟩
    · obtain ⟨b', hb', hab'⟩ := ih ha
      exact ⟨b', List.mem_cons_of_mem _ hb', hab'⟩

namespace Rearranged

variable {es es' : List (Edit C R)} {c : C} {r : R} {cs cs' : List C}

omit [Key C] [Key R]

theorem column_mem_iff (h : Rearranged es es') : .column c ∈ es ↔ .column c ∈ es' := by
  obtain ⟨es'', hperm, hrestates⟩ := h
  rw [hperm.mem_iff]
  constructor
  · intro hc
    obtain ⟨_, he', ⟨⟩⟩ := exists_mem_of_forall₂ hrestates hc
    exact he'
  · intro hc
    obtain ⟨_, he, ⟨⟩⟩ := exists_mem_of_forall₂ hrestates.flip hc
    exact he

theorem exists_row_mem (h : Rearranged es es') (hr : .row r cs ∈ es) :
    ∃ cs', cs.Perm cs' ∧ .row r cs' ∈ es' := by
  obtain ⟨es'', hperm, hrestates⟩ := h
  obtain ⟨_, he', hrow⟩ := exists_mem_of_forall₂ hrestates (hperm.mem_iff.1 hr)
  cases hrow with
  | row _ hcs => exact ⟨_, hcs, he'⟩

theorem exists_row_mem' (h : Rearranged es es') (hr : .row r cs' ∈ es') :
    ∃ cs, cs.Perm cs' ∧ .row r cs ∈ es := by
  obtain ⟨es'', hperm, hrestates⟩ := h
  obtain ⟨_, he, hrow⟩ := exists_mem_of_forall₂ hrestates.flip hr
  cases hrow with
  | row _ hcs => exact ⟨_, hcs, hperm.mem_iff.2 he⟩

end Rearranged

/-- **Additions in another order make the same problem in other words.** -/
theorem restates_of_rearranged {es es' : List (Edit C R)} (hp : assemble es = .ok p)
    (hq : assemble es' = .ok q) (h : Rearranged es es') : p.Restates q := by
  obtain ⟨-, htable, hoptions⟩ := assemble_spec hp
  obtain ⟨-, htable', hoptions'⟩ := assemble_spec hq
  have hmem (r : R) : r ∈ p.options ↔ ∃ cs, .row r cs ∈ es := by
    simp only [Std.ExtTreeMap.mem_iff_isSome_getElem?, Option.isSome_iff_exists, hoptions]
  have hmem' (r : R) : r ∈ q.options ↔ ∃ cs, .row r cs ∈ es' := by
    simp only [Std.ExtTreeMap.mem_iff_isSome_getElem?, Option.isSome_iff_exists, hoptions']
  have hrows (r : R) : r ∈ p.options ↔ r ∈ q.options := by
    rw [hmem, hmem']
    constructor
    · rintro ⟨cs, hr⟩
      obtain ⟨cs', -, hr'⟩ := h.exists_row_mem hr
      exact ⟨cs', hr'⟩
    · rintro ⟨cs', hr'⟩
      obtain ⟨cs, -, hr⟩ := h.exists_row_mem' hr'
      exact ⟨cs, hr⟩
  refine ⟨fun c ↦ ?_, hrows, fun r ↦ ?_⟩
  · rw [htable, htable', h.column_mem_iff]
  · by_cases hr : r ∈ p.options
    · obtain ⟨cs', hperm, hr'⟩ := h.exists_row_mem ((hoptions r _).1 (Options.getElem?_eq_some hr))
      rwa [Options.columns_eq_of_getElem? ((hoptions' r cs').2 hr')]
    · rw [Options.columns_eq_nil hr, Options.columns_eq_nil (mt (hrows r).2 hr)]

/-- **A search does not depend on how its problem was written down.**  Two problems that were built
are searched in the same course if they have the same columns and the same rows, and each row
declares the same columns in both, in whatever order.  In particular this is so if both were put
together from the same additions in different orders.  And it is still so after searches have been
abandoned, as long as the same rows are listed. -/
theorem sameCourse :
    (∀ p q : Problem C R, p.Built → q.Built → p.Restates q → SameCourse p q) ∧
    (∀ (es es' : List (Edit C R)) (p q : Problem C R), assemble es = .ok p →
      assemble es' = .ok q → Rearranged es es' → SameCourse p q) ∧
    ∀ p q : Problem C R, p.Lived → q.Lived → p.Restates q →
      (∀ r, (∃ c, p.table.Lists c r) ↔ ∃ c, q.table.Lists c r) → SameCourse p q := by
  refine ⟨fun p q hp hq ↦ hp.sameCourse_of_restates hq, fun es es' p q hp hq hes ↦ ?_,
    fun p q hp hq ↦ hp.sameCourse_of_restates hq⟩
  exact (assemble_spec hp).1.sameCourse_of_restates (assemble_spec hq).1
    (restates_of_rearranged hp hq hes)

/-- The triangle, with its corners and its sides declared in another order, and with the ends of two
sides exchanged. -/
def triangleRestated : List (Edit Nat Nat) :=
  [.column 3, .row 4 [3], .column 1, .row 2 [3, 1], .column 2, .row 3 [2, 3], .row 1 [2, 1]]

/-- It is searched in the course of the triangle. -/
theorem sameCourse_triangle : triangle.Built ∧
    assemble triangleRestated = .ok (triangleRestated.foldl edit ∅) ∧
    SameCourse triangle (triangleRestated.foldl edit ∅) := by
  have hrestated : assemble triangleRestated = .ok (triangleRestated.foldl edit ∅) := rfl
  have htriangle : assemble [.column 1, .column 2, .column 3, .row 1 [1, 2], .row 2 [1, 3],
      .row 3 [2, 3], .row 4 [3]] = .ok triangle := rfl
  have hrearranged : Rearranged [.column 1, .column 2, .column 3, .row 1 [1, 2], .row 2 [1, 3],
      .row 3 [2, 3], .row 4 [3]] triangleRestated := by
    refine ⟨[.column 3, .row 4 [3], .column 1, .row 2 [1, 3], .column 2, .row 3 [2, 3],
      .row 1 [1, 2]], by decide, ?_⟩
    refine .cons (.column 3) <| .cons (.row 4 (.refl _)) <| .cons (.column 1) <|
      .cons (.row 2 ?_) <| .cons (.column 2) <| .cons (.row 3 (.refl _)) <| .cons (.row 1 ?_) .nil
    · decide
    · decide
  obtain ⟨-, hassemble, -⟩ := sameCourse (C := Nat) (R := Nat)
  exact ⟨triangle_built, hrestated, hassemble _ _ _ _ htriangle hrestated hrearranged⟩

end Problem

end ExactCover
