import ExactCover.Problem.Basic
import ExactCover.Search.Event

/-!
# The search without its table

The machine of `ExactCover.Search.Basic` edits one table and undoes its edits.  What it is meant to
do can be said without any of that, by recursion on the columns that are not covered yet:

* with no column left, the rows selected so far are a solution;
* otherwise the column with fewest live rows is branched on, the lowest on ties; if it has none,
  that is a dead end;
* otherwise each of its live rows is selected in turn, ascending, and the rest is searched with the
  columns of that row and the rows that share a column with it left out.

`Problem.visits` lists what is met on the way, in the order in which it is met.  The list holds the
solutions and, counted up to any of them, the work done so far (`Visit.tally`).
-/

set_option autoImplicit false

namespace ExactCover

/-- What is met when the search tree is traversed depth first. -/
inductive Visit (R : Type) where
  /-- A node below the root is entered by selecting a row. -/
  | enter (row : R)
  /-- The node entered last has a column without live rows. -/
  | deadEnd
  /-- The node entered last is a solution, with its rows in the order selected. -/
  | solution (rows : List R)
deriving DecidableEq

namespace Visit

/-- The solution met, if it is one. -/
def solution? {R : Type} : Visit R → Option (List R)
  | solution rows => some rows
  | _ => none

/-- The work that a list of visits stands for. -/
def tally {R : Type} : List (Visit R) → Statistics
  | [] => 0
  | enter _ :: vs => { tally vs with nodes := (tally vs).nodes + 1 }
  | deadEnd :: vs => { tally vs with deadEnds := (tally vs).deadEnds + 1 }
  | solution _ :: vs => { tally vs with solutions := (tally vs).solutions + 1 }

end Visit

variable {C R : Type} [Key C] [Key R]

namespace Options

/-- The rows among `rows` that cover the column. -/
def covering (o : Options C R) (rows : List R) (c : C) : List R :=
  rows.filter fun r ↦ (o.columns r).contains c

/-- The rows among `rows` that share no column with `r`. -/
def compatible (o : Options C R) (rows : List R) (r : R) : List R :=
  rows.filter fun r' ↦ (o.columns r).all fun c ↦ !(o.columns r').contains c

/-- The columns among `columns` that `r` does not cover. -/
def uncovered (o : Options C R) (columns : List C) (r : R) : List C :=
  columns.filter fun c ↦ !(o.columns r).contains c

variable {o : Options C R} {columns : List C} {rows live chosen : List R} {c : C} {r r' : R}

@[simp]
theorem mem_covering : r ∈ o.covering rows c ↔ r ∈ rows ∧ c ∈ o.columns r := by
  simp [covering]

@[simp]
theorem mem_compatible :
    r' ∈ o.compatible rows r ↔ r' ∈ rows ∧ ∀ c ∈ o.columns r, c ∉ o.columns r' := by
  simp [compatible]

@[simp]
theorem mem_uncovered : c ∈ o.uncovered columns r ↔ c ∈ columns ∧ c ∉ o.columns r := by
  simp [uncovered]

/-- A row that covers one of the columns leaves fewer of them uncovered. -/
theorem length_uncovered_lt (hc : c ∈ columns) (hr : c ∈ o.columns r) :
    (o.uncovered columns r).length < columns.length := by
  rw [uncovered, List.length_filter_lt_length_iff_exists]
  exact ⟨c, hc, by simpa using hr⟩

/-- The visits below a node, given the columns still to be covered, the live rows, and the rows
selected so far. -/
def visits (o : Options C R) (columns : List C) (live chosen : List R) : List (Visit R) :=
  match hc : columns.minOn? fun c ↦ (o.covering live c).length with
  | none => [.solution chosen]
  | some c =>
    if o.covering live c = [] then [.deadEnd]
    else (o.covering live c).attach.flatMap fun ⟨r, hr⟩ ↦
      have := length_uncovered_lt (List.minOn?_mem hc) (mem_covering.1 hr).2
      .enter r :: o.visits (o.uncovered columns r) (o.compatible live r) (chosen ++ [r])
termination_by columns.length

/-! ## The three kinds of nodes -/

/-- A node without columns is a solution. -/
theorem visits_of_eq_none (h : (columns.minOn? fun c ↦ (o.covering live c).length) = none) :
    o.visits columns live chosen = [.solution chosen] := by
  rw [visits]
  split
  · rfl
  · simp_all

/-- A node whose tightest column has no live rows is a dead end. -/
theorem visits_of_covering_eq_nil
    (h : (columns.minOn? fun c ↦ (o.covering live c).length) = some c)
    (hc : o.covering live c = []) : o.visits columns live chosen = [.deadEnd] := by
  rw [visits]
  split <;> simp_all

/-- Any other node branches on the live rows of its tightest column. -/
theorem visits_of_covering_ne_nil
    (h : (columns.minOn? fun c ↦ (o.covering live c).length) = some c)
    (hc : o.covering live c ≠ []) :
    o.visits columns live chosen = (o.covering live c).flatMap fun r ↦
      .enter r :: o.visits (o.uncovered columns r) (o.compatible live r) (chosen ++ [r]) := by
  rw [visits]
  split
  · simp_all
  · rename_i d hd
    obtain rfl : d = c := Option.some_inj.1 (hd.symm.trans h)
    rw [if_neg hc]
    rw [List.flatMap_subtype (g := fun r ↦ .enter r ::
      o.visits (o.uncovered columns r) (o.compatible live r) (chosen ++ [r])) fun _ _ ↦ rfl,
      List.unattach_attach]

end Options

/-- **All visits of the search for the exact covers of a problem.** -/
def Problem.visits (p : Problem C R) : List (Visit R) :=
  p.options.visits p.table.keys p.options.keys []

/-- The solutions that are met, in order. -/
def Problem.solutions (p : Problem C R) : List (List R) := p.visits.filterMap Visit.solution?

end ExactCover
