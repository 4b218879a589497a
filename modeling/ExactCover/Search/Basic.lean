import ExactCover.Problem.Basic
import ExactCover.Search.Event

/-!
# Searching for exact covers

The search goes depth first.  At every node it branches on the column that has fewest candidates,
the lowest such column on ties, and tries the candidates in ascending order; each branch selects one
candidate, searches what is left, and retracts the candidate again.  A node without columns is a
solution, and a node with a column that has no candidates is a dead end.

The search can stop at a solution and be resumed, or left, later.  So it is a machine whose state is
a value: `Search` holds the table in the shape the current branch has given it, the rows selected,
and a stack of `Frame`s, one for each column branched on.  `Search.step` does one small step;
`Search.next` steps until it has something to report.  Between two steps everything can be observed:
the table, the rows selected, the work done, and the log.

A search that is over, or not wanted any longer, can be left in two ways.  `Search.close` retracts
what is still selected, and `Search.abandon` leaves the table as it is.

## How the search ends

`next` is bounded by `stepBound`, a number of steps that no search from the given state exceeds:
with `n` columns in the table or on record and `m` rows, a node has at most `m` branches, each of
which costs a selection, the search of a node with fewer columns, and a retraction.
-/

set_option autoImplicit false

namespace ExactCover

variable {C R : Type} [Key C] [Key R]

/-! ## The state of a search -/

/-- A candidate that is selected at the moment. -/
structure Selection (C R : Type) [Key R] where
  /-- The row selected. -/
  row : R
  /-- What its selection took out of the table. -/
  undo : Undo C R

/-- A column that the search has branched on: its candidates at that moment, split at the one whose
branch is being searched. -/
structure Frame (C R : Type) [Key R] where
  /-- The candidates whose branches have been searched, the latest first. -/
  searched : List R
  /-- The candidate whose branch is being searched. -/
  selected : Option (Selection C R)
  /-- The candidates whose turn is yet to come, ascending. -/
  untried : List R

/-- How far a search has come. -/
inductive Phase where
  /-- It has not looked at the problem yet. -/
  | ready
  /-- It is under way. -/
  | searching
  /-- It has gone through all branches, and has said so. -/
  | finished
deriving DecidableEq

/-- **A search for exact covers**, as a value that can be inspected and resumed. -/
structure Search (C R : Type) [Key C] [Key R] where
  /-- The rows and their columns. -/
  options : Options C R
  /-- The columns that the selected rows do not cover, each with the candidates left. -/
  table : Table C R
  /-- The columns branched on, the latest first. -/
  frames : List (Frame C R)
  /-- The rows selected at the moment, in the order selected. -/
  chosen : List R
  /-- How far the search has come. -/
  phase : Phase
  /-- The work done. -/
  statistics : Statistics
  /-- What happened, the latest event first. -/
  log : List Event

/-- What a step of a search comes to. -/
inductive Report (R : Type) where
  /-- Nothing yet. -/
  | working
  /-- A solution: its rows in the order selected. -/
  | solution (rows : List R)
  /-- There are no further solutions. -/
  | exhausted

/-- The number of candidates of a frame's column. -/
def Frame.total (f : Frame C R) : Nat :=
  f.searched.length + (if f.selected.isSome then 1 else 0) + f.untried.length

/-- The number of columns that the candidate selected in a frame has covered. -/
def Frame.covered (f : Frame C R) : Nat :=
  match f.selected with
  | none => 0
  | some selection => selection.undo.length

/-- The search for the exact covers of `p`, before its first step. -/
def Problem.solve (p : Problem C R) : Search C R where
  options := p.options
  table := p.table
  frames := []
  chosen := []
  phase := .ready
  statistics := 0
  log := [.solving p.columnCount p.rowCount]

namespace Search

/-- The number of rows selected at the moment. -/
def depth (s : Search C R) : Nat := s.chosen.length

/-! ## One step -/

/-- Looks at a node for the first time.  With no column left it is a solution; with a column that
has no candidates it is a dead end; otherwise a frame is opened for the tightest column. -/
def descend (s : Search C R) : Report R × Search C R :=
  match s.table.tightest? with
  | none =>
    let number := s.statistics.solutions + 1
    (.solution s.chosen,
      { s with
        statistics := { s.statistics with solutions := number }
        log := .solution number s.depth :: s.log })
  | some (_, candidates) =>
    if candidates.isEmpty then
      (.working,
        { s with
          statistics := { s.statistics with deadEnds := s.statistics.deadEnds + 1 }
          log := .deadEnd s.depth :: s.log })
    else
      (.working,
        { s with
          frames := ⟨[], none, candidates.toList⟩ :: s.frames
          log := .branching candidates.size s.depth :: s.log })

/-- Says that all branches have been searched, unless that was said before. -/
def finish (s : Search C R) : Search C R :=
  match s.phase with
  | .finished => s
  | _ => { s with phase := .finished, log := .finished s.statistics :: s.log }

/-- **One step of the search.**  It looks at the first node; or retracts the candidate selected in
the top frame, whose branch has been searched; or selects the next candidate of that frame and looks
at the node it leads to; or closes the frame, if there is none; or finds that no frame is left. -/
def step (s : Search C R) : Report R × Search C R :=
  match s.phase, s.frames with
  | .ready, _ => { s with phase := .searching }.descend
  | _, [] => (.exhausted, s.finish)
  | _, f :: outer =>
    match f.selected, f.untried with
    | some selection, _ =>
      let f' : Frame C R := ⟨selection.row :: f.searched, none, f.untried⟩
      let s' := { s with
        table := s.table.retract s.options selection.undo
        frames := f' :: outer
        chosen := s.chosen.dropLast }
      (.working, { s' with log := .retracted f'.searched.length f'.total s'.depth :: s.log })
    | none, [] => (.working, { s with frames := outer })
    | none, row :: untried =>
      let (table, undo) := s.table.select s.options row
      descend { s with
        table := table
        frames := ⟨f.searched, some ⟨row, undo⟩, untried⟩ :: outer
        chosen := s.chosen ++ [row]
        statistics := { s.statistics with nodes := s.statistics.nodes + 1 }
        log := .selecting (f.searched.length + 1) f.total s.depth :: s.log }

/-! ## Running the search -/

/-- The number of columns in the table or covered by the selections on the stack. -/
def columnCount (s : Search C R) : Nat :=
  s.frames.foldr (fun f n ↦ f.covered + n) s.table.size

/-- A number of steps that the rest of the search does not exceed. -/
def stepBound (s : Search C R) : Nat := Nat.pow (2 * s.options.size + 3) (s.columnCount + 1)

/-- At most `n` steps, up to the first that reports something: a solution, or none if there are no
more. -/
def run : Nat → Search C R → Option (List R) × Search C R
  | 0, s => (none, s)
  | n + 1, s =>
    match s.step with
    | (.working, s') => run n s'
    | (.solution rows, s') => (some rows, s')
    | (.exhausted, s') => (none, s')

/-- **The next solution**, if there is one, and the search at that point. -/
def next (s : Search C R) : Option (List R) × Search C R := s.run s.stepBound

/-- The next `n` solutions, or all that are left if these are fewer. -/
def take : Nat → Search C R → List (List R) × Search C R
  | 0, s => ([], s)
  | n + 1, s =>
    match s.next with
    | (none, s') => ([], s')
    | (some rows, s') =>
      let (more, s'') := take n s'
      (rows :: more, s'')

/-- All solutions that are left. -/
def rest (s : Search C R) : List (List R) × Search C R := s.take s.stepBound

/-! ## Leaving the search -/

/-- **Retracts what is still selected**, the innermost frame first, and gives the problem back. -/
def close (s : Search C R) : Problem C R where
  table := (s.frames.filterMap (·.selected)).foldl (fun t σ ↦ t.retract s.options σ.undo) s.table
  options := s.options

/-- Gives the problem back with the table as the search has it at the moment. -/
def abandon (s : Search C R) : Problem C R := ⟨s.table, s.options⟩

end Search

/-! ## Whole searches -/

/-- The number of exact covers of a problem, and the search that counted them. -/
def Problem.countSolutions (p : Problem C R) : Nat × Search C R :=
  let (solutions, s) := p.solve.rest
  (solutions.length, s)

/-- The first exact cover of a problem in the order of the search, if it has any, and the search
that found it. -/
def Problem.firstSolution (p : Problem C R) : Option (List R) × Search C R := p.solve.next

end ExactCover
