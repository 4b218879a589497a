import ExactCover.Log

/-!
# The events of a search

A search records what it does as a list of events.  An event keeps the numbers that describe it, so
that statements about the course of a search can speak of them; `Event.line` decides once how each
of them reads in a log.
-/

set_option autoImplicit false

namespace ExactCover

/-- The work that a search has done so far. -/
structure Statistics where
  /-- How many rows were selected. -/
  nodes : Nat
  /-- How often a column was met that no row could cover any more. -/
  deadEnds : Nat
  /-- How many solutions were found. -/
  solutions : Nat
deriving DecidableEq

namespace Statistics

/-- No work at all. -/
protected def zero : Statistics := ⟨0, 0, 0⟩

instance : Zero Statistics := ⟨Statistics.zero⟩

/-- The counters with their names. -/
def text (s : Statistics) : String :=
  s!"Stats \x7b nodes: {s.nodes}, dead_ends: {s.deadEnds}, solutions: {s.solutions} \x7d"

end Statistics

/-- Something that a search did.  The depth is the number of rows selected at the time. -/
inductive Event where
  /-- It was set up for a problem of this many columns and rows. -/
  | solving (columns rows : Nat)
  /-- It met a column without candidates. -/
  | deadEnd (depth : Nat)
  /-- It chose a column to branch on. -/
  | branching (candidates depth : Nat)
  /-- It is about to select a candidate, the `number`-th of `total`. -/
  | selecting (number total depth : Nat)
  /-- It has retracted a candidate, the `number`-th of `total`. -/
  | retracted (number total depth : Nat)
  /-- It found its `number`-th solution. -/
  | solution (number rows : Nat)
  /-- It ran out of candidates. -/
  | finished (total : Statistics)
deriving DecidableEq

/-- How an event reads in a log. -/
def Event.line : Event → LogLine
  | solving columns rows => ⟨.debug, s!"solving {columns} columns over {rows} rows"⟩
  | deadEnd depth => ⟨.trace, s!"dead end at depth {depth}"⟩
  | branching candidates depth =>
    ⟨.trace, s!"branching on {candidates} candidates at depth {depth}"⟩
  | selecting number total depth =>
    ⟨.trace, s!"selecting candidate {number} of {total} at depth {depth}"⟩
  | retracted number total depth =>
    ⟨.trace, s!"deselected candidate {number} of {total} at depth {depth}"⟩
  | solution number rows => ⟨.debug, s!"solution #{number} with {rows} rows"⟩
  | finished total => ⟨.debug, s!"search finished: {total.text}"⟩

end ExactCover
