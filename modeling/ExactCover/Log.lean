/-!
# Log lines

What a computation reports about its work is data: a list of lines, each with a level, that the
computation returns beside its result.  Printing them, or leaving out those of finer levels, is up
to the caller.
-/

set_option autoImplicit false

namespace ExactCover

/-- How detailed a report is. -/
inductive Level where
  /-- What the work is about. -/
  | info
  /-- The course of the work as a whole. -/
  | debug
  /-- Every single step. -/
  | trace
deriving DecidableEq

namespace Level

/-- The name under which the level stands in a log. -/
def name : Level → String
  | info => "INFO"
  | debug => "DEBUG"
  | trace => "TRACE"

/-- Whether a line of level `l` is shown to someone who asked for `asked`: a finer level includes
the coarser ones. -/
def shows (asked l : Level) : Bool :=
  match asked, l with
  | trace, _ => true
  | debug, trace => false
  | debug, _ => true
  | info, info => true
  | info, _ => false

end Level

/-- One line of a log. -/
structure LogLine where
  /-- How detailed the line is. -/
  level : Level
  /-- What it says. -/
  text : String
deriving DecidableEq

end ExactCover
