import ExactCover.Board.Problem
import ExactCover.Board.Tiling
import ExactCover.Calendar.Tray
import ExactCover.CommandLine.Arguments

/-!
# What the command answers

A request is answered with the number of solutions, or with drawings of the first of them, in the
order in which the search finds them.  Every drawing ends its last line, and an empty line stands
between two drawings.  Each of them is printed before the search goes on, so if one fails those
before it have been printed.

`Request.outcome` is everything that the command leaves behind when it has answered: an exit code,
what it printed, and what it said about its work.  How a request is made of arguments does not
matter for this; `runWith` leaves it open, and `run` reads them with `Request.ofArguments`.  A code
of 2 stands for arguments at fault, and then nothing is printed.
-/

set_option autoImplicit false

namespace ExactCover.CommandLine

/-! ## Failures -/

/-- Why a request cannot be answered. -/
inductive Failure where
  /-- The tray of the date cannot be set up. -/
  | board (error : BoardError)
  /-- The puzzle makes no problem. -/
  | problem (error : TableError Requirement Placement)
  /-- A solution cannot be drawn. -/
  | drawing (error : BoardError)
deriving DecidableEq

namespace Failure

/-- What was to be done for a request when it failed. -/
def context (r : Request) : Failure → String
  | board _ => s!"Setting up {r.month.name} {r.day.number}"
  | problem _ => "Building the coverage tables"
  | drawing _ => "Drawing a solution"

/-- Why it failed. -/
def message : Failure → String
  | board error => error.message
  | problem error => error.message
  | drawing error => error.message

end Failure

/-! ## Printing -/

/-- How far the printing of an answer has come. -/
structure Printing where
  /-- What has been printed. -/
  output : String
  /-- The failure with which the printing ended, if it did not succeed. -/
  failure : Option Failure
  /-- The search for the solutions. -/
  search : Search Requirement Placement

/-- **Prints drawings** of the next solutions, at most so many, each as soon as it is found.  An
empty line precedes a drawing if there are others before it.  A solution that cannot be drawn ends
the printing. -/
def printDrawings (b : Board) : Nat → (before : Nat) → Search Requirement Placement → Printing
  | 0, _, s => ⟨"", none, s⟩
  | n + 1, before, s =>
    match s.next with
    | (none, s') => ⟨"", none, s'⟩
    | (some solution, s') =>
      let gap := if 0 < before then "\n" else ""
      match b.tiling Tray.pieces solution with
      | .error e => ⟨gap, some (.drawing e), s'⟩
      | .ok t =>
        let later := printDrawings b n (before + 1) s'
        { later with output := gap ++ (t.text ++ "\n") ++ later.output }

/-- Prints the number of solutions. -/
def printCount (p : Problem Requirement Placement) : Printing :=
  let (count, s) := p.countSolutions
  ⟨count.repr ++ "\n", none, s⟩

/-! ## The outcome of a request -/

/-- What a run of the command leaves behind. -/
structure Outcome where
  /-- The exit code. -/
  code : Nat
  /-- What is printed. -/
  output : String
  /-- What is said besides. -/
  remarks : List String
deriving DecidableEq

/-- What a log line looks like among the remarks. -/
def remark (l : LogLine) : String := s!"[{l.level.name}] {l.text}"

namespace Request

/-- What is said of log lines, in the detail asked for: nothing, all but the finest, or all. -/
def remarks (r : Request) (lines : List LogLine) : List String :=
  let shown : List LogLine := match r.verbosity with
    | 0 => []
    | 1 => lines.filter fun l ↦ Level.debug.shows l.level
    | _ => lines.filter fun l ↦ Level.trace.shows l.level
  shown.map remark

/-- The line that says how large the problem is. -/
def sizeLine (r : Request) (p : Problem Requirement Placement) : LogLine where
  level := .info
  text := s!"{r.month.name} {r.day.number}: {p.columnCount} columns, {p.rowCount} placements"

/-- The outcome if there is a failure after something has been printed and logged. -/
def failed (r : Request) (output : String) (lines : List LogLine) (e : Failure) : Outcome :=
  let report := s!"Error: {e.context r}\n\nCaused by:\n    {e.message}"
  ⟨1, output, r.remarks lines ++ [report]⟩

/-- **The outcome of a request.** -/
def outcome (r : Request) : Outcome :=
  match Tray.setUp r.month r.day with
  | .error e => r.failed "" [] (.board e)
  | .ok b =>
    match b.problem Tray.pieces with
    | .error e => r.failed "" [b.placementsLine Tray.pieces] (.problem e)
    | .ok p =>
      let printing := if r.countOnly then printCount p else printDrawings b r.limit 0 p.solve
      let lines := b.placementsLine Tray.pieces :: r.sizeLine p ::
        printing.search.log.reverse.map Event.line
      match printing.failure with
      | some e => r.failed printing.output lines e
      | none =>
        ⟨0, printing.output, r.remarks (lines ++ [⟨.debug, printing.search.statistics.text⟩])⟩

end Request

/-! ## Running the command -/

/-- The version of the program. -/
def versionText : String := "algox 0.1.0\n"

/-- The description of the command and of its arguments. -/
def helpText : String :=
  "Solve the puzzle-a-day calendar for a date\n" ++
  "\n" ++
  "Usage: calendar [OPTIONS] <MONTH> <DAY>\n" ++
  "\n" ++
  "Arguments:\n" ++
  "  <MONTH>  Month to leave uncovered: a name, a three letter abbreviation, or 1-12\n" ++
  "  <DAY>    Day of the month to leave uncovered\n" ++
  "\n" ++
  "Options:\n" ++
  "  -l, --limit <LIMIT>  Print at most this many solutions [default: 1]\n" ++
  "  -c, --count          Only print the number of solutions\n" ++
  "  -v, --verbose...     More logging; repeat for more detail\n" ++
  "  -h, --help           Print help\n" ++
  "  -V, --version        Print version\n"

/-- **Runs the command on its arguments**, given a way of reading them. -/
def runWith (read : List String → Except Stop Request) (args : List String) : Outcome :=
  match read args with
  | .error .help => ⟨0, helpText, []⟩
  | .error .version => ⟨0, versionText, []⟩
  | .error (.fault e) => ⟨2, "", [s!"error: {e.message}"]⟩
  | .ok r => r.outcome

/-- Runs the command on its arguments. -/
def run (args : List String) : Outcome := runWith Request.ofArguments args

end ExactCover.CommandLine
