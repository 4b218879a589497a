import ExactCover.CommandLine.Answer

/-!
# The command

Runs the calendar command on the arguments of the process, prints its answer on the standard output
and its remarks on the standard error output, and ends with its exit code.
-/

set_option autoImplicit false

/-- Solves the calendar puzzle for the date that the arguments name. -/
def main (args : List String) : IO UInt32 := do
  let outcome := ExactCover.CommandLine.run args
  for text in outcome.remarks do
    IO.eprintln text
  IO.print outcome.output
  return outcome.code.toUInt32
