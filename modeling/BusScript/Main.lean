import BusScript.CommandLine.Run

/-!
# The executable

Prints what `BusScript.CommandLine.run` reports and exits with its status.
-/

open BusScript

/-- Encode one frame from the command line, as `CommandLine.run` says. -/
def main (args : List String) : IO UInt32 := do
  let report := CommandLine.run args
  IO.eprint report.diagnostics
  IO.print report.output
  return report.status
