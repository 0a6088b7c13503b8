import FiniteStructures.CommandLine

/-!
The program: the command line with the environment and the channels of the system.
-/

open FiniteStructures

/-- Runs the command line and writes its report. -/
def main (arguments : List String) : IO UInt32 := do
  let backend ← IO.getEnv Settings.backendVariable
  let maxSolutions ← IO.getEnv Settings.maxSolutionsVariable
  let report := CommandLine.run arguments fun name =>
    if name = Settings.backendVariable then backend
    else if name = Settings.maxSolutionsVariable then maxSolutions
    else none
  report.output.forM (IO.println ·)
  report.complaints.forM (IO.eprintln ·)
  return report.code.toUInt32
