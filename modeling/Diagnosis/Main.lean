import Diagnosis.CommandLine.Run

/-!
# Entry point

Runs the program on the arguments of the process.
-/

/-- Prints what a run leaves and ends with its exit code. -/
def main (arguments : List String) : IO UInt32 := do
  let result := Diagnosis.CommandLine.run arguments
  IO.print result.output
  IO.eprint result.errors
  return UInt32.ofNat result.code
