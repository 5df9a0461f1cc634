import Superstep.Job.Launch

/-!
# The command

Runs the job described in the file that the first argument names.
-/

namespace Superstep

/-- The files of the machine. -/
def deviceFiles : Files IO where
  read? path := do
    match ← (IO.FS.readFile path).toBaseIO with
    | .ok text => return some text
    | .error _ => return none
  write path text := do
    match ← (IO.FS.writeFile path text).toBaseIO with
    | .ok () => return true
    | .error _ => return false

end Superstep

/-- Launches a job, shows what it comes to, and exits with its code. -/
def main (arguments : List String) : IO UInt32 := do
  let report ← Superstep.Job.launch Superstep.deviceFiles arguments
  IO.print report.output
  IO.eprint report.error
  return report.code
