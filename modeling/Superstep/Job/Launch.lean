import Superstep.Cluster.Run
import Superstep.Job.Basic
import Superstep.Job.Records
import Superstep.Training.Trainer

/-!
# Launching a job

The launcher is given the name of a file that describes a job. It reads the description and the
rows, runs the job, writes the records into a file if the description asks for one, and shows the
record written last. The records are written before it is looked at whether the job failed, so that
a run that diverged leaves its trace.

All of this is told in terms of `Files`, so it can be carried out on a device as well as on a
`FileTree`.
-/

namespace Superstep

/-- What a launch comes to: an exit code, a text for the output, and a text for the error output. -/
structure Report where
  code : UInt32
  output : String
  error : String
  deriving DecidableEq, Repr

/-- The report of a failure. -/
def JobError.report (error : JobError) : Report :=
  { code := 1, output := "", error := s!"Error: {error.message}\n" }

namespace Job

/-- A training job that is about to run. Every peer reads the options for itself. -/
def execution (job : Job) (cluster : Cluster Float) :
    Execution Float (Payload Float) (Stage Float) (TrainingError Float) (Summary Float) :=
  Execution.ofCluster cluster fun seat => Trainer.processOf (Trainer.setUp job.options seat)

/-- What the peers end with, or why there is no such thing. -/
def summaries : Fate (TrainingError Float) (Summary Float) →
    Except JobError (List (Summary Float))
  | .ended (.values summaries) => .ok summaries
  | .ended (.failed error) => .error (.training error)
  | .ended (.crashed name) => .error (.training (.peer (.crashed name)))
  | .stuck | .unfinished => .error .stuck

/-- The directory from which a job sees its files. -/
def directory (path : String) : String := (Path.parent? path).getD "."

variable {m : Type → Type} [Monad m]

/-- Writes the records where the job asks for them. -/
def writeRecords (files : Files m) (path : String) (log : OutputLog Float) :
    ExceptT JobError m Unit := do
  if ← files.write path (OutputRecord.writeLines log.toList) then return ()
  else throw (.unwritable path)

/-- Carries out the job described in a file; what is returned is to be shown. -/
def carryOut (files : Files m) (path : String) : ExceptT JobError m String := do
  let job ← ExceptT.mk (load files path)
  let rows ← ExceptT.mk (job.dataset files (directory path))
  let cluster ← ExceptT.mk (pure (job.cluster rows))
  let (fate, after) := (job.execution cluster).run
  match job.output? with
  | some path => writeRecords files path after.output
  | none => pure ()
  let _ ← ExceptT.mk (pure (summaries fate))
  match after.output.last? with
  | some last => return last.write ++ "\n"
  | none => return ""

/-- Carries out the job that the arguments of a command name. Further arguments are ignored. -/
def launch (files : Files m) : List String → m Report
  | [] => return JobError.usage.report
  | path :: _ => do
    match ← (carryOut files path).run with
    | .ok output => return { code := 0, output, error := "" }
    | .error error => return error.report

end Job

end Superstep
