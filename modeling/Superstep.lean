import Superstep.Scalar
import Superstep.Text.Blank
import Superstep.Text.Pieces
import Superstep.Decimal.Numeral
import Superstep.Decimal.Layout
import Superstep.Training.Error
import Superstep.Data.Csv
import Superstep.Training.Config
import Superstep.Training.Totals
import Superstep.Training.Descent
import Superstep.Peer.Rehearsal
import Superstep.Training.Trainer
import Superstep.Peer.Script
import Superstep.Cluster.Run
import Superstep.Main
import Superstep.Proofs.Cluster.Runs
import Superstep.Proofs.Cluster.Lockstep
import Superstep.Proofs.Cluster.Delivery
import Superstep.Proofs.Cluster.Ends
import Superstep.Proofs.Cluster.Log
import Superstep.Proofs.Cluster.Plan
import Superstep.Proofs.Cluster.Conduct
import Superstep.Proofs.Cluster.Progress
import Superstep.Proofs.Training.Exchange
import Superstep.Proofs.Training.Programs
import Superstep.Proofs.Training.Sequential
import Superstep.Proofs.Training.Setting
import Superstep.Proofs.Training.Course
import Superstep.Proofs.Training.Jobs
import Superstep.Proofs.Training.Refinement
import Superstep.Proofs.Training.Records
import Superstep.Proofs.Training.Exact
import Superstep.Proofs.Training.Partitioning
import Superstep.Proofs.Peer.Dialogue
import Superstep.Proofs.Cluster.Transcript
import Superstep.Proofs.Training.Failing
import Superstep.Proofs.Training.Speech
import Superstep.Proofs.Training.Protocol
import Superstep.Proofs.Training.Failures
import Superstep.Proofs.Cluster.Solo
import Superstep.Proofs.Cluster.Independence
import Superstep.Proofs.Cluster.Blame
import Superstep.Proofs.Cluster.Prompt
import Superstep.Proofs.Training.RootCause
import Superstep.Proofs.Cluster.Barrier
import Superstep.Proofs.Cluster.Idle
import Superstep.Proofs.Training.Stranded
import Superstep.Proofs.Training.Passes
import Superstep.Proofs.Training.Quadratic
import Superstep.Proofs.Training.Line
import Superstep.Proofs.Training.Renaming
import Superstep.Proofs.Training.Mirror
import Superstep.Proofs.Training.Enumeration
import Superstep.Proofs.Number.Double
import Superstep.Proofs.Peer.Bytes
import Superstep.Proofs.Peer.Rounds
import Superstep.Proofs.Peer.Rows
import Superstep.Proofs.Training.Aggregation
import Superstep.Proofs.Training.Rounds
import Superstep.Proofs.Training.Monotone
import Superstep.Proofs.Training.Dimensions
import Superstep.Proofs.Training.FullPasses
import Superstep.Proofs.Training.Potential
import Superstep.Proofs.Training.Endless
import Superstep.Proofs.Training.Threshold
import Superstep.Proofs.Data.Spans
import Superstep.Proofs.Data.Tape
import Superstep.Proofs.Data.Sharing
import Superstep.Proofs.Text.Lines
import Superstep.Proofs.Number.Spelling
import Superstep.Proofs.Data.Table
import Superstep.Proofs.Data.Csv
import Superstep.Proofs.Data.Layout
import Superstep.Proofs.Cluster.Harvest
import Superstep.Proofs.Cluster.Collection
import Superstep.Proofs.Cluster.Naming
import Superstep.Proofs.Training.Settings
import Superstep.Proofs.Number.Nearest
import Superstep.Proofs.Number.Shortest
import Superstep.Proofs.Number.Literal
import Superstep.Proofs.Number.Written
import Superstep.Proofs.Json.Spelling
import Superstep.Proofs.Json.Lines
import Superstep.Proofs.Job.Records
import Superstep.Proofs.Job.Options
import Superstep.Proofs.Training.Output
import Superstep.Proofs.Training.ModelNames
import Superstep.Proofs.Training.Adoption
import Superstep.Proofs.Data.Words
import Superstep.Proofs.Data.Sizes
