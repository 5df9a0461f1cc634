import Superstep.Cluster.Basic
import Superstep.Data.Csv
import Superstep.Job.Files
import Superstep.Json.Value
import Superstep.Training.Options

/-!
# Jobs described in a file

A job is described by a JSON record: how many peers there are or what they are called, the options
of the training, where the rows come from, and perhaps a file for the records. The rows are either
spelled out in the description or in a file of comma separated values.

An option may be given as a value of any kind. A string is taken as it is, everything else in its
compact spelling, so that a number and the string of its digits say the same.

`Job.dataset` and `Job.cluster` make of a description what a training job runs on. Whatever is wrong
on the way has a cause (`JobError`), worded in `JobError.message`.
-/

namespace Superstep

open Json

/-- Options under their names; each is a string or stands for its compact spelling. The
value of `left` is how many brackets and braces may be open at a time. -/
def Options.ofTree? (read? : NumberReader) (left : Nat) (tree : Tree) : Option Options := do
  match ← Value.ofTree? read? left tree with
  | .object members =>
    return Options.ofList <| members.map fun member =>
      match member.2 with
      | .text value => (member.1, value)
      | value => (member.1, value.write)
  | _ => none

/-- Reads options, and the numbers among them in a given way. -/
def Options.parseBy? (read? : NumberReader) (input : String) : Option Options :=
  Tree.parse? input >>= ofTree? read? depthLimit

/-- Reads options. -/
def Options.parse? : String → Option Options := parseBy? Number.read?

/-- Where the rows of a job come from. -/
inductive RowSource
  /-- They are these values, with so many features to a row. -/
  | inline (values : List Float) (featureCount : Nat)
  /-- They are in this file, perhaps with so many features to a row. -/
  | file (path : String) (featureCount? : Option Nat)
  deriving Repr

/-- A training job as it is described. -/
structure Job where
  /-- How many peers there are; never zero. -/
  peerCount? : Option Nat
  peerNames? : Option (List PeerName)
  options : Options
  rows : RowSource
  /-- The file for the records. -/
  output? : Option String
  deriving Repr

/-- Why a job cannot be carried out, or why it failed. -/
inductive JobError
  /-- No description was given. -/
  | usage
  | unreadable (path : String)
  /-- The text of a file is no description of a job. -/
  | invalid (path : String)
  | dataset (error : DatasetError)
  | noRows
  | peerCount (count names : Nat)
  | cluster (error : ClusterError)
  /-- The file for the records cannot be written. -/
  | unwritable (path : String)
  | training (error : TrainingError Float)
  /-- The peers wait for each other for ever. -/
  | stuck
  deriving Repr

/-- The text of an error. -/
def JobError.message : JobError → String
  | usage => "usage: node <job.json>"
  | unreadable path => s!"cannot read {path}"
  | invalid path => s!"invalid job {path}"
  | dataset error => (PeerError.invalidDataset error.detail).message
  | noRows => "the dataset has no rows"
  | peerCount count names => s!"peers is {count} but {names} peer_ids were given"
  | cluster error => error.toPeerError.message
  | unwritable path => s!"cannot create {path}"
  | training error => error.message
  | stuck => "the peers wait for each other"

namespace RowSource

/-- The rows that a tree spells out. -/
def inlineOfTree? (tree : Tree) : Option RowSource := do
  match ← tree.fields? ["data", "x_size"] with
  | [values, featureCount] =>
    return inline (← Field.required (Tree.list? (Tree.float? Number.read?)) values)
      (← Field.required Tree.natural? featureCount)
  | _ => none

/-- The file that a tree names. -/
def fileOfTree? (tree : Tree) : Option RowSource := do
  match ← tree.fields? ["path", "x_size"] with
  | [path, featureCount] =>
    return file (← Field.required Tree.text? path) (← Field.optional Tree.natural? featureCount)
  | _ => none

/-- The rows a tree describes: an object with a single member, whose name tells where they are. -/
def ofTree? (tree : Tree) : Option RowSource := do
  match ← tree.members? with
  | [("inline", tree)] => inlineOfTree? tree
  | [("local", tree)] => fileOfTree? tree
  | _ => none

end RowSource

namespace Job

/-- A number of peers. -/
def peerCountOfTree? (tree : Tree) : Option Nat := do
  let count ← tree.natural?
  if count = 0 then none else some count

/-- The job a tree describes. -/
def ofTree? (tree : Tree) : Option Job := do
  match ← tree.fields? ["peers", "peer_ids", "conf", "dataset", "output"] with
  | [count, names, options, rows, output] =>
    return {
      peerCount? := ← Field.optional peerCountOfTree? count
      peerNames? := ← Field.optional (Tree.list? Tree.text?) names
      options := ← Field.withDefault {} (Options.ofTree? Number.read? (depthLimit - 1)) options
      rows := ← Field.required RowSource.ofTree? rows
      output? := ← Field.optional Tree.text? output }
  | _ => none

/-- Reads the description of a job. -/
def parse? (input : String) : Option Job := Tree.parse? input >>= ofTree?

variable {m : Type → Type} [Monad m]

/-- The job described in a file. -/
def load (files : Files m) (path : String) : m (Except JobError Job) := do
  match ← files.read? path with
  | none => return .error (.unreadable path)
  | some text =>
    match parse? text with
    | none => return .error (.invalid path)
    | some job => return .ok job

/-- The rows, before it is known whether there are any. Files are named as seen from the
directory. -/
def readRows (files : Files m) (directory : String) :
    RowSource → m (Except JobError (Dataset Float))
  | .inline values featureCount =>
    return (Dataset.ofValues values featureCount).mapError .dataset
  | .file path featureCount? => do
    let path := Path.join directory path
    match ← files.read? path with
    | none => return .error (.unreadable path)
    | some text => return (Csv.read text featureCount?).mapError .dataset

/-- The rows of a job. There has to be one. -/
def dataset (files : Files m) (directory : String) (job : Job) :
    m (Except JobError (Dataset Float)) := do
  match ← readRows files directory job.rows with
  | .error error => return .error error
  | .ok rows => return if rows.size = 0 then .error .noRows else .ok rows

/-- The names of a job's peers: those given, or as many as there are peers, or a single one. -/
def peerNames (job : Job) : Except JobError (List PeerName) :=
  match job.peerNames?, job.peerCount? with
  | some names, some count =>
    if names.length = count then .ok names else .error (.peerCount count names.length)
  | some names, none => .ok names
  | none, count? => .ok (Cluster.defaultNames (count?.getD 1))

/-- The cluster a job runs on, with the rows shared out among its peers. -/
def cluster (job : Job) (rows : Dataset Float) : Except JobError (Cluster Float) := do
  let names ← job.peerNames
  (Cluster.ofNames names (rows.split names.length)).mapError .cluster

end Job

end Superstep
