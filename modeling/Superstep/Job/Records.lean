import Superstep.Cluster.Output
import Superstep.Json.Value

/-!
# Records in writing

A record is written as a JSON object on a line of its own, with its fields in a fixed order. A
number that is infinite or undefined has no spelling and is written as `null`; as `null` is no
number, such a record cannot be read again.
-/

namespace Superstep.OutputRecord

open Json

/-- The names of the fields of a record, in the order in which they are written. -/
def fieldNames : List String := ["writer", "superstep", "theta", "cost"]

/-- A record in writing. -/
def write (entry : OutputRecord Float) : String :=
  Written.object <| fieldNames.zip
    [Written.text entry.writer, toString entry.superstep,
      Written.array (entry.theta.map Layout.record.write), Layout.record.write entry.cost]

/-- Some records in writing, each on its line. -/
def writeLines (entries : List (OutputRecord Float)) : String :=
  String.join (entries.map fun entry => entry.write ++ "\n")

/-- The record a tree holds. -/
def ofTree? (read? : NumberReader) (tree : Tree) : Option (OutputRecord Float) := do
  match ← tree.fields? fieldNames with
  | [writer, superstep, theta, cost] =>
    return {
      writer := ← Field.required Tree.text? writer
      superstep := ← Field.required Tree.natural? superstep
      theta := ← Field.required (Tree.list? (Tree.float? read?)) theta
      cost := ← Field.required (Tree.float? read?) cost }
  | _ => none

/-- Reads a record, and the numbers in it in a given way. -/
def parseBy? (read? : NumberReader) (input : String) : Option (OutputRecord Float) :=
  Tree.parse? input >>= ofTree? read?

/-- Reads a record. -/
def parse? : String → Option (OutputRecord Float) := parseBy? Number.read?

end Superstep.OutputRecord
