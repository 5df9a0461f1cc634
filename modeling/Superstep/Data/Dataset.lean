import Superstep.Data.Partition

/-!
# Datasets

A dataset is a list of rows with equally many features, at least one. It is given as the plain list
of its values, row after row with the label last, and is accepted only if that list can be cut into
rows.

`Dataset.split` shares the rows out among peers in contiguous spans. With `R` rows and `N` peers,
peer `i` owns the rows from `R * i / N` up to `R * (i + 1) / N`, rounded down: the spans follow one
another, so that no row is lost or owned twice, and their sizes differ by at most one.

Bounds are natural numbers here, and words in the program. They agree as long as the number of rows
times the number of peers is a word; jobs that are larger than that are left out.
-/

namespace Superstep

/-- Labelled rows of one width. -/
structure Dataset (F : Type) where
  featureCount : Nat
  rows : List (Sample F)
  deriving Repr

/-- Why values or a text are no dataset. -/
inductive DatasetError
  /-- A row has no feature. -/
  | noFeatures
  /-- The values are no whole number of rows. -/
  | ragged (values featureCount : Nat)
  /-- A field of a line cannot be read; `detail` says why. -/
  | unreadable (line : Nat) (detail : String)
  /-- A line has another number of fields than the lines before it. -/
  | columns (line expected got : Nat)
  /-- A row with its label is wider than a machine word counts. Nobody is told: the program breaks
  off. -/
  | widthOverflow
  deriving DecidableEq, Repr

/-- The text of a refusal. -/
def DatasetError.detail : DatasetError → String
  | noFeatures => "rows need at least one feature"
  | ragged values featureCount =>
    s!"{values} values can't be split into rows of {featureCount} features and a label"
  | unreadable line detail => s!"line {line}: {detail}"
  | columns line expected got => s!"line {line}: expected {expected} columns, got {got}"
  | widthOverflow => "attempt to add with overflow"

namespace Dataset

variable {F : Type}

/-- The first so many rows of a list of values. A row without a label ends the list. -/
def takeRows (featureCount : Nat) : Nat → List F → List (Sample F)
  | 0, _ => []
  | count + 1, values =>
    match values.drop featureCount with
    | [] => []
    | label :: rest => ⟨values.take featureCount, label⟩ :: takeRows featureCount count rest

/-- Cuts values into rows. -/
def ofValues (values : List F) (featureCount : Nat) : Except DatasetError (Dataset F) :=
  if featureCount = 0 then .error .noFeatures
  else if wordLimit ≤ featureCount + 1 then .error .widthOverflow
  else if values.length % (featureCount + 1) ≠ 0 then .error (.ragged values.length featureCount)
  else .ok ⟨featureCount, takeRows featureCount (values.length / (featureCount + 1)) values⟩

/-- The number of rows. -/
def size (d : Dataset F) : Nat := d.rows.length

/-- The first row that belongs to peer `i` of `n`. -/
def bound (d : Dataset F) (n i : Nat) : Nat := d.size * i / n

/-- The rows of peer `i` of `n`. -/
def span (d : Dataset F) (n i : Nat) : List (Sample F) :=
  (d.rows.drop (d.bound n i)).take (d.bound n (i + 1) - d.bound n i)

/-- One partition for each of `n` peers, in contiguous spans of nearly equal size. -/
def split (d : Dataset F) (n : Nat) : List (Partition F) :=
  (List.range n).map fun i => Partition.ofRows d.featureCount (d.span n i)

/-- The whole dataset as one partition. -/
def toPartition (d : Dataset F) : Partition F := Partition.ofRows d.featureCount d.rows

@[simp] theorem length_split (d : Dataset F) (n : Nat) : (d.split n).length = n := by
  simp [split]

/-- Peers that rows are shared out to have not read any of theirs. -/
theorem unread_of_mem_split {d : Dataset F} {n : Nat} {p : Partition F} (h : p ∈ d.split n) :
    p.unread = p.rows := by
  obtain ⟨i, -, rfl⟩ := List.mem_map.mp h
  rfl

end Dataset

end Superstep
