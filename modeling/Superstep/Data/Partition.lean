import Superstep.Word

/-!
# Rows and the partition a peer owns

A row is a training example: its features and its label. The rows a peer owns form its partition,
which it reads one after the other, to the end, and then again from the start. A partition
therefore holds its rows together with those of them that are still unread; the unread ones are
always the last ones (`Partition.WellPlaced`), which every operation preserves.

Reading looks at the width of a row, one more than the number of features, as a machine word. A
partition without rows can be given any number of features, the greatest word included, and then
that width does not exist: such a partition is not `readable`, and whoever reads from it breaks off.
-/

namespace Superstep

/-- A training example: the features and the label. -/
structure Sample (F : Type) where
  features : List F
  label : F
  deriving DecidableEq, BEq, Repr

/-- The rows owned by one peer, and those of them it has not yet read. -/
structure Partition (F : Type) where
  /-- The number of features of a row. -/
  featureCount : Nat
  rows : List (Sample F)
  unread : List (Sample F)
  deriving BEq, Repr

namespace Partition

variable {F : Type}

/-- Some rows, none of them read. -/
def ofRows (featureCount : Nat) (rows : List (Sample F)) : Partition F := ⟨featureCount, rows, rows⟩

/-- A partition without rows. -/
def empty (featureCount : Nat) : Partition F := ofRows featureCount []

/-- How many rows there are, read or not. -/
def size (p : Partition F) : Nat := p.rows.length

/-- How many rows have been read. -/
def position (p : Partition F) : Nat := p.rows.length - p.unread.length

/-- Whether a row with its label has a width. -/
def readable (p : Partition F) : Bool := decide (p.featureCount + 1 < wordLimit)

/-- The next row and the partition after reading it. At the end there is none, and nothing
moves. -/
def next (p : Partition F) : Option (Sample F) × Partition F :=
  match p.unread with
  | [] => (none, p)
  | row :: rest => (some row, { p with unread := rest })

/-- Everything is to be read again. -/
def reset (p : Partition F) : Partition F := { p with unread := p.rows }

/-- The unread rows are the last ones. -/
def WellPlaced (p : Partition F) : Prop := ∃ read, p.rows = read ++ p.unread

theorem wellPlaced_ofRows (featureCount : Nat) (rows : List (Sample F)) :
    (ofRows featureCount rows).WellPlaced := ⟨[], rfl⟩

theorem WellPlaced.reset (p : Partition F) : p.reset.WellPlaced := ⟨[], rfl⟩

theorem WellPlaced.next {p : Partition F} (h : p.WellPlaced) : p.next.2.WellPlaced := by
  obtain ⟨read, h⟩ := h
  unfold Partition.next
  split
  · exact ⟨read, h⟩
  · next row rest hu => exact ⟨read ++ [row], by simp [h, hu]⟩

@[simp] theorem rows_next (p : Partition F) : p.next.2.rows = p.rows := by
  unfold next; split <;> rfl

@[simp] theorem rows_reset (p : Partition F) : p.reset.rows = p.rows := rfl

@[simp] theorem unread_reset (p : Partition F) : p.reset.unread = p.rows := rfl

/-- None of the rows has been read exactly if the partition is as it was made of them. -/
theorem unread_eq_rows_iff {p : Partition F} :
    p.unread = p.rows ↔ p = ofRows p.featureCount p.rows :=
  ⟨fun h => congrArg (Partition.mk p.featureCount p.rows) h, congrArg unread⟩

end Partition

end Superstep
