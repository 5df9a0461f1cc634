import Mathlib.Data.List.Induction
import Superstep.Proofs.Data.Spans

/-!
# Rows laid end to end

In memory the rows of a partition lie on a *tape*: their values one after the other, the label of
each row last, and beside them the number of rows that have been read. Who wants a row has to work
out at which position it begins, and a position outside of the tape would end the program. Here
tapes are read and cut by such arithmetic, with no result where a position does not exist or a
number is no machine word, and it is shown that this never happens where the width of a row can be
counted:

* values that can be cut into rows are the tape of these rows
  (`Superstep.Dataset.tape_of_ofValues`);
* to cut the tape of a dataset at the bounds of its spans gives the tapes of the partitions
  (`Superstep.Dataset.cut?_tape`);
* to read the tape of a partition gives its next row (`Superstep.Partition.next?_tape`).

## What has been read

A partition is read and started over in any order. What matters of it is only what has happened
since it was started over for the last time: so many rows have been asked for, and these are the
first rows, followed by nothing as often as more were asked for than there are
(`Superstep.Partition.Reads`).
-/

namespace Superstep

variable {F : Type}

/-- The values from one position up to another, if there are such positions. -/
def slice? (values : List F) (first last : Nat) : Option (List F) :=
  if first ≤ last ∧ last ≤ values.length then some ((values.drop first).take (last - first))
  else none

/-- The values of a row, the label last. -/
def Sample.values (row : Sample F) : List F := row.features ++ [row.label]

theorem Sample.length_values (row : Sample F) : row.values.length = row.features.length + 1 :=
  List.length_append

/-! ### Tapes -/

/-- The values of rows one after the other, and how many of the rows have been read. -/
structure Tape (F : Type) where
  featureCount : Nat
  values : List F
  cursor : Nat := 0
  deriving DecidableEq, Repr

namespace Tape

/-- How many values belong to a row. -/
def width (t : Tape F) : Nat := t.featureCount + 1

/-- How many rows there are. -/
def size (t : Tape F) : Nat := t.values.length / t.width

/-- Everything is to be read again. -/
def rewind (t : Tape F) : Tape F := { t with cursor := 0 }

/-- Reads the row at the cursor and moves the cursor behind it. At the end there is no row, and the
cursor stays. -/
def next? (t : Tape F) : Option (Option (Sample F) × Tape F) :=
  if wordLimit ≤ t.width then none
  else if t.size ≤ t.cursor then some (none, t)
  else do
    let row ← slice? t.values (t.cursor * t.width) (t.cursor * t.width + t.width)
    let label ← row[t.featureCount]?
    return (some ⟨row.take t.featureCount, label⟩, { t with cursor := t.cursor + 1 })

theorem next?_of_end {t : Tape F} (countable : t.width < wordLimit) (h : t.size ≤ t.cursor) :
    t.next? = some (none, t) := by
  rw [next?, if_neg (Nat.not_le_of_lt countable), if_pos h]

theorem next?_of_row {t : Tape F} {row : Sample F} (countable : t.width < wordLimit)
    (h : t.cursor < t.size) (even : row.features.length = t.featureCount)
    (found : slice? t.values (t.cursor * t.width) (t.cursor * t.width + t.width) =
      some row.values) :
    t.next? = some (some row, { t with cursor := t.cursor + 1 }) := by
  rw [next?, if_neg (Nat.not_le_of_lt countable), if_neg (Nat.not_le_of_lt h), found]
  simp [Sample.values, ← even]

/-- The position at which the rows of peer `i` of `n` begin. -/
def bound? (t : Tape F) (n i : Nat) : Option Nat :=
  if t.size * i < wordLimit then some (t.size * i / n * t.width) else none

/-- Cuts the values into a tape for each of `n` peers. -/
def cut? (t : Tape F) (n : Nat) : Option (List (Tape F)) :=
  (List.range n).mapM fun i => do
    let first ← t.bound? n i
    let last ← t.bound? n (i + 1)
    let values ← slice? t.values first last
    return { featureCount := t.featureCount, values }

end Tape

/-- A dataset on a tape. -/
def Dataset.tape (d : Dataset F) : Tape F :=
  { featureCount := d.featureCount, values := d.rows.flatMap Sample.values }

/-- A partition on a tape. -/
def Partition.tape (p : Partition F) : Tape F :=
  { featureCount := p.featureCount, values := p.rows.flatMap Sample.values, cursor := p.position }

/-! ### Positions of rows -/

section Positions

variable {rows : List (Sample F)} {k : Nat} (even : ∀ row ∈ rows, row.features.length = k)

include even

theorem length_flatMap_values : (rows.flatMap Sample.values).length = rows.length * (k + 1) := by
  induction rows with
  | nil => simp
  | cons row rows ih =>
    obtain ⟨first, others⟩ := List.forall_mem_cons.mp even
    rw [List.flatMap_cons, List.length_append, ih others, row.length_values, first,
      List.length_cons, Nat.succ_mul, Nat.add_comm]

/-- Whole rows are dropped by dropping as many values as belong to them. -/
theorem drop_flatMap_values (count : Nat) :
    (rows.flatMap Sample.values).drop (count * (k + 1)) =
      (rows.drop count).flatMap Sample.values := by
  induction count generalizing rows with
  | zero => simp
  | succ count ih =>
    cases rows with
    | nil => simp
    | cons row rows =>
      obtain ⟨first, others⟩ := List.forall_mem_cons.mp even
      have length : row.values.length = k + 1 := by rw [row.length_values, first]
      rw [List.flatMap_cons, Nat.succ_mul, Nat.add_comm, ← length, List.drop_length_add_append,
        length, ih others, List.drop_succ_cons]

/-- Whole rows are taken by taking as many values as belong to them. -/
theorem take_flatMap_values (count : Nat) :
    (rows.flatMap Sample.values).take (count * (k + 1)) =
      (rows.take count).flatMap Sample.values := by
  induction count generalizing rows with
  | zero => simp
  | succ count ih =>
    cases rows with
    | nil => simp
    | cons row rows =>
      obtain ⟨first, others⟩ := List.forall_mem_cons.mp even
      have length : row.values.length = k + 1 := by rw [row.length_values, first]
      rw [List.flatMap_cons, Nat.succ_mul, Nat.add_comm, ← length, List.take_length_add_append,
        length, ih others, List.take_succ_cons, List.flatMap_cons]

/-- **A slice between the beginnings of two rows** exists, and holds the rows between them. -/
theorem slice?_flatMap_values {first last : Nat} (h : first ≤ last) (within : last ≤ rows.length) :
    slice? (rows.flatMap Sample.values) (first * (k + 1)) (last * (k + 1)) =
      some (((rows.drop first).take (last - first)).flatMap Sample.values) := by
  have ordered : first * (k + 1) ≤ last * (k + 1) := Nat.mul_le_mul_right _ h
  have inside : last * (k + 1) ≤ (rows.flatMap Sample.values).length := by
    rw [length_flatMap_values even]
    exact Nat.mul_le_mul_right _ within
  have others : ∀ row ∈ rows.drop first, row.features.length = k := fun row hr =>
    even row (List.mem_of_mem_drop hr)
  rw [slice?, if_pos ⟨ordered, inside⟩, drop_flatMap_values even, ← Nat.sub_mul,
    take_flatMap_values others]

end Positions

/-! ### Datasets on a tape -/

/-- What is possible for each of some things is possible for all of them. -/
theorem mapM_eq_some_map {α β : Type} {f : α → Option β} {g : α → β} {list : List α}
    (h : ∀ a ∈ list, f a = some (g a)) : list.mapM f = some (list.map g) := by
  induction list with
  | nil => rfl
  | cons a list ih =>
    obtain ⟨first, others⟩ := List.forall_mem_cons.mp h
    rw [List.mapM_cons, first, ih others]
    rfl

namespace Dataset

/-- Values of so many rows are cut into these rows and lose nothing. -/
theorem flatMap_takeRows {k count : Nat} {values : List F}
    (h : values.length = count * (k + 1)) :
    (takeRows k count values).flatMap Sample.values = values ∧
      (takeRows k count values).length = count := by
  induction count generalizing values with
  | zero =>
    rw [Nat.zero_mul, List.length_eq_zero_iff] at h
    simp [takeRows, h]
  | succ count ih =>
    rw [Nat.succ_mul] at h
    unfold takeRows
    split
    · next nothing =>
      have := congrArg List.length nothing
      rw [List.length_drop, List.length_nil] at this
      omega
    · next label rest found =>
      have length : rest.length = count * (k + 1) := by
        have := congrArg List.length found
        rw [List.length_drop, List.length_cons] at this
        omega
      obtain ⟨joined, counted⟩ := ih length
      constructor
      · rw [List.flatMap_cons, joined, Sample.values, List.append_assoc, List.singleton_append,
          ← found, List.take_append_drop]
      · rw [List.length_cons, counted]

/-- **Values that can be cut into rows are the tape of these rows.** -/
theorem tape_of_ofValues {values : List F} {k : Nat} {d : Dataset F}
    (h : ofValues values k = .ok d) : d.tape = { featureCount := k, values } := by
  unfold ofValues at h
  split at h
  · cases h
  · split at h
    · cases h
    · split at h
      · cases h
      · next whole =>
        obtain rfl := Except.ok.inj h
        have whole : values.length = values.length / (k + 1) * (k + 1) := by
          have := Nat.div_add_mod values.length (k + 1)
          rw [Nat.mul_comm]
          omega
        rw [tape, (flatMap_takeRows whole).1]

/-- Rows that are laid end to end are cut into these rows again. -/
theorem ofValues_flatten {k : Nat} {rows : List (List F)} (pos : 0 < k)
    (countable : k + 1 < wordLimit) (even : ∀ row ∈ rows, row.length = k + 1) :
    ∃ d, ofValues rows.flatten k = .ok d ∧ d.featureCount = k ∧
      d.rows.map Sample.values = rows := by
  have lengths : rows.map List.length = List.replicate rows.length (k + 1) :=
    List.eq_replicate_iff.mpr ⟨List.length_map _, by simpa using even⟩
  have length : rows.flatten.length = rows.length * (k + 1) := by
    rw [List.length_flatten, lengths, List.sum_replicate_nat]
  have whole : rows.flatten.length % (k + 1) = 0 := by rw [length, Nat.mul_mod_left]
  have count : rows.flatten.length / (k + 1) = rows.length := by
    rw [length, Nat.mul_div_cancel _ (Nat.succ_pos k)]
  obtain ⟨joined, counted⟩ := flatMap_takeRows length
  refine ⟨⟨k, takeRows k rows.length rows.flatten⟩, ?_, rfl, ?_⟩
  · rw [ofValues, if_neg (Nat.ne_of_gt pos), if_neg (Nat.not_le_of_lt countable),
      if_neg (not_not_intro whole), count]
  · refine List.eq_iff_flatten_eq.mpr ⟨joined, ?_⟩
    rw [lengths, List.map_map, List.eq_replicate_iff]
    refine ⟨(List.length_map _).trans counted, fun n hn => ?_⟩
    obtain ⟨row, hr, rfl⟩ := List.mem_map.mp hn
    rw [Function.comp_apply, row.length_values, length_of_mem_takeRows hr]

variable {d : Dataset F} (regular : d.Regular)

include regular

theorem size_tape : d.tape.size = d.size := by
  rw [Tape.size, Tape.width, tape, length_flatMap_values regular.rows]
  exact Nat.mul_div_cancel _ (Nat.succ_pos _)

/-- **To cut the tape of a dataset is to share out its rows**, if the products that the bounds are
worked out from are machine words. -/
theorem cut?_tape {n : Nat} (countable : d.size * n < wordLimit) :
    d.tape.cut? n = some ((d.split n).map Partition.tape) := by
  have bound {i : Nat} (h : i ≤ n) :
      d.tape.bound? n i = some (d.bound n i * (d.featureCount + 1)) := by
    have small : d.size * i < wordLimit :=
      Nat.lt_of_le_of_lt (Nat.mul_le_mul_left _ h) countable
    rw [Tape.bound?, size_tape regular, if_pos small]
    rfl
  rw [Tape.cut?, split, List.map_map]
  refine mapM_eq_some_map fun i hi => ?_
  have hi : i < n := List.mem_range.mp hi
  have part := slice?_flatMap_values regular.rows (d.bound_mono (Nat.le_succ i))
    (d.bound_le_size hi)
  rw [bound (Nat.le_of_lt hi), bound hi]
  change (slice? (d.rows.flatMap Sample.values) (d.bound n i * (d.featureCount + 1))
    (d.bound n (i + 1) * (d.featureCount + 1))).bind _ = _
  rw [part]
  simp [tape, Partition.tape, Partition.ofRows, Partition.position, span]

end Dataset

/-! ### Partitions on a tape -/

namespace Partition

variable {p : Partition F}

theorem tape_reset (p : Partition F) : p.reset.tape = p.tape.rewind := by
  simp [tape, Tape.rewind, position, reset]

/-- **To read the tape of a partition is to read the partition.** Only where the width of a row is
no machine word the tape cannot be read. -/
theorem next?_tape (placed : p.WellPlaced)
    (even : ∀ row ∈ p.rows, row.features.length = p.featureCount) :
    p.tape.next? = if p.readable then some (p.next.1, p.next.2.tape) else none := by
  obtain ⟨read, rows⟩ := placed
  have cursor : p.tape.cursor = read.length := by simp [tape, position, rows]
  have size : p.tape.size = p.rows.length := by
    rw [Tape.size, tape, length_flatMap_values even]
    exact Nat.mul_div_cancel _ (Nat.succ_pos _)
  by_cases countable : p.tape.width < wordLimit
  · rw [if_pos (show p.readable = true from decide_eq_true countable)]
    cases unread : p.unread with
    | nil =>
      have ended : p.tape.size ≤ p.tape.cursor := by simp [size, cursor, rows, unread]
      rw [Tape.next?_of_end countable ended, next, unread]
    | cons row rest =>
      have mem : row ∈ p.rows := by simp [rows, unread]
      have more : p.tape.cursor < p.tape.size := by simp [size, cursor, rows, unread]
      have drop : (p.rows.drop p.tape.cursor).take 1 = [row] := by simp [cursor, rows, unread]
      have found := slice?_flatMap_values even (Nat.le_succ p.tape.cursor) (size ▸ more)
      rw [Nat.succ_mul, Nat.succ_sub (Nat.le_refl _), Nat.sub_self, drop,
        List.flatMap_singleton] at found
      have moved : p.next = (some row, { p with unread := rest }) := by rw [next, unread]
      rw [Tape.next?_of_row countable more (even row mem) found, moved]
      simp [tape, position, rows, unread]
      omega
  · rw [Tape.next?, if_pos (Nat.le_of_not_lt countable),
      if_neg (show ¬p.readable = true from fun readable => countable (of_decide_eq_true readable))]

end Partition

/-! ### Readings -/

/-- What is asked of a partition. -/
inductive Access
  /-- The next row, if there is one left. -/
  | next
  /-- To start over. -/
  | reset
  deriving DecidableEq, Repr

/-- How often rows were asked for since the last start. -/
def Access.sinceReset (accesses : List Access) : Nat :=
  (accesses.reverse.takeWhile (· = .next)).length

theorem Access.sinceReset_concat (accesses : List Access) (access : Access) :
    sinceReset (accesses ++ [access]) =
      match access with
      | .next => sinceReset accesses + 1
      | .reset => 0 := by
  cases access <;> simp [sinceReset]

/-- Asks a tape for some things, one after the other; gives the answers since the last start, and
the tape after them. -/
def Tape.play? (t : Tape F) (answers : List (Option (Sample F))) :
    List Access → Option (List (Option (Sample F)) × Tape F)
  | [] => some (answers, t)
  | .next :: rest => do
    let (row?, t) ← t.next?
    t.play? (answers ++ [row?]) rest
  | .reset :: rest => t.rewind.play? [] rest

namespace Partition

/-- Asks a partition for some things, one after the other; gives the answers since the last start,
and the partition after them. -/
def play (p : Partition F) (answers : List (Option (Sample F))) :
    List Access → List (Option (Sample F)) × Partition F
  | [] => (answers, p)
  | .next :: rest => p.next.2.play (answers ++ [p.next.1]) rest
  | .reset :: rest => p.reset.play [] rest

theorem play_append (p : Partition F) (answers : List (Option (Sample F)))
    (accesses more : List Access) :
    p.play answers (accesses ++ more) =
      (p.play answers accesses).2.play (p.play answers accesses).1 more := by
  induction accesses generalizing p answers with
  | nil => rfl
  | cons access rest ih =>
    cases access with
    | next => exact ih ..
    | reset => exact ih ..

@[simp] theorem featureCount_next (p : Partition F) :
    p.next.2.featureCount = p.featureCount := by
  unfold next; split <;> rfl

/-- **The tape of a partition answers as the partition does**, and no position is missed on the
way. -/
theorem play?_tape {p : Partition F} (placed : p.WellPlaced) (readable : p.readable = true)
    (even : ∀ row ∈ p.rows, row.features.length = p.featureCount)
    (answers : List (Option (Sample F))) (accesses : List Access) :
    p.tape.play? answers accesses =
      some ((p.play answers accesses).1, (p.play answers accesses).2.tape) := by
  induction accesses generalizing p answers with
  | nil => rfl
  | cons access rest ih =>
    cases access with
    | next =>
      have even' : ∀ row ∈ p.next.2.rows, row.features.length = p.next.2.featureCount := by
        simpa using even
      have readable' : p.next.2.readable = true := by
        rwa [Partition.readable, featureCount_next]
      rw [Tape.play?, next?_tape placed even, if_pos readable]
      exact ih placed.next readable' even' _
    | reset =>
      rw [Tape.play?, ← tape_reset]
      exact ih (.reset p) readable even _

/-- **What has been read of some rows** since the last start: the answers are the first rows in
their order and then nothing, and the rows that are not among them are unread. -/
structure Reads (rows : List (Sample F)) (answers : List (Option (Sample F)))
    (p : Partition F) : Prop where
  rows_eq : p.rows = rows
  answers_eq : answers = (rows.take answers.length).map some ++
    List.replicate (answers.length - rows.length) none
  unread_eq : p.unread = rows.drop answers.length

namespace Reads

variable {rows : List (Sample F)} {answers : List (Option (Sample F))} {p : Partition F}

theorem position_eq (h : p.Reads rows answers) : p.position = min answers.length rows.length := by
  rw [position, h.rows_eq, h.unread_eq, List.length_drop]
  omega

/-- Once all rows were read nothing moves. -/
theorem next_eq (h : p.Reads rows answers) (all : rows.length ≤ answers.length) :
    p.next = (none, p) := by
  have nothing : p.unread = [] := by rw [h.unread_eq, List.drop_eq_nil_of_le all]
  rw [next, nothing]

theorem next (h : p.Reads rows answers) : p.next.2.Reads rows (answers ++ [p.next.1]) := by
  rcases Nat.lt_or_ge answers.length rows.length with more | all
  · have unread : p.unread = rows[answers.length] :: rows.drop (answers.length + 1) :=
      h.unread_eq.trans (List.drop_eq_getElem_cons more)
    have moved : p.next = (some rows[answers.length],
        { p with unread := rows.drop (answers.length + 1) }) := by rw [Partition.next, unread]
    have read : answers = (rows.take answers.length).map some := by
      have := h.answers_eq
      rwa [Nat.sub_eq_zero_of_le (Nat.le_of_lt more), List.replicate_zero, List.append_nil] at this
    rw [moved]
    refine ⟨h.rows_eq, ?_, by simp⟩
    have none_left : answers.length + 1 - rows.length = 0 := Nat.sub_eq_zero_of_le more
    rw [List.length_append, List.length_singleton, none_left,
      List.take_succ_eq_append_getElem more, List.map_append, ← read]
    simp
  · rw [h.next_eq all]
    refine ⟨h.rows_eq, ?_, ?_⟩
    · have one_more : answers.length + 1 - rows.length = answers.length - rows.length + 1 := by
        omega
      have answered := h.answers_eq
      rw [List.take_of_length_le all] at answered
      rw [List.length_append, List.length_singleton, one_more, List.replicate_succ',
        List.take_of_length_le (Nat.le_succ_of_le all), ← List.append_assoc, ← answered]
    · rw [h.unread_eq]
      simp [List.drop_eq_nil_of_le all, List.drop_eq_nil_of_le (Nat.le_succ_of_le all)]

theorem reset (h : p.Reads rows answers) : p.reset.Reads rows [] :=
  ⟨h.rows_eq, by simp, h.rows_eq⟩

end Reads

/-- **Whatever is asked of a partition**, the answers since the last start are its rows in order,
as many as were asked for, and then nothing. -/
theorem reads_play (featureCount : Nat) (rows : List (Sample F)) (accesses : List Access) :
    ((ofRows featureCount rows).play [] accesses).2.Reads rows
        ((ofRows featureCount rows).play [] accesses).1 ∧
      ((ofRows featureCount rows).play [] accesses).1.length = Access.sinceReset accesses := by
  induction accesses using List.reverseRecOn with
  | nil => exact ⟨⟨rfl, by simp [play], rfl⟩, rfl⟩
  | append_singleton accesses access ih =>
    obtain ⟨reads, length⟩ := ih
    rw [play_append, Access.sinceReset_concat]
    cases access with
    | next => exact ⟨reads.next, by simp [play, length]⟩
    | reset => exact ⟨reads.reset, rfl⟩

end Partition

end Superstep
