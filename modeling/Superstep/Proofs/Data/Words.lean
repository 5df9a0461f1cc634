import Superstep.Proofs.Data.Tape

/-!
# Sizes worked out in machine words

The width of a row, the number of rows and the position of a row are worked out in machine words.
An addition or a multiplication whose result is no word ends the program, and so do a division by
zero and a slice at positions that do not exist. `Superstep.Tape` leaves most of this arithmetic to
numbers that are never too great; here all that is done with a tape is written down once more, one
operation on words after the other (`Superstep.Word`), each with no result where the program would
end.

| what is done | in words | what it comes to |
|---|---|---|
| values are cut into rows | `Tape.ofValues?` | `Superstep.Tape.ofValues?_eq` |
| the rows are counted | `Tape.count?` | `Superstep.Tape.count?_of_rows` |
| the rows are shared out | `Tape.share?` | `Superstep.Dataset.share?_tape` |
| the next row is read | `Tape.sample?` | `Superstep.Tape.sample?_eq` |
| rows are read again and again | `Tape.serve?` | `Superstep.Tape.serve?_eq` |

The width of a row is the only number that can be too great, since it need not have anything to do
with the values there are. Everything else is a position in these values, or is not greater than
one (`Superstep.Tape.row_le`), and a word counts the values that memory holds.
-/

namespace Superstep

variable {F : Type}

/-! ### Operations on words -/

namespace Word

/-- A number, if it is a word. -/
def fit? (n : Nat) : Option Nat := if n < wordLimit then some n else none

/-- The sum of two words, if it is one. -/
def add? (a b : Nat) : Option Nat := fit? (a + b)

/-- The product of two words, if it is one. -/
def mul? (a b : Nat) : Option Nat := fit? (a * b)

/-- A quotient, rounded down, unless the divisor is zero. -/
def div? (a b : Nat) : Option Nat := if b = 0 then none else some (a / b)

/-- A remainder, unless the divisor is zero. -/
def mod? (a b : Nat) : Option Nat := if b = 0 then none else some (a % b)

variable {a b : Nat}

theorem add?_of_lt (h : a + b < wordLimit) : add? a b = some (a + b) := if_pos h

theorem add?_of_le (h : wordLimit ≤ a + b) : add? a b = none := if_neg (Nat.not_lt_of_le h)

theorem mul?_of_lt (h : a * b < wordLimit) : mul? a b = some (a * b) := if_pos h

theorem div?_of_pos (h : 0 < b) : div? a b = some (a / b) := if_neg (Nat.ne_of_gt h)

theorem mod?_of_pos (h : 0 < b) : mod? a b = some (a % b) := if_neg (Nat.ne_of_gt h)

end Word

/-- What comes to the same for each of some things comes to the same for all of them. -/
theorem mapM_congr {α β : Type} {f g : α → Option β} {list : List α} (h : ∀ a ∈ list, f a = g a) :
    list.mapM f = list.mapM g := by
  induction list with
  | nil => rfl
  | cons a list ih =>
    obtain ⟨first, others⟩ := List.forall_mem_cons.mp h
    rw [List.mapM_cons, List.mapM_cons, first, ih others]

theorem slice?_of_le {values : List F} {first last : Nat} (h : first ≤ last)
    (within : last ≤ values.length) :
    slice? values first last = some ((values.drop first).take (last - first)) :=
  if_pos ⟨h, within⟩

/-- As many values as there is room for are found behind a position. -/
theorem exists_slice? {values : List F} {first count : Nat}
    (inside : first + count ≤ values.length) :
    ∃ part, slice? values first (first + count) = some part ∧ part.length = count := by
  refine ⟨_, slice?_of_le (Nat.le_add_right first count) inside, ?_⟩
  rw [List.length_take, List.length_drop, Nat.add_sub_cancel_left]
  exact Nat.min_eq_left (Nat.le_sub_of_add_le' inside)

/-- A row is split behind its features. -/
theorem slice?_row {row : List F} {k : Nat} (length : row.length = k + 1) :
    slice? row 0 k = some (row.take k) ∧ slice? row k row.length = some (row.drop k) := by
  have behind : k ≤ row.length := Nat.le_of_lt (length ▸ Nat.lt_succ_self k)
  constructor
  · rw [slice?_of_le (Nat.zero_le k) behind, List.drop_zero, Nat.sub_zero]
  · rw [slice?_of_le behind (Nat.le_refl _), ← List.length_drop, List.take_length]

/-! ### Making a tape -/

/-- What a dataset or a refusal looks like on a tape. Where the width overflows there is nothing to
look at. -/
def Dataset.onTape? : Except DatasetError (Dataset F) → Option (Except DatasetError (Tape F))
  | .ok d => some (.ok d.tape)
  | .error .widthOverflow => none
  | .error error => some (.error error)

theorem Dataset.onTape?_error {error : DatasetError} (told : error ≠ .widthOverflow) :
    onTape? (.error error : Except DatasetError (Dataset F)) = some (.error error) := by
  cases error with
  | widthOverflow => exact absurd rfl told
  | _ => rfl

namespace Tape

/-- Puts values on a tape, if they can be cut into rows. -/
def ofValues? (values : List F) (featureCount : Nat) : Option (Except DatasetError (Tape F)) :=
  if featureCount = 0 then some (.error .noFeatures)
  else do
    let width ← Word.add? featureCount 1
    let left ← Word.mod? values.length width
    if left ≠ 0 then return .error (.ragged values.length featureCount)
    else return .ok { featureCount, values }

/-- **Values are put on a tape or refused** as they are without words, and the only size that gives
no result is the one whose successor is no word. -/
theorem ofValues?_eq (values : List F) (featureCount : Nat) :
    ofValues? values featureCount = Dataset.onTape? (Dataset.ofValues values featureCount) := by
  rw [ofValues?]
  by_cases none_left : featureCount = 0
  · rw [if_pos none_left, Dataset.ofValues, if_pos none_left]
    rfl
  rw [if_neg none_left]
  rcases Nat.lt_or_ge (featureCount + 1) wordLimit with small | great
  · simp only [Word.add?_of_lt small, Word.mod?_of_pos (Nat.succ_pos featureCount),
      Option.bind_eq_bind, Option.bind_some]
    by_cases whole : values.length % (featureCount + 1) = 0
    · have accepted : Dataset.ofValues values featureCount = .ok ⟨featureCount,
          Dataset.takeRows featureCount (values.length / (featureCount + 1)) values⟩ := by
        rw [Dataset.ofValues, if_neg none_left, if_neg (Nat.not_le_of_lt small),
          if_neg (not_not_intro whole)]
      rw [if_neg (not_not_intro whole), accepted, Dataset.onTape?,
        Dataset.tape_of_ofValues accepted]
      rfl
    · rw [if_pos whole, Dataset.ofValues, if_neg none_left, if_neg (Nat.not_le_of_lt small),
        if_pos whole]
      rfl
  · rw [Word.add?_of_le great, Dataset.ofValues, if_neg none_left, if_pos great]
    rfl

/-! ### Using a tape -/

/-- Whether there are no values. -/
def isEmpty (t : Tape F) : Bool := t.values.isEmpty

/-- The number of rows. -/
def count? (t : Tape F) : Option Nat := do
  let width ← Word.add? t.featureCount 1
  Word.div? t.values.length width

/-- The position at which the rows of peer `i` of `n` begin, given the number of rows and their
width. -/
def boundary? (count width n i : Nat) : Option Nat := do
  let product ← Word.mul? count i
  let row ← Word.div? product n
  Word.mul? row width

/-- Cuts the values into a tape for each of `n` peers. -/
def share? (t : Tape F) (n : Nat) : Option (List (Tape F)) := do
  let width ← Word.add? t.featureCount 1
  let count ← t.count?
  (List.range n).mapM fun i => do
    let first ← boundary? count width n i
    let next ← Word.add? i 1
    let last ← boundary? count width n next
    let values ← slice? t.values first last
    return { featureCount := t.featureCount, values }

/-- Reads the row at the cursor and moves the cursor behind it. At the end there is no row, and the
cursor stays. -/
def sample? (t : Tape F) : Option (Option (Sample F) × Tape F) := do
  let count ← t.count?
  if count ≤ t.cursor then return (none, t)
  else
    let width ← Word.add? t.featureCount 1
    let first ← Word.mul? t.cursor width
    let last ← Word.add? first width
    let row ← slice? t.values first last
    let features ← slice? row 0 t.featureCount
    let rest ← slice? row t.featureCount row.length
    let label ← rest[0]?
    let cursor ← Word.add? t.cursor 1
    return (some ⟨features, label⟩, { t with cursor })

/-- Asks a tape for some things, one after the other; gives the answers since the last start, and
the tape after them. -/
def serve? (t : Tape F) (answers : List (Option (Sample F))) :
    List Access → Option (List (Option (Sample F)) × Tape F)
  | [] => some (answers, t)
  | .next :: rest => do
    let (row?, t) ← t.sample?
    t.serve? (answers ++ [row?]) rest
  | .reset :: rest => t.rewind.serve? [] rest

variable {t : Tape F}

theorem count?_of_lt (countable : t.width < wordLimit) : t.count? = some t.size := by
  rw [count?, Word.add?_of_lt countable, Option.bind_eq_bind, Option.bind_some,
    Word.div?_of_pos (Nat.succ_pos t.featureCount)]
  rfl

theorem count?_of_le (great : wordLimit ≤ t.width) : t.count? = none := by
  rw [count?, Word.add?_of_le great]
  rfl

/-- **A row ends where there are values**, or at the end of all. -/
theorem row_le {i : Nat} (h : i ≤ t.size) : i * t.width ≤ t.values.length :=
  Nat.mul_le_of_le_div _ _ _ h

/-- There are no more rows than values. -/
theorem size_le (t : Tape F) : t.size ≤ t.values.length := Nat.div_le_self _ _

section Held

variable (held : t.values.length < wordLimit)

include held

/-- A boundary between two peers is worked out in words as it is without them. -/
theorem boundary?_eq {n i : Nat} (h : i ≤ n) (peers : 0 < n) :
    boundary? t.size t.width n i = t.bound? n i := by
  rw [boundary?, bound?]
  by_cases small : t.size * i < wordLimit
  · have within : t.size * i / n ≤ t.size :=
      Nat.div_le_of_le_mul (Nat.mul_comm n _ ▸ Nat.mul_le_mul_left _ h)
    have position : t.size * i / n * t.width < wordLimit := Nat.lt_of_le_of_lt (row_le within) held
    simp only [if_pos small, Word.mul?_of_lt small, Word.div?_of_pos peers,
      Word.mul?_of_lt position, Option.bind_eq_bind, Option.bind_some]
  · rw [if_neg small, Word.mul?, Word.fit?, if_neg small]
    rfl

/-- **To share out a tape in words** is to cut it. -/
theorem share?_eq {n : Nat} (countable : t.width < wordLimit) (word : n < wordLimit) :
    t.share? n = t.cut? n := by
  have width : Word.add? t.featureCount 1 = some t.width := Word.add?_of_lt countable
  simp only [share?, count?_of_lt countable, width, Option.bind_eq_bind, Option.bind_some]
  refine mapM_congr fun i hi => ?_
  have hi : i < n := List.mem_range.mp hi
  have next : Word.add? i 1 = some (i + 1) := Word.add?_of_lt (Nat.lt_of_le_of_lt hi word)
  have peers : 0 < n := Nat.zero_lt_of_lt hi
  simp only [next, boundary?_eq held (Nat.le_of_lt hi) peers, boundary?_eq held hi peers,
    Option.bind_some]
  rfl

/-- **To read a tape in words** is to read it: where there is a row, its positions are words, it
has a label, and the cursor can be moved. -/
theorem sample?_eq : t.sample? = t.next? := by
  rcases Nat.lt_or_ge t.width wordLimit with countable | great
  · rcases Nat.lt_or_ge t.cursor t.size with more | ended
    · have width : Word.add? t.featureCount 1 = some t.width := Word.add?_of_lt countable
      have inside : t.cursor * t.width + t.width ≤ t.values.length :=
        Nat.succ_mul t.cursor t.width ▸ row_le more
      have last : Word.add? (t.cursor * t.width) t.width = some (t.cursor * t.width + t.width) :=
        Word.add?_of_lt (Nat.lt_of_le_of_lt inside held)
      have first : Word.mul? t.cursor t.width = some (t.cursor * t.width) :=
        Word.mul?_of_lt (Nat.lt_of_le_of_lt (Nat.le_of_add_right_le inside) held)
      have moved : Word.add? t.cursor 1 = some (t.cursor + 1) :=
        Word.add?_of_lt (Nat.lt_of_le_of_lt (Nat.le_trans more t.size_le) held)
      obtain ⟨row, found, length⟩ := exists_slice? inside
      obtain ⟨features, label⟩ := slice?_row length
      rw [next?, if_neg (Nat.not_le_of_lt countable), if_neg (Nat.not_le_of_lt more), found]
      simp only [sample?, count?_of_lt countable, if_neg (Nat.not_le_of_lt more), width, first,
        last, found, features, label, moved, List.getElem?_drop, Nat.add_zero,
        Option.bind_eq_bind, Option.bind_some]
    · rw [sample?, count?_of_lt countable, next?_of_end countable ended]
      exact if_pos ended
  · rw [sample?, count?_of_le great, next?, if_pos great]
    rfl

end Held

/-- Reading does not change the values. -/
theorem values_of_next? {row? : Option (Sample F)} {t' : Tape F}
    (h : t.next? = some (row?, t')) : t'.values = t.values := by
  unfold next? at h
  split at h
  · cases h
  · split at h
    · cases h
      rfl
    · obtain ⟨row, -, h⟩ := Option.bind_eq_some_iff.mp h
      obtain ⟨label, -, h⟩ := Option.bind_eq_some_iff.mp h
      cases h
      rfl

/-- **Whatever is asked of a tape**, in words the answers are the same. -/
theorem serve?_eq (held : t.values.length < wordLimit) (answers : List (Option (Sample F)))
    (accesses : List Access) : t.serve? answers accesses = t.play? answers accesses := by
  induction accesses generalizing t answers with
  | nil => rfl
  | cons access rest ih =>
    cases access with
    | next =>
      rw [serve?, play?, sample?_eq held]
      cases read : t.next? with
      | none => rfl
      | some result => exact ih (values_of_next? read ▸ held) _
    | reset => exact ih (t := t.rewind) held []

section Rows

variable {rows : List (Sample F)} (same : t.values = rows.flatMap Sample.values)

include same

/-- **The rows on a tape are counted**, if their width can be. -/
theorem count?_of_rows (even : ∀ row ∈ rows, row.features.length = t.featureCount)
    (countable : t.width < wordLimit) : t.count? = some rows.length := by
  rw [count?_of_lt countable, size, same, length_flatMap_values even]
  exact congrArg some (Nat.mul_div_cancel _ (Nat.succ_pos _))

/-- A tape without values has no rows, whatever their width: each has a label. -/
theorem isEmpty_of_rows : t.isEmpty = rows.isEmpty := by
  rw [isEmpty, same]
  cases rows with
  | nil => rfl
  | cons row rest => simp [Sample.values]

end Rows

end Tape

namespace Dataset

variable {d : Dataset F} (regular : d.Regular)

include regular

/-- **To share out the tape of a dataset in words is to share out its rows.** -/
theorem share?_tape {n : Nat} (held : d.tape.values.length < wordLimit) (word : n < wordLimit)
    (countable : d.size * n < wordLimit) :
    d.tape.share? n = some ((d.split n).map Partition.tape) := by
  rw [Tape.share?_eq held regular.countable word, cut?_tape regular countable]

end Dataset

namespace Partition

/-- Nothing that is asked of a partition changes its rows or their width. -/
theorem play_keeps (p : Partition F) (answers : List (Option (Sample F)))
    (accesses : List Access) :
    (p.play answers accesses).2.rows = p.rows ∧
      (p.play answers accesses).2.featureCount = p.featureCount := by
  induction accesses generalizing p answers with
  | nil => exact ⟨rfl, rfl⟩
  | cons access rest ih =>
    cases access with
    | next =>
      obtain ⟨rows, featureCount⟩ := ih p.next.2 (answers ++ [p.next.1])
      exact ⟨rows.trans p.rows_next, featureCount.trans p.featureCount_next⟩
    | reset => exact ih p.reset []

end Partition

end Superstep
