import Superstep.Cluster.Run
import Superstep.Job.Basic
import Superstep.Peer.Script
import Superstep.Proofs.Data.Csv
import Superstep.Proofs.Data.Words

/-!
# Sizes given from outside

How many features a row has is said by whoever hands over values or a text, and by whoever describes
a job. It may be any word at all. What is handed over becomes a dataset or is refused, and a dataset
is counted, shared out and read. A size is *withstood* if all of this goes well in words, so that
nobody is ever left without an answer (`Superstep.Withstands`), and that is so whenever the size has
a successor (`Superstep.withstands_iff`).

The greatest word has none. The width of a row is worked out before anything is looked at, also
where there is nothing to look at, so that even no values, an empty text and a partition without
rows end the program (`Superstep.Dataset.breaks_off_greatest`).

A text brings sizes of its own: the number of a line, how many fields there are in it, and how many
values in all. None of them is greater than the number of its characters by more than one
(`Superstep.Csv.length_values_le`), and a word counts the characters of a text.
-/

namespace Superstep

open Text

/-! ### Texts in words -/

namespace Csv

/-- Reads lines, each with its index in the text, after these values have been read; gives all
values, and the number of fields that is expected in the end. -/
def gather? (width? : Option Nat) (values : List Float) :
    List (List Char × Nat) → Option (Except DatasetError (Option Nat × List Float))
  | [] => some (.ok (width?, values))
  | (line, index) :: rest =>
    if IsSignificant line then
      match readFields (trim line) with
      | .error cause => do
        let number ← Word.add? index 1
        return .error (.unreadable number cause.message)
      | .ok row =>
        let expected := width?.getD row.length
        if row.length = expected then gather? (some expected) (values ++ row) rest
        else do
          let number ← Word.add? index 1
          return .error (.columns number expected row.length)
    else gather? width? values rest

/-- Reads a tape from text, with a given number of features or that of the first row. -/
def read? (text : String) (featureCount? : Option Nat) :
    Option (Except DatasetError (Tape Float)) := do
  let width? ← featureCount?.mapM fun featureCount => Word.add? featureCount 1
  match ← gather? width? [] (lines text.toList).zipIdx with
  | .error error => return .error error
  | .ok (width?, values) => Tape.ofValues? values ((width?.map (· - 1)).getD 0)

theorem readLine_of_readFields {line : List Char} {row : List Float}
    (h : readFields line = .ok row) (width? : Option Nat) (number : Nat) :
    readLine width? number line =
      if row.length = width?.getD row.length then .ok row
      else .error (.columns number (width?.getD row.length) row.length) := by
  rw [readLine, h]
  cases width? with
  | none => exact (if_pos rfl).symm
  | some expected => rfl

/-- **Lines are gathered in words** as they are read without them: all that is worked out is the
number of a line. -/
theorem gather?_eq {lines : List (List Char)} {index : Nat} (width? : Option Nat)
    (values : List Float) (countable : index + lines.length < wordLimit) :
    gather? width? values (lines.zipIdx index) =
      some ((readLines width? (numbered (index + 1) lines)).map fun result =>
        (result.1, values ++ result.2.flatten)) := by
  induction lines generalizing index width? values with
  | nil => simp [gather?, numbered, readLines, Except.map]
  | cons line lines ih =>
    rw [List.length_cons] at countable
    have later (width? : Option Nat) (values : List Float) :=
      ih width? values (show index + 1 + lines.length < wordLimit by omega)
    rw [List.zipIdx_cons, gather?]
    by_cases significant : IsSignificant line
    · have number : Word.add? index 1 = some (index + 1) := Word.add?_of_lt (by omega)
      rw [if_pos significant, numbered_cons_of_significant significant, readLines, number]
      cases found : readFields (trim line) with
      | error cause =>
        rw [readLine, found]
        rfl
      | ok row =>
        rw [readLine_of_readFields found]
        by_cases even : row.length = width?.getD row.length
        · simp only [if_pos even, later, bind, Except.bind]
          cases readLines (some (width?.getD row.length)) (numbered (index + 1 + 1) lines) with
          | error error => rfl
          | ok result => simp [Except.map, pure, Except.pure]
        · simp only [if_neg even]
          rfl
    · rw [if_neg significant, numbered_cons_of_not_significant significant]
      exact later width? values

/-- There are no more fields in some lines than characters, and one more for each line. -/
theorem length_flatMap_fields_le (lines : List (List Char)) :
    ((lines.filter fun line => IsSignificant line).flatMap fields).length ≤
      lines.flatten.length + lines.length := by
  induction lines with
  | nil => exact Nat.le_refl _
  | cons line lines ih =>
    have few : (fields line).length ≤ line.length + 1 := by
      rw [fields, List.length_map]
      exact length_pieces_le ',' line
    rw [List.filter_cons, List.flatten_cons, List.length_append, List.length_cons]
    split
    · rw [List.flatMap_cons, List.length_append]
      omega
    · omega

section Held

variable {text : String} (held : text.length < signedLimit)

include held

/-- A word counts the characters of a text, and one more. -/
theorem length_succ_lt : text.length + 1 < wordLimit := by
  unfold signedLimit at held
  unfold wordLimit
  omega

/-- Where a width exists, whoever reads a text is told what is wrong with it. -/
theorem read_ne_widthOverflow {featureCount? : Option Nat}
    (countable : ∀ k ∈ featureCount?, k + 1 < wordLimit) :
    read text featureCount? ≠ .error .widthOverflow := by
  intro h
  rcases read_eq_error countable held h with
    ⟨number, before, line, after, -, -, -, -, fault⟩ | ⟨-, same⟩
  · cases fault
  · cases same

/-- **A text is read in words** as it is without them, and the only size that gives no result is
the one whose successor is no word. -/
theorem read?_eq (featureCount? : Option Nat) :
    read? text featureCount? = Dataset.onTape? (read text featureCount?) := by
  by_cases countable : ∀ k ∈ featureCount?, k + 1 < wordLimit
  · have width : (featureCount?.mapM fun k => Word.add? k 1) =
        some (featureCount?.map (· + 1)) := by
      cases featureCount? with
      | none => rfl
      | some k => simp [Word.add?_of_lt (countable k rfl)]
    have small : ¬wordLimit ≤ featureCount?.getD 0 + 1 := by
      cases featureCount? with
      | none => decide
      | some k => exact Nat.not_le_of_lt (countable k rfl)
    have lines_lt : 0 + (lines text.toList).length < wordLimit := by
      have := length_lines_le text.toList
      have := length_succ_lt held
      rw [String.length_toList] at *
      omega
    have told := read_ne_widthOverflow held countable
    rw [read, if_neg small, significantLines_eq_numbered] at told ⊢
    rw [read?, width, Option.bind_eq_bind, Option.bind_some, gather?_eq _ _ lines_lt]
    cases found : readLines (featureCount?.map (· + 1)) (numbered 1 (lines text.toList)) with
    | error error =>
      rw [found] at told
      exact (Dataset.onTape?_error fun same => told (congrArg Except.error same)).symm
    | ok result =>
      have features : (result.1.map (· - 1)).getD 0 = result.1.getD 0 - 1 := by
        cases result.1 <;> rfl
      change Tape.ofValues? result.2.flatten ((result.1.map (· - 1)).getD 0) = _
      rw [Tape.ofValues?_eq, features]
      rfl
  · push Not at countable
    obtain ⟨k, rfl, great⟩ := countable
    rw [read, Option.getD_some, if_pos great, read?, Option.mapM_some, Word.add?_of_le great]
    rfl

omit held in
/-- What is read from a text is a dataset like any other. -/
theorem regular_of_read {featureCount? : Option Nat} {d : Dataset Float}
    (h : read text featureCount? = .ok d) : d.Regular := by
  rw [read] at h
  split at h
  · cases h
  · obtain ⟨result, -, accepted⟩ := bind_eq_ok_iff.mp h
    exact Dataset.regular_of_ofValues accepted

/-- A text holds no more values than it has characters, and one more. -/
theorem length_values_le {featureCount? : Option Nat}
    (countable : ∀ k ∈ featureCount?, k + 1 < wordLimit) {d : Dataset Float}
    (h : read text featureCount? = .ok d) : d.tape.values.length ≤ text.length + 1 := by
  have values := (holds_of_read_eq_ok countable held h).2.values.length_eq
  have fewer := length_flatMap_fields_le (lines text.toList)
  have room := length_flatten_lines_le text.toList
  rw [String.length_toList] at room
  omega

end Held

end Csv

/-! ### Using what has been made -/

variable {F : Type}

/-- **A partition can be used**: whatever is asked of it, in words it answers as it does without
them, and at any time its rows can be counted. -/
structure Partition.Usable (p : Partition F) : Prop where
  serve : ∀ accesses, p.tape.serve? [] accesses =
    some ((p.play [] accesses).1, (p.play [] accesses).2.tape)
  count : ∀ accesses, (p.play [] accesses).2.tape.count? = some p.size
  isEmpty : ∀ accesses, (p.play [] accesses).2.tape.isEmpty = p.rows.isEmpty

/-- **A dataset can be used**: its rows can be counted, and read as one partition or as those of
any number of peers that a word counts. -/
structure Dataset.Usable (d : Dataset F) : Prop where
  count : d.tape.count? = some d.size
  isEmpty : d.tape.isEmpty = d.rows.isEmpty
  whole : d.toPartition.Usable
  share : ∀ n < wordLimit, d.size * n < wordLimit →
    d.tape.share? n = some ((d.split n).map Partition.tape)
  parts : ∀ n, ∀ p ∈ d.split n, p.Usable

theorem Partition.usable {k : Nat} {rows : List (Sample F)} (countable : k + 1 < wordLimit)
    (even : ∀ row ∈ rows, row.features.length = k) (held : rows.length * (k + 1) < wordLimit) :
    (ofRows k rows).Usable where
  serve accesses := by
    have held : (ofRows k rows).tape.values.length < wordLimit :=
      lt_of_eq_of_lt (length_flatMap_values even) held
    rw [Tape.serve?_eq held]
    exact play?_tape (wellPlaced_ofRows k rows) (decide_eq_true countable) even [] accesses
  count accesses := by
    obtain ⟨same, featureCount⟩ := (ofRows k rows).play_keeps [] accesses
    generalize ((ofRows k rows).play [] accesses).2 = p at same featureCount
    have even : ∀ row ∈ p.rows, row.features.length = p.featureCount := by
      rwa [same, featureCount]
    have countable : p.tape.width < wordLimit := by
      change p.featureCount + 1 < wordLimit
      rwa [featureCount]
    rw [Tape.count?_of_rows rfl even countable, same]
    rfl
  isEmpty accesses := by
    rw [Tape.isEmpty_of_rows rfl, ((ofRows k rows).play_keeps [] accesses).1]

theorem Dataset.usable {d : Dataset F} (regular : d.Regular)
    (held : d.tape.values.length < wordLimit) : d.Usable := by
  have length : d.size * (d.featureCount + 1) < wordLimit :=
    lt_of_eq_of_lt (length_flatMap_values regular.rows).symm held
  refine ⟨Tape.count?_of_rows rfl regular.rows regular.countable, Tape.isEmpty_of_rows rfl,
    Partition.usable regular.countable regular.rows length,
    fun n word countable => share?_tape regular held word countable, fun n p hp => ?_⟩
  have within := (d.of_mem_split hp).2
  obtain ⟨i, -, rfl⟩ := List.mem_map.mp hp
  refine Partition.usable regular.countable (fun row hr => regular.rows row (within row hr)) ?_
  have fewer : (d.span n i).length ≤ d.size := by
    rw [span, List.length_take, List.length_drop]
    exact Nat.le_trans (Nat.min_le_right _ _) (Nat.sub_le _ _)
  exact Nat.lt_of_le_of_lt (Nat.mul_le_mul_right _ fewer) length

/-! ### Sizes -/

/-- **Whoever hands something over is answered**: in words the same is made of it as without them,
a dataset or a refusal that can be told, and the dataset can be used. -/
structure Answered (made : Option (Except DatasetError (Tape F)))
    (result : Except DatasetError (Dataset F)) : Prop where
  same : made = Dataset.onTape? result
  told : made ≠ none
  usable : ∀ d, result = .ok d → d.Usable

/-- **What may be done with a number of features**: to hand over any values or any text with it,
and to have a partition without rows. -/
structure Withstands (F : Type) (featureCount : Nat) : Prop where
  values : ∀ values : List F, values.length < wordLimit →
    Answered (Tape.ofValues? values featureCount) (Dataset.ofValues values featureCount)
  text : ∀ text : String, text.length < signedLimit →
    Answered (Csv.read? text (some featureCount)) (Csv.read text (some featureCount))
  empty : (Partition.empty featureCount : Partition F).Usable

theorem Dataset.onTape?_ne_none {result : Except DatasetError (Dataset F)}
    (told : result ≠ .error .widthOverflow) : onTape? result ≠ none := by
  cases result with
  | ok d => exact Option.some_ne_none _
  | error error =>
    rw [onTape?_error fun same => told (congrArg Except.error same)]
    exact Option.some_ne_none _

theorem Dataset.ofValues_ne_widthOverflow {k : Nat} (countable : k + 1 < wordLimit)
    (values : List F) : ofValues values k ≠ .error .widthOverflow := by
  intro h
  rw [ofValues, if_neg (Nat.not_le_of_lt countable)] at h
  split at h
  · cases h
  · split at h <;> cases h

theorem answered_values {values : List F} {k : Nat} (countable : k + 1 < wordLimit)
    (held : values.length < wordLimit) :
    Answered (Tape.ofValues? values k) (Dataset.ofValues values k) where
  same := Tape.ofValues?_eq values k
  told := by
    rw [Tape.ofValues?_eq]
    exact Dataset.onTape?_ne_none (Dataset.ofValues_ne_widthOverflow countable values)
  usable d accepted := by
    refine Dataset.usable (Dataset.regular_of_ofValues accepted) ?_
    rwa [Dataset.tape_of_ofValues accepted]

theorem answered_text {text : String} {featureCount? : Option Nat}
    (countable : ∀ k ∈ featureCount?, k + 1 < wordLimit) (held : text.length < signedLimit) :
    Answered (Csv.read? text featureCount?) (Csv.read text featureCount?) where
  same := Csv.read?_eq held featureCount?
  told := by
    rw [Csv.read?_eq held]
    exact Dataset.onTape?_ne_none (Csv.read_ne_widthOverflow held countable)
  usable d accepted :=
    Dataset.usable (Csv.regular_of_read accepted)
      (Nat.lt_of_le_of_lt (Csv.length_values_le held countable accepted)
        (Csv.length_succ_lt held))

/-- **Every size is withstood whose successor is a word**, and no other. -/
theorem withstands_iff (F : Type) (featureCount : Nat) :
    Withstands F featureCount ↔ featureCount + 1 < wordLimit := by
  constructor
  · intro withstands
    by_contra great
    have counted := withstands.empty.count []
    have uncounted : (Partition.empty featureCount : Partition F).tape.count? = none :=
      Tape.count?_of_le (Nat.le_of_not_lt great)
    cases uncounted.symm.trans counted
  · intro countable
    refine ⟨fun values held => answered_values countable held,
      fun text held => answered_text ?_ held, Partition.usable countable (List.forall_mem_nil _) ?_⟩
    · rintro _ ⟨⟩
      exact countable
    · rw [List.length_nil, Nat.zero_mul]
      decide

/-! ### Sizes in jobs -/

open Json

theorem natural?_lt {tree : Tree} {n : Nat} (h : tree.natural? = some n) : n < wordLimit := by
  unfold Tree.natural? at h
  split at h
  · split at h
    · next small =>
      obtain rfl := Option.some.inj h
      exact small.2
    · cases h
  · cases h

namespace RowSource

/-- How many features a job says that a row has. -/
def featureCount? : RowSource → Option Nat
  | inline _ featureCount => some featureCount
  | file _ featureCount? => featureCount?

theorem featureCount_lt_of_inline {tree : Tree} {source : RowSource}
    (h : inlineOfTree? tree = some source) : ∀ k ∈ source.featureCount?, k < wordLimit := by
  obtain ⟨fields, -, h⟩ := Option.bind_eq_some_iff.mp h
  split at h
  · obtain ⟨values, -, h⟩ := Option.bind_eq_some_iff.mp h
    obtain ⟨featureCount, found, h⟩ := Option.bind_eq_some_iff.mp h
    obtain ⟨tree, -, natural⟩ := Option.bind_eq_some_iff.mp found
    cases h
    rintro _ ⟨⟩
    exact natural?_lt natural
  · cases h

theorem featureCount_lt_of_file {tree : Tree} {source : RowSource}
    (h : fileOfTree? tree = some source) : ∀ k ∈ source.featureCount?, k < wordLimit := by
  obtain ⟨fields, -, h⟩ := Option.bind_eq_some_iff.mp h
  split at h
  · obtain ⟨path, -, h⟩ := Option.bind_eq_some_iff.mp h
    obtain ⟨featureCount?, found, h⟩ := Option.bind_eq_some_iff.mp h
    cases h
    rintro k rfl
    unfold Field.optional at found
    split at found
    · cases found
    · cases found
    · obtain ⟨k, natural, same⟩ := Option.map_eq_some_iff.mp found
      cases same
      exact natural?_lt natural
  · cases h

/-- **The size that a job gives is a word.** -/
theorem featureCount_lt {tree : Tree} {source : RowSource} (h : ofTree? tree = some source) :
    ∀ k ∈ source.featureCount?, k < wordLimit := by
  obtain ⟨members, -, h⟩ := Option.bind_eq_some_iff.mp h
  split at h
  · exact featureCount_lt_of_inline h
  · exact featureCount_lt_of_file h
  · cases h

end RowSource

namespace Dataset

/-- **Every size that is given from outside is withstood, except for the greatest word.** With any
other, values and texts become datasets or are refused, with no number too great and no division by
zero, and so it is with texts without a size; what is done with a dataset meets no such number and
no position outside of the values. No job gives a size that is no word. -/
theorem withstands_sizes (F : Type) :
    (∀ k < wordLimit, Withstands F k ↔ k ≠ 18446744073709551615) ∧
      (∀ text : String, text.length < signedLimit →
        Answered (Csv.read? text none) (Csv.read text none)) ∧
      ∀ tree source, RowSource.ofTree? tree = some source →
        ∀ k ∈ source.featureCount?, k < wordLimit := by
  refine ⟨fun k word => ?_, fun text held => answered_text (fun k none => nomatch none) held,
    fun tree source h => RowSource.featureCount_lt h⟩
  rw [withstands_iff]
  unfold wordLimit at word ⊢
  omega

/-- The greatest word but one is withstood, and it is a size that a job can give; three rows are
shared out among nobody, or among two peers, and read. -/
theorem withstands_sizes_greatest_but_one :
    let d : Dataset Nat := ⟨1, [⟨[1], 10⟩, ⟨[2], 20⟩, ⟨[3], 30⟩]⟩
    (18446744073709551614 < wordLimit ∧ 18446744073709551614 ≠ 18446744073709551615) ∧
      Withstands Nat 18446744073709551614 ∧
      (ofValues [1, 10, 2, 20, 3, 30] 1 = .ok d ∧ d.tape.share? 0 = some [] ∧
        d.tape.share? 2 = some [{ featureCount := 1, values := [1, 10] },
          { featureCount := 1, values := [2, 20, 3, 30] }] ∧
        d.tape.serve? [] [.next, .reset, .next, .next, .next, .next] =
          some ([some ⟨[1], 10⟩, some ⟨[2], 20⟩, some ⟨[3], 30⟩, none],
            { d.tape with cursor := 3 })) ∧
      ("1,2".length < signedLimit ∧ Answered (Csv.read? "1,2" none) (Csv.read "1,2" none)) ∧
      ∃ tree source, (RowSource.ofTree? tree = some source ∧
        18446744073709551614 ∈ source.featureCount?) ∧ 18446744073709551614 < wordLimit := by
  have limit : Withstands Nat 18446744073709551614 :=
    ((withstands_sizes Nat).1 18446744073709551614 (by decide)).mpr (by decide)
  have one : Withstands Nat 1 := ((withstands_sizes Nat).1 1 (by decide)).mpr (by decide)
  have accepted : ofValues [1, 10, 2, 20, 3, 30] 1 =
      .ok ⟨1, [⟨[1], 10⟩, ⟨[2], 20⟩, ⟨[3], (30 : Nat)⟩]⟩ := rfl
  have usable := (one.values [1, 10, 2, 20, 3, 30] (by decide)).usable _ accepted
  have text := (withstands_sizes Nat).2.1 "1,2" (by decide)
  obtain ⟨tree, source, described, same⟩ : ∃ tree source,
      RowSource.ofTree? tree = some source ∧ source.featureCount? = some 18446744073709551614 :=
    ⟨.object [("local".toList.map .char, .object [("path".toList.map .char, .text []),
      ("x_size".toList.map .char, .number "18446744073709551614".toList)])], _, rfl, rfl⟩
  have word := (withstands_sizes Nat).2.2 tree source described 18446744073709551614 same
  exact ⟨⟨by decide, by decide⟩, limit,
    ⟨accepted, usable.share 0 (by decide) (by decide),
      (usable.share 2 (by decide) (by decide)).trans (by decide), usable.whole.serve _⟩,
    ⟨by decide, text⟩, tree, source, ⟨described, same⟩, word⟩

end Dataset

/-- Two peers, one of which owns no rows, with as many features as a word can say. -/
def Cluster.lopsided : Cluster Float where
  names := ["full", "hollow"]
  partitions := [.ofRows 1 [⟨[1], 2⟩], .empty 18446744073709551615]
  names_ne_nil := List.cons_ne_nil _ _
  length_partitions := rfl
  nodup_names := by decide

/-- **The greatest word is not withstood**, though a job may give it: no values and no text become
anything with it, and the rows of a partition without rows cannot be counted, so that the peer that
owns it breaks off when it asks for the next one. -/
theorem Dataset.breaks_off_greatest :
    ¬Withstands Float 18446744073709551615 ∧
      (Job.parse?
    "\x7b\"dataset\":\x7b\"inline\":\x7b\"data\":[],\"x_size\":18446744073709551615\x7d\x7d\x7d"
        ).map (·.rows) = some (.inline [] 18446744073709551615) ∧
      Tape.ofValues? ([] : List Float) 18446744073709551615 = none ∧
      ofValues ([] : List Float) 18446744073709551615 = .error .widthOverflow ∧
      Csv.read? "" (some 18446744073709551615) = none ∧
      Csv.read "" (some 18446744073709551615) = .error .widthOverflow ∧
      (Partition.empty 18446744073709551615 : Partition Float).tape.count? = none ∧
      ((Execution.ofCluster Cluster.lopsided (Script.process [.read])).run).1 =
        .ended (.crashed "hollow") := by
  refine ⟨fun withstands => ?_, rfl, rfl, rfl, rfl, rfl, rfl, rfl⟩
  exact absurd ((withstands_iff _ _).mp withstands) (by decide)

end Superstep
