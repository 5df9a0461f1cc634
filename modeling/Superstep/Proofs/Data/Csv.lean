import Superstep.Proofs.Data.Table
import Superstep.Proofs.Data.Tape

/-!
# Which texts hold a dataset

Reading goes through a text line by line and stops where something is wrong. Here it is said,
without any reading, what comes of a text: what `Superstep.Csv.Settled` says of it, which is what
reading comes to (`Superstep.Csv.read_settled`).

* If every field of every significant line is a number, and all these lines have as many fields as
  they should, at least two, the text holds a dataset (`Superstep.Csv.Acceptable`), and this is it
  (`Superstep.Csv.Holds`).
* If some significant line is at fault, the first one is blamed (`Superstep.Csv.Blames`), and what
  comes after it does not matter.
* Otherwise rows would have no features, and nothing else can be wrong.

How many fields there should be does not change while a text is read: if it is not given, it is as
many as in the first significant line, which is therefore never blamed for it
(`Superstep.Csv.readLines_none`). So all lines are read as if this were known from the start
(`Superstep.Csv.read_eq`).

Memory holds no text of `Superstep.signedLimit` characters, so that a word always counts the fields
of a row. In a longer text it might not.
-/

namespace Superstep

namespace Csv

open Text

/-! ### The width that is expected -/

/-- How many fields every row must have: one more than there are features, or as many as the first
row has. -/
def columns (lines : List (List Char)) : Option Nat → Nat
  | some featureCount => featureCount + 1
  | none =>
    ((lines.find? fun line => IsSignificant line).map fun line => (fields line).length).getD 0

/-- **The first row is never too wide or too narrow**, if nothing else says how wide rows are. -/
theorem readLines_none {first : Nat} {lines : List (List Char)} {line : List Char}
    (h : (lines.find? fun line => IsSignificant line) = some line) :
    readLines none (numbered first lines) =
      readLines (some (fields line).length) (numbered first lines) := by
  induction lines generalizing first with
  | nil => cases h
  | cons l lines ih =>
    by_cases significant : IsSignificant l
    · rw [List.find?_cons_of_pos (by simpa using significant)] at h
      obtain rfl := Option.some.inj h
      rw [numbered_cons_of_significant significant, readLines, readLines, readLine, readLine,
        readFields_trim]
      cases found : (fields l).mapM readFloat with
      | error cause => rfl
      | ok values => simp [bind, Except.bind, (mapM_eq_ok_iff.mp found).length_eq]
    · rw [List.find?_cons_of_neg (by simpa using significant)] at h
      rw [numbered_cons_of_not_significant significant]
      exact ih h

/-- In lines without a row there is nothing to read. -/
theorem readLines_of_not_significant {lines : List (List Char)}
    (h : ∀ line ∈ lines, ¬IsSignificant line) (expected? : Option Nat) (first : Nat) :
    readLines expected? (numbered first lines) = .ok (expected?, []) := by
  induction lines generalizing first with
  | nil => rfl
  | cons line lines ih =>
    obtain ⟨silent, others⟩ := List.forall_mem_cons.mp h
    rw [numbered_cons_of_not_significant silent]
    exact ih others _

/-- **A text is read as if the width of its rows were known from the start.** -/
theorem read_eq {text : String} {featureCount? : Option Nat}
    (countable : ∀ k ∈ featureCount?, k + 1 < wordLimit) :
    read text featureCount? =
      (readLines (some (columns (lines text.toList) featureCount?))
          (numbered 1 (lines text.toList))).bind fun (_, rows) =>
        Dataset.ofValues rows.flatten (columns (lines text.toList) featureCount? - 1) := by
  have small : ¬wordLimit ≤ featureCount?.getD 0 + 1 := by
    cases featureCount? with
    | none => decide
    | some k => exact Nat.not_le_of_lt (countable k rfl)
  rw [read, if_neg small, significantLines_eq_numbered]
  generalize lines text.toList = lines
  cases featureCount? with
  | some k =>
    rw [Option.map_some, columns]
    cases found : readLines (some (k + 1)) (numbered 1 lines) with
    | error error => rfl
    | ok result =>
      obtain ⟨width, -⟩ := spells_of_readLines found
      simp [bind, Except.bind, width]
  | none =>
    rw [Option.map_none, columns]
    cases row : lines.find? fun line => IsSignificant line with
    | none =>
      have silent : ∀ line ∈ lines, ¬IsSignificant line := by simpa using row
      rw [readLines_of_not_significant silent, readLines_of_not_significant silent]
      rfl
    | some line =>
      rw [readLines_none row, Option.map_some, Option.getD_some]
      cases found : readLines (some (fields line).length) (numbered 1 lines) with
      | error error => rfl
      | ok result =>
        obtain ⟨width, -⟩ := spells_of_readLines found
        simp [bind, Except.bind, width]

/-! ### What a text settles -/

/-- A text is accepted if all its rows can be read, are equally wide, and as wide as is said, and
if there is a feature beside the label. -/
structure Acceptable (lines : List (List Char)) (featureCount? : Option Nat) : Prop where
  readable : ∀ line ∈ lines, IsSignificant line → ∀ field ∈ fields line, IsReadable field
  even : ∀ line ∈ lines, ∀ other ∈ lines, IsSignificant line → IsSignificant other →
    (fields line).length = (fields other).length
  given : ∀ k ∈ featureCount?, ∀ line ∈ lines, IsSignificant line → (fields line).length = k + 1
  wide : 1 ≤ columns lines featureCount? - 1

theorem columns_none_eq {lines : List (List Char)} {line : List Char}
    (even : ∀ line ∈ lines, ∀ other ∈ lines, IsSignificant line → IsSignificant other →
      (fields line).length = (fields other).length)
    (mem : line ∈ lines) (significant : IsSignificant line) :
    columns lines none = (fields line).length := by
  cases found : lines.find? fun line => IsSignificant line with
  | none =>
    have := List.find?_eq_none.mp found line mem
    simp [significant] at this
  | some other =>
    have first : IsSignificant other := by simpa using List.find?_some found
    rw [columns, found, Option.map_some, Option.getD_some]
    exact even other (List.mem_of_find?_eq_some found) line mem first significant

/-- A text is acceptable if no line is at fault and there is a feature. -/
theorem acceptable_iff {lines : List (List Char)} {featureCount? : Option Nat} :
    Acceptable lines featureCount? ↔ (∀ line ∈ lines, Sound (columns lines featureCount?) line) ∧
      1 ≤ columns lines featureCount? - 1 := by
  constructor
  · rintro ⟨readable, even, given, wide⟩
    refine ⟨fun line hl significant => ⟨readable line hl significant, ?_⟩, wide⟩
    cases featureCount? with
    | none => exact (columns_none_eq even hl significant).symm
    | some k => exact given k rfl line hl significant
  · rintro ⟨sound, wide⟩
    refine ⟨fun line hl significant => (sound line hl significant).1,
      fun line hl other ho first second =>
        (sound line hl first).2.trans (sound other ho second).2.symm, ?_, wide⟩
    rintro k rfl line hl significant
    exact (sound line hl significant).2

/-- **A dataset holds the rows of a text**: one for each significant line, in their order, and in
it the numbers of that line. -/
structure Holds (lines : List (List Char)) (featureCount? : Option Nat) (d : Dataset Float) :
    Prop where
  featureCount : d.featureCount = columns lines featureCount? - 1
  rows : List.Forall₂ (fun line row => Spells line row.values ∧
      row.features.length = d.featureCount)
    (lines.filter fun line => IsSignificant line) d.rows
  /-- Read as a whole, the values are the fields of these lines one after the other. -/
  values : List.Forall₂ (fun field value => readFloat field = .ok value)
    ((lines.filter fun line => IsSignificant line).flatMap fields) d.tape.values

/-- No line of a text is at fault. -/
def Faultless (text : String) (featureCount? : Option Nat) : Prop :=
  ∀ line ∈ lines text.toList, Sound (columns (lines text.toList) featureCount?) line

/-- The first line of a text that is at fault, lines being counted from one, and what is wrong with
it. -/
def Blames (text : String) (featureCount? : Option Nat) (number : Nat) (error : DatasetError) :
    Prop :=
  FirstFault (columns (lines text.toList) featureCount?) 1 (lines text.toList) number error

/-- **What reading a text must come to.** -/
structure Settled (text : String) (featureCount? : Option Nat) : Prop where
  accepted_iff : (∃ d, read text featureCount? = .ok d) ↔
    Acceptable (lines text.toList) featureCount?
  holds : ∀ d, read text featureCount? = .ok d → Holds (lines text.toList) featureCount? d
  /-- If a line is at fault, there is a first one. -/
  faulty : ¬Faultless text featureCount? → ∃ number error, Blames text featureCount? number error
  /-- It is blamed, and in every text with the same lines so far. -/
  blamed : ∀ number error, Blames text featureCount? number error →
    ∀ other : String, (lines other.toList).take number = (lines text.toList).take number →
      read other featureCount? = .error error
  /-- If no line is at fault, all that can be wrong is that there is no feature. -/
  faultless : Faultless text featureCount? →
    ∀ error, read text featureCount? = .error error → error = .noFeatures
  /-- What has been read line by line can be cut into rows. -/
  whole : ∀ values k, read text featureCount? ≠ .error (.ragged values k)

theorem length_fields_le {line : List Char} {text : List Char} (h : line ∈ lines text) :
    (fields line).length ≤ text.length + 1 := by
  rw [fields, List.length_map]
  exact Nat.le_trans (length_pieces_le _ _) (Nat.succ_le_succ (length_le_of_mem_lines h))

/-- A row that stands in a text is not too wide for a machine word. -/
theorem columns_lt {text : List Char} {featureCount? : Option Nat}
    (countable : ∀ k ∈ featureCount?, k + 1 < wordLimit) (held : text.length < signedLimit) :
    columns (lines text) featureCount? < wordLimit := by
  cases featureCount? with
  | some k => exact countable k rfl
  | none =>
    rw [columns]
    cases found : (lines text).find? fun line => IsSignificant line with
    | none => decide
    | some line =>
      have := length_fields_le (List.mem_of_find?_eq_some found)
      rw [Option.map_some, Option.getD_some]
      unfold signedLimit at held
      unfold wordLimit
      omega

/-- The line at fault holds a row, so that the width of the first row is known before it ends. -/
theorem FirstFault.columns_eq {featureCount? : Option Nat} {lines others : List (List Char)}
    {w number : Nat} {error : DatasetError} (h : FirstFault w 1 lines number error)
    (same : others.take number = lines.take number) :
    columns others featureCount? = columns lines featureCount? := by
  cases featureCount? with
  | some k => rfl
  | none =>
    obtain ⟨before, line, after, rfl, rfl, -, significant, -⟩ := h
    obtain ⟨rest, rfl⟩ := exists_eq_of_take same
    have here (lines : List (List Char)) :
        ((line :: lines).find? fun line => IsSignificant line) = some line :=
      List.find?_cons_of_pos (by simpa using significant)
    rw [columns, columns, List.find?_append, List.find?_append, here, here]

section Whole

variable {text : String} {featureCount? : Option Nat}

/-- If a line is at fault, there is a first one. -/
theorem exists_blames (h : ¬Faultless text featureCount?) :
    ∃ number error, Blames text featureCount? number error := by
  unfold Faultless at h
  push Not at h
  exact exists_firstFault h

variable (countable : ∀ k ∈ featureCount?, k + 1 < wordLimit)

include countable

/-- The first line at fault is what reading fails with. -/
theorem read_of_blames {number : Nat} {error : DatasetError}
    (h : Blames text featureCount? number error) : read text featureCount? = .error error := by
  rw [read_eq countable, readLines_of_firstFault h]
  rfl

theorem faultless_of_read_eq_ok {d : Dataset Float} (h : read text featureCount? = .ok d) :
    Faultless text featureCount? := by
  by_contra faulty
  obtain ⟨number, error, fault⟩ := exists_blames faulty
  cases h.symm.trans (read_of_blames countable fault)

variable (held : text.length < signedLimit)

include held

/-- **A text without a fault holds a dataset**, unless there is no feature. -/
theorem read_of_faultless (sound : Faultless text featureCount?) :
    (columns (lines text.toList) featureCount? - 1 = 0 ∧
        read text featureCount? = .error .noFeatures) ∨
      1 ≤ columns (lines text.toList) featureCount? - 1 ∧
        ∃ d, read text featureCount? = .ok d ∧ Holds (lines text.toList) featureCount? d := by
  have narrow : columns (lines text.toList) featureCount? < wordLimit := columns_lt countable held
  rw [read_eq countable]
  cases found : readLines (some (columns (lines text.toList) featureCount?))
      (numbered 1 (lines text.toList)) with
  | error error =>
    obtain ⟨number, fault⟩ := firstFault_of_readLines found
    obtain ⟨line, hl, faulty⟩ := fault.not_sound
    exact absurd (sound line hl) faulty
  | ok result =>
    obtain ⟨-, -, even, spells⟩ := spells_of_readLines found
    rcases Nat.eq_zero_or_pos (columns (lines text.toList) featureCount? - 1) with none_left | wide
    · refine .inl ⟨none_left, ?_⟩
      change Dataset.ofValues _ _ = _
      rw [Dataset.ofValues, if_pos none_left]
    · have width : columns (lines text.toList) featureCount? - 1 + 1 =
          columns (lines text.toList) featureCount? := by omega
      obtain ⟨d, accepted, features, rows⟩ := Dataset.ofValues_flatten wide
        (width.symm ▸ narrow) (fun row hr => (even row hr).trans width.symm)
      have regular := Dataset.regular_of_ofValues accepted
      have values : d.tape.values = result.2.flatten := by
        rw [Dataset.tape_of_ofValues accepted]
      refine .inr ⟨wide, d, accepted, features, ?_, ?_⟩
      · rw [LinesSpell, ← rows, List.forall₂_map_right_iff] at spells
        refine List.forall₂_iff_zip.mpr ⟨spells.length_eq, fun h => ?_⟩
        exact ⟨List.forall₂_zip spells h, regular.rows _ (List.of_mem_zip h).2⟩
      · rw [values, List.flatMap_def]
        exact List.rel_flatten (List.forall₂_map_left_iff.mpr spells)

theorem holds_of_read_eq_ok {d : Dataset Float} (h : read text featureCount? = .ok d) :
    1 ≤ columns (lines text.toList) featureCount? - 1 ∧
      Holds (lines text.toList) featureCount? d := by
  rcases read_of_faultless countable held (faultless_of_read_eq_ok countable h) with
    ⟨-, refused⟩ | ⟨wide, d', accepted, holds⟩
  · cases h.symm.trans refused
  · obtain rfl : d = d' := Except.ok.inj (h.symm.trans accepted)
    exact ⟨wide, holds⟩

/-- Whoever refuses a text blames its first line at fault, or finds no feature in any line. -/
theorem read_eq_error {error : DatasetError} (h : read text featureCount? = .error error) :
    (∃ number, Blames text featureCount? number error) ∨
      Faultless text featureCount? ∧ error = .noFeatures := by
  by_cases sound : Faultless text featureCount?
  · rcases read_of_faultless countable held sound with ⟨-, refused⟩ | ⟨-, d, accepted, -⟩
    · exact .inr ⟨sound, Except.error.inj (h.symm.trans refused)⟩
    · cases h.symm.trans accepted
  · obtain ⟨number, error', fault⟩ := exists_blames sound
    obtain rfl : error = error' :=
      Except.error.inj (h.symm.trans (read_of_blames countable fault))
    exact .inl ⟨number, fault⟩

/-- **Reading settles every text**: it is accepted, and then its rows are known, or the first line
at fault is blamed, or there is no feature. -/
theorem read_settled : Settled text featureCount? where
  accepted_iff := by
    rw [acceptable_iff]
    constructor
    · rintro ⟨d, h⟩
      exact ⟨faultless_of_read_eq_ok countable h, (holds_of_read_eq_ok countable held h).1⟩
    · rintro ⟨sound, wide⟩
      rcases read_of_faultless countable held sound with ⟨narrow, -⟩ | ⟨-, d, accepted, -⟩
      · omega
      · exact ⟨d, accepted⟩
  holds d h := (holds_of_read_eq_ok countable held h).2
  faulty := exists_blames
  blamed number error fault other same := by
    have other_fault := FirstFault.of_take fault same
    rw [← FirstFault.columns_eq fault same] at other_fault
    exact read_of_blames countable other_fault
  faultless sound error h := by
    rcases read_eq_error countable held h with ⟨number, fault⟩ | ⟨-, same⟩
    · obtain ⟨line, hl, faulty⟩ := fault.not_sound
      exact absurd (sound line hl) faulty
    · exact same
  whole values k h := by
    rcases read_eq_error countable held h with
      ⟨number, before, line, after, -, -, -, -, fault⟩ | ⟨-, same⟩
    · cases fault
    · cases same

end Whole

/-- Lines are counted with those that hold no row: the second row of this text is in its third
line, and what is in the fourth does not matter. -/
theorem read_settled_third_line :
    let text := "1,2\n# x\n3,y\n4"
    ((∀ k ∈ (none : Option Nat), k + 1 < wordLimit) ∧ text.length < signedLimit) ∧
      Settled text none ∧ read text none = .error (.unreadable 3 "invalid float literal") ∧
      read "1,2\n# x\n3,y\nnothing" none = .error (.unreadable 3 "invalid float literal") := by
  intro text
  have countable : ∀ k ∈ (none : Option Nat), k + 1 < wordLimit := by simp
  have held : text.length < signedLimit := by decide
  have result : Settled text none := read_settled countable held
  have readable : ∀ field ∈ [['1'], ['2'], ['3']], IsReadable field := by
    simp only [List.forall_mem_cons]
    exact ⟨⟨_, rfl⟩, ⟨_, rfl⟩, ⟨_, rfl⟩, List.forall_mem_nil _⟩
  have first : Sound 2 "1,2".toList := fun _ =>
    ⟨fun field hf => readable field (List.mem_of_mem_take (i := 2) hf), rfl⟩
  have second : Sound 2 "# x".toList := fun significant => absurd significant (by decide)
  have third : Fault 2 3 "3,y".toList (.unreadable 3 "invalid float literal") :=
    @Fault.unreadable _ _ _ [['3']] ['y'] [] .invalid rfl
      (fun field hf => readable field (List.mem_of_mem_drop (i := 2) hf)) rfl
  have width : columns (lines text.toList) none = 2 := by decide
  have blames : Blames text none 3 (.unreadable 3 "invalid float literal") := by
    rw [Blames, width]
    exact ⟨["1,2".toList, "# x".toList], "3,y".toList, ["4".toList], by decide, rfl,
      List.forall_mem_cons.mpr ⟨first, List.forall_mem_singleton.mpr second⟩, by decide, third⟩
  exact ⟨⟨countable, held⟩, result, result.blamed 3 _ blames text rfl,
    result.blamed 3 _ blames "1,2\n# x\n3,y\nnothing" (by decide)⟩

end Csv

end Superstep
