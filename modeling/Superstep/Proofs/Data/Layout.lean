import Superstep.Job.Basic
import Superstep.Proofs.Data.Csv
import Superstep.Proofs.Number.Spelling

/-!
# Rows written as text

There are many ways to write rows down. A number has many spellings, blanks may stand around it,
lines end in one of two ways, the last one need not end at all, and between the rows there may be
lines that say nothing. `Superstep.Csv.Layout` is the relation between rows and all texts they can
be written as, and `Superstep.Csv.read_layout` says that reading any of them gives what one gets
from the plain values: whether rows are given in a job or in a file makes no difference.

That the commas of a row are where its numbers are apart, and that no row is taken for a comment,
is not assumed. It follows from what a spelling is made of (`Superstep.isInk_of_readFloat`).
-/

namespace Superstep

namespace Csv

open Text

/-! ### Ways to write rows -/

/-- Blanks within a line. -/
def Gap (text : List Char) : Prop := Blanks text ∧ '\n' ∉ text

instance (text : List Char) : Decidable (Gap text) := inferInstanceAs (Decidable (_ ∧ _))

/-- A number in one of its spellings, with blanks around it. -/
inductive FieldText : List Char → Float → Prop
  | padded {before spelling after value} : Gap before → readFloat spelling = .ok value →
      Gap after → FieldText (before ++ spelling ++ after) value

/-- The numbers of a row with commas between them. -/
def RowText (row : List Float) (line : List Char) : Prop :=
  ∃ texts, List.Forall₂ FieldText texts row ∧ line = [','].intercalate texts

/-- A line that says nothing. -/
inductive Silent : List Char → Prop
  | blank {line} : Gap line → Silent line
  | comment {before rest} : Gap before → '\n' ∉ rest → Silent (before ++ '#' :: rest)

/-- A line that holds one row or none. -/
inductive LineText : List (List Float) → List Char → Prop
  | row {row line} : RowText row line → LineText [row] line
  | silent {line} : Silent line → LineText [] line

/-- The end of a line. -/
inductive LineEnd : List Char → Prop
  | feed : LineEnd ['\n']
  | returnFeed : LineEnd ['\r', '\n']

/-- **The texts that rows can be written as**: line after line, where the last one may lack its
end. -/
inductive Layout : List (List Float) → List Char → Prop
  | last {rows line} : LineText rows line → Layout rows line
  | more {rows line ending others text} : LineText rows line → LineEnd ending →
      Layout others text → Layout (rows ++ others) (line ++ ending ++ text)

/-! ### What the characters of a line mean -/

variable {line : List Char}

theorem FieldText.plain {text : List Char} {value : Float} (h : FieldText text value) :
    ∀ c ∈ text, c ≠ '\n' ∧ c ≠ ',' ∧ c ≠ '#' := by
  obtain ⟨left, read, right⟩ := h
  have gap {blanks : List Char} (h : Gap blanks) : ∀ c ∈ blanks, c ≠ '\n' ∧ c ≠ ',' ∧ c ≠ '#' := by
    refine fun c hc => ⟨?_, ?_, ?_⟩
    · rintro rfl
      exact h.2 hc
    · rintro rfl
      exact h.1.not_mem rfl hc
    · rintro rfl
      exact h.1.not_mem rfl hc
  have ink := (isInk_of_readFloat read).2
  intro c hc
  rcases List.mem_append.mp hc with hc | hc
  · rcases List.mem_append.mp hc with hc | hc
    · exact gap left c hc
    · obtain ⟨seen, comma, sign⟩ := ink c hc
      refine ⟨?_, comma, sign⟩
      rintro rfl
      cases seen
  · exact gap right c hc

theorem RowText.plain {row : List Float} (h : RowText row line) :
    ∀ c ∈ line, c ≠ '\n' ∧ c ≠ '#' := by
  obtain ⟨texts, written, rfl⟩ := h
  intro c hc
  rcases Text.mem_intercalate hc with rfl | ⟨text, ht, hc⟩
  · decide
  · obtain ⟨value, -, field⟩ := exists_mem_of_forall₂ written text ht
    exact ⟨(field.plain c hc).1, (field.plain c hc).2.2⟩

theorem LineText.not_mem {rows : List (List Float)} (h : LineText rows line) : '\n' ∉ line := by
  intro end_mem
  cases h with
  | row h => exact (h.plain _ end_mem).1 rfl
  | silent h =>
    cases h with
    | blank gap => exact gap.2 end_mem
    | comment gap rest =>
      rcases List.mem_append.mp end_mem with h | h
      · exact gap.2 h
      · rcases List.mem_cons.mp h with h | h
        · cases h
        · exact rest h

/-! ### Written lines are read -/

/-- **A row that has been written is read again.** -/
theorem RowText.spells {row : List Float} (h : RowText row line) (some_value : row ≠ []) :
    Spells line row := by
  obtain ⟨texts, written, rfl⟩ := h
  have uncut : ∀ text ∈ texts, ',' ∉ text := by
    intro text ht comma
    obtain ⟨value, -, field⟩ := exists_mem_of_forall₂ written text ht
    exact (field.plain _ comma).2.1 rfl
  have some_text : texts ≠ [] := by
    rintro rfl
    exact some_value (List.forall₂_nil_left_iff.mp written)
  rw [Spells, fields, pieces_intercalate uncut some_text, List.forall₂_map_left_iff]
  refine written.imp fun text value field => ?_
  obtain ⟨left, read, right⟩ := field
  rw [trim_padded left.1 right.1 fun c hc => ((isInk_of_readFloat read).2 c hc).1]
  exact read

/-- **A row is not taken for a line that says nothing.** -/
theorem RowText.isSignificant {row : List Float} (h : RowText row line) (some_value : row ≠ []) :
    IsSignificant line := by
  refine ⟨fun nothing => ?_, fun comment => ?_⟩
  · have spells := h.spells some_value
    rw [Spells, ← fields_trim, nothing] at spells
    cases spells with
    | cons read _ => exact (isInk_of_readFloat read).1 rfl
  · obtain ⟨before, after, -, -, whole⟩ := exists_trim line
    have mem : '#' ∈ line := by
      rw [whole, List.mem_append, List.mem_append]
      exact .inl (.inr (List.mem_of_head? comment))
    exact (h.plain _ mem).2 rfl

theorem Silent.not_isSignificant (h : Silent line) : ¬IsSignificant line := by
  rintro ⟨something, no_comment⟩
  cases h with
  | blank gap => exact something (trim_eq_nil_iff.mpr gap.1)
  | comment gap _ => exact no_comment (by rw [trim_blanks_append gap.1, head?_trim_cons rfl])

theorem LinesSpell.append {lines others : List (List Char)} {rows more : List (List Float)}
    (h : LinesSpell lines rows) (h' : LinesSpell others more) :
    LinesSpell (lines ++ others) (rows ++ more) := by
  rw [LinesSpell, List.filter_append]
  exact List.rel_append h h'

/-- Neither blanks around a line nor a carriage return behind it change what it says. -/
theorem LineText.spell {rows : List (List Float)} (h : LineText rows line)
    (some_value : ∀ row ∈ rows, row ≠ []) {shown : List Char} (same : trim shown = trim line) :
    LinesSpell [shown] rows := by
  have significant : IsSignificant shown ↔ IsSignificant line := by
    rw [IsSignificant, IsSignificant, same]
  have fields : fields shown = fields line := by rw [← fields_trim, same, fields_trim]
  cases h with
  | row h =>
    have some_value := some_value _ List.mem_cons_self
    rw [LinesSpell, List.filter_cons_of_pos
      (by simpa using significant.mpr (h.isSignificant some_value))]
    refine .cons ?_ .nil
    rw [Spells, fields]
    exact h.spells some_value
  | silent h =>
    rw [LinesSpell, List.filter_cons_of_neg
      (by simpa using fun shown => h.not_isSignificant (significant.mp shown))]
    exact .nil

/-- **The lines of a text that rows were written as spell these rows.** -/
theorem Layout.spell {rows : List (List Float)} {text : List Char} (h : Layout rows text)
    (some_value : ∀ row ∈ rows, row ≠ []) : LinesSpell (lines text) rows := by
  induction h with
  | @last rows line written =>
    by_cases nothing : line = []
    · -- An empty line at the end is none, and if it were one, it would say nothing.
      have spelled := written.spell some_value rfl
      rw [LinesSpell, nothing, List.filter_cons_of_neg (by decide)] at spelled
      rwa [nothing, lines_nil]
    · rw [lines_of_not_mem written.not_mem nothing]
      exact written.spell some_value rfl
  | @more rows line ending others text written ended _ ih =>
    have here {shown : List Char} (same : trim shown = trim line) : LinesSpell [shown] rows :=
      written.spell (fun row hr => some_value row (List.mem_append_left _ hr)) same
    have there := ih fun row hr => some_value row (List.mem_append_right _ hr)
    cases ended with
    | feed =>
      rw [List.append_assoc, List.singleton_append, lines_append_cons written.not_mem]
      exact (here (trim_dropReturn line)).append there
    | returnFeed =>
      have unended : '\n' ∉ line ++ ['\r'] := by simpa using written.not_mem
      have same : trim (dropReturn (line ++ ['\r'])) = trim line := by
        rw [trim_dropReturn, trim_append_blanks blanks_return]
      rw [show line ++ ['\r', '\n'] ++ text = (line ++ ['\r']) ++ '\n' :: text by simp,
        lines_append_cons unended]
      exact (here same).append there

/-! ### Written rows are read -/

section Read

variable {k : Nat} {rows : List (List Float)} {lines : List (List Char)}
  (even : ∀ row ∈ rows, row.length = k + 1) (spell : LinesSpell lines rows)

include even spell

theorem LinesSpell.sound : ∀ line ∈ lines, Sound (k + 1) line := by
  intro line hl significant
  obtain ⟨row, hr, spells⟩ := exists_mem_of_forall₂ spell line (by simpa using ⟨hl, significant⟩)
  exact spells.sound (even row hr) significant

theorem LinesSpell.columns_none_eq (some_row : rows ≠ []) : columns lines none = k + 1 := by
  have sound := spell.sound even
  have some_line : lines.filter (fun line => IsSignificant line) ≠ [] := by
    intro nothing
    rw [LinesSpell, nothing] at spell
    exact some_row (List.forall₂_nil_left_iff.mp spell)
  obtain ⟨line, hl⟩ := List.exists_mem_of_ne_nil _ some_line
  obtain ⟨mem, significant⟩ : line ∈ lines ∧ IsSignificant line := by simpa using hl
  rw [Csv.columns_none_eq ?_ mem significant]
  · exact (sound line mem significant).2
  · intro line hl other ho first second
    exact (sound line hl first).2.trans (sound other ho second).2.symm

theorem LinesSpell.readLines_eq (first : Nat) :
    readLines (some (k + 1)) (numbered first lines) = .ok (some (k + 1), rows) := by
  have unique : Relator.RightUnique Spells := fun line row row' h h' =>
    List.right_unique_forall₂' (fun field value value' h h' => Except.ok.inj (h.symm.trans h')) h h'
  cases found : readLines (some (k + 1)) (numbered first lines) with
  | error error =>
    obtain ⟨number, fault⟩ := firstFault_of_readLines found
    obtain ⟨line, hl, faulty⟩ := fault.not_sound
    exact absurd (spell.sound even line hl) faulty
  | ok result =>
    obtain ⟨width, -, -, spelled⟩ := spells_of_readLines found
    rw [← width, List.right_unique_forall₂' unique spell spelled]

end Read

/-- A row with its label is a row with something in it. -/
theorem ne_nil_of_even {k : Nat} {rows : List (List Float)}
    (even : ∀ row ∈ rows, row.length = k + 1) : ∀ row ∈ rows, row ≠ [] := by
  rintro row hr rfl
  cases even _ hr

section Layout

variable {k : Nat} {rows : List (List Float)} {text : String} (pos : 1 ≤ k) (some_row : rows ≠ [])
  (even : ∀ row ∈ rows, row.length = k + 1) (layout : Layout rows text.toList)

include pos some_row even layout

/-- Whether the number of features is given or not, what is read is what one gets from the
values. -/
theorem Layout.read_eq {featureCount? : Option Nat}
    (given : featureCount? = none ∨ featureCount? = some k) :
    read text featureCount? = Dataset.ofValues rows.flatten k := by
  have spell := layout.spell (ne_nil_of_even even)
  have width : columns (lines text.toList) featureCount? = k + 1 := by
    rcases given with rfl | rfl
    · exact spell.columns_none_eq even some_row
    · rfl
  by_cases countable : ∀ k ∈ featureCount?, k + 1 < wordLimit
  · rw [Csv.read_eq countable, width, spell.readLines_eq even]
    rfl
  · -- Rows that are too wide to be counted are refused by both before they are looked at.
    rcases given with rfl | rfl
    · simp at countable
    · have great : wordLimit ≤ k + 1 := by simpa using countable
      rw [read, Option.getD_some, if_pos great, Dataset.ofValues, if_neg (Nat.ne_of_gt pos),
        if_pos great]

end Layout

/-- **A text gives the same dataset as the values of some rows.** -/
structure ReadAs (text : String) (k : Nat) (rows : List (List Float)) : Prop where
  inferred : read text none = Dataset.ofValues rows.flatten k
  given : read text (some k) = Dataset.ofValues rows.flatten k
  /-- The dataset holds these rows, and so it is they that are shared out among peers. -/
  accepted : k + 1 < wordLimit → ∃ d, Dataset.ofValues rows.flatten k = .ok d ∧
    d.featureCount = k ∧ d.rows.map Sample.values = rows ∧
      ∀ n, (d.split n).map (fun p => p.rows.map Sample.values) =
        (List.range n).map fun i => (rows.drop (rows.length * i / n)).take
          (rows.length * (i + 1) / n - rows.length * i / n)
  /-- A job does not care whether its rows are in a file or written out in it. -/
  job : ∀ (m : Type → Type) [Monad m] [LawfulMonad m] (files : Files m) (directory path : String)
    (job : Job) (featureCount? : Option Nat), featureCount? = none ∨ featureCount? = some k →
      files.read? (Path.join directory path) = pure (some text) →
        Job.dataset files directory { job with rows := .file path featureCount? } =
          Job.dataset files directory { job with rows := .inline rows.flatten k }

/-- **However rows are written**, what is read are these rows. -/
theorem read_layout {k : Nat} {rows : List (List Float)} {text : String} (pos : 1 ≤ k)
    (some_row : rows ≠ []) (even : ∀ row ∈ rows, row.length = k + 1)
    (layout : Layout rows text.toList) : ReadAs text k rows where
  inferred := layout.read_eq pos some_row even (.inl rfl)
  given := layout.read_eq pos some_row even (.inr rfl)
  accepted countable := by
    obtain ⟨d, accepted, features, same⟩ := Dataset.ofValues_flatten pos countable even
    refine ⟨d, accepted, features, same, fun n => ?_⟩
    have size : d.size = rows.length := by rw [← same, List.length_map, Dataset.size]
    rw [Dataset.split, List.map_map]
    refine List.map_congr_left fun i _ => ?_
    simp only [Function.comp_apply, Partition.ofRows, Dataset.span, Dataset.bound, List.map_take,
      List.map_drop, same, size]
  job m _ _ files directory path job featureCount? given found := by
    simp only [Job.dataset, Job.readRows, found, pure_bind,
      layout.read_eq pos some_row even given]

/-- Two rows with blanks around a number, two kinds of line ends, a line of blanks, a comment and no
end behind the last line. -/
theorem read_layout_two :
    let text := " 1 ,2e0\r\n \n\t# note\n3,4"
    let number (units : Nat) := Numeral.toFloat (.decimal false units 0)
    let rows := [[number 1, number 2], [number 3, number 4]]
    (1 ≤ 1 ∧ rows ≠ [] ∧ (∀ row ∈ rows, row.length = 1 + 1) ∧ Layout rows text.toList) ∧
      read text none =
        .ok ⟨1, [⟨[number 1], number 2⟩, ⟨[number 3], number 4⟩]⟩ ∧
      ReadAs text 1 rows := by
  intro text number rows
  have one : FieldText " 1 ".toList (number 1) :=
    @FieldText.padded [' '] ['1'] [' '] _ (by decide) rfl (by decide)
  have two : FieldText "2e0".toList (number 2) :=
    @FieldText.padded [] "2e0".toList [] _ (by decide) rfl (by decide)
  have three : FieldText "3".toList (number 3) :=
    @FieldText.padded [] ['3'] [] _ (by decide) rfl (by decide)
  have four : FieldText "4".toList (number 4) :=
    @FieldText.padded [] ['4'] [] _ (by decide) rfl (by decide)
  have first : RowText [number 1, number 2] " 1 ,2e0".toList :=
    ⟨[" 1 ".toList, "2e0".toList], .cons one (.cons two .nil), rfl⟩
  have second : RowText [number 3, number 4] "3,4".toList :=
    ⟨["3".toList, "4".toList], .cons three (.cons four .nil), rfl⟩
  have blank : Silent " ".toList := .blank (by decide)
  have comment : Silent "\t# note".toList :=
    @Silent.comment ['\t'] " note".toList (by decide) (by decide)
  have joined : " 1 ,2e0".toList ++ ['\r', '\n'] ++ (" ".toList ++ ['\n'] ++
      ("\t# note".toList ++ ['\n'] ++ "3,4".toList)) = text.toList := by decide
  have layout : Layout rows text.toList := joined ▸
    Layout.more (.row first) .returnFeed
      (.more (.silent blank) .feed (.more (.silent comment) .feed (.last (.row second))))
  have even : ∀ row ∈ rows, row.length = 1 + 1 := by simp [rows]
  have values : Dataset.ofValues rows.flatten 1 =
      .ok ⟨1, [⟨[number 1], number 2⟩, ⟨[number 3], number 4⟩]⟩ := by
    simp [rows, Dataset.ofValues, Dataset.takeRows, wordLimit]
  have result : ReadAs text 1 rows := read_layout (Nat.le_refl 1) (by simp [rows]) even layout
  exact ⟨⟨Nat.le_refl 1, by simp [rows], even, layout⟩, result.inferred.trans values, result⟩

end Csv

end Superstep
