import Mathlib.Data.List.Forall2
import Superstep.Data.Csv
import Superstep.Proofs.Text.Lines

/-!
# Lines of a table

A table is read line by line. A line is *significant* if it holds a row, and then it has fields. If
the number of fields is known beforehand, then of each line by itself can be said whether it is
sound, what it spells (`Superstep.Csv.Spells`), or what is wrong with it (`Superstep.Csv.Fault`),
and this is what reading it comes to (`Superstep.Csv.readLine_eq_ok_iff`,
`Superstep.Csv.readLine_eq_error_iff`).

To read lines one after the other is to read all of them, if they are sound
(`Superstep.Csv.spells_of_readLines`), and else to blame the first that is not
(`Superstep.Csv.firstFault_of_readLines`, `Superstep.Csv.readLines_of_firstFault`). A line is
numbered as it stands in the text, whether the lines before it are significant or not; so for an
induction the lines are numbered from anywhere on (`Superstep.Csv.numbered`).
-/

namespace Superstep

/-! ### Possible for all, or impossible for a first one -/

theorem exists_mem_of_forall₂ {α β : Type} {R : α → β → Prop} {list : List α} {others : List β}
    (h : List.Forall₂ R list others) : ∀ a ∈ list, ∃ b ∈ others, R a b := by
  induction h with
  | nil => exact List.forall_mem_nil _
  | cons first _ ih =>
    refine List.forall_mem_cons.mpr ⟨⟨_, List.mem_cons_self, first⟩, fun a ha => ?_⟩
    obtain ⟨b, hb, related⟩ := ih a ha
    exact ⟨b, List.mem_cons_of_mem _ hb, related⟩

section Except

variable {α β ε : Type}

theorem bind_eq_ok_iff {x : Except ε α} {g : α → Except ε β} {b : β} :
    (x >>= g) = .ok b ↔ ∃ a, x = .ok a ∧ g a = .ok b := by
  cases x <;> simp [bind, Except.bind]

theorem bind_eq_error_iff {x : Except ε α} {g : α → Except ε β} {e : ε} :
    (x >>= g) = .error e ↔ x = .error e ∨ ∃ a, x = .ok a ∧ g a = .error e := by
  cases x <;> simp [bind, Except.bind]

variable {f : α → Except ε β} {list : List α}

theorem mapM_eq_ok_iff {results : List β} :
    list.mapM f = .ok results ↔ List.Forall₂ (fun a b => f a = .ok b) list results := by
  induction list generalizing results with
  | nil =>
    rw [List.forall₂_nil_left_iff]
    exact ⟨fun h => (Except.ok.inj h).symm, fun h => h ▸ rfl⟩
  | cons a list ih =>
    simp only [List.mapM_cons, bind_eq_ok_iff, ih, List.forall₂_cons_left_iff]
    constructor
    · rintro ⟨b, first, bs, others, h⟩
      exact ⟨b, bs, first, others, (Except.ok.inj h).symm⟩
    · rintro ⟨b, bs, first, others, rfl⟩
      exact ⟨b, first, bs, others, rfl⟩

theorem exists_of_mapM_eq_error {e : ε} (h : list.mapM f = .error e) :
    ∃ before a after, list = before ++ a :: after ∧ (∀ b ∈ before, ∃ result, f b = .ok result) ∧
      f a = .error e := by
  induction list with
  | nil => cases h
  | cons a list ih =>
    rw [List.mapM_cons, bind_eq_error_iff] at h
    rcases h with first | ⟨b, first, h⟩
    · exact ⟨[], a, list, rfl, List.forall_mem_nil _, first⟩
    · rcases bind_eq_error_iff.mp h with others | ⟨bs, -, impossible⟩
      · obtain ⟨before, c, after, rfl, possible, last⟩ := ih others
        exact ⟨a :: before, c, after, rfl, List.forall_mem_cons.mpr ⟨⟨b, first⟩, possible⟩, last⟩
      · cases impossible

theorem mapM_eq_error {before after : List α} {a : α} {e : ε}
    (possible : ∀ b ∈ before, ∃ result, f b = .ok result) (impossible : f a = .error e) :
    (before ++ a :: after).mapM f = .error e := by
  induction before with
  | nil => rw [List.nil_append, List.mapM_cons, impossible]; rfl
  | cons b before ih =>
    obtain ⟨⟨result, first⟩, others⟩ := List.forall_mem_cons.mp possible
    rw [List.cons_append, List.mapM_cons, first, ih others]
    rfl

end Except

namespace Csv

open Text

/-! ### Lines and their fields -/

/-- Whether a line holds a row: without the blanks around it, it is not empty and does not begin
with a `#`. -/
def IsSignificant (line : List Char) : Prop := trim line ≠ [] ∧ (trim line).head? ≠ some '#'

instance (line : List Char) : Decidable (IsSignificant line) := inferInstanceAs (Decidable (_ ∧ _))

/-- What stands between the commas of a line, without the blanks around it. -/
def fields (line : List Char) : List (List Char) := (pieces ',' line).map trim

/-- Whether a field holds a number. -/
def IsReadable (field : List Char) : Prop := ∃ value, readFloat field = .ok value

/-- If a line holds a row, it can be read, and has so many fields. -/
def Sound (columns : Nat) (line : List Char) : Prop :=
  IsSignificant line → (∀ field ∈ fields line, IsReadable field) ∧ (fields line).length = columns

/-- The numbers a line spells. -/
def Spells (line : List Char) (values : List Float) : Prop :=
  List.Forall₂ (fun field value => readFloat field = .ok value) (fields line) values

theorem Spells.readable {line : List Char} {values : List Float} (h : Spells line values) :
    ∀ field ∈ fields line, IsReadable field := by
  intro field hf
  obtain ⟨value, -, read⟩ := exists_mem_of_forall₂ h field hf
  exact ⟨value, read⟩

theorem Spells.sound {w : Nat} {line : List Char} {values : List Float} (h : Spells line values)
    (even : values.length = w) : Sound w line :=
  fun _ => ⟨h.readable, h.length_eq.trans even⟩

/-- What is wrong with a line. A field that cannot be read is wrong whatever their number. -/
inductive Fault (columns number : Nat) (line : List Char) : DatasetError → Prop
  | unreadable {before field after cause} : fields line = before ++ field :: after →
      (∀ field ∈ before, IsReadable field) → readFloat field = .error cause →
        Fault columns number line (.unreadable number cause.message)
  | columns : (∀ field ∈ fields line, IsReadable field) → (fields line).length ≠ columns →
      Fault columns number line (.columns number columns (fields line).length)

theorem Fault.not_sound {w number : Nat} {line : List Char} {error : DatasetError}
    (h : Fault w number line error) (significant : IsSignificant line) : ¬Sound w line := by
  intro sound
  obtain ⟨readable, length⟩ := sound significant
  cases h with
  | @unreadable before field after cause split _ unreadable =>
    obtain ⟨value, read⟩ := readable field (by simp [split])
    rw [read] at unreadable
    cases unreadable
  | columns _ uneven => exact uneven length

/-- Whether a line is significant, and which fields it has, does not depend on blanks around it. -/
theorem fields_trim (line : List Char) : fields (trim line) = fields line :=
  map_trim_pieces_trim rfl line

theorem readFields_trim (line : List Char) :
    readFields (trim line) = (fields line).mapM readFloat := by
  rw [← fields_trim, fields, List.mapM_map]
  rfl

theorem readLine_eq_ok_iff {w number : Nat} {line : List Char} {values : List Float} :
    readLine (some w) number (trim line) = .ok values ↔
      Spells line values ∧ values.length = w := by
  rw [readLine, readFields_trim, Spells, ← mapM_eq_ok_iff]
  cases (fields line).mapM readFloat with
  | error cause => simp
  | ok found =>
    by_cases even : found.length = w
    · simp only [if_pos even, Except.ok.injEq, iff_self_and]
      rintro rfl
      exact even
    · simp only [if_neg even, reduceCtorEq, Except.ok.injEq, false_iff, not_and]
      rintro rfl
      exact even

theorem readLine_eq_error_iff {w number : Nat} {line : List Char} {error : DatasetError} :
    readLine (some w) number (trim line) = .error error ↔ Fault w number line error := by
  rw [readLine, readFields_trim]
  constructor
  · intro h
    cases found : (fields line).mapM readFloat with
    | error cause =>
      rw [found] at h
      obtain ⟨before, field, after, split, readable, unreadable⟩ := exists_of_mapM_eq_error found
      obtain rfl := Except.error.inj h
      exact .unreadable split readable unreadable
    | ok values =>
      have spelled : Spells line values := mapM_eq_ok_iff.mp found
      rw [found] at h
      by_cases even : values.length = w
      · simp [even] at h
      · simp only [if_neg even, Except.error.injEq] at h
        subst h
        rw [← spelled.length_eq] at even ⊢
        exact .columns spelled.readable even
  · intro h
    cases h with
    | @unreadable before field after cause split readable unreadable =>
      rw [split, mapM_eq_error readable unreadable]
    | columns readable uneven =>
      cases found : (fields line).mapM readFloat with
      | error cause =>
        obtain ⟨before, field, after, split, -, unreadable⟩ := exists_of_mapM_eq_error found
        obtain ⟨value, read⟩ := readable field (by simp [split])
        rw [read] at unreadable
        cases unreadable
      | ok values =>
        have length := (mapM_eq_ok_iff.mp found).length_eq
        rw [length] at uneven ⊢
        simp [uneven]

/-! ### Numbered lines -/

/-- The significant lines among lines that are numbered from `first` on, trimmed. -/
def numbered (first : Nat) (lines : List (List Char)) : List (Nat × List Char) :=
  (lines.zipIdx first).filterMap fun (line, number) =>
    if IsSignificant line then some (number, trim line) else none

theorem significantLines_eq_numbered (text : List Char) :
    significantLines text = numbered 1 (lines text) := by
  unfold significantLines numbered
  congr 1
  funext ⟨line, number⟩
  cases trimmed : trim line with
  | nil => simp [IsSignificant, trimmed]
  | cons c rest =>
    by_cases silent : c = '#' <;> simp [IsSignificant, trimmed, silent]

section Numbered

variable {first w : Nat} {line : List Char} {lines : List (List Char)}

theorem numbered_cons_of_significant (h : IsSignificant line) (first : Nat)
    (lines : List (List Char)) :
    numbered first (line :: lines) = (first, trim line) :: numbered (first + 1) lines := by
  simp [numbered, h]

theorem numbered_cons_of_not_significant (h : ¬IsSignificant line) (first : Nat)
    (lines : List (List Char)) : numbered first (line :: lines) = numbered (first + 1) lines := by
  simp [numbered, h]

/-- What the significant ones among some lines spell. -/
def LinesSpell (lines : List (List Char)) (rows : List (List Float)) : Prop :=
  List.Forall₂ Spells (lines.filter fun line => IsSignificant line) rows

/-- **If all lines are read**, none is at fault, and the rows are what the significant ones
spell. -/
theorem spells_of_readLines {result : Option Nat × List (List Float)}
    (h : readLines (some w) (numbered first lines) = .ok result) :
    result.1 = some w ∧ (∀ line ∈ lines, Sound w line) ∧ (∀ row ∈ result.2, row.length = w) ∧
      LinesSpell lines result.2 := by
  -- The number of the first line moves on with the lines, so it has to be any number.
  induction lines generalizing first result with
  | nil =>
    obtain rfl := Except.ok.inj h
    exact ⟨rfl, List.forall_mem_nil _, List.forall_mem_nil _, .nil⟩
  | cons line lines ih =>
    by_cases significant : IsSignificant line
    · rw [numbered_cons_of_significant significant, readLines, bind_eq_ok_iff] at h
      obtain ⟨values, read, h⟩ := h
      obtain ⟨⟨width?, more⟩, others, h⟩ := bind_eq_ok_iff.mp h
      obtain rfl := Except.ok.inj h
      obtain ⟨spelled, even⟩ := readLine_eq_ok_iff.mp read
      obtain ⟨width, sound, evens, spells⟩ := ih others
      refine ⟨width, List.forall_mem_cons.mpr ⟨Spells.sound spelled even, sound⟩,
        List.forall_mem_cons.mpr ⟨even, evens⟩, ?_⟩
      rw [LinesSpell, List.filter_cons_of_pos (by simpa using significant)]
      exact .cons spelled spells
    · rw [numbered_cons_of_not_significant significant] at h
      obtain ⟨width, sound, evens, spells⟩ := ih h
      refine ⟨width, List.forall_mem_cons.mpr ⟨fun h => absurd h significant, sound⟩, evens, ?_⟩
      rwa [LinesSpell, List.filter_cons_of_neg (by simpa using significant)]

/-- The first line at fault, by its number, and what is wrong with it. -/
def FirstFault (w first : Nat) (lines : List (List Char)) (number : Nat) (error : DatasetError) :
    Prop :=
  ∃ before line after, lines = before ++ line :: after ∧ number = first + before.length ∧
    (∀ line ∈ before, Sound w line) ∧ IsSignificant line ∧ Fault w number line error

/-- **If not all lines are read**, the first line at fault is blamed. -/
theorem firstFault_of_readLines {error : DatasetError}
    (h : readLines (some w) (numbered first lines) = .error error) :
    ∃ number, FirstFault w first lines number error := by
  induction lines generalizing first with
  | nil => cases h
  | cons line lines ih =>
    have later (sound : Sound w line)
        (h : readLines (some w) (numbered (first + 1) lines) = .error error) :
        ∃ number, FirstFault w first (line :: lines) number error := by
      obtain ⟨number, before, faulty, after, rfl, rfl, sounds, significant, fault⟩ := ih h
      refine ⟨_, line :: before, faulty, after, rfl, ?_, List.forall_mem_cons.mpr ⟨sound, sounds⟩,
        significant, fault⟩
      rw [List.length_cons]
      omega
    by_cases significant : IsSignificant line
    · rw [numbered_cons_of_significant significant, readLines, bind_eq_error_iff] at h
      rcases h with read | ⟨values, read, h⟩
      · exact ⟨first, [], line, lines, rfl, rfl, List.forall_mem_nil _, significant,
          readLine_eq_error_iff.mp read⟩
      · obtain ⟨spelled, even⟩ := readLine_eq_ok_iff.mp read
        rcases bind_eq_error_iff.mp h with others | ⟨result, -, impossible⟩
        · exact later (Spells.sound spelled even) others
        · cases impossible
    · rw [numbered_cons_of_not_significant significant] at h
      exact later (fun h => absurd h significant) h

/-- **The first line at fault is blamed**, whatever comes after it. -/
theorem readLines_of_firstFault {number : Nat} {error : DatasetError}
    (h : FirstFault w first lines number error) :
    readLines (some w) (numbered first lines) = .error error := by
  obtain ⟨before, line, after, rfl, rfl, sounds, significant, fault⟩ := h
  induction before generalizing first with
  | nil =>
    have fault : Fault w first line error := fault
    rw [List.nil_append, numbered_cons_of_significant significant, readLines,
      readLine_eq_error_iff.mpr fault]
    rfl
  | cons sound before ih =>
    -- A sound line moves the first number on by one, and the lines before the fault are one less.
    obtain ⟨one, others⟩ := List.forall_mem_cons.mp sounds
    rw [List.length_cons, Nat.add_comm _ 1, ← Nat.add_assoc] at fault
    have later := ih others fault
    rw [List.cons_append]
    by_cases before : IsSignificant sound
    · rw [numbered_cons_of_significant before, readLines]
      cases read : readLine (some w) first (trim sound) with
      | error error' => exact absurd one ((readLine_eq_error_iff.mp read).not_sound before)
      | ok values => simp [bind, Except.bind, later]
    · rwa [numbered_cons_of_not_significant before]

/-- If a line is not sound, there is a first one. -/
theorem exists_firstFault (h : ∃ line ∈ lines, ¬Sound w line) :
    ∃ number error, FirstFault w first lines number error := by
  cases read : readLines (some w) (numbered first lines) with
  | error error =>
    obtain ⟨number, found⟩ := firstFault_of_readLines read
    exact ⟨number, error, found⟩
  | ok result =>
    obtain ⟨line, hl, faulty⟩ := h
    exact absurd ((spells_of_readLines read).2.1 line hl) faulty

theorem FirstFault.not_sound {number : Nat} {error : DatasetError}
    (h : FirstFault w first lines number error) : ∃ line ∈ lines, ¬Sound w line := by
  obtain ⟨before, line, after, rfl, -, -, significant, fault⟩ := h
  exact ⟨line, by simp, fault.not_sound significant⟩

/-- Lines that are the same up to one of them. -/
theorem exists_eq_of_take {before after others : List (List Char)}
    (same : others.take (1 + before.length) =
      (before ++ line :: after).take (1 + before.length)) :
    ∃ rest, others = before ++ line :: rest := by
  rw [Nat.add_comm, List.take_length_add_append, List.take_succ_cons, List.take_zero] at same
  refine ⟨others.drop (before.length + 1), ?_⟩
  rw [List.append_cons, ← same, List.take_append_drop]

/-- Only the lines up to the first one at fault matter. -/
theorem FirstFault.of_take {number : Nat} {error : DatasetError} {others : List (List Char)}
    (h : FirstFault w 1 lines number error) (same : others.take number = lines.take number) :
    FirstFault w 1 others number error := by
  obtain ⟨before, line, after, rfl, rfl, found⟩ := h
  obtain ⟨rest, rfl⟩ := exists_eq_of_take same
  exact ⟨before, line, rest, rfl, rfl, found⟩

end Numbered

end Csv

end Superstep
