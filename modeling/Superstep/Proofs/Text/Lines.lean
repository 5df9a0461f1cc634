import Mathlib.Data.List.DropRight
import Mathlib.Data.List.Infix
import Superstep.Text.Blank
import Superstep.Text.Pieces

/-!
# Pieces, blanks and lines

What reading a text needs to know about cutting and trimming it:

* `pieces` is the library's `List.splitOn` (`Superstep.Text.pieces_eq_splitOn`), so that joining
  and cutting undo each other;
* `trim` does not see blanks at either end (`Superstep.Text.trim_blanks_append`,
  `Superstep.Text.trim_append_blanks`), and so neither the carriage return that a line end may
  leave behind (`Superstep.Text.trim_dropReturn`);
* the first line of a text is what stands before its first line end
  (`Superstep.Text.lines_append_cons`);
* pieces and lines are no longer than the text they are cut from
  (`Superstep.Text.length_flatten_pieces`, `Superstep.Text.length_flatten_lines_le`).

Lines are trimmed before they are cut into fields, and each field is trimmed again. The first of the
two changes nothing (`Superstep.Text.map_trim_pieces_trim`), since the character at which a line is
cut is no blank.
-/

namespace Superstep.Text

variable {cut : Char} {text : List Char}

/-! ### Pieces -/

theorem pieces_eq_splitOn (cut : Char) (text : List Char) : pieces cut text = text.splitOn cut := by
  induction text with
  | nil => rfl
  | cons c rest ih =>
    rw [List.splitOn_cons_eq_if_modifyHead, pieces, ih]
    by_cases here : c = cut
    · simp [here]
    · rw [if_neg here, if_neg (by simpa using here)]
      cases found : rest.splitOn cut with
      | nil => exact absurd found (List.splitOn_ne_nil _ _)
      | cons piece more => rfl

/-- A text that is not cut is its only piece. -/
theorem pieces_of_not_mem (h : cut ∉ text) : pieces cut text = [text] := by
  rw [pieces_eq_splitOn, List.splitOn_eq_singleton h]

/-- The first piece ends at the first cut. -/
theorem pieces_append_cons {piece rest : List Char} (h : cut ∉ piece) :
    pieces cut (piece ++ cut :: rest) = piece :: pieces cut rest := by
  rw [pieces_eq_splitOn, pieces_eq_splitOn, List.splitOn_append_cons_self_of_not_mem h]

/-- Pieces that are joined are found again. -/
theorem pieces_intercalate {joined : List (List Char)} (h : ∀ piece ∈ joined, cut ∉ piece)
    (some_piece : joined ≠ []) : pieces cut ([cut].intercalate joined) = joined := by
  rw [pieces_eq_splitOn, List.splitOn_intercalate cut h some_piece]

/-- A character between joined texts is the one they are joined by, or in one of them. -/
theorem mem_intercalate {c : Char} {texts : List (List Char)}
    (h : c ∈ [cut].intercalate texts) : c = cut ∨ ∃ text ∈ texts, c ∈ text := by
  induction texts with
  | nil => cases h
  | cons text texts ih =>
    cases texts with
    | nil =>
      rw [List.intercalate_singleton] at h
      exact .inr ⟨text, List.mem_cons_self, h⟩
    | cons other texts =>
      rw [List.intercalate_cons_cons, List.mem_append, List.mem_append, List.mem_singleton] at h
      rcases h with (h | h) | h
      · exact .inr ⟨text, List.mem_cons_self, h⟩
      · exact .inl h
      · rcases ih h with here | ⟨text, ht, hc⟩
        · exact .inl here
        · exact .inr ⟨text, List.mem_cons_of_mem _ ht, hc⟩

/-- A character that is not cut at belongs to the first piece. -/
theorem exists_pieces_cons {c : Char} (h : c ≠ cut) (text : List Char) :
    ∃ piece more, pieces cut text = piece :: more ∧
      pieces cut (c :: text) = (c :: piece) :: more := by
  cases found : pieces cut text with
  | nil => exact absurd found (pieces_ne_nil _ _)
  | cons piece more => exact ⟨piece, more, rfl, by rw [pieces, if_neg h, found]⟩

/-- What is put behind a text, and is not cut, belongs to the last piece. -/
theorem exists_pieces_append {after : List Char} (h : cut ∉ after) (text : List Char) :
    ∃ before piece, pieces cut text = before ++ [piece] ∧
      pieces cut (text ++ after) = before ++ [piece ++ after] := by
  induction text with
  | nil => exact ⟨[], [], rfl, pieces_of_not_mem h⟩
  | cons c rest ih =>
    obtain ⟨before, last, short, long⟩ := ih
    by_cases here : c = cut
    · exact ⟨[] :: before, last, by simp [pieces, here, short], by simp [pieces, here, long]⟩
    · rw [List.cons_append, pieces, pieces, if_neg here, if_neg here, short, long]
      cases before with
      | nil => exact ⟨[], c :: last, rfl, rfl⟩
      | cons first others => exact ⟨(c :: first) :: others, last, rfl, rfl⟩

/-- A cut at the end of a text begins an empty piece. -/
theorem pieces_append_cut (text : List Char) :
    pieces cut (text ++ [cut]) = pieces cut text ++ [[]] := by
  induction text with
  | nil => simp [pieces]
  | cons c rest ih =>
    rw [List.cons_append, pieces, pieces, ih]
    by_cases here : c = cut
    · rw [if_pos here, if_pos here, List.cons_append]
    · rw [if_neg here, if_neg here]
      cases found : pieces cut rest with
      | nil => exact absurd found (pieces_ne_nil cut rest)
      | cons piece more => rfl

/-- A text has room for its pieces, and a cut between each two of them. -/
theorem length_add_length_pieces_le {piece : List Char} (h : piece ∈ pieces cut text) :
    piece.length + (pieces cut text).length ≤ text.length + 1 := by
  induction text generalizing piece with
  | nil =>
    obtain rfl := List.mem_singleton.mp h
    exact Nat.le_refl _
  | cons c rest ih =>
    -- A cut is one character and begins one more piece; any other character makes a piece longer.
    by_cases here : c = cut
    · rw [pieces, if_pos here] at h ⊢
      obtain ⟨first, hfirst⟩ := List.exists_mem_of_ne_nil _ (pieces_ne_nil cut rest)
      rcases List.mem_cons.mp h with rfl | h
      · have := ih hfirst
        simp only [List.length_cons, List.length_nil]
        omega
      · have := ih h
        simp only [List.length_cons]
        omega
    · obtain ⟨first, more, found, longer⟩ := exists_pieces_cons here rest
      rw [longer] at h ⊢
      rw [found] at ih
      rcases List.mem_cons.mp h with rfl | h
      · have := ih List.mem_cons_self
        simp only [List.length_cons] at this ⊢
        omega
      · have := ih (List.mem_cons_of_mem _ h)
        simp only [List.length_cons] at this ⊢
        omega

theorem length_pieces_le (cut : Char) (text : List Char) :
    (pieces cut text).length ≤ text.length + 1 := by
  obtain ⟨piece, h⟩ := List.exists_mem_of_ne_nil _ (pieces_ne_nil cut text)
  exact Nat.le_trans (Nat.le_add_left _ _) (length_add_length_pieces_le h)

theorem length_le_of_mem_pieces {piece : List Char} (h : piece ∈ pieces cut text) :
    piece.length ≤ text.length := by
  have := length_add_length_pieces_le h
  have := List.length_pos_iff.mpr (pieces_ne_nil cut text)
  omega

/-- **The pieces of a text are as long as it is**, if each has a cut behind it, and the text one
too. -/
theorem length_flatten_pieces (cut : Char) (text : List Char) :
    (pieces cut text).flatten.length + (pieces cut text).length = text.length + 1 := by
  induction text with
  | nil => rfl
  | cons c rest ih =>
    by_cases here : c = cut
    · rw [pieces, if_pos here, List.flatten_cons, List.nil_append, List.length_cons,
        ← Nat.add_assoc, ih, List.length_cons]
    · obtain ⟨piece, more, found, longer⟩ := exists_pieces_cons here rest
      rw [found] at ih
      rw [longer]
      simp only [List.flatten_cons, List.length_append, List.length_cons] at ih ⊢
      omega

/-! ### Blanks -/

/-- Nothing but blanks. -/
def Blanks (text : List Char) : Prop := ∀ c ∈ text, isBlank c = true

instance (text : List Char) : Decidable (Blanks text) :=
  decidable_of_iff (text.all isBlank = true) List.all_eq_true

theorem Blanks.not_mem {c : Char} (h : Blanks text) (ink : isBlank c = false) : c ∉ text := by
  intro hc
  rw [h c hc] at ink
  cases ink

theorem dropBlanksEnd_eq_rdropWhile (text : List Char) :
    dropBlanksEnd text = text.rdropWhile isBlank := by
  induction text with
  | nil => rfl
  | cons c rest ih =>
    rw [dropBlanksEnd, ih, List.rdropWhile, List.rdropWhile, List.reverse_cons,
      List.dropWhile_append]
    cases kept : rest.reverse.dropWhile isBlank with
    | nil => cases blank : isBlank c <;> simp [blank]
    | cons d ds =>
      rw [List.isEmpty_cons, if_neg Bool.false_ne_true, List.reverse_append]
      split
      · next none_left => simp at none_left
      · rfl

theorem trim_eq (text : List Char) : trim text = (text.dropWhile isBlank).rdropWhile isBlank :=
  dropBlanksEnd_eq_rdropWhile _

theorem trim_eq_nil_iff : trim text = [] ↔ Blanks text := by
  rw [trim_eq, List.rdropWhile_eq_nil_iff]
  constructor
  · intro h
    have := List.dropWhile_eq_nil_iff.mpr h
    rw [List.dropWhile_idempotent] at this
    exact List.dropWhile_eq_nil_iff.mp this
  · intro h
    rw [List.dropWhile_eq_nil_iff.mpr h]
    exact List.forall_mem_nil _

theorem trim_blanks_append {before : List Char} (h : Blanks before) (text : List Char) :
    trim (before ++ text) = trim text := by
  rw [trim, List.dropWhile_append_of_pos h, trim]

theorem trim_append_blanks {after : List Char} (h : Blanks after) (text : List Char) :
    trim (text ++ after) = trim text := by
  rw [trim_eq, trim_eq, List.dropWhile_append]
  cases kept : text.dropWhile isBlank with
  | nil => simp [List.dropWhile_eq_nil_iff.mpr h]
  | cons c rest =>
    have turned : ∀ d ∈ after.reverse, isBlank d = true := fun d hd => h d (List.mem_reverse.mp hd)
    simp only [List.isEmpty_cons, Bool.false_eq_true, if_false]
    rw [List.rdropWhile, List.reverse_append, List.dropWhile_append_of_pos turned, List.rdropWhile]

/-- A text without blanks is found again between blanks. -/
theorem trim_padded {before ink after : List Char} (left : Blanks before) (right : Blanks after)
    (h : ∀ c ∈ ink, isBlank c = false) : trim (before ++ ink ++ after) = ink := by
  have last (hne : ink ≠ []) : ¬isBlank (ink.getLast hne) = true := by
    rw [h _ (List.getLast_mem hne)]
    exact Bool.false_ne_true
  have first : ink.dropWhile isBlank = ink := by
    cases ink with
    | nil => rfl
    | cons c rest => rw [List.dropWhile_cons_of_neg (by simp [h c List.mem_cons_self])]
  rw [trim_append_blanks right, trim_blanks_append left, trim_eq, first,
    List.rdropWhile_eq_self_iff.mpr last]

/-- What is no blank stays where it is. -/
theorem head?_trim_cons {c : Char} (ink : isBlank c = false) (rest : List Char) :
    (trim (c :: rest)).head? = some c := by
  rw [trim, List.dropWhile_cons_of_neg (by simp [ink]), dropBlanksEnd]
  cases dropBlanksEnd rest with
  | nil => rw [ink]; rfl
  | cons d kept => rfl

/-- Trimming takes away blanks and nothing else. -/
theorem exists_trim (text : List Char) :
    ∃ before after, Blanks before ∧ Blanks after ∧ text = before ++ trim text ++ after := by
  refine ⟨text.takeWhile isBlank, (text.dropWhile isBlank).rtakeWhile isBlank,
    fun c hc => List.mem_takeWhile_imp hc, fun c hc => List.mem_rtakeWhile_imp hc, ?_⟩
  rw [trim_eq, List.append_assoc, List.rdropWhile_append_rtakeWhile,
    List.takeWhile_append_dropWhile]

/-! ### Pieces of which the blanks do not matter -/

theorem map_trim_pieces_blanks_append (ink : isBlank cut = false) {before : List Char}
    (h : Blanks before) (text : List Char) :
    (pieces cut (before ++ text)).map trim = (pieces cut text).map trim := by
  induction before with
  | nil => rfl
  | cons c rest ih =>
    obtain ⟨blank, others⟩ := List.forall_mem_cons.mp h
    have uncut : c ≠ cut := by
      rintro rfl
      rw [blank] at ink
      cases ink
    obtain ⟨piece, more, found, longer⟩ := exists_pieces_cons uncut (rest ++ text)
    have same : trim (c :: piece) = trim piece :=
      trim_blanks_append (show Blanks [c] by simpa [Blanks] using blank) piece
    rw [← ih others, List.cons_append, longer, found, List.map_cons, List.map_cons, same]

theorem map_trim_pieces_append_blanks (ink : isBlank cut = false) {after : List Char}
    (h : Blanks after) (text : List Char) :
    (pieces cut (text ++ after)).map trim = (pieces cut text).map trim := by
  obtain ⟨before, piece, short, long⟩ := exists_pieces_append (h.not_mem ink) text
  rw [short, long, List.map_append, List.map_append, List.map_singleton, List.map_singleton,
    trim_append_blanks h]

/-- **To trim a line before it is cut changes no field**, if the fields are trimmed. -/
theorem map_trim_pieces_trim (ink : isBlank cut = false) (text : List Char) :
    (pieces cut (trim text)).map trim = (pieces cut text).map trim := by
  obtain ⟨before, after, left, right, whole⟩ := exists_trim text
  calc (pieces cut (trim text)).map trim
      = (pieces cut (before ++ trim text)).map trim :=
        (map_trim_pieces_blanks_append ink left _).symm
    _ = (pieces cut (before ++ trim text ++ after)).map trim :=
        (map_trim_pieces_append_blanks ink right _).symm
    _ = (pieces cut text).map trim := by rw [← whole]

/-! ### Lines -/

/-- A carriage return is taken away or there is none. -/
theorem dropReturn_eq_or (line : List Char) :
    dropReturn line = line ∨ line = dropReturn line ++ ['\r'] := by
  fun_induction dropReturn line with
  | case1 => exact .inl rfl
  | case2 => exact .inr rfl
  | case3 c rest _ ih =>
    rcases ih with same | shorter
    · exact .inl (congrArg _ same)
    · exact .inr (congrArg (c :: ·) shorter)

theorem blanks_return : Blanks ['\r'] := by decide

theorem trim_dropReturn (line : List Char) : trim (dropReturn line) = trim line := by
  rcases dropReturn_eq_or line with same | longer
  · rw [same]
  · conv_rhs => rw [longer, trim_append_blanks blanks_return]

theorem length_dropReturn_le (line : List Char) : (dropReturn line).length ≤ line.length := by
  rcases dropReturn_eq_or line with same | longer
  · rw [same]
  · have := congrArg List.length longer
    rw [List.length_append] at this
    omega

@[simp] theorem lines_nil : lines [] = [] := rfl

/-- What is left of a text without a line end is its last line. -/
theorem lines_of_not_mem {line : List Char} (h : '\n' ∉ line) (some_char : line ≠ []) :
    lines line = [line] := by
  cases line with
  | nil => exact absurd rfl some_char
  | cons c rest => simp [lines, pieces_of_not_mem h]

/-- **The first line of a text** is what stands before its first line end. -/
theorem lines_append_cons {line : List Char} (h : '\n' ∉ line) (text : List Char) :
    lines (line ++ '\n' :: text) = dropReturn line :: lines text := by
  rw [lines, lines, pieces_append_cons h]
  cases found : pieces '\n' text with
  | nil => exact absurd found (pieces_ne_nil _ _)
  | cons first more =>
    have last := List.getLast?_eq_some_getLast (List.cons_ne_nil first more)
    rw [List.getLast?_cons_cons, List.dropLast_cons_cons, List.map_cons, last]
    cases (first :: more).getLast (List.cons_ne_nil first more) <;> rfl

theorem length_le_of_mem_lines {line : List Char} (h : line ∈ lines text) :
    line.length ≤ text.length := by
  have ended {line : List Char} (h : line ∈ (pieces '\n' text).dropLast.map dropReturn) :
      line.length ≤ text.length := by
    obtain ⟨piece, hp, rfl⟩ := List.mem_map.mp h
    exact Nat.le_trans (length_dropReturn_le _)
      (length_le_of_mem_pieces (List.mem_of_mem_dropLast hp))
  simp only [lines] at h
  split at h
  · cases h
  · exact ended h
  · next found =>
    rcases List.mem_append.mp h with h | h
    · exact ended h
    · obtain rfl := List.mem_singleton.mp h
      exact length_le_of_mem_pieces (List.mem_of_getLast? found)

/-- The lines of a text, each with its end, are not longer than the text with an end. -/
theorem length_flatten_lines_le (text : List Char) :
    (lines text).flatten.length + (lines text).length ≤ text.length + 1 := by
  have ended (broken : List (List Char)) :
      (broken.map dropReturn).flatten.length ≤ broken.flatten.length := by
    induction broken with
    | nil => exact Nat.le_refl _
    | cons line broken ih =>
      rw [List.map_cons, List.flatten_cons, List.flatten_cons, List.length_append,
        List.length_append]
      exact Nat.add_le_add (length_dropReturn_le line) ih
  have whole := length_flatten_pieces '\n' text
  have shorter := ended (pieces '\n' text).dropLast
  simp only [lines]
  split
  · exact Nat.zero_le _
  · next found =>
    rw [← List.dropLast_append_getLast? _ found] at whole
    simp only [List.flatten_append, List.length_append, List.length_map] at whole ⊢
    omega
  · next found =>
    rw [← List.dropLast_append_getLast? _ found] at whole
    simp only [List.flatten_append, List.length_append, List.length_map] at whole ⊢
    omega

theorem length_lines_le (text : List Char) : (lines text).length ≤ text.length + 1 :=
  Nat.le_trans (Nat.le_add_left _ _) (length_flatten_lines_le text)

end Superstep.Text
