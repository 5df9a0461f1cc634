import Mathlib.Data.List.DropRight
import Mathlib.Data.List.Forall2
import Superstep.Proofs.Text.Lines
import Superstep.Training.Model

/-!
# How models are called

A model may be called by a short name or by the full name of a class with all its packages, in any
case and with dashes where one likes. Everything of a name that does not matter is taken away first,
and what is left is its *bare word* (`Superstep.ModelKind.bareWord`):

| part of a name | what becomes of it |
|---|---|
| up to the last point | left out |
| a capital letter from `A` to `Z` | in lower case |
| `_` and `-` | left out |
| anything else | kept |

Four bare words stand for a model (`Superstep.ModelKind.spellings`): its own word, then perhaps
`regression`, then perhaps `model`. The two endings are taken off from behind, each at most once, so
that neither another order nor a repetition is let through (`Superstep.ModelKind.stem_eq_iff`).
-/

namespace Superstep.ModelKind

/-! ### Words and their endings -/

/-- Taking off an ending leads to a word from that word with the ending, and from the word itself if
it does not have the ending. -/
theorem dropEnding_eq_iff {ending word stem : List Char} :
    dropEnding ending word = stem ↔ word = stem ++ ending ∨ word = stem ∧ ¬ending <:+ stem := by
  unfold dropEnding
  split
  · next has =>
    obtain ⟨front, rfl⟩ := List.isSuffixOf_iff_suffix.mp has
    rw [List.length_append, Nat.add_sub_cancel, List.take_left]
    constructor
    · rintro rfl
      exact .inl rfl
    · rintro (same | ⟨rfl, lacks⟩)
      · exact List.append_cancel_right same
      · exact absurd (List.suffix_append front ending) lacks
  · next lacks =>
    rw [List.isSuffixOf_iff_suffix] at lacks
    constructor
    · rintro rfl
      exact .inr ⟨rfl, lacks⟩
    · rintro (rfl | ⟨same, -⟩)
      · exact absurd (List.suffix_append stem ending) lacks
      · exact same

/-- **Of two endings that are taken off one after the other** the word may have both, one or none,
but only in their order and each only once. -/
theorem stem_eq_iff {middle ending stem word : List Char} (no_middle : ¬middle <:+ stem)
    (no_ending : ¬ending <:+ stem) (apart : ¬ending <:+ stem ++ middle) :
    dropEnding middle (dropEnding ending word) = stem ↔
      word ∈ [stem, stem ++ ending, stem ++ middle, stem ++ middle ++ ending] := by
  simp only [dropEnding_eq_iff, no_middle, no_ending, apart, not_false_eq_true, and_true,
    List.mem_cons, List.not_mem_nil, or_false]
  tauto

/-! ### Bare words -/

/-- The part of a name after its last point. -/
def lastPart (name : List Char) : List Char := name.rtakeWhile (· ≠ '.')

/-- What is left of a name when everything that does not matter is taken away. -/
def bareWord (name : List Char) : List Char :=
  ((lastPart name).map Char.toLower).filter fun c => c ≠ '_' ∧ c ≠ '-'

/-- What may stand before the last part of a name: nothing, or a path that ends with a point. -/
def IsPath (before : List Char) : Prop := before = [] ∨ ∃ path, before = path ++ ['.']

theorem lastPart_append {before last : List Char} (path : IsPath before) (whole : '.' ∉ last) :
    lastPart (before ++ last) = last := by
  have kept : ∀ c ∈ last.reverse, decide (c ≠ '.') = true := fun c hc =>
    decide_eq_true fun same => whole (same ▸ List.mem_reverse.mp hc)
  rw [lastPart, List.rtakeWhile, List.reverse_append, List.takeWhile_append_of_pos kept]
  rcases path with rfl | ⟨path, rfl⟩ <;> simp

/-- Every name has a last part, and it is the last of the pieces between the points. -/
theorem exists_isPath (name : List Char) : ∃ before, IsPath before ∧ '.' ∉ lastPart name ∧
    name = before ++ lastPart name ∧ (Text.pieces '.' name).getLast? = some (lastPart name) := by
  induction name using List.reverseRecOn with
  | nil => exact ⟨[], .inl rfl, by simp [lastPart], rfl, rfl⟩
  | append_singleton name c ih =>
    by_cases point : c = '.'
    · subst point
      have nothing : lastPart (name ++ ['.']) = [] := List.rtakeWhile_concat_neg _ _ _ (by simp)
      refine ⟨name ++ ['.'], .inr ⟨name, rfl⟩, by simp [nothing], by simp [nothing], ?_⟩
      rw [nothing, Text.pieces_append_cut, List.getLast?_concat]
    · have longer : lastPart (name ++ [c]) = lastPart name ++ [c] :=
        List.rtakeWhile_concat_pos _ _ _ (by simpa using point)
      obtain ⟨before, path, whole, split, piece⟩ := ih
      have uncut : '.' ∉ [c] := by simpa using Ne.symm point
      obtain ⟨others, last, short, long⟩ := Text.exists_pieces_append uncut name
      refine ⟨before, path, by simp [longer, whole, Ne.symm point], ?_, ?_⟩
      · rw [longer, ← List.append_assoc, ← split]
      · rw [short, List.getLast?_concat] at piece
        rw [long, List.getLast?_concat, longer, Option.some.inj piece]

theorem plainName_eq_bareWord (name : List Char) : plainName name = bareWord name := by
  obtain ⟨-, -, -, -, piece⟩ := exists_isPath name
  rw [plainName, bareWord, piece, Option.getD_some]

/-! ### What does not matter -/

/-- No capital letter becomes a point. -/
theorem toLower_eq_point_iff {c : Char} : c.toLower = '.' ↔ c = '.' := by
  constructor
  · intro h
    unfold Char.toLower at h
    split at h
    · next capital =>
      have code : c.val + ('a'.val - 'A'.val) = '.'.val := congrArg Char.val h
      grind
    · exact h
  · rintro rfl
    rfl

/-- The same letters, whatever their case. -/
def SameLetters (name other : List Char) : Prop :=
  List.Forall₂ (fun c d => c.toLower = d.toLower) name other

/-- One text is another one in which dashes are put. -/
inductive Dashed : List Char → List Char → Prop
  | nil : Dashed [] []
  | keep {text dashed : List Char} (c : Char) : Dashed text dashed →
    Dashed (c :: text) (c :: dashed)
  | dash {text dashed : List Char} {c : Char} : c = '_' ∨ c = '-' → Dashed text dashed →
    Dashed text (c :: dashed)

theorem Dashed.point_not_mem {text dashed : List Char} (h : Dashed text dashed)
    (whole : '.' ∉ text) : '.' ∉ dashed := by
  induction h with
  | nil => exact whole
  | keep c _ ih =>
    rw [List.mem_cons, not_or] at whole ⊢
    exact ⟨whole.1, ih whole.2⟩
  | dash here _ ih =>
    rw [List.mem_cons, not_or]
    refine ⟨?_, ih whole⟩
    rcases here with rfl | rfl <;> decide

theorem bareWord_path (path name : List Char) : bareWord (path ++ '.' :: name) = bareWord name := by
  obtain ⟨before, is_path, whole, split, -⟩ := exists_isPath name
  have longer : IsPath (path ++ '.' :: before) := by
    rcases is_path with rfl | ⟨inner, rfl⟩
    · exact .inr ⟨path, rfl⟩
    · exact .inr ⟨path ++ '.' :: inner, by simp⟩
  have same : path ++ '.' :: name = path ++ '.' :: before ++ lastPart name := by
    conv_lhs => rw [split]
    simp
  rw [bareWord, bareWord, same, lastPart_append longer whole]

theorem bareWord_congr {name other : List Char} (h : SameLetters name other) :
    bareWord name = bareWord other := by
  have lower (name : List Char) :
      (lastPart name).map Char.toLower = lastPart (name.map Char.toLower) := by
    simp only [lastPart, List.rtakeWhile, ← List.map_reverse, List.takeWhile_map]
    congr 3
    funext c
    simp [toLower_eq_point_iff]
  have same : name.map Char.toLower = other.map Char.toLower := by
    rwa [← List.forall₂_eq_eq_eq, List.forall₂_map_left_iff, List.forall₂_map_right_iff]
  rw [bareWord, bareWord, lower, lower, same]

theorem bareWord_dashed {before last dashed : List Char} (path : IsPath before)
    (whole : '.' ∉ last) (h : Dashed last dashed) :
    bareWord (before ++ dashed) = bareWord (before ++ last) := by
  rw [bareWord, bareWord, lastPart_append path whole, lastPart_append path (h.point_not_mem whole)]
  clear path whole
  induction h with
  | nil => rfl
  | keep c _ ih => rw [List.map_cons, List.map_cons, List.filter_cons, List.filter_cons, ih]
  | dash here _ ih =>
    rw [List.map_cons, List.filter_cons_of_neg (by rcases here with rfl | rfl <;> decide), ih]

/-! ### Names and models -/

/-- The word a model is called by. -/
def word : ModelKind → String
  | linear => "linear"
  | logistic => "logistic"

/-- The bare words that stand for a model: its own, then perhaps `regression`, then perhaps
`model`. -/
def spellings (kind : ModelKind) : List (List Char) :=
  ["", "model", "regression", "regressionmodel"].map fun endings =>
    kind.word.toList ++ endings.toList

/-- What is left when both endings are taken off is the word of a model exactly if the bare word
stands for that model. -/
theorem stem_eq_word_iff (kind : ModelKind) (bare : List Char) :
    dropEnding "regression".toList (dropEnding "model".toList bare) = kind.word.toList ↔
      bare ∈ kind.spellings := by
  cases kind with
  | linear => exact stem_eq_iff (by decide) (by decide) (by decide)
  | logistic => exact stem_eq_iff (by decide) (by decide) (by decide)

variable {F : Type} {name : String}

/-- A name is refused as a whole, or it is not refused. -/
theorem ofName_eq_or (F : Type) (name : String) : (∃ kind, ofName (F := F) name = .ok kind) ∨
    ofName (F := F) name = .error (.unknownModel name) := by
  simp only [ofName]
  split
  · exact .inl ⟨linear, rfl⟩
  · split
    · exact .inl ⟨logistic, rfl⟩
    · exact .inr rfl

/-- No bare word stands for both models. -/
theorem not_mem_spellings : ∀ bare ∈ linear.spellings, bare ∉ logistic.spellings := by decide

theorem ofName_eq_ok_iff {kind : ModelKind} :
    ofName (F := F) name = .ok kind ↔ bareWord name.toList ∈ kind.spellings := by
  have linear_iff := stem_eq_word_iff linear (bareWord name.toList)
  have logistic_iff := stem_eq_word_iff logistic (bareWord name.toList)
  simp only [word] at linear_iff logistic_iff
  simp only [ofName, plainName_eq_bareWord, linear_iff, logistic_iff]
  split
  · next h => cases kind <;> simp [h, not_mem_spellings _ h]
  · next not_linear =>
    split
    · next h => cases kind <;> simp [h, not_linear]
    · next not_logistic => cases kind <;> simp [not_linear, not_logistic]

theorem ofName_eq_error_iff {failure : ConfigError F} : ofName name = .error failure ↔
    (∀ kind : ModelKind, bareWord name.toList ∉ kind.spellings) ∧
      failure = .unknownModel name := by
  constructor
  · intro refused
    rcases ofName_eq_or F name with ⟨kind, accepted⟩ | whole
    · cases refused.symm.trans accepted
    · refine ⟨fun kind h => ?_, Except.error.inj (refused.symm.trans whole)⟩
      cases refused.symm.trans (ofName_eq_ok_iff.mpr h)
  · rintro ⟨unknown, rfl⟩
    rcases ofName_eq_or F name with ⟨kind, accepted⟩ | whole
    · exact absurd (ofName_eq_ok_iff.mp accepted) (unknown kind)
    · exact whole

/-- The model that is chosen by a name, if there is one. -/
def chosen? (F : Type) (name : String) : Option ModelKind := (ofName (F := F) name).toOption

/-- Only the bare word matters. -/
theorem chosen?_congr {other : String} (same : bareWord other.toList = bareWord name.toList) :
    chosen? F other = chosen? F name := by
  have chosen?_iff (name : String) (kind : ModelKind) :
      chosen? F name = some kind ↔ bareWord name.toList ∈ kind.spellings := by
    rw [← ofName_eq_ok_iff (F := F), chosen?]
    cases ofName (F := F) name <;> simp [Except.toOption]
  refine Option.ext fun kind => ?_
  rw [chosen?_iff, chosen?_iff, same]

/-- **How a name chooses a model.** -/
structure Recognised (F : Type) (name : String) : Prop where
  accepted : ∀ kind, ofName (F := F) name = .ok kind ↔ bareWord name.toList ∈ kind.spellings
  /-- Every other name is refused, and told as it was given. -/
  refused : ∀ failure : ConfigError F, ofName name = .error failure ↔
    (∀ kind : ModelKind, bareWord name.toList ∉ kind.spellings) ∧ failure = .unknownModel name
  /-- Packages make no difference, -/
  package : ∀ path : String, chosen? F (path ++ "." ++ name) = chosen? F name
  /-- nor does the case of letters, -/
  letters : ∀ other : String, SameLetters name.toList other.toList →
    chosen? F other = chosen? F name
  /-- nor do dashes in the last part. -/
  dashes : ∀ before last dashed, name.toList = before ++ last → IsPath before → '.' ∉ last →
    Dashed last dashed → chosen? F (String.ofList (before ++ dashed)) = chosen? F name

/-- **Names of models are recognised exactly**: by their bare words and by nothing else. -/
theorem recognised (F : Type) (name : String) : Recognised F name where
  accepted _ := ofName_eq_ok_iff
  refused _ := ofName_eq_error_iff
  package path := by
    refine chosen?_congr ?_
    rw [String.toList_append, String.toList_append, List.append_assoc]
    exact bareWord_path path.toList name.toList
  letters _ same := chosen?_congr (bareWord_congr same).symm
  dashes before last dashed split path whole put := by
    refine chosen?_congr ?_
    rw [String.toList_ofList, split]
    exact bareWord_dashed path whole put

example : chosen? Float "org.example.Linear_Regression-Model" = some linear ∧
    chosen? Float "LinearModelRegression" = none ∧ chosen? Float "linearmodelmodel" = none := by
  decide +kernel

end Superstep.ModelKind
