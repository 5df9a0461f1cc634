import Mathlib.Tactic.IntervalCases
import Superstep.Json.Value
import Superstep.Proofs.Number.Literal

/-!
# Compact JSON reads as what it was made of

Records and options are written piece by piece: a list puts commas between what its items were
written as, an object puts names and colons in front of them. This file says what such a text is
read as. `Superstep.Json.Tree.Spelled` is the bridge: that a text spells a tree, wherever it stands
and whatever follows it. It is built up as the text is (`Superstep.Json.Tree.Spelled.array`,
`Superstep.Json.Tree.Spelled.object`, and one lemma for every kind of leaf), and **a text that
spells a tree is read as that tree** (`Superstep.Json.Tree.parse?_of_spelled`).

Reading takes two passes, and so does the argument.

| pass | that a text spells tokens | that tokens spell a tree |
|---|---|---|
| relation | `Superstep.Json.Token.Spelled` | `Superstep.Json.Tree.Yielded` |
| what may follow | the end, or what ends a bare word | anything |

The first pass counts its steps and collects its tokens on the way. Neither matters to the result
(`Superstep.Json.Token.scan_cons`).
-/

namespace Superstep.Json

/-- What stands between things also stands in front of all but the first. -/
theorem intercalate_cons {α : Type} (cut : α) (first : List α) (more : List (List α)) :
    [cut].intercalate (first :: more) = first ++ more.flatMap (cut :: ·) := by
  induction more generalizing first with
  | nil => simp
  | cons second more ih => simp [List.intercalate_cons_cons, ih]

/-! ### Tokens of a text -/

namespace Token

/-- The next token of a text and what follows it; a blank is no token. -/
def next? (c : Char) (rest : List Char) : Option (List Token × List Char) :=
  if isSpace c then some ([], rest)
  else
    match mark? c with
    | some token => some ([token], rest)
    | none =>
      if c = '"' then
        match string? [] rest with
        | some (pieces, rest) => some ([text pieces], rest)
        | none => none
      else
        match bare? ((c :: rest).takeWhile isBare) with
        | some token => some ([token], (c :: rest).dropWhile isBare)
        | none => none

/-- A string takes at least its closing quote. -/
theorem length_of_string? {before pieces : List Piece} {input rest : List Char}
    (h : string? before input = some (pieces, rest)) : rest.length < input.length := by
  fun_induction string? before input with
  | case1 => cases h
  | case2 => cases h; simp
  | case3 _ _ _ _ _ _ _ _ ih => exact (ih h).trans (by simp only [List.length_cons]; omega)
  | case4 => cases h
  | case5 _ _ _ _ _ _ ih => exact (ih h).trans (by simp only [List.length_cons]; omega)
  | case6 => cases h
  | case7 => cases h
  | case8 _ _ _ _ _ _ _ ih => exact (ih h).trans (by simp only [List.length_cons]; omega)

/-- Every token takes a character. -/
theorem length_of_next? {c : Char} {rest after : List Char} {tokens : List Token}
    (h : next? c rest = some (tokens, after)) : after.length ≤ rest.length := by
  unfold next? at h
  split at h
  · cases h
    exact le_rfl
  · next noSpace =>
    split at h
    · cases h
      exact le_rfl
    · next noMark =>
      split at h
      · split at h
        · next found =>
          cases h
          exact (length_of_string? found).le
        · cases h
      · next noQuote =>
        split at h
        · cases h
          have bare : isBare c = Bool.true := by
            simp [isBare, noSpace, noMark, noQuote]
          rw [List.dropWhile_cons_of_pos bare]
          exact (List.dropWhile_suffix _).length_le
        · cases h

/-- A step of the scan. -/
theorem scanWithin_cons (more : ℕ) (before : List Token) (c : Char) (rest : List Char) :
    scanWithin (more + 1) before (c :: rest) =
      match next? c rest with
      | some (tokens, after) => scanWithin more (tokens.reverse ++ before) after
      | none => none := by
  rw [scanWithin, next?]
  by_cases space : isSpace c = Bool.true
  · simp [space]
  · cases mark : mark? c with
    | some token => simp [space]
    | none =>
      simp only [if_neg space]
      by_cases quote : c = '"'
      · simp only [if_pos quote]
        cases string? [] rest <;> rfl
      · simp only [if_neg quote]
        cases bare? ((c :: rest).takeWhile isBare) <;> rfl

/-- **There are always steps enough**, and tokens read before only come first. -/
theorem scanWithin_eq {more : ℕ} {input : List Char} (enough : input.length ≤ more)
    (before : List Token) :
    scanWithin more before input = (scan input).map (before.reverse ++ ·) := by
  -- on the length of the text, as a step may take many characters
  induction more using Nat.strong_induction_on generalizing input before with
  | _ more ih =>
    cases input with
    | nil =>
      rw [scan, List.length_nil, scanWithin, scanWithin]
      simp
    | cons c rest =>
      obtain ⟨more, rfl⟩ := Nat.exists_eq_add_one_of_ne_zero (n := more) (by
        rw [List.length_cons] at enough
        omega)
      rw [List.length_cons] at enough
      rw [scan, List.length_cons, scanWithin_cons, scanWithin_cons]
      cases found : next? c rest with
      | none => rfl
      | some read =>
        obtain ⟨tokens, after⟩ := read
        have shorter := length_of_next? found
        simp only
        rw [ih more (by omega) (by omega), ih rest.length (by omega) shorter]
        cases scan after with
        | none => rfl
        | some more => simp

/-- **Scanning goes token by token.** -/
theorem scan_cons {c : Char} {rest after : List Char} {tokens : List Token}
    (h : next? c rest = some (tokens, after)) :
    scan (c :: rest) = (scan after).map (tokens ++ ·) := by
  rw [scan, List.length_cons, scanWithin_cons, h]
  simp only
  rw [scanWithin_eq (length_of_next? h), List.append_nil, List.reverse_reverse]

/-- Whether a bare word cannot go on. -/
def Ends (rest : List Char) : Prop := ∀ c ∈ rest.head?, isBare c = Bool.false

/-- **A text spells tokens**, whatever comes after it. -/
def Spelled (input : List Char) (tokens : List Token) : Prop :=
  ∀ rest, Ends rest → scan (input ++ rest) = (scan rest).map (tokens ++ ·)

namespace Spelled

variable {input other : List Char} {tokens others : List Token}

theorem nil : Spelled [] [] := fun rest _ => by
  cases h : scan rest <;> simp [h]

/-- One text after another. -/
theorem append (first : Spelled input tokens) (second : Spelled other others) (ends : Ends other) :
    Spelled (input ++ other) (tokens ++ others) := by
  intro rest after
  have ends : Ends (other ++ rest) := by
    cases other with
    | nil => exact after
    | cons c more => exact ends
  rw [List.append_assoc, first _ ends, second rest after, Option.map_map]
  cases scan rest <;> simp

/-- A bracket, a brace, a comma or a colon. -/
theorem mark {c : Char} {token : Token} (h : mark? c = some token)
    (spelled : Spelled input tokens) : Spelled (c :: input) (token :: tokens) := by
  intro rest after
  have noSpace : ¬isSpace c = Bool.true := by
    unfold mark? at h
    split at h <;> first | decide | cases h
  have found : next? c (input ++ rest) = some ([token], input ++ rest) := by
    rw [next?, if_neg noSpace, h]
  rw [List.cons_append, scan_cons found, spelled rest after, Option.map_map]
  cases scan rest <;> simp

/-- A bare word. -/
theorem bare {word : List Char} {token : Token} (some_char : word ≠ [])
    (h : ∀ c ∈ word, isBare c = Bool.true) (read : bare? word = some token) :
    Spelled word [token] := by
  intro rest after
  have taken : (word ++ rest).takeWhile isBare = word := by
    rw [List.takeWhile_append_of_pos h]
    cases rest with
    | nil => simp
    | cons c rest => simp [after c rfl]
  have dropped : (word ++ rest).dropWhile isBare = rest := by
    rw [List.dropWhile_append_of_pos h]
    cases rest with
    | nil => rfl
    | cons c rest => simp [after c rfl]
  obtain ⟨c, more, rfl⟩ := List.exists_cons_of_ne_nil some_char
  have first := h c List.mem_cons_self
  simp only [isBare, Bool.and_eq_true, Bool.not_eq_true', Option.isNone_iff_eq_none,
    bne_iff_ne] at first
  rw [List.cons_append] at taken dropped ⊢
  refine scan_cons ?_
  rw [next?, if_neg (by simp [first.1.1]), first.1.2]
  simp only [if_neg first.2, taken, dropped, read]

/-- A string, up to its closing quote. -/
theorem string {pieces : List Piece}
    (h : ∀ rest, string? [] (input ++ rest) = some (pieces, rest)) :
    Spelled ('"' :: input) [text pieces] := by
  intro rest _
  have found : next? '"' (input ++ rest) = some ([text pieces], rest) := by
    rw [next?, if_neg (by decide), show mark? '"' = none from rfl]
    simp only [if_true, h]
  rw [List.cons_append, scan_cons found]

/-- Things with commas between them, up to a closing mark. -/
theorem list {α : Type} {things : List α} {written : α → List Char} {read : α → List Token}
    {close : Char} {token : Token} (closes : mark? close = some token)
    (h : ∀ thing ∈ things, Spelled (written thing) (read thing)) :
    Spelled ([','].intercalate (things.map written) ++ [close])
      ([.comma].intercalate (things.map read) ++ [token]) := by
  have further (more : List α) (h : ∀ thing ∈ more, Spelled (written thing) (read thing)) :
      Spelled ((more.flatMap fun thing => ',' :: written thing) ++ [close])
        ((more.flatMap fun thing => .comma :: read thing) ++ [token]) ∧
      Ends ((more.flatMap fun thing => ',' :: written thing) ++ [close]) := by
    induction more with
    | nil =>
      refine ⟨nil.mark closes, fun c hc => ?_⟩
      obtain rfl := Option.some.inj hc
      simp [isBare, closes]
    | cons thing more ih =>
      obtain ⟨spelled, ends⟩ := ih fun thing ht => h thing (.tail _ ht)
      refine ⟨?_, fun c hc => ?_⟩
      · have next := ((h thing List.mem_cons_self).append spelled ends).mark
          (show mark? ',' = some .comma from rfl)
        simpa using next
      · obtain rfl := Option.some.inj hc
        rfl
  cases things with
  | nil => exact nil.mark closes
  | cons thing more =>
    obtain ⟨spelled, ends⟩ := further more fun thing ht => h thing (.tail _ ht)
    have all := (h thing List.mem_cons_self).append spelled ends
    rw [List.map_cons, List.map_cons, intercalate_cons, intercalate_cons, List.flatMap_map,
      List.flatMap_map, List.append_assoc, List.append_assoc]
    exact all

end Spelled

end Token

namespace Tree

/-! ### The tree of some tokens -/

/-- **Tokens spell a tree**, wherever a value has to come. -/
def Yielded (tokens : List Token) (tree : Tree) : Prop :=
  ∀ opened rest, (Reading.value opened).steps (tokens ++ rest) =
    (Reading.complete tree opened).steps rest

namespace Yielded

variable {tokens : List Token} {tree : Tree}

/-- No value starts with a closing bracket. -/
theorem exists_cons (h : Yielded tokens tree) :
    ∃ first rest, tokens = first :: rest ∧ first ≠ .closeBracket := by
  have read := h [] []
  cases tokens with
  | nil => cases read
  | cons first rest =>
    refine ⟨first, rest, rfl, ?_⟩
    rintro rfl
    cases read

/-- A first item is read as any value. -/
theorem firstItem (h : Yielded tokens tree) (opened : List Open) (rest : List Token) :
    (Reading.firstItem opened).steps (tokens ++ rest) =
      (Reading.complete tree (.array [] :: opened)).steps rest := by
  rw [← h]
  obtain ⟨first, more, rfl, other⟩ := h.exists_cons
  cases first <;> first | rfl | exact absurd rfl other

section Lists

variable {α : Type} {read : α → List Token} {tree : α → Tree}

/-- Items after another one, up to the closing bracket. -/
theorem steps_items {more : List α} (h : ∀ item ∈ more, Yielded (read item) (tree item))
    (last : Tree) (before : List Tree) (opened : List Open) (rest : List Token) :
    (Reading.complete last (.array before :: opened)).steps
        ((more.flatMap fun item => .comma :: read item) ++ .closeBracket :: rest) =
      (Reading.complete (.array (before.reverse ++ last :: more.map tree)) opened).steps rest := by
  induction more generalizing last before with
  | nil => simp [Reading.steps, Reading.step]
  | cons item more ih =>
    rw [List.flatMap_cons, List.append_assoc, List.cons_append]
    simp only [Reading.steps, Reading.step]
    rw [h item List.mem_cons_self, ih (fun item hi => h item (.tail _ hi)), List.reverse_cons,
      List.append_assoc]
    rfl

/-- **A list.** -/
theorem array {items : List α} (h : ∀ item ∈ items, Yielded (read item) (tree item)) :
    Yielded (.openBracket :: ([.comma].intercalate (items.map read) ++ [.closeBracket]))
      (.array (items.map tree)) := by
  intro opened rest
  rw [List.cons_append, List.append_assoc]
  simp only [Reading.steps, Reading.step, Reading.start]
  cases items with
  | nil => rfl
  | cons first more =>
    rw [List.map_cons, intercalate_cons, List.flatMap_map, List.append_assoc,
      (h first List.mem_cons_self).firstItem]
    exact steps_items (fun item hi => h item (.tail _ hi)) ..

variable {name : α → List Piece}

/-- Members after another one, up to the closing brace. -/
theorem steps_members {more : List α} (h : ∀ member ∈ more, Yielded (read member) (tree member))
    (last : Tree) (lastName : List Piece) (before : List (List Piece × Tree))
    (opened : List Open) (rest : List Token) :
    (Reading.complete last (.object before lastName :: opened)).steps
        ((more.flatMap fun member => .comma :: .text (name member) :: .colon :: read member) ++
          .closeBrace :: rest) =
      (Reading.complete (.object (before.reverse ++ (lastName, last) ::
        more.map fun member => (name member, tree member))) opened).steps rest := by
  induction more generalizing last lastName before with
  | nil => simp [Reading.steps, Reading.step]
  | cons member more ih =>
    rw [List.flatMap_cons, List.append_assoc, List.cons_append, List.cons_append,
      List.cons_append]
    simp only [Reading.steps, Reading.step]
    rw [h member List.mem_cons_self, ih (fun member hm => h member (.tail _ hm)),
      List.reverse_cons, List.append_assoc]
    rfl

/-- **An object.** -/
theorem object {members : List α}
    (h : ∀ member ∈ members, Yielded (read member) (tree member)) :
    Yielded (.openBrace :: ([.comma].intercalate
        (members.map fun member => .text (name member) :: .colon :: read member) ++
          [.closeBrace]))
      (.object (members.map fun member => (name member, tree member))) := by
  intro opened rest
  rw [List.cons_append, List.append_assoc]
  simp only [Reading.steps, Reading.step, Reading.start]
  cases members with
  | nil => rfl
  | cons first more =>
    rw [List.map_cons, intercalate_cons, List.flatMap_map, List.append_assoc, List.cons_append,
      List.cons_append]
    simp only [Reading.steps, Reading.step]
    rw [h first List.mem_cons_self]
    exact steps_members (fun member hm => h member (.tail _ hm)) ..

end Lists

end Yielded

end Tree

/-! ### Strings -/

namespace Piece

/-- The piece a character is written as. -/
def ofChar (c : Char) : Piece :=
  if c.toNat < 0x20 ∧ c ∉ ['\x08', '\x0c', '\n', '\r', '\t'] then unit c.toNat else char c

/-- A control character is no half of another one. -/
theorem decode?_unit {n : ℕ} (small : n < 0x20) (rest : List Piece) :
    decode? (unit n :: rest) = (decode? rest).map (Char.ofNat n :: ·) := by
  have low : isLow n = false := by simp [isLow]; omega
  have high : isHigh n = false := by simp [isHigh]; omega
  cases rest with
  | nil => simp [decode?, low, high]
  | cons piece rest => cases piece <;> simp [decode?, low, high]

/-- **The pieces of a string say what was written.** -/
theorem decode?_map_ofChar (value : List Char) : decode? (value.map ofChar) = some value := by
  induction value with
  | nil => rfl
  | cons c rest ih =>
    rw [List.map_cons, ofChar]
    split
    · next control => rw [decode?_unit control.1, ih, Option.map_some, Char.ofNat_toNat]
    · rw [decode?, ih, Option.map_some]

end Piece

namespace Token

/-- The four digits a control character is escaped by. -/
theorem unit?_hexDigits : ∀ n < 0x20, ∃ a b c d, Text.hexDigits 4 n = [a, b, c, d] ∧
    unit? a b c d = some n := by
  intro n small
  interval_cases n <;> exact ⟨_, _, _, _, rfl, rfl⟩

/-- A character of a string is read as its piece. -/
theorem string?_char (before : List Piece) (c : Char) (rest : List Char) :
    string? before (Written.char c ++ rest) = string? (Piece.ofChar c :: before) rest := by
  unfold Written.char
  split
  iterate 7 rfl
  next noQuote noBackslash h1 h2 h3 h4 h5 =>
    split
    · next control =>
      obtain ⟨a, b, c', d, digits, value⟩ := unit?_hexDigits c.toNat control
      have piece : Piece.ofChar c = .unit c.toNat := by
        rw [Piece.ofChar, if_pos]
        simp only [List.mem_cons, List.not_mem_nil, or_false, not_or]
        exact ⟨control, h1, h2, h3, h4, h5⟩
      rw [digits, piece]
      simp [string?, value]
    · next visible =>
      have piece : Piece.ofChar c = .char c := by
        rw [Piece.ofChar, if_neg fun h => visible h.1]
      rw [piece, List.singleton_append, string?.eq_def]
      split
      · next none => cases none
      · next quote => exact absurd (List.cons.inj quote).1 noQuote
      · next escape => exact absurd (List.cons.inj escape).1 noBackslash
      · next escape => exact absurd (List.cons.inj escape).1 noBackslash
      · next same =>
        cases same
        rw [if_neg visible]

theorem string?_flatMap (value : List Char) (before : List Piece) (rest : List Char) :
    string? before (value.flatMap Written.char ++ '"' :: rest) =
      some (before.reverse ++ value.map Piece.ofChar, rest) := by
  induction value generalizing before with
  | nil => simp [string?]
  | cons c more ih => simp [string?_char, ih]

/-- What is written as a string is one. -/
theorem spelled_text (value : String) :
    Spelled (Written.text value).toList [text (value.toList.map Piece.ofChar)] := by
  have read (rest : List Char) :
      string? [] ((value.toList.flatMap Written.char ++ ['"']) ++ rest) =
        some (value.toList.map Piece.ofChar, rest) := by
    rw [List.append_assoc]
    exact string?_flatMap value.toList [] rest
  simpa [Written.text] using Spelled.string read

end Token

/-! ### What is written spells a tree -/

namespace Tree

/-- **A text spells a tree**, wherever it stands. -/
def Spelled (input : String) (tree : Tree) : Prop :=
  ∃ tokens, Token.Spelled input.toList tokens ∧ Yielded tokens tree

/-- **What spells a tree is read as it.** -/
theorem parse?_of_spelled {input : String} {tree : Tree} (h : Spelled input tree) :
    parse? input = some tree := by
  obtain ⟨tokens, spelled, yielded⟩ := h
  have scanned : Token.scan input.toList = some tokens := by
    have all := spelled [] (by simp [Token.Ends])
    rw [List.append_nil] at all
    rw [all]
    simp [Token.scan, Token.scanWithin]
  have read : (Reading.value []).steps tokens = some (.complete tree []) := by
    have all := yielded [] []
    rwa [List.append_nil] at all
  rw [parse?, scanned, Option.bind_eq_bind, Option.bind_some, ofTokens?, read]

namespace Spelled

/-- A string. -/
theorem text (value : String) :
    Spelled (Written.text value) (.text (value.toList.map Piece.ofChar)) := by
  exact ⟨_, Token.spelled_text value, fun _ _ => rfl⟩

/-- The characters of a number belong to a bare word. -/
theorem isBare_of_mem {c : Char} (h : c.isDigit = true ∨ c ∈ ['-', '+', '.', 'e', 'E']) :
    Token.isBare c = true := by
  rcases h with digit | other
  · obtain ⟨small, same⟩ := digitChar_of_isDigit digit
    rw [← same]
    generalize c.toNat - '0'.toNat = n at small
    interval_cases n <;> rfl
  · simp only [List.mem_cons, List.not_mem_nil, or_false] at other
    rcases other with rfl | rfl | rfl | rfl | rfl <;> rfl

/-- A number. -/
theorem number {literal : List Char} (h : Token.isNumber literal = true) :
    Spelled (String.ofList literal) (.number literal) := by
  refine ⟨[.number literal], ?_, fun opened rest => rfl⟩
  obtain ⟨l, negative, rfl⟩ := exists_literal h
  obtain ⟨first, rest, same, start⟩ := l.exists_spelled negative
  rw [String.toList_ofList]
  refine Token.Spelled.bare (by simp [same]) (fun c hc => isBare_of_mem (l.mem_spelled hc)) ?_
  have no_word {letter : Char} (word : List Char)
      (other : letter.isDigit = false ∧ letter ≠ '-') : l.spelled negative ≠ letter :: word := by
    rw [same]
    rintro ⟨⟩
    rcases start with digit | sign
    · rw [other.1] at digit
      cases digit
    · exact other.2 sign
  rw [Token.bare?, if_neg (no_word _ (by decide)), if_neg (no_word _ (by decide)),
    if_neg (no_word _ (by decide)), if_pos h]

theorem null : Spelled "null" .null := by
  have spelled : Token.Spelled ['n', 'u', 'l', 'l'] [.null] :=
    Token.Spelled.bare (by simp) (List.all_eq_true.mp rfl) rfl
  exact ⟨[.null], spelled, fun _ _ => rfl⟩

/-- A number that is an integer. -/
theorem natural (n : ℕ) : Spelled (toString n) (.number (Nat.toDigits 10 n)) := by
  rw [Nat.toString_eq_ofList_toDigits]
  exact number (isNumber_toDigits n)

variable {α : Type} {written : α → String} {tree : α → Tree}

/-- **A list of things already written.** -/
theorem array {items : List α} (h : ∀ item ∈ items, Spelled (written item) (tree item)) :
    Spelled (Written.array (items.map written)) (.array (items.map tree)) := by
  choose! tokens spelled yielded using h
  have list := Token.Spelled.list (show Token.mark? ']' = some .closeBracket from rfl) spelled
  refine ⟨_, ?_, Yielded.array yielded⟩
  have all := list.mark (show Token.mark? '[' = some .openBracket from rfl)
  simpa [Written.array, String.toList_intercalate, Function.comp_def] using all

/-- **Things already written, under names.** -/
theorem object {members : List α} {name : α → String}
    (h : ∀ member ∈ members, Spelled (written member) (tree member)) :
    Spelled (Written.object (members.map fun member => (name member, written member)))
      (.object (members.map fun member =>
        ((name member).toList.map Piece.ofChar, tree member))) := by
  choose! tokens spelled yielded using h
  have named (member : α) (hm : member ∈ members) :
      Token.Spelled ((Written.text (name member)).toList ++ ':' :: (written member).toList)
        (.text ((name member).toList.map Piece.ofChar) :: .colon :: tokens member) := by
    have value := (spelled member hm).mark (show Token.mark? ':' = some .colon from rfl)
    refine (Token.spelled_text (name member)).append value fun c hc => ?_
    obtain rfl := Option.some.inj hc
    rfl
  have list := Token.Spelled.list (show Token.mark? '\x7d' = some .closeBrace from rfl) named
  refine ⟨_, ?_, Yielded.object yielded⟩
  have all := list.mark (show Token.mark? '\x7b' = some .openBrace from rfl)
  simpa [Written.object, String.toList_intercalate, Function.comp_def] using all

/-- A single thing under a name. -/
theorem single {name value : String} {tree : Tree} (h : Spelled value tree) :
    Spelled (Written.object [(name, value)]) (.object [(name.toList.map Piece.ofChar, tree)]) := by
  have members : ∀ member ∈ [(name, value, tree)], Spelled member.2.1 member.2.2 := by
    simpa using h
  have all : Spelled
      (Written.object ([(name, value, tree)].map fun member => (member.1, member.2.1)))
      (.object ([(name, value, tree)].map fun member =>
        (member.1.toList.map Piece.ofChar, member.2.2))) := object members
  exact all

end Spelled

end Tree

end Superstep.Json
