import Superstep.Job.Records
import Superstep.Proofs.Json.Lines
import Superstep.Proofs.Json.Spelling
import Superstep.Proofs.Number.Written

/-!
# Reading records back

A file of records has a line for every record, in their order
(`Superstep.OutputRecord.lines_write`): what could break a line is escaped when it is written. A
line is read as the record it was written from if all its numbers are finite, and cannot be read at
all if one of them is not (`Superstep.OutputRecord.parseBy?_write`).

This holds for every way to read numbers that gets the numbers of the record right, that is, reads
them rounded to the nearest (`Superstep.Json.ReadsNearest`).
-/

namespace Superstep

open Json

namespace Json

/-- What a number is worth, rounded once to the nearest, unless it is too great. -/
def nearest? : NumberReader := fun literal => (readFloat literal).toOption.filter Float.isFinite

/-- Whether a number is read as well as it can be. -/
def ReadsNearest (read? : NumberReader) (literal : List Char) : Prop :=
  read? literal = nearest? literal

instance (read? : NumberReader) (literal : List Char) : Decidable (ReadsNearest read? literal) :=
  inferInstanceAs (Decidable (_ = _))

/-- **A number that was written is read again.** -/
theorem read?_write {read? : NumberReader} {x : Float} (finite : x.isFinite = true)
    (h : ReadsNearest read? (Layout.record.write x).toList) :
    read? (Layout.record.write x).toList = some x := by
  rw [h, nearest?, Layout.readFloat_write Layout.readable_record finite]
  simp [Except.toOption, finite]

namespace Tree

/-- What a number is written as: nothing, if it is not finite. -/
def ofFloat (x : Float) : Tree :=
  if x.isFinite then .number (Layout.record.write x).toList else .null

theorem spelled_write (x : Float) : Spelled (Layout.record.write x) (ofFloat x) := by
  unfold ofFloat
  split
  · next finite =>
    have spelled := Spelled.number (Layout.isNumber_write Layout.readable_record finite)
    rwa [String.ofList_toList] at spelled
  · next other =>
    rw [Layout.write_of_not_finite (Bool.eq_false_iff.mpr other)]
    exact Spelled.null

variable {read? : NumberReader}

theorem float?_ofFloat {x : Float}
    (h : x.isFinite = true → ReadsNearest read? (Layout.record.write x).toList) :
    (ofFloat x).float? read? = if x.isFinite then some x else none := by
  unfold ofFloat
  split
  · next finite => exact read?_write finite (h finite)
  · rfl

/-- A list of numbers is read if all of them are finite. -/
theorem list?_ofFloat {values : List Float}
    (h : ∀ x ∈ values, x.isFinite = true → ReadsNearest read? (Layout.record.write x).toList) :
    (Tree.array (values.map ofFloat)).list? (float? read?) =
      if values.all Float.isFinite then some values else none := by
  rw [list?]
  induction values with
  | nil => rfl
  | cons x rest ih =>
    rw [List.map_cons, List.mapM_cons, float?_ofFloat (h x List.mem_cons_self),
      ih fun y hy => h y (.tail _ hy), List.all_cons]
    cases x.isFinite <;> cases rest.all Float.isFinite <;> rfl

theorem text?_map_ofChar (value : String) :
    (Tree.text (value.toList.map Piece.ofChar)).text? = some value := by
  rw [text?, Piece.decode?_map_ofChar, Option.map_some, String.ofList_toList]

theorem natural?_toDigits {n : ℕ} (small : n < wordLimit) :
    (Tree.number (Nat.toDigits 10 n)).natural? = some n := by
  have digits : (Nat.toDigits 10 n).all Char.isDigit = true :=
    List.all_eq_true.mpr fun c hc => isDigit_of_mem_toDigits hc
  rw [natural?, digitsValue_toDigits, if_pos ⟨digits, small⟩]

/-- The names of an object that was written are found again. -/
theorem members?_map_ofChar (members : List (String × Tree)) :
    members? (.object (members.map fun member => (member.1.toList.map Piece.ofChar, member.2))) =
      some members := by
  rw [members?]
  induction members with
  | nil => rfl
  | cons member rest ih =>
    rw [List.map_cons, List.mapM_cons, ih, Piece.decode?_map_ofChar]
    simp

end Tree

end Json

namespace OutputRecord

open Layout

/-- The numbers of a record. -/
def numbers (entry : OutputRecord Float) : List Float := entry.theta ++ [entry.cost]

/-- The fields of a record, what they are written as and what that spells. -/
def fields (entry : OutputRecord Float) : List (String × String × Tree) :=
  [("writer", Written.text entry.writer, .text (entry.writer.toList.map Piece.ofChar)),
    ("superstep", toString entry.superstep, .number (Nat.toDigits 10 entry.superstep)),
    ("theta", Written.array (entry.theta.map record.write),
      .array (entry.theta.map Tree.ofFloat)),
    ("cost", record.write entry.cost, .ofFloat entry.cost)]

/-- The tree a record is written as. -/
def tree (entry : OutputRecord Float) : Tree :=
  .object (entry.fields.map fun field => (field.1.toList.map Piece.ofChar, field.2.2))

/-- **A record in writing spells its tree.** -/
theorem spelled_write (entry : OutputRecord Float) : Tree.Spelled entry.write entry.tree := by
  have fields : ∀ field ∈ entry.fields, Tree.Spelled field.2.1 field.2.2 := by
    simp only [fields, List.forall_mem_cons, List.not_mem_nil, false_implies, implies_true,
      and_true]
    exact ⟨.text _, .natural _, .array fun x _ => Tree.spelled_write x, Tree.spelled_write _⟩
  have written : entry.write =
      Written.object (entry.fields.map fun field => (field.1, field.2.1)) := by
    simp only [write, fieldNames, OutputRecord.fields, List.zip_cons_cons, List.zip_nil_left,
      List.map_cons, List.map_nil]
  rw [written]
  exact Tree.Spelled.object fields

/-- **Reading a line** gives the record again if all its numbers are finite, and nothing if one of
them is not. -/
theorem parseBy?_write {read? : NumberReader} {entry : OutputRecord Float}
    (bounded : entry.superstep < wordLimit)
    (h : ∀ x ∈ entry.numbers, x.isFinite = true → ReadsNearest read? (record.write x).toList) :
    parseBy? read? entry.write =
      if entry.numbers.all Float.isFinite then some entry else none := by
  obtain ⟨theta, cost⟩ := List.forall_mem_append.mp h
  have selected : (Tree.fields? fieldNames entry.tree) = some
      [some (.text (entry.writer.toList.map Piece.ofChar)),
        some (.number (Nat.toDigits 10 entry.superstep)),
        some (.array (entry.theta.map Tree.ofFloat)), some (.ofFloat entry.cost)] := by
    have members : Tree.members? entry.tree =
        some (entry.fields.map fun field => (field.1, field.2.2)) := by
      rw [tree, ← Tree.members?_map_ofChar, List.map_map]
      rfl
    rw [Tree.fields?]
    · rw [members]
      rfl
    · rintro items ⟨⟩
  have read : parseBy? read? entry.write = ofTree? read? entry.tree := by
    rw [parseBy?, Tree.parse?_of_spelled entry.spelled_write]
    rfl
  rw [read, ofTree?, selected]
  simp only [Option.bind_eq_bind, Option.bind_some, Field.required, Tree.text?_map_ofChar,
    Tree.natural?_toDigits bounded, Tree.list?_ofFloat theta,
    Tree.float?_ofFloat (cost entry.cost List.mem_cons_self), numbers, List.all_append]
  cases entry.theta.all Float.isFinite
  · simp
  · cases hc : entry.cost.isFinite
    · simp [hc]
    · simp [hc]

/-! ### Lines -/

/-- A record in writing is a single line. -/
theorem unbroken_write (entry : OutputRecord Float) : Unbroken entry.write.toList := by
  refine Unbroken.object fun field hf => ?_
  simp only [fieldNames, List.zip_cons_cons, List.zip_nil_left, List.mem_cons, List.not_mem_nil,
    or_false] at hf
  rcases hf with rfl | rfl | rfl | rfl
  · exact Unbroken.text _
  · exact Unbroken.natural _
  · exact Unbroken.array (List.forall_mem_map.mpr fun x _ => .number x)
  · exact Unbroken.number _

/-- **There is a line for every record**, in their order. -/
theorem lines_write (entries : List (OutputRecord Float)) :
    Text.lines (writeLines entries).toList = entries.map fun entry => entry.write.toList := by
  have written : (writeLines entries).toList =
      entries.flatMap fun entry => entry.write.toList ++ ['\n'] := by
    simp [writeLines, String.toList_join, List.flatMap_map]
  rw [written]
  clear written
  induction entries with
  | nil => rfl
  | cons entry rest ih =>
    have unbroken := entry.unbroken_write
    rw [List.flatMap_cons, List.append_assoc, List.singleton_append,
      Text.lines_append_cons unbroken.newline_not_mem, unbroken.dropReturn_eq, ih,
      List.map_cons]

end OutputRecord

end Superstep
