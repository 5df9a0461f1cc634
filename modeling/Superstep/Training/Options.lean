import Superstep.Decimal.Numeral
import Superstep.Text.Blank
import Superstep.Training.Error

/-!
# Job options

The options of a job are texts under names. A name set twice has the value it was set to last.
Values are looked up without the blanks around them, and are read as what they are asked for: a
missing option has a default, one that cannot be read is an error that shows its text.
-/

namespace Superstep

/-- Texts under names, the latest first. -/
structure Options where
  entries : List (String × String) := []
  deriving Repr

namespace Options

/-- Sets an option. -/
def set (options : Options) (key value : String) : Options := ⟨(key, value) :: options.entries⟩

/-- Sets options one after the other, starting from none. -/
def ofList (pairs : List (String × String)) : Options :=
  pairs.foldl (fun options pair => options.set pair.1 pair.2) {}

/-- The text of an option, without the blanks around it. -/
def get? (options : Options) (key : String) : Option String :=
  (options.entries.lookup key).map fun value => String.ofList (Text.trim value.toList)

/-- An option read in some way, or its default if it is missing. -/
def getWith {α F : Type} (options : Options) (key : String) (fallback : α)
    (read? : List Char → Option α) : Except (ConfigError F) α :=
  match options.get? key with
  | none => .ok fallback
  | some text =>
    match read? text.toList with
    | some value => .ok value
    | none => .error (.invalidValue key text)

/-- An option that is an integer of 64 bits. -/
def getInt {F : Type} (options : Options) (key : String) (fallback : Int) :
    Except (ConfigError F) Int :=
  options.getWith key fallback readInt64?

/-- An option that is a double precision number. -/
def getFloat {F : Type} (options : Options) (key : String) (fallback : Float) :
    Except (ConfigError F) Float :=
  options.getWith key fallback fun text => (readFloat text).toOption

@[simp] theorem get?_set_self (options : Options) (key value : String) :
    (options.set key value).get? key = some (String.ofList (Text.trim value.toList)) := by
  simp [set, get?]

@[simp] theorem get?_set_of_ne (options : Options) {key other : String} (h : other ≠ key)
    (value : String) : (options.set key value).get? other = options.get? other := by
  simp [set, get?, List.lookup_cons, beq_eq_false_iff_ne.mpr h]

end Options

end Superstep
