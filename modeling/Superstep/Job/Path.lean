import Superstep.Text.Pieces

/-!
# Paths

A path is a text in which slashes divide the names of directories and, at its end, of a file. It is
*absolute* if it starts with a slash. Empty parts and parts that are a single point mean nothing,
except that a leading point is kept where a path is shown.

A job names its files relative to the directory that holds the job's own file: `Path.parent?` of the
one joined with the other (`Path.join`).
-/

namespace Superstep.Path

/-- The parts of a path. -/
def parts (path : String) : List String :=
  (Text.pieces '/' path.toList).map String.ofList

/-- Whether a path starts at the root of all directories. -/
def isAbsolute (path : String) : Bool := path.toList.head? == some '/'

/-- Whether a part means nothing. -/
def isIdle (part : List Char) : Bool := part == [] || part == ['.']

/-- The parts without those at the end that mean nothing. -/
def dropIdle (parts : List (List Char)) : List (List Char) :=
  (parts.reverse.dropWhile isIdle).reverse

/-- The start of a path that is kept whatever follows: a slash, or a point that stands for the
current directory. -/
def lead : List Char → List Char
  | '/' :: _ => ['/']
  | ['.'] => ['.']
  | '.' :: '/' :: _ => ['.']
  | _ => []

/-- The directory a path lies in. The empty path and the root lie in none. -/
def parent? (path : String) : Option String :=
  let kept := lead path.toList
  let named := dropIdle (Text.pieces '/' (path.toList.drop kept.length))
  if named.isEmpty then if kept = ['.'] then some "" else none
  else some (String.ofList (kept ++ ['/'].intercalate (dropIdle named.dropLast)))

/-- A path as seen from a directory. -/
def join (directory path : String) : String :=
  if isAbsolute path || directory.isEmpty then path
  else if directory.toList.getLast? = some '/' then directory ++ path
  else directory ++ "/" ++ path

example : parent? "job.json" = some "" := by decide +kernel
example : parent? "./a//b/./c/" = some "./a//b" := by decide +kernel
example : parent? "/c" = some "/" ∧ parent? "/" = none ∧ parent? "" = none := by decide +kernel
example : join "a" "b" = "a/b" ∧ join "" "b" = "b" ∧ join "a" "/b" = "/b" := by decide +kernel

end Superstep.Path
