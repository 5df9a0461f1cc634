import Superstep.Job.Path

/-!
# Files

A launcher needs two things of whatever holds the files: the text of a file, and to write a text
into a file, in place of what it may hold. `Files` is this pair of operations. Either can fail, and
why it failed is of no interest.

`FileTree` holds files without any device: texts at their places below a working directory.
A directory exists if it is the working directory or on the way to a file. What lies outside of the
working directory does not exist. Names and paths have a greatest length, and a path that is longer
leads nowhere, however much of it means nothing.
-/

namespace Superstep

/-- Access to files by their paths. -/
structure Files (m : Type → Type) where
  /-- The text of a file. -/
  read? : String → m (Option String)
  /-- Writes a text into a file; tells whether that was possible. -/
  write : String → String → m Bool

/-- Texts at their places below the working directory. -/
structure FileTree where
  entries : List (List String × String) := []
  deriving Repr

namespace FileTree

/-- The text at a place. -/
def get? (tree : FileTree) (place : List String) : Option String := tree.entries.lookup place

/-- Puts a text at a place. -/
def put (tree : FileTree) (place : List String) (text : String) : FileTree :=
  ⟨(place, text) :: tree.entries.filter (·.1 ≠ place)⟩

/-- Whether there is a directory at a place. -/
def isDirectory (tree : FileTree) (place : List String) : Bool :=
  place.isEmpty || tree.entries.any fun entry => place.isPrefixOf entry.1 && place != entry.1

/-- The directory that is reached from a place by these parts of a path. -/
def walk? (tree : FileTree) (here : List String) : List String → Option (List String)
  | [] => some here
  | part :: rest =>
    if part = "" ∨ part = "." then tree.walk? here rest
    else if part = ".." then if here.isEmpty then none else tree.walk? here.dropLast rest
    else if tree.isDirectory (here ++ [part]) then tree.walk? (here ++ [part]) rest
    else none

/-- How many bytes the name of a file can have. -/
def nameLimit : Nat := 255

/-- How many bytes a path can have. -/
def pathLimit : Nat := 4095

/-- Whether a part of a path can be the name of a file. -/
def isName (part : String) : Bool :=
  !(part == "" || part == "." || part == "..") && decide (part.utf8ByteSize ≤ nameLimit)
    && !part.toList.contains '\x00'

/-- The place of the file a path leads to, whether there is one or not. -/
def place? (tree : FileTree) (path : String) : Option (List String) := do
  let parts := Path.parts path
  let name ← parts.getLast?
  let directory ← tree.walk? [] parts.dropLast
  if pathLimit < path.utf8ByteSize || Path.isAbsolute path || !isName name
      || tree.isDirectory (directory ++ [name]) then none
  else some (directory ++ [name])

/-- The text of the file a path leads to. -/
def read? (tree : FileTree) (path : String) : Option String := tree.place? path >>= tree.get?

/-- Writes a text into the file a path leads to. -/
def write? (tree : FileTree) (path text : String) : Option FileTree :=
  (tree.place? path).map fun place => tree.put place text

/-- The files in these texts under their paths. -/
def ofList (files : List (String × String)) : FileTree :=
  ⟨files.map fun file => (Path.parts file.1, file.2)⟩

/-- Access to a tree of files that is carried along. -/
def files : Files (StateM FileTree) where
  read? path := return (← get).read? path
  write path text := do
    match (← get).write? path text with
    | some tree =>
      set tree
      return true
    | none => return false

end FileTree

end Superstep
