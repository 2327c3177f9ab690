import JavaFloor.Bytes

/-!
# Directory trees

A tree tells where directories are and where something else is. A path is followed through it name
by name: an empty name and `.` stay in a directory, `..` goes up, and any other name goes down to a
directory of that name.

* `Tree.enter` follows one name, `Tree.walk` several.
* `Tree.placeOf` finds the place to which the path of a file leads, whether there is a file or not.
-/

namespace JavaFloor

/-- The names that lead from the root to a place. -/
abbrev Place := List Bytes

/-- Where there are directories, the root apart, and where there is something else. -/
structure Tree where
  /-- The directory that paths without a slash in front start from. -/
  working : Place
  directories : List Place
  others : List Place
  deriving DecidableEq

/-- Why no file can be made at a path. -/
inductive PathFault
  /-- The path does not end in the letters that a new name is put for. -/
  | noPattern
  | missing
  /-- A name on the way belongs to something other than a directory. -/
  | notADirectory
  /-- The path, or a name in it, is too long. -/
  | tooLong
  | taken
  deriving DecidableEq

namespace PathFault

/-- The text shown to the user. -/
def message : PathFault → Bytes
  | noPattern => ascii "Invalid argument"
  | missing => ascii "No such file or directory"
  | notADirectory => ascii "Not a directory"
  | tooLong => ascii "File name too long"
  | taken => ascii "File exists"

end PathFault

namespace Tree

/-- The most bytes in a name. -/
def maxNameLength : Nat := 255

/-- The most bytes in a path. -/
def maxPathLength : Nat := 4095

/-- Goes from a directory to the one that a name leads to. -/
def enter (t : Tree) (place : Place) (name : Bytes) : Except PathFault Place :=
  if name = [] ∨ name = ascii "." then .ok place
  else if name = ascii ".." then .ok place.dropLast
  else if maxNameLength < name.length then .error .tooLong
  else if place ++ [name] ∈ t.directories then .ok (place ++ [name])
  else if place ++ [name] ∈ t.others then .error .notADirectory
  else .error .missing

/-- Follows names from a directory on. -/
def walk (t : Tree) (place : Place) : List Bytes → Except PathFault Place
  | [] => .ok place
  | name :: names =>
    match t.enter place name with
    | .ok place => t.walk place names
    | .error fault => .error fault

/-- The directory that a path starts from. -/
def start (t : Tree) (path : Bytes) : Place :=
  if path.head? = some Ascii.slash then [] else t.working

/-- The place that the path of a file leads to. All its names but the last one lead through
directories. -/
def placeOf (t : Tree) (path : Bytes) : Except PathFault Place :=
  if maxPathLength < path.length then .error .tooLong
  else
    let names := Bytes.splitOn Ascii.slash path
    match t.walk (t.start path) names.dropLast with
    | .error fault => .error fault
    | .ok directory =>
      let name := names.getLastD []
      if maxNameLength < name.length then .error .tooLong else .ok (directory ++ [name])

/-- The place that the path of a file leads to, if it leads anywhere. -/
def place? (t : Tree) (path : Bytes) : Option Place := (t.placeOf path).toOption

end Tree

end JavaFloor
