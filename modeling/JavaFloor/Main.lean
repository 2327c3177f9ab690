import JavaFloor.Batch
import JavaFloor.Json.Writer
import JavaFloor.Zip.Basic

/-!
# The program

Calls `Batch.run` on the zip files and the settings file that the command line names, and prints
what it writes.
-/

namespace JavaFloor

namespace Program

/-- The name under which the program shows its usage. -/
def name : Bytes := ascii "java-floor"

/-- The text of a path. Its bytes came from a text in the first place. -/
def ofPath (path : Bytes) : String := (String.fromUTF8? ⟨path.toArray⟩).getD ""

/-- The content of the file at a path, if it can be read. -/
def contents? (path : Bytes) : IO (Option Bytes) := do
  try
    return some (← IO.FS.readBinFile (ofPath path)).toList
  catch _ => return none

/-- The paths among the given ones at which there is a file, with their contents. -/
def readAll (paths : List Bytes) : IO (List (Bytes × Bytes)) :=
  paths.filterMapM fun path => do return (← contents? path).map (path, ·)

/-- Whether a path leads to something that can be read. -/
def leads (path : Bytes) : IO Bool := do
  try
    discard <| IO.FS.Handle.mk (ofPath path) .read
    return true
  catch _ => return false

/-- What of a tree lies on the way that names lead. The names before them led from the directory
`front` to `place`. -/
def explore (tree : Tree) (front : Bytes) (place : Place) : List Bytes → IO Tree
  | [] => return tree
  | name :: names => do
    let path := front ++ name
    let behind := path ++ [Ascii.slash]
    if name = [] ∨ name = ascii "." then explore tree behind place names
    else if name = ascii ".." then explore tree behind place.dropLast names
    else
      let place := place ++ [name]
      if ← leads (behind ++ ascii ".") then
        explore { tree with directories := place :: tree.directories } behind place names
      else if ← leads path then return { tree with others := place :: tree.others }
      else return tree

/-- The files that a command line names: the settings file and the feature archives. -/
def named (arguments : List Bytes) : List Bytes :=
  match Arguments.parse arguments with
  | .ok a => a.config.toList ++ a.operands.filter isFeatureArchivePath
  | .error _ => []

/-- The directory in which the settings want temporary files. -/
def directory (files : List (Bytes × Bytes)) (arguments : List Bytes) : Bytes :=
  match Arguments.parse arguments with
  | .ok a =>
    match Batch.settings .standard (List.lookup · files) a.config with
    | .ok s => s.extractionOptions.directory
    | .error _ => Scratch.defaultDirectory
  | .error _ => Scratch.defaultDirectory

end Program

end JavaFloor

open JavaFloor in
/-- Runs the program on its arguments. -/
def main (args : List String) : IO UInt32 := do
  let arguments := args.map fun a => a.toUTF8.toList
  let files ← Program.readAll (Program.named arguments)
  let names := Bytes.splitOn Ascii.slash (Scratch.stem (Program.directory files arguments) [])
  let scratch := Scratch.ofTree (← Program.explore ⟨[], [], []⟩ [] [] names)
  let library : Library := { Library.ofTables [] files with decode := Zip.decode }
  let outcome :=
    Batch.run library .standard (List.lookup · files) Program.name arguments .info scratch
  let stdout ← IO.getStdout
  let stderr ← IO.getStderr
  for line in outcome.lines do
    stdout.write ⟨(line ++ [Ascii.lineFeed]).toArray⟩
  stderr.write ⟨outcome.errors.toArray⟩
  return UInt32.ofNat outcome.exitCode
