import JavaFloor.Category
import JavaFloor.Scratch.Device
import JavaFloor.Scratch.Tree
import JavaFloor.Stream

/-!
# Temporary files

A scratch space holds the temporary files that exist. A temporary file object owns at most one of
them and can write to it until it is closed; releasing the object removes its file.

* `Scratch.newPath` finds a path that leads to a place where there is nothing yet.
* `TempFile.create` makes a file at such a path.
* `TempFile.write` and `TempFile.copyFrom` append to the file of an object, as far as its device
  takes the bytes.
* `TempFile.release` removes the file.
-/

namespace JavaFloor

/-- A tree, the device that its files are on, and the temporary files in it with their contents.
Each of them is known by the path under which it was made. -/
structure Scratch where
  tree : Tree
  device : Device
  files : List (Bytes × Bytes)

/-- An object that owns the file at `path`, if there is one, and may write to it. -/
structure TempFile where
  path : Option Bytes
  writable : Bool
  deriving DecidableEq

/-- Why an operation on a temporary file failed. -/
inductive TempFileError
  | cannotCreate (directory : Bytes) (fault : PathFault)
  | notOpen
  /-- The stream that is copied to the file at `path` failed. -/
  | readFailed (path : Bytes)
  | tooLong (limit : UInt64)
  /-- The file at `path` did not take all that was written to it. -/
  | writeFailed (path reason : Bytes)
  | closeFailed (path : Bytes)
  deriving DecidableEq

namespace TempFileError

/-- The text shown to the user. -/
def message : TempFileError → Bytes
  | cannotCreate directory fault =>
    ascii "mkstemp failed in " ++ directory ++ ascii " (" ++ fault.message ++ ascii ")"
  | notOpen => ascii "temp file not open"
  | readFailed path => ascii "read failed while copying to " ++ path
  | tooLong limit => (StreamError.tooLong limit).message
  | writeFailed path reason =>
    ascii "write to " ++ path ++ ascii " failed (" ++ reason ++ ascii ")"
  | closeFailed path => ascii "close of " ++ path ++ ascii " failed"

/-- All of them are failures to read an archive. -/
def category (_ : TempFileError) : Category := .archiveIo

end TempFileError

namespace Scratch

/-- A scratch space without any file, on a device that takes whatever it is given. -/
def ofTree (tree : Tree) : Scratch := ⟨tree, .reliable, []⟩

/-- What the name of a file ends in: a number of six digits, or more if six are not enough. -/
def serial (n : Nat) : Bytes :=
  let digits := Bytes.ofNat n
  List.replicate (6 - digits.length) (Ascii.byte '0') ++ digits

/-- The letters that a serial number is put for. -/
def pattern : Bytes := ascii "XXXXXX"

/-- The directory in which files are made if none is named. -/
def defaultDirectory : Bytes := ascii "/tmp"

/-- What the path of a new file is to start with. -/
def stem (directory name : Bytes) : Bytes :=
  (if directory = [] then defaultDirectory else directory) ++ Ascii.slash :: name

/-- What the path of a new file starts with: all that stands in front of the pattern. A NUL ends the
path, and then the pattern may be gone. -/
def stem? (directory name : Bytes) : Option Bytes :=
  let path := Bytes.untilNul (stem directory name ++ pattern)
  if Bytes.endsWith path pattern then some (path.take (path.length - pattern.length)) else none

/-- Whether there is a file at a path. -/
def exists? (s : Scratch) (path : Bytes) : Bool := s.files.any (·.1 == path)

/-- The content of the file at a path. -/
def contents? (s : Scratch) (path : Bytes) : Option Bytes :=
  (s.files.find? (·.1 == path)).map (·.2)

/-- The places where there is something. -/
def occupied (s : Scratch) : List (Option Place) :=
  (s.tree.directories ++ s.tree.others).map some ++ s.files.map fun f => s.tree.place? f.1

/-- The first path with this start that leads to a place where there is nothing. One number more is
tried than there are occupied places, so that one of them is free. -/
def freePath? (s : Scratch) (stem : Bytes) : Option Bytes :=
  let occupied := s.occupied
  ((List.range (occupied.length + 1)).map fun n => stem ++ serial n).find? fun path =>
    !occupied.contains (s.tree.place? path)

/-- The path of a new file whose name starts with `name`, in a directory. -/
def newPath (s : Scratch) (directory name : Bytes) : Except PathFault Bytes :=
  match stem? directory name with
  | none => .error .noPattern
  | some stem =>
    match s.tree.placeOf (stem ++ pattern) with
    | .error fault => .error fault
    | .ok _ =>
      match s.freePath? stem with
      | some path => .ok path
      | none => .error .taken

/-- The number of files directly below a directory. -/
def count (s : Scratch) (directory : Place) : Nat :=
  (s.files.filter fun f => (s.tree.place? f.1).any (·.dropLast == directory)).length

/-- Adds an empty file at a path. -/
def add (s : Scratch) (path : Bytes) : Scratch := { s with files := s.files ++ [(path, [])] }

/-- Removes the file at a path. -/
def remove (s : Scratch) (path : Bytes) : Scratch :=
  { s with files := s.files.filter (·.1 != path) }

/-- Appends to the file at a path. -/
def append (s : Scratch) (path data : Bytes) : Scratch :=
  { s with files := s.files.map fun f => if f.1 = path then (f.1, f.2 ++ data) else f }

theorem append_nil (s : Scratch) (path : Bytes) : s.append path [] = s := by
  simp [append]

theorem append_append (s : Scratch) (path a b : Bytes) :
    (s.append path a).append path b = s.append path (a ++ b) := by
  have heach : ∀ f : Bytes × Bytes,
      (if (if f.1 = path then (f.1, f.2 ++ a) else f).1 = path then
        ((if f.1 = path then (f.1, f.2 ++ a) else f).1,
          (if f.1 = path then (f.1, f.2 ++ a) else f).2 ++ b)
      else if f.1 = path then (f.1, f.2 ++ a) else f) =
        if f.1 = path then (f.1, f.2 ++ (a ++ b)) else f := by
    intro f
    by_cases hf : f.1 = path <;> simp [hf]
  simp only [append, List.map_map]
  congr 1
  exact List.map_congr_left fun f _ => heach f

/-- What is appended to a file stands behind what it held before. -/
theorem contents?_append (s : Scratch) (path data : Bytes) :
    (s.append path data).contents? path = (s.contents? path).map (· ++ data) := by
  have hkeys : ((·.1 == path) : Bytes × Bytes → Bool) ∘
      (fun f => if f.1 = path then (f.1, f.2 ++ data) else f) = (·.1 == path) := by
    funext f
    by_cases hf : f.1 = path <;> simp [hf]
  rw [contents?, contents?, append, List.find?_map, hkeys]
  cases hfound : s.files.find? (·.1 == path) with
  | none => rfl
  | some f =>
    have hf : f.1 = path := by simpa using List.find?_some hfound
    simp [hf]

end Scratch

namespace TempFile

/-- An object that owns no file. -/
def none : TempFile := ⟨Option.none, false⟩

/-- Removes the file of an object. -/
def release (t : TempFile) (s : Scratch) : Scratch :=
  match t.path with
  | some path => s.remove path
  | Option.none => s

/-- Makes a new file, whose name starts with `name`, in a directory. The object that `t` was gives
up its file, but only if the new one could be made. -/
def create (directory name : Bytes) (t : TempFile) (s : Scratch) :
    Except TempFileError Unit × TempFile × Scratch :=
  match s.newPath directory name with
  | .ok path => (.ok (), ⟨some path, true⟩, t.release (s.add path))
  | .error fault => (.error (.cannotCreate directory fault), t, s)

/-- Appends to the file of an object. -/
def append (t : TempFile) (data : Bytes) (s : Scratch) : Scratch :=
  match t.path with
  | some path => s.append path data
  | Option.none => s

theorem append_nil (t : TempFile) (s : Scratch) : t.append [] s = s := by
  rw [append]
  cases t.path with
  | none => rfl
  | some path => exact Scratch.append_nil s path

theorem append_append (t : TempFile) (a b : Bytes) (s : Scratch) :
    t.append b (t.append a s) = t.append (a ++ b) s := by
  simp only [append]
  cases t.path with
  | none => rfl
  | some path => exact Scratch.append_append s path a b

/-- The size of the file of an object. -/
def size (t : TempFile) (s : Scratch) : Nat := ((t.path.bind s.contents?).getD []).length

/-- Appends to the file of an object that is open. What was taken before a write failed stays
there. -/
def write (t : TempFile) (data : Bytes) (s : Scratch) : Except TempFileError Unit × Scratch :=
  if t.writable then
    let (written, fault) := s.device.writeOn (t.size s) [] data
    let outcome : Except TempFileError Unit :=
      match fault with
      | some reason => .error (.writeFailed (t.path.getD []) reason)
      | Option.none => .ok ()
    (outcome, t.append written.reverse s)
  else (.error .notOpen, s)

/-- How a copy went: the bytes written, the bytes read as far as they were counted, and the error
that ended it, if one did. -/
structure Copy where
  written : Bytes
  copied : UInt64
  error : Option TempFileError
  deriving DecidableEq

/-- Goes on copying behind the bytes `front`, given the last one first, to a file that has the given
size. Each piece is counted, then held against the limit, then written. -/
def copyOn (t : TempFile) (device : Device) (limit : UInt64) (size : Nat) (copied : UInt64)
    (front : Bytes) (source : Stream) : Copy :=
  match _h : source.read Stream.blockSize with
  | .failed _ _ => ⟨front.reverse, copied, some (.readFailed (t.path.getD []))⟩
  | .ended => ⟨front.reverse, copied, Option.none⟩
  | .piece bytes rest =>
    let copied := copied + UInt64.ofNat bytes.length
    if limit < copied then ⟨front.reverse, copied, some (.tooLong limit)⟩
    else if t.writable then
      match device.writeOn size front bytes with
      | (front, some reason) =>
        ⟨front.reverse, copied, some (.writeFailed (t.path.getD []) reason)⟩
      | (front, Option.none) =>
        copyOn t device limit (size + bytes.length) copied front rest
    else ⟨front.reverse, copied, some .notOpen⟩
termination_by source.pending.length
decreasing_by exact Stream.length_of_read _h

/-- Copies a stream to the file of an object until it ends, fails or exceeds a limit, or the file
takes no more. -/
def copyFrom (t : TempFile) (limit : UInt64) (source : Stream) (s : Scratch) : Copy × Scratch :=
  let copy := t.copyOn s.device limit (t.size s) 0 [] source
  (copy, t.append copy.written s)

/-- Closes the file of an object, if it is open; the file stays. The object is closed even if the
system fails to. -/
def close (t : TempFile) (s : Scratch) : Except TempFileError Unit × TempFile :=
  if t.writable then
    let outcome : Except TempFileError Unit :=
      if s.device.close (t.size s) then .ok () else .error (.closeFailed (t.path.getD []))
    (outcome, { t with writable := false })
  else (.ok (), t)

end TempFile

end JavaFloor
