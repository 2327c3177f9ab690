import JavaFloor.Archive.Path
import JavaFloor.Stream

/-!
# Archives

An archive is a sequence of entries, read from front to back. Each entry tells how reading it goes:
the status of its header, its bytes and how they come, and whether they can be skipped.

* `Archive` is what a byte string is as an archive; it may not open at all.
* `Library` says which archive a byte string is, which bytes are at a path, and what reading beyond
  the end of an archive gives. Everything above it holds for every library.
-/

namespace JavaFloor

/-- How reading the header of an entry goes. After `fatal` no header can be read any more. -/
inductive HeaderStatus
  | ok
  | warn
  | retry
  | failed
  | fatal
  deriving DecidableEq

/-- What an entry is. -/
inductive EntryType
  | file
  | directory
  | link
  deriving DecidableEq

/-- An entry of an archive. -/
structure Entry where
  /-- The name as it is written, if there is one. -/
  name : Option Bytes
  type : EntryType
  /-- The size that the header declares, if it does. -/
  size : Option Int
  content : Bytes
  /-- How the first readings of the content go. -/
  turns : List Turn
  status : HeaderStatus
  /-- What is said of the header's status. -/
  message : Option Bytes
  /-- The offset from which on the content cannot be read, and what is said of it. -/
  readFault : Option (Nat × Option Bytes)
  /-- Present if the content cannot be skipped, with what is said of it. -/
  skipFault : Option (Option Bytes)
  deriving DecidableEq

namespace Entry

/-- The normalized name. An entry without name has the empty one. -/
def path (e : Entry) : Bytes := EntryPath.normalize (e.name.getD [])

/-- The content as a stream. -/
def stream (e : Entry) : Stream := .ofContent e.content e.turns e.readFault

/-- The header could be read, perhaps with a warning. -/
def isReadable (e : Entry) : Bool := e.status == .ok || e.status == .warn

end Entry

/-- What opening a byte string as an archive gives. -/
inductive Archive
  /-- There is no handle to open it with. -/
  | noHandle
  | unreadable (reason : Option Bytes)
  | entries (es : List Entry)
  deriving DecidableEq

namespace Archive

/-- What a byte string that is no archive opens as: opening it raises no complaint, but no header
can be read. -/
def unrecognized : Archive :=
  .entries [
    { name := none
      type := .file
      size := none
      content := []
      turns := []
      status := .fatal
      message := some (ascii "Unrecognized archive format")
      readFault := none
      skipFault := none }]

end Archive

/-- What is said of a failure for which no reason is given. -/
def reasonText (reason : Option Bytes) : Bytes := reason.getD (ascii "unknown")

/-- What is said where there is no handle to open an archive with. -/
def noHandleText : Bytes := ascii "archive_read_new failed"

/-- What there is to open, and what the library does with it: the archives that byte strings are,
the byte strings at paths, and what is beyond these two. -/
structure Library where
  decode : Bytes → Archive
  contents : Bytes → Option Bytes
  /-- What a path opens as at which there is no file. -/
  missing : Bytes → Archive
  /-- What is said of a header that is read after the end was told, if that fails. Otherwise the end
  is told again. -/
  pastEnd : Option (Option Bytes)

namespace Library

/-- What a path at which there is no file opens as, for those who want no other answer. -/
def failedToOpen (path : Bytes) : Archive :=
  .unreadable (some (ascii "Failed to open '" ++ path ++ ascii "'"))

/-- The library that knows these byte strings as archives, and these paths. The first entry of a key
counts. It tells the end of an archive again and again. -/
def ofTables (archives : List (Bytes × Archive)) (files : List (Bytes × Bytes)) : Library :=
  { decode := fun bytes => (archives.lookup bytes).getD .unrecognized
    contents := fun path => files.lookup path
    missing := failedToOpen
    pastEnd := none }

/-- Opens the archive at a path. A NUL ends the path. -/
def openPath (lib : Library) (path : Bytes) : Archive :=
  let path := Bytes.untilNul path
  match lib.contents path with
  | some bytes => lib.decode bytes
  | none => lib.missing path

end Library

end JavaFloor
