import JavaFloor.Manifest

/-!
# The identity of a feature

A feature is named by the headers of its subsystem manifest: the symbolic name up to its first
semicolon, the version, and a display name.

* `Identity.ofManifest` reads the three off a manifest, which may be missing.
* `isFeatureArchivePath` tells which paths are feature archives.
-/

namespace JavaFloor

/-- How a feature is called. -/
structure Identity where
  symbolicName : Bytes
  version : Bytes
  displayName : Bytes
  deriving DecidableEq

namespace Identity

/-- The value of a header without the whitespace around it, empty if there is none. -/
def header (m : Option Manifest) (name : Bytes) : Bytes :=
  Bytes.trim ((m.bind (·.find? name)).getD [])

/-- The first of the texts that is not empty, or the last one. -/
def firstNonempty : List Bytes → Bytes
  | [] => []
  | [s] => s
  | s :: rest => if s = [] then firstNonempty rest else s

/-- The identity that a manifest gives. The display name is the subsystem's name, its short name,
its symbolic name or `fallback`, whichever comes first. -/
def ofManifest (m : Option Manifest) (fallback : Bytes) : Identity :=
  let symbolicName :=
    Bytes.trim ((header m (ascii "Subsystem-SymbolicName")).takeWhile (· != Ascii.byte ';'))
  { symbolicName
    version := firstNonempty [header m (ascii "Subsystem-Version"), ascii "0.0.0"]
    displayName := firstNonempty
      [header m (ascii "Subsystem-Name"), header m (ascii "IBM-ShortName"), symbolicName,
        fallback] }

end Identity

/-- A path whose last part ends in `.esa` and has something in front of that. -/
def isFeatureArchivePath (path : Bytes) : Bool :=
  let name := Bytes.afterLast Ascii.slash path
  decide (4 < name.length) && Bytes.endsWith name (ascii ".esa")

end JavaFloor
