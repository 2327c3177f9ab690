import JavaFloor.Bytes

/-!
# Paths of archive entries

The same entry can be spelled in several ways. `EntryPath.normalize` takes off any `./` and then
any `/` at the start and makes one slash of several; the entries that count are told by their
normalized paths.

* `EntryPath.isComponent`: a jar at the root.
* `EntryPath.isSubsystemManifest`: `OSGI-INF/SUBSYSTEM.MF` in any case.
* `EntryPath.isJarManifest`: `META-INF/MANIFEST.MF` in any case.
-/

namespace JavaFloor

namespace EntryPath

/-- The subsystem manifest's place in a feature archive. -/
def subsystemManifest : Bytes := ascii "OSGI-INF/SUBSYSTEM.MF"

/-- The manifest's place in a jar. -/
def jarManifest : Bytes := ascii "META-INF/MANIFEST.MF"

/-- The path behind any number of `./`. -/
def dropDots : Bytes → Bytes
  | [] => []
  | [c] => [c]
  | c :: d :: s => if c = Ascii.byte '.' ∧ d = Ascii.slash then dropDots s else c :: d :: s

/-- One slash for several in a row. -/
def collapse : Bytes → Bytes
  | [] => []
  | [c] => [c]
  | c :: d :: s =>
    if c = Ascii.slash ∧ d = Ascii.slash then collapse (d :: s) else c :: collapse (d :: s)

/-- The clean relative form of a path. -/
def normalize (path : Bytes) : Bytes := collapse ((dropDots path).dropWhile (· == Ascii.slash))

/-- A path without slash that ends in `.jar` and has something in front of that. -/
def isComponent (path : Bytes) : Bool :=
  !path.contains Ascii.slash && decide (4 < path.length) && Bytes.endsWith path (ascii ".jar")

/-- The path of the subsystem manifest, in any case. -/
def isSubsystemManifest (path : Bytes) : Bool := Bytes.equalFold path subsystemManifest

/-- The path of a jar's manifest, in any case. -/
def isJarManifest (path : Bytes) : Bool := Bytes.equalFold path jarManifest

end EntryPath

end JavaFloor
