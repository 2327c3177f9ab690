import JavaFloor.Bytes

/-!
# Categories of failure

Every failure belongs to one of five categories, which reports name and numbers. A missing manifest
counts as a failure to read an archive.
-/

namespace JavaFloor

/-- What kind of failure an outcome is; `none` for a success. -/
inductive Category
  | none
  | archiveIo
  | missingManifest
  | malformedRequirement
  | resolutionConflict
  | config
  deriving DecidableEq

namespace Category

/-- The category with the given number, the success being number 0. -/
def ofCode? : Int → Option Category
  | 0 => some none
  | 1 => some archiveIo
  | 2 => some missingManifest
  | 3 => some malformedRequirement
  | 4 => some resolutionConflict
  | 5 => some config
  | _ => Option.none

/-- The name of a category. -/
def name : Category → Bytes
  | none => ascii "none"
  | archiveIo => ascii "archive-io"
  | missingManifest => ascii "missing-manifest"
  | malformedRequirement => ascii "malformed-requirement"
  | resolutionConflict => ascii "resolution-conflict"
  | config => ascii "config"

/-- The name of a category that may be none of the five. -/
def nameOf : Option Category → Bytes
  | some c => c.name
  | Option.none => ascii "unknown"

/-- An archive or a manifest in it could not be read. -/
def isArchiveIo (c : Category) : Bool := c == archiveIo || c == missingManifest

end Category

end JavaFloor
