import JavaFloor.Collection
import JavaFloor.Feature.Identity
import JavaFloor.Feature.Basic

/-!
# Updating a feature

`Feature.update` opens a feature archive, collects its requirements, resolves them against a table
of Java environments and publishes the outcome to the feature: its name, if it had none, the lowest
version that satisfies all sources, and the filters that narrowed the table. A failure leaves the
feature as it was.
-/

namespace JavaFloor

/-- Why a feature could not be updated. -/
inductive UpdateError
  | collection (error : CollectionError)
  /-- A requirement in the archive at `path` cannot be read. -/
  | malformed (path : Bytes) (error : MalformedRequirement)
  /-- No environment satisfies the feature called `name`. -/
  | conflict (name trail : Bytes)
  deriving DecidableEq

namespace UpdateError

/-- The text shown to the user. -/
def message : UpdateError → Bytes
  | collection error => error.message
  | malformed path error => path ++ ascii ": " ++ error.message
  | conflict name trail =>
    ascii "ESA " ++ name ++
      ascii " is invalid as no Java execution environment matches all the bundle requirements: " ++
      trail

/-- Archive failures keep their category. -/
def category : UpdateError → Category
  | collection error => error.category
  | malformed _ _ => .malformedRequirement
  | conflict _ _ => .resolutionConflict

end UpdateError

namespace Feature

/-- The requirements of the feature archive at a path. -/
def collectAt (lib : Library) (options : ExtractionOptions) (path : Bytes) (scratch : Scratch) :
    Except CollectionError Collected × Scratch :=
  match Walk.closed.openPath lib path with
  | (.error e, _) => (.error (.archive e), scratch)
  | (.ok (), w) =>
    match Collection.collect lib options w .nothing scratch with
    | (.error e, _, scratch) => (.error e, scratch)
    | (.ok (), c, scratch) => (.ok c, scratch)

/-- The name that a feature has after it was updated: its own, if it has one, or else the display
name of the archive at `path`. -/
def nameAfter (f : Feature) (path : Bytes) (subsystem : Option Manifest) : Bytes :=
  if f.name = [] then
    (Identity.ofManifest subsystem (Bytes.afterLast Ascii.slash path)).displayName
  else f.name

/-- The feature with the outcome of a resolution that is no conflict. -/
def publish (name : Bytes) (r : Resolution) : Feature :=
  { name
    java := some
      { minimum := r.minimumVersion
        maximum := none
        directives := if r.directives.isEmpty then none else some r.directives } }

/-- The feature that results from resolving what was collected. -/
def resolved (table : List Environment) (path : Bytes) (f : Feature) (c : Collected) :
    Except UpdateError Feature :=
  match Resolution.resolve table c.requirements with
  | .error e => .error (.malformed path e)
  | .ok r =>
    let name := f.nameAfter path c.subsystem
    if r.isConflict then .error (.conflict name r.trail) else .ok (publish name r)

/-- Updates a feature from the feature archive at a path. -/
def update (lib : Library) (options : ExtractionOptions) (table : List Environment) (path : Bytes)
    (f : Feature) (scratch : Scratch) : Except UpdateError Unit × Feature × Scratch :=
  match collectAt lib options path scratch with
  | (.error e, scratch) => (.error (.collection e), f, scratch)
  | (.ok c, scratch) =>
    match resolved table path f c with
    | .error e => (.error e, f, scratch)
    | .ok f => (.ok (), f, scratch)

end Feature

end JavaFloor
