import JavaFloor.Archive.Walk
import JavaFloor.Extraction
import JavaFloor.Resolution

/-!
# Collecting requirements

`Collection.collect` walks over a feature archive and gathers the requirement headers of its
components, in the order of the archive, and of its subsystem manifest, which comes last wherever it
stands. The first failure ends the walk, and then what the caller had stays.
-/

namespace JavaFloor

/-- What a feature archive holds: the requirement headers, the subsystem manifest, and the number of
its components. -/
structure Collected where
  requirements : List SourceRequirement
  subsystem : Option Manifest
  components : Nat
  deriving DecidableEq

/-- Nothing collected. -/
def Collected.nothing : Collected := ⟨[], none, 0⟩

/-- Why the requirements of an archive could not be collected. -/
inductive CollectionError
  | archive (error : ArchiveError)
  /-- The manifest of an entry of the archive at `path` cannot be extracted. -/
  | extraction (error : ExtractionError) (path : Bytes)
  deriving DecidableEq

namespace CollectionError

/-- The text shown to the user. -/
def message : CollectionError → Bytes
  | archive error => error.message
  | extraction error path => error.message ++ ascii " (archive " ++ path ++ ascii ")"

/-- That of the failure behind it. -/
def category : CollectionError → Category
  | archive error => error.category
  | extraction error _ => error.category

end CollectionError

namespace Collection

/-- The header with the requirements of a source. -/
def requirementHeader : Bytes := ascii "Require-Capability"

/-- The requirement of a source, if its manifest has the header. -/
def requirement? (source : Bytes) (m : Manifest) : Option SourceRequirement :=
  (m.find? requirementHeader).map (⟨source, ·⟩)

/-- What is gathered on the way: the requirements of the components, the last one first, the
subsystem manifest, and the number of components. -/
structure Gathered where
  requirements : List SourceRequirement
  subsystem : Option Manifest
  components : Nat

namespace Gathered

/-- Nothing yet. -/
def nothing : Gathered := ⟨[], none, 0⟩

/-- With a further component. -/
def addComponent (g : Gathered) (source : Bytes) (m : Manifest) : Gathered :=
  { g with
    requirements := (requirement? source m).toList ++ g.requirements
    components := g.components + 1 }

/-- With the subsystem manifest. -/
def addSubsystem (g : Gathered) (m : Manifest) : Gathered := { g with subsystem := some m }

/-- What is collected in the end. -/
def collected (g : Gathered) : Collected :=
  { requirements :=
      g.requirements.reverse ++
        (g.subsystem.bind (requirement? EntryPath.subsystemManifest)).toList
    subsystem := g.subsystem
    components := g.components }

end Gathered

/-- Gathers the manifest of an entry from what its content is a stream of. -/
def extract (lib : Library) (options : ExtractionOptions) (g : Gathered) (e : FeatureEntry)
    (content : Stream) (scratch : Scratch) : Except ExtractionError Gathered × Scratch :=
  match e.kind with
  | .component =>
    match Extraction.component lib options e.path content .empty scratch with
    | (.error error, _, scratch) => (.error error, scratch)
    | (.ok (), m, scratch) => (.ok (g.addComponent e.path m), scratch)
  | .subsystemManifest =>
    match Extraction.subsystem options EntryPath.subsystemManifest content .empty with
    | (.error error, _) => (.error error, scratch)
    | (.ok (), m) => (.ok (g.addSubsystem m), scratch)

/-- Goes on collecting from where a walk stands. -/
def collectFrom (lib : Library) (options : ExtractionOptions) (g : Gathered) (w : Walk)
    (scratch : Scratch) : Except CollectionError Collected × Scratch :=
  match _h : w.next lib with
  | (.error e, _) => (.error (.archive e), scratch)
  | (.ok none, _) => (.ok g.collected, scratch)
  | (.ok (some e), w') =>
    match extract lib options g e w'.stream scratch with
    | (.error error, scratch) => (.error (.extraction error w.path), scratch)
    | (.ok g, scratch) => collectFrom lib options g w'.finish scratch
termination_by w.remaining
decreasing_by
  rw [Walk.remaining_finish]
  exact Walk.remaining_of_next _h

/-- Collects the requirements of the archive that a walk has opened into the place of `out`. -/
def collect (lib : Library) (options : ExtractionOptions) (w : Walk) (out : Collected)
    (scratch : Scratch) : Except CollectionError Unit × Collected × Scratch :=
  match collectFrom lib options .nothing w scratch with
  | (.error e, scratch) => (.error e, out, scratch)
  | (.ok c, scratch) => (.ok (), c, scratch)

end Collection

end JavaFloor
