import JavaFloor.Archive.Basic
import JavaFloor.Manifest
import JavaFloor.Scratch.Basic

/-!
# Extracting manifests

The manifest of a component is that of a jar inside the feature archive. The jar's bytes are copied
to a temporary file, or kept in memory, and then opened as an archive of their own. The subsystem
manifest is read straight from its entry. A manifest takes the place of one that the caller has, and
only once it could be read.

* `Extraction.component` reads the manifest of a component. In file mode the temporary file is gone
  afterwards, however the extraction went.
* `Extraction.subsystem` reads a subsystem manifest.
* `Extraction.findManifest` looks for the manifest in an opened jar.
-/

namespace JavaFloor

/-- Where the bytes of a jar are kept while its manifest is read. -/
inductive ExtractionMode
  | tempFile
  | memory
  deriving DecidableEq

/-- What an extraction may use. -/
structure ExtractionOptions where
  directory : Bytes
  componentLimit : UInt64
  manifestLimit : UInt64
  mode : ExtractionMode
  deriving DecidableEq

/-- Temporary files in the default directory, components of at most 256 MiB and manifests of at
most 1 MiB. -/
def ExtractionOptions.standard : ExtractionOptions :=
  ⟨Scratch.defaultDirectory, 256 * 1024 * 1024, 1024 * 1024, .tempFile⟩

/-- Why no manifest could be extracted from `source`. -/
inductive ExtractionError
  /-- The temporary file cannot be made or closed. -/
  | tempFile (error : TempFileError)
  /-- The jar could not be copied to a temporary file. -/
  | notCopied (source : Bytes) (error : TempFileError)
  /-- The jar could not be read into memory. -/
  | notRead (source : Bytes) (error : StreamError)
  /-- There is no handle to open the jar with. -/
  | noHandle
  /-- The jar, or the header of one of its entries, cannot be read. -/
  | notAnArchive (source : Bytes) (reason : Option Bytes)
  | noManifest (source : Bytes)
  /-- The jar's manifest cannot be read to its end. -/
  | brokenManifest (source : Bytes) (reason : Option Bytes)
  | manifestTooLarge (source : Bytes)
  /-- The subsystem manifest cannot be read to its end. -/
  | subsystemNotRead (source : Bytes) (error : StreamError)
  | badManifest (source : Bytes) (error : ManifestError)
  deriving DecidableEq

namespace ExtractionError

/-- The text shown to the user. -/
def message : ExtractionError → Bytes
  | tempFile error => error.message
  | notCopied source error => ascii "extracting " ++ source ++ ascii ": " ++ error.message
  | notRead source error => ascii "extracting " ++ source ++ ascii ": " ++ error.message
  | noHandle => noHandleText
  | notAnArchive source reason =>
    ascii "cannot read " ++ source ++ ascii " as an archive: " ++ reasonText reason
  | noManifest source => ascii "no " ++ EntryPath.jarManifest ++ ascii " in " ++ source
  | brokenManifest source reason =>
    ascii "cannot read manifest of " ++ source ++ ascii ": " ++ reasonText reason
  | manifestTooLarge source => ascii "manifest of " ++ source ++ ascii " is too large"
  | subsystemNotRead source error => ascii "reading " ++ source ++ ascii ": " ++ error.message
  | badManifest source error =>
    ascii "unreadable manifest in " ++ source ++ ascii ": " ++ error.message

/-- A jar whose bytes do not come, or which there is nothing to open with, is an archive failure;
all else is a missing manifest. -/
def category : ExtractionError → Category
  | tempFile _ | notCopied _ _ | notRead _ _ | noHandle => .archiveIo
  | notAnArchive _ _ | noManifest _ | brokenManifest _ _ | manifestTooLarge _
  | subsystemNotRead _ _ | badManifest _ _ => .missingManifest

end ExtractionError

namespace Extraction

/-- What the names of temporary files start with. -/
def tempFileName : Bytes := ascii "unpackedBundle-"

/-- The text of a jar's manifest: the content of the first entry at its place. The headers up to
there must be readable. -/
def findManifest (source : Bytes) (limit : UInt64) : List Entry → Except ExtractionError Bytes
  | [] => .error (.noManifest source)
  | e :: es =>
    if e.isReadable then
      if EntryPath.isJarManifest e.path then
        match e.stream.readAll limit with
        | .ok text => .ok text
        | .error (.broken reason) => .error (.brokenManifest source reason)
        | .error (.tooLong _) => .error (.manifestTooLarge source)
      else findManifest source limit es
    else .error (.notAnArchive source e.message)

/-- The text of the manifest in a jar. -/
def manifestText (source : Bytes) (limit : UInt64) : Archive → Except ExtractionError Bytes
  | .noHandle => .error .noHandle
  | .unreadable reason => .error (.notAnArchive source reason)
  | .entries es => findManifest source limit es

/-- Reads the manifest that a text is into the place of `out`. -/
def readManifest (source text : Bytes) (out : Manifest) : Except ExtractionError Unit × Manifest :=
  match Manifest.parse text with
  | .ok m => (.ok (), m)
  | .error e => (.error (.badManifest source e), out)

/-- The text of the manifest in the jar that a stream holds, by way of a temporary file. -/
def textFromFile (lib : Library) (options : ExtractionOptions) (source : Bytes) (jar : Stream)
    (scratch : Scratch) : Except ExtractionError Bytes × Scratch :=
  match TempFile.create options.directory tempFileName .none scratch with
  | (.error e, _, scratch) => (.error (.tempFile e), scratch)
  | (.ok (), file, scratch) =>
    let (copy, scratch) := file.copyFrom options.componentLimit jar scratch
    match copy.error with
    | some e => (.error (.notCopied source e), file.release scratch)
    | none =>
      match file.close scratch with
      | (.error e, file) => (.error (.tempFile e), file.release scratch)
      | (.ok (), file) =>
        let bytes := (file.path.bind scratch.contents?).getD []
        (manifestText source options.manifestLimit (lib.decode bytes), file.release scratch)

/-- The text of the manifest in the jar that a stream holds, by way of the memory. -/
def textFromMemory (lib : Library) (options : ExtractionOptions) (source : Bytes) (jar : Stream) :
    Except ExtractionError Bytes :=
  match jar.readAll options.componentLimit with
  | .error e => .error (.notRead source e)
  | .ok bytes => manifestText source options.manifestLimit (lib.decode bytes)

/-- The text of the manifest of the component that a stream holds. -/
def componentText (lib : Library) (options : ExtractionOptions) (source : Bytes) (jar : Stream)
    (scratch : Scratch) : Except ExtractionError Bytes × Scratch :=
  match options.mode with
  | .tempFile => textFromFile lib options source jar scratch
  | .memory => (textFromMemory lib options source jar, scratch)

/-- Reads the manifest of the component that a stream holds into the place of `out`. -/
def component (lib : Library) (options : ExtractionOptions) (source : Bytes) (jar : Stream)
    (out : Manifest) (scratch : Scratch) : Except ExtractionError Unit × Manifest × Scratch :=
  match componentText lib options source jar scratch with
  | (.error e, scratch) => (.error e, out, scratch)
  | (.ok text, scratch) =>
    let (outcome, out) := readManifest source text out
    (outcome, out, scratch)

/-- Reads the subsystem manifest that a stream holds into the place of `out`. -/
def subsystem (options : ExtractionOptions) (source : Bytes) (text : Stream) (out : Manifest) :
    Except ExtractionError Unit × Manifest :=
  match text.readAll options.manifestLimit with
  | .error e => (.error (.subsystemNotRead source e), out)
  | .ok text => readManifest source text out

end Extraction

end JavaFloor
