import JavaFloor.Extraction
import JavaFloor.Proofs.Except
import JavaFloor.Proofs.Scratch.Copying
import JavaFloor.Proofs.Scratch.Fresh

/-!
# Extraction by way of a file and of the memory

A jar is copied to a temporary file or read into memory, piece by piece and up to the same limit.
Either way the same bytes are opened as an archive, so that the manifest and all complaints about it
are the same; only a jar whose bytes do not come is told of in two ways.

* `ExtractionError.viaFile` is how an error is told if the jar goes by way of a file, and
  `ExtractionError.IsUnread` singles out the errors that are told differently.
* `Extraction.component_scratch`: no extraction changes the scratch space, however it ends and
  whatever the device of the file does.
* `Extraction.extracted` is the manifest that an extraction reads; `Extraction.component_of_ok` and
  `Extraction.component_of_error` say what then stands in the caller's place.
* `Extraction.textFromFile_eq` compares the two ways to the text of a manifest on a device that
  works, and `Extraction.extracted_inFile` the two modes of an extraction.
-/

namespace JavaFloor

/-! ## Errors in two modes -/

/-- How an error is told if the jar goes by way of the file at `path`, given how it is told if the
jar goes by way of the memory. -/
def ExtractionError.viaFile (path : Bytes) : ExtractionError → ExtractionError
  | .notRead source e => .notCopied source (TempFile.copyError ⟨some path, true⟩ e)
  | e => e

/-- Told of the bytes of a jar that have come, or of a subsystem manifest. -/
def ExtractionError.IsOfContents : ExtractionError → Prop
  | .tempFile _ | .notCopied _ _ | .notRead _ _ => False
  | _ => True

/-- In memory mode: the bytes of the component `source` did not come. -/
def ExtractionError.IsUnread (source : Bytes) (e : ExtractionError) : Prop :=
  ∃ reason, e = .notRead source (.broken reason)

namespace ExtractionError

variable {e : ExtractionError} {source : Bytes}

theorem category_viaFile (file : Bytes) (e : ExtractionError) :
    (e.viaFile file).category = e.category := by
  cases e <;> rfl

theorem message_viaFile_of_isUnread (h : e.IsUnread source) (file : Bytes) :
    e.message = ascii "extracting " ++ source ++ ascii ": read failed" ∧
      (e.viaFile file).message = e.message ++ ascii " while copying to " ++ file := by
  obtain ⟨reason, rfl⟩ := h
  have hfailed : ascii ": read failed" = ascii ": " ++ ascii "read failed" := by decide +kernel
  have hcopying : ascii "read failed while copying to " =
      ascii "read failed" ++ ascii " while copying to " := by decide +kernel
  simp [viaFile, message, TempFile.copyError, StreamError.message, TempFileError.message, hfailed,
    hcopying]

/-- All other errors are told in the same way. -/
theorem message_viaFile (h : ∀ source, ¬ e.IsUnread source) (file : Bytes) :
    (e.viaFile file).message = e.message := by
  match e, h with
  | .notRead source (.broken reason), h => exact absurd ⟨reason, rfl⟩ (h source)
  | .notRead source (.tooLong limit), _ => rfl
  | .notCopied _ _, _ | .notAnArchive _ _, _ | .noManifest _, _
  | .brokenManifest _ _, _ | .manifestTooLarge _, _ | .subsystemNotRead _ _, _
  | .badManifest _ _, _ | .tempFile _, _ | .noHandle, _ => rfl

/-- What is told of contents is told in the same way. -/
theorem IsOfContents.viaFile (h : e.IsOfContents) (path : Bytes) : e.viaFile path = e := by
  cases e with
  | notRead => exact h.elim
  | _ => rfl

theorem IsOfContents.not_isUnread (h : e.IsOfContents) : ¬ e.IsUnread source := by
  rintro ⟨reason, rfl⟩
  exact h

end ExtractionError

/-! ## What an extraction leaves behind -/

namespace Extraction

variable {lib : Library} {options : ExtractionOptions} {source path text : Bytes} {jar : Stream}
  {scratch : Scratch} {m out : Manifest} {e : ExtractionError}

/-- What the way by a file comes to, if the file can be made: the text of the manifest in the bytes
that were copied, unless the copy or the closing fails. The file is gone in any case. -/
theorem textFromFile_of_newPath (h : scratch.newPath options.directory tempFileName = .ok path) :
    let copy :=
      TempFile.copyOn ⟨some path, true⟩ scratch.device options.componentLimit 0 0 [] jar
    textFromFile lib options source jar scratch =
      (match copy.error with
        | some e => .error (.notCopied source e)
        | none =>
          if scratch.device.close copy.written.length then
            manifestText source options.manifestLimit (lib.decode copy.written)
          else .error (.tempFile (.closeFailed path)),
      scratch) := by
  intro copy
  have hsize : TempFile.size ⟨some path, true⟩ (scratch.add path) = 0 := by
    have hempty := TempFile.contents_of_newPath h []
    rw [Scratch.append_nil] at hempty
    exact congrArg List.length hempty
  have hcopied : TempFile.copyFrom ⟨some path, true⟩ options.componentLimit jar
      (scratch.add path) = (copy, (scratch.add path).append path copy.written) := by
    rw [TempFile.copyFrom, hsize]
    rfl
  have hcontents := TempFile.contents_of_newPath h copy.written
  have hclose : TempFile.close ⟨some path, true⟩ ((scratch.add path).append path copy.written) =
      (if scratch.device.close copy.written.length then .ok () else .error (.closeFailed path),
        ⟨some path, false⟩) := by
    rw [TempFile.close, TempFile.size, hcontents]
    rfl
  have hgone := fun writable => TempFile.release_of_newPath h writable copy.written
  rw [textFromFile, TempFile.create_of_newPath h]
  simp only [hcopied, hclose]
  cases copy.error with
  | some e => simp only [hgone]
  | none =>
    cases scratch.device.close copy.written.length with
    | true => simp only [if_true, hcontents, hgone]
    | false => simp only [Bool.false_eq_true, if_false, hgone]

/-- Without a file there is nothing to be removed. -/
theorem textFromFile_of_error {fault : PathFault}
    (h : scratch.newPath options.directory tempFileName = .error fault) :
    textFromFile lib options source jar scratch =
      (.error (.tempFile (.cannotCreate options.directory fault)), scratch) := by
  rw [textFromFile, TempFile.create, h]

theorem componentText_scratch (lib : Library) (options : ExtractionOptions) (source : Bytes)
    (jar : Stream) (scratch : Scratch) :
    (componentText lib options source jar scratch).2 = scratch := by
  rw [componentText]
  cases options.mode with
  | memory => rfl
  | tempFile =>
    cases h : scratch.newPath options.directory tempFileName with
    | ok path => exact congrArg Prod.snd (textFromFile_of_newPath h)
    | error fault => exact congrArg Prod.snd (textFromFile_of_error h)

/-- The manifest that a text is. -/
def parseManifest (source text : Bytes) : Except ExtractionError Manifest :=
  (Manifest.parse text).mapError (.badManifest source)

/-- The manifest that an extraction reads. -/
def extracted (lib : Library) (options : ExtractionOptions) (source : Bytes) (jar : Stream)
    (scratch : Scratch) : Except ExtractionError Manifest :=
  let result := component lib options source jar .empty scratch
  result.1.map fun _ => result.2.1

/-- The subsystem manifest that is read. -/
def extractedSubsystem (options : ExtractionOptions) (source : Bytes) (text : Stream) :
    Except ExtractionError Manifest :=
  let result := subsystem options source text .empty
  result.1.map fun _ => result.2

/-- The manifest is that of the text. -/
theorem extracted_eq (lib : Library) (options : ExtractionOptions) (source : Bytes) (jar : Stream)
    (scratch : Scratch) :
    extracted lib options source jar scratch =
      (componentText lib options source jar scratch).1.bind (parseManifest source) := by
  rw [extracted, component]
  rcases componentText lib options source jar scratch with ⟨e | text, left⟩
  · rfl
  · simp only [readManifest, Except.bind, parseManifest]
    cases Manifest.parse text <;> rfl

theorem extractedSubsystem_eq (options : ExtractionOptions) (source : Bytes) (text : Stream) :
    extractedSubsystem options source text =
      ((text.readAll options.manifestLimit).mapError (.subsystemNotRead source)).bind
        (parseManifest source) := by
  rw [extractedSubsystem, subsystem]
  cases text.readAll options.manifestLimit with
  | error e => rfl
  | ok text =>
    simp only [readManifest, Except.mapError, Except.bind, parseManifest]
    cases Manifest.parse text <;> rfl

/-- A manifest that is read takes the place of the one that was there; if none is read, that one
stays. -/
theorem component_eq (lib : Library) (options : ExtractionOptions) (source : Bytes) (jar : Stream)
    (out : Manifest) (scratch : Scratch) :
    component lib options source jar out scratch =
      match extracted lib options source jar scratch with
      | .ok m => (.ok (), m, scratch)
      | .error e => (.error e, out, scratch) := by
  have hleft := componentText_scratch lib options source jar scratch
  rw [extracted_eq, component]
  generalize componentText lib options source jar scratch = result at hleft ⊢
  obtain ⟨e | text, left⟩ := result
  all_goals obtain rfl : left = scratch := hleft
  · rfl
  · simp only [readManifest, Except.bind, parseManifest]
    cases Manifest.parse text <;> rfl

theorem component_of_ok (h : extracted lib options source jar scratch = .ok m) (out : Manifest) :
    component lib options source jar out scratch = (.ok (), m, scratch) := by
  rw [component_eq, h]

theorem component_of_error (h : extracted lib options source jar scratch = .error e)
    (out : Manifest) :
    component lib options source jar out scratch = (.error e, out, scratch) := by
  rw [component_eq, h]

theorem component_eq_ok_iff :
    (component lib options source jar out scratch).1 = .ok () ∧
      (component lib options source jar out scratch).2.1 = m ↔
      extracted lib options source jar scratch = .ok m := by
  cases h : extracted lib options source jar scratch with
  | ok m' => simp [component_of_ok h]
  | error e => simp [component_of_error h]

theorem component_eq_error_iff :
    (component lib options source jar out scratch).1 = .error e ↔
      extracted lib options source jar scratch = .error e := by
  cases h : extracted lib options source jar scratch with
  | ok m => simp [component_of_ok h]
  | error e' => simp [component_of_error h]

/-- **No extraction changes the scratch space**, whether it succeeds or fails. -/
theorem component_scratch (lib : Library) (options : ExtractionOptions) (source : Bytes)
    (jar : Stream) (out : Manifest) (scratch : Scratch) :
    (component lib options source jar out scratch).2.2 = scratch := by
  cases h : extracted lib options source jar scratch with
  | ok m => rw [component_of_ok h]
  | error e => rw [component_of_error h]

/-! ## Two ways to a manifest -/

/-- What is wrong with an opened jar, or with a subsystem manifest, is told of contents. -/
theorem isOfContents_of_findManifest {limit : UInt64} {es : List Entry}
    (h : findManifest source limit es = .error e) : e.IsOfContents := by
  induction es with
  | nil =>
    obtain rfl := Except.error.inj h
    trivial
  | cons x es ih =>
    rw [findManifest] at h
    split at h
    · split at h
      · split at h <;> cases h <;> trivial
      · exact ih h
    · obtain rfl := Except.error.inj h
      trivial

theorem isOfContents_of_manifestText {limit : UInt64} {a : Archive}
    (h : manifestText source limit a = .error e) : e.IsOfContents := by
  cases a with
  | noHandle | unreadable =>
    obtain rfl := Except.error.inj h
    trivial
  | entries es => exact isOfContents_of_findManifest h

theorem isOfContents_of_parseManifest (h : parseManifest source text = .error e) :
    e.IsOfContents := by
  obtain ⟨fault, -, rfl⟩ := mapError_eq_error h
  trivial

theorem isOfContents_of_extractedSubsystem {content : Stream}
    (h : extractedSubsystem options source content = .error e) : e.IsOfContents := by
  rw [extractedSubsystem_eq] at h
  rcases bind_eq_error h with hread | ⟨text, -, hparse⟩
  · obtain ⟨fault, -, rfl⟩ := mapError_eq_error hread
    trivial
  · exact isOfContents_of_parseManifest hparse

/-- **By way of a file the text of a manifest is the same as by way of the memory.** -/
theorem textFromFile_eq (hworks : scratch.device.Works)
    (h : scratch.newPath options.directory tempFileName = .ok path) :
    textFromFile lib options source jar scratch =
      ((textFromMemory lib options source jar).mapError (.viaFile path), scratch) := by
  have hgoes : (TempFile.copyOn ⟨some path, true⟩ scratch.device options.componentLimit 0 0 []
      jar).GoesAs ⟨some path, true⟩ (jar.readAll options.componentLimit) :=
    (TempFile.copyOn_goesAs rfl 0 0 [] jar).resolve_left fun hstuck => hstuck.2 hworks
  rw [textFromFile_of_newPath h, textFromMemory]
  cases hread : jar.readAll options.componentLimit with
  | ok bytes =>
    rw [hread] at hgoes
    simp only [hgoes.1, hgoes.2, hworks.close, if_true]
    rw [mapError_eq_self fun e he => (isOfContents_of_manifestText he).viaFile path]
  | error e =>
    rw [hread, TempFile.Copy.GoesAs] at hgoes
    simp only [hgoes]
    rfl

/-- **In file mode a component has the same manifest as in memory mode**, or the same error but for
the way in which a jar whose bytes do not come is told of. -/
theorem extracted_inFile (hworks : scratch.device.Works)
    (h : scratch.newPath options.directory tempFileName = .ok path) :
    extracted lib { options with mode := .tempFile } source jar scratch =
      (extracted lib { options with mode := .memory } source jar scratch).mapError
        (.viaFile path) := by
  have hfile : textFromFile lib { options with mode := .tempFile } source jar scratch =
      ((textFromMemory lib { options with mode := .memory } source jar).mapError (.viaFile path),
        scratch) := textFromFile_eq hworks h
  simp only [extracted_eq, componentText, hfile]
  cases textFromMemory lib { options with mode := .memory } source jar with
  | error e => rfl
  | ok text =>
    exact (mapError_eq_self fun e he => (isOfContents_of_parseManifest he).viaFile path).symm

/-- An extraction that complains of bytes that did not come was given a stream that fails. -/
theorem exists_broken_of_extracted {failed : Bytes}
    (h : extracted lib { options with mode := .memory } source jar scratch = .error e)
    (he : e.IsUnread failed) :
    failed = source ∧ ∃ reason, jar.readAll options.componentLimit = .error (.broken reason) := by
  simp only [extracted_eq, componentText, textFromMemory] at h
  cases hread : jar.readAll options.componentLimit with
  | error e =>
    rw [hread] at h
    obtain rfl := Except.error.inj h
    obtain ⟨reason, hreason⟩ := he
    cases hreason
    exact ⟨rfl, reason, rfl⟩
  | ok bytes =>
    rw [hread] at h
    rcases bind_eq_error h with htext | ⟨text, -, hparse⟩
    · exact absurd he (isOfContents_of_manifestText htext).not_isUnread
    · exact absurd he (isOfContents_of_parseManifest hparse).not_isUnread

end Extraction

end JavaFloor
