import JavaFloor.Feature.Update
import JavaFloor.Proofs.Collection.Entries
import JavaFloor.Proofs.Except

/-!
# Updates by way of files and of the memory

Whether the jars of a feature archive go by way of temporary files or of the memory makes no
difference to an update, as long as temporary files can be made: it succeeds or fails alike and
leaves the same feature and the same files. Only where the bytes of a component do not come, the
message names the file to which they should have gone.

* `Feature.update_mapError` follows two collections through an update, error for error, and
  `Feature.update_inFile` has this of the two modes.
* `UpdateError.message_viaFile_of_isUnread` says which errors are told differently, and
  `Feature.exists_broken_of_update` where such an error comes from.
* `Feature.update_modes` puts this together.
-/

namespace JavaFloor

/-! ## Errors -/

/-- With the failure of an extraction told in other words. -/
def UpdateError.mapExtraction (f : ExtractionError → ExtractionError) : UpdateError → UpdateError
  | .collection e => .collection (e.mapExtraction f)
  | e => e

theorem UpdateError.mapExtraction_id : mapExtraction id = id := by
  funext e
  cases e with
  | collection e => rw [mapExtraction, CollectionError.mapExtraction_id, id, id]
  | malformed | conflict => rfl

/-- How an error is told in file mode, given how it is told in memory mode. -/
def UpdateError.viaFile (file : Bytes) : UpdateError → UpdateError :=
  mapExtraction (.viaFile file)

/-- In memory mode: the bytes of the component `source` of the archive at `path` did not come. -/
def CollectionError.IsUnread (source path : Bytes) (e : CollectionError) : Prop :=
  ∃ cause, cause.IsUnread source ∧ e = .extraction cause path

/-- In memory mode: the bytes of the component `source` of the archive at `path` did not come. -/
def UpdateError.IsUnread (source path : Bytes) (e : UpdateError) : Prop :=
  ∃ cause, cause.IsUnread source path ∧ e = .collection cause

namespace UpdateError

variable {e : UpdateError} {source path : Bytes}

theorem category_viaFile (file : Bytes) (e : UpdateError) :
    (e.viaFile file).category = e.category := by
  match e with
  | .collection (.extraction cause path) => exact cause.category_viaFile file
  | .collection (.archive _) | .malformed _ _ | .conflict _ _ => rfl

/-- **The message that the bytes of a component did not come names the file in addition.** -/
theorem message_viaFile_of_isUnread (h : e.IsUnread source path) (file : Bytes) :
    e.message = ascii "extracting " ++ source ++ ascii ": read failed" ++
        ascii " (archive " ++ path ++ ascii ")" ∧
      (e.viaFile file).message = ascii "extracting " ++ source ++ ascii ": read failed" ++
        ascii " while copying to " ++ file ++ ascii " (archive " ++ path ++ ascii ")" := by
  obtain ⟨-, ⟨cause, hcause, rfl⟩, rfl⟩ := h
  obtain ⟨hmemory, hfile⟩ := cause.message_viaFile_of_isUnread hcause file
  simp only [viaFile, mapExtraction, CollectionError.mapExtraction, message,
    CollectionError.message, hfile, hmemory, and_self]

theorem message_viaFile (h : ∀ source path, ¬ e.IsUnread source path) (file : Bytes) :
    (e.viaFile file).message = e.message := by
  match e, h with
  | .collection (.extraction cause path), h =>
    have hcause := cause.message_viaFile
      (fun source hcause => h source path ⟨_, ⟨cause, hcause, rfl⟩, rfl⟩) file
    simp only [viaFile, mapExtraction, CollectionError.mapExtraction, message,
      CollectionError.message, hcause]
  | .collection (.archive _), _ | .malformed _ _, _ | .conflict _ _, _ => rfl

end UpdateError

section

variable {lib : Library} {options : ExtractionOptions} {scratch : Scratch}
  {source path file : Bytes}

/-! ## Collections -/

namespace Collection

variable {g : Gathered} {seen : Bool} {es : List Entry}

/-- If extractions fail like others, told in other words, and what is told of contents is told in
the same words, then so do visits. -/
theorem visit_mapError {options' : ExtractionOptions} {scratch' : Scratch}
    {tell : ExtractionError → ExtractionError}
    (hlimit : options.manifestLimit = options'.manifestLimit)
    (hextracted : ∀ source jar, Extraction.extracted lib options source jar scratch =
      (Extraction.extracted lib options' source jar scratch').mapError tell)
    (htell : ∀ e : ExtractionError, e.IsOfContents → tell e = e)
    (g : Gathered) (kind : EntryKind) (e : Entry) :
    visit lib options scratch g kind e = (visit lib options' scratch' g kind e).mapError tell := by
  cases kind with
  | component =>
    rw [visit_component, visit_component, mapError_map]
    exact congrArg _ (hextracted e.path e.stream)
  | subsystemManifest =>
    have hsame : subsystemManifest options e = subsystemManifest options' e := by
      rw [subsystemManifest, subsystemManifest, Extraction.extractedSubsystem_eq,
        Extraction.extractedSubsystem_eq, hlimit]
    rw [visit_subsystemManifest, visit_subsystemManifest, mapError_map, hsame]
    refine congrArg _ (mapError_eq_self fun error herror => htell error ?_).symm
    exact Extraction.isOfContents_of_extractedSubsystem herror

/-- A visit that complains of bytes that did not come was one to a component whose bytes do not
come. -/
theorem exists_broken_of_visit {kind : EntryKind} {e : Entry} {error : ExtractionError}
    (h : visit lib { options with mode := .memory } scratch g kind e = .error error)
    (he : error.IsUnread source) :
    kind = .component ∧ source = e.path ∧
      ∃ reason, e.stream.readAll options.componentLimit = .error (.broken reason) := by
  cases kind with
  | component =>
    rw [visit_component] at h
    exact ⟨rfl, Extraction.exists_broken_of_extracted (map_eq_error h) he⟩
  | subsystemManifest =>
    rw [visit_subsystemManifest] at h
    have hcontents := Extraction.isOfContents_of_extractedSubsystem (map_eq_error h)
    exact absurd he hcontents.not_isUnread

/-- **A collection that complains of bytes that did not come has met a component whose bytes do not
come.** -/
theorem exists_broken_of_collectFrom {error : CollectionError} {place : Bytes}
    (h : (collectFrom lib { options with mode := .memory } g (.outside path seen es) scratch).1 =
      .error error)
    (he : error.IsUnread source place) :
    place = path ∧ ∃ e ∈ es, e.isComponent = true ∧ e.path = source ∧
      ∃ reason, e.stream.readAll options.componentLimit = .error (.broken reason) := by
  obtain ⟨cause, hcause, rfl⟩ := he
  induction es generalizing g seen with
  | nil => rw [collectFrom_nil] at h; cases h
  | cons e es ih =>
    have hlater : (place = path ∧ ∃ e ∈ es, e.isComponent = true ∧ e.path = source ∧
        ∃ reason, e.stream.readAll options.componentLimit = .error (.broken reason)) →
        place = path ∧ ∃ x ∈ e :: es, x.isComponent = true ∧ x.path = source ∧
          ∃ reason, x.stream.readAll options.componentLimit = .error (.broken reason) :=
      fun ⟨hplace, x, hx, hbroken⟩ => ⟨hplace, x, List.mem_cons_of_mem e hx, hbroken⟩
    cases hr : e.isReadable with
    | false => rw [collectFrom_of_not_isReadable hr] at h; cases h
    | true =>
      cases hk : e.kind? seen with
      | none =>
        cases hs : e.skipFault with
        | some reason => rw [collectFrom_of_skipFault hr hk hs] at h; cases h
        | none =>
          rw [collectFrom_of_passed hr hk hs] at h
          exact hlater (ih h)
      | some kind =>
        rw [collectFrom_of_kind? hr hk] at h
        cases hvisit : visit lib { options with mode := .memory } scratch g kind e with
        | ok g' =>
          rw [hvisit] at h
          exact hlater (ih h)
        | error error =>
          rw [hvisit] at h
          cases h
          obtain ⟨rfl, rfl, hbroken⟩ := exists_broken_of_visit hvisit hcause
          exact ⟨rfl, e, List.mem_cons_self, Entry.kind?_eq_component_iff.1 hk, rfl, hbroken⟩

end Collection

/-! ## Updates -/

namespace Feature

variable {table : List Environment} {f : Feature}

/-- A collection starts in front of the first entry of the archive at its path, if one opens. -/
theorem collectAt_eq (lib : Library) (options : ExtractionOptions) (path : Bytes)
    (scratch : Scratch) :
    collectAt lib options path scratch =
      match lib.openPath path with
      | .noHandle => (.error (.archive .noHandle), scratch)
      | .unreadable reason => (.error (.archive (.cannotOpen path reason)), scratch)
      | .entries es =>
        Collection.collectFrom lib options .nothing (.outside path false es) scratch := by
  simp only [collectAt, Walk.openPath, Walk.closed]
  cases lib.openPath path with
  | noHandle | unreadable => rfl
  | entries es =>
    have hopened : (⟨path, some (.start es)⟩ : Walk) = .outside path false es := rfl
    simp only [Collection.collect, hopened]
    rcases Collection.collectFrom lib options .nothing (.outside path false es) scratch with
      ⟨e | c, left⟩ <;> rfl

theorem collectAt_scratch (lib : Library) (options : ExtractionOptions) (path : Bytes)
    (scratch : Scratch) : (collectAt lib options path scratch).2 = scratch := by
  rw [collectAt_eq]
  cases lib.openPath path with
  | noHandle | unreadable => rfl
  | entries es => exact Collection.collectFrom_scratch _ _ _ _ _

theorem update_of_collectAt_error {e : CollectionError}
    (h : (collectAt lib options path scratch).1 = .error e) :
    f.update lib options table path scratch = (.error (.collection e), f, scratch) := by
  have hscratch := collectAt_scratch lib options path scratch
  rw [update]
  split
  next e' left hcollect =>
    rw [hcollect] at h hscratch
    obtain rfl := Except.error.inj h
    obtain rfl : left = scratch := hscratch
    rfl
  next hcollect => rw [hcollect] at h; cases h

theorem update_of_collectAt_ok {c : Collected}
    (h : (collectAt lib options path scratch).1 = .ok c) :
    f.update lib options table path scratch =
      match resolved table path f c with
      | .error e => (.error e, f, scratch)
      | .ok f => (.ok (), f, scratch) := by
  have hscratch := collectAt_scratch lib options path scratch
  rw [update]
  split
  next hcollect => rw [hcollect] at h; cases h
  next c' left hcollect =>
    rw [hcollect] at h hscratch
    obtain rfl := Except.ok.inj h
    obtain rfl : left = scratch := hscratch
    rfl

/-- No update changes the scratch space. -/
theorem update_scratch (lib : Library) (options : ExtractionOptions) (table : List Environment)
    (path : Bytes) (f : Feature) (scratch : Scratch) :
    (f.update lib options table path scratch).2.2 = scratch := by
  cases hcollect : (collectAt lib options path scratch).1 with
  | error e => rw [update_of_collectAt_error hcollect]
  | ok c =>
    rw [update_of_collectAt_ok hcollect]
    cases resolved table path f c <;> rfl

/-- What a resolution or a publication complains of has nothing to do with the jars. -/
theorem ne_collection_of_resolved {c : Collected} (error : CollectionError) :
    resolved table path f c ≠ .error (.collection error) := by
  rw [resolved]
  cases Resolution.resolve table c.requirements with
  | error e => nofun
  | ok r =>
    show (if r.isConflict then _ else _) ≠ _
    split <;> nofun

/-- If the visits of one collection fail like those of another one, told in other words, then so
does the update. -/
theorem update_mapError {options' : ExtractionOptions} {scratch' : Scratch}
    {tell : ExtractionError → ExtractionError}
    (h : ∀ g kind e, Collection.visit lib options scratch g kind e =
      (Collection.visit lib options' scratch' g kind e).mapError tell)
    (table : List Environment) (path : Bytes) (f : Feature) :
    f.update lib options table path scratch =
      ((f.update lib options' table path scratch').1.mapError (.mapExtraction tell),
        (f.update lib options' table path scratch').2.1, scratch) := by
  have hcollected : (collectAt lib options path scratch).1 =
      (collectAt lib options' path scratch').1.mapError (.mapExtraction tell) := by
    rw [collectAt_eq, collectAt_eq]
    cases lib.openPath path with
    | noHandle | unreadable => rfl
    | entries es => exact Collection.collectFrom_mapError h
  cases hcollect : (collectAt lib options' path scratch').1 with
  | error e =>
    rw [hcollect] at hcollected
    rw [update_of_collectAt_error hcollected, update_of_collectAt_error hcollect]
    rfl
  | ok c =>
    rw [hcollect] at hcollected
    rw [update_of_collectAt_ok hcollected, update_of_collectAt_ok hcollect]
    cases hresolved : resolved table path f c with
    | ok f => rfl
    | error e =>
      cases e with
      | collection e => exact absurd hresolved (ne_collection_of_resolved e)
      | malformed place e => rfl
      | conflict name trail => rfl

/-- **An update goes in file mode as in memory mode.** -/
theorem update_inFile (hworks : scratch.device.Works)
    (h : scratch.newPath options.directory Extraction.tempFileName = .ok file)
    (table : List Environment) (f : Feature) :
    f.update lib { options with mode := .tempFile } table path scratch =
      ((f.update lib { options with mode := .memory } table path scratch).1.mapError
        (.viaFile file), (f.update lib { options with mode := .memory } table path scratch).2) := by
  have hleft := update_scratch lib { options with mode := .memory } table path f scratch
  have hvisit : ∀ g kind e,
      Collection.visit lib { options with mode := .tempFile } scratch g kind e =
        (Collection.visit lib { options with mode := .memory } scratch g kind e).mapError
          (.viaFile file) :=
    Collection.visit_mapError rfl (fun _ _ => Extraction.extracted_inFile hworks h)
      fun _ he => he.viaFile file
  refine (update_mapError hvisit table path f).trans ?_
  exact Prod.ext rfl (Prod.ext rfl hleft.symm)

/-- An update that complains of bytes that did not come has met a component of the archive whose
bytes do not come. -/
theorem exists_broken_of_update {e : UpdateError} {place : Bytes}
    (h : (f.update lib { options with mode := .memory } table path scratch).1 = .error e)
    (he : e.IsUnread source place) :
    place = path ∧ ∃ es, lib.openPath path = .entries es ∧ ∃ x ∈ es, x.isComponent = true ∧
      x.path = source ∧
      ∃ reason, x.stream.readAll options.componentLimit = .error (.broken reason) := by
  obtain ⟨cause, hcause, rfl⟩ := he
  cases hcollect : (collectAt lib { options with mode := .memory } path scratch).1 with
  | ok c =>
    rw [update_of_collectAt_ok hcollect] at h
    cases hresolved : resolved table path f c with
    | ok f => rw [hresolved] at h; cases h
    | error e =>
      rw [hresolved] at h
      obtain rfl := Except.error.inj h
      exact absurd hresolved (ne_collection_of_resolved cause)
  | error e =>
    rw [update_of_collectAt_error hcollect] at h
    obtain rfl := UpdateError.collection.inj (Except.error.inj h)
    rw [collectAt_eq] at hcollect
    cases hopen : lib.openPath path with
    | noHandle | unreadable =>
      rw [hopen] at hcollect
      obtain ⟨_, _, rfl⟩ := hcause
      cases hcollect
    | entries es =>
      rw [hopen] at hcollect
      obtain ⟨hplace, hbroken⟩ := Collection.exists_broken_of_collectFrom hcollect hcause
      exact ⟨hplace, es, rfl, hbroken⟩

/-- **The two modes of extraction cannot be told apart** but by one message.

If a temporary file can be made, written and closed, an update in file mode and one in memory mode
leave the same feature and the same scratch space, and both succeed or both fail in the same
category. Their messages are the same unless the bytes of a component did not come; then file mode
names the file in addition. The subsystem manifest goes by way of the memory in both modes. -/
theorem update_modes (lib : Library) (options : ExtractionOptions) (table : List Environment)
    (path : Bytes) (f : Feature) (scratch : Scratch) (file : Bytes) (hworks : scratch.device.Works)
    (h : scratch.newPath options.directory Extraction.tempFileName = .ok file) :
    let inFile := f.update lib { options with mode := .tempFile } table path scratch
    let inMemory := f.update lib { options with mode := .memory } table path scratch
    inFile.2 = inMemory.2 ∧
      (inFile.1 = .ok () ∧ inMemory.1 = .ok () ∨
        ∃ e e', inFile.1 = .error e ∧ inMemory.1 = .error e' ∧ e.category = e'.category ∧
          ((∀ source place, ¬ e'.IsUnread source place) → e.message = e'.message) ∧
          ∀ source place, e'.IsUnread source place →
            (place = path ∧ ∃ es, lib.openPath path = .entries es ∧ ∃ x ∈ es,
              x.isComponent = true ∧ x.path = source ∧
              ∃ reason, x.stream.readAll options.componentLimit = .error (.broken reason)) ∧
            e'.message = ascii "extracting " ++ source ++ ascii ": read failed" ++
              ascii " (archive " ++ path ++ ascii ")" ∧
            e.message = ascii "extracting " ++ source ++ ascii ": read failed" ++
              ascii " while copying to " ++ file ++ ascii " (archive " ++ path ++ ascii ")") := by
  intro inFile inMemory
  have hmode : inFile = (inMemory.1.mapError (.viaFile file), inMemory.2) :=
    update_inFile hworks h table f
  refine ⟨by rw [hmode], ?_⟩
  cases hmemory : inMemory.1 with
  | ok =>
    rw [hmemory] at hmode
    exact .inl ⟨congrArg Prod.fst hmode, rfl⟩
  | error e =>
    rw [hmemory] at hmode
    refine .inr ⟨e.viaFile file, e, congrArg Prod.fst hmode, rfl, e.category_viaFile file,
      fun hread => e.message_viaFile hread file, fun source place hunread => ?_⟩
    have horigin := exists_broken_of_update hmemory hunread
    obtain rfl := horigin.1
    exact ⟨horigin, e.message_viaFile_of_isUnread hunread file⟩

/-- A jar whose second byte does not come. -/
theorem update_modes_broken_jar : ∃ (lib : Library) (scratch : Scratch) (e e' : UpdateError),
    scratch.newPath (ascii "/tmp") Extraction.tempFileName =
      .ok (ascii "/tmp/unpackedBundle-000000") ∧
    (Feature.unknown.update lib ⟨ascii "/tmp", 9, 9, .tempFile⟩ [] (ascii "f.esa") scratch).1 =
      .error e ∧
    (Feature.unknown.update lib ⟨ascii "/tmp", 9, 9, .memory⟩ [] (ascii "f.esa") scratch).1 =
      .error e' ∧
    e.message = ascii ("extracting a.jar: read failed while copying to " ++
      "/tmp/unpackedBundle-000000 (archive f.esa)") ∧
    e'.message = ascii "extracting a.jar: read failed (archive f.esa)" := by
  let jar : Entry :=
    ⟨some (ascii "a.jar"), .file, none, ascii "xy", [], .ok, none, some (1, none), none⟩
  let lib : Library := .ofTables [([], .entries [jar])] [(ascii "f.esa", [])]
  let scratch : Scratch := .ofTree ⟨[], [[ascii "tmp"]], []⟩
  have hpath : scratch.newPath (ascii "/tmp") Extraction.tempFileName =
      .ok (ascii "/tmp/unpackedBundle-000000") := by decide +kernel
  have hmemory : (Feature.unknown.update lib ⟨ascii "/tmp", 9, 9, .memory⟩ [] (ascii "f.esa")
      scratch).1 = .error (.collection (.extraction (.notRead (ascii "a.jar") (.broken none))
        (ascii "f.esa"))) := by decide +kernel
  obtain ⟨-, ⟨-, hok⟩ | ⟨e, e', hfile, hmemory', -, -, hmessage⟩⟩ :=
    update_modes lib ⟨ascii "/tmp", 9, 9, .memory⟩ [] (ascii "f.esa") .unknown scratch _
      Device.works_reliable hpath
  · exact absurd (hmemory.symm.trans hok) nofun
  · obtain rfl := Except.error.inj (hmemory.symm.trans hmemory')
    obtain ⟨-, htold, htold'⟩ :=
      hmessage (ascii "a.jar") (ascii "f.esa") ⟨_, ⟨_, ⟨none, rfl⟩, rfl⟩, rfl⟩
    refine ⟨lib, scratch, e, _, hpath, hfile, hmemory, htold'.trans ?_, htold.trans ?_⟩ <;>
      decide +kernel

end Feature

end

end JavaFloor
