import JavaFloor.Proofs.Feature.Scratch

/-!
# What an update owes to the names of its files

Of the scratch space an update needs to know the device and one thing more, the path of a new
temporary file, or why there is none. If files can be made in two scratch spaces alike, an update
from the one can be told from an update from the other by its message only, where that gives the
path.

* `Extraction.extracted_atPath`: an extraction by way of a file at another path is the same, but for
  the path in its error.
* `Scratch.exists_serial_of_newPath`: two paths of new files differ in their serial number.
* `Feature.update_alike` compares updates in scratch spaces that are `Scratch.Alike`, and
  `UpdateError.quotesAtMost_message` says what difference the path makes to a message.
-/

namespace JavaFloor

/-! ## New paths -/

/-- The path of a new file ends in a serial number. -/
theorem Scratch.exists_serial_of_newPath {s : Scratch} {directory name path : Bytes}
    (h : s.newPath directory name = .ok path) :
    ∃ stem n, stem? directory name = some stem ∧ path = stem ++ serial n := by
  unfold newPath at h
  split at h
  · simp at h
  next stem hstem =>
    split at h
    · simp at h
    · split at h
      next free hfree =>
        obtain rfl := Except.ok.inj h
        obtain ⟨n, -, rfl⟩ := List.mem_map.1 (List.mem_of_find?_eq_some hfree)
        exact ⟨stem, n, hstem, rfl⟩
      · simp at h

/-- Temporary files can be made alike: on the same device, in both scratch spaces, or in neither for
the same reason. In memory mode none are made. -/
def Scratch.Alike (options : ExtractionOptions) (s s' : Scratch) : Prop :=
  options.mode = .tempFile → s.device = s'.device ∧
    (s.newPath options.directory Extraction.tempFileName).map (fun _ => ()) =
      (s'.newPath options.directory Extraction.tempFileName).map (fun _ => ())

theorem Scratch.Alike.refl (options : ExtractionOptions) (s : Scratch) : s.Alike options s :=
  fun _ => ⟨rfl, rfl⟩

/-! ## Other paths -/

/-- The same error, told of the file at another path. -/
def ExtractionError.atPath (file : Bytes) : ExtractionError → ExtractionError
  | .tempFile e => .tempFile (e.atPath file)
  | .notCopied source e => .notCopied source (e.atPath file)
  | e => e

/-- The same error, told of the file at another path. -/
def UpdateError.atPath (file : Bytes) : UpdateError → UpdateError := mapExtraction (.atPath file)

theorem ExtractionError.IsOfContents.atPath {e : ExtractionError} (h : e.IsOfContents)
    (file : Bytes) : e.atPath file = e := by
  cases e with
  | tempFile | notCopied => exact h.elim
  | _ => rfl

theorem UpdateError.category_atPath (file : Bytes) (e : UpdateError) :
    (e.atPath file).category = e.category := by
  match e with
  | .collection (.extraction cause path) => cases cause <;> rfl
  | .collection (.archive _) | .malformed _ _ | .conflict _ _ => rfl

/-- A text that may depend on a path is the same for all paths, or it quotes the path. -/
def QuotesAtMost (text : Bytes → Bytes) : Prop :=
  (∀ path path', text path = text path') ∨
    ∃ front behind, ∀ path, text path = front ++ path ++ behind

theorem QuotesAtMost.within {text : Bytes → Bytes} (h : QuotesAtMost text) (front behind : Bytes) :
    QuotesAtMost fun path => front ++ text path ++ behind := by
  rcases h with hsame | ⟨first, last, htext⟩
  · exact .inl fun path path' => by simp only [hsame path path']
  · exact .inr ⟨front ++ first, last ++ behind, fun path => by simp [htext]⟩

/-- **A message quotes the path of a file at most.** -/
theorem TempFileError.quotesAtMost_message (e : TempFileError) :
    QuotesAtMost fun file => (e.atPath file).message := by
  cases e with
  | readFailed path =>
    exact .inr ⟨ascii "read failed while copying to ", [], fun file => by simp [atPath, message]⟩
  | writeFailed path reason =>
    exact .inr ⟨ascii "write to ", ascii " failed (" ++ reason ++ ascii ")",
      fun file => by simp [atPath, message]⟩
  | closeFailed path =>
    exact .inr ⟨ascii "close of ", ascii " failed", fun file => by simp [atPath, message]⟩
  | cannotCreate | notOpen | tooLong => exact .inl fun _ _ => rfl

theorem ExtractionError.quotesAtMost_message (e : ExtractionError) :
    QuotesAtMost fun file => (e.atPath file).message := by
  cases e with
  | tempFile e => exact e.quotesAtMost_message
  | notCopied source e =>
    have h := e.quotesAtMost_message.within (ascii "extracting " ++ source ++ ascii ": ") []
    simp only [List.append_nil] at h
    exact h
  | _ => exact .inl fun _ _ => rfl

theorem UpdateError.quotesAtMost_message (e : UpdateError) :
    QuotesAtMost fun file => (e.atPath file).message := by
  match e with
  | .collection (.extraction cause path) =>
    have h := cause.quotesAtMost_message.within [] (ascii " (archive " ++ path ++ ascii ")")
    simp only [List.nil_append, ← List.append_assoc] at h
    exact h
  | .collection (.archive _) | .malformed _ _ | .conflict _ _ => exact .inl fun _ _ => rfl

/-! ## Extractions and updates -/

section

variable {lib : Library} {options : ExtractionOptions} {s s' : Scratch} {file file' : Bytes}

/-- **By way of a file at another path the text of a manifest is the same**, or the same error but
for the path in it. -/
theorem Extraction.textFromFile_atPath (hdevice : s.device = s'.device)
    (hs : s.newPath options.directory tempFileName = .ok file)
    (hs' : s'.newPath options.directory tempFileName = .ok file') (source : Bytes) (jar : Stream) :
    (textFromFile lib options source jar s').1 =
      (textFromFile lib options source jar s).1.mapError (.atPath file') := by
  rw [textFromFile_of_newPath hs, textFromFile_of_newPath hs', ← hdevice,
    TempFile.copyOn_atPath s.device options.componentLimit file file']
  simp only [TempFile.Copy.atPath]
  generalize TempFile.copyOn ⟨some file, true⟩ s.device options.componentLimit 0 0 [] jar = copy
  cases copy.error with
  | some e => rfl
  | none =>
    by_cases hclose : s.device.close copy.written.length = true
    · simp only [Option.map_none, hclose, if_true]
      exact (mapError_eq_self fun e he => (isOfContents_of_manifestText he).atPath file').symm
    · simp only [Option.map_none, hclose]
      rfl

theorem Extraction.extracted_atPath (hmode : options.mode = .tempFile)
    (hdevice : s.device = s'.device)
    (hs : s.newPath options.directory tempFileName = .ok file)
    (hs' : s'.newPath options.directory tempFileName = .ok file') (lib : Library) (source : Bytes)
    (jar : Stream) :
    extracted lib options source jar s' =
      (extracted lib options source jar s).mapError (.atPath file') := by
  simp only [extracted_eq, componentText, hmode, textFromFile_atPath hdevice hs hs']
  cases (textFromFile lib options source jar s).1 with
  | error e => rfl
  | ok text =>
    exact (mapError_eq_self fun e he => (isOfContents_of_parseManifest he).atPath file').symm

/-- Where no file is made, the scratch space does not matter. -/
theorem Extraction.extracted_congr
    (h : options.mode = .memory ∨ ∃ fault, s.newPath options.directory tempFileName = .error fault ∧
      s'.newPath options.directory tempFileName = .error fault) (lib : Library) (source : Bytes)
    (jar : Stream) :
    extracted lib options source jar s' = extracted lib options source jar s := by
  simp only [extracted_eq, componentText]
  cases hmode : options.mode with
  | memory => rfl
  | tempFile =>
    obtain ⟨fault, hs, hs'⟩ := h.resolve_left (by simp [hmode])
    simp only [textFromFile_of_error hs, textFromFile_of_error hs']

namespace Feature

/-- Where extractions give the same, so does an update. -/
theorem update_congr (h : ∀ source jar, Extraction.extracted lib options source jar s' =
      Extraction.extracted lib options source jar s) (table : List Environment) (path : Bytes)
    (f : Feature) :
    f.update lib options table path s' = ((f.update lib options table path s).1,
      (f.update lib options table path s).2.1, s') := by
  have hmapped := update_mapError (Collection.visit_mapError rfl
    (fun source jar => (h source jar).trans (mapError_id _).symm) fun _ _ => rfl) table path f
  rwa [UpdateError.mapExtraction_id, mapError_id] at hmapped

/-- **By way of files at other paths an update is the same**, but for the path in its error. -/
theorem update_atPath (hmode : options.mode = .tempFile) (hdevice : s.device = s'.device)
    (hs : s.newPath options.directory Extraction.tempFileName = .ok file)
    (hs' : s'.newPath options.directory Extraction.tempFileName = .ok file') (lib : Library)
    (table : List Environment) (path : Bytes) (f : Feature) :
    f.update lib options table path s' =
      ((f.update lib options table path s).1.mapError (.atPath file'),
        (f.update lib options table path s).2.1, s') :=
  update_mapError (Collection.visit_mapError rfl
    (Extraction.extracted_atPath hmode hdevice hs hs' lib) fun _ he => he.atPath _) table path f

/-- **Updates in scratch spaces that are alike** leave the same feature and have the same outcome,
unless that is an error told of one temporary file in the one and of another one in the other. -/
theorem update_alike (h : s.Alike options s') (lib : Library) (table : List Environment)
    (path : Bytes) (f : Feature) :
    (f.update lib options table path s).2.1 = (f.update lib options table path s').2.1 ∧
      ((f.update lib options table path s).1 = (f.update lib options table path s').1 ∨
        ∃ stem m n e, Scratch.stem? options.directory Extraction.tempFileName = some stem ∧
          (f.update lib options table path s).1 =
            .error (UpdateError.atPath (stem ++ Scratch.serial m) e) ∧
          (f.update lib options table path s').1 =
            .error (UpdateError.atPath (stem ++ Scratch.serial n) e)) := by
  cases hmode : options.mode with
  | memory =>
    rw [update_congr (Extraction.extracted_congr (.inl hmode) lib)]
    exact ⟨rfl, .inl rfl⟩
  | tempFile =>
    obtain ⟨hdevice, halike⟩ := h hmode
    cases hs : s.newPath options.directory Extraction.tempFileName with
    | error fault =>
      cases hs' : s'.newPath options.directory Extraction.tempFileName with
      | ok file' => simp [hs, hs', Except.map] at halike
      | error fault' =>
        obtain rfl : fault = fault' := by simpa [hs, hs', Except.map] using halike
        rw [update_congr (Extraction.extracted_congr (.inr ⟨fault, hs, hs'⟩) lib)]
        exact ⟨rfl, .inl rfl⟩
    | ok file =>
      cases hs' : s'.newPath options.directory Extraction.tempFileName with
      | error fault' => simp [hs, hs', Except.map] at halike
      | ok file' =>
        obtain ⟨stem, m, hstem, rfl⟩ := Scratch.exists_serial_of_newPath hs
        obtain ⟨_, n, hstem', rfl⟩ := Scratch.exists_serial_of_newPath hs'
        obtain rfl := Option.some.inj (hstem.symm.trans hstem')
        -- what is told of the file in `s` is also told of it once the path is put in again
        have hagain := update_atPath hmode rfl hs hs lib table path f
        rw [update_atPath hmode hdevice hs hs' lib table path f]
        cases hu : (f.update lib options table path s).1 with
        | ok => exact ⟨rfl, .inl rfl⟩
        | error e =>
          rw [hu] at hagain
          exact ⟨rfl, .inr ⟨stem, m, n, e, hstem, hu.symm.trans (congrArg Prod.fst hagain), rfl⟩⟩

end Feature

end

end JavaFloor
