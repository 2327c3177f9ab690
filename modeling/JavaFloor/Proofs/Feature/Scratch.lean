import JavaFloor.Proofs.Feature.Atomicity

/-!
# No temporary file is left

While the manifest of a component is extracted in file mode, there is one file more than before, and
it holds what was copied of the jar. However the extraction ends, the file is gone afterwards; so no
collection and no sequence of updates adds to the files that there are, or takes any away.

* `TempFile.release_of_create` follows one file from its making to its release.
* `UpdateCall.scratch_of_run` puts extractions, collections and updates together.
-/

namespace JavaFloor

/-- **The life of a temporary file.** Its path is new; it is there until its object is released, and
holds what was copied to it, whether or not the copy came to its end; and then nothing is left of
it. -/
theorem TempFile.release_of_create {directory name path : Bytes} {scratch : Scratch}
    (h : scratch.newPath directory name = .ok path) :
    ∃ file made, TempFile.create directory name .none scratch = (.ok (), file, made) ∧
      scratch.exists? path = false ∧ made.exists? path = true ∧
      ∀ limit jar, let (copy, left) := file.copyFrom limit jar made
        left.contents? path = some copy.written ∧ file.release left = scratch ∧
          (file.close left).2.release left = scratch := by
  have hfresh := Scratch.ne_of_newPath h
  refine ⟨⟨some path, true⟩, scratch.add path, by rw [create, h]; rfl, ?_, ?_, fun limit jar => ?_⟩
  · simpa [Scratch.exists?] using hfresh
  · simp [Scratch.exists?, Scratch.add]
  · refine ⟨Scratch.contents?_append_add hfresh _, release_of_newPath h true _, ?_⟩
    rw [close_snd]
    exact release_of_newPath h false _

namespace UpdateCall

@[simp]
theorem after_scratch (c : UpdateCall) (s : UpdateState) : (c.after s).scratch = s.scratch :=
  Feature.update_scratch _ _ _ _ _ _

/-- Nor does a sequence of updates. -/
theorem run_scratch (s : UpdateState) (calls : List UpdateCall) :
    (run s calls).scratch = s.scratch := by
  induction calls generalizing s with
  | nil => rfl
  | cons c cs ih => rw [run_cons, ih, after_scratch]

/-- **No temporary file outlives an extraction.**

The files that there are, and their contents, are the same after an extraction as before it, in
either mode, whatever the stream, the nested archive and the limits, whatever the device does with
the file, and whether it succeeds or fails; so they are after a collection from any place of a walk,
and after any sequence of updates from any archives. In between there can be one file more: if a new
path is found, the jar of a component is copied to a file there, as far as the device takes it. The
file is gone when its object is released, be it closed or not. -/
theorem scratch_of_run :
    (∀ (lib : Library) (options : ExtractionOptions) (source : Bytes) (jar : Stream)
      (out : Manifest) (scratch : Scratch),
      (Extraction.component lib options source jar out scratch).2.2 = scratch) ∧
    (∀ (lib : Library) (options : ExtractionOptions) (w : Walk) (out : Collected)
      (scratch : Scratch), (Collection.collect lib options w out scratch).2.2 = scratch) ∧
    (∀ (s : UpdateState) (calls : List UpdateCall), (run s calls).scratch = s.scratch) ∧
    ∀ (options : ExtractionOptions) (scratch : Scratch) (path : Bytes),
      scratch.newPath options.directory Extraction.tempFileName = .ok path →
      ∃ file made, TempFile.create options.directory Extraction.tempFileName .none scratch =
          (.ok (), file, made) ∧
        scratch.exists? path = false ∧ made.exists? path = true ∧
        ∀ jar, let (copy, left) := file.copyFrom options.componentLimit jar made
          left.contents? path = some copy.written ∧ file.release left = scratch ∧
            (file.close left).2.release left = scratch := by
  refine ⟨Extraction.component_scratch, Collection.collect_scratch, run_scratch,
    fun options scratch path h => ?_⟩
  obtain ⟨file, made, hcreate, hnew, hmade, hcopy⟩ := TempFile.release_of_create h
  exact ⟨file, made, hcreate, hnew, hmade, hcopy options.componentLimit⟩

/-- A jar whose second byte does not come, and a disk on which there is no room, next to a file that
was there before. -/
theorem scratch_of_run_broken_jar : ∃ (s full : UpdateState) (call : UpdateCall),
    s.scratch.newPath call.options.directory Extraction.tempFileName =
      .ok (ascii "/tmp/unpackedBundle-000001") ∧
    call.Fails s ∧ call.Fails full ∧
    (run s [call, call]).scratch.files = [(ascii "/tmp/unpackedBundle-000000", ascii "kept")] ∧
    (run full [call, call]).scratch.files =
      [(ascii "/tmp/unpackedBundle-000000", ascii "kept")] := by
  let jar : Entry :=
    ⟨some (ascii "a.jar"), .file, none, ascii "xy", [], .ok, none, some (1, none), none⟩
  let call : UpdateCall :=
    ⟨.ofTables [([], .entries [jar])] [(ascii "f.esa", [])], ⟨ascii "/tmp", 9, 9, .tempFile⟩, [],
      ascii "f.esa"⟩
  let noRoom : Device := ⟨fun _ _ => .error (ascii "No space left on device"), fun _ => true⟩
  let on (device : Device) : UpdateState :=
    ⟨.unknown, ⟨⟨[], [[ascii "tmp"]], []⟩, device,
      [(ascii "/tmp/unpackedBundle-000000", ascii "kept")]⟩⟩
  have hfails : call.outcome (on .reliable) = .error (.collection (.extraction
      (.notCopied (ascii "a.jar") (.readFailed (ascii "/tmp/unpackedBundle-000001")))
      (ascii "f.esa"))) := by decide +kernel
  have hfull : call.outcome (on noRoom) = .error (.collection (.extraction
      (.notCopied (ascii "a.jar") (.writeFailed (ascii "/tmp/unpackedBundle-000001")
        (ascii "No space left on device"))) (ascii "f.esa"))) := by decide +kernel
  obtain ⟨-, -, hrun, -⟩ := scratch_of_run
  exact ⟨on .reliable, on noRoom, call, by decide +kernel, ⟨_, hfails⟩, ⟨_, hfull⟩, by rw [hrun],
    by rw [hrun]⟩

end UpdateCall

end JavaFloor
