import JavaFloor.Collection
import JavaFloor.Proofs.Archive.Stops
import JavaFloor.Proofs.Extraction.Modes

/-!
# Collecting entry by entry

A collection goes from stop to stop of a walk. Here it is followed along the entries of the archive
instead, one at a time.

* `componentManifest` and `subsystemManifest` are the manifests that are extracted on the way.
* `collectFrom_of_kind?`, `collectFrom_of_passed`, `collectFrom_of_skipFault` and
  `collectFrom_of_not_isReadable` say what becomes of the entry that comes next, and
  `collectFrom_nil` what becomes of a collection in the end.
* `visit` is what becomes of an entry that matters: `visit_component`, `visit_subsystemManifest`.
* `collectFrom_mapError` compares two collections visit by visit.
* `collectFrom_scratch`, `collect_scratch`: no collection changes the scratch space. `collect_of_ok`
  and `collect_of_error` say what then stands in the caller's place.
-/

namespace JavaFloor

/-- A walk over the archive at `path` that is not in an entry, with entries to come. -/
def Walk.outside (path : Bytes) (seen : Bool) (es : List Entry) : Walk :=
  ⟨path, some ⟨es, none, .empty, false, seen, false⟩⟩

/-- A walk that was just opened. -/
def Walk.opened (path : Bytes) (es : List Entry) : Walk := ⟨path, some (.start es)⟩

/-- With the failure of an extraction told in other words. -/
def CollectionError.mapExtraction (f : ExtractionError → ExtractionError) :
    CollectionError → CollectionError
  | .extraction e path => .extraction (f e) path
  | e => e

theorem CollectionError.mapExtraction_id : mapExtraction id = id := by
  funext e
  cases e <;> rfl

namespace Collection

variable {lib : Library} {options : ExtractionOptions} {g : Gathered} {w w' : Walk}
  {scratch : Scratch} {path : Bytes} {seen : Bool} {e : Entry} {es : List Entry} {kind : EntryKind}

/-! ## Single extractions -/

/-- The manifest of a component. -/
def componentManifest (lib : Library) (options : ExtractionOptions) (scratch : Scratch)
    (e : Entry) : Except ExtractionError Manifest :=
  Extraction.extracted lib options e.path e.stream scratch

/-- The manifest that the entry of a subsystem manifest is. -/
def subsystemManifest (options : ExtractionOptions) (e : Entry) : Except ExtractionError Manifest :=
  Extraction.extractedSubsystem options EntryPath.subsystemManifest e.stream

/-- What is gathered is the manifest that is extracted, and no extraction changes the scratch
space. -/
theorem extract_component {f : FeatureEntry} (hf : f.kind = .component) (content : Stream) :
    extract lib options g f content scratch =
      ((Extraction.extracted lib options f.path content scratch).map (g.addComponent f.path),
        scratch) := by
  simp only [extract, hf, Extraction.component_eq]
  cases Extraction.extracted lib options f.path content scratch <;> rfl

theorem extract_subsystemManifest {f : FeatureEntry} (hf : f.kind = .subsystemManifest)
    (content : Stream) :
    extract lib options g f content scratch =
      ((Extraction.extractedSubsystem options EntryPath.subsystemManifest content).map
        g.addSubsystem, scratch) := by
  simp only [extract, hf, Extraction.extractedSubsystem]
  rcases Extraction.subsystem options EntryPath.subsystemManifest content .empty with ⟨_ | _, m⟩ <;>
    rfl

theorem extract_scratch (lib : Library) (options : ExtractionOptions) (g : Gathered)
    (f : FeatureEntry) (content : Stream) (scratch : Scratch) :
    (extract lib options g f content scratch).2 = scratch := by
  cases hf : f.kind with
  | component => rw [extract_component hf]
  | subsystemManifest => rw [extract_subsystemManifest hf]

/-! ## The next step of a walk -/

theorem collectFrom_of_next_error {error : ArchiveError} (h : w.next lib = (.error error, w')) :
    collectFrom lib options g w scratch = (.error (.archive error), scratch) := by
  rw [collectFrom]
  split <;> simp_all

theorem collectFrom_of_next_none (h : w.next lib = (.ok none, w')) :
    collectFrom lib options g w scratch = (.ok g.collected, scratch) := by
  rw [collectFrom]
  split <;> simp_all

theorem collectFrom_of_next_some {f : FeatureEntry} (h : w.next lib = (.ok (some f), w')) :
    collectFrom lib options g w scratch =
      match (extract lib options g f w'.stream scratch).1 with
      | .error error => (.error (.extraction error w.path), scratch)
      | .ok g => collectFrom lib options g w'.finish scratch := by
  have hscratch := extract_scratch lib options g f w'.stream scratch
  rw [collectFrom]
  split
  next hnext => simp [h] at hnext
  next hnext => simp [h] at hnext
  next f' left hnext =>
    rw [h] at hnext
    obtain ⟨hf, rfl⟩ := Prod.mk.inj hnext
    obtain rfl := Option.some.inj (Except.ok.inj hf)
    rcases hextract : extract lib options g f w'.stream scratch with ⟨outcome, left⟩
    rw [hextract] at hscratch
    obtain rfl : left = scratch := hscratch
    cases outcome <;> rfl

/-- No collection changes the scratch space. -/
theorem collectFrom_scratch (lib : Library) (options : ExtractionOptions) (g : Gathered) (w : Walk)
    (scratch : Scratch) : (collectFrom lib options g w scratch).2 = scratch := by
  induction g, w, scratch using collectFrom.induct lib options with
  | case1 g w scratch error left hnext => rw [collectFrom_of_next_error hnext]
  | case2 g w scratch left hnext => rw [collectFrom_of_next_none hnext]
  | case3 g w scratch f w' hnext error left hextract =>
    rw [collectFrom_of_next_some hnext, hextract]
  | case4 g w scratch f w' hnext g' left hextract ih =>
    have hleft := extract_scratch lib options g f w'.stream scratch
    rw [hextract] at hleft
    obtain rfl : left = scratch := hleft
    rw [collectFrom_of_next_some hnext, hextract]
    exact ih

/-- Only the path and what lies ahead of a walk count. -/
theorem collectFrom_congr (h : w.next lib = w'.next lib) (hpath : w.path = w'.path) :
    collectFrom lib options g w scratch = collectFrom lib options g w' scratch := by
  rcases hnext : w'.next lib with ⟨error | _ | f, left⟩
  · rw [collectFrom_of_next_error (h.trans hnext), collectFrom_of_next_error hnext]
  · rw [collectFrom_of_next_none (h.trans hnext), collectFrom_of_next_none hnext]
  · rw [collectFrom_of_next_some (h.trans hnext), collectFrom_of_next_some hnext, hpath]

/-! ## The next entry of an archive -/

theorem next_outside (lib : Library) (path : Bytes) (seen : Bool) (es : List Entry) :
    (Walk.outside path seen es).next lib =
      ((Position.seek path seen es).1, ⟨path, some (Position.seek path seen es).2⟩) := rfl

/-- At the end of the archive, the collection is complete. -/
theorem collectFrom_nil : collectFrom lib options g (.outside path seen []) scratch =
    (.ok g.collected, scratch) :=
  collectFrom_of_next_none (next_outside lib path seen [])

/-- A header that cannot be read ends it. -/
theorem collectFrom_of_not_isReadable (hr : e.isReadable = false) :
    collectFrom lib options g (.outside path seen (e :: es)) scratch =
      (.error (.archive (.badHeader path e.message)), scratch) := by
  obtain ⟨behind, -, hseek⟩ := Position.seek_of_not_isReadable hr path seen es
  have hnext := next_outside lib path seen (e :: es)
  rw [hseek] at hnext
  exact collectFrom_of_next_error hnext

/-- An entry that does not matter is passed. -/
theorem collectFrom_of_passed (hr : e.isReadable = true) (hk : e.kind? seen = none)
    (hs : e.skipFault = none) :
    collectFrom lib options g (.outside path seen (e :: es)) scratch =
      collectFrom lib options g (.outside path seen es) scratch := by
  refine collectFrom_congr ?_ rfl
  rw [next_outside, next_outside, Position.seek_of_passed hr hk hs]

/-- If it cannot be skipped, it ends the collection. -/
theorem collectFrom_of_skipFault {reason : Option Bytes} (hr : e.isReadable = true)
    (hk : e.kind? seen = none) (hs : e.skipFault = some reason) :
    collectFrom lib options g (.outside path seen (e :: es)) scratch =
      (.error (.archive (.cannotPass path e.path reason)), scratch) := by
  have hnext := next_outside lib path seen (e :: es)
  rw [Position.seek_of_skipFault hr hk hs] at hnext
  exact collectFrom_of_next_error hnext

/-! ## The next entry that matters -/

/-- What an entry that matters adds to what was gathered. -/
def visit (lib : Library) (options : ExtractionOptions) (scratch : Scratch) (g : Gathered)
    (kind : EntryKind) (e : Entry) : Except ExtractionError Gathered :=
  (extract lib options g ⟨e.path, e.declaredSize, kind⟩ e.stream scratch).1

theorem visit_component : visit lib options scratch g .component e =
    (componentManifest lib options scratch e).map (g.addComponent e.path) :=
  congrArg Prod.fst (extract_component rfl e.stream)

theorem visit_subsystemManifest : visit lib options scratch g .subsystemManifest e =
    (subsystemManifest options e).map g.addSubsystem :=
  congrArg Prod.fst (extract_subsystemManifest rfl e.stream)

/-- An entry that matters is visited, and unless that fails the collection goes on behind it. -/
theorem collectFrom_of_kind? (hr : e.isReadable = true) (hk : e.kind? seen = some kind) :
    collectFrom lib options g (.outside path seen (e :: es)) scratch =
      match visit lib options scratch g kind e with
      | .error error => (.error (.extraction error path), scratch)
      | .ok g => collectFrom lib options g
          (.outside path (seen || kind == .subsystemManifest) es) scratch := by
  have hnext := next_outside lib path seen (e :: es)
  rw [Position.seek_of_kind? hr hk] at hnext
  rw [collectFrom_of_next_some hnext]
  show (match visit lib options scratch g kind e with | .error _ => _ | .ok _ => _) = _
  cases visit lib options scratch g kind e with
  | error error => rfl
  | ok g => exact collectFrom_congr rfl rfl

/-- If the visits of one collection fail like those of another one, told in other words, then so
does the collection. -/
theorem collectFrom_mapError {options' : ExtractionOptions} {scratch' : Scratch}
    {f : ExtractionError → ExtractionError}
    (h : ∀ g kind e, visit lib options scratch g kind e =
      (visit lib options' scratch' g kind e).mapError f) :
    (collectFrom lib options g (.outside path seen es) scratch).1 =
      (collectFrom lib options' g (.outside path seen es) scratch').1.mapError
        (.mapExtraction f) := by
  induction es generalizing g seen with
  | nil => rw [collectFrom_nil, collectFrom_nil]; rfl
  | cons e es ih =>
    cases hr : e.isReadable with
    | false => rw [collectFrom_of_not_isReadable hr, collectFrom_of_not_isReadable hr]; rfl
    | true =>
      cases hk : e.kind? seen with
      | none =>
        cases hs : e.skipFault with
        | some reason =>
          rw [collectFrom_of_skipFault hr hk hs, collectFrom_of_skipFault hr hk hs]; rfl
        | none => rw [collectFrom_of_passed hr hk hs, collectFrom_of_passed hr hk hs, ih]
      | some kind =>
        rw [collectFrom_of_kind? hr hk, collectFrom_of_kind? hr hk, h]
        cases visit lib options' scratch' g kind e with
        | error error => rfl
        | ok g => exact ih

/-! ## The whole collection -/

/-- What is collected takes the place of what was there. -/
theorem collect_of_ok {c : Collected} (h : (collectFrom lib options .nothing w scratch).1 = .ok c)
    (out : Collected) : collect lib options w out scratch = (.ok (), c, scratch) := by
  have hfrom : collectFrom lib options .nothing w scratch = (.ok c, scratch) :=
    Prod.ext h (collectFrom_scratch _ _ _ _ _)
  rw [collect, hfrom]

/-- If a collection fails, what was there stays. -/
theorem collect_of_error {error : CollectionError}
    (h : (collectFrom lib options .nothing w scratch).1 = .error error) (out : Collected) :
    collect lib options w out scratch = (.error error, out, scratch) := by
  have hfrom : collectFrom lib options .nothing w scratch = (.error error, scratch) :=
    Prod.ext h (collectFrom_scratch _ _ _ _ _)
  rw [collect, hfrom]

theorem collect_scratch (lib : Library) (options : ExtractionOptions) (w : Walk) (out : Collected)
    (scratch : Scratch) : (collect lib options w out scratch).2.2 = scratch := by
  cases h : (collectFrom lib options .nothing w scratch).1 with
  | ok c => rw [collect_of_ok h]
  | error e => rw [collect_of_error h]

end Collection

end JavaFloor
