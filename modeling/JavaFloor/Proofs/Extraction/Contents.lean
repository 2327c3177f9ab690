import JavaFloor.Proofs.Bytes
import JavaFloor.Proofs.Extraction.Modes

/-!
# What an extraction depends on

An extraction reads a jar piece by piece, and then the content of an entry in this jar in the same
way. Whether it succeeds, and with which manifest, depends on the bytes that come in the end. The
limits hold for these bytes, wherever one piece ends and the next one starts.

* `Extraction.HoldsManifest` says when a manifest can be read in an opened jar, and
  `Extraction.manifestText_eq_ok_iff` that it is found then.
* `Library.inPieces` is a library that gives the contents of entries in other pieces;
  `Extraction.extracted_inPieces`: an extraction does not notice.
* `Extraction.extracted_eq_ok_iff` and `Extraction.category_of_extracted` say when an extraction
  succeeds, and how it fails.
* `Extraction.component_of_contents` puts this together.
-/

namespace JavaFloor

namespace Archive

/-- Words can count what is read of each entry. -/
def IsCountable (limit : UInt64) : Archive → Prop
  | .entries es => ∀ e ∈ es, e.stream.Countable limit
  | _ => True

/-- Every reading of the content of an entry gives a byte at least where there are bytes left. -/
def Flows : Archive → Prop
  | .entries es => ∀ e ∈ es, e.Flows
  | _ => True

/-- The same archive, but the contents of its entries come in other pieces. -/
def inPieces (turns : Entry → List Turn) : Archive → Archive
  | .entries es => .entries (es.map fun e => { e with turns := turns e })
  | a => a

end Archive

/-- The same archives, but the contents of their entries come in other pieces. -/
def Library.inPieces (turns : Entry → List Turn) (lib : Library) : Library :=
  { lib with decode := fun bytes => (lib.decode bytes).inPieces turns }

/-- How a content comes does not change what it is. -/
theorem Entry.delivery_withTurns {e : Entry} {turns : List Turn} (he : e.Flows)
    (hturns : ∀ t ∈ turns, t.Flows) :
    ({ e with turns := turns } : Entry).stream.delivery = e.stream.delivery := by
  have hsame : ({ e with turns := turns } : Entry).stream = { e.stream with turns := turns } := by
    simp only [Entry.stream, Stream.ofContent]
    split
    · split <;> rfl
    · rfl
  have hflows : ({ e.stream with turns := turns } : Stream).Flows := hturns
  rw [hsame, Stream.delivery_of_flows hflows, Stream.delivery_of_flows he.stream]

namespace Extraction

/-- A temporary file can be made, written and closed, if one is asked for. -/
def Usable (options : ExtractionOptions) (scratch : Scratch) : Prop :=
  options.mode = .tempFile → scratch.device.Works ∧
    ∃ path, scratch.newPath options.directory tempFileName = .ok path

/-- The archive holds a manifest: `text` is what the first entry at the place of a manifest
delivers, all headers up to the one of this entry can be read, and so can its content, which is not
too long. What stands behind the entry does not matter. -/
inductive HoldsManifest (limit : UInt64) : Archive → Bytes → Prop
  | intro (front : List Entry) {e : Entry} (behind : List Entry)
      (before : ∀ x ∈ front,
        x.isReadable = true ∧ ¬ Bytes.SameLetters x.path EntryPath.jarManifest)
      (readable : e.isReadable = true) (place : Bytes.SameLetters e.path EntryPath.jarManifest)
      (arrives : e.stream.delivery.Arrives limit) :
      HoldsManifest limit (.entries (front ++ e :: behind)) e.stream.delivery.bytes

variable {lib : Library} {options : ExtractionOptions} {source text : Bytes} {jar : Stream}
  {scratch : Scratch} {limit : UInt64} {a : Archive} {e : Entry} {es : List Entry}
  {error : ExtractionError} {m : Manifest}

/-! ## Opened jars -/

/-- A jar holds a manifest if its first entry is one, or if this entry is another one and there is a
manifest behind it. -/
theorem holdsManifest_cons_iff : HoldsManifest limit (.entries (e :: es)) text ↔
    e.isReadable = true ∧
      (Bytes.SameLetters e.path EntryPath.jarManifest ∧
          e.stream.delivery.outcome limit = .ok text ∨
        ¬ Bytes.SameLetters e.path EntryPath.jarManifest ∧
          HoldsManifest limit (.entries es) text) := by
  rw [Delivery.outcome_eq_ok_iff]
  constructor
  · generalize ha : Archive.entries (e :: es) = a
    rintro ⟨front, behind, before, readable, place, arrives⟩
    cases front with
    | nil =>
      obtain ⟨rfl, rfl⟩ := List.cons.inj (Archive.entries.inj ha)
      exact ⟨readable, .inl ⟨place, arrives, rfl⟩⟩
    | cons y front =>
      obtain ⟨rfl, rfl⟩ := List.cons.inj (Archive.entries.inj ha)
      obtain ⟨⟨hreadable, hplace⟩, hfront⟩ := List.forall_mem_cons.1 before
      exact ⟨hreadable, .inr ⟨hplace, .intro front behind hfront readable place arrives⟩⟩
  · rintro ⟨readable, ⟨place, arrives, rfl⟩ | ⟨hplace, h⟩⟩
    · exact .intro [] es (by simp) readable place arrives
    · generalize ha : Archive.entries es = a at h
      obtain ⟨front, behind, before, readable', place, arrives⟩ := h
      obtain rfl := Archive.entries.inj ha
      exact .intro (e :: front) behind (List.forall_mem_cons.2 ⟨⟨readable, hplace⟩, before⟩)
        readable' place arrives

/-- The search finds the manifest that an opened jar holds. -/
theorem findManifest_eq_ok_iff (hcount : ∀ e ∈ es, e.stream.Countable limit) :
    findManifest source limit es = .ok text ↔ HoldsManifest limit (.entries es) text := by
  induction es with
  | nil =>
    refine iff_of_false (by simp [findManifest]) fun h => ?_
    generalize ha : Archive.entries [] = a at h
    cases h
    simp at ha
  | cons e es ih =>
    obtain ⟨he, hes⟩ := List.forall_mem_cons.1 hcount
    rw [holdsManifest_cons_iff, ← ih hes, findManifest, Stream.readAll_eq he,
      ← Bytes.equalFold_iff, ← EntryPath.isJarManifest]
    cases e.isReadable with
    | false => simp
    | true =>
      cases EntryPath.isJarManifest e.path with
      | false => simp
      | true =>
        simp only [if_true, true_and, not_true_eq_false, false_and, or_false]
        rcases e.stream.delivery.outcome limit with (_ | _) | bytes <;> simp

theorem manifestText_eq_ok_iff (ha : a.IsCountable limit) :
    manifestText source limit a = .ok text ↔ HoldsManifest limit a text := by
  cases a with
  | noHandle | unreadable => exact iff_of_false nofun nofun
  | entries es => exact findManifest_eq_ok_iff ha

/-- All that can be wrong with an opened jar is a missing manifest. -/
theorem category_of_findManifest (h : findManifest source limit es = .error error) :
    error.category = .missingManifest := by
  induction es with
  | nil =>
    obtain rfl := Except.error.inj h
    rfl
  | cons e es ih =>
    rw [findManifest] at h
    split at h
    next =>
      split at h
      next =>
        split at h
        · cases h
        all_goals
          obtain rfl := Except.error.inj h
          rfl
      next => exact ih h
    next =>
      obtain rfl := Except.error.inj h
      rfl

theorem category_of_manifestText (ha : a ≠ .noHandle)
    (h : manifestText source limit a = .error error) : error.category = .missingManifest := by
  cases a with
  | noHandle => exact absurd rfl ha
  | unreadable reason =>
    obtain rfl := Except.error.inj h
    rfl
  | entries es => exact category_of_findManifest h

theorem parseManifest_eq_ok_iff : parseManifest source text = .ok m ↔ Manifest.parse text = .ok m :=
  mapError_eq_ok_iff

theorem category_of_parseManifest (h : parseManifest source text = .error error) :
    error.category = .missingManifest := by
  obtain ⟨e, -, rfl⟩ := mapError_eq_error h
  rfl

/-! ## Jars that arrive -/

/-- By way of the memory a jar is opened if it arrives. -/
theorem textFromMemory_eq (hjar : jar.Countable options.componentLimit) :
    textFromMemory lib options source jar =
      ((jar.delivery.outcome options.componentLimit).mapError (.notRead source)).bind fun bytes =>
        manifestText source options.manifestLimit (lib.decode bytes) := by
  rw [textFromMemory, Stream.readAll_eq hjar]
  cases jar.delivery.outcome options.componentLimit <;> rfl

/-- In both modes the text is that of memory mode, with an error perhaps told in other words. -/
theorem exists_componentText_eq (husable : Usable options scratch) (source : Bytes) :
    ∃ tell : ExtractionError → ExtractionError, (∀ e, (tell e).category = e.category) ∧
      ∀ (lib : Library) (jar : Stream), (componentText lib options source jar scratch).1 =
        (textFromMemory lib options source jar).mapError tell := by
  cases hmode : options.mode with
  | memory => exact ⟨id, fun _ => rfl, fun lib jar => by rw [componentText, hmode, mapError_id]⟩
  | tempFile =>
    obtain ⟨hworks, path, hpath⟩ := husable hmode
    refine ⟨.viaFile path, fun e => e.category_viaFile path, fun lib jar => ?_⟩
    rw [componentText, hmode]
    exact congrArg Prod.fst (textFromFile_eq hworks hpath)

/-- **An extraction succeeds if the jar arrives and holds a manifest.** -/
theorem extracted_eq_ok_iff (husable : Usable options scratch)
    (hjar : jar.Countable options.componentLimit)
    (hentries : (lib.decode jar.delivery.bytes).IsCountable options.manifestLimit) :
    extracted lib options source jar scratch = .ok m ↔
      jar.delivery.Arrives options.componentLimit ∧ ∃ text,
        HoldsManifest options.manifestLimit (lib.decode jar.delivery.bytes) text ∧
          Manifest.parse text = .ok m := by
  obtain ⟨tell, -, htell⟩ := exists_componentText_eq husable source
  rw [extracted_eq, htell, textFromMemory_eq hjar]
  constructor
  · intro h
    obtain ⟨text, htext, hparse⟩ := bind_eq_ok h
    obtain ⟨bytes, hbytes, htext⟩ := bind_eq_ok (mapError_eq_ok_iff.1 htext)
    obtain ⟨harrives, rfl⟩ := Delivery.outcome_eq_ok_iff.1 (mapError_eq_ok_iff.1 hbytes)
    exact ⟨harrives, text, (manifestText_eq_ok_iff hentries).1 htext,
      parseManifest_eq_ok_iff.1 hparse⟩
  · rintro ⟨harrives, text, htext, hparse⟩
    rw [Delivery.outcome_eq_ok_iff.2 ⟨harrives, rfl⟩]
    simp only [Except.mapError, Except.bind, (manifestText_eq_ok_iff hentries).2 htext]
    exact parseManifest_eq_ok_iff.2 hparse

/-- By way of the memory, a failure is one of the archive if the jar does not arrive, and a missing
manifest if it does. -/
theorem category_of_textFromMemory (hjar : jar.Countable options.componentLimit)
    (h : textFromMemory lib options source jar = .error error) :
    (¬ jar.delivery.Arrives options.componentLimit → error.category = .archiveIo) ∧
      (jar.delivery.Arrives options.componentLimit →
        lib.decode jar.delivery.bytes ≠ .noHandle → error.category = .missingManifest) := by
  rw [textFromMemory_eq hjar] at h
  rcases bind_eq_error h with hread | ⟨bytes, hread, htext⟩
  · obtain ⟨fault, hfault, rfl⟩ := mapError_eq_error hread
    refine ⟨fun _ => rfl, fun harrives => ?_⟩
    cases hfault.symm.trans (Delivery.outcome_eq_ok_iff.2 ⟨harrives, rfl⟩)
  · obtain ⟨harrives, rfl⟩ := Delivery.outcome_eq_ok_iff.1 (mapError_eq_ok_iff.1 hread)
    exact ⟨fun hlost => absurd harrives hlost,
      fun _ hhandle => category_of_manifestText hhandle htext⟩

/-- So it is in both modes. -/
theorem category_of_extracted (husable : Usable options scratch)
    (hjar : jar.Countable options.componentLimit)
    (h : extracted lib options source jar scratch = .error error) :
    (¬ jar.delivery.Arrives options.componentLimit → error.category = .archiveIo) ∧
      (jar.delivery.Arrives options.componentLimit →
        lib.decode jar.delivery.bytes ≠ .noHandle → error.category = .missingManifest) := by
  obtain ⟨tell, hcategory, htell⟩ := exists_componentText_eq husable source
  rw [extracted_eq, htell] at h
  rcases bind_eq_error h with htext | ⟨text, htext, hparse⟩
  · obtain ⟨e, he, rfl⟩ := mapError_eq_error htext
    rw [hcategory]
    exact category_of_textFromMemory hjar he
  · refine ⟨fun hlost => absurd ?_ hlost, fun _ _ => category_of_parseManifest hparse⟩
    rw [mapError_eq_ok_iff, textFromMemory_eq hjar] at htext
    obtain ⟨bytes, hbytes, -⟩ := bind_eq_ok htext
    exact (Delivery.outcome_eq_ok_iff.1 (mapError_eq_ok_iff.1 hbytes)).1

/-! ## Other pieces -/

theorem findManifest_inPieces {pieces : Entry → List Turn} (hes : ∀ e ∈ es, e.Flows)
    (hcount : ∀ e ∈ es, e.stream.Countable limit) (hpieces : ∀ e, ∀ t ∈ pieces e, t.Flows) :
    findManifest source limit (es.map fun e => { e with turns := pieces e }) =
      findManifest source limit es := by
  induction es with
  | nil => rfl
  | cons e es ih =>
    obtain ⟨he, hes⟩ := List.forall_mem_cons.1 hes
    obtain ⟨hcounte, hcount⟩ := List.forall_mem_cons.1 hcount
    have hdelivery := Entry.delivery_withTurns he (hpieces e)
    have hcounte' : ({ e with turns := pieces e } : Entry).stream.Countable limit := by
      rw [Stream.Countable, hdelivery]
      exact hcounte
    rw [List.map_cons, findManifest, findManifest, ih hes hcount, Stream.readAll_eq hcounte,
      Stream.readAll_eq hcounte', hdelivery]
    rfl

theorem manifestText_inPieces {pieces : Entry → List Turn} (ha : a.Flows)
    (hcount : a.IsCountable limit) (hpieces : ∀ e, ∀ t ∈ pieces e, t.Flows) :
    manifestText source limit (a.inPieces pieces) = manifestText source limit a := by
  cases a with
  | noHandle | unreadable => rfl
  | entries es => exact findManifest_inPieces ha hcount hpieces

/-- **An extraction does not notice in which pieces a jar and its entries come.** -/
theorem extracted_inPieces {turns : List Turn} {pieces : Entry → List Turn}
    (husable : Usable options scratch) (hjar : jar.Countable options.componentLimit)
    (hentries : (lib.decode jar.delivery.bytes).IsCountable options.manifestLimit)
    (hflows : jar.Flows) (hturns : ∀ t ∈ turns, t.Flows)
    (hdecoded : (lib.decode jar.delivery.bytes).Flows) (hpieces : ∀ e, ∀ t ∈ pieces e, t.Flows) :
    extracted (lib.inPieces pieces) options source { jar with turns := turns } scratch =
      extracted lib options source jar scratch := by
  obtain ⟨tell, -, htell⟩ := exists_componentText_eq husable source
  have hflows' : ({ jar with turns := turns } : Stream).Flows := hturns
  have hdelivery : ({ jar with turns := turns } : Stream).delivery = jar.delivery := by
    rw [Stream.delivery_of_flows hflows', Stream.delivery_of_flows hflows]
  have hjar' : ({ jar with turns := turns } : Stream).Countable options.componentLimit := by
    rw [Stream.Countable, hdelivery]
    exact hjar
  rw [extracted_eq, extracted_eq, htell, htell, textFromMemory_eq hjar, textFromMemory_eq hjar',
    hdelivery]
  cases hread : jar.delivery.outcome options.componentLimit with
  | error fault => rfl
  | ok bytes =>
    obtain ⟨-, rfl⟩ := Delivery.outcome_eq_ok_iff.1 hread
    simp only [Except.mapError, Except.bind, Library.inPieces,
      manifestText_inPieces hdecoded hentries hpieces]

/-- **An extraction depends on contents only**, never on the pieces in which they come.

If a temporary file can be made, written and closed in file mode, and words can count the bytes,
then a manifest is extracted if and only if the jar comes to its end within its limit, the archive
that its bytes are holds a manifest within the limit for manifests, and the text of that one can be
read; it is the manifest that then stands in the caller's place. Otherwise the manifest that the
caller had stays, and the failure is one of the archive if the jar did not arrive, and a missing
manifest if it did and there was a handle to open it with.

What is delivered of a stream, or of an entry, are its bytes, with what comes behind them, if every
reading gives a byte as long as there is one and none fails before. All of the above is then the
same if the jar and the contents of its entries come in any other pieces. -/
theorem component_of_contents (lib : Library) (options : ExtractionOptions) (source : Bytes)
    (jar : Stream) (out : Manifest) (scratch : Scratch) (husable : Usable options scratch)
    (hjar : jar.Countable options.componentLimit)
    (hentries : (lib.decode jar.delivery.bytes).IsCountable options.manifestLimit) :
    let result := component lib options source jar out scratch
    (∀ m, result.1 = .ok () ∧ result.2.1 = m ↔
      jar.delivery.Arrives options.componentLimit ∧ ∃ text,
        HoldsManifest options.manifestLimit (lib.decode jar.delivery.bytes) text ∧
          Manifest.parse text = .ok m) ∧
    (∀ error, result.1 = .error error → result.2.1 = out ∧
      (¬ jar.delivery.Arrives options.componentLimit → error.category = .archiveIo) ∧
      (jar.delivery.Arrives options.componentLimit →
        lib.decode jar.delivery.bytes ≠ .noHandle → error.category = .missingManifest)) ∧
    (jar.Flows → jar.delivery = ⟨jar.pending, jar.ending⟩) ∧
    (∀ (e : Entry) (limit : UInt64) (text : Bytes), e.Flows →
      (e.stream.delivery.Arrives limit ∧ e.stream.delivery.bytes = text ↔
        e.IsIntact ∧ e.content.length ≤ limit.toNat ∧ e.content = text)) ∧
    ∀ (turns : List Turn) (pieces : Entry → List Turn), jar.Flows →
      (lib.decode jar.delivery.bytes).Flows → (∀ t ∈ turns, t.Flows) →
      (∀ e, ∀ t ∈ pieces e, t.Flows) →
      component (lib.inPieces pieces) options source { jar with turns := turns } out scratch =
        result := by
  intro result
  refine ⟨fun m => ?_, fun error herror => ?_, Stream.delivery_of_flows,
    fun e limit text he => Entry.arrives_iff_of_flows he, fun turns pieces hf hd ht hp => ?_⟩
  · exact component_eq_ok_iff.trans (extracted_eq_ok_iff husable hjar hentries)
  · have hextracted := component_eq_error_iff.1 herror
    exact ⟨by simp only [result, component_of_error hextracted],
      category_of_extracted husable hjar hextracted⟩
  · have hsame :
        extracted (lib.inPieces pieces) options source { jar with turns := turns } scratch =
          extracted lib options source jar scratch :=
      extracted_inPieces husable hjar hentries hf ht hd hp
    simp only [result, component_eq, hsame]

/-- Limits that are just reached, and one that is not enough, on a device that takes one byte at a
time. The content of the first entry and the header of the last one cannot be read, which is not
asked for. -/
theorem component_of_contents_at_limits : ∃ (lib : Library) (scratch : Scratch) (m : Manifest),
    let jar : Stream := ⟨ascii "jar", [.gives 2], .finished⟩
    let fits := component lib ⟨ascii "/tmp", 3, 4, .tempFile⟩ (ascii "a.jar") jar m scratch
    let exceeds := component lib ⟨ascii "/tmp", 2, 4, .tempFile⟩ (ascii "a.jar") jar m scratch
    (fits.1 = .ok () ∧ fits.2.1 = ⟨[(ascii "A", ascii "b")]⟩) ∧
      ∃ error, exceeds.1 = .error error ∧ exceeds.2.1 = m ∧ error.category = .archiveIo := by
  let front : Entry :=
    ⟨some (ascii "A.class"), .file, none, ascii "x", [], .warn, none, some (0, none), none⟩
  let manifest : Entry :=
    ⟨some (ascii "./meta-inf//Manifest.mf"), .file, none, ascii "A: b", [.gives 1], .ok, none,
      some (5, none), none⟩
  let last : Entry := ⟨none, .file, none, [], [], .fatal, none, none, none⟩
  let lib : Library := .ofTables [(ascii "jar", .entries [front, manifest, last])] []
  let bytewise : Device := ⟨fun _ _ => .ok 0, fun _ => true⟩
  let scratch : Scratch := ⟨⟨[], [[ascii "tmp"]], []⟩, bytewise, []⟩
  let jar : Stream := ⟨ascii "jar", [.gives 2], .finished⟩
  let m : Manifest := ⟨[(ascii "B", ascii "c")]⟩
  have hdelivery : jar.delivery = ⟨ascii "jar", .finished⟩ := Stream.delivery_of_flows (by decide)
  have hcount : ∀ limit, jar.Countable limit :=
    fun limit => Stream.countable_of_length (by decide)
  have hpath : scratch.newPath (ascii "/tmp") tempFileName =
      .ok (ascii "/tmp/unpackedBundle-000000") := by decide +kernel
  have husable : ∀ limit, Usable ⟨ascii "/tmp", limit, 4, .tempFile⟩ scratch :=
    fun _ _ => ⟨⟨fun _ _ => ⟨0, rfl⟩, fun _ => rfl⟩, _, hpath⟩
  have hentries : (lib.decode jar.delivery.bytes).IsCountable 4 := by
    rw [hdelivery]
    change ∀ e ∈ [front, manifest, last], e.stream.Countable 4
    exact fun e _ => .inl (by decide)
  have hholds : HoldsManifest 4 (lib.decode jar.delivery.bytes) (ascii "A: b") := by
    have hfront : front.isReadable = true ∧
        ¬ Bytes.SameLetters front.path EntryPath.jarManifest :=
      ⟨rfl, mt Bytes.equalFold_iff.2 (by decide +kernel)⟩
    have hmanifest : manifest.stream.delivery = ⟨ascii "A: b", .finished⟩ :=
      Stream.delivery_of_flows (by decide +kernel)
    have harrives : manifest.stream.delivery.Arrives 4 := by
      rw [hmanifest]
      exact ⟨rfl, by decide⟩
    have hintro := HoldsManifest.intro [front] [last] (List.forall_mem_singleton.2 hfront) rfl
      (Bytes.equalFold_iff.1 (by decide +kernel)) harrives
    rw [hdelivery]
    rwa [hmanifest] at hintro
  obtain ⟨hok, -⟩ := component_of_contents lib ⟨ascii "/tmp", 3, 4, .tempFile⟩ (ascii "a.jar") jar m
    scratch (husable 3) (hcount 3) hentries
  obtain ⟨hok', herror, -⟩ := component_of_contents lib ⟨ascii "/tmp", 2, 4, .tempFile⟩
    (ascii "a.jar") jar m scratch (husable 2) (hcount 2) hentries
  have hfits : jar.delivery.Arrives 3 := by
    rw [hdelivery]
    exact ⟨rfl, by decide⟩
  have hlost : ¬ jar.delivery.Arrives 2 := by
    rw [hdelivery]
    exact fun h => absurd h.length_le (by decide)
  refine ⟨lib, scratch, m, (hok _).2 ⟨hfits, _, hholds, by decide +kernel⟩, ?_⟩
  cases hresult :
      (component lib ⟨ascii "/tmp", 2, 4, .tempFile⟩ (ascii "a.jar") jar m scratch).1 with
  | ok u => exact absurd ((hok' _).1 ⟨hresult, rfl⟩).1 hlost
  | error error => exact ⟨error, rfl, (herror error hresult).1, (herror error hresult).2.1 hlost⟩

end Extraction

end JavaFloor
