import JavaFloor.Proofs.Collection.Complete
import JavaFloor.Proofs.Feature.Modes
import JavaFloor.Proofs.Resolution.Outcome

/-!
# How an update ends

An update fails while it collects, because a requirement cannot be read or because of a conflict, or
it publishes what it has found. Each of these outcomes is told by the archive and the table alone.

* `CollectionError.category_eq_or` and `Feature.isInfix_of_collectAt`: what fails while it collects
  is a failure at the archive or a missing manifest, and its message tells the path of the archive.
* `Feature.resolved_of_malformed` and `Feature.resolved_of_readable` are about what comes then.
* `Feature.nameAfter_eq`: a feature is called by the first of its possible names that is not empty.
  `Identity.exists_header` says what the value of a header is.
* `Feature.update_outcomes` puts this together.
-/

namespace JavaFloor

/-- A file that can be read to its end. -/
def Entry.file (name content : Bytes) : Entry :=
  ⟨some name, .file, none, content, [], .ok, none, none, none⟩

/-- A jar with a requirement header. -/
def Archive.jar (header : Bytes) : Archive :=
  .entries [.file EntryPath.jarManifest
    (Collection.requirementHeader ++ ascii ": " ++ header)]

/-- The value of a header stands in the manifest with nothing but whitespace around it, and has no
whitespace at its ends. Without manifest or header it is empty. -/
theorem Identity.exists_header (m : Option Manifest) (name : Bytes) :
    Bytes.IsTrimmed (Identity.header m name) ∧ ∃ front behind,
      (m.bind (·.find? name)).getD [] = front ++ (Identity.header m name ++ behind) ∧
        Bytes.IsSpace front ∧ Bytes.IsSpace behind :=
  ⟨Bytes.isTrimmed_trim _, Bytes.exists_trim _⟩

/-! ## Failures while collecting -/

/-- What goes wrong while collecting is a failure at the archive, or a manifest is missing. -/
theorem CollectionError.category_eq_or (e : CollectionError) :
    e.category = .archiveIo ∨ e.category = .missingManifest := by
  match e with
  | .archive _ => exact .inl rfl
  | .extraction cause _ =>
    cases cause with
    | tempFile | notCopied | notRead | noHandle => exact .inl rfl
    | notAnArchive | noManifest | brokenManifest | manifestTooLarge | subsystemNotRead
    | badManifest => exact .inr rfl

theorem ArchiveError.isInfix_located (what path : Bytes) (reason : Option Bytes) :
    path <:+: located what path reason :=
  ⟨what ++ ascii ": ", ascii " (" ++ reasonText reason ++ ascii ")", by simp [located]⟩

theorem CollectionError.isInfix_extraction (e : ExtractionError) (path : Bytes) :
    path <:+: (extraction e path).message :=
  ⟨e.message ++ ascii " (archive ", ascii ")", by simp [message]⟩

section

variable {lib : Library} {options : ExtractionOptions} {table : List Environment} {path : Bytes}
  {f : Feature} {scratch : Scratch} {c : Collected}

/-- A collection that fails tells the path of the archive. -/
theorem Collection.isInfix_of_collectFrom {g : Gathered} {seen : Bool} {es : List Entry}
    {e : CollectionError}
    (h : (collectFrom lib options g (.outside path seen es) scratch).1 = .error e) :
    path <:+: e.message := by
  induction es generalizing g seen with
  | nil => rw [collectFrom_nil] at h; cases h
  | cons x es ih =>
    cases hr : x.isReadable with
    | false =>
      rw [collectFrom_of_not_isReadable hr] at h
      obtain rfl := Except.error.inj h
      exact ArchiveError.isInfix_located _ path _
    | true =>
      cases hk : x.kind? seen with
      | none =>
        cases hs : x.skipFault with
        | some reason =>
          rw [collectFrom_of_skipFault hr hk hs] at h
          obtain rfl := Except.error.inj h
          exact ArchiveError.isInfix_located _ path _
        | none =>
          rw [collectFrom_of_passed hr hk hs] at h
          exact ih h
      | some kind =>
        rw [collectFrom_of_kind? hr hk] at h
        cases hvisit : visit lib options scratch g kind x with
        | ok g' =>
          rw [hvisit] at h
          exact ih h
        | error error =>
          rw [hvisit] at h
          obtain rfl := Except.error.inj h
          exact CollectionError.isInfix_extraction error path

namespace Feature

open Resolution

/-- So does one that fails to open the archive, if there is a handle to open it with. -/
theorem isInfix_of_collectAt {e : CollectionError} (hhandle : lib.openPath path ≠ .noHandle)
    (h : (collectAt lib options path scratch).1 = .error e) : path <:+: e.message := by
  rw [collectAt_eq] at h
  cases hopen : lib.openPath path with
  | noHandle => exact absurd hopen hhandle
  | unreadable reason =>
    rw [hopen] at h
    obtain rfl := Except.error.inj h
    exact ArchiveError.isInfix_located _ path _
  | entries es =>
    rw [hopen] at h
    exact Collection.isInfix_of_collectFrom h

theorem collectAt_of_isCollectable {es : List Entry} (hopen : lib.openPath path = .entries es)
    (h : Collection.IsCollectable lib options scratch false es) :
    (collectAt lib options path scratch).1 =
      .ok (Collection.Gathered.nothing.withAll lib options scratch false es).collected := by
  rw [collectAt_eq, hopen]
  exact Collection.collectFrom_eq_ok_iff.2 ⟨h, rfl⟩

/-! ## Resolving what was collected -/

/-- If a requirement cannot be read, the first of that kind is what the update complains of. -/
theorem resolved_of_malformed (h : ∃ s ∈ c.requirements, s.Malformed) (table : List Environment)
    (path : Bytes) (f : Feature) : ∃ s e, IsFirstMalformed c.requirements s ∧
      e.source = s.source ∧ resolved table path f c = .error (.malformed path e) := by
  obtain ⟨e, he⟩ := (foldlM_absorb_fails_iff (start table) c.requirements).2 h
  obtain ⟨s, hs, hsource⟩ := isFirstMalformed_of_resolve he
  exact ⟨s, e, hs, hsource, by rw [resolved, resolve, he]⟩

/-- If all can be read, it is a matter of the environments that they all admit. -/
theorem resolved_of_readable (h : ∀ s ∈ c.requirements, ¬ s.Malformed)
    (table : List Environment) (path : Bytes) (f : Feature) :
    ∃ r, resolve table c.requirements = .ok r ∧
      r.surviving = (table.filter fun e => ∀ s ∈ c.requirements, s.Admits e) ∧
      resolved table path f c =
        if r.isConflict then .error (.conflict (f.nameAfter path c.subsystem) r.trail)
        else .ok (publish (f.nameAfter path c.subsystem) r) := by
  obtain ⟨r, hr, hsurviving⟩ := exists_resolve_eq_ok table h
  exact ⟨r, hr, hsurviving, by rw [resolved, hr]⟩

/-! ## Names -/

/-- What a feature may be called after an update, in the order of preference: by its own name, by
the name, the short name and the symbolic name in the subsystem manifest, without whitespace around
them, and by the name of the archive's file. -/
def names (f : Feature) (path : Bytes) (subsystem : Option Manifest) : List Bytes :=
  let value (header : Bytes) : Bytes := Bytes.trim ((subsystem.bind (·.find? header)).getD [])
  [f.name, value (ascii "Subsystem-Name"), value (ascii "IBM-ShortName"),
    Bytes.trim ((value (ascii "Subsystem-SymbolicName")).takeWhile (· != Ascii.byte ';')),
    Bytes.afterLast Ascii.slash path]

/-- The first of several names that is not empty, and the empty one if there is none. -/
def firstName (names : List Bytes) : Bytes := (names.find? (· ≠ [])).getD []

theorem firstName_cons_of_ne_nil {name : Bytes} (h : name ≠ []) (names : List Bytes) :
    firstName (name :: names) = name := by
  rw [firstName, List.find?_cons_of_pos (by simp [h]), Option.getD_some]

theorem firstName_cons_nil (names : List Bytes) : firstName ([] :: names) = firstName names := by
  rw [firstName, List.find?_cons_of_neg (by simp), firstName]

theorem firstNonempty_eq (names : List Bytes) :
    Identity.firstNonempty names = firstName names := by
  induction names using Identity.firstNonempty.induct with
  | case1 => rfl
  | case2 name =>
    rcases eq_or_ne name [] with rfl | hname
    · rfl
    · rw [firstName_cons_of_ne_nil hname, Identity.firstNonempty]
  | case3 names hne ih =>
    rw [firstName_cons_nil, ← ih, Identity.firstNonempty, if_pos rfl]
    exact hne
  | case4 name names hne hname =>
    rw [firstName_cons_of_ne_nil hname, Identity.firstNonempty, if_neg hname]
    exact hne

theorem nameAfter_eq (f : Feature) (path : Bytes) (subsystem : Option Manifest) :
    f.nameAfter path subsystem = firstName (f.names path subsystem) := by
  rw [nameAfter, names]
  by_cases hname : f.name = []
  · rw [if_pos hname, hname, firstName_cons_nil]
    exact firstNonempty_eq _
  · rw [if_neg hname, firstName_cons_of_ne_nil hname]

/-! ## Outcomes -/

/-- What an update publishes of the sources `ss` if the first of the environments that they all
admit is `e`: where that environment ends, or where it starts if it has no end, and the filters of
the sources that drop others. -/
structure Publishes (table : List Environment) (ss : List SourceRequirement) (e : Environment)
    (j : JavaRequirement) : Prop where
  minimum : j.minimum = (e.range.ceiling.getD e.range.floor).version.text
  maximum : j.maximum = none
  directives : j.directives = none ↔ ∀ d ∈ table, ∀ s ∈ ss, s.Admits d
  last : ∀ filters ∈ j.directives, ∀ key directive, filters.find? key = some directive ↔
    IsLastDirective table ss key directive

theorem publishes_of_resolve {ss : List SourceRequirement} {r : Resolution}
    (h : resolve table ss = .ok r) {e : Environment} (he : r.surviving.head? = some e)
    (name : Bytes) : ∃ j, publish name r = ⟨name, some j⟩ ∧ Publishes table ss e j := by
  have hdirectives := directives_isEmpty_iff h
  refine ⟨_, rfl, ?_, rfl, ?_, ?_⟩
  · obtain ⟨rest, hs⟩ := List.head?_eq_some_iff.1 he
    simp [minimumVersion, hs]
  · rw [← hdirectives]
    by_cases hempty : r.directives.isEmpty <;> simp [hempty]
  · intro filters hfilters key directive
    obtain rfl : r.directives = filters := by
      by_cases hempty : r.directives.isEmpty <;> simp_all
    exact (follows_of_resolve h).last key directive

/-- **Every outcome of an update is of the right kind and tells where it comes from**, if there is a
handle to open the archive with.

If nothing can be collected, the failure is one at the archive or a missing manifest, and its
message tells the path of the archive. If a requirement that was collected cannot be read, the
message starts with that path and the source of the first such requirement, whatever the other
sources ask for. If there is no environment that all sources admit, there is a conflict, and the
message tells the name of the feature and, one by one, which source drops which environment. In all
these cases the feature stays as it was. Else the update succeeds, and the feature has that name
and what the first environment left and the sources that drop others give. -/
theorem update_outcomes (lib : Library) (options : ExtractionOptions) (table : List Environment)
    (path : Bytes) (f : Feature) (scratch : Scratch) (hhandle : lib.openPath path ≠ .noHandle) :
    (∀ e, (collectAt lib options path scratch).1 = .error e →
      ∃ u, f.update lib options table path scratch = (.error u, f, scratch) ∧
        (u.category = .archiveIo ∨ u.category = .missingManifest) ∧ path <:+: u.message) ∧
    ∀ c, (collectAt lib options path scratch).1 = .ok c →
      ((∃ s ∈ c.requirements, s.Malformed) →
        ∃ s u, IsFirstMalformed c.requirements s ∧
          f.update lib options table path scratch = (.error u, f, scratch) ∧
          u.category = .malformedRequirement ∧
          path ++ ascii ": " ++ s.source <+: u.message) ∧
      ((∀ s ∈ c.requirements, ¬ s.Malformed) →
        ((∀ e ∈ table, ∃ s ∈ c.requirements, ¬ s.Admits e) →
          ∃ u ds, f.update lib options table path scratch = (.error u, f, scratch) ∧
            u.category = .resolutionConflict ∧ TellsAll table c.requirements ds ∧
            u.message = ascii "ESA " ++ firstName (f.names path c.subsystem) ++
              ascii (" is invalid as no Java execution environment matches all the bundle " ++
                "requirements: ") ++
              Bytes.join (ascii " ") (ds.map fun d =>
                ascii "Manifest from " ++ d.source ++ ascii " with range " ++ d.attempted.render ++
                  ascii " caused env for " ++ d.label ++ ascii " to be removed.")) ∧
        ∀ e, (table.find? fun e => ∀ s ∈ c.requirements, s.Admits e) = some e →
          ∃ j, f.update lib options table path scratch =
              (.ok (), ⟨firstName (f.names path c.subsystem), some j⟩, scratch) ∧
            Publishes table c.requirements e j) := by
  refine ⟨fun e he => ?_, fun c hc => ⟨fun hm => ?_, fun hread => ?_⟩⟩
  · exact ⟨_, update_of_collectAt_error he, e.category_eq_or,
      isInfix_of_collectAt hhandle he⟩
  · obtain ⟨s, e, hs, hsource, hresolved⟩ := resolved_of_malformed hm table path f
    refine ⟨s, _, hs, by rw [update_of_collectAt_ok hc, hresolved], rfl, ?_⟩
    rw [← hsource]
    exact ⟨ascii ": " ++ e.fault.message,
      by simp [UpdateError.message, MalformedRequirement.message]⟩
  · obtain ⟨r, hr, hsurviving, hresolved⟩ := resolved_of_readable hread table path f
    rw [nameAfter_eq] at hresolved
    constructor
    · intro hrejects
      have hconflict : r.isConflict = true := by
        rw [isConflict, hsurviving, List.isEmpty_iff, List.filter_eq_nil_iff]
        simpa using hrejects
      rw [if_pos hconflict] at hresolved
      refine ⟨_, r.eliminations, by rw [update_of_collectAt_ok hc, hresolved], rfl,
        tellsAll_of_isConflict hr hconflict, rfl⟩
    · intro e he
      have hhead : r.surviving.head? = some e := by
        rw [hsurviving, List.head?_filter]
        exact he
      have hconflict : r.isConflict = false := by
        obtain ⟨rest, hs⟩ := List.head?_eq_some_iff.1 hhead
        rw [isConflict, hs]
        rfl
      obtain ⟨j, hj, hpublishes⟩ := publishes_of_resolve hr hhead _
      rw [hconflict, if_neg Bool.false_ne_true, hj] at hresolved
      exact ⟨j, by rw [update_of_collectAt_ok hc, hresolved], hpublishes⟩

/-- A component asks for Java 12, which no environment has, and the requirement of the next one
cannot be read. -/
theorem update_outcomes_malformed : ∃ (lib : Library) (c : Collected) (u : UpdateError),
    (collectAt lib ⟨[], 99, 99, .memory⟩ (ascii "f.esa") (.ofTree ⟨[], [], []⟩)).1 = .ok c ∧
    c.requirements = [⟨ascii "a.jar", SourceRequirement.javaHeader (.javaRelease 12)⟩,
      ⟨ascii "b.jar", ascii ";osgi.ee"⟩] ∧
    (Feature.unknown.update lib ⟨[], 99, 99, .memory⟩ javaEnvironments (ascii "f.esa")
      (.ofTree ⟨[], [], []⟩)).1 = .error u ∧
    u.category = .malformedRequirement ∧ ascii "f.esa: b.jar" <+: u.message := by
  let a : Entry := .file (ascii "a.jar") (ascii "a")
  let b : Entry := .file (ascii "b.jar") (ascii "b")
  let newer : SourceRequirement :=
    ⟨ascii "a.jar", SourceRequirement.javaHeader (.javaRelease 12)⟩
  let broken : SourceRequirement := ⟨ascii "b.jar", ascii ";osgi.ee"⟩
  let lib : Library := .ofTables
    [(ascii "a", .jar newer.header), (ascii "b", .jar broken.header), ([], .entries [a, b])]
    [(ascii "f.esa", [])]
  let options : ExtractionOptions := ⟨[], 99, 99, .memory⟩
  let scratch : Scratch := .ofTree ⟨[], [], []⟩
  have hopen : lib.openPath (ascii "f.esa") = .entries [a, b] := by decide +kernel
  obtain ⟨c, hc, hrequirements⟩ : ∃ c, (collectAt lib options (ascii "f.esa") scratch).1 = .ok c ∧
      c.requirements = [newer, broken] :=
    ⟨_, collectAt_of_isCollectable hopen (by decide +kernel), by decide +kernel⟩
  have hread : ¬ newer.Malformed :=
    (SourceRequirement.demands_javaHeader (by rw [Version.IsRead]; decide +kernel) _).not_malformed
  have hbroken : broken.Malformed := by
    have hfail : (Clause.parseHeader broken.header).map SourceRequirement.directive? =
        .error (.noNamespace broken.header) := by decide +kernel
    exact .header (map_eq_error hfail)
  obtain ⟨-, hcollected⟩ := update_outcomes lib options javaEnvironments (ascii "f.esa") .unknown
    scratch (by rw [hopen]; nofun)
  obtain ⟨s, u, ⟨before, after, hs, hm, -⟩, hu, hcategory, hmessage⟩ :=
    (hcollected c hc).1 ⟨broken, by simp [hrequirements], hbroken⟩
  obtain rfl : s = broken := by
    rw [hrequirements] at hs
    rcases before with _ | ⟨_, _ | ⟨_, _⟩⟩
    · cases hs
      exact absurd hm hread
    · cases hs
      rfl
    · simp at hs
  exact ⟨lib, c, u, hc, hrequirements, by rw [hu], hcategory, hmessage⟩

end Feature

end

end JavaFloor
