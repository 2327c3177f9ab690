import JavaFloor.Proofs.Collection.Entries

/-!
# Nothing is lost in a collection, and nothing counted twice

What a collection from an archive gives is said of the archive as a whole: of its components, in
their order, and of its first subsystem manifest.

* `IsCollectable` is what it takes for a collection to succeed, `Gathered.withAll` what is gathered
  then.
* `collectFrom_eq_ok_iff` follows a collection along the entries.
* `collectFrom_insert`: an entry that does not matter makes no difference, wherever it stands.
* `collect_complete` puts this together.
-/

namespace JavaFloor

namespace Collection

/-- The requirement of a component, if its manifest has the header. -/
def componentRequirement? (lib : Library) (options : ExtractionOptions) (scratch : Scratch)
    (e : Entry) : Option SourceRequirement :=
  (componentManifest lib options scratch e).toOption.bind (requirement? e.path)

section

variable (lib : Library) (options : ExtractionOptions) (scratch : Scratch)

/-- What it takes to collect from the entries to come. -/
@[mk_iff]
structure IsCollectable (seen : Bool) (es : List Entry) : Prop where
  free : Walk.IsUnhinderedAfter seen es
  components : ∀ e ∈ es.filter Entry.isComponent,
    ∃ m, componentManifest lib options scratch e = .ok m
  subsystem : seen = false → ∀ e ∈ es.find? Entry.isSubsystem,
    ∃ m, subsystemManifest options e = .ok m

instance (seen : Bool) (es : List Entry) :
    Decidable (IsCollectable lib options scratch seen es) :=
  decidable_of_iff' _ (isCollectable_iff lib options scratch seen es)

/-- What was gathered together with what is gathered from the entries to come. -/
def Gathered.withAll (g : Gathered) (seen : Bool) (es : List Entry) : Gathered where
  requirements :=
    ((es.filter Entry.isComponent).filterMap
      (componentRequirement? lib options scratch)).reverse ++ g.requirements
  subsystem :=
    if seen then g.subsystem
    else ((es.find? Entry.isSubsystem).bind fun e => (subsystemManifest options e).toOption).or
      g.subsystem
  components := g.components + (es.filter Entry.isComponent).length

end

variable {lib : Library} {options : ExtractionOptions} {g : Gathered} {scratch : Scratch}
  {path : Bytes} {seen : Bool} {e : Entry} {es : List Entry} {c : Collected}

/-! ## One entry -/

/-- An entry that does not matter must be readable and must not be in the way. -/
theorem isCollectable_of_none (hk : e.kind? seen = none) :
    IsCollectable lib options scratch seen (e :: es) ↔ e.isReadable = true ∧
      e.skipFault = none ∧ IsCollectable lib options scratch seen es := by
  obtain ⟨hc, hs⟩ := Entry.kind?_eq_none_iff.1 hk
  have hfind : seen = false → (e :: es).find? Entry.isSubsystem = es.find? Entry.isSubsystem := by
    rintro rfl
    exact List.find?_cons_of_neg (by simpa using hs)
  rw [isCollectable_iff, isCollectable_iff, Walk.isUnhinderedAfter_of_none hk,
    List.filter_cons_of_neg (by simp [hc])]
  constructor
  · rintro ⟨⟨hr, hskip, hfree⟩, hcomponents, hsubsystem⟩
    exact ⟨hr, hskip, hfree, hcomponents, fun h => hfind h ▸ hsubsystem h⟩
  · rintro ⟨hr, hskip, hfree, hcomponents, hsubsystem⟩
    exact ⟨⟨hr, hskip, hfree⟩, hcomponents, fun h => (hfind h).symm ▸ hsubsystem h⟩

theorem withAll_of_none (hk : e.kind? seen = none) :
    g.withAll lib options scratch seen (e :: es) = g.withAll lib options scratch seen es := by
  obtain ⟨hc, hs⟩ := Entry.kind?_eq_none_iff.1 hk
  cases seen with
  | true => simp [Gathered.withAll, hc]
  | false =>
    replace hs : e.isSubsystem = false := by simpa using hs
    simp [Gathered.withAll, hc, hs]

/-- The manifest of a component must be found. -/
theorem isCollectable_of_component (hc : e.isComponent = true) :
    IsCollectable lib options scratch seen (e :: es) ↔ e.isReadable = true ∧
      (∃ m, componentManifest lib options scratch e = .ok m) ∧
      IsCollectable lib options scratch seen es := by
  have hs := Entry.isSubsystem_of_isComponent hc
  have hfree := Walk.isUnhinderedAfter_of_kind?
    (Entry.kind?_eq_component_iff.2 hc : e.kind? seen = _) es
  rw [EntryKind.component_beq_subsystemManifest, Bool.or_false] at hfree
  rw [isCollectable_iff, isCollectable_iff, hfree, List.filter_cons_of_pos hc,
    List.find?_cons_of_neg (by simp [hs]), List.forall_mem_cons]
  tauto

theorem withAll_of_component (hc : e.isComponent = true) {m : Manifest}
    (hm : componentManifest lib options scratch e = .ok m) :
    g.withAll lib options scratch seen (e :: es) =
      (g.addComponent e.path m).withAll lib options scratch seen es := by
  have hs := Entry.isSubsystem_of_isComponent hc
  have hrequirement : componentRequirement? lib options scratch e = requirement? e.path m := by
    rw [componentRequirement?, hm]
    rfl
  -- the last requirement comes first in what is gathered
  have hgathered : ∀ jars : List Entry,
      ((e :: jars).filterMap (componentRequirement? lib options scratch)).reverse =
        (jars.filterMap (componentRequirement? lib options scratch)).reverse ++
          (requirement? e.path m).toList := by
    intro jars
    rw [List.filterMap_cons, hrequirement]
    cases requirement? e.path m <;> simp
  rw [Gathered.withAll, Gathered.withAll, List.filter_cons_of_pos hc, hgathered,
    List.append_assoc, List.find?_cons_of_neg (by simp [hs])]
  simp only [Gathered.addComponent, List.length_cons, Gathered.mk.injEq, true_and]
  omega

/-- So must the first subsystem manifest, and those behind it do not matter. -/
theorem isCollectable_of_subsystem (hs : e.isSubsystem = true) :
    IsCollectable lib options scratch false (e :: es) ↔ e.isReadable = true ∧
      (∃ m, subsystemManifest options e = .ok m) ∧
      IsCollectable lib options scratch true es := by
  have hc := Entry.not_isComponent_of_isSubsystem hs
  have hfree := Walk.isUnhinderedAfter_of_kind?
    (Entry.kind?_eq_subsystemManifest_iff.2 ⟨hs, rfl⟩) es
  rw [isCollectable_iff, isCollectable_iff, hfree, List.filter_cons_of_neg (by simp [hc]),
    List.find?_cons_of_pos hs]
  simp
  tauto

theorem withAll_of_subsystem (hs : e.isSubsystem = true) {m : Manifest}
    (hm : subsystemManifest options e = .ok m) :
    g.withAll lib options scratch false (e :: es) =
      (g.addSubsystem m).withAll lib options scratch true es := by
  have hc := Entry.not_isComponent_of_isSubsystem hs
  simp [Gathered.withAll, Gathered.addSubsystem, hc, hs, hm, Except.toOption]

/-! ## All entries -/

/-- At the end all has been gathered. -/
theorem withAll_nil : g.withAll lib options scratch seen [] = g := by
  cases seen <;> simp [Gathered.withAll]

theorem isCollectable_nil : IsCollectable lib options scratch seen [] where
  free := ⟨by simp, by cases seen <;> simp [Walk.passesAfter, Walk.passes]⟩
  components := by simp
  subsystem := by simp

/-- **What a collection gives**: it succeeds if nothing is in its way and every manifest is found,
and then it gives what all the entries hold. -/
theorem collectFrom_eq_ok_iff :
    (collectFrom lib options g (.outside path seen es) scratch).1 = .ok c ↔
      IsCollectable lib options scratch seen es ∧
        (g.withAll lib options scratch seen es).collected = c := by
  induction es generalizing g seen with
  | nil =>
    rw [collectFrom_nil, withAll_nil, Except.ok.injEq]
    exact (and_iff_right isCollectable_nil).symm
  | cons e es ih =>
    cases hr : e.isReadable with
    | false =>
      rw [collectFrom_of_not_isReadable hr]
      refine iff_of_false nofun fun h => ?_
      simp [h.1.free.readable e List.mem_cons_self] at hr
    | true =>
      match hk : e.kind? seen with
      | none =>
        rw [isCollectable_of_none hk, withAll_of_none hk]
        cases hs : e.skipFault with
        | some reason =>
          rw [collectFrom_of_skipFault hr hk hs]
          exact iff_of_false nofun (by simp)
        | none =>
          rw [collectFrom_of_passed hr hk hs, ih]
          simp [hr]
      | some .component =>
        have hc := Entry.kind?_eq_component_iff.1 hk
        rw [isCollectable_of_component hc, collectFrom_of_kind? hr hk, visit_component,
          EntryKind.component_beq_subsystemManifest, Bool.or_false]
        cases hm : componentManifest lib options scratch e with
        | error error => exact iff_of_false nofun (by simp)
        | ok m =>
          rw [withAll_of_component hc hm]
          simpa [hr, Except.map] using ih
      | some .subsystemManifest =>
        obtain ⟨hs, rfl⟩ := Entry.kind?_eq_subsystemManifest_iff.1 hk
        rw [isCollectable_of_subsystem hs, collectFrom_of_kind? hr hk, visit_subsystemManifest]
        cases hm : subsystemManifest options e with
        | error error => exact iff_of_false nofun (by simp)
        | ok m =>
          rw [withAll_of_subsystem hs hm]
          simpa [hr, Except.map] using ih

/-! ## Entries that do not matter -/

/-- **An entry that does not matter can stand anywhere.** -/
theorem collectFrom_insert {x : Entry} {front behind : List Entry} (hr : x.isReadable = true)
    (hskip : x.skipFault = none) (hc : x.isComponent = false)
    (hs : x.isSubsystem = true → seen = true ∨ ∃ m ∈ front, m.isSubsystem = true) :
    collectFrom lib options g (.outside path seen (front ++ x :: behind)) scratch =
      collectFrom lib options g (.outside path seen (front ++ behind)) scratch := by
  induction front generalizing g seen with
  | nil =>
    have hk : x.kind? seen = none := Entry.kind?_eq_none_iff.2 ⟨hc, fun h => by simpa using hs h⟩
    exact collectFrom_of_passed hr hk hskip
  | cons e front ih =>
    rw [List.cons_append, List.cons_append]
    cases her : e.isReadable with
    | false => rw [collectFrom_of_not_isReadable her, collectFrom_of_not_isReadable her]
    | true =>
      cases hk : e.kind? seen with
      | none =>
        cases hes : e.skipFault with
        | some reason =>
          rw [collectFrom_of_skipFault her hk hes, collectFrom_of_skipFault her hk hes]
        | none =>
          rw [collectFrom_of_passed her hk hes, collectFrom_of_passed her hk hes]
          refine ih fun h => ?_
          rcases hs h with hseen | ⟨m, hm, hms⟩
          · exact .inl hseen
          · rcases List.mem_cons.1 hm with rfl | hm
            · exact .inl ((Entry.kind?_eq_none_iff.1 hk).2 hms)
            · exact .inr ⟨m, hm, hms⟩
      | some kind =>
        rw [collectFrom_of_kind? her hk, collectFrom_of_kind? her hk]
        cases visit lib options scratch g kind e with
        | error error => rfl
        | ok g' =>
          refine ih fun h => ?_
          rcases hs h with rfl | ⟨m, hm, hms⟩
          · exact .inl rfl
          · rcases List.mem_cons.1 hm with rfl | hm
            · exact .inl (Entry.seen_of_kind? hms hk)
            · exact .inr ⟨m, hm, hms⟩

/-- **A collection loses nothing and counts nothing twice.**

It succeeds if and only if every header of the archive can be read, every entry but the components
and the first subsystem manifest can be skipped, the manifest of every component is found, and the
first subsystem manifest, if there is one, is read. What then stands in the caller's place is the
number of the components, that subsystem manifest wherever it stands, and the requirements: those of
the components in the order of the archive, and last that of the subsystem manifest. If the
collection fails, what the caller had stays as it was. An entry of any other kind whose header can
be read and which can be skipped changes nothing, wherever it is put in. -/
theorem collect_complete (lib : Library) (options : ExtractionOptions) (scratch : Scratch)
    (path : Bytes) (es : List Entry) (out : Collected) :
    let result := collect lib options (.opened path es) out scratch
    (result.1 = .ok () ↔
      (∀ e ∈ es, e.isReadable) ∧ (∀ e ∈ Walk.passes es, e.skipFault = none) ∧
      (∀ e ∈ es.filter Entry.isComponent,
        ∃ m, componentManifest lib options scratch e = .ok m) ∧
      ∀ e ∈ es.find? Entry.isSubsystem, ∃ m, subsystemManifest options e = .ok m) ∧
    (result.1 = .ok () →
      result.2.1.components = (es.filter Entry.isComponent).length ∧
      result.2.1.subsystem =
        (es.find? Entry.isSubsystem).bind (subsystemManifest options · |>.toOption) ∧
      result.2.1.requirements =
        (es.filter Entry.isComponent).filterMap (componentRequirement? lib options scratch) ++
          (result.2.1.subsystem.bind (requirement? EntryPath.subsystemManifest)).toList) ∧
    (result.1 ≠ .ok () → result.2.1 = out) ∧
    ∀ x front behind, es = front ++ behind → x.isReadable = true → x.skipFault = none →
      x.isComponent = false → (x.isSubsystem = true → ∃ m ∈ front, m.isSubsystem = true) →
      collect lib options (.opened path (front ++ x :: behind)) out scratch = result := by
  intro result
  have hcollect : ∀ c, (collectFrom lib options .nothing (.opened path es) scratch).1 = .ok c ↔
      IsCollectable lib options scratch false es ∧
        (Gathered.nothing.withAll lib options scratch false es).collected = c :=
    fun c => collectFrom_eq_ok_iff
  have hinsert : ∀ x front behind, es = front ++ behind → x.isReadable = true →
      x.skipFault = none → x.isComponent = false →
      (x.isSubsystem = true → ∃ m ∈ front, m.isSubsystem = true) →
      collectFrom lib options .nothing (.opened path (front ++ x :: behind)) scratch =
        collectFrom lib options .nothing (.opened path es) scratch := by
    rintro x front behind rfl hr hskip hc hs
    exact collectFrom_insert hr hskip hc fun h => .inr (hs h)
  by_cases hc : IsCollectable lib options scratch false es
  · have hok := (hcollect _).2 ⟨hc, rfl⟩
    have hresult : result = _ := collect_of_ok hok out
    rw [hresult]
    refine ⟨iff_of_true rfl ?_, fun _ => ?_, fun h => absurd rfl h, ?_⟩
    · exact ⟨hc.free.readable, hc.free.passable, hc.components, hc.subsystem rfl⟩
    · simp [Gathered.withAll, Gathered.collected, Gathered.nothing]
    · intro x front behind hes hr hskip hx hs
      exact collect_of_ok ((hinsert x front behind hes hr hskip hx hs) ▸ hok) out
  · obtain ⟨e, herror⟩ := exists_error_of_forall_ne fun c h => hc ((hcollect c).1 h).1
    have hresult : result = _ := collect_of_error herror out
    rw [hresult]
    refine ⟨iff_of_false nofun fun h => hc ?_, nofun, fun _ => rfl, ?_⟩
    · exact ⟨⟨h.1, h.2.1⟩, h.2.2.1, fun _ => h.2.2.2⟩
    · intro x front behind hes hr hskip hx hs
      exact collect_of_error ((hinsert x front behind hes hr hskip hx hs) ▸ herror) out

/-- An archive whose subsystem manifest comes first, with two components, only one of which has the
header, and a directory put in between them. -/
theorem collect_complete_manifest_first : ∃ (lib : Library) (options : ExtractionOptions)
    (scratch : Scratch) (path : Bytes) (front behind : List Entry) (x : Entry),
    let result := collect lib options (.opened path (front ++ x :: behind)) .nothing scratch
    x.type = .directory ∧ result.1 = .ok () ∧ result.2.1.components = 2 ∧
      result.2.1.requirements =
        [⟨ascii "b.jar", ascii "x"⟩, ⟨ascii "OSGI-INF/SUBSYSTEM.MF", ascii "y"⟩] := by
  let entry (name content : String) : Entry :=
    ⟨some (ascii name), .file, none, ascii content, [.gives 3], .ok, none, none, none⟩
  let jar (manifest : String) : Archive := .entries [entry "META-INF/MANIFEST.MF" manifest]
  let lib : Library := .ofTables
    [(ascii "1", jar "Manifest-Version: 1.0"), (ascii "2", jar "Require-Capability: x")] []
  let options : ExtractionOptions := ⟨[], 9, 99, .memory⟩
  let scratch : Scratch := .ofTree ⟨[], [], []⟩
  let manifest : Entry := entry "OSGI-INF/SUBSYSTEM.MF" "Require-Capability: y"
  let a : Entry := entry "a.jar" "1"
  let b : Entry := entry "b.jar" "2"
  let x : Entry := { entry "lib.jar/" "" with type := .directory }
  obtain ⟨hiff, hgives, -, hinsert⟩ :=
    collect_complete lib options scratch (ascii "f.esa") [manifest, a, b] .nothing
  have hcomponents : [manifest, a, b].filter Entry.isComponent = [a, b] := by decide +kernel
  have hmanifest : [manifest, a, b].find? Entry.isSubsystem = some manifest := by decide +kernel
  have ha : componentManifest lib options scratch a =
      .ok ⟨[(ascii "Manifest-Version", ascii "1.0")]⟩ := by decide +kernel
  have hb : componentManifest lib options scratch b =
      .ok ⟨[(ascii "Require-Capability", ascii "x")]⟩ := by decide +kernel
  have hread : subsystemManifest options manifest =
      .ok ⟨[(ascii "Require-Capability", ascii "y")]⟩ := by decide +kernel
  have hok := hiff.2 ⟨by decide +kernel, by decide +kernel, by simp [hcomponents, ha, hb],
    by simp [hmanifest, hread]⟩
  obtain ⟨hcount, hsubsystem, hrequirements⟩ := hgives hok
  have hx := hinsert x [manifest, a] [b] rfl (by decide +kernel) rfl (by decide +kernel)
    (fun _ => ⟨manifest, List.mem_cons_self, by decide +kernel⟩)
  refine ⟨lib, options, scratch, ascii "f.esa", [manifest, a], [b], x, ?_⟩
  simp only [hx]
  refine ⟨rfl, hok, ?_, ?_⟩
  · rw [hcount, hcomponents]
    rfl
  · rw [hrequirements, hsubsystem, hcomponents, hmanifest, Option.bind_some, hread]
    decide +kernel

end Collection

end JavaFloor
