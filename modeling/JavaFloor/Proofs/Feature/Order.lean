import JavaFloor.Proofs.Collection.Order
import JavaFloor.Proofs.Feature.Outcomes

/-!
# Updates from entries in another order

What an update publishes does not depend on the order of the entries in the archive. The trail of a
conflict does, and so does which of several failures is met first; but whether an update succeeds,
and of what kind a failure is once all was collected, does not.

* `Feature.Agree` is what features have in common that result from the two orders.
* `Feature.resolved_of_perm` is about the requirements in another order, and
  `Feature.exists_collectAt_of_sameEntries` about the archives.
* `Feature.update_of_sameEntries` puts this together.
-/

namespace JavaFloor

namespace UpdateError

/-- The category of an outcome, none for a success. -/
def categoryOf {α : Type} : Except UpdateError α → Category
  | .ok _ => .none
  | .error e => e.category

/-- Every failure has a category. -/
theorem category_ne_none (e : UpdateError) : e.category ≠ .none := by
  cases e with
  | collection e => rcases e.category_eq_or with h | h <;> simp [category, h]
  | malformed path e => simp [category]
  | conflict name trail => simp [category]

theorem categoryOf_eq_none_iff {outcome : Except UpdateError Unit} :
    categoryOf outcome = .none ↔ outcome = .ok () := by
  cases outcome with
  | error e => exact iff_of_false e.category_ne_none nofun
  | ok => exact iff_of_true rfl rfl

end UpdateError

namespace Feature

open Resolution UpdateError

/-- Features of the same name, for which the same lowest version was published, in both cases with
the filters of sources or in both cases without. -/
def Agree (f f' : Feature) : Prop :=
  f.name = f'.name ∧ ∃ j j', f.java = some j ∧ f'.java = some j' ∧ j.minimum = j'.minimum ∧
    (j.directives = none ↔ j'.directives = none)

variable {lib lib' : Library} {options : ExtractionOptions} {table : List Environment}
  {path path' : Bytes} {f : Feature} {scratch : Scratch} {es es' : List Entry} {c c' : Collected}

/-- A resolution of the sources in another order is published alike. -/
theorem agree_publish {ss ss' : List SourceRequirement} {r r' : Resolution}
    (h : resolve table ss = .ok r) (h' : resolve table ss' = .ok r') (hperm : ss.Perm ss')
    (name : Bytes) : (publish name r).Agree (publish name r') := by
  have hsurviving : r.surviving = r'.surviving := by
    rw [surviving_of_foldlM_absorb h, surviving_of_foldlM_absorb h']
    exact filter_admits_perm hperm table
  have hempty : r.directives.isEmpty = true ↔ r'.directives.isEmpty = true := by
    rw [directives_isEmpty_iff h, directives_isEmpty_iff h']
    simp only [hperm.mem_iff]
  refine ⟨rfl, _, _, rfl, rfl, (isConflict_eq_minimumVersion_eq hsurviving).2, ?_⟩
  simp only [ite_eq_left_iff, reduceCtorEq, imp_false, not_not]
  exact hempty

/-- **Requirements in another order** have an outcome of the same kind, and what is published
agrees. -/
theorem resolved_of_perm (hperm : c.requirements.Perm c'.requirements)
    (hname : f.nameAfter path c.subsystem = f.nameAfter path' c'.subsystem)
    (table : List Environment) :
    categoryOf (resolved table path f c) = categoryOf (resolved table path' f c') ∧
      ∀ g g', resolved table path f c = .ok g → resolved table path' f c' = .ok g' →
        g.Agree g' := by
  by_cases hm : ∃ s ∈ c.requirements, s.Malformed
  · have hm' : ∃ s ∈ c'.requirements, s.Malformed := by simpa only [hperm.mem_iff] using hm
    obtain ⟨_, _, -, -, hr⟩ := resolved_of_malformed hm table path f
    obtain ⟨_, _, -, -, hr'⟩ := resolved_of_malformed hm' table path' f
    rw [hr, hr']
    exact ⟨rfl, nofun⟩
  · have hread : ∀ s ∈ c.requirements, ¬ s.Malformed := fun s hs h => hm ⟨s, hs, h⟩
    have hread' : ∀ s ∈ c'.requirements, ¬ s.Malformed := fun s hs =>
      hread s (hperm.mem_iff.2 hs)
    obtain ⟨r, h, hsurviving, hr⟩ := resolved_of_readable hread table path f
    obtain ⟨r', h', hsurviving', hr'⟩ := resolved_of_readable hread' table path' f
    have hconflict : r.isConflict = r'.isConflict :=
      (isConflict_eq_minimumVersion_eq
        (hsurviving.trans ((filter_admits_perm hperm table).trans hsurviving'.symm))).1
    rw [hr, hr', ← hname, ← hconflict]
    cases r.isConflict with
    | true => exact ⟨rfl, nofun⟩
    | false =>
      refine ⟨rfl, fun g g' hg hg' => ?_⟩
      cases hg
      cases hg'
      exact agree_publish h h' hperm _

/-- What is collected from the same entries in another order differs in the order of the
requirements only. -/
theorem exists_collectAt_of_sameEntries (hdecode : lib.decode = lib'.decode)
    (hopen : lib.openPath path = .entries es) (hopen' : lib'.openPath path' = .entries es')
    (h : SameEntries es es') (hc : (collectAt lib options path scratch).1 = .ok c) :
    ∃ c', (collectAt lib' options path' scratch).1 = .ok c' ∧
      c.requirements.Perm c'.requirements ∧ c.subsystem = c'.subsystem := by
  rw [collectAt_eq, hopen] at hc
  rw [collectAt_eq, hopen']
  exact Collection.exists_collectFrom_of_sameEntries hdecode h hc

/-- What an update answers and leaves once all was collected. -/
theorem update_fst_of_collectAt_ok (hc : (collectAt lib options path scratch).1 = .ok c)
    (table : List Environment) (f : Feature) :
    categoryOf (f.update lib options table path scratch).1 =
        categoryOf (resolved table path f c) ∧
      ((f.update lib options table path scratch).1 = .ok () →
        resolved table path f c = .ok (f.update lib options table path scratch).2.1) := by
  rw [update_of_collectAt_ok hc]
  cases resolved table path f c with
  | error e => exact ⟨rfl, nofun⟩
  | ok g => exact ⟨rfl, fun _ => rfl⟩

/-- **The order of the entries makes no difference to an update.**

Take two archives of the same entries at paths with the same last part, in which the files in the
place of the subsystem manifest stand in the same order. If all can be collected from one of them,
it can from the other one, and then the updates succeed both or fail in the same category. So one of
them succeeds if and only if the other one does, and then the two features agree. -/
theorem update_of_sameEntries (lib lib' : Library) (options : ExtractionOptions)
    (table : List Environment) (path path' : Bytes) (f : Feature) (scratch : Scratch)
    (es es' : List Entry) (hdecode : lib.decode = lib'.decode)
    (hopen : lib.openPath path = .entries es) (hopen' : lib'.openPath path' = .entries es')
    (h : SameEntries es es')
    (hname : Bytes.afterLast Ascii.slash path = Bytes.afterLast Ascii.slash path') :
    ((f.update lib options table path scratch).1 = .ok () ↔
      (f.update lib' options table path' scratch).1 = .ok ()) ∧
    ((f.update lib options table path scratch).1 = .ok () →
      (f.update lib options table path scratch).2.1.Agree
        (f.update lib' options table path' scratch).2.1) ∧
    ((∃ c, (collectAt lib options path scratch).1 = .ok c) ↔
      ∃ c', (collectAt lib' options path' scratch).1 = .ok c') ∧
    ((∃ c, (collectAt lib options path scratch).1 = .ok c) →
      categoryOf (f.update lib options table path scratch).1 =
        categoryOf (f.update lib' options table path' scratch).1) := by
  cases hc : (collectAt lib options path scratch).1 with
  | error e =>
    -- then nothing can be collected from the other archive either
    cases hc' : (collectAt lib' options path' scratch).1 with
    | ok c' =>
      obtain ⟨c, hok, -⟩ := exists_collectAt_of_sameEntries hdecode.symm hopen' hopen h.symm hc'
      rw [hc] at hok
      cases hok
    | error e' =>
      rw [update_of_collectAt_error hc, update_of_collectAt_error hc']
      exact ⟨iff_of_false nofun nofun, nofun, iff_of_false nofun nofun, nofun⟩
  | ok c =>
    obtain ⟨c', hc', hrequirements, hsubsystem⟩ :=
      exists_collectAt_of_sameEntries hdecode hopen hopen' h hc
    have hsame : f.nameAfter path c.subsystem = f.nameAfter path' c'.subsystem := by
      rw [nameAfter, nameAfter, hsubsystem, hname]
    obtain ⟨hcategory, hagree⟩ := resolved_of_perm hrequirements hsame table
    obtain ⟨hkind, hleft⟩ := update_fst_of_collectAt_ok hc table f
    obtain ⟨hkind', hleft'⟩ := update_fst_of_collectAt_ok hc' table f
    have hoverall := hkind.trans (hcategory.trans hkind'.symm)
    have hiff : (f.update lib options table path scratch).1 = .ok () ↔
        (f.update lib' options table path' scratch).1 = .ok () := by
      rw [← categoryOf_eq_none_iff, ← categoryOf_eq_none_iff, hoverall]
    exact ⟨hiff, fun hok => hagree _ _ (hleft hok) (hleft' (hiff.1 hok)),
      iff_of_true ⟨c, rfl⟩ ⟨c', hc'⟩, fun _ => hoverall⟩

/-- A component asks for Java 8 and one for Java 10, and the subsystem manifest stands behind or in
front of both. -/
theorem update_of_sameEntries_manifest_first : ∃ (lib : Library) (a b manifest : Entry),
    lib.openPath (ascii "f.esa") = .entries [a, b, manifest] ∧
    lib.openPath (ascii "old/f.esa") = .entries [manifest, b, a] ∧
    ∃ j j', (Feature.unknown.update lib ⟨[], 99, 99, .memory⟩ javaEnvironments (ascii "f.esa")
        (.ofTree ⟨[], [], []⟩)).2.1 = ⟨ascii "Demo", some j⟩ ∧
      (Feature.unknown.update lib ⟨[], 99, 99, .memory⟩ javaEnvironments (ascii "old/f.esa")
        (.ofTree ⟨[], [], []⟩)).2.1 = ⟨ascii "Demo", some j'⟩ ∧
      j.minimum = ascii "1.10" ∧ j'.minimum = ascii "1.10" := by
  let a : Entry := .file (ascii "a.jar") (ascii "a")
  let b : Entry := .file (ascii "b.jar") (ascii "b")
  let manifest : Entry :=
    .file EntryPath.subsystemManifest (ascii "Subsystem-Name: Demo")
  let older : SourceRequirement := ⟨ascii "a.jar", SourceRequirement.javaHeader (.javaRelease 8)⟩
  let newer : SourceRequirement := ⟨ascii "b.jar", SourceRequirement.javaHeader (.javaRelease 10)⟩
  let lib : Library := .ofTables
    [(ascii "a", .jar older.header), (ascii "b", .jar newer.header),
      (ascii "1", .entries [a, b, manifest]), (ascii "2", .entries [manifest, b, a])]
    [(ascii "f.esa", ascii "1"), (ascii "old/f.esa", ascii "2")]
  let options : ExtractionOptions := ⟨[], 99, 99, .memory⟩
  let scratch : Scratch := .ofTree ⟨[], [], []⟩
  have hopen : lib.openPath (ascii "f.esa") = .entries [a, b, manifest] := by decide +kernel
  have hopen' : lib.openPath (ascii "old/f.esa") = .entries [manifest, b, a] := by decide +kernel
  obtain ⟨c, hc, hrequirements, hsubsystem⟩ :
      ∃ c, (collectAt lib options (ascii "f.esa") scratch).1 = .ok c ∧
        c.requirements = [older, newer] ∧
        c.subsystem = some ⟨[(ascii "Subsystem-Name", ascii "Demo")]⟩ :=
    ⟨_, collectAt_of_isCollectable hopen (by decide +kernel), by decide +kernel, by decide +kernel⟩
  have read : Version.IsRead (.javaRelease 8) ∧ Version.IsRead (.javaRelease 10) := by
    rw [Version.IsRead, Version.IsRead]
    decide +kernel
  obtain ⟨r, hresolve, hconflict, hlowest⟩ : ∃ r, resolve javaEnvironments [older, newer] = .ok r ∧
      r.isConflict = false ∧ r.minimumVersion = ascii "1.10" :=
    ⟨_, resolve_of_demands (SourceRequirement.demands_javaHeader read.1 (ascii "a.jar"))
      (SourceRequirement.demands_javaHeader read.2 (ascii "b.jar")) javaEnvironments,
      by decide +kernel, by decide +kernel⟩
  have hname : Feature.unknown.nameAfter (ascii "f.esa") c.subsystem = ascii "Demo" := by
    rw [hsubsystem]
    decide +kernel
  have hupdate : Feature.unknown.update lib options javaEnvironments (ascii "f.esa") scratch =
      (.ok (), publish (ascii "Demo") r, scratch) := by
    rw [update_of_collectAt_ok hc, resolved, hrequirements, hresolve]
    simp only [hname, hconflict]
    rfl
  obtain ⟨-, hagree, -⟩ := update_of_sameEntries lib lib options javaEnvironments
    (ascii "f.esa") (ascii "old/f.esa") .unknown scratch _ _ rfl hopen hopen'
    ⟨by decide +kernel, by decide +kernel⟩ (by decide +kernel)
  obtain ⟨hsame, j, j', hj, hj', hminimum, -⟩ := hagree (by rw [hupdate])
  rw [hupdate] at hsame hj
  have hlow : j.minimum = ascii "1.10" := by
    cases hj
    exact hlowest
  refine ⟨lib, a, b, manifest, hopen, hopen', j, j', ?_, ?_, hlow, hminimum.symm.trans hlow⟩
  · rw [hupdate, ← hj]
    rfl
  · rw [← hj']
    exact congrArg (Feature.mk · _) hsame.symm

end Feature

end JavaFloor
