import JavaFloor.Proofs.Filter.Spelling
import JavaFloor.Proofs.Resolution.Outcome

/-!
# Resolution with versions spelled otherwise

Wherever a version stands, in the range of an environment or in what a source asks for, it may be
replaced by one that compares equal. This is followed through resolution step by step: the two runs
fail at the same source or they leave the same environments, up to the texts of versions.

* `Environment.Alike`, `Demand.Alike` and `SourceRequirement.Alike` compare what goes into a
  resolution, `Resolution.Alike` and `MalformedRequirement.Alike` what comes out of it.
* `SourceRequirement.Respelled`: the filters of two headers differ in how versions are spelled. Such
  sources ask for the same (`SourceRequirement.Respelled.alike`).
* `Resolution.absorb_congr` is one source, and `Resolution.resolve_congr` a run over all of them.
* `Resolution.compare_forgets_spelling`: comparison is a total preorder, and no outcome depends on
  more than what it tells of versions.
-/

namespace JavaFloor

/-- The same label, and ranges that differ in texts only. -/
def Environment.Alike (e e' : Environment) : Prop :=
  e.label = e'.label ∧ e.range.EndsAlike e'.range

/-- Both texts are read as filters, and these differ in how versions are spelled. -/
def Filter.TextsAlike (s s' : Bytes) : Prop :=
  ∃ f f', parse s = .ok f ∧ parse s' = .ok f' ∧ f.Alike f'

/-- The same source asks for ranges that differ in texts only. -/
structure Demand.Alike (d d' : Demand) : Prop where
  source : d.source = d'.source
  directive : Filter.TextsAlike d.directive d'.directive
  range : d.range.EndsAlike d'.range

/-- The same fault, or ranges that cannot be read in both cases. -/
inductive RequirementFault.Alike : RequirementFault → RequirementFault → Prop
  | same (fault : RequirementFault) : Alike fault fault
  | range (error error' : QuotedRangeError) : Alike (.range error) (.range error')

/-- The same source cannot be read, and for the same reason. -/
def MalformedRequirement.Alike (e e' : MalformedRequirement) : Prop :=
  e.source = e'.source ∧ e.fault.Alike e'.fault

/-- The same source drops the same environment, for ranges that differ in texts only. -/
structure Elimination.Alike (e e' : Elimination) : Prop where
  source : e.source = e'.source
  label : e.label = e'.label
  attempted : e.attempted.EndsAlike e'.attempted

/-- Resolutions that differ in the texts of versions only. -/
structure Resolution.Alike (r r' : Resolution) : Prop where
  surviving : List.Forall₂ Environment.Alike r.surviving r'.surviving
  eliminations : List.Forall₂ Elimination.Alike r.eliminations r'.eliminations
  directives : Dict.Rel (fun _ => Filter.TextsAlike) r.directives r'.directives

namespace SourceRequirement

/-- Both sources are malformed, both are idle, or both make a demand, and these demands differ in
texts only. -/
def Alike (s s' : SourceRequirement) : Prop :=
  Except.Rel MalformedRequirement.Alike (Option.Rel Demand.Alike) s.demand? s'.demand?

/-- The headers of a source ask through filters that differ in how versions are spelled. -/
inductive Respelled (s s' : SourceRequirement) : Prop
  | intro {clauses clauses' : List Clause} {directive directive' : Bytes}
      (source : s.source = s'.source)
      (read : Clause.parseHeader s.header = .ok clauses)
      (read' : Clause.parseHeader s'.header = .ok clauses')
      (first : IsDirective clauses directive) (first' : IsDirective clauses' directive')
      (filters : Filter.TextsAlike directive directive')

/-! ## What a source asks for -/

/-- Filters with versions spelled otherwise both ask for Java or both do not, and the texts of the
versions are read alike. -/
theorem versionText?_congr {directive directive' : Bytes} {f f' : Filter}
    (hf : Filter.parse directive = .ok f) (hf' : Filter.parse directive' = .ok f')
    (h : f.Alike f') :
    Option.Rel VersionRange.ReadAlike (versionText? f) (versionText? f') := by
  have hkind := Filter.find?_flatten_congr_of_ne hf hf' h (k := environmentNamespace) (by decide)
  rw [versionText?, versionText?, hkind]
  split
  next => exact Filter.find?_flatten_congr hf hf' h
  next => exact .none

theorem demandOf?_congr (source : Bytes) {directive directive' : Bytes}
    (h : Filter.TextsAlike directive directive') :
    Except.Rel RequirementFault.Alike (Option.Rel Demand.Alike) (demandOf? source directive)
      (demandOf? source directive') := by
  obtain ⟨f, f', hf, hf', hfilters⟩ := h
  have htexts := versionText?_congr hf hf' hfilters
  simp only [demandOf?, hf, hf']
  generalize versionText? f = text, versionText? f' = text' at htexts ⊢
  cases htexts with
  | none => exact .ok .none
  | @some text text' hread =>
    rw [VersionRange.ReadAlike] at hread
    simp only
    generalize VersionRange.parseQuoted text = range, VersionRange.parseQuoted text' = range'
      at hread ⊢
    cases hread with
    | error => exact .error (.range _ _)
    | ok hrange => exact .ok (.some ⟨rfl, ⟨f, f', hf, hf', hfilters⟩, hrange⟩)

/-- Sources whose filters differ in how versions are spelled ask for the same. -/
theorem Respelled.alike {s s' : SourceRequirement} (h : s.Respelled s') : s.Alike s' := by
  obtain ⟨source, read, read', first, first', filters⟩ := h
  rw [Alike, demand?_eq read first, demand?_eq read' first', ← source]
  exact (demandOf?_congr s.source filters).mapError fun hfault => ⟨rfl, hfault⟩

theorem Alike.refl (s : SourceRequirement) : s.Alike s := by
  rw [Alike]
  rcases s.demand?_cases with ⟨e, he, -⟩ | ⟨hnone, -⟩ | ⟨directive, range, hd, demands⟩
  · rw [he]
    exact .error ⟨rfl, .same _⟩
  · rw [hnone]
    exact .ok .none
  · rw [hd]
    obtain ⟨-, -, filter, -, -⟩ := demands
    exact .ok (.some ⟨rfl, ⟨_, _, filter, filter, .refl _⟩, .refl _⟩)

/-- The usual header of a component may ask for a version in any of its spellings. -/
theorem respelled_javaHeader {v w : Version} (hv : v.IsRead) (hw : w.IsRead)
    (h : v.compare w = .eq) (source : Bytes) :
    Respelled ⟨source, javaHeader v⟩ ⟨source, javaHeader w⟩ := by
  refine .intro rfl (parseHeader_javaHeader v) (parseHeader_javaHeader w)
    (isDirective_javaClause v) (isDirective_javaClause w)
    ⟨_, _, parse_javaFilter hv, parse_javaFilter hw, ?_⟩
  exact .cons ⟨rfl, .attr _ _⟩ (.cons ⟨rfl, .compare .atLeast h⟩ .nil)

end SourceRequirement

namespace Resolution

open SourceRequirement

variable {r r' : Resolution} {d d' : Demand} {s s' : SourceRequirement}
  {table table' : List Environment} {ss ss' : List SourceRequirement}

/-! ## What is left -/

theorem meets_congr {e e' : Environment} (hd : d.Alike d') (he : e.Alike e') :
    meets d e = meets d' e' :=
  VersionRange.isSome_intersect_congr he.2 hd.range

/-- Demands that differ in texts only drop the same environments. -/
theorem narrow_congr (h : r.Alike r') (hd : d.Alike d') : (r.narrow d).Alike (r'.narrow d') := by
  have hdropped : List.Forall₂ Environment.Alike (r.surviving.filter fun e => !meets d e)
      (r'.surviving.filter fun e => !meets d' e) :=
    List.rel_filter (fun _ _ he => Bool.eq_iff_iff.1 (congrArg (!·) (meets_congr hd he)))
      h.surviving
  refine ⟨?_, ?_, ?_⟩
  · rw [narrow_surviving, narrow_surviving]
    exact List.rel_filter (fun _ _ he => Bool.eq_iff_iff.1 (meets_congr hd he)) h.surviving
  · rw [narrow_eliminations, narrow_eliminations]
    refine List.rel_append h.eliminations (List.rel_map ?_ hdropped)
    exact fun _ _ he => ⟨hd.source, he.1, hd.range⟩
  · rw [narrow_directives, narrow_directives]
    generalize r.surviving.filter (fun e => !meets d e) = dropped,
      r'.surviving.filter (fun e => !meets d' e) = dropped' at hdropped ⊢
    cases hdropped with
    | nil => exact h.directives
    | cons => exact hd.source ▸ h.directives.insert hd.directive

/-- One source: with versions spelled otherwise it fails as before, or it leaves the same. -/
theorem absorb_congr (h : r.Alike r') (hs : s.Alike s') :
    Except.Rel MalformedRequirement.Alike Alike (r.absorb s) (r'.absorb s') := by
  rw [SourceRequirement.Alike] at hs
  rw [absorb, absorb]
  generalize s.demand? = demand, s'.demand? = demand' at hs ⊢
  cases hs with
  | error he => exact .error he
  | ok hd =>
    cases hd with
    | none => exact .ok h
    | some hd => exact .ok (narrow_congr h hd)

/-- A run over all sources. -/
theorem resolve_congr (htable : List.Forall₂ Environment.Alike table table')
    (hss : List.Forall₂ SourceRequirement.Alike ss ss') :
    Except.Rel MalformedRequirement.Alike Alike (resolve table ss) (resolve table' ss') :=
  have hstart : (start table).Alike (start table') := ⟨htable, .nil, Dict.rel_empty⟩
  Except.rel_foldlM (T := SourceRequirement.Alike) (fun _ _ _ _ => absorb_congr) hstart hss

/-- Environments that are alike have the same labels. -/
theorem map_label_congr (h : List.Forall₂ Environment.Alike table table') :
    table.map (·.label) = table'.map (·.label) := by
  rw [← List.forall₂_eq_eq_eq]
  exact List.rel_map (fun _ _ he => he.1) h

/-! ## Comparison and all that depends on it -/

/-- **Comparison is a total preorder that forgets only how a version is spelled**, and so does
everything that is decided by it. Versions that compare equal have the same parts. If versions are
replaced by such as compare equal, they are compared as before; there is a range between two bounds,
or an intersection of two ranges, if there was one before, and its bounds are spelled otherwise at
most. A source whose filter is spelled otherwise asks for the same. With the environments and the
sources spelled otherwise a resolution fails as before, or it leaves the same labels in the same
order, and all else that it tells differs in the texts of versions only. -/
theorem compare_forgets_spelling (a b c : Version) :
    (b.compare a = (a.compare b).swap ∧
      ((a.compare b).isLE ∨ (b.compare a).isLE) ∧
      ((a.compare b).isLE → (b.compare c).isLE → (a.compare c).isLE) ∧
      (a.compare b = .eq ↔ a.major = b.major ∧ a.minor = b.minor ∧ a.micro = b.micro ∧
        a.qualifier = b.qualifier)) ∧
    (∀ a' b' : Version, a.compare a' = .eq → b.compare b' = .eq →
      a.compare b = a'.compare b') ∧
    (∀ (floor floor' : Bound) (ceiling ceiling' : Option Bound), floor.Alike floor' →
      Option.Rel Bound.Alike ceiling ceiling' →
      Option.Rel VersionRange.EndsAlike (VersionRange.make floor ceiling)
        (VersionRange.make floor' ceiling')) ∧
    (∀ range range' other other' : VersionRange, range.EndsAlike range' →
      other.EndsAlike other' →
      Option.Rel VersionRange.EndsAlike (range.intersect other) (range'.intersect other')) ∧
    (∀ s s' : SourceRequirement, s = s' ∨ s.Respelled s' → s.Alike s') ∧
    ∀ (table table' : List Environment) (ss ss' : List SourceRequirement),
      List.Forall₂ Environment.Alike table table' →
      List.Forall₂ SourceRequirement.Alike ss ss' →
      Except.Rel MalformedRequirement.Alike
        (fun r r' => r.surviving.map (·.label) = r'.surviving.map (·.label) ∧ r.Alike r')
        (resolve table ss) (resolve table' ss') := by
  refine ⟨⟨Version.compare_swap a b, Version.isLE_total a b, Std.TransCmp.isLE_trans,
    Version.compare_eq_iff⟩, fun _ _ => Version.compare_congr,
    fun _ _ _ _ => VersionRange.make_alike, fun _ _ _ _ => VersionRange.intersect_congr,
    ?_, fun table table' ss ss' htable hss => ?_⟩
  · rintro s s' (rfl | h)
    · exact .refl s
    · exact h.alike
  · exact (resolve_congr htable hss).mono fun hr => ⟨map_label_congr hr.surviving, hr⟩

/-- Java 8 is asked for as `1.8` and as `1.8.0`, and the range of one environment ends at the other
of the two. -/
theorem compare_forgets_spelling_trailing_zero :
    ∃ short long : Version, short.text = ascii "1.8" ∧ long.text = ascii "1.8.0" ∧
      (∀ v, short.compare v = long.compare v) ∧
      ∃ older upToShort upToLong : VersionRange,
        older.ceiling.map (·.version.text) = some (ascii "1.7") ∧
        upToShort.ceiling.map (·.version.text) = some (ascii "1.8") ∧
        upToLong.ceiling.map (·.version.text) = some (ascii "1.8.0") ∧
        ∃ r r', resolve [⟨ascii "Java 7", older⟩, ⟨ascii "Java 8", upToLong⟩]
            [⟨ascii "a.jar", javaHeader short⟩] = .ok r ∧
          resolve [⟨ascii "Java 7", older⟩, ⟨ascii "Java 8", upToShort⟩]
            [⟨ascii "a.jar", javaHeader long⟩] = .ok r' ∧
          r.surviving.map (·.label) = [ascii "Java 8"] ∧
          r'.surviving.map (·.label) = [ascii "Java 8"] := by
  let short : Version := ⟨1, 8, 0, [], ascii "1.8"⟩
  let long : Version := ⟨1, 8, 0, [], ascii "1.8.0"⟩
  let floor : Bound := ⟨⟨1, 2, 0, [], ascii "1.2"⟩, false⟩
  let older : VersionRange := ⟨floor, some ⟨⟨1, 7, 0, [], ascii "1.7"⟩, false⟩, by decide⟩
  let upToShort : VersionRange := ⟨floor, some ⟨short, false⟩, by decide⟩
  let upToLong : VersionRange := ⟨floor, some ⟨long, false⟩, by decide⟩
  have read : short.IsRead ∧ long.IsRead := by
    rw [Version.IsRead, Version.IsRead]
    decide +kernel
  have same : short.compare long = .eq := by decide
  have table : List.Forall₂ Environment.Alike
      [⟨ascii "Java 7", older⟩, ⟨ascii "Java 8", upToLong⟩]
      [⟨ascii "Java 7", older⟩, ⟨ascii "Java 8", upToShort⟩] :=
    .cons ⟨rfl, .refl older⟩ (.cons ⟨rfl, .refl floor, .some ⟨by decide, rfl⟩⟩ .nil)
  obtain ⟨-, -, -, -, hsources, hresolve⟩ := compare_forgets_spelling short long short
  have source := hsources ⟨ascii "a.jar", javaHeader short⟩ ⟨ascii "a.jar", javaHeader long⟩
    (.inr (respelled_javaHeader read.1 read.2 same (ascii "a.jar")))
  have outcomes := hresolve _ _ _ _ table (.cons source .nil)
  have demands := demands_javaHeader read.1 (ascii "a.jar")
  obtain ⟨r, hr, hsurviving⟩ := exists_resolve_eq_ok
    [⟨ascii "Java 7", older⟩, ⟨ascii "Java 8", upToLong⟩]
    (List.forall_mem_singleton.2 demands.not_malformed)
  have hlabels : r.surviving.map (·.label) = [ascii "Java 8"] := by
    simp only [hsurviving, List.forall_mem_singleton, admits_iff_of_demands demands]
    decide +kernel
  rw [hr] at outcomes
  generalize hr' : resolve [⟨ascii "Java 7", older⟩, ⟨ascii "Java 8", upToShort⟩]
    [⟨ascii "a.jar", javaHeader long⟩] = outcome at outcomes
  cases outcomes with
  | @ok _ r' halike =>
    refine ⟨short, long, rfl, rfl, fun v => ?_, older, upToShort, upToLong, rfl, rfl, rfl, r, r',
      hr, hr', hlabels, halike.1.symm.trans hlabels⟩
    exact (compare_forgets_spelling short v v).2.1 long v same (Version.compare_self v)

end Resolution

end JavaFloor
