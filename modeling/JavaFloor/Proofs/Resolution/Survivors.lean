import JavaFloor.Proofs.Filter.Reading
import JavaFloor.Proofs.Resolution.Demand
import JavaFloor.Proofs.Version.Text

/-!
# The environments that are left

Resolution narrows its table source by source. What is left in the end depends on none of the steps:
an environment stays if every source admits it. The main statement, `resolve_eq_filter`, says when
resolution fails, which environments are left, that the order of the sources makes no difference to
them, and that idle sources make none to anything. It rests on one lemma for each step and each
kind of source (`absorb_of_malformed`, `absorb_of_idle`, `absorb_of_demands`), and on two for a run:

* `foldlM_absorb_fails_iff`: a run fails if one of its sources is malformed;
* `surviving_of_foldlM_absorb`: else it leaves the environments that all of its sources admit.
-/

namespace JavaFloor

namespace SourceRequirement

/-- The source drops no environment like `e`: if it demands a range, `e` has a version in it. -/
def Admits (s : SourceRequirement) (e : Environment) : Prop :=
  ∀ directive range, s.Demands directive range → (e.range.intersect range).isSome

theorem admits_of_idle {s : SourceRequirement} (h : s.Idle) (e : Environment) : s.Admits e :=
  fun directive range hd => absurd hd (h.2 directive range)

theorem admits_iff_of_demands {s : SourceRequirement} {directive : Bytes} {range : VersionRange}
    (h : s.Demands directive range) (e : Environment) :
    s.Admits e ↔ (e.range.intersect range).isSome := by
  refine ⟨fun ha => ha directive range h, fun hi directive' range' h' => ?_⟩
  have heq := (demands_iff.1 h).symm.trans (demands_iff.1 h')
  simp only [Except.ok.injEq, Option.some.injEq, Demand.mk.injEq] at heq
  exact heq.2.2 ▸ hi

instance (s : SourceRequirement) (e : Environment) : Decidable (s.Admits e) :=
  match h : s.demand? with
  | .error _ => .isTrue fun _ _ hd => by simp [demands_iff.1 hd] at h
  | .ok none => .isTrue (admits_of_idle (idle_iff.2 h) e)
  | .ok (some d) =>
    decidable_of_iff ((e.range.intersect d.range).isSome = true) <| by
      constructor
      · intro hi directive range hd
        rw [demands_iff.1 hd] at h
        cases h
        exact hi
      · intro ha
        rcases s.demand?_cases with ⟨_, he, -⟩ | ⟨hn, -⟩ | ⟨directive, range, hs, hd⟩
        · simp [h] at he
        · simp [h] at hn
        · rw [h] at hs
          cases hs
          exact ha directive range hd

end SourceRequirement

namespace Resolution

open SourceRequirement

variable {r : Resolution} {s : SourceRequirement}

/-! ## One source -/

@[simp]
theorem narrow_surviving (r : Resolution) (d : Demand) :
    (r.narrow d).surviving = r.surviving.filter (meets d) := by
  rw [narrow, List.partition_eq_filter_filter]

theorem absorb_of_malformed (h : s.Malformed) : ∃ e, r.absorb s = .error e := by
  obtain ⟨e, he⟩ := malformed_iff.1 h
  exact ⟨e, by rw [absorb, he]⟩

theorem absorb_of_idle (h : s.Idle) : r.absorb s = .ok r := by
  rw [absorb, idle_iff.1 h]

theorem absorb_of_demands {directive : Bytes} {range : VersionRange}
    (h : s.Demands directive range) :
    r.absorb s = .ok (r.narrow ⟨s.source, directive, range⟩) := by
  rw [absorb, demands_iff.1 h]

/-- A source that can be read leaves the environments that it admits. -/
theorem absorb_of_not_malformed (r : Resolution) (h : ¬ s.Malformed) :
    ∃ r', r.absorb s = .ok r' ∧ r'.surviving = r.surviving.filter (s.Admits ·) := by
  rcases s.demand?_cases with ⟨_, -, hm⟩ | ⟨-, hi⟩ | ⟨directive, range, -, hd⟩
  · exact absurd hm h
  · refine ⟨r, absorb_of_idle hi, ?_⟩
    rw [List.filter_eq_self.2 fun e _ => by simpa using admits_of_idle hi e]
  · refine ⟨_, absorb_of_demands hd, ?_⟩
    rw [narrow_surviving]
    refine List.filter_congr fun e _ => ?_
    rw [meets, Bool.eq_iff_iff, decide_eq_true_iff]
    exact (admits_iff_of_demands hd e).symm

/-! ## A run over the sources -/

/-- Where the run stands makes no difference to whether it fails. -/
theorem foldlM_absorb_fails_iff (r : Resolution) (ss : List SourceRequirement) :
    (∃ e, ss.foldlM absorb r = .error e) ↔ ∃ s ∈ ss, s.Malformed := by
  induction ss generalizing r with
  | nil => simp [pure, Except.pure]
  | cons s ss ih =>
    by_cases hm : s.Malformed
    · obtain ⟨e, he⟩ := absorb_of_malformed (r := r) hm
      exact iff_of_true ⟨e, by rw [List.foldlM_cons, he]; rfl⟩ ⟨s, List.mem_cons_self, hm⟩
    · obtain ⟨r', hr', -⟩ := absorb_of_not_malformed r hm
      rw [List.foldlM_cons, hr']
      exact (ih r').trans (by simp [hm])

theorem surviving_of_foldlM_absorb {r' : Resolution} {ss : List SourceRequirement}
    (h : ss.foldlM absorb r = .ok r') :
    r'.surviving = r.surviving.filter fun e => ∀ s ∈ ss, s.Admits e := by
  induction ss generalizing r with
  | nil =>
    cases h
    exact (List.filter_eq_self.2 (by simp)).symm
  | cons s ss ih =>
    have hm : ¬ s.Malformed := fun hm => by
      obtain ⟨e, he⟩ := absorb_of_malformed (r := r) hm
      rw [List.foldlM_cons, he] at h
      cases h
    obtain ⟨r₁, hr₁, hs⟩ := absorb_of_not_malformed r hm
    rw [List.foldlM_cons, hr₁] at h
    rw [ih h, hs, List.filter_filter]
    refine List.filter_congr fun e _ => ?_
    rw [Bool.eq_iff_iff]
    simp [and_comm]

/-- An idle source can be left out wherever it stands. -/
theorem foldlM_absorb_of_idle (r : Resolution) (before after : List SourceRequirement)
    (h : s.Idle) : (before ++ s :: after).foldlM absorb r = (before ++ after).foldlM absorb r := by
  have step : ∀ r : Resolution, (s :: after).foldlM absorb r = after.foldlM absorb r := fun r => by
    rw [List.foldlM_cons, absorb_of_idle h]
    rfl
  rw [List.foldlM_append, List.foldlM_append, funext step]

/-! ## Resolution as a whole -/

/-- Sources that were resolved can be read. -/
theorem not_malformed_of_resolve {table : List Environment} {ss : List SourceRequirement}
    (h : resolve table ss = .ok r) : ∀ s ∈ ss, ¬ s.Malformed := by
  intro s hs hm
  obtain ⟨e, he⟩ := (foldlM_absorb_fails_iff (start table) ss).2 ⟨s, hs, hm⟩
  rw [← resolve, h] at he
  cases he

/-- Sources that can be read are resolved, and leave the environments that they all admit. -/
theorem exists_resolve_eq_ok (table : List Environment) {ss : List SourceRequirement}
    (h : ∀ s ∈ ss, ¬ s.Malformed) : ∃ r, resolve table ss = .ok r ∧
      r.surviving = table.filter fun e => ∀ s ∈ ss, s.Admits e := by
  cases hr : resolve table ss with
  | error e =>
    obtain ⟨s, hs, hm⟩ := (foldlM_absorb_fails_iff (start table) ss).1 ⟨e, hr⟩
    exact absurd hm (h s hs)
  | ok r => exact ⟨r, rfl, surviving_of_foldlM_absorb hr⟩

/-- What is left decides whether there is a conflict, and the lowest version. -/
theorem isConflict_eq_minimumVersion_eq {r r' : Resolution} (h : r.surviving = r'.surviving) :
    r.isConflict = r'.isConflict ∧ r.minimumVersion = r'.minimumVersion := by
  rw [isConflict, isConflict, minimumVersion, minimumVersion, h]
  exact ⟨rfl, rfl⟩

/-- Sources that are read in another order leave the same environments. -/
theorem filter_admits_perm {ss ss' : List SourceRequirement} (h : ss.Perm ss')
    (table : List Environment) :
    (table.filter fun e => ∀ s ∈ ss, s.Admits e) =
      table.filter fun e => ∀ s ∈ ss', s.Admits e :=
  List.filter_congr fun e _ => by simp [h.mem_iff]

/-- **Resolution is a filter.** It fails if and only if a source is malformed, whatever the others
are. Else the environments left are those of the table that every source admits, in their order and
unchanged. So the order of the sources makes no difference to failure, to what is left, to whether
there is a conflict and to the lowest version; and an idle source makes no difference to the whole
outcome, wherever it stands. -/
theorem resolve_eq_filter (table : List Environment) (ss : List SourceRequirement) :
    ((∃ e, resolve table ss = .error e) ↔ ∃ s ∈ ss, s.Malformed) ∧
    (∀ r, resolve table ss = .ok r →
      r.surviving = table.filter fun e => ∀ s ∈ ss, s.Admits e) ∧
    (∀ ss', ss.Perm ss' →
      ((∃ e, resolve table ss = .error e) ∧ ∃ e, resolve table ss' = .error e) ∨
      ∃ r r', resolve table ss = .ok r ∧ resolve table ss' = .ok r' ∧
        r.surviving = r'.surviving ∧ r.isConflict = r'.isConflict ∧
        r.minimumVersion = r'.minimumVersion) ∧
    ∀ before s after, ss = before ++ s :: after → s.Idle →
      resolve table ss = resolve table (before ++ after) := by
  refine ⟨foldlM_absorb_fails_iff _ ss, fun r h => surviving_of_foldlM_absorb h,
    fun ss' hp => ?_, fun before s after h hi => ?_⟩
  · have fails : (∃ e, resolve table ss = .error e) ↔ ∃ e, resolve table ss' = .error e := by
      simp only [resolve, foldlM_absorb_fails_iff, hp.mem_iff]
    cases hr : resolve table ss with
    | error e => exact .inl ⟨⟨e, rfl⟩, fails.1 ⟨e, hr⟩⟩
    | ok r =>
      cases hr' : resolve table ss' with
      | error e =>
        obtain ⟨e', he'⟩ := fails.2 ⟨e, hr'⟩
        simp [hr] at he'
      | ok r' =>
        have hs : r.surviving = r'.surviving := by
          rw [surviving_of_foldlM_absorb hr, surviving_of_foldlM_absorb hr']
          exact filter_admits_perm hp table
        exact .inr ⟨r, r', rfl, rfl, hs, isConflict_eq_minimumVersion_eq hs⟩
  · rw [h]
    exact foldlM_absorb_of_idle _ before after hi

/-- Three sources of the three kinds. -/
theorem resolve_three_kinds : ∃ newer idle malformed : SourceRequirement,
    newer.header = ascii "osgi.ee;filter:=\"(&(osgi.ee=JavaSE)(version>=1.9))\"" ∧
    idle.header = ascii "osgi.extender;" ∧ malformed.header = ascii ";osgi.ee" ∧
    (∃ r, resolve javaEnvironments [idle, newer] = .ok r ∧
      r.surviving.map (·.label) = [ascii "Java 9", ascii "Java 10", ascii "Java 11"]) ∧
    ∃ e, resolve javaEnvironments [newer, malformed, idle] = .error e := by
  have java : Filter.Spelled (.item environmentNamespace .equal javaSE)
      (ascii "(osgi.ee=JavaSE)") :=
    .plain (ascii "osgi.ee=JavaSE") (by decide +kernel) (by decide +kernel) (by decide +kernel)
  have floor : Filter.Spelled (.item versionKey .greaterEqual (ascii "1.9"))
      (ascii "(version>=1.9)") :=
    .plain (ascii "version>=1.9") (by decide +kernel) (by decide +kernel) (by decide +kernel)
  have tree : Filter.Spelled _ (ascii "(&(osgi.ee=JavaSE)(version>=1.9))") :=
    .of_body (.all (.cons java (.cons floor .nil)) Filter.isGap_nil)
  have filter : Filter.parse (ascii "(&(osgi.ee=JavaSE)(version>=1.9))") =
      .ok [⟨false, .attr environmentNamespace javaSE⟩,
        ⟨false, .compare .atLeast ⟨1, 9, 0, [], ascii "1.9"⟩⟩] :=
    Filter.parse_eq_ok_iff.2 ⟨_, tree, by decide +kernel⟩
  have read : Version.IsRead ⟨1, 9, 0, [], ascii "1.9"⟩ := by
    rw [Version.IsRead]
    decide +kernel
  obtain ⟨newer, hnewer, demands⟩ : ∃ s : SourceRequirement,
      s.header = ascii "osgi.ee;filter:=\"(&(osgi.ee=JavaSE)(version>=1.9))\"" ∧
      s.Demands (ascii "(&(osgi.ee=JavaSE)(version>=1.9))")
        (.atLeast ⟨1, 9, 0, [], ascii "1.9"⟩) := by
    obtain ⟨clauses, hclauses, hfirst⟩ : ∃ clauses,
        Clause.parseHeader (ascii "osgi.ee;filter:=\"(&(osgi.ee=JavaSE)(version>=1.9))\"") =
          .ok clauses ∧ directive? clauses = some (ascii "(&(osgi.ee=JavaSE)(version>=1.9))") :=
      map_eq_ok (by decide +kernel)
    refine ⟨⟨ascii "a.jar", ascii "osgi.ee;filter:=\"(&(osgi.ee=JavaSE)(version>=1.9))\""⟩, rfl, ?_⟩
    exact .intro hclauses (directive?_eq_some_iff.1 hfirst) filter
      ⟨by decide +kernel, by decide +kernel⟩ (VersionRange.parseQuoted_text read)
  obtain ⟨other, hother, idle⟩ : ∃ s : SourceRequirement,
      s.header = ascii "osgi.extender;" ∧ s.Idle := by
    obtain ⟨clauses, hclauses, hnone⟩ : ∃ clauses,
        Clause.parseHeader (ascii "osgi.extender;") = .ok clauses ∧ directive? clauses = none :=
      map_eq_ok (by decide +kernel)
    refine ⟨⟨ascii "b.jar", ascii "osgi.extender;"⟩, rfl, ?_⟩
    rw [idle_iff, demand?, hclauses]
    simp only [hnone]
  obtain ⟨broken, hbroken, malformed⟩ : ∃ s : SourceRequirement,
      s.header = ascii ";osgi.ee" ∧ s.Malformed := by
    have hfail : ((Clause.parseHeader (ascii ";osgi.ee")).map directive?) =
      .error (.noNamespace (ascii ";osgi.ee")) := by decide +kernel
    cases hc : Clause.parseHeader (ascii ";osgi.ee") with
    | error e => exact ⟨⟨ascii "c.jar", ascii ";osgi.ee"⟩, rfl, .header hc⟩
    | ok clauses => simp [hc, Except.map] at hfail
  refine ⟨newer, other, broken, hnewer, hother, hbroken, ?_, ?_⟩
  · obtain ⟨fails, surviving, -⟩ := resolve_eq_filter javaEnvironments [other, newer]
    cases hr : resolve javaEnvironments [other, newer] with
    | error e =>
      obtain ⟨s, hs, hm⟩ := fails.1 ⟨e, hr⟩
      simp only [List.mem_cons, List.not_mem_nil, or_false] at hs
      rcases hs with rfl | rfl
      · exact absurd hm idle.1
      · exact absurd hm demands.not_malformed
    | ok r =>
      refine ⟨r, rfl, ?_⟩
      have admits : ∀ e : Environment, decide (∀ s ∈ [other, newer], s.Admits e) =
          (e.range.intersect (.atLeast ⟨1, 9, 0, [], ascii "1.9"⟩)).isSome := by
        intro e
        simp [admits_of_idle idle, admits_iff_of_demands demands]
      rw [surviving r hr]
      simp only [admits]
      decide +kernel
  · exact (resolve_eq_filter _ _).1.2 ⟨broken, by simp, malformed⟩

end Resolution

end JavaFloor
