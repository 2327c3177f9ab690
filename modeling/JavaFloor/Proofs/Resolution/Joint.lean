import JavaFloor.Proofs.Resolution.Java
import JavaFloor.Proofs.Resolution.Survivors
import JavaFloor.Proofs.Version.Intersection

/-!
# Testing the sources one at a time

Resolution holds each environment against one demand after another, and an environment that stays
keeps its own range. It could be narrowed to what it has in common with the demands instead. Here
the two are compared: they leave the same environments as long as the demands meet each other.

* `VersionRange.isSome_intersect_iff_of_intersect`: a range meets an intersection if it meets both
  of the ranges. So ranges that meet in pairs have a common intersection
  (`VersionRange.isSome_foldlM_intersect_iff`), and this has the versions that they share
  (`VersionRange.mem_foldlM_intersect_iff`).
* `SourceRequirement.Compares s ls`: the source asks for Java with the comparisons `ls`. It admits
  the environments to which each of the comparisons leaves room
  (`SourceRequirement.Compares.admits_iff`).
* `Resolution.surviving_iff_joint` puts this together.
-/

namespace JavaFloor

/-! ## Ranges that meet -/

namespace VersionRange

open JavaFloor.Bound

variable {r s t : VersionRange} {v : Version}

/-- **To meet what two ranges have in common is to meet both.** -/
theorem isSome_intersect_iff_of_intersect (h : r.intersect s = some t) (q : VersionRange) :
    (t.intersect q).isSome ↔ (r.intersect q).isSome ∧ (s.intersect q).isSome := by
  obtain ⟨hfloor, hceiling⟩ := ends_of_make h
  rw [isSome_intersect_iff, isSome_intersect_iff, isSome_intersect_iff, hfloor, hceiling,
    inOrder_highest_iff, inOrder_lowest?_iff]
  exact and_and_and_comm

theorem isSome_intersect_comm (r s : VersionRange) :
    (r.intersect s).isSome ↔ (s.intersect r).isSome := by
  rw [isSome_intersect_iff, isSome_intersect_iff, and_comm]

/-- Ranges have a common intersection if they meet in pairs. -/
theorem isSome_foldlM_intersect_iff (r : VersionRange) (ranges : List VersionRange) :
    (ranges.foldlM intersect r).isSome ↔ (∀ s ∈ ranges, (r.intersect s).isSome) ∧
      ranges.Pairwise fun s t => (s.intersect t).isSome := by
  induction ranges generalizing r with
  | nil => simp
  | cons s ranges ih =>
    rw [List.foldlM_cons, List.forall_mem_cons, List.pairwise_cons]
    cases h : r.intersect s with
    | none => simp
    | some t =>
      have hmeets : (∀ q ∈ ranges, (t.intersect q).isSome) ↔
          (∀ q ∈ ranges, (r.intersect q).isSome) ∧ ∀ q ∈ ranges, (s.intersect q).isSome := by
        simp only [isSome_intersect_iff_of_intersect h, forall₂_and]
      rw [Option.bind_eq_bind, Option.bind_some, ih, hmeets, Option.isSome_some]
      tauto

/-- The common intersection has the versions that are in all of the ranges. -/
theorem mem_foldlM_intersect_iff {ranges : List VersionRange}
    (h : ranges.foldlM intersect r = some t) : v ∈ t ↔ v ∈ r ∧ ∀ s ∈ ranges, v ∈ s := by
  induction ranges generalizing r with
  | nil =>
    cases h
    simp
  | cons s ranges ih =>
    obtain ⟨q, hq, h⟩ := Option.bind_eq_some_iff.1 h
    rw [ih h, mem_intersect_iff hq, List.forall_mem_cons, and_assoc]

/-- Ranges with a version in common have a common intersection. -/
theorem isSome_foldlM_intersect_of_mem {ranges : List VersionRange} (hr : v ∈ r)
    (hs : ∀ s ∈ ranges, v ∈ s) : (ranges.foldlM intersect r).isSome := by
  rw [isSome_foldlM_intersect_iff]
  exact ⟨fun s h => isSome_intersect_of_mem hr (hs s h),
    List.pairwise_of_forall_mem_list fun s h t h' => isSome_intersect_of_mem (hs s h) (hs t h')⟩

/-- No range ends below `0.0.0`. -/
theorem inOrder_zero (r : VersionRange) : InOrder ⟨.zero, false⟩ r.ceiling :=
  inOrder_of_isLE r.inOrder (Version.compare_zero_isLE _) rfl

end VersionRange

/-! ## Comparisons that leave room -/

/-- The bound that a comparison demands leaves room for versions of a range. -/
def Literal.LeavesRoom (l : Literal) (r : VersionRange) : Prop :=
  (∀ a ∈ l.floor?, Bound.InOrder a r.ceiling) ∧
    ∀ c ∈ l.ceiling?, Bound.InOrder r.floor (some c)

namespace Filter

/-- A range meets that of a filter if every comparison leaves it room. -/
theorem isSome_intersect_iff_leavesRoom {f : Filter} {range : VersionRange}
    (h : VersionRange.make f.lowEnd f.ceiling? = some range) (r : VersionRange) :
    (r.intersect range).isSome ↔ ∀ l ∈ f, l.LeavesRoom r := by
  obtain ⟨hfloor, hceiling⟩ := VersionRange.ends_of_make h
  rw [VersionRange.isSome_intersect_iff, hfloor, hceiling, inOrder_lowEnd_iff,
    inOrder_ceiling?_iff, and_iff_right r.inOrder_zero, List.forall_mem_filterMap,
    List.forall_mem_filterMap, and_comm]
  exact forall₂_and.symm

/-- Literals of other kinds change neither the floor nor the ceiling. -/
theorem lowEnd_comparisons (f : Filter) :
    lowEnd (f.filter Literal.isComparison) = f.lowEnd ∧
      ceiling? (f.filter Literal.isComparison) = f.ceiling? := by
  rw [lowEnd, lowEnd, floor?, floor?, ceiling?, ceiling?, filterMap_floor?_comparisons,
    filterMap_ceiling?_comparisons]
  exact ⟨rfl, rfl⟩

end Filter

namespace SourceRequirement

/-- The source asks for Java, and `ls` are the comparisons in its filter. -/
def Compares (s : SourceRequirement) (ls : List Literal) : Prop :=
  ∃ clauses directive f, Clause.parseHeader s.header = .ok clauses ∧
    IsDirective clauses directive ∧ Filter.parse directive = .ok f ∧
    f.flatten.find? environmentNamespace = some javaSE ∧ f.filter Literal.isComparison = ls

variable {s : SourceRequirement} {ls : List Literal}

/-- The comparisons in a filter are those in the tree that it spells. -/
theorem Compares.of_spelled (directive : Bytes) {n : Filter.Node} {f : Filter}
    (hread : (Clause.parseHeader s.header).map directive? = .ok (some directive))
    (hn : Filter.Spelled n (Bytes.trim directive)) (hf : n.literals? false = some f)
    (hjava : f.flatten.find? environmentNamespace = some javaSE)
    (hls : f.filter Literal.isComparison = ls) : s.Compares ls := by
  obtain ⟨clauses, hclauses, hfirst⟩ := map_eq_ok hread
  exact ⟨clauses, directive, f, hclauses, directive?_eq_some_iff.1 hfirst,
    Filter.parse_eq_ok_iff.2 ⟨n, hn, hf⟩, hjava, hls⟩

/-- A source whose comparisons are not inverted demands the range that they leave. -/
theorem Compares.exists_demands (h : s.Compares ls) (hne : ls ≠ [])
    (hroom : Filter.NotInverted ls) : ∃ directive range, s.Demands directive range ∧
      VersionRange.make (Filter.lowEnd ls) (Filter.ceiling? ls) = some range := by
  obtain ⟨clauses, directive, f, hread, hfirst, hf, hjava, rfl⟩ := h
  obtain ⟨text, htext, hparse⟩ := Filter.parseQuoted_interval hf hne
  rw [Filter.notInverted_iff_inOrder, ← VersionRange.isSome_make_iff] at hroom
  rw [f.lowEnd_comparisons.1, f.lowEnd_comparisons.2] at hroom ⊢
  obtain ⟨range, hmake⟩ := Option.isSome_iff_exists.1 hroom
  have asks : AsksFor f text := ⟨hjava, Filter.find?_flatten_of_interval htext⟩
  exact ⟨directive, range, .intro hread hfirst hf asks ((hparse range).2 hmake), hmake⟩

theorem Compares.not_malformed (h : s.Compares ls) (hne : ls ≠ [])
    (hroom : Filter.NotInverted ls) : ¬ s.Malformed := by
  obtain ⟨directive, range, hd, -⟩ := h.exists_demands hne hroom
  exact hd.not_malformed

/-- **A source admits the environments to which each of its comparisons leaves room.** -/
theorem Compares.admits_iff (h : s.Compares ls) (hne : ls ≠ []) (hroom : Filter.NotInverted ls)
    (e : Environment) : s.Admits e ↔ ∀ l ∈ ls, l.LeavesRoom e.range := by
  obtain ⟨directive, range, hd, hmake⟩ := h.exists_demands hne hroom
  rw [admits_iff_of_demands hd, Filter.isSome_intersect_iff_leavesRoom hmake]

end SourceRequirement

/-! ## Resolution -/

namespace Resolution

open SourceRequirement

variable {ss : List SourceRequirement} {ranges : List VersionRange}

/-- The sources qualify, and `ranges` are the ranges that they demand. -/
def Demanded (ss : List SourceRequirement) (ranges : List VersionRange) : Prop :=
  List.Forall₂ (fun s range => ∃ directive, Demands s directive range) ss ranges

theorem Demanded.not_malformed (h : Demanded ss ranges) : ∀ s ∈ ss, ¬ s.Malformed := by
  induction h with
  | nil => simp
  | cons hs _ ih =>
    obtain ⟨directive, hs⟩ := hs
    exact List.forall_mem_cons.2 ⟨hs.not_malformed, ih⟩

theorem Demanded.forall_admits_iff (h : Demanded ss ranges) (e : Environment) :
    (∀ s ∈ ss, s.Admits e) ↔ ∀ range ∈ ranges, (e.range.intersect range).isSome := by
  induction h with
  | nil => simp
  | cons hs _ ih =>
    obtain ⟨directive, hs⟩ := hs
    rw [List.forall_mem_cons, List.forall_mem_cons, admits_iff_of_demands hs, ih]

/-- Both lists of sources are resolved, and they leave the same environments. -/
def LeaveSame (table : List Environment) (ss ss' : List SourceRequirement) : Prop :=
  ∃ r r', resolve table ss = .ok r ∧ resolve table ss' = .ok r' ∧ r.surviving = r'.surviving

theorem leaveSame_of_admits {ss' : List SourceRequirement} (h : ∀ s ∈ ss, ¬ s.Malformed)
    (h' : ∀ s ∈ ss', ¬ s.Malformed)
    (hsame : ∀ e : Environment, (∀ s ∈ ss, s.Admits e) ↔ ∀ s ∈ ss', s.Admits e)
    (table : List Environment) : LeaveSame table ss ss' := by
  obtain ⟨r, hr, hsurviving⟩ := exists_resolve_eq_ok table h
  obtain ⟨r', hr', hsurviving'⟩ := exists_resolve_eq_ok table h'
  exact ⟨r, r', hr, hr', by simp only [hsurviving, hsurviving', hsame]⟩

/-- One source may ask for what two others have in common. -/
theorem leaveSame_of_intersect {both first second : SourceRequirement}
    {range low high : VersionRange} (hboth : Demanded [both] [range])
    (hsplit : Demanded [first, second] [low, high]) (h : low.intersect high = some range)
    (table : List Environment) :
    LeaveSame table [both] [first, second] := by
  refine leaveSame_of_admits hboth.not_malformed hsplit.not_malformed (fun e => ?_) table
  rw [hboth.forall_admits_iff, hsplit.forall_admits_iff, List.forall_mem_singleton,
    List.forall_mem_cons, List.forall_mem_singleton, e.range.isSome_intersect_comm,
    e.range.isSome_intersect_comm, e.range.isSome_intersect_comm,
    VersionRange.isSome_intersect_iff_of_intersect h]

/-- Two sources may share the comparisons of one. -/
theorem leaveSame_of_compares {both first second : SourceRequirement} {ls ls₁ ls₂ : List Literal}
    (hboth : both.Compares ls) (hfirst : first.Compares ls₁) (hsecond : second.Compares ls₂)
    (hne₁ : ls₁ ≠ []) (hne₂ : ls₂ ≠ []) (hsame : ∀ l, l ∈ ls ↔ l ∈ ls₁ ∨ l ∈ ls₂)
    (hroom : Filter.NotInverted ls) (table : List Environment) :
    LeaveSame table [both] [first, second] := by
  have hne : ls ≠ [] := by
    obtain ⟨l, hl⟩ := List.exists_mem_of_ne_nil _ hne₁
    exact List.ne_nil_of_mem ((hsame l).2 (.inl hl))
  have hroom₁ : Filter.NotInverted ls₁ := hroom.of_subset fun l hl => (hsame l).2 (.inl hl)
  have hroom₂ : Filter.NotInverted ls₂ := hroom.of_subset fun l hl => (hsame l).2 (.inr hl)
  refine leaveSame_of_admits (List.forall_mem_singleton.2 (hboth.not_malformed hne hroom))
    (List.forall_mem_cons.2 ⟨hfirst.not_malformed hne₁ hroom₁,
      List.forall_mem_singleton.2 (hsecond.not_malformed hne₂ hroom₂)⟩) (fun e => ?_) table
  rw [List.forall_mem_singleton, List.forall_mem_cons, List.forall_mem_singleton,
    hboth.admits_iff hne hroom, hfirst.admits_iff hne₁ hroom₁, hsecond.admits_iff hne₂ hroom₂]
  simp only [hsame, or_imp, forall_and]

/-- **Testing the sources one at a time is enough if they are compatible.**

If the ranges that the sources demand meet in pairs, an environment is left if and only if its range
and all of theirs, intersected one after another, leave a range. That range has the versions that
all of them share; and if none is left, they share no version. In particular it makes no difference
whether one source asks for an interval or two sources ask for parts of which it is the
intersection, nor whether one source compares versions or two sources share its comparisons, such as
a floor and a ceiling, unless these are inverted. -/
theorem surviving_iff_joint (table : List Environment) :
    (∀ (ss : List SourceRequirement) (ranges : List VersionRange), Demanded ss ranges →
      ranges.Pairwise (fun s t => (s.intersect t).isSome) →
      ∃ r, resolve table ss = .ok r ∧ r.surviving =
        table.filter fun e => (ranges.foldlM VersionRange.intersect e.range).isSome) ∧
    (∀ (range : VersionRange) (ranges : List VersionRange),
      (∀ t, ranges.foldlM VersionRange.intersect range = some t →
        ∀ v, v ∈ t ↔ v ∈ range ∧ ∀ s ∈ ranges, v ∈ s) ∧
      (ranges.foldlM VersionRange.intersect range = none →
        ¬ ∃ v, v ∈ range ∧ ∀ s ∈ ranges, v ∈ s)) ∧
    (∀ both first second range low high, Demanded [both] [range] →
      Demanded [first, second] [low, high] → low.intersect high = some range →
      LeaveSame table [both] [first, second]) ∧
    ∀ (both first second : SourceRequirement) (ls ls₁ ls₂ : List Literal), both.Compares ls →
      first.Compares ls₁ → second.Compares ls₂ → ls₁ ≠ [] → ls₂ ≠ [] →
      (∀ l, l ∈ ls ↔ l ∈ ls₁ ∨ l ∈ ls₂) → Filter.NotInverted ls →
      LeaveSame table [both] [first, second] := by
  refine ⟨fun ss ranges hd hpairs => ?_, fun range ranges => ⟨fun t ht v => ?_, ?_⟩,
    fun _ _ _ _ _ _ hboth hsplit h => leaveSame_of_intersect hboth hsplit h table,
    fun _ _ _ _ _ _ hboth hfirst hsecond hne₁ hne₂ hsame hroom =>
      leaveSame_of_compares hboth hfirst hsecond hne₁ hne₂ hsame hroom table⟩
  · obtain ⟨r, hr, hsurviving⟩ := exists_resolve_eq_ok table hd.not_malformed
    refine ⟨r, hr, hsurviving.trans (List.filter_congr fun e _ => ?_)⟩
    rw [Bool.eq_iff_iff, decide_eq_true_iff, hd.forall_admits_iff,
      VersionRange.isSome_foldlM_intersect_iff, and_iff_left hpairs]
  · exact VersionRange.mem_foldlM_intersect_iff ht
  · rintro hnone ⟨v, hv, hall⟩
    have hsome := VersionRange.isSome_foldlM_intersect_of_mem hv hall
    rw [hnone] at hsome
    cases hsome

/-- A source asks for Java 7 up to 9, or one asks for Java 7 or later and another one for at most
Java 9. -/
theorem surviving_iff_joint_bounds : ∃ both low high : SourceRequirement,
    both.header =
      ascii "osgi.ee;filter:=\"(&(osgi.ee=JavaSE)(version>=1.7)(version<=1.9))\"" ∧
    low.header = ascii "osgi.ee;filter:=\"(&(osgi.ee=JavaSE)(version>=1.7))\"" ∧
    high.header = ascii "osgi.ee;filter:=\"(&(osgi.ee=JavaSE)(version<=1.9))\"" ∧
    (∃ r, resolve javaEnvironments [low, high] = .ok r ∧ r.surviving.map (·.label) =
      [ascii "Java 7", ascii "Java 8", ascii "Java 9", ascii "Java 10", ascii "Java 11"]) ∧
    LeaveSame javaEnvironments [both] [low, high] := by
  let seven : Version := ⟨1, 7, 0, [], ascii "1.7"⟩
  let nine : Version := ⟨1, 9, 0, [], ascii "1.9"⟩
  have floor : Filter.Spelled (.item versionKey .greaterEqual (ascii "1.7"))
      (ascii "(version>=1.7)") :=
    spelled_floor (v := seven) (by rw [Version.IsRead]; decide +kernel)
  have ceiling : Filter.Spelled (.item versionKey .lessEqual (ascii "1.9"))
      (ascii "(version<=1.9)") :=
    .plain (ascii "version<=1.9") (by decide +kernel) (by decide +kernel) (by decide +kernel)
  let both : SourceRequirement := ⟨ascii "a.jar",
    ascii "osgi.ee;filter:=\"(&(osgi.ee=JavaSE)(version>=1.7)(version<=1.9))\""⟩
  let low : SourceRequirement :=
    ⟨ascii "b.jar", ascii "osgi.ee;filter:=\"(&(osgi.ee=JavaSE)(version>=1.7))\""⟩
  let high : SourceRequirement :=
    ⟨ascii "c.jar", ascii "osgi.ee;filter:=\"(&(osgi.ee=JavaSE)(version<=1.9))\""⟩
  have hboth : both.Compares [⟨false, .compare .atLeast seven⟩, ⟨false, .compare .atMost nine⟩] :=
    .of_spelled (ascii "(&(osgi.ee=JavaSE)(version>=1.7)(version<=1.9))") (by decide +kernel)
      (.of_body (.all (.cons spelled_java (.cons floor (.cons ceiling .nil))) Filter.isGap_nil)) rfl
      (by decide +kernel) (by decide +kernel)
  have hlow : low.Compares [⟨false, .compare .atLeast seven⟩] :=
    .of_spelled (ascii "(&(osgi.ee=JavaSE)(version>=1.7))") (by decide +kernel)
      (.of_body (.all (.cons spelled_java (.cons floor .nil)) Filter.isGap_nil)) rfl
      (by decide +kernel) (by decide +kernel)
  have hhigh : high.Compares [⟨false, .compare .atMost nine⟩] :=
    .of_spelled (ascii "(&(osgi.ee=JavaSE)(version<=1.9))") (by decide +kernel)
      (.of_body (.all (.cons spelled_java (.cons ceiling .nil)) Filter.isGap_nil)) rfl
      (by decide +kernel) (by decide +kernel)
  have hroom : Filter.NotInverted
      [⟨false, .compare .atLeast seven⟩, ⟨false, .compare .atMost nine⟩] :=
    (Filter.notInverted_iff _).2 (by decide +kernel)
  obtain ⟨d, onward, hd, honward⟩ := hlow.exists_demands (List.cons_ne_nil _ _)
    (hroom.of_subset (by simp))
  obtain ⟨d', upTo, hd', hupTo⟩ := hhigh.exists_demands (List.cons_ne_nil _ _)
    (hroom.of_subset (by simp))
  obtain rfl : VersionRange.atLeast seven = onward := Option.some.inj honward
  obtain rfl : ⟨⟨.zero, false⟩, some ⟨nine, false⟩, by decide⟩ = upTo := Option.some.inj hupTo
  obtain ⟨hjoint, -, -, hshared⟩ := surviving_iff_joint javaEnvironments
  refine ⟨both, low, high, rfl, rfl, rfl, ?_, hshared _ _ _ _ _ _ hboth hlow hhigh
    (List.cons_ne_nil _ _) (List.cons_ne_nil _ _) (by simp) hroom⟩
  obtain ⟨r, hr, hsurviving⟩ := hjoint _ _ (.cons ⟨d, hd⟩ (.cons ⟨d', hd'⟩ .nil))
    (List.pairwise_pair.2 (by decide +kernel))
  exact ⟨r, hr, by rw [hsurviving]; decide +kernel⟩

end Resolution

end JavaFloor
