import JavaFloor.Proofs.Filter.Comparisons
import JavaFloor.Proofs.Version.Bounds

/-!
# The interval of a filter's comparisons

A filter's comparisons are folded into a floor and a ceiling, and these are written as a text that
the reader of ranges reads again. What comes of it depends on the comparisons alone:

* `NotInverted` says that there is room between the highest floor and the lowest ceiling that the
  comparisons demand.
* `mem_iff_holds`: between floor and ceiling are the versions that satisfy every comparison.
* `parseQuoted_interval`: the text is read again as what it was written from.
* `parse_interval`: the text is read as a range if and only if the comparisons are not inverted, and
  then as the range of the versions that satisfy all of them.
-/

namespace JavaFloor

namespace Filter

/-- The floors that comparisons demand, or `0.0.0` if they demand none. -/
def floorsOf (ls : List Literal) : List Bound :=
  if ls.filterMap Literal.floor? = [] then [⟨.zero, false⟩] else ls.filterMap Literal.floor?

/-- There is no ceiling, or the highest floor is in order with the lowest ceiling. -/
def NotInverted (ls : List Literal) : Prop :=
  ls.filterMap Literal.ceiling? = [] ∨
    ∃ highest lowest, Bound.IsHighest (floorsOf ls) highest ∧
      Bound.IsLowest (ls.filterMap Literal.ceiling?) lowest ∧
      Bound.InOrder highest (some lowest)

variable {f : Filter}

/-! ## Floor and ceiling -/

/-- The floor of the comparisons, or `0.0.0`. -/
def lowEnd (f : Filter) : Bound := f.floor?.getD ⟨.zero, false⟩

theorem floor?_cases (f : Filter) : (f.filterMap Literal.floor? = [] ∧ f.floor? = none) ∨
    ∃ b ∈ f.filterMap Literal.floor?, f.floor? = some b ∧
      Bound.IsHighest (f.filterMap Literal.floor?) b :=
  Bound.isHighest_foldl_raise _

theorem ceiling?_cases (f : Filter) : (f.filterMap Literal.ceiling? = [] ∧ f.ceiling? = none) ∨
    ∃ b ∈ f.filterMap Literal.ceiling?, f.ceiling? = some b ∧
      Bound.IsLowest (f.filterMap Literal.ceiling?) b :=
  Bound.isLowest_foldl_lower _

/-- A bound is found if one of the literals demands one. -/
theorem isSome_of_mem {demand : Literal → Option Bound} {found : Option Bound} {P : Bound → Prop}
    {l : Literal} (hfound : (f.filterMap demand = [] ∧ found = none) ∨
      ∃ b ∈ f.filterMap demand, found = some b ∧ P b)
    (hl : l ∈ f) (hd : (demand l).isSome) : found.isSome := by
  rcases hfound with ⟨hnil, -⟩ | ⟨b, -, hsome, -⟩
  · rw [List.filterMap_eq_nil_iff.1 hnil l hl] at hd
    cases hd
  · rw [hsome]
    rfl

theorem isHighest_lowEnd (f : Filter) : Bound.IsHighest (floorsOf f) f.lowEnd := by
  rw [floorsOf, lowEnd]
  rcases floor?_cases f with ⟨hnil, hnone⟩ | ⟨b, hb, hsome, hhighest⟩
  · rw [if_pos hnil, hnone]
    exact Bound.isTightest_singleton _
  · rw [if_neg (List.ne_nil_of_mem hb), hsome]
    exact hhighest

/-- The floor of the comparisons is in order with a ceiling if `0.0.0` is, and all the floors that
they demand. -/
theorem inOrder_lowEnd_iff (f : Filter) {ceiling : Option Bound} :
    Bound.InOrder f.lowEnd ceiling ↔ Bound.InOrder ⟨.zero, false⟩ ceiling ∧
      ∀ a ∈ f.filterMap Literal.floor?, Bound.InOrder a ceiling := by
  rw [(isHighest_lowEnd f).inOrder_iff_of_isHighest, floorsOf]
  split
  next hnil => simp [hnil]
  next hne =>
    obtain ⟨a, ha⟩ := List.exists_mem_of_ne_nil _ hne
    refine (and_iff_right_of_imp fun hall => ?_).symm
    exact Bound.inOrder_of_isLE (hall a ha) (Version.compare_zero_isLE _) rfl

/-- The ceiling of the comparisons is in order with a floor if all the ceilings are that they
demand. -/
theorem inOrder_ceiling?_iff (f : Filter) {floor : Bound} : Bound.InOrder floor f.ceiling? ↔
    ∀ c ∈ f.filterMap Literal.ceiling?, Bound.InOrder floor (some c) := by
  rcases ceiling?_cases f with ⟨hnil, hnone⟩ | ⟨c, -, hsome, hlowest⟩
  · simp [hnil, hnone]
  · rw [hsome, hlowest.inOrder_iff_of_isLowest]

/-- The comparisons leave room if every floor is in order with every ceiling. -/
theorem notInverted_iff (ls : List Literal) : NotInverted ls ↔
    ∀ a ∈ floorsOf ls, ∀ c ∈ ls.filterMap Literal.ceiling?, Bound.InOrder a (some c) := by
  constructor
  · rintro (hnil | ⟨highest, lowest, hhighest, hlowest, h⟩) a ha c hc
    · rw [hnil] at hc
      exact absurd hc List.not_mem_nil
    · have hlow := (hhighest.inOrder_iff_of_isHighest _).1 h a ha
      exact (hlowest.inOrder_iff_of_isLowest a).1 hlow c hc
  · intro h
    rcases ceiling?_cases ls with ⟨hnil, -⟩ | ⟨lowest, -, -, hlowest⟩
    · exact .inl hnil
    · refine .inr ⟨_, lowest, isHighest_lowEnd ls, hlowest, ?_⟩
      refine (isHighest_lowEnd ls).inOrder_iff_of_isHighest _ |>.2 fun a ha => ?_
      exact (hlowest.inOrder_iff_of_isLowest a).2 (h a ha)

theorem notInverted_iff_inOrder (f : Filter) :
    NotInverted f ↔ Bound.InOrder f.lowEnd f.ceiling? := by
  rw [notInverted_iff, (isHighest_lowEnd f).inOrder_iff_of_isHighest]
  exact forall₂_congr fun a _ => (inOrder_ceiling?_iff f).symm

theorem lowEnd_isBelow_iff (f : Filter) (v : Version) :
    f.lowEnd.IsBelow v ↔ ∀ l ∈ f, ∀ b ∈ l.floor?, b.IsBelow v := by
  have hzero : Bound.IsBelow ⟨.zero, false⟩ v := by
    rcases Ordering.isLE_iff_eq_lt_or_eq_eq.1 (Version.compare_zero_isLE v) with h | h
    · exact .inl h
    · exact .inr ⟨h, rfl⟩
  rw [(isHighest_lowEnd f).isBelow_iff, floorsOf]
  split
  next hnil =>
    have hnone := List.filterMap_eq_nil_iff.1 hnil
    refine iff_of_true (fun a ha => List.mem_singleton.1 ha ▸ hzero) fun l hl b hb => ?_
    rw [hnone l hl] at hb
    cases hb
  next => exact List.forall_mem_filterMap

theorem ceiling?_isAbove_iff (f : Filter) (v : Version) :
    (∀ c ∈ f.ceiling?, c.IsAbove v) ↔ ∀ l ∈ f, ∀ b ∈ l.ceiling?, b.IsAbove v := by
  have hall : (∀ b ∈ f.filterMap Literal.ceiling?, b.IsAbove v) ↔
      ∀ l ∈ f, ∀ b ∈ l.ceiling?, b.IsAbove v := List.forall_mem_filterMap
  rw [← hall]
  rcases ceiling?_cases f with ⟨hnil, hnone⟩ | ⟨c, -, hsome, hlowest⟩
  · simp [hnil, hnone]
  · rw [hsome, ← hlowest.isAbove_iff]
    simp

/-- A version lies between floor and ceiling if it satisfies every comparison. -/
theorem mem_iff_holds {r : VersionRange} (h : VersionRange.make f.lowEnd f.ceiling? = some r)
    (v : Version) : v ∈ r ↔ ∀ l ∈ f, l.Holds v := by
  rw [VersionRange.mem_iff_of_make h, lowEnd_isBelow_iff, ceiling?_isAbove_iff]
  simp only [Literal.holds_iff, forall_and]

/-! ## The text of the interval -/

theorem interval?_eq_some (hc : f.filter Literal.isComparison ≠ []) :
    f.interval? = some (Bound.renderInterval f.lowEnd f.ceiling?) := by
  refine if_pos ?_
  obtain ⟨l, hl⟩ := List.exists_mem_of_ne_nil _ hc
  obtain ⟨hl, hcomp⟩ := List.mem_filter.1 hl
  rw [Bool.or_eq_true]
  rcases Literal.isSome_of_isComparison hcomp with hsome | hsome
  · exact .inl (isSome_of_mem (floor?_cases f) hl hsome)
  · exact .inr (isSome_of_mem (ceiling?_cases f) hl hsome)

/-- The bounds that a filter demands are versions that were read. -/
theorem isRead_of_demands {s : Bytes} (h : parse s = .ok f) {l : Literal} (hl : l ∈ f) {b : Bound}
    (hb : l.floor? = some b ∨ l.ceiling? = some b) : b.version.IsRead := by
  obtain ⟨relation, ht⟩ := Literal.term_of_demands hb
  exact isRead_of_parse h l hl relation _ ht

theorem lowEnd_isRead {s : Bytes} (h : parse s = .ok f) : f.lowEnd.version.IsRead := by
  rw [lowEnd]
  rcases floor?_cases f with ⟨-, hnone⟩ | ⟨b, hb, hsome, -⟩
  · rw [hnone]
    exact Version.isRead_zero
  · rw [hsome]
    obtain ⟨l, hl, hlb⟩ := List.mem_filterMap.1 hb
    exact isRead_of_demands h hl (.inl hlb)

theorem ceiling?_isRead {s : Bytes} (h : parse s = .ok f) :
    ∀ c ∈ f.ceiling?, c.version.IsRead := by
  intro c hc
  rcases ceiling?_cases f with ⟨-, hnone⟩ | ⟨b, hb, hsome, -⟩
  · rw [hnone] at hc
    cases hc
  · rw [hsome] at hc
    cases hc
    obtain ⟨l, hl, hlb⟩ := List.mem_filterMap.1 hb
    exact isRead_of_demands h hl (.inr hlb)

/-- The interval that is written is read again as that between floor and ceiling. -/
theorem parseQuoted_interval {s : Bytes} (h : parse s = .ok f)
    (hc : f.filter Literal.isComparison ≠ []) :
    ∃ text, f.interval? = some text ∧
      ∀ r, VersionRange.parseQuoted text = .ok r ↔
        VersionRange.make f.lowEnd f.ceiling? = some r :=
  ⟨_, interval?_eq_some hc, fun _ =>
    VersionRange.parseQuoted_renderInterval (lowEnd_isRead h) (ceiling?_isRead h)⟩

/-- What is asked for under other keys than `version` is asked for word by word. -/
theorem find?_flatten_of_ne {k : Bytes} (hk : k ≠ versionKey) (f : Filter) :
    f.flatten.find? k = (Dict.ofList (f.filterMap Literal.entry?)).find? k := by
  rw [flatten]
  split
  next => rw [Dict.find?_insert, if_neg hk]
  next => rfl

theorem find?_flatten_of_interval {text : Bytes} (h : f.interval? = some text) :
    f.flatten.find? versionKey = some text := by
  rw [flatten, h, Dict.find?_insert, if_pos rfl]

/-! ## Comparisons alone -/

/-- Literals of other kinds demand nothing. -/
theorem filterMap_comparisons {demand : Literal → Option Bound}
    (hd : ∀ l b, demand l = some b → l.isComparison = true) (f : Filter) :
    (f.filter Literal.isComparison).filterMap demand = f.filterMap demand := by
  rw [List.filterMap_filter]
  congr 1
  funext l
  split
  next => rfl
  next hl => exact (Option.eq_none_iff_forall_ne_some.2 fun b hb => hl (hd l b hb)).symm

theorem filterMap_floor?_comparisons (f : Filter) :
    (f.filter Literal.isComparison).filterMap Literal.floor? = f.filterMap Literal.floor? :=
  filterMap_comparisons (fun _ _ hb => Literal.isComparison_of_demands (.inl hb)) f

theorem filterMap_ceiling?_comparisons (f : Filter) :
    (f.filter Literal.isComparison).filterMap Literal.ceiling? = f.filterMap Literal.ceiling? :=
  filterMap_comparisons (fun _ _ hb => Literal.isComparison_of_demands (.inr hb)) f

theorem interval?_comparisons (f : Filter) :
    interval? (f.filter Literal.isComparison) = f.interval? := by
  rw [interval?, interval?, floor?, floor?, ceiling?, ceiling?, filterMap_floor?_comparisons,
    filterMap_ceiling?_comparisons]

theorem notInverted_comparisons (f : Filter) :
    NotInverted (f.filter Literal.isComparison) ↔ NotInverted f := by
  rw [NotInverted, NotInverted, floorsOf, floorsOf, filterMap_floor?_comparisons,
    filterMap_ceiling?_comparisons]

theorem forall_holds_comparisons (f : Filter) (v : Version) :
    (∀ l ∈ f.filter Literal.isComparison, l.Holds v) ↔ ∀ l ∈ f, l.Holds v := by
  constructor
  · intro h l hl
    by_cases hc : l.isComparison = true
    · exact h l (List.mem_filter.2 ⟨hl, hc⟩)
    · exact Literal.holds_of_not_isComparison hc v
  · exact fun h l hl => h l (List.mem_filter.1 hl).1

/-- Fewer comparisons are still not inverted. -/
theorem NotInverted.of_subset {ls ls' : List Literal} (h : NotInverted ls) (hsub : ls' ⊆ ls) :
    NotInverted ls' := by
  rw [notInverted_iff_inOrder, inOrder_lowEnd_iff, inOrder_ceiling?_iff] at h ⊢
  simp only [inOrder_ceiling?_iff] at h ⊢
  have hfloors := List.filterMap_subset Literal.floor? hsub
  have hceilings := List.filterMap_subset Literal.ceiling? hsub
  exact ⟨fun c hc => h.1 c (hceilings hc), fun a ha c hc => h.2 a (hfloors ha) c (hceilings hc)⟩

/-- Order and repetition of the comparisons make no difference. -/
theorem notInverted_congr {ls ls' : List Literal} (h : ∀ l, l ∈ ls ↔ l ∈ ls') :
    NotInverted ls ↔ NotInverted ls' :=
  ⟨fun hls => hls.of_subset fun l => (h l).2, fun hls => hls.of_subset fun l => (h l).1⟩

/-- A range that was read has the versions that satisfy all comparisons. -/
theorem exists_interval {s : Bytes} {n : Node} (h : parse s = .ok f)
    (hn : Spelled n (Bytes.trim s)) (hc : n.comparisons false ≠ []) :
    ∃ text, f.flatten.find? versionKey = some text ∧
      ((∃ r, VersionRange.parseQuoted text = .ok r) ↔ NotInverted (n.comparisons false)) ∧
      ∀ r, VersionRange.parseQuoted text = .ok r →
        ∀ v, v ∈ r ↔ ∀ l ∈ n.comparisons false, l.Holds v := by
  rw [n.comparisons_eq (hn.parse_eq_ok_iff.1 h)] at hc ⊢
  obtain ⟨text, htext, hread⟩ := parseQuoted_interval h hc
  refine ⟨text, find?_flatten_of_interval htext, ?_, fun r hr v => ?_⟩
  · rw [notInverted_comparisons, notInverted_iff_inOrder, ← VersionRange.isSome_make_iff,
      Option.isSome_iff_exists]
    exact exists_congr hread
  · rw [forall_holds_comparisons, mem_iff_holds ((hread r).1 hr)]

/-- **The text under `version` is the interval of the comparisons.** It is read as a range if and
only if they are not inverted, and a version is in that range if and only if it satisfies every one
of them. So filters with the same comparisons, in whatever order and depth and however often each,
give the same versions. -/
theorem parse_interval {s : Bytes} {f : Filter} (h : parse s = .ok f) :
    (∃ n, Spelled n (Bytes.trim s)) ∧
    ∀ n, Spelled n (Bytes.trim s) → n.comparisons false ≠ [] →
      ∃ text, f.flatten.find? versionKey = some text ∧
        ((∃ r, VersionRange.parseQuoted text = .ok r) ↔ NotInverted (n.comparisons false)) ∧
        (∀ r, VersionRange.parseQuoted text = .ok r →
          ∀ v, v ∈ r ↔ ∀ l ∈ n.comparisons false, l.Holds v) ∧
        ∀ s' f' n', parse s' = .ok f' → Spelled n' (Bytes.trim s') →
          (∀ l, l ∈ n'.comparisons false ↔ l ∈ n.comparisons false) →
          ∃ text', f'.flatten.find? versionKey = some text' ∧
            ((∃ r', VersionRange.parseQuoted text' = .ok r') ↔
              ∃ r, VersionRange.parseQuoted text = .ok r) ∧
            ∀ r r', VersionRange.parseQuoted text = .ok r →
              VersionRange.parseQuoted text' = .ok r' → ∀ v, v ∈ r' ↔ v ∈ r := by
  refine ⟨(parse_eq_ok_iff.1 h).imp fun n hn => hn.1, fun n hn hc => ?_⟩
  obtain ⟨text, hfind, haccept, hmem⟩ := exists_interval h hn hc
  refine ⟨text, hfind, haccept, hmem, fun s' f' n' h' hn' hsame => ?_⟩
  have hc' : n'.comparisons false ≠ [] := by
    obtain ⟨l, hl⟩ := List.exists_mem_of_ne_nil _ hc
    exact List.ne_nil_of_mem ((hsame l).2 hl)
  obtain ⟨text', hfind', haccept', hmem'⟩ := exists_interval h' hn' hc'
  refine ⟨text', hfind', ?_, fun r r' hr hr' v => ?_⟩
  · rw [haccept, haccept', notInverted_congr hsame]
  · simp only [hmem r hr, hmem' r' hr', hsame]

theorem parse_interval_half_open :
    ∃ f r, parse (ascii "(&(version>=1.7)(osgi.ee=JavaSE)(!(version>=1.9)))") = .ok f ∧
      f.flatten.find? versionKey = some (ascii "[1.7,1.9)") ∧
      VersionRange.parseQuoted (ascii "[1.7,1.9)") = .ok r ∧
      ∀ v, v ∈ r ↔ (Version.compare ⟨1, 7, 0, [], ascii "1.7"⟩ v).isLE ∧
        ¬ (Version.compare ⟨1, 9, 0, [], ascii "1.9"⟩ v).isLE := by
  have floor : Spelled (.item versionKey .greaterEqual (ascii "1.7")) (ascii "(version>=1.7)") :=
    .plain (ascii "version>=1.7") (by decide +kernel) (by decide +kernel) (by decide +kernel)
  have other : Spelled (.item (ascii "osgi.ee") .equal (ascii "JavaSE"))
      (ascii "(osgi.ee=JavaSE)") :=
    .plain (ascii "osgi.ee=JavaSE") (by decide +kernel) (by decide +kernel) (by decide +kernel)
  have ceiling : Spelled (.item versionKey .greaterEqual (ascii "1.9")) (ascii "(version>=1.9)") :=
    .plain (ascii "version>=1.9") (by decide +kernel) (by decide +kernel) (by decide +kernel)
  have tree : Spelled _ (ascii "(&(version>=1.7)(osgi.ee=JavaSE)(!(version>=1.9)))") :=
    .of_body (.all (.cons floor (.cons other (.cons (.of_body (.not ceiling isGap_nil)) .nil)))
      isGap_nil)
  have htrim : Bytes.trim (ascii "(&(version>=1.7)(osgi.ee=JavaSE)(!(version>=1.9)))") =
      ascii "(&(version>=1.7)(osgi.ee=JavaSE)(!(version>=1.9)))" := by decide +kernel
  rw [← htrim] at tree
  have hread : parse (ascii "(&(version>=1.7)(osgi.ee=JavaSE)(!(version>=1.9)))") =
      .ok [⟨false, .compare .atLeast ⟨1, 7, 0, [], ascii "1.7"⟩⟩,
        ⟨false, .attr (ascii "osgi.ee") (ascii "JavaSE")⟩,
        ⟨true, .compare .atLeast ⟨1, 9, 0, [], ascii "1.9"⟩⟩] :=
    tree.parse_eq_ok_iff.2 (by decide +kernel)
  obtain ⟨text, hfind, haccept, hmem, -⟩ := (parse_interval hread).2 _ tree (by decide +kernel)
  have htext : text = ascii "[1.7,1.9)" :=
    Option.some.inj (hfind.symm.trans (by decide +kernel))
  rw [htext] at hfind haccept hmem
  obtain ⟨r, hr⟩ := haccept.2 ((notInverted_iff _).2 (by decide +kernel))
  refine ⟨_, r, hread, hfind, hr, fun v => (hmem r hr v).trans ?_⟩
  rw [Node.comparisons_eq _ (tree.parse_eq_ok_iff.1 hread)]
  simp [Literal.isComparison, Literal.Holds, Relation.Holds]

end Filter

end JavaFloor
