import JavaFloor.Proofs.Filter.Interval
import JavaFloor.Proofs.Resolution.Survivors

/-!
# One more conjunct

A filter `F` becomes `(&FT)` when a term `T` on the version is added to it. One would expect that
the versions it asks for become fewer. They do if `F` has a comparison, for then all comparisons are
folded into one interval. If `F` has none, the version that it names word by word gives way to `T`.

* `parse_conjoin`: the conjunction is read as the literals of both parts.
* `find?_flatten_append_of_nil`, `mem_conjoin_iff`: what a further literal makes of the text under
  `version` if there is no comparison in front of it, and of the versions asked for if there is one.
* `conjoin_narrows_iff`: when no version is won, and that then no environment is won either.
* `conjoin_widens`: `(&(version=1.9)(version>=1.7))` lets in versions that `(version=1.9)` does not.
-/

namespace JavaFloor

/-- The literal is a term on the version. If it is no comparison, it is not negated. -/
def Literal.IsVersionTerm (l : Literal) : Prop :=
  l.isComparison = true ∨ ∃ value, l = ⟨false, .version value⟩

namespace Filter

variable {F T : Bytes} {f g h : Filter} {r r' : VersionRange}

/-! ## Reading a conjunction -/

/-- The filter that says what `F` and `T` say. -/
def conjoin (F T : Bytes) : Bytes := ascii "(&" ++ (F ++ T) ++ ascii ")"

theorem Spelled.conjoin {n m : Node} (hF : Spelled n F) (hT : Spelled m T) :
    Spelled (.all [n, m]) (conjoin F T) := by
  have h : Spelled (.all [n, m]) _ := .of_body (.all (.cons hF (.cons hT .nil)) isGap_nil)
  rw [List.append_nil, List.append_nil] at h
  exact h

/-- Whitespace between two nodes is a gap, if the reader gets to the closing parenthesis. -/
theorem isGap_of_readsAll {space s rest rest' : Bytes}
    (hspace : ∀ c ∈ space, Ascii.isSpace c = true)
    (hread : ReadsAll (skipBlanks (space ++ s)) f rest)
    (hclose : skipBlanks rest = Ascii.byte ')' :: rest') : IsGap space := by
  induction space with
  | nil => exact isGap_nil
  | cons c space ih =>
    rw [List.forall_mem_cons] at hspace
    by_cases hc : isBlank c = true
    · have hgap : IsGap [c] := fun d hd => List.mem_singleton.1 hd ▸ hc
      have hskip : skipBlanks (c :: space ++ s) = skipBlanks (space ++ s) :=
        skipBlanks_append hgap (space ++ s)
      rw [hskip] at hread
      exact hgap.append (ih hspace.2 hread)
    · -- The reader stops at `c`, which is neither an opening nor a closing parenthesis.
      have hself : skipBlanks (c :: space ++ s) = c :: (space ++ s) :=
        skipBlanks_eq_self fun d hd => by cases hd; exact Bool.eq_false_iff.2 hc
      rw [hself] at hread
      rcases readsAll_iff.1 hread with ⟨-, -, rfl⟩ | ⟨_, _, _, hopen, -⟩
      · rw [← List.cons_append, hself] at hclose
        cases hclose
        cases hspace.1
      · cases hopen
        cases hspace.1

/-- A node behind whitespace is read first, if the reader gets to the closing parenthesis. -/
theorem exists_of_readsAll_node {n : Node} {space text tail rest rest' : Bytes}
    (hspace : ∀ c ∈ space, Ascii.isSpace c = true) (hn : Spelled n text)
    (hf : n.literals? false = some f)
    (hread : ReadsAll (skipBlanks (space ++ (text ++ tail))) h rest)
    (hclose : skipBlanks rest = Ascii.byte ')' :: rest') :
    ∃ more, ReadsAll (skipBlanks tail) more rest ∧ h = f ++ more := by
  rw [skipBlanks_append (isGap_of_readsAll hspace hread hclose),
    readsAll_append_iff hn fun f rest' => hn.reads_iff false f _ rest', hf] at hread
  obtain ⟨_, more, heq, hmore, rfl⟩ := hread
  cases heq
  exact ⟨more, hmore, rfl⟩

/-- A conjunction is read as what its two parts are read as, one behind the other. -/
theorem parse_conjoin (hF : parse F = .ok f) (hT : parse T = .ok g)
    (hh : parse (conjoin F T) = .ok h) : h = f ++ g := by
  obtain ⟨n, hn, hf⟩ := parse_eq_ok_iff.1 hF
  obtain ⟨m, hm, hg⟩ := parse_eq_ok_iff.1 hT
  obtain ⟨front, behind, hFtext, hfront, hbehind⟩ := Bytes.exists_trim F
  obtain ⟨front', behind', hTtext, hfront', hbehind'⟩ := Bytes.exists_trim T
  generalize Bytes.trim F = text at hn hFtext
  generalize Bytes.trim T = text' at hm hTtext
  have hshape : conjoin F T =
      Ascii.byte '(' :: (Ascii.byte '&' :: (F ++ T) ++ [Ascii.byte ')']) := rfl
  have htrim : Bytes.trim (conjoin F T) = conjoin F T := by
    rw [hshape]
    exact Bytes.trim_of_ends rfl rfl _
  rw [parse_eq_ok_iff_readWhole (by rw [htrim, hshape]; exact List.cons_ne_nil _ _), htrim,
    readWhole_eq_ok_iff, hshape] at hh
  obtain ⟨rest, hh, -⟩ := hh
  obtain ⟨s₁, s₂, hopen, hbody, hclose⟩ := reads_iff.1 hh
  cases hopen
  obtain ⟨-, hall⟩ := readsBody_and_iff.1 hbody
  have hparts : F ++ T ++ [Ascii.byte ')'] = front ++ (text ++ ((behind ++ front') ++
      (text' ++ (behind' ++ [Ascii.byte ')'])))) := by
    rw [hFtext, hTtext]
    simp
  change ReadsAll (skipBlanks (F ++ T ++ [Ascii.byte ')'])) h s₂ at hall
  rw [hparts] at hall
  obtain ⟨h₂, hmore, rfl⟩ := exists_of_readsAll_node hfront hn hf hall hclose
  have hbetween : ∀ c ∈ behind ++ front', Ascii.isSpace c = true := fun c hc =>
    (List.mem_append.1 hc).elim (hbehind c) (hfront' c)
  obtain ⟨h₃, hlast, rfl⟩ := exists_of_readsAll_node hbetween hm hg hmore hclose
  rw [skipBlanks_append (isGap_of_readsAll hbehind' hlast hclose), skipBlanks_closing] at hlast
  rcases readsAll_iff.1 hlast with ⟨-, rfl, -⟩ | ⟨_, _, _, hopen, -⟩
  · rw [List.append_nil]
  · cases hopen

/-! ## The text under `version` -/

variable {l : Literal}

theorem entry?_of_isComparison (h : l.isComparison = true) : l.entry? = none := by
  obtain ⟨negated, term⟩ := l
  cases term with
  | attr | version => cases h
  | compare => cases negated <;> rfl

/-- A term on the version makes no difference to other keys. -/
theorem find?_flatten_append_of_ne (hl : l.IsVersionTerm) {k : Bytes} (hk : k ≠ versionKey) :
    (f ++ [l]).flatten.find? k = f.flatten.find? k := by
  rw [find?_flatten_of_ne hk, find?_flatten_of_ne hk, List.filterMap_append]
  rcases hl with hc | ⟨value, rfl⟩
  · rw [List.filterMap_cons_none (entry?_of_isComparison hc), List.filterMap_nil, List.append_nil]
  · exact (Dict.find?_ofList_concat _ (versionKey, value) k).trans (if_neg hk)

/-- Literals that compare nothing make no difference to the interval. -/
theorem interval?_append_of_nil (hf : f.filter Literal.isComparison = []) (g : Filter) :
    (f ++ g).interval? = g.interval? := by
  rw [← interval?_comparisons, List.filter_append, hf, List.nil_append, interval?_comparisons]

/-- Behind literals that compare nothing, a term on the version decides alone. -/
theorem find?_flatten_append_of_nil (hf : f.filter Literal.isComparison = [])
    (hl : l.IsVersionTerm) :
    (f ++ [l]).flatten.find? versionKey = (flatten [l]).find? versionKey := by
  have hinterval := interval?_append_of_nil hf [l]
  rcases hl with hc | ⟨value, rfl⟩
  · have hne : List.filter Literal.isComparison [l] ≠ [] := by simp [hc]
    have hsome := interval?_eq_some hne
    rw [find?_flatten_of_interval hsome, find?_flatten_of_interval (hinterval.trans hsome)]
  · have hnone : interval? [⟨false, .version value⟩] = none := rfl
    have hlast : (f ++ [⟨false, .version value⟩] : Filter).flatten.find? versionKey =
        some value := by
      rw [flatten, hinterval, List.filterMap_append]
      exact (Dict.find?_ofList_concat _ (versionKey, value) versionKey).trans (if_pos rfl)
    rw [hlast]
    rfl

/-! ## Versions and environments -/

/-- The filter is accepted, and the versions it asks for are those of `r`. -/
def Constrains (s : Bytes) (r : VersionRange) : Prop :=
  ∃ f text, parse s = .ok f ∧ f.flatten.find? versionKey = some text ∧
    VersionRange.parseQuoted text = .ok r

/-- With a comparison, the range of a filter goes from the floor to the ceiling. -/
theorem Constrains.make_eq {s : Bytes} (h : Constrains s r) (hf : parse s = .ok f)
    (hc : f.filter Literal.isComparison ≠ []) : VersionRange.make f.lowEnd f.ceiling? = some r := by
  obtain ⟨f', text, hf', htext, hr⟩ := h
  cases hf.symm.trans hf'
  obtain ⟨text', htext', hread⟩ := parseQuoted_interval hf hc
  cases htext.symm.trans (find?_flatten_of_interval htext')
  exact (hread r).1 hr

/-- Further literals can only raise the floor. -/
theorem inOrder_lowEnd_of_append {ceiling : Option Bound}
    (h : Bound.InOrder (f ++ g).lowEnd ceiling) : Bound.InOrder f.lowEnd ceiling := by
  rw [inOrder_lowEnd_iff, List.filterMap_append, List.forall_mem_append] at h
  exact (inOrder_lowEnd_iff f).2 ⟨h.1, h.2.1⟩

/-- Further literals can only lower the ceiling. -/
theorem inOrder_ceiling?_of_append {floor : Bound}
    (h : Bound.InOrder floor (f ++ g).ceiling?) : Bound.InOrder floor f.ceiling? := by
  rw [inOrder_ceiling?_iff, List.filterMap_append, List.forall_mem_append] at h
  exact (inOrder_ceiling?_iff f).2 h.1

theorem filter_append_ne_nil (hc : f.filter Literal.isComparison ≠ []) (g : Filter) :
    (f ++ g).filter Literal.isComparison ≠ [] := by
  rw [List.filter_append]
  exact List.append_ne_nil_of_left_ne_nil hc _

/-- With a comparison in front of it, a further term leaves the versions that satisfy it too. -/
theorem mem_conjoin_iff (hf : parse F = .ok f) (hr : Constrains F r) (hT : parse T = .ok [l])
    (hr' : Constrains (conjoin F T) r') (hc : f.filter Literal.isComparison ≠ []) (v : Version) :
    v ∈ r' ↔ v ∈ r ∧ l.Holds v := by
  obtain ⟨h, _, hh, -, -⟩ := id hr'
  cases parse_conjoin hf hT hh
  rw [mem_iff_holds (hr'.make_eq hh (filter_append_ne_nil hc _)), mem_iff_holds (hr.make_eq hf hc)]
  simp [or_imp, forall_and]

/-- With a comparison in front of it, a further term leaves no environment that was dropped. -/
theorem isSome_intersect_of_conjoin (hf : parse F = .ok f) (hr : Constrains F r)
    (hT : parse T = .ok [l]) (hr' : Constrains (conjoin F T) r')
    (hc : f.filter Literal.isComparison ≠ []) {e : VersionRange} (he : (e.intersect r').isSome) :
    (e.intersect r).isSome := by
  obtain ⟨h, _, hh, -, -⟩ := id hr'
  cases parse_conjoin hf hT hh
  obtain ⟨hfloor, hceiling⟩ := VersionRange.ends_of_make (hr.make_eq hf hc)
  obtain ⟨hfloor', hceiling'⟩ :=
    VersionRange.ends_of_make (hr'.make_eq hh (filter_append_ne_nil hc _))
  rw [VersionRange.isSome_intersect_iff, hfloor', hceiling'] at he
  rw [VersionRange.isSome_intersect_iff, hfloor, hceiling]
  exact ⟨inOrder_ceiling?_of_append he.1, inOrder_lowEnd_of_append he.2⟩

/-- Without a comparison in front of it, a further term asks for what it asks for alone. -/
theorem constrains_of_conjoin (hf : parse F = .ok f) (hT : parse T = .ok [l])
    (hl : l.IsVersionTerm) (hc : f.filter Literal.isComparison = [])
    (hr' : Constrains (conjoin F T) r') : Constrains T r' := by
  obtain ⟨h, text, hh, htext, hr'⟩ := hr'
  cases parse_conjoin hf hT hh
  rw [find?_flatten_append_of_nil hc hl] at htext
  exact ⟨[l], text, hT, htext, hr'⟩

theorem Constrains.unique {s : Bytes} (h : Constrains s r) (h' : Constrains s r') : r = r' := by
  obtain ⟨f, text, hf, htext, hr⟩ := h
  obtain ⟨f', text', hf', htext', hr'⟩ := h'
  cases hf.symm.trans hf'
  cases htext.symm.trans htext'
  cases hr.symm.trans hr'
  rfl

/-- The header asks for an execution environment with the filter `directive`. -/
def AsksWith (s : SourceRequirement) (directive : Bytes) : Prop :=
  ∃ clauses, Clause.parseHeader s.header = .ok clauses ∧
    SourceRequirement.IsDirective clauses directive

/-- A source that demands something demands it with its filter. -/
theorem AsksWith.of_demands {s : SourceRequirement} {directive : Bytes} (h : AsksWith s F)
    (hd : s.Demands directive r) : directive = F ∧ Constrains F r := by
  obtain ⟨clauses, hread, hfirst⟩ := h
  cases hd with
  | intro read first filter asks range =>
    cases hread.symm.trans read
    have heq := (SourceRequirement.directive?_eq_some_iff.2 first).symm.trans
      (SourceRequirement.directive?_eq_some_iff.2 hfirst)
    cases heq
    exact ⟨rfl, _, _, filter, asks.2, range⟩

/-- A further term on the version leaves the question whether it is Java that is asked for. -/
theorem AsksWith.demands_conjoin {s s' : SourceRequirement} {directive : Bytes}
    (hf : parse F = .ok f) (hT : parse T = .ok [l]) (hl : l.IsVersionTerm)
    (hr' : Constrains (conjoin F T) r') (hs : AsksWith s F) (hs' : AsksWith s' (conjoin F T))
    (hd : s.Demands directive r) : s'.Demands (conjoin F T) r' := by
  obtain ⟨rfl, -⟩ := hs.of_demands hd
  obtain ⟨clauses', hread', hfirst'⟩ := hs'
  obtain ⟨h, text', hh, htext', hrange'⟩ := hr'
  cases parse_conjoin hf hT hh
  cases hd with
  | intro read first filter asks range =>
    cases hf.symm.trans filter
    have hne : SourceRequirement.environmentNamespace ≠ versionKey := by decide
    have hjava := asks.1
    rw [← find?_flatten_append_of_ne hl hne] at hjava
    exact .intro hread' hfirst' hh ⟨hjava, htext'⟩ hrange'

/-- **A further term on the version wins no version if and only if** the filter has a comparison
already, or the term alone asks for no version that the filter did not ask for. In the first case it
leaves exactly the versions that satisfy it too, and no environment comes back that was dropped. In
the second case it decides alone. -/
theorem conjoin_narrows_iff (hf : parse F = .ok f) (hr : Constrains F r) (hT : parse T = .ok [l])
    (hl : l.IsVersionTerm) (hr' : Constrains (conjoin F T) r') :
    ((∀ v ∈ r', v ∈ r) ↔
      (∃ c ∈ f, c.isComparison = true) ∨ ∀ own, Constrains T own → ∀ v ∈ own, v ∈ r) ∧
    ((∃ c ∈ f, c.isComparison = true) →
      (∀ v, v ∈ r' ↔ v ∈ r ∧ l.Holds v) ∧
      ∀ s s' e, AsksWith s F → AsksWith s' (conjoin F T) → ¬ s.Admits e → ¬ s'.Admits e) ∧
    ((∀ c ∈ f, ¬ c.isComparison = true) → Constrains T r') := by
  have hcompares : (∃ c ∈ f, c.isComparison = true) ↔ f.filter Literal.isComparison ≠ [] := by
    simp [List.filter_eq_nil_iff]
  have hsilent : (∀ c ∈ f, ¬ c.isComparison = true) ↔ f.filter Literal.isComparison = [] :=
    List.filter_eq_nil_iff.symm
  rw [hcompares, hsilent]
  refine ⟨⟨fun h => ?_, ?_⟩, fun hc => ⟨mem_conjoin_iff hf hr hT hr' hc, ?_⟩,
    fun hc => constrains_of_conjoin hf hT hl hc hr'⟩
  · by_cases hc : f.filter Literal.isComparison = []
    · refine .inr fun own hown => ?_
      rw [hown.unique (constrains_of_conjoin hf hT hl hc hr')]
      exact h
    · exact .inl hc
  · rintro hor v hv
    by_cases hc : f.filter Literal.isComparison = []
    · rcases hor with hne | hown
      · exact absurd hc hne
      · exact hown r' (constrains_of_conjoin hf hT hl hc hr') v hv
    · exact ((mem_conjoin_iff hf hr hT hr' hc v).1 hv).1
  · intro s s' e hs hs' hadmits hadmits'
    refine hadmits fun directive range hd => ?_
    obtain ⟨-, hrange⟩ := hs.of_demands hd
    rw [hrange.unique hr] at hd ⊢
    have hd' := AsksWith.demands_conjoin hf hT hl hr' hs hs' hd
    exact isSome_intersect_of_conjoin hf hr hT hr' hc (hadmits' _ _ hd')

/-- From `1.9` on, and from `1.7` on as well: that is from `1.7` on. -/
theorem conjoin_widens : ∃ r r', Constrains (ascii "(version=1.9)") r ∧
    Constrains (conjoin (ascii "(version=1.9)") (ascii "(version>=1.7)")) r' ∧
    ¬ ∀ v ∈ r', v ∈ r := by
  have equality : Spelled (.item versionKey .equal (ascii "1.9")) (ascii "(version=1.9)") :=
    .plain (ascii "version=1.9") (by decide +kernel) (by decide +kernel) (by decide +kernel)
  have floor : Spelled (.item versionKey .greaterEqual (ascii "1.7")) (ascii "(version>=1.7)") :=
    .plain (ascii "version>=1.7") (by decide +kernel) (by decide +kernel) (by decide +kernel)
  have both := equality.conjoin floor
  have hF : parse (ascii "(version=1.9)") = .ok [⟨false, .version (ascii "1.9")⟩] :=
    parse_eq_ok_iff.2 ⟨_, equality, by decide +kernel⟩
  have hT : parse (ascii "(version>=1.7)") =
      .ok [⟨false, .compare .atLeast ⟨1, 7, 0, [], ascii "1.7"⟩⟩] :=
    parse_eq_ok_iff.2 ⟨_, floor, by decide +kernel⟩
  have hboth : parse (conjoin (ascii "(version=1.9)") (ascii "(version>=1.7)")) =
      .ok [⟨false, .version (ascii "1.9")⟩,
        ⟨false, .compare .atLeast ⟨1, 7, 0, [], ascii "1.7"⟩⟩] :=
    parse_eq_ok_iff.2 ⟨_, both, by decide +kernel⟩
  have old : Version.IsRead ⟨1, 7, 0, [], ascii "1.7"⟩ := by
    rw [Version.IsRead]
    decide +kernel
  have new : Version.IsRead ⟨1, 9, 0, [], ascii "1.9"⟩ := by
    rw [Version.IsRead]
    decide +kernel
  have hr : Constrains _ _ := ⟨_, _, hF, by decide +kernel, VersionRange.parseQuoted_text new⟩
  have hown : Constrains _ _ := ⟨_, _, hT, by decide +kernel, VersionRange.parseQuoted_text old⟩
  have hr' : Constrains _ _ := ⟨_, _, hboth, by decide +kernel, VersionRange.parseQuoted_text old⟩
  refine ⟨_, _, hr, hr', fun hall => ?_⟩
  rcases (conjoin_narrows_iff hF hr hT (.inl rfl) hr').1.1 hall with ⟨c, hc, hcomp⟩ | hnarrow
  · cases List.mem_singleton.1 hc
    cases hcomp
  · have hold : Bound.IsBelow ⟨⟨1, 7, 0, [], ascii "1.7"⟩, false⟩ ⟨1, 7, 0, [], ascii "1.7"⟩ := by
      decide
    have hnew : ¬ Bound.IsBelow ⟨⟨1, 9, 0, [], ascii "1.9"⟩, false⟩ ⟨1, 7, 0, [], ascii "1.7"⟩ := by
      decide
    exact hnew (hnarrow _ hown _ ⟨hold, nofun⟩).1

end Filter

end JavaFloor
