import JavaFloor.Proofs.Dict
import JavaFloor.Proofs.Except
import JavaFloor.Proofs.Filter.Interval
import JavaFloor.Proofs.Version.Spelling

/-!
# Filters with versions spelled otherwise

Two filters are compared that have the same terms in the same order, except that the versions in
them may be spelled otherwise. Their comparisons are folded into the same interval, spelled
otherwise, and so the texts under `version` are read alike.

* `VersionRange.ReadAlike`: two texts are read as ranges that differ in texts only, or neither of
  them is read as a range. The texts of two intervals are if their bounds differ in texts only
  (`VersionRange.readAlike_renderInterval`).
* `Filter.Alike`: the filters differ in how versions are spelled.
* `Filter.floor?_congr` and `Filter.ceiling?_congr`: their floors and ceilings differ in texts only.
* `Filter.flatten_congr`: they ask for the same values (`Filter.find?_flatten_congr_of_ne`), and
  under `version` for texts that are read alike (`Filter.find?_flatten_congr`).
-/

namespace JavaFloor

namespace VersionRange

/-- Both texts are read as ranges, and these differ in the texts of their bounds only; or neither of
them is read as a range. -/
def ReadAlike (s s' : Bytes) : Prop :=
  Except.Rel (fun _ _ => True) EndsAlike (parseQuoted s) (parseQuoted s')

theorem ReadAlike.refl (s : Bytes) : ReadAlike s s :=
  Except.Rel.refl (fun _ => trivial) EndsAlike.refl _

variable {floor floor' : Bound} {ceiling ceiling' : Option Bound}

/-- The text of an interval is read alike if its bounds are spelled otherwise, whether they are in
order or not. -/
theorem readAlike_renderInterval (hf : floor.version.IsRead) (hc : ∀ c ∈ ceiling, c.version.IsRead)
    (hf' : floor'.version.IsRead) (hc' : ∀ c ∈ ceiling', c.version.IsRead)
    (hfloor : floor.Alike floor') (hceiling : Option.Rel Bound.Alike ceiling ceiling') :
    ReadAlike (Bound.renderInterval floor ceiling) (Bound.renderInterval floor' ceiling') := by
  have hread := fun r => parseQuoted_renderInterval (r := r) hf hc
  have hread' := fun r => parseQuoted_renderInterval (r := r) hf' hc'
  have hmake := make_alike hfloor hceiling
  rw [ReadAlike]
  generalize make floor ceiling = range, make floor' ceiling' = range' at hread hread' hmake
  cases hmake with
  | some hr =>
    rw [(hread _).2 rfl, (hread' _).2 rfl]
    exact .ok hr
  | none =>
    obtain ⟨e, he⟩ := exists_error_of_forall_ne fun r hr => nomatch (hread r).1 hr
    obtain ⟨e', he'⟩ := exists_error_of_forall_ne fun r hr => nomatch (hread' r).1 hr
    rw [he, he']
    exact .error trivial

end VersionRange

/-- Values of a key that are the same or, under `version`, read alike. -/
def ValuesAlike (key value value' : Bytes) : Prop :=
  value = value' ∨ (key = versionKey ∧ VersionRange.ReadAlike value value')

/-- Terms that differ in how a version is spelled. -/
inductive Term.Alike : Term → Term → Prop
  | attr (key value : Bytes) : Alike (.attr key value) (.attr key value)
  | version {value value' : Bytes} (values : VersionRange.ReadAlike value value') :
      Alike (.version value) (.version value')
  | compare (relation : Relation) {bound bound' : Version} (bounds : bound.compare bound' = .eq) :
      Alike (.compare relation bound) (.compare relation bound')

/-- Literals that differ in how a version is spelled. -/
def Literal.Alike (l l' : Literal) : Prop := l.negated = l'.negated ∧ l.term.Alike l'.term

/-- Filters that differ in how versions are spelled. -/
def Filter.Alike (f f' : Filter) : Prop := List.Forall₂ Literal.Alike f f'

namespace Literal

variable {l l' : Literal}

/-- Both demand a floor or a ceiling, spelled otherwise at most, or neither of them demands any. -/
theorem bounds_congr (h : l.Alike l') : Option.Rel Bound.Alike l.floor? l'.floor? ∧
    Option.Rel Bound.Alike l.ceiling? l'.ceiling? := by
  obtain ⟨negated, term⟩ := l
  obtain ⟨negated', term'⟩ := l'
  obtain ⟨rfl, hterm⟩ := h
  cases hterm with
  | attr | version => cases negated <;> exact ⟨.none, .none⟩
  | compare relation bounds =>
    cases relation <;> cases negated
    all_goals
      first
      | exact ⟨.some ⟨bounds, rfl⟩, .none⟩
      | exact ⟨.none, .some ⟨bounds, rfl⟩⟩

/-- Both ask for an entry of the same key, or for none. -/
theorem entry?_congr (h : l.Alike l') :
    Option.Rel (fun e e' => e.1 = e'.1 ∧ ValuesAlike e.1 e.2 e'.2) l.entry? l'.entry? := by
  obtain ⟨negated, term⟩ := l
  obtain ⟨negated', term'⟩ := l'
  obtain ⟨rfl, hterm⟩ := h
  cases negated with
  | true => cases hterm <;> exact .none
  | false =>
    cases hterm with
    | attr key value => exact .some ⟨rfl, .inl rfl⟩
    | version values => exact .some ⟨rfl, .inr ⟨rfl, values⟩⟩
    | compare relation bounds => exact .none

end Literal

namespace Filter

variable {f f' : Filter} {s s' : Bytes}

theorem Alike.refl (f : Filter) : f.Alike f := by
  refine List.forall₂_same.2 fun l _ => ⟨rfl, ?_⟩
  cases l.term with
  | attr key value => exact .attr key value
  | version value => exact .version (.refl value)
  | compare relation bound => exact .compare relation (Version.compare_self bound)

theorem floor?_congr (h : f.Alike f') : Option.Rel Bound.Alike f.floor? f'.floor? :=
  List.rel_foldl (fun _ _ hold _ _ hb => .some (Bound.raise_congr hb hold)) .none
    (List.rel_filterMap (R := Literal.Alike) (fun _ _ hl => (Literal.bounds_congr hl).1) h)

theorem ceiling?_congr (h : f.Alike f') : Option.Rel Bound.Alike f.ceiling? f'.ceiling? :=
  List.rel_foldl (fun _ _ hold _ _ hb => .some (Bound.lower_congr hb hold)) .none
    (List.rel_filterMap (R := Literal.Alike) (fun _ _ hl => (Literal.bounds_congr hl).2) h)

theorem lowEnd_congr (h : f.Alike f') : f.lowEnd.Alike f'.lowEnd := by
  have hfloor := floor?_congr h
  rw [lowEnd, lowEnd]
  generalize f.floor? = floor, f'.floor? = floor' at hfloor ⊢
  cases hfloor with
  | none => exact .refl _
  | some hb => exact hb

/-- The intervals of the comparisons are read alike, whether there is room between their bounds or
not. -/
theorem interval?_congr (hs : parse s = .ok f) (hs' : parse s' = .ok f') (h : f.Alike f') :
    Option.Rel VersionRange.ReadAlike f.interval? f'.interval? := by
  have hread : VersionRange.ReadAlike (intervalText f.floor? f.ceiling?)
      (intervalText f'.floor? f'.ceiling?) :=
    VersionRange.readAlike_renderInterval (lowEnd_isRead hs) (ceiling?_isRead hs)
      (lowEnd_isRead hs') (ceiling?_isRead hs') (lowEnd_congr h) (ceiling?_congr h)
  rw [interval?, interval?, ← isSome_eq_of_rel (floor?_congr h),
    ← isSome_eq_of_rel (ceiling?_congr h)]
  split
  next => exact .some hread
  next => exact .none

/-- **Filters with versions spelled otherwise ask for the same.** The text under `version` may
differ, but it is read alike. -/
theorem flatten_congr (hs : parse s = .ok f) (hs' : parse s' = .ok f') (h : f.Alike f') :
    Dict.Rel ValuesAlike f.flatten f'.flatten := by
  have hentries : Dict.Rel ValuesAlike (.ofList (f.filterMap Literal.entry?))
      (.ofList (f'.filterMap Literal.entry?)) :=
    .ofList (List.rel_filterMap (fun _ _ hl => Literal.entry?_congr hl) h)
  have hinterval := interval?_congr hs hs' h
  rw [flatten, flatten]
  generalize f.interval? = text, f'.interval? = text' at hinterval ⊢
  cases hinterval with
  | none => exact hentries
  | some hread => exact hentries.insert (.inr ⟨rfl, hread⟩)

theorem find?_flatten_congr_of_ne (hs : parse s = .ok f) (hs' : parse s' = .ok f')
    (h : f.Alike f') {k : Bytes} (hk : k ≠ versionKey) :
    f.flatten.find? k = f'.flatten.find? k := by
  have hvalues := flatten_congr hs hs' h k
  generalize f.flatten.find? k = v, f'.flatten.find? k = v' at hvalues ⊢
  cases hvalues with
  | none => rfl
  | some hv => exact congrArg some (hv.resolve_right fun hread => hk hread.1)

theorem find?_flatten_congr (hs : parse s = .ok f) (hs' : parse s' = .ok f') (h : f.Alike f') :
    Option.Rel VersionRange.ReadAlike (f.flatten.find? versionKey)
      (f'.flatten.find? versionKey) := by
  have hvalues := flatten_congr hs hs' h versionKey
  generalize f.flatten.find? versionKey = v, f'.flatten.find? versionKey = v' at hvalues ⊢
  cases hvalues with
  | none => exact .none
  | some hv =>
    rcases hv with rfl | ⟨-, hread⟩
    · exact .some (.refl _)
    · exact .some hread

end Filter

end JavaFloor
