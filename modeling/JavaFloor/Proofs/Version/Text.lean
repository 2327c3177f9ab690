import JavaFloor.Proofs.Version.Grammar
import JavaFloor.Requirement.Quoted

/-!
# Texts of versions and intervals

A version keeps the text it was read from, and an interval is written with the texts of its bounds.
So reading what was written must give the same bounds again.

* `Version.IsRead v`: `v` is what its own text reads as. Versions that were read are so
  (`isRead_of_parse`), and so is `0.0.0`.
* `Version.IsRead.isTextChar`: a text of that kind has neither whitespace nor anything that an
  interval is written with.
* `VersionRange.parse_renderInterval`, `VersionRange.parseQuoted_renderInterval`: an interval
  between such versions is read as the range between its bounds, or refused if these are out of
  order.
-/

namespace JavaFloor

namespace Version

/-- `v` is what its own text reads as. -/
def IsRead (v : Version) : Prop := parse v.text = .ok v

instance (v : Version) : Decidable v.IsRead := inferInstanceAs (Decidable (_ = _))

/-- Nothing in the text of a version is whitespace or means anything around it. -/
theorem isTextChar_ne {c : UInt8} (h : isTextChar c) :
    Ascii.isSpace c = false ∧ VersionRange.isOpening c = false ∧ VersionRange.isClosing c = false ∧
      c ≠ Ascii.byte ',' ∧ c ≠ Ascii.quote := by
  refine Bytes.forall_of_lt (p := fun c => isTextChar c → Ascii.isSpace c = false ∧
    VersionRange.isOpening c = false ∧ VersionRange.isClosing c = false ∧ c ≠ Ascii.byte ',' ∧
    c ≠ Ascii.quote) ?_ c h
  decide +kernel

/-- A version that was read keeps the trimmed text. -/
theorem text_of_parse {s : Bytes} {v : Version} (h : parse s = .ok v) : v.text = Bytes.trim s :=
  (parse_eq_ok_iff.1 h).text_eq

theorem isRead_of_parse {s : Bytes} {v : Version} (h : parse s = .ok v) : v.IsRead := by
  have hspells := parse_eq_ok_iff.1 h
  rw [IsRead, hspells.text_eq]
  exact hspells.parse_eq

theorem isRead_zero : zero.IsRead := by decide +kernel

/-- A version that is what its text reads as is what its text spells. -/
theorem IsRead.spells {v : Version} (h : v.IsRead) : Spells v.text v := by
  have hspells := parse_eq_ok_iff.1 h
  rwa [← hspells.text_eq] at hspells

theorem IsRead.text_ne_nil {v : Version} (h : v.IsRead) : v.text ≠ [] := h.spells.ne_nil

theorem IsRead.isTextChar {v : Version} (h : v.IsRead) : ∀ c ∈ v.text, isTextChar c :=
  h.spells.isTextChar

/-- A qualifier that was read is a name. -/
theorem IsRead.isNameChar_qualifier {v : Version} (h : v.IsRead) :
    ∀ c ∈ v.qualifier, Ascii.isNameChar c := h.spells.isNameChar_qualifier

theorem IsRead.comma_notMem {v : Version} (h : v.IsRead) : Ascii.byte ',' ∉ v.text := fun hc =>
  (isTextChar_ne (h.isTextChar _ hc)).2.2.2.1 rfl

theorem IsRead.trim_text {v : Version} (h : v.IsRead) : Bytes.trim v.text = v.text :=
  Bytes.trim_eq_self fun c hc => (isTextChar_ne (h.isTextChar c hc)).1

end Version

/-! ## Intervals -/

namespace VersionRange

open JavaFloor.Bound

theorem boundVersion_text {v : Version} (h : v.IsRead) : boundVersion v.text = .ok v := by
  rw [boundVersion, h]

theorem ceilingVersion_text {v : Version} (h : v.IsRead) :
    ceilingVersion v.text = .ok (some v) := by
  rw [ceilingVersion, h.trim_text, if_neg h.text_ne_nil, boundVersion_text h]
  rfl

/-- What stands between the brackets is read as two bounds. -/
theorem parseInterval_eq_ok_iff {text low high : Bytes} {floor : Version}
    {ceiling : Option Version} {floorExclusive ceilingExclusive : Bool} {r : VersionRange}
    (hlow : Ascii.byte ',' ∉ low) (hhigh : Ascii.byte ',' ∉ high)
    (hfloor : boundVersion low = .ok floor) (hceiling : ceilingVersion high = .ok ceiling) :
    parseInterval text (low ++ Ascii.byte ',' :: high) floorExclusive ceilingExclusive = .ok r ↔
      make ⟨floor, floorExclusive⟩ (ceiling.map (⟨·, ceilingExclusive⟩)) = some r := by
  rw [parseInterval, Bytes.splitOn_append_cons hlow, Bytes.splitOn_of_notMem hhigh]
  simp only [hfloor, hceiling, bind, Except.bind]
  cases make ⟨floor, floorExclusive⟩ (ceiling.map (⟨·, ceilingExclusive⟩)) with
  | none => simp [throw, throwThe, MonadExceptOf.throw]
  | some r' => simp [pure, Except.pure]

/-- What stands between a bracket for the floor and one for the ceiling. -/
def bracketed (floorExclusive ceilingExclusive : Bool) (body : Bytes) : Bytes :=
  Ascii.byte (if floorExclusive then '(' else '[') ::
    (body ++ [Ascii.byte (if ceilingExclusive then ')' else ']')])

/-- A text between brackets is read as an interval. -/
theorem parse_brackets {s body : Bytes} {floorExclusive ceilingExclusive : Bool}
    (hs : Bytes.trim s = bracketed floorExclusive ceilingExclusive body) :
    parse s = parseInterval (bracketed floorExclusive ceilingExclusive body) body floorExclusive
      ceilingExclusive := by
  rw [parse, hs]
  cases floorExclusive <;> cases ceilingExclusive <;> simp [bracketed, isOpening, isClosing]

/-- Bounds around a single comma are read if they are in order. -/
theorem parse_bracketed {s low high : Bytes} {floorExclusive ceilingExclusive : Bool}
    {floor : Version} {ceiling : Option Version} {r : VersionRange}
    (hs : Bytes.trim s = bracketed floorExclusive ceilingExclusive (low ++ Ascii.byte ',' :: high))
    (hcomma : Ascii.byte ',' ∉ low ∧ Ascii.byte ',' ∉ high) (hlow : boundVersion low = .ok floor)
    (hhigh : ceilingVersion high = .ok ceiling) :
    parse s = .ok r ↔
      make ⟨floor, floorExclusive⟩ (ceiling.map (⟨·, ceilingExclusive⟩)) = some r := by
  rw [parse_brackets hs, parseInterval_eq_ok_iff hcomma.1 hcomma.2 hlow hhigh]

/-- A text that no bracket opens is read as a version. -/
theorem parse_bare {s : Bytes} (hne : Bytes.trim s ≠ [])
    (ho : ∀ c ∈ (Bytes.trim s).head?, isOpening c = false) :
    parse s = (boundVersion (Bytes.trim s)).map atLeast := by
  obtain ⟨c, rest, hs⟩ := List.exists_cons_of_ne_nil hne
  have hc : isOpening c = false := ho c (by rw [hs]; rfl)
  rw [parse, hs]
  simp only [hc, Bool.false_eq_true, if_false]

variable {floor : Bound} {ceiling : Option Bound} {r : VersionRange}

/-- The text of an interval has no whitespace, and no quote opens it. -/
theorem renderInterval_chars (hfloor : floor.version.IsRead)
    (hceiling : ∀ c ∈ ceiling, c.version.IsRead) :
    ∀ c ∈ renderInterval floor ceiling, Ascii.isSpace c = false ∧ c ≠ Ascii.quote := by
  have text : ∀ {v : Version}, v.IsRead → ∀ c ∈ v.text,
      Ascii.isSpace c = false ∧ c ≠ Ascii.quote := fun hv c hc =>
    have h := Version.isTextChar_ne (hv.isTextChar c hc)
    ⟨h.1, h.2.2.2.2⟩
  have signs : ∀ s ∈ [ascii "(", ascii "[", ascii ",", ascii ",)", ascii ")", ascii "]"], ∀ c ∈ s,
      Ascii.isSpace c = false ∧ c ≠ Ascii.quote := by decide +kernel
  intro c hc
  cases ceiling with
  | none =>
    rw [renderInterval] at hc
    split at hc
    · rw [List.mem_append, List.mem_append] at hc
      rcases hc with (hc | hc) | hc
      · exact signs _ (by simp) c hc
      · exact text hfloor c hc
      · exact signs _ (by simp) c hc
    · exact text hfloor c hc
  | some top =>
    simp only [renderInterval, List.mem_append] at hc
    rcases hc with (((hc | hc) | hc) | hc) | hc
    · refine signs _ ?_ c hc
      cases floor.exclusive <;> simp
    · exact text hfloor c hc
    · exact signs _ (by simp) c hc
    · exact text (hceiling top rfl) c hc
    · refine signs _ ?_ c hc
      cases top.exclusive <;> simp

/-- **An interval that was written is read again**, if its bounds are in order, and refused if they
are not. -/
theorem parse_renderInterval (hfloor : floor.version.IsRead)
    (hceiling : ∀ c ∈ ceiling, c.version.IsRead) :
    parse (renderInterval floor ceiling) = .ok r ↔ make floor ceiling = some r := by
  have hspace := fun c hc => (renderInterval_chars hfloor hceiling c hc).1
  obtain ⟨v, exclusive⟩ := floor
  replace hfloor : v.IsRead := hfloor
  have hcomma := hfloor.comma_notMem
  have hlow := boundVersion_text hfloor
  cases ceiling with
  | none =>
    cases exclusive with
    | false =>
      -- A bare floor, which no bracket opens.
      have hopen : ∀ c ∈ v.text.head?, isOpening c = false := fun c hc =>
        (Version.isTextChar_ne (hfloor.isTextChar c (List.mem_of_mem_head? hc))).2.1
      have hbare : parse v.text = .ok (atLeast v) := by
        have htrim := hfloor.trim_text
        rw [parse_bare (htrim.symm ▸ hfloor.text_ne_nil) (htrim.symm ▸ hopen), htrim, hlow]
        rfl
      have hmake : make ⟨v, false⟩ none = some (atLeast v) := dif_pos trivial
      change parse v.text = .ok r ↔ _
      rw [hbare, hmake, Except.ok.injEq, Option.some.injEq]
    | true =>
      have hshape : renderInterval ⟨v, true⟩ none =
          bracketed true true (v.text ++ Ascii.byte ',' :: []) := by
        simp [renderInterval, bracketed, ascii]
      rw [hshape] at hspace ⊢
      exact parse_bracketed (Bytes.trim_eq_self hspace) ⟨hcomma, List.not_mem_nil⟩ hlow rfl
  | some top =>
    obtain ⟨w, closed⟩ := top
    have hread : w.IsRead := hceiling _ rfl
    have hshape : renderInterval ⟨v, exclusive⟩ (some ⟨w, closed⟩) =
        bracketed exclusive closed (v.text ++ Ascii.byte ',' :: w.text) := by
      cases exclusive <;> cases closed <;> simp [renderInterval, bracketed, ascii]
    rw [hshape] at hspace ⊢
    exact parse_bracketed (Bytes.trim_eq_self hspace) ⟨hcomma, hread.comma_notMem⟩ hlow
      (ceilingVersion_text hread)

theorem parseQuoted_renderInterval (hfloor : floor.version.IsRead)
    (hceiling : ∀ c ∈ ceiling, c.version.IsRead) :
    parseQuoted (renderInterval floor ceiling) = .ok r ↔ make floor ceiling = some r := by
  have hchars := renderInterval_chars hfloor hceiling
  have hunquote : Quoted.unquote (renderInterval floor ceiling) =
      some (renderInterval floor ceiling) := by
    rw [Quoted.unquote, Bytes.trim_eq_self fun c hc => (hchars c hc).1]
    cases hs : renderInterval floor ceiling with
    | nil => rfl
    | cons c rest => exact if_neg (hchars c (by simp [hs])).2
  rw [parseQuoted, hunquote, ← parse_renderInterval hfloor hceiling]
  exact mapError_eq_ok_iff

/-- A version alone is read as a range without ceiling. -/
theorem parseQuoted_text {v : Version} (h : v.IsRead) : parseQuoted v.text = .ok (atLeast v) := by
  have hread : parseQuoted (renderInterval ⟨v, false⟩ none) = .ok (atLeast v) :=
    (parseQuoted_renderInterval h fun _ hc => by cases hc).2 (dif_pos trivial)
  exact hread

end VersionRange

end JavaFloor
