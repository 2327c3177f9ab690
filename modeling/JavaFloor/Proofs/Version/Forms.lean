import JavaFloor.Proofs.Version.Bounds
import JavaFloor.Proofs.Version.Text

/-!
# The texts of ranges

Which texts are ranges, and which ranges have a text.

* `VersionRange.Spells text floor ceiling`: the text is one of the forms of a range, with these
  bounds. `VersionRange.parse_eq_ok_iff_spells` says that a text is read as a range if and only if
  it spells the bounds of that range.
* `VersionRange.IsObtained`: the ranges there are, which were read, made of versions that were read,
  or obtained by intersecting others. The versions at their ends are what their own texts read as
  (`VersionRange.IsObtained.isRead`).
* `VersionRange.parse_forms_render` puts this together: reading accepts the forms with bounds in
  order, and a range that was obtained is read again from the text that it is written as.
-/

namespace JavaFloor

namespace VersionRange

open JavaFloor.Bound

/-! ## Reading -/

/-- The forms of a range, and the bounds that they write down. -/
inductive Spells : Bytes → Bound → Option Bound → Prop
  /-- A version alone stands for itself and all later ones. -/
  | bare {text : Bytes} {v : Version} (h : Version.parse text = .ok v) : Spells text ⟨v, false⟩ none
  /-- Nothing but whitespace stands behind the only comma. -/
  | unbounded {low high : Bytes} {v : Version} (floorExclusive ceilingExclusive : Bool)
      (hcomma : Ascii.byte ',' ∉ low ∧ Ascii.byte ',' ∉ high) (hlow : Version.parse low = .ok v)
      (hhigh : Bytes.IsSpace high) :
      Spells (bracketed floorExclusive ceilingExclusive (low ++ Ascii.byte ',' :: high))
        ⟨v, floorExclusive⟩ none
  /-- Versions stand on both sides of the only comma. -/
  | interval {low high : Bytes} {v w : Version} (floorExclusive ceilingExclusive : Bool)
      (hcomma : Ascii.byte ',' ∉ low ∧ Ascii.byte ',' ∉ high) (hlow : Version.parse low = .ok v)
      (hhigh : Version.parse high = .ok w) :
      Spells (bracketed floorExclusive ceilingExclusive (low ++ Ascii.byte ',' :: high))
        ⟨v, floorExclusive⟩ (some ⟨w, ceilingExclusive⟩)

theorem boundVersion_eq_ok_iff {s : Bytes} {v : Version} :
    boundVersion s = .ok v ↔ Version.parse s = .ok v := by
  rw [boundVersion]
  cases Version.parse s with
  | ok w => exact Iff.of_eq (by rw [Except.ok.injEq, Except.ok.injEq])
  | error e => exact iff_of_false (fun h => by cases h) (fun h => by cases h)

/-- Blanks are no ceiling, and a version is one. -/
theorem ceilingVersion_eq_ok_iff {s : Bytes} {c : Option Version} :
    ceilingVersion s = .ok c ↔
      (Bytes.IsSpace s ∧ c = none) ∨ ∃ w, Version.parse s = .ok w ∧ c = some w := by
  have hspace : Bytes.trim s = [] ↔ Bytes.IsSpace s := by
    refine ⟨fun h d hd => ?_, Bytes.trim_of_isSpace⟩
    by_contra hne
    exact Bytes.trim_ne_nil hd (Bool.eq_false_iff.2 hne) h
  rw [ceilingVersion]
  split
  next hs =>
    have hempty : Version.parse s = .error .empty := if_pos hs
    simp [hspace.1 hs, hempty, eq_comm]
  next hs =>
    rw [hspace] at hs
    simp only [hs, false_and, false_or]
    constructor
    · intro h
      obtain ⟨w, hw, rfl⟩ := map_eq_ok h
      exact ⟨w, boundVersion_eq_ok_iff.1 hw, rfl⟩
    · rintro ⟨w, hw, rfl⟩
      rw [boundVersion_eq_ok_iff.2 hw]
      rfl

/-- What stands between brackets is read as bounds in order around a single comma. -/
theorem parseInterval_eq_ok {text body : Bytes} {floorExclusive ceilingExclusive : Bool}
    {r : VersionRange} (h : parseInterval text body floorExclusive ceilingExclusive = .ok r) :
    Spells (bracketed floorExclusive ceilingExclusive body) r.floor r.ceiling := by
  have hbody := h
  rw [parseInterval] at hbody
  split at hbody
  next low high hpieces =>
    obtain ⟨rfl, hcomma⟩ := Bytes.splitOn_eq_pair_iff.1 hpieces
    obtain ⟨v, hv, hbody⟩ := bind_eq_ok hbody
    obtain ⟨c, hc, -⟩ := bind_eq_ok hbody
    rw [parseInterval_eq_ok_iff hcomma.1 hcomma.2 hv hc] at h
    obtain ⟨hfloor, hceiling⟩ := ends_of_make h
    rw [hfloor, hceiling]
    rcases ceilingVersion_eq_ok_iff.1 hc with ⟨hspace, rfl⟩ | ⟨w, hw, rfl⟩
    · exact .unbounded _ _ hcomma (boundVersion_eq_ok_iff.1 hv) hspace
    · exact .interval _ _ hcomma (boundVersion_eq_ok_iff.1 hv) hw
  next => cases hbody

theorem eq_of_isOpening {c : UInt8} (h : isOpening c = true) :
    c = Ascii.byte (if c == Ascii.byte '(' then '(' else '[') := by
  rw [isOpening, Bool.or_eq_true, beq_iff_eq, beq_iff_eq] at h
  rcases h with rfl | rfl <;> rfl

theorem eq_of_isClosing {c : UInt8} (h : isClosing c = true) :
    c = Ascii.byte (if c == Ascii.byte ')' then ')' else ']') := by
  rw [isClosing, Bool.or_eq_true, beq_iff_eq, beq_iff_eq] at h
  rcases h with rfl | rfl <;> rfl

/-- A range that was read spells its bounds. -/
theorem spells_of_parse {s : Bytes} {r : VersionRange} (h : parse s = .ok r) :
    Spells (Bytes.trim s) r.floor r.ceiling := by
  rcases hs : Bytes.trim s with _ | ⟨first, rest⟩
  · rw [parse, hs] at h
    cases h
  · cases ho : isOpening first with
    | true =>
      rcases List.eq_nil_or_concat' rest with rfl | ⟨body, last, rfl⟩
      · rw [parse, hs] at h
        simp [ho] at h
      · cases hc : isClosing last with
        | true =>
          have hbrackets : first :: (body ++ [last]) =
              bracketed (first == Ascii.byte '(') (last == Ascii.byte ')') body := by
            rw [bracketed, ← eq_of_isOpening ho, ← eq_of_isClosing hc]
          rw [hbrackets] at hs ⊢
          rw [parse_brackets hs] at h
          exact parseInterval_eq_ok h
        | false =>
          rw [parse, hs] at h
          simp [ho, hc] at h
    | false =>
      rw [parse_bare (by simp [hs]) (by simpa [hs] using ho), hs] at h
      obtain ⟨v, hv, rfl⟩ := map_eq_ok h
      exact .bare (boundVersion_eq_ok_iff.1 hv)

/-- A text is read as the range whose bounds it spells, if these are in order. -/
theorem Spells.parse_eq_ok_iff {s : Bytes} {floor : Bound} {ceiling : Option Bound}
    {r : VersionRange} (h : Spells (Bytes.trim s) floor ceiling) :
    parse s = .ok r ↔ make floor ceiling = some r := by
  generalize hs : Bytes.trim s = text at h
  cases h with
  | @bare text v hv =>
    -- nothing in a version opens an interval
    have hread := Version.isRead_of_parse hv
    have htext : v.text = Bytes.trim s := by
      rw [Version.text_of_parse hv, ← hs, Bytes.trim_trim]
    have hopen : ∀ c ∈ v.text.head?, isOpening c = false := fun c hc =>
      (Version.isTextChar_ne (hread.isTextChar c (List.mem_of_mem_head? hc))).2.1
    have hmake : make ⟨v, false⟩ none = some (atLeast v) := dif_pos trivial
    rw [parse_bare (htext ▸ hread.text_ne_nil) (htext ▸ hopen), hs, boundVersion_eq_ok_iff.2 hv,
      hmake, Option.some.injEq]
    change Except.ok (atLeast v) = Except.ok r ↔ _
    rw [Except.ok.injEq]
  | unbounded floorExclusive ceilingExclusive hcomma hlow hhigh =>
    exact parse_bracketed hs hcomma (boundVersion_eq_ok_iff.2 hlow)
      (ceilingVersion_eq_ok_iff.2 (.inl ⟨hhigh, rfl⟩))
  | interval floorExclusive ceilingExclusive hcomma hlow hhigh =>
    exact parse_bracketed hs hcomma (boundVersion_eq_ok_iff.2 hlow)
      (ceilingVersion_eq_ok_iff.2 (.inr ⟨_, hhigh, rfl⟩))

/-- **A text is read as a range if and only if it spells the bounds of that range.** -/
theorem parse_eq_ok_iff_spells {s : Bytes} {r : VersionRange} :
    parse s = .ok r ↔ Spells (Bytes.trim s) r.floor r.ceiling :=
  ⟨spells_of_parse, fun h => h.parse_eq_ok_iff.2 (dif_pos r.inOrder)⟩

/-! ## Writing -/

/-- The ranges that come from somewhere. -/
inductive IsObtained : VersionRange → Prop
  | parse {s : Bytes} {r : VersionRange} (h : parse s = .ok r) : IsObtained r
  /-- `0.0.0`, the version of which no part is given, is one of the versions that were read. -/
  | make {floor : Bound} {ceiling : Option Bound} {r : VersionRange}
      (hfloor : floor.version.IsRead) (hceiling : ∀ c ∈ ceiling, c.version.IsRead)
      (h : make floor ceiling = some r) : IsObtained r
  | intersect {r s t : VersionRange} (hr : IsObtained r) (hs : IsObtained s)
      (h : r.intersect s = some t) : IsObtained t

/-- A range that spells is spelled with versions. -/
theorem Spells.isRead {text : Bytes} {floor : Bound} {ceiling : Option Bound}
    (h : Spells text floor ceiling) :
    floor.version.IsRead ∧ ∀ c ∈ ceiling, c.version.IsRead := by
  cases h with
  | bare h => exact ⟨Version.isRead_of_parse h, nofun⟩
  | unbounded _ _ _ hlow _ => exact ⟨Version.isRead_of_parse hlow, nofun⟩
  | interval _ _ _ hlow hhigh =>
    refine ⟨Version.isRead_of_parse hlow, fun c hc => ?_⟩
    cases hc
    exact Version.isRead_of_parse hhigh

/-- The version at the tighter of two bounds is that of one of them. -/
theorem tighter_version {p : Version → Prop} (cmp : Version → Version → Ordering) {a b : Bound}
    (ha : p a.version) (hb : p b.version) : p (tighter cmp a b).version := by
  rw [tighter]
  split
  · exact hb
  · exact ha
  · exact ha

theorem lowest?_version {p : Version → Prop} {c d : Option Bound} (hc : ∀ b ∈ c, p b.version)
    (hd : ∀ b ∈ d, p b.version) : ∀ b ∈ lowest? c d, p b.version := by
  rcases c with _ | c <;> rcases d with _ | d
  · exact nofun
  · exact hd
  · exact hc
  · rw [lowest?, lowest_eq_tighter]
    intro b hb
    cases hb
    exact tighter_version _ (hc c rfl) (hd d rfl)

/-- **The ends of a range that was obtained are what their own texts read as.** -/
theorem IsObtained.isRead {r : VersionRange} (h : IsObtained r) :
    r.floor.version.IsRead ∧ ∀ c ∈ r.ceiling, c.version.IsRead := by
  induction h with
  | parse h => exact (spells_of_parse h).isRead
  | make hfloor hceiling h =>
    obtain ⟨hfloor', hceiling'⟩ := ends_of_make h
    rw [hfloor', hceiling']
    exact ⟨hfloor, hceiling⟩
  | @intersect r s t _ _ h ihr ihs =>
    obtain ⟨hfloor, hceiling⟩ := ends_of_make h
    rw [hfloor, hceiling]
    exact ⟨tighter_version _ ihr.1 ihs.1, lowest?_version ihr.2 ihs.2⟩

/-- **Reading accepts the forms of a range, and reads every range from the text it is written as.**

A text is a range if and only if, without the whitespace around it, it is a version, or stands in
brackets and has a single comma, a version in front of that and a version or nothing but whitespace
behind it; and if there are two versions, the first is lower, or they compare equal and both
brackets are square ones. A range that was read, made or intersected from such ranges is written as
a text from which it is read again, with the texts of both versions and with both ends. -/
theorem parse_forms_render :
    (∀ s, (∃ r, parse s = .ok r) ↔ ∃ floor ceiling, Spells (Bytes.trim s) floor ceiling ∧
      ∀ c ∈ ceiling, floor.version.compare c.version = .lt ∨
        (floor.version.compare c.version = .eq ∧ floor.exclusive = false ∧ c.exclusive = false)) ∧
    (∀ s r, parse s = .ok r ↔ Spells (Bytes.trim s) r.floor r.ceiling) ∧
    ∀ r, IsObtained r → parse r.render = .ok r := by
  have horder : ∀ (floor : Bound) (ceiling : Option Bound), InOrder floor ceiling ↔
      ∀ c ∈ ceiling, floor.version.compare c.version = .lt ∨
        (floor.version.compare c.version = .eq ∧ floor.exclusive = false ∧
          c.exclusive = false) := by
    intro floor ceiling
    cases ceiling with
    | none => exact iff_of_true trivial nofun
    | some c => simp [InOrder]
  refine ⟨fun s => ⟨?_, ?_⟩, fun s r => parse_eq_ok_iff_spells, fun r h => ?_⟩
  · rintro ⟨r, h⟩
    exact ⟨r.floor, r.ceiling, spells_of_parse h, (horder _ _).1 r.inOrder⟩
  · rintro ⟨floor, ceiling, h, hbounds⟩
    exact ⟨⟨floor, ceiling, (horder _ _).2 hbounds⟩, h.parse_eq_ok_iff.2 (dif_pos _)⟩
  · exact (parse_renderInterval h.isRead.1 h.isRead.2).2 (dif_pos r.inOrder)

/-- A range that was read with blanks in it, cut off by a range at the same version in other words.
It is written with the words of the first, and read again with the end of the second. -/
theorem parse_forms_render_at_tie : ∃ upTo below r : VersionRange,
    parse (ascii " [1.2, 1.8 ]") = .ok upTo ∧ IsObtained below ∧ upTo.intersect below = some r ∧
      r.render = ascii "[1.7,1.8)" ∧ parse (ascii "[1.7,1.8)") = .ok r := by
  let upTo : VersionRange := ⟨⟨⟨1, 2, 0, [], ascii "1.2"⟩, false⟩,
    some ⟨⟨1, 8, 0, [], ascii "1.8"⟩, false⟩, by decide⟩
  let below : VersionRange := ⟨⟨⟨1, 7, 0, [], ascii "1.7"⟩, false⟩,
    some ⟨⟨1, 8, 0, [], ascii "1.8.0"⟩, true⟩, by decide⟩
  have hupTo : parse (ascii " [1.2, 1.8 ]") = .ok upTo := by rfl
  have hbelow : IsObtained below :=
    .make (by decide +kernel) (by decide +kernel) (dif_pos below.inOrder)
  have hsome : (upTo.intersect below).map render = some (ascii "[1.7,1.8)") := by decide +kernel
  obtain ⟨r, hr, hrender⟩ := Option.map_eq_some_iff.1 hsome
  have hread := parse_forms_render.2.2 r (.intersect (.parse hupTo) hbelow hr)
  exact ⟨upTo, below, r, hupTo, hbelow, hr, hrender, hrender ▸ hread⟩

end VersionRange

end JavaFloor
