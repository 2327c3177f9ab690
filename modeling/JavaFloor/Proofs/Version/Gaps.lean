import JavaFloor.Proofs.Version.Forms
import JavaFloor.Proofs.Version.Intersection

/-!
# Ranges without versions

Bounds are in order if the floor is below the ceiling. This does not say that a version lies between
them, as some versions have a next one: no name comes between a qualifier and the same with a `-`
behind it, because `-` is the lowest character of names.

* `Version.successor` is the next version; it can be written and read (`Version.isRead_successor`),
  and every version above `v` is the successor of `v` or above that
  (`Version.successor_compare_isLE`).
* `Bound.IsGap`: the bounds leave out a version and its successor and so everything.
* `Bound.exists_between_iff`: between bounds in order there is a version unless they are such a gap.
* `VersionRange.exists_mem_iff_not_isGap` says so of all ranges there are, and of what is made or
  intersected. `VersionRange.exists_mem_iff_not_isGap_minus` is a range without versions.
-/

namespace JavaFloor

/-! ## The next name -/

/-- No character of names is lower than `-`. -/
theorem Ascii.minus_le {c : UInt8} (h : isNameChar c = true) : byte '-' ≤ c :=
  Bytes.forall_of_lt (p := fun c => isNameChar c = true → byte '-' ≤ c) (by decide +kernel) c h

namespace Bytes

/-- A text comes before all that it begins. -/
theorem compare_append_cons (s : Bytes) (c : UInt8) (rest : Bytes) :
    compare s (s ++ c :: rest) = .lt := by
  induction s with
  | nil => rfl
  | cons d s ih =>
    have hself : compare d d = .eq := Std.ReflCmp.compare_self
    rw [List.cons_append, List.compare_cons_cons, hself, ih]
    rfl

/-- No name comes between a text and the same with a `-` behind it. -/
theorem compare_append_minus_isLE {s t : Bytes} (ht : ∀ c ∈ t, Ascii.isNameChar c = true)
    (h : compare s t = .lt) : (compare (s ++ [Ascii.byte '-']) t).isLE := by
  induction s generalizing t with
  | nil =>
    cases t with
    | nil => cases h
    | cons d t =>
      have hd : (compare (Ascii.byte '-') d).isLE :=
        Std.isLE_compare.2 (Ascii.minus_le (ht d List.mem_cons_self))
      have hnil : (compare ([] : Bytes) t).isLE := List.isLE_compareLex_nil_left
      rw [List.nil_append, List.compare_cons_cons, Ordering.isLE_then_iff_and]
      exact ⟨hd, .inr hnil⟩
  | cons c s ih =>
    cases t with
    | nil => cases h
    | cons d t =>
      rw [List.cons_append, List.compare_cons_cons]
      rw [List.compare_cons_cons] at h
      cases hcd : compare c d with
      | lt => rfl
      | eq =>
        rw [hcd] at h
        exact ih (fun x hx => ht x (List.mem_cons_of_mem _ hx)) h
      | gt =>
        rw [hcd] at h
        cases h

end Bytes

/-! ## The next version -/

namespace Version

/-- The text of a version with all of its parts. -/
def spell (major minor micro : UInt32) (qualifier : Bytes) : Bytes :=
  Bytes.ofNat major.toNat ++ Ascii.byte '.' :: (Bytes.ofNat minor.toNat ++ Ascii.byte '.' ::
    (Bytes.ofNat micro.toNat ++ Ascii.byte '.' :: qualifier))

/-- A number of 32 bits is written as its decimal digits. -/
theorem isNumber_ofNat (n : UInt32) : IsNumber (Bytes.ofNat n.toNat) n := by
  have hdigits : ∀ c ∈ Bytes.ofNat n.toNat, Ascii.isDigit c = true :=
    fun _ hc => Bytes.isDigit_of_mem_ofNat hc
  exact ⟨_, Bytes.numeral_iff.2 ⟨Bytes.ofNat_ne_nil _, hdigits, Bytes.toNat_ofNat _⟩,
    Nat.le_of_lt_succ n.toNat_lt, rfl⟩

/-- All parts of a version are read from the text with all of them. -/
theorem parse_spell {qualifier : Bytes} (h : isQualifier qualifier = true)
    (major minor micro : UInt32) :
    parse (spell major minor micro qualifier) =
      .ok ⟨major, minor, micro, qualifier, spell major minor micro qualifier⟩ := by
  obtain ⟨hne, hname⟩ := isQualifier_iff.1 h
  exact (Spells.qualified (isNumber_ofNat major) (isNumber_ofNat minor) (isNumber_ofNat micro)
    hne hname).parse_eq

/-- The next version: a `-` more in the qualifier. -/
def successor (v : Version) : Version :=
  ⟨v.major, v.minor, v.micro, v.qualifier ++ [Ascii.byte '-'],
    spell v.major v.minor v.micro (v.qualifier ++ [Ascii.byte '-'])⟩

/-- The next version can be read. -/
theorem isRead_successor {v : Version} (h : v.IsRead) : v.successor.IsRead := by
  have hname : ∀ c ∈ v.qualifier ++ [Ascii.byte '-'], Ascii.isNameChar c = true := by
    intro c hc
    rcases List.mem_append.1 hc with hc | hc
    · exact h.isNameChar_qualifier c hc
    · rw [List.mem_singleton.1 hc]
      decide
  exact parse_spell (isQualifier_iff.2 ⟨by simp, hname⟩) v.major v.minor v.micro

theorem compare_successor (v : Version) : v.compare v.successor = .lt := by
  have hqualifier : Ord.compare v.qualifier v.successor.qualifier = .lt :=
    Bytes.compare_append_cons _ _ _
  rw [compare, hqualifier]
  simp [successor, Std.ReflCmp.compare_self]

/-- No version is between `v` and the next one. -/
theorem successor_compare_isLE {v w : Version} (hw : w.IsRead) (h : v.compare w = .lt) :
    (v.successor.compare w).isLE := by
  have step : ∀ {o a b : Ordering}, (a = .lt → b.isLE) → o.then a = .lt → (o.then b).isLE := by
    decide
  exact step (step (step (Bytes.compare_append_minus_isLE hw.isNameChar_qualifier))) h

theorem successor_compare_eq_iff {v w : Version} :
    v.successor.compare w = .eq ↔ w.major = v.major ∧ w.minor = v.minor ∧ w.micro = v.micro ∧
      w.qualifier = v.qualifier ++ [Ascii.byte '-'] := by
  rw [compare_eq_iff]
  simp only [successor, eq_comm]

end Version

/-! ## Between two bounds -/

namespace Bound

/-- The bounds leave out a version and the next one. -/
def IsGap (floor : Bound) (ceiling : Option Bound) : Prop :=
  floor.exclusive = true ∧ ∃ c ∈ ceiling, c.exclusive = true ∧
    c.version.major = floor.version.major ∧ c.version.minor = floor.version.minor ∧
    c.version.micro = floor.version.micro ∧
    c.version.qualifier = floor.version.qualifier ++ [Ascii.byte '-']

instance (floor : Bound) (ceiling : Option Bound) : Decidable (IsGap floor ceiling) :=
  inferInstanceAs (Decidable (_ ∧ _))

variable {floor : Bound} {ceiling : Option Bound}

/-- A version above an exclusive floor is not below the next one. -/
theorem not_isGap_of_between {v : Version} (hv : v.IsRead) (hfloor : floor.IsBelow v)
    (hceiling : ∀ c ∈ ceiling, c.IsAbove v) : ¬ IsGap floor ceiling := by
  rintro ⟨he, c, hc, hce, hnext⟩
  have hlow : floor.version.compare v = .lt := by simpa [IsBelow, he] using hfloor
  have hhigh : v.compare c.version = .lt := by simpa [IsAbove, hce] using hceiling c hc
  have hlt := Std.TransCmp.lt_of_isLE_of_lt (Version.successor_compare_isLE hv hlow) hhigh
  rw [Version.successor_compare_eq_iff.2 hnext] at hlt
  cases hlt

/-- Bounds in order have a version between them, which is one of them or comes next to the floor,
unless they are a gap. -/
theorem exists_between (hfloor : floor.version.IsRead) (hceiling : ∀ c ∈ ceiling, c.version.IsRead)
    (horder : InOrder floor ceiling) (hgap : ¬ IsGap floor ceiling) :
    ∃ v : Version, v.IsRead ∧ floor.IsBelow v ∧ ∀ c ∈ ceiling, c.IsAbove v := by
  cases hf : floor.exclusive with
  | false =>
    refine ⟨floor.version, hfloor, .inr ⟨Version.compare_self _, hf⟩, ?_⟩
    rintro c rfl
    exact horder.imp_right fun h => ⟨h.1, h.2.2⟩
  | true =>
    have hnext : floor.IsBelow floor.version.successor := .inl (Version.compare_successor _)
    rcases ceiling with _ | c
    · exact ⟨_, Version.isRead_successor hfloor, hnext, nofun⟩
    · have hlt : floor.version.compare c.version = .lt :=
        horder.resolve_right fun h => absurd hf (by simp [h.2.1])
      have hread : c.version.IsRead := hceiling c rfl
      cases hc : c.exclusive with
      | false =>
        refine ⟨c.version, hread, .inl hlt, ?_⟩
        rintro _ ⟨⟩
        exact .inr ⟨Version.compare_self _, hc⟩
      | true =>
        refine ⟨_, Version.isRead_successor hfloor, hnext, ?_⟩
        rintro _ ⟨⟩
        rcases Ordering.isLE_iff_eq_lt_or_eq_eq.1 (Version.successor_compare_isLE hread hlt) with
          hbelow | hequal
        · exact .inl hbelow
        · exact absurd ⟨hf, c, rfl, hc, Version.successor_compare_eq_iff.1 hequal⟩ hgap

theorem exists_between_iff (hfloor : floor.version.IsRead)
    (hceiling : ∀ c ∈ ceiling, c.version.IsRead) :
    (∃ s v, Version.parse s = .ok v ∧ floor.IsBelow v ∧ ∀ c ∈ ceiling, c.IsAbove v) ↔
      InOrder floor ceiling ∧ ¬ IsGap floor ceiling := by
  constructor
  · rintro ⟨s, v, hs, hbelow, habove⟩
    exact ⟨inOrder_of_between hbelow habove,
      not_isGap_of_between (Version.isRead_of_parse hs) hbelow habove⟩
  · rintro ⟨horder, hgap⟩
    obtain ⟨v, hv, hbetween⟩ := exists_between hfloor hceiling horder hgap
    exact ⟨v.text, v, hv, hbetween⟩

end Bound

namespace VersionRange

open JavaFloor.Bound

/-- What is made of bounds that are no gap. -/
theorem exists_make_iff {floor : Bound} {ceiling : Option Bound} :
    (∃ r, make floor ceiling = some r ∧ ¬ IsGap r.floor r.ceiling) ↔
      InOrder floor ceiling ∧ ¬ IsGap floor ceiling := by
  constructor
  · rintro ⟨r, h, hgap⟩
    obtain ⟨hfloor, hceiling⟩ := ends_of_make h
    have horder := r.inOrder
    rw [hfloor, hceiling] at hgap horder
    exact ⟨horder, hgap⟩
  · rintro ⟨horder, hgap⟩
    exact ⟨⟨floor, ceiling, horder⟩, dif_pos horder, hgap⟩

/-- **A range has a version in it unless it is a gap.**

This holds of every range that was read, made or obtained by intersecting others. So some version
fits into two ranges, or between two bounds, if and only if a range is made of them which is not a
gap: where none is made no version fits, but a gap is made although none does. -/
theorem exists_mem_iff_not_isGap {r s : VersionRange} (hr : IsObtained r) (hs : IsObtained s) :
    ((∃ text v, Version.parse text = .ok v ∧ v ∈ r) ↔ ¬ IsGap r.floor r.ceiling) ∧
    ((∃ text v, Version.parse text = .ok v ∧ v ∈ r ∧ v ∈ s) ↔
      ∃ t, r.intersect s = some t ∧ ¬ IsGap t.floor t.ceiling) ∧
    ∀ floor ceiling, floor.version.IsRead → (∀ c ∈ ceiling, c.version.IsRead) →
      ((∃ text v, Version.parse text = .ok v ∧ floor.IsBelow v ∧ ∀ c ∈ ceiling, c.IsAbove v) ↔
        ∃ t, make floor ceiling = some t ∧ ¬ IsGap t.floor t.ceiling) := by
  have hmake : ∀ (floor : Bound) (ceiling : Option Bound), floor.version.IsRead →
      (∀ c ∈ ceiling, c.version.IsRead) →
      ((∃ text v, Version.parse text = .ok v ∧ floor.IsBelow v ∧ ∀ c ∈ ceiling, c.IsAbove v) ↔
        ∃ t, make floor ceiling = some t ∧ ¬ IsGap t.floor t.ceiling) :=
    fun floor ceiling hfloor hceiling =>
      (exists_between_iff hfloor hceiling).trans exists_make_iff.symm
  refine ⟨?_, ?_, hmake⟩
  · exact (exists_between_iff hr.isRead.1 hr.isRead.2).trans (and_iff_right r.inOrder)
  · refine Iff.trans ?_ (hmake (r.floor.highest s.floor) (lowest? r.ceiling s.ceiling)
      (tighter_version _ hr.isRead.1 hs.isRead.1) (lowest?_version hr.isRead.2 hs.isRead.2))
    refine exists₂_congr fun text v => and_congr_right fun _ => ?_
    rw [isBelow_highest_iff, forall_isAbove_lowest?_iff]
    exact and_and_and_comm

/-- Nothing that can be read is above `1.8` and below `1.8.0.-`, but this is read as a range, and
made of two ranges that share nothing. -/
theorem exists_mem_iff_not_isGap_minus : ∃ r above below : VersionRange,
    parse (ascii "(1.8,1.8.0.-)") = .ok r ∧ parse (ascii "(1.8,)") = .ok above ∧
      parse (ascii "[0,1.8.0.-)") = .ok below ∧ above.intersect below = some r ∧
      (∀ s v, Version.parse s = .ok v → v ∉ r) ∧
      ∀ s v, Version.parse s = .ok v → ¬ (v ∈ above ∧ v ∈ below) := by
  let release : Version := ⟨1, 8, 0, [], ascii "1.8"⟩
  let next : Version := ⟨1, 8, 0, ascii "-", ascii "1.8.0.-"⟩
  let r : VersionRange := ⟨⟨release, true⟩, some ⟨next, true⟩, by decide⟩
  let above : VersionRange := ⟨⟨release, true⟩, none, trivial⟩
  let below : VersionRange := ⟨⟨⟨0, 0, 0, [], ascii "0"⟩, false⟩, some ⟨next, true⟩, by decide⟩
  have hr : parse (ascii "(1.8,1.8.0.-)") = .ok r := by rfl
  have habove : parse (ascii "(1.8,)") = .ok above := by rfl
  have hbelow : parse (ascii "[0,1.8.0.-)") = .ok below := by rfl
  have hmeet : above.intersect below = some r := by rfl
  have hgap : IsGap r.floor r.ceiling := by decide +kernel
  have hmem := (exists_mem_iff_not_isGap (.parse hr) (.parse hr)).1
  have hshared := (exists_mem_iff_not_isGap (.parse habove) (.parse hbelow)).2.1
  refine ⟨r, above, below, hr, habove, hbelow, hmeet, fun s v hs hv => ?_, fun s v hs hv => ?_⟩
  · exact hmem.1 ⟨s, v, hs, hv⟩ hgap
  · obtain ⟨t, ht, hfree⟩ := hshared.1 ⟨s, v, hs, hv⟩
    obtain rfl := Option.some.inj (hmeet.symm.trans ht)
    exact hfree hgap

end VersionRange

end JavaFloor
