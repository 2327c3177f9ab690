import JavaFloor.Proofs.Version.Semilattice

/-!
# The same bounds spelled otherwise

A version keeps the text that it was read from, and comparison does not look at it. So in any bound
a version may be replaced by one that compares equal: what was compared is compared alike, what was
refused is still refused, and what is kept differs in texts only.

* `Bound.tighter_congr`, `Bound.raise_congr` and `Bound.lower_congr`: the tighter of two bounds is
  spelled otherwise at most.
* `VersionRange.intersect_congr` and `VersionRange.isSome_intersect_congr`: so is the intersection
  of two ranges, and there is one for either spelling or for none.
-/

namespace JavaFloor

/-- Of two values that are related both are there or both are missing. -/
theorem isSome_eq_of_rel {α β : Type} {R : α → β → Prop} {x : Option α} {y : Option β}
    (h : Option.Rel R x y) : x.isSome = y.isSome := by
  cases h <;> rfl

namespace Bound

variable {a a' b b' : Bound} {c c' d d' old old' : Option Bound}

/-- The tighter of two bounds is that of two others that differ in texts only. -/
theorem tighter_congr {cmp : Version → Version → Ordering} (ha : a.Alike a') (hb : b.Alike b')
    (hcmp : cmp a.version b.version = cmp a'.version b'.version) :
    (tighter cmp a b).Alike (tighter cmp a' b') := by
  rw [tighter, tighter, ← hcmp]
  cases cmp a.version b.version with
  | lt => exact hb
  | eq => exact ⟨ha.1, by simp only [ha.2, hb.2]⟩
  | gt => exact ha

theorem highest_congr (ha : a.Alike a') (hb : b.Alike b') :
    (a.highest b).Alike (a'.highest b') :=
  tighter_congr ha hb (Version.compare_congr ha.1 hb.1)

theorem lowest_congr (ha : a.Alike a') (hb : b.Alike b') : (a.lowest b).Alike (a'.lowest b') := by
  rw [lowest_eq_tighter, lowest_eq_tighter]
  exact tighter_congr ha hb (Version.compare_congr hb.1 ha.1)

theorem lowest?_congr (hc : Option.Rel Alike c c') (hd : Option.Rel Alike d d') :
    Option.Rel Alike (lowest? c d) (lowest? c' d') := by
  cases hc with
  | none => exact hd
  | some hc =>
    cases hd with
    | none => exact .some hc
    | some hd => exact .some (lowest_congr hc hd)

/-- The old bound after a further demand is spelled otherwise at most. -/
theorem tighten_congr {cmp : Version → Version → Ordering} {old old' : Bound} (hb : b.Alike b')
    (hold : old.Alike old')
    (hcmp : cmp b.version old.version = cmp b'.version old'.version) :
    (tighten cmp b old).Alike (tighten cmp b' old') := by
  rw [tighten, tighten, ← hcmp, ← hb.2]
  cases cmp b.version old.version with
  | lt => exact hold
  | eq =>
    show Alike (if b.exclusive = true then b else old) (if b.exclusive = true then b' else old')
    by_cases he : b.exclusive = true
    · rw [if_pos he, if_pos he]
      exact hb
    · rw [if_neg he, if_neg he]
      exact hold
  | gt => exact hb

theorem raise_congr (hb : b.Alike b') (hold : Option.Rel Alike old old') :
    (b.raise old).Alike (b'.raise old') := by
  cases hold with
  | none => exact hb
  | some hold => exact tighten_congr hb hold (Version.compare_congr hb.1 hold.1)

theorem lower_congr (hb : b.Alike b') (hold : Option.Rel Alike old old') :
    (b.lower old).Alike (b'.lower old') := by
  cases hold with
  | none => exact hb
  | some hold =>
    rw [lower_some_eq_tighten, lower_some_eq_tighten]
    exact tighten_congr hb hold (Version.compare_congr hold.1 hb.1)

end Bound

namespace VersionRange

open JavaFloor.Bound

variable {r r' s s' : VersionRange}

theorem EndsAlike.refl (r : VersionRange) : r.EndsAlike r := by
  refine ⟨.refl _, ?_⟩
  cases r.ceiling with
  | none => exact .none
  | some c => exact .some (.refl c)

/-- Ranges that are spelled otherwise have the same intersections, spelled otherwise. -/
theorem intersect_congr (hr : r.EndsAlike r') (hs : s.EndsAlike s') :
    Option.Rel EndsAlike (r.intersect s) (r'.intersect s') :=
  make_alike (highest_congr hr.1 hs.1) (lowest?_congr hr.2 hs.2)

theorem isSome_intersect_congr (hr : r.EndsAlike r') (hs : s.EndsAlike s') :
    (r.intersect s).isSome = (r'.intersect s').isSome :=
  isSome_eq_of_rel (intersect_congr hr hs)

end VersionRange

end JavaFloor
