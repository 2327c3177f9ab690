import JavaFloor.Proofs.Version.Bounds

/-!
# The versions that two ranges share

`VersionRange.intersect` takes the higher floor and the lower ceiling, and `VersionRange.make`
refuses them if they are out of order. Here this is compared with the versions in the two ranges.

* `Bound.isBelow_highest_iff` and `Bound.forall_isAbove_lowest?_iff`: a version is on the right side
  of the tighter of two bounds if it is on the right side of both.
* `Bound.inOrder_of_between`: bounds with a version between them are in order, so that ranges
  which share a version are not refused.
* `VersionRange.intersect_is_inter`: the intersection of two ranges has the versions that they
  share, and where there is none, they share no version.
-/

namespace JavaFloor

namespace Bound

variable {a b : Bound} {ceiling : Option Bound} {v : Version}

theorem isBelow_highest_iff : (a.highest b).IsBelow v ↔ a.IsBelow v ∧ b.IsBelow v := by
  rw [(isHighest_highest a b).isBelow_iff]
  simp

theorem isAbove_lowest_iff : (a.lowest b).IsAbove v ↔ a.IsAbove v ∧ b.IsAbove v := by
  rw [(isLowest_lowest a b).isAbove_iff]
  simp

/-- A ceiling that is missing rules out no version. -/
theorem forall_isAbove_lowest?_iff (c d : Option Bound) :
    (∀ b ∈ lowest? c d, b.IsAbove v) ↔ (∀ b ∈ c, b.IsAbove v) ∧ ∀ b ∈ d, b.IsAbove v := by
  cases c with
  | none => simp [lowest?]
  | some c =>
    cases d with
    | none => simp [lowest?]
    | some d => simpa [lowest?] using isAbove_lowest_iff

/-- If a version lies between a floor and a ceiling, these are in order. -/
theorem inOrder_of_between (hfloor : a.IsBelow v) (hceiling : ∀ c ∈ ceiling, c.IsAbove v) :
    InOrder a ceiling := by
  cases ceiling with
  | none => trivial
  | some c =>
    have hc : c.IsAbove v := hceiling c rfl
    rcases hfloor with hav | ⟨hav, ha⟩
    · left
      rcases hc with hvc | ⟨hvc, -⟩
      · exact Std.TransCmp.lt_trans hav hvc
      · exact Std.TransCmp.lt_of_lt_of_eq hav hvc
    · rcases hc with hvc | ⟨hvc, hc⟩
      · exact .inl (Std.TransCmp.lt_of_eq_of_lt hav hvc)
      · exact .inr ⟨Std.TransCmp.eq_trans hav hvc, ha, hc⟩

end Bound

namespace VersionRange

open JavaFloor.Bound

variable {r s t : VersionRange} {v : Version}

/-- A range has the versions that are neither below its floor nor above its ceiling. At an end that
is exclusive, versions that equal it are left out as well. -/
theorem mem_iff : v ∈ r ↔
    ((r.floor.version.compare v).isLE ∧
      (r.floor.exclusive = true → r.floor.version.compare v = .lt)) ∧
    ∀ c ∈ r.ceiling, (v.compare c.version).isLE ∧
      (c.exclusive = true → v.compare c.version = .lt) := by
  have side : ∀ (o : Ordering) (exclusive : Bool), (o = .lt ∨ (o = .eq ∧ exclusive = false)) ↔
      (o.isLE ∧ (exclusive = true → o = .lt)) := by decide
  exact and_congr (side _ _) (forall₂_congr fun c _ => side _ _)

theorem mem_intersect_iff (h : r.intersect s = some t) : v ∈ t ↔ v ∈ r ∧ v ∈ s := by
  rw [mem_iff_of_make h, isBelow_highest_iff, forall_isAbove_lowest?_iff]
  constructor
  · rintro ⟨⟨hr, hs⟩, hr', hs'⟩
    exact ⟨⟨hr, hr'⟩, hs, hs'⟩
  · rintro ⟨⟨hr, hr'⟩, hs, hs'⟩
    exact ⟨⟨hr, hs⟩, hr', hs'⟩

/-- Ranges that share a version have an intersection. -/
theorem isSome_intersect_of_mem (hr : v ∈ r) (hs : v ∈ s) : (r.intersect s).isSome := by
  rw [isSome_intersect_iff]
  exact ⟨inOrder_of_between hr.1 hs.2, inOrder_of_between hs.1 hr.2⟩

/-- **The intersection of two ranges has the versions that are in both.** If there is none, no
version is in both. A version is in a range if it is neither below the floor nor above the ceiling,
and equals no end that is exclusive. -/
theorem intersect_is_inter (r s : VersionRange) :
    (∀ v, v ∈ r ↔
      ((r.floor.version.compare v).isLE ∧
        (r.floor.exclusive = true → r.floor.version.compare v = .lt)) ∧
      ∀ c ∈ r.ceiling, (v.compare c.version).isLE ∧
        (c.exclusive = true → v.compare c.version = .lt)) ∧
    (∀ t, r.intersect s = some t → ∀ v, v ∈ t ↔ v ∈ r ∧ v ∈ s) ∧
    (r.intersect s = none → ∀ v, ¬ (v ∈ r ∧ v ∈ s)) := by
  refine ⟨fun v => mem_iff, fun t h v => mem_intersect_iff h, fun h v => ?_⟩
  rintro ⟨hr, hs⟩
  have hsome := isSome_intersect_of_mem hr hs
  rw [h] at hsome
  cases hsome

/-- At `1.8`, which is also written `1.8.0`, an exclusive end wins over an inclusive one, and the
text is that of the range on the left. Ranges that touch there share no version if one of them
leaves it out. -/
theorem intersect_is_inter_at_tie : ∃ upTo below onward : VersionRange,
    upTo.render = ascii "[1.2,1.8]" ∧ below.render = ascii "[1.7,1.8.0)" ∧
      onward.render = ascii "1.8" ∧
      (∃ t, upTo.intersect below = some t ∧ t.render = ascii "[1.7,1.8)" ∧
        ∀ v, v ∈ t ↔ v ∈ upTo ∧ v ∈ below) ∧
      below.intersect onward = none ∧ ∀ v, ¬ (v ∈ below ∧ v ∈ onward) := by
  let upTo : VersionRange := ⟨⟨⟨1, 2, 0, [], ascii "1.2"⟩, false⟩,
    some ⟨⟨1, 8, 0, [], ascii "1.8"⟩, false⟩, by decide⟩
  let below : VersionRange := ⟨⟨⟨1, 7, 0, [], ascii "1.7"⟩, false⟩,
    some ⟨⟨1, 8, 0, [], ascii "1.8.0"⟩, true⟩, by decide⟩
  let onward : VersionRange := atLeast ⟨1, 8, 0, [], ascii "1.8"⟩
  have hsome : (upTo.intersect below).map render = some (ascii "[1.7,1.8)") := by decide +kernel
  have hnone : (below.intersect onward).isNone := by decide +kernel
  obtain ⟨t, ht, hrender⟩ := Option.map_eq_some_iff.1 hsome
  replace hnone := Option.isNone_iff_eq_none.1 hnone
  have meet := (intersect_is_inter upTo below).2.1 t ht
  have apart := (intersect_is_inter below onward).2.2 hnone
  refine ⟨upTo, below, onward, ?_, ?_, ?_, ⟨t, ht, hrender, meet⟩, hnone, apart⟩
  all_goals decide +kernel

end VersionRange

end JavaFloor
