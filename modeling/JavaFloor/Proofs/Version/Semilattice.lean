import JavaFloor.Proofs.Version.Bounds

/-!
# Intersection as an operation

Intersecting can leave no range, and what is left of no range is no range. With this ranges form a
semilattice, up to the texts of their bounds: of bounds that compare equal the left one is kept.

* `Bound.tighter` is associative and idempotent, and its arguments may be swapped up to texts
  (`tighter_assoc`, `tighter_self`, `tighter_alike`). So `Bound.highest` and `Bound.lowest?` are.
* `VersionRange.bind_intersect`, `VersionRange.intersect_bind`: bounds that are out of order are
  refused sooner or later, so that it does not matter when.
* `VersionRange.meet` intersects ranges that may be missing, and `VersionRange.meet_semilattice`
  has the laws of this operation.
-/

namespace JavaFloor

namespace Bound

/-! ## The tighter of two bounds -/

section Direction

variable {cmp : Version → Version → Ordering} {a b : Bound}

theorem tighter_of_lt (h : cmp a.version b.version = .lt) : tighter cmp a b = b := by
  rw [tighter, h]

theorem tighter_of_eq (h : cmp a.version b.version = .eq) :
    tighter cmp a b = ⟨a.version, a.exclusive || b.exclusive⟩ := by
  rw [tighter, h]

theorem tighter_of_gt (h : cmp a.version b.version = .gt) : tighter cmp a b = a := by
  rw [tighter, h]

variable [Std.TransCmp cmp]

/-- Of three bounds the first of the tightest ones is kept, in whatever order they are compared. -/
theorem tighter_assoc (a b c : Bound) :
    tighter cmp (tighter cmp a b) c = tighter cmp a (tighter cmp b c) := by
  cases hab : cmp a.version b.version with
  | lt =>
    rw [tighter_of_lt hab]
    cases hbc : cmp b.version c.version with
    | lt => rw [tighter_of_lt hbc, tighter_of_lt (Std.TransCmp.lt_trans hab hbc)]
    | eq => simp only [tighter, hab, hbc]
    | gt => rw [tighter_of_gt hbc, tighter_of_lt hab]
  | eq =>
    have hac : cmp a.version c.version = cmp b.version c.version := Std.TransCmp.congr_left hab
    cases hbc : cmp b.version c.version <;> simp only [tighter, hab, hbc, hac, Bool.or_assoc]
  | gt =>
    rw [tighter_of_gt hab]
    cases hbc : cmp b.version c.version with
    | lt => rw [tighter_of_lt hbc]
    | eq =>
      have hac : cmp a.version c.version = .gt := (Std.TransCmp.congr_right hbc).symm.trans hab
      simp only [tighter, hab, hbc, hac]
    | gt => rw [tighter_of_gt hbc, tighter_of_gt hab, tighter_of_gt (Std.TransCmp.gt_trans hab hbc)]

theorem tighter_self (a : Bound) : tighter cmp a a = a := by
  rw [tighter_of_eq Std.ReflCmp.compare_self, Bool.or_self]

/-- A bound that was compared once adds nothing the second time. -/
theorem tighter_tighter_self (a b : Bound) :
    tighter cmp (tighter cmp a b) a = tighter cmp a b := by
  cases hab : cmp a.version b.version with
  | lt => rw [tighter_of_lt hab, tighter_of_gt (Std.OrientedCmp.gt_of_lt hab)]
  | eq =>
    have hself : cmp a.version a.version = .eq := Std.ReflCmp.compare_self
    simp only [tighter, hab, hself, Bool.or_right_comm, Bool.or_self]
  | gt => rw [tighter_of_gt hab, tighter_self]

end Direction

theorem Alike.refl (a : Bound) : a.Alike a := ⟨Version.compare_self _, rfl⟩

/-- Which bound comes first decides about the text only. -/
theorem tighter_alike {cmp : Version → Version → Ordering} [Std.TransCmp cmp]
    (hcmp : ∀ {v w}, cmp v w = .eq → v.compare w = .eq) (a b : Bound) :
    (tighter cmp a b).Alike (tighter cmp b a) := by
  cases hab : cmp a.version b.version with
  | lt =>
    rw [tighter_of_lt hab, tighter_of_gt (Std.OrientedCmp.gt_of_lt hab)]
    exact .refl b
  | eq =>
    rw [tighter_of_eq hab, tighter_of_eq (Std.OrientedCmp.eq_symm hab)]
    exact ⟨hcmp hab, Bool.or_comm _ _⟩
  | gt =>
    rw [tighter_of_gt hab, tighter_of_lt (Std.OrientedCmp.lt_of_gt hab)]
    exact .refl a

/-! ## Floors and ceilings that meet -/

theorem highest_assoc (a b c : Bound) : (a.highest b).highest c = a.highest (b.highest c) :=
  tighter_assoc a b c

theorem highest_alike (a b : Bound) : (a.highest b).Alike (b.highest a) :=
  tighter_alike id a b

theorem lowest?_assoc (c d e : Option Bound) :
    lowest? (lowest? c d) e = lowest? c (lowest? d e) := by
  rcases c with _ | c <;> rcases d with _ | d <;> rcases e with _ | e
  case some.some.some =>
    simp only [lowest?, lowest_eq_tighter]
    rw [tighter_assoc]
  all_goals rfl

theorem lowest?_self (c : Option Bound) : lowest? c c = c := by
  cases c with
  | none => rfl
  | some c => rw [lowest?, lowest_eq_tighter, tighter_self]

theorem lowest?_lowest?_self (c d : Option Bound) : lowest? (lowest? c d) c = lowest? c d := by
  rcases c with _ | c <;> rcases d with _ | d
  · rfl
  · rfl
  · exact lowest?_self (some c)
  · simp only [lowest?, lowest_eq_tighter]
    rw [tighter_tighter_self]

theorem lowest?_alike (c d : Option Bound) :
    Option.Rel Alike (lowest? c d) (lowest? d c) := by
  rcases c with _ | c <;> rcases d with _ | d
  · exact .none
  · exact .some (.refl d)
  · exact .some (.refl c)
  · simp only [lowest?, lowest_eq_tighter]
    exact .some (tighter_alike Std.OrientedCmp.eq_symm c d)

end Bound

namespace VersionRange

open JavaFloor.Bound

/-! ## Ranges that meet -/

/-- Ranges that differ in the texts of their bounds only. -/
def EndsAlike (r s : VersionRange) : Prop :=
  r.floor.Alike s.floor ∧ Option.Rel Bound.Alike r.ceiling s.ceiling

theorem make_eq_none_iff {floor : Bound} {ceiling : Option Bound} :
    make floor ceiling = none ↔ ¬ InOrder floor ceiling := by
  rw [← isSome_make_iff, Bool.not_eq_true, Option.isSome_eq_false_iff, Option.isNone_iff_eq_none]

/-- Bounds that are out of order are so with any further bounds on the right. -/
theorem bind_intersect (floor : Bound) (ceiling : Option Bound) (r : VersionRange) :
    (make floor ceiling).bind (·.intersect r) =
      make (floor.highest r.floor) (lowest? ceiling r.ceiling) := by
  cases h : make floor ceiling with
  | none =>
    refine Eq.symm (make_eq_none_iff.2 fun hr => make_eq_none_iff.1 h ?_)
    exact ((inOrder_lowest?_iff _ _).1 (inOrder_highest_iff.1 hr).1).1
  | some q =>
    obtain ⟨hfloor, hceiling⟩ := ends_of_make h
    rw [Option.bind_some, intersect, hfloor, hceiling]

/-- So they are with further bounds on the left. -/
theorem intersect_bind (r : VersionRange) (floor : Bound) (ceiling : Option Bound) :
    (make floor ceiling).bind r.intersect =
      make (r.floor.highest floor) (lowest? r.ceiling ceiling) := by
  cases h : make floor ceiling with
  | none =>
    refine Eq.symm (make_eq_none_iff.2 fun hr => make_eq_none_iff.1 h ?_)
    exact ((inOrder_lowest?_iff _ _).1 (inOrder_highest_iff.1 hr).2).2
  | some q =>
    obtain ⟨hfloor, hceiling⟩ := ends_of_make h
    rw [Option.bind_some, intersect, hfloor, hceiling]

theorem make_ends (r : VersionRange) : make r.floor r.ceiling = some r := dif_pos r.inOrder

theorem make_alike {floor floor' : Bound} {ceiling ceiling' : Option Bound}
    (hfloor : floor.Alike floor') (hceiling : Option.Rel Bound.Alike ceiling ceiling') :
    Option.Rel EndsAlike (make floor ceiling) (make floor' ceiling') := by
  have horder : InOrder floor ceiling ↔ InOrder floor' ceiling' :=
    (hfloor.inOrder_iff ceiling).trans (inOrder_iff_of_rel_alike hceiling floor')
  by_cases h : InOrder floor ceiling
  · rw [make, make, dif_pos h, dif_pos (horder.1 h)]
    exact .some ⟨hfloor, hceiling⟩
  · rw [make, make, dif_neg h, dif_neg (mt horder.2 h)]
    exact .none

theorem intersect_assoc (r s t : VersionRange) :
    (r.intersect s).bind (·.intersect t) = (s.intersect t).bind r.intersect := by
  rw [intersect, bind_intersect, intersect, intersect_bind, highest_assoc, lowest?_assoc]

theorem intersect_self (r : VersionRange) : r.intersect r = some r := by
  rw [intersect, highest_eq_tighter, tighter_self, lowest?_self, make_ends]

theorem intersect_alike (r s : VersionRange) :
    Option.Rel EndsAlike (r.intersect s) (s.intersect r) :=
  make_alike (highest_alike _ _) (lowest?_alike _ _)

/-- What a range leaves of another one, it leaves a second time. -/
theorem intersect_bind_self (r s : VersionRange) :
    (r.intersect s).bind (·.intersect r) = r.intersect s := by
  rw [intersect, bind_intersect, highest_eq_tighter, highest_eq_tighter, tighter_tighter_self,
    lowest?_lowest?_self]

/-! ## Ranges that may be missing -/

/-- The intersection of two ranges, none if one of them is missing. -/
def meet (a b : Option VersionRange) : Option VersionRange := a.bind fun r => b.bind r.intersect

@[simp]
theorem meet_none_left (b : Option VersionRange) : meet none b = none := rfl

@[simp]
theorem meet_none_right (a : Option VersionRange) : meet a none = none := by
  cases a <;> rfl

@[simp]
theorem meet_some (r s : VersionRange) : meet (some r) (some s) = r.intersect s := rfl

/-- **Intersection makes a semilattice of ranges, none included, and leans to the left.**

It is associative and idempotent with the texts of all bounds and with their ends, and so is none if
and only if it is none in the other grouping. What stands on the left is kept: once more on the
right it changes nothing. Swapping sides makes no difference but to the texts of versions that
compare equal. -/
theorem meet_semilattice (a b c : Option VersionRange) :
    meet (meet a b) c = meet a (meet b c) ∧ meet a a = a ∧ meet (meet a b) a = meet a b ∧
      Option.Rel EndsAlike (meet a b) (meet b a) := by
  cases a with
  | none =>
    refine ⟨rfl, rfl, rfl, ?_⟩
    rw [meet_none_left, meet_none_right]
    exact .none
  | some r =>
    cases b with
    | none => exact ⟨rfl, intersect_self r, rfl, .none⟩
    | some s =>
      refine ⟨?_, intersect_self r, intersect_bind_self r s, intersect_alike r s⟩
      cases c with
      | none => rw [meet_none_right, meet_none_right, meet_none_right]
      | some t => exact intersect_assoc r s t

end VersionRange

end JavaFloor
