import JavaFloor.Filter.Literal
import JavaFloor.Proofs.Version.Order

/-!
# Bounds and the tightest of several

A floor and a ceiling are the same thing seen in two directions, so the lemmas here are stated for a
comparison `cmp` that is either `Version.compare` or its opposite.

* `Bound.Before cmp a b` says that `a` and `b`, met in this order, leave room between them: it is
  `InOrder` for a floor and a ceiling, and membership if one of them is a single version.
* `Bound.IsTightest cmp bs b` says that `b` is the tightest of the bounds `bs`, exclusive if one of
  those that tie with it is. What lies behind the tightest bound lies behind all of them
  (`IsTightest.before_iff`).
* `Bound.raise` and `Bound.lower`, repeated, find a tightest bound (`isHighest_foldl_raise`,
  `isLowest_foldl_lower`).
* `Bound.tighter cmp a b` is the tighter of two bounds (`isTightest_tighter`); `Bound.highest` and
  `Bound.lowest` are its two directions.
* `Bound.Alike` relates bounds that differ in the texts of their versions only.
* `VersionRange.isSome_intersect_iff`: two ranges meet if neither floor is beyond the ceiling of the
  other.
-/

namespace JavaFloor

namespace Bound

section Direction

variable (cmp : Version → Version → Ordering)

/-- There is room between `a` and `b` in the direction of `cmp`. -/
def Before (a b : Bound) : Prop :=
  cmp a.version b.version = .lt ∨
    (cmp a.version b.version = .eq ∧ a.exclusive = false ∧ b.exclusive = false)

/-- `b` is where the tightest of the bounds `bs` is, in the direction of `cmp`. It is exclusive if
one of the bounds there is. -/
structure IsTightest (bs : List Bound) (b : Bound) : Prop where
  attained : ∃ a ∈ bs, cmp a.version b.version = .eq
  isLE : ∀ a ∈ bs, (cmp a.version b.version).isLE
  exclusive_iff : b.exclusive = true ↔
    ∃ a ∈ bs, cmp a.version b.version = .eq ∧ a.exclusive = true

/-- The bound further along `cmp`; at a tie the left one, exclusive if either is. -/
def tighter (a b : Bound) : Bound :=
  match cmp a.version b.version with
  | .lt => b
  | .eq => ⟨a.version, a.exclusive || b.exclusive⟩
  | .gt => a

/-- The old bound after a further demand `b`. -/
def tighten (b old : Bound) : Bound :=
  match cmp b.version old.version with
  | .lt => old
  | .eq => if b.exclusive then b else old
  | .gt => b

theorem tighten_eq_or (b old : Bound) : tighten cmp b old = b ∨ tighten cmp b old = old := by
  rw [tighten]
  cases cmp b.version old.version with
  | lt => exact .inr rfl
  | eq =>
    by_cases he : b.exclusive = true
    · exact .inl (if_pos he)
    · exact .inr (if_neg he)
  | gt => exact .inl rfl

variable {cmp} {a b c old : Bound} {bs : List Bound}

variable [Std.TransCmp cmp]

/-- A version behind the tightest of several bounds is behind all of them. -/
theorem IsTightest.before_iff (h : IsTightest cmp bs b) :
    Before cmp b c ↔ ∀ a ∈ bs, Before cmp a c := by
  constructor
  · intro hbc a ha
    rcases hbc with hlt | ⟨heq, hb, hc⟩
    · exact .inl (Std.TransCmp.lt_of_isLE_of_lt (h.isLE a ha) hlt)
    · rcases Ordering.isLE_iff_eq_lt_or_eq_eq.1 (h.isLE a ha) with hab | hab
      · exact .inl (Std.TransCmp.lt_of_lt_of_eq hab heq)
      · refine .inr ⟨Std.TransCmp.eq_trans hab heq, Bool.eq_false_iff.2 fun hae => ?_, hc⟩
        exact Bool.eq_false_iff.1 hb (h.exclusive_iff.2 ⟨a, ha, hab, hae⟩)
  · intro hall
    obtain ⟨a, ha, hab⟩ := h.attained
    have hba := Std.OrientedCmp.eq_symm hab
    rcases hall a ha with hlt | ⟨heq, -, hc⟩
    · exact .inl (Std.TransCmp.lt_of_eq_of_lt hba hlt)
    · have hbc := Std.TransCmp.eq_trans hba heq
      refine .inr ⟨hbc, Bool.eq_false_iff.2 fun hbe => ?_, hc⟩
      obtain ⟨x, hx, hxb, hxe⟩ := h.exclusive_iff.1 hbe
      rcases hall x hx with hlt | ⟨-, hxf, -⟩
      · simp [Std.TransCmp.eq_trans hxb hbc] at hlt
      · simp [hxe] at hxf

theorem isTightest_singleton (b : Bound) : IsTightest cmp [b] b := by
  have hself : cmp b.version b.version = .eq := Std.ReflCmp.compare_self
  exact ⟨⟨b, by simp, hself⟩, by simp [hself], by simp [hself]⟩

/-- One more demand on top of the tightest of several. -/
theorem IsTightest.tighten (h : IsTightest cmp bs old) (b : Bound) :
    IsTightest cmp (bs ++ [b]) (tighten cmp b old) := by
  have hself : cmp b.version b.version = .eq := Std.ReflCmp.compare_self
  rw [Bound.tighten]
  cases hb : cmp b.version old.version with
  | lt =>
    refine ⟨?_, ?_, ?_⟩
    · obtain ⟨a, ha, hao⟩ := h.attained
      exact ⟨a, by simp [ha], hao⟩
    · simpa [or_imp, forall_and, hb] using h.isLE
    · simpa [or_and_right, exists_or, hb] using h.exclusive_iff
  | gt =>
    have hob : cmp old.version b.version = .lt := Std.OrientedCmp.lt_of_gt hb
    have hlt : ∀ a ∈ bs, cmp a.version b.version = .lt := fun a ha =>
      Std.TransCmp.lt_of_isLE_of_lt (h.isLE a ha) hob
    refine ⟨⟨b, by simp, hself⟩, ?_, ?_⟩
    · intro a ha
      rcases List.mem_append.1 ha with ha | ha
      · simp [hlt a ha]
      · simp [List.mem_singleton.1 ha, hself]
    · refine ⟨fun he => ⟨b, by simp, hself, he⟩, ?_⟩
      rintro ⟨a, ha, hab, hae⟩
      rcases List.mem_append.1 ha with ha | ha
      · simp [hlt a ha] at hab
      · exact List.mem_singleton.1 ha ▸ hae
  | eq =>
    have hob : cmp old.version b.version = .eq := Std.OrientedCmp.eq_symm hb
    have hcongr : ∀ a : Bound, cmp a.version b.version = cmp a.version old.version := fun a =>
      Std.TransCmp.congr_right hb
    by_cases he : b.exclusive = true
    · rw [if_pos he]
      refine ⟨⟨b, by simp, hself⟩, ?_, by simp [he, hself]⟩
      intro a ha
      rcases List.mem_append.1 ha with ha | ha
      · exact hcongr a ▸ h.isLE a ha
      · simp [List.mem_singleton.1 ha, hself]
    · rw [if_neg he]
      refine ⟨?_, ?_, ?_⟩
      · obtain ⟨a, ha, hao⟩ := h.attained
        exact ⟨a, by simp [ha], hao⟩
      · simpa [or_imp, forall_and, hb] using h.isLE
      · simpa [or_and_right, exists_or, he] using h.exclusive_iff

/-- Demands taken in one after another, from none at all, leave a tightest one of them. -/
theorem foldl_tighten_cases {step : Option Bound → Bound → Option Bound}
    (hnone : ∀ b, step none b = some b)
    (hsome : ∀ old b, step (some old) b = some (tighten cmp b old)) (bs : List Bound) :
    (bs = [] ∧ bs.foldl step none = none) ∨
      ∃ b ∈ bs, bs.foldl step none = some b ∧ IsTightest cmp bs b := by
  have run : ∀ (rest front : List Bound) (old : Bound), old ∈ front → IsTightest cmp front old →
      ∃ b ∈ front ++ rest, rest.foldl step (some old) = some b ∧
        IsTightest cmp (front ++ rest) b := by
    intro rest
    induction rest with
    | nil =>
      intro front old hm ho
      rw [List.append_nil]
      exact ⟨old, hm, rfl, ho⟩
    | cons x rest ih =>
      intro front old hm ho
      have hx : tighten cmp x old ∈ front ++ [x] := by
        rcases tighten_eq_or cmp x old with h | h
        · simp [h]
        · simp [h, hm]
      obtain ⟨b, hb, hfold, ht⟩ := ih (front ++ [x]) _ hx (ho.tighten x)
      rw [List.append_assoc] at hb ht
      exact ⟨b, hb, by rw [List.foldl_cons, hsome, hfold], ht⟩
  cases bs with
  | nil => exact .inl ⟨rfl, rfl⟩
  | cons x bs =>
    obtain ⟨b, hb, hfold, ht⟩ := run bs [x] x List.mem_cons_self (isTightest_singleton x)
    exact .inr ⟨b, hb, by rw [List.foldl_cons, hnone, hfold], ht⟩

/-- The tighter of two bounds is where both together are. -/
theorem isTightest_tighter (a b : Bound) : IsTightest cmp [a, b] (tighter cmp a b) := by
  have hself : ∀ v : Version, cmp v v = .eq := fun v => Std.ReflCmp.compare_self
  rw [tighter]
  cases hab : cmp a.version b.version with
  | lt => exact ⟨⟨b, by simp, hself _⟩, by simp [hab, hself], by simp [hab, hself]⟩
  | gt =>
    have hba : cmp b.version a.version = .lt := Std.OrientedCmp.lt_of_gt hab
    exact ⟨⟨a, by simp, hself _⟩, by simp [hba, hself], by simp [hba, hself]⟩
  | eq =>
    have hba : cmp b.version a.version = .eq := Std.OrientedCmp.eq_symm hab
    exact ⟨⟨a, by simp, hself _⟩, by simp [hba, hself], by simp [hba, hself]⟩

end Direction

/-! ## Floors and ceilings -/

/-- `b` is where the highest of the floors `bs` is. -/
abbrev IsHighest (bs : List Bound) (b : Bound) : Prop := IsTightest Version.compare bs b

/-- `b` is where the lowest of the ceilings `bs` is. -/
abbrev IsLowest (bs : List Bound) (b : Bound) : Prop :=
  IsTightest (fun v w => w.compare v) bs b

variable {a b c : Bound} {bs : List Bound} {v : Version}

theorem isBelow_iff_before : b.IsBelow v ↔ Before Version.compare b ⟨v, false⟩ := by
  simp [IsBelow, Before]

theorem isAbove_iff_before : b.IsAbove v ↔ Before (fun v w => w.compare v) b ⟨v, false⟩ := by
  simp [IsAbove, Before]

theorem inOrder_iff_before : InOrder a (some c) ↔ Before (fun v w => w.compare v) c a :=
  or_congr_right (and_congr_right' and_comm)

theorem IsTightest.isBelow_iff (h : IsHighest bs b) : b.IsBelow v ↔ ∀ a ∈ bs, a.IsBelow v := by
  simp only [isBelow_iff_before]
  exact h.before_iff

theorem IsTightest.isAbove_iff (h : IsLowest bs b) : b.IsAbove v ↔ ∀ a ∈ bs, a.IsAbove v := by
  simp only [isAbove_iff_before]
  exact h.before_iff

/-- The highest of several floors is in order with a ceiling if all of them are. -/
theorem IsTightest.inOrder_iff_of_isHighest (h : IsHighest bs b) (ceiling : Option Bound) :
    InOrder b ceiling ↔ ∀ a ∈ bs, InOrder a ceiling := by
  cases ceiling with
  | none => exact iff_of_true trivial fun _ _ => trivial
  | some c => exact h.before_iff

/-- The lowest of several ceilings is in order with a floor if all of them are. -/
theorem IsTightest.inOrder_iff_of_isLowest (h : IsLowest bs b) (floor : Bound) :
    InOrder floor (some b) ↔ ∀ c ∈ bs, InOrder floor (some c) := by
  simp only [inOrder_iff_before]
  exact h.before_iff

theorem isHighest_foldl_raise (bs : List Bound) :
    (bs = [] ∧ bs.foldl (fun old b => some (b.raise old)) none = none) ∨
      ∃ b ∈ bs, bs.foldl (fun old b => some (b.raise old)) none = some b ∧ IsHighest bs b :=
  foldl_tighten_cases (fun _ => rfl) (fun _ _ => rfl) bs

theorem lower_some_eq_tighten (b old : Bound) :
    b.lower (some old) = tighten (fun v w => w.compare v) b old := by
  rw [lower, tighten, Version.compare_swap old.version b.version]
  cases old.version.compare b.version <;> rfl

theorem isLowest_foldl_lower (bs : List Bound) :
    (bs = [] ∧ bs.foldl (fun old b => some (b.lower old)) none = none) ∨
      ∃ b ∈ bs, bs.foldl (fun old b => some (b.lower old)) none = some b ∧ IsLowest bs b :=
  foldl_tighten_cases (fun _ => rfl) (fun old b => congrArg some (lower_some_eq_tighten b old)) bs

theorem highest_eq_tighter (a b : Bound) : a.highest b = tighter Version.compare a b := rfl

theorem lowest_eq_tighter (a b : Bound) : a.lowest b = tighter (fun v w => w.compare v) a b := by
  rw [lowest, tighter, Version.compare_swap a.version b.version]
  cases a.version.compare b.version <;> rfl

theorem isHighest_highest (a b : Bound) : IsHighest [a, b] (a.highest b) := isTightest_tighter a b

theorem isLowest_lowest (a b : Bound) : IsLowest [a, b] (a.lowest b) := by
  rw [lowest_eq_tighter]
  exact isTightest_tighter a b

@[simp]
theorem inOrder_none (floor : Bound) : InOrder floor none := trivial

/-- A floor that is lower, and inclusive, is in order with more ceilings. -/
theorem inOrder_of_isLE {ceiling : Option Bound} (h : InOrder b ceiling)
    (hle : (a.version.compare b.version).isLE) (ha : a.exclusive = false) : InOrder a ceiling := by
  cases ceiling with
  | none => trivial
  | some c =>
    rcases h with hlt | ⟨heq, -, hc⟩
    · exact .inl (Std.TransCmp.lt_of_isLE_of_lt hle hlt)
    · rcases Ordering.isLE_iff_eq_lt_or_eq_eq.1 hle with hab | hab
      · exact .inl (Std.TransCmp.lt_of_lt_of_eq hab heq)
      · exact .inr ⟨Std.TransCmp.eq_trans hab heq, ha, hc⟩

theorem inOrder_highest_iff {ceiling : Option Bound} :
    InOrder (a.highest b) ceiling ↔ InOrder a ceiling ∧ InOrder b ceiling := by
  rw [(isHighest_highest a b).inOrder_iff_of_isHighest]
  simp

theorem inOrder_lowest?_iff {floor : Bound} (c d : Option Bound) :
    InOrder floor (lowest? c d) ↔ InOrder floor c ∧ InOrder floor d := by
  rcases c with _ | c <;> rcases d with _ | d
  · simp [lowest?]
  · simp [lowest?]
  · simp [lowest?]
  · rw [lowest?, (isLowest_lowest c d).inOrder_iff_of_isLowest]
    simp

/-! ## Bounds that differ in their texts only -/

/-- Bounds at versions that compare equal, both inclusive or both exclusive. -/
def Alike (a b : Bound) : Prop :=
  a.version.compare b.version = .eq ∧ a.exclusive = b.exclusive

instance (a b : Bound) : Decidable (a.Alike b) := inferInstanceAs (Decidable (_ ∧ _))

instance : (c d : Option Bound) → Decidable (Option.Rel Alike c d)
  | none, none => .isTrue .none
  | some c, some d => decidable_of_iff (c.Alike d) ⟨.some, fun | .some h => h⟩
  | none, some _ => .isFalse nofun
  | some _, none => .isFalse nofun

theorem Alike.inOrder_iff (h : a.Alike b) (c : Option Bound) : InOrder a c ↔ InOrder b c := by
  cases c with
  | none => exact Iff.rfl
  | some c => rw [InOrder, InOrder, Std.TransCmp.congr_left h.1, h.2]

theorem inOrder_iff_of_rel_alike {c d : Option Bound} (h : Option.Rel Alike c d) (a : Bound) :
    InOrder a c ↔ InOrder a d := by
  cases h with
  | none => exact Iff.rfl
  | some h => rw [InOrder, InOrder, Std.TransCmp.congr_right h.1, h.2]

end Bound

namespace VersionRange

open JavaFloor.Bound

theorem isSome_make_iff {floor : Bound} {ceiling : Option Bound} :
    (make floor ceiling).isSome ↔ InOrder floor ceiling := by
  rw [make]
  split <;> simp_all

theorem ends_of_make {floor : Bound} {ceiling : Option Bound} {r : VersionRange}
    (h : make floor ceiling = some r) : r.floor = floor ∧ r.ceiling = ceiling := by
  rw [make] at h
  split at h
  next =>
    cases h
    exact ⟨rfl, rfl⟩
  next => cases h

/-- The range between two bounds has the versions between them. -/
theorem mem_iff_of_make {floor : Bound} {ceiling : Option Bound} {r : VersionRange}
    (h : make floor ceiling = some r) {v : Version} :
    v ∈ r ↔ floor.IsBelow v ∧ ∀ c ∈ ceiling, c.IsAbove v := by
  obtain ⟨hfloor, hceiling⟩ := ends_of_make h
  rw [← hfloor, ← hceiling]
  rfl

/-- Two ranges meet if neither floor is beyond the other's ceiling. -/
theorem isSome_intersect_iff (r s : VersionRange) :
    (r.intersect s).isSome ↔ InOrder r.floor s.ceiling ∧ InOrder s.floor r.ceiling := by
  rw [intersect, isSome_make_iff, inOrder_highest_iff, inOrder_lowest?_iff, inOrder_lowest?_iff]
  simp only [r.inOrder, s.inOrder, true_and, and_true]

end VersionRange

end JavaFloor
