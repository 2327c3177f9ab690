import JavaFloor.Version

/-!
# The order of versions

`Version.compare` goes through four parts, so it inherits from their orders that it is transitive
and that swapping its arguments swaps its outcome. It is no order of versions in the strict sense,
as versions that compare equal may keep different texts: they agree in the four parts
(`Version.compare_eq_iff`) and compare alike with all others (`Version.compare_congr`). The lowest
version is `0.0.0`.
-/

namespace JavaFloor

namespace Version

/-- Comparison is that of the four parts, one after another. -/
theorem compare_eq_compareLex :
    Version.compare = compareLex (compareOn Version.major) (compareLex (compareOn Version.minor)
      (compareLex (compareOn Version.micro) (compareOn Version.qualifier))) :=
  rfl

instance : Std.TransCmp Version.compare := by
  rw [compare_eq_compareLex]
  infer_instance

@[simp]
theorem compare_self (v : Version) : v.compare v = .eq := Std.ReflCmp.compare_self

theorem not_isLE_iff {a b : Version} : ¬ (a.compare b).isLE ↔ b.compare a = .lt :=
  ⟨Std.OrientedCmp.lt_of_not_isLE, Std.OrientedCmp.not_isLE_of_lt⟩

theorem compare_swap (a b : Version) : b.compare a = (a.compare b).swap := Std.OrientedCmp.eq_swap

theorem isLE_total (a b : Version) : (a.compare b).isLE ∨ (b.compare a).isLE := by
  rw [compare_swap a b]
  cases a.compare b <;> simp

/-- Versions compare equal if they are equal up to their texts. -/
theorem compare_eq_iff {a b : Version} : a.compare b = .eq ↔
    a.major = b.major ∧ a.minor = b.minor ∧ a.micro = b.micro ∧ a.qualifier = b.qualifier := by
  simp only [compare, Ordering.then_eq_eq, Std.LawfulEqOrd.compare_eq_iff_eq]

/-- Either of two versions may be replaced by one that compares equal. -/
theorem compare_congr {a a' b b' : Version} (ha : a.compare a' = .eq) (hb : b.compare b' = .eq) :
    a.compare b = a'.compare b' :=
  (Std.TransCmp.congr_left ha).trans (Std.TransCmp.congr_right hb)

/-- The lowest version is `0.0.0`. -/
theorem compare_zero_isLE (v : Version) : (zero.compare v).isLE := by
  have number (n : UInt32) : (Ord.compare 0 n).isLE := Std.isLE_compare.2 (UInt32.zero_le)
  have both : ∀ {a b : Ordering}, a.isLE → b.isLE → (a.then b).isLE := by decide
  exact both (number _) (both (number _) (both (number _) List.isLE_compareLex_nil_left))

end Version

end JavaFloor
