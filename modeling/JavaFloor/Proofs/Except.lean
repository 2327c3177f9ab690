import Mathlib.Data.List.Forall2

/-!
# Steps that may fail

Readers are chained, and each may fail. These lemmas say what it takes for a chain to succeed, and
that it does not matter at which link an error is told in other words. `Except.Rel` compares two
chains that both fail or both succeed, and `Except.rel_foldlM` two runs step by step.
-/

namespace JavaFloor

variable {ε ε' α β : Type} {x : Except ε α} {a : α} {b : β}

instance decidableExistsOk (x : Except ε α) : Decidable (∃ a, x = .ok a) :=
  match x with
  | .ok a => .isTrue ⟨a, rfl⟩
  | .error _ => .isFalse nofun

/-- It makes no difference whether a value is changed before or after an error is told in other
words. -/
theorem mapError_map (f : ε → ε') (g : α → β) (x : Except ε α) :
    (x.map g).mapError f = (x.mapError f).map g := by
  cases x <;> rfl

theorem mapError_id (x : Except ε α) : x.mapError id = x := by cases x <;> rfl

/-- An error that would be told in the same words. -/
theorem mapError_eq_self {f : ε → ε} (h : ∀ e, x = .error e → f e = e) : x.mapError f = x := by
  cases x with
  | error e => exact congrArg _ (h e rfl)
  | ok a => rfl

/-- A value that was changed was there. -/
theorem map_eq_ok {g : α → β} (h : x.map g = .ok b) : ∃ a, x = .ok a ∧ g a = b := by
  cases x with
  | error e => cases h
  | ok a => exact ⟨a, rfl, by simpa [Except.map] using h⟩

/-- If two steps succeed, so does each. -/
theorem bind_eq_ok {g : α → Except ε β} (h : x >>= g = .ok b) : ∃ a, x = .ok a ∧ g a = .ok b := by
  cases x with
  | error e => cases h
  | ok a => exact ⟨a, rfl, h⟩

/-- What never succeeds fails. -/
theorem exists_error_of_forall_ne (h : ∀ a, x ≠ .ok a) : ∃ e, x = .error e := by
  cases x with
  | error e => exact ⟨e, rfl⟩
  | ok a => exact absurd rfl (h a)

/-- A change of values makes no errors. -/
theorem map_eq_error {g : α → β} {e : ε} (h : x.map g = .error e) : x = .error e := by
  cases x with
  | error e' => exact congrArg _ (Except.error.inj h)
  | ok a => cases h

/-- If one of two steps fails, it is the first or the second. -/
theorem bind_eq_error {g : α → Except ε β} {e : ε} (h : x.bind g = .error e) :
    x = .error e ∨ ∃ a, x = .ok a ∧ g a = .error e := by
  cases x with
  | error e' => exact .inl (congrArg _ (Except.error.inj h))
  | ok a => exact .inr ⟨a, rfl, h⟩

/-- If one of many steps fails, it is one of them that does. -/
theorem exists_of_mapM_eq_error {g : α → Except ε β} {xs : List α} {e : ε}
    (h : xs.mapM g = .error e) : ∃ a ∈ xs, g a = .error e := by
  induction xs with
  | nil => cases h
  | cons a xs ih =>
    rw [List.mapM_cons] at h
    rcases bind_eq_error h with ha | ⟨b, -, hxs⟩
    · exact ⟨a, List.mem_cons_self, ha⟩
    · rcases bind_eq_error hxs with hxs | ⟨bs, -, hbs⟩
      · obtain ⟨a', ha', hfails⟩ := ih hxs
        exact ⟨a', List.mem_cons_of_mem _ ha', hfails⟩
      · cases hbs

/-- An error that is told in other words is an error still. -/
theorem mapError_eq_ok_iff {g : ε → ε'} : x.mapError g = .ok a ↔ x = .ok a := by
  cases x with
  | error e => exact iff_of_false nofun nofun
  | ok b => exact ⟨fun h => by cases h; rfl, fun h => by cases h; rfl⟩

/-- It is the one that was told before. -/
theorem mapError_eq_error {g : ε → ε'} {e : ε'} (h : x.mapError g = .error e) :
    ∃ e', x = .error e' ∧ g e' = e := by
  cases x with
  | error e' => exact ⟨e', rfl, Except.error.inj h⟩
  | ok a => cases h

/-! ## Two chains -/

namespace Except

/-- Both steps fail, with errors that are related by `E`, or both succeed, with values that are
related by `R`. -/
inductive Rel (E : ε → ε → Prop) (R : α → α → Prop) : Except ε α → Except ε α → Prop
  | error {e e' : ε} : E e e' → Rel E R (.error e) (.error e')
  | ok {a a' : α} : R a a' → Rel E R (.ok a) (.ok a')

variable {E : ε → ε → Prop} {E' : ε' → ε' → Prop} {R : α → α → Prop} {S : β → β → Prop}
  {x' : Except ε α}

theorem Rel.refl (he : ∀ e, E e e) (ha : ∀ a, R a a) (x : Except ε α) : Rel E R x x := by
  cases x with
  | error e => exact .error (he e)
  | ok a => exact .ok (ha a)

theorem Rel.mono {T : α → α → Prop} (h : Rel E R x x') (hR : ∀ {a a'}, R a a' → T a a') :
    Rel E T x x' := by
  cases h with
  | error he => exact .error he
  | ok ha => exact .ok (hR ha)

theorem Rel.mapError {g g' : ε → ε'} (h : Rel E R x x')
    (hg : ∀ {e e'}, E e e' → E' (g e) (g' e')) :
    Rel E' R (x.mapError g) (x'.mapError g') := by
  cases h with
  | error he => exact .error (hg he)
  | ok ha => exact .ok ha

theorem Rel.bind {g g' : α → Except ε β} (h : Rel E R x x')
    (hg : ∀ {a a'}, R a a' → Rel E S (g a) (g' a')) : Rel E S (x >>= g) (x' >>= g') := by
  cases h with
  | error he => exact .error he
  | ok ha => exact hg ha

/-- Runs over related lists are related if each of their steps is. -/
theorem rel_foldlM {γ : Type} {T : γ → γ → Prop} {step : α → γ → Except ε α} {cs cs' : List γ}
    (hstep : ∀ a a' c c', R a a' → T c c' → Rel E R (step a c) (step a' c')) {a a' : α}
    (ha : R a a') (h : List.Forall₂ T cs cs') :
    Rel E R (cs.foldlM step a) (cs'.foldlM step a') := by
  induction h generalizing a a' with
  | nil => exact .ok ha
  | cons hc _ ih =>
    rw [List.foldlM_cons, List.foldlM_cons]
    exact (hstep _ _ _ _ ha hc).bind ih

end Except

end JavaFloor
