import JavaFloor.Proofs.Resolution.Java
import JavaFloor.Proofs.Resolution.Trail
import Mathlib.Data.List.Chain

/-!
# Publishing the lowest version only

What is left of a table is published as one version, the ceiling of the first environment left. This
says enough if each environment of the table runs whatever the one before it runs.

* `VersionRange.Within r s`: intersecting `r` with `s` gives back the bounds of `r`. Then what meets
  `r` meets `s` as well (`VersionRange.Within.isSome_intersect`), and `s` ends no lower than `r`
  (`VersionRange.Within.endsBy`).
* In a table that is `Nested` in this way every source admits all environments from some position
  on. So the environments left are the last ones of the table, and their ceilings rise
  (`Resolution.surviving_of_nested`, `Resolution.pairwise_endsBy`).
* `Resolution.minimum_of_nested` puts this together: what the published version says of the
  environments, and what further sources do to it.
-/

namespace JavaFloor

/-! ## Ranges within ranges -/

namespace VersionRange

open JavaFloor.Bound

/-- Intersecting `r` with `s` gives back the bounds of `r`. -/
def Within (r s : VersionRange) : Prop :=
  ∃ t ∈ r.intersect s, t.floor.Alike r.floor ∧ Option.Rel Alike t.ceiling r.ceiling

/-- `r` ends no later than `s`. -/
def EndsBy (r s : VersionRange) : Prop :=
  ∀ d ∈ s.ceiling, ∃ c ∈ r.ceiling, (c.version.compare d.version).isLE

instance (r s : VersionRange) : Decidable (r.Within s) := inferInstanceAs (Decidable (∃ _ ∈ _, _))

instance : Trans EndsBy EndsBy EndsBy where
  trans {r s t} h h' := by
    intro e he
    obtain ⟨d, hd, hde⟩ := h' e he
    obtain ⟨c, hc, hcd⟩ := h d hd
    exact ⟨c, hc, Std.TransCmp.isLE_trans hcd hde⟩

variable {r s : VersionRange}

/-- What meets a range also meets a range that the former is within. -/
theorem Within.isSome_intersect (h : r.Within s) {q : VersionRange}
    (hq : (r.intersect q).isSome) : (s.intersect q).isSome := by
  obtain ⟨t, ht, hfloor, hceiling⟩ := h
  obtain ⟨htfloor, htceiling⟩ := ends_of_make ht
  rw [isSome_intersect_iff] at hq ⊢
  constructor
  · have hboth : InOrder (r.floor.highest s.floor) q.ceiling :=
      htfloor ▸ (hfloor.inOrder_iff q.ceiling).2 hq.1
    exact (inOrder_highest_iff.1 hboth).2
  · have hboth : InOrder q.floor (lowest? r.ceiling s.ceiling) :=
      htceiling ▸ (inOrder_iff_of_rel_alike hceiling q.floor).2 hq.2
    exact ((inOrder_lowest?_iff _ _).1 hboth).2

theorem Within.endsBy (h : r.Within s) : r.EndsBy s := by
  obtain ⟨t, ht, -, hceiling⟩ := h
  intro d hd
  rw [(ends_of_make ht).2, Option.mem_def.1 hd] at hceiling
  cases hc : r.ceiling with
  | none =>
    rw [hc] at hceiling
    cases hceiling
  | some c =>
    rw [hc, lowest?] at hceiling
    cases hceiling with
    | some hlow =>
      have hle := (isLowest_lowest c d).isLE d (by simp)
      exact ⟨c, rfl, by rwa [Std.TransCmp.congr_left hlow.1] at hle⟩

end VersionRange

/-! ## Nested tables -/

/-- The range of each environment is within that of the next one. -/
def Nested (table : List Environment) : Prop :=
  table.IsChain fun d e => d.range.Within e.range

/-- Every environment of the table has a ceiling. -/
def HasCeilings (table : List Environment) : Prop := ∀ e ∈ table, e.range.ceiling.isSome

instance (table : List Environment) : Decidable (Nested table) :=
  inferInstanceAs (Decidable (List.IsChain _ _))

instance (table : List Environment) : Decidable (HasCeilings table) :=
  inferInstanceAs (Decidable (∀ _ ∈ _, _))

/-- The elements that have a property which none loses to the next are all those from the first of
them on. -/
theorem filter_eq_dropWhile_of_isChain {α : Type} {p : α → Bool} {xs : List α}
    (h : xs.IsChain fun x y => p x → p y) : xs.filter p = xs.dropWhile (! p ·) := by
  induction xs with
  | nil => rfl
  | cons x xs ih =>
    by_cases hx : p x = true
    · rw [List.dropWhile_cons_of_neg (by simp [hx]), List.filter_eq_self]
      exact h.induction (p · = true) _ (fun _ _ hxy => hxy) fun _ => hx
    · rw [List.dropWhile_cons_of_pos (by simp [hx]), List.filter_cons_of_neg hx, ih h.tail]

namespace Resolution

open SourceRequirement

variable {table : List Environment} {ss ss' : List SourceRequirement} {r r' : Resolution}

/-- The version that is published, unless there is a conflict. -/
def minimum? (r : Resolution) : Option Version :=
  r.surviving.head?.map fun e => (e.range.ceiling.getD e.range.floor).version

theorem minimumVersion_eq (r : Resolution) :
    r.minimumVersion = r.minimum?.elim [] Version.text := by
  rw [minimumVersion, minimum?]
  cases r.surviving <;> rfl

theorem isConflict_iff (r : Resolution) : r.isConflict = true ↔ r.minimum? = none := by
  rw [isConflict, minimum?]
  cases r.surviving <;> simp

/-- Of a nested table the last environments are left, and some source drops each of the others. -/
theorem surviving_of_nested (hn : Nested table) (h : resolve table ss = .ok r) :
    ∃ front, table = front ++ r.surviving ∧ (∀ e ∈ r.surviving, ∀ s ∈ ss, s.Admits e) ∧
      ∀ e ∈ front, ∃ s ∈ ss, ¬ s.Admits e := by
  have hsurviving : r.surviving = table.filter fun e => ∀ s ∈ ss, s.Admits e :=
    surviving_of_foldlM_absorb h
  have hkeeps : table.IsChain fun d e =>
      decide (∀ s ∈ ss, s.Admits d) = true → decide (∀ s ∈ ss, s.Admits e) = true := by
    refine hn.imp fun d e hde hd => ?_
    rw [decide_eq_true_iff] at hd ⊢
    exact fun s hs directive range hdem => hde.isSome_intersect (hd s hs directive range hdem)
  refine ⟨table.takeWhile fun e => ! decide (∀ s ∈ ss, s.Admits e), ?_, ?_, ?_⟩
  · rw [hsurviving, filter_eq_dropWhile_of_isChain hkeeps, List.takeWhile_append_dropWhile]
  · intro e he
    rw [hsurviving] at he
    exact of_decide_eq_true (List.mem_filter.1 he).2
  · intro e he
    simpa using List.mem_takeWhile_imp he

/-- More sources leave the last of the environments that fewer of them leave. -/
theorem suffix_of_subset (hn : Nested table) (h : resolve table ss = .ok r)
    (h' : resolve table ss' = .ok r') (hsub : ss ⊆ ss') : r'.surviving <:+ r.surviving := by
  obtain ⟨front, htable, -⟩ := surviving_of_nested hn h
  obtain ⟨front', htable', -⟩ := surviving_of_nested hn h'
  have hsublist : r'.surviving.Sublist r.surviving := by
    rw [surviving_of_foldlM_absorb h, surviving_of_foldlM_absorb h']
    refine List.monotone_filter_right _ fun e he => ?_
    rw [decide_eq_true_iff] at he ⊢
    exact fun s hs => he s (hsub hs)
  exact List.suffix_of_suffix_length_le ⟨front', htable'.symm⟩ ⟨front, htable.symm⟩
    hsublist.length_le

/-- The ceilings of a nested table rise. -/
theorem pairwise_endsBy (hn : Nested table) :
    table.Pairwise fun d e => d.range.EndsBy e.range := by
  have hchain : (table.map Environment.range).IsChain VersionRange.EndsBy :=
    (List.isChain_map _).2 (hn.imp fun _ _ h => h.endsBy)
  exact List.pairwise_map.1 hchain.pairwise

/-- What is published is the ceiling of the first environment left. -/
theorem exists_of_mem_minimum? (hc : HasCeilings r.surviving) {m : Version} (hm : m ∈ r.minimum?) :
    ∃ e rest c, r.surviving = e :: rest ∧ c ∈ e.range.ceiling ∧ c.version = m := by
  cases hs : r.surviving with
  | nil => simp [minimum?, hs] at hm
  | cons e rest =>
    obtain ⟨c, hec⟩ := Option.isSome_iff_exists.1 (hc e (hs ▸ List.mem_cons_self))
    refine ⟨e, rest, c, rfl, hec, ?_⟩
    simpa [minimum?, hs, hec] using hm

/-- No environment left ends below the published version. -/
theorem isLE_of_mem_surviving (hp : r.surviving.Pairwise fun d e => d.range.EndsBy e.range)
    (hc : HasCeilings r.surviving) {m : Version} (hm : m ∈ r.minimum?) {e : Environment}
    (he : e ∈ r.surviving) {c : Bound} (hec : c ∈ e.range.ceiling) :
    (m.compare c.version).isLE := by
  obtain ⟨d, rest, b, hs, hdb, rfl⟩ := exists_of_mem_minimum? hc hm
  rw [hs] at hp he
  rcases List.mem_cons.1 he with rfl | he
  · cases Option.mem_unique hdb hec
    simp
  · obtain ⟨b', hdb', hle⟩ := (List.pairwise_cons.1 hp).1 e he c hec
    cases Option.mem_unique hdb hdb'
    exact hle

/-- Where fewer environments are left, the published version is no lower. -/
theorem isLE_of_suffix (hp : r.surviving.Pairwise fun d e => d.range.EndsBy e.range)
    (hc : HasCeilings r.surviving) (hsuffix : r'.surviving <:+ r.surviving) {m' : Version}
    (hm' : m' ∈ r'.minimum?) : ∃ m ∈ r.minimum?, (m.compare m').isLE := by
  obtain ⟨e, rest, c, hs', hec, rfl⟩ :=
    exists_of_mem_minimum? (fun d hd => hc d (hsuffix.subset hd)) hm'
  have he : e ∈ r.surviving := hsuffix.subset (hs' ▸ List.mem_cons_self)
  obtain ⟨m, hm⟩ : ∃ m, r.minimum? = some m := by
    cases hs : r.surviving with
    | nil => simp [hs] at he
    | cons d rest => simp [minimum?, hs]
  exact ⟨m, hm, isLE_of_mem_surviving hp hc hm he hec⟩

/-- **Publishing the lowest version is enough for a nested table**, such as that of Java 6 to 11.

The environments left are the last ones of the table: every source admits each of them, and some
source drops each of the others. So if all environments have ceilings, the published version says
which are left: those from the one that ends there on. They end there or later, and every
environment that ends later is one of them. Further sources that can be read, wherever they stand,
leave the last ones of these in turn, and what is published then is no lower, unless there is a
conflict. -/
theorem minimum_of_nested :
    (Nested javaEnvironments ∧ HasCeilings javaEnvironments) ∧
    ∀ (table : List Environment) (ss : List SourceRequirement) (r : Resolution),
      Nested table → resolve table ss = .ok r →
      (∃ front, table = front ++ r.surviving ∧ (∀ e ∈ r.surviving, ∀ s ∈ ss, s.Admits e) ∧
        ∀ e ∈ front, ∃ s ∈ ss, ¬ s.Admits e) ∧
      (HasCeilings table → ∀ m ∈ r.minimum?, r.minimumVersion = m.text ∧
        (∃ e ∈ r.surviving.head?, ∃ c ∈ e.range.ceiling, c.version = m) ∧
        (∀ e ∈ r.surviving, ∀ c ∈ e.range.ceiling, (m.compare c.version).isLE) ∧
        ∀ e ∈ table, ∀ c ∈ e.range.ceiling, m.compare c.version = .lt →
          e ∈ r.surviving ∧ ∀ s ∈ ss, s.Admits e) ∧
      ∀ ss', ss.Sublist ss' → (∀ s ∈ ss', s ∈ ss ∨ ¬ s.Malformed) →
        ∃ r', resolve table ss' = .ok r' ∧ r'.surviving <:+ r.surviving ∧
          (HasCeilings table → r'.isConflict = true ∨
            ∃ m ∈ r.minimum?, ∃ m' ∈ r'.minimum?, r.minimumVersion = m.text ∧
              r'.minimumVersion = m'.text ∧ (m.compare m').isLE) := by
  refine ⟨by decide +kernel, fun table ss r hn h => ?_⟩
  obtain ⟨front, htable, hadmits, hdrops⟩ := surviving_of_nested hn h
  have hrise : (front ++ r.surviving).Pairwise fun d e => d.range.EndsBy e.range :=
    htable ▸ pairwise_endsBy hn
  obtain ⟨-, hrises, hacross⟩ := List.pairwise_append.1 hrise
  have hceilings : HasCeilings table → HasCeilings r.surviving := fun hc e he =>
    hc e (htable ▸ List.mem_append_right front he)
  refine ⟨⟨front, htable, hadmits, hdrops⟩, fun hc m hm => ?_, fun ss' hsub hread => ?_⟩
  · obtain ⟨e, rest, c, hs, hec, hcm⟩ := exists_of_mem_minimum? (hceilings hc) hm
    refine ⟨by rw [minimumVersion_eq, Option.mem_def.1 hm]; rfl, ⟨e, by simp [hs], c, hec, hcm⟩,
      fun d hd b hb => isLE_of_mem_surviving hrises (hceilings hc) hm hd hb, ?_⟩
    intro d hd b hdb hlt
    suffices d ∈ r.surviving from ⟨this, hadmits d this⟩
    rcases List.mem_append.1 (htable ▸ hd) with hd | hd
    · -- an environment before those left ends no later than the first of them
      obtain ⟨b', hdb', hle⟩ := hacross d hd e (by simp [hs]) c hec
      cases Option.mem_unique hdb hdb'
      rw [hcm] at hle
      exact absurd hle (Version.not_isLE_iff.2 hlt)
    · exact hd
  · have hall : ∀ s ∈ ss', ¬ s.Malformed := fun s hs =>
      (hread s hs).elim (not_malformed_of_resolve h s) id
    obtain ⟨r', hr', hsurviving'⟩ := exists_resolve_eq_ok table hall
    have hsuffix : r'.surviving <:+ r.surviving :=
      suffix_of_subset hn h hr' hsub.subset
    refine ⟨r', hr', hsuffix, fun hc => ?_⟩
    rcases hm' : r'.minimum? with _ | m'
    · exact .inl (r'.isConflict_iff.2 hm')
    · right
      obtain ⟨m, hm, hle⟩ := isLE_of_suffix hrises (hceilings hc) hsuffix hm'
      refine ⟨m, hm, m', rfl, ?_, ?_, hle⟩
      · rw [minimumVersion_eq, Option.mem_def.1 hm]
        rfl
      · rw [minimumVersion_eq, hm']
        rfl

/-- A source that asks for Java 8, and then one in front of it that asks for Java 10. -/
theorem minimum_of_nested_java : ∃ r r',
    resolve javaEnvironments [⟨ascii "a.jar", javaHeader (.javaRelease 8)⟩] = .ok r ∧
    r.surviving.map (·.label) =
      [ascii "Java 8", ascii "Java 9", ascii "Java 10", ascii "Java 11"] ∧
    r.minimumVersion = ascii "1.8" ∧
    resolve javaEnvironments [⟨ascii "b.jar", javaHeader (.javaRelease 10)⟩,
      ⟨ascii "a.jar", javaHeader (.javaRelease 8)⟩] = .ok r' ∧
    r'.surviving <:+ r.surviving ∧ r'.minimumVersion = ascii "1.10" ∧
    (r'.isConflict = true ∨ ∃ m m' : Version, r.minimumVersion = m.text ∧
      r'.minimumVersion = m'.text ∧ (m.compare m').isLE) := by
  have read : Version.IsRead (.javaRelease 8) ∧ Version.IsRead (.javaRelease 10) := by
    rw [Version.IsRead, Version.IsRead]
    decide +kernel
  have demands := demands_javaHeader read.1 (ascii "a.jar")
  have demands' := demands_javaHeader read.2 (ascii "b.jar")
  have hresolve : resolve javaEnvironments [⟨ascii "a.jar", javaHeader (.javaRelease 8)⟩] =
      .ok ((start javaEnvironments).narrow
        ⟨ascii "a.jar", javaFilter (.javaRelease 8), .atLeast (.javaRelease 8)⟩) := by
    rw [resolve, List.foldlM_cons, absorb_of_demands demands]
    rfl
  have hresolve' := resolve_of_demands demands' demands javaEnvironments
  obtain ⟨⟨hn, hc⟩, hall⟩ := minimum_of_nested
  obtain ⟨-, -, hmore⟩ := hall javaEnvironments _ _ hn hresolve
  obtain ⟨r', hr', hsuffix, hle⟩ := hmore
    [⟨ascii "b.jar", javaHeader (.javaRelease 10)⟩, ⟨ascii "a.jar", javaHeader (.javaRelease 8)⟩]
    (List.sublist_cons_self _ _)
    (List.forall_mem_cons.2 ⟨.inr demands'.not_malformed, fun s hs => .inl hs⟩)
  obtain rfl : _ = r' := Except.ok.inj (hresolve'.symm.trans hr')
  refine ⟨_, _, hresolve, by decide +kernel, by decide +kernel, hr', hsuffix, by decide +kernel, ?_⟩
  rcases hle hc with hconflict | ⟨m, -, m', -, hm, hm', hle⟩
  · exact .inl hconflict
  · exact .inr ⟨m, m', hm, hm', hle⟩

end Resolution

end JavaFloor
