import JavaFloor.Proofs.Dict
import JavaFloor.Proofs.Resolution.Trail

/-!
# How a resolution ends

A resolution fails, is a conflict or leaves environments. What is told of it in each of these cases
is said here of the sources.

* `IsFirstMalformed ss s`: of the sources `ss` the first one that cannot be read is `s`. A
  resolution that fails tells what is wrong with that one (`isFirstMalformed_of_resolve`).
* `TellsAll table ss ds`: the eliminations `ds` tell, one by one, of the whole table. Those of a
  conflict do (`tellsAll_of_isConflict`).
* `eliminations_eq_nil_iff`, `directives_isEmpty_iff`: there are none if every source admits every
  environment.
-/

namespace JavaFloor

/-- What is said of a source that cannot be read names it. -/
theorem SourceRequirement.source_of_demand?_eq_error {s : SourceRequirement}
    {e : MalformedRequirement} (h : s.demand? = .error e) : e.source = s.source := by
  rw [demand?] at h
  split at h
  next => cases h; rfl
  next =>
    split at h
    next => cases h
    next directive _ =>
      cases hd : demandOf? s.source directive with
      | error fault => rw [hd] at h; cases h; rfl
      | ok d => rw [hd] at h; cases h

namespace Resolution

open SourceRequirement

variable {table : List Environment} {ss : List SourceRequirement} {s : SourceRequirement}
  {r : Resolution} {e : MalformedRequirement}

/-! ## Sources that cannot be read -/

/-- Of the sources `ss` the first one that cannot be read is `s`. -/
def IsFirstMalformed (ss : List SourceRequirement) (s : SourceRequirement) : Prop :=
  ∃ before after, ss = before ++ s :: after ∧ s.Malformed ∧ ∀ t ∈ before, ¬ t.Malformed

/-- A run over the sources fails at the first one that cannot be read. -/
theorem isFirstMalformed_of_foldlM_absorb (h : ss.foldlM absorb r = .error e) :
    ∃ s, IsFirstMalformed ss s ∧ s.demand? = .error e := by
  induction ss generalizing r with
  | nil => cases h
  | cons s ss ih =>
    rw [List.foldlM_cons] at h
    by_cases hm : s.Malformed
    · obtain ⟨e', he'⟩ := malformed_iff.1 hm
      rw [absorb, he'] at h
      obtain rfl : e' = e := Except.error.inj h
      exact ⟨s, ⟨[], ss, rfl, hm, by simp⟩, he'⟩
    · obtain ⟨r', hr', -⟩ := absorb_of_not_malformed r hm
      rw [hr'] at h
      obtain ⟨t, ⟨before, after, rfl, ht, hbefore⟩, he⟩ := ih h
      exact ⟨t, ⟨s :: before, after, rfl, ht, List.forall_mem_cons.2 ⟨hm, hbefore⟩⟩, he⟩

/-- **A resolution that fails tells of the first source that cannot be read.** -/
theorem isFirstMalformed_of_resolve (h : resolve table ss = .error e) :
    ∃ s, IsFirstMalformed ss s ∧ e.source = s.source := by
  obtain ⟨s, hs, he⟩ := isFirstMalformed_of_foldlM_absorb h
  exact ⟨s, hs, source_of_demand?_eq_error he⟩

/-! ## Accounts of a resolution -/

theorem follows_of_resolve (h : resolve table ss = .ok r) : Follows table ss r :=
  (follows_start table).of_foldlM h

/-- No environment is dropped if every source admits every one. -/
theorem losses_eq_nil_iff :
    losses table ss = [] ↔ ∀ e ∈ table, ∀ s ∈ ss, s.Admits e := by
  have hlength := (perm_kept_losses table ss).length_eq
  have hkept := congrArg List.length (map_fst_placed (fun e => ∀ s ∈ ss, s.Admits e) table)
  have hall : (table.filter fun e => ∀ s ∈ ss, s.Admits e).length = table.length ↔
      ∀ e ∈ table, ∀ s ∈ ss, s.Admits e := by
    simp only [List.length_filter_eq_length_iff, decide_eq_true_iff]
  rw [List.length_append, List.length_map, List.length_map, List.length_range] at hlength
  rw [List.length_map] at hkept
  rw [← hall, ← List.length_eq_zero_iff]
  omega

theorem eliminations_eq_nil_iff (h : resolve table ss = .ok r) :
    r.eliminations = [] ↔ ∀ e ∈ table, ∀ s ∈ ss, s.Admits e := by
  rw [← losses_eq_nil_iff, ← List.length_eq_zero_iff, ← List.length_eq_zero_iff,
    (follows_of_resolve h).tells.length_eq]

/-- The filters that are kept are those of the sources that dropped something. -/
theorem directives_isEmpty_iff (h : resolve table ss = .ok r) :
    r.directives.isEmpty = true ↔ ∀ e ∈ table, ∀ s ∈ ss, s.Admits e := by
  rw [← eliminations_eq_nil_iff h, Dict.isEmpty_iff_find?, List.eq_nil_iff_forall_not_mem]
  have hnames := (follows_of_resolve h).names
  constructor
  · intro hnone d hd
    have hsome := (hnames d.source).2 ⟨d, hd, rfl⟩
    simp [hnone] at hsome
  · intro hnone key
    rw [Option.eq_none_iff_forall_ne_some]
    intro directive hkey
    obtain ⟨d, hd, -⟩ := (hnames key).1 (Option.isSome_of_eq_some hkey)
    exact hnone d hd

/-- The eliminations tell of the whole table: of every environment once, in the order of the sources
that drop them and then of the table. -/
def TellsAll (table : List Environment) (ss : List SourceRequirement) (ds : List Elimination) :
    Prop :=
  ∃ lost : List (Nat × Nat), lost.Pairwise (fun x y => x.1 < y.1 ∨ (x.1 = y.1 ∧ x.2 < y.2)) ∧
    (∀ i j, (i, j) ∈ lost ↔ DropsFirst table ss i j) ∧
    (lost.map Prod.snd).Perm (List.range table.length) ∧ List.Forall₂ (Tells table ss) lost ds

/-- **The eliminations of a conflict tell of the whole table.** -/
theorem tellsAll_of_isConflict (h : resolve table ss = .ok r) (hc : r.isConflict = true) :
    TellsAll table ss r.eliminations := by
  have hfollows := follows_of_resolve h
  refine ⟨losses table ss, pairwise_losses table ss, fun i j => mem_losses_iff, ?_, hfollows.tells⟩
  have hnone : placed (fun e => ∀ s ∈ ss, s.Admits e) table = [] := by
    rw [← List.map_eq_nil_iff, map_fst_placed, ← hfollows.surviving]
    exact List.isEmpty_iff.1 hc
  have hperm := perm_kept_losses table ss
  rwa [hnone, List.map_nil, List.nil_append] at hperm

end Resolution

end JavaFloor
