import JavaFloor.Proofs.Resolution.Java
import JavaFloor.Proofs.Resolution.Survivors
import Mathlib.Data.List.Nodup

/-!
# The trail of eliminations

While the table is narrowed, three accounts are kept: the environments left, the eliminations and
the filters of the sources that dropped something. This module compares them with the positions of
sources and environments in their lists, so that nothing hangs on whether a label or the name of a
source occurs twice.

* `DropsFirst table ss i j`: the source at `i` is the first one that does not admit the environment
  at `j` of the table.
* `losses table ss` lists the pairs `(i, j)` of that kind, by source and then by environment
  (`mem_losses_iff`, `pairwise_losses`). Every other position is one of an environment that is left
  (`perm_kept_losses`).
* `Follows` is the invariant of a run. One source keeps it (`Follows.of_absorb`), so a whole run
  does (`Follows.of_foldlM`).
* `resolve_trail`: every environment of the table is either left or lost, once; and eliminations and
  filters are those of the losses.
-/

namespace JavaFloor

namespace Resolution

open SourceRequirement

variable {table : List Environment} {ss front : List SourceRequirement} {s : SourceRequirement}
  {r r' : Resolution}

/-! ## Positions in the table -/

section Placed

variable {α : Type} {p : α → Bool}

theorem mem_take_of_lt {xs : List α} {x : α} {i n : Nat} (h : i < n) (hx : xs[i]? = some x) :
    x ∈ xs.take n :=
  List.mem_of_getElem? ((List.getElem?_take_of_lt h).trans hx)

/-- The members of a list with the property `p`, each with its position. -/
def placed (p : α → Bool) (xs : List α) : List (α × Nat) := xs.zipIdx.filter fun x => p x.1

theorem mem_placed_iff {xs : List α} {x : α × Nat} :
    x ∈ placed p xs ↔ xs[x.2]? = some x.1 ∧ p x.1 = true := by
  rw [placed, List.mem_filter, List.mem_zipIdx_iff_getElem?]

theorem map_fst_placed (p : α → Bool) (xs : List α) :
    (placed p xs).map Prod.fst = xs.filter p := by
  have h := List.filter_map (f := Prod.fst) (p := p) (l := xs.zipIdx)
  rw [List.zipIdx_map_fst] at h
  exact h.symm

/-- Positions come in their order. -/
theorem pairwise_zipIdx (xs : List α) : xs.zipIdx.Pairwise (fun x y => x.2 < y.2) := by
  have h : (xs.zipIdx.map Prod.snd).Pairwise (· < ·) := by
    rw [List.zipIdx_map_snd]
    exact List.pairwise_lt_range'
  exact List.pairwise_map.1 h

theorem pairwise_placed (p : α → Bool) (xs : List α) :
    (placed p xs).Pairwise (fun x y => x.2 < y.2) := (pairwise_zipIdx xs).filter _

end Placed

/-! ## Losses -/

/-- Of the sources that do not admit the environment at `j`, the one at `i` comes first. -/
def DropsFirst (table : List Environment) (ss : List SourceRequirement) (i j : Nat) : Prop :=
  ∃ s e, ss[i]? = some s ∧ table[j]? = some e ∧ (∀ t ∈ ss.take i, t.Admits e) ∧ ¬ s.Admits e

/-- The environments that `s` drops from what the sources `front` have left of the table. -/
def dropped (table : List Environment) (front : List SourceRequirement) (s : SourceRequirement) :
    List (Environment × Nat) :=
  placed (fun e => (∀ t ∈ front, t.Admits e) ∧ ¬ s.Admits e) table

/-- The positions of all environments that are dropped, each behind that of its source. -/
def losses (table : List Environment) (ss : List SourceRequirement) : List (Nat × Nat) :=
  ss.zipIdx.flatMap fun s => (dropped table (ss.take s.2) s.1).map fun e => (s.2, e.2)

theorem mem_dropped_iff {x : Environment × Nat} : x ∈ dropped table front s ↔
    table[x.2]? = some x.1 ∧ (∀ t ∈ front, t.Admits x.1) ∧ ¬ s.Admits x.1 := by
  rw [dropped, mem_placed_iff, decide_eq_true_iff]

theorem mem_losses_iff {i j : Nat} : (i, j) ∈ losses table ss ↔ DropsFirst table ss i j := by
  simp only [losses, DropsFirst, List.mem_flatMap, List.mem_map, List.mem_zipIdx_iff_getElem?,
    mem_dropped_iff]
  constructor
  · rintro ⟨⟨s, _⟩, hs, ⟨e, _⟩, ⟨he, hdrop⟩, heq⟩
    cases heq
    exact ⟨s, e, hs, he, hdrop⟩
  · rintro ⟨s, e, hs, he, hdrop⟩
    exact ⟨(s, i), hs, (e, j), ⟨he, hdrop⟩, rfl⟩

/-- Losses come in the order of the sources and, for one source, in that of the table. -/
theorem pairwise_losses (table : List Environment) (ss : List SourceRequirement) :
    (losses table ss).Pairwise fun x y => x.1 < y.1 ∨ (x.1 = y.1 ∧ x.2 < y.2) := by
  rw [losses, List.pairwise_flatMap]
  constructor
  · intro s _
    rw [List.pairwise_map]
    exact (pairwise_placed _ table).imp fun h => .inr ⟨rfl, h⟩
  · apply (pairwise_zipIdx ss).imp
    intro s t hst x hx y hy
    obtain ⟨_, _, rfl⟩ := List.mem_map.1 hx
    obtain ⟨_, _, rfl⟩ := List.mem_map.1 hy
    exact .inl hst

theorem nodup_losses (table : List Environment) (ss : List SourceRequirement) :
    (losses table ss).Nodup := by
  apply (pairwise_losses table ss).imp
  rintro x _ h rfl
  omega

/-- A further source adds what it drops. -/
theorem losses_concat (table : List Environment) (front : List SourceRequirement)
    (s : SourceRequirement) : losses table (front ++ [s]) =
      losses table front ++ (dropped table front s).map fun e => (front.length, e.2) := by
  rw [losses, losses, List.zipIdx_append, List.flatMap_append]
  congr 1
  · apply List.flatMap_congr
    rintro ⟨t, i⟩ ht
    have hi := (List.getElem?_eq_some_iff.1 (List.mem_zipIdx_iff_getElem?.1 ht)).1
    rw [List.take_append_of_le_length hi.le]
  · simp

/-- No environment is lost twice. -/
theorem nodup_map_snd_losses (table : List Environment) (ss : List SourceRequirement) :
    ((losses table ss).map Prod.snd).Nodup := by
  refine (nodup_losses table ss).map_on ?_
  rintro ⟨i, j⟩ hi ⟨i', _⟩ hi' rfl
  obtain ⟨s, e, hs, he, hothers, hdrop⟩ := mem_losses_iff.1 hi
  obtain ⟨s', e', hs', he', hothers', hdrop'⟩ := mem_losses_iff.1 hi'
  cases he.symm.trans he'
  -- Whichever of the two sources comes later, the earlier one admits the environment.
  rcases Nat.lt_trichotomy i i' with hlt | rfl | hlt
  · exact absurd (hothers' s (mem_take_of_lt hlt hs)) hdrop
  · rfl
  · exact absurd (hothers s' (mem_take_of_lt hlt hs')) hdrop'

/-- An environment that some source does not admit is lost, to the first such source. -/
theorem exists_dropsFirst_iff {e : Environment} {j : Nat} (he : table[j]? = some e) :
    (∃ i, DropsFirst table ss i j) ↔ ∃ s ∈ ss, ¬ s.Admits e := by
  constructor
  · rintro ⟨i, s, e', hs, he', -, hdrop⟩
    cases he.symm.trans he'
    exact ⟨s, List.mem_of_getElem? hs, hdrop⟩
  · intro h
    have hfind : (ss.find? fun s => ¬ s.Admits e).isSome := by simpa using h
    obtain ⟨s, hs⟩ := Option.isSome_iff_exists.1 hfind
    obtain ⟨hdrop, before, after, rfl, hbefore⟩ := List.find?_eq_some_iff_append.1 hs
    refine ⟨before.length, s, e, by simp, he, ?_, by simpa using hdrop⟩
    rw [List.take_left]
    intro t ht
    simpa using hbefore t ht

/-- Every environment is either left or lost, and nothing is counted twice. -/
theorem perm_kept_losses (table : List Environment) (ss : List SourceRequirement) :
    ((placed (fun e => ∀ s ∈ ss, s.Admits e) table).map Prod.snd ++
      (losses table ss).map Prod.snd).Perm (List.range table.length) := by
  have hkept : ∀ j, j ∈ (placed (fun e => ∀ s ∈ ss, s.Admits e) table).map Prod.snd ↔
      ∃ e, table[j]? = some e ∧ ∀ s ∈ ss, s.Admits e := by
    simp [mem_placed_iff]
  have hlost : ∀ j, j ∈ (losses table ss).map Prod.snd ↔ ∃ i, DropsFirst table ss i j := by
    simp [mem_losses_iff]
  have hnodup : ((placed (fun e => ∀ s ∈ ss, s.Admits e) table).map Prod.snd).Nodup :=
    (List.pairwise_map.2 (pairwise_placed _ table)).imp fun h => h.ne
  have hdisjoint : ∀ j, j ∈ (placed (fun e => ∀ s ∈ ss, s.Admits e) table).map Prod.snd →
      j ∉ (losses table ss).map Prod.snd := by
    intro j hj hl
    obtain ⟨e, he, hall⟩ := (hkept j).1 hj
    obtain ⟨s, hs, hdrop⟩ := (exists_dropsFirst_iff he).1 ((hlost j).1 hl)
    exact hdrop (hall s hs)
  rw [List.perm_ext_iff_of_nodup (hnodup.append (nodup_map_snd_losses table ss) hdisjoint)
    List.nodup_range]
  intro j
  rw [List.mem_append, hkept, hlost, List.mem_range]
  constructor
  · rintro (⟨e, he, -⟩ | ⟨i, s, e, -, he, -⟩)
    · exact (List.getElem?_eq_some_iff.1 he).1
    · exact (List.getElem?_eq_some_iff.1 he).1
  · intro hj
    have he : table[j]? = some table[j] := List.getElem?_eq_getElem hj
    by_cases hall : ∀ s ∈ ss, s.Admits table[j]
    · exact .inl ⟨_, he, hall⟩
    · right
      rw [exists_dropsFirst_iff he]
      simpa using hall

/-! ## Accounts of the losses -/

/-- The source at `i` drops an environment. -/
def Drops (table : List Environment) (ss : List SourceRequirement) (i : Nat) : Prop :=
  ∃ j, DropsFirst table ss i j

/-- The elimination tells of a loss: it names the source, the range that this source demands and
the environment. -/
def Tells (table : List Environment) (ss : List SourceRequirement) (loss : Nat × Nat)
    (d : Elimination) : Prop :=
  ∃ s e directive range, ss[loss.1]? = some s ∧ table[loss.2]? = some e ∧
    s.Demands directive range ∧ d = ⟨s.source, range, e.label⟩

/-- `directive` is the filter of the last source of the name `key` that drops an environment. -/
def IsLastDirective (table : List Environment) (ss : List SourceRequirement)
    (key directive : Bytes) : Prop :=
  ∃ i s range, ss[i]? = some s ∧ s.source = key ∧ s.Demands directive range ∧ Drops table ss i ∧
    ∀ k t, i < k → ss[k]? = some t → t.source = key → ¬ Drops table ss k

/-- The accounts of a resolution after the sources `front`. -/
structure Follows (table : List Environment) (front : List SourceRequirement) (r : Resolution) :
    Prop where
  surviving : r.surviving = table.filter fun e => ∀ s ∈ front, s.Admits e
  tells : List.Forall₂ (Tells table front) (losses table front) r.eliminations
  names : ∀ key, (r.directives.find? key).isSome ↔ ∃ d ∈ r.eliminations, d.source = key
  last : ∀ key directive, r.directives.find? key = some directive ↔
    IsLastDirective table front key directive

theorem getElem?_concat_eq_some_iff {i : Nat} {t : SourceRequirement} :
    (front ++ [s])[i]? = some t ↔ front[i]? = some t ∨ (i = front.length ∧ t = s) := by
  rcases Nat.lt_trichotomy i front.length with hlt | rfl | hgt
  · rw [List.getElem?_append_left hlt]
    simp [hlt.ne]
  · simp [eq_comm]
  · have hlength : (front ++ [s]).length ≤ i := by
      rw [List.length_append]
      exact hgt
    rw [List.getElem?_eq_none hlength, List.getElem?_eq_none hgt.le]
    simp [hgt.ne']

theorem drops_concat_iff {i : Nat} : Drops table (front ++ [s]) i ↔
    Drops table front i ∨ (i = front.length ∧ dropped table front s ≠ []) := by
  simp only [Drops, ← mem_losses_iff, losses_concat, List.mem_append, List.mem_map, Prod.mk.injEq,
    exists_or]
  refine or_congr_right ?_
  constructor
  · rintro ⟨_, x, hx, rfl, -⟩
    exact ⟨rfl, List.ne_nil_of_mem hx⟩
  · rintro ⟨rfl, hne⟩
    obtain ⟨x, hx⟩ := List.exists_mem_of_ne_nil _ hne
    exact ⟨x.2, x, hx, rfl, rfl⟩

theorem Drops.lt_length {i : Nat} (h : Drops table front i) : i < front.length := by
  obtain ⟨_, _, _, hs, -⟩ := h
  exact (List.getElem?_eq_some_iff.1 hs).1

theorem Tells.concat {loss : Nat × Nat} {d : Elimination} (h : Tells table front loss d)
    (s : SourceRequirement) : Tells table (front ++ [s]) loss d := by
  obtain ⟨t, e, directive, range, ht, he, hd, rfl⟩ := h
  exact ⟨t, e, directive, range, getElem?_concat_eq_some_iff.2 (.inl ht), he, hd, rfl⟩

/-- A further source that drops something takes the place of those before it with its name. -/
theorem isLastDirective_concat_of_drops (hdrop : dropped table front s ≠ []) {directive : Bytes} :
    IsLastDirective table (front ++ [s]) s.source directive ↔
      ∃ range, s.Demands directive range := by
  constructor
  · rintro ⟨i, t, range, ht, -, hd, -, hlast⟩
    rcases getElem?_concat_eq_some_iff.1 ht with hfront | ⟨-, rfl⟩
    · have hi := (List.getElem?_eq_some_iff.1 hfront).1
      exact absurd (drops_concat_iff.2 (.inr ⟨rfl, hdrop⟩)) (hlast _ s hi (by simp) rfl)
    · exact ⟨range, hd⟩
  · rintro ⟨range, hd⟩
    refine ⟨front.length, s, range, by simp, rfl, hd, drops_concat_iff.2 (.inr ⟨rfl, hdrop⟩), ?_⟩
    intro k t hk ht
    rcases getElem?_concat_eq_some_iff.1 ht with hfront | ⟨rfl, -⟩
    · have := (List.getElem?_eq_some_iff.1 hfront).1
      omega
    · omega

/-- A further source makes no difference to other names, and none at all if it drops nothing. -/
theorem isLastDirective_concat_of_not {key directive : Bytes}
    (h : ¬ (s.source = key ∧ dropped table front s ≠ [])) :
    IsLastDirective table (front ++ [s]) key directive ↔
      IsLastDirective table front key directive := by
  constructor
  · rintro ⟨i, t, range, ht, hkey, hd, hdrop, hlast⟩
    have hi : front[i]? = some t ∧ Drops table front i := by
      rcases getElem?_concat_eq_some_iff.1 ht with hfront | ⟨rfl, rfl⟩
      · rcases drops_concat_iff.1 hdrop with hdrop | ⟨rfl, -⟩
        · exact ⟨hfront, hdrop⟩
        · simp at hfront
      · rcases drops_concat_iff.1 hdrop with hdrop | ⟨-, hne⟩
        · exact absurd hdrop.lt_length (Nat.lt_irrefl _)
        · exact absurd ⟨hkey, hne⟩ h
    refine ⟨i, t, range, hi.1, hkey, hd, hi.2, fun k u hk hu hname hdrop' => ?_⟩
    exact hlast k u hk (getElem?_concat_eq_some_iff.2 (.inl hu)) hname
      (drops_concat_iff.2 (.inl hdrop'))
  · rintro ⟨i, t, range, ht, hkey, hd, hdrop, hlast⟩
    refine ⟨i, t, range, getElem?_concat_eq_some_iff.2 (.inl ht), hkey, hd,
      drops_concat_iff.2 (.inl hdrop), fun k u hk hu hname hdrop' => ?_⟩
    rcases drops_concat_iff.1 hdrop' with hdrop' | ⟨rfl, hne⟩
    · rcases getElem?_concat_eq_some_iff.1 hu with hfront | ⟨rfl, -⟩
      · exact hlast k u hk hfront hname hdrop'
      · exact absurd hdrop'.lt_length (Nat.lt_irrefl _)
    · rcases getElem?_concat_eq_some_iff.1 hu with hfront | ⟨-, rfl⟩
      · simp at hfront
      · exact h ⟨hname, hne⟩

/-! ## One source -/

/-- The environments that a demand does not meet, in the order in which they are recorded. -/
theorem map_fst_dropped {directive : Bytes} {range : VersionRange}
    (hd : s.Demands directive range)
    (hs : r.surviving = table.filter fun e => ∀ t ∈ front, t.Admits e) :
    (dropped table front s).map Prod.fst =
      r.surviving.filter fun e => !meets ⟨s.source, directive, range⟩ e := by
  rw [dropped, map_fst_placed, hs, List.filter_filter]
  apply List.filter_congr
  intro e _
  rw [Bool.eq_iff_iff]
  simp only [decide_eq_true_eq, Bool.and_eq_true, Bool.not_eq_true', admits_iff_of_demands hd e,
    meets, Bool.not_eq_true]
  exact and_comm

theorem narrow_eliminations (r : Resolution) (d : Demand) : (r.narrow d).eliminations =
    r.eliminations ++ (r.surviving.filter fun e => !meets d e).map fun e =>
      ⟨d.source, d.range, e.label⟩ := by
  rw [narrow, List.partition_eq_filter_filter]
  rfl

theorem narrow_directives (r : Resolution) (d : Demand) : (r.narrow d).directives =
    if (r.surviving.filter fun e => !meets d e).isEmpty then r.directives
    else r.directives.insert d.source d.directive := by
  rw [narrow, List.partition_eq_filter_filter]
  rfl

theorem follows_start (table : List Environment) : Follows table [] (start table) where
  surviving := (List.filter_eq_self.2 (by simp)).symm
  tells := .nil
  names key := by simp [start]
  last key directive := by
    refine iff_of_false (by simp [start]) ?_
    rintro ⟨i, s, range, hs, -⟩
    simp at hs

/-- A source that admits what is left adds nothing to the accounts. -/
theorem Follows.of_idle (h : Follows table front r) (hi : s.Idle) :
    Follows table (front ++ [s]) r := by
  have hnil : dropped table front s = [] := by
    rw [List.eq_nil_iff_forall_not_mem]
    intro x hx
    exact (mem_dropped_iff.1 hx).2.2 (admits_of_idle hi _)
  refine ⟨?_, ?_, h.names, ?_⟩
  · rw [h.surviving]
    apply List.filter_congr
    intro e _
    simp [or_imp, forall_and, admits_of_idle hi e]
  · rw [losses_concat, hnil, List.map_nil, List.append_nil]
    exact h.tells.imp fun _ _ ht => ht.concat s
  · intro key directive
    rw [h.last, isLastDirective_concat_of_not]
    exact fun hdrop => hdrop.2 hnil

/-- A source with a demand drops what does not meet it, and enters that into the accounts. -/
theorem Follows.of_demands (h : Follows table front r) {directive : Bytes} {range : VersionRange}
    (hd : s.Demands directive range) :
    Follows table (front ++ [s]) (r.narrow ⟨s.source, directive, range⟩) := by
  have hdropped := map_fst_dropped hd h.surviving
  refine ⟨?_, ?_, fun key => ?_, fun key directive' => ?_⟩
  · rw [narrow_surviving, h.surviving, List.filter_filter]
    apply List.filter_congr
    intro e _
    rw [Bool.eq_iff_iff]
    simp [or_imp, forall_and, meets, admits_iff_of_demands hd e, and_comm]
  · rw [losses_concat, narrow_eliminations, ← hdropped, List.map_map]
    refine List.rel_append (h.tells.imp fun _ _ ht => ht.concat s) ?_
    rw [List.forall₂_map_left_iff, List.forall₂_map_right_iff, List.forall₂_same]
    intro x hx
    exact ⟨s, x.1, directive, range, by simp, (mem_dropped_iff.1 hx).1, hd, rfl⟩
  · rw [narrow_directives, narrow_eliminations, ← hdropped]
    cases hcase : dropped table front s with
    | nil => simpa using h.names key
    | cons x xs =>
      rw [List.map_cons, List.isEmpty_cons, if_neg Bool.false_ne_true, Dict.find?_insert]
      by_cases hkey : key = s.source
      · rw [if_pos hkey]
        exact iff_of_true rfl ⟨⟨s.source, range, x.1.label⟩, by simp, hkey.symm⟩
      · rw [if_neg hkey, h.names]
        simp [or_and_right, exists_or, Ne.symm hkey]
  · rw [narrow_directives, ← hdropped]
    by_cases hnil : dropped table front s = []
    · rw [isLastDirective_concat_of_not fun hdrop => hdrop.2 hnil, ← h.last, hnil]
      rfl
    · have hne : ((dropped table front s).map Prod.fst).isEmpty = false := by simpa using hnil
      rw [hne, if_neg Bool.false_ne_true, Dict.find?_insert]
      by_cases hkey : key = s.source
      · rw [if_pos hkey, hkey, isLastDirective_concat_of_drops hnil, Option.some_inj]
        constructor
        · rintro rfl
          exact ⟨range, hd⟩
        · rintro ⟨range', hd'⟩
          have heq := (demands_iff.1 hd).symm.trans (demands_iff.1 hd')
          cases heq
          rfl
      · rw [if_neg hkey, h.last, isLastDirective_concat_of_not fun hdrop => hkey hdrop.1.symm]

/-- **One source keeps the accounts.** -/
theorem Follows.of_absorb (h : Follows table front r) (hr : r.absorb s = .ok r') :
    Follows table (front ++ [s]) r' := by
  rcases s.demand?_cases with ⟨_, -, hm⟩ | ⟨-, hi⟩ | ⟨directive, range, -, hd⟩
  · obtain ⟨e, he⟩ := absorb_of_malformed (r := r) hm
    rw [he] at hr
    cases hr
  · rw [absorb_of_idle hi] at hr
    cases hr
    exact h.of_idle hi
  · rw [absorb_of_demands hd] at hr
    cases hr
    exact h.of_demands hd

/-! ## A run over the sources -/

/-- **So does a run.** -/
theorem Follows.of_foldlM (h : Follows table front r) (hr : ss.foldlM absorb r = .ok r') :
    Follows table (front ++ ss) r' := by
  induction ss generalizing front r with
  | nil =>
    cases hr
    rwa [List.append_nil]
  | cons s ss ih =>
    rw [List.foldlM_cons] at hr
    obtain ⟨r₁, hr₁, hr⟩ := bind_eq_ok hr
    have hfollows := ih (h.of_absorb hr₁) hr
    rwa [List.append_assoc] at hfollows

/-- Two sources with a demand narrow the table twice. -/
theorem resolve_of_demands {s' : SourceRequirement} {directive directive' : Bytes}
    {range range' : VersionRange} (hd : s.Demands directive range)
    (hd' : s'.Demands directive' range') (table : List Environment) :
    resolve table [s, s'] = .ok (((start table).narrow ⟨s.source, directive, range⟩).narrow
      ⟨s'.source, directive', range'⟩) := by
  rw [resolve, List.foldlM_cons, absorb_of_demands hd]
  change List.foldlM absorb _ [s'] = _
  rw [List.foldlM_cons, absorb_of_demands hd']
  rfl

/-- **Every environment of the table is left or was dropped, once.** The environments left stand at
the positions `kept`, the others in `lost` behind the source that was the first not to admit them.
Eliminations tell of the losses one by one, in the order of the sources and then of the table. The
filters that are kept are those of the sources they name, and of two such sources the later one's
that dropped something. -/
theorem resolve_trail (h : resolve table ss = .ok r) :
    ∃ (kept : List Nat) (lost : List (Nat × Nat)),
      (kept ++ lost.map Prod.snd).Perm (List.range table.length) ∧
      kept.Pairwise (· < ·) ∧ List.Forall₂ (fun j e => table[j]? = some e) kept r.surviving ∧
      lost.Pairwise (fun x y => x.1 < y.1 ∨ (x.1 = y.1 ∧ x.2 < y.2)) ∧
      (∀ i j, (i, j) ∈ lost ↔ DropsFirst table ss i j) ∧
      List.Forall₂ (Tells table ss) lost r.eliminations ∧
      (∀ key, (r.directives.find? key).isSome ↔ ∃ d ∈ r.eliminations, d.source = key) ∧
      ∀ key directive, r.directives.find? key = some directive ↔
        IsLastDirective table ss key directive := by
  have hfollows : Follows table ss r := (follows_start table).of_foldlM h
  refine ⟨_, losses table ss, perm_kept_losses table ss, ?_, ?_, pairwise_losses table ss,
    fun i j => mem_losses_iff, hfollows.tells, hfollows.names, hfollows.last⟩
  · exact List.pairwise_map.2 (pairwise_placed _ table)
  · rw [hfollows.surviving, ← map_fst_placed, List.forall₂_map_left_iff,
      List.forall₂_map_right_iff, List.forall₂_same]
    exact fun x hx => (mem_placed_iff.1 hx).1

/-- Two sources of one name, each of which drops something. -/
theorem resolve_trail_same_name : ∃ r, resolve javaEnvironments
      [⟨ascii "a.jar", javaHeader (.javaRelease 9)⟩,
        ⟨ascii "a.jar", javaHeader (.javaRelease 10)⟩] = .ok r ∧
    r.eliminations.map (fun d => (d.attempted.render, d.label)) =
      [(ascii "1.9", ascii "Java 6"), (ascii "1.9", ascii "Java 7"), (ascii "1.9", ascii "Java 8"),
        (ascii "1.10", ascii "Java 9")] ∧
    r.directives.find? (ascii "a.jar") = some (javaFilter (.javaRelease 10)) := by
  have read : Version.IsRead (.javaRelease 9) ∧ Version.IsRead (.javaRelease 10) := by
    rw [Version.IsRead, Version.IsRead]
    decide +kernel
  have demands := demands_javaHeader read.1 (ascii "a.jar")
  have demands' := demands_javaHeader read.2 (ascii "a.jar")
  have hresolve := resolve_of_demands demands demands' javaEnvironments
  refine ⟨_, hresolve, by decide +kernel, ?_⟩
  -- Java 9 is admitted by the first source and dropped by the second one.
  obtain ⟨e, he⟩ : ∃ e, javaEnvironments[3]? = some e :=
    Option.isSome_iff_exists.1 (by decide +kernel)
  have hmeets : (javaEnvironments[3]?).map (fun e =>
      ((e.range.intersect (.atLeast (.javaRelease 9))).isSome,
        (e.range.intersect (.atLeast (.javaRelease 10))).isSome)) = some (true, false) := by
    decide +kernel
  rw [he, Option.map_some, Option.some_inj, Prod.mk.injEq] at hmeets
  have drops : DropsFirst javaEnvironments [⟨ascii "a.jar", javaHeader (.javaRelease 9)⟩,
      ⟨ascii "a.jar", javaHeader (.javaRelease 10)⟩] 1 3 := by
    refine ⟨_, e, rfl, he, ?_, ?_⟩
    · intro t ht
      rw [List.mem_singleton.1 ht, admits_iff_of_demands demands]
      exact hmeets.1
    · rw [admits_iff_of_demands demands', hmeets.2]
      exact Bool.false_ne_true
  obtain ⟨_, _, -, -, -, -, -, -, -, hlast⟩ := resolve_trail hresolve
  refine (hlast _ _).2 ⟨1, _, _, rfl, rfl, demands', ⟨3, drops⟩, ?_⟩
  intro k t hk ht
  have hlength := (List.getElem?_eq_some_iff.1 ht).1
  simp at hlength
  omega

end Resolution

end JavaFloor
