import JavaFloor.Proofs.Except
import JavaFloor.Resolution

/-!
# What a single source asks for

A requirement header is read through three parsers, each with its own way to fail. This module says
what comes of it without reference to the order of the steps:

* `SourceRequirement.Malformed` holds of a header that does not parse, or whose filter on the
  execution environment does not parse, or whose filter asks for a range that does not parse;
* `SourceRequirement.Demands` holds of a header whose filter asks for Java in a range of versions;
* a header of neither kind is `SourceRequirement.Idle`.

`malformed_iff` and `demands_iff` tie the two to `demand?`, so that every header is of exactly one
kind (`demand?_cases`).
-/

namespace JavaFloor

namespace SourceRequirement

/-- `directive` is the filter of the first clause on the execution environment. -/
def IsDirective (clauses : List Clause) (directive : Bytes) : Prop :=
  ∃ before c after, clauses = before ++ c :: after ∧
    (∀ b ∈ before, b.name ≠ environmentNamespace) ∧ c.name = environmentNamespace ∧
    c.directives.find? (ascii "filter") = some directive

/-- The filter asks for Java, in the versions that `text` tells. -/
def AsksFor (f : Filter) (text : Bytes) : Prop :=
  f.flatten.find? environmentNamespace = some javaSE ∧ f.flatten.find? versionKey = some text

/-- The source cannot be read. -/
inductive Malformed (s : SourceRequirement) : Prop
  | header {e : HeaderError} (unread : Clause.parseHeader s.header = .error e)
  | filter {clauses : List Clause} {directive : Bytes} {e : FilterError}
      (read : Clause.parseHeader s.header = .ok clauses) (first : IsDirective clauses directive)
      (unread : Filter.parse directive = .error e)
  | range {clauses : List Clause} {directive : Bytes} {f : Filter} {text : Bytes}
      {e : QuotedRangeError} (read : Clause.parseHeader s.header = .ok clauses)
      (first : IsDirective clauses directive) (filter : Filter.parse directive = .ok f)
      (asks : AsksFor f text) (unread : VersionRange.parseQuoted text = .error e)

/-- The source qualifies: its filter `directive` asks for Java in the versions of `range`. -/
inductive Demands (s : SourceRequirement) (directive : Bytes) (range : VersionRange) : Prop
  | intro {clauses : List Clause} {f : Filter} {text : Bytes}
      (read : Clause.parseHeader s.header = .ok clauses) (first : IsDirective clauses directive)
      (filter : Filter.parse directive = .ok f) (asks : AsksFor f text)
      (range : VersionRange.parseQuoted text = .ok range)

/-- The source can be read and does not qualify. -/
def Idle (s : SourceRequirement) : Prop :=
  ¬ s.Malformed ∧ ∀ directive range, ¬ s.Demands directive range

/-! ## The steps of reading -/

theorem directive?_eq_some_iff {clauses : List Clause} {directive : Bytes} :
    directive? clauses = some directive ↔ IsDirective clauses directive := by
  constructor
  · intro h
    obtain ⟨c, hc, hd⟩ := Option.bind_eq_some_iff.1 h
    obtain ⟨hname, before, after, rfl, hbefore⟩ := List.find?_eq_some_iff_append.1 hc
    exact ⟨before, c, after, rfl, fun b hb => by simpa using hbefore b hb, by simpa using hname, hd⟩
  · rintro ⟨before, c, after, rfl, hbefore, hname, hd⟩
    refine Option.bind_eq_some_iff.2 ⟨c, ?_, hd⟩
    exact List.find?_eq_some_iff_append.2
      ⟨by simpa using hname, before, after, rfl, fun b hb => by simpa using hbefore b hb⟩

theorem versionText?_eq_some_iff {f : Filter} {text : Bytes} :
    versionText? f = some text ↔ AsksFor f text := by
  rw [versionText?, AsksFor]
  split
  next hjava => simp [hjava]
  next hjava => simp [hjava]

/-- What a filter directive makes of its source. -/
theorem demandOf?_eq {source directive : Bytes} {f : Filter} {text : Bytes}
    (hf : Filter.parse directive = .ok f) (ht : AsksFor f text) :
    demandOf? source directive =
      match VersionRange.parseQuoted text with
      | .error e => .error (.range e)
      | .ok range => .ok (some ⟨source, directive, range⟩) := by
  cases hr : VersionRange.parseQuoted text <;>
    simp [demandOf?, hf, versionText?_eq_some_iff.2 ht, hr]

/-- What a header makes of its source. -/
theorem demand?_eq {s : SourceRequirement} {clauses : List Clause} {directive : Bytes}
    (hc : Clause.parseHeader s.header = .ok clauses) (hd : IsDirective clauses directive) :
    s.demand? = (demandOf? s.source directive).mapError (⟨s.source, ·⟩) := by
  simp [demand?, hc, directive?_eq_some_iff.2 hd]

/-! ## The three kinds of sources -/

theorem Malformed.demand?_eq_error {s : SourceRequirement} (h : s.Malformed) :
    ∃ e, s.demand? = .error e := by
  cases h with
  | header unread => exact ⟨_, by rw [demand?, unread]⟩
  | filter read first unread =>
    exact ⟨_, by rw [demand?_eq read first, demandOf?, unread]; rfl⟩
  | range read first filter asks unread =>
    exact ⟨_, by rw [demand?_eq read first, demandOf?_eq filter asks, unread]; rfl⟩

theorem Demands.demand?_eq_some {s : SourceRequirement} {directive : Bytes} {range : VersionRange}
    (h : s.Demands directive range) : s.demand? = .ok (some ⟨s.source, directive, range⟩) := by
  cases h with
  | intro read first filter asks range =>
    rw [demand?_eq read first, demandOf?_eq filter asks, range]
    rfl

theorem Demands.not_malformed {s : SourceRequirement} {directive : Bytes} {range : VersionRange}
    (h : s.Demands directive range) : ¬ s.Malformed := fun hm => by
  obtain ⟨e, he⟩ := hm.demand?_eq_error
  rw [h.demand?_eq_some] at he
  cases he

/-- **Every source is malformed, idle or qualifies**, and `demand?` tells which. -/
theorem demand?_cases (s : SourceRequirement) :
    (∃ e, s.demand? = .error e ∧ s.Malformed) ∨
      (s.demand? = .ok none ∧ s.Idle) ∨
      ∃ directive range, s.demand? = .ok (some ⟨s.source, directive, range⟩) ∧
        s.Demands directive range := by
  -- What is read as `none` is idle, as the other two kinds are read as something else.
  have idle : s.demand? = .ok none → s.Idle := fun h =>
    ⟨fun hm => by obtain ⟨e, he⟩ := hm.demand?_eq_error; simp [h] at he,
      fun _ _ hd => by have := hd.demand?_eq_some; simp [h] at this⟩
  cases hc : Clause.parseHeader s.header with
  | error e => exact .inl ⟨_, by rw [demand?, hc], .header hc⟩
  | ok clauses =>
    cases hd : directive? clauses with
    | none =>
      have h : s.demand? = .ok none := by simp [demand?, hc, hd]
      exact .inr (.inl ⟨h, idle h⟩)
    | some directive =>
      have first := directive?_eq_some_iff.1 hd
      have step := demand?_eq hc first
      cases hf : Filter.parse directive with
      | error e => exact .inl ⟨_, by rw [step, demandOf?, hf]; rfl, .filter hc first hf⟩
      | ok f =>
        cases ht : versionText? f with
        | none =>
          have h : s.demand? = .ok none := by
            rw [step, mapError_eq_ok_iff]
            simp [demandOf?, hf, ht]
          exact .inr (.inl ⟨h, idle h⟩)
        | some text =>
          have asks := versionText?_eq_some_iff.1 ht
          cases hr : VersionRange.parseQuoted text with
          | error e =>
            exact .inl ⟨_, by rw [step, demandOf?_eq hf asks, hr]; rfl, .range hc first hf asks hr⟩
          | ok range =>
            exact .inr (.inr ⟨directive, range, by rw [step, demandOf?_eq hf asks, hr]; rfl,
              .intro hc first hf asks hr⟩)

theorem malformed_iff {s : SourceRequirement} : s.Malformed ↔ ∃ e, s.demand? = .error e := by
  refine ⟨Malformed.demand?_eq_error, fun ⟨e, he⟩ => ?_⟩
  rcases s.demand?_cases with ⟨_, -, h⟩ | ⟨h, -⟩ | ⟨_, _, h, -⟩
  · exact h
  · simp [he] at h
  · simp [he] at h

theorem demands_iff {s : SourceRequirement} {directive : Bytes} {range : VersionRange} :
    s.Demands directive range ↔ s.demand? = .ok (some ⟨s.source, directive, range⟩) := by
  refine ⟨Demands.demand?_eq_some, fun hd => ?_⟩
  rcases s.demand?_cases with ⟨_, h, -⟩ | ⟨h, -⟩ | ⟨_, _, h, demands⟩
  · simp [hd] at h
  · simp [hd] at h
  · rw [hd] at h
    cases h
    exact demands

theorem idle_iff {s : SourceRequirement} : s.Idle ↔ s.demand? = .ok none := by
  constructor
  · rintro ⟨hm, hd⟩
    rcases s.demand?_cases with ⟨_, -, h⟩ | ⟨h, -⟩ | ⟨_, _, -, h⟩
    · exact absurd h hm
    · exact h
    · exact absurd h (hd _ _)
  · intro h
    rcases s.demand?_cases with ⟨_, he, -⟩ | ⟨-, idle⟩ | ⟨_, _, hs, -⟩
    · simp [h] at he
    · exact idle
    · simp [h] at hs

end SourceRequirement

end JavaFloor
