import JavaFloor.Proofs.Feature.Modes

/-!
# Updates are atomic

An update reads an archive that may be broken anywhere and resolves requirements that may be
malformed or in conflict. However it fails, the feature stays what it was, name and Java
requirement alike; and whether it succeeds and what it publishes depends on the archive and the
scratch space alone, not on the feature (`publication?`).

* `UpdateCall.feature_of_fails` and `UpdateCall.java_of_succeeds` say what one call does to a
  feature.
* `UpdateCall.java_of_run` follows a feature through any sequence of calls: after every one of them
  its Java requirement is that of the last call that succeeded.
-/

namespace JavaFloor

/-- A call for an update: the archives there are at that time, and what the call is given. -/
structure UpdateCall where
  library : Library
  options : ExtractionOptions
  table : List Environment
  path : Bytes

/-- What calls act on: a feature and the scratch space. -/
structure UpdateState where
  feature : Feature
  scratch : Scratch

namespace UpdateCall

/-- What a call answers in a state. -/
def outcome (c : UpdateCall) (s : UpdateState) : Except UpdateError Unit :=
  (s.feature.update c.library c.options c.table c.path s.scratch).1

/-- The state that a call leaves. -/
def after (c : UpdateCall) (s : UpdateState) : UpdateState :=
  let left := (s.feature.update c.library c.options c.table c.path s.scratch).2
  ⟨left.1, left.2⟩

/-- The state that a sequence of calls leaves. -/
def run (s : UpdateState) (calls : List UpdateCall) : UpdateState :=
  calls.foldl (fun s c => c.after s) s

/-- The call answers with an error. -/
def Fails (c : UpdateCall) (s : UpdateState) : Prop := ∃ e, c.outcome s = .error e

/-- The Java requirement that a resolution leads to. It is missing if the resolution is a
conflict. -/
def requirement? (r : Resolution) : Option JavaRequirement :=
  if r.isConflict then none
  else some ⟨r.minimumVersion, none, if r.directives.isEmpty then none else some r.directives⟩

/-- What a call publishes, whatever the feature: the Java requirement that the sources collected
from the archive lead to. -/
def publication? (c : UpdateCall) (scratch : Scratch) : Option JavaRequirement :=
  match (Feature.collectAt c.library c.options c.path scratch).1 with
  | .error _ => none
  | .ok collected => (Resolution.resolve c.table collected.requirements).toOption.bind requirement?

/-! ## One call -/

/-- What a call does: it publishes and succeeds, or it fails and changes nothing. -/
theorem publication?_cases (c : UpdateCall) (s : UpdateState) :
    (c.publication? s.scratch = none ∧ c.Fails s ∧ (c.after s).feature = s.feature) ∨
      ∃ j, c.publication? s.scratch = some j ∧ c.outcome s = .ok () ∧
        (c.after s).feature.java = some j := by
  simp only [publication?, Fails, outcome, after, Feature.update]
  rcases Feature.collectAt c.library c.options c.path s.scratch with ⟨e | collected, scratch⟩
  · exact .inl ⟨rfl, ⟨_, rfl⟩, rfl⟩
  · simp only [Feature.resolved]
    cases hr : Resolution.resolve c.table collected.requirements with
    | error e => exact .inl ⟨rfl, ⟨_, rfl⟩, rfl⟩
    | ok r =>
      simp only [Except.toOption, Option.bind_some, requirement?]
      by_cases hc : r.isConflict
      · exact .inl ⟨if_pos hc, ⟨_, by rw [if_pos hc]⟩, by rw [if_pos hc]⟩
      · exact .inr ⟨_, if_neg hc, by rw [if_neg hc], by rw [if_neg hc]; rfl⟩

theorem fails_iff {c : UpdateCall} {s : UpdateState} :
    c.Fails s ↔ c.publication? s.scratch = none := by
  rcases c.publication?_cases s with ⟨hp, hf, -⟩ | ⟨j, hp, ho, -⟩
  · exact iff_of_true hf hp
  · exact iff_of_false (fun ⟨e, he⟩ => by simp [ho] at he) (by simp [hp])

/-- A call that fails leaves the feature as it was. -/
theorem feature_of_fails {c : UpdateCall} {s : UpdateState} (h : c.Fails s) :
    (c.after s).feature = s.feature := by
  rcases c.publication?_cases s with ⟨-, -, hs⟩ | ⟨j, hp, -, -⟩
  · exact hs
  · simp [fails_iff.1 h] at hp

/-- A call that does not fail replaces the Java requirement by what it publishes. -/
theorem java_of_succeeds {c : UpdateCall} {s : UpdateState} (h : ¬ c.Fails s) :
    (c.after s).feature.java = c.publication? s.scratch := by
  rcases c.publication?_cases s with ⟨-, hf, -⟩ | ⟨j, hp, -, hj⟩
  · exact absurd hf h
  · rw [hj, hp]

/-! ## Sequences of calls -/

@[simp]
theorem run_nil (s : UpdateState) : run s [] = s := rfl

@[simp]
theorem run_append (s : UpdateState) (cs ds : List UpdateCall) :
    run s (cs ++ ds) = run (run s cs) ds := List.foldl_append

@[simp]
theorem run_cons (s : UpdateState) (c : UpdateCall) (cs : List UpdateCall) :
    run s (c :: cs) = run (c.after s) cs := rfl

/-- All calls of a sequence fail. -/
def AllFail (s : UpdateState) (calls : List UpdateCall) : Prop :=
  ∀ before c behind, calls = before ++ c :: behind → c.Fails (run s before)

theorem allFail_cons {s : UpdateState} {c : UpdateCall} {cs : List UpdateCall} (hc : c.Fails s)
    (hcs : AllFail (c.after s) cs) : AllFail s (c :: cs) := by
  rintro (_ | ⟨b, before⟩) d behind h
  · obtain ⟨rfl, -⟩ := List.cons.inj h
    exact hc
  · obtain ⟨rfl, htail⟩ := List.cons.inj h
    exact hcs before d behind htail

/-- Either all calls fail and the feature is what it was, or there is a last one that succeeds, and
the Java requirement is what that one published. -/
theorem run_cases (s : UpdateState) (calls : List UpdateCall) :
    (AllFail s calls ∧ (run s calls).feature = s.feature) ∨
      ∃ before c behind, calls = before ++ c :: behind ∧ ¬ c.Fails (run s before) ∧
        AllFail (run s (before ++ [c])) behind ∧
        (run s calls).feature.java = c.publication? (run s before).scratch := by
  induction calls generalizing s with
  | nil => exact .inl ⟨fun _ _ _ h => by simp at h, rfl⟩
  | cons c cs ih =>
    rcases ih (c.after s) with ⟨hall, hf⟩ | ⟨before, d, behind, rfl, hd, hall, hj⟩
    · by_cases hc : c.Fails s
      · exact .inl ⟨allFail_cons hc hall, by rw [run_cons, hf, feature_of_fails hc]⟩
      · refine .inr ⟨[], c, cs, rfl, hc, hall, ?_⟩
        rw [run_cons, hf, java_of_succeeds hc]
        rfl
    · exact .inr ⟨c :: before, d, behind, rfl, hd, hall, hj⟩

/-- **Updates are atomic.** In any sequence of calls, a call that fails leaves the feature exactly
as it was, its name and its Java requirement. And after the whole sequence, hence after each part of
it, the Java requirement is the one that the last successful call published, or the initial one if
no call succeeded. What a call publishes does not depend on the feature. -/
theorem java_of_run (s : UpdateState) (calls : List UpdateCall) :
    (∀ before c behind, calls = before ++ c :: behind → c.Fails (run s before) →
      (run s (before ++ [c])).feature = (run s before).feature) ∧
    ((AllFail s calls ∧ (run s calls).feature.java = s.feature.java) ∨
      ∃ before c behind, calls = before ++ c :: behind ∧ ¬ c.Fails (run s before) ∧
        AllFail (run s (before ++ [c])) behind ∧
        (run s calls).feature.java = c.publication? (run s before).scratch) := by
  refine ⟨fun before c behind _ hc => ?_, ?_⟩
  · rw [run_append, run_cons, run_nil, feature_of_fails hc]
  · rcases run_cases s calls with ⟨hall, hf⟩ | h
    · exact .inl ⟨hall, by rw [hf]⟩
    · exact .inr h

/-- An archive without entries asks for nothing, and a later call at a path where there is no
archive leaves what the first one published. -/
theorem java_of_run_empty_then_missing :
    ∃ (s : UpdateState) (empty missing : UpdateCall), ¬ empty.Fails s ∧
      missing.Fails (empty.after s) ∧
      (run s [empty, missing]).feature.java = some ⟨ascii "1.6", none, none⟩ := by
  let call (path : Bytes) : UpdateCall :=
    ⟨.ofTables [([], .entries [])] [(ascii "a.esa", [])], .standard, javaEnvironments, path⟩
  have empty : ∀ scratch, (call (ascii "a.esa")).publication? scratch =
      some ⟨ascii "1.6", none, none⟩ := by
    intro scratch
    have hcollect : Feature.collectAt (call (ascii "a.esa")).library .standard (ascii "a.esa")
        scratch = (.ok ⟨[], none, 0⟩, scratch) := by
      rw [Feature.collectAt_eq]
      exact Collection.collectFrom_nil
    rw [publication?, hcollect]
    rfl
  have missing : ∀ scratch, (call (ascii "b.esa")).publication? scratch = none := by
    intro scratch
    have hcollect : ∃ e, (Feature.collectAt (call (ascii "b.esa")).library .standard (ascii "b.esa")
        scratch).1 = .error e := ⟨_, rfl⟩
    obtain ⟨e, he⟩ := hcollect
    rw [publication?, he]
  let s : UpdateState := ⟨.unknown, .ofTree ⟨[], [], []⟩⟩
  have hempty : ¬ (call (ascii "a.esa")).Fails s := by
    rw [fails_iff, empty]
    exact Option.some_ne_none _
  refine ⟨s, call (ascii "a.esa"), call (ascii "b.esa"), hempty, fails_iff.2 (missing _), ?_⟩
  rcases (java_of_run s [call (ascii "a.esa"), call (ascii "b.esa")]).2 with
    ⟨hall, -⟩ | ⟨before, c, behind, hcalls, hc, -, hjava⟩
  · exact absurd (hall [] _ _ rfl) hempty
  · rw [hjava]
    rcases before with _ | ⟨_, _ | ⟨_, _⟩⟩
    · cases hcalls
      exact empty _
    · cases hcalls
      exact absurd (fails_iff.2 (missing _)) hc
    · simp at hcalls

end UpdateCall

end JavaFloor
