import JavaFloor.Archive.Session
import JavaFloor.Proofs.Archive.Stops
import Mathlib.Data.List.Induction

/-!
# What a session yields

Operations on a walk come in any order and number: it may be opened again, left in the middle of an
entry, read after an entry is finished, or asked for entries behind a broken header. Whatever is
done, the entries that it yields come from one archive and in its order.

* `Session.opened?` is the archive that a run walks over, `Session.yields` what it yields.
* `Session.step_cases` says what one operation can do to what lies ahead of a walk: nothing, or it
  opens an archive, or it goes on by one stretch.
* `Behind` relates what a walk has yielded to what lies ahead of it, and `Tracks.step` says that
  every operation keeps it so.
* `Session.step_of_isRefusal`: an operation that is refused leaves the session as it is.
* `Session.yields_of_run` puts this together for a whole run.
-/

namespace JavaFloor

namespace WalkReply

/-- The entry that an answer yields. -/
def feature? : WalkReply → Option FeatureEntry
  | .yielded (.ok f) => f
  | _ => none

/-- The operation was not performed: an archive is open already, or none is, or the current entry is
not finished, or there is none. -/
def IsRefusal : WalkReply → Prop
  | .done (.error (.alreadyOpen _)) | .done (.error .noEntry) => True
  | .yielded (.error .notOpen) | .yielded (.error .entryOpen) => True
  | _ => False

end WalkReply

/-- The entries of the archive that an operation opens, unless one is open already. -/
def WalkOp.opens? (lib : Library) : WalkOp → Option (List Entry)
  | .openPath named =>
    match lib.openPath named with
    | .entries es => some es
    | .noHandle | .unreadable _ => none
  | _ => none

/-- What a walk goes on with: the entries to come, whether a subsystem manifest was seen, and
whether the end was told. -/
def Walk.ahead (w : Walk) : Option (Bool × List Entry × Bool) :=
  w.position.map fun p => (p.manifestSeen, p.upcoming, p.ended)

namespace Walk

theorem inEntry_eq_true {w : Walk} :
    w.inEntry = true ↔ ∃ p, w.position = some p ∧ p.inEntry = true := by
  obtain ⟨path, _ | p⟩ := w <;> simp [inEntry]

/-- What is done to the current entry changes nothing ahead of it. -/
@[simp]
theorem ahead_skip (w : Walk) : w.skip.2.ahead = w.ahead := by
  obtain ⟨path, _ | p⟩ := w
  · rfl
  · simp only [skip]
    split
    · split <;> rfl
    · rfl

@[simp]
theorem ahead_read (w : Walk) (room : Nat) : (w.read room).2.ahead = w.ahead := by
  obtain ⟨path, _ | p⟩ := w
  · rfl
  · simp only [read]
    split
    · split <;> rfl
    · rfl

end Walk

namespace Session

variable {lib : Library} {s : Session}

/-- The entries of the first archive that a run opens. -/
def opened? (lib : Library) (ops : List WalkOp) : Option (List Entry) :=
  ops.findSome? (WalkOp.opens? lib)

/-- The session that a run leaves. -/
def after (lib : Library) (ops : List WalkOp) : Session := (start.run lib ops).2

/-- The entries that a run yields. -/
def yields (lib : Library) (ops : List WalkOp) : List FeatureEntry :=
  (start.run lib ops).1.filterMap WalkReply.feature?

/-- A run was told the end of its archive. -/
def EndTold (lib : Library) (ops : List WalkOp) : Prop :=
  .yielded (.ok none) ∈ (start.run lib ops).1

/-! ## One operation -/

/-- **What an operation can do**: it changes nothing ahead and tells nothing, or it opens an
archive, or it goes on from outside of an entry. -/
theorem step_cases (lib : Library) (s : Session) (op : WalkOp) :
    ((s.step lib op).2.walk.ahead = s.walk.ahead ∧ (∀ f?, (s.step lib op).1 ≠ .yielded (.ok f?)) ∧
      (s.walk.ahead = none → op.opens? lib = none)) ∨
    (∃ es, op.opens? lib = some es ∧ s.walk.ahead = none ∧
      (∀ f?, (s.step lib op).1 ≠ .yielded (.ok f?)) ∧
      (s.step lib op).2.walk.ahead = some (false, es, false)) ∨
    (∃ p, op = .next ∧ s.walk.position = some p ∧ p.inEntry = false ∧
      (s.step lib op).1 = .yielded (p.advance lib s.walk.path).1 ∧
      (s.step lib op).2.walk.position = some (p.advance lib s.walk.path).2) := by
  obtain ⟨⟨path, position⟩, mayRead⟩ := s
  cases op with
  | openPath named =>
    cases position with
    | some p => exact .inl ⟨rfl, nofun, nofun⟩
    | none =>
      cases hlib : lib.openPath named with
      | noHandle | unreadable =>
        exact .inl (by simp [step, Walk.openPath, hlib, WalkOp.opens?, Walk.ahead])
      | entries es => exact .inr (.inl ⟨es, by simp [step, Walk.openPath, hlib, WalkOp.opens?,
          Walk.ahead, Position.start]⟩)
  | next =>
    cases position with
    | none => exact .inl ⟨rfl, nofun, fun _ => rfl⟩
    | some p =>
      cases hin : p.inEntry with
      | true => exact .inl (by simp [step, Walk.next, hin, WalkOp.opens?])
      | false =>
        refine .inr (.inr ⟨p, rfl, rfl, hin, ?_, ?_⟩)
        all_goals simp only [step, Walk.next, hin, Bool.false_eq_true, if_false]
  | openEntry => exact .inl ⟨rfl, nofun, fun _ => rfl⟩
  | skip => exact .inl ⟨Walk.ahead_skip _, nofun, fun _ => rfl⟩
  | path => exact .inl ⟨rfl, nofun, fun _ => rfl⟩
  | total =>
    refine .inl ⟨rfl, ?_, fun _ => rfl⟩
    cases mayRead <;> exact nofun
  | read room =>
    cases mayRead with
    | false => exact .inl ⟨rfl, nofun, fun _ => rfl⟩
    | true => exact .inl ⟨Walk.ahead_read _ room, nofun, fun _ => rfl⟩

/-- An answer that tells nothing of the archive yields nothing. -/
theorem feature?_of_ne {reply : WalkReply} (h : ∀ f?, reply ≠ .yielded (.ok f?)) :
    reply.feature? = none := by
  cases reply with
  | yielded outcome =>
    cases outcome with
    | error e => rfl
    | ok f? => exact absurd rfl (h f?)
  | done | path | total | bytes | noReader => rfl

/-- No failure of a stretch is a refusal. -/
theorem not_isRefusal_seek (path : Bytes) (seen : Bool) (es : List Entry) :
    ¬ (WalkReply.yielded (Position.seek path seen es).1).IsRefusal := by
  induction es with
  | nil => exact id
  | cons e es ih =>
    rw [Position.seek]
    split
    · exact id
    · exact id
    · exact id
    all_goals
      split
      · exact id
      · split
        · exact id
        · exact ih

theorem not_isRefusal_advance (lib : Library) (path : Bytes) (p : Position) :
    ¬ (WalkReply.yielded (p.advance lib path).1).IsRefusal := by
  rcases p.advance_eq_or lib path with heq | ⟨reason, -, -, heq⟩
  · rw [heq]
    exact not_isRefusal_seek path p.manifestSeen p.upcoming
  · rw [heq]
    exact id

/-- Nothing ahead hinders the walk, and with the stops ahead the entries `ys` that were yielded are
all the stops of an archive. -/
structure OnCourse (es : List Entry) (ys : List FeatureEntry) (seen : Bool)
    (ahead : List Entry) : Prop where
  free : Walk.IsUnhinderedAfter seen ahead
  stops : (Walk.stops es).map Entry.feature =
    ys ++ (Walk.stopsAfter seen ahead).map Entry.feature

/-- How the entries `ys` that were yielded from an archive relate to those ahead. -/
structure Behind (es : List Entry) (ys : List FeatureEntry) (seen : Bool)
    (ahead : List Entry) : Prop where
  /-- They were left behind, each once and in the order of the archive. -/
  sublist : ∃ front, es = front ++ ahead ∧
    ys.Sublist ((front.filter Entry.isCandidate).map Entry.feature)
  /-- The subsystem manifest is among them if and only if it was seen. -/
  count : ys.countP (·.kind == .subsystemManifest) = if seen then 1 else 0
  onCourse : Walk.IsUnhindered es → OnCourse es ys seen ahead

variable {es ahead : List Entry} {ys : List FeatureEntry} {seen : Bool}

/-- A stretch of the walk that nothing hinders yields the next stop. -/
theorem OnCourse.seek (h : OnCourse es ys seen ahead) (path : Bytes) :
    OnCourse es (ys ++ (WalkReply.yielded (Position.seek path seen ahead).1).feature?.toList)
      (Position.seek path seen ahead).2.manifestSeen
      (Position.seek path seen ahead).2.upcoming := by
  obtain ⟨houtcome, htail, hrest⟩ := Position.seek_of_isUnhindered path h.free
  refine ⟨hrest, ?_⟩
  rw [h.stops, houtcome, htail, List.append_assoc]
  cases Walk.stopsAfter seen ahead with
  | nil => rfl
  | cons e rest => rfl

theorem behind_start (es : List Entry) : Behind es [] false es where
  sublist := ⟨[], rfl, List.nil_sublist _⟩
  count := rfl
  onCourse h := ⟨Walk.isUnhinderedAfter_false.2 h, rfl⟩

/-- To go on takes what is yielded from ahead to behind. -/
theorem Behind.advance {p : Position} (h : Behind es ys p.manifestSeen p.upcoming)
    (hin : p.inEntry = false) (lib : Library) (path : Bytes) :
    Behind es (ys ++ (WalkReply.yielded (p.advance lib path).1).feature?.toList)
      (p.advance lib path).2.manifestSeen (p.advance lib path).2.upcoming := by
  have honCourse : Walk.IsUnhindered es →
      OnCourse es (ys ++ (WalkReply.yielded (p.advance lib path).1).feature?.toList)
        (p.advance lib path).2.manifestSeen (p.advance lib path).2.upcoming := by
    intro hfree
    rcases p.advance_eq_or lib path with heq | ⟨reason, -, -, heq⟩
    · rw [heq]
      exact (h.onCourse hfree).seek path
    · rw [heq]
      simpa [WalkReply.feature?] using h.onCourse hfree
  obtain ⟨⟨front, rfl, hsublist⟩, hcount, -⟩ := h
  rcases Position.advance_cases lib path hin with
    ⟨passed, e, behind, kind, hahead, hkind, hyields⟩ | ⟨hreply, ⟨passed, hpassed⟩, hseen, -⟩
  · refine ⟨⟨front ++ (passed ++ [e]), by rw [hyields, hahead]; simp, ?_⟩, ?_, honCourse⟩
    · have hlast : [e.feature].Sublist (((passed ++ [e]).filter Entry.isCandidate).map
          Entry.feature) := by
        simp [Entry.isCandidate_of_kind? hkind]
      rw [hyields, List.filter_append, List.map_append]
      exact hsublist.append hlast
    · rw [hyields, Entry.feature_of_kind? hkind]
      cases kind with
      | component => simpa [WalkReply.feature?] using hcount
      | subsystemManifest =>
        have hunseen := (Entry.kind?_eq_subsystemManifest_iff.1 hkind).2
        rw [hunseen] at hcount
        simpa [WalkReply.feature?] using hcount
  · have hnone : (WalkReply.yielded (p.advance lib path).1).feature? = none := by
      rcases hout : (p.advance lib path).1 with error | _ | f
      · rfl
      · rfl
      · exact absurd hout (hreply f)
    rw [hnone, Option.toList_none, List.append_nil] at honCourse ⊢
    refine ⟨⟨front ++ passed, ?_, ?_⟩, by rw [hseen]; exact hcount, honCourse⟩
    · rw [List.append_assoc, ← hpassed]
    · rw [List.filter_append, List.map_append]
      exact hsublist.trans (List.sublist_append_left _ _)

/-! ## Runs -/

/-- What a run has yielded belongs to the archive that it opened, if it opened one, and it was told
the end only if nothing is ahead. -/
inductive Tracks (lib : Library) (ops : List WalkOp) (ys : List FeatureEntry) (told : Prop) :
    Option (Bool × List Entry × Bool) → Prop
  | closed (hopened : opened? lib ops = none) (hys : ys = []) (htold : ¬ told) :
      Tracks lib ops ys told none
  | inside {es ahead : List Entry} {seen ended : Bool} (hopened : opened? lib ops = some es)
      (behind : Behind es ys seen ahead) (htold : ended = true ↔ told)
      (hend : ended = true → ahead = []) : Tracks lib ops ys told (some (seen, ahead, ended))

theorem opened?_concat (lib : Library) (ops : List WalkOp) (op : WalkOp) :
    opened? lib (ops ++ [op]) = (opened? lib ops).or (op.opens? lib) := by
  rw [opened?, List.findSome?_append, List.findSome?_singleton]
  rfl

/-- The end is told by going on, and remembered. -/
theorem ended_advance {p : Position} (hend : p.ended = true → p.upcoming = []) (lib : Library)
    (path : Bytes) :
    ((p.advance lib path).2.ended = true ↔
      p.ended = true ∨ (p.advance lib path).1 = .ok none) ∧
    ((p.advance lib path).2.ended = true → (p.advance lib path).2.upcoming = []) := by
  rcases p.advance_eq_or lib path with heq | ⟨reason, hended, -, heq⟩
  · rw [heq]
    obtain ⟨htold, hnil⟩ := Position.ended_seek path p.manifestSeen p.upcoming
    refine ⟨htold.trans ⟨.inr, ?_⟩, hnil⟩
    rintro (hended | hreply)
    · rw [hend hended]
      rfl
    · exact hreply
  · rw [heq]
    exact ⟨iff_of_true hended (.inl hended), hend⟩

/-- **Every operation keeps track of the archive.** -/
theorem Tracks.step {ops : List WalkOp} {told : Prop} (h : Tracks lib ops ys told s.walk.ahead)
    (op : WalkOp) :
    Tracks lib (ops ++ [op]) (ys ++ (s.step lib op).1.feature?.toList)
      (told ∨ (s.step lib op).1 = .yielded (.ok none)) (s.step lib op).2.walk.ahead := by
  rcases step_cases lib s op with
    ⟨hahead, htells, hopens⟩ | ⟨es, hopens, hclosed, htells, hahead⟩ |
    ⟨p, rfl, hposition, hin, hreply, hleft⟩
  · rw [hahead, feature?_of_ne htells, Option.toList_none, List.append_nil,
      or_iff_left (htells none)]
    generalize s.walk.ahead = state at h hopens ⊢
    cases h with
    | closed hopened hys htold =>
      exact .closed (by rw [opened?_concat, hopened, hopens rfl, Option.or_none]) hys htold
    | inside hopened behind htold hend =>
      exact .inside (by rw [opened?_concat, hopened, Option.some_or]) behind htold hend
  · rw [hclosed] at h
    cases h with
    | closed hopened hys htold =>
      rw [hahead, feature?_of_ne htells, hys, or_iff_left (htells none)]
      exact .inside (by rw [opened?_concat, hopened, hopens, Option.none_or]) (behind_start es)
        (iff_of_false nofun htold) nofun
  · have hstate : s.walk.ahead = some (p.manifestSeen, p.upcoming, p.ended) := by
      rw [Walk.ahead, hposition, Option.map_some]
    rw [hstate] at h
    cases h with
    | inside hopened behind htold hend =>
      obtain ⟨hended, hnil⟩ := ended_advance hend lib s.walk.path
      rw [Walk.ahead, hleft, hreply, Option.map_some]
      refine .inside (by rw [opened?_concat, hopened, Option.some_or])
        (behind.advance hin lib s.walk.path) ?_ hnil
      rw [hended, htold, WalkReply.yielded.injEq]

theorem run_concat (lib : Library) (s : Session) (ops : List WalkOp) (op : WalkOp) :
    s.run lib (ops ++ [op]) = ((s.run lib ops).1 ++ [((s.run lib ops).2.step lib op).1],
      ((s.run lib ops).2.step lib op).2) := by
  induction ops generalizing s with
  | nil => rfl
  | cons first ops ih => simp only [List.cons_append, run, ih]

theorem after_concat (lib : Library) (ops : List WalkOp) (op : WalkOp) :
    after lib (ops ++ [op]) = ((after lib ops).step lib op).2 :=
  congrArg Prod.snd (run_concat lib start ops op)

theorem yields_concat (lib : Library) (ops : List WalkOp) (op : WalkOp) :
    yields lib (ops ++ [op]) =
      yields lib ops ++ ((after lib ops).step lib op).1.feature?.toList := by
  have hlast : ∀ reply : WalkReply,
      [reply].filterMap WalkReply.feature? = reply.feature?.toList := by
    intro reply
    cases h : reply.feature? <;> simp [h]
  rw [yields, run_concat, List.filterMap_append, hlast]
  rfl

theorem endTold_concat (lib : Library) (ops : List WalkOp) (op : WalkOp) :
    EndTold lib (ops ++ [op]) ↔
      EndTold lib ops ∨ ((after lib ops).step lib op).1 = .yielded (.ok none) := by
  rw [EndTold, run_concat, List.mem_append, List.mem_singleton, eq_comm (a := WalkReply.yielded _)]
  rfl

/-- So does every run. -/
theorem tracks_of_run (lib : Library) (ops : List WalkOp) :
    Tracks lib ops (yields lib ops) (EndTold lib ops) (after lib ops).walk.ahead := by
  induction ops using List.reverseRecOn with
  | nil => exact .closed rfl rfl List.not_mem_nil
  | append_singleton ops op ih =>
    rw [yields_concat, after_concat, endTold_concat]
    exact ih.step op

end Session

end JavaFloor
