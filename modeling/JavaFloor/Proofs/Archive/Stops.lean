import JavaFloor.Archive.Walk
import JavaFloor.Proofs.Archive.Spellings

/-!
# The stops of a walk

A walk stops at the components of an archive and at its first subsystem manifest, and passes all
other entries. Which entries these are is said here of the archive as a whole, and then followed
through one stretch of a walk.

* `Entry.isComponent`, `Entry.isSubsystem`: the entries that matter, none of which is both.
* `Walk.stops` and `Walk.passes` are the entries at which a walk over an archive stops and those
  that it passes; `Walk.IsUnhindered` says that nothing keeps it from reaching all its stops.
* `stopsAfter_of_kind?`, `stopsAfter_of_none`: how the two go on behind the first entry.
* `Position.seek_cases`: in any archive, a stretch leads to an entry that matters or yields nothing.
  `Position.advance_cases` has the same of a walk that may have been told the end already.
* `Position.seek_of_isUnhindered`: if nothing hinders it, it leads to the next stop.
-/

namespace JavaFloor

@[simp]
theorem EntryKind.component_beq_subsystemManifest :
    (EntryKind.component == EntryKind.subsystemManifest) = false := rfl

namespace Entry

variable {e : Entry} {seen : Bool} {kind : EntryKind}

/-- A jar at the root. -/
def isComponent (e : Entry) : Bool := e.type == .file && EntryPath.isComponent e.path

/-- A file in the place of the subsystem manifest. -/
def isSubsystem (e : Entry) : Bool := e.type == .file && EntryPath.isSubsystemManifest e.path

/-- An entry that can matter. -/
def isCandidate (e : Entry) : Bool := e.isComponent || e.isSubsystem

/-- What a walk yields that stops at the entry. -/
def feature (e : Entry) : FeatureEntry :=
  ⟨e.path, e.declaredSize, if e.isComponent then .component else .subsystemManifest⟩

theorem isSubsystem_of_isComponent (h : e.isComponent = true) : e.isSubsystem = false := by
  simp only [isComponent, Bool.and_eq_true] at h
  rw [isSubsystem, EntryPath.not_isSubsystemManifest_of_isComponent h.2, Bool.and_false]

theorem not_isComponent_of_isSubsystem (h : e.isSubsystem = true) : e.isComponent = false := by
  cases hc : e.isComponent with
  | false => rfl
  | true => rw [isSubsystem_of_isComponent hc] at h; exact h.symm

/-- What an entry counts as is told by its type and path, and by what came before. -/
theorem kind?_eq (e : Entry) (seen : Bool) : e.kind? seen =
    if e.isComponent then some .component
    else if e.isSubsystem && !seen then some .subsystemManifest
    else none := by
  rw [kind?, isComponent, isSubsystem]
  by_cases h : e.type = .file
  · simp [h]
  · simp [h]

/-- A component always matters. -/
theorem kind?_eq_component_iff : e.kind? seen = some .component ↔ e.isComponent = true := by
  rw [kind?_eq]
  split <;> simp_all

/-- A subsystem manifest matters if none came before it. -/
theorem kind?_eq_subsystemManifest_iff :
    e.kind? seen = some .subsystemManifest ↔ e.isSubsystem = true ∧ seen = false := by
  rw [kind?_eq]
  split
  next hc => simp [isSubsystem_of_isComponent hc]
  next => simp

theorem kind?_eq_none_iff : e.kind? seen = none ↔
    e.isComponent = false ∧ (e.isSubsystem = true → seen = true) := by
  rw [kind?_eq]
  split
  next hc => simp [hc]
  next hc => simp [hc]

/-- Only candidates matter. -/
theorem isCandidate_of_kind? (h : e.kind? seen = some kind) : e.isCandidate = true := by
  cases kind with
  | component => rw [isCandidate, kind?_eq_component_iff.1 h, Bool.true_or]
  | subsystemManifest =>
    rw [isCandidate, (kind?_eq_subsystemManifest_iff.1 h).1, Bool.or_true]

/-- Behind a subsystem manifest one was seen. -/
theorem seen_of_kind? (hs : e.isSubsystem = true) (h : e.kind? seen = some kind) :
    (seen || kind == .subsystemManifest) = true := by
  cases kind with
  | component => simp [isSubsystem_of_isComponent (kind?_eq_component_iff.1 h)] at hs
  | subsystemManifest => simp

theorem feature_of_kind? (h : e.kind? seen = some kind) :
    e.feature = ⟨e.path, e.declaredSize, kind⟩ := by
  cases kind with
  | component => rw [feature, if_pos (kind?_eq_component_iff.1 h)]
  | subsystemManifest =>
    have hc := not_isComponent_of_isSubsystem (kind?_eq_subsystemManifest_iff.1 h).1
    rw [feature, hc, if_neg Bool.false_ne_true]

end Entry

namespace Walk

variable {e : Entry} {es : List Entry} {seen : Bool} {kind : EntryKind}

/-- The entries at which a walk stops: the components and the first subsystem manifest. -/
def stops : List Entry → List Entry
  | [] => []
  | e :: es =>
    if e.isComponent then e :: stops es
    else if e.isSubsystem then e :: es.filter Entry.isComponent
    else stops es

/-- The entries that a walk passes: all others. -/
def passes (es : List Entry) : List Entry :=
  (es.filter fun e => !e.isComponent).eraseP Entry.isSubsystem

/-- All headers can be read, and the entries that a walk passes can be skipped. -/
structure IsUnhindered (es : List Entry) : Prop where
  readable : ∀ e ∈ es, e.isReadable
  passable : ∀ e ∈ passes es, e.skipFault = none

/-! ## In the middle of an archive -/

/-- The stops among the entries to come, given whether a subsystem manifest came before them. -/
def stopsAfter (seen : Bool) (es : List Entry) : List Entry :=
  if seen then es.filter Entry.isComponent else stops es

/-- The entries passed among those to come. -/
def passesAfter (seen : Bool) (es : List Entry) : List Entry :=
  if seen then es.filter fun e => !e.isComponent else passes es

/-- Nothing among the entries to come hinders a walk. -/
@[mk_iff]
structure IsUnhinderedAfter (seen : Bool) (es : List Entry) : Prop where
  readable : ∀ e ∈ es, e.isReadable
  passable : ∀ e ∈ passesAfter seen es, e.skipFault = none

instance (seen : Bool) (es : List Entry) : Decidable (IsUnhinderedAfter seen es) :=
  decidable_of_iff' _ (isUnhinderedAfter_iff seen es)

/-- A walk stops at an entry that matters. -/
theorem stopsAfter_of_kind? (h : e.kind? seen = some kind) (es : List Entry) :
    stopsAfter seen (e :: es) = e :: stopsAfter (seen || kind == .subsystemManifest) es ∧
      passesAfter seen (e :: es) = passesAfter (seen || kind == .subsystemManifest) es := by
  cases kind with
  | component =>
    have hc := Entry.kind?_eq_component_iff.1 h
    cases seen <;> simp [stopsAfter, passesAfter, stops, passes, hc]
  | subsystemManifest =>
    obtain ⟨hs, rfl⟩ := Entry.kind?_eq_subsystemManifest_iff.1 h
    have hc := Entry.not_isComponent_of_isSubsystem hs
    simp [stopsAfter, passesAfter, stops, passes, hc, hs]

/-- A walk passes an entry that does not matter. -/
theorem stopsAfter_of_none (h : e.kind? seen = none) (es : List Entry) :
    stopsAfter seen (e :: es) = stopsAfter seen es ∧
      passesAfter seen (e :: es) = e :: passesAfter seen es := by
  obtain ⟨hc, hs⟩ := Entry.kind?_eq_none_iff.1 h
  cases seen with
  | true => simp [stopsAfter, passesAfter, hc]
  | false =>
    replace hs : e.isSubsystem = false := by simpa using hs
    simp [stopsAfter, passesAfter, stops, passes, hc, hs]

theorem isUnhinderedAfter_of_kind? (h : e.kind? seen = some kind) (es : List Entry) :
    IsUnhinderedAfter seen (e :: es) ↔
      e.isReadable = true ∧ IsUnhinderedAfter (seen || kind == .subsystemManifest) es := by
  rw [isUnhinderedAfter_iff, isUnhinderedAfter_iff, (stopsAfter_of_kind? h es).2,
    List.forall_mem_cons, and_assoc]

theorem isUnhinderedAfter_of_none (h : e.kind? seen = none) (es : List Entry) :
    IsUnhinderedAfter seen (e :: es) ↔
      e.isReadable = true ∧ e.skipFault = none ∧ IsUnhinderedAfter seen es := by
  rw [isUnhinderedAfter_iff, isUnhinderedAfter_iff, (stopsAfter_of_none h es).2,
    List.forall_mem_cons, List.forall_mem_cons]
  tauto

theorem isUnhinderedAfter_false {es : List Entry} :
    IsUnhinderedAfter false es ↔ IsUnhindered es :=
  ⟨fun h => ⟨h.readable, h.passable⟩, fun h => ⟨h.readable, h.passable⟩⟩

end Walk

/-! ## One stretch of a walk -/

namespace Position

variable {path : Bytes} {e : Entry} {es : List Entry} {seen : Bool} {kind : EntryKind}

/-- A stretch ends at an entry that matters. -/
theorem seek_of_kind? (hr : e.isReadable = true) (hk : e.kind? seen = some kind) :
    seek path seen (e :: es) = (.ok (some ⟨e.path, e.declaredSize, kind⟩),
      ⟨es, some e, e.stream, true, seen || kind == .subsystemManifest, false⟩) := by
  rw [Entry.isReadable] at hr
  rw [seek]
  cases hs : e.status <;> simp_all

/-- It goes on behind an entry that does not matter and can be skipped. -/
theorem seek_of_passed (hr : e.isReadable = true) (hk : e.kind? seen = none)
    (hs : e.skipFault = none) : seek path seen (e :: es) = seek path seen es := by
  rw [Entry.isReadable] at hr
  rw [seek]
  cases hstatus : e.status <;> simp_all

/-- It fails at one that cannot be skipped. -/
theorem seek_of_skipFault {reason : Option Bytes} (hr : e.isReadable = true)
    (hk : e.kind? seen = none) (hs : e.skipFault = some reason) :
    seek path seen (e :: es) =
      (.error (.cannotPass path e.path reason), ⟨es, some e, e.stream, false, seen, false⟩) := by
  rw [Entry.isReadable] at hr
  rw [seek]
  cases hstatus : e.status <;> simp_all

/-- It fails at a header that cannot be read, and leaves it behind unless it is a fatal one. -/
theorem seek_of_not_isReadable (hr : e.isReadable = false) (path : Bytes) (seen : Bool)
    (es : List Entry) : ∃ behind, (behind = es ∨ behind = e :: es) ∧ seek path seen (e :: es) =
      (.error (.badHeader path e.message), ⟨behind, some e, e.stream, false, seen, false⟩) := by
  rw [Entry.isReadable] at hr
  rw [seek]
  cases hs : e.status with
  | ok | warn => simp [hs] at hr
  | retry | failed => exact ⟨es, .inl rfl, rfl⟩
  | fatal => exact ⟨e :: es, .inr rfl, rfl⟩

/-- An entry that matters is yielded, and all before it is left behind. -/
def Yields (seen : Bool) (es : List Entry)
    (outcome : Except ArchiveError (Option FeatureEntry) × Position) : Prop :=
  ∃ front e behind kind, es = front ++ e :: behind ∧ e.kind? seen = some kind ∧
    outcome = (.ok (some e.feature),
      ⟨behind, some e, e.stream, true, seen || kind == .subsystemManifest, false⟩)

/-- Nothing is yielded. The walk is outside of an entry then, and perhaps further on. -/
structure YieldsNothing (seen : Bool) (es : List Entry)
    (outcome : Except ArchiveError (Option FeatureEntry) × Position) : Prop where
  reply : ∀ f, outcome.1 ≠ .ok (some f)
  ahead : ∃ front, es = front ++ outcome.2.upcoming
  manifestSeen : outcome.2.manifestSeen = seen
  inEntry : outcome.2.inEntry = false

/-- **What a stretch of a walk does, whatever the archive**: it yields an entry that matters, or it
yields nothing. -/
theorem seek_cases (path : Bytes) (seen : Bool) (es : List Entry) :
    Yields seen es (seek path seen es) ∨ YieldsNothing seen es (seek path seen es) := by
  induction es with
  | nil => exact .inr ⟨nofun, ⟨[], rfl⟩, rfl, rfl⟩
  | cons e es ih =>
    cases hr : e.isReadable with
    | false =>
      obtain ⟨behind, hbehind, hseek⟩ := seek_of_not_isReadable hr path seen es
      rw [hseek]
      refine .inr ⟨nofun, ?_, rfl, rfl⟩
      rcases hbehind with rfl | rfl
      · exact ⟨[e], rfl⟩
      · exact ⟨[], rfl⟩
    | true =>
      cases hk : e.kind? seen with
      | some kind =>
        refine .inl ⟨[], e, es, kind, rfl, hk, ?_⟩
        rw [Entry.feature_of_kind? hk]
        exact seek_of_kind? hr hk
      | none =>
        cases hs : e.skipFault with
        | some reason =>
          rw [seek_of_skipFault hr hk hs]
          exact .inr ⟨nofun, ⟨[e], rfl⟩, rfl, rfl⟩
        | none =>
          rw [seek_of_passed hr hk hs]
          rcases ih with
            ⟨front, x, behind, kind, rfl, hkind, hseek⟩ | ⟨hreply, ⟨front, hfront⟩, hseen, hin⟩
          · exact .inl ⟨e :: front, x, behind, kind, rfl, hkind, hseek⟩
          · exact .inr ⟨hreply, ⟨e :: front, by rw [List.cons_append, ← hfront]⟩, hseen, hin⟩

/-- The end is told where nothing is ahead. -/
theorem ended_seek (path : Bytes) (seen : Bool) (es : List Entry) :
    ((seek path seen es).2.ended = true ↔ (seek path seen es).1 = .ok none) ∧
      ((seek path seen es).2.ended = true → (seek path seen es).2.upcoming = []) := by
  induction es with
  | nil => exact ⟨iff_of_true rfl rfl, fun _ => rfl⟩
  | cons e es ih =>
    cases hr : e.isReadable with
    | false =>
      obtain ⟨behind, -, hseek⟩ := seek_of_not_isReadable hr path seen es
      rw [hseek]
      exact ⟨iff_of_false nofun nofun, nofun⟩
    | true =>
      cases hk : e.kind? seen with
      | some kind =>
        rw [seek_of_kind? hr hk]
        exact ⟨iff_of_false nofun nofun, nofun⟩
      | none =>
        cases hs : e.skipFault with
        | some reason =>
          rw [seek_of_skipFault hr hk hs]
          exact ⟨iff_of_false nofun nofun, nofun⟩
        | none =>
          rw [seek_of_passed hr hk hs]
          exact ih

/-- To go on is to walk along another stretch, or to fail because the end was told already. -/
theorem advance_eq_or (lib : Library) (path : Bytes) (p : Position) :
    p.advance lib path = seek path p.manifestSeen p.upcoming ∨
      ∃ reason, p.ended = true ∧ lib.pastEnd = some reason ∧
        p.advance lib path = (.error (.badHeader path reason), p) := by
  rw [advance]
  split
  next hended hpast => exact .inr ⟨_, hended, hpast, rfl⟩
  · exact .inl rfl

/-- **What going on does, whatever the archive.** -/
theorem advance_cases (lib : Library) (path : Bytes) {p : Position} (hin : p.inEntry = false) :
    Yields p.manifestSeen p.upcoming (p.advance lib path) ∨
      YieldsNothing p.manifestSeen p.upcoming (p.advance lib path) := by
  rcases p.advance_eq_or lib path with heq | ⟨reason, -, -, heq⟩
  · rw [heq]
    exact seek_cases path p.manifestSeen p.upcoming
  · rw [heq]
    exact .inr ⟨nofun, ⟨[], rfl⟩, rfl, hin⟩

/-- **If nothing hinders a walk, a stretch of it leads to the next stop**, and to the end if there
is none. -/
theorem seek_of_isUnhindered (path : Bytes) (h : Walk.IsUnhinderedAfter seen es) :
    (seek path seen es).1 = .ok ((Walk.stopsAfter seen es).head?.map Entry.feature) ∧
    Walk.stopsAfter (seek path seen es).2.manifestSeen (seek path seen es).2.upcoming =
      (Walk.stopsAfter seen es).tail ∧
    Walk.IsUnhinderedAfter (seek path seen es).2.manifestSeen (seek path seen es).2.upcoming := by
  induction es with
  | nil => cases seen <;> exact ⟨rfl, rfl, h⟩
  | cons e es ih =>
    cases hk : e.kind? seen with
    | some kind =>
      obtain ⟨hr, hrest⟩ := (Walk.isUnhinderedAfter_of_kind? hk es).1 h
      rw [seek_of_kind? hr hk, (Walk.stopsAfter_of_kind? hk es).1, ← Entry.feature_of_kind? hk]
      exact ⟨rfl, rfl, hrest⟩
    | none =>
      obtain ⟨hr, hs, hrest⟩ := (Walk.isUnhinderedAfter_of_none hk es).1 h
      rw [seek_of_passed hr hk hs, (Walk.stopsAfter_of_none hk es).1]
      exact ih hrest

end Position

end JavaFloor
