import JavaFloor.Archive.Basic
import JavaFloor.Category

/-!
# Walking over feature archives

A walk goes over the entries of a feature archive that matter: the component jars and the first
subsystem manifest, in the order of the archive. Entries of any other kind are skipped.

* `Walk.next` moves on to the next such entry. It refuses to while the current entry is open, that
  is until the entry has been read to its end or skipped.
* `Walk.read` reads from the current entry, `Walk.skip` gives it up.
* `Position.seek` is one stretch of the walk, along the entries to come; `upcoming_of_seek` says
  that it uses up at least the entry it yields.
-/

namespace JavaFloor

/-- The entries that matter. -/
inductive EntryKind
  | component
  | subsystemManifest
  deriving DecidableEq

/-- An entry that the walk yields. -/
structure FeatureEntry where
  path : Bytes
  size : UInt64
  kind : EntryKind
  deriving DecidableEq

/-- Why an archive could not be walked. -/
inductive ArchiveError
  | alreadyOpen (path : Bytes)
  | notOpen
  /-- There is no handle to open an archive with. -/
  | noHandle
  /-- The current entry is neither read to its end nor skipped. -/
  | entryOpen
  | noEntry
  | cannotOpen (path : Bytes) (reason : Option Bytes)
  | badHeader (path : Bytes) (reason : Option Bytes)
  /-- An entry that does not matter cannot be skipped. -/
  | cannotPass (path entry : Bytes) (reason : Option Bytes)
  /-- The current entry cannot be skipped. -/
  | cannotSkip (path : Bytes) (reason : Option Bytes)
  deriving DecidableEq

namespace ArchiveError

/-- A failure at the archive at `path`, for the given reason. -/
def located (what path : Bytes) (reason : Option Bytes) : Bytes :=
  what ++ ascii ": " ++ path ++ ascii " (" ++ reasonText reason ++ ascii ")"

/-- The text shown to the user. -/
def message : ArchiveError → Bytes
  | alreadyOpen path => ascii "Archive already opened: " ++ path
  | notOpen => ascii "Archive not opened"
  | noHandle => noHandleText
  | entryOpen => ascii "Previous entry not finished (read to EOF or call SkipCurrent)"
  | noEntry => ascii "No current entry"
  | cannotOpen path reason => located (ascii "Could not open archive") path reason
  | badHeader path reason => located (ascii "Could not read archive entry") path reason
  | cannotPass path entry reason =>
    located (ascii "Could not skip archive entry " ++ entry) path reason
  | cannotSkip path reason => located (ascii "archive_read_data_skip") path reason

/-- All of them are failures to read an archive. -/
def category (_ : ArchiveError) : Category := .archiveIo

end ArchiveError

namespace Entry

/-- Whether and as what an entry matters, given whether a subsystem manifest came before it. -/
def kind? (e : Entry) (manifestSeen : Bool) : Option EntryKind :=
  if e.type = .file then
    if EntryPath.isComponent e.path then some .component
    else if EntryPath.isSubsystemManifest e.path && !manifestSeen then some .subsystemManifest
    else none
  else none

/-- The declared size as an unsigned number, 0 if none is declared. -/
def declaredSize (e : Entry) : UInt64 := UInt64.ofInt (e.size.getD 0)

/-- The declared size, if one is declared and not negative. -/
def totalSize? (e : Entry) : Option Nat := e.size.bind fun n => if n < 0 then none else some n.toNat

end Entry

/-- A place in an open archive. -/
structure Position where
  /-- The entries whose headers are not read yet. A fatal one is never passed. -/
  upcoming : List Entry
  /-- The entry whose header was read last. -/
  current : Option Entry
  /-- What is left of its content. -/
  unread : Stream
  /-- The current entry was yielded and is neither finished nor skipped. -/
  inEntry : Bool
  manifestSeen : Bool
  /-- The end of the archive was told. -/
  ended : Bool

namespace Position

/-- In front of the first entry. -/
def start (es : List Entry) : Position := ⟨es, none, .empty, false, false, false⟩

/-- Goes along the entries to come, in the archive at `path`, up to one that matters. -/
def seek (path : Bytes) (manifestSeen : Bool) :
    List Entry → Except ArchiveError (Option FeatureEntry) × Position
  | [] => (.ok none, ⟨[], none, .empty, false, manifestSeen, true⟩)
  | e :: es =>
    match e.status with
    | .fatal =>
      (.error (.badHeader path e.message),
        ⟨e :: es, some e, e.stream, false, manifestSeen, false⟩)
    | .failed | .retry =>
      (.error (.badHeader path e.message), ⟨es, some e, e.stream, false, manifestSeen, false⟩)
    | .ok | .warn =>
      match e.kind? manifestSeen with
      | some kind =>
        (.ok (some ⟨e.path, e.declaredSize, kind⟩),
          ⟨es, some e, e.stream, true, manifestSeen || kind == .subsystemManifest, false⟩)
      | none =>
        match e.skipFault with
        | some reason =>
          (.error (.cannotPass path e.path reason),
            ⟨es, some e, e.stream, false, manifestSeen, false⟩)
        | none => seek path manifestSeen es

/-- A walk that yields an entry has used it up. -/
theorem upcoming_of_seek {path : Bytes} {seen : Bool} {es : List Entry} {e : FeatureEntry}
    {p : Position} (h : seek path seen es = (.ok (some e), p)) : p.upcoming.length < es.length := by
  induction es with
  | nil => simp [seek] at h
  | cons x es ih =>
    rw [seek] at h
    split at h
    · simp at h
    · simp at h
    · simp at h
    all_goals
      split at h
      · simp only [Prod.mk.injEq] at h
        rw [← h.2]
        exact Nat.lt_succ_self _
      · split at h
        · simp at h
        · exact Nat.lt_succ_of_lt (ih h)

/-- Goes on from a place in the archive at `path`. Once the end was told, the library may fail to
read another header. -/
def advance (lib : Library) (path : Bytes) (p : Position) :
    Except ArchiveError (Option FeatureEntry) × Position :=
  match p.ended, lib.pastEnd with
  | true, some reason => (.error (.badHeader path reason), p)
  | _, _ => seek path p.manifestSeen p.upcoming

theorem upcoming_of_advance {lib : Library} {path : Bytes} {e : FeatureEntry} {p p' : Position}
    (h : p.advance lib path = (.ok (some e), p')) : p'.upcoming.length < p.upcoming.length := by
  unfold advance at h
  split at h
  · simp at h
  · exact upcoming_of_seek h

end Position

/-- A walk, open on the archive at `path` or not. The path of a failed opening is kept. -/
structure Walk where
  path : Bytes
  position : Option Position

namespace Walk

/-- A walk that was never opened. -/
def closed : Walk := ⟨[], none⟩

/-- Opens the archive at a path. -/
def openPath (lib : Library) (path : Bytes) (w : Walk) :
    Except ArchiveError Unit × Walk :=
  match w.position with
  | some _ => (.error (.alreadyOpen w.path), w)
  | none =>
    match lib.openPath path with
    | .noHandle => (.error .noHandle, ⟨path, none⟩)
    | .unreadable reason => (.error (.cannotOpen path reason), ⟨path, none⟩)
    | .entries es => (.ok (), ⟨path, some (.start es)⟩)

/-- Moves on to the next entry that matters; `none` tells that there is none left. -/
def next (lib : Library) (w : Walk) : Except ArchiveError (Option FeatureEntry) × Walk :=
  match w.position with
  | none => (.error .notOpen, w)
  | some p =>
    if p.inEntry then (.error .entryOpen, w)
    else
      let (outcome, p) := p.advance lib w.path
      (outcome, ⟨w.path, some p⟩)

/-- The walk is in an entry that it has yielded and not left. -/
def inEntry (w : Walk) : Bool := w.position.any (·.inEntry)

/-- Permission to read the current entry. -/
def openEntry (w : Walk) : Except ArchiveError Unit :=
  if w.inEntry then .ok () else .error .noEntry

/-- Gives up the current entry, if there is one. -/
def skip (w : Walk) : Except ArchiveError Unit × Walk :=
  match w.position with
  | none => (.ok (), w)
  | some p =>
    if p.inEntry then
      let left : Walk := ⟨w.path, some { p with inEntry := false }⟩
      match p.current.bind (·.skipFault) with
      | some reason => (.error (.cannotSkip w.path reason), left)
      | none => (.ok (), left)
    else (.ok (), w)

/-- Reads at most `room` bytes of the current entry; `none` tells of a failure. Nothing comes once
the entry is finished, and a reading that gives nothing finishes it. -/
def read (room : Nat) (w : Walk) : Option Bytes × Walk :=
  match w.position with
  | none => (some [], w)
  | some p =>
    if p.inEntry then
      match p.unread.read room with
      | .failed _ rest => (none, ⟨w.path, some { p with unread := rest }⟩)
      | .ended => (some [], ⟨w.path, some { p with inEntry := false }⟩)
      | .piece bytes rest => (some bytes, ⟨w.path, some { p with unread := rest }⟩)
    else (some [], w)

/-- The declared size of the entry whose header was read last. -/
def total? (w : Walk) : Option Nat :=
  w.position.bind fun p => p.current.bind (·.totalSize?)

/-- What is left of the current entry, as a stream. -/
def stream (w : Walk) : Stream :=
  match w.position with
  | some p => if p.inEntry then p.unread else .empty
  | none => .empty

/-- After its current entry has been read to the end. -/
def finish (w : Walk) : Walk :=
  ⟨w.path, w.position.map fun p =>
    if p.inEntry then { p with unread := .empty, inEntry := false } else p⟩

/-- The number of entries whose headers are not read yet. -/
def remaining (w : Walk) : Nat := (w.position.map (·.upcoming.length)).getD 0

theorem remaining_of_next {lib : Library} {w w' : Walk} {e : FeatureEntry}
    (h : w.next lib = (.ok (some e), w')) : w'.remaining < w.remaining := by
  unfold next at h
  split at h
  · simp at h
  next p hp =>
    split at h
    · simp at h
    · obtain ⟨ho, rfl⟩ := Prod.mk.inj h
      have hlt := Position.upcoming_of_advance (Prod.ext ho rfl)
      rw [remaining, remaining, hp]
      exact hlt

@[simp]
theorem remaining_finish (w : Walk) : w.finish.remaining = w.remaining := by
  obtain ⟨path, _ | p⟩ := w
  · rfl
  · simp only [finish, remaining, Option.map_some, Option.getD_some]
    split <;> rfl

end Walk

end JavaFloor
