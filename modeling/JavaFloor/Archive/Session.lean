import JavaFloor.Archive.Walk

/-!
# Runs of a walk

A session is a walk together with the right to read entries, once that was obtained from it.
`Session.step` performs one operation and says what it answers; `Session.run` performs several in a
row.

The right does not name an entry: it is a right to read whichever entry is current.
-/

namespace JavaFloor

/-- An operation on a walk. -/
inductive WalkOp
  | openPath (path : Bytes)
  | next
  | openEntry
  | skip
  | path
  | total
  | read (room : Nat)
  deriving DecidableEq

/-- What an operation answers. -/
inductive WalkReply
  | done (outcome : Except ArchiveError Unit)
  | yielded (outcome : Except ArchiveError (Option FeatureEntry))
  | path (path : Bytes)
  | total (size : Option Nat)
  /-- The bytes of a reading, `none` for a failed one. -/
  | bytes (bytes : Option Bytes)
  /-- No entry was opened so far. -/
  | noReader

/-- A walk, and whether an entry of it was ever opened. -/
structure Session where
  walk : Walk
  mayRead : Bool

namespace Session

/-- A walk that was never opened. -/
def start : Session := ⟨.closed, false⟩

/-- Performs one operation. -/
def step (lib : Library) (s : Session) : WalkOp → WalkReply × Session
  | .openPath path =>
    let (outcome, walk) := s.walk.openPath lib path
    (.done outcome, { s with walk })
  | .next =>
    let (outcome, walk) := s.walk.next lib
    (.yielded outcome, { s with walk })
  | .openEntry =>
    let outcome := s.walk.openEntry
    (.done outcome, { s with mayRead := s.mayRead || outcome.isOk })
  | .skip =>
    let (outcome, walk) := s.walk.skip
    (.done outcome, { s with walk })
  | .path => (.path s.walk.path, s)
  | .total => (if s.mayRead then .total s.walk.total? else .noReader, s)
  | .read room =>
    if s.mayRead then
      let (bytes, walk) := s.walk.read room
      (.bytes bytes, { s with walk })
    else (.noReader, s)

/-- Performs operations one after another. -/
def run (lib : Library) : Session → List WalkOp → List WalkReply × Session
  | s, [] => ([], s)
  | s, op :: ops =>
    let (reply, s) := s.step lib op
    let (replies, s) := s.run lib ops
    (reply :: replies, s)

end Session

end JavaFloor
