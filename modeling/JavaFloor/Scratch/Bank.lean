import JavaFloor.Scratch.Basic
import JavaFloor.Slots

/-!
# Runs of temporary files

A bank is a scratch space together with temporary file objects in named slots. `TempBank.step`
performs one operation and says what it answers. An object that is moved leaves an empty one behind,
and one that is overwritten gives up its file first.
-/

namespace JavaFloor

/-- An operation on the object in a slot. -/
inductive TempOp
  | create (directory name : Bytes)
  | write (data : Bytes)
  | copy (source : Stream) (limit : UInt64)
  | close
  /-- Moves the object of another slot into the slot. -/
  | move (other : Bytes)
  /-- Moves the object of a slot, which may be this one, into a new object, and that into the
  slot. -/
  | construct (other : Bytes)
  /-- Puts a new empty object into the slot. -/
  | drop
  deriving DecidableEq

/-- What an operation answers. -/
inductive TempReply
  | done (outcome : Except TempFileError Unit)
  | copied (copy : TempFile.Copy)
  /-- Whether the object moved from owns no file any more. -/
  | moved (empty : Bool)
  | dropped

/-- A scratch space and the objects in the slots. -/
structure TempBank where
  scratch : Scratch
  slots : Slots TempFile

namespace TempBank

/-- No object owns a file. -/
def start (scratch : Scratch) : TempBank := ⟨scratch, fun _ => .none⟩

/-- Puts an object into a slot, whose former object gives up its file. -/
def replace (b : TempBank) (slot : Bytes) (t : TempFile) : TempBank :=
  ⟨(b.slots slot).release b.scratch, b.slots.set slot t⟩

/-- Takes the object out of a slot. -/
def take (b : TempBank) (slot : Bytes) : TempFile × TempBank :=
  (b.slots slot, { b with slots := b.slots.set slot .none })

/-- Performs an operation on the object in a slot. -/
def step (b : TempBank) (slot : Bytes) : TempOp → TempReply × TempBank
  | .create directory name =>
    let (outcome, t, scratch) := (b.slots slot).create directory name b.scratch
    (.done outcome, ⟨scratch, b.slots.set slot t⟩)
  | .write data =>
    let (outcome, scratch) := (b.slots slot).write data b.scratch
    (.done outcome, { b with scratch })
  | .copy source limit =>
    let (copy, scratch) := (b.slots slot).copyFrom limit source b.scratch
    (.copied copy, { b with scratch })
  | .close =>
    let (outcome, t) := (b.slots slot).close b.scratch
    (.done outcome, { b with slots := b.slots.set slot t })
  | .move other =>
    if other = slot then (.moved (b.slots slot).path.isNone, b)
    else
      let (t, b) := b.take other
      (.moved true, b.replace slot t)
  | .construct other =>
    let (t, b) := b.take other
    (.moved true, b.replace slot t)
  | .drop => (.dropped, b.replace slot .none)

end TempBank

end JavaFloor
