import JavaFloor.Proofs.Scratch.Copying
import JavaFloor.Scratch.Bank
import Mathlib.Data.List.Induction

/-!
# What happens to a temporary file

While operations on a bank come in any order, a log is kept of what happened to each file. It knows
of paths but not of objects: that a file went from one object to another does not show in it.

* `FileLog.content` and `FileLog.IsOpen` read off a log what a file holds and whether it can be
  written to.
* `TempBank.event?` is what one operation does to a file, `TempBank.log` the log of a run.
* `TempFile.files_release` and `TempFile.files_append` say what becomes of the files of a scratch
  space.
-/

namespace JavaFloor

/-! ## Logs -/

/-- What can happen to a file as long as it exists. -/
inductive FileEvent
  | made
  | wrote (data : Bytes)
  | closed
  deriving DecidableEq

/-- What happened to files, each known by its path, the last event first. A file that is gone may be
followed by another one at its path. -/
abbrev FileLog := List (Bytes × FileEvent)

/-- The bytes that an event adds to a file. -/
def FileEvent.data : FileEvent → Bytes
  | wrote data => data
  | _ => []

namespace FileLog

variable {log : FileLog} {path other : Bytes} {event : FileEvent}

/-- What happened to the file at a path since it was last made, the last event first. -/
def since (log : FileLog) (path : Bytes) : List FileEvent :=
  ((log.filter (·.1 = path)).map (·.2)).takeWhile (· ≠ .made)

/-- All bytes written to the file at a path since it was last made, in their order. -/
def content (log : FileLog) (path : Bytes) : Bytes := (log.since path).reverse.flatMap (·.data)

/-- The file at a path was made and not closed since. -/
def IsOpen (log : FileLog) (path : Bytes) : Prop :=
  (path, .made) ∈ log ∧ .closed ∉ log.since path

@[simp]
theorem since_cons_of_ne (h : other ≠ path) :
    since ((other, event) :: log) path = since log path := by
  simp [since, h]

@[simp]
theorem since_made : since ((path, .made) :: log) path = [] := by simp [since]

@[simp]
theorem since_wrote (data : Bytes) :
    since ((path, .wrote data) :: log) path = .wrote data :: since log path := by simp [since]

@[simp]
theorem since_closed : since ((path, .closed) :: log) path = .closed :: since log path := by
  simp [since]

@[simp]
theorem content_cons_of_ne (h : other ≠ path) :
    content ((other, event) :: log) path = content log path := by
  simp [content, h]

@[simp]
theorem content_made : content ((path, .made) :: log) path = [] := by simp [content]

@[simp]
theorem content_wrote (data : Bytes) :
    content ((path, .wrote data) :: log) path = content log path ++ data := by
  simp [content, FileEvent.data]

@[simp]
theorem content_closed : content ((path, .closed) :: log) path = content log path := by
  simp [content, FileEvent.data]

theorem isOpen_cons_of_ne (h : other ≠ path) :
    IsOpen ((other, event) :: log) path ↔ IsOpen log path := by
  simp [IsOpen, h, h.symm]

theorem isOpen_made : IsOpen ((path, .made) :: log) path := by simp [IsOpen]

theorem isOpen_wrote (data : Bytes) :
    IsOpen ((other, .wrote data) :: log) path ↔ IsOpen log path := by
  by_cases h : other = path
  · simp [IsOpen, h]
  · exact isOpen_cons_of_ne h

theorem not_isOpen_closed : ¬ IsOpen ((path, .closed) :: log) path := by simp [IsOpen]

end FileLog

namespace TempBank

/-- What an operation on a slot does to a file, as its answer tells: it has made the one that the
object owns then, or has written to or closed the one that the object owned before. -/
def event? (b : TempBank) (slot : Bytes) (op : TempOp) : Option (Bytes × FileEvent) :=
  match op, b.step slot op with
  | .create _ _, (.done (.ok ()), b') => (b'.slots slot).path.map (·, .made)
  | .write data, (.done (.ok ()), _) => (b.slots slot).path.map (·, .wrote data)
  | .copy _ _, (.copied copy, _) => (b.slots slot).path.map (·, .wrote copy.written)
  | .close, _ => (b.slots slot).path.map (·, .closed)
  | _, _ => none

/-- The bank after operations on slots, one after another. -/
def after (b : TempBank) (ops : List (Bytes × TempOp)) : TempBank :=
  ops.foldl (fun b o => (b.step o.1 o.2).2) b

/-- What these operations did to files. -/
def log (b : TempBank) : List (Bytes × TempOp) → FileLog
  | [] => []
  | o :: ops => log (b.step o.1 o.2).2 ops ++ (b.event? o.1 o.2).toList

@[simp]
theorem slots_replace (b : TempBank) (slot : Bytes) (t : TempFile) :
    (b.replace slot t).slots = b.slots.set slot t := rfl

theorem after_concat (b : TempBank) (ops : List (Bytes × TempOp)) (o : Bytes × TempOp) :
    b.after (ops ++ [o]) = ((b.after ops).step o.1 o.2).2 := by
  simp [after]

theorem log_concat (b : TempBank) (ops : List (Bytes × TempOp)) (o : Bytes × TempOp) :
    b.log (ops ++ [o]) = ((b.after ops).event? o.1 o.2).toList ++ b.log ops := by
  induction ops generalizing b with
  | nil => simp [log, after]
  | cons first ops ih => simp [log, ih, after]

end TempBank

/-! ## Files of a scratch space -/

namespace TempFile

/-- A release takes away the file that the object owns. -/
theorem files_release (t : TempFile) (s : Scratch) :
    (t.release s).files = s.files.filter fun f => some f.1 != t.path := by
  rw [release]
  cases t.path with
  | none => exact (List.filter_eq_self.2 fun f _ => rfl).symm
  | some path => simp [Scratch.remove, bne]

/-- What is appended goes to the file that the object owns. -/
theorem files_append (t : TempFile) (data : Bytes) (s : Scratch) :
    (t.append data s).files =
      s.files.map fun f => if some f.1 = t.path then (f.1, f.2 ++ data) else f := by
  rw [append]
  cases t.path with
  | none => simp
  | some path => simp [Scratch.append]

@[simp]
theorem device_release (t : TempFile) (s : Scratch) : (t.release s).device = s.device := by
  rw [release]
  cases t.path with
  | none | some => rfl

@[simp]
theorem device_append (t : TempFile) (data : Bytes) (s : Scratch) :
    (t.append data s).device = s.device := by
  rw [append]
  cases t.path with
  | none | some => rfl

/-- A file that is released is gone. -/
theorem exists?_release {t : TempFile} {path : Bytes} (h : t.path = some path) (s : Scratch) :
    (t.release s).exists? path = false := by
  rw [Scratch.exists?, files_release, h, List.any_eq_false]
  rintro f hf
  simpa using (List.mem_filter.1 hf).2

/-- It makes no difference whether a file is released before another one is made or after it. -/
theorem release_add {t : TempFile} {path : Bytes} (h : t.path ≠ some path) (s : Scratch) :
    t.release (s.add path) = (t.release s).add path := by
  rw [release, release]
  cases hpath : t.path with
  | none => rfl
  | some old =>
    have hne : path ≠ old := fun heq => h (by rw [hpath, heq])
    simp [Scratch.add, Scratch.remove, hne]

end TempFile

end JavaFloor
