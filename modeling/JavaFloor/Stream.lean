import JavaFloor.Bytes

/-!
# Byte streams

A stream hands out its bytes in pieces of any size and then either ends or fails. A reading may also
fail on the way, and then bytes may be lost.

* `Turn` is what the source of a stream does when it is read once.
* `Stream.read` takes one piece of at most the given size; it never gives an empty piece.
* `Stream.readAll` reads a stream to its end, unless more than a limit of bytes arrive.
-/

namespace JavaFloor

/-- What comes behind the bytes of a stream: its end, or a failure with the reason given for it. -/
inductive Ending
  | finished
  | broken (reason : Option Bytes)
  deriving DecidableEq

/-- What the source of a stream does when it is read once. -/
inductive Turn
  /-- It gives at most so many bytes. Without any it seems to be at its end. -/
  | gives (most : Nat)
  /-- It fails with the reason given for it, and so many bytes never come. -/
  | fails (lost : Nat) (reason : Option Bytes)
  deriving DecidableEq

/-- The bytes still to come, what the source does in the next readings, and what comes behind the
bytes. When its turns are used up the source gives whatever it is asked for. -/
structure Stream where
  pending : Bytes
  turns : List Turn
  ending : Ending
  deriving DecidableEq

/-- Why a stream could not be read to its end. -/
inductive StreamError
  /-- The stream failed. -/
  | broken (reason : Option Bytes)
  /-- More than `limit` bytes arrived. -/
  | tooLong (limit : UInt64)
  deriving DecidableEq

namespace StreamError

/-- The text shown to the user. -/
def message : StreamError → Bytes
  | broken _ => ascii "read failed"
  | tooLong limit =>
    ascii "entry exceeds size limit of " ++ Bytes.ofNat limit.toNat ++ ascii " bytes"

end StreamError

namespace Stream

/-- The size of the pieces in which streams are copied. -/
def blockSize : Nat := 65536

/-- A stream without bytes. -/
def empty : Stream := ⟨[], [], .finished⟩

/-- The stream of a content. A fault at an offset that is not behind the content's end lets the
bytes in front of it through and no others. -/
def ofContent (content : Bytes) (turns : List Turn) (fault : Option (Nat × Option Bytes)) :
    Stream :=
  match fault with
  | some (offset, reason) =>
    if offset ≤ content.length then ⟨content.take offset, turns, .broken reason⟩
    else ⟨content, turns, .finished⟩
  | none => ⟨content, turns, .finished⟩

/-- What one reading gives. -/
inductive Reading
  | piece (bytes : Bytes) (rest : Stream)
  | ended
  | failed (reason : Option Bytes) (rest : Stream)

/-- Gives at most `most` bytes and goes on with other turns. Where no bytes are asked for, none are
given and the stream looks ended. -/
def give (s : Stream) (most : Nat) (turns : List Turn) : Reading :=
  match s.pending with
  | [] =>
    match s.ending with
    | .finished => .ended
    | .broken reason => .failed reason s
  | c :: pending =>
    match most with
    | 0 => .ended
    | n + 1 => .piece (c :: pending.take n) ⟨pending.drop n, turns, s.ending⟩

/-- Reads at most `room` bytes. -/
def read (s : Stream) (room : Nat) : Reading :=
  match s.turns with
  | [] => s.give room []
  | .gives 0 :: _ => .ended
  | .gives (n + 1) :: turns => s.give (min room (n + 1)) turns
  | .fails lost reason :: turns => .failed reason ⟨s.pending.drop lost, turns, s.ending⟩

/-- A piece is taken off the front of the pending bytes and is not empty. -/
theorem pending_of_give {s rest : Stream} {most : Nat} {turns : List Turn} {bytes : Bytes}
    (h : s.give most turns = .piece bytes rest) :
    s.pending = bytes ++ rest.pending ∧ bytes ≠ [] := by
  unfold give at h
  split at h
  · split at h <;> simp at h
  next c pending hp =>
    split at h
    · simp at h
    · simp only [Reading.piece.injEq] at h
      obtain ⟨rfl, rfl⟩ := h
      exact ⟨by simp [hp], by simp⟩

theorem pending_of_read {s rest : Stream} {room : Nat} {bytes : Bytes}
    (h : s.read room = .piece bytes rest) : s.pending = bytes ++ rest.pending ∧ bytes ≠ [] := by
  unfold read at h
  split at h
  · exact pending_of_give h
  · simp at h
  · exact pending_of_give h
  · simp at h

theorem length_of_read {s rest : Stream} {room : Nat} {bytes : Bytes}
    (h : s.read room = .piece bytes rest) : rest.pending.length < s.pending.length := by
  obtain ⟨hp, hne⟩ := pending_of_read h
  have := List.length_pos_iff.2 hne
  rw [hp, List.length_append]
  omega

/-- Reads on behind the bytes `front`, given the last one first, of which there are `count`. Each
piece is held against the limit before it is taken in. -/
def readOn (limit count : UInt64) (front : Bytes) (s : Stream) : Except StreamError Bytes :=
  match _h : s.read blockSize with
  | .failed reason _ => .error (.broken reason)
  | .ended => .ok front.reverse
  | .piece bytes rest =>
    let count := count + UInt64.ofNat bytes.length
    if limit < count then .error (.tooLong limit)
    else readOn limit count (bytes.reverse ++ front) rest
termination_by s.pending.length
decreasing_by exact length_of_read _h

/-- The bytes of a stream that ends after at most `limit` of them. -/
def readAll (limit : UInt64) (s : Stream) : Except StreamError Bytes := readOn limit 0 [] s

end Stream

end JavaFloor
