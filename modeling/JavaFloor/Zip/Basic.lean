import JavaFloor.Archive.Basic
import JavaFloor.Zip.Deflate

/-!
# Zip files

`Zip.decode` reads a byte string as a zip file. The directory at its end lists the entries; each
entry's content is stored as it is or deflated. A content that cannot be restored is there as an
entry that cannot be read. What has no directory is no archive.
-/

namespace JavaFloor

namespace Zip

/-- The number that `n` bytes denote, the lowest one first. -/
def number? (data : Array UInt8) (pos : Nat) : Nat → Option Nat
  | 0 => some 0
  | n + 1 => do return (← data[pos]?).toNat + 256 * (← number? data (pos + 1) n)

/-- What the end of the directory starts with. -/
def endMark : Nat := 0x06054B50

/-- What an entry of the directory starts with. -/
def entryMark : Nat := 0x02014B50

/-- The size of the end of the directory, and the most that may follow it. -/
def endSize : Nat := 22

/-- The number of entries and the position of the directory. -/
def directory? (data : Array UInt8) : Option (Nat × Nat) := do
  let fromEnd ← (List.range 0x10000).find? fun n =>
    endSize + n ≤ data.size ∧ number? data (data.size - endSize - n) 4 = some endMark
  let pos := data.size - endSize - fromEnd
  return (← number? data (pos + 10) 2, ← number? data (pos + 16) 4)

/-- The bytes from a position on, if there are as many. -/
def slice? (data : Array UInt8) (pos size : Nat) : Option (Array UInt8) :=
  if pos + size ≤ data.size then some (data.extract pos (pos + size)) else none

/-- The content that is kept in a place by a method: 0 for stored, 8 for deflated. -/
def content? (data : Array UInt8) (method pos size : Nat) : Option Bytes := do
  let raw ← slice? data pos size
  match method with
  | 0 => return raw.toList
  | 8 => return (← Deflate.inflate? raw).toList
  | _ => none

/-- What an entry of that name is, given the attributes that the directory keeps of it. -/
def entryType (name : Bytes) (attributes : Nat) : EntryType :=
  if name.getLast? = some Ascii.slash then .directory
  else if attributes >>> 28 = 0xA then .link
  else .file

/-- Reads the entry at a position of the directory and gives the position behind it. -/
def entry? (data : Array UInt8) (pos : Nat) : Option (Entry × Nat) := do
  if (← number? data pos 4) ≠ entryMark then none
  let method ← number? data (pos + 10) 2
  let packed ← number? data (pos + 20) 4
  let size ← number? data (pos + 24) 4
  let nameSize ← number? data (pos + 28) 2
  let extraSize ← number? data (pos + 30) 2
  let commentSize ← number? data (pos + 32) 2
  let attributes ← number? data (pos + 38) 4
  let start ← number? data (pos + 42) 4
  let name := (← slice? data (pos + 46) nameSize).toList
  let skipped := (← number? data (start + 26) 2) + (← number? data (start + 28) 2)
  let content := content? data method (start + 30 + skipped) packed
  let entry : Entry :=
    { name
      type := entryType name attributes
      size := some size
      content := content.getD []
      turns := []
      status := .ok
      message := none
      readFault := if content.isSome then none else some (0, some (ascii "damaged entry"))
      skipFault := none }
  return (entry, pos + 46 + nameSize + extraSize + commentSize)

/-- Reads as many entries of the directory. -/
def entries? (data : Array UInt8) (pos : Nat) : Nat → Option (List Entry)
  | 0 => some []
  | n + 1 => do
    let (e, pos) ← entry? data pos
    return e :: (← entries? data pos n)

/-- The archive that a byte string is as a zip file. -/
def decode (bytes : Bytes) : Archive :=
  let data := bytes.toArray
  match (directory? data).bind fun (count, pos) => entries? data pos count with
  | some es => .entries es
  | none => .unrecognized

end Zip

end JavaFloor
