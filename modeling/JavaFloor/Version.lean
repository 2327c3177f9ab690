import JavaFloor.Bytes

/-!
# Versions

A version is `major[.minor[.micro[.qualifier]]]` with numbers of 32 bits. It keeps the text it
was read from, so `1.8` is shown as `1.8` although it equals `1.8.0`.

* `Version.parse` reads a version, and `VersionError` lists what can be wrong with its text.
* `Version.compare` orders versions by number, number, number and qualifier; the kept text plays
  no part.
-/

namespace JavaFloor

/-- A version and the text it was read from. -/
structure Version where
  major : UInt32
  minor : UInt32
  micro : UInt32
  qualifier : Bytes
  text : Bytes
  deriving DecidableEq

/-- Why a text is not a version. -/
inductive VersionError
  /-- Nothing but whitespace. -/
  | empty
  /-- More than four parts. -/
  | tooManyParts (text : Bytes)
  /-- A part that should be a number of 32 bits is not. -/
  | badComponent (text part : Bytes)
  /-- The fourth part is empty or has a character that no qualifier has. -/
  | badQualifier (text : Bytes)
  deriving DecidableEq

namespace VersionError

/-- The text shown to the user. -/
def message : VersionError → Bytes
  | empty => ascii "invalid version: empty string"
  | tooManyParts text =>
    ascii "invalid version " ++ Bytes.quoted text ++ ascii ": too many components"
  | badComponent text part =>
    ascii "invalid version " ++ Bytes.quoted text ++ ascii ": bad component " ++ Bytes.quoted part
  | badQualifier text =>
    ascii "invalid version " ++ Bytes.quoted text ++ ascii ": bad qualifier"

end VersionError

namespace Version

/-- The version without any part given, `0.0.0`. -/
def zero : Version := ⟨0, 0, 0, [], ascii "0.0.0"⟩

/-- A nonempty string of digits of a value that fits 32 bits. -/
def number? (s : Bytes) : Option UInt32 :=
  if s ≠ [] ∧ s.all Ascii.isDigit ∧ Bytes.toNat s < UInt32.size then
    some (UInt32.ofNat (Bytes.toNat s))
  else none

/-- Whether a text may stand behind the third dot. -/
def isQualifier (s : Bytes) : Bool := !s.isEmpty && s.all Ascii.isNameChar

/-- Reads one numeric part of the version `text`. -/
def component (text part : Bytes) : Except VersionError UInt32 :=
  match number? part with
  | some n => .ok n
  | none => .error (.badComponent text part)

/-- Reads the parts between the dots of `text`, from left to right. -/
def ofParts (text : Bytes) : List Bytes → Except VersionError Version
  | [a] => do
    let major ← component text a
    return ⟨major, 0, 0, [], text⟩
  | [a, b] => do
    let major ← component text a
    let minor ← component text b
    return ⟨major, minor, 0, [], text⟩
  | [a, b, c] => do
    let major ← component text a
    let minor ← component text b
    let micro ← component text c
    return ⟨major, minor, micro, [], text⟩
  | [a, b, c, q] => do
    let major ← component text a
    let minor ← component text b
    let micro ← component text c
    if isQualifier q then return ⟨major, minor, micro, q, text⟩
    else throw (.badQualifier text)
  | _ => .error (.tooManyParts text)

/-- Reads a version. Whitespace around it is dropped, also from the kept text. -/
def parse (s : Bytes) : Except VersionError Version :=
  let text := Bytes.trim s
  if text = [] then .error .empty else ofParts text (Bytes.splitOn (Ascii.byte '.') text)

/-- Numbers first, then the qualifier byte by byte; a missing qualifier comes first. -/
def compare (a b : Version) : Ordering :=
  (Ord.compare a.major b.major).then <|
    (Ord.compare a.minor b.minor).then <|
      (Ord.compare a.micro b.micro).then (Ord.compare a.qualifier b.qualifier)

end Version

end JavaFloor
