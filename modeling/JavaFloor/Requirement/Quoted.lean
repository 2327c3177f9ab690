import JavaFloor.Version.Range

/-!
# Quoted text

Inside double quotes a header's separators lose their meaning, and a backslash takes the next byte
literally.

* `Quoted.splitOn` cuts a text at the separators that stand outside quotes.
* `Quoted.unquote` takes the quotes off a value.
* `VersionRange.parseQuoted` reads a version range that may stand between quotes.
-/

namespace JavaFloor

namespace Quoted

/-- Puts a byte in front of the first piece. -/
def extend (c : UInt8) : List Bytes → List Bytes
  | [] => [[c]]
  | piece :: pieces => (c :: piece) :: pieces

/-- The pieces of a text between the separators outside quotes, or `none` if the text ends inside
quotes. `inside` tells whether the text starts inside quotes. -/
def pieces (sep : UInt8) (inside : Bool) : Bytes → Option (List Bytes)
  | [] => if inside then none else some [[]]
  | c :: s =>
    if inside then
      if c = Ascii.backslash then
        match s with
        | [] => none
        | d :: s => (pieces sep true s).map fun ps => extend c (extend d ps)
      else (pieces sep (c != Ascii.quote) s).map (extend c)
    else if c = Ascii.quote then (pieces sep true s).map (extend c)
    else if c = sep then (pieces sep false s).map ([] :: ·)
    else (pieces sep false s).map (extend c)

/-- Cuts a text at the separators outside quotes, or fails if it ends inside quotes. -/
def splitOn (sep : UInt8) (s : Bytes) : Option (List Bytes) := pieces sep false s

/-- Takes off the backslashes. One at the very end stands for itself. -/
def unescape : Bytes → Bytes
  | [] => []
  | [c] => [c]
  | c :: d :: s => if c = Ascii.backslash then d :: unescape s else c :: unescape (d :: s)

/-- The value that a text stands for: the text itself without the whitespace around it or, if a
quote opens it, what stands between that quote and the one that ends it. It is `none` if no quote
ends it. -/
def unquote (s : Bytes) : Option Bytes :=
  match Bytes.trim s with
  | [] => some []
  | first :: rest =>
    if first = Ascii.quote then
      if rest.getLast? = some Ascii.quote then some (unescape rest.dropLast) else none
    else some (first :: rest)

end Quoted

/-- Why a value is not a version range between quotes. -/
inductive QuotedRangeError
  /-- A quote opens the value and none ends it. -/
  | unterminated (value : Bytes)
  /-- The value is not a version range. -/
  | range (error : VersionRangeError)
  deriving DecidableEq

namespace QuotedRangeError

/-- The text shown to the user. -/
def message : QuotedRangeError → Bytes
  | unterminated value => ascii "unterminated quote in value " ++ value
  | range error => error.message

end QuotedRangeError

/-- Reads a version range that may stand between quotes. -/
def VersionRange.parseQuoted (s : Bytes) : Except QuotedRangeError VersionRange :=
  match Quoted.unquote s with
  | none => .error (.unterminated (Bytes.trim s))
  | some value => (VersionRange.parse value).mapError .range

end JavaFloor
