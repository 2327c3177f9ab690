/-!
# Byte strings

Manifests, headers, paths and messages are strings of bytes in no particular encoding. This
module holds the ASCII character classes and the few operations on byte strings that the readers
share:

* `Bytes.trim` drops the ASCII whitespace at both ends;
* `Bytes.equalFold` compares two byte strings up to the case of ASCII letters;
* `Bytes.splitOn` cuts at every occurrence of a separator, keeping empty pieces;
* `Bytes.ofNat` writes a number in decimal, `Bytes.toNat` reads one.
-/

namespace JavaFloor

/-- A string of bytes. -/
abbrev Bytes := List UInt8

/-- The bytes of an ASCII text. -/
def ascii (s : String) : Bytes := s.toList.map fun c => UInt8.ofNat c.toNat

namespace Ascii

/-- The byte of an ASCII character. -/
abbrev byte (c : Char) : UInt8 := UInt8.ofNat c.toNat

/-- The line feed. -/
abbrev lineFeed : UInt8 := 0x0A

/-- The carriage return. -/
abbrev carriageReturn : UInt8 := 0x0D

/-- The horizontal tab. -/
abbrev tab : UInt8 := 0x09

/-- The blank. -/
abbrev space : UInt8 := 0x20

/-- The double quote. -/
abbrev quote : UInt8 := 0x22

/-- The backslash. -/
abbrev backslash : UInt8 := 0x5C

/-- The slash. -/
abbrev slash : UInt8 := 0x2F

/-- Blank, tab, line feed, vertical tab, form feed and carriage return. -/
def isSpace (c : UInt8) : Bool := c == space || (tab ≤ c && c ≤ carriageReturn)

/-- The digits `0` to `9`. -/
def isDigit (c : UInt8) : Bool := byte '0' ≤ c && c ≤ byte '9'

/-- The letters `A` to `Z`. -/
def isUpper (c : UInt8) : Bool := byte 'A' ≤ c && c ≤ byte 'Z'

/-- The letters `a` to `z`. -/
def isLower (c : UInt8) : Bool := byte 'a' ≤ c && c ≤ byte 'z'

/-- Letters and digits. -/
def isAlphanumeric (c : UInt8) : Bool := isDigit c || isUpper c || isLower c

/-- Letters, digits, `_` and `-`: the characters of a header name and of a version qualifier. -/
def isNameChar (c : UInt8) : Bool := isAlphanumeric c || c == byte '_' || c == byte '-'

/-- Small letters for capital ones, all else unchanged. -/
def toLower (c : UInt8) : UInt8 := if isUpper c then c + 0x20 else c

end Ascii

namespace Bytes

/-- Without the whitespace at the start. -/
def trimStart (s : Bytes) : Bytes := s.dropWhile Ascii.isSpace

/-- Without the whitespace at the end. -/
def trimEnd (s : Bytes) : Bytes := (s.reverse.dropWhile Ascii.isSpace).reverse

/-- Without the whitespace at both ends. -/
def trim (s : Bytes) : Bytes := trimEnd (trimStart s)

/-- With small letters for capital ones. -/
def lower (s : Bytes) : Bytes := s.map Ascii.toLower

/-- Equality up to the case of ASCII letters. -/
def equalFold (a b : Bytes) : Bool := lower a == lower b

/-- Whether `s` ends in `ending`. -/
def endsWith (s ending : Bytes) : Bool := ending.isSuffixOf s

/-- The pieces between the occurrences of `sep`, of which there is one more than of `sep`. -/
def splitOn (sep : UInt8) : Bytes → List Bytes
  | [] => [[]]
  | c :: s =>
    if c = sep then [] :: splitOn sep s
    else
      match splitOn sep s with
      | [] => [[c]]
      | piece :: pieces => (c :: piece) :: pieces

/-- The part behind the last `sep`, or all of `s` if there is none. -/
def afterLast (sep : UInt8) (s : Bytes) : Bytes := (s.reverse.takeWhile (· != sep)).reverse

/-- The part in front of the first NUL: all that is seen of a text which a NUL ends. -/
def untilNul (s : Bytes) : Bytes := s.takeWhile (· != 0)

/-- The decimal digits of a number. -/
def ofNat (n : Nat) : Bytes := (Nat.toDigits 10 n).map Ascii.byte

/-- The number that a string of decimal digits denotes. -/
def toNat (s : Bytes) : Nat := s.foldl (fun n c => 10 * n + (c - Ascii.byte '0').toNat) 0

/-- A text between double quotes, as messages show it. -/
def quoted (s : Bytes) : Bytes := Ascii.quote :: s ++ [Ascii.quote]

/-- The texts one after another with `sep` between them. -/
def join (sep : Bytes) : List Bytes → Bytes
  | [] => []
  | [s] => s
  | s :: t :: rest => s ++ sep ++ join sep (t :: rest)

@[simp]
theorem splitOn_nil (sep : UInt8) : splitOn sep [] = [[]] := rfl

/-- There is always a first piece. -/
theorem splitOn_ne_nil (sep : UInt8) (s : Bytes) : splitOn sep s ≠ [] := by
  cases s with
  | nil => simp
  | cons c s =>
    rw [splitOn]
    split
    · simp
    · split <;> simp

end Bytes

end JavaFloor
