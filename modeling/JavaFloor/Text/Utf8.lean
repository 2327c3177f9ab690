import JavaFloor.Bytes

/-!
# UTF-8

Texts that leave the program as JSON have to be well-formed UTF-8, but paths and manifests need not
be.

* `Utf8.scan` finds the well-formed character that a byte string starts with, or the longest start
  of one.
* `Utf8.repair` puts a replacement character in the place of whatever is ill-formed.
* `Utf8.encode` writes a character.
* `Utf8.dropByteOrderMark` takes off the mark that may stand in front of a text.
-/

namespace JavaFloor

namespace Utf8

/-- The bytes of `U+FFFD`. -/
def replacement : Bytes := [0xEF, 0xBF, 0xBD]

/-- The mark that may stand in front of a text. -/
def byteOrderMark : Bytes := [0xEF, 0xBB, 0xBF]

/-- The text behind a byte order mark, if it starts with one. -/
def dropByteOrderMark (s : Bytes) : Bytes :=
  if byteOrderMark.isPrefixOf s then s.drop byteOrderMark.length else s

/-- The ranges of the bytes that have to follow a first byte other than an ASCII one. A byte that
starts no character has none. -/
def following (first : UInt8) : List (UInt8 × UInt8) :=
  if first < 0xC2 then []
  else if first ≤ 0xDF then [(0x80, 0xBF)]
  else if first = 0xE0 then [(0xA0, 0xBF), (0x80, 0xBF)]
  else if first = 0xED then [(0x80, 0x9F), (0x80, 0xBF)]
  else if first ≤ 0xEF then [(0x80, 0xBF), (0x80, 0xBF)]
  else if first = 0xF0 then [(0x90, 0xBF), (0x80, 0xBF), (0x80, 0xBF)]
  else if first ≤ 0xF3 then [(0x80, 0xBF), (0x80, 0xBF), (0x80, 0xBF)]
  else if first = 0xF4 then [(0x80, 0x8F), (0x80, 0xBF), (0x80, 0xBF)]
  else []

/-- How many bytes at the start of a text lie in the ranges, one in each, and whether that is all
the ranges. -/
def follow : List (UInt8 × UInt8) → Bytes → Nat × Bool
  | [], _ => (0, true)
  | _ :: _, [] => (0, false)
  | range :: ranges, c :: s =>
    if range.1 ≤ c ∧ c ≤ range.2 then
      let (n, complete) := follow ranges s
      (n + 1, complete)
    else (0, false)

/-- The number of bytes of the character that starts with `first`, as far as it goes on in `s`, and
whether it is complete. -/
def scan (first : UInt8) (s : Bytes) : Nat × Bool :=
  if first < 0x80 then (1, true)
  else
    match following first with
    | [] => (1, false)
    | ranges =>
      let (n, complete) := follow ranges s
      (n + 1, complete)

/-- The text with a replacement character for each character that breaks off and for each byte that
starts none. -/
def repair : Bytes → Bytes
  | [] => []
  | c :: s =>
    let (n, complete) := scan c s
    (if complete then c :: s.take (n - 1) else replacement) ++ repair (s.drop (n - 1))
termination_by s => s.length
decreasing_by
  simp only [List.length_cons, List.length_drop]
  omega

/-- The bytes of the character with the given number. -/
def encode (n : Nat) : Bytes :=
  let tail (shift : Nat) : UInt8 := UInt8.ofNat (0x80 + (n >>> shift) % 64)
  if n < 0x80 then [UInt8.ofNat n]
  else if n < 0x800 then [UInt8.ofNat (0xC0 + n >>> 6), tail 0]
  else if n < 0x10000 then [UInt8.ofNat (0xE0 + n >>> 12), tail 6, tail 0]
  else [UInt8.ofNat (0xF0 + n >>> 18), tail 12, tail 6, tail 0]

end Utf8

end JavaFloor
