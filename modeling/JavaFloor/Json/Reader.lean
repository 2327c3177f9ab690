import JavaFloor.Json.Basic
import JavaFloor.Text.Utf8

/-!
# Reading JSON

`JsonValue.parse?` reads the value that a text starts with, after a byte order mark if there is one.
What stands behind the value is not looked at. Strings have to be well-formed UTF-8 without control
characters.

The readers of values call themselves with less and less fuel. Each call uses up at least one byte,
so that fuel for each byte of the text is enough.
-/

namespace JavaFloor

namespace JsonValue

/-- The text behind the blanks, tabs and line ends it starts with. -/
def skipSpace (s : Bytes) : Bytes :=
  s.dropWhile fun c =>
    c == Ascii.space || c == Ascii.tab || c == Ascii.lineFeed || c == Ascii.carriageReturn

/-- The value of a hexadecimal digit. -/
def hexValue? (c : UInt8) : Option Nat :=
  if Ascii.isDigit c then some (c - Ascii.byte '0').toNat
  else if Ascii.byte 'a' ≤ c ∧ c ≤ Ascii.byte 'f' then some ((c - Ascii.byte 'a').toNat + 10)
  else if Ascii.byte 'A' ≤ c ∧ c ≤ Ascii.byte 'F' then some ((c - Ascii.byte 'A').toNat + 10)
  else none

/-- The number that four hexadecimal digits denote, and the text behind them. -/
def readHex4 : Bytes → Option (Nat × Bytes)
  | a :: b :: c :: d :: s => do
    let a ← hexValue? a
    let b ← hexValue? b
    let c ← hexValue? c
    let d ← hexValue? d
    return (((a * 16 + b) * 16 + c) * 16 + d, s)
  | _ => none

/-- The character behind a backslash and a `u`. Two surrogates stand for one character; one alone is
none. -/
def readUnicode (s : Bytes) : Option (Bytes × Bytes) := do
  let (high, s) ← readHex4 s
  if high < 0xD800 ∨ 0xDFFF < high then return (Utf8.encode high, s)
  else if 0xDC00 ≤ high then none
  else
    match s with
    | c :: d :: s =>
      if c = Ascii.backslash ∧ d = Ascii.byte 'u' then
        let (low, s) ← readHex4 s
        if 0xDC00 ≤ low ∧ low ≤ 0xDFFF then
          return (Utf8.encode (0x10000 + (high - 0xD800) * 0x400 + (low - 0xDC00)), s)
        else none
      else none
    | _ => none

/-- The character behind a backslash. -/
def readEscape : Bytes → Option (Bytes × Bytes)
  | [] => none
  | c :: s =>
    if c = Ascii.quote ∨ c = Ascii.backslash ∨ c = Ascii.slash then some ([c], s)
    else if c = Ascii.byte 'b' then some ([0x08], s)
    else if c = Ascii.byte 'f' then some ([0x0C], s)
    else if c = Ascii.byte 'n' then some ([Ascii.lineFeed], s)
    else if c = Ascii.byte 'r' then some ([Ascii.carriageReturn], s)
    else if c = Ascii.byte 't' then some ([Ascii.tab], s)
    else if c = Ascii.byte 'u' then readUnicode s
    else none

/-- Reads a string from behind its opening quote. Of the characters read before, `front` holds the
bytes, the last one first. -/
def readString (fuel : Nat) (front : Bytes) (s : Bytes) : Option (Bytes × Bytes) :=
  match fuel, s with
  | fuel + 1, c :: s =>
    if c = Ascii.quote then some (front.reverse, s)
    else if c = Ascii.backslash then do
      let (bytes, s) ← readEscape s
      readString fuel (bytes.reverse ++ front) s
    else if c < 0x20 then none
    else
      let (n, complete) := Utf8.scan c s
      if complete then readString fuel ((s.take (n - 1)).reverse ++ c :: front) (s.drop (n - 1))
      else none
  | _, _ => none

/-- The digits at the start of a text, if there are any, and the text behind them. -/
def readDigits (s : Bytes) : Option (Bytes × Bytes) :=
  match s.takeWhile Ascii.isDigit with
  | [] => none
  | digits => some (digits, s.dropWhile Ascii.isDigit)

/-- The fraction at the start of a text, which may be missing. -/
def readFraction : Bytes → Option (Bytes × Bytes)
  | c :: s =>
    if c = Ascii.byte '.' then (readDigits s).map fun (digits, s) => (c :: digits, s)
    else some ([], c :: s)
  | [] => some ([], [])

/-- The exponent at the start of a text, which may be missing. -/
def readExponent : Bytes → Option (Bytes × Bytes)
  | c :: s =>
    if c = Ascii.byte 'e' ∨ c = Ascii.byte 'E' then
      let (sign, s) :=
        match s with
        | d :: t => if d = Ascii.byte '+' ∨ d = Ascii.byte '-' then ([d], t) else ([], d :: t)
        | [] => ([], [])
      (readDigits s).map fun (digits, s) => (c :: sign ++ digits, s)
    else some ([], c :: s)
  | [] => some ([], [])

/-- An integer that fits 64 bits, signed or unsigned. -/
def isWord (n : Int) : Bool := decide (-0x8000000000000000 ≤ n) && decide (n < UInt64.size)

/-- Reads a number. Only the zero itself starts with a zero. -/
def readNumber (s : Bytes) : Option (JsonValue × Bytes) := do
  let (sign, s) := if s.head? = some (Ascii.byte '-') then ([Ascii.byte '-'], s.tail) else ([], s)
  let (digits, s) ← if s.head? = some (Ascii.byte '0') then some ([Ascii.byte '0'], s.tail)
    else readDigits s
  let (fraction, s) ← readFraction s
  let (exponent, s) ← readExponent s
  let value : Int := Bytes.toNat digits
  let n := if sign = [] then value else -value
  if fraction = [] ∧ exponent = [] ∧ isWord n then return (integer n, s)
  else return (real (sign ++ digits ++ fraction ++ exponent), s)

/-- Reads one of the words `null`, `true` and `false`. -/
def readWord (word : Bytes) (value : JsonValue) (s : Bytes) : Option (JsonValue × Bytes) :=
  if word.isPrefixOf s then some (value, s.drop word.length) else none

mutual

/-- Reads a value, the blanks in front of it skipped. -/
def readValue (fuel : Nat) (s : Bytes) : Option (JsonValue × Bytes) :=
  match fuel, skipSpace s with
  | fuel + 1, c :: s =>
    if c = Ascii.byte '\x7b' then
      match skipSpace s with
      | d :: t =>
        if d = Ascii.byte '\x7d' then some (object [], t)
        else (readMembers fuel (d :: t)).map fun (ms, s) => (object ms, s)
      | [] => none
    else if c = Ascii.byte '[' then
      match skipSpace s with
      | d :: t =>
        if d = Ascii.byte ']' then some (array [], t)
        else (readItems fuel (d :: t)).map fun (vs, s) => (array vs, s)
      | [] => none
    else if c = Ascii.quote then
      (readString (s.length + 1) [] s).map fun (text, s) => (string text, s)
    else if c = Ascii.byte 'n' then readWord (ascii "null") null (c :: s)
    else if c = Ascii.byte 't' then readWord (ascii "true") (bool true) (c :: s)
    else if c = Ascii.byte 'f' then readWord (ascii "false") (bool false) (c :: s)
    else readNumber (c :: s)
  | _, _ => none

/-- Reads the items of an array up to its closing bracket. -/
def readItems (fuel : Nat) (s : Bytes) : Option (List JsonValue × Bytes) :=
  match fuel with
  | 0 => none
  | fuel + 1 => do
    let (v, s) ← readValue fuel s
    match skipSpace s with
    | c :: s =>
      if c = Ascii.byte ',' then
        let (vs, s) ← readItems fuel s
        return (v :: vs, s)
      else if c = Ascii.byte ']' then return ([v], s)
      else none
    | [] => none

/-- Reads the members of an object up to its closing brace. -/
def readMembers (fuel : Nat) (s : Bytes) : Option (List (Bytes × JsonValue) × Bytes) :=
  match fuel, skipSpace s with
  | fuel + 1, quote :: s => do
    if quote ≠ Ascii.quote then none
    let (name, s) ← readString (s.length + 1) [] s
    match skipSpace s with
    | colon :: s =>
      if colon ≠ Ascii.byte ':' then none
      let (v, s) ← readValue fuel s
      match skipSpace s with
      | c :: s =>
        if c = Ascii.byte ',' then
          let (ms, s) ← readMembers fuel s
          return ((name, v) :: ms, s)
        else if c = Ascii.byte '\x7d' then return ([(name, v)], s)
        else none
      | [] => none
    | [] => none
  | _, _ => none

end

/-- Reads the value that a text starts with. -/
def parse? (s : Bytes) : Option JsonValue :=
  let text := Utf8.dropByteOrderMark s
  (readValue (text.length + 1) text).map (·.1)

end JsonValue

end JavaFloor
