import JavaFloor.Json.Reader

/-!
# Writing JSON

`JsonValue.render` writes a value on one line without blanks. Strings are made well-formed UTF-8;
of their characters, quotes, backslashes and control characters are escaped.

`JsonLibrary.standard` is the library that the program runs with.
-/

namespace JavaFloor

namespace JsonValue

/-- A hexadecimal digit. -/
def hexDigit (n : Nat) : UInt8 := Ascii.byte (Nat.digitChar n)

/-- A byte as it stands in a string. -/
def escape (c : UInt8) : Bytes :=
  if c = Ascii.quote then [Ascii.backslash, Ascii.quote]
  else if c = Ascii.backslash then [Ascii.backslash, Ascii.backslash]
  else if c = 0x08 then [Ascii.backslash, Ascii.byte 'b']
  else if c = Ascii.tab then [Ascii.backslash, Ascii.byte 't']
  else if c = Ascii.lineFeed then [Ascii.backslash, Ascii.byte 'n']
  else if c = 0x0C then [Ascii.backslash, Ascii.byte 'f']
  else if c = Ascii.carriageReturn then [Ascii.backslash, Ascii.byte 'r']
  else if c < 0x20 then
    Ascii.backslash :: ascii "u00" ++ [hexDigit (c.toNat / 16), hexDigit (c.toNat % 16)]
  else [c]

/-- A string between its quotes. -/
def renderString (s : Bytes) : Bytes := Bytes.quoted ((Utf8.repair s).flatMap escape)

mutual

/-- Writes a value. -/
def render : JsonValue → Bytes
  | null => ascii "null"
  | bool b => ascii (if b then "true" else "false")
  | integer n => (if n < 0 then ascii "-" else []) ++ Bytes.ofNat n.natAbs
  | real text => text
  | string s => renderString s
  | array items => ascii "[" ++ Bytes.join (ascii ",") (renderItems items) ++ ascii "]"
  | object members =>
    ascii "\x7b" ++ Bytes.join (ascii ",") (renderMembers members) ++ ascii "\x7d"

/-- Writes the items of an array, each by itself. -/
def renderItems : List JsonValue → List Bytes
  | [] => []
  | v :: vs => render v :: renderItems vs

/-- Writes the members of an object, each by itself. -/
def renderMembers : List (Bytes × JsonValue) → List Bytes
  | [] => []
  | (name, v) :: ms => (renderString name ++ ascii ":" ++ render v) :: renderMembers ms

end

end JsonValue

/-- The library that the program runs with. -/
def JsonLibrary.standard : JsonLibrary where
  parse text :=
    match JsonValue.parse? text with
    | some v => .ok v
    | none => .error (ascii "syntax error")
  dump := JsonValue.render

end JavaFloor
