import JavaFloor.Bytes

/-!
# JSON values

Numbers are integers if they are written without fraction and exponent and fit 64 bits, signed or
unsigned; any other number keeps its text. Of the members of an object the last one of a name
counts.

How a text is read as a value and a value written as a text is the matter of a `JsonLibrary`.
Everything above it holds for every such library.
-/

namespace JavaFloor

/-- A JSON value. -/
inductive JsonValue
  | null
  | bool (b : Bool)
  | integer (n : Int)
  | real (text : Bytes)
  | string (s : Bytes)
  | array (items : List JsonValue)
  | object (members : List (Bytes × JsonValue))

namespace JsonValue

/-- The last member of that name. -/
def member? (members : List (Bytes × JsonValue)) (name : Bytes) : Option JsonValue :=
  (members.reverse.find? (·.1 == name)).map (·.2)

end JsonValue

/-- What reads JSON and writes it. -/
structure JsonLibrary where
  /-- The value that a text starts with, or what is said of a text that starts with none. -/
  parse : Bytes → Except Bytes JsonValue
  /-- A value on one line. Where a string is no well-formed UTF-8, it is repaired. -/
  dump : JsonValue → Bytes

namespace JsonLibrary

/-- What consists of nulls, strings and objects is written on one line. -/
structure WritesLines (json : JsonLibrary) : Prop where
  null : Ascii.lineFeed ∉ json.dump .null
  /-- A line feed in a string is escaped. -/
  string (s : Bytes) : Ascii.lineFeed ∉ json.dump (.string s)
  /-- No line feeds are put between the members of an object. -/
  object (members : List (Bytes × JsonValue)) :
    (∀ m ∈ members, Ascii.lineFeed ∉ json.dump m.2) → Ascii.lineFeed ∉ json.dump (.object members)

end JsonLibrary

end JavaFloor
