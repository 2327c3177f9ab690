import JavaFloor.Version

/-!
# Version ranges

A range has a floor and possibly a ceiling, each of them inclusive or exclusive. Its text forms are
`[a,b]`, `(a,b)`, `[a,b)`, `(a,b]`, the same with an empty ceiling, and a bare `a` for "`a` or
later".

* A range never has its bounds inverted: `VersionRange.make` is the only way to build one, and it
  refuses bounds that leave nothing between them.
* `VersionRange.intersect` takes the higher floor and the lower ceiling. Where two bounds tie, the
  left one lends its text and an exclusive end wins.
* `VersionRange.parse` reads a range, `VersionRange.render` writes one.
-/

namespace JavaFloor

/-- One end of a range. -/
structure Bound where
  version : Version
  exclusive : Bool
  deriving DecidableEq

namespace Bound

/-- `v` is not below the floor `b`. -/
def IsBelow (b : Bound) (v : Version) : Prop :=
  b.version.compare v = .lt ∨ (b.version.compare v = .eq ∧ b.exclusive = false)

/-- `v` is not above the ceiling `b`. -/
def IsAbove (b : Bound) (v : Version) : Prop :=
  v.compare b.version = .lt ∨ (v.compare b.version = .eq ∧ b.exclusive = false)

instance (b : Bound) (v : Version) : Decidable (b.IsBelow v) :=
  inferInstanceAs (Decidable (_ ∨ _))

instance (b : Bound) (v : Version) : Decidable (b.IsAbove v) :=
  inferInstanceAs (Decidable (_ ∨ _))

/-- The higher of two floors; at a tie the first one, exclusive if either is. -/
def highest (a b : Bound) : Bound :=
  match a.version.compare b.version with
  | .lt => b
  | .eq => ⟨a.version, a.exclusive || b.exclusive⟩
  | .gt => a

/-- The lower of two ceilings; at a tie the first one, exclusive if either is. -/
def lowest (a b : Bound) : Bound :=
  match a.version.compare b.version with
  | .lt => a
  | .eq => ⟨a.version, a.exclusive || b.exclusive⟩
  | .gt => b

/-- The lower of two ceilings that may be missing. -/
def lowest? : Option Bound → Option Bound → Option Bound
  | some a, some b => some (lowest a b)
  | some a, none => some a
  | none, b => b

/-- The floor is below the ceiling, or they are equal and both inclusive. -/
def InOrder (floor : Bound) : Option Bound → Prop
  | none => True
  | some ceiling =>
    floor.version.compare ceiling.version = .lt ∨
      (floor.version.compare ceiling.version = .eq ∧
        floor.exclusive = false ∧ ceiling.exclusive = false)

instance (floor : Bound) : (ceiling : Option Bound) → Decidable (InOrder floor ceiling)
  | none => .isTrue trivial
  | some _ => inferInstanceAs (Decidable (_ ∨ _))

/-- Writes the interval between two bounds. One without ceiling is written as its floor alone, if
that is inclusive. -/
def renderInterval (floor : Bound) : Option Bound → Bytes
  | none =>
    if floor.exclusive then ascii "(" ++ floor.version.text ++ ascii ",)" else floor.version.text
  | some ceiling =>
    ascii (if floor.exclusive then "(" else "[") ++ floor.version.text ++ ascii "," ++
      ceiling.version.text ++ ascii (if ceiling.exclusive then ")" else "]")

end Bound

/-- An interval of versions whose bounds are in order. -/
structure VersionRange where
  floor : Bound
  ceiling : Option Bound
  inOrder : Bound.InOrder floor ceiling

/-- Why a text is not a version range. -/
inductive VersionRangeError
  /-- Nothing but whitespace. -/
  | empty
  /-- An opening bracket, but no closing one at the end. -/
  | unclosed (text : Bytes)
  /-- Not exactly one comma between the brackets. -/
  | notAPair (text : Bytes)
  /-- The bounds leave nothing between them. -/
  | inverted (text : Bytes)
  /-- One of the bounds is not a version. -/
  | badVersion (error : VersionError)
  deriving DecidableEq

namespace VersionRangeError

/-- The text shown to the user. -/
def message : VersionRangeError → Bytes
  | empty => ascii "invalid version range: empty string"
  | unclosed text =>
    ascii "invalid version range " ++ Bytes.quoted text ++ ascii ": missing closing bracket"
  | notAPair text =>
    ascii "invalid version range " ++ Bytes.quoted text ++ ascii ": expected floor,ceiling"
  | inverted text =>
    ascii "invalid version range " ++ Bytes.quoted text ++ ascii ": empty interval"
  | badVersion error => error.message

end VersionRangeError

namespace VersionRange

/-- `v` lies within the bounds of `r`. -/
protected def Mem (r : VersionRange) (v : Version) : Prop :=
  r.floor.IsBelow v ∧ ∀ ceiling ∈ r.ceiling, ceiling.IsAbove v

instance : Membership Version VersionRange := ⟨VersionRange.Mem⟩

/-- The range between two bounds, if they are in order. -/
def make (floor : Bound) (ceiling : Option Bound) : Option VersionRange :=
  if h : Bound.InOrder floor ceiling then some ⟨floor, ceiling, h⟩ else none

/-- The version `v` and all later ones. -/
def atLeast (v : Version) : VersionRange := ⟨⟨v, false⟩, none, trivial⟩

/-- The versions of both ranges, if the bounds leave any room for them. -/
def intersect (r s : VersionRange) : Option VersionRange :=
  make (r.floor.highest s.floor) (Bound.lowest? r.ceiling s.ceiling)

/-- The bytes that open an interval, `[` and `(`. -/
def isOpening (c : UInt8) : Bool := c == Ascii.byte '[' || c == Ascii.byte '('

/-- The bytes that close an interval, `]` and `)`. -/
def isClosing (c : UInt8) : Bool := c == Ascii.byte ']' || c == Ascii.byte ')'

/-- Reads a bound's version. -/
def boundVersion (s : Bytes) : Except VersionRangeError Version :=
  match Version.parse s with
  | .ok v => .ok v
  | .error e => .error (.badVersion e)

/-- Reads the ceiling, which is missing if nothing but whitespace stands there. -/
def ceilingVersion (s : Bytes) : Except VersionRangeError (Option Version) :=
  if Bytes.trim s = [] then .ok none else (boundVersion s).map some

/-- Reads `body`, what stands between the brackets of the range `text`. -/
def parseInterval (text body : Bytes) (floorExclusive ceilingExclusive : Bool) :
    Except VersionRangeError VersionRange :=
  match Bytes.splitOn (Ascii.byte ',') body with
  | [low, high] => do
    let floor ← boundVersion low
    let ceiling ← ceilingVersion high
    match make ⟨floor, floorExclusive⟩ (ceiling.map (⟨·, ceilingExclusive⟩)) with
    | some r => return r
    | none => throw (.inverted text)
  | _ => .error (.notAPair text)

/-- Reads a range. -/
def parse (s : Bytes) : Except VersionRangeError VersionRange :=
  let text := Bytes.trim s
  match text with
  | [] => .error .empty
  | first :: rest =>
    if isOpening first then
      match rest.getLast? with
      | some last =>
        if isClosing last then
          parseInterval text rest.dropLast (first == Ascii.byte '(') (last == Ascii.byte ')')
        else .error (.unclosed text)
      | none => .error (.unclosed text)
    else (boundVersion text).map atLeast

/-- Writes a range. -/
def render (r : VersionRange) : Bytes := Bound.renderInterval r.floor r.ceiling

end VersionRange

end JavaFloor
