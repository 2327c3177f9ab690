import JavaFloor.Dict
import JavaFloor.Version.Range

/-!
# Filters as conjunctions of literals

A filter such as `(&(osgi.ee=JavaSE)(version>=1.7)(!(version>=1.9)))` joins terms by conjunction
and negation only, and a conjunction is never negated. So it says that all of its terms hold, each
of them as it stands or negated: a filter is a list of literals, in the order of the text.

* `Filter.floor?` and `Filter.ceiling?` gather the comparisons into the highest floor and the lowest
  ceiling.
* `Filter.flatten` turns a filter into a map from attribute names to expected values, with the
  interval of the comparisons under `version`.
-/

namespace JavaFloor

/-- The direction of a comparison with a version. -/
inductive Relation
  | atLeast
  | atMost
  deriving DecidableEq

/-- One term of a filter. -/
inductive Term
  /-- An attribute other than the version has this value. -/
  | attr (key value : Bytes)
  /-- The version is this text. -/
  | version (value : Bytes)
  /-- The version is at least, or at most, `bound`. -/
  | compare (relation : Relation) (bound : Version)
  deriving DecidableEq

/-- A term or its negation. -/
structure Literal where
  negated : Bool
  term : Term
  deriving DecidableEq

/-- The literals that hold together. -/
abbrev Filter := List Literal

/-- The name under which a filter speaks of the version. -/
def versionKey : Bytes := ascii "version"

namespace Literal

/-- The floor that a literal demands: `>=` as it stands, or `<=` negated. -/
def floor? : Literal → Option Bound
  | ⟨false, .compare .atLeast v⟩ => some ⟨v, false⟩
  | ⟨true, .compare .atMost v⟩ => some ⟨v, true⟩
  | _ => none

/-- The ceiling that a literal demands: `<=` as it stands, or `>=` negated. -/
def ceiling? : Literal → Option Bound
  | ⟨false, .compare .atMost v⟩ => some ⟨v, false⟩
  | ⟨true, .compare .atLeast v⟩ => some ⟨v, true⟩
  | _ => none

/-- The entry that a literal asks for word by word. A negated attribute asks for none. -/
def entry? : Literal → Option (Bytes × Bytes)
  | ⟨false, .attr key value⟩ => some (key, value)
  | ⟨false, .version value⟩ => some (versionKey, value)
  | _ => none

end Literal

namespace Bound

/-- A floor after a further demand `b`: the higher one, at a tie the exclusive one, and `b` if both
are exclusive. -/
def raise (b : Bound) : Option Bound → Bound
  | none => b
  | some old =>
    match b.version.compare old.version with
    | .lt => old
    | .eq => if b.exclusive then b else old
    | .gt => b

/-- A ceiling after a further demand `b`: the lower one, at a tie the exclusive one, and `b` if
both are exclusive. -/
def lower (b : Bound) : Option Bound → Bound
  | none => b
  | some old =>
    match b.version.compare old.version with
    | .gt => old
    | .eq => if b.exclusive then b else old
    | .lt => b

end Bound

namespace Filter

/-- The highest floor that the literals demand. -/
def floor? (f : Filter) : Option Bound :=
  (f.filterMap Literal.floor?).foldl (fun old b => some (b.raise old)) none

/-- The lowest ceiling that the literals demand. -/
def ceiling? (f : Filter) : Option Bound :=
  (f.filterMap Literal.ceiling?).foldl (fun old b => some (b.lower old)) none

/-- The text of the interval between a floor and a ceiling, in or out of order. A missing floor is
`0.0.0`. -/
def intervalText (floor : Option Bound) (ceiling : Option Bound) : Bytes :=
  Bound.renderInterval (floor.getD ⟨.zero, false⟩) ceiling

/-- The interval of the comparisons, if there are any. -/
def interval? (f : Filter) : Option Bytes :=
  if f.floor?.isSome || f.ceiling?.isSome then some (intervalText f.floor? f.ceiling?) else none

/-- The entries that the literals ask for, the last one of each key. The interval of the
comparisons overrules a version given word by word. -/
def flatten (f : Filter) : Dict :=
  let entries := Dict.ofList (f.filterMap Literal.entry?)
  match f.interval? with
  | some text => entries.insert versionKey text
  | none => entries

end Filter

end JavaFloor
