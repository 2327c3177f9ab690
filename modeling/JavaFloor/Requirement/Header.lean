import JavaFloor.Dict
import JavaFloor.Requirement.Quoted

/-!
# The requirement header

The value of a `Require-Capability` header is a list of clauses separated by commas. A clause is a
namespace followed by parameters, each behind a semicolon: `key=value` for an attribute,
`key:Type=value` for an attribute whose type is dropped, and `key:=value` for a directive.

* `Clause.parseHeader` reads a header value, keeping the order of the clauses.
* `HeaderError` lists what can be wrong with one.
-/

namespace JavaFloor

/-- One clause of a requirement header. -/
structure Clause where
  name : Bytes
  attributes : Dict
  directives : Dict

/-- Why a text is not a requirement header. -/
inductive HeaderError
  /-- The text ends inside quotes. -/
  | unterminatedQuote (text : Bytes)
  /-- A clause starts with a semicolon. -/
  | noNamespace (clause : Bytes)
  /-- A clause's namespace has an equals sign or a quote in it. -/
  | badNamespace (name : Bytes)
  /-- A parameter has no equals sign, or starts with it. -/
  | noEqualsSign (clause parameter : Bytes)
  /-- Nothing stands for the name of a parameter. -/
  | noParameterName (clause : Bytes)
  /-- A quote opens a parameter's value and none ends it. -/
  | unterminatedValue (value : Bytes)
  deriving DecidableEq

namespace HeaderError

/-- The text shown to the user. -/
def message : HeaderError → Bytes
  | unterminatedQuote text => ascii "unterminated quote in " ++ Bytes.quoted text
  | noNamespace clause => ascii "clause without namespace: " ++ Bytes.quoted clause
  | badNamespace name => ascii "invalid namespace " ++ Bytes.quoted name
  | noEqualsSign clause parameter =>
    ascii "parameter without '=' in clause " ++ clause ++ ascii ": " ++ Bytes.quoted parameter
  | noParameterName clause => ascii "empty parameter name in clause " ++ clause
  | unterminatedValue value => ascii "unterminated quote in value " ++ value

end HeaderError

/-- A parameter of a clause. -/
inductive Parameter
  | attr (key value : Bytes)
  | directive (key value : Bytes)
  deriving DecidableEq

namespace Parameter

/-- The name of an attribute, given what stands before the equals sign. -/
def attributeName (s : Bytes) : Bytes :=
  Bytes.trim ((Bytes.trim s).takeWhile (· != Ascii.byte ':'))

/-- Reads a parameter of the clause of namespace `clause`. Whitespace alone is no parameter. -/
def parse (clause text : Bytes) : Except HeaderError (Option Parameter) :=
  let parameter := Bytes.trim text
  if parameter = [] then .ok none
  else
    let before := parameter.takeWhile (· != Ascii.byte '=')
    match parameter.dropWhile (· != Ascii.byte '=') with
    | [] => .error (.noEqualsSign clause parameter)
    | _ :: after =>
      match before.getLast? with
      | none => .error (.noEqualsSign clause parameter)
      | some last =>
        let isDirective := last == Ascii.byte ':'
        let key := if isDirective then Bytes.trim before.dropLast else attributeName before
        if key = [] then .error (.noParameterName clause)
        else
          match Quoted.unquote after with
          | none => .error (.unterminatedValue (Bytes.trim after))
          | some value =>
            .ok (some (if isDirective then .directive key value else .attr key value))

end Parameter

namespace Clause

/-- Takes a parameter into its clause. A repeated key keeps its last value. -/
def add (c : Clause) : Parameter → Clause
  | .attr key value => { c with attributes := c.attributes.insert key value }
  | .directive key value => { c with directives := c.directives.insert key value }

/-- The clause of the given namespace and parameters. -/
def ofParameters (name : Bytes) (ps : List Parameter) : Clause :=
  ps.foldl add ⟨name, .empty, .empty⟩

/-- Reads a clause. -/
def parse (text : Bytes) : Except HeaderError Clause :=
  match Quoted.splitOn (Ascii.byte ';') text with
  | none => .error (.unterminatedQuote text)
  | some [] => .error (.noNamespace (Bytes.trim text))
  | some (first :: parameters) =>
    let name := Bytes.trim first
    if name = [] then .error (.noNamespace (Bytes.trim text))
    else if name.any fun c => c == Ascii.byte '=' || c == Ascii.quote then
      .error (.badNamespace name)
    else do
      let ps ← parameters.mapM (Parameter.parse name)
      return ofParameters name (ps.filterMap id)

/-- Reads a header value. Between commas there may be whitespace alone. -/
def parseHeader (text : Bytes) : Except HeaderError (List Clause) :=
  match Quoted.splitOn (Ascii.byte ',') text with
  | none => .error (.unterminatedQuote text)
  | some clauses => (clauses.filter fun c => Bytes.trim c ≠ []).mapM parse

end Clause

end JavaFloor
