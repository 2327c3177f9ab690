import JavaFloor.Filter.Reader
import JavaFloor.Requirement.Header

/-!
# Resolution

Each source of requirements, a component or the subsystem manifest, may demand a range of Java
versions. Resolution starts from a table of Java environments and drops every environment whose
range does not meet a demand.

* `SourceRequirement.demand?` reads the demand off a requirement header. Only the first clause of
  the namespace `osgi.ee` counts, and only a filter that asks for `JavaSE` and for a version.
* `Resolution.narrow` drops the environments that a demand does not meet and records each of them.
* `Resolution.absorb` takes one source into account, and `Resolution.resolve` all of them in their
  order; the first malformed one ends it.
-/

namespace JavaFloor

/-- A Java environment and the versions that programs for it may ask for. -/
structure Environment where
  label : Bytes
  range : VersionRange

/-- The requirement header of a source. -/
structure SourceRequirement where
  source : Bytes
  header : Bytes
  deriving DecidableEq

/-- The Java versions that a source asks for, and the filter that says so. -/
structure Demand where
  source : Bytes
  directive : Bytes
  range : VersionRange

/-- What is wrong with a requirement. -/
inductive RequirementFault
  | header (error : HeaderError)
  | filter (error : FilterError)
  | range (error : QuotedRangeError)
  deriving DecidableEq

namespace RequirementFault

/-- The text shown to the user. -/
def message : RequirementFault → Bytes
  | header error => ascii "malformed Require-Capability: " ++ error.message
  | filter error => ascii "malformed filter: " ++ error.message
  | range error => ascii "malformed version range: " ++ error.message

end RequirementFault

/-- A requirement that cannot be read. -/
structure MalformedRequirement where
  source : Bytes
  fault : RequirementFault
  deriving DecidableEq

namespace MalformedRequirement

/-- The text shown to the user. -/
def message (e : MalformedRequirement) : Bytes := e.source ++ ascii ": " ++ e.fault.message

end MalformedRequirement

namespace SourceRequirement

/-- The namespace of requirements on the execution environment, and the key under which a filter
names the kind of environment. -/
def environmentNamespace : Bytes := ascii "osgi.ee"

/-- The kind of environment that Java programs ask for. -/
def javaSE : Bytes := ascii "JavaSE"

/-- The filter of the first clause on the execution environment. -/
def directive? (clauses : List Clause) : Option Bytes :=
  (clauses.find? fun c => c.name == environmentNamespace).bind fun c =>
    c.directives.find? (ascii "filter")

/-- The text of the versions that a filter asks for, if it asks for Java. -/
def versionText? (f : Filter) : Option Bytes :=
  let expected := f.flatten
  if expected.find? environmentNamespace = some javaSE then expected.find? versionKey else none

/-- The demand that a filter makes, if it makes one. -/
def demandOf? (source directive : Bytes) : Except RequirementFault (Option Demand) :=
  match Filter.parse directive with
  | .error e => .error (.filter e)
  | .ok f =>
    match versionText? f with
    | none => .ok none
    | some text =>
      match VersionRange.parseQuoted text with
      | .error e => .error (.range e)
      | .ok range => .ok (some ⟨source, directive, range⟩)

/-- The demand that a requirement header makes, if it makes one. -/
def demand? (r : SourceRequirement) : Except MalformedRequirement (Option Demand) :=
  match Clause.parseHeader r.header with
  | .error e => .error ⟨r.source, .header e⟩
  | .ok clauses =>
    match directive? clauses with
    | none => .ok none
    | some directive => (demandOf? r.source directive).mapError (⟨r.source, ·⟩)

end SourceRequirement

/-- An environment dropped: the source that did not meet it, and what that source asked for. -/
structure Elimination where
  source : Bytes
  attempted : VersionRange
  label : Bytes

namespace Elimination

/-- The sentence that tells of an elimination. -/
def message (e : Elimination) : Bytes :=
  ascii "Manifest from " ++ e.source ++ ascii " with range " ++ e.attempted.render ++
    ascii " caused env for " ++ e.label ++ ascii " to be removed."

end Elimination

/-- The environments that are left, the eliminations so far in their order, and the filter of each
source that dropped an environment. -/
structure Resolution where
  surviving : List Environment
  eliminations : List Elimination
  directives : Dict

namespace Resolution

/-- Before any source. -/
def start (table : List Environment) : Resolution := ⟨table, [], .empty⟩

/-- Whether an environment has a version in common with a demand. -/
def meets (d : Demand) (e : Environment) : Bool := (e.range.intersect d.range).isSome

/-- Drops the environments that have no version in common with a demand. Those that stay keep
their own range. -/
def narrow (r : Resolution) (d : Demand) : Resolution :=
  let (kept, dropped) := r.surviving.partition (meets d)
  { surviving := kept
    eliminations := r.eliminations ++ dropped.map fun e => ⟨d.source, d.range, e.label⟩
    directives :=
      if dropped.isEmpty then r.directives else r.directives.insert d.source d.directive }

/-- Takes a further source into account. One that demands nothing changes nothing. -/
def absorb (r : Resolution) (s : SourceRequirement) : Except MalformedRequirement Resolution :=
  match s.demand? with
  | .error e => .error e
  | .ok none => .ok r
  | .ok (some d) => .ok (r.narrow d)

/-- Narrows a table of environments by the demands of the sources, one source after another. -/
def resolve (table : List Environment) (sources : List SourceRequirement) :
    Except MalformedRequirement Resolution :=
  sources.foldlM absorb (start table)

/-- No environment is left. -/
def isConflict (r : Resolution) : Bool := r.surviving.isEmpty

/-- The ceiling of the first environment left or, if it has none, its floor. -/
def minimumVersion (r : Resolution) : Bytes :=
  match r.surviving with
  | [] => []
  | e :: _ => (e.range.ceiling.getD e.range.floor).version.text

/-- The sentences on all eliminations, in their order, on one line. -/
def trail (r : Resolution) : Bytes :=
  Bytes.join (ascii " ") (r.eliminations.map Elimination.message)

end Resolution

/-- Version `1.n`. -/
def Version.javaRelease (n : UInt32) : Version :=
  ⟨1, n, 0, [], ascii "1." ++ Bytes.ofNat n.toNat⟩

/-- The environment of Java `n`, which runs programs for every release from 1.2 on. -/
def Environment.java (n : UInt32) : Option Environment :=
  (VersionRange.make ⟨.javaRelease 2, false⟩ (some ⟨.javaRelease n, false⟩)).map
    (⟨ascii "Java " ++ Bytes.ofNat n.toNat, ·⟩)

/-- Java 6 to Java 11, the table that resolution starts from unless told otherwise. -/
def javaEnvironments : List Environment := [6, 7, 8, 9, 10, 11].filterMap Environment.java

end JavaFloor
