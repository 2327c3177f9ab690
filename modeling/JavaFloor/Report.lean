import JavaFloor.Category
import JavaFloor.Feature.Basic
import JavaFloor.Json.Basic

/-!
# Reports

The outcome for one feature archive is reported as a JSON object on one line.
-/

namespace JavaFloor

/-- The outcome for the feature archive at `path`. -/
inductive Report
  | success (path : Bytes) (feature : Feature)
  /-- A failure; the category may be none of the known ones. -/
  | failure (path : Bytes) (category : Option Category) (message : Bytes)

namespace Report

/-- The entries of a map as the members of an object. -/
def ofDict (d : Dict) : JsonValue := .object (d.entries.map fun e => (e.1, .string e.2))

/-- A value that may be missing. -/
def orNull {α : Type} (f : α → JsonValue) : Option α → JsonValue
  | some a => f a
  | none => .null

/-- The report as an object, its members in the order of their names. -/
def toJson : Report → JsonValue
  | success path f => .object
      [(ascii "minimumJavaVersion", orNull (fun j => .string j.minimum) f.java),
        (ascii "name", .string f.name),
        (ascii "path", .string path),
        (ascii "rawRequirements", orNull ofDict (f.java.bind (·.directives)))]
  | failure path category message => .object
      [(ascii "category", .string (Category.nameOf category)),
        (ascii "error", .string message),
        (ascii "path", .string path)]

/-- The report as a line, without its end. -/
def line (json : JsonLibrary) (r : Report) : Bytes := json.dump r.toJson

end Report

end JavaFloor
