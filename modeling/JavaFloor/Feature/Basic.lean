import JavaFloor.Dict

/-!
# Features

What is known of a feature: its name, and the Java versions it needs once they are determined.
-/

namespace JavaFloor

/-- The Java versions that a feature needs, and the filters of the sources that narrowed them. -/
structure JavaRequirement where
  minimum : Bytes
  maximum : Option Bytes
  directives : Option Dict

/-- A feature. The empty name means that it has none yet. -/
structure Feature where
  name : Bytes
  java : Option JavaRequirement

namespace Feature

/-- A feature of which nothing is known. -/
def unknown : Feature := ⟨[], none⟩

end Feature

end JavaFloor
