import JavaFloor.Proofs.Manifest.Lookup

/-!
# Reading a manifest in one pass

The fields of a manifest and their continuations need not be gathered before they are taken in. A
draft is a manifest in the making and knows the place of the field that was touched last. A field
overwrites the value of its name where this stands, a continuation is appended at the place touched
last, which may be far from the end.

* `Draft.take` takes one line in, and `pass` takes in one line after another.
* `take_field` and `take_continuation` say what this does to a draft whose last field is known.
* `parse_eq_pass`: one pass finds the same manifest, or the same error at the same line.
-/

namespace JavaFloor

namespace Manifest

/-- The fields so far, and the place of the one that was touched last, if any. -/
structure Draft where
  attributes : List (Bytes × Bytes)
  last : Option Nat

/-- Takes a line in; a continuation needs a field that was touched. -/
def Draft.take (d : Draft) : Line → Option Draft
  | .field name value =>
    some ⟨put name value d.attributes,
      some (d.attributes.findIdx fun a => Bytes.equalFold a.1 name)⟩
  | .continuation more =>
    d.last.map fun i => ⟨d.attributes.modify i fun a => (a.1, a.2 ++ more), some i⟩

/-- Takes the lines in, the first of which is line `n`. -/
def pass (d : Draft) (n : Nat) : List Bytes → Except ManifestError Manifest
  | [] => .ok ⟨d.attributes⟩
  | line :: rest =>
    match Line.read line with
    | .error fault => .error ⟨n, fault⟩
    | .ok r =>
      match d.take r with
      | none => .error ⟨n, .orphan⟩
      | some d => pass d (n + 1) rest

/-- The draft that fields make up, with one more field that was touched last. -/
def Draft.of (fs : List (Bytes × Bytes)) (name value : Bytes) : Draft :=
  ⟨put name value (ofFields fs).attributes,
    some ((ofFields fs).attributes.findIdx fun a => Bytes.equalFold a.1 name)⟩

variable {fs : List (Bytes × Bytes)}

/-- What is appended to a value that was put in might as well have been put in with it. -/
theorem modify_put (name value more : Bytes) (attributes : List (Bytes × Bytes)) :
    (put name value attributes).modify
        (attributes.findIdx fun a => Bytes.equalFold a.1 name) (fun a => (a.1, a.2 ++ more)) =
      put name (value ++ more) attributes := by
  induction attributes with
  | nil => rfl
  | cons a rest ih =>
    rw [put, put, List.findIdx_cons]
    cases Bytes.equalFold a.1 name with
    | true => rfl
    | false => exact congrArg (a :: ·) ih

theorem take_field {d : Draft} (hd : d.attributes = (ofFields fs).attributes)
    (name value : Bytes) : d.take (.field name value) = some (.of fs name value) := by
  rw [Draft.take, hd, Draft.of]

theorem take_continuation (fs : List (Bytes × Bytes)) (name value more : Bytes) :
    (Draft.of fs name value).take (.continuation more) = some (.of fs name (value ++ more)) := by
  rw [Draft.take, Draft.of, Option.map_some, modify_put, Draft.of]

theorem attributes_of (fs : List (Bytes × Bytes)) (name value : Bytes) :
    (Draft.of fs name value).attributes = (ofFields (fs ++ [(name, value)])).attributes := by
  rw [ofFields_concat, Draft.of]

/-- A field without continuations is a field as it stands. -/
theorem fields_field_field (name value name' value' : Bytes) (rs : List Line) :
    fields (.field name value :: .field name' value' :: rs) =
      (name, value) :: fields (.field name' value' :: rs) := by
  rw [fields, List.takeWhile_cons_of_neg (by simp [fields.isContinuation]), List.flatMap_nil,
    List.append_nil]

/-- A continuation belongs to the field above it. -/
theorem fields_field_continuation (name value more : Bytes) (rs : List Line) :
    fields (.field name value :: .continuation more :: rs) =
      fields (.field name (value ++ more) :: rs) := by
  rw [fields, fields, fields, List.takeWhile_cons_of_pos rfl, List.flatMap_cons, List.append_assoc]
  rfl

/-- Behind a field, the lines to come are taken in as if all of them were read first. -/
theorem pass_of {n : Nat} (hn : n ≠ 0) (fs : List (Bytes × Bytes)) (name value : Bytes)
    (ls : List Bytes) : pass (.of fs name value) (n + 1) ls =
      (readLines (n + 1) ls).map fun rs => ofFields (fs ++ fields (.field name value :: rs)) := by
  induction ls generalizing n fs name value with
  | nil =>
    rw [pass, readLines, attributes_of]
    simp [Except.map, fields]
  | cons line ls ih =>
    rw [pass, readLines]
    cases Line.read line with
    | error fault => rfl
    | ok r =>
      cases r with
      | field name' value' =>
        simp only [take_field (attributes_of fs name value)]
        rw [ih n.succ_ne_zero]
        cases readLines (n + 1 + 1) ls with
        | error e => rfl
        | ok rs => simp [Except.map, fields_field_field]
      | continuation more =>
        have hline : n + 1 ≠ 1 := by omega
        simp only [take_continuation, if_neg hline]
        rw [ih n.succ_ne_zero]
        cases readLines (n + 1 + 1) ls with
        | error e => rfl
        | ok rs => simp [Except.map, fields_field_continuation]

/-- **A manifest can be read in one pass**, with continuations appended in place. -/
theorem parse_eq_pass (s : Bytes) : parse s = pass ⟨[], none⟩ 1 (sectionLines s) := by
  rw [parse]
  cases sectionLines s with
  | nil => rfl
  | cons line ls =>
    rw [pass, readLines]
    cases Line.read line with
    | error fault => rfl
    | ok r =>
      cases r with
      | continuation more => rfl
      | field name value =>
        have hempty : (⟨[], none⟩ : Draft).attributes = (ofFields []).attributes := rfl
        simp only [take_field hempty]
        rw [pass_of Nat.one_ne_zero]
        cases readLines (1 + 1) ls with
        | error e => rfl
        | ok rs => rfl

end Manifest

end JavaFloor
