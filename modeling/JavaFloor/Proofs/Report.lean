import JavaFloor.Json.Writer
import JavaFloor.Proofs.Bytes
import JavaFloor.Report

/-!
# Reports on one line

A report is written as one object. Its values are strings, nulls and an object of strings, so that a
library that writes these on one line writes every report on one line, whatever the path, the name
and the messages are.

* `JsonLibrary.standard_writesLines`: the library that the program runs with escapes line feeds.
* `Report.line_success` and `Report.line_failure` say what the members of the object are.
* `Report.lineFeed_notMem_line`: no report has a line feed in it.
-/

namespace JavaFloor

namespace JsonValue

theorem lineFeed_notMem_escape (c : UInt8) : Ascii.lineFeed ∉ escape c :=
  Bytes.forall_of_lt (p := fun c => Ascii.lineFeed ∉ escape c) (by decide +kernel) c

theorem lineFeed_notMem_renderString (s : Bytes) : Ascii.lineFeed ∉ renderString s := by
  have hquote : Ascii.lineFeed ≠ Ascii.quote := by decide
  simp [renderString, Bytes.quoted, hquote, lineFeed_notMem_escape]

theorem lineFeed_notMem_join {pieces : List Bytes} (h : ∀ s ∈ pieces, Ascii.lineFeed ∉ s) :
    Ascii.lineFeed ∉ Bytes.join (ascii ",") pieces := by
  have hcomma : Ascii.lineFeed ∉ ascii "," := by decide
  induction pieces using Bytes.join.induct with
  | case1 => exact List.not_mem_nil
  | case2 s => exact h s List.mem_cons_self
  | case3 s rest hrest ih =>
    have hs := h s List.mem_cons_self
    have hih := ih fun t ht => h t (List.mem_cons_of_mem s ht)
    rw [Bytes.join]
    simp [hs, hcomma, hih]

/-- The members of an object are written one by one. -/
theorem renderMembers_eq_map (members : List (Bytes × JsonValue)) :
    renderMembers members = members.map fun m => renderString m.1 ++ ascii ":" ++ m.2.render := by
  induction members with
  | nil => rfl
  | cons m members ih => rw [renderMembers, ih, List.map_cons]

theorem lineFeed_notMem_object {members : List (Bytes × JsonValue)}
    (h : ∀ m ∈ members, Ascii.lineFeed ∉ m.2.render) :
    Ascii.lineFeed ∉ (object members).render := by
  have hbraces : Ascii.lineFeed ∉ ascii "\x7b" ∧ Ascii.lineFeed ∉ ascii "\x7d" ∧
      Ascii.lineFeed ∉ ascii ":" := by decide
  have hmembers : Ascii.lineFeed ∉ Bytes.join (ascii ",") (renderMembers members) := by
    refine lineFeed_notMem_join fun s hs => ?_
    rw [renderMembers_eq_map] at hs
    obtain ⟨m, hm, rfl⟩ := List.mem_map.1 hs
    simp [lineFeed_notMem_renderString, hbraces, h m hm]
  rw [render]
  simp [hbraces, hmembers]

end JsonValue

theorem JsonLibrary.standard_writesLines : standard.WritesLines where
  null := by decide
  string := JsonValue.lineFeed_notMem_renderString
  object _ := JsonValue.lineFeed_notMem_object

namespace Report

variable {json : JsonLibrary}

theorem line_success (json : JsonLibrary) (path : Bytes) (f : Feature) :
    (success path f).line json = json.dump (.object
      [(ascii "minimumJavaVersion", match f.java with
          | some j => .string j.minimum
          | none => .null),
        (ascii "name", .string f.name),
        (ascii "path", .string path),
        (ascii "rawRequirements", match f.java.bind (·.directives) with
          | some d => .object (d.entries.map fun e => (e.1, .string e.2))
          | none => .null)]) := by
  rw [line, toJson]
  cases f.java.bind (·.directives) <;> cases f.java <;> rfl

theorem line_failure (json : JsonLibrary) (path : Bytes) (category : Option Category)
    (message : Bytes) :
    (failure path category message).line json = json.dump (.object
      [(ascii "category", .string (Category.nameOf category)),
        (ascii "error", .string message),
        (ascii "path", .string path)]) := rfl

theorem lineFeed_notMem_orNull {α : Type} {f : α → JsonValue} {x : Option α}
    (hjson : json.WritesLines) (h : ∀ a, Ascii.lineFeed ∉ json.dump (f a)) :
    Ascii.lineFeed ∉ json.dump (orNull f x) := by
  cases x with
  | none => exact hjson.null
  | some a => exact h a

/-- **A report stands on one line.** -/
theorem lineFeed_notMem_line (hjson : json.WritesLines) (r : Report) :
    Ascii.lineFeed ∉ r.line json := by
  have hstring := hjson.string
  cases r with
  | success path f =>
    have hdict : ∀ d, Ascii.lineFeed ∉ json.dump (ofDict d) := by
      refine fun d => hjson.object _ fun m hm => ?_
      obtain ⟨e, -, rfl⟩ := List.mem_map.1 hm
      exact hstring e.2
    refine hjson.object _ ?_
    simp [hstring, lineFeed_notMem_orNull hjson hdict,
      lineFeed_notMem_orNull hjson fun j : JavaRequirement => hstring j.minimum]
  | failure path category message =>
    refine hjson.object _ ?_
    simp [hstring]

end Report

end JavaFloor
