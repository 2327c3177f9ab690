import JavaFloor.Proofs.Filter.Interval
import JavaFloor.Proofs.Requirement.Written
import JavaFloor.Proofs.Resolution.Demand

/-!
# Sources that ask for Java

The usual header of a component asks for Java in some version or any later one. It is written here
for every version that was read, and `demands_javaHeader` says that a source with that header
demands just those versions. The proof follows the header through its three readers: the reader of
headers takes the filter out of its quotes (`parseHeader_javaHeader`), the reader of filters finds
two items in it (`parse_javaFilter`), and the text of the version is read as a range.
-/

namespace JavaFloor

namespace SourceRequirement

open JavaFloor.Filter (Spelled)

variable {v : Version}

/-- The filter that asks for Java, and for the version `v` or a later one. -/
def javaFilter (v : Version) : Bytes :=
  ascii "(&(osgi.ee=JavaSE)(version>=" ++ (v.text ++ ascii "))")

/-- The header with that filter. -/
def javaHeader (v : Version) : Bytes :=
  ascii "osgi.ee;filter:=" ++ Quoted.quote (javaFilter v)

/-! ## The filter -/

theorem spelled_java :
    Spelled (.item environmentNamespace .equal javaSE) (ascii "(osgi.ee=JavaSE)") :=
  .plain (ascii "osgi.ee=JavaSE") (by decide +kernel) (by decide +kernel) (by decide +kernel)

/-- Nothing in the text of a version has to be escaped. -/
theorem bare_of_isTextChar {c : UInt8} (h : Version.isTextChar c) :
    c ≠ Ascii.byte '(' ∧ c ≠ Ascii.byte ')' ∧ c ≠ Ascii.backslash := by
  refine Bytes.forall_of_lt (p := fun c => Version.isTextChar c →
    c ≠ Ascii.byte '(' ∧ c ≠ Ascii.byte ')' ∧ c ≠ Ascii.backslash) ?_ c h
  decide +kernel

/-- A comparison with a version that was read is an item. -/
theorem spelled_floor (h : v.IsRead) : Spelled (.item versionKey .greaterEqual v.text)
    (ascii "(version>=" ++ (v.text ++ ascii ")")) := by
  have hbare : ∀ c ∈ ascii "version>=" ++ v.text,
      c ≠ Ascii.byte '(' ∧ c ≠ Ascii.byte ')' ∧ c ≠ Ascii.backslash := by
    have hkey : ∀ c ∈ ascii "version>=",
        c ≠ Ascii.byte '(' ∧ c ≠ Ascii.byte ')' ∧ c ≠ Ascii.backslash := by
      decide +kernel
    intro c hc
    rcases List.mem_append.1 hc with hc | hc
    · exact hkey c hc
    · exact bare_of_isTextChar (h.isTextChar c hc)
  have hitem : Filter.IsItem (ascii "version>=" ++ v.text) versionKey .greaterEqual v.text := by
    have hsplit := @Filter.IsItem.intro (ascii "version") v.text .greaterEqual
      (by decide +kernel) nofun (by decide +kernel) (by rw [h.trim_text]; exact h.text_ne_nil)
    rwa [h.trim_text] at hsplit
  have hopens : ∀ c ∈ (ascii "version>=" ++ v.text).head?,
      Filter.isBlank c = false ∧ ¬ Filter.IsConnective c := by
    intro c hc
    cases hc
    decide +kernel
  have hspelled := Spelled.plain (ascii "version>=" ++ v.text) hbare hopens
    (Filter.splitItem_eq_ok_iff.2 hitem)
  rwa [List.append_assoc] at hspelled

theorem spelled_javaFilter (h : v.IsRead) : Spelled
    (.all [.item environmentNamespace .equal javaSE, .item versionKey .greaterEqual v.text])
    (Bytes.trim (javaFilter v)) := by
  have htext : javaFilter v = Ascii.byte '(' :: (Ascii.byte '&' :: (ascii "(osgi.ee=JavaSE)" ++
      (ascii "(version>=" ++ (v.text ++ ascii ")"))) ++ [Ascii.byte ')']) := by
    have hopen : ascii "(&(osgi.ee=JavaSE)(version>=" = Ascii.byte '(' :: Ascii.byte '&' ::
        (ascii "(osgi.ee=JavaSE)" ++ ascii "(version>=") := by
      decide +kernel
    have hclose : ascii "))" = ascii ")" ++ [Ascii.byte ')'] := rfl
    rw [javaFilter, hopen, hclose]
    simp only [List.cons_append, List.append_assoc]
  have hspelled := Spelled.of_body (.all (.cons spelled_java (.cons (spelled_floor h) .nil))
    Filter.isGap_nil)
  rw [List.append_nil, List.append_nil] at hspelled
  rw [htext, Bytes.trim_of_ends rfl rfl]
  exact hspelled

theorem parse_javaFilter (h : v.IsRead) : Filter.parse (javaFilter v) =
    .ok [⟨false, .attr environmentNamespace javaSE⟩, ⟨false, .compare .atLeast v⟩] := by
  have hfloor : Filter.termOf false versionKey .greaterEqual v.text =
      .ok (.compare .atLeast v) := by
    rw [Version.IsRead] at h
    simp [Filter.termOf, Filter.comparison, h]
  rw [(spelled_javaFilter h).parse_eq_ok_iff]
  simp only [Filter.Node.literals?, Filter.Node.allLiterals?, hfloor]
  rfl

/-- The filter asks for Java, and for the version as it was written. -/
theorem asksFor_javaFilter (v : Version) : AsksFor
    [⟨false, .attr environmentNamespace javaSE⟩, ⟨false, .compare .atLeast v⟩] v.text := by
  have hinterval : Filter.interval?
      [⟨false, .attr environmentNamespace javaSE⟩, ⟨false, .compare .atLeast v⟩] =
        some v.text := rfl
  refine ⟨?_, Filter.find?_flatten_of_interval hinterval⟩
  rw [Filter.flatten, hinterval, Dict.find?_insert]
  rfl

/-! ## The header -/

/-- What the header is read as. -/
def javaClause (v : Version) : Clause :=
  ⟨environmentNamespace, .empty, .ofList [(ascii "filter", javaFilter v)]⟩

theorem isNamed_javaClause (v : Version) : (javaClause v).IsNamed := by
  have hname : IsName environmentNamespace := by decide +kernel
  have hkey : IsKey (ascii "filter") := by decide +kernel
  exact ⟨hname, fun p hp => List.mem_singleton.1 hp ▸ hkey⟩

theorem parseHeader_javaHeader (v : Version) :
    Clause.parseHeader (javaHeader v) = .ok [javaClause v] := by
  have directive : Parameter.Writes (.directive (ascii "filter") (javaFilter v)) _ :=
    @Parameter.Writes.intro true _ (ascii "filter:") _ [] [] [] Bytes.isSpace_nil
      (.directive Bytes.isSpace_nil) Bytes.isSpace_nil Bytes.isSpace_nil
  have clause : (javaClause v).Writes _ :=
    .intro Bytes.isSpace_nil Bytes.isSpace_nil (List.Perm.refl _) (.cons directive .nil)
  have hopen : ascii "osgi.ee;filter:=" = environmentNamespace ++
      Ascii.byte ';' :: (ascii "filter:" ++ [Ascii.byte '=']) := by
    decide +kernel
  have written : WritesHeader [javaClause v] (javaHeader v) := by
    refine ⟨_, .cons clause .nil, ?_⟩
    rw [javaHeader, hopen]
    simp [Bytes.join, javaClause]
  exact written.parseHeader_eq (List.forall_mem_singleton.2 (isNamed_javaClause v))

theorem isDirective_javaClause (v : Version) : IsDirective [javaClause v] (javaFilter v) :=
  ⟨[], _, [], rfl, nofun, rfl, rfl⟩

/-- **A source with the header asks for Java in the version `v` or a later one.** -/
theorem demands_javaHeader (h : v.IsRead) (source : Bytes) :
    Demands ⟨source, javaHeader v⟩ (javaFilter v) (.atLeast v) :=
  .intro (parseHeader_javaHeader v) (isDirective_javaClause v) (parse_javaFilter h)
    (asksFor_javaFilter v) (VersionRange.parseQuoted_text h)

end SourceRequirement

end JavaFloor
