import JavaFloor.Proofs.Bytes
import JavaFloor.Proofs.Manifest.Lines
import Mathlib.Data.List.Induction

/-!
# Manifests as they are written

A list of fields can be written in many ways. A value may be broken anywhere, and goes on behind the
blank that the next line starts with; lines end in any of three ways; a byte order mark may stand in
front, and anything may stand behind a blank line.

* `WritesField` and `WritesFields` are the lines of a field and of a list of fields, `Writes` are
  the texts of a manifest.
* `WritesFields.exists_read` reads the lines, and `fields_field` joins continuations to the field
  that they were broken off.
* `ofFields_of_distinct`: fields with different names make up a manifest as they are.
* `parse_of_written`: a manifest is read again as the fields it was written from.
-/

namespace JavaFloor

namespace Manifest

/-- A name that a field can have. -/
@[mk_iff]
structure IsHeaderName (name : Bytes) : Prop where
  ne_nil : name ≠ []
  length_le : name.length ≤ 70
  chars : ∀ c ∈ name, Ascii.isNameChar c

/-- The lines of a field. Its value is broken into pieces, all but the first of them on lines of
their own. -/
inductive WritesField : Bytes × Bytes → List Bytes → Prop
  | intro (name first : Bytes) (more : List Bytes) : WritesField (name, first ++ more.flatten)
      ((name ++ (ascii ": " ++ first)) :: more.map (Ascii.space :: ·))

/-- The lines of several fields, one behind another. -/
inductive WritesFields : List (Bytes × Bytes) → List Bytes → Prop
  | nil : WritesFields [] []
  | cons {f : Bytes × Bytes} {fs : List (Bytes × Bytes)} {here ls : List Bytes}
      (first : WritesField f here) (rest : WritesFields fs ls) : WritesFields (f :: fs) (here ++ ls)

/-- The texts of a list of fields. -/
def Writes (fs : List (Bytes × Bytes)) (text : Bytes) : Prop :=
  ∃ mark ls body, (mark = [] ∨ mark = Utf8.byteOrderMark) ∧ WritesFields fs ls ∧
    WritesSection ls body ∧ text = mark ++ body

/-- Fields that can be written: the value of none has the end of a line in it, and no two names are
equal up to case. -/
@[mk_iff]
structure Writable (fs : List (Bytes × Bytes)) : Prop where
  names : ∀ f ∈ fs, IsHeaderName f.1
  values : ∀ f ∈ fs, IsUnbroken f.2
  distinct : fs.Pairwise fun f g => Bytes.equalFold f.1 g.1 = false

instance (name : Bytes) : Decidable (IsHeaderName name) :=
  have : Decidable (∀ c ∈ name, Ascii.isNameChar c) := List.decidableBAll _ _
  decidable_of_iff' _ (isHeaderName_iff name)

instance (fs : List (Bytes × Bytes)) : Decidable (Writable fs) :=
  have : Decidable (∀ f ∈ fs, IsHeaderName f.1) := List.decidableBAll _ _
  have : Decidable (∀ f ∈ fs, IsUnbroken f.2) := List.decidableBAll _ _
  decidable_of_iff' _ (writable_iff fs)

variable {name : Bytes} {f : Bytes × Bytes} {fs : List (Bytes × Bytes)} {here ls : List Bytes}

/-! ## Names -/

/-- A character of a name is no blank, no colon and no end of a line, and no byte order mark starts
with it. -/
theorem ne_of_isNameChar {c : UInt8} (h : Ascii.isNameChar c) : (c ≠ Ascii.space ∧
    c ≠ Ascii.byte ':') ∧ (c ≠ Ascii.lineFeed ∧ c ≠ Ascii.carriageReturn) ∧ c ≠ 0xEF := by
  refine Bytes.forall_of_lt (p := fun c => Ascii.isNameChar c → (c ≠ Ascii.space ∧
    c ≠ Ascii.byte ':') ∧ (c ≠ Ascii.lineFeed ∧ c ≠ Ascii.carriageReturn) ∧ c ≠ 0xEF) ?_ c h
  decide +kernel

theorem IsHeaderName.isUnbroken (h : IsHeaderName name) : IsUnbroken name :=
  fun c hc => (ne_of_isNameChar (h.chars c hc)).2.1

theorem IsHeaderName.colon_notMem (h : IsHeaderName name) : Ascii.byte ':' ∉ name :=
  fun hmem => (ne_of_isNameChar (h.chars _ hmem)).1.2 rfl

theorem IsHeaderName.exists_cons (h : IsHeaderName name) :
    ∃ c rest, name = c :: rest ∧ Ascii.isNameChar c := by
  obtain ⟨c, rest, rfl⟩ := List.exists_cons_of_ne_nil h.ne_nil
  exact ⟨c, rest, rfl, h.chars c List.mem_cons_self⟩

/-- A line with a name, a colon and a blank in front is a field. -/
theorem IsHeaderName.read_eq (h : IsHeaderName name) (value : Bytes) :
    Line.read (name ++ (ascii ": " ++ value)) = .ok (.field name value) := by
  have hline : name ++ (ascii ": " ++ value) = name ++ Ascii.byte ':' :: Ascii.space :: value := rfl
  have hhead : (name ++ (ascii ": " ++ value)).head? ≠ some Ascii.space := by
    obtain ⟨c, rest, rfl, hc⟩ := h.exists_cons
    simpa using (ne_of_isNameChar hc).1.1
  obtain ⟨htake, hdrop⟩ := Bytes.takeWhile_dropWhile_of_notMem h.colon_notMem (Ascii.space :: value)
  have hlength : ¬ Line.maxNameLength < name.length := Nat.not_lt.2 h.length_le
  rw [Line.read, if_neg hhead, hline]
  simp only [htake, hdrop, h.ne_nil, ne_eq, not_true_eq_false, or_self, if_false, if_neg hlength,
    if_pos (List.all_eq_true.2 h.chars)]

theorem read_continuation (more : Bytes) :
    Line.read (Ascii.space :: more) = .ok (.continuation more) := rfl

/-! ## Lines of fields -/

/-- No line of a field is blank or has an end of a line in it. -/
theorem WritesField.forall_lines (h : WritesField f here) (hname : IsHeaderName f.1)
    (hvalue : IsUnbroken f.2) : ∀ line ∈ here, line ≠ [] ∧ IsUnbroken line := by
  cases h with
  | intro name first more =>
    obtain ⟨hfirst, hmore⟩ := isUnbroken_append.1 hvalue
    refine List.forall_mem_cons.2 ⟨⟨List.append_ne_nil_of_left_ne_nil hname.ne_nil _, ?_⟩, ?_⟩
    · have hsign : IsUnbroken (ascii ": ") := by decide +kernel
      exact isUnbroken_append.2 ⟨hname.isUnbroken, isUnbroken_append.2 ⟨hsign, hfirst⟩⟩
    · intro line hline
      obtain ⟨piece, hpiece, rfl⟩ := List.mem_map.1 hline
      refine ⟨List.cons_ne_nil _ _, List.forall_mem_cons.2 ⟨by decide, fun c hc => ?_⟩⟩
      exact hmore c (List.mem_flatten.2 ⟨piece, hpiece, hc⟩)

theorem WritesFields.forall_lines (h : WritesFields fs ls) (hfs : Writable fs) :
    ∀ line ∈ ls, line ≠ [] ∧ IsUnbroken line := by
  obtain ⟨names, values, -⟩ := hfs
  induction h with
  | nil => simp
  | cons first rest ih =>
    obtain ⟨hname, hnames⟩ := List.forall_mem_cons.1 names
    obtain ⟨hvalue, hvalues⟩ := List.forall_mem_cons.1 values
    exact List.forall_mem_append.2 ⟨first.forall_lines hname hvalue, ih hnames hvalues⟩

/-! ## Reading fields -/

/-- Continuations do not start fields of their own. -/
theorem fields_continuations (more : List Bytes) (rs : List Line) :
    fields (more.map .continuation ++ rs) = fields rs := by
  induction more with
  | nil => rfl
  | cons piece more ih => exact ih

/-- All the continuations in front of a field, or of the end, are taken. -/
theorem takeWhile_continuations (more : List Bytes) {rs : List Line} (h : ¬ IsOrphan rs) :
    (more.map Line.continuation ++ rs).takeWhile fields.isContinuation =
      more.map .continuation := by
  have hrest : rs.takeWhile fields.isContinuation = [] := by
    match rs, h with
    | [], _ => rfl
    | .field name value :: rs, _ => rfl
    | .continuation more :: rs, h => exact absurd trivial h
  rw [List.takeWhile_append_of_pos, hrest, List.append_nil]
  intro r hr
  obtain ⟨piece, -, rfl⟩ := List.mem_map.1 hr
  rfl

/-- **A field and its continuations are one field**, with the pieces of the value put together. -/
theorem fields_field (name first : Bytes) (more : List Bytes) {rs : List Line}
    (h : ¬ IsOrphan rs) : fields (.field name first :: (more.map .continuation ++ rs)) =
      (name, first ++ more.flatten) :: fields rs := by
  have hpieces : (more.map Line.continuation).flatMap fields.continued = more.flatten := by
    rw [List.flatMap_map]
    exact List.flatMap_id
  rw [fields, takeWhile_continuations more h, hpieces, fields_continuations]

/-- The lines of fields are read, and make up these fields. -/
theorem WritesFields.exists_read (h : WritesFields fs ls) (names : ∀ f ∈ fs, IsHeaderName f.1) :
    ∃ rs, List.Forall₂ (fun l r => Line.read l = .ok r) ls rs ∧ ¬ IsOrphan rs ∧
      fields rs = fs := by
  induction h with
  | nil => exact ⟨[], .nil, id, rfl⟩
  | cons first rest ih =>
    obtain ⟨hname, hnames⟩ := List.forall_mem_cons.1 names
    obtain ⟨rs, hread, horphan, hfields⟩ := ih hnames
    cases first with
    | intro name first more =>
      have hmore : List.Forall₂ (fun l r => Line.read l = .ok r) (more.map (Ascii.space :: ·))
          (more.map .continuation) := by
        rw [List.forall₂_map_left_iff, List.forall₂_map_right_iff]
        exact List.forall₂_same.2 fun piece _ => read_continuation piece
      refine ⟨.field name first :: (more.map .continuation ++ rs),
        .cons (hname.read_eq first) (List.rel_append hmore hread), id, ?_⟩
      rw [fields_field name first more horphan, hfields]

/-! ## Manifests -/

/-- A field whose name is new is put at the end. -/
theorem put_of_forall_ne {attributes : List (Bytes × Bytes)} {name : Bytes} (value : Bytes)
    (h : ∀ a ∈ attributes, Bytes.equalFold a.1 name = false) :
    put name value attributes = attributes ++ [(name, value)] := by
  induction attributes with
  | nil => rfl
  | cons a rest ih =>
    obtain ⟨ha, hrest⟩ := List.forall_mem_cons.1 h
    rw [put, if_neg (by simp [ha]), ih hrest, List.cons_append]

/-- Fields with different names make up a manifest as they are. -/
theorem ofFields_of_distinct (h : fs.Pairwise fun f g => Bytes.equalFold f.1 g.1 = false) :
    ofFields fs = ⟨fs⟩ := by
  induction fs using List.reverseRecOn with
  | nil => rfl
  | append_singleton fs f ih =>
    obtain ⟨hfs, -, hlast⟩ := List.pairwise_append.1 h
    have hput := put_of_forall_ne f.2 fun a ha => hlast a ha f (List.mem_singleton_self f)
    have hrec : fs.foldl (fun attributes f => put f.1 f.2 attributes) [] = fs :=
      congrArg Manifest.attributes (ih hfs)
    rw [ofFields, List.foldl_append, hrec, List.foldl_cons, List.foldl_nil, hput]

/-- A mark is taken off if there is one. -/
theorem dropByteOrderMark_eq_iff {s body : Bytes} : Utf8.dropByteOrderMark s = body ↔
    s = Utf8.byteOrderMark ++ body ∨ ¬ Utf8.byteOrderMark <+: s ∧ s = body := by
  rw [Utf8.dropByteOrderMark]
  split
  next hmark =>
    obtain ⟨rest, rfl⟩ := List.isPrefixOf_iff_prefix.1 hmark
    rw [List.drop_left, List.append_cancel_left_eq]
    exact ⟨.inl, fun h => h.elim id fun h => absurd (List.prefix_append _ _) h.1⟩
  next hmark =>
    rw [List.isPrefixOf_iff_prefix] at hmark
    refine ⟨fun h => .inr ⟨hmark, h⟩, fun h => h.elim ?_ And.right⟩
    rintro rfl
    exact absurd (List.prefix_append _ _) hmark

/-- The mark is taken off, and nothing of a section is taken for one. -/
theorem dropByteOrderMark_eq {mark body : Bytes} (hmark : mark = [] ∨ mark = Utf8.byteOrderMark)
    (hbody : body.head? ≠ some 0xEF) : Utf8.dropByteOrderMark (mark ++ body) = body := by
  refine dropByteOrderMark_eq_iff.2 ?_
  rcases hmark with rfl | rfl
  · refine .inr ⟨?_, rfl⟩
    rintro ⟨rest, hrest⟩
    rw [List.nil_append] at hrest
    exact hbody (hrest ▸ rfl)
  · exact .inl rfl

/-- A section starts with a name, with the end of a line, or not at all. -/
theorem WritesFields.head?_ne (h : WritesFields fs ls) {body : Bytes}
    (hbody : WritesSection ls body) (names : ∀ f ∈ fs, IsHeaderName f.1) :
    body.head? ≠ some 0xEF := by
  cases h with
  | nil =>
    cases hbody with
    | done => simp
    | blank e behind => cases e <;> exact of_decide_eq_true rfl
  | cons first rest =>
    obtain ⟨hname, -⟩ := List.forall_mem_cons.1 names
    cases first with
    | intro name first more =>
      obtain ⟨c, tail, rfl, hc⟩ := hname.exists_cons
      rw [hbody.head?_eq (List.cons_ne_nil _ _)]
      simpa using (ne_of_isNameChar hc).2.2

/-- A text of fields is read as the manifest of these fields. -/
theorem Writes.parse_eq {text : Bytes} (h : Writes fs text) (hfs : Writable fs) :
    parse text = .ok ⟨fs⟩ := by
  obtain ⟨mark, ls, body, hmark, hls, hbody, rfl⟩ := h
  obtain ⟨rs, hread, horphan, rfl⟩ := hls.exists_read hfs.names
  have hlines : sectionLines (mark ++ body) = ls := by
    rw [sectionLines, dropByteOrderMark_eq hmark (hls.head?_ne hbody hfs.names)]
    exact hbody.takeWhile_lines (hls.forall_lines hfs)
  have hreadLines : readLines 1 ls = .ok rs :=
    (readLines_eq_ok_iff Nat.one_ne_zero).2 ⟨hread, fun _ => horphan⟩
  rw [parse, hlines, hreadLines]
  exact congrArg Except.ok (ofFields_of_distinct hfs.distinct)

theorem exists_writesFields (fs : List (Bytes × Bytes)) : ∃ ls, WritesFields fs ls := by
  induction fs with
  | nil => exact ⟨[], .nil⟩
  | cons f fs ih =>
    obtain ⟨ls, hls⟩ := ih
    have hf := WritesField.intro f.1 f.2 []
    rw [List.flatten_nil, List.append_nil] at hf
    exact ⟨_, .cons hf hls⟩

theorem exists_writesSection (ls : List Bytes) : ∃ body, WritesSection ls body := by
  induction ls with
  | nil => exact ⟨[], .done⟩
  | cons line ls ih =>
    obtain ⟨body, hbody⟩ := ih
    exact ⟨_, .line .lineFeed hbody nofun⟩

/-- **A manifest is read as the fields it was written from.** They stand in the same order with the
same names and values, however they were written: every list of fields with proper names, of which
no two are equal up to case, can be written, and each of its texts is read as that list. -/
theorem parse_of_written (hfs : Writable fs) : (∃ text, Writes fs text) ∧
    ∀ text, Writes fs text → parse text = .ok ⟨fs⟩ := by
  obtain ⟨ls, hls⟩ := exists_writesFields fs
  obtain ⟨body, hbody⟩ := exists_writesSection ls
  exact ⟨⟨_, [], ls, body, .inl rfl, hls, hbody, rfl⟩, fun text h => h.parse_eq hfs⟩

/-- All three ends of lines, a value broken in front of a blank, an empty piece, an empty value, and
a blank line with another field behind it. -/
theorem parse_of_written_wrapped :
    parse (Utf8.byteOrderMark ++ ascii "A: x\r  y\r\n \n z\nb-1: \r\r\nc: d") =
      .ok ⟨[(ascii "A", ascii "x yz"), (ascii "b-1", [])]⟩ := by
  have first : WritesField (ascii "A", ascii "x yz") _ :=
    .intro (ascii "A") (ascii "x") [ascii " y", [], ascii "z"]
  have last : WritesField (ascii "b-1", []) _ := .intro (ascii "b-1") [] []
  have lines : WritesSection [ascii "A: x", ascii "  y", ascii " ", ascii " z", ascii "b-1: "] _ :=
    .line .carriageReturn (.line .both (.line .lineFeed (.line .lineFeed (.line .carriageReturn
      (.blank .both (ascii "c: d")) (by decide)) nofun) nofun) nofun) nofun
  exact (parse_of_written (by decide +kernel)).2 _
    ⟨_, _, _, .inr rfl, .cons first (.cons last .nil), lines, by decide +kernel⟩

end Manifest

end JavaFloor
