import JavaFloor.Proofs.Manifest.Lookup
import JavaFloor.Proofs.Manifest.Written

/-!
# Texts that are manifests

Every text has a main section, and the lines of this section decide whether the text is read.

* `IsSection` are the lines of the main section of a text. There is one list of them for each text
  (`isSection_iff`), which a reading finds.
* `WellFormed` are the sections that are read: each line continues the one above it or is a field.
  `IsFields` are the fields that such lines make up, and `wellFormed_iff` says that there are some.
* `parse_eq_ok_iff`: a text is read as the manifest that the fields of its section make up.
* `parse_iff_wellFormed` puts this together with what a manifest keeps of its fields.
-/

namespace JavaFloor

namespace Manifest

/-- The lines of the main section of a text: a byte order mark is no part of it, and it ends in
front of the first blank line. -/
def IsSection (s : Bytes) (ls : List Bytes) : Prop :=
  ∃ body, (s = Utf8.byteOrderMark ++ body ∨ ¬ Utf8.byteOrderMark <+: s ∧ s = body) ∧
    WritesSection ls body ∧ ∀ line ∈ ls, line ≠ [] ∧ IsUnbroken line

/-- The line goes on with the value above it. -/
def IsContinuation (line : Bytes) : Prop := line.head? = some Ascii.space

/-- The line has a name, a colon and a blank in front. -/
def IsHeader (line : Bytes) : Prop :=
  ∃ name value, IsHeaderName name ∧ line = name ++ (ascii ": " ++ value)

/-- Every line is a field or continues what is above it, so the first one is a field. -/
structure WellFormed (ls : List Bytes) : Prop where
  first : ∀ line ∈ ls.head?, ¬ IsContinuation line
  lines : ∀ line ∈ ls, IsContinuation line ∨ IsHeader line

/-- The fields, with proper names, that lines make up. -/
structure IsFields (fs : List (Bytes × Bytes)) (ls : List Bytes) : Prop where
  writes : WritesFields fs ls
  names : ∀ f ∈ fs, IsHeaderName f.1

variable {s line : Bytes} {ls : List Bytes} {fs fs' : List (Bytes × Bytes)}

/-! ## The section of a text -/

/-- A text is unbroken, or it has a first line with an end behind it. If this is a carriage return,
no line feed follows. -/
theorem exists_first_line (s : Bytes) : IsUnbroken s ∨ ∃ line e rest,
    s = line ++ (LineEnd.bytes e ++ rest) ∧ IsUnbroken line ∧
      (e = .carriageReturn → rest.head? ≠ some Ascii.lineFeed) := by
  induction s with
  | nil => exact .inl fun c hc => absurd hc List.not_mem_nil
  | cons c s ih =>
    have hnil : IsUnbroken [] := fun c hc => absurd hc List.not_mem_nil
    by_cases hlf : c = Ascii.lineFeed
    · subst hlf
      exact .inr ⟨[], .lineFeed, s, rfl, hnil, nofun⟩
    by_cases hcr : c = Ascii.carriageReturn
    · subst hcr
      by_cases hs : s.head? = some Ascii.lineFeed
      · obtain ⟨rest, rfl⟩ := List.head?_eq_some_iff.1 hs
        exact .inr ⟨[], .both, rest, rfl, hnil, nofun⟩
      · exact .inr ⟨[], .carriageReturn, s, rfl, hnil, fun _ => hs⟩
    rcases ih with hs | ⟨line, e, rest, rfl, hline, hrest⟩
    · exact .inl (List.forall_mem_cons.2 ⟨⟨hlf, hcr⟩, hs⟩)
    · exact .inr ⟨c :: line, e, rest, rfl, List.forall_mem_cons.2 ⟨⟨hlf, hcr⟩, hline⟩, hrest⟩

/-- Every text has lines up to its first blank one. -/
theorem exists_section (s : Bytes) :
    ∃ ls, WritesSection ls s ∧ ∀ line ∈ ls, line ≠ [] ∧ IsUnbroken line := by
  induction hlength : s.length using Nat.strongRecOn generalizing s with
  | ind n ih =>
    have hnil : ∀ line ∈ ([] : List Bytes), line ≠ [] ∧ IsUnbroken line := by simp
    by_cases hempty : s = []
    · subst hempty
      exact ⟨[], .done, hnil⟩
    rcases exists_first_line s with hs | ⟨line, e, rest, rfl, hline, hrest⟩
    · exact ⟨[s], .last s, by simpa using ⟨hempty, hs⟩⟩
    by_cases hblank : line = []
    · subst hblank
      exact ⟨[], .blank e rest, hnil⟩
    · have hshort : rest.length < n := by
        have hpos := List.length_pos_iff.2 hblank
        simp only [List.length_append] at hlength
        omega
      obtain ⟨ls, hls, hlines⟩ := ih rest.length hshort rest rfl
      exact ⟨line :: ls, .line e hls fun _ => hrest,
        List.forall_mem_cons.2 ⟨⟨hblank, hline⟩, hlines⟩⟩

/-- **Every text has one main section**, and a reading finds its lines. -/
theorem isSection_iff : IsSection s ls ↔ sectionLines s = ls := by
  rw [sectionLines]
  constructor
  · rintro ⟨body, hbody, hls, hlines⟩
    rw [dropByteOrderMark_eq_iff.2 hbody]
    exact hls.takeWhile_lines hlines
  · rintro rfl
    obtain ⟨ls, hls, hlines⟩ := exists_section (Utf8.dropByteOrderMark s)
    rw [hls.takeWhile_lines hlines]
    exact ⟨_, dropByteOrderMark_eq_iff.1 rfl, hls, hlines⟩

theorem forall_sectionLines (s : Bytes) : ∀ line ∈ sectionLines s, line ≠ [] ∧ IsUnbroken line := by
  obtain ⟨body, -, -, hlines⟩ := isSection_iff.2 (rfl : sectionLines s = _)
  exact hlines

/-! ## Lines that are read -/

/-- A line that is read starts with a blank, or it has a proper name up to its first colon, and a
blank behind that. -/
theorem read_cases {r : Line} (h : Line.read line = .ok r) :
    (∃ more, line = Ascii.space :: more ∧ r = .continuation more) ∨
    ∃ name value, IsHeaderName name ∧ line = name ++ (ascii ": " ++ value) ∧
      r = .field name value := by
  rw [Line.read] at h
  split at h
  next hspace =>
    obtain ⟨more, rfl⟩ := List.head?_eq_some_iff.1 hspace
    exact .inl ⟨more, rfl, (Except.ok.inj h).symm⟩
  next =>
    split at h
    next colon blank value hdrop =>
      dsimp only at h
      split_ifs at h with hstart hlength hchars
      obtain ⟨hne, hblank⟩ := not_or.1 hstart
      have hcolon := List.head?_dropWhile_not (· != Ascii.byte ':') line
      rw [hdrop] at hcolon
      obtain rfl : colon = Ascii.byte ':' := by simpa using hcolon
      obtain rfl := not_not.1 hblank
      refine .inr ⟨_, value, ⟨hne, Nat.not_lt.1 hlength, List.all_eq_true.1 hchars⟩, ?_,
        (Except.ok.inj h).symm⟩
      calc line = line.takeWhile (· != Ascii.byte ':') ++ line.dropWhile (· != Ascii.byte ':') :=
            List.takeWhile_append_dropWhile.symm
        _ = line.takeWhile (· != Ascii.byte ':') ++ (ascii ": " ++ value) := by rw [hdrop]; rfl
    next => cases h

/-! ## Fields of a section -/

/-- The first line of fields has a name in front. -/
theorem IsFields.not_isContinuation (h : IsFields fs ls) :
    ∀ line ∈ ls.head?, ¬ IsContinuation line := by
  obtain ⟨hwrites, hnames⟩ := h
  cases hwrites with
  | nil => exact nofun
  | cons first rest =>
    obtain ⟨hname, -⟩ := List.forall_mem_cons.1 hnames
    cases first with
    | intro name first more =>
      rintro line hline hspace
      obtain rfl := Option.some.inj hline
      obtain ⟨c, tail, rfl, hc⟩ := hname.exists_cons
      exact (ne_of_isNameChar hc).1.1 (Option.some.inj hspace)

/-- The first line of a field has its name, and all others continue its value. -/
theorem WritesField.lines {f : Bytes × Bytes} (h : WritesField f ls) (hname : IsHeaderName f.1) :
    ∀ line ∈ ls, IsContinuation line ∨ IsHeader line := by
  cases h with
  | intro name first more =>
    refine List.forall_mem_cons.2 ⟨.inr ⟨name, first, hname, rfl⟩, fun line hline => .inl ?_⟩
    obtain ⟨piece, -, rfl⟩ := List.mem_map.1 hline
    rfl

theorem IsFields.wellFormed (h : IsFields fs ls) : WellFormed ls where
  first := h.not_isContinuation
  lines := by
    obtain ⟨hwrites, hnames⟩ := h
    induction hwrites with
    | nil => exact fun line hline => absurd hline List.not_mem_nil
    | cons first rest ih =>
      obtain ⟨hname, hrest⟩ := List.forall_mem_cons.1 hnames
      exact List.forall_mem_append.2 ⟨first.lines hname, ih hrest⟩

/-- Lines of which each is a field or continues what is above it are fields, but for continuations
in front of the first one. -/
theorem exists_isFields (h : ∀ line ∈ ls, IsContinuation line ∨ IsHeader line) :
    ∃ (more : List Bytes) (fs : List (Bytes × Bytes)) (rest : List Bytes),
      ls = more.map (Ascii.space :: ·) ++ rest ∧ IsFields fs rest := by
  induction ls with
  | nil => exact ⟨[], [], [], rfl, .nil, nofun⟩
  | cons line ls ih =>
    obtain ⟨hline, hls⟩ := List.forall_mem_cons.1 h
    obtain ⟨more, fs, rest, rfl, hwrites, hnames⟩ := ih hls
    rcases hline with hspace | ⟨name, first, hname, rfl⟩
    · obtain ⟨piece, rfl⟩ := List.head?_eq_some_iff.1 hspace
      exact ⟨piece :: more, fs, rest, rfl, hwrites, hnames⟩
    · -- the continuations in front of the other fields belong to this one
      exact ⟨[], (name, first ++ more.flatten) :: fs, _, rfl,
        .cons (.intro name first more) hwrites, List.forall_mem_cons.2 ⟨hname, hnames⟩⟩

/-- **Well-formed lines are those of fields.** -/
theorem wellFormed_iff : WellFormed ls ↔ ∃ fs, IsFields fs ls := by
  constructor
  · rintro ⟨hfirst, hlines⟩
    obtain ⟨more, fs, rest, rfl, hfields⟩ := exists_isFields hlines
    cases more with
    | nil => exact ⟨fs, hfields⟩
    | cons piece more => exact absurd rfl (hfirst _ rfl)
  · rintro ⟨fs, hfields⟩
    exact hfields.wellFormed

/-- Lines make up one list of fields only. -/
theorem IsFields.unique (h : IsFields fs ls) (h' : IsFields fs' ls) : fs = fs' := by
  obtain ⟨rs, hread, -, rfl⟩ := h.writes.exists_read h.names
  obtain ⟨rs', hread', -, rfl⟩ := h'.writes.exists_read h'.names
  have huniq : Relator.RightUnique fun line r => Line.read line = .ok r := fun line r r' hr hr' =>
    Except.ok.inj (hr.symm.trans hr')
  rw [List.right_unique_forall₂' huniq hread hread']

/-- No value has the end of a line in it. -/
theorem IsFields.isUnbroken (h : IsFields fs ls) (hls : ∀ line ∈ ls, IsUnbroken line) :
    ∀ f ∈ fs, IsUnbroken f.2 := by
  obtain ⟨hwrites, -⟩ := h
  induction hwrites with
  | nil => exact fun f hf => absurd hf List.not_mem_nil
  | cons first rest ih =>
    obtain ⟨hhere, hrest⟩ := List.forall_mem_append.1 hls
    refine List.forall_mem_cons.2 ⟨?_, ih hrest⟩
    cases first with
    | intro name first more =>
      obtain ⟨hfirst, hmore⟩ := List.forall_mem_cons.1 hhere
      have hvalue := (isUnbroken_append.1 (isUnbroken_append.1 hfirst).2).2
      refine isUnbroken_append.2 ⟨hvalue, fun c hc => ?_⟩
      obtain ⟨piece, hpiece, hmem⟩ := List.mem_flatten.1 hc
      exact hmore _ (List.mem_map_of_mem hpiece) c (List.mem_cons_of_mem _ hmem)

/-! ## Reading a text -/

/-- Fields are read as the manifest that they make up. -/
theorem IsFields.parse_eq (h : IsFields fs (sectionLines s)) : parse s = .ok (ofFields fs) := by
  obtain ⟨rs, hread, horphan, rfl⟩ := h.writes.exists_read h.names
  rw [parse, (readLines_eq_ok_iff Nat.one_ne_zero).2 ⟨hread, fun _ => horphan⟩]
  rfl

theorem exists_read_of_mem {rs : List Line}
    (h : List.Forall₂ (fun line r => Line.read line = .ok r) ls rs) (hline : line ∈ ls) :
    ∃ r, Line.read line = .ok r := by
  induction h with
  | nil => cases hline
  | cons hread _ ih =>
    rcases List.mem_cons.1 hline with rfl | hline
    · exact ⟨_, hread⟩
    · exact ih hline

/-- Lines that can be read are well-formed. -/
theorem wellFormed_of_parse {m : Manifest} (h : parse s = .ok m) : WellFormed (sectionLines s) := by
  obtain ⟨rs, hrs, -⟩ := map_eq_ok h
  obtain ⟨hread, horphan⟩ := (readLines_eq_ok_iff Nat.one_ne_zero).1 hrs
  refine ⟨fun line hline hspace => ?_, fun line hline => ?_⟩
  · obtain ⟨ls, hls⟩ := List.head?_eq_some_iff.1 hline
    obtain ⟨piece, rfl⟩ := List.head?_eq_some_iff.1 hspace
    rw [hls, List.forall₂_cons_left_iff] at hread
    obtain ⟨r, rs, hr, -, rfl⟩ := hread
    rw [read_continuation, Except.ok.injEq] at hr
    exact horphan rfl (hr ▸ trivial)
  · obtain ⟨r, hr⟩ := exists_read_of_mem hread hline
    rcases read_cases hr with ⟨more, rfl, -⟩ | ⟨name, value, hname, rfl, -⟩
    · exact .inl rfl
    · exact .inr ⟨name, value, hname, rfl⟩

/-- A text is read if its section consists of fields, as the manifest that they make up. -/
theorem parse_eq_ok_iff {m : Manifest} :
    parse s = .ok m ↔ ∃ fs, IsFields fs (sectionLines s) ∧ ofFields fs = m := by
  constructor
  · intro h
    obtain ⟨fs, hfields⟩ := wellFormed_iff.1 (wellFormed_of_parse h)
    rw [hfields.parse_eq, Except.ok.injEq] at h
    exact ⟨fs, hfields, h⟩
  · rintro ⟨fs, hfields, rfl⟩
    exact hfields.parse_eq

/-- **The texts that are manifests, and what is kept of them.**

Every text has one main section. It is read if each line of this section continues the one above it
or has a proper name, a colon and a blank in front. Such lines make up one list of fields, each with
its continuations joined to its value. Of these the manifest keeps each name once, in the place and
the spelling in which it occurs first, and what is found under a name in any spelling is the value
of the last field with that name. No value has the end of a line in it. -/
theorem parse_iff_wellFormed (s : Bytes) : ∃ ls, (∀ ls', IsSection s ls' ↔ ls' = ls) ∧
    ((∃ m, parse s = .ok m) ↔ WellFormed ls) ∧
    ∀ m, parse s = .ok m → ∃ fs, (∀ fs', IsFields fs' ls ↔ fs' = fs) ∧ m.Represents fs ∧
      ∀ a ∈ m.attributes, IsUnbroken a.2 := by
  refine ⟨sectionLines s, fun ls' => isSection_iff.trans eq_comm, ?_, ?_⟩
  · rw [wellFormed_iff]
    constructor
    · rintro ⟨m, hm⟩
      exact wellFormed_iff.1 (wellFormed_of_parse hm)
    · rintro ⟨fs, hfields⟩
      exact ⟨ofFields fs, hfields.parse_eq⟩
  · intro m hm
    obtain ⟨fs, hfields, rfl⟩ := parse_eq_ok_iff.1 hm
    have hrepresents := represents_ofFields fs
    refine ⟨fs, fun fs' => ⟨fun h => h.unique hfields, fun h => h ▸ hfields⟩, hrepresents, ?_⟩
    intro a ha
    obtain ⟨f, hf, hvalue⟩ := List.mem_map.1 (hrepresents.values a ha)
    rw [← hvalue]
    exact hfields.isUnbroken (fun line hline => (forall_sectionLines s line hline).2) f hf

/-- A known name in another spelling with continuations of its own, a blank line, and all three ends
of lines. -/
example : parse (ascii "A: x\r y\nB: z\r\na: v\n w\r\n\r\nno field") =
    .ok ⟨[(ascii "A", ascii "vw"), (ascii "B", ascii "z")]⟩ := by
  decide +kernel

end Manifest

end JavaFloor
