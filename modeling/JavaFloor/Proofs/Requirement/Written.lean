import JavaFloor.Proofs.Dict
import JavaFloor.Proofs.Except
import JavaFloor.Proofs.Requirement.Quoted
import JavaFloor.Requirement.Header

/-!
# Requirement headers as they are written

A list of clauses can be written in many ways: parameters come in any order, there may be whitespace
around everything, an attribute may have a type, and segments with nothing in them may stand
anywhere behind a namespace. Values stand between quotes and may be any bytes.

* `WritesKey`, `Parameter.Writes`, `Clause.Writes` and `WritesHeader` are the texts of a parameter's
  name, of a parameter, of a clause and of a header.
* `Parameter.Writes.isSegment`, `Clause.Writes.isSegment`: nothing in the text of a parameter is a
  separator of parameters or clauses, and nothing in the text of a clause is one of clauses.
* `Parameter.Writes.parse_eq`, `Clause.Writes.parse_eq`: each of them is read again as what it was
  written from.
* `parseHeader_of_written`: so is a header.
-/

namespace JavaFloor

open Bytes (IsSpace IsTrimmed)

/-! ## Texts -/

/-- The bytes that mean something everywhere in a header. A colon means something in the name of a
parameter only. -/
def marks : List UInt8 := [Ascii.byte ',', Ascii.byte ';', Ascii.byte '=', Ascii.quote]

/-- A name without whitespace at its ends and without bytes that mean something. -/
@[mk_iff]
structure IsName (name : Bytes) : Prop where
  ne_nil : name ≠ []
  trimmed : IsTrimmed name
  plain : ∀ m ∈ marks, m ∉ name

/-- The name of a parameter has no colon either. -/
@[mk_iff]
structure IsKey (key : Bytes) : Prop extends IsName key where
  colon : Ascii.byte ':' ∉ key

/-- Letters, and at least one. -/
@[mk_iff]
structure IsWord (word : Bytes) : Prop where
  ne_nil : word ≠ []
  letters : ∀ c ∈ word, Ascii.isUpper c ∨ Ascii.isLower c

/-- What stands in front of the equals sign of a parameter called `key`. A directive has a colon
there, and an attribute may have a type behind one. -/
inductive WritesKey (key : Bytes) : Bool → Bytes → Prop
  | plain {gap : Bytes} (hgap : IsSpace gap) : WritesKey key false (key ++ gap)
  | typed {gap front type behind : Bytes} (hgap : IsSpace gap) (hfront : IsSpace front)
      (htype : IsWord type) (hbehind : IsSpace behind) :
      WritesKey key false (key ++ (gap ++ Ascii.byte ':' :: (front ++ (type ++ behind))))
  | directive {gap : Bytes} (hgap : IsSpace gap) :
      WritesKey key true (key ++ (gap ++ [Ascii.byte ':']))

/-- The texts of a parameter. -/
inductive Parameter.Writes : Parameter → Bytes → Prop
  | intro {isDirective : Bool} {key name value front gap behind : Bytes} (hfront : IsSpace front)
      (hname : WritesKey key isDirective name) (hgap : IsSpace gap) (hbehind : IsSpace behind) :
      Parameter.Writes (if isDirective then .directive key value else .attr key value)
        (front ++ (name ++ Ascii.byte '=' :: (gap ++ (Quoted.quote value ++ behind))))

/-- Texts of the members of a list in their order, and texts of whitespace among them. -/
inductive WritesAll {α : Type} (Writes : α → Bytes → Prop) : List α → List Bytes → Prop
  | nil : WritesAll Writes [] []
  | blank {xs : List α} {gap : Bytes} {texts : List Bytes} (hgap : IsSpace gap)
      (rest : WritesAll Writes xs texts) : WritesAll Writes xs (gap :: texts)
  | cons {x : α} {xs : List α} {text : Bytes} {texts : List Bytes} (first : Writes x text)
      (rest : WritesAll Writes xs texts) : WritesAll Writes (x :: xs) (text :: texts)

/-- The parameters of a clause. -/
def Clause.parameters (c : Clause) : List Parameter :=
  c.attributes.entries.map (fun e => .attr e.1 e.2) ++
    c.directives.entries.map fun e => .directive e.1 e.2

/-- The texts of a clause: its namespace and, in any order, its parameters. -/
inductive Clause.Writes (c : Clause) : Bytes → Prop
  | intro {front behind : Bytes} {ps : List Parameter} {texts : List Bytes}
      (hfront : IsSpace front) (hbehind : IsSpace behind) (order : ps.Perm c.parameters)
      (written : WritesAll Parameter.Writes ps texts) :
      c.Writes (Bytes.join [Ascii.byte ';'] ((front ++ (c.name ++ behind)) :: texts))

/-- The texts of a list of clauses. -/
def WritesHeader (clauses : List Clause) (text : Bytes) : Prop :=
  ∃ texts, WritesAll Clause.Writes clauses texts ∧ text = Bytes.join [Ascii.byte ','] texts

/-- The name of a parameter. -/
def Parameter.key : Parameter → Bytes
  | .attr key _ => key
  | .directive key _ => key

/-- The names in the clause mean nothing else in a header. -/
@[mk_iff]
structure Clause.IsNamed (c : Clause) : Prop where
  name : IsName c.name
  keys : ∀ p ∈ c.parameters, IsKey p.key

instance (name : Bytes) : Decidable (IsName name) :=
  have : Decidable (∀ m ∈ marks, m ∉ name) := List.decidableBAll _ _
  decidable_of_iff' _ (isName_iff name)

instance (key : Bytes) : Decidable (IsKey key) := decidable_of_iff' _ (isKey_iff key)

instance (word : Bytes) : Decidable (IsWord word) :=
  have : Decidable (∀ c ∈ word, Ascii.isUpper c ∨ Ascii.isLower c) := List.decidableBAll _ _
  decidable_of_iff' _ (isWord_iff word)

instance (c : Clause) : Decidable c.IsNamed := decidable_of_iff' _ c.isNamed_iff

/-! ## Bytes that mean nothing -/

variable {c : UInt8} {s : Bytes}

theorem notMem_of_isSpace (h : IsSpace s) (hc : Ascii.isSpace c = false) : c ∉ s := by
  intro hmem
  simp [h c hmem] at hc

theorem IsWord.notMem (h : IsWord s) (hc : ¬ (Ascii.isUpper c ∨ Ascii.isLower c)) : c ∉ s :=
  fun hmem => hc (h.letters c hmem)

theorem not_isSpace_of_letter (h : Ascii.isUpper c ∨ Ascii.isLower c) :
    Ascii.isSpace c = false := by
  refine Bytes.forall_of_lt
    (p := fun c => Ascii.isUpper c ∨ Ascii.isLower c → Ascii.isSpace c = false) ?_ c h
  decide +kernel

theorem marks_ne {m : UInt8} (h : m ∈ marks) : Ascii.isSpace m = false ∧
    ¬ (Ascii.isUpper m ∨ Ascii.isLower m) ∧ m ≠ Ascii.byte ':' := by
  have all : ∀ m ∈ marks, Ascii.isSpace m = false ∧
      ¬ (Ascii.isUpper m ∨ Ascii.isLower m) ∧ m ≠ Ascii.byte ':' := by
    decide +kernel
  exact all m h

/-! ## The name of a parameter -/

variable {key name : Bytes} {isDirective : Bool}

/-- No byte that means something stands in front of the equals sign. -/
theorem WritesKey.notMem (h : WritesKey key isDirective name) (hkey : IsKey key) {m : UInt8}
    (hm : m ∈ marks) : m ∉ name := by
  obtain ⟨hspace, hletter, hcolon⟩ := marks_ne hm
  have hmem : m ∉ key := hkey.plain m hm
  cases h with
  | plain hgap => exact List.not_mem_append hmem (notMem_of_isSpace hgap hspace)
  | typed hgap hfront htype hbehind =>
    have htail := List.not_mem_append (notMem_of_isSpace hfront hspace)
      (List.not_mem_append (htype.notMem hletter) (notMem_of_isSpace hbehind hspace))
    exact List.not_mem_append hmem (List.not_mem_append (notMem_of_isSpace hgap hspace)
      (List.not_mem_cons_of_ne_of_not_mem hcolon htail))
  | directive hgap =>
    exact List.not_mem_append hmem (List.not_mem_append (notMem_of_isSpace hgap hspace)
      (List.not_mem_cons_of_ne_of_not_mem hcolon List.not_mem_nil))

/-- The name itself stands first. -/
theorem WritesKey.exists_append (h : WritesKey key isDirective name) : ∃ s, name = key ++ s := by
  cases h with
  | plain | typed | directive => exact ⟨_, rfl⟩

theorem WritesKey.head (h : WritesKey key isDirective name) (hkey : IsKey key) :
    name ≠ [] ∧ ∀ c ∈ name.head?, Ascii.isSpace c = false := by
  obtain ⟨s, rfl⟩ := h.exists_append
  rw [List.head?_append_of_ne_nil _ hkey.ne_nil]
  exact ⟨List.append_ne_nil_of_left_ne_nil hkey.ne_nil _, hkey.trimmed.1⟩

/-- A directive is told by the byte in front of the equals sign. -/
theorem WritesKey.exists_getLast? (h : WritesKey key isDirective name) (hkey : IsKey key) :
    ∃ last, name.getLast? = some last ∧ (last == Ascii.byte ':') = isDirective := by
  have found : ∀ {s : Bytes}, s ≠ [] → Ascii.byte ':' ∉ s →
      ∃ last, s.getLast? = some last ∧ (last == Ascii.byte ':') = false := by
    intro s hne hcolon
    obtain ⟨last, hlast⟩ := Option.isSome_iff_exists.1 (List.getLast?_isSome.2 hne)
    refine ⟨last, hlast, beq_eq_false_iff_ne.2 ?_⟩
    rintro rfl
    exact hcolon (List.mem_of_getLast? hlast)
  cases h with
  | @plain gap hgap =>
    have hcolon : Ascii.byte ':' ∉ gap := notMem_of_isSpace hgap (by decide)
    exact found (List.append_ne_nil_of_left_ne_nil hkey.ne_nil _)
      (List.not_mem_append hkey.colon hcolon)
  | @typed gap front type behind hgap hfront htype hbehind =>
    have hne : type ++ behind ≠ [] := List.append_ne_nil_of_left_ne_nil htype.ne_nil _
    have hword : Ascii.byte ':' ∉ type := htype.notMem (by decide)
    have hcolon : Ascii.byte ':' ∉ behind := notMem_of_isSpace hbehind (by decide)
    obtain ⟨last, hlast, heq⟩ := found hne (List.not_mem_append hword hcolon)
    refine ⟨last, ?_, heq⟩
    rw [← hlast, ← List.cons_append, ← List.append_assoc, ← List.append_assoc]
    exact List.getLast?_append_of_ne_nil _ hne
  | directive hgap =>
    refine ⟨Ascii.byte ':', ?_, rfl⟩
    rw [← List.append_assoc, List.getLast?_concat]

/-- What is left without a colon and a type is the name. -/
theorem WritesKey.name_eq (h : WritesKey key isDirective name) (hkey : IsKey key) :
    (if isDirective then Bytes.trim name.dropLast else Parameter.attributeName name) = key := by
  have htrim : ∀ {gap : Bytes}, IsSpace gap → Bytes.trim (key ++ gap) = key := fun hgap =>
    Bytes.trim_append Bytes.isSpace_nil hkey.trimmed hgap
  cases h with
  | plain hgap =>
    have htake : key.takeWhile (· != Ascii.byte ':') = key :=
      List.takeWhile_eq_self_iff.2 fun c hc => bne_iff_ne.2 fun heq => hkey.colon (heq ▸ hc)
    rw [if_neg Bool.false_ne_true, Parameter.attributeName, htrim hgap, htake]
    exact hkey.trimmed.trim_eq
  | @typed gap front type behind hgap hfront htype hbehind =>
    have hlast : ∀ c ∈ type.getLast?, Ascii.isSpace c = false := fun c hc =>
      not_isSpace_of_letter (htype.letters c (List.mem_of_getLast? hc))
    have hinner := Bytes.isTrimmed_append hkey.ne_nil htype.ne_nil hkey.trimmed.1 hlast
      (gap ++ Ascii.byte ':' :: front)
    have hname : key ++ (gap ++ Ascii.byte ':' :: (front ++ (type ++ behind))) =
        [] ++ (key ++ (gap ++ Ascii.byte ':' :: front ++ type) ++ behind) := by
      simp
    have hparts : key ++ (gap ++ Ascii.byte ':' :: front ++ type) =
        key ++ gap ++ Ascii.byte ':' :: (front ++ type) := by
      simp
    have hspace : Ascii.byte ':' ∉ gap := notMem_of_isSpace hgap (by decide)
    have hcolon := List.not_mem_append hkey.colon hspace
    rw [if_neg Bool.false_ne_true, Parameter.attributeName, hname,
      Bytes.trim_append Bytes.isSpace_nil hinner hbehind, hparts,
      (Bytes.takeWhile_dropWhile_of_notMem hcolon _).1, htrim hgap]
  | directive hgap =>
    rw [if_pos rfl, ← List.append_assoc, List.dropLast_concat, htrim hgap]

/-! ## Parameters -/

/-- **A parameter is read as what it was written from.** -/
theorem Parameter.Writes.parse_eq {p : Parameter} {text : Bytes} (h : p.Writes text)
    (hkey : IsKey p.key) (clause : Bytes) : Parameter.parse clause text = .ok (some p) := by
  cases h with
  | @intro isDirective key name value front gap behind hfront hname hgap hbehind =>
    replace hkey : IsKey key := by cases isDirective <;> exact hkey
    obtain ⟨last, hlast, hdirective⟩ := hname.exists_getLast? hkey
    obtain ⟨htake, hdrop⟩ := Bytes.takeWhile_dropWhile_of_notMem
      (hname.notMem hkey (by decide : Ascii.byte '=' ∈ marks)) (gap ++ Quoted.quote value)
    have hinner : IsTrimmed (name ++ Ascii.byte '=' :: (gap ++ Quoted.quote value)) := by
      have hends := Bytes.isTrimmed_append (hname.head hkey).1 (List.cons_ne_nil _ _)
        (hname.head hkey).2 (Quoted.isTrimmed_quote value).2 (Ascii.byte '=' :: gap)
      rwa [List.cons_append] at hends
    have hvalue : Quoted.unquote (gap ++ Quoted.quote value) = some value := by
      have hquote := Quoted.unquote_quote hgap Bytes.isSpace_nil value
      rwa [List.append_nil] at hquote
    have htext : front ++ (name ++ Ascii.byte '=' :: (gap ++ (Quoted.quote value ++ behind))) =
        front ++ (name ++ Ascii.byte '=' :: (gap ++ Quoted.quote value) ++ behind) := by
      simp
    rw [Parameter.parse, htext, Bytes.trim_append hfront hinner hbehind]
    simp only [htake, hdrop, hlast, hdirective, hname.name_eq hkey, hkey.ne_nil, hvalue, if_false]
    simp

theorem Parameter.parse_of_isSpace (h : IsSpace s) (clause : Bytes) :
    Parameter.parse clause s = .ok none := by
  rw [Parameter.parse, Bytes.trim_of_isSpace h]
  rfl

/-- The parameters of a clause are read as what they were written from. -/
theorem mapM_parse_of_written {ps : List Parameter} {texts : List Bytes}
    (h : WritesAll Parameter.Writes ps texts) (hkeys : ∀ p ∈ ps, IsKey p.key) (clause : Bytes) :
    ∃ read, texts.mapM (Parameter.parse clause) = .ok read ∧ read.filterMap id = ps := by
  induction h with
  | nil => exact ⟨[], rfl, rfl⟩
  | blank hgap rest ih =>
    obtain ⟨read, hread, hps⟩ := ih hkeys
    refine ⟨none :: read, ?_, hps⟩
    rw [List.mapM_cons, Parameter.parse_of_isSpace hgap, hread]
    rfl
  | @cons p ps text texts first rest ih =>
    obtain ⟨hkey, hkeys⟩ := List.forall_mem_cons.1 hkeys
    obtain ⟨read, hread, hps⟩ := ih hkeys
    refine ⟨some p :: read, ?_, congrArg (p :: ·) hps⟩
    rw [List.mapM_cons, first.parse_eq hkey, hread]
    rfl

/-! ## Segments

Values may have separators in them, but only between quotes. -/

variable {sep : UInt8}

theorem isSegment_of_notMem (hsep : sep ∈ marks) (h : ∀ m ∈ marks, m ∉ s) :
    Quoted.IsSegment sep s := by
  apply Quoted.isSegment_of_plain
  intro c hc
  constructor
  · rintro rfl
    exact h c hsep hc
  · rintro rfl
    exact h _ (by decide) hc

theorem isSegment_of_isSpace (hsep : sep ∈ marks) (h : IsSpace s) : Quoted.IsSegment sep s :=
  isSegment_of_notMem hsep fun _ hm => notMem_of_isSpace h (marks_ne hm).1

/-- No separator but the equals sign counts in a parameter. -/
theorem Parameter.Writes.isSegment {p : Parameter} {text : Bytes} (h : p.Writes text)
    (hkey : IsKey p.key) (hsep : sep ∈ marks) (hne : Ascii.byte '=' ≠ sep) :
    Quoted.IsSegment sep text := by
  cases h with
  | @intro isDirective key name value front gap behind hfront hname hgap hbehind =>
    replace hkey : IsKey key := by cases isDirective <;> exact hkey
    have hequals : Quoted.IsSegment sep [Ascii.byte '='] :=
      Quoted.isSegment_of_plain fun c hc => List.mem_singleton.1 hc ▸ ⟨hne, by decide⟩
    have hvalue := (isSegment_of_isSpace hsep hgap).append
      ((Quoted.isSegment_quote value).append (isSegment_of_isSpace hsep hbehind))
    have hpart := (isSegment_of_notMem hsep fun m hm => hname.notMem hkey hm).append
      (hequals.append hvalue)
    exact (isSegment_of_isSpace hsep hfront).append hpart

/-- Segments are written for each member of a list, and whitespace is one. -/
theorem WritesAll.isSegment {α : Type} {Writes : α → Bytes → Prop} {xs : List α}
    {texts : List Bytes} (h : WritesAll Writes xs texts) (hsep : sep ∈ marks)
    (hwrites : ∀ x ∈ xs, ∀ text, Writes x text → Quoted.IsSegment sep text) :
    ∀ text ∈ texts, Quoted.IsSegment sep text := by
  induction h with
  | nil => simp
  | blank hgap rest ih =>
    exact List.forall_mem_cons.2 ⟨isSegment_of_isSpace hsep hgap, ih hwrites⟩
  | cons first rest ih =>
    obtain ⟨hfirst, hrest⟩ := List.forall_mem_cons.1 hwrites
    exact List.forall_mem_cons.2 ⟨hfirst _ first, ih hrest⟩

/-- No separator counts in the namespace and in the parameters of a clause. -/
theorem Clause.IsNamed.isSegment {c : Clause} (named : c.IsNamed) {front behind : Bytes}
    {ps : List Parameter} {texts : List Bytes} (hfront : IsSpace front) (hbehind : IsSpace behind)
    (order : ps.Perm c.parameters) (written : WritesAll Parameter.Writes ps texts)
    (hsep : sep ∈ marks) (hne : Ascii.byte '=' ≠ sep) :
    ∀ text ∈ (front ++ (c.name ++ behind)) :: texts, Quoted.IsSegment sep text := by
  refine List.forall_mem_cons.2 ⟨?_, written.isSegment hsep fun p hp text htext =>
    htext.isSegment (named.keys p (order.mem_iff.1 hp)) hsep hne⟩
  have hname := isSegment_of_notMem hsep named.name.plain
  exact (isSegment_of_isSpace hsep hfront).append
    (hname.append (isSegment_of_isSpace hsep hbehind))

/-- No comma counts in a clause. -/
theorem Clause.Writes.isSegment {c : Clause} {text : Bytes} (h : c.Writes text)
    (named : c.IsNamed) : Quoted.IsSegment (Ascii.byte ',') text := by
  cases h with
  | intro hfront hbehind order written =>
    exact Quoted.isSegment_join (by decide) (by decide)
      (named.isSegment hfront hbehind order written (by decide) (by decide))

/-! ## Clauses -/

/-- The entry that a parameter is among the attributes. -/
def Parameter.attribute? : Parameter → Option (Bytes × Bytes)
  | .attr key value => some (key, value)
  | .directive _ _ => none

/-- The entry that a parameter is among the directives. -/
def Parameter.directive? : Parameter → Option (Bytes × Bytes)
  | .attr _ _ => none
  | .directive key value => some (key, value)

/-- Parameters make the dictionaries of their entries. -/
theorem Clause.ofParameters_eq (name : Bytes) (ps : List Parameter) :
    Clause.ofParameters name ps = ⟨name, Dict.ofList (ps.filterMap Parameter.attribute?),
      Dict.ofList (ps.filterMap Parameter.directive?)⟩ := by
  induction ps using List.reverseRecOn with
  | nil => rfl
  | append_singleton ps p ih =>
    rw [Clause.ofParameters] at ih ⊢
    rw [List.foldl_append, ih, List.filterMap_append, List.filterMap_append, Dict.ofList,
      Dict.ofList, Dict.ofList, Dict.ofList, List.foldl_append, List.foldl_append]
    cases p with
    | attr | directive => rfl

theorem Clause.attributes_parameters (c : Clause) :
    c.parameters.filterMap Parameter.attribute? = c.attributes.entries := by
  simp [Clause.parameters, List.filterMap_append, List.filterMap_map, Function.comp_def,
    Parameter.attribute?]

theorem Clause.directives_parameters (c : Clause) :
    c.parameters.filterMap Parameter.directive? = c.directives.entries := by
  simp [Clause.parameters, List.filterMap_append, List.filterMap_map, Function.comp_def,
    Parameter.directive?]

/-- The parameters of a clause make it again in whatever order. -/
theorem Clause.ofParameters_of_perm {c : Clause} {ps : List Parameter}
    (h : ps.Perm c.parameters) : Clause.ofParameters c.name ps = c := by
  have hattributes := h.filterMap Parameter.attribute?
  have hdirectives := h.filterMap Parameter.directive?
  rw [Clause.attributes_parameters] at hattributes
  rw [Clause.directives_parameters] at hdirectives
  rw [Clause.ofParameters_eq, Dict.ofList_of_perm hattributes, Dict.ofList_of_perm hdirectives]

/-- **A clause is read as what it was written from.** -/
theorem Clause.Writes.parse_eq {c : Clause} {text : Bytes} (h : c.Writes text)
    (named : c.IsNamed) : Clause.parse text = .ok c := by
  cases h with
  | @intro front behind ps texts hfront hbehind order written =>
    obtain ⟨read, hread, hps⟩ := mapM_parse_of_written written
      (fun p hp => named.keys p (order.mem_iff.1 hp)) c.name
    have hplain : (c.name.any fun b => b == Ascii.byte '=' || b == Ascii.quote) = false := by
      have hequals := named.name.plain (Ascii.byte '=') (by decide)
      have hquote := named.name.plain Ascii.quote (by decide)
      rw [List.any_eq_false]
      intro b hb
      simp only [Bool.or_eq_true, beq_iff_eq]
      rintro (rfl | rfl)
      · exact hequals hb
      · exact hquote hb
    rw [Clause.parse, Quoted.splitOn_join (List.cons_ne_nil _ _) (by decide)
      (named.isSegment hfront hbehind order written (by decide) (by decide))]
    simp only [Bytes.trim_append hfront named.name.trimmed hbehind, named.name.ne_nil, hplain,
      hread, if_false]
    exact congrArg Except.ok (hps ▸ Clause.ofParameters_of_perm order)

/-- No text of a clause is whitespace alone: its namespace stands in it. -/
theorem Clause.Writes.trim_ne_nil {c : Clause} {text : Bytes} (h : c.Writes text)
    (named : c.IsNamed) : Bytes.trim text ≠ [] := by
  cases h with
  | @intro front behind ps texts hfront hbehind order written =>
    obtain ⟨b, name, hname⟩ := List.exists_cons_of_ne_nil named.name.ne_nil
    obtain ⟨rest, hrest⟩ : ∃ rest, Bytes.join [Ascii.byte ';']
        ((front ++ (c.name ++ behind)) :: texts) = front ++ (c.name ++ behind) ++ rest := by
      cases texts with
      | nil => exact ⟨[], (List.append_nil _).symm⟩
      | cons text texts => exact ⟨_, List.append_assoc _ _ _⟩
    have hmem : b ∈ Bytes.join [Ascii.byte ';'] ((front ++ (c.name ++ behind)) :: texts) := by
      rw [hrest, hname]
      simp
    exact Bytes.trim_ne_nil hmem (named.name.trimmed.1 b (by simp [hname]))

/-! ## Headers -/

/-- The clauses are read as what they were written from, and what stands between is left out. -/
theorem mapM_parse_of_writesAll {clauses : List Clause} {texts : List Bytes}
    (h : WritesAll Clause.Writes clauses texts) (named : ∀ c ∈ clauses, c.IsNamed) :
    (texts.filter fun text => Bytes.trim text ≠ []).mapM Clause.parse = .ok clauses := by
  induction h with
  | nil => rfl
  | blank hgap rest ih =>
    rw [List.filter_cons_of_neg (by simp [Bytes.trim_of_isSpace hgap])]
    exact ih named
  | cons first rest ih =>
    obtain ⟨hfirst, hrest⟩ := List.forall_mem_cons.1 named
    rw [List.filter_cons_of_pos (by simp [first.trim_ne_nil hfirst]), List.mapM_cons,
      first.parse_eq hfirst, ih hrest]
    rfl

/-- What has a text for each member has texts for a list of them. -/
theorem exists_writesAll {α : Type} {Writes : α → Bytes → Prop} (xs : List α)
    (h : ∀ x ∈ xs, ∃ text, Writes x text) : ∃ texts, WritesAll Writes xs texts := by
  induction xs with
  | nil => exact ⟨[], .nil⟩
  | cons x xs ih =>
    obtain ⟨⟨text, htext⟩, hxs⟩ := List.forall_mem_cons.1 h
    obtain ⟨texts, htexts⟩ := ih hxs
    exact ⟨text :: texts, .cons htext htexts⟩

theorem Parameter.exists_writes (p : Parameter) : ∃ text, p.Writes text := by
  cases p with
  | attr key value =>
    exact ⟨_, @Parameter.Writes.intro false key _ value _ _ _ Bytes.isSpace_nil
      (.plain Bytes.isSpace_nil) Bytes.isSpace_nil Bytes.isSpace_nil⟩
  | directive key value =>
    exact ⟨_, @Parameter.Writes.intro true key _ value _ _ _ Bytes.isSpace_nil
      (.directive Bytes.isSpace_nil) Bytes.isSpace_nil Bytes.isSpace_nil⟩

theorem Clause.exists_writes (c : Clause) : ∃ text, c.Writes text := by
  obtain ⟨texts, written⟩ :=
    exists_writesAll c.parameters fun p _ => Parameter.exists_writes p
  exact ⟨_, .intro Bytes.isSpace_nil Bytes.isSpace_nil (List.Perm.refl _) written⟩

/-- A text of a list of clauses is read as that list. -/
theorem WritesHeader.parseHeader_eq {clauses : List Clause} {text : Bytes}
    (h : WritesHeader clauses text) (named : ∀ c ∈ clauses, c.IsNamed) :
    Clause.parseHeader text = .ok clauses := by
  obtain ⟨texts, written, rfl⟩ := h
  have hread := mapM_parse_of_writesAll written named
  have hsegments : ∀ text ∈ texts, Quoted.IsSegment (Ascii.byte ',') text :=
    written.isSegment (by decide) fun c hc text htext => htext.isSegment (named c hc)
  rw [Clause.parseHeader]
  cases texts with
  | nil => exact hread
  | cons first rest =>
    rw [Quoted.splitOn_join (List.cons_ne_nil _ _) (by decide) hsegments]
    exact hread

/-- **A header is read as the clauses it was written from.** They stand in the same order, whatever
their values are, however they were written: every list of clauses whose names mean nothing else
can be written, and each of its texts is read as that list. -/
theorem Clause.parseHeader_of_written {clauses : List Clause}
    (named : ∀ c ∈ clauses, c.IsNamed) : (∃ text, WritesHeader clauses text) ∧
      ∀ text, WritesHeader clauses text → Clause.parseHeader text = .ok clauses := by
  obtain ⟨texts, written⟩ := exists_writesAll clauses fun c _ => c.exists_writes
  exact ⟨⟨_, texts, written, rfl⟩, fun text h => h.parseHeader_eq named⟩

/-- Separators and quotes between quotes, a typed attribute behind a directive, a value that ends
in a backslash, and parameters and clauses with nothing in them. -/
theorem Clause.parseHeader_of_written_quoted :
    Clause.parseHeader
      (ascii " a.b ; ;d:= \",;:=\\\"\" ; key : Type = \"x\\\\\" , ,c") =
      .ok [⟨ascii "a.b", .ofList [(ascii "key", ascii "x\\")],
        .ofList [(ascii "d", ascii ",;:=\"")]⟩, ⟨ascii "c", .empty, .empty⟩] := by
  have blank : IsSpace (ascii " ") := by decide +kernel
  have typed : WritesKey (ascii "key") false (ascii "key : Type ") :=
    .typed blank blank (by decide +kernel : IsWord (ascii "Type")) blank
  have directive : Parameter.Writes (.directive (ascii "d") (ascii ",;:=\"")) _ :=
    @Parameter.Writes.intro true _ (ascii "d:") _ [] (ascii " ") (ascii " ") Bytes.isSpace_nil
      (.directive Bytes.isSpace_nil) blank blank
  have attr : Parameter.Writes (.attr (ascii "key") (ascii "x\\")) _ :=
    @Parameter.Writes.intro false _ _ _ (ascii " ") (ascii " ") (ascii " ") blank typed blank blank
  have first : Clause.Writes ⟨ascii "a.b", .ofList [(ascii "key", ascii "x\\")],
      .ofList [(ascii "d", ascii ",;:=\"")]⟩ _ :=
    .intro blank blank (by decide +kernel) (.blank blank (.cons directive (.cons attr .nil)))
  have last : Clause.Writes ⟨ascii "c", .empty, .empty⟩ _ :=
    .intro Bytes.isSpace_nil Bytes.isSpace_nil .nil .nil
  have written := WritesAll.cons first (.blank blank (.cons last .nil))
  exact (Clause.parseHeader_of_written (by decide +kernel)).2 _ ⟨_, written, by decide +kernel⟩

end JavaFloor
