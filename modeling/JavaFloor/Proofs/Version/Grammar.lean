import JavaFloor.Proofs.Bytes
import JavaFloor.Proofs.Except
import JavaFloor.Version

/-!
# The grammar of versions

A version is written as one to four parts with dots between them. The first three parts are numbers
of 32 bits, with any number of zeros in front, and the fourth one is a name.

* `Version.IsNumber` are the texts of such a number, and `Version.Spells` those of a version.
* `Version.ofParts_splitOn_eq_ok_iff`: cutting a text at its dots and reading the parts finds the
  version that it spells.
* `Version.parse_eq_ok_iff`: so a text is read as a version if it spells this version when trimmed.
* `Version.parse_iff_spells` says this without trimming, and that the kept text is read again.
-/

namespace JavaFloor

namespace Version

/-- A string of digits that denotes a number of 32 bits. -/
def IsNumber (s : Bytes) (x : UInt32) : Prop :=
  ∃ n, Bytes.Numeral s n ∧ n ≤ 4294967295 ∧ x.toNat = n

/-- The texts of versions. Numbers that are missing are 0, and a missing qualifier is empty. -/
inductive Spells : Bytes → Version → Prop
  | major {a : Bytes} {x : UInt32} (ha : IsNumber a x) : Spells a ⟨x, 0, 0, [], a⟩
  | minor {a b : Bytes} {x y : UInt32} (ha : IsNumber a x) (hb : IsNumber b y) :
      Spells (a ++ Ascii.byte '.' :: b) ⟨x, y, 0, [], a ++ Ascii.byte '.' :: b⟩
  | micro {a b c : Bytes} {x y z : UInt32} (ha : IsNumber a x) (hb : IsNumber b y)
      (hc : IsNumber c z) :
      Spells (a ++ Ascii.byte '.' :: (b ++ Ascii.byte '.' :: c))
        ⟨x, y, z, [], a ++ Ascii.byte '.' :: (b ++ Ascii.byte '.' :: c)⟩
  | qualified {a b c q : Bytes} {x y z : UInt32} (ha : IsNumber a x) (hb : IsNumber b y)
      (hc : IsNumber c z) (hne : q ≠ []) (hq : ∀ d ∈ q, Ascii.isNameChar d = true) :
      Spells (a ++ Ascii.byte '.' :: (b ++ Ascii.byte '.' :: (c ++ Ascii.byte '.' :: q)))
        ⟨x, y, z, q, a ++ Ascii.byte '.' :: (b ++ Ascii.byte '.' :: (c ++ Ascii.byte '.' :: q))⟩

/-- The bytes of which the texts of versions consist. -/
def isTextChar (c : UInt8) : Bool := Ascii.isNameChar c || c == Ascii.byte '.'

variable {s text : Bytes} {x : UInt32} {v : Version}

/-! ## Parts -/

theorem number?_eq_some_iff : number? s = some x ↔ IsNumber s x := by
  rw [number?]
  constructor
  · intro h
    split at h
    next hs =>
      obtain ⟨hne, hdigits, hlt⟩ := hs
      obtain rfl := Option.some.inj h
      have hdenotes := Bytes.numeral_iff.2 ⟨hne, List.all_eq_true.1 hdigits, rfl⟩
      exact ⟨_, hdenotes, Nat.le_of_lt_succ hlt, UInt32.toNat_ofNat_of_lt hlt⟩
    next => cases h
  · rintro ⟨n, hdenotes, hle, hx⟩
    obtain ⟨hne, hdigits, rfl⟩ := Bytes.numeral_iff.1 hdenotes
    rw [if_pos ⟨hne, List.all_eq_true.2 hdigits, Nat.lt_succ_of_le hle⟩, ← hx, UInt32.ofNat_toNat]

theorem component_eq_ok_iff {part : Bytes} : component text part = .ok x ↔ IsNumber part x := by
  rw [component, ← number?_eq_some_iff]
  cases number? part <;> simp

theorem isQualifier_iff : isQualifier s = true ↔ s ≠ [] ∧ ∀ c ∈ s, Ascii.isNameChar c = true := by
  rw [isQualifier, Bool.and_eq_true, List.all_eq_true, Bool.not_eq_true', List.isEmpty_eq_false_iff]

/-- A number has no other characters than names have. -/
theorem IsNumber.isNameChar (h : IsNumber s x) : ∀ c ∈ s, Ascii.isNameChar c = true := by
  obtain ⟨n, hdenotes, -⟩ := h
  intro c hc
  have hdigit := (Bytes.numeral_iff.1 hdenotes).2.1 c hc
  simp [Ascii.isNameChar, Ascii.isAlphanumeric, hdigit]

theorem dot_notMem_of_isNameChar (h : ∀ c ∈ s, Ascii.isNameChar c = true) :
    Ascii.byte '.' ∉ s := fun hdot => absurd (h _ hdot) (by decide)

theorem IsNumber.dot_notMem (h : IsNumber s x) : Ascii.byte '.' ∉ s :=
  dot_notMem_of_isNameChar h.isNameChar

theorem IsNumber.ne_nil (h : IsNumber s x) : s ≠ [] := by
  obtain ⟨n, hdenotes, -⟩ := h
  exact (Bytes.numeral_iff.1 hdenotes).1

/-! ## Texts -/

/-- The version keeps the text that spells it. -/
theorem Spells.text_eq (h : Spells text v) : v.text = text := by cases h <;> rfl

theorem Spells.ne_nil (h : Spells text v) : text ≠ [] := by
  cases h with
  | major ha => exact ha.ne_nil
  | minor | micro | qualified => simp

theorem Spells.isTextChar (h : Spells text v) : ∀ c ∈ text, isTextChar c = true := by
  have hname : ∀ {t : Bytes}, (∀ c ∈ t, Ascii.isNameChar c = true) →
      ∀ c ∈ t, Version.isTextChar c = true := fun ht c hc => by
    rw [Version.isTextChar, ht c hc, Bool.true_or]
  have hjoin : ∀ {a b : Bytes}, (∀ c ∈ a, Version.isTextChar c = true) →
      (∀ c ∈ b, Version.isTextChar c = true) →
      ∀ c ∈ a ++ Ascii.byte '.' :: b, Version.isTextChar c = true := fun ha hb =>
    List.forall_mem_append.2 ⟨ha, List.forall_mem_cons.2 ⟨by decide, hb⟩⟩
  cases h with
  | major ha => exact hname ha.isNameChar
  | minor ha hb => exact hjoin (hname ha.isNameChar) (hname hb.isNameChar)
  | micro ha hb hc =>
    exact hjoin (hname ha.isNameChar) (hjoin (hname hb.isNameChar) (hname hc.isNameChar))
  | qualified ha hb hc hne hq =>
    exact hjoin (hname ha.isNameChar) (hjoin (hname hb.isNameChar)
      (hjoin (hname hc.isNameChar) (hname hq)))

/-- A qualifier has no other characters than names have. -/
theorem Spells.isNameChar_qualifier (h : Spells text v) :
    ∀ c ∈ v.qualifier, Ascii.isNameChar c = true := by
  cases h with
  | major | minor | micro => simp
  | qualified ha hb hc hne hq => exact hq

theorem isSpace_of_isTextChar {c : UInt8} (h : isTextChar c = true) : Ascii.isSpace c = false :=
  Bytes.forall_of_lt (p := fun c => isTextChar c = true → Ascii.isSpace c = false)
    (by decide +kernel) c h

theorem Spells.isSpace_eq_false (h : Spells text v) : ∀ c ∈ text, Ascii.isSpace c = false :=
  fun c hc => isSpace_of_isTextChar (h.isTextChar c hc)

/-! ## Reading -/

/-- **Cut at its dots, a text is read as the version that it spells.** -/
theorem ofParts_splitOn_eq_ok_iff :
    ofParts text (Bytes.splitOn (Ascii.byte '.') text) = .ok v ↔ Spells text v := by
  constructor
  · intro h
    -- the parts are known by their number, and the text is what stands between its dots
    rcases hparts : Bytes.splitOn (Ascii.byte '.') text with
      _ | ⟨a, _ | ⟨b, _ | ⟨c, _ | ⟨q, _ | ⟨r, rest⟩⟩⟩⟩⟩ <;> rw [hparts] at h
    · cases h
    · obtain ⟨rfl, -⟩ := Bytes.splitOn_eq_singleton_iff.1 hparts
      obtain ⟨x, ha, h⟩ := bind_eq_ok h
      cases h
      exact .major (component_eq_ok_iff.1 ha)
    · obtain ⟨rfl, -⟩ := Bytes.splitOn_eq_pair_iff.1 hparts
      obtain ⟨x, ha, h⟩ := bind_eq_ok h
      obtain ⟨y, hb, h⟩ := bind_eq_ok h
      cases h
      exact .minor (component_eq_ok_iff.1 ha) (component_eq_ok_iff.1 hb)
    · obtain ⟨_, rfl, -, hparts⟩ := Bytes.splitOn_eq_cons_cons_iff.1 hparts
      obtain ⟨rfl, -⟩ := Bytes.splitOn_eq_pair_iff.1 hparts
      obtain ⟨x, ha, h⟩ := bind_eq_ok h
      obtain ⟨y, hb, h⟩ := bind_eq_ok h
      obtain ⟨z, hc, h⟩ := bind_eq_ok h
      cases h
      exact .micro (component_eq_ok_iff.1 ha) (component_eq_ok_iff.1 hb)
        (component_eq_ok_iff.1 hc)
    · obtain ⟨_, rfl, -, hparts⟩ := Bytes.splitOn_eq_cons_cons_iff.1 hparts
      obtain ⟨_, rfl, -, hparts⟩ := Bytes.splitOn_eq_cons_cons_iff.1 hparts
      obtain ⟨rfl, -⟩ := Bytes.splitOn_eq_pair_iff.1 hparts
      obtain ⟨x, ha, h⟩ := bind_eq_ok h
      obtain ⟨y, hb, h⟩ := bind_eq_ok h
      obtain ⟨z, hc, h⟩ := bind_eq_ok h
      split at h
      next hq =>
        cases h
        exact .qualified (component_eq_ok_iff.1 ha) (component_eq_ok_iff.1 hb)
          (component_eq_ok_iff.1 hc) (isQualifier_iff.1 hq).1 (isQualifier_iff.1 hq).2
      next => cases h
    · cases h
  · intro h
    cases h with
    | major ha =>
      rw [Bytes.splitOn_of_notMem ha.dot_notMem]
      simp only [ofParts, component_eq_ok_iff.2 ha]
      rfl
    | minor ha hb =>
      rw [Bytes.splitOn_append_cons ha.dot_notMem, Bytes.splitOn_of_notMem hb.dot_notMem]
      simp only [ofParts, component_eq_ok_iff.2 ha, component_eq_ok_iff.2 hb]
      rfl
    | micro ha hb hc =>
      rw [Bytes.splitOn_append_cons ha.dot_notMem, Bytes.splitOn_append_cons hb.dot_notMem,
        Bytes.splitOn_of_notMem hc.dot_notMem]
      simp only [ofParts, component_eq_ok_iff.2 ha, component_eq_ok_iff.2 hb,
        component_eq_ok_iff.2 hc]
      rfl
    | qualified ha hb hc hne hq =>
      rw [Bytes.splitOn_append_cons ha.dot_notMem, Bytes.splitOn_append_cons hb.dot_notMem,
        Bytes.splitOn_append_cons hc.dot_notMem,
        Bytes.splitOn_of_notMem (dot_notMem_of_isNameChar hq)]
      simp only [ofParts, component_eq_ok_iff.2 ha, component_eq_ok_iff.2 hb,
        component_eq_ok_iff.2 hc, isQualifier_iff.2 ⟨hne, hq⟩, if_true]
      rfl

/-- A text is read as the version that it spells when trimmed. -/
theorem parse_eq_ok_iff : parse s = .ok v ↔ Spells (Bytes.trim s) v := by
  rw [parse]
  split
  next hnil => exact iff_of_false (fun h => by cases h) fun h => h.ne_nil hnil
  next => exact ofParts_splitOn_eq_ok_iff

/-- A text that spells a version is read as it stands. -/
theorem Spells.parse_eq (h : Spells text v) : parse text = .ok v := by
  rwa [parse_eq_ok_iff, Bytes.trim_eq_self h.isSpace_eq_false]

/-- Trimming a text that spells a version finds it among the whitespace. -/
theorem spells_trim_iff : Spells (Bytes.trim s) v ↔ ∃ front text behind,
    s = front ++ (text ++ behind) ∧ Bytes.IsSpace front ∧ Bytes.IsSpace behind ∧ Spells text v := by
  constructor
  · intro h
    obtain ⟨front, behind, hs, hfront, hbehind⟩ := Bytes.exists_trim s
    exact ⟨front, Bytes.trim s, behind, hs, hfront, hbehind, h⟩
  · rintro ⟨front, text, behind, rfl, hfront, hbehind, h⟩
    have htrimmed : Bytes.IsTrimmed text :=
      ⟨fun c hc => h.isSpace_eq_false c (List.mem_of_mem_head? hc),
        fun c hc => h.isSpace_eq_false c (List.mem_of_mem_getLast? hc)⟩
    rwa [Bytes.trim_append hfront htrimmed hbehind]

/-- **A text is read as a version if and only if it spells that version**, with whitespace around it
or without.

So it consists of one to four parts with dots between them. The first three are numbers of at most
4294967295, and the fourth is a name. The version has these parts, 0 for each number that is missing
and no qualifier if there is none; it keeps the trimmed text, and is read from that again. -/
theorem parse_iff_spells (s : Bytes) (v : Version) :
    (parse s = .ok v ↔ ∃ front text behind, s = front ++ (text ++ behind) ∧
      Bytes.IsSpace front ∧ Bytes.IsSpace behind ∧ Spells text v) ∧
    (parse s = .ok v → v.text = Bytes.trim s ∧ parse v.text = .ok v) := by
  refine ⟨parse_eq_ok_iff.trans spells_trim_iff, fun h => ?_⟩
  have hspells := parse_eq_ok_iff.1 h
  rw [hspells.text_eq]
  exact ⟨rfl, hspells.parse_eq⟩

example : parse (ascii "\t001.4294967295.0.-_7z\n") =
    .ok ⟨1, 4294967295, 0, ascii "-_7z", ascii "001.4294967295.0.-_7z"⟩ := by rfl

example : parse (ascii "1.4294967296") =
    .error (.badComponent (ascii "1.4294967296") (ascii "4294967296")) := by rfl

end Version

end JavaFloor
