import JavaFloor.Archive.Path
import JavaFloor.Proofs.Bytes

/-!
# The spellings of paths

An entry can be spelled with `./` and slashes in front and with several slashes in a row. Here it is
said which spellings lead to the entries that matter.

* `EntryPath.lead` is what may stand in front. Every path is such a lead with a rest behind it that
  starts with no slash (`EntryPath.exists_lead`), and normalizing the path collapses the slashes of
  that rest (`EntryPath.normalize_lead`).
* `EntryPath.collapse_eq_append_cons_iff`: a collapsed path has a slash where the path has some.
* `EntryPath.kinds_of_spelling`: the spellings of components and of subsystem manifests.
-/

namespace JavaFloor

namespace EntryPath

/-- What does not change where a path leads: any number of `./`, and any number of slashes behind
these. -/
def lead (dots slashes : Nat) : Bytes :=
  (List.replicate dots (ascii "./")).flatten ++ List.replicate slashes Ascii.slash

variable {s a b rest : Bytes}

/-! ## What stands in front -/

theorem dropDots_append (dots : Nat) (s : Bytes) :
    dropDots ((List.replicate dots (ascii "./")).flatten ++ s) = dropDots s := by
  induction dots with
  | zero => rfl
  | succ n ih => exact ih

/-- Where no `./` stands, nothing is dropped. -/
theorem dropDots_eq_self (h : ¬ ascii "./" <+: s) : dropDots s = s := by
  match s with
  | [] => rfl
  | [c] => rfl
  | c :: d :: s =>
    rw [dropDots, if_neg]
    rintro ⟨rfl, rfl⟩
    exact h ⟨s, rfl⟩

theorem exists_dots (s : Bytes) :
    ∃ dots, s = (List.replicate dots (ascii "./")).flatten ++ dropDots s := by
  induction s using dropDots.induct with
  | case1 | case2 => exact ⟨0, rfl⟩
  | case3 c d s h ih =>
    obtain ⟨rfl, rfl⟩ := h
    obtain ⟨dots, hs⟩ := ih
    refine ⟨dots + 1, ?_⟩
    rw [dropDots, if_pos ⟨rfl, rfl⟩, List.replicate_succ, List.flatten_cons, List.append_assoc,
      ← hs]
    rfl
  | case4 c d s h => exact ⟨0, by rw [dropDots, if_neg h]; rfl⟩

theorem dropWhile_slashes (slashes : Nat) (h : rest.head? ≠ some Ascii.slash) :
    (List.replicate slashes Ascii.slash ++ rest).dropWhile (· == Ascii.slash) = rest := by
  rw [List.dropWhile_append_of_pos fun c hc => by simp [List.eq_of_mem_replicate hc]]
  exact Bytes.dropWhile_of_head fun c hc => by
    simpa using fun heq : c = Ascii.slash => h (heq ▸ hc)

theorem exists_slashes (s : Bytes) : ∃ slashes,
    s = List.replicate slashes Ascii.slash ++ s.dropWhile (· == Ascii.slash) := by
  refine ⟨(s.takeWhile (· == Ascii.slash)).length, ?_⟩
  have hall : s.takeWhile (· == Ascii.slash) =
      List.replicate (s.takeWhile (· == Ascii.slash)).length Ascii.slash :=
    List.eq_replicate_of_mem fun c hc => by simpa using List.mem_takeWhile_imp hc
  rw [← hall, List.takeWhile_append_dropWhile]

theorem head?_dropWhile_slash (s : Bytes) :
    (s.dropWhile (· == Ascii.slash)).head? ≠ some Ascii.slash := by
  intro h
  have hhead := List.head?_dropWhile_not (· == Ascii.slash) s
  simp [h] at hhead

/-- **A lead is taken off**, provided that it was not continued by what stands behind it. -/
theorem normalize_lead {dots slashes : Nat} (hslash : rest.head? ≠ some Ascii.slash)
    (hdots : slashes = 0 → ¬ ascii "./" <+: rest) :
    normalize (lead dots slashes ++ rest) = collapse rest := by
  have hself : dropDots (List.replicate slashes Ascii.slash ++ rest) =
      List.replicate slashes Ascii.slash ++ rest := by
    apply dropDots_eq_self
    cases slashes with
    | zero => exact hdots rfl
    | succ n =>
      rintro ⟨behind, h⟩
      exact absurd (List.cons.inj h).1 (by decide)
  rw [normalize, lead, List.append_assoc, dropDots_append, hself, dropWhile_slashes slashes hslash]

/-- Every path has a lead, and normalizing it collapses the rest. -/
theorem exists_lead (s : Bytes) : ∃ dots slashes rest, s = lead dots slashes ++ rest ∧
    rest.head? ≠ some Ascii.slash ∧ normalize s = collapse rest := by
  obtain ⟨dots, hdots⟩ := exists_dots s
  obtain ⟨slashes, hslashes⟩ := exists_slashes (dropDots s)
  refine ⟨dots, slashes, (dropDots s).dropWhile (· == Ascii.slash), ?_,
    head?_dropWhile_slash (dropDots s), rfl⟩
  rw [lead, List.append_assoc, ← hslashes, ← hdots]

/-! ## Slashes in a row -/

theorem collapse_cons_of_ne {c : UInt8} (h : c ≠ Ascii.slash) (s : Bytes) :
    collapse (c :: s) = c :: collapse s := by
  cases s with
  | nil => rfl
  | cons d s => rw [collapse, if_neg fun hboth => h hboth.1]

theorem collapse_slash_slash (s : Bytes) :
    collapse (Ascii.slash :: Ascii.slash :: s) = collapse (Ascii.slash :: s) := by
  rw [collapse, if_pos ⟨rfl, rfl⟩]

theorem collapse_slash (h : s.head? ≠ some Ascii.slash) :
    collapse (Ascii.slash :: s) = Ascii.slash :: collapse s := by
  cases s with
  | nil => rfl
  | cons d s => rw [collapse, if_neg fun hboth => h (congrArg some hboth.2)]

/-- What collapsing does: a slash is dropped if another one follows, and any other byte is kept. -/
theorem collapse_cons_cases (c : UInt8) (s : Bytes) :
    (c = Ascii.slash ∧ s.head? = some Ascii.slash ∧ collapse (c :: s) = collapse s) ∨
    (¬ (c = Ascii.slash ∧ s.head? = some Ascii.slash) ∧ collapse (c :: s) = c :: collapse s) := by
  by_cases hc : c = Ascii.slash
  · subst hc
    by_cases hs : s.head? = some Ascii.slash
    · obtain ⟨t, rfl⟩ := List.head?_eq_some_iff.1 hs
      exact .inl ⟨rfl, rfl, collapse_slash_slash t⟩
    · exact .inr ⟨fun h => hs h.2, collapse_slash hs⟩
  · exact .inr ⟨fun h => hc h.1, collapse_cons_of_ne hc s⟩

@[simp]
theorem head?_collapse (s : Bytes) : (collapse s).head? = s.head? := by
  induction s with
  | nil => rfl
  | cons c s ih =>
    rcases collapse_cons_cases c s with ⟨rfl, hs, h⟩ | ⟨-, h⟩
    · rw [h, ih, hs, List.head?_cons]
    · rw [h, List.head?_cons, List.head?_cons]

@[simp]
theorem mem_collapse {c : UInt8} : c ∈ collapse s ↔ c ∈ s := by
  induction s with
  | nil => rfl
  | cons d s ih =>
    rcases collapse_cons_cases d s with ⟨rfl, hs, h⟩ | ⟨-, h⟩
    · rw [h, ih, List.mem_cons, or_iff_right_of_imp]
      rintro rfl
      exact List.mem_of_head? hs
    · rw [h, List.mem_cons, List.mem_cons, ih]

/-- No two slashes in a row are left. -/
theorem not_infix_collapse (s : Bytes) : ¬ [Ascii.slash, Ascii.slash] <:+: collapse s := by
  induction s with
  | nil => exact fun h => absurd h.length_le (by decide)
  | cons c s ih =>
    rcases collapse_cons_cases c s with ⟨-, -, h⟩ | ⟨hnot, h⟩
    · rwa [h]
    · rw [h, List.infix_cons_iff, not_or]
      refine ⟨fun hprefix => ?_, ih⟩
      obtain ⟨rfl, hnext⟩ := List.cons_prefix_cons.1 hprefix
      obtain ⟨behind, hs⟩ := hnext
      refine hnot ⟨rfl, ?_⟩
      rw [← head?_collapse, ← hs]
      rfl

/-- A path without slashes stays as it is. -/
theorem collapse_of_notMem (h : Ascii.slash ∉ s) : collapse s = s := by
  induction s with
  | nil => rfl
  | cons c s ih =>
    obtain ⟨hc, hs⟩ := not_or.1 (mt List.mem_cons.2 h)
    rw [collapse_cons_of_ne (Ne.symm hc), ih hs]

/-- Slashes in a row become one. -/
theorem collapse_slashes (ha : Ascii.slash ∉ a) (n : Nat) (hb : b.head? ≠ some Ascii.slash) :
    collapse (a ++ (List.replicate (n + 1) Ascii.slash ++ b)) =
      a ++ Ascii.slash :: collapse b := by
  induction a with
  | nil =>
    induction n with
    | zero => exact collapse_slash hb
    | succ n ih => exact (collapse_slash_slash _).trans ih
  | cons c a ih =>
    obtain ⟨hc, ha⟩ := not_or.1 (mt List.mem_cons.2 ha)
    rw [List.cons_append, collapse_cons_of_ne (Ne.symm hc), ih ha, List.cons_append]

/-- A slash of a collapsed path stands where the path has some. -/
theorem collapse_eq_append_cons_iff (ha : Ascii.slash ∉ a) :
    collapse s = a ++ Ascii.slash :: b ↔ ∃ n rest, rest.head? ≠ some Ascii.slash ∧
      s = a ++ (List.replicate (n + 1) Ascii.slash ++ rest) ∧ collapse rest = b := by
  constructor
  · intro h
    have hmem : Ascii.slash ∈ s := by
      rw [← mem_collapse, h]
      simp
    obtain ⟨front, behind, rfl, hfront⟩ := List.eq_append_cons_of_mem hmem
    obtain ⟨n, hbehind⟩ := exists_slashes behind
    have hhead := head?_dropWhile_slash behind
    generalize behind.dropWhile (· == Ascii.slash) = rest at hbehind hhead
    subst hbehind
    have hslashes : Ascii.slash :: (List.replicate n Ascii.slash ++ rest) =
        List.replicate (n + 1) Ascii.slash ++ rest := rfl
    rw [hslashes] at h ⊢
    rw [collapse_slashes hfront n hhead] at h
    -- both sides have the same bytes in front of their first slash
    obtain ⟨htake, hdrop⟩ := Bytes.takeWhile_dropWhile_of_notMem hfront (collapse rest)
    obtain ⟨htake', hdrop'⟩ := Bytes.takeWhile_dropWhile_of_notMem ha b
    rw [h, htake'] at htake
    rw [h, hdrop', List.cons.injEq] at hdrop
    exact ⟨n, rest, hhead, by rw [htake], hdrop.2.symm⟩
  · rintro ⟨n, rest, hhead, rfl, rfl⟩
    exact collapse_slashes ha n hhead

/-! ## The entries that matter -/

theorem isComponent_iff : isComponent s = true ↔
    Ascii.slash ∉ s ∧ 4 < s.length ∧ ascii ".jar" <:+ s := by
  simp [isComponent, Bytes.endsWith, and_assoc]

/-- No byte but a slash becomes a slash by a change of case. -/
theorem eq_slash_of_sameLetter {c : UInt8} (h : Bytes.SameLetter c Ascii.slash) :
    c = Ascii.slash :=
  Bytes.forall_of_lt (p := fun c => Bytes.SameLetter c Ascii.slash → c = Ascii.slash)
    (by simp only [Bytes.SameLetter]; decide +kernel) c h

theorem slash_notMem_of_sameLetters (h : Bytes.SameLetters a b) (hb : Ascii.slash ∉ b) :
    Ascii.slash ∉ a := by
  intro hmem
  induction h with
  | nil => cases hmem
  | cons hcd _ ih =>
    obtain ⟨hd, hb⟩ := not_or.1 (mt List.mem_cons.2 hb)
    rcases List.mem_cons.1 hmem with rfl | hmem
    · exact hd (eq_slash_of_sameLetter hcd.symm).symm
    · exact ih hb hmem

/-- The path of a subsystem manifest is the name of a directory and the name of a file. -/
theorem isSubsystemManifest_iff : isSubsystemManifest s = true ↔
    ∃ directory file, s = directory ++ Ascii.slash :: file ∧
      Bytes.SameLetters directory (ascii "OSGI-INF") ∧
      Bytes.SameLetters file (ascii "SUBSYSTEM.MF") := by
  have hpath : subsystemManifest = ascii "OSGI-INF" ++ Ascii.slash :: ascii "SUBSYSTEM.MF" := by
    decide +kernel
  rw [isSubsystemManifest, Bytes.equalFold_iff, hpath]
  constructor
  · intro h
    have hdirectory := List.forall₂_take_append _ _ _ h
    obtain ⟨c, file, hc, hfile, hdrop⟩ :=
      List.forall₂_cons_right_iff.1 (List.forall₂_drop_append _ _ _ h)
    obtain rfl := eq_slash_of_sameLetter hc
    refine ⟨_, file, ?_, hdirectory, hfile⟩
    rw [← hdrop, List.take_append_drop]
  · rintro ⟨directory, file, rfl, hdirectory, hfile⟩
    exact List.rel_append hdirectory (.cons (.inl rfl) hfile)

/-- The path of a component has no slash in it, the one of a subsystem manifest has. -/
theorem not_isSubsystemManifest_of_isComponent (h : isComponent s = true) :
    isSubsystemManifest s = false := by
  rw [← Bool.not_eq_true, isSubsystemManifest_iff]
  rintro ⟨directory, file, rfl, -⟩
  exact (isComponent_iff.1 h).1 (by simp)

/-! ## Normalized paths -/

theorem head?_normalize (s : Bytes) : (normalize s).head? ≠ some Ascii.slash := by
  rw [normalize, head?_collapse]
  exact head?_dropWhile_slash (dropDots s)

theorem not_infix_normalize (s : Bytes) : ¬ [Ascii.slash, Ascii.slash] <:+: normalize s :=
  not_infix_collapse _

/-- A lead is taken off in front of a name. -/
theorem normalize_lead_append (dots slashes : Nat) (ha : Ascii.slash ∉ a) (hlength : 2 ≤ a.length)
    (b : Bytes) : normalize (lead dots slashes ++ (a ++ b)) = collapse (a ++ b) := by
  have hne : a ≠ [] := List.ne_nil_of_length_pos (Nat.lt_of_lt_of_le Nat.two_pos hlength)
  refine normalize_lead ?_ fun _ hprefix => ha ?_
  · rw [List.head?_append_of_ne_nil a hne]
    exact fun h => ha (List.mem_of_head? h)
  · -- the name is long enough for `./` to be in it
    exact (List.prefix_of_prefix_length_le hprefix (List.prefix_append a b) hlength).subset
      (by decide +kernel)

theorem isComponent_normalize_iff : isComponent (normalize s) = true ↔
    ∃ dots slashes base, s = lead dots slashes ++ base ∧ Ascii.slash ∉ base ∧ 4 < base.length ∧
      ascii ".jar" <:+ base := by
  constructor
  · intro h
    obtain ⟨dots, slashes, rest, hs, -, hnormalize⟩ := exists_lead s
    rw [hnormalize, isComponent_iff, mem_collapse] at h
    rw [collapse_of_notMem h.1] at h
    exact ⟨dots, slashes, rest, hs, h⟩
  · rintro ⟨dots, slashes, base, rfl, hbase, hlength, hjar⟩
    have hnormalize := normalize_lead_append dots slashes hbase
      (Nat.le_trans (by decide) hlength.le) []
    rw [List.append_nil, collapse_of_notMem hbase] at hnormalize
    rw [hnormalize]
    exact isComponent_iff.2 ⟨hbase, hlength, hjar⟩

theorem isSubsystemManifest_normalize_iff : isSubsystemManifest (normalize s) = true ↔
    ∃ dots slashes directory n file,
      s = lead dots slashes ++ (directory ++ (List.replicate (n + 1) Ascii.slash ++ file)) ∧
      Bytes.SameLetters directory (ascii "OSGI-INF") ∧
      Bytes.SameLetters file (ascii "SUBSYSTEM.MF") := by
  have hname : ∀ {word : Bytes}, Bytes.SameLetters word (ascii "OSGI-INF") → Ascii.slash ∉ word :=
    fun h => slash_notMem_of_sameLetters h (by decide +kernel)
  have hfileName : ∀ {word : Bytes}, Bytes.SameLetters word (ascii "SUBSYSTEM.MF") →
      Ascii.slash ∉ word := fun h => slash_notMem_of_sameLetters h (by decide +kernel)
  constructor
  · intro h
    obtain ⟨dots, slashes, rest, rfl, -, hnormalize⟩ := exists_lead s
    obtain ⟨directory, file, hpath, hdirectory, hfile⟩ := isSubsystemManifest_iff.1 h
    rw [hnormalize, collapse_eq_append_cons_iff (hname hdirectory)] at hpath
    obtain ⟨n, behind, -, rfl, hbehind⟩ := hpath
    have hslash := hfileName hfile
    rw [← hbehind, mem_collapse] at hslash
    rw [collapse_of_notMem hslash] at hbehind
    exact ⟨dots, slashes, directory, n, file, by rw [hbehind], hdirectory, hfile⟩
  · rintro ⟨dots, slashes, directory, n, file, rfl, hdirectory, hfile⟩
    have hslash := hfileName hfile
    have hhead : file.head? ≠ some Ascii.slash := fun h => hslash (List.mem_of_head? h)
    have hlength : directory.length = 8 := hdirectory.length_eq
    rw [normalize_lead_append dots slashes (hname hdirectory) (by omega),
      collapse_slashes (hname hdirectory) n hhead, collapse_of_notMem hslash]
    exact isSubsystemManifest_iff.2 ⟨directory, file, rfl, hdirectory, hfile⟩

/-- **The spellings of the entries that matter.**

A component is spelled with any number of `./`, any number of slashes, and a name without slashes
that ends in `.jar` behind some other byte. A subsystem manifest is spelled with any number of `./`,
any number of slashes, `OSGI-INF` in any case, one slash or more, and `SUBSYSTEM.MF` in any case. No
spelling is both, and no normalized path starts with a slash or has two of them in a row. -/
theorem kinds_of_spelling (s : Bytes) :
    (isComponent (normalize s) = true ↔ ∃ dots slashes base, s = lead dots slashes ++ base ∧
      Ascii.slash ∉ base ∧ 4 < base.length ∧ ascii ".jar" <:+ base) ∧
    (isSubsystemManifest (normalize s) = true ↔ ∃ dots slashes directory n file,
      s = lead dots slashes ++ (directory ++ (List.replicate (n + 1) Ascii.slash ++ file)) ∧
      Bytes.SameLetters directory (ascii "OSGI-INF") ∧
      Bytes.SameLetters file (ascii "SUBSYSTEM.MF")) ∧
    ¬ (isComponent (normalize s) = true ∧ isSubsystemManifest (normalize s) = true) ∧
    (normalize s).head? ≠ some Ascii.slash ∧
    ¬ [Ascii.slash, Ascii.slash] <:+: normalize s := by
  refine ⟨isComponent_normalize_iff, isSubsystemManifest_normalize_iff, ?_, head?_normalize s,
    not_infix_normalize s⟩
  rintro ⟨hcomponent, hsubsystem⟩
  rw [not_isSubsystemManifest_of_isComponent hcomponent] at hsubsystem
  cases hsubsystem

example : isComponent (normalize (ascii "././//a.jar")) = true ∧
    isComponent (normalize (ascii ".//./a.jar")) = false ∧
    isSubsystemManifest (normalize (ascii "./osgi-inf//Subsystem.mf")) = true := by
  decide +kernel

end EntryPath

end JavaFloor
