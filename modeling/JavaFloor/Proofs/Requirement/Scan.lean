import JavaFloor.Proofs.Except
import JavaFloor.Proofs.Requirement.Quoted
import JavaFloor.Requirement.Header

/-!
# Separators outside quotes

Whether a separator counts is a matter of the quotes in front of it. A scan goes along a text one
byte after another and knows what it stands in: `Scan`.

* `Quoted.pieces_eq_cut`: a text is cut by a scan along it.
* `Quoted.IsPiece`: a text behind which the scan is outside quotes, and in which no separator
  counts. `Quoted.splitOn_eq_some_iff` says that a text is cut into pieces that make it again, and
  that this can be done in one way only.
* `Quoted.splitOn_at_separators` puts this together, and follows the clauses of a header from the
  commas to the semicolons.
-/

namespace JavaFloor

namespace Quoted

/-- What a scan stands in: outside quotes, inside, or inside behind a backslash, which takes the
next byte literally. -/
inductive Scan
  | outside
  | inside
  | escaped
  deriving DecidableEq

namespace Scan

/-- Where a scan starts. -/
def start (inside : Bool) : Scan := if inside then .inside else .outside

/-- The scan goes on by a byte. -/
def next : Scan → UInt8 → Scan
  | outside, c => if c = Ascii.quote then inside else outside
  | inside, c =>
    if c = Ascii.backslash then escaped
    else if c = Ascii.quote then outside
    else inside
  | escaped, _ => inside

/-- The scan goes along a text. -/
def along (q : Scan) (s : Bytes) : Scan := s.foldl next q

theorem start_true : start true = .inside := rfl

theorem start_false : start false = .outside := rfl

@[simp]
theorem along_nil (q : Scan) : q.along [] = q := rfl

@[simp]
theorem along_cons (q : Scan) (c : UInt8) (s : Bytes) : q.along (c :: s) = (q.next c).along s := rfl

end Scan

variable {sep c : UInt8} {s : Bytes} {q : Scan} {ps : List Bytes}

/-! ## Cutting by a scan -/

/-- Cuts a text along which a scan goes. -/
def cut (sep : UInt8) : Scan → Bytes → Option (List Bytes)
  | q, [] => if q = .outside then some [[]] else none
  | q, c :: s =>
    if q = .outside ∧ c = sep then (cut sep .outside s).map ([] :: ·)
    else (cut sep (q.next c) s).map (extend c)

theorem cut_nil (q : Scan) : cut sep q [] = if q = .outside then some [[]] else none := rfl

theorem cut_cons_of_counts (s : Bytes) :
    cut sep .outside (sep :: s) = (cut sep .outside s).map ([] :: ·) := if_pos ⟨rfl, rfl⟩

theorem cut_cons (h : q = .outside → c ≠ sep) (s : Bytes) :
    cut sep q (c :: s) = (cut sep (q.next c) s).map (extend c) := if_neg fun hc => h hc.1 hc.2

theorem cut_inside (c : UInt8) (s : Bytes) :
    cut sep .inside (c :: s) = (cut sep (Scan.inside.next c) s).map (extend c) :=
  if_neg fun h => nomatch h.1

theorem cut_escaped (c : UInt8) (s : Bytes) :
    cut sep .escaped (c :: s) = (cut sep .inside s).map (extend c) :=
  if_neg fun h => nomatch h.1

/-- **A text is cut by a scan along it.** -/
theorem pieces_eq_cut (hsep : sep ≠ Ascii.quote) (inside : Bool) (s : Bytes) :
    pieces sep inside s = cut sep (.start inside) s := by
  induction inside, s using pieces.induct sep with
  | case1 => rfl
  | case2 inside h =>
    obtain rfl := eq_false_of_ne_true h
    rfl
  | case3 => rfl
  | case4 d s ih =>
    have hnext : Scan.inside.next Ascii.backslash = .escaped := rfl
    rw [pieces_escaped, ih, Scan.start_true, cut_inside, hnext, cut_escaped, Option.map_map]
    rfl
  | case5 c s hslash ih =>
    have hnext : Scan.inside.next c = .start (c != Ascii.quote) := by
      rw [Scan.next, if_neg hslash, Scan.start]
      by_cases hquote : c = Ascii.quote <;> simp [hquote]
    rw [pieces_inside hslash, ih, Scan.start_true, cut_inside, hnext]
  | case6 inside s h ih =>
    obtain rfl := eq_false_of_ne_true h
    rw [pieces_opening, ih, Scan.start_false, cut_cons fun _ => hsep.symm]
    rfl
  | case7 inside s h hne ih =>
    obtain rfl := eq_false_of_ne_true h
    rw [pieces_separator hne, ih, Scan.start_false, cut_cons_of_counts]
  | case8 inside c s h hquote hc ih =>
    obtain rfl := eq_false_of_ne_true h
    have hnext : Scan.outside.next c = .outside := if_neg hquote
    rw [pieces_plain hc hquote, ih, Scan.start_false, cut_cons fun _ => hc, hnext]

theorem splitOn_eq_cut (hsep : sep ≠ Ascii.quote) (s : Bytes) :
    splitOn sep s = cut sep .outside s := pieces_eq_cut hsep false s

/-! ## Pieces -/

/-- No separator counts: where one stands, a scan that starts in `q` is inside quotes. -/
def IsFree (sep : UInt8) (q : Scan) (s : Bytes) : Prop :=
  ∀ front behind, s = front ++ sep :: behind → q.along front ≠ .outside

/-- What a text is cut into: behind it a scan that starts in `q` is outside quotes, and no separator
counts in it. -/
structure IsPiece (sep : UInt8) (q : Scan) (s : Bytes) : Prop where
  closed : q.along s = .outside
  free : IsFree sep q s

theorem isFree_nil : IsFree sep q [] := fun front behind h => by simp at h

theorem isFree_cons_iff :
    IsFree sep q (c :: s) ↔ (q = .outside → c ≠ sep) ∧ IsFree sep (q.next c) s := by
  constructor
  · refine fun h => ⟨?_, fun front behind hs => h (c :: front) behind (congrArg (c :: ·) hs)⟩
    rintro hq rfl
    exact h [] s rfl hq
  · rintro ⟨hc, hs⟩ (_ | ⟨d, front⟩) behind heq
    · exact fun hq => hc hq (List.cons.inj heq).1
    · obtain ⟨rfl, rfl⟩ := List.cons.inj heq
      exact hs front behind rfl

theorem isPiece_cons_iff :
    IsPiece sep q (c :: s) ↔ (q = .outside → c ≠ sep) ∧ IsPiece sep (q.next c) s := by
  constructor
  · rintro ⟨hclosed, hfree⟩
    exact ⟨(isFree_cons_iff.1 hfree).1, hclosed, (isFree_cons_iff.1 hfree).2⟩
  · rintro ⟨hc, hclosed, hfree⟩
    exact ⟨hclosed, isFree_cons_iff.2 ⟨hc, hfree⟩⟩

/-- There are pieces unless the text ends inside quotes. -/
theorem cut_eq_none_iff (hsep : sep ≠ Ascii.quote) :
    cut sep q s = none ↔ q.along s ≠ .outside := by
  induction s generalizing q with
  | nil =>
    rw [cut_nil, Scan.along_nil]
    split_ifs with hq <;> simp [hq]
  | cons c s ih =>
    rw [Scan.along_cons]
    by_cases hc : q = .outside ∧ c = sep
    · obtain ⟨rfl, rfl⟩ := hc
      have hnext : Scan.outside.next c = .outside := if_neg hsep
      rw [cut_cons_of_counts, Option.map_eq_none_iff, ih, hnext]
    · rw [cut_cons fun hq heq => hc ⟨hq, heq⟩, Option.map_eq_none_iff, ih]

theorem join_extend (hps : ps ≠ []) :
    Bytes.join [sep] (extend c ps) = c :: Bytes.join [sep] ps := by
  obtain ⟨p, _ | ⟨r, rest⟩, rfl⟩ := List.exists_cons_of_ne_nil hps
  · rfl
  · rfl

theorem join_nil_cons (hps : ps ≠ []) :
    Bytes.join [sep] ([] :: ps) = sep :: Bytes.join [sep] ps := by
  obtain ⟨p, rest, rfl⟩ := List.exists_cons_of_ne_nil hps
  rfl

/-- A text is cut into pieces, of which the first one starts where the text does, and joined they
make it again. -/
theorem isPiece_of_cut (h : cut sep q s = some ps) : ∃ p rest, ps = p :: rest ∧
    IsPiece sep q p ∧ (∀ r ∈ rest, IsPiece sep .outside r) ∧ Bytes.join [sep] ps = s := by
  induction s generalizing q ps with
  | nil =>
    rw [cut_nil] at h
    split_ifs at h with hq
    cases h
    exact ⟨[], [], rfl, ⟨hq, isFree_nil⟩, by simp, rfl⟩
  | cons c s ih =>
    by_cases hc : q = .outside ∧ c = sep
    · obtain ⟨rfl, rfl⟩ := hc
      rw [cut_cons_of_counts, Option.map_eq_some_iff] at h
      obtain ⟨rest, hrest, rfl⟩ := h
      obtain ⟨p, rest, rfl, hp, hpieces, hjoin⟩ := ih hrest
      refine ⟨[], p :: rest, rfl, ⟨rfl, isFree_nil⟩, List.forall_mem_cons.2 ⟨hp, hpieces⟩, ?_⟩
      rw [join_nil_cons (List.cons_ne_nil _ _), hjoin]
    · have hnot : q = .outside → c ≠ sep := fun hq heq => hc ⟨hq, heq⟩
      rw [cut_cons hnot, Option.map_eq_some_iff] at h
      obtain ⟨rest, hrest, rfl⟩ := h
      obtain ⟨p, rest, rfl, hp, hpieces, hjoin⟩ := ih hrest
      refine ⟨c :: p, rest, rfl, isPiece_cons_iff.2 ⟨hnot, hp⟩, hpieces, ?_⟩
      rw [join_extend (List.cons_ne_nil _ _), hjoin]

/-- A piece is taken as a whole. -/
theorem IsPiece.cut_append (h : IsPiece sep q s) (rest : Bytes) :
    cut sep q (s ++ rest) = (cut sep .outside rest).map (prepend s) := by
  induction s generalizing q with
  | nil =>
    obtain rfl : q = .outside := h.closed
    change _ = (cut sep .outside rest).map id
    rw [Option.map_id]
    rfl
  | cons c s ih =>
    obtain ⟨hc, hs⟩ := isPiece_cons_iff.1 h
    rw [List.cons_append, cut_cons hc, ih hs, Option.map_map]
    rfl

theorem IsPiece.isSegment (hsep : sep ≠ Ascii.quote) (h : IsPiece sep .outside s) :
    IsSegment sep s := by
  intro rest
  rw [pieces_eq_cut hsep, pieces_eq_cut hsep]
  exact h.cut_append rest

/-- **A text is cut into pieces that make it again**, and there is no other way to do so. -/
theorem splitOn_eq_some_iff (hsep : sep ≠ Ascii.quote) : splitOn sep s = some ps ↔
    ps ≠ [] ∧ Bytes.join [sep] ps = s ∧ ∀ p ∈ ps, IsPiece sep .outside p := by
  constructor
  · intro h
    rw [splitOn_eq_cut hsep] at h
    obtain ⟨p, rest, rfl, hp, hrest, hjoin⟩ := isPiece_of_cut h
    exact ⟨List.cons_ne_nil _ _, hjoin, List.forall_mem_cons.2 ⟨hp, hrest⟩⟩
  · rintro ⟨hne, rfl, hps⟩
    exact splitOn_join hne hsep fun p hp => (hps p hp).isSegment hsep

theorem splitOn_eq_none_iff (hsep : sep ≠ Ascii.quote) :
    splitOn sep s = none ↔ Scan.outside.along s ≠ .outside := by
  rw [splitOn_eq_cut hsep, cut_eq_none_iff hsep]

/-- What was cut off by one separator can be cut by another one. -/
theorem exists_splitOn_of_mem {other : UInt8} {p : Bytes} (hsep : sep ≠ Ascii.quote)
    (hother : other ≠ Ascii.quote) (h : splitOn sep s = some ps) (hp : p ∈ ps) :
    ∃ parts, splitOn other p = some parts := by
  obtain ⟨-, -, hpieces⟩ := (splitOn_eq_some_iff hsep).1 h
  cases hparts : splitOn other p with
  | some parts => exact ⟨parts, rfl⟩
  | none => exact absurd (hpieces p hp).closed ((splitOn_eq_none_iff hother).1 hparts)

end Quoted

/-! ## Headers -/

/-- A parameter whose value is not ended has an error of its own for that. -/
theorem Parameter.parse_ne_unterminatedQuote (clause text t : Bytes) :
    Parameter.parse clause text ≠ .error (.unterminatedQuote t) := by
  grind [Parameter.parse]

/-- Only a clause that cannot be cut fails for a quote that nothing ends. -/
theorem Clause.parse_eq_unterminatedQuote_iff {text t : Bytes} :
    Clause.parse text = .error (.unterminatedQuote t) ↔
      Quoted.splitOn (Ascii.byte ';') text = none ∧ t = text := by
  rw [Clause.parse]
  cases Quoted.splitOn (Ascii.byte ';') text with
  | none => simp [eq_comm]
  | some parts =>
    refine iff_of_false (fun h => ?_) (fun h => nomatch h.1)
    cases parts with
    | nil => cases h
    | cons first parameters =>
      dsimp only at h
      split at h
      · cases h
      · split at h
        · cases h
        · rcases bind_eq_error h with hparameters | ⟨ps, -, hps⟩
          · obtain ⟨parameter, -, herror⟩ := exists_of_mapM_eq_error hparameters
            exact Parameter.parse_ne_unterminatedQuote _ _ _ herror
          · cases hps

/-- **A text is cut at the separators outside quotes, and nowhere else.**

Let a separator be no quote. A text cannot be cut exactly if a scan along it ends inside quotes,
where a backslash takes the next byte literally. Otherwise its pieces are the only ones that make it
again when they are joined by the separator, and of which each leaves the scan outside quotes and
has no separator outside quotes in it. So each clause that was cut off at the commas of a header can
be cut at its semicolons, and a header fails for a quote that nothing ends exactly if the scan
along the whole of it ends inside quotes. -/
theorem Quoted.splitOn_at_separators :
    (∀ sep s, sep ≠ Ascii.quote →
      (Quoted.splitOn sep s = none ↔ Scan.outside.along s ≠ .outside) ∧
      ∀ ps, Quoted.splitOn sep s = some ps ↔
        ps ≠ [] ∧ Bytes.join [sep] ps = s ∧ ∀ p ∈ ps, IsPiece sep .outside p) ∧
    (∀ text clauses, Quoted.splitOn (Ascii.byte ',') text = some clauses →
      ∀ clause ∈ clauses, (∃ parts, Quoted.splitOn (Ascii.byte ';') clause = some parts) ∧
        ∀ t, Clause.parse clause ≠ .error (.unterminatedQuote t)) ∧
    ∀ text t, Clause.parseHeader text = .error (.unterminatedQuote t) ↔
      Scan.outside.along text ≠ .outside ∧ t = text := by
  have hclause : ∀ text clauses, Quoted.splitOn (Ascii.byte ',') text = some clauses →
      ∀ clause ∈ clauses, ∃ parts, Quoted.splitOn (Ascii.byte ';') clause = some parts :=
    fun text clauses h clause => exists_splitOn_of_mem (by decide) (by decide) h
  have hparse : ∀ text clauses, Quoted.splitOn (Ascii.byte ',') text = some clauses →
      ∀ clause ∈ clauses, ∀ t, Clause.parse clause ≠ .error (.unterminatedQuote t) := by
    intro text clauses h clause hmem t herror
    obtain ⟨parts, hparts⟩ := hclause text clauses h clause hmem
    rw [Clause.parse_eq_unterminatedQuote_iff, hparts] at herror
    exact nomatch herror.1
  refine ⟨fun sep s hsep => ⟨splitOn_eq_none_iff hsep, fun ps => splitOn_eq_some_iff hsep⟩,
    fun text clauses h clause hmem => ⟨hclause text clauses h clause hmem,
      hparse text clauses h clause hmem⟩, fun text t => ?_⟩
  rw [← splitOn_eq_none_iff (by decide : Ascii.byte ',' ≠ Ascii.quote), Clause.parseHeader]
  cases h : Quoted.splitOn (Ascii.byte ',') text with
  | none => simp [eq_comm]
  | some clauses =>
    refine iff_of_false (fun herror => ?_) (fun hnone => nomatch hnone.1)
    obtain ⟨clause, hmem, hfails⟩ := exists_of_mapM_eq_error herror
    exact hparse text clauses h clause (List.mem_of_mem_filter hmem) t hfails

/-- Separators and an escaped quote between quotes, and a text that ends behind a backslash. -/
theorem Quoted.splitOn_at_separators_escaped : ∃ first,
    first = ascii "a;k=\"x,;\\\"\"" ∧
      Quoted.splitOn (Ascii.byte ',') (first ++ ascii ",b") = some [first, ascii "b"] ∧
      IsPiece (Ascii.byte ',') .outside first ∧
      (∃ parts, Quoted.splitOn (Ascii.byte ';') first = some parts) ∧
      Quoted.splitOn (Ascii.byte ',') (ascii "a;k=\"\\") = none := by
  obtain ⟨hcuts, hclauses, -⟩ := Quoted.splitOn_at_separators
  have hcut : Quoted.splitOn (Ascii.byte ',') (ascii "a;k=\"x,;\\\"\"" ++ ascii ",b") =
      some [ascii "a;k=\"x,;\\\"\"", ascii "b"] := by decide +kernel
  obtain ⟨-, -, hpieces⟩ := ((hcuts _ _ (by decide)).2 _).1 hcut
  exact ⟨_, rfl, hcut, hpieces _ List.mem_cons_self,
    (hclauses _ _ hcut _ List.mem_cons_self).1, (hcuts _ _ (by decide)).1.2 (by decide +kernel)⟩

end JavaFloor
