import JavaFloor.Proofs.Bytes
import JavaFloor.Requirement.Quoted

/-!
# Quoting

A value may stand between quotes if a backslash is put in front of each quote and backslash in it.
Whatever the value is, it means nothing to the separators around it and is read again.

* `Quoted.quote` puts a value between quotes, and `Quoted.unquote_quote` takes it out again.
* `Quoted.IsSegment sep s`: a text in which no separator counts, and behind which one counts again.
  Texts without separators and quotes are segments, quoted values are (`isSegment_quote`), and so
  are segments one behind the other.
* `Quoted.splitOn_join`: segments that were joined by separators are cut apart again.
-/

namespace JavaFloor

namespace Quoted

variable {sep c : UInt8} {s t : Bytes}

/-! ## Escapes -/

/-- With a backslash in front of each quote and each backslash. -/
def escape : Bytes → Bytes
  | [] => []
  | c :: s =>
    if c = Ascii.quote ∨ c = Ascii.backslash then Ascii.backslash :: c :: escape s
    else c :: escape s

/-- A value between quotes. -/
def quote (value : Bytes) : Bytes := Ascii.quote :: (escape value ++ [Ascii.quote])

theorem escape_cons_of_special (h : c = Ascii.quote ∨ c = Ascii.backslash) (s : Bytes) :
    escape (c :: s) = Ascii.backslash :: c :: escape s := if_pos h

theorem escape_cons_of_plain (h : ¬ (c = Ascii.quote ∨ c = Ascii.backslash)) (s : Bytes) :
    escape (c :: s) = c :: escape s := if_neg h

theorem unescape_backslash (c : UInt8) (s : Bytes) :
    unescape (Ascii.backslash :: c :: s) = c :: unescape s := by
  rw [unescape, if_pos rfl]

theorem unescape_cons (h : c ≠ Ascii.backslash) (s : Bytes) :
    unescape (c :: s) = c :: unescape s := by
  cases s with
  | nil => rfl
  | cons d s => rw [unescape, if_neg h]

/-- Backslashes that were put in are taken off again. -/
theorem unescape_escape (s : Bytes) : unescape (escape s) = s := by
  induction s with
  | nil => rfl
  | cons c s ih =>
    by_cases h : c = Ascii.quote ∨ c = Ascii.backslash
    · rw [escape_cons_of_special h, unescape_backslash, ih]
    · rw [escape_cons_of_plain h, unescape_cons fun hc => h (.inr hc), ih]

theorem isTrimmed_quote (value : Bytes) : Bytes.IsTrimmed (quote value) := by
  constructor
  · intro c hc
    cases hc
    rfl
  · intro c hc
    rw [quote, ← List.cons_append, List.getLast?_concat] at hc
    cases hc
    rfl

/-- A value between quotes is taken out again, with whitespace around the quotes or without. -/
theorem unquote_quote {front behind : Bytes} (hfront : Bytes.IsSpace front)
    (hbehind : Bytes.IsSpace behind) (value : Bytes) :
    unquote (front ++ (quote value ++ behind)) = some value := by
  rw [unquote, Bytes.trim_append hfront (isTrimmed_quote value) hbehind]
  simp [quote, unescape_escape]

/-! ## Steps -/

theorem pieces_separator (hsep : sep ≠ Ascii.quote) (s : Bytes) :
    pieces sep false (sep :: s) = (pieces sep false s).map ([] :: ·) := by
  rw [pieces.eq_def]
  simp [hsep]

theorem pieces_plain (hsep : c ≠ sep) (hquote : c ≠ Ascii.quote) (s : Bytes) :
    pieces sep false (c :: s) = (pieces sep false s).map (extend c) := by
  rw [pieces.eq_def]
  simp [hsep, hquote]

theorem pieces_opening (s : Bytes) :
    pieces sep false (Ascii.quote :: s) = (pieces sep true s).map (extend Ascii.quote) := by
  rw [pieces.eq_def]
  rfl

theorem pieces_inside (hslash : c ≠ Ascii.backslash) (s : Bytes) :
    pieces sep true (c :: s) = (pieces sep (c != Ascii.quote) s).map (extend c) := by
  rw [pieces.eq_def]
  exact if_neg hslash

theorem pieces_escaped (c : UInt8) (s : Bytes) :
    pieces sep true (Ascii.backslash :: c :: s) =
      (pieces sep true s).map fun ps => extend Ascii.backslash (extend c ps) := by
  rw [pieces.eq_def]
  rfl

/-! ## Segments -/

/-- Puts the bytes of a text in front of the first piece. -/
def prepend (s : Bytes) (ps : List Bytes) : List Bytes := s.foldr extend ps

theorem prepend_cons_nil (s : Bytes) (ps : List Bytes) : prepend s ([] :: ps) = s :: ps := by
  induction s with
  | nil => rfl
  | cons c s ih =>
    change extend c (prepend s ([] :: ps)) = _
    rw [ih]
    rfl

/-- Outside quotes, `s` is taken as a whole in front of any text, and leaves it outside quotes. -/
def IsSegment (sep : UInt8) (s : Bytes) : Prop :=
  ∀ rest, pieces sep false (s ++ rest) = (pieces sep false rest).map (prepend s)

theorem isSegment_nil : IsSegment sep [] := fun rest => by
  change _ = (pieces sep false rest).map id
  rw [Option.map_id]
  rfl

theorem IsSegment.append (hs : IsSegment sep s) (ht : IsSegment sep t) :
    IsSegment sep (s ++ t) := by
  intro rest
  rw [List.append_assoc, hs, ht, Option.map_map]
  congr 1
  funext ps
  exact (List.foldr_append ..).symm

/-- A text without separators and quotes is a segment. -/
theorem isSegment_of_plain (h : ∀ c ∈ s, c ≠ sep ∧ c ≠ Ascii.quote) : IsSegment sep s := by
  induction s with
  | nil => exact isSegment_nil
  | cons c s ih =>
    obtain ⟨⟨hsep, hquote⟩, hs⟩ := List.forall_mem_cons.1 h
    intro rest
    rw [List.cons_append, pieces_plain hsep hquote, ih hs, Option.map_map]
    rfl

/-- Inside quotes, an escaped value is taken as a whole. -/
theorem pieces_escape (value rest : Bytes) : pieces sep true (escape value ++ rest) =
    (pieces sep true rest).map (prepend (escape value)) := by
  induction value with
  | nil =>
    change _ = (pieces sep true rest).map id
    rw [Option.map_id]
    rfl
  | cons c value ih =>
    by_cases h : c = Ascii.quote ∨ c = Ascii.backslash
    · rw [escape_cons_of_special h, List.cons_append, List.cons_append, pieces_escaped, ih,
        Option.map_map]
      rfl
    · obtain ⟨hquote, hslash⟩ := not_or.1 h
      rw [escape_cons_of_plain h, List.cons_append, pieces_inside hslash, bne_iff_ne.2 hquote, ih,
        Option.map_map]
      rfl

/-- A value between quotes is a segment, whatever stands in it. -/
theorem isSegment_quote (value : Bytes) : IsSegment sep (quote value) := by
  intro rest
  have hclose : pieces sep true (Ascii.quote :: rest) =
      (pieces sep false rest).map (extend Ascii.quote) := pieces_inside (by decide) rest
  rw [quote, List.cons_append, List.append_assoc, pieces_opening, List.singleton_append,
    pieces_escape, hclose, Option.map_map, Option.map_map]
  congr 1
  funext ps
  simp [prepend]

/-- A separator behind a segment cuts it off. -/
theorem IsSegment.splitOn_append_cons (h : IsSegment sep s) (hsep : sep ≠ Ascii.quote)
    (rest : Bytes) : splitOn sep (s ++ sep :: rest) = (splitOn sep rest).map (s :: ·) := by
  rw [splitOn, h, pieces_separator hsep, Option.map_map]
  congr 1
  funext ps
  exact prepend_cons_nil s ps

theorem IsSegment.splitOn_eq (h : IsSegment sep s) : splitOn sep s = some [s] := by
  have hend := h []
  rw [List.append_nil] at hend
  rw [splitOn, hend, pieces.eq_def]
  exact congrArg some (prepend_cons_nil s [])

/-- **Segments that were joined are cut apart again.** -/
theorem splitOn_join {segments : List Bytes} (hne : segments ≠ []) (hsep : sep ≠ Ascii.quote)
    (h : ∀ s ∈ segments, IsSegment sep s) :
    splitOn sep (Bytes.join [sep] segments) = some segments := by
  induction segments with
  | nil => exact absurd rfl hne
  | cons s rest ih =>
    obtain ⟨hs, hrest⟩ := List.forall_mem_cons.1 h
    cases rest with
    | nil => exact hs.splitOn_eq
    | cons t rest =>
      rw [Bytes.join, List.append_assoc, List.singleton_append, hs.splitOn_append_cons hsep,
        ih (List.cons_ne_nil _ _) hrest]
      rfl

/-- Segments joined by another byte are one segment. -/
theorem isSegment_join {other : UInt8} {segments : List Bytes} (hother : other ≠ sep)
    (hquote : other ≠ Ascii.quote) (h : ∀ s ∈ segments, IsSegment sep s) :
    IsSegment sep (Bytes.join [other] segments) := by
  have hmark : IsSegment sep [other] :=
    isSegment_of_plain fun c hc => List.mem_singleton.1 hc ▸ ⟨hother, hquote⟩
  induction segments with
  | nil => exact isSegment_nil
  | cons s rest ih =>
    obtain ⟨hs, hrest⟩ := List.forall_mem_cons.1 h
    cases rest with
    | nil => exact hs
    | cons t rest => exact (hs.append hmark).append (ih hrest)

end Quoted

end JavaFloor
