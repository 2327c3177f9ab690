import JavaFloor.Manifest
import JavaFloor.Proofs.Except
import Mathlib.Data.List.Basic
import Mathlib.Data.List.Forall2

/-!
# Lines of manifests

A line of a manifest may end in a line feed, in a carriage return, or in both.

* `lines_append`: whatever ends it, a line is cut off the text behind it, unless a line feed
  follows a carriage return by accident.
* `WritesSection` are the texts whose lines up to the first blank one are the given ones, and
  `WritesSection.takeWhile_lines` says that these lines are found in them.
* `readLines_eq_ok_iff`: lines are read each for itself, and only the first one must not be a
  continuation.
-/

namespace JavaFloor

namespace Manifest

/-- The end of a line. -/
inductive LineEnd
  | lineFeed
  | carriageReturn
  /-- A carriage return and a line feed. -/
  | both
  deriving DecidableEq

/-- The bytes of an end. -/
def LineEnd.bytes : LineEnd → Bytes
  | lineFeed => [Ascii.lineFeed]
  | carriageReturn => [Ascii.carriageReturn]
  | both => [Ascii.carriageReturn, Ascii.lineFeed]

/-- The text has no end of a line in it. -/
def IsUnbroken (s : Bytes) : Prop := ∀ c ∈ s, c ≠ Ascii.lineFeed ∧ c ≠ Ascii.carriageReturn

instance (s : Bytes) : Decidable (IsUnbroken s) :=
  inferInstanceAs (Decidable (∀ c ∈ s, c ≠ Ascii.lineFeed ∧ c ≠ Ascii.carriageReturn))

variable {line s : Bytes}

theorem isUnbroken_append {a b : Bytes} :
    IsUnbroken (a ++ b) ↔ IsUnbroken a ∧ IsUnbroken b :=
  List.forall_mem_append

/-! ## Cutting lines off -/

theorem linesFrom_lineFeed (read s : Bytes) :
    linesFrom read (Ascii.lineFeed :: s) = read.reverse :: lines s := by
  rw [linesFrom.eq_def]
  rfl

theorem linesFrom_both (read s : Bytes) :
    linesFrom read (Ascii.carriageReturn :: Ascii.lineFeed :: s) = read.reverse :: lines s := by
  rw [linesFrom.eq_def]
  rfl

theorem linesFrom_carriageReturn (read : Bytes) (h : s.head? ≠ some Ascii.lineFeed) :
    linesFrom read (Ascii.carriageReturn :: s) = read.reverse :: lines s := by
  rw [linesFrom.eq_def]
  cases s with
  | nil => rfl
  | cons d t =>
    have hd : d ≠ Ascii.lineFeed := by simpa using h
    simp only [if_neg hd]
    rfl

theorem linesFrom_cons {c : UInt8} (hlf : c ≠ Ascii.lineFeed) (hcr : c ≠ Ascii.carriageReturn)
    (read s : Bytes) : linesFrom read (c :: s) = linesFrom (c :: read) s := by
  rw [linesFrom.eq_def]
  simp only [if_neg hlf, if_neg hcr]

/-- Bytes that end no line belong to the current one. -/
theorem linesFrom_append (h : IsUnbroken line) (read s : Bytes) :
    linesFrom read (line ++ s) = linesFrom (line.reverse ++ read) s := by
  induction line generalizing read with
  | nil => rfl
  | cons c line ih =>
    obtain ⟨⟨hlf, hcr⟩, hline⟩ := List.forall_mem_cons.1 h
    rw [List.cons_append, linesFrom_cons hlf hcr, ih hline, List.reverse_cons, List.append_assoc,
      List.singleton_append]

/-- The end of a line is all that is taken off, unless its carriage return finds a line feed. -/
theorem linesFrom_end (e : LineEnd) (read : Bytes)
    (h : e = .carriageReturn → s.head? ≠ some Ascii.lineFeed) :
    linesFrom read (e.bytes ++ s) = read.reverse :: lines s := by
  cases e with
  | lineFeed => exact linesFrom_lineFeed read s
  | carriageReturn => exact linesFrom_carriageReturn read (h rfl)
  | both => exact linesFrom_both read s

/-- **A line and its end are cut off the text behind them.** -/
theorem lines_append (hline : IsUnbroken line) (e : LineEnd)
    (h : e = .carriageReturn → s.head? ≠ some Ascii.lineFeed) :
    lines (line ++ (e.bytes ++ s)) = line :: lines s := by
  rw [lines, linesFrom_append hline, linesFrom_end e _ h, List.append_nil, List.reverse_reverse]

/-- The end of the last line may be missing. -/
theorem lines_of_isUnbroken (hline : IsUnbroken line) (hne : line ≠ []) : lines line = [line] := by
  have h := linesFrom_append hline [] []
  rw [List.append_nil, List.append_nil] at h
  rw [lines, h, linesFrom, if_neg (by simpa using hne), List.reverse_reverse]

/-- In front of an end with nothing before it there is a blank line, whatever comes behind. -/
theorem exists_lines_end (e : LineEnd) (s : Bytes) :
    ∃ rest, lines (e.bytes ++ s) = [] :: rest := by
  by_cases h : e = .carriageReturn → s.head? ≠ some Ascii.lineFeed
  · exact ⟨lines s, linesFrom_end e [] h⟩
  · -- The end and the line feed behind it are one end.
    obtain ⟨rfl, hs⟩ := Classical.not_imp.1 h
    obtain ⟨t, rfl⟩ := List.head?_eq_some_iff.1 (not_not.1 hs)
    exact ⟨lines t, linesFrom_both [] t⟩

/-! ## Sections -/

/-- The texts of a section with the given lines. Behind a blank line there may be anything; without
one, the end of the last line may be missing. -/
inductive WritesSection : List Bytes → Bytes → Prop
  | done : WritesSection [] []
  | blank (e : LineEnd) (behind : Bytes) : WritesSection [] (e.bytes ++ behind)
  | last (line : Bytes) : WritesSection [line] line
  /-- The end of a blank line must not look like the second half of an end. -/
  | line {line : Bytes} {rest : List Bytes} {s : Bytes} (e : LineEnd)
      (behind : WritesSection rest s)
      (apart : rest = [] → e = .carriageReturn → s.head? ≠ some Ascii.lineFeed) :
      WritesSection (line :: rest) (line ++ (e.bytes ++ s))

variable {ls : List Bytes}

/-- A section starts as its first line does. -/
theorem WritesSection.head?_eq (h : WritesSection (line :: ls) s) (hne : line ≠ []) :
    s.head? = line.head? := by
  cases h with
  | last => rfl
  | line e behind apart => exact List.head?_append_of_ne_nil _ hne

/-- **The lines up to the first blank one are those that the section was written from.** -/
theorem WritesSection.takeWhile_lines (h : WritesSection ls s)
    (hls : ∀ line ∈ ls, line ≠ [] ∧ IsUnbroken line) : (lines s).takeWhile (· ≠ []) = ls := by
  induction h with
  | done => rfl
  | blank e behind =>
    obtain ⟨rest, hrest⟩ := exists_lines_end e behind
    rw [hrest]
    rfl
  | last line =>
    obtain ⟨hne, hline⟩ := hls line List.mem_cons_self
    rw [lines_of_isUnbroken hline hne, List.takeWhile_cons_of_pos (by simpa using hne)]
    rfl
  | @line line rest s e behind apart ih =>
    obtain ⟨⟨hne, hline⟩, hrest⟩ := List.forall_mem_cons.1 hls
    -- A line feed behind a carriage return could only stand at the start of the next line.
    have hend : e = .carriageReturn → s.head? ≠ some Ascii.lineFeed := by
      intro he
      cases rest with
      | nil => exact apart rfl he
      | cons next rest =>
        obtain ⟨⟨hnext, hplain⟩, -⟩ := List.forall_mem_cons.1 hrest
        rw [behind.head?_eq hnext]
        exact fun hhead => (hplain _ (List.mem_of_head? hhead)).1 rfl
    rw [lines_append hline e hend, List.takeWhile_cons_of_pos (by simpa using hne), ih hrest]

/-! ## Reading lines -/

/-- A continuation has to have something above it that it continues. -/
def IsOrphan : List Line → Prop
  | .continuation _ :: _ => True
  | _ => False

/-- **Lines are read each for itself**, but the first line of a section must not be a
continuation. -/
theorem readLines_eq_ok_iff {n : Nat} (hn : n ≠ 0) {rs : List Line} :
    readLines n ls = .ok rs ↔
      List.Forall₂ (fun l r => Line.read l = .ok r) ls rs ∧ (n = 1 → ¬ IsOrphan rs) := by
  induction ls generalizing n rs with
  | nil =>
    rw [readLines, List.forall₂_nil_left_iff, Except.ok.injEq, eq_comm]
    exact ⟨fun h => ⟨h, fun _ => h ▸ id⟩, And.left⟩
  | cons l ls ih =>
    have hmap : ∀ r, (readLines (n + 1) ls).map (r :: ·) = .ok rs ↔
        ∃ rs', List.Forall₂ (fun l r => Line.read l = .ok r) ls rs' ∧ rs = r :: rs' := by
      intro r
      constructor
      · intro h
        obtain ⟨rs', hrs, rfl⟩ := map_eq_ok h
        exact ⟨rs', ((ih n.succ_ne_zero).1 hrs).1, rfl⟩
      · rintro ⟨rs', hrs, rfl⟩
        rw [(ih n.succ_ne_zero).2 ⟨hrs, fun h => absurd h (by omega)⟩]
        rfl
    rw [List.forall₂_cons_left_iff, readLines]
    cases hl : Line.read l with
    | error fault => simp
    | ok r =>
      cases r with
      | field name value =>
        simp only [hmap, Except.ok.injEq]
        constructor
        · rintro ⟨rs', hrs, rfl⟩
          exact ⟨⟨_, _, rfl, hrs, rfl⟩, fun _ => id⟩
        · rintro ⟨⟨_, rs', rfl, hrs, rfl⟩, -⟩
          exact ⟨rs', hrs, rfl⟩
      | continuation more =>
        by_cases h1 : n = 1
        · simp only [if_pos h1, Except.ok.injEq, reduceCtorEq, false_iff]
          rintro ⟨⟨_, rs', rfl, hrs, rfl⟩, horphan⟩
          exact horphan h1 trivial
        · simp only [if_neg h1, hmap, Except.ok.injEq]
          constructor
          · rintro ⟨rs', hrs, rfl⟩
            exact ⟨⟨_, _, rfl, hrs, rfl⟩, fun h => absurd h h1⟩
          · rintro ⟨⟨_, rs', rfl, hrs, rfl⟩, -⟩
            exact ⟨rs', hrs, rfl⟩

end Manifest

end JavaFloor
