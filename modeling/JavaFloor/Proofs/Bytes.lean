import JavaFloor.Bytes
import Mathlib.Data.List.Basic
import Mathlib.Data.List.Forall2
import Mathlib.Data.List.Induction
import Mathlib.Data.List.TakeWhile

/-!
# Trimming, splitting, case and numbers

What `Bytes.trim` and `Bytes.splitOn` do to a text whose whitespace and separators are known, which
texts are equal up to case, and how numbers are written:

* `trim_eq_self`: a text without whitespace stays as it is, `exists_trim` says that what is trimmed
  off is whitespace, and `isTrimmed_trim` that all of it is;
* `IsTrimmed` and `trim_append`: a text without whitespace at its ends is what is left if whitespace
  stands around it;
* `splitOn_of_notMem`, `splitOn_append_cons`: a text is cut where its separators are, and
  `splitOn_eq_pair_iff` says so of texts in two pieces;
* `exists_afterLast` and `afterLast_append`: what stands behind the last separator;
* `SameLetters` are texts that differ in the case of letters only, which is what `equalFold_iff`
  says is compared;
* `toNat_ofNat`: a number that was written is read again;
* `Numeral` are the strings of digits and their numbers, and `numeral_iff` says that these are read.
-/

namespace JavaFloor

namespace Bytes

/-- What holds of 256 bytes holds of all. -/
theorem forall_of_lt {p : UInt8 → Prop} (h : ∀ n < 256, p (UInt8.ofNat n)) (c : UInt8) : p c := by
  have hc := h c.toNat c.toNat_lt
  rwa [UInt8.ofNat_toNat] at hc

/-! ## Trimming -/

/-- A text without whitespace has nothing to be trimmed. -/
theorem trim_eq_self {s : Bytes} (h : ∀ c ∈ s, Ascii.isSpace c = false) : trim s = s := by
  have hdrop : ∀ t : Bytes, (∀ c ∈ t, c ∈ s) → t.dropWhile Ascii.isSpace = t := fun t ht =>
    List.dropWhile_eq_self_iff.2 fun hl => by simp [h _ (ht _ (List.getElem_mem hl))]
  rw [trim, trimStart, hdrop s fun _ hc => hc, trimEnd, hdrop s.reverse (by simp),
    List.reverse_reverse]

/-- What is trimmed off the end is whitespace. -/
theorem exists_trimStart (s : Bytes) : ∃ behind, trimStart s = trim s ++ behind ∧
    ∀ c ∈ behind, Ascii.isSpace c = true := by
  refine ⟨((trimStart s).reverse.takeWhile Ascii.isSpace).reverse, ?_, fun c hc => ?_⟩
  · rw [trim, trimEnd, ← List.reverse_append, List.takeWhile_append_dropWhile, List.reverse_reverse]
  · exact List.mem_takeWhile_imp (List.mem_reverse.1 hc)

/-- Around the trimmed text there is whitespace only. -/
theorem exists_trim (s : Bytes) : ∃ front behind, s = front ++ (trim s ++ behind) ∧
    (∀ c ∈ front, Ascii.isSpace c = true) ∧ ∀ c ∈ behind, Ascii.isSpace c = true := by
  obtain ⟨behind, hstart, hbehind⟩ := exists_trimStart s
  refine ⟨s.takeWhile Ascii.isSpace, behind, ?_, fun c hc => List.mem_takeWhile_imp hc, hbehind⟩
  rw [← hstart, trimStart, List.takeWhile_append_dropWhile]

/-- A trimmed text does not end in whitespace. -/
theorem eq_nil_of_trim_eq_append {s a b : Bytes} (h : trim s = a ++ b)
    (hb : ∀ c ∈ b, Ascii.isSpace c = true) : b = [] := by
  rcases List.eq_nil_or_concat b with rfl | ⟨front, c, rfl⟩
  · rfl
  · have hlast := List.head?_dropWhile_not Ascii.isSpace (trimStart s).reverse
    rw [trim, trimEnd, List.reverse_eq_iff] at h
    have hspace : Ascii.isSpace c = true := hb c (by simp)
    simp [h, hspace] at hlast

/-- Nothing but whitespace. -/
def IsSpace (s : Bytes) : Prop := ∀ c ∈ s, Ascii.isSpace c = true

/-- No whitespace at either end. -/
def IsTrimmed (s : Bytes) : Prop :=
  (∀ c ∈ s.head?, Ascii.isSpace c = false) ∧ ∀ c ∈ s.getLast?, Ascii.isSpace c = false

instance (s : Bytes) : Decidable (IsSpace s) :=
  inferInstanceAs (Decidable (∀ c ∈ s, Ascii.isSpace c = true))

instance (s : Bytes) : Decidable (IsTrimmed s) :=
  inferInstanceAs (Decidable ((∀ c ∈ s.head?, Ascii.isSpace c = false) ∧
    ∀ c ∈ s.getLast?, Ascii.isSpace c = false))

theorem isSpace_nil : IsSpace [] := fun _ hc => absurd hc List.not_mem_nil

/-- Nothing is dropped in front of a byte that need not be dropped. -/
theorem dropWhile_of_head {p : UInt8 → Bool} {s : Bytes} (h : ∀ c ∈ s.head?, p c = false) :
    s.dropWhile p = s := by
  cases s with
  | nil => rfl
  | cons c s => exact List.dropWhile_cons_of_neg (by simp [h c rfl])

/-- Whitespace alone is trimmed off completely. -/
theorem trim_of_isSpace {s : Bytes} (h : IsSpace s) : trim s = [] := by
  have hstart : trimStart s = [] := List.dropWhile_eq_nil_iff.2 h
  rw [trim, hstart]
  rfl

/-- Whitespace around a text is trimmed off, and no more than that. -/
theorem trim_append {front s behind : Bytes} (hfront : IsSpace front) (hs : IsTrimmed s)
    (hbehind : IsSpace behind) : trim (front ++ (s ++ behind)) = s := by
  have hstart : trimStart (front ++ (s ++ behind)) = trimStart (s ++ behind) :=
    List.dropWhile_append_of_pos hfront
  cases s with
  | nil =>
    rw [trim, hstart]
    exact trim_of_isSpace hbehind
  | cons c s =>
    have hhead : trimStart (c :: s ++ behind) = c :: s ++ behind :=
      List.dropWhile_cons_of_neg (by simp [hs.1 c rfl])
    have hlast : (c :: s).reverse.dropWhile Ascii.isSpace = (c :: s).reverse := by
      apply dropWhile_of_head
      rw [List.head?_reverse]
      exact hs.2
    rw [trim, hstart, hhead, trimEnd, List.reverse_append,
      List.dropWhile_append_of_pos fun c hc => hbehind c (List.mem_reverse.1 hc), hlast,
      List.reverse_reverse]

theorem IsTrimmed.trim_eq {s : Bytes} (h : IsTrimmed s) : trim s = s := by
  have htrim := trim_append isSpace_nil h isSpace_nil
  rwa [List.nil_append, List.append_nil] at htrim

/-- What is left has no whitespace at its ends. -/
theorem isTrimmed_trim (s : Bytes) : IsTrimmed (trim s) := by
  constructor
  · intro c hc
    obtain ⟨behind, hstart, -⟩ := exists_trimStart s
    have hhead := List.head?_dropWhile_not Ascii.isSpace s
    rw [← trimStart, hstart, List.head?_append, hc] at hhead
    simpa using hhead
  · intro c hc
    obtain ⟨front, hfront⟩ := List.getLast?_eq_some_iff.1 hc
    rw [← Bool.not_eq_true]
    intro hspace
    exact absurd (eq_nil_of_trim_eq_append hfront (by simpa using hspace)) (by simp)

@[simp]
theorem trim_trim (s : Bytes) : trim (trim s) = trim s := (isTrimmed_trim s).trim_eq

theorem isTrimmed_append {a b : Bytes} (ha : a ≠ []) (hb : b ≠ [])
    (hhead : ∀ c ∈ a.head?, Ascii.isSpace c = false)
    (hlast : ∀ c ∈ b.getLast?, Ascii.isSpace c = false) (s : Bytes) :
    IsTrimmed (a ++ (s ++ b)) := by
  constructor
  · rwa [List.head?_append_of_ne_nil _ ha]
  · rwa [List.getLast?_append_of_ne_nil _ (List.append_ne_nil_of_right_ne_nil _ hb),
      List.getLast?_append_of_ne_nil _ hb]

/-- Nothing is trimmed off a text with other bytes than whitespace at its ends. -/
theorem trim_of_ends {c d : UInt8} (hc : Ascii.isSpace c = false) (hd : Ascii.isSpace d = false)
    (s : Bytes) : trim (c :: (s ++ [d])) = c :: (s ++ [d]) := by
  have h : IsTrimmed ([c] ++ (s ++ [d])) :=
    isTrimmed_append (by simp) (by simp) (by simpa using hc) (by simpa using hd) s
  exact h.trim_eq

/-- A text with other bytes than whitespace is not trimmed off completely. -/
theorem trim_ne_nil {s : Bytes} {c : UInt8} (hc : c ∈ s) (hspace : Ascii.isSpace c = false) :
    trim s ≠ [] := by
  intro hnil
  obtain ⟨front, behind, hs, hfront, hbehind⟩ := exists_trim s
  rw [hnil, List.nil_append] at hs
  rw [hs, List.mem_append] at hc
  rcases hc with hc | hc
  · simp [hfront c hc] at hspace
  · simp [hbehind c hc] at hspace

/-! ## Splitting -/

variable {sep : UInt8}

/-- What stands in front of the first separator, and what stands from there on. -/
theorem takeWhile_dropWhile_of_notMem {a : Bytes} (h : sep ∉ a) (s : Bytes) :
    (a ++ sep :: s).takeWhile (· != sep) = a ∧ (a ++ sep :: s).dropWhile (· != sep) = sep :: s := by
  have hne : ∀ c ∈ a, (c != sep) = true := fun c hc => bne_iff_ne.2 fun heq => h (heq ▸ hc)
  constructor
  · rw [List.takeWhile_append_of_pos hne, List.takeWhile_cons_of_neg (by simp), List.append_nil]
  · rw [List.dropWhile_append_of_pos hne, List.dropWhile_cons_of_neg (by simp)]

theorem splitOn_cons_self (sep : UInt8) (s : Bytes) :
    splitOn sep (sep :: s) = [] :: splitOn sep s := by
  rw [splitOn, if_pos rfl]

/-- A byte other than the separator belongs to the first piece. -/
theorem exists_splitOn_cons {c : UInt8} (h : c ≠ sep) (s : Bytes) :
    ∃ piece pieces, splitOn sep s = piece :: pieces ∧
      splitOn sep (c :: s) = (c :: piece) :: pieces := by
  rcases hs : splitOn sep s with _ | ⟨piece, pieces⟩
  · exact absurd hs (splitOn_ne_nil sep s)
  · exact ⟨piece, pieces, rfl, by rw [splitOn, if_neg h, hs]⟩

theorem splitOn_of_notMem {s : Bytes} (h : sep ∉ s) : splitOn sep s = [s] := by
  induction s with
  | nil => rfl
  | cons c s ih =>
    obtain ⟨hc, hs⟩ := not_or.1 (mt List.mem_cons.2 h)
    obtain ⟨piece, pieces, hp, hcons⟩ := exists_splitOn_cons (Ne.symm hc) s
    rw [ih hs] at hp
    cases hp
    exact hcons

theorem splitOn_append_cons {a : Bytes} (h : sep ∉ a) (s : Bytes) :
    splitOn sep (a ++ sep :: s) = a :: splitOn sep s := by
  induction a with
  | nil => exact splitOn_cons_self sep s
  | cons c a ih =>
    obtain ⟨hc, ha⟩ := not_or.1 (mt List.mem_cons.2 h)
    obtain ⟨piece, pieces, hp, hcons⟩ := exists_splitOn_cons (Ne.symm hc) (a ++ sep :: s)
    rw [ih ha] at hp
    cases hp
    exact hcons

theorem splitOn_eq_singleton_iff {s a : Bytes} : splitOn sep s = [a] ↔ s = a ∧ sep ∉ a := by
  constructor
  · intro h
    by_cases hs : sep ∈ s
    · obtain ⟨front, rest, rfl, hfront⟩ := List.eq_append_cons_of_mem hs
      rw [splitOn_append_cons hfront, List.cons.injEq] at h
      exact absurd h.2 (splitOn_ne_nil sep rest)
    · rw [splitOn_of_notMem hs, List.cons.injEq] at h
      exact ⟨h.1, h.1 ▸ hs⟩
  · rintro ⟨rfl, hs⟩
    exact splitOn_of_notMem hs

/-- There is more than one piece if there is a separator. The first piece stands in front of the
first one, and the others are those of what stands behind it. -/
theorem splitOn_eq_cons_cons_iff {s a b : Bytes} {pieces : List Bytes} :
    splitOn sep s = a :: b :: pieces ↔
      ∃ rest, s = a ++ sep :: rest ∧ sep ∉ a ∧ splitOn sep rest = b :: pieces := by
  constructor
  · intro h
    by_cases hs : sep ∈ s
    · obtain ⟨front, rest, rfl, hfront⟩ := List.eq_append_cons_of_mem hs
      rw [splitOn_append_cons hfront, List.cons.injEq] at h
      obtain ⟨rfl, hrest⟩ := h
      exact ⟨rest, rfl, hfront, hrest⟩
    · rw [splitOn_of_notMem hs] at h
      exact absurd h (by simp)
  · rintro ⟨rest, rfl, ha, hrest⟩
    rw [splitOn_append_cons ha, hrest]

/-- There are two pieces if there is one separator, and they are what stands around it. -/
theorem splitOn_eq_pair_iff {s a b : Bytes} :
    splitOn sep s = [a, b] ↔ s = a ++ sep :: b ∧ sep ∉ a ∧ sep ∉ b := by
  rw [splitOn_eq_cons_cons_iff]
  constructor
  · rintro ⟨rest, rfl, ha, hrest⟩
    obtain ⟨rfl, hb⟩ := splitOn_eq_singleton_iff.1 hrest
    exact ⟨rfl, ha, hb⟩
  · rintro ⟨rfl, ha, hb⟩
    exact ⟨b, rfl, ha, splitOn_of_notMem hb⟩

/-! ## Behind the last separator -/

/-- What stands behind the last separator is the end of a text. -/
theorem exists_afterLast (sep : UInt8) (s : Bytes) : ∃ front, s = front ++ afterLast sep s :=
  ⟨(s.reverse.dropWhile (· != sep)).reverse, by
    rw [afterLast, ← List.reverse_append, List.takeWhile_append_dropWhile, List.reverse_reverse]⟩

theorem notMem_afterLast (sep : UInt8) (s : Bytes) : sep ∉ afterLast sep s := by
  intro h
  simpa using List.mem_takeWhile_imp (List.mem_reverse.1 h)

/-- What has no separator in it is kept at the end. -/
theorem afterLast_append (front : Bytes) (h : sep ∉ b) :
    afterLast sep (front ++ b) = afterLast sep front ++ b := by
  have hne : ∀ c ∈ b.reverse, (c != sep) = true :=
    fun c hc => bne_iff_ne.2 fun heq => h (heq ▸ List.mem_reverse.1 hc)
  rw [afterLast, List.reverse_append, List.takeWhile_append_of_pos hne, List.reverse_append,
    List.reverse_reverse, afterLast]

/-! ## Upper and lower case -/

/-- The same byte, or one letter in two cases. -/
def SameLetter (c d : UInt8) : Prop :=
  c = d ∨ (Ascii.isUpper c = true ∧ d = c + 0x20) ∨ (Ascii.isUpper d = true ∧ c = d + 0x20)

/-- The same text but for the case of letters. -/
def SameLetters (a b : Bytes) : Prop := List.Forall₂ SameLetter a b

theorem SameLetter.symm {c d : UInt8} (h : SameLetter c d) : SameLetter d c :=
  h.imp Eq.symm Or.symm

theorem toLower_eq_toLower_iff {c d : UInt8} :
    Ascii.toLower c = Ascii.toLower d ↔ SameLetter c d := by
  have hlower : ∀ c, Ascii.isUpper c = true → Ascii.isUpper (c + 0x20) = false := fun c =>
    forall_of_lt (p := fun c => Ascii.isUpper c = true → Ascii.isUpper (c + 0x20) = false)
      (by decide +kernel) c
  have hupper : ∀ c, Ascii.isUpper c = true → Ascii.toLower c = c + 0x20 := fun c hc => if_pos hc
  have hother : ∀ c, Ascii.isUpper c = false → Ascii.toLower c = c := fun c hc =>
    if_neg (by simp [hc])
  constructor
  · intro h
    cases hc : Ascii.isUpper c <;> cases hd : Ascii.isUpper d
    · rw [hother c hc, hother d hd] at h
      exact .inl h
    · rw [hother c hc, hupper d hd] at h
      exact .inr (.inr ⟨hd, h⟩)
    · rw [hupper c hc, hother d hd] at h
      exact .inr (.inl ⟨hc, h.symm⟩)
    · rw [hupper c hc, hupper d hd] at h
      exact .inl (by simpa using h)
  · rintro (rfl | ⟨hc, rfl⟩ | ⟨hd, rfl⟩)
    · rfl
    · rw [hupper c hc, hother _ (hlower c hc)]
    · rw [hupper d hd, hother _ (hlower d hd)]

theorem equalFold_iff {a b : Bytes} : equalFold a b = true ↔ SameLetters a b := by
  rw [equalFold, beq_iff_eq, lower, lower, ← List.forall₂_eq_eq_eq, List.forall₂_map_left_iff,
    List.forall₂_map_right_iff]
  simp only [toLower_eq_toLower_iff, SameLetters]

theorem equalFold_comm (a b : Bytes) : equalFold a b = equalFold b a := by
  rw [equalFold, equalFold, BEq.comm]

/-- Texts that are equal up to case are equal up to case to the same texts. -/
theorem equalFold_congr {a b : Bytes} (h : equalFold a b = true) (c : Bytes) :
    equalFold a c = equalFold b c := by
  rw [equalFold, equalFold, beq_iff_eq.1 h]

/-! ## Decimal numbers -/

theorem ofNat_ne_nil (n : Nat) : ofNat n ≠ [] := by
  rw [ofNat, Ne, List.map_eq_nil_iff]
  exact Nat.toDigits_ne_nil

/-- A digit as a byte, and its value. -/
theorem byte_of_isDigit {c : Char} (h : c.isDigit = true) :
    Ascii.isDigit (Ascii.byte c) = true ∧
      (Ascii.byte c - Ascii.byte '0').toNat = c.toNat - '0'.toNat := by
  have values : ∀ n < 58, 48 ≤ n → Ascii.isDigit (UInt8.ofNat n) = true ∧
      (UInt8.ofNat n - Ascii.byte '0').toNat = n - '0'.toNat := by decide
  obtain ⟨hlow, hhigh⟩ := Char.isDigit_iff_toNat.1 h
  exact values c.toNat (Nat.lt_succ_of_le hhigh) hlow

theorem isDigit_of_mem_ofNat {n : Nat} {c : UInt8} (h : c ∈ ofNat n) : Ascii.isDigit c = true := by
  obtain ⟨d, hd, rfl⟩ := List.mem_map.1 h
  exact (byte_of_isDigit (Nat.isDigit_of_mem_toDigits (by decide) (by decide) hd)).1

/-- A number that was written is read again. -/
theorem toNat_ofNat (n : Nat) : toNat (ofNat n) = n := by
  rw [toNat, ofNat, List.foldl_map]
  calc (Nat.toDigits 10 n).foldl (fun k c => 10 * k + (Ascii.byte c - Ascii.byte '0').toNat) 0
      = Nat.ofDigitChars 10 (Nat.toDigits 10 n) 0 := by
        rw [Nat.ofDigitChars_eq_foldl]
        refine List.foldl_ext _ _ _ fun k c hc => ?_
        rw [(byte_of_isDigit (Nat.isDigit_of_mem_toDigits (by decide) (by decide) hc)).2]
    _ = n := Nat.ofDigitChars_ten_toDigits

/-- The byte of a digit. -/
def digit (d : Nat) : UInt8 := UInt8.ofNat ('0'.toNat + d)

/-- The strings of digits, of which there is at least one, and the numbers that they denote. -/
inductive Numeral : Bytes → Nat → Prop
  | digit {d : Nat} (hd : d < 10) : Numeral [digit d] d
  | append {s : Bytes} {n d : Nat} (front : Numeral s n) (hd : d < 10) :
      Numeral (s ++ [digit d]) (10 * n + d)

theorem isDigit_iff {c : UInt8} : Ascii.isDigit c = true ↔ ∃ d < 10, c = digit d :=
  forall_of_lt (p := fun c => Ascii.isDigit c = true ↔ ∃ d < 10, c = digit d)
    (by decide +kernel) c

theorem toNat_digit {d : Nat} (hd : d < 10) : toNat [digit d] = d := by
  have values : ∀ d < 10, toNat [digit d] = d := by decide
  exact values d hd

theorem toNat_concat_digit (s : Bytes) {d : Nat} (hd : d < 10) :
    toNat (s ++ [digit d]) = 10 * toNat s + d := by
  have values : ∀ d < 10, (digit d - Ascii.byte '0').toNat = d := by decide
  rw [toNat, List.foldl_append, List.foldl_cons, List.foldl_nil, values d hd, toNat]

/-- A string of digits denotes the number that is read from it. -/
theorem numeral_iff {s : Bytes} {n : Nat} :
    Numeral s n ↔ s ≠ [] ∧ (∀ c ∈ s, Ascii.isDigit c = true) ∧ toNat s = n := by
  constructor
  · intro h
    induction h with
    | digit hd =>
      refine ⟨List.cons_ne_nil _ _, ?_, toNat_digit hd⟩
      simpa using isDigit_iff.2 ⟨_, hd, rfl⟩
    | append front hd ih =>
      obtain ⟨-, hdigits, rfl⟩ := ih
      refine ⟨by simp, List.forall_mem_append.2 ⟨hdigits, ?_⟩, toNat_concat_digit _ hd⟩
      simpa using isDigit_iff.2 ⟨_, hd, rfl⟩
  · rintro ⟨hne, hdigits, rfl⟩
    induction s using List.reverseRecOn with
    | nil => exact absurd rfl hne
    | append_singleton s c ih =>
      obtain ⟨hfront, hlast⟩ := List.forall_mem_append.1 hdigits
      obtain ⟨d, hd, rfl⟩ := isDigit_iff.1 (hlast c (List.mem_singleton_self c))
      cases s with
      | nil =>
        rw [List.nil_append, toNat_digit hd]
        exact .digit hd
      | cons b s =>
        rw [toNat_concat_digit _ hd]
        exact .append (ih (List.cons_ne_nil _ _) hfront) hd

end Bytes

end JavaFloor
