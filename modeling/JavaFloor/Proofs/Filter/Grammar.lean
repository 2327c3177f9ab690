import JavaFloor.Filter.Reader
import JavaFloor.Proofs.Bytes
import JavaFloor.Proofs.Except

/-!
# The grammar of filters

A filter is a tree whose leaves are items. Between its tokens there may be gaps, and a backslash in
an item takes the next byte literally, so that a tree has many texts.

* `Spelled`, `SpelledBody` and `SpelledAll`: the texts of a tree, of what stands between its
  parentheses, and of several trees.
* `Node.literals?` is what a tree means: its items, each with its polarity, from left to right. A
  tree may mean nothing, as that of a negated conjunction does.
* `readItem_eq_ok_iff` and `splitItem_eq_ok_iff`: items are read off as far as `Escaped` goes, and
  parted as `IsItem` says.
-/

namespace JavaFloor

namespace Filter

/-! ## Trees and their texts -/

/-- A filter as it is written. -/
inductive Node
  | item (key : Bytes) (operator : Operator) (value : Bytes)
  | not (node : Node)
  | all (nodes : List Node)

/-- What stands in front of the equals sign of an operator. -/
def Operator.sign : Operator → Bytes
  | .equal => []
  | .greaterEqual => [Ascii.byte '>']
  | .lessEqual => [Ascii.byte '<']
  | .approximate => [Ascii.byte '~']

/-- Blanks and tabs, which are skipped between tokens. -/
def isBlank (c : UInt8) : Bool := c == Ascii.space || c == Ascii.tab

/-- The bytes that open a body other than an item, if any. -/
def IsConnective (c : UInt8) : Prop :=
  c = Ascii.byte '&' ∨ c = Ascii.byte '!' ∨ c = Ascii.byte '|'

instance : DecidablePred IsConnective := fun _ => inferInstanceAs (Decidable (_ ∨ _))

/-- Nothing but blanks and tabs. -/
def IsGap (s : Bytes) : Prop := ∀ c ∈ s, isBlank c = true

/-- `raw` stands for `text`. A backslash takes the next byte literally, and no parenthesis stands
bare. -/
inductive Escaped : Bytes → Bytes → Prop
  | nil : Escaped [] []
  | bare {c : UInt8} {raw text : Bytes}
      (plain : c ≠ Ascii.byte '(' ∧ c ≠ Ascii.byte ')' ∧ c ≠ Ascii.backslash)
      (rest : Escaped raw text) : Escaped (c :: raw) (c :: text)
  | literal {c : UInt8} {raw text : Bytes} (rest : Escaped raw text) :
      Escaped (Ascii.backslash :: c :: raw) (c :: text)

/-- The bytes in front of the equals sign are those of an operator with a sign. -/
def EndsInSign (s : Bytes) : Prop :=
  ∃ c ∈ s.getLast?, c = Ascii.byte '>' ∨ c = Ascii.byte '<' ∨ c = Ascii.byte '~'

/-- The text of an item is `key OP value`. The equals sign is its first one. -/
inductive IsItem : Bytes → Bytes → Operator → Bytes → Prop
  | intro {before after : Bytes} (operator : Operator) (first : Ascii.byte '=' ∉ before)
      (plain : operator = .equal → ¬ EndsInSign before) (key : Bytes.trim before ≠ [])
      (value : Bytes.trim after ≠ []) :
      IsItem (before ++ (operator.sign ++ Ascii.byte '=' :: after)) (Bytes.trim before) operator
        (Bytes.trim after)

mutual

/-- A text of the tree: a body between parentheses. -/
inductive Spelled : Node → Bytes → Prop
  | node {n : Node} {front gap body : Bytes} (hfront : IsGap front) (hgap : IsGap gap)
      (hbody : SpelledBody n body) :
      Spelled n (front ++ Ascii.byte '(' :: (gap ++ (body ++ [Ascii.byte ')'])))

/-- A text between the parentheses of the tree. -/
inductive SpelledBody : Node → Bytes → Prop
  | item {raw text key value : Bytes} {operator : Operator} (escaped : Escaped raw text)
      (opens : ∀ c ∈ raw.head?, isBlank c = false ∧ ¬ IsConnective c)
      (item : IsItem text key operator value) :
      SpelledBody (.item key operator value) raw
  | not {n : Node} {text gap : Bytes} (node : Spelled n text) (hgap : IsGap gap) :
      SpelledBody (.not n) (Ascii.byte '!' :: (text ++ gap))
  | all {ns : List Node} {text gap : Bytes} (nodes : SpelledAll ns text) (hgap : IsGap gap) :
      SpelledBody (.all ns) (Ascii.byte '&' :: (text ++ gap))

/-- The texts of several trees, one behind the other. -/
inductive SpelledAll : List Node → Bytes → Prop
  | nil : SpelledAll [] []
  | cons {n : Node} {ns : List Node} {text more : Bytes} (node : Spelled n text)
      (nodes : SpelledAll ns more) : SpelledAll (n :: ns) (text ++ more)

end

/-! ## Meaning -/

mutual

/-- The literals of a tree under an odd number of negations, or under an even one. -/
def Node.literals? (negated : Bool) : Node → Option Filter
  | .item key operator value =>
    (termOf negated key operator value).toOption.map fun term => [⟨negated, term⟩]
  | .not node => node.literals? (!negated)
  | .all nodes => if negated then none else Node.allLiterals? nodes

/-- The literals of several trees under no negation. -/
def Node.allLiterals? : List Node → Option Filter
  | [] => some []
  | node :: nodes =>
    (node.literals? false).bind fun f => (Node.allLiterals? nodes).map fun more => f ++ more

end

/-! ## Gaps -/

variable {s t rest rest' : Bytes} {f : Filter} {negated : Bool}

theorem isGap_nil : IsGap [] := fun _ hc => absurd hc List.not_mem_nil

theorem IsGap.append {a b : Bytes} (ha : IsGap a) (hb : IsGap b) : IsGap (a ++ b) := fun c hc =>
  (List.mem_append.1 hc).elim (ha c) (hb c)

theorem skipBlanks_append {gap : Bytes} (h : IsGap gap) (s : Bytes) :
    skipBlanks (gap ++ s) = skipBlanks s :=
  List.dropWhile_append_of_pos h

/-- Nothing is skipped in front of a byte that is neither a blank nor a tab. -/
theorem skipBlanks_eq_self (h : ∀ c ∈ s.head?, isBlank c = false) : skipBlanks s = s :=
  Bytes.dropWhile_of_head h

theorem exists_gap (s : Bytes) : ∃ gap, IsGap gap ∧ s = gap ++ skipBlanks s :=
  ⟨s.takeWhile isBlank, fun _ hc => List.mem_takeWhile_imp hc, List.takeWhile_append_dropWhile.symm⟩

/-- What is left behind a gap does not start with a blank or a tab. -/
theorem head_skipBlanks (s : Bytes) : ∀ c ∈ (skipBlanks s).head?, isBlank c = false := by
  intro c hc
  have hs := List.head?_dropWhile_not isBlank s
  change c ∈ (s.dropWhile isBlank).head? at hc
  rw [Option.mem_def.1 hc] at hs
  exact hs

/-! ## Items -/

theorem readItem_close (s : Bytes) :
    readItem (Ascii.byte ')' :: s) = .ok ([], Ascii.byte ')' :: s) := by
  rw [readItem.eq_def]
  rfl

theorem readItem_bare {c : UInt8}
    (h : c ≠ Ascii.byte '(' ∧ c ≠ Ascii.byte ')' ∧ c ≠ Ascii.backslash) (s : Bytes) :
    readItem (c :: s) = (readItem s).map fun r => (c :: r.1, r.2) := by
  rw [readItem.eq_def]
  simp only [h.1, h.2.1, h.2.2, if_false]

theorem readItem_literal (c : UInt8) (s : Bytes) :
    readItem (Ascii.backslash :: c :: s) = (readItem s).map fun r => (c :: r.1, r.2) := by
  rw [readItem.eq_def]
  rfl

/-- An item goes up to the first bare parenthesis, which has to be a closing one. -/
theorem readItem_eq_ok_iff {item : Bytes} : readItem s = .ok (item, rest) ↔
    ∃ raw behind, s = raw ++ Ascii.byte ')' :: behind ∧ rest = Ascii.byte ')' :: behind ∧
      Escaped raw item := by
  constructor
  · intro h
    fun_induction readItem s generalizing item with
    | case1 => cases h
    | case2 s =>
      cases h
      exact ⟨[], s, rfl, rfl, .nil⟩
    | case3 => cases h
    | case4 => cases h
    | case5 d s _ _ ih =>
      obtain ⟨⟨text, rest'⟩, hr, heq⟩ := map_eq_ok h
      cases heq
      obtain ⟨raw, behind, rfl, rfl, he⟩ := ih hr
      exact ⟨Ascii.backslash :: d :: raw, behind, rfl, rfl, .literal he⟩
    | case6 c s hclose hopen hslash ih =>
      obtain ⟨⟨text, rest'⟩, hr, heq⟩ := map_eq_ok h
      cases heq
      obtain ⟨raw, behind, rfl, rfl, he⟩ := ih hr
      exact ⟨c :: raw, behind, rfl, rfl, .bare ⟨hopen, hclose, hslash⟩ he⟩
  · rintro ⟨raw, behind, rfl, rfl, h⟩
    induction h with
    | nil => exact readItem_close behind
    | bare plain _ ih => rw [List.cons_append, readItem_bare plain, ih]; rfl
    | literal _ ih => rw [List.cons_append, List.cons_append, readItem_literal, ih]; rfl

theorem equals_notMem_sign (operator : Operator) : Ascii.byte '=' ∉ operator.sign := by
  cases operator <;> decide

/-- The key and the operator are told from what stands in front of the equals sign. -/
theorem splitOperator_eq_iff {before key : Bytes} {operator : Operator} :
    splitOperator before = (key, operator) ↔
      before = key ++ operator.sign ∧ (operator = .equal → ¬ EndsInSign key) := by
  rcases List.eq_nil_or_concat before with rfl | ⟨front, c, hconcat⟩
  · constructor
    · intro h
      cases h
      exact ⟨rfl, fun _ ⟨c, hc, _⟩ => by cases hc⟩
    · rintro ⟨h, -⟩
      obtain ⟨rfl, hsign⟩ := List.append_eq_nil_iff.1 h.symm
      cases operator <;> first | rfl | cases hsign
  · rw [List.concat_eq_append] at hconcat
    subst hconcat
    have hlast : ∀ d, EndsInSign (front ++ [d]) ↔
        d = Ascii.byte '>' ∨ d = Ascii.byte '<' ∨ d = Ascii.byte '~' := by
      simp [EndsInSign]
    have hsplit : splitOperator (front ++ [c]) =
        if c = Ascii.byte '>' then (front, .greaterEqual)
        else if c = Ascii.byte '<' then (front, .lessEqual)
        else if c = Ascii.byte '~' then (front, .approximate)
        else (front ++ [c], .equal) := by
      simp only [splitOperator, List.getLast?_append, List.getLast?_singleton, Option.some_or,
        List.dropLast_concat]
    rw [hsplit]
    constructor
    · intro h
      split at h
      next hc => cases h; exact ⟨by rw [hc]; rfl, nofun⟩
      next hgt =>
        split at h
        next hc => cases h; exact ⟨by rw [hc]; rfl, nofun⟩
        next hlt =>
          split at h
          next hc => cases h; exact ⟨by rw [hc]; rfl, nofun⟩
          next htilde =>
            cases h
            refine ⟨(List.append_nil _).symm, fun _ he => ?_⟩
            exact ((hlast c).1 he).elim hgt fun h => h.elim hlt htilde
    · rintro ⟨h, hplain⟩
      cases operator with
      | equal =>
        rw [Operator.sign, List.append_nil] at h
        have hc := mt (hlast c).2 (h ▸ hplain rfl)
        simp only [not_or] at hc
        rw [if_neg hc.1, if_neg hc.2.1, if_neg hc.2.2, h]
      | greaterEqual =>
        obtain ⟨rfl, hc⟩ := List.append_inj' h rfl
        cases hc
        rfl
      | lessEqual =>
        obtain ⟨rfl, hc⟩ := List.append_inj' h rfl
        cases hc
        rfl
      | approximate =>
        obtain ⟨rfl, hc⟩ := List.append_inj' h rfl
        cases hc
        rfl

theorem splitItem_eq_ok_iff {item key value : Bytes} {operator : Operator} :
    splitItem item = .ok (key, operator, value) ↔ IsItem item key operator value := by
  constructor
  · intro h
    have hitem : item.takeWhile (· != Ascii.byte '=') ++ item.dropWhile (· != Ascii.byte '=') =
        item :=
      List.takeWhile_append_dropWhile
    have hfirst : Ascii.byte '=' ∉ item.takeWhile (· != Ascii.byte '=') := fun hc => by
      simpa using List.mem_takeWhile_imp hc
    have hhead := List.head?_dropWhile_not (· != Ascii.byte '=') item
    rw [splitItem] at h
    generalize item.takeWhile (· != Ascii.byte '=') = before at *
    generalize item.dropWhile (· != Ascii.byte '=') = behind at *
    cases behind with
    | nil => cases h
    | cons c after =>
      have hc : c = Ascii.byte '=' := by simpa using hhead
      cases hs : splitOperator before with
      | mk rawKey op =>
        simp only [hs] at h
        split at h
        next => cases h
        next =>
          split at h
          next => cases h
          next hne =>
            cases h
            obtain ⟨rfl, hplain⟩ := splitOperator_eq_iff.1 hs
            obtain ⟨hkey, hvalue⟩ := not_or.1 hne
            rw [← hitem, hc, List.append_assoc]
            exact .intro operator (fun hm => hfirst (List.mem_append_left _ hm)) hplain hkey hvalue
  · intro h
    cases h with
    | @intro before after operator hfirst hplain hkey hvalue =>
      have hnone : Ascii.byte '=' ∉ before ++ operator.sign := fun hm =>
        (List.mem_append.1 hm).elim hfirst (equals_notMem_sign operator)
      have hbefore : before ++ operator.sign ≠ [] := fun h =>
        hkey (by rw [(List.append_eq_nil_iff.1 h).1]; rfl)
      obtain ⟨htake, hdrop⟩ := Bytes.takeWhile_dropWhile_of_notMem hnone after
      rw [← List.append_assoc, splitItem]
      simp only [htake, hdrop, hbefore, splitOperator_eq_iff.2 ⟨rfl, hplain⟩, hkey, hvalue, or_self,
        if_false]

theorem IsItem.literalOf_eq_ok_iff {item key value : Bytes} {operator : Operator} {l : Literal}
    (h : IsItem item key operator value) : literalOf negated item = .ok l ↔
      (Node.item key operator value).literals? negated = some [l] := by
  rw [literalOf, splitItem_eq_ok_iff.2 h, Node.literals?]
  change (termOf negated key operator value).map (Literal.mk negated) = .ok l ↔ _
  cases termOf negated key operator value with
  | error e => simp [Except.map, Except.toOption]
  | ok t => simp [Except.map, Except.toOption]

theorem exists_isItem {item : Bytes} {l : Literal} (h : literalOf negated item = .ok l) :
    ∃ key operator value, IsItem item key operator value := by
  rw [literalOf] at h
  cases hs : splitItem item with
  | error e => simp [hs] at h
  | ok parts => exact ⟨_, _, _, splitItem_eq_ok_iff.1 hs⟩

/-! ## Texts without gaps -/

theorem Spelled.of_body {n : Node} {body : Bytes} (h : SpelledBody n body) :
    Spelled n (Ascii.byte '(' :: (body ++ [Ascii.byte ')'])) :=
  .node isGap_nil isGap_nil h

/-- A text without parentheses and backslashes stands for itself. -/
theorem Escaped.self {text : Bytes}
    (h : ∀ c ∈ text, c ≠ Ascii.byte '(' ∧ c ≠ Ascii.byte ')' ∧ c ≠ Ascii.backslash) :
    Escaped text text := by
  induction text with
  | nil => exact .nil
  | cons c text ih =>
    rw [List.forall_mem_cons] at h
    exact .bare h.1 (ih h.2)

/-- An item between parentheses, without gaps and with nothing to be escaped. -/
theorem Spelled.plain (text : Bytes) {key value : Bytes} {operator : Operator}
    (bare : ∀ c ∈ text, c ≠ Ascii.byte '(' ∧ c ≠ Ascii.byte ')' ∧ c ≠ Ascii.backslash)
    (opens : ∀ c ∈ text.head?, isBlank c = false ∧ ¬ IsConnective c)
    (split : splitItem text = .ok (key, operator, value)) :
    Spelled (.item key operator value) (Ascii.byte '(' :: (text ++ [Ascii.byte ')'])) :=
  .of_body (.item (.self bare) opens (splitItem_eq_ok_iff.1 split))

end Filter

end JavaFloor
