import JavaFloor.Filter.Literal

/-!
# Reading filters

Between its tokens a filter may have blanks and tabs. A node is a body between parentheses, and a
body is `&` and any number of nodes, `!` and one node, or an item `key OP value` with an operator
among `=`, `>=`, `<=` and `~=`. In an item a backslash takes the next byte literally.

* `Filter.parse` reads a whole filter, whitespace around it apart.
* `readNode`, `readBody` and `readNodes` descend along the grammar. Each gives the literals it
  found and the text behind them, with a proof that this text is shorter. They are told whether
  an odd number of negations stands around them.
* A fault is found at the first byte that cannot continue a filter; `FilterError.message` counts
  its offset from the start of the filter.
-/

namespace JavaFloor

/-- What is wrong at some place of a filter. -/
inductive FilterFault
  | expectedOpening
  | expectedClosing
  | unexpectedOpening
  | unbalanced
  /-- A conjunction under an odd number of negations. -/
  | negatedConjunction
  | disjunction
  /-- An item has no equals sign, or starts with it. -/
  | noOperator
  /-- An item lacks its key or its value. -/
  | incomplete (item : Bytes)
  /-- A `version=x` under an odd number of negations. -/
  | negatedEquality
  /-- A comparison with something that is not a version. -/
  | badVersion (error : VersionError)
  /-- The filter is complete, but the text goes on. -/
  | trailing
  deriving DecidableEq

namespace FilterFault

/-- The text shown to the user. -/
def message : FilterFault → Bytes
  | expectedOpening => ascii "expected '('"
  | expectedClosing => ascii "expected ')'"
  | unexpectedOpening => ascii "unexpected '('"
  | unbalanced => ascii "unbalanced parentheses"
  | negatedConjunction => ascii "unsupported negated conjunction"
  | disjunction => ascii "unsupported filter operator '|'"
  | noOperator => ascii "filter term without operator"
  | incomplete item => ascii "incomplete filter term " ++ Bytes.quoted item
  | negatedEquality => ascii "unsupported negated version equality"
  | badVersion error => error.message
  | trailing => ascii "trailing characters after filter"

end FilterFault

/-- Why a text is not a filter. -/
inductive FilterError
  /-- Nothing but whitespace. -/
  | empty
  /-- A fault at an offset of the filter `text`. -/
  | malformed (fault : FilterFault) (offset : Nat) (text : Bytes)
  deriving DecidableEq

namespace FilterError

/-- The text shown to the user. -/
def message : FilterError → Bytes
  | empty => ascii "empty filter"
  | malformed fault offset text =>
    fault.message ++ ascii " at offset " ++ Bytes.ofNat offset ++ ascii " in filter " ++
      Bytes.quoted text

end FilterError

namespace Filter

/-- A fault and the number of bytes from its place to the end of the text. -/
structure Stop where
  fault : FilterFault
  remaining : Nat

/-- A stop in front of the text `s`. -/
def stop {α : Type} (fault : FilterFault) (s : Bytes) : Except Stop α := .error ⟨fault, s.length⟩

/-- The text behind the blanks and tabs it starts with. -/
def skipBlanks (s : Bytes) : Bytes := s.dropWhile fun c => c == Ascii.space || c == Ascii.tab

theorem skipBlanks_length_le (s : Bytes) : (skipBlanks s).length ≤ s.length :=
  (List.dropWhile_suffix _).sublist.length_le

/-- The bytes of an item and the text from its closing parenthesis on. -/
def readItem : Bytes → Except Stop (Bytes × Bytes)
  | [] => stop .unbalanced []
  | c :: s =>
    if c = Ascii.byte ')' then .ok ([], c :: s)
    else if c = Ascii.byte '(' then stop .unexpectedOpening (c :: s)
    else if c = Ascii.backslash then
      match s with
      | [] => stop .unbalanced []
      | d :: s => (readItem s).map fun r => (d :: r.1, r.2)
    else (readItem s).map fun r => (c :: r.1, r.2)

theorem readItem_length_le {s : Bytes} {r : Bytes × Bytes} (h : readItem s = .ok r) :
    r.2.length ≤ s.length := by
  fun_induction readItem s generalizing r with
  | case1 | case3 | case4 => simp [stop] at h
  | case2 => simp_all; subst h; simp
  | case5 d s _ _ ih =>
    cases hr : readItem s with
    | error e => simp [hr, Except.map] at h
    | ok q =>
      simp only [hr, Except.map, Except.ok.injEq] at h
      subst h
      have := ih hr
      simp only [List.length_cons]
      omega
  | case6 c s _ _ _ ih =>
    cases hr : readItem s with
    | error e => simp [hr, Except.map] at h
    | ok q =>
      simp only [hr, Except.map, Except.ok.injEq] at h
      subst h
      have := ih hr
      simp only [List.length_cons]
      omega

/-- The operator of an item. -/
inductive Operator
  | equal
  | greaterEqual
  | lessEqual
  | approximate
  deriving DecidableEq

/-- Parts what stands before the equals sign into the key and the operator. -/
def splitOperator (before : Bytes) : Bytes × Operator :=
  match before.getLast? with
  | none => (before, .equal)
  | some c =>
    if c = Ascii.byte '>' then (before.dropLast, .greaterEqual)
    else if c = Ascii.byte '<' then (before.dropLast, .lessEqual)
    else if c = Ascii.byte '~' then (before.dropLast, .approximate)
    else (before, .equal)

/-- Parts an item into its key, operator and value, the whitespace around key and value
dropped. -/
def splitItem (item : Bytes) : Except FilterFault (Bytes × Operator × Bytes) :=
  let before := item.takeWhile (· != Ascii.byte '=')
  match item.dropWhile (· != Ascii.byte '=') with
  | [] => .error .noOperator
  | _ :: after =>
    if before = [] then .error .noOperator
    else
      let (key, operator) := splitOperator before
      if Bytes.trim key = [] ∨ Bytes.trim after = [] then .error (.incomplete item)
      else .ok (Bytes.trim key, operator, Bytes.trim after)

/-- A comparison of the version with a text. -/
def comparison (relation : Relation) (value : Bytes) : Except FilterFault Term :=
  match Version.parse value with
  | .ok v => .ok (.compare relation v)
  | .error e => .error (.badVersion e)

/-- The term of a key, an operator and a value. The operator of an attribute other than the version
makes no difference. -/
def termOf (negated : Bool) (key : Bytes) (operator : Operator) (value : Bytes) :
    Except FilterFault Term :=
  if key = versionKey then
    match operator with
    | .equal | .approximate =>
      if negated then .error .negatedEquality else .ok (.version value)
    | .greaterEqual => comparison .atLeast value
    | .lessEqual => comparison .atMost value
  else .ok (.attr key value)

/-- The literal of an item. -/
def literalOf (negated : Bool) (item : Bytes) : Except FilterFault Literal :=
  match splitItem item with
  | .error e => .error e
  | .ok (key, operator, value) => (termOf negated key operator value).map (⟨negated, ·⟩)

mutual

/-- Reads a node and gives its literals and the text behind it. -/
def readNode (negated : Bool) (s : Bytes) :
    Except Stop { r : Filter × Bytes // r.2.length < s.length } :=
  match h : skipBlanks s with
  | [] => stop .expectedOpening []
  | c :: s₁ =>
    if c = Ascii.byte '(' then
      match readBody negated (skipBlanks s₁) with
      | .error e => .error e
      | .ok ⟨(literals, s₂), h₂⟩ =>
        match h₃ : skipBlanks s₂ with
        | [] => stop .expectedClosing []
        | d :: s₃ =>
          if d = Ascii.byte ')' then
            .ok ⟨(literals, s₃), by
              have a := skipBlanks_length_le s
              have b := skipBlanks_length_le s₁
              have c := skipBlanks_length_le s₂
              rw [h] at a
              rw [h₃] at c
              simp only [List.length_cons] at a c h₂ ⊢
              omega⟩
          else stop .expectedClosing (d :: s₃)
    else stop .expectedOpening (c :: s₁)
termination_by (s.length, 0)
decreasing_by
  have a := skipBlanks_length_le s
  have b := skipBlanks_length_le s₁
  rw [h] at a
  simp only [List.length_cons] at a
  exact Prod.Lex.left _ _ (by omega)

/-- Reads what stands between the parentheses of a node, the blanks in front of it skipped. -/
def readBody (negated : Bool) (s : Bytes) :
    Except Stop { r : Filter × Bytes // r.2.length ≤ s.length } :=
  match s with
  | [] => stop .unbalanced []
  | c :: s₁ =>
    if c = Ascii.byte '&' then
      if negated then stop .negatedConjunction (c :: s₁)
      else
        match readNodes (skipBlanks s₁) with
        | .error e => .error e
        | .ok ⟨(literals, s₂), h₂⟩ =>
          .ok ⟨(literals, s₂), by
            have a := skipBlanks_length_le s₁
            simp only [List.length_cons] at h₂ ⊢
            omega⟩
    else if c = Ascii.byte '!' then
      match readNode (!negated) s₁ with
      | .error e => .error e
      | .ok ⟨(literals, s₂), h₂⟩ =>
        .ok ⟨(literals, s₂), by simp only [List.length_cons] at h₂ ⊢; omega⟩
    else if c = Ascii.byte '|' then stop .disjunction (c :: s₁)
    else
      match h : readItem (c :: s₁) with
      | .error e => .error e
      | .ok (item, s₂) =>
        match literalOf negated item with
        | .error fault => stop fault s₂
        | .ok literal => .ok ⟨([literal], s₂), readItem_length_le h⟩
termination_by (s.length, 0)
decreasing_by
  · have a := skipBlanks_length_le s₁
    exact Prod.Lex.left _ _ (by simp only [List.length_cons]; omega)
  · exact Prod.Lex.left _ _ (by simp only [List.length_cons]; omega)

/-- Reads nodes, none of them negated, as long as one opens. -/
def readNodes (s : Bytes) : Except Stop { r : Filter × Bytes // r.2.length ≤ s.length } :=
  if s.head? = some (Ascii.byte '(') then
    match readNode false s with
    | .error e => .error e
    | .ok ⟨(literals, s₁), h₁⟩ =>
      match readNodes (skipBlanks s₁) with
      | .error e => .error e
      | .ok ⟨(more, s₂), h₂⟩ =>
        .ok ⟨(literals ++ more, s₂), by
          have a := skipBlanks_length_le s₁
          simp only at h₁ h₂ ⊢
          omega⟩
  else .ok ⟨([], s), Nat.le_refl _⟩
termination_by (s.length, 1)
decreasing_by
  · exact Prod.Lex.right _ (by omega)
  · have a := skipBlanks_length_le s₁
    exact Prod.Lex.left _ _ (by simp only at h₁; omega)

end

/-- Reads a text that is one node and nothing else. -/
def readWhole (text : Bytes) : Except Stop Filter :=
  match readNode false text with
  | .error e => .error e
  | .ok ⟨(literals, rest), _⟩ =>
    match skipBlanks rest with
    | [] => .ok literals
    | c :: rest => stop .trailing (c :: rest)

/-- Reads a filter. -/
def parse (s : Bytes) : Except FilterError Filter :=
  let text := Bytes.trim s
  if text = [] then .error .empty
  else
    (readWhole text).mapError fun e => .malformed e.fault (text.length - e.remaining) text

end Filter

end JavaFloor
