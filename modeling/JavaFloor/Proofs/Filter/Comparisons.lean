import JavaFloor.Proofs.Filter.Reading
import JavaFloor.Proofs.Version.Order
import JavaFloor.Proofs.Version.Text

/-!
# Comparisons in filters

A comparison says that the version is at least, or at most, a bound, and a negation around it says
that it is not.

* `Literal.Holds` says when a version satisfies a comparison. By `Literal.holds_iff` that is so if
  it lies behind the floor or the ceiling that the comparison demands.
* `Node.comparisons` gathers the comparisons of a tree, each negated as often as it stands under a
  negation. They are those among the tree's literals (`Node.comparisons_eq`).
* `Node.forall_literals`: what holds of the literal of every item holds of every literal of a tree.
-/

namespace JavaFloor

/-! ## Comparisons -/

/-- `v` stands in the relation to `bound`. -/
def Relation.Holds (bound v : Version) : Relation → Prop
  | .atLeast => (bound.compare v).isLE
  | .atMost => (v.compare bound).isLE

namespace Literal

/-- `v` satisfies the literal, if this is a comparison. A literal of another kind rules nothing
out. -/
def Holds (v : Version) : Literal → Prop
  | ⟨false, .compare relation bound⟩ => relation.Holds bound v
  | ⟨true, .compare relation bound⟩ => ¬ relation.Holds bound v
  | _ => True

/-- The literal compares the version. -/
def isComparison : Literal → Bool
  | ⟨_, .compare _ _⟩ => true
  | _ => false

variable {l : Literal}

/-- What a literal demands is demanded by a comparison. -/
theorem term_of_demands {b : Bound} (h : l.floor? = some b ∨ l.ceiling? = some b) :
    ∃ relation, l.term = .compare relation b.version := by
  rcases l with ⟨_ | _, _ | _ | ⟨_ | _, v⟩⟩
  all_goals rcases h with h | h <;> cases h <;> exact ⟨_, rfl⟩

theorem isComparison_of_demands {b : Bound} (h : l.floor? = some b ∨ l.ceiling? = some b) :
    l.isComparison = true := by
  obtain ⟨relation, ht⟩ := term_of_demands h
  obtain ⟨negated, term⟩ := l
  cases ht
  rfl

/-- A comparison demands a floor or a ceiling. -/
theorem isSome_of_isComparison (h : l.isComparison = true) :
    l.floor?.isSome ∨ l.ceiling?.isSome := by
  rcases l with ⟨_ | _, _ | _ | ⟨_ | _, v⟩⟩
  all_goals first | exact .inl rfl | exact .inr rfl | cases h

/-- A version satisfies a comparison if it lies behind the bound that this demands. -/
theorem holds_iff (l : Literal) (v : Version) : l.Holds v ↔
    (∀ b ∈ l.floor?, b.IsBelow v) ∧ ∀ b ∈ l.ceiling?, b.IsAbove v := by
  obtain ⟨negated, term⟩ := l
  cases term with
  | attr | version => cases negated <;> simp [Holds, floor?, ceiling?]
  | compare relation bound =>
    have hbelow := Version.not_isLE_iff (a := bound) (b := v)
    have habove := Version.not_isLE_iff (a := v) (b := bound)
    cases relation with
    | atLeast =>
      cases negated with
      | false =>
        simp [Holds, Relation.Holds, floor?, ceiling?, Bound.IsBelow,
          Ordering.isLE_iff_eq_lt_or_eq_eq]
      | true =>
        simpa [Holds, Relation.Holds, floor?, ceiling?, Bound.IsAbove] using hbelow
    | atMost =>
      cases negated with
      | false =>
        simp [Holds, Relation.Holds, floor?, ceiling?, Bound.IsAbove,
          Ordering.isLE_iff_eq_lt_or_eq_eq]
      | true =>
        simpa [Holds, Relation.Holds, floor?, ceiling?, Bound.IsBelow] using habove

theorem holds_of_not_isComparison (h : ¬ l.isComparison = true) (v : Version) :
    l.Holds v := by
  obtain ⟨negated, term⟩ := l
  cases term with
  | attr | version => cases negated <;> trivial
  | compare => exact absurd rfl h

end Literal

namespace Filter

/-- The comparison that an item makes. -/
def itemComparison? (negated : Bool) (key : Bytes) (operator : Operator) (value : Bytes) :
    Option Literal :=
  if key = versionKey then
    match operator with
    | .greaterEqual =>
      (Version.parse value).toOption.map fun v => ⟨negated, .compare .atLeast v⟩
    | .lessEqual => (Version.parse value).toOption.map fun v => ⟨negated, .compare .atMost v⟩
    | .equal | .approximate => none
  else none

mutual

/-- The comparisons of a tree, at any depth. Two negations around one cancel. -/
def Node.comparisons (negated : Bool) : Node → List Literal
  | .item key operator value => (itemComparison? negated key operator value).toList
  | .not node => node.comparisons (!negated)
  | .all nodes => Node.allComparisons negated nodes

/-- The comparisons of several trees. -/
def Node.allComparisons (negated : Bool) : List Node → List Literal
  | [] => []
  | node :: nodes => node.comparisons negated ++ Node.allComparisons negated nodes

end

variable {f : Filter} {negated : Bool}

/-! ## What a tree means -/

/-- The term of an item is the version's, if it is one of a comparison. -/
theorem termOf_eq_ok {key value : Bytes} {operator : Operator} {t : Term}
    (h : termOf negated key operator value = .ok t) :
    (itemComparison? negated key operator value = none ∧
      ∀ relation bound, t ≠ .compare relation bound) ∨
    ∃ relation bound, t = .compare relation bound ∧ bound.IsRead ∧
      itemComparison? negated key operator value = some ⟨negated, t⟩ := by
  have compared : ∀ relation, comparison relation value = .ok t →
      ∃ bound, Version.parse value = .ok bound ∧ t = .compare relation bound := by
    intro relation hc
    rw [comparison] at hc
    cases hv : Version.parse value with
    | error e => simp [hv] at hc
    | ok bound =>
      rw [hv] at hc
      cases hc
      exact ⟨bound, rfl, rfl⟩
  unfold termOf at h
  unfold itemComparison?
  split at h
  next hkey =>
    rw [if_pos hkey]
    cases operator with
    | equal | approximate =>
      cases negated with
      | true => cases h
      | false =>
        cases h
        exact .inl ⟨rfl, nofun⟩
    | greaterEqual =>
      obtain ⟨bound, hv, rfl⟩ := compared .atLeast h
      exact .inr ⟨_, bound, rfl, Version.isRead_of_parse hv, by rw [hv]; rfl⟩
    | lessEqual =>
      obtain ⟨bound, hv, rfl⟩ := compared .atMost h
      exact .inr ⟨_, bound, rfl, Version.isRead_of_parse hv, by rw [hv]; rfl⟩
  next hkey =>
    rw [if_neg hkey]
    cases h
    exact .inl ⟨rfl, nofun⟩

theorem item_literals?_eq_some {key value : Bytes} {operator : Operator}
    (h : (Node.item key operator value).literals? negated = some f) :
    ∃ t, termOf negated key operator value = .ok t ∧ f = [⟨negated, t⟩] := by
  rw [Node.literals?] at h
  obtain ⟨t, ht, rfl⟩ := Option.map_eq_some_iff.1 h
  cases hterm : termOf negated key operator value with
  | error e => simp [hterm, Except.toOption] at ht
  | ok u =>
    rw [hterm] at ht
    cases ht
    exact ⟨t, rfl, rfl⟩

mutual

/-- The comparisons of a tree are those among its literals. -/
theorem Node.comparisons_eq (n : Node) {negated : Bool} {f : Filter}
    (h : n.literals? negated = some f) :
    n.comparisons negated = f.filter Literal.isComparison := by
  match n with
  | .item key operator value =>
    obtain ⟨t, ht, rfl⟩ := item_literals?_eq_some h
    rw [Node.comparisons]
    rcases termOf_eq_ok ht with ⟨hnone, hne⟩ | ⟨relation, bound, rfl, -, hsome⟩
    · rw [hnone]
      cases t with
      | compare relation bound => exact absurd rfl (hne relation bound)
      | attr | version => rfl
    · rw [hsome]
      rfl
  | .not n =>
    rw [Node.literals?] at h
    rw [Node.comparisons, n.comparisons_eq h]
  | .all ns =>
    rw [Node.literals?] at h
    split at h
    next => cases h
    next hneg =>
      rw [Node.comparisons, Bool.eq_false_iff.2 hneg, Node.allComparisons_eq ns h]

theorem Node.allComparisons_eq (ns : List Node) {f : Filter} (h : Node.allLiterals? ns = some f) :
    Node.allComparisons false ns = f.filter Literal.isComparison := by
  match ns with
  | [] =>
    rw [Node.allLiterals?] at h
    cases h
    rw [Node.allComparisons]
    rfl
  | n :: ns =>
    rw [Node.allLiterals?] at h
    obtain ⟨f₁, h₁, h⟩ := Option.bind_eq_some_iff.1 h
    obtain ⟨f₂, h₂, rfl⟩ := Option.map_eq_some_iff.1 h
    rw [Node.allComparisons, n.comparisons_eq h₁, Node.allComparisons_eq ns h₂, List.filter_append]

end

mutual

/-- What holds of the terms of all items holds of what a tree means. -/
theorem Node.forall_literals {P : Literal → Prop}
    (hP : ∀ {negated key operator value t}, termOf negated key operator value = .ok t →
      P ⟨negated, t⟩)
    (n : Node) {negated : Bool} {f : Filter} (h : n.literals? negated = some f) : ∀ l ∈ f, P l := by
  match n with
  | .item key operator value =>
    obtain ⟨t, ht, rfl⟩ := item_literals?_eq_some h
    intro l hl
    rw [List.mem_singleton.1 hl]
    exact hP ht
  | .not n =>
    rw [Node.literals?] at h
    exact n.forall_literals hP h
  | .all ns =>
    rw [Node.literals?] at h
    split at h
    next => cases h
    next => exact Node.forall_allLiterals hP ns h

theorem Node.forall_allLiterals {P : Literal → Prop}
    (hP : ∀ {negated key operator value t}, termOf negated key operator value = .ok t →
      P ⟨negated, t⟩)
    (ns : List Node) {f : Filter} (h : Node.allLiterals? ns = some f) : ∀ l ∈ f, P l := by
  match ns with
  | [] =>
    rw [Node.allLiterals?] at h
    cases h
    exact fun l hl => absurd hl List.not_mem_nil
  | n :: ns =>
    rw [Node.allLiterals?] at h
    obtain ⟨f₁, h₁, h⟩ := Option.bind_eq_some_iff.1 h
    obtain ⟨f₂, h₂, rfl⟩ := Option.map_eq_some_iff.1 h
    intro l hl
    rcases List.mem_append.1 hl with hl | hl
    · exact n.forall_literals hP h₁ l hl
    · exact Node.forall_allLiterals hP ns h₂ l hl

end

/-- A filter that was read compares with versions that were read. -/
theorem isRead_of_parse {s : Bytes} (h : parse s = .ok f) : ∀ l ∈ f,
    ∀ relation bound, l.term = .compare relation bound → bound.IsRead := by
  obtain ⟨n, -, hf⟩ := parse_eq_ok_iff.1 h
  refine n.forall_literals (fun ht relation bound heq => ?_) hf
  rcases termOf_eq_ok ht with ⟨-, hne⟩ | ⟨relation', bound', ht', hread, -⟩
  · exact absurd heq (hne relation bound)
  · cases ht'.symm.trans heq
    exact hread

end Filter

end JavaFloor
